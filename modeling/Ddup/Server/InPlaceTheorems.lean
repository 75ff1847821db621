/-
Ddup.Server.InPlaceTheorems — the accounts and the change marks of commands that edit an
object through its pointer.

A command keeps its books (`Booked`) if `used_memory` has moved by what the entries weigh
more or less, and if every key whose contents changed has been marked: the dirty count
and the version of the key have moved. `Ledger` follows a command from call to call and
keeps what it owes; what a plan owes is read off its three stretches.
-/
import Ddup.Server.ContainerTheorems
import Ddup.Server.HashFields
import Ddup.Server.StreamGroups
import Ddup.Store.AccountingTheorems

namespace Ddup.Server

open Ddup.Lib Ddup.Resp Ddup.Store

variable {d' d₁ d₂ : Db} {q : Request ZsetObj} {v w : Obj}

/-! ## Touches -/

/-- `db_touch_key` has been called `n` times, for key `k`. -/
structure Touched (k : Bytes) (n : Nat) (d d' : Db) : Prop where
  refs : d'.watchRefs = d.watchRefs
  dirty : d'.dirty = d.dirty + n
  version : ∀ k', dbKeyVersion d' k' =
    dbKeyVersion d k' + if k' = k ∧ 0 < d.watchRefs then n else 0

namespace Touched

variable {k : Bytes} (d : Db)

theorem still {d : Db} (hrefs : d'.watchRefs = d.watchRefs) (hdirty : d'.dirty = d.dirty)
    (hversions : d'.keyvers = d.keyvers) : Touched k 0 d d' :=
  ⟨hrefs, hdirty, fun k' => by rw [dbKeyVersion, hversions, ite_self]; rfl⟩

theorem refl : Touched k 0 d d := still rfl rfl rfl

theorem trans {n m : Nat} {d : Db} (h₁ : Touched k n d d₁) (h₂ : Touched k m d₁ d₂) :
    Touched k (n + m) d d₂ where
  refs := h₂.refs.trans h₁.refs
  dirty := by rw [h₂.dirty, h₁.dirty, Nat.add_assoc]
  version := fun k' => by
    rw [h₂.version, h₁.version, h₁.refs]
    split <;> omega

theorem touch (hk : k.length ≤ uint32Max) : Touched k 1 d (dbTouchKey d k) := by
  unfold dbTouchKey
  rw [if_neg (Nat.not_lt.mpr hk)]
  split
  · rename_i hrefs
    exact ⟨rfl, rfl, fun k' => by simp [dbKeyVersion, hrefs]⟩
  rename_i hrefs
  refine ⟨rfl, rfl, fun k' => ?_⟩
  by_cases hkey : k' = k
  · subst hkey
    simp [dbKeyVersion, Nat.pos_of_ne_zero hrefs]
  · simp [dbKeyVersion, hkey]

theorem dropTier (d : Db) (v : Obj) : Touched k 0 d (dropTier d v) := by
  unfold Store.dropTier
  split
  · split
    · exact .refl d
    · exact still rfl rfl rfl
  · exact .refl d

theorem clearExpiry (d : Db) (k : Bytes) : Touched k 0 d (clearExpiry d k) := by
  unfold Store.clearExpiry
  split
  · exact still rfl rfl rfl
  · exact .refl d

theorem removeEntry (d : Db) (k : Bytes) (v : Obj) (keepObj : Bool) :
    Touched k 0 d (removeEntry d k v keepObj) := by
  have hdrop : Touched k 0 d (if keepObj then d else Store.dropTier d v) := by
    split
    · exact .refl d
    · exact .dropTier d v
  have hclear := hdrop.trans (.clearExpiry _ k)
  exact ⟨hclear.refs, hclear.dirty, hclear.version⟩

theorem expire (k : Bytes) (now : Nat) : ∃ n, Touched k n d (dbExpireIfNeeded d k now) := by
  unfold dbExpireIfNeeded
  split
  · exact ⟨0, .refl d⟩
  rename_i hlen
  have htouch d := touch d (Nat.not_lt.mp hlen)
  split
  · exact ⟨0, .refl d⟩
  split
  · exact ⟨0, .refl d⟩
  split
  · exact ⟨_, (clearExpiry d k).trans (htouch _)⟩
  · exact ⟨_, (removeEntry d k _ false).trans (htouch _)⟩

theorem putEntry (d : Db) (k : Bytes) (v : Obj) (hk : k.length ≤ uint32Max) :
    Touched k 0 d (putEntry d k v hk) := still rfl rfl rfl

theorem releaseOld (d : Db) (k : Bytes) : Touched k 0 d (releaseOld d k) := by
  unfold Store.releaseOld
  split
  · exact .refl d
  · have hdrop := dropTier (k := k) d ‹Obj›
    exact ⟨hdrop.refs, hdrop.dirty, hdrop.version⟩

theorem setKv {k : Bytes} (keepTtl : Bool) (h : storable k v = true) :
    Touched k 1 d (dbSetKv d k v keepTtl) := by
  have hclear : Touched k 0 d (if keepTtl then d else Store.clearExpiry d k) := by
    split
    · exact .refl d
    · exact .clearExpiry d k
  rw [dbSetKv, dif_pos h]
  exact ((hclear.trans (.releaseOld _ k)).trans (.putEntry _ k v (storable_key h))).trans
    (.touch _ (storable_key h))

theorem delKv {d : Db} {k : Bytes} (h : d.table.lookup k = some w) :
    Touched k 1 d (dbDelKv d k false).1 := by
  have hk : k.length ≤ uint32Max := d.short k (Finmap.mem_of_lookup_eq_some h)
  simp only [dbDelKv, if_neg (Nat.not_lt.mpr hk), h]
  exact (removeEntry d k w false).trans (.touch _ hk)

theorem edit (k : Bytes) (v : Obj) : Touched k 0 d (editEntry d k v) := by
  unfold editEntry
  split
  · exact still rfl rfl rfl
  · exact .refl d

theorem setExpiry (k : Bytes) (t : Nat) : Touched k 0 d (dbSetExpiry d k t) := by
  unfold dbSetExpiry
  split
  · exact .refl d
  split
  · exact still rfl rfl rfl
  · exact .refl d

theorem restoreKey (d : Db) {k : Bytes} (expire : Nat) (h : storable k v = true) :
    Touched k 1 d (restoreKey d k v expire) := by
  unfold Store.restoreKey
  dsimp only
  split
  · exact .setKv d false h
  · exact (setKv d false h).trans (.setExpiry _ k expire)

end Touched

variable {d : Db} {k : Bytes} {now : Nat} {t : Option Nat}

/-- The object a lookup of a stored entry gives, with its memory counter. -/
def heldEntry (tier : Option Tier) (now : Nat) (x : Option Obj × Option Nat) : Option Obj :=
  match liveEntry now x with
  | none => none
  | some (.tier rid _, _) => (tier.bind (·.get rid)).map Prod.fst
  | some (v, _) => some v

def heldAt (now : Nat) (d : Db) (k : Bytes) : Option Obj := heldEntry d.tier now (d.entry k)

theorem heldAt_congr (now : Nat) (htier : d'.tier = d.tier)
    (hentry : d'.entry k = d.entry k) : heldAt now d' k = heldAt now d k := by
  rw [heldAt, heldAt, htier, hentry]

theorem heldAt_of_live
    (hlive : d.live now k = some (v, t)) (hhot : v.isHot = true) : heldAt now d k = some v := by
  rw [Db.live] at hlive
  rw [heldAt, heldEntry, hlive]
  cases v with
  | tier rid ex => cases hhot
  | _ => rfl

theorem heldAt_of_dead (hlive : d.live now k = none) : heldAt now d k = none := by
  rw [Db.live] at hlive
  rw [heldAt, heldEntry, hlive]

theorem dbGet_held (hcold : ColdOk d) (k : Bytes) (now : Nat) :
    (dbGet d k now).2 = heldAt now d k := by
  have htable := dbExpireIfNeeded_table d k now
  unfold dbGet lookupHot
  cases hlive : d.live now k with
  | none =>
    rw [hlive] at htable
    rw [heldAt_of_dead hlive, htable]
    rfl
  | some x =>
    obtain ⟨w, t⟩ := x
    have hsame : dbExpireIfNeeded d k now = d := dbExpireIfNeeded_of_live (by rw [hlive]; rfl)
    rw [hlive] at htable
    rw [hsame] at htable ⊢
    rw [htable]
    cases w with
    | tier rid ex =>
      have hlive' : liveEntry now (d.entry k) = some (.tier rid ex, t) := hlive
      simp only [heldAt, heldEntry, hlive']
      cases hget : d.tier.bind (·.get rid) with
      | none => simp [dbTierMaterialize, hget]
      | some r => exact (dbTierMaterialize_entry hcold htable hget).1
    | _ => exact (heldAt_of_live hlive rfl).symm

def isCold (d : Db) (k : Bytes) : Bool :=
  match d.table.lookup k with
  | some v => !v.isHot
  | none => false

/-- `db_get` touches a key it has found if it has brought the value back. -/
theorem dbGet_touched (hcold : ColdOk d) (k : Bytes) (now : Nat) :
    ∃ n, Touched k n d (dbGet d k now).1 ∧
      ((dbGet d k now).2.isSome = true → (isCold d k = true ↔ 0 < n)) := by
  have hexpired := Touched.expire d k now
  have hcold' := hcold.expire k now
  have hfresh (w : Obj) (hw : (dbExpireIfNeeded d k now).table.lookup k = some w) :
      dbExpireIfNeeded d k now = d := by
    refine dbExpireIfNeeded_of_live ?_
    rw [dbExpireIfNeeded_table] at hw
    cases hlive : d.live now k with
    | none => rw [hlive] at hw; cases hw
    | some x => rfl
  unfold dbGet lookupHot
  cases hw : (dbExpireIfNeeded d k now).table.lookup k with
  | none =>
    obtain ⟨n, hn⟩ := hexpired
    exact ⟨n, hn, nofun⟩
  | some w =>
    have hsame := hfresh w hw
    rw [hsame] at hw hcold' ⊢
    cases w with
    | tier rid ex =>
      dsimp only
      unfold dbTierMaterialize
      cases hget : d.tier.bind (·.get rid) with
      | none => exact ⟨0, .still rfl rfl rfl, nofun⟩
      | some r =>
        obtain ⟨v, t⟩ := r
        obtain ⟨-, hfits, -⟩ := hcold' k rid ex v t hw hget
        refine ⟨1, (Touched.restoreKey d t hfits).trans (.dropTier _ _), fun _ => ?_⟩
        simp [isCold, hw, Obj.isHot]
    | _ =>
      refine ⟨0, .refl d, fun _ => ?_⟩
      simp [isCold, hw, Obj.isHot]

/-! ## What a command owes -/

/-- What has happened to a database in calls on key `k`: how far the memory counter has
come off, and whether the key was marked. -/
structure Ledger (k : Bytes) (d d' : Db) (owed : UInt64) (marked : Prop) : Prop where
  confined : Confined k d d'
  drift : d'.drift = d.drift + owed
  touched : ∃ n, Touched k n d d' ∧ (marked ↔ 0 < n)

theorem Ledger.trans {owed₁ owed₂ : UInt64} {m₁ m₂ : Prop}
    (h₁ : Ledger k d d₁ owed₁ m₁) (h₂ : Ledger k d₁ d₂ owed₂ m₂) :
    Ledger k d d₂ (owed₁ + owed₂) (m₁ ∨ m₂) where
  confined := h₁.confined.trans h₂.confined
  drift := by rw [h₂.drift, h₁.drift, add_assoc]
  touched := by
    obtain ⟨n₁, ht₁, hm₁⟩ := h₁.touched
    obtain ⟨n₂, ht₂, hm₂⟩ := h₂.touched
    refine ⟨n₁ + n₂, ht₁.trans ht₂, ?_⟩
    rw [hm₁, hm₂]
    omega

theorem Ledger.refl (k : Bytes) (d : Db) : Ledger k d d 0 False where
  confined := .refl k d
  drift := (add_zero _).symm
  touched := ⟨0, .refl d, by simp⟩

def shownAt (now : Nat) (d : Db) (k : Bytes) : Option Obj := (heldAt now d k).map bareObj

theorem shownAt_of_live (hlive : d.live now k = some (v, t)) (hhot : v.isHot = true) :
    shownAt now d k = some (bareObj v) :=
  congrArg (Option.map bareObj) (heldAt_of_live hlive hhot)

theorem shownAt_of_dead (hlive : d.live now k = none) : shownAt now d k = none := congrArg (Option.map bareObj) (heldAt_of_dead hlive)

theorem shownAt_eq_read (now : Nat) (d : Db) (k : Bytes) :
    shownAt now d k = (readDb d now k).map Prod.fst := by
  unfold shownAt heldAt heldEntry readDb readEntry
  cases liveEntry now (d.entry k) with
  | none => rfl
  | some x =>
    obtain ⟨w, t⟩ := x
    cases w with
    | tier rid ex =>
      dsimp only
      cases d.tier.bind (·.get rid) <;> rfl
    | _ => rfl

/-- `used_memory` has moved with the entries, and what changed is marked. -/
structure Booked (now : Nat) (d d' : Db) : Prop where
  accounts : d'.drift = d.drift
  marks : ∀ k, shownAt now d' k ≠ shownAt now d k →
    d'.dirty ≠ d.dirty ∧ dbKeyVersion d' k ≠ dbKeyVersion d k

theorem Booked.refl (now : Nat) (d : Db) : Booked now d d := ⟨rfl, fun _ h => absurd rfl h⟩

/-- The books are kept if nothing is owed, and the key was marked while somebody watches
or shows what it showed. -/
theorem Ledger.booked_iff {owed : UInt64} {marked : Prop}
    (h : Ledger k d d' owed marked) : Booked now d d' ↔
      owed = 0 ∧ (shownAt now d' k = shownAt now d k ∨ (marked ∧ 0 < d.watchRefs)) := by
  obtain ⟨n, htouched, hmarked⟩ := h.touched
  have hversion := htouched.version k
  rw [hmarked]
  constructor
  · rintro ⟨haccounts, hmarks⟩
    refine ⟨?_, ?_⟩
    · rw [h.drift] at haccounts
      exact add_eq_left.mp haccounts
    by_cases hsame : shownAt now d' k = shownAt now d k
    · exact .inl hsame
    obtain ⟨hdirty, hmoved⟩ := hmarks k hsame
    have hcount := htouched.dirty
    refine .inr ⟨by omega, ?_⟩
    by_contra hrefs
    rw [if_neg (fun hc => hrefs hc.2)] at hversion
    exact hmoved hversion
  · rintro ⟨howed, hkey⟩
    refine ⟨by rw [h.drift, howed, add_zero], fun k' hne => ?_⟩
    by_cases hk : k' = k
    · subst hk
      obtain ⟨hpos, hrefs⟩ := hkey.resolve_left hne
      have hcount := htouched.dirty
      rw [if_pos ⟨rfl, hrefs⟩] at hversion
      exact ⟨by omega, by omega⟩
    · have hheld := heldAt_congr now (tier_of_confined h.confined) (h.confined.frame k' hk)
      exact absurd (congrArg (Option.map bareObj) hheld) hne

/-! ## The calls -/

theorem ledger_get (hcold : ColdOk d) (k : Bytes) (now : Nat) :
    ∃ marked, Ledger k d (dbGet d k now).1 0 marked ∧
      ((dbGet d k now).2.isSome = true → (marked ↔ isCold d k = true)) := by
  obtain ⟨n, htouched, hmarks⟩ := dbGet_touched hcold k now
  refine ⟨0 < n, ⟨dbGet_confined d k now, ?_, n, htouched, Iff.rfl⟩, fun h => (hmarks h).symm⟩
  rw [dbGet, lookupHot_drift, dbExpireIfNeeded_drift, add_zero]

theorem ledger_setKv (d : Db) (h : storable k v = true) :
    Ledger k d (dbSetKv d k v false) 0 True where
  confined := dbSetKv_confined d k v false
  drift := by rw [dbSetKv_drift, add_zero]
  touched := ⟨1, .setKv d false h, by simp⟩

theorem syncMem_drift (d : Db) (before after : UInt64) :
    (syncMem d before after).drift = d.drift + (after - before) := by
  unfold Db.drift syncMem
  dsimp only
  abel

theorem editEntry_owed (v : Obj) (hlookup : d.table.lookup k = some w)
    (hlen : v.vlen = w.vlen) : (editEntry d k v).drift = d.drift + (w.extraMem - v.extraMem) := by
  have hboth := editEntry_drift d v hlookup
  rw [syncMem_drift] at hboth
  rw [← hboth, entryMem, entryMem, hlen]
  abel

theorem table_of_live (hlive : d.live now k = some (w, t)) :
    dbExpireIfNeeded d k now = d ∧ d.table.lookup k = some w ∧ d.expires.lookup k = t := by
  have hsame : dbExpireIfNeeded d k now = d := dbExpireIfNeeded_of_live (by rw [hlive]; rfl)
  have htable := dbExpireIfNeeded_table d k now
  have hexpires := dbExpireIfNeeded_expires d k now
  rw [hsame, hlive] at htable hexpires
  exact ⟨hsame, htable, hexpires⟩

theorem ledger_edit (touch : Bool) (hlive : d.live now k = some (w, t)) (hlen : v.vlen = w.vlen) :
    Ledger k d (keyStep now k (.edit v touch) d).2 (if touch then 0 else w.extraMem - v.extraMem)
        (touch = true) ∧
      (keyStep now k (.edit v touch) d).2.live now k = some (v, t) := by
  obtain ⟨hsame, htable, hexpires⟩ := table_of_live hlive
  have hshort : k.length ≤ uint32Max := d.short k (Finmap.mem_of_lookup_eq_some htable)
  have hentry : (editEntry d k v).entry k = (some v, t) := by rw [editEntry_entry htable, hexpires]
  have hlive' : liveEntry now (some v, t) = some (v, t) := liveEntry_keep hlive v
  have hconf := keyStep_confined now k (.edit v touch) d
  simp only [keyStep, hsame, htable] at hconf ⊢
  cases touch with
  | true =>
    rw [if_pos rfl] at hconf ⊢
    refine ⟨⟨hconf, ?_, 1, ?_, by simp⟩, ?_⟩
    · rw [dbTouchKey_drift, syncMem_drift, editEntry_owed v htable hlen]
      abel
    · have hedit := Touched.edit d k v
      have hsync : Touched k 0 d (syncMem (editEntry d k v) w.extraMem v.extraMem) :=
        ⟨hedit.refs, hedit.dirty, hedit.version⟩
      exact hsync.trans (.touch _ hshort)
    · rw [Db.live, dbTouchKey_entry]
      exact (live_of_entry hentry now).trans hlive'
  | false =>
    refine ⟨⟨hconf, editEntry_owed v htable hlen, 0, .edit d k v, by simp⟩, ?_⟩
    exact (live_of_entry hentry now).trans hlive'

theorem ledger_delKv (hlive : d.live now k = some (w, t)) :
    Ledger k d (keyStep now k (.delKv false) d).2 0 True ∧
      (keyStep now k (.delKv false) d).2.live now k = none := by
  obtain ⟨hsame, htable, -⟩ := table_of_live hlive
  have hshort : k.length ≤ uint32Max := d.short k (Finmap.mem_of_lookup_eq_some htable)
  have hconf := keyStep_confined now k (.delKv false) d
  have hdrift := dbDelKv_drift d k false
  have hdel : dbDelKv d k false = (dbTouchKey (removeEntry d k w false) k, true) := by
    simp only [dbDelKv, if_neg (Nat.not_lt.mpr hshort), htable]
  simp only [keyStep, hsame] at hconf ⊢
  refine ⟨⟨hconf, ?_, 1, .delKv htable, by simp⟩, ?_⟩
  · rw [hdrift, if_neg (by simp)]
  rw [hdel]
  have hentry := (dbTouchKey_entry (removeEntry d k w false) k k).trans
    (removeEntry_entry d k w false)
  exact live_of_entry hentry now

theorem Exec.commit_self (now i : Nat) (k : Bytes) (e : Exec) (d' : Db) :
    (e.commit now i k d').dbs i = d' :=
  (Function.update_self i d' e.dbs : Function.update e.dbs i d' i = d')

/-- A ledger of one database, while the others stand still. -/
structure LedgerAt (i : Nat) (k : Bytes) (e e' : Exec) (owed : UInt64) (marked : Prop) : Prop where
  here : Ledger k (e.dbs i) (e'.dbs i) owed marked
  others : ∀ n, n ≠ i → e'.dbs n = e.dbs n

namespace LedgerAt

variable {i : Nat} {k : Bytes} {e e₁ e₂ : Exec} {owed₁ owed₂ : UInt64} {m₁ m₂ : Prop}

theorem refl (i : Nat) (k : Bytes) (e : Exec) : LedgerAt i k e e 0 False :=
  ⟨.refl k _, fun _ _ => rfl⟩

theorem trans (h₁ : LedgerAt i k e e₁ owed₁ m₁) (h₂ : LedgerAt i k e₁ e₂ owed₂ m₂) :
    LedgerAt i k e e₂ (owed₁ + owed₂) (m₁ ∨ m₂) :=
  ⟨h₁.here.trans h₂.here, fun n hn => (h₂.others n hn).trans (h₁.others n hn)⟩

theorem congr (h : LedgerAt i k e e₁ owed₁ m₁) (howed : owed₁ = owed₂) (hmarks : m₁ ↔ m₂) :
    LedgerAt i k e e₁ owed₂ m₂ := by
  obtain rfl := howed
  obtain rfl := propext hmarks
  exact h

theorem commit (now : Nat) (h : Ledger k (e.dbs i) d' owed₁ m₁) :
    LedgerAt i k e (e.commit now i k d') owed₁ m₁ := by
  have hdbs : (e.commit now i k d').dbs = Function.update e.dbs i d' := rfl
  refine ⟨?_, fun n hn => ?_⟩
  · rw [hdbs, Function.update_self]
    exact h
  · rw [hdbs, Function.update_of_ne hn]

/-- All databases keep their books if the one with the ledger does. -/
theorem booked_iff (h : LedgerAt i k e e₁ owed₁ m₁) :
    (∀ n, Booked now (e.dbs n) (e₁.dbs n)) ↔
      owed₁ = 0 ∧ (shownAt now (e₁.dbs i) k = shownAt now (e.dbs i) k ∨
        (m₁ ∧ 0 < (e.dbs i).watchRefs)) := by
  refine ⟨fun hall => h.here.booked_iff.mp (hall i), fun hhere n => ?_⟩
  by_cases hn : n = i
  · subst hn
    exact h.here.booked_iff.mpr hhere
  · rw [h.others n hn]
    exact .refl now _

end LedgerAt

/-! ## Carrying out a plan -/

section Plans

variable {α : Type} [DecidableEq α] (R : Runtime) (K : Kind α) (c : Ctx) (now : Nat)
    {a : α × UInt64} {t : Option Nat}

/-- What a plan leaves out of the accounts: the edits before the memory counter is read
and those that no report follows. -/
def Plan.owed (a : α × UInt64) (p : Plan α) : UInt64 :=
  let m₁ := K.memAfter R a p.early
  (a.2 - m₁) +
    match p.synced with
    | none => m₁ - K.memAfter R (p.early, m₁) p.final
    | some b =>
      let m₂ := K.memAfter R (p.early, m₁) b
      m₂ - K.memAfter R (b, m₂) p.final

def Plan.memLeft (a : α × UInt64) (p : Plan α) : UInt64 :=
  let m₁ := K.memAfter R a p.early
  match p.synced with
  | none => K.memAfter R (p.early, m₁) p.final
  | some b => K.memAfter R (b, K.memAfter R (p.early, m₁) b) p.final

def Plan.marks (p : Plan α) : Prop := p.synced.isSome = true ∨ p.remove = true

def Plan.leaves (p : Plan α) : Option Obj :=
  if p.remove then none else some (.boxed (K.wrap p.final) 0)

variable {R K c now}

@[simp] theorem Plan.owed_keep (a : α × UInt64) (ps : List Piece) :
    (Plan.keep a.1 ps).owed R K a = 0 := by
  simp [Plan.owed, Plan.keep, Kind.memAfter]

@[simp] theorem Plan.owed_reported (a : α × UInt64) (b : α) (ps : List Piece) :
    (Plan.reported a.1 b ps).owed R K a = 0 := by
  simp [Plan.owed, Plan.reported, Kind.memAfter]

@[simp] theorem Plan.owed_unreported (a : α × UInt64) (b : α) (ps : List Piece) :
    (Plan.unreported a.1 b ps).owed R K a = a.2 - K.memAfter R a b := by
  simp [Plan.owed, Plan.unreported, Kind.memAfter]

theorem editContainer_ledger {k : Bytes} {e : Exec} (new : α) (synced : Bool)
    (hlive : (e.dbs c.dbIndex).live now k = some (.boxed (K.wrap a.1) a.2, t)) :
    let e' := (runCmd now (editContainer R K c k a new synced) e).2
    LedgerAt c.dbIndex k e e' (if synced then 0 else a.2 - K.memAfter R a new) (synced = true) ∧
      (e'.dbs c.dbIndex).live now k = some (.boxed (K.wrap new) (K.memAfter R a new), t) := by
  obtain ⟨hledger, hlive'⟩ := ledger_edit (v := K.editedObj R a new) synced hlive rfl
  refine ⟨.commit now hledger, ?_⟩
  rw [editContainer, runCmd_edit, Exec.commit_self]
  exact hlive'

theorem planEdits_ledger {k : Bytes} {e : Exec} (p : Plan α)
    (hlive : (e.dbs c.dbIndex).live now k = some (.boxed (K.wrap a.1) a.2, t)) :
    let e' := (runCmd now (planEdits R K c k a p) e).2
    LedgerAt c.dbIndex k e e' (p.owed R K a) (p.synced.isSome = true) ∧
      (e'.dbs c.dbIndex).live now k = some (.boxed (K.wrap p.final) (p.memLeft R K a), t) := by
  obtain ⟨hearly, hlive₁⟩ := editContainer_ledger p.early false hlive
  unfold planEdits
  cases hsynced : p.synced with
  | none =>
    obtain ⟨hfinal, hlive₂⟩ := editContainer_ledger
      (a := (p.early, K.memAfter R a p.early)) p.final false hlive₁
    refine ⟨(hearly.trans hfinal).congr ?_ ?_, hlive₂.trans ?_⟩
    · simp [Plan.owed, hsynced]
    · simp
    · simp only [Plan.memLeft, hsynced]
  | some b =>
    obtain ⟨hsync, hlive₂⟩ := editContainer_ledger
      (a := (p.early, K.memAfter R a p.early)) b true hlive₁
    obtain ⟨hfinal, hlive₃⟩ := editContainer_ledger
      (a := (b, K.memAfter R (p.early, K.memAfter R a p.early) b)) p.final false hlive₂
    refine ⟨((hearly.trans hsync).trans hfinal).congr ?_ ?_, hlive₃.trans ?_⟩
    · simp [Plan.owed, hsynced]
    · simp
    · simp only [Plan.memLeft, hsynced]

theorem runPlan_ledger {k : Bytes} {e : Exec} (p : Plan α)
    (hlive : (e.dbs c.dbIndex).live now k = some (.boxed (K.wrap a.1) a.2, t)) :
    let e' := (runCmd now (runPlan R K c k a p) e).2
    LedgerAt c.dbIndex k e e' (p.owed R K a) p.marks ∧
      shownAt now (e'.dbs c.dbIndex) k = p.leaves K := by
  obtain ⟨hedits, hlive'⟩ := planEdits_ledger p hlive
  unfold runPlan
  rw [runCmd_bind]
  cases hremove : p.remove with
  | false =>
    refine ⟨hedits.congr rfl ?_, ?_⟩
    · simp [Plan.marks, hremove]
    · refine (shownAt_of_live hlive' rfl).trans ?_
      simp [Plan.leaves, hremove, bareObj]
  | true =>
    obtain ⟨hdel, hgone⟩ := ledger_delKv hlive'
    refine ⟨(hedits.trans (.commit now hdel)).congr (add_zero _) ?_, ?_⟩
    · simp [Plan.marks, hremove]
    rw [Plan.leaves, if_pos hremove]
    show shownAt now ((Exec.commit _ now c.dbIndex k _).dbs c.dbIndex) k = none
    rw [Exec.commit_self]
    exact shownAt_of_dead hgone

theorem runPlan_live {k : Bytes} {e : Exec} {p : Plan α}
    (hlive : (e.dbs c.dbIndex).live now k = some (.boxed (K.wrap a.1) a.2, t))
    (hremove : p.remove = false) :
    ((runCmd now (runPlan R K c k a p) e).2.dbs c.dbIndex).live now k
      = some (.boxed (K.wrap p.final) (p.memLeft R K a), t) := by
  obtain ⟨-, hlive'⟩ := planEdits_ledger p hlive
  unfold runPlan
  rw [runCmd_bind, if_neg (by simp [hremove])]
  exact hlive'

end Plans

/-! ## What is held under the keys -/

/-- A call on `k` has left `v` there, in memory. -/
structure Landed (now : Nat) (k : Bytes) (v : Obj) (d d' : Db) : Prop where
  held : heldAt now d' = Function.update (heldAt now d) k (some v)
  cold : ColdOk d'
  warm : ∀ k', isCold d' k' = true ↔ k' ≠ k ∧ isCold d k' = true

theorem landed {now : Nat} {k : Bytes} {t : Option Nat} {d : Db} (hcold : ColdOk d)
    (hconf : Confined k d d') (hlive : d'.live now k = some (v, t)) (hhot : v.isHot = true) :
    Landed now k v d d' := by
  obtain ⟨-, htable, -⟩ := table_of_live hlive
  have htier := tier_of_confined hconf
  refine ⟨funext fun k' => ?_, fun k' rid ex w t' hlookup hget => ?_, fun k' => ?_⟩
  · by_cases hk : k' = k
    · subst hk
      rw [Function.update_self]
      exact heldAt_of_live hlive hhot
    · rw [Function.update_of_ne hk]
      exact heldAt_congr now htier (hconf.frame k' hk)
  · by_cases hk : k' = k
    · subst hk
      rw [htable] at hlookup
      cases hlookup
      cases hhot
    have hentry := hconf.frame k' hk
    rw [show d'.table.lookup k' = d.table.lookup k' from congrArg Prod.fst hentry] at hlookup
    rw [show d'.expires.lookup k' = d.expires.lookup k' from congrArg Prod.snd hentry]
    rw [htier] at hget
    exact hcold k' rid ex w t' hlookup hget
  · by_cases hk : k' = k
    · subst hk
      simp [isCold, htable, hhot]
    have hentry : d'.table.lookup k' = d.table.lookup k' :=
      congrArg Prod.fst (hconf.frame k' hk)
    simp [isCold, hentry, hk]

theorem Landed.held_same {now : Nat} {k : Bytes} {d : Db} (h : Landed now k v d d')
    (hheld : heldAt now d k = some v) : heldAt now d' = heldAt now d := by
  rw [h.held, ← hheld, Function.update_eq_self]

theorem ColdOk.get_none {d : Db} (hcold : ColdOk d) {k : Bytes} {now : Nat}
    (hget : (dbGet d k now).2 = none) : ColdOk (dbGet d k now).1 := by
  have hcold' := hcold.expire k now
  unfold dbGet lookupHot at hget ⊢
  cases hw : (dbExpireIfNeeded d k now).table.lookup k with
  | none => exact hcold'
  | some w =>
    rw [hw] at hget
    cases w with
    | tier rid ex =>
      cases hrecord : (dbExpireIfNeeded d k now).tier.bind (·.get rid) with
      | none =>
        simp only [dbTierMaterialize, hrecord]
        exact hcold'
      | some r =>
        rw [(dbTierMaterialize_entry hcold' hw hrecord).1] at hget
        cases hget
    | _ => cases hget

theorem dbGet_kept {d : Db} (hcold : ColdOk d) (k : Bytes) (now : Nat) :
    heldAt now (dbGet d k now).1 = heldAt now d ∧ ColdOk (dbGet d k now).1 := by
  have hconf := dbGet_confined d k now
  have hheld := dbGet_held hcold k now
  have hothers k' hk : heldAt now (dbGet d k now).1 k' = heldAt now d k' :=
    heldAt_congr now (tier_of_confined hconf) (hconf.frame k' hk)
  cases hget : (dbGet d k now).2 with
  | some v =>
    obtain ⟨-, hfound⟩ := dbGet_read hcold k now
    rw [hget] at hfound
    obtain ⟨hhot, t, hlive, -⟩ := hfound
    have hlanded := landed hcold hconf hlive hhot
    exact ⟨hlanded.held_same (hheld.symm.trans hget), hlanded.cold⟩
  | none =>
    refine ⟨funext fun k' => ?_, hcold.get_none hget⟩
    by_cases hk : k' = k
    · obtain ⟨hread, -⟩ := dbGet_read hcold k now
      have hshown := shownAt_eq_read now (dbGet d k now).1 k
      rw [hread, ← shownAt_eq_read, shownAt, shownAt, ← hheld, hget] at hshown
      rw [hk, ← hheld, hget]
      exact Option.map_eq_none_iff.mp hshown
    · exact hothers k' hk

/-! ## Fetching the object -/

section Fetching

variable {α : Type} (R : Runtime) (K : Kind α) (now i : Nat)

/-- How `get_zset`, `get_stream` and the like have opened a key for an edit: the object
`db_get` finds, or a new one. -/
inductive Opened (k : Bytes) (create : Bool) (e e' : Exec) : α × UInt64 → Prop
  | found (a : α × UInt64) (t : Option Nat)
      (held : heldAt now (e.dbs i) k = some (.boxed (K.wrap a.1) a.2))
      (ledger : LedgerAt i k e e' 0 (isCold (e.dbs i) k = true))
      (live : (e'.dbs i).live now k = some (.boxed (K.wrap a.1) a.2, t)) :
      Opened k create e e' a
  | made (held : heldAt now (e.dbs i) k = none) (asked : create = true)
      (short : k.length ≤ uint32Max) (ledger : LedgerAt i k e e' 0 True)
      (live : (e'.dbs i).live now k = some (K.freshObj R, none)) :
      Opened k create e e' (K.fresh, R.newMem (K.wrap K.fresh))

/-- The key could not be opened: nothing shows. -/
structure Shut (k : Bytes) (create : Bool) (e e' : Exec) : Prop where
  ledger : ∃ marked, LedgerAt i k e e' 0 marked ∧
    ((heldAt now (e.dbs i) k).isSome = true → (marked ↔ isCold (e.dbs i) k = true))
  same : heldAt now (e'.dbs i) = heldAt now (e.dbs i)
  cold : ColdOk (e'.dbs i)
  held : (heldAt now (e.dbs i) k).bind K.ofObj = none
  unmade : heldAt now (e.dbs i) k = none → create = true → uint32Max < k.length

/-- What such a function answers and leaves. -/
def Fetch (k : Bytes) (create : Bool) (e : Exec) :
    Except RespValue (Option (α × UInt64)) × Exec → Prop
  | (.ok (some a), e') => Opened R K now i k create e e' a
  | (.ok none, e') => Shut K now i k create e e' ∧ heldAt now (e.dbs i) k = none
  | (.error _, e') =>
    Shut K now i k create e e' ∧ (create = false → (heldAt now (e.dbs i) k).isSome = true)

variable {R K now} {i} in
theorem Opened.live {k : Bytes} {create : Bool} {e e' : Exec} {a : α × UInt64}
    (h : Opened R K now i k create e e' a) :
    ∃ t, (e'.dbs i).live now k = some (.boxed (K.wrap a.1) a.2, t) := by
  cases h with
  | found _ t _ _ hlive => exact ⟨t, hlive⟩
  | made _ _ _ _ hlive => exact ⟨none, hlive⟩

theorem getContainer_opened (now : Nat) (c : Ctx) (k : Bytes) (create : Bool) {e : Exec}
    (hcold : ColdOk (e.dbs c.dbIndex)) :
    Fetch R K now c.dbIndex k create e (runCmd now (getContainer R K c k create) e) := by
  obtain ⟨-, hfound⟩ := dbGet_read hcold k now
  obtain ⟨marked, hledger, hmarked⟩ := ledger_get hcold k now
  have hfetch := LedgerAt.commit now hledger
  have hdb := Exec.commit_self now c.dbIndex k e (dbGet (e.dbs c.dbIndex) k now).1
  obtain ⟨hkept, hcold'⟩ := dbGet_kept hcold k now
  rw [← hdb] at hkept hcold'
  have hheld := dbGet_held hcold k now
  rw [hheld] at hmarked hfound
  unfold getContainer
  rw [runCmd_bind, runCmd_get, hheld]
  cases hget : heldAt now (e.dbs c.dbIndex) k with
  | some v =>
    rw [hget] at hfound
    obtain ⟨hhot, t, hlive, -⟩ := hfound
    cases hof : K.ofObj v with
    | none =>
      simp only [hof]
      exact ⟨⟨⟨_, hfetch, hmarked⟩, hkept, hcold', by rw [hget]; exact hof,
        fun h => by rw [hget] at h; cases h⟩, fun _ => by rw [hget]; rfl⟩
    | some a =>
      obtain rfl := Kind.ofObj_eq_some.mp hof
      simp only [hof]
      refine .found a t hget (hfetch.congr rfl (hmarked (by rw [hget]; rfl))) ?_
      exact (congrArg (·.live now k) (Exec.commit_self ..)).trans hlive
  | none =>
    have hvacuous {p : Prop} (h : (heldAt now (e.dbs c.dbIndex) k).isSome = true) : p := by
      rw [hget] at h
      cases h
    cases create with
    | false =>
      exact ⟨⟨⟨_, hfetch, hvacuous⟩, hkept, hcold', by rw [hget]; rfl, fun _ h => by cases h⟩,
        hget⟩
    | true =>
      by_cases hk : k.length ≤ uint32Max
      · have hfits : storable k (K.freshObj R) = true := by
          simp only [storable, Kind.freshObj, Obj.vlen, Bool.and_eq_true, decide_eq_true_eq]
          exact ⟨hk, by simp [uint32Max]⟩
        rw [if_neg (by simp), runCmd_bind, runCmd_setKv, hfits]
        refine .made hget rfl hk ?_ ?_
        · exact (hfetch.trans (.commit now (ledger_setKv _ hfits))).congr (add_zero _) (by simp)
        · refine (congrArg (·.live now k) (Exec.commit_self ..)).trans ?_
          exact (live_of_entry (dbSetKv_entry _ false hfits) now).trans rfl
      have hlong : storable k (K.freshObj R) = false := by
        simp only [storable, Bool.and_eq_false_iff, decide_eq_false_iff_not]
        exact .inl hk
      have hstill d : dbSetKv d k (K.freshObj R) false = d := by
        rw [dbSetKv, dif_neg (by rw [hlong]; simp)]
      rw [if_neg (by simp), runCmd_bind, runCmd_setKv, hlong, hstill]
      refine ⟨⟨⟨_, hfetch.trans (.commit now (.refl k _)), hvacuous⟩, ?_, ?_,
        by rw [hget]; rfl, fun _ _ => Nat.not_le.mp hk⟩, fun h => by cases h⟩
      · exact (congrArg (heldAt now) (Exec.commit_self ..)).trans hkept
      · exact (congrArg ColdOk (Exec.commit_self ..)).mpr hcold'

end Fetching

/-! ## A command on one key -/

section OneKey

variable {α : Type} [DecidableEq α] (R : Runtime) (K : Kind α)

/-- The plan owes nothing, and changes the object only where the key is marked while
somebody watches: by the plan, or because opening the key marked it. -/
def Plan.Keeps (a : α × UInt64) (before : Option Obj) (opening watched : Prop) (p : Plan α) : Prop :=
  p.owed R K a = 0 ∧ (p.leaves K = before ∨ ((opening ∨ p.marks) ∧ watched))

/-- The condition on the arguments and the database under which a command on one key
keeps its books. -/
def Request.Keeps (now : Nat) (d : Db) (q : Request α) : Prop :=
  match heldAt now d q.key with
  | some v =>
    match K.ofObj v with
    | some a => (q.plan a.1).Keeps R K a (some (.boxed (K.wrap a.1) 0)) (isCold d q.key = true)
        (0 < d.watchRefs)
    | none => True
  | none => q.create = true → q.key.length ≤ uint32Max →
      (q.plan K.fresh).Keeps R K (K.fresh, R.newMem (K.wrap K.fresh)) none True (0 < d.watchRefs)

/-- What a command on one key has done: nothing, or its plan. -/
inductive Request.Done (now i : Nat) (e e' : Exec) (q : Request α) : Prop
  | shut (h : Shut K now i q.key q.create e e')
  | planned (a : α × UInt64) (e₁ : Exec) (opened : Opened R K now i q.key q.create e e₁ a)
      (ledger : LedgerAt i q.key e₁ e' ((q.plan a.1).owed R K a) (q.plan a.1).marks)
      (after : shownAt now (e'.dbs i) q.key = (q.plan a.1).leaves K)

variable {R K} {now i : Nat} {e e' : Exec}

/-- The books are kept under the condition, and under no other. -/
theorem Request.Done.booked_iff {q : Request α} (h : q.Done R K now i e e') :
    (∀ n, Booked now (e.dbs n) (e'.dbs n)) ↔ q.Keeps R K now (e.dbs i) := by
  cases h with
  | shut h =>
    obtain ⟨marked, hledger, -⟩ := h.ledger
    rw [hledger.booked_iff]
    refine ⟨fun _ => ?_, fun _ => ⟨rfl, .inl (by rw [shownAt, h.same, shownAt])⟩⟩
    unfold Request.Keeps
    have hheld := h.held
    cases hv : heldAt now (e.dbs i) q.key with
    | some v =>
      rw [hv, Option.bind_some] at hheld
      simp only [hheld]
    | none =>
      intro hcreate hshort
      exact absurd (h.unmade hv hcreate) (Nat.not_lt.mpr hshort)
  | planned a e₁ hopened hledger hafter =>
    cases hopened with
    | found _ t hheld hopen hlive =>
      have hof : K.ofObj (.boxed (K.wrap a.1) a.2) = some a := Kind.ofObj_eq_some.mpr rfl
      rw [(hopen.trans hledger).booked_iff, hafter, shownAt, zero_add]
      simp only [Request.Keeps, hheld, hof, Plan.Keeps, Option.map_some, bareObj]
    | made hheld hasked hshort hopen hlive =>
      rw [(hopen.trans hledger).booked_iff, hafter, shownAt, zero_add]
      simp only [Request.Keeps, hheld, hasked, hshort, Plan.Keeps, forall_const, Option.map_none]

theorem inPlace_done (c : Ctx) (q : Request α) {e : Exec} (hcold : ColdOk (e.dbs c.dbIndex)) :
    q.Done R K now c.dbIndex e (runCmd now (inPlace R K c (.ok q)) e).2 := by
  have hopened := getContainer_opened (R := R) (K := K) now c q.key q.create hcold
  unfold inPlace
  rw [runCmd_bind]
  rcases hrun : runCmd now (getContainer R K c q.key q.create) e with ⟨err | _ | a, e₁⟩
  · rw [hrun] at hopened
    exact .shut hopened.1
  · rw [hrun] at hopened
    exact .shut hopened.1
  rw [hrun] at hopened
  obtain ⟨t, hlive⟩ := Opened.live hopened
  obtain ⟨hledger, hafter⟩ := runPlan_ledger (q.plan a.1) hlive
  exact .planned a e₁ hopened hledger hafter

/-- A request carried out, or refused before it touches anything. -/
def Carried (R : Runtime) (K : Kind α) (now i : Nat) (e e' : Exec) {ε : Type} :
    Except ε (Request α) → Prop
  | .error _ => e' = e
  | .ok q => q.Done R K now i e e'

def KeepsBooks (R : Runtime) (K : Kind α) (now : Nat) (d : Db) {ε : Type} :
    Except ε (Request α) → Prop
  | .error _ => True
  | .ok q => q.Keeps R K now d

theorem Carried.booked_iff {ε : Type} {r : Except ε (Request α)} (h : Carried R K now i e e' r) :
    (∀ n, Booked now (e.dbs n) (e'.dbs n)) ↔ KeepsBooks R K now (e.dbs i) r := by
  cases r with
  | error err =>
    obtain rfl := h
    exact ⟨fun _ => trivial, fun _ n => .refl now _⟩
  | ok q => exact Request.Done.booked_iff h

theorem inPlace_carried (c : Ctx) (r : Except (List Piece) (Request α)) {e : Exec}
    (hcold : ColdOk (e.dbs c.dbIndex)) :
    Carried R K now c.dbIndex e (runCmd now (inPlace R K c r) e).2 r := by
  cases r with
  | error ps => rfl
  | ok q => exact inPlace_done c q hcold

end OneKey

/-! ## ZADD -/

section Zadd

variable (R : Runtime)

/-- ZADD without INCR on a sorted set: a bad pair ends it without a report. -/
def zaddPairsPlan (f : ZaddFlags) (rest : List RespValue) (z : ZsetObj) : Plan ZsetObj :=
  match zaddLoop R f rest z 0 0 with
  | (z', .error err) => .unreported z z' (piecesOf err)
  | (z', .ok (added, changed)) => .reported z z' [.int (if f.ch then changed else added)]

def zaddIncrPlan (f : ZaddFlags) (score : UInt64) (mv : Bytes) (z : ZsetObj) : Plan ZsetObj :=
  let old := zsetScore z mv
  let final := (old.map fun o => R.fadd o score).getD score
  if isNan final then
    .keep z (piecesOf (errorReply "ERR resulting score is not a number (NaN)"))
  else if f.skips old final then .keep z (piecesOf nullBulk)
  else
    match objZsetAdd z mv final with
    | none => .reported z z (piecesOf storageLengthError)
    | some z' => .reported z z' (piecesOf (bulk (R.fmtScore final)))

def zaddRequest (argv : List RespValue) : Except RespValue (Request ZsetObj) :=
  match zaddArgs argv with
  | .error err => .error err
  | .ok (k, f, rest) =>
    let request (absent : RespValue) (plan : ZsetObj → Plan ZsetObj) : Request ZsetObj :=
      { key := k
        create := !f.xx
        absent := piecesOf absent
        plan := plan }
    match f.incr, rest with
    | true, [s, m] =>
      match zaddPair R s m with
      | .error err => .error err
      | .ok (score, mv) => .ok (request nullBulk (zaddIncrPlan R f score mv))
    | _, _ => .ok (request (.integer 0) (zaddPairsPlan R f rest))

variable {R} {now : Nat} {e : Exec}

/-- The rest of ZADD: an edit, with or without a report, as the plan has it. -/
theorem edited_done {c : Ctx} {e₁ : Exec} {a : ZsetObj × UInt64} (z' : ZsetObj)
    (synced : Bool) (hopened : Opened R zsetKind now c.dbIndex q.key q.create e e₁ a)
    (hplan : ∃ ps, q.plan a.1 = if synced then .reported a.1 z' ps else .unreported a.1 z' ps) :
    q.Done R zsetKind now c.dbIndex e
      (runCmd now (editContainer R zsetKind c q.key a z' synced) e₁).2 := by
  obtain ⟨t, hlive⟩ := hopened.live
  obtain ⟨ps, hplan⟩ := hplan
  obtain ⟨hledger, hlive'⟩ := editContainer_ledger z' synced hlive
  have hafter := shownAt_of_live hlive' rfl
  cases synced with
  | true =>
    rw [if_pos rfl] at hplan
    refine .planned a e₁ hopened (hledger.congr ?_ ?_) ?_
    · rw [hplan, Plan.owed_reported, if_pos rfl]
    · simp [hplan, Plan.marks, Plan.reported]
    · rw [hafter, hplan]
      rfl
  | false =>
    rw [if_neg (by simp)] at hplan
    refine .planned a e₁ hopened (hledger.congr ?_ ?_) ?_
    · rw [hplan, Plan.owed_unreported, if_neg (by simp)]
    · simp [hplan, Plan.marks, Plan.unreported]
    · rw [hafter, hplan]
      rfl

theorem zaddPairs_done (c : Ctx) (k : Bytes) (f : ZaddFlags) (rest : List RespValue)
    (absent : List Piece) (hcold : ColdOk (e.dbs c.dbIndex)) :
    Request.Done R zsetKind now c.dbIndex e (runCmd now (zaddPairs R c k f rest) e).2
      ⟨k, !f.xx, absent, zaddPairsPlan R f rest⟩ := by
  have hopened := getContainer_opened (R := R) (K := zsetKind) now c k (!f.xx) hcold
  unfold zaddPairs
  rw [runCmd_bind]
  rcases hrun : runCmd now (getContainer R zsetKind c k (!f.xx)) e with ⟨err | _ | ⟨z, mem⟩, e₁⟩
  · rw [hrun] at hopened
    exact .shut hopened.1
  · rw [hrun] at hopened
    exact .shut hopened.1
  rw [hrun] at hopened
  dsimp only
  rcases hloop : zaddLoop R f rest z 0 0 with ⟨z', err | ⟨added, changed⟩⟩
  · exact edited_done (q := ⟨k, !f.xx, absent, zaddPairsPlan R f rest⟩) z' false hopened
      ⟨_, by simp only [zaddPairsPlan, hloop]; rfl⟩
  · exact edited_done (q := ⟨k, !f.xx, absent, zaddPairsPlan R f rest⟩) z' true hopened
      ⟨_, by simp only [zaddPairsPlan, hloop]; rfl⟩

theorem kept_done {c : Ctx} {e₁ : Exec} {a : ZsetObj × UInt64}
    (hopened : Opened R zsetKind now c.dbIndex q.key q.create e e₁ a)
    (hplan : ∃ ps, q.plan a.1 = .keep a.1 ps) : q.Done R zsetKind now c.dbIndex e e₁ := by
  obtain ⟨t, hlive⟩ := hopened.live
  obtain ⟨ps, hplan⟩ := hplan
  refine .planned a e₁ hopened ((LedgerAt.refl _ _ _).congr ?_ ?_) ?_
  · rw [hplan, Plan.owed_keep]
  · simp [hplan, Plan.marks, Plan.keep]
  · rw [shownAt_of_live hlive rfl, hplan]
    rfl

theorem zaddIncr_done (c : Ctx) (k : Bytes) (f : ZaddFlags) {s m : RespValue} {score : UInt64}
    {mv : Bytes} (absent : List Piece) (hpair : zaddPair R s m = .ok (score, mv))
    (hcold : ColdOk (e.dbs c.dbIndex)) :
    Request.Done R zsetKind now c.dbIndex e (runCmd now (zaddIncr R c k f s m) e).2
      ⟨k, !f.xx, absent, zaddIncrPlan R f score mv⟩ := by
  have hopened := getContainer_opened (R := R) (K := zsetKind) now c k (!f.xx) hcold
  unfold zaddIncr
  rw [hpair]
  rw [runCmd_bind]
  rcases hrun : runCmd now (getContainer R zsetKind c k (!f.xx)) e with ⟨err | _ | ⟨z, mem⟩, e₁⟩
  · rw [hrun] at hopened
    exact .shut hopened.1
  · rw [hrun] at hopened
    exact .shut hopened.1
  rw [hrun] at hopened
  let q : Request ZsetObj := ⟨k, !f.xx, absent, zaddIncrPlan R f score mv⟩
  dsimp only
  split
  · rename_i hnan
    exact kept_done hopened ⟨_, if_pos hnan⟩
  rename_i hnan
  split
  · rename_i hskips
    exact kept_done hopened ⟨_, (if_neg hnan).trans (if_pos hskips)⟩
  rename_i hskips
  have hplan : q.plan z = _ := (if_neg hnan).trans (if_neg hskips)
  split
  · rename_i hadd
    exact edited_done (q := q) z true hopened ⟨_, by rw [hplan, hadd]; rfl⟩
  · rename_i z' hadd
    exact edited_done (q := q) z' true hopened ⟨_, by rw [hplan, hadd]; rfl⟩

theorem zaddCommand_carried (c : Ctx) (hcold : ColdOk (e.dbs c.dbIndex)) :
    Carried R zsetKind now c.dbIndex e (runCmd now (zaddCommand R c) e).2
      (zaddRequest R c.argv) := by
  unfold zaddCommand zaddRequest
  cases zaddArgs c.argv with
  | error err => rfl
  | ok args =>
    obtain ⟨k, f, rest⟩ := args
    dsimp only
    cases hincr : f.incr with
    | false => exact zaddPairs_done c k f rest _ hcold
    | true =>
      match rest with
      | [] | [_] | _ :: _ :: _ :: _ => exact zaddPairs_done c k f _ _ hcold
      | [s, m] =>
        dsimp only
        cases hpair : zaddPair R s m with
        | error err =>
          unfold zaddIncr
          rw [hpair]
          rfl
        | ok p => exact zaddIncr_done c k f _ hpair hcold

end Zadd

end Ddup.Server
