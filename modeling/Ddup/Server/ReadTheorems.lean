/-
Ddup.Server.ReadTheorems — what a reader of the databases sees, and what single calls
change of it.

A read shows values, whether they are in memory or in the cold store, and their
expiries; it does not show memory counters. `readDb` is that view. The lookups of the
handlers change the tables (they collect what has expired and bring cold values back)
but nothing that a read shows.
-/
import Ddup.Server.DatasetTheorems
import Ddup.Server.Handlers

namespace Ddup.Server

open Ddup.Lib Ddup.Resp Ddup.Store

variable {d : Db} {now : Nat} {k : Bytes} {t : Option Nat} {v w : Obj}

/-! ## What a read shows -/

def bareObj : Obj → Obj
  | .list items _ => .list items 0
  | .boxed c _ => .boxed c 0
  | v => v

/-- What a read of a stored entry shows: a cold value is fetched, one that cannot be
fetched is missing. -/
def readEntry (tier : Option Tier) (now : Nat) (x : Option Obj × Option Nat) : Option Entry :=
  match liveEntry now x with
  | none => none
  | some (.tier rid _, t) => (tier.bind (·.get rid)).map fun r => (bareObj r.1, t)
  | some (v, t) => some (bareObj v, t)

def readDb (d : Db) (now : Nat) (k : Bytes) : Option Entry := readEntry d.tier now (d.entry k)

/-- The record behind a reference is a value that fits under its key, with the key's
expiry. -/
def ColdOk (d : Db) : Prop :=
  ∀ k rid ex v t, d.table.lookup k = some (.tier rid ex) → d.tier.bind (·.get rid) = some (v, t) →
    v.isHot = true ∧ storable k v = true ∧ d.expires.lookup k = if t = 0 then none else some t

/-- Every read shows the same before and after. -/
def SameData (now : Nat) (dbs dbs' : Nat → Db) : Prop :=
  ∀ i k, readDb (dbs' i) now k = readDb (dbs i) now k

theorem readDb_congr {d' : Db} (htier : d'.tier = d.tier) (hentry : d'.entry k = d.entry k)
    : readDb d' now k = readDb d now k := by
  rw [readDb, readDb, htier, hentry]

theorem readEntry_hot {tier : Option Tier} {x : Option Obj × Option Nat}
    (hlive : liveEntry now x = some (v, t)) (hhot : v.isHot = true) :
    readEntry tier now x = some (bareObj v, t) := by
  unfold readEntry
  rw [hlive]
  cases v with
  | tier rid ex => cases hhot
  | _ => rfl

theorem dbExpireIfNeeded_read (d : Db) (k : Bytes) (now : Nat) (k' : Bytes) :
    readDb (dbExpireIfNeeded d k now) now k' = readDb d now k' := by
  have hconf := dbExpireIfNeeded_confined d k now
  have htier := tier_of_confined hconf
  by_cases hk : k' = k
  · subst hk
    rw [readDb, readDb, htier]
    unfold readEntry
    rw [show liveEntry now ((dbExpireIfNeeded d k' now).entry k') = liveEntry now (d.entry k')
      from dbExpireIfNeeded_live d k' now]
  · exact readDb_congr htier (hconf.frame k' hk)

theorem ColdOk.expire (h : ColdOk d) (k : Bytes) (now : Nat) :
    ColdOk (dbExpireIfNeeded d k now) := by
  intro k' rid ex v t hlookup hget
  have hconf := dbExpireIfNeeded_confined d k now
  rw [tier_of_confined hconf] at hget
  by_cases hk : k' = k
  · subst hk
    have hlive := dbExpireIfNeeded_table d k' now
    have hsome : (d.live now k').isSome := by
      rw [hlookup] at hlive
      cases hl : d.live now k' with
      | none => rw [hl] at hlive; cases hlive
      | some x => rfl
    rw [dbExpireIfNeeded_of_live hsome] at hlookup ⊢
    exact h k' rid ex v t hlookup hget
  · have hentry := hconf.frame k' hk
    have htable : d.table.lookup k' = some (.tier rid ex) :=
      (congrArg Prod.fst hentry).symm.trans hlookup
    have hexpires := congrArg Prod.snd hentry
    exact ⟨(h k' rid ex v t htable hget).1, (h k' rid ex v t htable hget).2.1,
      hexpires.trans (h k' rid ex v t htable hget).2.2⟩

theorem dbTierMaterialize_entry (h : ColdOk d) {rid ex : Nat} {t : Nat}
    (hlookup : d.table.lookup k = some (.tier rid ex))
    (hget : d.tier.bind (·.get rid) = some (v, t)) :
    (dbTierMaterialize d k rid).2 = some v ∧
      (dbTierMaterialize d k rid).1.entry k = (some v, d.expires.lookup k) := by
  obtain ⟨-, hfits, hexp⟩ := h k rid ex v t hlookup hget
  have hset := dbSetKv_entry d false hfits
  have hrestored : (restoreKey d k v t).entry k = (some v, d.expires.lookup k) := by
    unfold restoreKey
    split
    · rename_i hzero
      rw [hset, hexp, if_pos hzero]
      rfl
    rename_i hzero
    have htable : (dbSetKv d k v false).table.lookup k = some v := congrArg Prod.fst hset
    rw [dbSetExpiry_entry, htable, hexp, if_neg hzero]
    rfl
  have hentry : (dropTier (restoreKey d k v t) (.tier rid t)).entry k
      = (some v, d.expires.lookup k) := (dropTier_entry _ _ _).trans hrestored
  unfold dbTierMaterialize
  rw [hget]
  exact ⟨congrArg Prod.fst hentry, hentry⟩

theorem dbExpireIfNeeded_live_of_table (h : (dbExpireIfNeeded d k now).table.lookup k = some w) :
    (dbExpireIfNeeded d k now).live now k
      = some (w, (dbExpireIfNeeded d k now).expires.lookup k) := by
  rw [dbExpireIfNeeded_live, dbExpireIfNeeded_expires]
  rw [dbExpireIfNeeded_table] at h
  cases hl : d.live now k with
  | none => rw [hl] at h; cases h
  | some x =>
    rw [hl] at h
    cases h
    rfl

/-- What `db_get` has found, and left. -/
structure Found (now : Nat) (k : Bytes) (d d' : Db) (v : Obj) : Prop where
  hot : v.isHot = true
  live : ∃ t, d'.live now k = some (v, t) ∧ readDb d now k = some (bareObj v, t)

theorem dbGet_read (h : ColdOk d) (k : Bytes) (now : Nat) :
    (∀ k', readDb (dbGet d k now).1 now k' = readDb d now k') ∧
      match (dbGet d k now).2 with
      | none => readDb d now k = none
      | some v => Found now k d (dbGet d k now).1 v := by
  have hread := dbExpireIfNeeded_read d k now
  have hcold := h.expire k now
  unfold dbGet lookupHot
  cases hw : (dbExpireIfNeeded d k now).table.lookup k with
  | none =>
    refine ⟨hread, ?_⟩
    rw [← hread k, readDb, Db.entry, hw]
    rfl
  | some w =>
    have hlive := dbExpireIfNeeded_live_of_table hw
    cases w with
    | tier rid ex =>
      have hconf := dbTierMaterialize_confined (dbExpireIfNeeded d k now) k rid
      have hothers : ∀ k', k' ≠ k →
          readDb (dbTierMaterialize (dbExpireIfNeeded d k now) k rid).1 now k'
            = readDb d now k' := fun k' hk =>
        (readDb_congr (tier_of_confined hconf) (hconf.frame k' hk)).trans (hread k')
      have hshown : readDb d now k = ((dbExpireIfNeeded d k now).tier.bind (·.get rid)).map
          fun r => (bareObj r.1, (dbExpireIfNeeded d k now).expires.lookup k) := by
        rw [← hread k]
        unfold readDb readEntry
        rw [show liveEntry now ((dbExpireIfNeeded d k now).entry k) = _ from hlive]
      cases hget : (dbExpireIfNeeded d k now).tier.bind (·.get rid) with
      | none =>
        have hfail : dbTierMaterialize (dbExpireIfNeeded d k now) k rid
            = (failTier (dbExpireIfNeeded d k now), none) := by
          simp only [dbTierMaterialize, hget]
        rw [hget] at hshown
        simp only [hfail]
        exact ⟨fun k' => (readDb_congr rfl rfl).trans (hread k'), hshown⟩
      | some r =>
        obtain ⟨v, t⟩ := r
        obtain ⟨hans, hentry⟩ := dbTierMaterialize_entry hcold hw hget
        have hhot : v.isHot = true := (hcold k rid ex v t hw hget).1
        rw [hget] at hshown
        have hlive' := (live_of_entry hentry now).trans (liveEntry_keep hlive v)
        simp only [hans]
        refine ⟨fun k' => ?_, hhot, _, hlive', hshown⟩
        by_cases hk : k' = k
        · subst hk
          rw [hshown]
          exact readEntry_hot hlive' hhot
        · exact hothers k' hk
    | str b => exact ⟨hread, rfl, _, hlive, (hread k).symm.trans (readEntry_hot hlive rfl)⟩
    | list items mem => exact ⟨hread, rfl, _, hlive, (hread k).symm.trans (readEntry_hot hlive rfl)⟩
    | boxed c mem => exact ⟨hread, rfl, _, hlive, (hread k).symm.trans (readEntry_hot hlive rfl)⟩

/-! ## Running the calls -/

section Running

variable {now : Nat} {e : Exec} {i : Nat} {k : Bytes} {d' : Db}

theorem runCmd_bind {α β : Type} (p : Cmd α) (f : α → Cmd β) (e : Exec) :
    runCmd now (p >>= f) e = runCmd now (f (runCmd now p e).1) (runCmd now p e).2 :=
  Prog.run_bind p f e

theorem runCmd_get : runCmd now (Cmd.get i k) e
    = ((dbGet (e.dbs i) k now).2, e.commit now i k (dbGet (e.dbs i) k now).1) := rfl

theorem runCmd_setKv (v : Obj) : runCmd now (Cmd.setKv i k v false) e
    = (storable k v, e.commit now i k (dbSetKv (e.dbs i) k v false)) := rfl

theorem runCmd_edit (v : Obj) (touch : Bool) : runCmd now (Cmd.edit i k v touch) e
    = ((), e.commit now i k (keyStep now k (.edit v touch) (e.dbs i)).2) := rfl

theorem runCmd_reply (v : RespValue) : runCmd now (reply v) e = (⟨[v], .none⟩, e) := rfl

/-- Installing a database that differs in one key changes no read of another. -/
theorem commit_read (hconf : Confined k (e.dbs i) d') {j : Nat} {k' : Bytes} (hne : j ≠ i ∨ k' ≠ k)
    : readDb ((e.commit now i k d').dbs j) now k' = readDb (e.dbs j) now k' := by
  show readDb (Function.update e.dbs i d' j) now k' = _
  by_cases hj : j = i
  · subst hj
    rw [Function.update_self]
    exact readDb_congr (tier_of_confined hconf) (hconf.frame k' (hne.resolve_left (by simp)))
  · rw [Function.update_of_ne hj]

theorem commit_read_self : readDb ((e.commit now i k d').dbs i) now k = readDb d' now k := by
  show readDb (Function.update e.dbs i d' i) now k = _
  rw [Function.update_self]

theorem sameData_commit (hconf : Confined k (e.dbs i) d')
    (hread : readDb d' now k = readDb (e.dbs i) now k) :
    SameData now e.dbs (e.commit now i k d').dbs := by
  intro j k'
  by_cases hne : j ≠ i ∨ k' ≠ k
  · exact commit_read hconf hne
  · push Not at hne
    rw [hne.1, hne.2, commit_read_self, hread]

theorem SameData.trans {dbs dbs' dbs'' : Nat → Db} (h : SameData now dbs dbs')
    (h' : SameData now dbs' dbs'') : SameData now dbs dbs'' :=
  fun j k' => (h' j k').trans (h j k')

theorem keyStep_edit_read {d : Db} (touch : Bool)
    (hlive : d.live now k = some (w, t)) (hhot : v.isHot = true) :
    readDb (keyStep now k (.edit v touch) d).2 now k = some (bareObj v, t) := by
  have hsame : dbExpireIfNeeded d k now = d := dbExpireIfNeeded_of_live (by rw [hlive]; rfl)
  have htable : d.table.lookup k = some w := by
    have h := dbExpireIfNeeded_table d k now
    rw [hsame, hlive] at h
    exact h
  have hexp : d.expires.lookup k = t := by
    have h := dbExpireIfNeeded_expires d k now
    rw [hsame, hlive] at h
    exact h
  have hentry : (keyStep now k (.edit v touch) d).2.entry k = (some v, t) := by
    simp only [keyStep, hsame, htable]
    cases touch with
    | true =>
      rw [if_pos rfl, dbTouchKey_entry]
      exact (editEntry_entry htable v).trans (by rw [hexp])
    | false => exact (editEntry_entry htable v).trans (by rw [hexp])
  rw [readDb, hentry]
  exact readEntry_hot (liveEntry_keep hlive v) hhot

end Running

end Ddup.Server
