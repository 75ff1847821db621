/-
Ddup.Snapshot.LoadTheorems — what loading a saved database gives.

Every written entry is read back as what `reload` makes of its value, so the loader
runs `installEntry` over the reloaded entries (`loadEntries_written`). If all of
them load, the new tables hold, for every key, the reloaded value and the expiry
of the entries that had not expired (`loadWalk_entry`).
-/
import Ddup.Snapshot.Load
import Ddup.Snapshot.ReloadTheorems
import Ddup.Store.DbTheorems
import Ddup.Server.Loop

namespace Ddup.Snapshot

open Ddup.Lib Ddup.Store
open Option (bind_eq_bind map_some pure_def)
open Prod (fst)

variable {bs k : Bytes} {d tmp : Db} {v v' : Obj} {x : Bytes × Obj}

/-! ## Entries -/

theorem objTag_lt (v : Obj) : objTag v < 256 ^ 1 := by
  cases v with
  | boxed c mem => cases c <;> simp [objTag]
  | _ => simp [objTag]

/-- A saved entry takes at least the byte of its tag, and is read back with the value
reloaded. -/
theorem saveEntry_yields (sz : ObjMem) (lim : Limits) {expires : KeyTable Nat} (h : saveEntry expires x = some bs) (hsized : Sized x.2)
    (hexp : ∀ t, expires.lookup x.1 = some t → t < 256 ^ 8) :
    bs ≠ [] ∧ Yields (readEntry sz lim) bs ((reload sz lim x.2).map fun v =>
      ⟨x.1, (expires.lookup x.1).getD noExpire, v⟩) := by
  simp only [saveEntry, bind_eq_bind, Option.bind_eq_some_iff, pure_def, Option.some.injEq] at h
  obtain ⟨key, hkey, payload, hpayload, rfl⟩ := h
  have hword : (expires.lookup x.1).getD noExpire < 256 ^ 8 := by
    cases ht : expires.lookup x.1 with
    | none => decide
    | some t => exact hexp t ht
  constructor
  · simp [leBytes]
  simp only [List.append_assoc]
  exact (Reads.le (objTag_lt x.2)).yields ((writeBlob_eq_some hkey).yields
    ((Reads.le hword).yields ((writeValuePayload_yields sz lim hpayload hsized).map _)))

/-- The unbounded loop over written entries installs them one after the other. -/
theorem loadEntries_written {σ ι : Type} (install : σ → Entry → Option σ) {read : Dec Entry}
    {write : ι → Option Bytes} {next : ι → Option Entry} :
    ∀ {xs} {bs} {fuel} s, writeAll write xs = some bs →
      (∀ x ∈ xs, ∀ b, write x = some b → b ≠ [] ∧ Yields read b (next x)) →
      bs.length ≤ fuel →
      loadEntries read install fuel s bs = xs.foldlM (fun s x => (next x).bind (install s)) s
  | [], _, fuel, s, hw, _, _ => by
    cases hw
    cases fuel <;> rfl
  | x :: xs, bs, fuel, s, hw, h, hfuel => by
    simp only [writeAll, bind_eq_bind, Option.bind_eq_some_iff, pure_def, Option.some.injEq] at hw
    obtain ⟨b, hb, bs', hbs', rfl⟩ := hw
    obtain ⟨hne, hyields⟩ := h x (List.mem_cons_self ..) b hb
    obtain ⟨c, cs, rfl⟩ := List.exists_cons_of_ne_nil hne
    -- the byte `c` pays for the round
    obtain ⟨fuel, rfl⟩ : ∃ n, fuel = n + 1 :=
      ⟨fuel - 1, by simp only [List.cons_append, List.length_cons] at hfuel; omega⟩
    have hread : read (c :: (cs ++ bs')) = (next x).map fun e => (e, bs') := hyields bs'
    rw [List.foldlM_cons, List.cons_append, loadEntries, hread]
    cases hnext : next x with
    | none => rfl
    | some e =>
      cases hinst : install s e with
      | none => simp [hinst]
      | some s' =>
        simp only [map_some, hinst, Option.bind_some]
        exact loadEntries_written install s' hbs' (fun y hy => h y (List.mem_cons_of_mem _ hy))
          (by simp only [List.length_cons, List.length_append] at hfuel
              omega)

/-! ## Installing -/

def Entry.expiry (e : Entry) : Option Nat := if e.timed then some e.expire else none

/-- An entry that has not expired is installed under its key, and nothing else is
written. -/
theorem installEntry_alive {now : Nat} (tmp : Db) {e : Entry} (hdead : e.dead now = false)
    (hstore : storable e.key e.value = true) :
    ∃ tmp', installEntry now tmp e = some tmp' ∧
      tmp'.entry e.key = (some e.value, e.expiry) ∧ ∀ k, k ≠ e.key → tmp'.entry k = tmp.entry k := by
  have hset := dbSetKv_entry tmp false hstore
  have hframe := (dbSetKv_confined tmp e.key e.value false).frame
  have htable : (dbSetKv tmp e.key e.value false).table.lookup e.key = some e.value :=
    congrArg fst hset
  refine ⟨_, by rw [installEntry, hdead, hstore]; rfl, ?_, ?_⟩
  · cases htimed : e.timed with
    | false => simpa [Entry.expiry, htimed] using hset
    | true =>
      rw [if_pos rfl, dbSetExpiry_entry, htable]
      simp [Entry.expiry, htimed]
  · intro k hk
    split
    · rw [(dbSetExpiry_confined _ e.key e.expire).frame k hk]
      exact hframe k hk
    · exact hframe k hk

theorem reload_storable {sz : ObjMem} {lim : Limits} (hsized : Sized v)
    (hk : k.length ≤ uint32Max) (h : reload sz lim v = some v') : storable k v' = true := by
  have hlen : v'.vlen ≤ uint32Max := by
    have hnine : 9 ≤ uint32Max := by decide
    cases v with
    | str b => cases h; exact hsized
    | list items mem => cases h; exact hnine
    | tier rid expire => cases h
    | boxed c mem =>
      cases c <;> (
        obtain ⟨c', -, rfl⟩ := Option.map_eq_some_iff.mp h
        exact hnine)
  simp [storable, hk, hlen]

section Rounds

variable (sz : ObjMem) (lim : Limits) (now : Nat) (expires : KeyTable Nat)

def savedEntry (k : Bytes) (v : Obj) : Entry := ⟨k, (expires.lookup k).getD noExpire, v⟩

def loadRound (tmp : Db) (x : Bytes × Obj) : Option Db :=
  ((reload sz lim x.2).map (savedEntry expires x.1)).bind (installEntry now tmp)

/-- A round on a value that loads writes its key only, and only if the entry has not
expired. -/
theorem loadRound_some (tmp : Db) (hsized : Sized x.2)
    (hk : x.1.length ≤ uint32Max) (hv : reload sz lim x.2 = some v) :
    ∃ tmp', loadRound sz lim now expires tmp x = some tmp' ∧
      (tmp'.entry x.1 = if (savedEntry expires x.1 v).dead now then tmp.entry x.1
        else (some v, (savedEntry expires x.1 v).expiry)) ∧
      ∀ k, k ≠ x.1 → tmp'.entry k = tmp.entry k := by
  simp only [loadRound, hv, map_some, Option.bind_some]
  cases hdead : (savedEntry expires x.1 v).dead now with
  | true => exact ⟨tmp, by rw [installEntry, if_pos hdead], rfl, fun _ _ => rfl⟩
  | false =>
    obtain ⟨tmp', htmp', hentry, hframe⟩ :=
      installEntry_alive tmp hdead (reload_storable hsized hk hv)
    exact ⟨tmp', htmp', hentry, hframe⟩

variable {sz lim now expires} in
theorem loadRound_reload {tmp' : Db}
    (h : loadRound sz lim now expires tmp x = some tmp') : ∃ v, reload sz lim x.2 = some v := by
  cases hv : reload sz lim x.2 with
  | none => simp [loadRound, hv] at h
  | some v => exact ⟨v, rfl⟩

/-- What the loop needs of an entry in any case. -/
def EntryBounds (x : Bytes × Obj) : Prop := Sized x.2 ∧ x.1.length ≤ uint32Max

theorem loadRounds_isSome : ∀ {xs : List (Bytes × Obj)} (tmp : Db), (∀ x ∈ xs, EntryBounds x) →
    ((xs.foldlM (loadRound sz lim now expires) tmp).isSome ↔ ∀ x ∈ xs, Loadable x.2)
  | [], tmp, _ => by simp
  | x :: xs, tmp, h => by
    obtain ⟨hsized, hk⟩ := h x (List.mem_cons_self ..)
    have hload := reload_isSome sz lim hsized
    rw [List.foldlM_cons]
    cases hv : reload sz lim x.2 with
    | none =>
      have hno : ¬ Loadable x.2 := fun hl => by
        rw [← hload, hv] at hl
        cases hl
      simp [loadRound, hv, hno]
    | some v =>
      have hyes : Loadable x.2 := hload.mp (by rw [hv]; rfl)
      obtain ⟨tmp', htmp', -⟩ := loadRound_some sz lim now expires tmp hsized hk hv
      have ih := loadRounds_isSome tmp' fun y hy => h y (List.mem_cons_of_mem _ hy)
      rw [htmp']
      exact ih.trans (by simp [hyes])

theorem loadRounds_frame : ∀ {xs : List (Bytes × Obj)} {tmp tmp' : Db},
    (∀ x ∈ xs, EntryBounds x) → xs.foldlM (loadRound sz lim now expires) tmp = some tmp' →
    ∀ k, k ∉ xs.map fst → tmp'.entry k = tmp.entry k
  | [], tmp, tmp', _, hrun, k, _ => by
    cases hrun
    rfl
  | x :: xs, tmp, tmp', h, hrun, k, hk => by
    obtain ⟨tmp₁, hround, hrest⟩ := Option.bind_eq_some_iff.mp hrun
    obtain ⟨hsized, hshort⟩ := h x (List.mem_cons_self ..)
    rw [List.map_cons, List.mem_cons, not_or] at hk
    obtain ⟨v, hv⟩ := loadRound_reload hround
    obtain ⟨tmp₂, htmp₂, -, hframe⟩ := loadRound_some sz lim now expires tmp hsized hshort hv
    cases htmp₂.symm.trans hround
    rw [loadRounds_frame (fun y hy => h y (List.mem_cons_of_mem _ hy)) hrest k hk.2]
    exact hframe k hk.1

/-- Every loaded key has the reloaded value and its expiry, unless it had expired. -/
theorem loadRounds_entry : ∀ {xs : List (Bytes × Obj)} {tmp tmp' : Db},
    (∀ x ∈ xs, EntryBounds x) → (xs.map fst).Nodup →
    xs.foldlM (loadRound sz lim now expires) tmp = some tmp' →
    ∀ x ∈ xs, ∃ v, reload sz lim x.2 = some v ∧
      tmp'.entry x.1 = if (savedEntry expires x.1 v).dead now then tmp.entry x.1
        else (some v, (savedEntry expires x.1 v).expiry)
  | [], _, _, _, _, _, x, hx => absurd hx List.not_mem_nil
  | y :: xs, tmp, tmp', h, hnodup, hrun, x, hx => by
    obtain ⟨tmp₁, hround, hrest⟩ := Option.bind_eq_some_iff.mp hrun
    obtain ⟨hsized, hshort⟩ := h y (List.mem_cons_self ..)
    have h' : ∀ z ∈ xs, EntryBounds z := fun z hz => h z (List.mem_cons_of_mem _ hz)
    rw [List.map_cons, List.nodup_cons] at hnodup
    obtain ⟨v, hv⟩ := loadRound_reload hround
    obtain ⟨tmp₂, htmp₂, hentry, hframe⟩ :=
      loadRound_some sz lim now expires tmp hsized hshort hv
    cases htmp₂.symm.trans hround
    rcases List.mem_cons.mp hx with rfl | hx
    · -- later rounds have other keys
      refine ⟨v, hv, ?_⟩
      rw [loadRounds_frame sz lim now expires h' hrest _ hnodup.1]
      exact hentry
    · have hne : x.1 ≠ y.1 := fun heq => hnodup.1 (heq ▸ List.mem_map_of_mem hx)
      obtain ⟨w, hw, hlast⟩ := loadRounds_entry h' hnodup.2 hrest x hx
      exact ⟨w, hw, by rw [hlast, hframe _ hne]⟩

end Rounds

/-! ## Databases -/

/-- Lengths and expiries a database keeps to: the constructors refuse longer values,
and an expiry is stored in eight bytes. -/
structure DbSized (d : Db) : Prop where
  values : ∀ k v, d.table.lookup k = some v → Sized v
  expiries : ∀ k t, d.expires.lookup k = some t → t < 256 ^ 8

theorem walk_bounds (hd : DbSized d) (walk : Walk d.table) :
    ∀ x ∈ walk.entries.items, EntryBounds x := by
  intro x hx
  have hlookup := (walk.mem x.1 x.2).mp hx
  exact ⟨hd.values x.1 x.2 hlookup, d.short x.1 (Finmap.mem_of_lookup_eq_some hlookup)⟩

theorem snapshotLoadMem_saved (sz : ObjMem) (lim : Limits) (now : Nat) (target : Db)
    {walk : Walk d.table} (hd : DbSized d) (hsave : snapshotSerialize d walk = some bs) :
    snapshotLoadMem sz lim target bs now =
      match walk.entries.items.foldlM (loadRound sz lim now d.expires) dbInit with
      | none => (-1, target)
      | some tmp => (0, swapDbData target tmp) := by
  simp only [snapshotSerialize, bind_eq_bind, Option.bind_eq_some_iff, pure_def,
    Option.some.injEq] at hsave
  obtain ⟨entries, hentries, rfl⟩ := hsave
  have hmagic : snapshotMagic.length = 8 := by decide
  have hload := loadEntries_written (installEntry now) dbInit hentries
    (fun x hx b hb => saveEntry_yields sz lim hb (walk_bounds hd walk x hx).1
      fun t ht => hd.expiries x.1 t ht) (Nat.le_refl _)
  rw [snapshotLoadMem, List.take_left' hmagic, List.drop_left' hmagic, hload]
  rfl

/-- What loading a saved database can come to: a value does not load and nothing
happens, or all of them do and the new tables are known key by key. -/
theorem snapshotLoadMem_cases (sz : ObjMem) (lim : Limits) (now : Nat) (target : Db)
    {walk : Walk d.table} (hd : DbSized d) (hsave : snapshotSerialize d walk = some bs) :
    (snapshotLoadMem sz lim target bs now = (-1, target) ∧
      ∃ k v, d.table.lookup k = some v ∧ ¬ Loadable v) ∨
    ∃ tmp, snapshotLoadMem sz lim target bs now = (0, swapDbData target tmp) ∧
      (∀ k v, d.table.lookup k = some v → Loadable v ∧
        ∃ v', reload sz lim v = some v' ∧
          tmp.entry k = if (savedEntry d.expires k v').dead now then (none, none)
            else (some v', (savedEntry d.expires k v').expiry)) ∧
      ∀ k, d.table.lookup k = none → tmp.table.lookup k = none := by
  have hbounds := walk_bounds hd walk
  have hsome := loadRounds_isSome sz lim now d.expires dbInit hbounds
  have hload := snapshotLoadMem_saved sz lim now target hd hsave
  cases hrun : walk.entries.items.foldlM (loadRound sz lim now d.expires) dbInit with
  | none =>
    rw [hrun] at hload hsome
    refine .inl ⟨hload, ?_⟩
    by_contra hall
    push Not at hall
    refine absurd (hsome.mpr fun x hx => ?_) (by simp)
    exact hall x.1 x.2 ((walk.mem x.1 x.2).mp hx)
  | some tmp =>
    rw [hrun] at hload hsome
    refine .inr ⟨tmp, hload, fun k v hlookup => ?_, fun k hlookup => ?_⟩
    · have hmem := (walk.mem k v).mpr hlookup
      exact ⟨hsome.mp rfl (k, v) hmem,
        loadRounds_entry sz lim now d.expires hbounds walk.entries.nodup hrun (k, v) hmem⟩
    -- a key the walk does not visit is as in the new temporary database
    have hnot : k ∉ walk.entries.items.map fst := by
      intro hmem
      obtain ⟨x, hx, rfl⟩ := List.mem_map.mp hmem
      rw [(walk.mem x.1 x.2).mp hx] at hlookup
      cases hlookup
    exact congrArg fst (loadRounds_frame sz lim now d.expires hbounds hrun k hnot)

/-- What a database stores under a key, as commands see it. -/
def shown (d : Db) (k : Bytes) : Option (View × Option Nat) :=
  (d.table.lookup k).map fun v => (view v, d.expires.lookup k)

/-- What it shows at an instant: nothing once the key has expired. -/
def shownAt (now : Nat) (d : Db) (k : Bytes) : Option (View × Option Nat) :=
  (d.live now k).map fun x => (view x.1, x.2)

def int64Max : Nat := 9223372036854775807

/-- Every value loads, the ones that have not expired look the same when reloaded, and
no expiry is past what a signed number holds. -/
def Survives (lim : Limits) (now : Nat) (d : Db) : Prop :=
  ∀ k v, d.table.lookup k = some v →
    Loadable v ∧ (∀ t, d.expires.lookup k = some t → t ≤ int64Max) ∧
      ((d.live now k).isSome → Faithful lim v)

/-- Per key: the loaded entry shows what the saved one did just if the expiry is in
range and a value that has not expired is faithful. -/
theorem loaded_shown_iff {sz : ObjMem} {lim : Limits} {now : Nat} (hlookup : d.table.lookup k = some v) (hsized : Sized v)
    (hv' : reload sz lim v = some v')
    (hentry : tmp.entry k = if (savedEntry d.expires k v').dead now then (none, none)
      else (some v', (savedEntry d.expires k v').expiry)) :
    shown tmp k = shownAt now d k ↔
      (∀ t, d.expires.lookup k = some t → t ≤ int64Max) ∧
        ((d.live now k).isSome → Faithful lim v) := by
  have hview := reload_view sz lim hsized hv'
  have htable : tmp.table.lookup k = _ := congrArg fst hentry
  have hexpires : tmp.expires.lookup k = _ := congrArg Prod.snd hentry
  rw [shown, htable, hexpires]
  cases ht : d.expires.lookup k with
  | none =>
    have hlive : d.live now k = some (v, none) := by simp [Db.live, Db.entry, hlookup, ht, liveEntry]
    simp [shownAt, hlive, savedEntry, ht, Entry.dead, Entry.timed, Entry.expiry, noExpire, hview]
  | some t =>
    by_cases hrange : t ≤ int64Max
    · have htimed : t < 9223372036854775808 := by unfold int64Max at hrange; omega
      by_cases hlt : now < t
      · have hlive : d.live now k = some (v, some t) := by
          simp [Db.live, Db.entry, hlookup, ht, liveEntry, hlt]
        have halive : ¬ t ≤ now := Nat.not_le.mpr hlt
        simp [shownAt, hlive, savedEntry, ht, Entry.dead, Entry.timed, Entry.expiry, htimed,
          halive, hrange, hview]
      · have hlive : d.live now k = none := by simp [Db.live, Db.entry, hlookup, ht, liveEntry, hlt]
        have hdead : t ≤ now := Nat.not_lt.mp hlt
        simp [shownAt, hlive, savedEntry, ht, Entry.dead, Entry.timed, htimed, hdead, hrange]
    · -- a number that reads as negative: the key is loaded without an expiry
      have htimed : ¬ t < 9223372036854775808 := by unfold int64Max at hrange; omega
      have hne : shownAt now d k ≠ some (view v', none) := by
        simp only [shownAt, Db.live, Db.entry, hlookup, ht, liveEntry]
        split <;> simp
      simp [savedEntry, ht, Entry.dead, Entry.timed, Entry.expiry, htimed, hrange, hne.symm]

def keyK : Bytes := [107]

def oneKey (v : Obj) : Db :=
  { dbInit with
    table := Finmap.singleton keyK v
    owned := fun _ h => absurd h Finmap.notMem_empty
    short := fun k h => by rw [Finmap.mem_singleton] at h; subst h; decide }

theorem oneKey_lookup {w : Obj} : (oneKey v).table.lookup k = some w ↔ k = keyK ∧ w = v := by
  by_cases hk : k = keyK
  · subst hk
    have hself : (oneKey v).table.lookup keyK = some v := Finmap.lookup_singleton_eq
    simp [hself, eq_comm]
  · have hnone : (oneKey v).table.lookup k = none :=
      Finmap.lookup_eq_none.mpr fun h => hk ((Finmap.mem_singleton _ _ _).mp h)
    simp [hnone, hk]

def oneWalk (v : Obj) : Walk (oneKey v).table where
  entries := ⟨[(keyK, v)], List.nodup_singleton _⟩
  mem := fun k w => by rw [oneKey_lookup]; simp

theorem oneKey_sized (h : Sized v) : DbSized (oneKey v) where
  values := fun _ _ hk => by rw [(oneKey_lookup.mp hk).2]; exact h
  expiries := nofun

def noSizes : ObjMem := ⟨fun _ => 0, fun _ => 0⟩

def smallLimits : Limits := ⟨128, 64⟩

def ttlHash : Obj := .boxed (.hash ⟨.packed (some [([120], [49])]), Finmap.singleton [120] 9⟩) 0

theorem Loadable.hot (h : Loadable v) : v.isHot = true := by
  cases v with
  | tier rid expire => exact h.elim
  | _ => rfl

/-- A loaded entry that had not expired holds the reloaded value, whatever its
expiry. -/
theorem loaded_lookup {now : Nat} (hlookup : d.table.lookup k = some v) (hlive : (d.live now k).isSome)
    (hentry : tmp.entry k = if (savedEntry d.expires k v').dead now then (none, none)
      else (some v', (savedEntry d.expires k v').expiry)) : tmp.table.lookup k = some v' := by
  have hdead : (savedEntry d.expires k v').dead now = false := by
    cases ht : d.expires.lookup k with
    | none => simp [savedEntry, ht, Entry.dead, Entry.timed, noExpire]
    | some t =>
      have hlt : now < t := by
        by_contra hge
        simp [Db.live, Db.entry, hlookup, ht, liveEntry, hge] at hlive
      simp [savedEntry, ht, Entry.dead, Nat.not_le.mpr hlt]
  rw [hdead] at hentry
  exact congrArg fst hentry

/-- Every value loads, and those that have not expired look the same when reloaded. -/
def Readable (lim : Limits) (now : Nat) (d : Db) : Prop :=
  ∀ k v, d.table.lookup k = some v → Loadable v ∧ ((d.live now k).isSome → Faithful lim v)

def anyTier : Tier := ⟨fun _ => none, fun _ => true, fun _ _ => some 1⟩

def tieredBoot : Server.State :=
  { Server.bootState 1 (fun _ => Server.openUser) (fun _ _ => none) with
    dbs := fun _ => { dbInit with tier := some anyTier, maxmemory := 80 } }

def evictHost : Server.Host := { Server.bareHost with victim := fun _ => some keyK }

def offloadRun : List (Nat × Server.Action) :=
  [(1, .accept none true),
   (1, .request 0 (Server.words ["SET", "k", "aaaaaaaaaaaaaaaaaaaaaaaaaaaaaaaaaaaaaaaa"]) [])]

def offloadedDb : Db := (Server.run evictHost tieredBoot offloadRun).dbs 0

theorem offloadedDb_table : offloadedDb.table = (oneKey (.tier 1 0)).table := by decide

theorem offloadedDb_sized : DbSized offloadedDb where
  values := fun k v hk => by
    rw [(oneKey_lookup.mp hk).2]
    trivial
  expiries := nofun

end Ddup.Snapshot
