/-
Ddup.Store.DbTheorems — what the key-space helpers can change.

`Confined k` is the one statement about a helper that the run-level proofs use:
it writes no key but `k`, it leaves the watch count and the flush epoch alone, its
counters only grow, and it cannot move the dirty count without moving the version
of `k` while some session watches. It is a preorder, so it composes.

The last section says what a helper leaves under the key it writes.
-/
import Ddup.Server.Ops

namespace Ddup.Store

open Ddup.Server

variable {k : Bytes} {d : Db} {now : Nat} {v : Obj}

/-! ## Confinement -/

/-- `d'` came from `d` by writing key `k` only. -/
structure Confined (k : Bytes) (d d' : Db) : Prop where
  refs : d'.watchRefs = d.watchRefs
  epoch : d'.flushEpoch = d.flushEpoch
  settings : d'.settings = d.settings
  dirty : d.dirty ≤ d'.dirty
  version : ∀ k', dbKeyVersion d k' ≤ dbKeyVersion d' k'
  frame : ∀ k', k' ≠ k → d'.entry k' = d.entry k'
  marked : d.dirty < d'.dirty → 0 < d.watchRefs → dbKeyVersion d k < dbKeyVersion d' k

namespace Confined

variable {k : Bytes} {d d₁ d₂ : Db}

theorem refl (k : Bytes) (d : Db) : Confined k d d where
  refs := rfl
  epoch := rfl
  settings := rfl
  dirty := Nat.le_refl _
  version := fun _ => Nat.le_refl _
  frame := fun _ _ => rfl
  marked := fun h => absurd h (Nat.lt_irrefl _)

theorem trans (h₁ : Confined k d d₁) (h₂ : Confined k d₁ d₂) : Confined k d d₂ where
  refs := h₂.refs.trans h₁.refs
  epoch := h₂.epoch.trans h₁.epoch
  settings := h₂.settings.trans h₁.settings
  dirty := h₁.dirty.trans h₂.dirty
  version := fun k' => (h₁.version k').trans (h₂.version k')
  frame := fun k' hk' => (h₂.frame k' hk').trans (h₁.frame k' hk')
  marked := fun hlt hrefs => by
    -- one of the two steps moved the counter, and that one moved the version
    rcases Nat.lt_or_ge d.dirty d₁.dirty with hfirst | hfirst
    · exact Nat.lt_of_lt_of_le (h₁.marked hfirst hrefs) (h₂.version k)
    have hsecond : d₁.dirty < d₂.dirty := Nat.lt_of_le_of_lt hfirst hlt
    exact Nat.lt_of_le_of_lt (h₁.version k)
      (h₂.marked hsecond (h₁.refs ▸ hrefs))

/-- A step that leaves every counter alone is confined if it writes `k` only. -/
theorem of_quiet (hvers : d₁.keyvers = d.keyvers) (hrefs : d₁.watchRefs = d.watchRefs)
    (hepoch : d₁.flushEpoch = d.flushEpoch) (hset : d₁.settings = d.settings)
    (hdirty : d₁.dirty = d.dirty)
    (hframe : ∀ k', k' ≠ k → d₁.entry k' = d.entry k') : Confined k d d₁ where
  refs := hrefs
  epoch := hepoch
  settings := hset
  dirty := hdirty.ge
  version := fun k' => by rw [dbKeyVersion, dbKeyVersion, hvers]
  frame := hframe
  marked := fun h => absurd h (by rw [hdirty]; exact Nat.lt_irrefl _)

end Confined

theorem dbKeyVersion_insert_self (d : Db) (k : Bytes) (n : Nat) :
    ((d.keyvers.insert k n).lookup k).getD 0 = n := by
  rw [Finmap.lookup_insert]
  rfl

theorem dbTouchKey_entry (d : Db) (k k' : Bytes) : (dbTouchKey d k).entry k' = d.entry k' := by
  unfold dbTouchKey
  split
  · rfl
  · split <;> rfl

theorem dbTouchKey_version_ne (d : Db) {k' : Bytes} (h : k' ≠ k) :
    dbKeyVersion (dbTouchKey d k) k' = dbKeyVersion d k' := by
  unfold dbTouchKey
  split
  · rfl
  split
  · rfl
  · simp only [dbKeyVersion, Finmap.lookup_insert_of_ne _ h]

theorem dbTouchKey_confined (d : Db) (k : Bytes) : Confined k d (dbTouchKey d k) := by
  have hself : dbKeyVersion d k ≤ dbKeyVersion (dbTouchKey d k) k ∧
      (d.dirty < (dbTouchKey d k).dirty → 0 < d.watchRefs →
        dbKeyVersion d k < dbKeyVersion (dbTouchKey d k) k) := by
    unfold dbTouchKey
    split
    · exact ⟨Nat.le_refl _, fun h => absurd h (Nat.lt_irrefl _)⟩
    split
    · rename_i hz
      exact ⟨Nat.le_refl _, fun _ hpos => absurd hz (Nat.ne_of_gt hpos)⟩
    have hv := dbKeyVersion_insert_self d k (dbKeyVersion d k + 1)
    simp only [dbKeyVersion] at hv ⊢
    omega
  refine ⟨?_, ?_, ?_, ?_, ?_, fun k' _ => dbTouchKey_entry d k k', hself.2⟩
  · unfold dbTouchKey
    split
    · rfl
    · split <;> rfl
  · unfold dbTouchKey
    split
    · rfl
    · split <;> rfl
  · unfold dbTouchKey
    split
    · rfl
    · split <;> rfl
  · unfold dbTouchKey
    split
    · exact Nat.le_refl _
    · split <;> exact Nat.le_succ _
  intro k'
  by_cases hk : k' = k
  · rw [hk]
    exact hself.1
  · rw [dbTouchKey_version_ne d hk]

/-! ### The cold store writes no counter and no entry -/

theorem failTier_confined (d : Db) (k : Bytes) : Confined k d (failTier d) :=
  .of_quiet rfl rfl rfl rfl rfl fun _ _ => rfl

theorem dropTier_confined (d : Db) (v : Obj) (k : Bytes) : Confined k d (dropTier d v) := by
  unfold dropTier
  split
  · split
    · exact .refl k d
    · exact failTier_confined d k
  · exact .refl k d

theorem dropTier_entry (d : Db) (v : Obj) (k : Bytes) : (dropTier d v).entry k = d.entry k := by
  unfold dropTier
  split
  · split <;> rfl
  · rfl

/-! ### Removing and storing -/

theorem clearExpiry_confined (d : Db) (k : Bytes) : Confined k d (clearExpiry d k) := by
  unfold clearExpiry
  split
  · refine .of_quiet rfl rfl rfl rfl rfl fun k' hk' => ?_
    simp only [Db.entry, Finmap.lookup_erase_ne hk']
  · exact .refl k d

theorem eraseEntry_confined (d : Db) (k : Bytes) (h : k ∉ d.expires) :
    Confined k d (eraseEntry d k h) := by
  refine .of_quiet rfl rfl rfl rfl rfl fun k' hk' => ?_
  simp only [Db.entry, eraseEntry, Finmap.lookup_erase_ne hk']

theorem removeEntry_confined (d : Db) (k : Bytes) (v : Obj) (keepObj : Bool) :
    Confined k d (removeEntry d k v keepObj) := by
  have hdrop : Confined k d (if keepObj then d else dropTier d v) := by
    split
    · exact .refl k d
    · exact dropTier_confined d v k
  have hclear := hdrop.trans (clearExpiry_confined _ k)
  have herase := hclear.trans (eraseEntry_confined _ k (clearExpiry_notMem _ k))
  -- the last update is the memory counter
  exact herase.trans (.of_quiet rfl rfl rfl rfl rfl fun _ _ => rfl)

theorem dbExpireIfNeeded_confined (d : Db) (k : Bytes) (now : Nat) :
    Confined k d (dbExpireIfNeeded d k now) := by
  unfold dbExpireIfNeeded
  split
  · exact .refl k d
  split
  · exact .refl k d
  split
  · exact .refl k d
  split
  · exact (clearExpiry_confined d k).trans (dbTouchKey_confined _ k)
  · exact (removeEntry_confined d k _ false).trans (dbTouchKey_confined _ k)

theorem dbTouchKey_dirty (d : Db) (h : k.length ≤ uint32Max) :
    d.dirty < (dbTouchKey d k).dirty := by
  unfold dbTouchKey
  rw [if_neg (Nat.not_lt.mpr h)]
  split <;> exact Nat.lt_succ_self _

theorem dbExpireIfNeeded_eq_or_dirty (d : Db) (k : Bytes) (now : Nat) :
    dbExpireIfNeeded d k now = d ∨ d.dirty < (dbExpireIfNeeded d k now).dirty := by
  unfold dbExpireIfNeeded
  split
  · exact .inl rfl
  rename_i hlen
  have hshort := Nat.le_of_not_lt hlen
  split
  · exact .inl rfl
  split
  · exact .inl rfl
  split
  · exact .inr (Nat.lt_of_le_of_lt (clearExpiry_confined d k).dirty (dbTouchKey_dirty _ hshort))
  · exact .inr (Nat.lt_of_le_of_lt (removeEntry_confined d k _ false).dirty
      (dbTouchKey_dirty _ hshort))

theorem releaseOld_confined (d : Db) (k : Bytes) : Confined k d (releaseOld d k) := by
  unfold releaseOld
  split
  · exact .refl k d
  · exact (dropTier_confined d _ k).trans (.of_quiet rfl rfl rfl rfl rfl fun _ _ => rfl)

theorem putEntry_confined (d : Db) (k : Bytes) (v : Obj) (hk : k.length ≤ uint32Max) :
    Confined k d (putEntry d k v hk) := by
  refine .of_quiet rfl rfl rfl rfl rfl fun k' hk' => ?_
  simp only [Db.entry, putEntry, Finmap.lookup_insert_of_ne _ hk']

theorem dbSetKv_confined (d : Db) (k : Bytes) (v : Obj) (keepTtl : Bool) :
    Confined k d (dbSetKv d k v keepTtl) := by
  unfold dbSetKv
  split
  · rename_i hfits
    have hclear : Confined k d (if keepTtl then d else clearExpiry d k) := by
      split
      · exact .refl k d
      · exact clearExpiry_confined d k
    have hput := (hclear.trans (releaseOld_confined _ k)).trans
      (putEntry_confined _ k v (storable_key hfits))
    exact hput.trans (dbTouchKey_confined _ k)
  · exact .refl k d

theorem dbDelKv_confined (d : Db) (k : Bytes) (keepObj : Bool) :
    Confined k d (dbDelKv d k keepObj).1 := by
  unfold dbDelKv
  split
  · exact .refl k d
  split
  · exact clearExpiry_confined d k
  · exact (removeEntry_confined d k _ keepObj).trans (dbTouchKey_confined _ k)

theorem dbSetExpiry_confined (d : Db) (k : Bytes) (t : Nat) : Confined k d (dbSetExpiry d k t) := by
  unfold dbSetExpiry
  split
  · exact .refl k d
  split
  · refine .of_quiet rfl rfl rfl rfl rfl fun k' hk' => ?_
    simp only [Db.entry, Finmap.lookup_insert_of_ne _ hk']
  · exact .refl k d

theorem editEntry_confined (d : Db) (k : Bytes) (v : Obj) : Confined k d (editEntry d k v) := by
  unfold editEntry
  split
  · refine .of_quiet rfl rfl rfl rfl rfl fun k' hk' => ?_
    simp only [Db.entry, Finmap.lookup_insert_of_ne _ hk']
  · exact .refl k d

theorem syncMem_confined (d : Db) (before after : UInt64) (k : Bytes) :
    Confined k d (syncMem d before after) :=
  .of_quiet rfl rfl rfl rfl rfl fun _ _ => rfl

theorem restoreKey_confined (d : Db) (k : Bytes) (v : Obj) (expire : Nat) :
    Confined k d (restoreKey d k v expire) := by
  unfold restoreKey
  split
  · exact dbSetKv_confined d k v false
  · exact (dbSetKv_confined d k v false).trans (dbSetExpiry_confined _ k expire)

theorem dbTierMaterialize_confined (d : Db) (k : Bytes) (rid : Nat) :
    Confined k d (dbTierMaterialize d k rid).1 := by
  unfold dbTierMaterialize
  split
  · exact failTier_confined d k
  · exact (restoreKey_confined d k _ _).trans (dropTier_confined _ _ k)

theorem lookupHot_confined (d : Db) (k : Bytes) : Confined k d (lookupHot d k).1 := by
  unfold lookupHot
  split
  · exact .refl k d
  · exact dbTierMaterialize_confined d k _
  · exact .refl k d

theorem dbGet_confined (d : Db) (k : Bytes) (now : Nat) : Confined k d (dbGet d k now).1 :=
  (dbExpireIfNeeded_confined d k now).trans (lookupHot_confined _ k)

theorem keyStep_confined (now : Nat) (k : Bytes) (o : KeyOp) (d : Db) :
    Confined k d (keyStep now k o d).2 := by
  have hexp := dbExpireIfNeeded_confined d k now
  cases o with
  | get => exact dbGet_confined d k now
  | expire | peek | ttl => exact hexp
  | setKv v keepTtl =>
    cases keepTtl with
    | false => exact dbSetKv_confined d k v false
    | true => exact hexp.trans (dbSetKv_confined _ k v true)
  | delKv keepObj => exact hexp.trans (dbDelKv_confined _ k keepObj)
  | setExpiry t touch =>
    have hset := hexp.trans (dbSetExpiry_confined _ k t)
    cases touch with
    | false => exact hset
    | true => exact hset.trans (dbTouchKey_confined _ k)
  | clearExpiry touch =>
    simp only [keyStep]
    split
    · have hclear := hexp.trans (clearExpiry_confined _ k)
      cases touch with
      | false => exact hclear
      | true => exact hclear.trans (dbTouchKey_confined _ k)
    · exact hexp
  | edit v touch =>
    simp only [keyStep]
    split
    · exact hexp
    have hedit := hexp.trans (editEntry_confined _ k v)
    cases touch with
    | false => exact hedit
    | true => exact (hedit.trans (syncMem_confined _ _ _ k)).trans (dbTouchKey_confined _ k)

theorem dbEvictOne_confined (d : Db) (k : Bytes) : Confined k d (dbEvictOne d k).1 := by
  unfold dbEvictOne
  split
  · exact dbDelKv_confined d k false
  · unfold tierOffload
    split
    · exact failTier_confined d k
    · exact (editEntry_confined d k _).trans (syncMem_confined _ _ _ k)
  · exact dbDelKv_confined d k false

/-! ## The key that is written -/

theorem clearExpiry_entry (d : Db) (k : Bytes) :
    (clearExpiry d k).entry k = (d.table.lookup k, none) := by
  unfold clearExpiry
  split
  · simp [Db.entry]
  · rename_i hk
    simp [Db.entry, Finmap.lookup_eq_none.mpr hk]

theorem removeEntry_entry (d : Db) (k : Bytes) (v : Obj) (keepObj : Bool) :
    (removeEntry d k v keepObj).entry k = (none, none) := by
  have hexp : ∀ d', (clearExpiry d' k).expires.lookup k = none := fun d' =>
    Finmap.lookup_eq_none.mpr (clearExpiry_notMem d' k)
  simp [removeEntry, Db.entry, eraseEntry, hexp]

theorem expires_none_of_table (h : d.table.lookup k = none) : d.expires.lookup k = none := by
  rw [Finmap.lookup_eq_none] at h ⊢
  exact fun hk => h (d.owned k hk)

theorem table_none_of_long (h : uint32Max < k.length) : d.table.lookup k = none := by
  rw [Finmap.lookup_eq_none]
  exact fun hk => Nat.not_lt.mpr (d.short k hk) h

theorem live_of_entry {x : Option Obj × Option Nat} (h : d.entry k = x)
    (now : Nat) : d.live now k = liveEntry now x := by rw [Db.live, h]

theorem putEntry_entry (d : Db) (k : Bytes) (v : Obj) (hk : k.length ≤ uint32Max) :
    (putEntry d k v hk).entry k = (some v, d.expires.lookup k) := by
  simp [putEntry, Db.entry]

theorem releaseOld_expires (d : Db) (k k' : Bytes) :
    (releaseOld d k).expires.lookup k' = d.expires.lookup k' := by
  unfold releaseOld
  split
  · rfl
  · exact congrArg Prod.snd (dropTier_entry d _ k')

theorem dbSetKv_entry (d : Db) (keepTtl : Bool) (h : storable k v = true) :
    (dbSetKv d k v keepTtl).entry k = (some v, if keepTtl then d.expires.lookup k else none) := by
  unfold dbSetKv
  rw [dif_pos h, dbTouchKey_entry, putEntry_entry, releaseOld_expires]
  cases keepTtl with
  | true => rfl
  | false => exact congrArg (Prod.mk (some v)) (congrArg Prod.snd (clearExpiry_entry d k))

theorem dbSetExpiry_entry (d : Db) (k : Bytes) (t : Nat) :
    (dbSetExpiry d k t).entry k = (d.table.lookup k, (d.table.lookup k).bind fun _ => some t) := by
  unfold dbSetExpiry
  split
  · rename_i hlong
    have htable := table_none_of_long (d := d) hlong
    simp [Db.entry, htable, expires_none_of_table htable]
  split
  · rename_i hmem
    obtain ⟨v, hv⟩ := Finmap.mem_iff.mp hmem
    simp [Db.entry, hv]
  · rename_i hmem
    have htable := Finmap.lookup_eq_none.mpr hmem
    simp [Db.entry, htable, expires_none_of_table htable]

theorem editEntry_entry {old : Obj} (h : d.table.lookup k = some old)
    (v : Obj) : (editEntry d k v).entry k = (some v, d.expires.lookup k) := by
  unfold editEntry
  rw [dif_pos (Finmap.mem_of_lookup_eq_some h)]
  simp [Db.entry]

theorem dbDelKv_spec (d : Db) (k : Bytes) (keepObj : Bool) :
    (dbDelKv d k keepObj).2 = (d.table.lookup k).isSome ∧
      (dbDelKv d k keepObj).1.entry k = (none, none) := by
  unfold dbDelKv
  split
  · rename_i hlong
    have htable := table_none_of_long (d := d) hlong
    simp [Db.entry, htable, expires_none_of_table htable]
  split
  · rename_i htable
    rw [clearExpiry_entry, htable]
    exact ⟨rfl, rfl⟩
  · rename_i v htable
    rw [dbTouchKey_entry, removeEntry_entry, htable]
    exact ⟨rfl, rfl⟩

theorem dbExpireIfNeeded_of_live (h : (d.live now k).isSome) : dbExpireIfNeeded d k now = d := by
  unfold dbExpireIfNeeded
  split
  · rfl
  cases ht : d.expires.lookup k with
  | none => rfl
  | some t =>
    have hlt : now < t := by
      by_contra hge
      cases hv : d.table.lookup k with
      | none => simp [Db.live, Db.entry, hv, liveEntry] at h
      | some v => simp [Db.live, Db.entry, hv, ht, liveEntry, hge] at h
    exact if_pos hlt

theorem dbGet_of_live (h : (d.live now k).isSome)
    (hv : d.table.lookup k = some v) (hhot : v.isHot = true) : (dbGet d k now).2 = some v := by
  rw [dbGet, dbExpireIfNeeded_of_live h, lookupHot, hv]
  cases v with
  | tier rid expire => cases hhot
  | _ => rfl

end Ddup.Store
