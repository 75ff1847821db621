/-
Ddup.Table.RhtableTheorems — the table is a finite map, except where a batch of
the incremental rehash strands an entry.

`Shape H slack t` is the invariant of both arrays together: each is a
`RobinHood` array, the old one with its first `migratePos` slots cleared, and
the load stays below capacity. The load of a rehash is carried by ONE number,
`16 * size + oldLive`: an operation moves sixteen old entries and adds at most
one, so the number never grows past its value when the rehash began, and the
new array always has an empty slot. `slack` is 16 between operations and 0
after an operation has migrated its batch.

The lookups follow `RobinHoodTheorems`: an entry is found unless its probe path
is cut, and `Stranded` is that condition read off the table before the batch
moves (`lost_iff_stranded`). The last section assembles the run theorem.
-/
import Ddup.Table.RobinHoodTheorems

namespace Ddup.Table

open Ddup.Lib
open Finmap (ext_lookup lookup_erase_ne)
open Multiset (card card_cons)
open Option (bind_eq_bind bind_some map_some)

variable {H : Bytes → UInt64} {cap slack oldCap : Nat} {t : RhTable} {old : Slots}
    {e : RhEntry} {t : RhTable} {M : KeyMap} {k v : Bytes}
variable {items : Multiset (Σ _ : Bytes, Bytes)} {live pos : Nat} {op : RhOp} {ops : List RhOp}
  {place : Place} {slots : Slots} {t' : RhTable} {val : Bytes}

/-! ## The invariant of both arrays -/

theorem rhGrowthLimit_eq (cap : Nat) : rhGrowthLimit cap = 85 * cap / 100 := by
  simp only [rhGrowthLimit, rhMaxLoadDen, rhMaxLoadNum]
  omega

/-- The old array while a rehash is under way. -/
structure Rehash (H : Bytes → UInt64) (slack : Nat) (t : RhTable) (old : Slots) :
    Prop where
  double : t.cap = 2 * t.oldCap
  array : RobinHood H t.oldCap t.migratePos old
  bound : t.migratePos ≤ t.oldCap
  live : t.oldLive = (bag view old).card
  load : 16 * t.size + t.oldLive ≤ 17 * rhGrowthLimit t.oldCap + slack

structure Shape (H : Bytes → UInt64) (slack : Nat) (t : RhTable) : Prop where
  pow : ∃ k, t.cap = 2 ^ k
  atLeast : 16 ≤ t.cap
  array : RobinHood H t.cap 0 t.slots
  size : t.size = (contents t).card
  growAt : t.growAt = rhGrowthLimit t.cap
  idle : t.oldSlots = none → t.size ≤ t.growAt
  busy : ∀ old, t.oldSlots = some old → 16 ≤ t.oldCap ∧ Rehash H slack t old

theorem contents_idle (h : t.oldSlots = none) : contents t = bag view t.slots := by
  simp [contents, h]

theorem contents_busy (h : t.oldSlots = some old) :
    contents t = bag view t.slots + bag view old := by
  simp [contents, h]

theorem Shape.old_pow (hs : Shape H slack t) (ho : t.oldSlots = some old)
    : ∃ k, t.oldCap = 2 ^ k := by
  obtain ⟨k, hk⟩ := hs.pow
  have hcap := hs.atLeast
  have hd := (hs.busy old ho).2.double
  cases k with
  | zero => rw [hk] at hcap; omega
  | succ k => exact ⟨k, by rw [pow_succ] at hk; omega⟩

/-- Fewer entries than the new array has slots: every insert finds room. -/
theorem Shape.room (hs : Shape H slack t) (hslack : slack ≤ 16) : t.size + 1 < t.cap := by
  have hcap := hs.atLeast
  cases ho : t.oldSlots with
  | none =>
    have hle := hs.idle ho
    rw [hs.growAt, rhGrowthLimit_eq] at hle
    omega
  | some old =>
    obtain ⟨hmin, hre⟩ := hs.busy old ho
    have hload := hre.load
    have hdouble := hre.double
    rw [rhGrowthLimit_eq] at hload
    omega

theorem Shape.room_new (hs : Shape H slack t) (hslack : slack ≤ 16)
    : (bag view t.slots).card < t.cap := by
  have hroom := hs.room hslack
  have hle : (bag view t.slots).card ≤ (contents t).card := by simp [contents]
  rw [← hs.size] at hle
  omega

theorem Shape.room_old (hs : Shape H slack t) (hslack : slack ≤ 16) (ho : t.oldSlots = some old) :
    (bag view old).card < t.oldCap := by
  obtain ⟨hmin, hre⟩ := hs.busy old ho
  have hload := hre.load
  have hle : (bag view old).card ≤ t.size := by
    rw [hs.size, contents_busy ho]
    simp
  rw [rhGrowthLimit_eq] at hload
  omega

/-! ## `rh_migrate_some` -/

/-- The part of the invariant the migration loop works on. -/
structure Moving (H : Bytes → UInt64) (cap oldCap : Nat) (slots old : Slots)
    (live pos : Nat) (items : Multiset (Σ _ : Bytes, Bytes)) : Prop where
  newArray : RobinHood H cap 0 slots
  oldArray : RobinHood H oldCap pos old
  live : live = (bag view old).card
  total : bag view slots + bag view old = items
  room : items.card < cap

theorem Moving.skip (h : Moving H cap oldCap slots old live pos items) (hpos : pos < oldCap)
    (hslot : slotAt old pos = none) : Moving H cap oldCap slots old live (pos + 1) items := by
  have hset : old.set pos none = old := by
    apply List.ext_getElem (by simp)
    intro i h₁ h₂
    by_cases hip : pos = i
    · subst hip
      simpa [slotAt, h₂] using hslot.symm
    · simp [hip]
  have hadv := h.oldArray.advance hpos
  rw [hset] at hadv
  exact ⟨h.newArray, hadv, h.live, h.total, h.room⟩

/-- One bucket moved: its entry leaves the old bag and joins the new one. -/
theorem Moving.move {k : Nat}
    (hcap : cap = 2 ^ k) (h2 : 2 ≤ cap) (h : Moving H cap oldCap slots old live pos items)
    (hpos : pos < oldCap) (hslot : slotAt old pos = some e) :
    ∃ slots', rhInsertEntry slots cap e = some slots' ∧ 0 < live ∧
      Moving H cap oldCap slots' (old.set pos none) (live - 1) (pos + 1) items := by
  have hold : bag view old = view e ::ₘ bag view (old.set pos none) := bag_eq_cons hslot
  have hroom : (bag view slots).card < cap := by
    have hle : (bag view slots).card ≤ items.card := by rw [← h.total]; simp
    have := h.room
    omega
  obtain ⟨slots', hins, hrh, hbag⟩ :=
    rhInsertEntry_spec hcap h2 h.newArray hroom (h.oldArray.hashed pos e hslot)
  have hcard : live = (bag view (old.set pos none)).card + 1 := by rw [h.live, hold, card_cons]
  refine ⟨slots', hins, by omega, hrh, h.oldArray.advance hpos, by omega, ?_, h.room⟩
  rw [← h.total, hbag, hold]
  simp only [← Multiset.singleton_add]
  abel

/-- What a batch leaves. Either the old array is empty, and held no more than
the batch; or the whole batch moved, and the new boundary is the first slot with
a batch of occupied slots before it. The induction is on the buckets left. -/
theorem rhMigrateLoop_spec {k : Nat} (hcap : cap = 2 ^ k) (h2 : 2 ≤ cap) :
    ∀ left moved t old items,
      t.cap = cap → t.oldCap = oldCap → t.oldSlots = some old →
      Moving H cap oldCap t.slots old t.oldLive t.migratePos items →
      t.migratePos + left = oldCap → moved ≤ rhMigrateBatch →
      ∃ slots' old' live' pos',
        rhMigrateLoop left moved t = some { t with
          slots := slots', oldSlots := some old', oldLive := live', migratePos := pos' } ∧
        Moving H cap oldCap slots' old' live' pos' items ∧
        t.migratePos ≤ pos' ∧ pos' ≤ oldCap ∧
        (∀ p, pos' ≤ p → slotAt old' p = slotAt old p) ∧
        (live' = 0 ∧ t.oldLive ≤ rhMigrateBatch - moved ∨
          0 < live' ∧ live' + (rhMigrateBatch - moved) = t.oldLive ∧
          ∀ x, t.migratePos ≤ x →
            (pos' ≤ x ↔ rhMigrateBatch - moved ≤ occupied old t.migratePos x)) := by
  intro left
  induction left with
  | zero =>
    intro moved t old items hc hoc ho hmv hleft hmoved
    -- every slot is cleared, so nothing is left to move
    have hlive : t.oldLive = 0 := by
      rw [hmv.live, Multiset.card_eq_zero, Multiset.eq_zero_iff_forall_notMem]
      intro b hb
      obtain ⟨i, e, hi, -⟩ := mem_bag.mp hb
      have hin := lt_of_slotAt hi
      rw [hmv.oldArray.length] at hin
      rw [hmv.oldArray.low i (by omega)] at hi
      cases hi
    refine ⟨t.slots, old, t.oldLive, t.migratePos, by rw [rhMigrateLoop, ← ho], hmv,
      Nat.le_refl _, by omega, fun p _ => rfl, .inl ⟨hlive, by omega⟩⟩
  | succ left ih =>
    intro moved t old items hc hoc ho hmv hleft hmoved
    rw [rhMigrateLoop]
    split
    · rename_i hgo
      simp only [ho]
      have hpos : t.migratePos < oldCap := by omega
      cases hslot : slotAt old t.migratePos with
      | none =>
        obtain ⟨slots', old', live', pos', hrun, hmv', hge, hle, hsame, hend⟩ :=
          ih moved { t with migratePos := t.migratePos + 1 } old items hc hoc ho
            (hmv.skip hpos hslot) (by simp only []; omega) hmoved
        simp only [] at hrun hge hend
        refine ⟨slots', old', live', pos', by simpa only [ho] using hrun, hmv',
          by omega, hle, hsame, ?_⟩
        rcases hend with ⟨hz, hb⟩ | ⟨hp, hb, hiff⟩
        · exact .inl ⟨hz, hb⟩
        refine .inr ⟨hp, hb, ?_⟩
        intro x hx
        by_cases hxp : x = t.migratePos
        · rw [hxp, occupied_self]
          omega
        rw [hiff x (by omega), occupied_split old (by omega : t.migratePos ≤
          t.migratePos + 1) (by omega), occupied_succ, hslot]
        simp
      | some e =>
        obtain ⟨slots₁, hins, hlive, hmv₁⟩ := hmv.move hcap h2 hpos hslot
        simp only [hc, hins, bind_eq_bind, bind_some]
        obtain ⟨slots', old', live', pos', hrun, hmv', hge, hle, hsame, hend⟩ :=
          ih (moved + 1)
            { t with
              slots := slots₁
              oldSlots := some (old.set t.migratePos none)
              oldLive := t.oldLive - 1
              migratePos := t.migratePos + 1 }
            (old.set t.migratePos none) items hc hoc rfl hmv₁ (by simp only []; omega)
            (by omega)
        simp only [] at hrun hge hend
        have hafter : ∀ p, t.migratePos + 1 ≤ p →
            slotAt (old.set t.migratePos none) p = slotAt old p :=
          fun p hp => slotAt_set_ne (by omega) none
        refine ⟨slots', old', live', pos', by simpa only [hc] using hrun, hmv',
          by omega, hle, ?_, ?_⟩
        · intro p hp
          rw [hsame p hp, hafter p (by omega)]
        rcases hend with ⟨hz, hb⟩ | ⟨hp, hb, hiff⟩
        · exact .inl ⟨hz, by omega⟩
        refine .inr ⟨hp, by omega, ?_⟩
        intro x hx
        by_cases hxp : x = t.migratePos
        · rw [hxp, occupied_self]
          omega
        rw [hiff x (by omega), occupied_congr hafter,
          occupied_split old (by omega : t.migratePos ≤ t.migratePos + 1)
            (by omega), occupied_succ, hslot]
        simp only [Option.isSome_some, if_true]
        omega
    · rename_i hstop
      refine ⟨t.slots, old, t.oldLive, t.migratePos, by rw [← ho], hmv, Nat.le_refl _,
        by omega, fun p _ => rfl, ?_⟩
      by_cases hz : t.oldLive = 0
      · exact .inl ⟨hz, by omega⟩
      refine .inr ⟨by omega, by omega, ?_⟩
      intro x hx
      constructor
      · intro _; omega
      · intro _; exact hx

/-- The entry of `k` is in the old array, cut off from its home. -/
def Lost (t : RhTable) (k : Bytes) : Prop :=
  ∃ old p e, t.oldSlots = some old ∧ slotAt old p = some e ∧ e.key = k ∧
    Cut t.migratePos p e.psl

theorem rhMigrateSome_idle (ho : t.oldSlots = none) : rhMigrateSome t = some t := by
  simp [rhMigrateSome, ho]

/-- When the boundary after the batch is the first slot with a batch of occupied
slots before it, the lost keys are the ones that were stranded. -/
theorem lost_iff_stranded {old' : Slots} (ho : t.oldSlots = some old)
    (ho' : t'.oldSlots = some old') (hlow : ∀ i < t'.migratePos, slotAt old' i = none)
    (hsame : ∀ p, t'.migratePos ≤ p → slotAt old' p = slotAt old p)
    (hiff : ∀ x, t'.migratePos ≤ x ↔ rhMigrateBatch ≤ occupied old t.migratePos x) (key : Bytes)
    : Lost t' key ↔ Stranded t key := by
  have hpos : 0 < t'.migratePos := by
    by_contra hz
    have := (hiff 0).mp (by omega)
    rw [occupied_of_le (Nat.zero_le _)] at this
    simp [rhMigrateBatch] at this
  constructor
  · rintro ⟨o, p, e, h, hp, hkey, -, hcut⟩
    rw [ho'] at h
    cases h
    have hpp : t'.migratePos ≤ p := by
      by_contra hlt
      rw [hlow p (by omega)] at hp
      cases hp
    rw [hsame p hpp] at hp
    refine ⟨old, p, e, ho, hp, hkey, (hiff p).mp hpp, hcut.imp_right ?_⟩
    by_contra hge
    have := (hiff (p - e.psl)).mpr (by omega)
    omega
  · rintro ⟨o, p, e, h, hp, hkey, hfar, hcut⟩
    rw [ho] at h
    cases h
    have hpp := (hiff p).mpr hfar
    refine ⟨old', p, e, ho', by rw [hsame p hpp]; exact hp, hkey, hpos, hcut.imp_right ?_⟩
    by_contra hge
    have := (hiff (p - e.psl)).mp (by omega)
    omega

theorem not_stranded_of_few (ho : t.oldSlots = some old) (hre : Rehash H slack t old)
    (hfew : t.oldLive ≤ rhMigrateBatch) (key : Bytes) : ¬ Stranded t key := by
  rintro ⟨o, p, e, h, hp, -, hfar, -⟩
  rw [ho] at h
  cases h
  have hfrom : t.migratePos ≤ p := by
    by_contra hlt
    rw [hre.array.low p (by omega)] at hp
    cases hp
  have := occupied_lt_card (f := view) hp hfrom
  rw [← hre.live] at this
  omega

/-- The batch of an operation. It keeps the contents, and afterwards the lost
keys are the ones that were stranded before it. -/
theorem rhMigrateSome_spec (hs : Shape H 16 t) :
    ∃ t', rhMigrateSome t = some t' ∧ Shape H 0 t' ∧ contents t' = contents t ∧
      ∀ key, Lost t' key ↔ Stranded t key := by
  obtain ⟨k, hk⟩ := hs.pow
  cases ho : t.oldSlots with
  | none =>
    refine ⟨t, rhMigrateSome_idle ho, ?_, rfl, ?_⟩
    · exact ⟨hs.pow, hs.atLeast, hs.array, hs.size, hs.growAt, hs.idle,
        fun old h => by rw [ho] at h; cases h⟩
    · intro key
      simp [Lost, Stranded, ho]
  | some old =>
    obtain ⟨hmin, hre⟩ := hs.busy old ho
    have hroom := hs.room (Nat.le_refl 16)
    have hload := hre.load
    have hmv : Moving H t.cap t.oldCap t.slots old t.oldLive t.migratePos (contents t) :=
      ⟨hs.array, hre.array, hre.live, (contents_busy ho).symm, by rw [← hs.size]; omega⟩
    obtain ⟨slots', old', live', pos', hrun, hmv', hge, hle, hsame, hend⟩ :=
      rhMigrateLoop_spec hk (by omega) (t.oldCap - t.migratePos) 0 t old (contents t) rfl rfl
        ho hmv (by have := hre.bound; omega) (Nat.zero_le _)
    have hres : rhMigrateSome t = some (rhReleaseOld { t with
        slots := slots', oldSlots := some old', oldLive := live', migratePos := pos' }) := by
      rw [rhMigrateSome, ho]
      simp [hrun]
    rcases hend with ⟨hz, hfew⟩ | ⟨hpos, hmoved, hiff⟩
    · -- the batch emptied the old array
      have hnew : bag view slots' = contents t := by
        have hbag : bag view old' = 0 := by rw [← Multiset.card_eq_zero, ← hmv'.live, hz]
        rw [← hmv'.total, hbag, add_zero]
      rw [rhReleaseOld, if_pos hz] at hres
      refine ⟨_, hres, ⟨hs.pow, hs.atLeast, hmv'.newArray, ?_, hs.growAt, ?_, ?_⟩, ?_, ?_⟩
      · rw [contents_idle rfl, hnew]
        exact hs.size
      · intro _
        have hdouble := hre.double
        simp only [hs.growAt]
        rw [rhGrowthLimit_eq] at hload ⊢
        omega
      · intro o h; cases h
      · rw [contents_idle rfl, hnew]
      intro key
      have := not_stranded_of_few ho hre hfew key
      simp [Lost, this]
    · -- a full batch moved and the rehash goes on
      rw [rhReleaseOld, if_neg (by simp only []; omega)] at hres
      refine ⟨_, hres, ⟨hs.pow, hs.atLeast, hmv'.newArray, ?_, hs.growAt, ?_, ?_⟩, ?_, ?_⟩
      · rw [contents_busy rfl, hmv'.total]
        exact hs.size
      · intro h; cases h
      · rintro o ⟨⟩
        refine ⟨hmin, hre.double, hmv'.oldArray, hle, hmv'.live, ?_⟩
        simp only [rhMigrateBatch] at hmoved ⊢
        omega
      · rw [contents_busy rfl, hmv'.total]
      refine lost_iff_stranded ho rfl hmv'.oldArray.low hsame ?_
      intro x
      by_cases hx : t.migratePos ≤ x
      · exact hiff x hx
      rw [occupied_of_le (by omega)]
      simp only [rhMigrateBatch]
      omega

/-! ## Lookup in both arrays -/

section Locate

variable {t : RhTable} (hnd : ((contents t).map Sigma.fst).Nodup) {key : Bytes}

include hnd

theorem nodup_new : ((bag view t.slots).map Sigma.fst).Nodup := by
  rw [contents, Multiset.map_add] at hnd
  exact (Multiset.nodup_add.mp hnd).1

theorem nodup_old {old : Slots} (ho : t.oldSlots = some old) :
    ((bag view old).map Sigma.fst).Nodup := by
  rw [contents_busy ho, Multiset.map_add] at hnd
  exact (Multiset.nodup_add.mp hnd).2.1

theorem not_new_of_old {old : Slots} (ho : t.oldSlots = some old) {p : Nat}
    (hp : slotAt old p = some e) : ∀ q f, slotAt t.slots q = some f → f.key ≠ e.key := by
  intro q f hq hkey
  rw [contents_busy ho, Multiset.map_add] at hnd
  have hdis := (Multiset.nodup_add.mp hnd).2.2
  have hnew : e.key ∈ (bag view t.slots).map Sigma.fst :=
    Multiset.mem_map.mpr ⟨view f, mem_bag.mpr ⟨q, f, hq, rfl⟩, hkey⟩
  have hold : e.key ∈ (bag view old).map Sigma.fst :=
    Multiset.mem_map.mpr ⟨view e, mem_bag.mpr ⟨p, e, hp, rfl⟩, rfl⟩
  exact Multiset.disjoint_left.mp hdis hnew hold

variable (hs : Shape H 0 t)

include hs

/-- A stored key that is not lost is located, with its entry. -/
theorem rhLocate_found (hmem : (⟨key, val⟩ : Σ _ : Bytes, Bytes) ∈ contents t)
    (hlost : ¬ Lost t key) :
    ∃ place e, rhLocate H t key = some place ∧ t.entryAt place = some e ∧
      e.key = key ∧ e.val = val := by
  obtain ⟨k, hk⟩ := hs.pow
  have hroom := hs.room_new (Nat.zero_le 16)
  cases ho : t.oldSlots with
  | none =>
    rw [contents_idle ho] at hmem
    obtain ⟨p, e, hp, hview⟩ := mem_bag.mp hmem
    cases hview
    have hfind := rhFindIn_reachable hk hs.array hroom (nodup_new hnd) hp
      (fun h => absurd h.1 (Nat.lt_irrefl 0))
    exact ⟨.new p, e, by simp [rhLocate, hfind], hp, rfl, rfl⟩
  | some old =>
    rw [contents_busy ho, Multiset.mem_add] at hmem
    rcases hmem with hnew | hold
    · obtain ⟨p, e, hp, hview⟩ := mem_bag.mp hnew
      cases hview
      have hfind := rhFindIn_reachable hk hs.array hroom (nodup_new hnd) hp
        (fun h => absurd h.1 (Nat.lt_irrefl 0))
      exact ⟨.new p, e, by simp [rhLocate, hfind], hp, rfl, rfl⟩
    obtain ⟨p, e, hp, hview⟩ := mem_bag.mp hold
    cases hview
    obtain ⟨k', hk'⟩ := hs.old_pow ho
    have hmiss := rhFindIn_absent hk hs.array hroom (not_new_of_old hnd ho hp)
    have hcut : ¬ Cut t.migratePos p e.psl :=
      fun h => hlost ⟨old, p, e, ho, hp, rfl, h⟩
    have hfind := rhFindIn_reachable hk' (hs.busy old ho).2.array
      (hs.room_old (Nat.zero_le 16) ho) (nodup_old hnd ho) hp hcut
    exact ⟨.old p, e, by simp [rhLocate, hmiss, ho, hfind],
      by simp [RhTable.entryAt, ho, hp], rfl, rfl⟩

/-- A lost key is reported absent, although its entry is stored. -/
theorem rhLocate_lost (hlost : Lost t key) : rhLocate H t key = some .absent := by
  obtain ⟨old, p, e, ho, hp, rfl, hcut⟩ := hlost
  obtain ⟨k, hk⟩ := hs.pow
  obtain ⟨k', hk'⟩ := hs.old_pow ho
  have hmiss := rhFindIn_absent hk hs.array (hs.room_new (Nat.zero_le 16))
    (not_new_of_old hnd ho hp)
  have hcutoff := rhFindIn_cut hk' (hs.busy old ho).2.array
    (hs.room_old (Nat.zero_le 16) ho) (nodup_old hnd ho) hp hcut
  simp [rhLocate, hmiss, ho, hcutoff]

omit hnd in
theorem rhLocate_absent (habs : ∀ val, (⟨key, val⟩ : Σ _ : Bytes, Bytes) ∉ contents t) :
    rhLocate H t key = some .absent := by
  obtain ⟨k, hk⟩ := hs.pow
  have hnew : ∀ p e, slotAt t.slots p = some e → e.key ≠ key := by
    intro p e hp hkey
    exact habs e.val (Multiset.mem_add.mpr (.inl (mem_bag.mpr
      ⟨p, e, hp, by rw [view, hkey]⟩)))
  have hmiss := rhFindIn_absent hk hs.array (hs.room_new (Nat.zero_le 16)) hnew
  cases ho : t.oldSlots with
  | none => simp [rhLocate, hmiss, ho]
  | some old =>
    obtain ⟨k', hk'⟩ := hs.old_pow ho
    have hold : ∀ p e, slotAt old p = some e → e.key ≠ key := by
      intro p e hp hkey
      rw [contents_busy ho] at habs
      exact habs e.val (Multiset.mem_add.mpr (.inr (mem_bag.mpr
        ⟨p, e, hp, by rw [view, hkey]⟩)))
    have hmiss' := rhFindIn_absent hk' (hs.busy old ho).2.array
      (hs.room_old (Nat.zero_le 16) ho) hold
    simp [rhLocate, hmiss, ho, hmiss']

end Locate

/-! ## The effect of each write -/

theorem Shape.weaken (hs : Shape H 0 t) : Shape H 16 t where
  pow := hs.pow
  atLeast := hs.atLeast
  array := hs.array
  size := hs.size
  growAt := hs.growAt
  idle := hs.idle
  busy old ho := by
    obtain ⟨hmin, hre⟩ := hs.busy old ho
    exact ⟨hmin, hre.double, hre.array, hre.bound, hre.live, Nat.le_trans hre.load (by omega)⟩

theorem setAt_spec (hs : Shape H 0 t) {e' : RhEntry} (hat : t.entryAt place = some e)
    (hhash : e'.hash = e.hash) (hkey : e'.key = e.key) (hpsl : e'.psl = e.psl) :
    Shape H 0 (t.setAt e' place) ∧
      contents (t.setAt e' place) + {view e} = contents t + {view e'} := by
  have hcap := hs.atLeast
  cases place with
  | absent => cases hat
  | new i =>
    have hi : slotAt t.slots i = some e := hat
    have hbag := bag_set view (some e') t.slots i (lt_of_slotAt hi)
    rw [hi, optBag_some, optBag_some] at hbag
    have hcon : contents (t.setAt e' (.new i)) + {view e} = contents t + {view e'} := by
      simp only [contents, RhTable.setAt]
      rw [add_right_comm, hbag, add_right_comm]
    have hcard : (contents (t.setAt e' (.new i))).card = (contents t).card := by
      have := congrArg card hcon
      simpa using this
    refine ⟨⟨hs.pow, hs.atLeast, hs.array.overwrite (by omega) hi hhash hkey hpsl, ?_,
      hs.growAt, hs.idle, ?_⟩, hcon⟩
    · rw [hcard]; exact hs.size
    intro old ho
    obtain ⟨hmin, hre⟩ := hs.busy old ho
    exact ⟨hmin, hre.double, hre.array, hre.bound, hre.live, hre.load⟩
  | old i =>
    cases ho : t.oldSlots with
    | none => simp [RhTable.entryAt, ho] at hat
    | some old =>
      have hi : slotAt old i = some e := by simpa [RhTable.entryAt, ho] using hat
      obtain ⟨hmin, hre⟩ := hs.busy old ho
      have hbag := bag_set view (some e') old i (lt_of_slotAt hi)
      rw [hi, optBag_some] at hbag
      have hset : (t.setAt e' (.old i)).oldSlots = some (old.set i (some e')) := by
        simp [RhTable.setAt, ho]
      have hcon : contents (t.setAt e' (.old i)) + {view e} = contents t + {view e'} := by
        rw [contents_busy hset, contents_busy ho, add_assoc, hbag, add_assoc]
        rfl
      have hcard : (contents (t.setAt e' (.old i))).card = (contents t).card := by
        have := congrArg card hcon
        simpa using this
      have hlive : (bag view (old.set i (some e'))).card = (bag view old).card := by
        have := congrArg card hbag
        simpa using this
      refine ⟨⟨hs.pow, hs.atLeast, hs.array, ?_, hs.growAt, ?_, ?_⟩, hcon⟩
      · rw [hcard]; exact hs.size
      · intro h; rw [hset] at h; cases h
      intro o h
      rw [hset] at h
      cases h
      exact ⟨hmin, hre.double, hre.array.overwrite (by omega) hi hhash hkey hpsl,
        hre.bound, by rw [hlive]; exact hre.live, hre.load⟩

theorem rhMaybeGrow_spec (hs : Shape H 0 t) :
    Shape H 0 (rhMaybeGrow t) ∧ contents (rhMaybeGrow t) = contents t ∧
      ((rhMaybeGrow t).oldSlots = none → (rhMaybeGrow t).size + 1 ≤ (rhMaybeGrow t).growAt) := by
  unfold rhMaybeGrow
  split
  · rename_i hbusy
    refine ⟨hs, rfl, fun h => ?_⟩
    rw [h] at hbusy
    cases hbusy
  rename_i hidle
  have ho : t.oldSlots = none := by simpa using hidle
  split
  · rename_i hroom
    exact ⟨hs, rfl, fun _ => hroom⟩
  obtain ⟨k, hk⟩ := hs.pow
  have hcap := hs.atLeast
  have hcon : contents { t with
      oldSlots := some t.slots, oldCap := t.cap, oldLive := t.size, migratePos := 0,
      slots := rhAllocSlots (t.cap * 2), cap := t.cap * 2,
      growAt := rhGrowthLimit (t.cap * 2) } = contents t := by
    rw [contents_busy rfl, contents_idle ho]
    simp [rhAllocSlots]
  refine ⟨⟨⟨k + 1, by simp only [hk, pow_succ]⟩, by simp only []; omega,
    RobinHood.empty _, ?_, rfl, ?_, ?_⟩, hcon, ?_⟩
  · rw [hcon]; exact hs.size
  · intro h; cases h
  · rintro old ⟨⟩
    have hle := hs.idle ho
    rw [hs.growAt] at hle
    refine ⟨hcap, by simp only []; omega, hs.array, Nat.zero_le _, ?_, ?_⟩
    · simp only [hs.size, contents_idle ho]
    · simp only []; omega
  · intro h; cases h

theorem rhInsertNew_spec (hs : Shape H 0 t) (key val : Bytes) (mt : UInt32) :
    ∃ t', rhInsertNew H t key val mt = some t' ∧ Shape H 16 t' ∧
      contents t' = ⟨key, val⟩ ::ₘ contents t := by
  obtain ⟨hs', hcon, hhead⟩ := rhMaybeGrow_spec hs
  rw [rhInsertNew]
  generalize rhMaybeGrow t = t₁ at hs' hcon hhead
  obtain ⟨k, hk⟩ := hs'.pow
  have hcap := hs'.atLeast
  obtain ⟨slots', hins, hrh, hbag⟩ := rhInsertEntry_spec hk (by omega) hs'.array
    (hs'.room_new (Nat.zero_le 16))
    (e := { hash := H key, key := key, val := val, psl := 0, lruMeta := mt }) rfl
  have hnew : contents { t₁ with slots := slots', size := t₁.size + 1 }
      = ⟨key, val⟩ ::ₘ contents t := by
    rw [← hcon, contents, hbag, Multiset.cons_add]
    rfl
  refine ⟨{ t₁ with slots := slots', size := t₁.size + 1 }, ?_,
    ⟨hs'.pow, hs'.atLeast, hrh, ?_, hs'.growAt, hhead, ?_⟩, hnew⟩
  · simp only [hins]
    rfl
  · rw [hnew, card_cons, ← hcon, ← hs'.size]
  intro old ho
  obtain ⟨hmin, hre⟩ := hs'.busy old ho
  refine ⟨hmin, hre.double, hre.array, hre.bound, hre.live, ?_⟩
  have := hre.load
  simp only []
  omega

theorem deleteAt_spec (hs : Shape H 0 t) (hat : t.entryAt place = some e) :
    ∃ t', t.deleteAt place = some t' ∧
      Shape H 16 t' ∧ contents t = view e ::ₘ contents t' := by
  obtain ⟨k, hk⟩ := hs.pow
  have hcap := hs.atLeast
  cases place with
  | absent => cases hat
  | new i =>
    obtain ⟨slots', hdel, hrh, hbag⟩ := rhDeleteAt_spec hk (by omega) hs.array
      (hs.room_new (Nat.zero_le 16)) hat
    have hcon : contents t
        = view e ::ₘ contents { t with slots := slots', size := t.size - 1 } := by
      rw [contents, contents, hbag, Multiset.cons_add]
    have hcard := congrArg card hcon
    rw [← hs.size, card_cons] at hcard
    have hres : t.deleteAt (.new i) = some { t with slots := slots', size := t.size - 1 } := by
      rw [RhTable.deleteAt, hdel, map_some]
    refine ⟨_, hres, ⟨hs.pow, hs.atLeast, hrh, by simp only []; omega, hs.growAt, ?_, ?_⟩, hcon⟩
    · intro ho
      have := hs.idle ho
      simp only []
      omega
    intro old ho
    obtain ⟨hmin, hre⟩ := hs.busy old ho
    refine ⟨hmin, hre.double, hre.array, hre.bound, hre.live, ?_⟩
    have := hre.load
    simp only []
    omega
  | old i =>
    cases ho : t.oldSlots with
    | none => simp [RhTable.entryAt, ho] at hat
    | some old =>
      have hi : slotAt old i = some e := by simpa [RhTable.entryAt, ho] using hat
      obtain ⟨hmin, hre⟩ := hs.busy old ho
      obtain ⟨k', hk'⟩ := hs.old_pow ho
      obtain ⟨old', hdel, hrh, hbag⟩ := rhDeleteAt_spec hk' (by omega) hre.array
        (hs.room_old (Nat.zero_le 16) ho) hi
      have hcon : contents t = view e ::ₘ contents { t with
          oldSlots := some old', oldLive := t.oldLive - 1, size := t.size - 1 } := by
        rw [contents_busy ho, contents_busy rfl, hbag, Multiset.add_cons]
      have hcard := congrArg card hcon
      rw [← hs.size, card_cons] at hcard
      have hlive := congrArg card hbag
      rw [← hre.live, card_cons] at hlive
      have hres : t.deleteAt (.old i) = some { t with
          oldSlots := some old', oldLive := t.oldLive - 1, size := t.size - 1 } := by
        rw [RhTable.deleteAt, ho, bind_some, hdel, map_some]
      refine ⟨_, hres, ⟨hs.pow, hs.atLeast, hs.array, by simp only []; omega, hs.growAt, ?_, ?_⟩, hcon⟩
      · intro h; cases h
      rintro o ⟨⟩
      refine ⟨hmin, hre.double, hrh, hre.bound, by simp only []; omega, ?_⟩
      have := hre.load
      simp only []
      omega

/-! ## The finite map -/

theorem entries_of_lookup (h : M.lookup k = some v) :
    M.entries = ⟨k, v⟩ ::ₘ (M.erase k).entries := by
  have hM : M = (M.erase k).insert k v := by
    apply ext_lookup
    intro x
    by_cases hx : x = k
    · subst hx
      rw [h, Finmap.lookup_insert]
    · rw [Finmap.lookup_insert_of_ne _ hx, lookup_erase_ne hx]
  conv_lhs => rw [hM]
  exact Finmap.entries_insert_of_notMem (by simp)

theorem entries_insert_of_lookup {w : Bytes} (h : M.lookup k = some v) :
    (M.insert k w).entries + {⟨k, v⟩} = M.entries + {⟨k, w⟩} := by
  have hins : (M.insert k w).lookup k = some w := Finmap.lookup_insert M
  have herase : (M.insert k w).erase k = M.erase k := by
    apply ext_lookup
    intro x
    by_cases hx : x = k
    · subst hx
      rw [Finmap.lookup_erase, Finmap.lookup_erase]
    · rw [lookup_erase_ne hx, lookup_erase_ne hx, Finmap.lookup_insert_of_ne _ hx]
  rw [entries_of_lookup hins, entries_of_lookup h, herase]
  simp only [← Multiset.singleton_add]
  abel

theorem erase_of_not_mem (h : M.lookup k = none) : M.erase k = M := by
  apply ext_lookup
  intro x
  by_cases hx : x = k
  · subst hx
    rw [Finmap.lookup_erase, h]
  · rw [lookup_erase_ne hx]

theorem insert_same (h : M.lookup k = some v) : M.insert k v = M := by
  apply ext_lookup
  intro x
  by_cases hx : x = k
  · subst hx
    rw [Finmap.lookup_insert, h]
  · rw [Finmap.lookup_insert_of_ne _ hx]

theorem setCode_present (h : M.lookup k = some v) : setCode M k = 1 :=
  if_pos (Finmap.mem_of_lookup_eq_some h)

theorem setCode_absent (h : M.lookup k = none) : setCode M k = 0 :=
  if_neg (Finmap.lookup_eq_none.mp h)

/-! ## One operation -/

/-- The table, between operations, holds the map. -/
structure Represents (H : Bytes → UInt64) (t : RhTable) (M : KeyMap) : Prop where
  shape : Shape H 16 t
  pairs : contents t = M.entries

theorem Represents.once (hr : Represents H t M) : ((contents t).map Sigma.fst).Nodup := by
  rw [hr.pairs]
  exact M.nodupKeys.nodup_keys

theorem Represents.stores (hr : Represents H t M) : Stores t M := by
  refine ⟨hr.pairs, hr.once, ?_⟩
  rw [rhSize, hr.shape.size, hr.pairs]
  exact (Multiset.card_map Sigma.fst M.entries).symm

theorem rhInit_represents : Represents H rhInit ∅ := by
  have hbag : contents rhInit = 0 := by simp [contents, rhInit, rhAllocSlots]
  refine ⟨⟨⟨4, rfl⟩, by decide, RobinHood.empty 16, by rw [hbag]; rfl, rfl, ?_, ?_⟩, hbag⟩
  · intro _; exact Nat.zero_le _
  · intro old h; cases h

/-- How an operation that looks `key` up begins, when the key is not stranded:
it moves its batch and locates the key exactly when the map has it. -/
theorem lookup_spec (hr : Represents H t M) {key : Bytes} (hok : ¬ Stranded t key) :
    ∃ t' place, rhMigrateSome t = some t' ∧ rhLocate H t' key = some place ∧
      Shape H 0 t' ∧ contents t' = M.entries ∧
      ((∃ e, M.lookup key = some e.val ∧ t'.entryAt place = some e ∧ e.key = key) ∨
        (M.lookup key = none ∧ place = .absent)) := by
  obtain ⟨t', hmig, hs, hcon, hlost⟩ := rhMigrateSome_spec hr.shape
  rw [hr.pairs] at hcon
  have hnd : ((contents t').map Sigma.fst).Nodup := by
    rw [hcon]
    exact M.nodupKeys.nodup_keys
  cases hlook : M.lookup key with
  | some v =>
    have hmem : (⟨key, v⟩ : Σ _ : Bytes, Bytes) ∈ contents t' := by
      rw [hcon]
      exact Finmap.lookup_eq_some_iff.mp hlook
    obtain ⟨place, e, hloc, hat, hkey, hval⟩ :=
      rhLocate_found hnd hs hmem (fun h => hok ((hlost key).mp h))
    exact ⟨t', place, hmig, hloc, hs, hcon, .inl ⟨e, by rw [hval], hat, hkey⟩⟩
  | none =>
    have habs : ∀ v, (⟨key, v⟩ : Σ _ : Bytes, Bytes) ∉ contents t' := by
      intro v hv
      rw [hcon, ← Finmap.lookup_eq_some_iff, hlook] at hv
      cases hv
    exact ⟨t', .absent, hmig, rhLocate_absent hs habs, hs, hcon, .inr ⟨rfl, rfl⟩⟩

/-- How it begins when the key is stranded: the key is reported absent, and the
map has it. -/
theorem lookup_stranded (hr : Represents H t M) {key : Bytes} (hstr : Stranded t key) :
    ∃ t', rhMigrateSome t = some t' ∧ rhLocate H t' key = some .absent ∧
      ∃ v, M.lookup key = some v := by
  obtain ⟨t', hmig, hs, hcon, hlost⟩ := rhMigrateSome_spec hr.shape
  rw [hr.pairs] at hcon
  have hnd : ((contents t').map Sigma.fst).Nodup := by
    rw [hcon]
    exact M.nodupKeys.nodup_keys
  refine ⟨t', hmig, rhLocate_lost hnd hs ((hlost key).mpr hstr), ?_⟩
  obtain ⟨old, p, e, ho, hp, rfl, -⟩ := hstr
  refine ⟨e.val, Finmap.lookup_eq_some_iff.mpr ?_⟩
  rw [← hr.pairs, contents_busy ho, Multiset.mem_add]
  exact .inr (mem_bag.mpr ⟨p, e, hp, rfl⟩)

/-- Overwriting a located entry's value represents the map with the key replaced. -/
theorem represents_replace (hs : Shape H 0 t) (hcon : contents t = M.entries)
    (hat : t.entryAt place = some e) (hlook : M.lookup e.key = some e.val) (val : Bytes)
    (mt : UInt32) :
    Represents H (t.setAt { e with val := val, lruMeta := mt } place) (M.insert e.key val) := by
  let e' : RhEntry := { e with val := val, lruMeta := mt }
  obtain ⟨hs', hcon'⟩ := setAt_spec hs hat (rfl : e'.hash = e.hash) (rfl : e'.key = e.key)
    (rfl : e'.psl = e.psl)
  refine ⟨hs'.weaken, ?_⟩
  have hmap := entries_insert_of_lookup (w := val) hlook
  rw [← hcon] at hmap
  exact add_right_cancel (hcon'.trans hmap.symm)

theorem represents_insert {key : Bytes} (hs : Shape H 16 t') (hcon : contents t = M.entries)
    (hnew : contents t' = ⟨key, val⟩ ::ₘ contents t) (hlook : M.lookup key = none) :
    Represents H t' (M.insert key val) := by
  refine ⟨hs, ?_⟩
  rw [hnew, hcon, Finmap.entries_insert_of_notMem (Finmap.lookup_eq_none.mp hlook)]

section Operations

variable {t : RhTable} {M : KeyMap} (hr : Represents H t M) {k : Bytes}
  (hok : ¬ Stranded t k)

include hr hok

theorem rhGet_spec : ∃ t', rhGet H t k = some (t', M.lookup k) ∧ Represents H t' M := by
  obtain ⟨t', place, hmig, hloc, hs, hcon, hcase⟩ := lookup_spec hr hok
  refine ⟨t', ?_, hs.weaken, hcon⟩
  rcases hcase with ⟨e, hlook, hat, -⟩ | ⟨hlook, rfl⟩
  · simp [rhGet, hmig, hloc, hat, hlook]
  · simp [rhGet, hmig, hloc, RhTable.entryAt, hlook]

theorem rhGetTouch_spec (mt : UInt32) :
    ∃ t', rhGetTouch H t k mt = some (t', M.lookup k) ∧ Represents H t' M := by
  obtain ⟨t', place, hmig, hloc, hs, hcon, hcase⟩ := lookup_spec hr hok
  rcases hcase with ⟨e, hlook, hat, rfl⟩ | ⟨hlook, rfl⟩
  · refine ⟨t'.setAt { e with lruMeta := mt } place, ?_, ?_⟩
    · simp [rhGetTouch, hmig, hloc, hat, hlook]
    have hrep := represents_replace hs hcon hat hlook e.val mt
    rw [insert_same hlook] at hrep
    exact hrep
  · refine ⟨t', ?_, hs.weaken, hcon⟩
    simp [rhGetTouch, hmig, hloc, RhTable.entryAt, hlook]

theorem rhSet_spec (hfit : (RhOp.set k v).Fits) :
    ∃ t', rhSet H t k v = some (t', setCode M k) ∧ Represents H t' (M.insert k v) := by
  have hlen : ¬ (uint32Max < k.length ∨ uint32Max < v.length) := by
    obtain ⟨hk, hv⟩ := hfit
    omega
  obtain ⟨t', place, hmig, hloc, hs, hcon, hcase⟩ := lookup_spec hr hok
  rcases hcase with ⟨e, hlook, hat, rfl⟩ | ⟨hlook, rfl⟩
  · refine ⟨t'.setAt { e with val := v } place, ?_,
      represents_replace hs hcon hat hlook v e.lruMeta⟩
    simp [rhSet, hlen, hmig, hloc, hat, setCode_present hlook]
  · obtain ⟨t'', hins, hs'', hnew⟩ := rhInsertNew_spec hs k v 0
    refine ⟨t'', ?_, represents_insert hs'' hcon hnew hlook⟩
    simp [rhSet, hlen, hmig, hloc, RhTable.entryAt, hins, setCode_absent hlook]

theorem rhSetEx2_spec {v1 v2 : Bytes} {mt : UInt32} (hfit : (RhOp.setEx2 k v1 v2 mt).Fits) :
    ∃ t', rhSetEx2 H t k v1 v2 mt = some (t', setCode M k,
        (M.lookup k).map fun v => (k ++ v, v.length)) ∧
      Represents H t' (M.insert k (v1 ++ v2)) := by
  have hlen : ¬ (uint32Max < k.length ∨ uint32Max < v1.length ∨ uint32Max < v2.length
      ∨ uint32Max < v1.length + v2.length) := by
    obtain ⟨hk, hv⟩ := hfit
    omega
  obtain ⟨t', place, hmig, hloc, hs, hcon, hcase⟩ := lookup_spec hr hok
  rcases hcase with ⟨e, hlook, hat, rfl⟩ | ⟨hlook, rfl⟩
  · refine ⟨t'.setAt { e with val := v1 ++ v2, lruMeta := mt } place, ?_,
      represents_replace hs hcon hat hlook (v1 ++ v2) mt⟩
    simp only [rhSetEx2, if_neg hlen, hmig, hloc, hat, setCode_present hlook, hlook,
      bind_eq_bind, bind_some]
    rfl
  · obtain ⟨t'', hins, hs'', hnew⟩ := rhInsertNew_spec hs k (v1 ++ v2) mt
    refine ⟨t'', ?_, represents_insert hs'' hcon hnew hlook⟩
    simp only [rhSetEx2, if_neg hlen, hmig, hloc, hins, setCode_absent hlook,
      hlook, bind_eq_bind, bind_some]
    rfl

theorem rhDel_spec :
    ∃ t', rhDel H t k = some (t', decide (k ∈ M)) ∧ Represents H t' (M.erase k) := by
  obtain ⟨t', place, hmig, hloc, hs, hcon, hcase⟩ := lookup_spec hr hok
  rcases hcase with ⟨e, hlook, hat, rfl⟩ | ⟨hlook, rfl⟩
  · obtain ⟨t'', hdel, hs'', hnew⟩ := deleteAt_spec hs hat
    have hmem : e.key ∈ M := Finmap.mem_of_lookup_eq_some hlook
    refine ⟨t'', ?_, hs'', ?_⟩
    · cases place with
      | absent => cases hat
      | new i | old i => simp [rhDel, hmig, hloc, hdel, hmem]
    · rw [hcon, entries_of_lookup hlook] at hnew
      exact ((Multiset.cons_inj_right _).mp hnew).symm
  · have hmem : k ∉ M := Finmap.lookup_eq_none.mp hlook
    refine ⟨t', by simp [rhDel, hmig, hloc, hmem], hs.weaken, ?_⟩
    rw [erase_of_not_mem hlook]
    exact hcon

end Operations

/-- An operation on a key that is not stranded answers as the map does, and
leaves the table holding the map's next state. -/
theorem rhStep_spec (hr : Represents H t M) (op : RhOp) (hok : op.Fits → ¬ Stranded t op.key) :
    ∃ t', rhStep H t op = some (t', (mapStep M op).2) ∧ Represents H t' (mapStep M op).1 := by
  cases op with
  | get k =>
    obtain ⟨t', hrun, hrep⟩ := rhGet_spec hr (hok trivial)
    exact ⟨t', by rw [rhStep]; rw [RhOp.key] at hrun; rw [hrun]; rfl, hrep⟩
  | getTouch k mt =>
    obtain ⟨t', hrun, hrep⟩ := rhGetTouch_spec hr (hok trivial) mt
    exact ⟨t', by rw [rhStep]; rw [RhOp.key] at hrun; rw [hrun]; rfl, hrep⟩
  | set k v =>
    by_cases hfit : (RhOp.set k v).Fits
    · obtain ⟨t', hrun, hrep⟩ := rhSet_spec hr (hok hfit) hfit
      simp only [mapStep, if_pos hfit]
      exact ⟨t', by rw [rhStep]; rw [RhOp.key] at hrun; rw [hrun]; rfl, hrep⟩
    have hlen : uint32Max < k.length ∨ uint32Max < v.length := by
      simp only [RhOp.Fits] at hfit
      omega
    simp only [mapStep, if_neg hfit]
    exact ⟨t, by simp [rhStep, rhSet, hlen], hr⟩
  | setEx2 k v1 v2 mt =>
    by_cases hfit : (RhOp.setEx2 k v1 v2 mt).Fits
    · obtain ⟨t', hrun, hrep⟩ := rhSetEx2_spec hr (hok hfit) hfit
      simp only [mapStep, if_pos hfit]
      exact ⟨t', by rw [rhStep]; rw [RhOp.key] at hrun; rw [hrun]; rfl, hrep⟩
    have hlen : uint32Max < k.length ∨ uint32Max < v1.length ∨ uint32Max < v2.length
        ∨ uint32Max < v1.length + v2.length := by
      simp only [RhOp.Fits] at hfit
      omega
    simp only [mapStep, if_neg hfit]
    exact ⟨t, by simp [rhStep, rhSetEx2, hlen], hr⟩
  | del k =>
    obtain ⟨t', hrun, hrep⟩ := rhDel_spec hr (hok trivial)
    exact ⟨t', by rw [rhStep]; rw [RhOp.key] at hrun; rw [hrun]; rfl, hrep⟩

/-- An operation on a stranded key does not answer as the map does. -/
theorem rhStep_stranded (hr : Represents H t M) (op : RhOp)
    (hfit : op.Fits) (hstr : Stranded t op.key) (t' : RhTable) :
    rhStep H t op ≠ some (t', (mapStep M op).2) := by
  obtain ⟨t₁, hmig, hloc, v, hlook⟩ := lookup_stranded hr hstr
  cases op with
  | get k =>
    simp only [RhOp.key] at hloc hlook
    simp [rhStep, rhGet, hmig, hloc, RhTable.entryAt, mapStep, hlook]
  | getTouch k mt =>
    simp only [RhOp.key] at hloc hlook
    simp [rhStep, rhGetTouch, hmig, hloc, RhTable.entryAt, mapStep, hlook]
  | set k v' =>
    simp only [RhOp.key] at hloc hlook
    have hlen : ¬ (uint32Max < k.length ∨ uint32Max < v'.length) := by
      obtain ⟨hk, hv⟩ := hfit
      omega
    simp [rhStep, rhSet, hlen, hmig, hloc, RhTable.entryAt, mapStep, hfit, setCode_present hlook]
    cases rhInsertNew H t₁ k v' 0 <;> simp
  | setEx2 k v1 v2 mt =>
    simp only [RhOp.key] at hloc hlook
    have hlen : ¬ (uint32Max < k.length ∨ uint32Max < v1.length ∨ uint32Max < v2.length
        ∨ uint32Max < v1.length + v2.length) := by
      obtain ⟨hk, hv⟩ := hfit
      omega
    simp [rhStep, rhSetEx2, hlen, hmig, hloc, RhTable.entryAt, mapStep, hfit, setCode_present hlook]
    cases rhInsertNew H t₁ k (v1 ++ v2) mt <;> simp
  | del k =>
    simp only [RhOp.key] at hloc hlook
    have hmem : k ∈ M := Finmap.mem_of_lookup_eq_some hlook
    simp [rhStep, rhDel, hmig, hloc, mapStep, hmem]

/-! ## Whole runs -/

theorem rhRun_append (t : RhTable) : ∀ ops ops',
    rhRun H t (ops ++ ops') = (rhRun H t ops).bind fun r =>
      (rhRun H r.1 ops').map fun r' => (r'.1, r.2 ++ r'.2)
  | [], ops' => by cases h : rhRun H t ops' <;> simp [rhRun]
  | op :: ops, ops' => by
    simp only [List.cons_append, rhRun, bind_eq_bind]
    cases rhStep H t op with
    | none => rfl
    | some r =>
      simp only [bind_some]
      rw [rhRun_append r.1 ops ops']
      cases rhRun H r.1 ops with
      | none => rfl
      | some r' =>
        cases h : rhRun H r'.1 ops' <;> simp [h]

theorem mapRun_append (M : KeyMap) : ∀ ops ops',
    mapRun M (ops ++ ops') = ((mapRun (mapRun M ops).1 ops').1,
      (mapRun M ops).2 ++ (mapRun (mapRun M ops).1 ops').2)
  | [], _ => rfl
  | op :: ops, ops' => by
    simp [mapRun, mapRun_append (mapStep M op).1 ops ops']

/-- After the sequence the table holds the map, and every reply was the map's. -/
def Tracks (H : Bytes → UInt64) (ops : List RhOp) : Prop :=
  ∃ t, rhRun H rhInit ops = some (t, (mapRun ∅ ops).2) ∧ Represents H t (mapRun ∅ ops).1

theorem Tracks.matches (h : Tracks H ops) : MatchesMap H ops := by
  obtain ⟨t, hrun, hrep⟩ := h
  exact ⟨t, hrun, hrep.stores⟩

theorem Tracks.snoc (h : Tracks H ops)
    (hok : ∀ t rs, rhRun H rhInit ops = some (t, rs) → op.Fits → ¬ Stranded t op.key) :
    Tracks H (ops ++ [op]) := by
  obtain ⟨t, hrun, hrep⟩ := h
  obtain ⟨t', hstep, hrep'⟩ := rhStep_spec hrep op (hok t _ hrun)
  refine ⟨t', ?_, ?_⟩
  · rw [rhRun_append, hrun, mapRun_append]
    simp [rhRun, hstep, mapRun]
  · rw [mapRun_append]
    exact hrep'

/-- A sequence that matches the map did not end on a stranded key. -/
theorem Tracks.not_stranded (h : Tracks H ops) (hmatch : MatchesMap H (ops ++ [op])) :
    ∀ t rs, rhRun H rhInit ops = some (t, rs) → op.Fits → ¬ Stranded t op.key := by
  obtain ⟨t₀, hrun, hrep⟩ := h
  intro t rs hrun' hfit hstr
  rw [hrun] at hrun'
  cases hrun'
  obtain ⟨t', hall, -⟩ := hmatch
  rw [rhRun_append, hrun, mapRun_append] at hall
  cases hstep : rhStep H t₀ op with
  | none => simp [rhRun, hstep] at hall
  | some r =>
    simp [rhRun, hstep, mapRun] at hall
    refine rhStep_stranded hrep op hfit hstr r.1 ?_
    rw [hstep, ← hall.2]

/-- The table behaves as a finite map along a sequence of operations, in every
state the sequence passes through, if and only if no operation of it addresses a
key that is stranded when the operation is called. -/
theorem rhtable_refines_map_iff (H : Bytes → UInt64) (ops : List RhOp) :
    (∀ pre, pre <+: ops → MatchesMap H pre) ↔
      ∀ pre op, pre ++ [op] <+: ops →
        ∀ t rs, rhRun H rhInit pre = some (t, rs) → op.Fits → ¬ Stranded t op.key := by
  constructor
  · intro hall
    have htracks : ∀ pre, pre <+: ops → Tracks H pre := by
      intro pre
      induction pre using List.reverseRecOn with
      | nil => exact fun _ => ⟨rhInit, rfl, rhInit_represents⟩
      | append_singleton pre op ih =>
        intro hpre
        have hprev := ih ((List.prefix_append pre [op]).trans hpre)
        exact hprev.snoc (hprev.not_stranded (hall _ hpre))
    intro pre op hpre
    exact (htracks pre ((List.prefix_append pre [op]).trans hpre)).not_stranded (hall _ hpre)
  · intro hok pre hpre
    have htracks : ∀ pre, pre <+: ops → Tracks H pre := by
      intro pre
      induction pre using List.reverseRecOn with
      | nil => exact fun _ => ⟨rhInit, rfl, rhInit_represents⟩
      | append_singleton pre op ih =>
        intro hpre
        exact (ih ((List.prefix_append pre [op]).trans hpre)).snoc (hok pre op hpre)
    exact (htracks pre hpre).matches

/-- A hash that keeps the low seven bits of the first byte. -/
def lowBits (k : Bytes) : UInt64 := (k.headD 0 &&& 127).toUInt64

/-- Twenty-eight sets, then a get. Keys 15 and 143 share bucket 15 of the array
of 32, so key 143 stands in bucket 16; the last set starts the rehash to 64, and
the get's own batch empties buckets 0 to 15. -/
def strandingOps : List RhOp :=
  (((List.range 16).map UInt8.ofNat ++ [143] ++ (List.range' 17 11).map UInt8.ofNat).map
    fun b => RhOp.set [b] [1]) ++ [RhOp.get [143]]

/-- The get misses the key that was set and never deleted. -/
theorem strandingOps_not_map : ¬ MatchesMap lowBits strandingOps := by
  rintro ⟨t, hrun, -⟩
  have htable : (rhRun lowBits rhInit strandingOps).map (·.2.getLast?)
      = some (some (.got none)) := by decide
  rw [hrun, map_some] at htable
  cases htable

end Ddup.Table
