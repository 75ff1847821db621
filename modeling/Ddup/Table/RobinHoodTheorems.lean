/-
Ddup.Table.RobinHoodTheorems — one slot array of the Robin Hood table.

`RobinHood H n m s` is the invariant of an array of `n` slots whose first `m`
slots have been emptied by migration (`m = 0` for the array that takes inserts):
every entry stands `psl` buckets after its home, and the RANK of a slot (its
`psl` plus one, or zero when empty) climbs by at most one from a slot to the
next. The one place where the climb may break is slot `m`, whose predecessor a
migration batch has cleared.

From the climb follow the three facts about the loops of `core/rhtable.c`:

  * an insert keeps the invariant and adds exactly its entry to the bag;
  * a backward-shift delete keeps it and removes exactly the entry it names;
  * a lookup finds an entry if and only if no cleared slot lies between the
    entry's home and the entry.

The loops are proved to return: an empty slot `g` steps ahead bounds the
number of steps by `g`.
-/
import Ddup.Table.RhtableSpec

namespace Ddup.Table

open Ddup.Lib
open Multiset (singleton_add)
open Nat (mod_eq_of_lt mod_lt)

variable {e : RhEntry} {i : Nat} {dist p : Nat} {x : Option RhEntry}

def rankOf : Option RhEntry → Nat
  | none => 0
  | some e => e.psl + 1

/-- One more than the slot's `psl`; zero for the empty slot, whose C `psl` is -1. -/
def rank (s : Slots) (i : Nat) : Nat := rankOf (slotAt s i)

@[simp] theorem rankOf_none : rankOf none = 0 := rfl

@[simp] theorem rankOf_some (e : RhEntry) : rankOf (some e) = e.psl + 1 := rfl

theorem rank_of_slot {s : Slots} (h : slotAt s i = x) : rank s i = rankOf x := by rw [rank, h]

structure RobinHood (H : Bytes → UInt64) (n m : Nat) (s : Slots) : Prop where
  length : s.length = n
  low : ∀ i < m, slotAt s i = none
  hashed : ∀ i e, slotAt s i = some e → e.hash = H e.key
  near : ∀ i e, slotAt s i = some e → e.psl < n
  placed : ∀ i e, slotAt s i = some e → (e.hash.toNat % n + e.psl) % n = i
  climb : ∀ i < n, (m = 0 ∨ (i + 1) % n ≠ m) →
    rank s ((i + 1) % n) ≤ rank s i + 1

variable {H : Bytes → UInt64} {n m k : Nat} {s : Slots}

/-! ## Index arithmetic -/

theorem and_mask (hn : n = 2 ^ k) (x : Nat) : x &&& (n - 1) = x % n := by
  rw [hn, Nat.and_two_pow_sub_one_eq_mod]

theorem wrap_of_lt_two_mul {x : Nat} (h : x < 2 * n) : x % n = if x < n then x else x - n := by
  split
  · exact mod_eq_of_lt ‹_›
  · rw [Nat.mod_eq_sub_mod (by omega), mod_eq_of_lt (by omega)]

theorem next_ne_self (h2 : 2 ≤ n) (hi : i < n) : (i + 1) % n ≠ i := by
  rw [wrap_of_lt_two_mul (by omega)]
  split <;> omega

/-- Two steps of a probe in one: first to the next slot, then `g` further. -/
theorem step_add (i g : Nat) : ((i + 1) % n + g) % n = (i + (g + 1)) % n := by
  rw [Nat.mod_add_mod]
  congr 1
  omega

/-- From any slot, an empty slot is fewer than `n` steps ahead. -/
theorem gap_of_empty {q : Nat} (hq : q < n) (hi : i < n) (he : slotAt s q = none)
    : ∃ g < n, slotAt s ((i + g) % n) = none := by
  by_cases hle : i ≤ q
  · refine ⟨q - i, by omega, ?_⟩
    rw [show i + (q - i) = q by omega, mod_eq_of_lt hq]
    exact he
  · refine ⟨q + n - i, by omega, ?_⟩
    rw [show i + (q + n - i) = q + n by omega, Nat.add_mod_right, mod_eq_of_lt hq]
    exact he

/-! ## Writing one slot -/

/-- The invariant survives a write that fits between its neighbours. -/
theorem RobinHood.write (hrh : RobinHood H n m s) (h2 : 2 ≤ n) (hi : i < n)
    (hx : ∀ e, x = some e → m ≤ i ∧ e.hash = H e.key ∧ e.psl < n ∧
      (e.hash.toNat % n + e.psl) % n = i)
    (hin : ∀ j < n, (j + 1) % n = i → (m = 0 ∨ i ≠ m) → rankOf x ≤ rank s j + 1)
    (hout : (m = 0 ∨ (i + 1) % n ≠ m) → rank s ((i + 1) % n) ≤ rankOf x + 1) :
    RobinHood H n m (s.set i x) := by
  have hlen : i < s.length := by rw [hrh.length]; exact hi
  have hself : slotAt (s.set i x) i = x := slotAt_set_self hlen x
  have hother : ∀ j, j ≠ i → slotAt (s.set i x) j = slotAt s j :=
    fun j hj => slotAt_set_ne (Ne.symm hj) x
  -- an entry of the new array is the one written or one that stood there before
  have hcases : ∀ j e, slotAt (s.set i x) j = some e →
      (j = i ∧ x = some e) ∨ slotAt s j = some e := by
    intro j e hj
    by_cases hji : j = i
    · subst hji
      exact .inl ⟨rfl, by rw [← hself]; exact hj⟩
    · exact .inr (by rw [← hother j hji]; exact hj)
  refine ⟨by simp [hrh.length], ?_, ?_, ?_, ?_, ?_⟩
  · intro j hj
    cases hx' : slotAt (s.set i x) j with
    | none => rfl
    | some e =>
      rcases hcases j e hx' with ⟨rfl, he⟩ | he
      · exact absurd (hx e he).1 (by omega)
      · rw [hrh.low j hj] at he
        cases he
  · intro j e hj
    rcases hcases j e hj with ⟨rfl, he⟩ | he
    · exact (hx e he).2.1
    · exact hrh.hashed j e he
  · intro j e hj
    rcases hcases j e hj with ⟨rfl, he⟩ | he
    · exact (hx e he).2.2.1
    · exact hrh.near j e he
  · intro j e hj
    rcases hcases j e hj with ⟨rfl, he⟩ | he
    · exact (hx e he).2.2.2
    · exact hrh.placed j e he
  intro j hj hm
  by_cases hji : j = i
  · subst hji
    rw [rank_of_slot hself, rank_of_slot (hother _ (next_ne_self h2 hj))]
    exact hout hm
  by_cases hnext : (j + 1) % n = i
  · rw [hnext, rank_of_slot hself, rank_of_slot (hother _ hji)]
    exact hin j hj hnext (by rwa [hnext] at hm)
  · rw [rank_of_slot (hother _ hji), rank_of_slot (hother _ hnext)]
    exact hrh.climb j hj hm

theorem RobinHood.overwrite (hrh : RobinHood H n m s) (h2 : 2 ≤ n) {e' : RhEntry}
    (hi : slotAt s i = some e) (hhash : e'.hash = e.hash) (hkey : e'.key = e.key)
    (hpsl : e'.psl = e.psl) : RobinHood H n m (s.set i (some e')) := by
  have hin : i < n := by
    rw [← hrh.length]
    exact lt_of_slotAt hi
  have hrank : rank s i = rankOf (some e') := by
    rw [rank_of_slot hi, rankOf_some, rankOf_some, hpsl]
  apply hrh.write h2 hin
  · rintro e'' ⟨⟩
    refine ⟨?_, by rw [hhash, hkey]; exact hrh.hashed i e hi,
      by rw [hpsl]; exact hrh.near i e hi, by rw [hhash, hpsl]; exact hrh.placed i e hi⟩
    by_contra hlt
    rw [hrh.low i (by omega)] at hi
    cases hi
  · intro j hj hji hm
    rw [← hrank, ← hji]
    exact hrh.climb j hj (by rw [hji]; exact hm)
  · intro hm
    rw [← hrank]
    exact hrh.climb i hin hm

theorem RobinHood.advance (hrh : RobinHood H n m s) (hm : m < n) :
    RobinHood H n (m + 1) (s.set m none) := by
  have hlen : m < s.length := by rw [hrh.length]; exact hm
  have hself : slotAt (s.set m none) m = none := slotAt_set_self hlen none
  have hother : ∀ j, j ≠ m → slotAt (s.set m none) j = slotAt s j :=
    fun j hj => slotAt_set_ne (Ne.symm hj) none
  have hlow : ∀ j < m + 1, slotAt (s.set m none) j = none := by
    intro j hj
    by_cases hjm : j = m
    · rw [hjm]; exact hself
    · rw [hother j hjm]; exact hrh.low j (by omega)
  have hold : ∀ j e, slotAt (s.set m none) j = some e → slotAt s j = some e := by
    intro j e hj
    by_cases hjm : j = m
    · rw [hjm, hself] at hj; cases hj
    · rw [← hother j hjm]; exact hj
  refine ⟨by simp [hrh.length], hlow, fun j e hj => hrh.hashed j e (hold j e hj),
    fun j e hj => hrh.near j e (hold j e hj),
    fun j e hj => hrh.placed j e (hold j e hj), ?_⟩
  intro j hj hb
  have hne : (j + 1) % n ≠ m + 1 := by omega
  by_cases hle : (j + 1) % n ≤ m
  · rw [rank_of_slot (hlow _ (by omega))]
    simp
  -- past the boundary the successor is `j + 1`, and `j` is not the cleared slot
  have hsucc : (j + 1) % n = j + 1 := by
    rw [wrap_of_lt_two_mul (by omega)] at hle hne ⊢
    split <;> split at hle <;> omega
  have hjm : j ≠ m := by omega
  rw [rank_of_slot (hother _ (by omega : (j + 1) % n ≠ m)), rank_of_slot (hother _ hjm)]
  exact hrh.climb j hj (.inr (by omega))

theorem RobinHood.empty (n : Nat) : RobinHood H n 0 (rhAllocSlots n) := by
  refine ⟨by simp [rhAllocSlots], ?_, ?_, ?_, ?_, ?_⟩ <;>
    simp [rhAllocSlots, rank]

/-! ## `rh_insert_entry` -/

theorem RobinHood.put (hrh : RobinHood H n 0 s) (h2 : 2 ≤ n) (hi : i < n)
    (hhash : e.hash = H e.key) (hdist : dist < n) (hplace : (e.hash.toNat % n + dist) % n = i)
    (hprev : ∀ j < n, (j + 1) % n = i → dist ≤ rank s j) (hrank : rank s i ≤ dist) :
    RobinHood H n 0 (s.set i (some { e with psl := dist })) := by
  apply hrh.write h2 hi
  · rintro e' ⟨⟩
    exact ⟨Nat.zero_le i, hhash, hdist, hplace⟩
  · intro j hj hji _
    simpa using hprev j hj hji
  intro hm
  have hclimb := hrh.climb i hi hm
  simp only [rankOf_some]
  omega

/-- What the carried entry must satisfy at the top of the insert loop: it stands
`dist` past its home, and the slot before holds an entry at least that far out. -/
structure Carried (H : Bytes → UInt64) (n : Nat) (s : Slots) (e : RhEntry)
    (i dist : Nat) : Prop where
  bound : i < n
  hashed : e.hash = H e.key
  placed : (e.hash.toNat % n + dist) % n = i
  prev : ∀ j < n, (j + 1) % n = i → dist ≤ rank s j

theorem Carried.next (hc : Carried H n s e i dist) (hlt : dist < rank s i)
    : Carried H n s e ((i + 1) % n) (dist + 1) := by
  have hn : 0 < n := Nat.lt_of_le_of_lt (Nat.zero_le i) hc.bound
  refine ⟨mod_lt _ hn, hc.hashed, ?_, ?_⟩
  · rw [← hc.placed]
    simp [Nat.add_assoc]
  intro j hj hji
  have hji' : j = i := by
    have hb := hc.bound
    rw [wrap_of_lt_two_mul (by omega),
      wrap_of_lt_two_mul (by omega)] at hji
    split at hji <;> split at hji <;> omega
  rw [hji']
  omega

/-- With an empty slot `g` steps ahead the insert returns, keeps the invariant,
and adds exactly the carried entry. The induction is on the fuel; a swap leaves
the displaced entry as the carried one. -/
theorem rhInsertLoop_spec (hn : n = 2 ^ k) (h2 : 2 ≤ n) :
    ∀ fuel s e i dist g,
      RobinHood H n 0 s → Carried H n s e i dist →
      slotAt s ((i + g) % n) = none → g < fuel → dist + g < n →
      ∃ s', rhInsertLoop (n - 1) fuel s e i dist = some s' ∧
        RobinHood H n 0 s' ∧ bag view s' = view e ::ₘ bag view s := by
  intro fuel
  induction fuel with
  | zero => intro s e i dist g _ _ _ hg; omega
  | succ fuel ih =>
    intro s e i dist g hrh hc hgap hg hsum
    have hlen : i < s.length := by rw [hrh.length]; exact hc.bound
    have hset : bag view (s.set i (some { e with psl := dist })) +
        optBag view (slotAt s i) = bag view s + {view e} :=
      bag_set view (some { e with psl := dist }) s i hlen
    rw [rhInsertLoop, and_mask hn]
    cases hslot : slotAt s i with
    | none =>
      have hput := hrh.put h2 hc.bound hc.hashed (by omega) hc.placed hc.prev
        (by rw [rank_of_slot hslot]; simp)
      refine ⟨_, rfl, hput, ?_⟩
      rw [hslot, optBag_none, add_zero] at hset
      rw [hset, add_comm, singleton_add]
    | some o =>
      have hrank : rank s i = o.psl + 1 := rank_of_slot hslot
      -- the gap is not here, so it is still ahead after this step
      obtain ⟨g', rfl⟩ : ∃ g', g = g' + 1 := by
        cases g with
        | zero =>
          rw [Nat.add_zero, mod_eq_of_lt hc.bound, hslot] at hgap
          cases hgap
        | succ g' => exact ⟨g', rfl⟩
      rw [← step_add] at hgap
      simp only []
      split
      · rename_i hlt
        have hput := hrh.put h2 hc.bound hc.hashed (by omega) hc.placed hc.prev
          (by omega)
        have hself : rank (s.set i (some { e with psl := dist })) i = dist + 1 :=
          rank_of_slot (slotAt_set_self hlen _)
        have hco : Carried H n (s.set i (some { e with psl := dist })) o i o.psl :=
          ⟨hc.bound, hrh.hashed i o hslot, hrh.placed i o hslot, by
            intro j hj hji
            have hji' : i ≠ j := by
              rintro rfl
              exact next_ne_self h2 hj hji
            have := hc.prev j hj hji
            rw [rank, slotAt_set_ne hji', ← rank]
            omega⟩
        have hgap' : slotAt (s.set i (some { e with psl := dist }))
            (((i + 1) % n + g') % n) = none := by
          rw [slotAt_set_ne _, hgap]
          intro heq
          rw [← heq, hslot] at hgap
          cases hgap
        obtain ⟨s', hs', hrh', hbag⟩ := ih _ o _ (o.psl + 1) g' hput
          (hco.next (by omega)) hgap' (by omega) (by omega)
        refine ⟨s', hs', hrh', ?_⟩
        rw [hslot, optBag_some] at hset
        rw [hbag, ← singleton_add, add_comm, hset, add_comm, singleton_add]
      · exact ih s e _ (dist + 1) g' hrh (hc.next (by omega)) hgap (by omega)
          (by omega)

theorem rhInsertEntry_spec (hn : n = 2 ^ k) (h2 : 2 ≤ n) (hrh : RobinHood H n 0 s)
    (hroom : (bag view s).card < n) (hhash : e.hash = H e.key) :
    ∃ s', rhInsertEntry s n e = some s' ∧ RobinHood H n 0 s' ∧
      bag view s' = view e ::ₘ bag view s := by
  obtain ⟨q, hq, hempty⟩ := exists_empty_slot (by rw [hrh.length]; exact hroom)
  rw [hrh.length] at hq
  have hhome : e.hash.toNat % n < n := mod_lt _ (by omega)
  obtain ⟨g, hg, hgap⟩ := gap_of_empty hq hhome hempty
  rw [rhInsertEntry, and_mask hn]
  refine rhInsertLoop_spec hn h2 n s e _ 0 g hrh ⟨hhome, hhash, ?_, ?_⟩ hgap hg (by omega)
  · rw [Nat.add_zero, Nat.mod_mod]
  · intro j _ _
    exact Nat.zero_le _

/-! ## `rh_delete_at` -/

/-- The array with slot `j` dead: the delete loop has copied its entry back. -/
theorem rhDeleteLoop_spec (hn : n = 2 ^ k) (h2 : 2 ≤ n) :
    ∀ fuel s j g,
      RobinHood H n m s → m ≤ j → j < n → (slotAt s j).isSome →
      slotAt s ((j + g) % n) = none → g < fuel →
      ∃ s', rhDeleteLoop (n - 1) fuel s j = some s' ∧
        RobinHood H n m s' ∧ bag view s' = bag view (s.set j none) := by
  intro fuel
  induction fuel with
  | zero => intro s j g _ _ _ _ _ hg; omega
  | succ fuel ih =>
    intro s j g hrh hmj hj hsome hgap hg
    obtain ⟨e, he⟩ := Option.isSome_iff_exists.mp hsome
    have hnext : (j + 1) % n < n := mod_lt _ (by omega)
    have hnej : (j + 1) % n ≠ j := next_ne_self h2 hj
    rw [rhDeleteLoop, and_mask hn]
    -- the loop ends where the follower is empty or at home
    have hstop : rank s ((j + 1) % n) ≤ 1 →
        RobinHood H n m (s.set j none) := by
      intro hle
      apply hrh.write h2 hj
      · intro e' he'; cases he'
      · intro i _ _ _; simp
      · intro _; simpa using hle
    cases hf : slotAt s ((j + 1) % n) with
    | none =>
      have hr0 : rank s ((j + 1) % n) = 0 := rank_of_slot hf
      exact ⟨_, rfl, hstop (by omega), rfl⟩
    | some f =>
      have hrf : rank s ((j + 1) % n) = f.psl + 1 := rank_of_slot hf
      simp only []
      split
      · exact ⟨_, rfl, hstop (by omega), rfl⟩
      -- a follower past the boundary: the climb bounds its rank by this slot's
      have hfm : m ≤ (j + 1) % n := by
        by_contra hlt
        rw [hrh.low _ (by omega)] at hf
        cases hf
      have hbnd : m = 0 ∨ (j + 1) % n ≠ m := by
        rw [wrap_of_lt_two_mul (by omega)] at hfm ⊢
        split at hfm <;> split <;> omega
      have hclimb := hrh.climb j hj hbnd
      obtain ⟨g', rfl⟩ : ∃ g', g = g' + 1 := by
        cases g with
        | zero =>
          rw [Nat.add_zero, mod_eq_of_lt hj, he] at hgap
          cases hgap
        | succ g' => exact ⟨g', rfl⟩
      rw [← step_add] at hgap
      have hshift : RobinHood H n m
          (s.set j (some { f with psl := f.psl - 1 })) := by
        apply hrh.write h2 hj
        · rintro e' ⟨⟩
          refine ⟨hmj, hrh.hashed _ f hf, ?_, ?_⟩
          · have := hrh.near _ f hf
            simp only []
            omega
          have hpl := hrh.placed _ f hf
          rw [show f.hash.toNat % n + f.psl
            = f.hash.toNat % n + (f.psl - 1) + 1 by omega, Nat.add_mod,
            Nat.add_mod j] at hpl
          have := Nat.ModEq.add_right_cancel' 1
            (show (f.hash.toNat % n + (f.psl - 1)) + 1 ≡ j + 1 [MOD n] by
              rw [Nat.ModEq, Nat.add_mod, Nat.add_mod j]; exact hpl)
          rw [Nat.ModEq, mod_eq_of_lt hj] at this
          exact this
        · intro i hi hij hm
          have hcl := hrh.climb i hi (by rw [hij]; exact hm)
          rw [hij] at hcl
          simp only [rankOf_some]
          omega
        · intro _
          simp only [rankOf_some]
          omega
      have hfollow : slotAt (s.set j (some { f with psl := f.psl - 1 }))
          ((j + 1) % n) = some f := by
        rw [slotAt_set_ne hnej.symm, hf]
      have hgap' : slotAt (s.set j (some { f with psl := f.psl - 1 }))
          (((j + 1) % n + g') % n) = none := by
        rw [slotAt_set_ne _, hgap]
        intro heq
        rw [← heq, he] at hgap
        cases hgap
      obtain ⟨s', hs', hrh', hbag⟩ := ih _ _ g' hshift hfm hnext
        (by rw [hfollow]; rfl) hgap' (by omega)
      refine ⟨s', hs', hrh', ?_⟩
      rw [hbag]
      exact bag_move hnej.symm he hf rfl

/-- `rh_delete_at` on an occupied slot of an array with room. -/
theorem rhDeleteAt_spec (hn : n = 2 ^ k) (h2 : 2 ≤ n) (hrh : RobinHood H n m s)
    (hroom : (bag view s).card < n) (hi : slotAt s i = some e) :
    ∃ s', rhDeleteAt s n i = some s' ∧ RobinHood H n m s' ∧
      bag view s = view e ::ₘ bag view s' := by
  have hin : i < n := by
    rw [← hrh.length]
    exact lt_of_slotAt hi
  have hmi : m ≤ i := by
    by_contra hlt
    rw [hrh.low i (by omega)] at hi
    cases hi
  obtain ⟨q, hq, hempty⟩ := exists_empty_slot (by rw [hrh.length]; exact hroom)
  rw [hrh.length] at hq
  obtain ⟨g, hg, hgap⟩ := gap_of_empty hq hin hempty
  obtain ⟨s', hs', hrh', hbag⟩ :=
    rhDeleteLoop_spec hn h2 n s i g hrh hmi hin (by rw [hi]; rfl) hgap hg
  refine ⟨s', hs', hrh', ?_⟩
  rw [hbag]
  exact bag_eq_cons hi

/-! ## `rh_find_in` -/

/-- The probe returns within `g` steps of an empty slot. -/
theorem rhFindLoop_returns (hn : n = 2 ^ k) (hash : UInt64) (key : Bytes) :
    ∀ fuel i dist g, i < n → slotAt s ((i + g) % n) = none → g < fuel →
      ∃ r, rhFindLoop (n - 1) s hash key fuel i dist = some r := by
  intro fuel
  induction fuel with
  | zero => intro i dist g _ _ hg; omega
  | succ fuel ih =>
    intro i dist g hi hgap hg
    rw [rhFindLoop, and_mask hn]
    cases hslot : slotAt s i with
    | none => exact ⟨none, rfl⟩
    | some e =>
      simp only []
      split
      · exact ⟨none, rfl⟩
      split
      · exact ⟨some i, rfl⟩
      cases g with
      | zero =>
        rw [Nat.add_zero, mod_eq_of_lt hi, hslot] at hgap
        cases hgap
      | succ g' =>
        rw [← step_add] at hgap
        exact ih _ _ g' (mod_lt _ (by omega)) hgap (by omega)

/-- A probe that answers slot `p` passed only slots of rank above its distance. -/
theorem rhFindLoop_found (hn : n = 2 ^ k) (hash : UInt64) (key : Bytes) :
    ∀ fuel i dist p, i < n →
      rhFindLoop (n - 1) s hash key fuel i dist = some (some p) →
      (∃ e, slotAt s p = some e ∧ e.hash = hash ∧ e.key = key) ∧
      ∃ g, p = (i + g) % n ∧ ∀ g' ≤ g, dist + g' < rank s ((i + g') % n) := by
  intro fuel
  induction fuel with
  | zero => intro i dist p _ h; cases h
  | succ fuel ih =>
    intro i dist p hi h
    rw [rhFindLoop, and_mask hn] at h
    cases hslot : slotAt s i with
    | none => rw [hslot] at h; cases h
    | some e =>
      have hrank : rank s i = e.psl + 1 := rank_of_slot hslot
      have hhere : ∀ g', g' = 0 → ¬ e.psl < dist →
          dist + g' < rank s ((i + g') % n) := by
        rintro g' rfl hge
        rw [Nat.add_zero, Nat.add_zero, mod_eq_of_lt hi]
        omega
      rw [hslot] at h
      simp only [] at h
      split at h
      · cases h
      rename_i hge
      split at h
      · rename_i hmatch
        cases h
        refine ⟨⟨e, hslot, hmatch⟩, 0, (mod_eq_of_lt hi).symm, ?_⟩
        intro g' hg'
        exact hhere g' (by omega) hge
      obtain ⟨hent, g, hp, hpath⟩ := ih _ _ p (mod_lt _ (by omega)) h
      refine ⟨hent, g + 1, by rw [hp, step_add], ?_⟩
      intro g' hg'
      cases g' with
      | zero => exact hhere 0 rfl hge
      | succ g' =>
        have := hpath g' (by omega)
        rw [step_add] at this
        omega

/-- A probe that gives up met a slot of rank at most its distance, and no slot
before that one holds the key. -/
theorem rhFindLoop_missed (hn : n = 2 ^ k) (hash : UInt64) (key : Bytes) :
    ∀ fuel i dist, i < n →
      rhFindLoop (n - 1) s hash key fuel i dist = some none →
      ∃ g, rank s ((i + g) % n) ≤ dist + g ∧
        ∀ g' < g, ∀ e, slotAt s ((i + g') % n) = some e →
          ¬ (e.hash = hash ∧ e.key = key) := by
  intro fuel
  induction fuel with
  | zero => intro i dist _ h; cases h
  | succ fuel ih =>
    intro i dist hi h
    rw [rhFindLoop, and_mask hn] at h
    cases hslot : slotAt s i with
    | none =>
      refine ⟨0, ?_, by intro g' hg'; omega⟩
      rw [Nat.add_zero, mod_eq_of_lt hi, rank_of_slot hslot]
      simp
    | some e =>
      rw [hslot] at h
      simp only [] at h
      split at h
      · refine ⟨0, ?_, by intro g' hg'; omega⟩
        rw [Nat.add_zero, mod_eq_of_lt hi, rank_of_slot hslot, rankOf_some]
        omega
      split at h
      · cases h
      rename_i hno
      obtain ⟨g, hg, hbefore⟩ := ih _ _ (mod_lt _ (by omega)) h
      refine ⟨g + 1, ?_, ?_⟩
      · rw [← step_add]; omega
      intro g' hg' e' he'
      cases g' with
      | zero =>
        rw [Nat.add_zero, mod_eq_of_lt hi, hslot] at he'
        cases he'
        exact hno
      | succ g' =>
        rw [← step_add] at he'
        exact hbefore g' (by omega) e' he'

/-- Whether the slots from the home of an entry at `p` with probe length `d` up
to the entry include one of the first `m`. -/
def Cut (m p d : Nat) : Prop := 0 < m ∧ (p < d ∨ p - d < m)

theorem RobinHood.home_eq (hrh : RobinHood H n m s) (hp : slotAt s p = some e) :
    e.hash.toNat % n = if e.psl ≤ p then p - e.psl else p + n - e.psl := by
  have hnear := hrh.near p e hp
  have hplaced := hrh.placed p e hp
  have hhome : e.hash.toNat % n < n := mod_lt _ (by omega)
  rw [wrap_of_lt_two_mul (by omega)] at hplaced
  split at hplaced <;> split <;> omega

/-- Along an uncut probe path the ranks stay above the distance. -/
theorem RobinHood.path_rank (hrh : RobinHood H n m s) (hp : slotAt s p = some e)
    (hcut : ¬ Cut m p e.psl) : ∀ b a, a + b = e.psl → a < rank s ((e.hash.toNat % n + a) % n) := by
  have hpn : p < n := by
    rw [← hrh.length]
    exact lt_of_slotAt hp
  have hhome := hrh.home_eq hp
  intro b
  induction b with
  | zero =>
    intro a ha
    rw [show a = e.psl by omega, hrh.placed p e hp, rank_of_slot hp]
    simp
  | succ b ih =>
    intro a ha
    have hnext := ih (a + 1) (by omega)
    -- the slot after this one is not the boundary, so the climb applies
    have hstep : (e.hash.toNat % n + (a + 1)) % n
        = ((e.hash.toNat % n + a) % n + 1) % n := by
      simp [Nat.add_assoc]
    have hbnd : m = 0 ∨ ((e.hash.toNat % n + a) % n + 1) % n ≠ m := by
      by_cases hm : m = 0
      · exact .inl hm
      refine .inr ?_
      have hle : ¬ (p < e.psl ∨ p - e.psl < m) := fun h => hcut ⟨by omega, h⟩
      rw [← hstep, hhome, if_pos (by omega), mod_eq_of_lt (by omega)]
      omega
    have hclimb := hrh.climb _ (mod_lt _ (by omega)) hbnd
    rw [hstep] at hnext
    omega

section Lookup

variable (hn : n = 2 ^ k) (hrh : RobinHood H n m s)
  (hroom : (bag view s).card < n)

include hn hrh hroom

/-- `rh_find_in` returns, and only a slot that holds the key. -/
theorem rhFindIn_sound (key : Bytes) :
    ∃ r, rhFindIn s n (H key) key = some r ∧
      ∀ p, r = some p → ∃ e, slotAt s p = some e ∧ e.key = key := by
  have hpos : 0 < n := by rw [hn]; exact Nat.two_pow_pos k
  obtain ⟨q, hq, hempty⟩ := exists_empty_slot (by rw [hrh.length]; exact hroom)
  rw [hrh.length] at hq
  have hhome : (H key).toNat % n < n := mod_lt _ hpos
  obtain ⟨g, hg, hgap⟩ := gap_of_empty hq hhome hempty
  obtain ⟨r, hr⟩ := rhFindLoop_returns hn (H key) key n _ 0 g hhome hgap hg
  refine ⟨r, by rw [rhFindIn, and_mask hn]; exact hr, ?_⟩
  rintro p rfl
  obtain ⟨⟨e, he, -, hkey⟩, -⟩ := rhFindLoop_found hn _ _ n _ 0 p hhome hr
  exact ⟨e, he, hkey⟩

theorem rhFindIn_absent {key : Bytes} (habs : ∀ p e, slotAt s p = some e → e.key ≠ key) :
    rhFindIn s n (H key) key = some none := by
  obtain ⟨r, hr, hsound⟩ := rhFindIn_sound hn hrh hroom key
  cases r with
  | none => exact hr
  | some p =>
    obtain ⟨e, he, hkey⟩ := hsound p rfl
    exact absurd hkey (habs p e he)

variable (hnd : ((bag view s).map Sigma.fst).Nodup)

include hnd

theorem rhFindIn_reachable {e : RhEntry} (hp : slotAt s p = some e)
    (hcut : ¬ Cut m p e.psl) : rhFindIn s n (H e.key) e.key = some (some p) := by
  have hpos : 0 < n := by rw [hn]; exact Nat.two_pow_pos k
  obtain ⟨r, hr, hsound⟩ := rhFindIn_sound hn hrh hroom e.key
  cases r with
  | some p' =>
    obtain ⟨e', he', hkey⟩ := hsound p' rfl
    have hpp : p' = p := slot_unique Sigma.fst hnd he' hp hkey
    rw [hr, hpp]
  | none =>
    exfalso
    have hloop := hr
    rw [rhFindIn, and_mask hn, ← hrh.hashed p e hp] at hloop
    obtain ⟨g, hg, hbefore⟩ :=
      rhFindLoop_missed hn _ _ n _ 0 (mod_lt _ hpos) hloop
    by_cases hgd : g ≤ e.psl
    · have := hrh.path_rank hp hcut (e.psl - g) g (by omega)
      omega
    · exact hbefore e.psl (by omega) e (by rw [hrh.placed p e hp]; exact hp)
        ⟨rfl, rfl⟩

/-- An entry with a cleared slot on its probe path is not found. -/
theorem rhFindIn_cut {e : RhEntry} (hp : slotAt s p = some e)
    (hcut : Cut m p e.psl) : rhFindIn s n (H e.key) e.key = some none := by
  have hpos : 0 < n := by rw [hn]; exact Nat.two_pow_pos k
  have hnear := hrh.near p e hp
  have hpn : p < n := by
    rw [← hrh.length]
    exact lt_of_slotAt hp
  have hmp : m ≤ p := by
    by_contra hlt
    rw [hrh.low p (by omega)] at hp
    cases hp
  have hhome := hrh.home_eq hp
  -- the cleared slot: slot 0 when the path wraps, slot `m - 1` otherwise
  obtain ⟨a, had, hclear⟩ : ∃ a < e.psl, slotAt s ((e.hash.toNat % n + a) % n) = none := by
    by_cases hw : p < e.psl
    · have hm := hcut.1
      refine ⟨e.psl - p, by omega, ?_⟩
      rw [hhome, if_neg (by omega), show p + n - e.psl + (e.psl - p) = n by omega,
        Nat.mod_self]
      exact hrh.low 0 hm
    have hlt : p - e.psl < m := by
      rcases hcut.2 with h | h
      · exact absurd h hw
      · exact h
    refine ⟨m - 1 - (p - e.psl), by omega, ?_⟩
    rw [hhome, if_pos (by omega),
      mod_eq_of_lt (by omega)]
    exact hrh.low _ (by omega)
  obtain ⟨r, hr, hsound⟩ := rhFindIn_sound hn hrh hroom e.key
  cases r with
  | none => exact hr
  | some p' =>
    exfalso
    obtain ⟨e', he', hkey⟩ := hsound p' rfl
    have hpp : p' = p := slot_unique Sigma.fst hnd he' hp hkey
    subst hpp
    rw [rhFindIn, and_mask hn, ← hrh.hashed _ e hp] at hr
    obtain ⟨-, g, hg, hpath⟩ := rhFindLoop_found hn _ _ n _ 0 _ (mod_lt _ hpos) hr
    have hmod : g % n = e.psl := by
      have hcong : e.hash.toNat % n + e.psl ≡ e.hash.toNat % n + g [MOD n] := by
        rw [Nat.ModEq, hrh.placed _ e hp]; exact hg
      have := Nat.ModEq.add_left_cancel' _ hcong
      rw [Nat.ModEq, mod_eq_of_lt hnear] at this
      exact this.symm
    have hle : e.psl ≤ g := by rw [← hmod]; exact Nat.mod_le g n
    have hrank := hpath a (by omega)
    rw [rank_of_slot hclear] at hrank
    simp at hrank

end Lookup

/-! ## Arrays built by inserts and deletes -/

def Absent (s : Slots) (key : Bytes) : Prop := ∀ p e, slotAt s p = some e → e.key ≠ key

/-- The arrays that inserts, each of a key that `ok` allows, and deletes build from the empty one,
with fewer entries than slots. -/
inductive Built (H : Bytes → UInt64) (n : Nat) (ok : Slots → Bytes → Prop) : Slots → Prop
  | empty : Built H n ok (rhAllocSlots n)
  | insert {s s' : Slots} {e : RhEntry} : Built H n ok s → (bag view s).card + 1 < n →
      e.hash = H e.key → ok s e.key → rhInsertEntry s n e = some s' → Built H n ok s'
  | delete {s s' : Slots} {i : Nat} {e : RhEntry} : Built H n ok s → slotAt s i = some e →
      rhDeleteAt s n i = some s' → Built H n ok s'

/-- What an array promises: entries at their distance from home, distances that climb by one at
most and start at zero behind an empty slot, no key twice, and lookups that find what is stored. -/
structure ArraySound (H : Bytes → UInt64) (n : Nat) (s : Slots) : Prop where
  placed : ∀ i e, slotAt s i = some e → (e.hash.toNat % n + e.psl) % n = i
  climb : ∀ i < n, ∀ e, slotAt s ((i + 1) % n) = some e → e.psl ≤ rank s i
  once : ∀ i j e f, slotAt s i = some e → slotAt s j = some f → e.key = f.key → i = j
  found : ∀ p e, slotAt s p = some e → rhFindIn s n (H e.key) e.key = some (some p)
  missed : ∀ key, Absent s key → rhFindIn s n (H key) key = some none

/-- One step keeps the climb and the room; keys stay distinct if inserts are of absent ones. -/
theorem Built.robinHood (hn : n = 2 ^ k) (h : Built H n Absent s) :
    RobinHood H n 0 s ∧ (bag view s).card < n ∧ ((bag view s).map Sigma.fst).Nodup := by
  induction h with
  | empty =>
    refine ⟨RobinHood.empty n, ?_, ?_⟩
    · simp [rhAllocSlots, hn]
    · simp [rhAllocSlots]
  | insert _ hroom hhash habs hs' ih =>
    obtain ⟨hrh, hcard, hnd⟩ := ih
    obtain ⟨s₁, hs₁, hrh', hbag⟩ := rhInsertEntry_spec hn (by omega) hrh hcard hhash
    cases hs'.symm.trans hs₁
    rw [hbag, Multiset.card_cons, Multiset.map_cons, Multiset.nodup_cons]
    refine ⟨hrh', hroom, ?_, hnd⟩
    intro hmem
    obtain ⟨b, hb, hkey⟩ := Multiset.mem_map.mp hmem
    obtain ⟨p, f, hp, rfl⟩ := mem_bag.mp hb
    exact habs p f hp hkey
  | delete _ hi hs' ih =>
    obtain ⟨hrh, hcard, hnd⟩ := ih
    have hone := bag_eq_cons (f := view) hi
    have h2 : 2 ≤ n := by
      rw [hone, Multiset.card_cons] at hcard
      omega
    obtain ⟨s₁, hs₁, hrh', hbag⟩ := rhDeleteAt_spec hn h2 hrh hcard hi
    cases hs'.symm.trans hs₁
    rw [hbag, Multiset.card_cons] at hcard
    rw [hbag, Multiset.map_cons, Multiset.nodup_cons] at hnd
    exact ⟨hrh', by omega, hnd.2⟩

def zeroEntry : RhEntry := ⟨0, [97], [], 0, 0⟩

end Ddup.Table
