/-
Ddup.Lib.Slots — arrays of optional entries, read as a bag of entries.

An open-addressed table is a list of slots, each empty or occupied. What such
an array stores, forgetting where, is a multiset: `bag f s` collects `f a` for
every occupied slot of `s`. Writing one slot changes the bag by exactly the
entry written and the entry that stood there (`bag_set`), and every other fact
about contents, counts and uniqueness follows from that one.

Nothing here names a table: the entry type and the view `f` are arbitrary.
-/
import Mathlib.Data.Finmap
import Mathlib.Tactic

namespace Ddup.Lib

variable {α β : Type} (f : α → β) {a : α} {s : List (Option α)} {i j lo hi : Nat} {f : α → β}

def slotAt (s : List (Option α)) (i : Nat) : Option α := s.getD i none

/-- The entries of the array under the view `f`, without their positions. -/
def bag (f : α → β) (s : List (Option α)) : Multiset β :=
  (s.filterMap (Option.map f) : List β)

def optBag (f : α → β) : Option α → Multiset β
  | none => 0
  | some a => {f a}

@[simp] theorem optBag_none : optBag f none = 0 := rfl

@[simp] theorem optBag_some (a : α) : optBag f (some a) = {f a} := rfl

/-! ## Reading and writing slots -/

theorem lt_of_slotAt (h : slotAt s i = some a) : i < s.length := by
  by_contra hge
  simp [slotAt, List.getElem?_eq_none (Nat.le_of_not_lt hge)] at h

@[simp] theorem slotAt_set_self (h : i < s.length) (x : Option α) : slotAt (s.set i x) i = x := by
  simp [slotAt, h]

@[simp] theorem slotAt_set_ne (h : i ≠ j) (x : Option α) : slotAt (s.set i x) j = slotAt s j := by
  simp [slotAt, List.getElem?_set_ne h]

@[simp] theorem slotAt_replicate (n i : Nat) :
    slotAt (List.replicate n (none : Option α)) i = none := by
  simp only [slotAt, List.getD, List.getElem?_replicate]
  split <;> rfl

/-! ## Bags -/

@[simp] theorem bag_replicate (n : Nat) : bag f (List.replicate n (none : Option α)) = 0 := by
  simp [bag]

theorem bag_cons (x : Option α) (s : List (Option α)) : bag f (x :: s) = optBag f x + bag f s := by
  cases x <;> simp [bag]

/-- Writing slot `i` exchanges the entry there for the one written. -/
theorem bag_set (f : α → β) (x : Option α) :
    ∀ (s : List (Option α)) (i : Nat), i < s.length →
      bag f (s.set i x) + optBag f (slotAt s i) = bag f s + optBag f x
  | y :: s, 0, _ => by
    simp only [List.set_cons_zero, bag_cons]
    abel
  | y :: s, i + 1, h => by
    have ih := bag_set f x s i (by simpa using h)
    simp only [slotAt] at ih
    simp only [List.set_cons_succ, bag_cons, slotAt, List.getD_cons_succ, add_assoc, ih]

/-- An occupied slot's entry is a member, and clearing the slot takes it out. -/
theorem bag_eq_cons (h : slotAt s i = some a) : bag f s = f a ::ₘ bag f (s.set i none) := by
  have hset := bag_set f none s i (lt_of_slotAt h)
  rw [h, optBag_some, optBag_none, add_zero] at hset
  rw [← hset, add_comm, Multiset.singleton_add]

/-- Copying slot `j` over slot `i` and clearing `j` has the effect on the bag of
clearing `i`. -/
theorem bag_move {b c : α} (hij : i ≠ j) (hi : slotAt s i = some a)
    (hj : slotAt s j = some b) (hc : f c = f b) :
    bag f ((s.set i (some c)).set j none) = bag f (s.set i none) := by
  have hcopy := bag_set f (some c) s i (lt_of_slotAt hi)
  have hj' : slotAt (s.set i (some c)) j = some b := by rw [slotAt_set_ne hij, hj]
  rw [hi, optBag_some, optBag_some, hc, bag_eq_cons hj', bag_eq_cons hi] at hcopy
  have hsum : {f a} + {f b} + bag f ((s.set i (some c)).set j none)
      = {f a} + {f b} + bag f (s.set i none) := by
    calc {f a} + {f b} + bag f ((s.set i (some c)).set j none)
        = {f b} + bag f ((s.set i (some c)).set j none) + {f a} := by abel
      _ = {f a} + bag f (s.set i none) + {f b} := hcopy
      _ = {f a} + {f b} + bag f (s.set i none) := by abel
  exact add_left_cancel hsum

theorem mem_bag {b : β} :
    ∀ {s : List (Option α)}, b ∈ bag f s ↔ ∃ i a, slotAt s i = some a ∧ f a = b
  | [] => by simp [bag, slotAt]
  | x :: s => by
    rw [bag_cons, Multiset.mem_add, mem_bag]
    constructor
    · rintro (h | ⟨i, a, hi, ha⟩)
      · cases x with
        | none => simp at h
        | some a =>
          have hb : b = f a := by simpa using h
          exact ⟨0, a, rfl, hb.symm⟩
      · exact ⟨i + 1, a, by simpa [slotAt] using hi, ha⟩
    · rintro ⟨i, a, hi, ha⟩
      cases i with
      | zero =>
        have hx : x = some a := by simpa [slotAt] using hi
        left; simp [hx, ha]
      | succ i => exact .inr ⟨i, a, by simpa [slotAt] using hi, ha⟩

theorem exists_empty_slot :
    ∀ {s : List (Option α)}, (bag f s).card < s.length →
      ∃ q < s.length, slotAt s q = none
  | none :: s, _ => ⟨0, by simp, rfl⟩
  | some a :: s, h => by
    have hs : (bag f s).card < s.length := by
      rw [bag_cons] at h
      simp at h
      omega
    obtain ⟨q, hq, he⟩ := exists_empty_slot hs
    exact ⟨q + 1, by simpa using hq, by simpa [slotAt] using he⟩

/-- Two slots whose entries have one key are one slot, when no key repeats. -/
theorem slot_unique {κ : Type} (key : β → κ) (hnd : ((bag f s).map key).Nodup) {b : α}
    (hi : slotAt s i = some a) (hj : slotAt s j = some b) (hk : key (f a) = key (f b)) : i = j := by
  by_contra hne
  have hj' : slotAt (s.set i none) j = some b := by rw [slotAt_set_ne hne, hj]
  rw [bag_eq_cons hi, Multiset.map_cons, Multiset.nodup_cons] at hnd
  exact hnd.1 (Multiset.mem_map.mpr ⟨f b, mem_bag.mpr ⟨j, b, hj', rfl⟩, hk.symm⟩)

/-! ## Occupied slots of a range -/

/-- How many of the slots `lo ≤ i < hi` are occupied. -/
def occupied (s : List (Option α)) (lo hi : Nat) : Nat :=
  (List.range' lo (hi - lo)).countP fun i => (slotAt s i).isSome

theorem occupied_self (s : List (Option α)) (lo : Nat) : occupied s lo lo = 0 := by simp [occupied]

theorem occupied_of_le (h : hi ≤ lo) : occupied s lo hi = 0 := by
  simp [occupied, Nat.sub_eq_zero_of_le h]

theorem occupied_split (s : List (Option α)) {mid : Nat} (h₁ : lo ≤ mid) (h₂ : mid ≤ hi)
    : occupied s lo hi = occupied s lo mid + occupied s mid hi := by
  have hr : List.range' lo (hi - lo)
      = List.range' lo (mid - lo) ++ List.range' mid (hi - mid) := by
    have happ := @List.range'_append lo (mid - lo) (hi - mid) 1
    rw [show lo + 1 * (mid - lo) = mid by omega,
      show mid - lo + (hi - mid) = hi - lo by omega] at happ
    exact happ.symm
  rw [occupied, hr, List.countP_append]
  rfl

theorem occupied_succ (s : List (Option α)) (i : Nat) :
    occupied s i (i + 1) = if (slotAt s i).isSome then 1 else 0 := by
  simp [occupied]

theorem occupied_congr {s' : List (Option α)} (h : ∀ i, lo ≤ i → slotAt s i = slotAt s' i)
    : occupied s lo hi = occupied s' lo hi := by
  refine List.countP_congr fun i hi => ?_
  rw [h i (List.mem_range'_1.mp hi).1]

theorem occupied_all (f : α → β) :
    ∀ s : List (Option α), occupied s 0 s.length = (bag f s).card
  | [] => rfl
  | x :: s => by
    have hshift : occupied (x :: s) 1 (s.length + 1) = occupied s 0 s.length := by
      simp only [occupied, List.range'_eq_map_range,
        List.countP_map]
      refine List.countP_congr fun i _ => ?_
      simp [slotAt, Nat.add_comm 1 i]
    rw [List.length_cons, occupied_split (x :: s) (Nat.zero_le 1) (by omega), hshift,
      occupied_all f s, occupied_succ, bag_cons]
    cases x <;> simp [slotAt, Nat.add_comm]

/-- The occupied slots of a range before an occupied slot leave room for it. -/
theorem occupied_lt_card {p : Nat} (hp : slotAt s p = some a) (hlo : lo ≤ p)
    : occupied s lo p < (bag f s).card := by
  have hlen := lt_of_slotAt hp
  have hall := occupied_all f s
  have hfront := occupied_split s (Nat.zero_le lo) (Nat.le_trans hlo (Nat.le_of_lt hlen))
  have hback := occupied_split s hlo (Nat.le_of_lt hlen)
  have hself := occupied_split s (Nat.le_succ p) hlen
  rw [occupied_succ, hp] at hself
  simp at hself
  omega

end Ddup.Lib
