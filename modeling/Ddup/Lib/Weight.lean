/-
Ddup.Lib.Weight — the total weight of a finite map.

A weight gives every entry a value in a commutative monoid; the weight of a map is
their sum. The rules say what inserting, replacing and erasing an entry do to it,
in the additive form that needs no subtraction.
-/
import Mathlib.Data.Finmap
import Mathlib.Algebra.BigOperators.Group.Multiset.Basic

namespace Ddup.Lib

variable {α β M : Type} [AddCommMonoid M]

def weight (w : α → β → M) (t : Finmap fun _ : α => β) : M :=
  (t.entries.map fun s => w s.1 s.2).sum

@[simp] theorem weight_empty (w : α → β → M) : weight w ∅ = 0 := rfl

variable [DecidableEq α] {w : α → β → M} {t : Finmap fun _ : α => β} {k : α} {v : β}

theorem weight_insert_of_notMem (h : k ∉ t) : weight w (t.insert k v) = w k v + weight w t := by
  simp [weight, Finmap.entries_insert_of_notMem h]

theorem insert_erase_eq (t : Finmap fun _ : α => β) (k : α) (v : β) :
    (t.erase k).insert k v = t.insert k v := by
  apply Finmap.ext_lookup
  intro x
  by_cases hx : x = k
  · subst hx
    rw [Finmap.lookup_insert, Finmap.lookup_insert]
  · rw [Finmap.lookup_insert_of_ne _ hx, Finmap.lookup_insert_of_ne _ hx, Finmap.lookup_erase_ne hx]

theorem insert_of_lookup (h : t.lookup k = some v) : t.insert k v = t := by
  apply Finmap.ext_lookup
  intro x
  by_cases hx : x = k
  · subst hx
    rw [Finmap.lookup_insert, h]
  · rw [Finmap.lookup_insert_of_ne _ hx]

theorem erase_of_notMem (h : k ∉ t) : t.erase k = t := by
  apply Finmap.ext_lookup
  intro x
  by_cases hx : x = k
  · subst hx
    rw [Finmap.lookup_erase, Finmap.lookup_eq_none.mpr h]
  · rw [Finmap.lookup_erase_ne hx]

/-- Inserting weighs what is inserted and what was there under other keys. -/
theorem weight_insert (w : α → β → M) (t : Finmap fun _ : α => β) (k : α) (v : β) :
    weight w (t.insert k v) = w k v + weight w (t.erase k) := by
  rw [← insert_erase_eq]
  exact weight_insert_of_notMem fun h => (Finmap.mem_erase.mp h).1 rfl

theorem weight_eq_of_lookup (w : α → β → M) (h : t.lookup k = some v) :
    weight w t = w k v + weight w (t.erase k) := by
  rw [← weight_insert w t k v, insert_of_lookup h]

theorem weight_erase_of_notMem (w : α → β → M) (h : k ∉ t) : weight w (t.erase k) = weight w t := by
  rw [erase_of_notMem h]

end Ddup.Lib
