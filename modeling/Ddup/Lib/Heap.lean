/-
Ddup.Lib.Heap — a heap of objects with an arbitrary allocator.

An allocator may hand out any address that is not in use, one that was released
before included. `Keeps h₀ h` says that the objects of `h₀` are still in `h`; an
address that is new to such an `h` is new to `h₀` too, so releasing what was
allocated since keeps them. `Within h₀ h` says the converse of the addresses in use.
-/
import Mathlib.Tactic

namespace Ddup.Lib

abbrev Heap (α : Type) := List (Nat × α)

namespace Heap

variable {α : Type} {h h₀ h₁ : Heap α} {a b : Nat} {v : α}

def get (h : Heap α) (a : Nat) : Option α := (h.find? fun c => c.1 == a).map (·.2)

def free (h : Heap α) (a : Nat) : Heap α := h.filter fun c => c.1 != a

theorem get_cons_self (h : Heap α) (a : Nat) (v : α) : get ((a, v) :: h) a = some v := by simp [get]

theorem get_cons_ne (h : Heap α) (v : α) (hne : b ≠ a) : get ((a, v) :: h) b = get h b := by
  simp [get, Ne.symm hne]

theorem get_free_self (h : Heap α) (a : Nat) : get (free h a) a = none := by simp [get, free]

theorem get_free_ne (h : Heap α) (hne : b ≠ a) : get (free h a) b = get h b := by
  rw [get, free, List.find?_filter]
  congr 2
  funext c
  by_cases hc : c.1 = b
  · simp [hc, hne]
  · simp [hc]

/-- A choice of an unused address for every heap. -/
structure Allocator (α : Type) where
  next : Heap α → Nat
  fresh : ∀ h, get h (next h) = none

/-- The objects of `h₀` are still there. -/
def Keeps (h₀ h : Heap α) : Prop := ∀ a v, get h₀ a = some v → get h a = some v

theorem Keeps.refl (h : Heap α) : Keeps h h := fun _ _ hv => hv

theorem Keeps.unused (hk : Keeps h₀ h) (ha : get h a = none) : get h₀ a = none := by
  cases hv : get h₀ a with
  | none => rfl
  | some v => rw [hk a v hv] at ha; cases ha

theorem Keeps.cons (hk : Keeps h₀ h) (ha : get h₀ a = none) (v : α) : Keeps h₀ ((a, v) :: h) := by
  intro b w hw
  have hne : b ≠ a := fun heq => by rw [heq, ha] at hw; cases hw
  rw [get_cons_ne h v hne]
  exact hk b w hw

theorem Keeps.free (hk : Keeps h₀ h) (ha : get h₀ a = none) : Keeps h₀ (Heap.free h a) := by
  intro b w hw
  have hne : b ≠ a := fun heq => by rw [heq, ha] at hw; cases hw
  rw [get_free_ne h hne]
  exact hk b w hw

def Within (h₀ h : Heap α) : Prop := ∀ a, get h₀ a = none → get h a = none

theorem Within.refl (h : Heap α) : Within h h := fun _ ha => ha

theorem Within.trans (hw : Within h₀ h₁) (hw' : Within h₁ h) : Within h₀ h :=
  fun a ha => hw' a (hw a ha)

theorem Within.free (h : Heap α) (a : Nat) : Within h (Heap.free h a) := by
  intro b hb
  by_cases hne : b = a
  · rw [hne]
    exact get_free_self h a
  · rw [get_free_ne h hne]
    exact hb

/-- The allocator that takes the address after the largest one in use. -/
def bump (α : Type) : Allocator α where
  next := fun h => (h.map (·.1)).foldr max 0 + 1
  fresh := fun h => by
    have hle : ∀ c ∈ h, c.1 ≤ (h.map (·.1)).foldr max 0 := by
      intro c hc
      induction h with
      | nil => cases hc
      | cons d h ih =>
        rw [List.map_cons, List.foldr_cons]
        rcases List.mem_cons.mp hc with rfl | hc
        · exact Nat.le_max_left _ _
        · exact (ih hc).trans (Nat.le_max_right _ _)
    rw [get, Option.map_eq_none_iff, List.find?_eq_none]
    intro c hc heq
    have hc' := hle c hc
    rw [beq_iff_eq] at heq
    omega

end Heap

end Ddup.Lib
