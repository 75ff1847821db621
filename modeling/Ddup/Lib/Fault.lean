/-
Ddup.Lib.Fault — functions that may end the process or leave the language's rules.

A `Faulty` value is a result, the end of the process, or undefined behaviour such as a read through a
bad pointer. `Meets r full P` says what such a value may be: a result that satisfies `P`, or the end
of the process if `full` holds; never undefined behaviour. Its rules follow the functions call by
call.
-/
import Mathlib.Tactic

namespace Ddup.Lib

inductive Fault
  | exit
  | undefined
deriving DecidableEq

abbrev Faulty := Except Fault

def deref {α : Type} : Option α → Faulty α
  | some a => .ok a
  | none => .error .undefined

def alive {α : Type} : Option α → Faulty α
  | some a => .ok a
  | none => .error .exit

/-- A result that satisfies `P`, or the end of the process where `full` holds. -/
def Meets {α : Type} (r : Faulty α) (full : Prop) (P : α → Prop) : Prop :=
  match r with
  | .ok a => P a
  | .error .exit => full
  | .error .undefined => False

namespace Meets

variable {α β : Type} {r : Faulty α} {full full' : Prop} {P Q : α → Prop}
    {a : α} {f : α → Faulty β} {R : β → Prop}

theorem pure (h : P a) : Meets (Except.ok a) full P := h

theorem bind (h : Meets r full P) (hf : ∀ a, P a → Meets (f a) full R)
    : Meets (r >>= f) full R := by
  cases r with
  | ok a => exact hf a h
  | error e =>
    cases e with
    | exit => exact h
    | undefined => exact h

theorem mono (h : Meets r full P) (hfull : full → full') (hP : ∀ a, P a → Q a) :
    Meets r full' Q := by
  cases r with
  | ok a => exact hP a h
  | error e =>
    cases e with
    | exit => exact hfull h
    | undefined => exact h

theorem deref {x : Option α} (h : ∃ a, x = some a ∧ P a) : Meets (deref x) full P := by
  obtain ⟨a, rfl, ha⟩ := h
  exact ha

theorem derefBind {x : Option α} (h : x = some a) (hf : Meets (f a) full R)
    : Meets (Lib.deref x >>= f) full R := by
  subst h
  exact hf

theorem aliveBind {x : Option α} (h : x = some a) (hf : Meets (f a) full R)
    : Meets (Lib.alive x >>= f) full R := by
  subst h
  exact hf

theorem alive {x : Option α} (hnone : x = none → full) (hsome : ∀ a, x = some a → P a) :
    Meets (alive x) full P := by
  cases x with
  | none => exact hnone rfl
  | some a => exact hsome a rfl

end Meets

end Ddup.Lib
