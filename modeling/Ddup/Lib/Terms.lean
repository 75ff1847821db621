/-
Ddup.Lib.Terms — prefix notation.

A token announces how many terms follow it as its own; a term is a token with its
terms behind it. `due` reads tokens while so many terms are still to come and says
how many are missing afterwards: a list of tokens is exactly `n` terms if nothing is
missing after `n`. The rules here are the ones a writer needs that emits its tokens
piece by piece: reading on, reading with more to come, and one term after another.
-/
import Mathlib.Tactic

namespace Ddup.Lib

variable {τ : Type} (arity : τ → Nat)

/-- The number of terms still missing, when `n` were to come; absent if a token is
left over. -/
def due : Nat → List τ → Option Nat
  | n, [] => some n
  | 0, _ :: _ => none
  | n + 1, t :: ts => due (arity t + n) ts

variable {arity}

@[simp] theorem due_nil (n : Nat) : due arity n [] = some n := by cases n <;> rfl

@[simp] theorem due_cons (n : Nat) (t : τ) (ts : List τ) :
    due arity (n + 1) (t :: ts) = due arity (arity t + n) ts := rfl

theorem due_append : ∀ (a b : List τ) (n : Nat),
    due arity n (a ++ b) = (due arity n a).bind fun m => due arity m b
  | [], b, n => by simp
  | _ :: _, _, 0 => rfl
  | t :: a, b, n + 1 => due_append a b (arity t + n)

theorem due_add (m : Nat) : ∀ {a : List τ} {n r : Nat}, due arity n a = some r →
    due arity (n + m) a = some (r + m)
  | [], n, r, h => by
    rw [due_nil] at h ⊢
    cases h
    rfl
  | t :: a, 0, r, h => by cases h
  | t :: a, n + 1, r, h => by
    rw [due_cons] at h
    have ih := due_add m h
    rwa [show n + 1 + m = n + m + 1 by omega, due_cons, ← Nat.add_assoc]

theorem due_term {a b : List τ} {n r : Nat} (ha : due arity 1 a = some 0)
    (hb : due arity n b = some r) : due arity (n + 1) (a ++ b) = some r := by
  have h := due_add n ha
  rw [due_append, Nat.add_comm n 1, h, Nat.zero_add]
  exact hb

end Ddup.Lib
