/-
Ddup.Lib.Packing — items written one after the other into one buffer, and cursors that walk
over such a buffer.

`pack enc xs` is the buffer, `offset enc xs k` where its `k`-th item starts. Cutting the buffer at
an offset cuts the list there, so splicing at an offset is an edit of the list. A cursor is known
by what one move does at the positions of the items (`Ahead`, `Back`); from that follow the loops
that move it: to an index, to the end while counting, to the first item that passes a test.
-/
import Mathlib.Tactic

namespace Ddup.Lib

/-! ## Offsets -/

section Offsets

variable {α β : Type} (enc : α → List β) (xs : List α) (k : Nat)

def pack (xs : List α) : List β := xs.flatMap enc

def offset (xs : List α) (k : Nat) : Nat := (pack enc (xs.take k)).length

@[simp] theorem pack_nil : pack enc [] = [] := rfl

@[simp] theorem pack_cons (x : α) (xs : List α) : pack enc (x :: xs) = enc x ++ pack enc xs := rfl

theorem pack_append (ys : List α) : pack enc (xs ++ ys) = pack enc xs ++ pack enc ys :=
  List.flatMap_append

@[simp] theorem offset_zero : offset enc xs 0 = 0 := rfl

theorem offset_length : offset enc xs xs.length = (pack enc xs).length := by
  rw [offset, List.take_length]

theorem take_offset : (pack enc xs).take (offset enc xs k) = pack enc (xs.take k) := by
  have hcut : pack enc xs = pack enc (xs.take k) ++ pack enc (xs.drop k) := by
    rw [← pack_append, List.take_append_drop]
  rw [hcut, offset, List.take_left]

theorem drop_offset : (pack enc xs).drop (offset enc xs k) = pack enc (xs.drop k) := by
  have hcut : pack enc xs = pack enc (xs.take k) ++ pack enc (xs.drop k) := by
    rw [← pack_append, List.take_append_drop]
  rw [hcut, offset, List.drop_left]

theorem offset_succ {xs : List α} {k : Nat} {x : α} (h : xs[k]? = some x) :
    offset enc xs (k + 1) = offset enc xs k + (enc x).length := by
  rw [offset, offset, List.take_add_one, h, pack_append]
  simp

theorem offset_le : offset enc xs k ≤ (pack enc xs).length := by
  have hlen := congrArg List.length (take_offset enc xs k)
  rw [List.length_take] at hlen
  unfold offset at *
  omega

theorem insertIdx_eq_take_append_drop {α : Type} (x : α) : ∀ {xs : List α} {k : Nat}, k ≤ xs.length →
    xs.insertIdx k x = xs.take k ++ x :: xs.drop k
  | _, 0, _ => by simp
  | [], k + 1, hk => absurd hk (by simp)
  | y :: xs, k + 1, hk => by
    rw [List.insertIdx_succ_cons, insertIdx_eq_take_append_drop x (Nat.le_of_succ_le_succ hk)]
    rfl

theorem pack_insertIdx {xs : List α} {k : Nat} (hk : k ≤ xs.length) (x : α) :
    pack enc (xs.insertIdx k x)
      = (pack enc xs).take (offset enc xs k) ++ (enc x ++ (pack enc xs).drop (offset enc xs k)) := by
  rw [take_offset, drop_offset, insertIdx_eq_take_append_drop x hk, pack_append, pack_cons]

theorem pack_eraseIdx :
    pack enc (xs.eraseIdx k)
      = (pack enc xs).take (offset enc xs k) ++ (pack enc xs).drop (offset enc xs (k + 1)) := by
  rw [take_offset, drop_offset, List.eraseIdx_eq_take_drop_succ, pack_append]

end Offsets

/-! ## Cursors -/

section Cursors

variable {γ : Type}

def moveN (move : γ → Option γ) : Nat → Option γ → Option γ
  | 0, p => p
  | n + 1, p => moveN move n (p.bind move)

/-- How often a cursor moves before it is gone. -/
def countMoves (move : γ → Option γ) : Nat → Option γ → Nat
  | fuel + 1, some p => countMoves move fuel (move p) + 1
  | _, _ => 0

def visited (move : γ → Option γ) : Nat → Option γ → List γ
  | fuel + 1, some p => p :: visited move fuel (move p)
  | _, _ => []

/-- `move` goes from each of `n` places to the next. -/
def Ahead (move : γ → Option γ) (pos : Nat → γ) (n : Nat) : Prop :=
  ∀ k < n, move (pos k) = if k + 1 < n then some (pos (k + 1)) else none

/-- `move` goes from each place, the end included, to the one before it. -/
def Back (move : γ → Option γ) (pos : Nat → γ) (n : Nat) : Prop :=
  ∀ k ≤ n, move (pos k) = if k = 0 then none else some (pos (k - 1))

variable {move : γ → Option γ} {pos : Nat → γ} {n : Nat}

theorem moveN_none (i : Nat) : moveN move i none = none := by
  induction i with
  | zero => rfl
  | succ i ih => exact ih

theorem moveN_ahead (h : Ahead move pos n) (i k : Nat) (hk : k < n) :
    moveN move i (some (pos k)) = if k + i < n then some (pos (k + i)) else none := by
  induction i generalizing k with
  | zero => rw [moveN, Nat.add_zero, if_pos hk]
  | succ i ih =>
    rw [moveN, Option.bind_some, h k hk]
    by_cases hnext : k + 1 < n
    · rw [if_pos hnext, ih (k + 1) hnext, Nat.add_right_comm k 1 i, Nat.add_assoc k i 1]
    · rw [if_neg hnext, moveN_none, if_neg (by omega)]

theorem moveN_back (h : Back move pos n) (i k : Nat) (hk : k ≤ n) :
    moveN move i (some (pos k)) = if i ≤ k then some (pos (k - i)) else none := by
  induction i generalizing k with
  | zero => rfl
  | succ i ih =>
    rw [moveN, Option.bind_some, h k hk]
    by_cases hzero : k = 0
    · rw [if_pos hzero, moveN_none, if_neg (by omega)]
    have hstep : k - 1 - i = k - (i + 1) := by omega
    rw [if_neg hzero, ih (k - 1) (by omega), hstep]
    by_cases hle : i + 1 ≤ k
    · rw [if_pos (by omega), if_pos hle]
    · rw [if_neg (by omega), if_neg hle]

theorem countMoves_ahead (h : Ahead move pos n) (fuel k : Nat) (hk : k < n) (hfuel : n - k ≤ fuel) :
    countMoves move fuel (some (pos k)) = n - k := by
  induction fuel generalizing k with
  | zero => omega
  | succ fuel ih =>
    rw [countMoves, h k hk]
    by_cases hnext : k + 1 < n
    · rw [if_pos hnext, ih (k + 1) hnext (by omega)]
      omega
    · rw [if_neg hnext]
      cases fuel <;> simp only [countMoves] <;> omega

theorem visited_none (fuel : Nat) : visited move fuel none = [] := by cases fuel <;> rfl

theorem visited_ahead (h : Ahead move pos n) (fuel k : Nat) (hk : k < n) (hfuel : n - k ≤ fuel) :
    visited move fuel (some (pos k)) = (List.range' k (n - k)).map pos := by
  induction fuel generalizing k with
  | zero => omega
  | succ fuel ih =>
    have hlen : n - k = n - (k + 1) + 1 := by omega
    rw [visited, h k hk, hlen, List.range'_succ, List.map_cons]
    by_cases hnext : k + 1 < n
    · rw [if_pos hnext, ih (k + 1) hnext (by omega)]
    have hdone : n - (k + 1) = 0 := by omega
    rw [if_neg hnext, visited_none, hdone]
    rfl

theorem visited_back (h : Back move pos n) (fuel k : Nat) (hk : k ≤ n) (hfuel : k < fuel) :
    visited move fuel (some (pos k)) = (List.range (k + 1)).reverse.map pos := by
  induction fuel generalizing k with
  | zero => omega
  | succ fuel ih =>
    rw [visited, h k hk, List.range_succ, List.reverse_append, List.reverse_singleton,
      List.singleton_append, List.map_cons]
    by_cases hzero : k = 0
    · rw [if_pos hzero, visited_none, hzero]
      rfl
    · rw [if_neg hzero, ih (k - 1) (by omega) (by omega), Nat.sub_add_cancel (by omega)]

end Cursors

end Ddup.Lib
