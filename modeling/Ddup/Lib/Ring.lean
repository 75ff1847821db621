/-
Ddup.Lib.Ring — arrays that are read and written in a circle.

`ring buf cap start len` is what stands in `len` cells from `start` on, where cell `cap` is cell 0 again.
A block copied right behind it lengthens it, as long as the block does not run past the last cell and the
ring does not meet itself.
-/
import Mathlib.Data.List.GetD
import Mathlib.Data.Nat.ModEq

namespace Ddup.Lib

variable {α : Type*} {buf : Nat → α} {cap start len : Nat}

def ring (buf : Nat → α) (cap start len : Nat) : List α :=
  (List.range len).map fun k => buf ((start + k) % cap)

/-- An array with a block copied to a place of it. -/
def copyAt (buf : Nat → α) (pos : Nat) (data : List α) (i : Nat) : α :=
  if pos ≤ i then data.getD (i - pos) (buf i) else buf i

@[simp] theorem ring_length : (ring buf cap start len).length = len := by simp [ring]

@[simp] theorem copyAt_nil (pos : Nat) : copyAt buf pos [] = buf := by
  funext i
  simp [copyAt]

theorem ring_mod : ring buf cap (start % cap) len = ring buf cap start len := by simp [ring]

theorem ring_drop (k : Nat) : (ring buf cap start len).drop k = ring buf cap (start + k) (len - k) := by
  refine List.ext_getElem (by simp) fun i _ _ => ?_
  simp [ring, Nat.add_assoc]

theorem ring_take {k : Nat} (hk : k ≤ len) : (ring buf cap start len).take k = ring buf cap start k := by
  refine List.ext_getElem (by simp [hk]) fun i _ _ => ?_
  simp [ring]

/-- Cells less than a circle apart are different. -/
theorem cell_ne {i j : Nat} (hlt : i < j) (hnear : j < i + cap) : i % cap ≠ j % cap := by
  intro heq
  have hdvd : cap ∣ j - i := (Nat.modEq_iff_dvd' hlt.le).mp heq
  have hle := Nat.le_of_dvd (by omega) hdvd
  omega

theorem ring_copyAt (buf : Nat → α) (cap start len : Nat) (data : List α)
    (hroom : len + data.length ≤ cap) (hfit : (start + len) % cap + data.length ≤ cap) :
    ring (copyAt buf ((start + len) % cap) data) cap start (len + data.length)
      = ring buf cap start len ++ data := by
  have hcell : ∀ j < data.length, (start + len + j) % cap = (start + len) % cap + j := by
    intro j hj
    rw [Nat.add_mod, Nat.mod_eq_of_lt (a := j) (by omega), Nat.mod_eq_of_lt (by omega)]
  refine List.ext_getElem (by simp) fun k hk _ => ?_
  simp only [ring_length] at hk
  simp only [ring, List.getElem_map, List.getElem_range, copyAt]
  by_cases hold : k < len
  · rw [List.getElem_append_left (by simpa using hold)]
    simp only [List.getElem_map, List.getElem_range, ite_eq_right_iff]
    intro hle
    refine List.getD_eq_default _ _ (Nat.not_lt.mp fun hlt => ?_)
    have hsame := hcell _ hlt
    rw [Nat.add_sub_cancel' hle] at hsame
    exact cell_ne (by omega) (by omega) hsame.symm
  · obtain ⟨j, rfl⟩ := Nat.exists_eq_add_of_le (Nat.not_lt.mp hold)
    have hj : j < data.length := by omega
    rw [List.getElem_append_right (by simp), ← Nat.add_assoc, hcell j hj, if_pos (by omega)]
    simp [hj]

/-- A ring that is read in two blocks, up to the last cell and from the first one on. -/
theorem ring_blocks {pos n : Nat} (hpos : pos < cap) (hn : n ≤ cap) :
    (List.range (min (cap - pos) n)).map (fun i => buf (pos + i)) ++
      (List.range (n - min (cap - pos) n)).map buf = ring buf cap pos n := by
  refine List.ext_getElem (by simp) fun k hk _ => ?_
  simp only [List.length_append, List.length_map, List.length_range] at hk
  simp only [ring, List.getElem_map, List.getElem_range]
  by_cases hfirst : k < min (cap - pos) n
  · rw [List.getElem_append_left (by simpa using hfirst), List.getElem_map, List.getElem_range,
      Nat.mod_eq_of_lt (by omega)]
  · have hlen : ((List.range (min (cap - pos) n)).map fun i => buf (pos + i)).length = cap - pos := by
      simp
      omega
    rw [List.getElem_append_right (by omega), List.getElem_map, List.getElem_range, hlen,
      Nat.mod_eq_sub_mod (by omega), Nat.mod_eq_of_lt (by omega)]
    congr 1
    omega

end Ddup.Lib
