/-
Ddup.Lib.Runs — the maximal runs of a predicate on the numbers below a bound.

`IsRun p n a b` says that `a..b` is such a run. `runs p n` lists them in one pass that remembers where
the current run began; what holds of the numbers it has passed carries the induction. The listed runs
are exactly the maximal ones, and together they have the numbers where the predicate holds.
-/
import Mathlib.Tactic

namespace Ddup.Lib

variable {fuel i a : Nat} {start : Option Nat}

structure IsRun (p : Nat → Bool) (n a b : Nat) : Prop where
  le : a ≤ b
  lt : b < n
  inside : ∀ s, a ≤ s → s ≤ b → p s = true
  left : ∀ s, s + 1 = a → p s = false
  right : b + 1 < n → p (b + 1) = false

/-- The pass from `i` on; `start` is where the current run began. -/
def scanRuns (p : Nat → Bool) (n : Nat) : Nat → Nat → Option Nat → List (Nat × Nat)
  | 0, _, _ => []
  | fuel + 1, i, start =>
    if i < n ∧ p i = true then scanRuns p n fuel (i + 1) (some (start.getD i))
    else
      match start with
      | none => scanRuns p n fuel (i + 1) none
      | some a => (a, i - 1) :: scanRuns p n fuel (i + 1) none

def runs (p : Nat → Bool) (n : Nat) : List (Nat × Nat) := scanRuns p n (n + 1) 0 none

variable {p : Nat → Bool} {n : Nat}

theorem scanRuns_on (start : Option Nat) (h : i < n ∧ p i = true) :
    scanRuns p n (fuel + 1) i start = scanRuns p n fuel (i + 1) (some (start.getD i)) := by
  cases start <;> rw [scanRuns, if_pos h]

theorem scanRuns_idle (h : ¬ (i < n ∧ p i = true)) :
    scanRuns p n (fuel + 1) i none = scanRuns p n fuel (i + 1) none := by
  rw [scanRuns, if_neg h]

theorem scanRuns_end (a : Nat) (h : ¬ (i < n ∧ p i = true)) :
    scanRuns p n (fuel + 1) i (some a) = (a, i - 1) :: scanRuns p n fuel (i + 1) none := by
  rw [scanRuns, if_neg h]

/-- What a pass that has come to `i` remembers. -/
def Scanned (p : Nat → Bool) (n i : Nat) : Option Nat → Prop
  | none => ∀ s, s + 1 = i → s < n → p s = false
  | some a => a < i ∧ i ≤ n ∧ (∀ s, a ≤ s → s < i → p s = true) ∧ ∀ s, s + 1 = a → p s = false

theorem Scanned.next (h : Scanned p n i start) (hi : i < n) (hp : p i = true)
    : Scanned p n (i + 1) (some (start.getD i)) := by
  cases start with
  | none =>
    refine ⟨Nat.lt_succ_self i, hi, fun s hlo hhi => ?_, fun s hs => h s hs (by
      simp only [Option.getD_none] at hs
      omega)⟩
    have hs : s = i := Nat.le_antisymm (Nat.lt_succ_iff.mp hhi) hlo
    exact hs ▸ hp
  | some a =>
    obtain ⟨hlt, hle, hall, hleft⟩ := h
    refine ⟨Nat.lt_succ_of_lt hlt, hi, fun s hlo hhi => ?_, hleft⟩
    rcases Nat.lt_succ_iff_lt_or_eq.mp hhi with hs | rfl
    · exact hall s hlo hs
    · exact hp

theorem scanned_off (h : ¬ (i < n ∧ p i = true)) : Scanned p n (i + 1) none := by
  intro s hs hlt
  obtain rfl : s = i := Nat.succ.inj hs
  exact Bool.eq_false_iff.mpr fun hp => h ⟨hlt, hp⟩

theorem Scanned.isRun (h : Scanned p n i (some a)) (hoff : ¬ (i < n ∧ p i = true)) :
    IsRun p n a (i - 1) := by
  obtain ⟨hlt, hle, hall, hleft⟩ := h
  refine ⟨by omega, by omega, fun s hlo hhi => hall s hlo (by omega), hleft, fun hin => ?_⟩
  have hi : i - 1 + 1 = i := by omega
  rw [hi] at hin ⊢
  exact Bool.eq_false_iff.mpr fun hp => hoff ⟨hin, hp⟩

theorem scanRuns_isRun (h : Scanned p n i start) :
    ∀ r ∈ scanRuns p n fuel i start, IsRun p n r.1 r.2 := by
  induction fuel generalizing i start with
  | zero => simp [scanRuns]
  | succ fuel ih =>
    by_cases hon : i < n ∧ p i = true
    · rw [scanRuns_on start hon]
      exact ih (h.next hon.1 hon.2)
    cases start with
    | none =>
      rw [scanRuns_idle hon]
      exact ih (scanned_off hon)
    | some a =>
      rw [scanRuns_end a hon]
      intro r hr
      rcases List.mem_cons.mp hr with rfl | hr
      · exact h.isRun hon
      · exact ih (scanned_off hon) r hr

/-- A listed run has every number of the current run, and every later one where the predicate
holds. -/
theorem scanRuns_covers (h : Scanned p n i start) (hfuel : n < i + fuel) (s : Nat) (hs : s < n)
    (hp : p s = true) (hfrom : start.getD i ≤ s)
    : ∃ r ∈ scanRuns p n fuel i start, r.1 ≤ s ∧ s ≤ r.2 := by
  induction fuel generalizing i start with
  | zero =>
    cases start with
    | none => simp only [Option.getD_none] at hfrom; omega
    | some a => obtain ⟨-, hle, -, -⟩ := h; omega
  | succ fuel ih =>
    by_cases hon : i < n ∧ p i = true
    · rw [scanRuns_on start hon]
      exact ih (h.next hon.1 hon.2) (by omega) (by simpa using hfrom)
    have hne : s ≠ i := by
      rintro rfl
      exact hon ⟨hs, hp⟩
    cases start with
    | none =>
      rw [scanRuns_idle hon]
      simp only [Option.getD_none] at hfrom
      exact ih (scanned_off hon) (by omega) (by simp only [Option.getD_none]; omega)
    | some a =>
      rw [scanRuns_end a hon]
      by_cases hin : s < i
      · exact ⟨(a, i - 1), List.mem_cons_self, by simpa using hfrom, by omega⟩
      obtain ⟨r, hr, hsr⟩ := ih (scanned_off hon) (by omega) (by
        simp only [Option.getD_none]
        omega)
      exact ⟨r, List.mem_cons_of_mem _ hr, hsr⟩

theorem scanned_start : Scanned p n 0 none := by
  intro s hs
  omega

theorem IsRun.unique {b c d s : Nat} (h : IsRun p n a b) (h' : IsRun p n c d) (hs : a ≤ s ∧ s ≤ b)
    (hs' : c ≤ s ∧ s ≤ d) : a = c ∧ b = d := by
  have hleft : ∀ {a b c d : Nat}, IsRun p n a b → IsRun p n c d → a ≤ s ∧ s ≤ b → c ≤ s ∧ s ≤ d →
      ¬ a < c := by
    intro a b c d h h' hs hs' hlt
    have hoff := h'.left (c - 1) (by omega)
    rw [h.inside (c - 1) (by omega) (by omega)] at hoff
    cases hoff
  have hright : ∀ {a b c d : Nat}, IsRun p n a b → IsRun p n c d → a ≤ s ∧ s ≤ b → c ≤ s ∧ s ≤ d →
      ¬ b < d := by
    intro a b c d h h' hs hs' hlt
    have hoff := h.right (by have := h'.lt; omega)
    rw [h'.inside (b + 1) (by omega) (by omega)] at hoff
    cases hoff
  have h₁ := hleft h h' hs hs'
  have h₂ := hleft h' h hs' hs
  have h₃ := hright h h' hs hs'
  have h₄ := hright h' h hs' hs
  omega

theorem mem_runs_iff {b : Nat} : (a, b) ∈ runs p n ↔ IsRun p n a b := by
  constructor
  · exact scanRuns_isRun scanned_start (a, b)
  intro h
  have hcover : ∃ r ∈ runs p n, r.1 ≤ a ∧ a ≤ r.2 :=
    scanRuns_covers scanned_start (by omega) a (lt_of_le_of_lt h.le h.lt)
      (h.inside a (Nat.le_refl a) h.le) (Nat.zero_le _)
  obtain ⟨⟨c, d⟩, hr, hlo, hhi⟩ := hcover
  obtain ⟨rfl, rfl⟩ := h.unique (scanRuns_isRun scanned_start _ hr) ⟨Nat.le_refl a, h.le⟩
    ⟨hlo, hhi⟩
  exact hr

/-- The numbers of the runs are those where the predicate holds. -/
theorem exists_run_iff {s : Nat} (hs : s < n) :
    (∃ r ∈ runs p n, r.1 ≤ s ∧ s ≤ r.2) ↔ p s = true := by
  constructor
  · rintro ⟨⟨a, b⟩, hr, hlo, hhi⟩
    exact (mem_runs_iff.mp hr).inside s hlo hhi
  · intro hp
    exact scanRuns_covers scanned_start (by omega) s hs hp (Nat.zero_le s)

theorem scanRuns_from (h : Scanned p n i start) :
    ∀ r ∈ scanRuns p n fuel i start, start.getD i ≤ r.1 := by
  induction fuel generalizing i start with
  | zero => simp [scanRuns]
  | succ fuel ih =>
    by_cases hon : i < n ∧ p i = true
    · rw [scanRuns_on start hon]
      exact ih (h.next hon.1 hon.2)
    have hrest : ∀ r ∈ scanRuns p n fuel (i + 1) none, i + 1 ≤ r.1 := ih (scanned_off hon)
    cases start with
    | none =>
      rw [scanRuns_idle hon]
      exact fun r hr => Nat.le_of_succ_le (hrest r hr)
    | some a =>
      rw [scanRuns_end a hon]
      intro r hr
      rcases List.mem_cons.mp hr with rfl | hr
      · exact Nat.le_refl a
      · exact (h.1.trans (Nat.lt_succ_self i)).le.trans (hrest r hr)

theorem scanRuns_pairwise (h : Scanned p n i start) :
    (scanRuns p n fuel i start).Pairwise fun r r' => r.2 < r'.1 := by
  induction fuel generalizing i start with
  | zero => simp [scanRuns]
  | succ fuel ih =>
    by_cases hon : i < n ∧ p i = true
    · rw [scanRuns_on start hon]
      exact ih (h.next hon.1 hon.2)
    cases start with
    | none =>
      rw [scanRuns_idle hon]
      exact ih (scanned_off hon)
    | some a =>
      rw [scanRuns_end a hon]
      refine List.pairwise_cons.mpr ⟨fun r hr => ?_, ih (scanned_off hon)⟩
      have hfrom : i + 1 ≤ r.1 := scanRuns_from (scanned_off hon) r hr
      omega

theorem runs_nodup : (runs p n).Nodup := by
  refine (scanRuns_pairwise scanned_start).imp_of_mem fun {r r'} hr _ hlt heq => ?_
  have hle := (scanRuns_isRun scanned_start r hr).le
  rw [← heq] at hlt
  omega

end Ddup.Lib
