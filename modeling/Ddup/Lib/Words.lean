/-
Ddup.Lib.Words — the words of a text between blanks.

`words` is the usual double loop: skip blanks, take what is not blank. A text that is a first word
followed by pieces, each a blank and a word, has exactly these words.
-/
import Mathlib.Tactic

namespace Ddup.Lib

variable {α : Type} (blank : α → Bool) {t : List α} {ts : List (List α)}

/-- The words of a text; each round takes at least one character off. -/
def wordsLoop : Nat → List α → List (List α)
  | 0, _ => []
  | fuel + 1, s =>
    match s.dropWhile blank with
    | [] => []
    | c :: cs =>
      (c :: cs).takeWhile (fun x => !blank x) ::
        wordsLoop fuel ((c :: cs).dropWhile (fun x => !blank x))

def words (s : List α) : List (List α) := wordsLoop blank s.length s

structure IsWord (t : List α) : Prop where
  nonempty : t ≠ []
  plain : ∀ c ∈ t, blank c = false

variable {blank}

theorem split_at_mark [BEq α] [LawfulBEq α] {m : α} {b : List α} (rest : List α) (h : m ∉ b) :
    (b ++ m :: rest).takeWhile (· != m) = b ∧ (b ++ m :: rest).dropWhile (· != m) = m :: rest := by
  have hall : ∀ c ∈ b, (c != m) = true := fun c hc => bne_iff_ne.mpr fun heq => h (heq ▸ hc)
  rw [List.takeWhile_append_of_pos hall, List.dropWhile_append_of_pos hall]
  simp

theorem IsWord.split {rest : List α} (ht : IsWord blank t)
    (hrest : ∀ c ∈ rest.head?, blank c = true) :
    (t ++ rest).takeWhile (fun x => !blank x) = t ∧ (t ++ rest).dropWhile (fun x => !blank x) = rest := by
  have hall : ∀ c ∈ t, (fun x => !blank x) c = true := fun c hc => by simp [ht.plain c hc]
  have htake : rest.takeWhile (fun x => !blank x) = [] := by
    cases rest with
    | nil => rfl
    | cons c cs => simp [hrest c rfl]
  have hdrop : rest.dropWhile (fun x => !blank x) = rest := by
    cases rest with
    | nil => rfl
    | cons c cs => simp [hrest c rfl]
  rw [List.takeWhile_append_of_pos hall, List.dropWhile_append_of_pos hall, htake, hdrop,
    List.append_nil]
  exact ⟨rfl, rfl⟩

theorem wordsLoop_word {rest : List α} (ht : IsWord blank t)
    (hrest : ∀ c ∈ rest.head?, blank c = true) {skip : List α} (hskip : ∀ c ∈ skip, blank c = true)
    (fuel : Nat) :
    wordsLoop blank (fuel + 1) (skip ++ (t ++ rest)) = t :: wordsLoop blank fuel rest := by
  obtain ⟨c, cs, rfl⟩ := List.exists_cons_of_ne_nil ht.nonempty
  have hstart : (skip ++ (c :: cs ++ rest)).dropWhile blank = c :: cs ++ rest := by
    rw [List.dropWhile_append_of_pos hskip, List.cons_append]
    simp [ht.plain c List.mem_cons_self]
  have hsplit := ht.split hrest
  rw [wordsLoop, hstart]
  show (c :: cs ++ rest).takeWhile (fun x => !blank x) ::
    wordsLoop blank fuel ((c :: cs ++ rest).dropWhile (fun x => !blank x)) = _
  rw [hsplit.1, hsplit.2]

variable {sep : α}

theorem head?_pieces (hsep : blank sep = true) (ts : List (List α)) :
    ∀ c ∈ (ts.flatMap fun t => sep :: t).head?, blank c = true := by
  cases ts with
  | nil => simp
  | cons t ts =>
    intro c hc
    obtain rfl : sep = c := by simpa using hc
    exact hsep

theorem wordsLoop_pieces (hsep : blank sep = true) (hts : ∀ t ∈ ts, IsWord blank t) {fuel : Nat}
    (hfuel : ts.length ≤ fuel) : wordsLoop blank fuel (ts.flatMap fun t => sep :: t) = ts := by
  induction ts generalizing fuel with
  | nil => cases fuel <;> rfl
  | cons t ts ih =>
    obtain ⟨fuel, rfl⟩ : ∃ f, fuel = f + 1 := Nat.exists_eq_add_one.mpr (by
      simp only [List.length_cons] at hfuel
      omega)
    have hskip : ∀ c ∈ [sep], blank c = true := by simpa using hsep
    have hword := wordsLoop_word (hts t List.mem_cons_self) (head?_pieces hsep ts) hskip fuel
    refine hword.trans ?_
    rw [ih (fun u hu => hts u (List.mem_cons_of_mem _ hu)) (Nat.le_of_succ_le_succ hfuel)]

theorem length_le_pieces (ts : List (List α)) : ts.length ≤ (ts.flatMap fun t => sep :: t).length := by
  induction ts with
  | nil => exact Nat.le_refl 0
  | cons t ts ih =>
    rw [List.flatMap_cons, List.length_append, List.length_cons, List.length_cons]
    omega

theorem words_pieces (hsep : blank sep = true) (ht : IsWord blank t)
    (hts : ∀ u ∈ ts, IsWord blank u) :
    words blank (t ++ ts.flatMap fun u => sep :: u) = t :: ts := by
  have hpos : 0 < t.length := List.length_pos_iff.mpr ht.nonempty
  have hpieces : ts.length ≤ (ts.flatMap fun u => sep :: u).length := length_le_pieces ts
  obtain ⟨fuel, hfuel⟩ : ∃ f, (t ++ ts.flatMap fun u => sep :: u).length = f + 1 :=
    Nat.exists_eq_add_one.mpr (by
      rw [List.length_append]
      omega)
  have hle : ts.length ≤ fuel := by
    rw [List.length_append] at hfuel
    omega
  rw [words, hfuel, ← List.nil_append (t ++ _),
    wordsLoop_word ht (head?_pieces hsep ts) (by simp) fuel, wordsLoop_pieces hsep hts hle]

theorem words_single (ht : IsWord blank t) : words blank t = [t] := by
  obtain ⟨fuel, hfuel⟩ : ∃ f, t.length = f + 1 :=
    Nat.exists_eq_add_one.mpr (List.length_pos_iff.mpr ht.nonempty)
  have hword : wordsLoop blank (fuel + 1) ([] ++ (t ++ [])) = t :: wordsLoop blank fuel [] :=
    wordsLoop_word ht (by simp) (by simp) fuel
  rw [List.nil_append, List.append_nil] at hword
  rw [words, hfuel, hword]
  cases fuel <;> rfl

/-- The words of a text in which every word has the separator behind it. -/
theorem wordsLoop_lines (hsep : blank sep = true) (hts : ∀ t ∈ ts, IsWord blank t) {skip : List α}
    (hskip : ∀ c ∈ skip, blank c = true) {fuel : Nat} (hfuel : ts.length ≤ fuel) :
    wordsLoop blank fuel (skip ++ ts.flatMap fun t => t ++ [sep]) = ts := by
  induction ts generalizing fuel skip with
  | nil =>
    cases fuel with
    | zero => rfl
    | succ fuel =>
      have hnone : (skip ++ []).dropWhile blank = [] := by
        rw [List.dropWhile_append_of_pos hskip, List.dropWhile_nil]
      rw [List.flatMap_nil, wordsLoop, hnone]
  | cons t ts ih =>
    obtain ⟨fuel, rfl⟩ : ∃ f, fuel = f + 1 := Nat.exists_eq_add_one.mpr (by
      simp only [List.length_cons] at hfuel
      omega)
    have hhead : ∀ c ∈ ([sep] ++ ts.flatMap fun t => t ++ [sep]).head?, blank c = true := by
      simpa using hsep
    have hword := wordsLoop_word (hts t List.mem_cons_self) hhead hskip fuel
    rw [List.flatMap_cons, List.append_assoc, hword,
      ih (fun u hu => hts u (List.mem_cons_of_mem _ hu)) (by simpa using hsep)
        (Nat.le_of_succ_le_succ hfuel)]

theorem length_le_lines (ts : List (List α)) : ts.length ≤ (ts.flatMap fun t => t ++ [sep]).length := by
  induction ts with
  | nil => exact Nat.le_refl 0
  | cons t ts ih =>
    rw [List.flatMap_cons, List.length_append, List.length_append, List.length_cons,
      List.length_singleton]
    omega

theorem words_lines (hsep : blank sep = true) (hts : ∀ t ∈ ts, IsWord blank t)
    : words blank (ts.flatMap fun t => t ++ [sep]) = ts :=
  have hskip : ∀ c ∈ [], blank c = true := by simp
  wordsLoop_lines hsep hts hskip (length_le_lines ts)

end Ddup.Lib
