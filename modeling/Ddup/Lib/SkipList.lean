/-
Ddup.Lib.SkipList — skip lists as lists whose elements have heights.

On level `i` an element is linked to the next one taller than `i`. `reach i l` is that element and
the number of steps to it, where `l` is what follows; behind the last tall element it is the number
of steps to the end. `Spans link i row` says that the links of a level are those of the row, seen
through any view of the reached element and the distance. Replacing a piece of the row touches one
old link of a level only, that of the last tall element before the piece (`Spans.splice`).
-/
import Mathlib.Tactic

namespace Ddup.Lib.SkipList

variable {α β : Type} (height : α → Nat)

/-- The next element taller than `i` and the steps to it, or no element and the steps to the end. -/
def reach (i : Nat) : List α → Option α × Nat
  | [] => (none, 0)
  | a :: l => if i < height a then (some a, 1) else ((reach i l).1, (reach i l).2 + 1)

variable {height} {i : Nat} {row hi mid pre post l : List α} {a u : α}

theorem reach_append (h : ∀ b ∈ mid, height b ≤ i) (l : List α) :
    reach height i (mid ++ l) = ((reach height i l).1, mid.length + (reach height i l).2) := by
  induction mid with
  | nil => simp
  | cons b mid ih =>
    have hb : ¬ i < height b := Nat.not_lt.mpr (h b (by simp))
    rw [List.cons_append, reach, if_neg hb, ih fun c hc => h c (by simp [hc]), List.length_cons]
    refine Prod.ext rfl ?_
    omega

theorem reach_short (h : ∀ b ∈ l, height b ≤ i) : reach height i l = (none, l.length) := by
  have happ := reach_append h []
  rwa [List.append_nil] at happ

theorem reach_tall (h : ∀ b ∈ mid, height b ≤ i) (ha : i < height a) (post : List α) :
    reach height i (mid ++ a :: post) = (some a, mid.length + 1) := by
  rw [reach_append h, reach, if_pos ha]

theorem first_tall (height : α → Nat) (i : Nat) (l : List α) :
    (∀ b ∈ l, height b ≤ i) ∨
      ∃ mid a post, l = mid ++ a :: post ∧ (∀ b ∈ mid, height b ≤ i) ∧ i < height a := by
  induction l with
  | nil => exact .inl (by simp)
  | cons b l ih =>
    by_cases hb : i < height b
    · exact .inr ⟨[], b, l, rfl, by simp, hb⟩
    rcases ih with hshort | ⟨mid, a, post, rfl, hmid, ha⟩
    · exact .inl fun c hc => by
        rcases List.mem_cons.mp hc with rfl | hc
        · omega
        · exact hshort c hc
    refine .inr ⟨b :: mid, a, post, rfl, ?_, ha⟩
    intro c hc
    rcases List.mem_cons.mp hc with rfl | hc
    · omega
    · exact hmid c hc

theorem reach_none_iff : (reach height i l).1 = none ↔ ∀ b ∈ l, height b ≤ i := by
  constructor
  · intro h
    rcases first_tall height i l with hshort | ⟨mid, a, post, rfl, hmid, ha⟩
    · exact hshort
    · rw [reach_tall hmid ha] at h
      cases h
  · intro h
    rw [reach_short h]

theorem reach_append_of_mem (hu : u ∈ mid) (hi : i < height u) (l : List α) :
    reach height i (mid ++ l) = reach height i mid := by
  rcases first_tall height i mid with hshort | ⟨m, a, post, rfl, hm, ha⟩
  · exact absurd (hshort u hu) (by omega)
  · rw [List.append_assoc, List.cons_append, reach_tall hm ha, reach_tall hm ha]

theorem mem_of_reach (h : (reach height i l).1 = some a) : a ∈ l := by
  rcases first_tall height i l with hshort | ⟨m, b, post, rfl, hm, hb⟩
  · rw [reach_short hshort] at h
    cases h
  rw [reach_tall hm hb] at h
  injection h with h
  rw [h]
  simp

theorem reach_le (height : α → Nat) (i : Nat) (l : List α) : (reach height i l).2 ≤ l.length := by
  induction l with
  | nil => exact Nat.le_refl 0
  | cons b l ih =>
    rw [reach]
    split
    · simp
    · simpa using ih

/-! ## The last tall element -/

/-- `u` is the last element of the row taller than `i`; `mid` is what follows it. -/
structure LastAbove (height : α → Nat) (i : Nat) (row pre : List α) (u : α) (mid : List α) :
    Prop where
  row_eq : row = pre ++ u :: mid
  tall : i < height u
  short : ∀ b ∈ mid, height b ≤ i

/-! ## The links of a level -/

/-- The links of level `i`, seen through `view`. -/
def Spans (height : α → Nat) (view : Option α × Nat → β) (link : α → Option β) (i : Nat)
    (row : List α) : Prop :=
  ∀ pre a post, row = pre ++ a :: post → i < height a →
    link a = some (view (reach height i post))

variable {view : Option α × Nat → β} {link link' : α → Option β}

theorem append_eq_split {l₁ l₂ : List α} (h : l₁ ++ l₂ = pre ++ a :: post) :
    (∃ m, l₁ = pre ++ a :: m ∧ post = m ++ l₂) ∨ ∃ m, l₂ = m ++ a :: post ∧ pre = l₁ ++ m := by
  rcases List.append_eq_append_iff.mp h with ⟨m, hpre, hl⟩ | ⟨m, hl, hpost⟩
  · exact .inr ⟨m, hl, hpre⟩
  cases m with
  | nil => exact .inr ⟨[], by simpa using hpost.symm, by simpa using hl.symm⟩
  | cons b m =>
    obtain ⟨rfl, rfl⟩ := hpost
    exact .inl ⟨m, hl, rfl⟩

/-- Replacing what stands between `row` and `hi`: on level `i` only the link of the last tall
    element of `row` changes, and the new elements get theirs. -/
theorem Spans.splice {out new : List α} (row : List α)
    (h : Spans height view link i (row ++ (out ++ hi)))
    (hu : LastAbove height i row pre u mid) (hnodup : (row ++ hi).Nodup)
    (hlink : link' u = some (view (reach height i (mid ++ (new ++ hi)))))
    (hnew : ∀ m b m', new = m ++ b :: m' → i < height b →
      link' b = some (view (reach height i (m' ++ hi))))
    (hframe : ∀ b, b ∈ row ∨ b ∈ hi → b ≠ u → i < height b → link' b = link b) :
    Spans height view link' i (row ++ (new ++ hi)) := by
  obtain ⟨hrows, -, hapart⟩ := List.nodup_append.mp hnodup
  intro m b m' hsplit hb
  rcases append_eq_split hsplit with ⟨mid', hrow, rfl⟩ | ⟨x, hx, -⟩
  · by_cases hbu : b = u
    · -- the element itself: the row has no repetitions, so the two splits agree
      subst hbu
      have hrest := (List.nodup_cons.mp (List.nodup_middle.mp (hrow ▸ hrows))).1
      rw [List.mem_append, not_or] at hrest
      have hsame : mid' = mid :=
        ((List.append_cons_inj_of_notMem hrest.1 hrest.2).mp (hrow.symm.trans hu.row_eq)).2.2
      rw [hsame]
      exact hlink
    -- a tall element before the last one does not see past it
    have hmem : u ∈ mid' := by
      rcases append_eq_split (hu.row_eq.symm.trans hrow) with ⟨x, hpre, hmid⟩ | ⟨x, hx, -⟩
      · rw [hmid]
        simp
      cases x with
      | nil =>
        rw [List.nil_append, List.cons.injEq] at hx
        exact absurd hx.1.symm hbu
      | cons c x =>
        rw [List.cons_append, List.cons.injEq] at hx
        exact absurd (hu.short b (by rw [hx.2]; simp)) (by omega)
    have hold := h m b (mid' ++ (out ++ hi)) (by rw [hrow]; simp) hb
    rw [hframe b (.inl (by rw [hrow]; simp)) hbu hb, hold,
      reach_append_of_mem hmem hu.tall, reach_append_of_mem hmem hu.tall]
  · rcases append_eq_split hx with ⟨y, hy, rfl⟩ | ⟨y, hy, -⟩
    · exact hnew x b y hy hb
    have hmem : b ∈ hi := by rw [hy]; simp
    have hbu : b ≠ u := fun heq =>
      hapart u (by rw [hu.row_eq]; simp) b hmem heq.symm
    rw [hframe b (.inr hmem) hbu hb]
    exact h (row ++ (out ++ y)) b m' (by rw [hy]; simp) hb

/-! ## Searching -/

/-- A test that holds of a first part of the list only says how long that part is. -/
theorem index_lt_takeWhile (p : α → Bool) {k : Nat} (hmono : l.Pairwise fun a b => p b → p a)
    (hk : l[k]? = some a) : p a = decide (k < (l.takeWhile p).length) := by
  induction l generalizing k with
  | nil => simp at hk
  | cons b l ih =>
    obtain ⟨hb, hl⟩ := List.pairwise_cons.mp hmono
    cases hpb : p b with
    | true =>
      rw [List.takeWhile_cons_of_pos hpb]
      cases k with
      | zero =>
        rw [List.getElem?_cons_zero, Option.some.injEq] at hk
        rw [← hk, hpb]
        simp
      | succ k =>
        rw [ih hl hk]
        simp
    | false =>
      rw [List.takeWhile_cons_of_neg (by simp [hpb])]
      cases k with
      | zero =>
        rw [List.getElem?_cons_zero, Option.some.injEq] at hk
        rw [← hk, hpb]
        simp
      | succ k =>
        have hmem : a ∈ l := List.mem_of_getElem? hk
        cases hpa : p a with
        | true => exact absurd (hb a hmem hpa) (by simp [hpb])
        | false => simp

theorem not_of_mem_dropWhile (p : α → Bool) (hmono : l.Pairwise fun a b => p b → p a)
    (ha : a ∈ l.dropWhile p) : p a = false := by
  induction l with
  | nil => cases ha
  | cons b l ih =>
    obtain ⟨hb, hl⟩ := List.pairwise_cons.mp hmono
    cases hpb : p b with
    | true =>
      rw [List.dropWhile_cons_of_pos hpb] at ha
      exact ih hl ha
    | false =>
      rw [List.dropWhile_cons_of_neg (by simp [hpb])] at ha
      rcases List.mem_cons.mp ha with rfl | ha
      · exact hpb
      cases hpa : p a with
      | true => exact absurd (hb a ha hpa) (by simp [hpb])
      | false => rfl

end Ddup.Lib.SkipList
