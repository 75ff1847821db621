/-
Ddup.Cluster.SlotTextTheorems — the text of a slot bitmap and what it is read back as.

The rendering is the text of the bitmap's runs, up to the last one that fits. Reading an item back
gives its slots, and for a range more: the upper bound is read on from the value of the lower one, so
that `a-b` ends at `a * 10^k + b`, where `k` is the number of digits of `b`, or at the last slot.
-/
import Ddup.Cluster.Slots
import Ddup.Lib.Runs
import Ddup.Resp.ReplyTheorems

namespace Ddup.Cluster

open Ddup.Lib Ddup.Command Ddup.Resp

variable (bm : Bitmap) {a b cap n : Nat} {out : Bytes} {rs : List (Nat × Nat)} {s : Nat}

/-! ## Bits -/

theorem clusterSlotsGet_ge (h : slotCount ≤ s) : clusterSlotsGet bm s = false := BitVec.getLsbD_of_ge bm s h

theorem bitmap_ext {bm bm' : Bitmap} (h : ∀ s, clusterSlotsGet bm s = clusterSlotsGet bm' s) :
    bm = bm' := BitVec.eq_of_getLsbD_eq fun s _ => h s

@[simp] theorem clusterSlotsGet_zero (s : Nat) : clusterSlotsGet 0#16384 s = false :=
  BitVec.getLsbD_zero

theorem clusterSlotsGet_set (s t : Nat) (on : Bool) :
    clusterSlotsGet (clusterSlotsSet bm s on) t
      = if s = t ∧ s < slotCount then on else clusterSlotsGet bm t := by
  unfold clusterSlotsSet clusterSlotsGet
  by_cases hs : slotCount ≤ s
  · rw [if_pos hs, if_neg fun h => absurd h.2 (Nat.not_lt.mpr hs)]
  have hlt : s < 16384 := Nat.lt_of_not_le hs
  rw [if_neg hs]
  cases on with
  | true =>
    by_cases hst : s = t
    · subst hst
      simp [hlt, slotCount]
    · simp [hst]
  | false =>
    rw [if_neg Bool.false_ne_true, BitVec.getLsbD_and, BitVec.getLsbD_not, BitVec.getLsbD_twoPow]
    by_cases hst : s = t
    · subst hst
      simp [hlt, slotCount]
    by_cases ht : t < 16384
    · simp [hst, ht]
    · simp [ht, BitVec.getLsbD_of_ge bm t (Nat.le_of_not_lt ht)]

theorem get_foldl_set (l : List Nat) (s : Nat) :
    clusterSlotsGet (l.foldl (fun bm s => clusterSlotsSet bm s true) bm) s
      = (clusterSlotsGet bm s || decide (s ∈ l ∧ s < slotCount)) := by
  induction l generalizing bm with
  | nil => simp
  | cons x l ih =>
    rw [List.foldl_cons, ih, clusterSlotsGet_set]
    by_cases hx : x = s
    · subst hx
      by_cases hlt : x < slotCount
      · simp [hlt]
      · simp [hlt]
    · have hne : ¬ s = x := fun h => hx h.symm
      simp [hx, hne]

theorem get_setRange (a b s : Nat) :
    clusterSlotsGet (setRange bm a b) s
      = (clusterSlotsGet bm s || decide (a ≤ s ∧ s ≤ b ∧ s < slotCount)) := by
  have hmem : s ∈ List.range' a (b + 1 - a) ↔ a ≤ s ∧ s ≤ b := by
    rw [List.mem_range'_1]
    omega
  rw [setRange, get_foldl_set]
  simp only [hmem, and_assoc]

/-! ## The text of runs -/

def itemsText : List (Nat × Nat) → Bytes
  | [] => []
  | r :: rs => rangeText r.1 r.2 ++ rs.flatMap fun r => 32 :: rangeText r.1 r.2

def slotText (bm : Bitmap) : Bytes := itemsText (runs (clusterSlotsGet bm) slotCount)

theorem rangeText_ne_nil (a b : Nat) : rangeText a b ≠ [] := by
  unfold rangeText
  split_ifs
  · exact u64ToStr_ne_nil a
  · simp

theorem itemsText_eq_nil : itemsText rs = [] ↔ rs = [] := by
  cases rs with
  | nil => exact ⟨fun _ => rfl, fun _ => rfl⟩
  | cons r rs => simp [itemsText, rangeText_ne_nil]

theorem itemsText_snoc (rs : List (Nat × Nat)) (r : Nat × Nat) :
    itemsText (rs ++ [r])
      = itemsText rs ++ ((if (itemsText rs).isEmpty then [] else [32]) ++ rangeText r.1 r.2) := by
  cases rs with
  | nil => simp [itemsText]
  | cons x rs =>
    have hne : (itemsText (x :: rs)).isEmpty = false := by
      rw [List.isEmpty_eq_false_iff]
      exact fun h => by cases itemsText_eq_nil.mp h
    rw [hne]
    simp [itemsText]

theorem itemsText_length_le (rs rest : List (Nat × Nat)) :
    (itemsText rs).length ≤ (itemsText (rs ++ rest)).length := by
  cases rs with
  | nil => exact Nat.zero_le _
  | cons r rs =>
    simp only [List.cons_append, itemsText, List.flatMap_append, List.length_append]
    omega

def cutItems (cap : Nat) : Bytes → List (Nat × Nat) → Bytes
  | out, [] => out
  | out, r :: rs =>
    let item := (if out.isEmpty then [] else [32]) ++ rangeText r.1 r.2
    if cap - out.length ≤ item.length then out else cutItems cap (out ++ item) rs

theorem renderLoop_eq (cap fuel i : Nat) (out : Bytes) (start : Option Nat) :
    renderLoop bm cap fuel i out start
      = cutItems cap out (scanRuns (clusterSlotsGet bm) slotCount fuel i start) := by
  induction fuel generalizing i out start with
  | zero => rfl
  | succ fuel ih =>
    by_cases hon : i < slotCount ∧ clusterSlotsGet bm i = true
    · rw [scanRuns_on start hon, ← ih]
      cases start <;> rw [renderLoop, if_pos hon]
    cases start with
    | none => rw [scanRuns_idle hon, renderLoop, if_neg hon, ih]
    | some a =>
      rw [scanRuns_end a hon, renderLoop, if_neg hon, cutItems]
      dsimp only
      rw [ih]

/-- What is written is the text of the first runs, and the next one would have needed more than the
buffer has. -/
theorem cutItems_eq (cap : Nat) (rs done : List (Nat × Nat)) :
    ∃ k, cutItems cap (itemsText done) rs = itemsText (done ++ rs.take k) ∧
      (k < rs.length → cap ≤ (itemsText (done ++ rs.take (k + 1))).length) := by
  induction rs generalizing done with
  | nil => exact ⟨0, by simp [cutItems], fun h => absurd h (Nat.not_lt_zero 0)⟩
  | cons r rs ih =>
    rw [cutItems]
    have hsnoc := itemsText_snoc done r
    generalize (if (itemsText done).isEmpty then [] else [32]) ++ rangeText r.1 r.2 = item at hsnoc ⊢
    split_ifs with hfull
    · refine ⟨0, by simp, fun _ => ?_⟩
      rw [List.take_succ_cons, List.take_zero, hsnoc, List.length_append]
      omega
    obtain ⟨k, hk, hnext⟩ := ih (done ++ [r])
    refine ⟨k + 1, ?_, fun hlt => ?_⟩
    · rw [← hsnoc, hk, List.append_assoc]
      rfl
    · have hle := hnext (Nat.lt_of_succ_lt_succ hlt)
      rwa [List.append_assoc] at hle

theorem clusterSlotsRender_eq (hcap : cap ≠ 0) :
    ∃ k, clusterSlotsRender bm cap
        = some (itemsText ((runs (clusterSlotsGet bm) slotCount).take k)) ∧
      (k < (runs (clusterSlotsGet bm) slotCount).length →
        cap ≤ (itemsText ((runs (clusterSlotsGet bm) slotCount).take (k + 1))).length) := by
  obtain ⟨k, hk, hnext⟩ := cutItems_eq cap (runs (clusterSlotsGet bm) slotCount) []
  refine ⟨k, ?_, hnext⟩
  rw [clusterSlotsRender, if_neg hcap, renderLoop_eq]
  exact congrArg some hk

theorem cutItems_length (h : out.length < cap) (rs : List (Nat × Nat)) :
    (cutItems cap out rs).length < cap := by
  induction rs generalizing out with
  | nil => exact h
  | cons r rs ih =>
    rw [cutItems]
    generalize (if out.isEmpty then [] else [32]) ++ rangeText r.1 r.2 = item
    split_ifs with hfull
    · exact h
    refine ih ?_
    rw [List.length_append]
    omega

theorem clusterSlotsRender_length {bm : Bitmap}
    (h : clusterSlotsRender bm cap = some out) : out.length < cap := by
  rw [clusterSlotsRender, renderLoop_eq] at h
  split_ifs at h with hcap
  rw [← Option.some.inj h]
  exact cutItems_length (Nat.pos_of_ne_zero hcap) _

theorem clusterSlotsRender_of_fits {bm : Bitmap} (h : (slotText bm).length < cap) :
    clusterSlotsRender bm cap = some (slotText bm) := by
  obtain ⟨k, hk, hnext⟩ := clusterSlotsRender_eq bm (Nat.ne_of_gt (Nat.zero_lt_of_lt h))
  rw [hk]
  by_cases hlt : k < (runs (clusterSlotsGet bm) slotCount).length
  · have hle := hnext hlt
    have hprefix := itemsText_length_le ((runs (clusterSlotsGet bm) slotCount).take (k + 1))
      ((runs (clusterSlotsGet bm) slotCount).drop (k + 1))
    rw [List.take_append_drop] at hprefix
    exact absurd (hle.trans hprefix) (Nat.not_le.mpr h)
  · rw [List.take_of_length_le (Nat.le_of_not_lt hlt), slotText]

/-! ## Reading items back -/

def readEnd (a b : Nat) : Nat :=
  if a = b then b else min (a * 10 ^ (u64ToStr b).length + b) (slotCount - 1)

theorem digits_u64ToStr {c : UInt8} (h : c ∈ u64ToStr n) : 48 ≤ c ∧ c ≤ 57 :=
  digitLoop_digits (digitLoop_u64ToStr n) c h

theorem dash_notMem (n : Nat) : (45 : UInt8) ∉ u64ToStr n := fun h =>
  absurd (digits_u64ToStr h).1 (by decide)

theorem digitLoop_from (v n : Nat) :
    digitLoop (fun _ _ => true) v (u64ToStr n) = some (v * 10 ^ (u64ToStr n).length + n) := by
  rw [u64ToStr_eq, digitLoop_map fun d hd => lowDigits_lt (List.mem_reverse.mp hd),
    List.reverse_reverse, ofDigits_lowDigits, List.length_map]

theorem digitLoop_u32 {v : Nat} (h : v * 10 ^ (u64ToStr n).length + n ≤ uint32Max) :
    digitLoop u32Ok v (u64ToStr n) = some (v * 10 ^ (u64ToStr n).length + n) := by
  refine digitLoop_bounded (digitLoop_from v n) fun x d hle => ?_
  exact decide_eq_true ((Nat.le_div_iff_mul_le (by decide)).mpr (by omega))

theorem u64ToStr_length_le (h : n < 10 ^ 5) : (u64ToStr n).length ≤ 5 := by
  rw [u64ToStr_eq, List.length_map, List.length_reverse, lowDigits]
  split_ifs
  · decide
  · rw [Nat.digits_length_le_iff (by decide)]
    exact h

theorem readEnd_lt (ha : a < slotCount) (hb : b < slotCount) :
    a * 10 ^ (u64ToStr b).length + b ≤ uint32Max := by
  have hpow : 10 ^ (u64ToStr b).length ≤ 10 ^ 5 :=
    Nat.pow_le_pow_right (by decide) (u64ToStr_length_le (hb.trans (by decide)))
  have hmul : a * 10 ^ (u64ToStr b).length ≤ 16383 * 10 ^ 5 :=
    Nat.mul_le_mul (Nat.le_of_lt_succ ha) hpow
  unfold uint32Max slotCount at *
  omega

theorem parseBounds_single (ha : a < slotCount) : parseBounds (u64ToStr a) = some (a, a) := by
  have hall : ∀ c ∈ u64ToStr a, (c != 45) = true := fun c hc =>
    bne_iff_ne.mpr fun h => dash_notMem a (h ▸ hc)
  have hread : digitLoop u32Ok 0 (u64ToStr a) = some a := by
    have hle : 0 * 10 ^ (u64ToStr a).length + a ≤ uint32Max := by
      unfold uint32Max slotCount at *
      omega
    rw [digitLoop_u32 hle, Nat.zero_mul, Nat.zero_add]
  rw [parseBounds, List.takeWhile_eq_self_iff.mpr hall, List.dropWhile_eq_nil_iff.mpr hall]
  simp [if_neg (u64ToStr_ne_nil a), hread]

theorem parseBounds_range (ha : a < slotCount) (hb : b < slotCount) :
    parseBounds (u64ToStr a ++ 45 :: u64ToStr b) = some (a, a * 10 ^ (u64ToStr b).length + b) := by
  have hread : digitLoop u32Ok 0 (u64ToStr a) = some a := by
    have hle : 0 * 10 ^ (u64ToStr a).length + a ≤ uint32Max := by
      unfold uint32Max slotCount at *
      omega
    rw [digitLoop_u32 hle, Nat.zero_mul, Nat.zero_add]
  have hok : ¬ ((u64ToStr b).contains 45 = true ∨ u64ToStr a = [] ∨ u64ToStr b = []) := by
    rintro (h | h | h)
    · exact dash_notMem b (List.contains_iff_mem.mp h)
    · exact u64ToStr_ne_nil a h
    · exact u64ToStr_ne_nil b h
  obtain ⟨hlow, hhigh⟩ := split_at_mark (u64ToStr b) (dash_notMem a)
  rw [parseBounds, hlow, hhigh]
  simp only [if_neg hok, hread, digitLoop_u32 (readEnd_lt ha hb), Option.bind_eq_bind,
    Option.bind_some, Option.pure_def]

theorem parseItem_range (hab : a ≤ b) (hb : b < slotCount) :
    parseItem bm (u64ToStr a ++ 45 :: u64ToStr b)
      = setRange bm a (min (a * 10 ^ (u64ToStr b).length + b) (slotCount - 1)) := by
  have ha : a < slotCount := lt_of_le_of_lt hab hb
  have hok : ¬ (slotCount ≤ a ∨ a * 10 ^ (u64ToStr b).length + b < a) := by
    rintro (h | h)
    · omega
    · exact absurd h (Nat.not_lt.mpr (hab.trans (Nat.le_add_left b _)))
  rw [parseItem, parseBounds_range ha hb]
  simp only [if_neg hok]

theorem parseItem_rangeText (hab : a ≤ b) (hb : b < slotCount) :
    parseItem bm (rangeText a b) = setRange bm a (readEnd a b) := by
  unfold rangeText readEnd
  by_cases heq : a = b
  · subst heq
    have hok : ¬ (slotCount ≤ a ∨ a < a) := by omega
    have hmin : min a (slotCount - 1) = a := by omega
    rw [if_pos rfl, if_pos rfl, parseItem, parseBounds_single hb]
    simp only [if_neg hok, hmin]
  · rw [if_neg heq, if_neg heq, parseItem_range bm hab hb]

theorem isWord_of_digits {t : Bytes} (hne : t ≠ [])
    (h : ∀ c ∈ t, 48 ≤ c ∧ c ≤ 57 ∨ c = 45) : IsWord isBlank t := by
  refine ⟨hne, fun c hc => ?_⟩
  rcases h c hc with ⟨hlo, -⟩ | rfl
  · have hne : ∀ d, d < 48 → c ≠ d := by
      rintro d hd rfl
      exact absurd (UInt8.lt_of_le_of_lt hlo hd) (UInt8.lt_irrefl 48)
    simp [isBlank, hne 32 (by decide), hne 9 (by decide), hne 13 (by decide), hne 10 (by decide)]
  · rfl

def rangeItem (a b : Nat) : Bytes := u64ToStr a ++ 45 :: u64ToStr b

theorem rangeItem_isWord (a b : Nat) : IsWord isBlank (rangeItem a b) := by
  refine isWord_of_digits (by simp [rangeItem]) fun c hc => ?_
  rcases List.mem_append.mp hc with hc | hc
  · exact .inl (digits_u64ToStr hc)
  rcases List.mem_cons.mp hc with rfl | hc
  · exact .inr rfl
  · exact .inl (digits_u64ToStr hc)

theorem rangeText_isWord (a b : Nat) : IsWord isBlank (rangeText a b) := by
  unfold rangeText
  split_ifs
  · exact isWord_of_digits (u64ToStr_ne_nil a) fun c hc => .inl (digits_u64ToStr hc)
  · exact rangeItem_isWord a b

theorem words_itemsText (rs : List (Nat × Nat)) :
    words isBlank (itemsText rs) = rs.map fun r => rangeText r.1 r.2 := by
  cases rs with
  | nil => rfl
  | cons r rs =>
    have hpieces : (rs.flatMap fun r => 32 :: rangeText r.1 r.2)
        = (rs.map fun r => rangeText r.1 r.2).flatMap fun t => 32 :: t := by
      rw [List.flatMap_map]
    rw [itemsText, hpieces, words_pieces rfl (rangeText_isWord r.1 r.2)
      fun t ht => by
        obtain ⟨x, -, rfl⟩ := List.mem_map.mp ht
        exact rangeText_isWord x.1 x.2]
    rfl

theorem get_foldl_parseItem (h : ∀ r ∈ rs, r.1 ≤ r.2 ∧ r.2 < slotCount) (bm : Bitmap) (s : Nat) :
    clusterSlotsGet ((rs.map fun r => rangeText r.1 r.2).foldl parseItem bm) s = true ↔
      clusterSlotsGet bm s = true ∨ ∃ r ∈ rs, r.1 ≤ s ∧ s ≤ readEnd r.1 r.2 := by
  induction rs generalizing bm with
  | nil => simp
  | cons r rs ih =>
    obtain ⟨hle, hlt⟩ := h r List.mem_cons_self
    have hend : readEnd r.1 r.2 < slotCount := by
      unfold readEnd
      split_ifs
      · exact hlt
      · exact lt_of_le_of_lt (Nat.min_le_right _ _) (by decide)
    have hrange : (r.1 ≤ s ∧ s ≤ readEnd r.1 r.2 ∧ s < slotCount) ↔
        r.1 ≤ s ∧ s ≤ readEnd r.1 r.2 := by omega
    rw [List.map_cons, List.foldl_cons, ih (fun x hx => h x (List.mem_cons_of_mem _ hx)),
      parseItem_rangeText bm hle hlt, get_setRange, Bool.or_eq_true, decide_eq_true_iff, hrange,
      List.exists_mem_cons_iff, or_assoc]

theorem get_parse_itemsText (h : ∀ r ∈ rs, r.1 ≤ r.2 ∧ r.2 < slotCount) (s : Nat) :
    clusterSlotsGet (clusterSlotsParse (itemsText rs)) s = true ↔
      ∃ r ∈ rs, r.1 ≤ s ∧ s ≤ readEnd r.1 r.2 := by
  rw [clusterSlotsParse, words_itemsText, get_foldl_parseItem h]
  simp

theorem le_readEnd (hb : b < slotCount) : b ≤ readEnd a b := by
  unfold readEnd at *
  split_ifs
  · exact Nat.le_refl b
  · exact le_min (Nat.le_add_left b _) (by omega)

/-- Reading on from a lower bound other than zero goes past the upper bound. -/
theorem read_range_iff (hb : b < slotCount) :
    min (a * 10 ^ (u64ToStr b).length + b) (slotCount - 1) = b ↔ a = 0 ∨ b = slotCount - 1 := by
  have hpow : 0 < 10 ^ (u64ToStr b).length := Nat.pow_pos (by decide)
  by_cases ha : a = 0
  · subst ha
    omega
  · have hpos : 0 < a * 10 ^ (u64ToStr b).length := Nat.mul_pos (Nat.pos_of_ne_zero ha) hpow
    omega

theorem readEnd_eq_iff (hb : b < slotCount) :
    readEnd a b = b ↔ a = b ∨ a = 0 ∨ b = slotCount - 1 := by
  unfold readEnd
  by_cases heq : a = b
  · simp [heq]
  · rw [if_neg heq, read_range_iff hb]
    simp [heq]

/-! ## The round trip -/

/-- Every run of two slots or more begins at the first slot or ends at the last. -/
def EdgeRuns (bm : Bitmap) : Prop :=
  ∀ a b, IsRun (clusterSlotsGet bm) slotCount a b → a < b → a = 0 ∨ b = slotCount - 1

theorem runs_bounds : ∀ r ∈ runs (clusterSlotsGet bm) slotCount, r.1 ≤ r.2 ∧ r.2 < slotCount := by
  rintro ⟨a, b⟩ hr
  have hrun := mem_runs_iff.mp hr
  exact ⟨hrun.le, hrun.lt⟩

theorem get_parse_slotText {bm : Bitmap} (h : clusterSlotsGet bm s = true) :
    clusterSlotsGet (clusterSlotsParse (slotText bm)) s = true := by
  have hs : s < slotCount := by
    by_contra hge
    rw [clusterSlotsGet_ge bm (Nat.le_of_not_lt hge)] at h
    cases h
  obtain ⟨r, hr, hlo, hhi⟩ := (exists_run_iff hs).mpr h
  rw [slotText, get_parse_itemsText (runs_bounds bm)]
  exact ⟨r, hr, hlo, hhi.trans (le_readEnd (runs_bounds bm r hr).2)⟩

theorem parse_slotText_iff : clusterSlotsParse (slotText bm) = bm ↔ EdgeRuns bm := by
  constructor
  · intro heq a b hrun hlt
    -- otherwise the slot behind the run is read as one of it
    by_contra hedge
    have hlast : b + 1 < slotCount := by
      have := hrun.lt
      omega
    have hpast : b + 1 ≤ readEnd a b := by
      have hle := le_readEnd (a := a) hrun.lt
      have hne : readEnd a b ≠ b := fun h => by
        rcases (readEnd_eq_iff hrun.lt).mp h with h | h
        · omega
        · exact hedge h
      omega
    have hread : clusterSlotsGet bm (b + 1) = true := by
      rw [← heq, slotText, get_parse_itemsText (runs_bounds bm)]
      exact ⟨(a, b), mem_runs_iff.mpr hrun, hrun.le.trans (Nat.le_succ b), hpast⟩
    rw [hrun.right hlast] at hread
    cases hread
  · intro hedge
    refine bitmap_ext fun s => Bool.eq_iff_iff.mpr ⟨fun hs => ?_, get_parse_slotText⟩
    rw [slotText, get_parse_itemsText (runs_bounds bm)] at hs
    obtain ⟨⟨a, b⟩, hr, hlo, hhi⟩ := hs
    have hrun := mem_runs_iff.mp hr
    have hend : readEnd a b = b := by
      refine (readEnd_eq_iff hrun.lt).mpr ?_
      rcases Nat.lt_or_eq_of_le hrun.le with hlt | heq
      · exact .inr (hedge a b hrun hlt)
      · exact .inl heq
    rw [hend] at hhi
    exact hrun.inside s hlo hhi

/-- What reads back as the bitmap has every run in it: none of them was cut off. -/
theorem take_runs_of_parse {bm : Bitmap} {k : Nat}
    (h : clusterSlotsParse (itemsText ((runs (clusterSlotsGet bm) slotCount).take k)) = bm) :
    (runs (clusterSlotsGet bm) slotCount).take k = runs (clusterSlotsGet bm) slotCount := by
  have hbounds : ∀ r ∈ (runs (clusterSlotsGet bm) slotCount).take k, r.1 ≤ r.2 ∧ r.2 < slotCount :=
    fun r hr => runs_bounds bm r (List.mem_of_mem_take hr)
  have hget : ∀ s, clusterSlotsGet bm s = true ↔
      ∃ r ∈ (runs (clusterSlotsGet bm) slotCount).take k, r.1 ≤ s ∧ s ≤ readEnd r.1 r.2 := by
    intro s
    rw [← get_parse_itemsText hbounds, h]
  by_contra hcut
  have hk : k < (runs (clusterSlotsGet bm) slotCount).length := by
    by_contra hge
    exact hcut (List.take_of_length_le (Nat.le_of_not_lt hge))
  -- the first slot of the first run that is missing was read from a run before it
  obtain ⟨⟨a, b⟩, hab⟩ : ∃ r, (runs (clusterSlotsGet bm) slotCount)[k] = r := ⟨_, rfl⟩
  have hmem : (a, b) ∈ runs (clusterSlotsGet bm) slotCount := hab ▸ List.getElem_mem hk
  have hrun := mem_runs_iff.mp hmem
  obtain ⟨⟨c, d⟩, hr, hlo, hhi⟩ := (hget a).mp (hrun.inside a (Nat.le_refl a) hrun.le)
  have hrun' := mem_runs_iff.mp (List.mem_of_mem_take hr)
  have had : a ≤ d := by
    by_contra hlt
    have hoff := hrun'.right (lt_of_le_of_lt (Nat.lt_of_not_le hlt) (lt_of_le_of_lt hrun.le hrun.lt))
    have hon := (hget (d + 1)).mpr
      ⟨(c, d), hr, hrun'.le.trans (Nat.le_succ d), le_trans (Nat.lt_of_not_le hlt) hhi⟩
    rw [hoff] at hon
    cases hon
  obtain ⟨rfl, rfl⟩ := hrun.unique hrun' ⟨Nat.le_refl a, hrun.le⟩ ⟨hlo, had⟩
  obtain ⟨j, hj, hjk⟩ := List.mem_take_iff_getElem.mp hr
  have hidx : j = k := (List.Nodup.getElem_inj_iff runs_nodup).mp (hjk.trans hab.symm)
  omega

/-- The rendering into a buffer is read back exactly when it fits and no range is misread. -/
theorem parse_render_iff (hcap : cap ≠ 0) :
    (clusterSlotsRender bm cap).map clusterSlotsParse = some bm ↔
      (slotText bm).length < cap ∧ EdgeRuns bm := by
  constructor
  · intro h
    obtain ⟨k, hk, -⟩ := clusterSlotsRender_eq bm hcap
    have hlen := clusterSlotsRender_length hk
    rw [hk, Option.map_some, Option.some_inj] at h
    have hall := take_runs_of_parse h
    rw [hall] at h hlen
    exact ⟨hlen, (parse_slotText_iff bm).mp h⟩
  · rintro ⟨hfits, hedge⟩
    rw [clusterSlotsRender_of_fits hfits, Option.map_some, (parse_slotText_iff bm).mpr hedge]

/-- The text of slots in a line of `nodes.conf` or in a gossip entry, cut to 255 bytes. -/
def lineSlots (bm : Bitmap) : Bytes := (clusterSlotsRender bm 256).getD []

theorem clusterSlotsRender_line : clusterSlotsRender bm 256 = some (lineSlots bm) := by
  obtain ⟨k, hk, -⟩ := clusterSlotsRender_eq bm (by decide : 256 ≠ 0)
  rw [lineSlots, hk, Option.getD_some]

theorem lineSlots_length : (lineSlots bm).length < 256 :=
  clusterSlotsRender_length (clusterSlotsRender_line bm)

theorem lineSlots_items : ∃ rs, lineSlots bm = itemsText rs := by
  obtain ⟨k, hk, -⟩ := clusterSlotsRender_eq bm (by decide : 256 ≠ 0)
  exact ⟨_, Option.some.inj ((clusterSlotsRender_line bm).symm.trans hk)⟩

def ReadsRange (a b : Nat) : Prop :=
  ∀ s, clusterSlotsGet (clusterSlotsParse (rangeItem a b)) s = true ↔ a ≤ s ∧ s ≤ b

theorem get_parse_rangeItem (hab : a ≤ b) (hb : b < slotCount) (s : Nat) :
    clusterSlotsGet (clusterSlotsParse (rangeItem a b)) s = true ↔
      a ≤ s ∧ s ≤ min (a * 10 ^ (u64ToStr b).length + b) (slotCount - 1) := by
  have hitem : parseItem 0 (rangeItem a b)
      = setRange 0 a (min (a * 10 ^ (u64ToStr b).length + b) (slotCount - 1)) :=
    parseItem_range 0 hab hb
  rw [clusterSlotsParse, words_single (rangeItem_isWord a b), List.foldl_cons, List.foldl_nil, hitem,
    get_setRange]
  simp only [BitVec.ofNat_eq_ofNat, clusterSlotsGet_zero, Bool.false_or, decide_eq_true_iff]
  omega

theorem readsRange_iff (hab : a ≤ b) (hb : b < slotCount) :
    ReadsRange a b ↔ a = 0 ∨ b = slotCount - 1 := by
  have hread := get_parse_rangeItem hab hb
  have hiff := read_range_iff (a := a) hb
  have hle : b ≤ min (a * 10 ^ (u64ToStr b).length + b) (slotCount - 1) :=
    le_min (Nat.le_add_left b _) (by omega)
  generalize min (a * 10 ^ (u64ToStr b).length + b) (slotCount - 1) = last at hread hiff hle
  rw [← hiff]
  constructor
  · intro h
    have hlast := (h last).mp ((hread last).mpr ⟨hab.trans hle, Nat.le_refl _⟩)
    exact Nat.le_antisymm hlast.2 hle
  · rintro rfl
    exact hread

/-- The text of a bitmap, in a buffer with room for it, is read back as the bitmap exactly if its
longer runs lie at an edge, and a range is read as itself exactly if it does. -/
theorem slot_text_round_trip_iff (bm : Bitmap) (cap a b : Nat) :
    ((slotText bm).length < cap →
      ((clusterSlotsRender bm cap).map clusterSlotsParse = some bm ↔ EdgeRuns bm)) ∧
    (a ≤ b → b < slotCount → (ReadsRange a b ↔ a = 0 ∨ b = slotCount - 1)) := by
  refine ⟨fun hcap => ?_, readsRange_iff⟩
  rw [clusterSlotsRender_of_fits hcap, Option.map_some, Option.some_inj]
  exact parse_slotText_iff bm

theorem runs_empty : runs (clusterSlotsGet 0#16384) slotCount = [] := by
  refine List.eq_nil_iff_forall_not_mem.mpr fun r hr => ?_
  have hrun := mem_runs_iff.mp hr
  have hon := hrun.inside r.1 (Nat.le_refl _) hrun.le
  rw [clusterSlotsGet_zero] at hon
  cases hon

theorem slotText_empty : slotText 0#16384 = [] := by
  rw [slotText, runs_empty]
  rfl

theorem slot_text_round_trip_empty :
    (clusterSlotsRender 0#16384 1).map clusterSlotsParse = some 0#16384 ∧ ReadsRange 0 5 := by
  have hfits : (slotText 0#16384).length < 1 := by
    rw [slotText_empty]
    decide
  have hedge : EdgeRuns 0#16384 := (parse_slotText_iff _).mp (by rw [slotText_empty]; rfl)
  obtain ⟨htext, hrange⟩ := slot_text_round_trip_iff 0#16384 1 0 5
  exact ⟨(htext hfits).mpr hedge, (hrange (by decide) (by decide)).mpr (.inl rfl)⟩

/-- `3-5` is read as the slots 3 to 35. -/
theorem three_to_five_widened :
    ¬ ((∀ bm cap, (slotText bm).length < cap →
        (clusterSlotsRender bm cap).map clusterSlotsParse = some bm) ∧
      ∀ a b, a ≤ b → b < slotCount → ReadsRange a b) := by
  intro h
  have hread := h.2 3 5 (by decide) (by decide)
  rcases (readsRange_iff (by decide) (by decide)).mp hread with h | h
  · cases h
  · exact absurd h (by decide)

/-! ## The slots 3 to 5 -/

theorem get_three_five (s : Nat) : clusterSlotsGet (setRange 0 3 5) s = decide (3 ≤ s ∧ s ≤ 5) := by
  have hrange : (3 ≤ s ∧ s ≤ 5 ∧ s < slotCount) ↔ 3 ≤ s ∧ s ≤ 5 := by
    unfold slotCount
    omega
  rw [get_setRange, show 0 = 0#16384 from rfl, clusterSlotsGet_zero, Bool.false_or,
    decide_eq_decide]
  exact hrange

theorem isRun_three_five : IsRun (clusterSlotsGet (setRange 0 3 5)) slotCount 3 5 := by
  refine ⟨by decide, by decide, fun s hlo hhi => ?_, fun s hs => ?_, fun _ => ?_⟩
  · rw [get_three_five, decide_eq_true_iff]
    exact ⟨hlo, hhi⟩
  · obtain rfl : s = 2 := by omega
    rw [get_three_five]
    decide
  · rw [get_three_five]
    decide

theorem not_edgeRuns_three_five : ¬ EdgeRuns (setRange 0 3 5) := by
  intro h
  rcases h 3 5 isRun_three_five (by decide) with h | h
  · cases h
  · exact absurd h (by decide)

theorem runs_three_five : runs (clusterSlotsGet (setRange 0 3 5)) slotCount = [(3, 5)] := by
  have hall : ∀ r ∈ runs (clusterSlotsGet (setRange 0 3 5)) slotCount, r = (3, 5) := by
    rintro ⟨a, b⟩ hr
    have hrun := mem_runs_iff.mp hr
    have hin := hrun.inside a (Nat.le_refl a) hrun.le
    rw [get_three_five, decide_eq_true_iff] at hin
    obtain ⟨rfl, rfl⟩ := hrun.unique isRun_three_five ⟨Nat.le_refl a, hrun.le⟩ hin
    rfl
  have hcopies := List.eq_replicate_of_mem hall
  have hone : (runs (clusterSlotsGet (setRange 0 3 5)) slotCount).length ≤ 1 :=
    List.nodup_replicate.mp (hcopies ▸ runs_nodup)
  have hpos := List.length_pos_of_mem (mem_runs_iff.mpr isRun_three_five)
  rw [hcopies, Nat.le_antisymm hone hpos]
  rfl

theorem get_reread_three_five : clusterSlotsGet (clusterSlotsParse (lineSlots (setRange 0 3 5))) 6 = true := by
  have htext : slotText (setRange 0 3 5) = itemsText [(3, 5)] := by rw [slotText, runs_three_five]
  have hline : lineSlots (setRange 0 3 5) = itemsText [(3, 5)] := by
    rw [lineSlots, clusterSlotsRender_of_fits (by rw [htext]; decide), htext, Option.getD_some]
  rw [hline, get_parse_itemsText (by decide)]
  exact ⟨(3, 5), List.mem_singleton.mpr rfl, by decide, by decide⟩

end Ddup.Cluster
