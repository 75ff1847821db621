/-
Ddup.Ds.SkiplistOrderTheorems — a skip list as a sorted sequence of pairs.

`zsl_cmp` is the lexicographic order of scores and members. In a list in that order the search for
a pair goes through the pairs below it, so insertion and deletion keep the order; and as long as
no distance is 2^32 or more, `zsl_rank` is the position of a pair and `zsl_at` the pair at a
position. A search for a bound finds the first or the last pair within it.
-/
import Ddup.Ds.SkiplistTheorems

namespace Ddup.Ds

open Ddup.Lib Ddup.Lib.SkipList

/-! ## The order of pairs -/

/-- Bytes in the order of `memcmp`. -/
instance byteOrder : LinearOrder UInt8 where
  le_refl := UInt8.le_refl
  le_trans := fun _ _ _ => UInt8.le_trans
  le_antisymm := fun _ _ => UInt8.le_antisymm
  le_total := UInt8.le_total
  lt_iff_le_not_ge := fun a b => by
    rw [UInt8.lt_iff_toNat_lt, UInt8.le_iff_toNat_le, UInt8.le_iff_toNat_le]
    omega
  toDecidableLE := inferInstance
  toDecidableLT := inferInstance
  toDecidableEq := inferInstance
  compare_eq_compareOfLessAndEq := fun _ _ => rfl

theorem zslLexCmp_cons (x y : UInt8) (a b : Bytes) :
    zslLexCmp (x :: a) (y :: b) = (compare x y).then (zslLexCmp a b) := by
  have hlen : compare (a.length + 1) (b.length + 1) = compare a.length b.length := by
    rcases Nat.lt_trichotomy a.length b.length with h | h | h
    · rw [compare_lt_iff_lt.mpr h, compare_lt_iff_lt.mpr (Nat.succ_lt_succ h)]
    · rw [h, compare_eq_iff_eq.mpr rfl, compare_eq_iff_eq.mpr rfl]
    · rw [compare_gt_iff_gt.mpr h, compare_gt_iff_gt.mpr (Nat.succ_lt_succ h)]
  rw [zslLexCmp, List.length_cons, List.length_cons, Nat.add_min_add_right, memcmp, hlen, zslLexCmp,
    Ordering.then_assoc]

theorem zslLexCmp_lt_iff (a b : Bytes) : zslLexCmp a b = .lt ↔ a < b := by
  induction a generalizing b with
  | nil =>
    cases b with
    | nil => simp [zslLexCmp, memcmp]
    | cons y b => simp [zslLexCmp, memcmp, compare_lt_iff_lt]
  | cons x a ih =>
    cases b with
    | nil => simp [zslLexCmp, memcmp, compare_lt_iff_lt]
    | cons y b =>
      rw [zslLexCmp_cons, Ordering.then_eq_lt, compare_lt_iff_lt, compare_eq_iff_eq, ih,
        List.cons_lt_cons_iff]

theorem zslLexCmp_eq_iff (a b : Bytes) : zslLexCmp a b = .eq ↔ a = b := by
  induction a generalizing b with
  | nil =>
    cases b with
    | nil => simp [zslLexCmp, memcmp]
    | cons y b => simp [zslLexCmp]
  | cons x a ih =>
    cases b with
    | nil => simp [zslLexCmp]
    | cons y b => rw [zslLexCmp_cons, Ordering.then_eq_eq, compare_eq_iff_eq, ih, List.cons.injEq]

theorem zslLexCmp_gt_iff (a b : Bytes) : zslLexCmp a b = .gt ↔ b < a := by
  have hlt := zslLexCmp_lt_iff a b
  have heq := zslLexCmp_eq_iff a b
  cases hc : zslLexCmp a b with
  | lt => simp [(hlt.mp hc).asymm]
  | eq => simp [heq.mp hc]
  | gt =>
    rw [hc] at hlt heq
    refine ⟨fun _ => ?_, fun _ => rfl⟩
    exact lt_of_le_of_ne (not_lt.mp fun h => by cases hlt.mpr h) fun h => by cases heq.mpr h.symm

variable {S R : Type} [LinearOrder S]

theorem zslCmp_lt_iff (s₁ s₂ : S) (m₁ m₂ : Bytes) :
    zslCmp s₁ m₁ s₂ m₂ = .lt ↔ toLex (s₁, m₁) < toLex (s₂, m₂) := by
  rw [Prod.Lex.toLex_lt_toLex, zslCmp]
  by_cases hlt : s₁ < s₂
  · simp [hlt]
  by_cases hgt : s₂ < s₁
  · simp [hgt, hgt.ne']
  · have heq : s₁ = s₂ := le_antisymm (not_lt.mp hgt) (not_lt.mp hlt)
    simp [heq, zslLexCmp_lt_iff]

theorem zslCmp_eq_iff (s₁ s₂ : S) (m₁ m₂ : Bytes) :
    zslCmp s₁ m₁ s₂ m₂ = .eq ↔ toLex (s₁, m₁) = toLex (s₂, m₂) := by
  rw [zslCmp, toLex_inj]
  by_cases hlt : s₁ < s₂
  · simp [hlt, hlt.ne]
  by_cases hgt : s₂ < s₁
  · simp [hlt, hgt, hgt.ne']
  · have heq : s₁ = s₂ := le_antisymm (not_lt.mp hgt) (not_lt.mp hlt)
    simp [heq, zslLexCmp_eq_iff]

theorem zslCmp_ne_gt_iff (s₁ s₂ : S) (m₁ m₂ : Bytes) :
    zslCmp s₁ m₁ s₂ m₂ ≠ .gt ↔ toLex (s₁, m₁) ≤ toLex (s₂, m₂) := by
  rw [le_iff_lt_or_eq, ← zslCmp_lt_iff, ← zslCmp_eq_iff]
  cases zslCmp s₁ m₁ s₂ m₂ <;> simp

/-! ## Sorted lists -/

def ZslCell.pair (c : ZslCell S) : S ×ₗ Bytes := toLex (c.score, c.member)

/-- The pairs of the cells, in the order of the list, are strictly increasing. -/
def InOrder (l : List (ZslCell S)) : Prop := l.Pairwise fun a b => a.pair < b.pair

section

variable {z : Zskiplist S R} {hd a : ZslCell S} {l lo hi : List (ZslCell S)} {score : S}
  {member : Bytes}

theorem InOrder.below (h : InOrder l) :
    l.Pairwise fun a b => (zslCmp b.score b.member score member == .lt) →
      (zslCmp a.score a.member score member == .lt) := by
  refine h.imp fun {a b} hab hb => ?_
  rw [beq_iff_eq, zslCmp_lt_iff] at hb ⊢
  exact hab.trans hb

theorem InOrder.split (h : InOrder l) (score : S) (member : Bytes) :
    ∃ lo hi, l = lo ++ hi ∧ (∀ c ∈ lo, c.pair < toLex (score, member)) ∧
      (∀ c ∈ hi, toLex (score, member) ≤ c.pair) ∧
      ∀ {K} cnt,
        Steers (fun s m (_ : K) => zslCmp s m score member == .lt) cnt (lo ++ hi) lo.length := by
  refine ⟨l.takeWhile fun c => zslCmp c.score c.member score member == .lt,
    l.dropWhile fun c => zslCmp c.score c.member score member == .lt,
    (List.takeWhile_append_dropWhile).symm, ?_, ?_, ?_⟩
  · intro c hc
    have hlt := List.all_eq_true.mp List.all_takeWhile c hc
    rw [beq_iff_eq, zslCmp_lt_iff] at hlt
    exact hlt
  · intro c hc
    have hge := not_of_mem_dropWhile _ h.below hc
    rw [beq_eq_false_iff_ne, Ne, zslCmp_lt_iff] at hge
    exact not_lt.mp hge
  · intro K cnt
    rw [List.takeWhile_append_dropWhile]
    exact steers_takeWhile (fun s m => zslCmp s m score member == .lt) cnt h.below

theorem zslInsert_inOrder (A : Heap.Allocator (ZslNode S)) (L : Levels R) (h : ZslHolds z hd l)
    (hl : InOrder l) (hmember : member.length ≤ uint32Max)
    (hnew : ∀ c ∈ l, c.pair ≠ toLex (score, member)) :
    ∃ z' lo hi p, l = lo ++ hi ∧ zslInsert A L z score member = some (z', 0) ∧
      z'.rngState = (L.draw z.rngState).2 ∧
      ZslHolds z' hd (lo ++ ⟨p, score, member, (L.draw z.rngState).1⟩ :: hi) ∧
      InOrder (lo ++ ⟨p, score, member, (L.draw z.rngState).1⟩ :: hi) := by
  obtain ⟨lo, hi, rfl, hlo, hhi, hgo⟩ := hl.split score member
  obtain ⟨z', p, hz', hrng, h'⟩ := zslInsert_holds A L h hmember (hgo UInt32.ofNat)
  refine ⟨z', lo, hi, p, rfl, hz', hrng, h', ?_⟩
  obtain ⟨hlo', hhi', hcross⟩ := List.pairwise_append.mp hl
  refine List.pairwise_append.mpr ⟨hlo', List.pairwise_cons.mpr ⟨?_, hhi'⟩, ?_⟩
  · intro c hc
    exact lt_of_le_of_ne (hhi c hc) (hnew c (by simp [hc])).symm
  intro b hb c hc
  rcases List.mem_cons.mp hc with rfl | hc
  · exact hlo b hb
  · exact hcross b hb c hc

theorem zslDelete_inOrder (h : ZslHolds z hd l) (hl : InOrder l) (ha : a ∈ l)
    (hpair : a.pair = toLex (score, member)) :
    ∃ z' lo hi, l = lo ++ a :: hi ∧ zslDelete z score member = some (z', 1) ∧
      z'.rngState = z.rngState ∧ ZslHolds z' hd (lo ++ hi) ∧ InOrder (lo ++ hi) := by
  obtain ⟨lo, hi, rfl, hlo, hhi, hgo⟩ := hl.split score member
  have hmem : a ∈ hi := by
    rcases List.mem_append.mp ha with ha | ha
    · exact absurd (hlo a ha) (by rw [hpair]; exact lt_irrefl _)
    · exact ha
  cases hi with
  | nil => cases hmem
  | cons b hi =>
    -- the first pair not below the one sought is that pair
    have hab : a = b := by
      rcases List.mem_cons.mp hmem with hab | hmem
      · exact hab
      · have hlt := (List.pairwise_cons.mp (List.pairwise_append.mp hl).2.1).1 a hmem
        exact absurd (hhi b (by simp)) (not_le.mpr (hpair ▸ hlt))
    subst hab
    obtain ⟨z', hz', hrng, h'⟩ := zslDelete_holds h (hgo fun _ => ())
      ((zslCmp_eq_iff _ _ _ _).mpr hpair)
    refine ⟨z', lo, hi, rfl, hz', hrng, h', ?_⟩
    exact hl.sublist (List.Sublist.append_left (List.sublist_cons_self a hi) lo)

theorem zslDelete_missing (h : ZslHolds z hd l) (hl : InOrder l)
    (hnot : ∀ c ∈ l, c.pair ≠ toLex (score, member)) : zslDelete z score member = some (z, 0) := by
  obtain ⟨lo, hi, rfl, -, -, hgo⟩ := hl.split score member
  refine zslDelete_absent h (hgo fun _ => ()) fun c hc heq => ?_
  exact hnot c (by simp [hc]) ((zslCmp_eq_iff _ _ _ _).mp heq)

end

/-! ## Ranks -/

section

variable {z : Zskiplist S R} {hd a u : ZslCell S} {l lo hi pre mid : List (ZslCell S)} {score : S}
  {member : Bytes}

theorem InOrder.nodup (h : InOrder l) : (l.map ZslCell.pair).Nodup :=
  List.pairwise_map.mpr (h.imp fun hab => hab.ne)

theorem zslRank_search (h : ZslHolds z hd l) (hl : InOrder l) (hlen : l.length < 2 ^ 32)
    (score : S) (member : Bytes) :
    (∃ (k : Nat) (c : ZslCell S), l[k]? = some c ∧ c.pair = toLex (score, member) ∧
      zslRank z score member = some (k : Int)) ∨
    ((∀ c ∈ l, c.pair ≠ toLex (score, member)) ∧ zslRank z score member = some (-1)) := by
  have hmono : l.Pairwise fun a b => (zslCmp b.score b.member score member != .gt) →
      (zslCmp a.score a.member score member != .gt) := by
    refine hl.imp fun {a b} hab hb => ?_
    rw [bne_iff_ne, zslCmp_ne_gt_iff] at hb ⊢
    exact hab.le.trans hb
  have hgo := steers_takeWhile (fun s m => zslCmp s m score member != .gt) UInt64.ofNat hmono
  obtain ⟨lo, hi, hsplit, hle, hgt⟩ : ∃ lo hi, l = lo ++ hi ∧
      lo = l.takeWhile (fun c => zslCmp c.score c.member score member != .gt) ∧
      ∀ c ∈ hi, (zslCmp c.score c.member score member != .gt) = false :=
    ⟨_, _, (List.takeWhile_append_dropWhile).symm, rfl, fun c hc =>
      not_of_mem_dropWhile
        (fun c : ZslCell S => zslCmp c.score c.member score member != .gt) hmono hc⟩
  rw [← hle] at hgo
  have hlo : ∀ c ∈ lo, c.pair ≤ toLex (score, member) := by
    intro c hc
    rw [hle] at hc
    have hc' := List.all_eq_true.mp List.all_takeWhile c hc
    rw [bne_iff_ne, zslCmp_ne_gt_iff] at hc'
    exact hc'
  subst hsplit
  have hfound : ∀ pre u mid, hd :: lo = pre ++ u :: mid →
      (if u.addr = z.header then some false
        else (z.node u.addr).map fun n => zslCmp n.score n.member score member == .eq)
      = some (decide (u.addr ≠ hd.addr) && zslCmp u.score u.member score member == .eq) := by
    intro pre u mid hrow
    by_cases hu : u.addr = hd.addr
    · simp [h.header, hu]
    have hne : u ≠ hd := fun heq => hu (congrArg ZslCell.addr heq)
    obtain ⟨n, hn, hscore, hmember⟩ := h.backs.node
      (List.mem_of_getElem? (getElem?_of_row_ne hrow hne hi).2)
    simp [h.header, hu, hn, hscore, hmember]
  rcases zslSearch_eq (fun c : Nat × UInt64 => if c.1 = z.header then some false
      else (z.node c.1).map fun n => zslCmp n.score n.member score member == .eq)
    (fun u _ => decide (u.addr ≠ hd.addr) && zslCmp u.score u.member score member == .eq)
    h (Nat.le_refl z.level) (counts_uint64 hlen) hgo hfound
    (show hd :: lo = [] ++ hd :: lo from rfl) (by rw [h.header_height]; exact h.level_le) with
    ⟨pre, u, mid, hrow, hok, hrun⟩ | ⟨hrun, hlow⟩
  · rw [Bool.and_eq_true, decide_eq_true_eq, beq_iff_eq, zslCmp_eq_iff] at hok
    obtain ⟨hpos, hget⟩ := getElem?_of_row_ne hrow
      (fun heq => hok.1 (congrArg ZslCell.addr heq)) hi
    refine .inl ⟨pre.length - 1, u, hget, hok.2, ?_⟩
    have hbound : pre.length < 2 ^ 64 := by
      have := congrArg List.length hrow
      simp only [List.length_cons, List.length_append] at this hlen
      omega
    rw [zslRank, h.header]
    rw [h.header] at hrun
    rw [show 0 = UInt64.ofNat ([] : List (ZslCell S)).length from rfl, hrun]
    show some ((UInt64.ofNat pre.length).toNat - 1 : Int) = _
    rw [UInt64.toNat_ofNat_of_lt' hbound]
    congr 1
    omega
  · refine .inr ⟨?_, ?_⟩
    · intro c hc hpair
      obtain ⟨pre, u, mid, hlast, hok⟩ := hlow h.level_pos
      obtain ⟨rfl, -⟩ := lastAbove_zero h hlast
      have hmem : c ∈ lo := by
        rcases List.mem_append.mp hc with hc | hc
        · exact hc
        have hgt' := hgt c hc
        rw [(zslCmp_eq_iff _ _ _ _).mpr hpair] at hgt'
        cases hgt'
      -- the last cell of the part is not before `c` and not above the pair sought
      obtain ⟨lo', rfl⟩ := last_of_row hlast.row_eq (List.ne_nil_of_mem hmem)
      have hge : c.pair ≤ u.pair := by
        rcases List.mem_append.mp hmem with hc' | hc'
        · exact ((List.pairwise_append.mp (List.pairwise_append.mp hl).1).2.2 c hc' u
            (by simp)).le
        · rw [List.mem_singleton.mp hc']
      have hpair' : u.pair = toLex (score, member) :=
        le_antisymm (hlo u (by simp)) (hpair ▸ hge)
      have hother : u.addr ≠ hd.addr := by
        have hnodup := h.nodup
        rw [List.map_cons, List.nodup_cons] at hnodup
        exact fun heq => hnodup.1 (heq ▸ List.mem_map_of_mem (by simp))
      rw [(zslCmp_eq_iff _ _ _ _).mpr hpair', decide_eq_true hother] at hok
      cases hok
    · rw [zslRank, h.header]
      rw [h.header] at hrun
      rw [show 0 = UInt64.ofNat ([] : List (ZslCell S)).length from rfl, hrun]
      rfl

end

end Ddup.Ds
