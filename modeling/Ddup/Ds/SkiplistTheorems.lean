/-
Ddup.Ds.SkiplistTheorems — inserting into a skip list and deleting from it.

A search for a pair goes through some part of the list and ends, on each level, where a node with
that pair is linked. Insertion then puts a cell there and deletion takes it out
(`zslInsert_holds`, `zslDelete_holds`), whatever level is drawn: the new levels of the header, the
links of every level, the pointers back and the tail.
-/
import Ddup.Ds.SkiplistLevelTheorems

namespace Ddup.Ds

open Ddup.Lib Ddup.Lib.SkipList
open List (cons_append length_append)
open Option (bind_eq_bind bind_some or_none)

variable {S R K : Type} {n p q : Nat}

/-! ## Insertion -/

section

variable {z z' : Zskiplist S R} {hd a u : ZslCell S} {l lo hi pre mid : List (ZslCell S)}

theorem ZslHolds.setRng (h : ZslHolds z hd l) (r : R) : ZslHolds { z with rngState := r } hd l :=
  ⟨h.nodup, h.header, h.header_data, h.header_height, h.backs.congr fun _ _ => rfl, h.height_pos,
    h.height_le, h.level_pos, h.level_le, h.links, h.above, h.tail, h.length⟩

theorem zslRaise_fold {k : Nat}
    (h : ∀ j, k ≤ j → j < k + n → ∃ s, z.link z.header j = some ⟨none, s⟩) :
    ∃ z', (List.range' k n).foldlM (fun (z' : Zskiplist S R) i => do
        let l ← z'.link z'.header i
        z'.setLink z'.header i { l with span := UInt32.ofNat z'.length }) z = some z' ∧
      z.Keeps z' ∧
      ∀ q j, z'.link q j = if q = z.header ∧ k ≤ j ∧ j < k + n
        then some ⟨none, UInt32.ofNat z.length⟩ else z.link q j := by
  induction n generalizing z k with
  | zero =>
    refine ⟨z, rfl, .refl z, fun q j => ?_⟩
    rw [if_neg]
    omega
  | succ n ih =>
    obtain ⟨s, hs⟩ := h k (Nat.le_refl k) (by omega)
    obtain ⟨z₁, hz₁, hkeep₁, hlink₁⟩ :=
      Zskiplist.setLink_eq hs ⟨none, UInt32.ofNat z.length⟩
    have hrest := @ih z₁ (k + 1) ?_
    · obtain ⟨z', hz', hkeep, hlink⟩ := hrest
      refine ⟨z', ?_, hkeep₁.trans hkeep, ?_⟩
      · rw [List.range'_succ, List.foldlM_cons, hs]
        simp only [bind_eq_bind, bind_some, hz₁]
        exact hz'
      intro q j
      rw [hlink, hkeep₁.header, hkeep₁.length, hlink₁]
      by_cases hq : q = z.header
      · by_cases hj : j = k
        · rw [if_neg (by omega), if_pos ⟨hq, hj⟩, if_pos (by omega)]
        by_cases hin : k + 1 ≤ j ∧ j < k + 1 + n
        · rw [if_pos ⟨hq, hin⟩, if_pos (by omega)]
        · rw [if_neg (by omega), if_neg (by omega), if_neg (by omega)]
      · rw [if_neg fun heq => hq heq.1, if_neg fun heq => hq heq.1, if_neg fun heq => hq heq.1]
    · intro j hkj hj
      rw [hkeep₁.header, hlink₁, if_neg (by omega)]
      exact h j (by omega) (by omega)

theorem zslRaise_eq {level : Nat} {us : List (Nat × UInt32)} (h : ZslHolds z hd (lo ++ hi))
    (hlevel : level ≤ zslMaxLevel) (hlen : us.length = z.level)
    (hland : Landings UInt32.ofNat (hd :: lo) us) :
    ∃ z' us', zslRaise z level us = some (z', us') ∧ ZslHolds z' hd (lo ++ hi) ∧
      level ≤ z'.level ∧ z'.rngState = z.rngState ∧ us'.length = z'.level ∧
      Landings UInt32.ofNat (hd :: lo) us' := by
  by_cases hup : z.level < level
  · have hlink : ∀ j, z.level ≤ j → j < z.level + (level - z.level) →
        ∃ s, z.link z.header j = some ⟨none, s⟩ := by
      intro j hj hj'
      obtain ⟨k, hk⟩ := Zskiplist.link_of_data h.header_data
        (show j < zslMaxLevel by omega)
      have hnone := h.above j hj k hk
      rw [h.header, hk]
      exact ⟨k.span, by rw [← hnone]⟩
    obtain ⟨z₁, hz₁, hkeep, hlink₁⟩ := zslRaise_fold hlink
    have hshort : ∀ j, z.level ≤ j → ∀ c ∈ lo ++ hi, c.height ≤ j := fun j hj c hc =>
      (h.height_le c hc).trans hj
    refine ⟨{ z₁ with level := level }, us ++ List.replicate (level - z.level) (z.header, 0), ?_,
      ⟨h.nodup, hkeep.header.trans h.header, (hkeep.data _).trans h.header_data, h.header_height,
        h.backs.congr fun c _ => hkeep.data c.addr, h.height_pos,
        fun c hc => (h.height_le c hc).trans hup.le, h.level_pos.trans hup.le, hlevel, ?_, ?_,
        hkeep.tail.trans h.tail, hkeep.length.trans h.length⟩, Nat.le_refl _, hkeep.rng, ?_, ?_⟩
    · rw [zslRaise, if_pos hup, hz₁]
      rfl
    · intro i hi'
      rcases Nat.lt_or_ge i z.level with hold | hnew
      · refine (h.links i hold).congr fun c _ => ?_
        exact (hlink₁ c.addr i).trans (if_neg (by omega))
      -- a new level: the header is the only tall cell
      intro p c post hrow hc
      cases p with
      | nil =>
        obtain ⟨rfl, rfl⟩ := hrow
        refine (hlink₁ hd.addr i).trans ?_
        rw [if_pos ⟨h.header.symm, hnew, by have := hi'; dsimp only at this; omega⟩,
          reach_short (hshort i hnew), h.length]
        rfl
      | cons b p =>
        rw [cons_append, List.cons.injEq] at hrow
        have hle := hshort i hnew c (by rw [hrow.2]; simp)
        omega
    · intro i hi' k hk
      have hi'' : level ≤ i := hi'
      refine h.above i (by omega) k ?_
      rw [← hk]
      exact ((hlink₁ hd.addr i).trans (if_neg (by omega))).symm
    · rw [length_append, List.length_replicate, hlen]
      show z.level + (level - z.level) = level
      omega
    intro j c hc
    rcases Nat.lt_or_ge j us.length with hj | hj
    · rw [List.getElem?_append_left hj] at hc
      exact hland j c hc
    rw [List.getElem?_append_right hj, List.getElem?_replicate] at hc
    split at hc
    · injection hc with hc
      refine ⟨[], hd, lo, ⟨rfl, ?_, ?_⟩, by rw [← hc, h.header]; rfl⟩
      · rw [h.header_height]
        omega
      · intro b hb
        exact hshort j (by omega) b (List.mem_append_left _ hb)
    · cases hc
  · exact ⟨z, us, by rw [zslRaise, if_neg hup], h, by omega, rfl, hlen, hland⟩

theorem lastAddr_of_row (hrow : hd :: lo = pre ++ [u])
    (hnodup : ((hd :: lo).map ZslCell.addr).Nodup) :
    (if u.addr = hd.addr then none else some u.addr) = lastAddr lo := by
  cases lo using List.reverseRecOn with
  | nil =>
    have hu : u = hd := by
      have hlast := congrArg List.getLast? hrow
      simpa using hlast.symm
    rw [if_pos (congrArg ZslCell.addr hu)]
    rfl
  | append_singleton m d =>
    have hu : u = d := by
      have heq : (hd :: m) ++ [d] = pre ++ [u] := hrow
      exact (List.singleton_inj.mp (List.append_inj' heq rfl).2).symm
    have hne : d.addr ≠ hd.addr := by
      rw [List.map_cons, List.nodup_cons] at hnodup
      exact fun heq => hnodup.1 (heq ▸ List.mem_map_of_mem (by simp))
    rw [hu, if_neg hne, lastAddr_snoc]

theorem reach_zero (h : ∀ c ∈ l, 1 ≤ c.height) :
    reach ZslCell.height 0 l = (l.head?, if l = [] then 0 else 1) := by
  cases l with
  | nil => rfl
  | cons c l =>
    rw [reach, if_pos (show 0 < c.height from h c (by simp))]
    rfl

theorem zslLinkBack_eq (hnodup : ((hd :: (lo ++ a :: hi)).map ZslCell.addr).Nodup)
    (hheader : z.header = hd.addr) (hlink : LevelLinks z 0 (hd :: (lo ++ a :: hi)))
    (hpos : ∀ c ∈ lo ++ a :: hi, 1 ≤ c.height)
    (ha : z.data a.addr = some ⟨a.score, a.member, none, a.height⟩)
    (hbacks : Backs z none (lo ++ hi)) (htail : z.tail = lastAddr (lo ++ hi))
    (hrow : hd :: lo = pre ++ [u]) :
    ∃ z', zslLinkBack a.addr u.addr z = some z' ∧ z'.header = z.header ∧ z'.length = z.length ∧
      z'.level = z.level ∧ z'.rngState = z.rngState ∧ (∀ q j, z'.link q j = z.link q j) ∧
      z'.data hd.addr = z.data hd.addr ∧ Backs z' none (lo ++ a :: hi) ∧
      z'.tail = lastAddr (lo ++ a :: hi) := by
  obtain ⟨hapart, hrest⟩ := nodup_without hnodup
  have hlo : ((hd :: lo).map ZslCell.addr).Nodup := by
    rw [← cons_append, List.map_append] at hrest
    exact (List.nodup_append.mp hrest).1
  obtain ⟨z₁, hz₁, hheader₁, htail₁, hlength₁, hlevel₁, hrng₁, hlink₁, hdata₁⟩ :=
    Zskiplist.setBackward_eq ha (lastAddr lo)
  have hnext : z₁.link a.addr 0 = some (zslView (reach ZslCell.height 0 hi)) :=
    (hlink₁ _ _).trans (LevelLinks.link
      (show LevelLinks z 0 ((hd :: lo) ++ a :: hi) from hlink) (hpos a (by simp)))
  rw [reach_zero fun c hc => hpos c (by simp [hc])] at hnext
  obtain ⟨hbacks_lo, hbacks_hi⟩ := (Backs.append none lo hi).mp hbacks
  have hold : ∀ c ∈ hd :: (lo ++ hi), z₁.data c.addr = z.data c.addr := fun c hc =>
    (hdata₁ c.addr).trans (if_neg (hapart c hc))
  have hrun : zslLinkBack a.addr u.addr z = (hi.head?.map ZslCell.addr).elim
      (some { z₁ with tail := some a.addr }) fun q => z₁.setBackward q (some a.addr) := by
    rw [zslLinkBack, hheader, lastAddr_of_row hrow hlo, hz₁]
    simp only [bind_eq_bind, bind_some, hnext]
    cases hi <;> rfl
  cases hi with
  | nil =>
    refine ⟨{ z₁ with tail := some a.addr }, hrun, hheader₁, hlength₁, hlevel₁, hrng₁,
      hlink₁, hold hd (by simp), ?_, by rw [lastAddr_snoc]⟩
    refine (Backs.append none lo [a]).mpr ⟨hbacks_lo.congr fun c hc => hold c (by simp [hc]), ?_,
      trivial⟩
    rw [or_none]
    exact (hdata₁ a.addr).trans (if_pos rfl)
  | cons b hi =>
    have hb : z₁.data b.addr = some ⟨b.score, b.member, (lastAddr lo).or none, b.height⟩ :=
      (hold b (by simp)).trans hbacks_hi.1
    obtain ⟨z₂, hz₂, hheader₂, htail₂, hlength₂, hlevel₂, hrng₂, hlink₂, hdata₂⟩ :=
      Zskiplist.setBackward_eq hb (some a.addr)
    have hother : ∀ c ∈ hd :: (lo ++ b :: hi), c ≠ b → z₂.data c.addr = z₁.data c.addr :=
      fun c hc hcb => (hdata₂ c.addr).trans (if_neg (addr_ne hrest hc (by simp) hcb))
    have hnodup' : (hd :: (lo ++ b :: hi)).Nodup := hrest.of_map
    rw [List.nodup_cons, List.nodup_append] at hnodup'
    have hb_hd : hd ≠ b := fun heq => hnodup'.1 (by rw [heq]; simp)
    have hb_lo : ∀ c ∈ lo, c ≠ b := fun c hc => hnodup'.2.2.2 c hc b (by simp)
    have hb_hi : ∀ c ∈ hi, c ≠ b := fun c hc heq =>
      (List.nodup_cons.mp hnodup'.2.2.1).1 (heq ▸ hc)
    refine ⟨z₂, hrun.trans hz₂, hheader₂.trans hheader₁, hlength₂.trans hlength₁,
      hlevel₂.trans hlevel₁, hrng₂.trans hrng₁, fun q j => (hlink₂ q j).trans (hlink₁ q j),
      (hother hd (by simp) hb_hd).trans (hold hd (by simp)), ?_, ?_⟩
    · refine (Backs.append none lo (a :: b :: hi)).mpr ⟨?_, ?_, ?_, ?_⟩
      · exact hbacks_lo.congr fun c hc =>
          (hother c (by simp [hc]) (hb_lo c hc)).trans (hold c (by simp [hc]))
      · rw [or_none, hdata₂, if_neg fun heq => hapart b (by simp) heq.symm, hdata₁,
          if_pos rfl]
      · exact (hdata₂ b.addr).trans (if_pos rfl)
      · exact hbacks_hi.2.congr fun c hc =>
          (hother c (by simp [hc]) (hb_hi c hc)).trans (hold c (by simp [hc]))
    · rw [htail₂, htail₁, htail, lastAddr_append, lastAddr_append, lastAddr_cons a]
      cases lastAddr hi with
      | none => rfl
      | some t => rfl

theorem ZslHolds.fresh (h : ZslHolds z hd l) (hp : z.node p = none) :
    ∀ c ∈ hd :: l, c.addr ≠ p := by
  intro c hc heq
  have hnone : z.data c.addr = none := by
    rw [Zskiplist.data, heq, hp]
    rfl
  rcases List.mem_cons.mp hc with rfl | hc
  · rw [h.header_data] at hnone
    cases hnone
  obtain ⟨b, hb⟩ := h.backs.data hc
  rw [hb] at hnone
  cases hnone

theorem zslLinkIn_holds {us : List (Nat × UInt32)} (h : ZslHolds z hd (lo ++ hi))
    (hfresh : z.node a.addr = none) (hpos : 1 ≤ a.height) (hle : a.height ≤ z.level)
    (hlen : us.length = z.level) (hland : Landings UInt32.ofNat (hd :: lo) us) :
    ∃ first z', us.head? = some first ∧
      (zslEachLevel (zslLinkLevel a.addr a.height first.2) us 0 (z.setNode a.addr
        ⟨a.score, none, a.member, List.replicate a.height ⟨none, 0⟩⟩)).bind
          (zslLinkBack a.addr first.1) = some z' ∧
      z'.rngState = z.rngState ∧
      ZslHolds { z' with length := z'.length + 1 } hd (lo ++ a :: hi) := by
  have hapart := h.fresh hfresh
  have hnodup : ((hd :: (lo ++ a :: hi)).map ZslCell.addr).Nodup := by
    have hperm : ((hd :: (lo ++ a :: hi)).map ZslCell.addr).Perm
        ((a :: (hd :: (lo ++ hi))).map ZslCell.addr) := by
      refine List.Perm.map _ ?_
      rw [← cons_append]
      exact List.perm_middle
    refine hperm.nodup_iff.mpr (List.nodup_cons.mpr ⟨?_, h.nodup⟩)
    intro hmem
    obtain ⟨c, hc, heq⟩ := List.mem_map.mp hmem
    exact hapart c hc heq
  -- the lowest landing is the last cell before the new one
  obtain ⟨first, rest, rfl⟩ : ∃ first rest, us = first :: rest := by
    have hlevel := h.level_pos
    cases us with
    | nil => rw [← hlen] at hlevel; cases hlevel
    | cons first rest => exact ⟨first, rest, rfl⟩
  obtain ⟨pre, u, mid, hlast, rfl⟩ := hland 0 first rfl
  obtain ⟨rfl, hrank⟩ := lastAbove_zero h hlast
  -- the node in the heap
  generalize hz₁ : z.setNode a.addr
    ⟨a.score, none, a.member, List.replicate a.height ⟨none, 0⟩⟩ = z₁
  have hlink₁ : ∀ q j, q ≠ a.addr → z₁.link q j = z.link q j := by
    intro q j hq
    rw [← hz₁, Zskiplist.link_setNode, if_neg hq]
  have hdata₁ : ∀ q, q ≠ a.addr → z₁.data q = z.data q := by
    intro q hq
    rw [← hz₁, Zskiplist.data_setNode, if_neg hq]
  have hnew : z₁.data a.addr = some ⟨a.score, a.member, none, a.height⟩ := by
    rw [← hz₁, Zskiplist.data_setNode]
    simp
  -- every level
  have hstep : ∀ j c (y : Zskiplist S R),
      ((u.addr, UInt32.ofNat pre.length) :: rest)[j]? = some c →
      y.data a.addr = some ⟨a.score, a.member, none, a.height⟩ →
      LevelLinks y (0 + j) (hd :: (lo ++ hi)) →
      ∃ y', zslLinkLevel a.addr a.height (UInt32.ofNat lo.length) (0 + j) c y = some y' ∧
        WritesLevel (0 + j) y y' ∧
        y'.data a.addr = some ⟨a.score, a.member, none, a.height⟩ ∧
        LevelLinks y' (0 + j) (hd :: (lo ++ a :: hi)) := by
    intro j c y hc hdata hlinks
    rw [Nat.zero_add] at hlinks ⊢
    obtain ⟨pre', u', mid', hlast', rfl⟩ := hland j c hc
    obtain ⟨y', hy', hwrite, hlinks'⟩ := zslLinkLevel_eq hlinks hlast' hnodup fun j hj =>
      Zskiplist.link_of_data hdata hj
    exact ⟨y', hy', hwrite, (hwrite.keeps.data _).trans hdata, hlinks'⟩
  obtain ⟨z₂, hz₂, hkeep₂, hnew₂, hlinks₂, htop₂⟩ := zslEachLevel_eq hstep hnew
    (by
      intro j _ hj
      rw [Nat.zero_add, hlen] at hj
      exact (h.links j hj).congr fun c hc => hlink₁ c.addr j (hapart c hc))
    (fun j hj => absurd hj (Nat.not_lt_zero j))
  rw [Nat.zero_add, hlen] at hlinks₂ htop₂
  have hheader₂ : z₂.header = hd.addr := by
    rw [hkeep₂.header, ← hz₁]
    exact h.header
  have hpos' : ∀ c ∈ lo ++ a :: hi, 1 ≤ c.height := by
    intro c hc
    rcases List.mem_append.mp hc with hc | hc
    · exact h.height_pos c (List.mem_append_left _ hc)
    rcases List.mem_cons.mp hc with rfl | hc
    · exact hpos
    · exact h.height_pos c (List.mem_append_right _ hc)
  obtain ⟨z₃, hz₃, hheader₃, hlength₃, hlevel₃, hrng₃, hlink₃, hdata₃, hbacks₃, htail₃⟩ :=
    zslLinkBack_eq hnodup hheader₂ (hlinks₂ 0 (by have := h.level_pos; omega)) hpos'
      hnew₂ (h.backs.congr fun c hc =>
        (hkeep₂.data _).trans (hdata₁ _ (hapart c (List.mem_cons_of_mem _ hc))))
      (by rw [hkeep₂.tail, ← hz₁]; exact h.tail) hlast.row_eq
  have hlevel : z₃.level = z.level := by
    rw [hlevel₃, hkeep₂.level, ← hz₁]
    rfl
  refine ⟨_, z₃, rfl, ?_, ?_, ⟨hnodup, ?_, ?_, h.header_height, hbacks₃.congr fun _ _ => rfl, hpos',
    ?_, ?_, ?_, ?_, ?_, htail₃, ?_⟩⟩
  · show (zslEachLevel (zslLinkLevel a.addr a.height (UInt32.ofNat pre.length)) _ 0 z₁).bind _ = _
    rw [hrank] at hz₂ ⊢
    rw [hz₂]
    exact hz₃
  · rw [hrng₃, hkeep₂.rng, ← hz₁]
    rfl
  · exact hheader₃.trans hheader₂
  · exact hdata₃.trans ((hkeep₂.data _).trans
      ((hdata₁ _ (hapart hd (by simp))).trans h.header_data))
  · intro c hc
    refine Nat.le_trans ?_ hlevel.ge
    rcases List.mem_append.mp hc with hc | hc
    · exact h.height_le c (List.mem_append_left _ hc)
    rcases List.mem_cons.mp hc with rfl | hc
    · exact hle
    · exact h.height_le c (List.mem_append_right _ hc)
  · exact h.level_pos.trans hlevel.ge
  · exact hlevel.le.trans h.level_le
  · intro i hi'
    exact (hlinks₂ i (hlevel ▸ hi')).congr fun c _ => hlink₃ c.addr i
  · intro i hi' k hk
    refine h.above i (hlevel ▸ hi') k ?_
    rw [← hk]
    exact ((hlink₃ _ _).trans ((htop₂ _ _ (hlevel ▸ hi')).trans
      (hlink₁ _ _ (hapart hd (by simp))))).symm
  · show z₃.length + 1 = _
    rw [hlength₃, hkeep₂.length, ← hz₁, length_append, List.length_cons, ← Nat.add_assoc,
      ← length_append, ← h.length]
    rfl

/-- `zsl_insert` puts a cell where the search for its pair ends. -/
theorem zslInsert_holds [LinearOrder S] (A : Heap.Allocator (ZslNode S)) (L : Levels R)
    {score : S} {member : Bytes} (h : ZslHolds z hd (lo ++ hi))
    (hmember : member.length ≤ uint32Max)
    (hgo : Steers (fun s m (_ : UInt32) => zslCmp s m score member == .lt) UInt32.ofNat (lo ++ hi)
      lo.length) :
    ∃ z' p, zslInsert A L z score member = some (z', 0) ∧
      z'.rngState = (L.draw z.rngState).2 ∧
      ZslHolds z' hd (lo ++ ⟨p, score, member, (L.draw z.rngState).1⟩ :: hi) := by
  obtain ⟨us, hus, huslen, hland⟩ := zslDescend_eq h (Nat.le_refl _) (counts_uint32 _) hgo
    (show hd :: lo = [] ++ hd :: lo from rfl) (by rw [h.header_height]; exact h.level_le)
  obtain ⟨z₁, us', hraise, h₁, hlevel, hrng, huslen', hland'⟩ :=
    zslRaise_eq (h.setRng (L.draw z.rngState).2) (L.draw_le z.rngState) huslen hland
  obtain ⟨first, z₂, hfirst, hz₂, hrng₂, h₂⟩ := @zslLinkIn_holds _ _ z₁ hd
    ⟨A.next z₁.nodes, score, member, (L.draw z.rngState).1⟩ lo hi us' h₁ (A.fresh z₁.nodes)
    (L.draw_pos z.rngState) hlevel huslen' hland'
  refine ⟨_, _, ?_, ?_, h₂⟩
  · have hus' : zslDescend z (· + ·) (fun s m _ => zslCmp s m score member == .lt) z.level
        (z.header, 0) = some us := by
      rw [h.header]
      exact hus
    obtain ⟨z₃, hz₃, hback⟩ := Option.bind_eq_some_iff.mp hz₂
    rw [zslInsert, if_neg (Nat.not_lt.mpr hmember)]
    simp only [bind_eq_bind, hus', bind_some, hraise, hfirst, hz₃, hback]
    rfl
  · exact hrng₂.trans hrng

end

/-! ## Deletion -/

section

variable {z z' : Zskiplist S R} {hd a u : ZslCell S} {l lo hi pre mid : List (ZslCell S)}

theorem zslUnlinkBack_eq (hnodup : ((hd :: (lo ++ a :: hi)).map ZslCell.addr).Nodup)
    (hlink : z.link a.addr 0 = some (zslView (reach ZslCell.height 0 hi)))
    (hpos : ∀ c ∈ hi, 1 ≤ c.height) (hbacks : Backs z none (lo ++ a :: hi))
    (htail : z.tail = lastAddr (lo ++ a :: hi)) :
    ∃ z', zslUnlinkBack a.addr z = some z' ∧ z'.header = z.header ∧ z'.length = z.length ∧
      z'.level = z.level ∧ z'.rngState = z.rngState ∧ (∀ q j, z'.link q j = z.link q j) ∧
      z'.data hd.addr = z.data hd.addr ∧ Backs z' none (lo ++ hi) ∧
      z'.tail = lastAddr (lo ++ hi) := by
  obtain ⟨hlo, ha, hhi⟩ := (Backs.append none lo (a :: hi)).mp hbacks
  rw [or_none] at ha
  obtain ⟨n, hn, hback⟩ : ∃ n, z.node a.addr = some n ∧ n.backward = lastAddr lo := by
    rw [Zskiplist.data, Option.map_eq_some_iff] at ha
    obtain ⟨n, hn, hdata⟩ := ha
    injection hdata with _ _ hback
    exact ⟨n, hn, hback⟩
  rw [reach_zero hpos] at hlink
  have hrun : zslUnlinkBack a.addr z = (hi.head?.map ZslCell.addr).elim
      (some { z with tail := lastAddr lo }) fun q => z.setBackward q (lastAddr lo) := by
    rw [zslUnlinkBack, hlink, hn]
    simp only [bind_eq_bind, bind_some, hback]
    cases hi <;> rfl
  cases hi with
  | nil =>
    refine ⟨{ z with tail := lastAddr lo }, hrun, rfl, rfl, rfl, rfl, fun _ _ => rfl, rfl, ?_, ?_⟩
    · rw [List.append_nil]
      exact hlo.congr fun _ _ => rfl
    · rw [List.append_nil]
  | cons b hi =>
    obtain ⟨z₁, hz₁, hheader, htail₁, hlength, hlevel, hrng, hlinks, hdata⟩ :=
      Zskiplist.setBackward_eq hhi.1 (lastAddr lo)
    obtain ⟨-, hrest⟩ := nodup_without hnodup
    have hother : ∀ c ∈ hd :: (lo ++ b :: hi), c ≠ b → z₁.data c.addr = z.data c.addr :=
      fun c hc hcb => (hdata c.addr).trans (if_neg (addr_ne hrest hc (by simp) hcb))
    have hnodup' : (hd :: (lo ++ b :: hi)).Nodup := hrest.of_map
    rw [List.nodup_cons, List.nodup_append] at hnodup'
    have hb_hd : hd ≠ b := fun heq => hnodup'.1 (by rw [heq]; simp)
    have hb_lo : ∀ c ∈ lo, c ≠ b := fun c hc => hnodup'.2.2.2 c hc b (by simp)
    have hb_hi : ∀ c ∈ hi, c ≠ b := fun c hc heq =>
      (List.nodup_cons.mp hnodup'.2.2.1).1 (heq ▸ hc)
    refine ⟨z₁, hrun.trans hz₁, hheader, hlength, hlevel, hrng, hlinks,
      hother hd (by simp) hb_hd, ?_, ?_⟩
    · refine (Backs.append none lo (b :: hi)).mpr ⟨?_, ?_, ?_⟩
      · exact hlo.congr fun c hc => hother c (by simp [hc]) (hb_lo c hc)
      · rw [or_none]
        exact (hdata b.addr).trans (if_pos rfl)
      · exact hhi.2.congr fun c hc => hother c (by simp [hc]) (hb_hi c hc)
    · rw [htail₁, htail, lastAddr_append, lastAddr_append, lastAddr_cons a]
      cases lastAddr hi with
      | none => rfl
      | some t => rfl

theorem zslLower_eq (hlinks : ∀ i < n, LevelLinks z i (hd :: l)) (hheader : z.header = hd.addr)
    (hhd : n ≤ hd.height) (hle : ∀ c ∈ l, c.height ≤ n) (hn : 1 ≤ n) :
    ∃ k, zslLower z n = some k ∧ 1 ≤ k ∧ k ≤ n ∧ (∀ c ∈ l, c.height ≤ k) ∧
      ∀ i, k ≤ i → i < n → ∃ s, z.link hd.addr i = some ⟨none, s⟩ := by
  induction n with
  | zero => omega
  | succ n ih =>
    cases n with
    | zero => exact ⟨1, rfl, Nat.le_refl 1, Nat.le_refl 1, hle, fun i hi hi' => by omega⟩
    | succ n =>
      have hlink : z.link hd.addr (n + 1)
          = some (zslView (reach ZslCell.height (n + 1) l)) :=
        LevelLinks.link (show LevelLinks z (n + 1) ([] ++ hd :: l) from
          hlinks (n + 1) (by omega)) (by omega)
      by_cases hnone : (reach ZslCell.height (n + 1) l).1 = none
      · -- no cell reaches the top level
        obtain ⟨k, hk, hpos, hkn, hk', hempty⟩ := ih (fun i hi => hlinks i (by omega))
          (by omega) (reach_none_iff.mp hnone) (by omega)
        refine ⟨k, ?_, hpos, by omega, hk', ?_⟩
        · rw [zslLower, hheader, hlink]
          simp only [bind_eq_bind, bind_some, zslView, hnone, Option.map_none]
          exact hk
        intro i hi hi'
        rcases Nat.lt_or_ge i (n + 1) with hlt | hge
        · exact hempty i hi hlt
        have hin : i = n + 1 := by omega
        rw [hin, hlink, zslView, hnone]
        exact ⟨_, rfl⟩
      · refine ⟨n + 2, ?_, by omega, Nat.le_refl _, hle, fun i hi hi' => by omega⟩
        have hsome : (reach ZslCell.height (n + 1) l).1.map ZslCell.addr ≠ none := by
          rw [Ne, Option.map_eq_none_iff]
          exact hnone
        rw [zslLower, hheader, hlink]
        simp only [bind_eq_bind, bind_some, zslView, if_neg hsome]

theorem Zskiplist.link_free (z : Zskiplist S R) (hq : q ≠ p) (i : Nat) :
    Zskiplist.link { z with nodes := z.nodes.free p } q i = z.link q i := by
  show ((z.nodes.free p).get q).bind _ = (z.nodes.get q).bind _
  rw [Heap.get_free_ne _ hq]

theorem Zskiplist.data_free (z : Zskiplist S R) (hq : q ≠ p) :
    Zskiplist.data { z with nodes := z.nodes.free p } q = z.data q := by
  show ((z.nodes.free p).get q).map _ = (z.nodes.get q).map _
  rw [Heap.get_free_ne _ hq]

theorem zslUnlink_holds {us : List (Nat × Unit)} (h : ZslHolds z hd (lo ++ a :: hi))
    (hlen : us.length = z.level) (hland : Landings (fun _ => ()) (hd :: lo) us) :
    ∃ z₁ z₂ k, zslEachLevel (zslUnlinkLevel a.addr) us 0 z = some z₁ ∧
      zslUnlinkBack a.addr z₁ = some z₂ ∧ zslLower z₂ z₂.level = some k ∧
      z₂.rngState = z.rngState ∧
      ZslHolds { z₂ with nodes := z₂.nodes.free a.addr, length := z₂.length - 1, level := k } hd
        (lo ++ hi) := by
  obtain ⟨hapart, hrest⟩ := nodup_without h.nodup
  have hstep : ∀ j c (y : Zskiplist S R), us[j]? = some c →
      (∀ j, y.link a.addr j = z.link a.addr j) →
      LevelLinks y (0 + j) (hd :: (lo ++ a :: hi)) →
      ∃ y', zslUnlinkLevel a.addr (0 + j) c y = some y' ∧ WritesLevel (0 + j) y y' ∧
        (∀ j, y'.link a.addr j = z.link a.addr j) ∧
        LevelLinks y' (0 + j) (hd :: (lo ++ hi)) := by
    intro j c y hc hself hlinks
    rw [Nat.zero_add] at hlinks ⊢
    obtain ⟨pre', u', mid', hlast', rfl⟩ := hland j c hc
    obtain ⟨y', hy', hwrite, hself', hlinks'⟩ := zslUnlinkLevel_eq hlinks hlast' h.nodup
    exact ⟨y', hy', hwrite, fun j => (hself' j).trans (hself j), hlinks'⟩
  obtain ⟨z₁, hz₁, hkeep₁, hself₁, hlinks₁, htop₁⟩ := zslEachLevel_eq hstep (fun _ => rfl)
    (by
      intro j _ hj
      rw [Nat.zero_add, hlen] at hj
      exact h.links j hj)
    (fun j hj => absurd hj (Nat.not_lt_zero j))
  rw [Nat.zero_add, hlen] at hlinks₁ htop₁
  have hnext : z.link a.addr 0 = some (zslView (reach ZslCell.height 0 hi)) :=
    LevelLinks.link (show LevelLinks z 0 ((hd :: lo) ++ a :: hi) from h.links 0 h.level_pos)
      (h.height_pos a (by simp))
  have hsub : ∀ c ∈ lo ++ hi, c ∈ lo ++ a :: hi := by
    intro c hc
    rcases List.mem_append.mp hc with hc | hc
    · exact List.mem_append_left _ hc
    · exact List.mem_append_right _ (List.mem_cons_of_mem _ hc)
  obtain ⟨z₂, hz₂, hheader₂, hlength₂, hlevel₂, hrng₂, hlink₂, hdata₂, hbacks₂, htail₂⟩ :=
    zslUnlinkBack_eq h.nodup ((hself₁ 0).trans hnext)
      (fun c hc => h.height_pos c (by simp [hc])) (h.backs.congr fun c _ => hkeep₁.data c.addr)
      (hkeep₁.tail.trans h.tail)
  have hlevel : z₂.level = z.level := hlevel₂.trans hkeep₁.level
  have hheader : z₂.header = hd.addr := hheader₂.trans (hkeep₁.header.trans h.header)
  have hlinks : ∀ i < z₂.level, LevelLinks z₂ i (hd :: (lo ++ hi)) := fun i hi' =>
    (hlinks₁ i (hlevel ▸ hi')).congr fun c _ => hlink₂ c.addr i
  obtain ⟨k, hk, hpos, hkn, hle, hempty⟩ := zslLower_eq hlinks hheader
    (by rw [hlevel, h.header_height]; exact h.level_le)
    (fun c hc => hlevel ▸ h.height_le c (hsub c hc)) (hlevel ▸ h.level_pos)
  refine ⟨z₁, z₂, k, hz₁, hz₂, hk, hrng₂.trans hkeep₁.rng, ⟨hrest, hheader, ?_, h.header_height,
    ?_, fun c hc => h.height_pos c (hsub c hc), hle, hpos,
    hkn.trans (hlevel ▸ h.level_le), ?_, ?_, htail₂, ?_⟩⟩
  · exact (Zskiplist.data_free z₂ (hapart hd (by simp))).trans
      (hdata₂.trans ((hkeep₁.data _).trans h.header_data))
  · exact hbacks₂.congr fun c hc => Zskiplist.data_free z₂ (hapart c (by simp [hc]))
  · intro i hi'
    exact (hlinks i (hi'.trans_le hkn)).congr fun c hc => Zskiplist.link_free z₂ (hapart c hc) i
  · intro i hi' m hm
    have hm' : z₂.link hd.addr i = some m :=
      (Zskiplist.link_free z₂ (hapart hd (by simp)) i).symm.trans hm
    rcases Nat.lt_or_ge i z₂.level with hlt | hge
    · obtain ⟨s, hs⟩ := hempty i hi' hlt
      rw [hm'] at hs
      injection hs with hs
      rw [hs]
    · rw [hlevel] at hge
      refine h.above i hge m ?_
      rw [← hm', hlink₂, htop₁ _ _ hge]
  · show z₂.length - 1 = _
    rw [hlength₂, hkeep₁.length, h.length]
    simp

variable [LinearOrder S] {score : S} {member : Bytes}

theorem zslDelete_search (h : ZslHolds z hd (lo ++ hi))
    (hgo : Steers (fun s m (_ : Unit) => zslCmp s m score member == .lt) (fun _ => ()) (lo ++ hi)
      lo.length) :
    ∃ us first, zslDescend z noCount (fun s m _ => zslCmp s m score member == .lt) z.level
        (z.header, ()) = some us ∧ us.length = z.level ∧
      Landings (fun _ => ()) (hd :: lo) us ∧ us.head? = some first ∧
      ∃ s, z.link first.1 0 = some ⟨hi.head?.map ZslCell.addr, s⟩ := by
  obtain ⟨us, hus, huslen, hland⟩ := zslDescend_eq h (Nat.le_refl _) (counts_unit _) hgo
    (show hd :: lo = [] ++ hd :: lo from rfl) (by rw [h.header_height]; exact h.level_le)
  have hlevel := h.level_pos
  cases us with
  | nil => rw [← huslen] at hlevel; cases hlevel
  | cons first rest =>
    refine ⟨first :: rest, first, by rw [h.header]; exact hus, huslen, hland, rfl, ?_⟩
    obtain ⟨pre, u, mid, hlast, rfl⟩ := hland 0 first rfl
    obtain ⟨rfl, -⟩ := lastAbove_zero h hlast
    have hlink : z.link u.addr 0 = some (zslView (reach ZslCell.height 0 hi)) := by
      refine LevelLinks.link (show LevelLinks z 0 (pre ++ u :: hi) from ?_) hlast.tall
      have hrow : pre ++ u :: hi = hd :: (lo ++ hi) := by
        rw [← cons_append, hlast.row_eq]
        simp
      rw [hrow]
      exact h.links 0 hlevel
    rw [reach_zero fun c hc => h.height_pos c (by simp [hc])] at hlink
    exact ⟨_, hlink⟩

theorem zslDelete_holds (h : ZslHolds z hd (lo ++ a :: hi))
    (hgo : Steers (fun s m (_ : Unit) => zslCmp s m score member == .lt) (fun _ => ())
      (lo ++ a :: hi) lo.length) (heq : zslCmp a.score a.member score member = .eq) :
    ∃ z', zslDelete z score member = some (z', 1) ∧ z'.rngState = z.rngState ∧
      ZslHolds z' hd (lo ++ hi) := by
  obtain ⟨us, first, hus, huslen, hland, hfirst, s, hlink⟩ := zslDelete_search h hgo
  obtain ⟨z₁, z₂, k, hz₁, hz₂, hk, hrng, h₂⟩ := zslUnlink_holds h huslen hland
  obtain ⟨n, hn, hscore, hmember⟩ := h.backs.node (c := a) (by simp)
  refine ⟨_, ?_, ?_, h₂⟩
  · rw [zslDelete, hus]
    simp only [bind_eq_bind, bind_some, hfirst, hlink, List.head?_cons,
      Option.map_some, hn, hscore, hmember, heq, hz₁, hz₂, hk]
    rfl
  · exact hrng

theorem zslDelete_absent (h : ZslHolds z hd (lo ++ hi))
    (hgo : Steers (fun s m (_ : Unit) => zslCmp s m score member == .lt) (fun _ => ()) (lo ++ hi)
      lo.length) (hne : ∀ c ∈ hi, zslCmp c.score c.member score member ≠ .eq) :
    zslDelete z score member = some (z, 0) := by
  obtain ⟨us, first, hus, -, -, hfirst, s, hlink⟩ := zslDelete_search h hgo
  rw [zslDelete, hus]
  simp only [bind_eq_bind, bind_some, hfirst, hlink]
  cases hi with
  | nil => rfl
  | cons a hi =>
    obtain ⟨n, hn, hscore, hmember⟩ := h.backs.node (c := a) (by simp)
    simp only [List.head?_cons, Option.map_some, hn, bind_some, hscore, hmember]
    rw [if_pos (hne a (by simp))]

end

/-! ## Indices -/

section

variable {z : Zskiplist S R} {hd : ZslCell S} {l : List (ZslCell S)}

/-- `zsl_at` gives the cell at an index. At the largest `size_t` the index plus one is 0. -/
theorem zslAt_eq (h : ZslHolds z hd l) (hlen : l.length < 2 ^ 32) {idx : UInt64}
    (hidx : idx.toNat + 1 < 2 ^ 64) : zslAt z idx = some (l[idx.toNat]?.map ZslCell.addr) := by
  have hnext : (idx + 1).toNat = idx.toNat + 1 := by exact Nat.mod_eq_of_lt hidx
  have hpos : ∀ k, k ≤ l.length → (UInt64.ofNat k).toNat = k := fun k hk =>
    (UInt64.toNat_ofNat').trans (Nat.mod_eq_of_lt (by omega))
  obtain ⟨lo, hi, hsplit, hlo⟩ : ∃ lo hi, l = lo ++ hi ∧ lo = l.take (idx.toNat + 1) :=
    ⟨_, _, (List.take_append_drop (idx.toNat + 1) l).symm, rfl⟩
  have hlolen : lo.length = min (idx.toNat + 1) l.length := by rw [hlo, List.length_take]
  have hgo : Steers (fun _ _ (r : UInt64) => decide (r ≤ idx + 1)) UInt64.ofNat l lo.length := by
    intro k c hk
    have hlt := (List.getElem?_eq_some_iff.mp hk).1
    have hle : UInt64.ofNat (k + 1) ≤ idx + 1 ↔ k < lo.length := by
      rw [UInt64.le_iff_toNat_le, hpos (k + 1) hlt]
      omega
    exact decide_eq_decide.mpr hle
  subst hsplit
  have hrun : zslAt z idx = (zslSearch z addSpan (fun _ _ r => decide (r ≤ idx + 1))
      (fun c => some (c.2 == idx + 1)) z.level
      (hd.addr, UInt64.ofNat ([] : List (ZslCell S)).length)).map (Option.map Prod.fst) := by
    rw [zslAt, h.header, Option.map_eq_bind]
    rfl
  have hfound : ∀ pre u mid, hd :: lo = pre ++ u :: mid →
      some (UInt64.ofNat pre.length == idx + 1) = some (decide (pre.length = idx.toNat + 1)) := by
    intro pre u mid hrow
    have hlen' := congrArg List.length hrow
    simp only [List.length_cons, length_append] at hlen'
    have heq : UInt64.ofNat pre.length = idx + 1 ↔ pre.length = idx.toNat + 1 := by
      rw [← UInt64.toNat_inj, hpos pre.length (by rw [length_append]; omega), hnext]
    rw [Option.some.injEq, Bool.eq_iff_iff, beq_iff_eq, decide_eq_true_eq, heq]
  rcases zslSearch_eq (fun c : Nat × UInt64 => some (c.2 == idx + 1))
    (fun (_ : ZslCell S) k => decide (k = idx.toNat + 1)) h (Nat.le_refl z.level)
    (counts_uint64 hlen) hgo hfound
    (show hd :: lo = [] ++ hd :: lo from rfl) (by rw [h.header_height]; exact h.level_le) with
    ⟨pre, u, mid, hrow, hok, hsearch⟩ | ⟨hsearch, hlow⟩
  · rw [decide_eq_true_eq] at hok
    have hne : u ≠ hd := by
      intro heq
      subst heq
      have hnodup := h.nodup.of_map
      rw [← cons_append, hrow, List.append_assoc, List.nodup_append] at hnodup
      cases pre with
      | nil => simp at hok
      | cons b pre =>
        rw [cons_append, List.cons.injEq] at hrow
        exact hnodup.2.2 u (by rw [hrow.1]; simp) u (by simp) rfl
    have hget := (getElem?_of_row_ne hrow hne hi).2
    rw [hok, Nat.add_sub_cancel] at hget
    rw [hrun, hsearch, hget]
    rfl
  · obtain ⟨pre, u, mid, hlast, hok⟩ := hlow h.level_pos
    obtain ⟨-, hprelen⟩ := lastAbove_zero h hlast
    rw [decide_eq_false_iff_not] at hok
    rw [hrun, hsearch, List.getElem?_eq_none (by omega)]
    rfl

end

end Ddup.Ds
