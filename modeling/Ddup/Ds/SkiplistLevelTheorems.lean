/-
Ddup.Ds.SkiplistLevelTheorems — the levels of a skip list in the heap.

A `ZslCell` is a node as a reader of the list sees it. `ZslHolds z hd l` says that the nodes of `z`
are the header `hd` and the cells of `l`, and that the links of every level are those of
`Lib.SkipList` over the row `hd :: l`, with each span taken modulo 2^32. A search ends, on each
level, at the last tall cell of the part it goes through (`zslAdvance_eq`). Linking a node in or
taking it out writes one level at a time and leaves the other levels alone.
-/
import Ddup.Lib.SkipList
import Ddup.Ds.Skiplist

namespace Ddup.Ds

open Ddup.Lib Ddup.Lib.SkipList
open List (cons_append length_append length_cons nil_append)
open Option (bind_eq_bind bind_some map_some)
open UInt32 (ofNat ofNat_add)

/-! ## Nodes -/

/-- What a node holds besides its links. -/
structure ZslData (S : Type) where
  score : S
  member : Bytes
  backward : Option Nat
  height : Nat

variable {S R K : Type}

namespace Zskiplist

variable {z z' : Zskiplist S R} {p q i j : Nat} {l : ZslLevel} {n : ZslNode S}

def data (z : Zskiplist S R) (p : Nat) : Option (ZslData S) :=
  (z.node p).map fun n => ⟨n.score, n.member, n.backward, n.level.length⟩

theorem node_setNode (z : Zskiplist S R) (p : Nat) (n : ZslNode S) (q : Nat) :
    (z.setNode p n).node q = if q = p then some n else z.node q := by
  by_cases hq : q = p
  · rw [if_pos hq, hq]
    exact Heap.get_cons_self _ _ _
  · rw [if_neg hq]
    exact (Heap.get_cons_ne _ _ hq).trans (Heap.get_free_ne _ hq)

theorem link_setNode (z : Zskiplist S R) (p : Nat) (n : ZslNode S) (q i : Nat) :
    (z.setNode p n).link q i = if q = p then n.level[i]? else z.link q i := by
  rw [link, node_setNode]
  split
  · rfl
  · rfl

theorem data_setNode (z : Zskiplist S R) (p : Nat) (n : ZslNode S) (q : Nat) :
    (z.setNode p n).data q
      = if q = p then some ⟨n.score, n.member, n.backward, n.level.length⟩ else z.data q := by
  rw [data, node_setNode]
  split
  · rfl
  · rfl

theorem link_of_data {d : ZslData S} (h : z.data p = some d) (hi : i < d.height) :
    ∃ l, z.link p i = some l := by
  rw [data, Option.map_eq_some_iff] at h
  obtain ⟨n, hn, rfl⟩ := h
  exact ⟨n.level.get ⟨i, hi⟩, by rw [link, hn]; exact List.getElem?_eq_getElem hi⟩

structure Keeps (z z' : Zskiplist S R) : Prop where
  data : ∀ q, z'.data q = z.data q
  header : z'.header = z.header
  tail : z'.tail = z.tail
  length : z'.length = z.length
  level : z'.level = z.level
  rng : z'.rngState = z.rngState

theorem Keeps.refl (z : Zskiplist S R) : Keeps z z := ⟨fun _ => rfl, rfl, rfl, rfl, rfl, rfl⟩

theorem Keeps.trans {z'' : Zskiplist S R} (h : Keeps z z') (h' : Keeps z' z'') : Keeps z z'' :=
  ⟨fun q => (h'.data q).trans (h.data q), h'.header.trans h.header, h'.tail.trans h.tail,
    h'.length.trans h.length, h'.level.trans h.level, h'.rng.trans h.rng⟩

theorem setLink_eq {l₀ : ZslLevel} (h : z.link p i = some l₀) (l : ZslLevel) :
    ∃ z', z.setLink p i l = some z' ∧ Keeps z z' ∧
      ∀ q j, z'.link q j = if q = p ∧ j = i then some l else z.link q j := by
  rw [link, Option.bind_eq_some_iff] at h
  obtain ⟨n, hn, hl⟩ := h
  have hi : i < n.level.length := (List.getElem?_eq_some_iff.mp hl).1
  refine ⟨z.setNode p { n with level := n.level.set i l }, ?_, ⟨?_, rfl, rfl, rfl, rfl, rfl⟩, ?_⟩
  · rw [setLink, hn, bind_some, if_pos hi]
  · intro q
    rw [data_setNode]
    by_cases hq : q = p
    · rw [hq, data, hn]
      simp
    · rw [if_neg hq]
  intro q j
  rw [link_setNode]
  by_cases hq : q = p
  · rw [if_pos hq, List.getElem?_set]
    by_cases hj : j = i
    · rw [if_pos hj.symm, if_pos hi, if_pos ⟨hq, hj⟩]
    · rw [if_neg (Ne.symm hj), if_neg (fun h => hj h.2), hq, link, hn]
      rfl
  · rw [if_neg hq, if_neg (fun h => hq h.1)]

theorem setBackward_eq {d : ZslData S} (h : z.data p = some d) (b : Option Nat) :
    ∃ z', z.setBackward p b = some z' ∧ z'.header = z.header ∧ z'.tail = z.tail ∧
      z'.length = z.length ∧ z'.level = z.level ∧ z'.rngState = z.rngState ∧
      (∀ q j, z'.link q j = z.link q j) ∧
      ∀ q, z'.data q = if q = p then some { d with backward := b } else z.data q := by
  rw [data, Option.map_eq_some_iff] at h
  obtain ⟨n, hn, rfl⟩ := h
  refine ⟨z.setNode p { n with backward := b }, ?_, rfl, rfl, rfl, rfl, rfl, ?_, ?_⟩
  · rw [setBackward, hn]
    rfl
  · intro q j
    rw [link_setNode]
    by_cases hq : q = p
    · rw [if_pos hq, hq, link, hn]
      rfl
    · rw [if_neg hq]
  · intro q
    exact data_setNode _ _ _ _

end Zskiplist

/-! ## What a skip list holds -/

/-- A node as a reader of the list sees it. -/
structure ZslCell (S : Type) where
  addr : Nat
  score : S
  member : Bytes
  height : Nat

def zslView (d : Option (ZslCell S) × Nat) : ZslLevel := ⟨d.1.map ZslCell.addr, ofNat d.2⟩

def lastAddr (l : List (ZslCell S)) : Option Nat := l.getLast?.map ZslCell.addr

/-- The nodes are the cells, each with a pointer back to the one before it. -/
def Backs (z : Zskiplist S R) : Option Nat → List (ZslCell S) → Prop
  | _, [] => True
  | prev, c :: l =>
    z.data c.addr = some ⟨c.score, c.member, prev, c.height⟩ ∧ Backs z (some c.addr) l

/-- The links of level `i` are those of the row. -/
def LevelLinks (z : Zskiplist S R) (i : Nat) (row : List (ZslCell S)) : Prop :=
  Spans ZslCell.height zslView (fun c => z.link c.addr i) i row

structure ZslHolds (z : Zskiplist S R) (hd : ZslCell S) (l : List (ZslCell S)) : Prop where
  nodup : ((hd :: l).map ZslCell.addr).Nodup
  header : z.header = hd.addr
  header_data : z.data hd.addr = some ⟨hd.score, hd.member, none, zslMaxLevel⟩
  header_height : hd.height = zslMaxLevel
  backs : Backs z none l
  height_pos : ∀ c ∈ l, 1 ≤ c.height
  height_le : ∀ c ∈ l, c.height ≤ z.level
  level_pos : 1 ≤ z.level
  level_le : z.level ≤ zslMaxLevel
  links : ∀ i < z.level, LevelLinks z i (hd :: l)
  above : ∀ i, z.level ≤ i → ∀ k, z.link hd.addr i = some k → k.forward = none
  tail : z.tail = lastAddr l
  length : z.length = l.length

section

variable {z z' : Zskiplist S R} {hd c a : ZslCell S} {l lo hi pre mid post : List (ZslCell S)}
  {i : Nat} {prev : Option Nat}

@[simp] theorem lastAddr_nil : lastAddr ([] : List (ZslCell S)) = none := rfl

@[simp] theorem lastAddr_snoc (l : List (ZslCell S)) (c : ZslCell S) :
    lastAddr (l ++ [c]) = some c.addr := by
  simp [lastAddr]

theorem lastAddr_append (l m : List (ZslCell S)) :
    lastAddr (l ++ m) = (lastAddr m).or (lastAddr l) := by
  cases m using List.reverseRecOn with
  | nil => simp
  | append_singleton m d => rw [← List.append_assoc, lastAddr_snoc, lastAddr_snoc, Option.some_or]

theorem lastAddr_cons (c : ZslCell S) (l : List (ZslCell S)) :
    lastAddr (c :: l) = (lastAddr l).or (some c.addr) := lastAddr_append [c] l

theorem Backs.append (prev : Option Nat) (l m : List (ZslCell S)) :
    Backs z prev (l ++ m) ↔ Backs z prev l ∧ Backs z ((lastAddr l).or prev) m := by
  induction l generalizing prev with
  | nil => simp [Backs]
  | cons c l ih =>
    rw [cons_append, Backs, Backs, ih, lastAddr_cons, Option.or_assoc, Option.some_or, and_assoc]

theorem Backs.congr (h : Backs z prev l) (hdata : ∀ c ∈ l, z'.data c.addr = z.data c.addr) :
    Backs z' prev l := by
  induction l generalizing prev with
  | nil => trivial
  | cons c l ih => exact ⟨(hdata c (by simp)).trans h.1, ih h.2 fun d hd => hdata d (by simp [hd])⟩

theorem Backs.data (h : Backs z prev l) (hc : c ∈ l) :
    ∃ b, z.data c.addr = some ⟨c.score, c.member, b, c.height⟩ := by
  induction l generalizing prev with
  | nil => cases hc
  | cons d l ih =>
    rcases List.mem_cons.mp hc with rfl | hc
    · exact ⟨_, h.1⟩
    · exact ih h.2 hc

theorem Backs.node (h : Backs z prev l) (hc : c ∈ l) :
    ∃ n, z.node c.addr = some n ∧ n.score = c.score ∧ n.member = c.member := by
  obtain ⟨b, hb⟩ := h.data hc
  rw [Zskiplist.data, Option.map_eq_some_iff] at hb
  obtain ⟨n, hn, hdata⟩ := hb
  injection hdata with hscore hmember
  exact ⟨n, hn, hscore, hmember⟩

theorem addr_ne {row : List (ZslCell S)} (h : (row.map ZslCell.addr).Nodup) (ha : a ∈ row)
    (hc : c ∈ row) (hne : a ≠ c) : a.addr ≠ c.addr :=
  fun heq => hne (List.inj_on_of_nodup_map h ha hc heq)

theorem LevelLinks.link (h : LevelLinks z i (pre ++ c :: post)) (hc : i < c.height) :
    z.link c.addr i = some (zslView (reach ZslCell.height i post)) :=
  h pre c post rfl hc

theorem LevelLinks.congr {row : List (ZslCell S)} (h : LevelLinks z i row)
    (hlink : ∀ c ∈ row, z'.link c.addr i = z.link c.addr i) : LevelLinks z' i row := by
  intro pre c post hrow hc
  exact (hlink c (by rw [hrow]; simp)).trans (h pre c post hrow hc)

end

/-! ## Searching -/

section

variable {z : Zskiplist S R} {hd y : ZslCell S} {l lo hi pre mid : List (ZslCell S)} {i fuel : Nat}
  {add : K → UInt32 → K} {go : S → Bytes → K → Bool} {cnt : Nat → K}

def Counts (add : K → UInt32 → K) (cnt : Nat → K) (n : Nat) : Prop :=
  ∀ k d, k + d ≤ n → add (cnt k) (ofNat d) = cnt (k + d)

/-- The search goes on at the first `m` cells and stops at the others. -/
def Steers (go : S → Bytes → K → Bool) (cnt : Nat → K) (l : List (ZslCell S)) (m : Nat) : Prop :=
  ∀ k c, l[k]? = some c → go c.score c.member (cnt (k + 1)) = decide (k < m)

/-- A search steered by a test of the pairs that holds of a first part of the list only. -/
theorem steers_takeWhile (p : S → Bytes → Bool) (cnt : Nat → K)
    (hmono : l.Pairwise fun a b => p b.score b.member → p a.score a.member) :
    Steers (fun s m (_ : K) => p s m) cnt l (l.takeWhile fun c => p c.score c.member).length :=
  fun _ _ hk => index_lt_takeWhile (fun c : ZslCell S => p c.score c.member) hmono hk

theorem counts_uint32 (n : Nat) : Counts (· + ·) ofNat n :=
  fun k d _ => (ofNat_add k d).symm

theorem counts_unit (n : Nat) : Counts noCount (fun _ => ()) n := fun _ _ _ => rfl

theorem counts_uint64 {n : Nat} (hn : n < 2 ^ 32) : Counts addSpan UInt64.ofNat n := by
  intro k d hkd
  have hd : (ofNat d).toUInt64 = UInt64.ofNat d := by
    refine UInt64.toNat_inj.mp ?_
    rw [UInt32.toNat_toUInt64, UInt32.toNat_ofNat', UInt64.toNat_ofNat']
    omega
  rw [addSpan, hd, UInt64.ofNat_add]

/-- A tall cell further on in the part the search goes through is the `k`-th of the list. -/
theorem getElem?_of_row {a : ZslCell S} {post : List (ZslCell S)}
    (hrow : hd :: lo = pre ++ y :: (mid ++ a :: post)) (hi : List (ZslCell S)) :
    (lo ++ hi)[pre.length + mid.length]? = some a ∧ pre.length + mid.length < lo.length := by
  have hlen := congrArg List.length hrow
  simp only [length_cons, length_append] at hlen
  have hlt : pre.length + mid.length < lo.length := by omega
  refine ⟨?_, hlt⟩
  have hget : (hd :: lo)[pre.length + mid.length + 1]? = some a := by
    have hsplit : pre ++ y :: (mid ++ a :: post) = (pre ++ y :: mid) ++ a :: post := by simp
    rw [hrow, hsplit]
    simp [Nat.add_assoc]
  rw [List.getElem?_append_left hlt]
  simpa using hget

/-- A cell of a row that is not the header is one of the list, at the position before. -/
theorem getElem?_of_row_ne (hrow : hd :: lo = pre ++ y :: mid) (hne : y ≠ hd)
    (hi : List (ZslCell S)) : 1 ≤ pre.length ∧ (lo ++ hi)[pre.length - 1]? = some y := by
  cases pre with
  | nil =>
    rw [nil_append, List.cons.injEq] at hrow
    exact absurd hrow.1.symm hne
  | cons b pre =>
    rw [cons_append, List.cons.injEq] at hrow
    refine ⟨Nat.le_add_left 1 _, ?_⟩
    rw [hrow.2]
    simp

theorem last_of_row (hrow : hd :: lo = pre ++ [y]) (hne : lo ≠ []) : ∃ lo', lo = lo' ++ [y] := by
  cases pre with
  | nil =>
    rw [nil_append, List.cons.injEq] at hrow
    exact absurd hrow.2 hne
  | cons b pre =>
    rw [cons_append, List.cons.injEq] at hrow
    exact ⟨pre, hrow.2⟩

/-- One level: the search ends at the last tall cell of the part it goes through. -/
theorem zslAdvance_eq (h : ZslHolds z hd (lo ++ hi)) (hlevel : i < z.level)
    (hcnt : Counts add cnt (lo ++ hi).length) (hgo : Steers go cnt (lo ++ hi) lo.length)
    (hrow : hd :: lo = pre ++ y :: mid) (hy : i < y.height) (hfuel : mid.length < fuel) :
    ∃ pre' u mid', LastAbove ZslCell.height i (hd :: lo) pre' u mid' ∧
      zslAdvance z add go i fuel (y.addr, cnt pre.length) = some (u.addr, cnt pre'.length) := by
  induction fuel generalizing pre y mid with
  | zero => omega
  | succ fuel ih =>
    have hlen := congrArg List.length hrow
    simp only [length_cons, length_append] at hlen
    have hlink : z.link y.addr i = some (zslView (reach ZslCell.height i (mid ++ hi))) :=
      h.links i hlevel pre y (mid ++ hi) (by rw [← cons_append, hrow]; simp) hy
    rcases first_tall ZslCell.height i mid with hshort | ⟨m, a, post, rfl, hm, ha⟩
    · refine ⟨pre, y, mid, ⟨hrow, hy, hshort⟩, ?_⟩
      rw [reach_append hshort] at hlink
      rcases first_tall ZslCell.height i hi with hhi | ⟨m, a, post, rfl, hm, ha⟩
      · rw [reach_short hhi] at hlink
        rw [zslAdvance, hlink]
        rfl
      -- the next tall cell is past the part, so the search stops here
      rw [reach_tall hm ha] at hlink
      obtain ⟨n, hn, hscore, hmember⟩ := h.backs.node (c := a) (by simp)
      have hget : (lo ++ (m ++ a :: post))[lo.length + m.length]? = some a := by simp
      have hstop := hgo _ _ hget
      have hcount := hcnt pre.length (mid.length + (m.length + 1)) (by simp; omega)
      have hpos : pre.length + (mid.length + (m.length + 1)) = lo.length + m.length + 1 := by omega
      rw [hpos] at hcount
      rw [zslAdvance, hlink]
      simp only [zslView, map_some, bind_eq_bind, bind_some, hn, hcount, hscore, hmember, hstop]
      simp
    · rw [List.append_assoc, cons_append, reach_tall hm ha] at hlink
      obtain ⟨hget, hlt⟩ := getElem?_of_row hrow hi
      have hmem : a ∈ lo ++ hi := List.mem_of_getElem? hget
      obtain ⟨n, hn, hscore, hmember⟩ := h.backs.node hmem
      have hstep := hgo _ _ hget
      rw [decide_eq_true hlt] at hstep
      have hcount := hcnt pre.length (m.length + 1) (by simp; omega)
      have hrow' : hd :: lo = (pre ++ y :: m) ++ a :: post := by rw [hrow]; simp
      rw [length_append, length_cons] at hfuel
      obtain ⟨pre', u, mid', hlast, hrun⟩ := ih hrow' ha (by omega)
      refine ⟨pre', u, mid', hlast, ?_⟩
      rw [length_append] at hrun
      rw [zslAdvance, hlink]
      simp only [zslView, map_some, bind_eq_bind, bind_some, hn, hcount, hscore, hmember]
      rw [show pre.length + (m.length + 1) = pre.length + m.length + 1 from rfl, hstep]
      exact hrun

/-- Where each level ends, the lowest first. -/
def Landings (cnt : Nat → K) (row : List (ZslCell S)) (us : List (Nat × K)) : Prop :=
  ∀ j c, us[j]? = some c →
    ∃ pre u mid, LastAbove ZslCell.height j row pre u mid ∧ c = (u.addr, cnt pre.length)

theorem zslDescend_eq (h : ZslHolds z hd (lo ++ hi)) (hlevel : i ≤ z.level)
    (hcnt : Counts add cnt (lo ++ hi).length) (hgo : Steers go cnt (lo ++ hi) lo.length)
    (hrow : hd :: lo = pre ++ y :: mid) (hy : i ≤ y.height) :
    ∃ us, zslDescend z add go i (y.addr, cnt pre.length) = some us ∧ us.length = i ∧
      Landings cnt (hd :: lo) us := by
  induction i generalizing pre y mid with
  | zero => exact ⟨[], rfl, rfl, fun j c hc => by simp at hc⟩
  | succ i ih =>
    have hlen := congrArg List.length hrow
    simp only [length_cons, length_append] at hlen
    have hfuel : mid.length < z.length + 1 := by
      rw [h.length, length_append]
      omega
    obtain ⟨pre', u, mid', hlast, hrun⟩ := zslAdvance_eq h hlevel hcnt hgo hrow hy hfuel
    obtain ⟨us, hus, huslen, hland⟩ := ih (by omega) hlast.row_eq hlast.tall.le
    refine ⟨us ++ [(u.addr, cnt pre'.length)], ?_, by simp [huslen], ?_⟩
    · rw [zslDescend, hrun]
      simp only [bind_eq_bind, bind_some, hus]
      rfl
    intro j c hc
    rcases Nat.lt_or_ge j us.length with hj | hj
    · rw [List.getElem?_append_left hj] at hc
      exact hland j c hc
    rw [List.getElem?_append_right hj] at hc
    have hj' : j - us.length = 0 := by
      by_contra hne
      rw [List.getElem?_eq_none (by simp; omega)] at hc
      cases hc
    have hji : j = i := by omega
    rw [hj'] at hc
    injection hc with hc
    exact ⟨pre', u, mid', hji ▸ hlast, hc.symm⟩

/-- A search with a test: the landing it stops at, or that the test fails on the lowest level. -/
theorem zslSearch_eq (found : Nat × K → Option Bool) (ok : ZslCell S → Nat → Bool)
    (h : ZslHolds z hd (lo ++ hi)) (hlevel : i ≤ z.level)
    (hcnt : Counts add cnt (lo ++ hi).length) (hgo : Steers go cnt (lo ++ hi) lo.length)
    (hfound : ∀ pre u mid, hd :: lo = pre ++ u :: mid →
      found (u.addr, cnt pre.length) = some (ok u pre.length))
    (hrow : hd :: lo = pre ++ y :: mid) (hy : i ≤ y.height) :
    (∃ pre' u mid', hd :: lo = pre' ++ u :: mid' ∧ ok u pre'.length = true ∧
      zslSearch z add go found i (y.addr, cnt pre.length) = some (some (u.addr, cnt pre'.length))) ∨
    (zslSearch z add go found i (y.addr, cnt pre.length) = some none ∧
      (0 < i → ∃ pre' u mid', LastAbove ZslCell.height 0 (hd :: lo) pre' u mid' ∧
        ok u pre'.length = false)) := by
  induction i generalizing pre y mid with
  | zero => exact .inr ⟨rfl, fun hpos => absurd hpos (Nat.lt_irrefl 0)⟩
  | succ i ih =>
    have hlen := congrArg List.length hrow
    simp only [length_cons, length_append] at hlen
    have hfuel : mid.length < z.length + 1 := by
      rw [h.length, length_append]
      omega
    obtain ⟨pre', u, mid', hlast, hrun⟩ := zslAdvance_eq h hlevel hcnt hgo hrow hy hfuel
    have htest := hfound pre' u mid' hlast.row_eq
    have hstep : zslSearch z add go found (i + 1) (y.addr, cnt pre.length)
        = if ok u pre'.length then some (some (u.addr, cnt pre'.length))
          else zslSearch z add go found i (u.addr, cnt pre'.length) := by
      rw [zslSearch, hrun]
      simp only [bind_eq_bind, bind_some, htest]
      rfl
    rw [hstep]
    cases hok : ok u pre'.length with
    | true => exact .inl ⟨pre', u, mid', hlast.row_eq, hok, if_pos rfl⟩
    | false =>
      rcases ih (by omega) hlast.row_eq hlast.tall.le with hstop | ⟨hnone, hlow⟩
      · exact .inl hstop
      refine .inr ⟨hnone, fun _ => ?_⟩
      cases i with
      | zero => exact ⟨pre', u, mid', hlast, hok⟩
      | succ i => exact hlow (Nat.succ_pos i)

/-- Every node is on the lowest level: the search ends there at the last cell of its part. -/
theorem lastAbove_zero {u : ZslCell S} (h : ZslHolds z hd (lo ++ hi))
    (hlast : LastAbove ZslCell.height 0 (hd :: lo) pre u mid) :
    mid = [] ∧ pre.length = lo.length := by
  have hmid : mid = [] := by
    cases mid with
    | nil => rfl
    | cons c mid =>
      have hmem : c ∈ lo := by
        have hrow := hlast.row_eq
        cases pre with
        | nil =>
          rw [nil_append, List.cons.injEq] at hrow
          rw [hrow.2]
          simp
        | cons b pre =>
          rw [cons_append, List.cons.injEq] at hrow
          rw [hrow.2]
          simp
      have hpos := h.height_pos c (List.mem_append_left _ hmem)
      have hshort := hlast.short c (by simp)
      omega
  refine ⟨hmid, ?_⟩
  have hlen := congrArg List.length hlast.row_eq
  rw [hmid] at hlen
  simpa using hlen.symm

end

/-! ## One level of an insertion or a deletion -/

section

variable {z : Zskiplist S R} {hd a u : ZslCell S} {lo hi pre mid : List (ZslCell S)} {i : Nat}

structure WritesLevel (i : Nat) (z z' : Zskiplist S R) : Prop where
  keeps : z.Keeps z'
  other : ∀ q j, j ≠ i → z'.link q j = z.link q j

/-- A row with cells taken out or put in, one level of it: the link behind the part before is
    written, and that of the new cell if it reaches the level. -/
theorem LevelLinks.splice {z' : Zskiplist S R} (out new : List (ZslCell S))
    (h : LevelLinks z i (hd :: (lo ++ (out ++ hi))))
    (hu : LastAbove ZslCell.height i (hd :: lo) pre u mid)
    (hnodup : ((hd :: (lo ++ hi)).map ZslCell.addr).Nodup)
    (hlink : z'.link u.addr i = some (zslView (reach ZslCell.height i (mid ++ (new ++ hi)))))
    (hnew : ∀ m b m', new = m ++ b :: m' → i < b.height →
      z'.link b.addr i = some (zslView (reach ZslCell.height i (m' ++ hi))))
    (hframe : ∀ b ∈ hd :: (lo ++ hi), b.addr ≠ u.addr → z'.link b.addr i = z.link b.addr i) :
    LevelLinks z' i (hd :: (lo ++ (new ++ hi))) := by
  have hmem : u ∈ hd :: (lo ++ hi) := by
    rw [← cons_append, hu.row_eq]
    simp
  refine Spans.splice (hd :: lo) h hu hnodup.of_map hlink hnew ?_
  intro b hb hbu _
  have hb' : b ∈ hd :: (lo ++ hi) := by
    rw [← cons_append, List.mem_append]
    exact hb
  exact hframe b hb' (addr_ne hnodup hb' hmem hbu)

theorem nodup_without (h : ((hd :: (lo ++ a :: hi)).map ZslCell.addr).Nodup) :
    (∀ b ∈ hd :: (lo ++ hi), b.addr ≠ a.addr) ∧
      ((hd :: (lo ++ hi)).map ZslCell.addr).Nodup := by
  have hperm : ((hd :: (lo ++ a :: hi)).map ZslCell.addr).Perm
      ((a :: (hd :: (lo ++ hi))).map ZslCell.addr) := by
    refine List.Perm.map _ ?_
    rw [← cons_append]
    exact List.perm_middle
  have hcons := hperm.nodup_iff.mp h
  rw [List.map_cons, List.nodup_cons] at hcons
  exact ⟨fun b hb heq => hcons.1 (heq ▸ List.mem_map_of_mem hb), hcons.2⟩

theorem zslLinkLevel_eq (h : LevelLinks z i (hd :: (lo ++ hi)))
    (hu : LastAbove ZslCell.height i (hd :: lo) pre u mid)
    (hnodup : ((hd :: (lo ++ a :: hi)).map ZslCell.addr).Nodup)
    (hdata : ∀ j < a.height, ∃ k, z.link a.addr j = some k) :
    ∃ z', zslLinkLevel a.addr a.height (ofNat lo.length) i (u.addr, ofNat pre.length) z = some z' ∧
      WritesLevel i z z' ∧ LevelLinks z' i (hd :: (lo ++ a :: hi)) := by
  have hlen : lo.length = pre.length + mid.length := by
    have hlen := congrArg List.length hu.row_eq
    simp only [length_cons, length_append] at hlen
    omega
  have hrank : ofNat lo.length - ofNat pre.length = ofNat mid.length := by
    rw [hlen, ofNat_add]
    grind
  have hold : z.link u.addr i
      = some ⟨(reach ZslCell.height i hi).1.map ZslCell.addr,
          ofNat mid.length + ofNat (reach ZslCell.height i hi).2⟩ := by
    have hlink := h pre u (mid ++ hi) (by rw [← cons_append, hu.row_eq]; simp) hu.tall
    rw [reach_append hu.short] at hlink
    rw [← ofNat_add]
    exact hlink
  obtain ⟨hne, hrest⟩ := nodup_without hnodup
  have hmem : u ∈ hd :: (lo ++ hi) := by
    rw [← cons_append, hu.row_eq]
    simp
  by_cases hi' : i < a.height
  · obtain ⟨k, hk⟩ := hdata i hi'
    obtain ⟨z₁, hz₁, hkeep₁, hlink₁⟩ := Zskiplist.setLink_eq hk
      ⟨(reach ZslCell.height i hi).1.map ZslCell.addr, ofNat (reach ZslCell.height i hi).2⟩
    have hold₁ := (hlink₁ u.addr i).trans (if_neg fun heq => hne u hmem heq.1)
    obtain ⟨z₂, hz₂, hkeep₂, hlink₂⟩ := Zskiplist.setLink_eq (hold₁.trans hold)
      ⟨some a.addr, ofNat mid.length + 1⟩
    refine ⟨z₂, ?_, ⟨hkeep₁.trans hkeep₂, ?_⟩, ?_⟩
    · have hspan : ∀ s, ofNat mid.length + s - ofNat mid.length = s := by
        grind
      rw [zslLinkLevel, hold]
      simp only [bind_eq_bind, bind_some, if_pos hi', hrank, hspan, hz₁]
      exact hz₂
    · intro q j hj
      rw [hlink₂, if_neg fun heq => hj heq.2, hlink₁, if_neg fun heq => hj heq.2]
    refine LevelLinks.splice [] [a] h hu hrest ?_ ?_ ?_
    · rw [hlink₂, if_pos ⟨rfl, rfl⟩]
      show _ = some (zslView (reach ZslCell.height i (mid ++ a :: hi)))
      rw [reach_tall hu.short hi', zslView, ofNat_add]
      rfl
    · intro m b m' hsplit _
      obtain ⟨rfl, rfl, rfl⟩ : m = [] ∧ b = a ∧ m' = [] := by
        cases m with
        | nil => simpa [eq_comm] using hsplit
        | cons c m => simp at hsplit
      rw [hlink₂, if_neg fun heq => hne u hmem heq.1.symm, hlink₁, if_pos ⟨rfl, rfl⟩]
      rfl
    · intro b hb hbu
      rw [hlink₂, if_neg fun heq => hbu heq.1, hlink₁, if_neg fun heq => hne b hb heq.1]
  · obtain ⟨z₂, hz₂, hkeep₂, hlink₂⟩ := Zskiplist.setLink_eq hold
      ⟨(reach ZslCell.height i hi).1.map ZslCell.addr,
        ofNat mid.length + ofNat (reach ZslCell.height i hi).2 + 1⟩
    refine ⟨z₂, ?_, ⟨hkeep₂, ?_⟩, ?_⟩
    · rw [zslLinkLevel, hold]
      simp only [bind_eq_bind, if_neg hi']
      exact hz₂
    · intro q j hj
      rw [hlink₂, if_neg fun heq => hj heq.2]
    have hshort : ∀ b ∈ mid ++ [a], b.height ≤ i := by
      intro b hb
      rcases List.mem_append.mp hb with hb | hb
      · exact hu.short b hb
      · rw [List.mem_singleton.mp hb]
        omega
    refine LevelLinks.splice [] [a] h hu hrest ?_ ?_ ?_
    · rw [hlink₂, if_pos ⟨rfl, rfl⟩, ← List.append_assoc, reach_append hshort, zslView,
        ofNat_add, length_append, ofNat_add]
      simp only [Option.some.injEq, ZslLevel.mk.injEq, true_and]
      show _ = _ + 1 + _
      grind
    · intro m b m' hsplit hb
      obtain ⟨rfl, rfl, rfl⟩ : m = [] ∧ b = a ∧ m' = [] := by
        cases m with
        | nil => simpa [eq_comm] using hsplit
        | cons c m => simp at hsplit
      exact absurd hb hi'
    · intro b hb hbu
      rw [hlink₂, if_neg fun heq => hbu heq.1]

theorem zslUnlinkLevel_eq (h : LevelLinks z i (hd :: (lo ++ a :: hi)))
    (hu : LastAbove ZslCell.height i (hd :: lo) pre u mid)
    (hnodup : ((hd :: (lo ++ a :: hi)).map ZslCell.addr).Nodup) :
    ∃ z', zslUnlinkLevel a.addr i (u.addr, ()) z = some z' ∧ WritesLevel i z z' ∧
      (∀ j, z'.link a.addr j = z.link a.addr j) ∧ LevelLinks z' i (hd :: (lo ++ hi)) := by
  obtain ⟨hapart, hrest⟩ := nodup_without hnodup
  have hself : ∀ {z' : Zskiplist S R} {k : ZslLevel},
      (∀ q j, z'.link q j = if q = u.addr ∧ j = i then some k else z.link q j) →
      ∀ j, z'.link a.addr j = z.link a.addr j := by
    intro z' k hlink j
    have hmem : u ∈ hd :: (lo ++ hi) := by
      rw [← cons_append, hu.row_eq]
      simp
    rw [hlink, if_neg fun heq => hapart u hmem heq.1.symm]
  have hframe : ∀ {z' : Zskiplist S R} {k : ZslLevel},
      (∀ q j, z'.link q j = if q = u.addr ∧ j = i then some k else z.link q j) →
      ∀ b ∈ hd :: (lo ++ hi), b.addr ≠ u.addr → z'.link b.addr i = z.link b.addr i := by
    intro z' k hlink b _ hbu
    rw [hlink, if_neg fun heq => hbu heq.1]
  have hrow : hd :: (lo ++ a :: hi) = pre ++ u :: (mid ++ a :: hi) := by
    rw [← cons_append, hu.row_eq]
    simp
  have hlink := LevelLinks.link (hrow ▸ h) hu.tall
  by_cases hi' : i < a.height
  · rw [reach_tall hu.short hi'] at hlink
    have hnext := LevelLinks.link (show LevelLinks z i ((hd :: lo) ++ a :: hi) from h) hi'
    obtain ⟨z', hz', hkeep, hwrite⟩ := Zskiplist.setLink_eq hlink
      ⟨(reach ZslCell.height i hi).1.map ZslCell.addr,
        ofNat (mid.length + 1) + (ofNat (reach ZslCell.height i hi).2 - 1)⟩
    refine ⟨z', ?_, ⟨hkeep, ?_⟩, hself hwrite,
      LevelLinks.splice [a] [] h hu hrest ?_ ?_ (hframe hwrite)⟩
    · rw [zslUnlinkLevel, hlink]
      simp only [bind_eq_bind, bind_some, zslView, map_some]
      rw [hnext]
      exact hz'
    · intro q j hj
      rw [hwrite, if_neg fun heq => hj heq.2]
    · rw [hwrite, if_pos ⟨rfl, rfl⟩, nil_append, reach_append hu.short, zslView,
        ofNat_add, ofNat_add]
      simp only [Option.some.injEq, ZslLevel.mk.injEq]
      grind
    · intro m b m' hsplit
      simp at hsplit
  · have hshort : ∀ b ∈ mid ++ [a], b.height ≤ i := by
      intro b hb
      rcases List.mem_append.mp hb with hb | hb
      · exact hu.short b hb
      · rw [List.mem_singleton.mp hb]
        omega
    rw [List.append_cons, reach_append hshort] at hlink
    obtain ⟨z', hz', hkeep, hwrite⟩ := Zskiplist.setLink_eq hlink
      ⟨(reach ZslCell.height i hi).1.map ZslCell.addr,
        ofNat ((mid ++ [a]).length + (reach ZslCell.height i hi).2) - 1⟩
    refine ⟨z', ?_, ⟨hkeep, ?_⟩, hself hwrite,
      LevelLinks.splice [a] [] h hu hrest ?_ ?_ (hframe hwrite)⟩
    · have hother : (reach ZslCell.height i hi).1.map ZslCell.addr ≠ some a.addr := by
        intro heq
        obtain ⟨b, hb, hba⟩ := Option.map_eq_some_iff.mp heq
        exact hapart b (by simp [mem_of_reach hb]) hba
      rw [zslUnlinkLevel, hlink]
      simp only [bind_eq_bind, bind_some, zslView, if_neg hother]
      exact hz'
    · intro q j hj
      rw [hwrite, if_neg fun heq => hj heq.2]
    · rw [hwrite, if_pos ⟨rfl, rfl⟩, nil_append, reach_append hu.short, zslView,
        ofNat_add, ofNat_add, length_append, ofNat_add]
      simp only [Option.some.injEq, ZslLevel.mk.injEq, true_and]
      show _ + 1 + _ - 1 = _
      grind
    · intro m b m' hsplit
      simp at hsplit

/-- A level at a time, from one row to another, with what every step keeps. -/
theorem zslEachLevel_eq {f : Nat → Nat × K → Zskiplist S R → Option (Zskiplist S R)}
    {old new : List (ZslCell S)} {us : List (Nat × K)} {P : Zskiplist S R → Prop}
    (hstep : ∀ j u (z₁ : Zskiplist S R), us[j]? = some u → P z₁ → LevelLinks z₁ (i + j) old →
      ∃ z₂, f (i + j) u z₁ = some z₂ ∧ WritesLevel (i + j) z₁ z₂ ∧ P z₂ ∧
        LevelLinks z₂ (i + j) new)
    (hz : P z) (hold : ∀ j, i ≤ j → j < i + us.length → LevelLinks z j old)
    (hnew : ∀ j < i, LevelLinks z j new) :
    ∃ z', zslEachLevel f us i z = some z' ∧ z.Keeps z' ∧ P z' ∧
      (∀ j < i + us.length, LevelLinks z' j new) ∧
      ∀ q j, i + us.length ≤ j → z'.link q j = z.link q j := by
  induction us generalizing i z with
  | nil => exact ⟨z, rfl, .refl z, hz, by simpa using hnew, fun _ _ _ => rfl⟩
  | cons u us ih =>
    rw [length_cons] at hold ⊢
    obtain ⟨z₁, hz₁, hwrite, hP, hlinks⟩ :=
      hstep 0 u z rfl hz (hold i (Nat.le_refl i) (by omega))
    rw [Nat.add_zero] at hz₁ hwrite hlinks
    have hother : ∀ {row} {j}, j ≠ i → LevelLinks z j row →
        LevelLinks z₁ j row :=
      fun hj h => h.congr fun c _ => hwrite.other c.addr _ hj
    have hrest := @ih z₁ (i + 1) ?_ hP ?_ ?_
    · obtain ⟨z', hz', hkeep, hP', hall, htop⟩ := hrest
      refine ⟨z', ?_, hwrite.keeps.trans hkeep, hP', ?_, ?_⟩
      · rw [zslEachLevel, hz₁]
        exact hz'
      · intro j hj
        exact hall j (by omega)
      · intro q j hj
        exact (htop q j (by omega)).trans (hwrite.other q j (by omega))
    · intro j v z₂ hv hP₂ h
      rw [Nat.add_assoc, Nat.add_comm 1 j] at h ⊢
      exact hstep (j + 1) v z₂ hv hP₂ h
    · intro j hij hj
      exact hother (by omega) (hold j (by omega) (by omega))
    intro j hj
    rcases Nat.lt_or_ge j i with hlt | hge
    · exact hother (by omega) (hnew j hlt)
    have hji : j = i := by omega
    rw [hji]
    exact hlinks

end

end Ddup.Ds
