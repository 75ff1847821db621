/-
Ddup.Ds.SkiplistRunTheorems — the shape of a skip list along every run.

`ZslExact z live idx` is what a skip list with the pairs `live` should look like: each level is
part of the level below, the lowest one is the sorted sequence of the pairs, spans are distances,
and ranks and indices are positions. Along a run of insertions and deletions everything but the
spans holds in any case, and the spans hold modulo 2^32 (`zslRun_tracks`); so all of it holds
wherever fewer than 2^32 pairs are live.
-/
import Ddup.Ds.SkiplistOrderTheorems

namespace Ddup.Ds

open Ddup.Lib Ddup.Lib.SkipList
open List (getElem?_map length_cons map_cons)
open Option (bind_some map_some)
open UInt32 (ofNat)

variable {S R : Type} {live : Finset (S ×ₗ Bytes)}

/-! ## The shape -/

/-- The addresses on a level, from a node on; the fuel is more than the number of nodes. -/
def zslRow (z : Zskiplist S R) (i : Nat) : Nat → Nat → Option (List Nat)
  | 0, _ => none
  | fuel + 1, x => do
    let l ← z.link x i
    match l.forward with
    | none => some []
    | some q => return q :: (← zslRow z i fuel q)

def Zskiplist.pair (z : Zskiplist S R) (p : Nat) : Option (S ×ₗ Bytes) :=
  (z.node p).map fun n => toLex (n.score, n.member)

def Zskiplist.backward (z : Zskiplist S R) (p : Nat) : Option (Option Nat) :=
  (z.node p).map ZslNode.backward

/-- A link spans the distance to the node it leads to, or to the end of the list. -/
def SpansExactly (order : List Nat) (pos : Nat) (k : ZslLevel) : Prop :=
  match k.forward with
  | some q => order[pos + k.span.toNat]? = some q
  | none => pos + k.span.toNat + 1 = order.length

/-- What a skip list with these pairs looks like; `rows i` are the nodes on level `i`. -/
structure ZslShape [LinearOrder S] (z : Zskiplist S R) (live : Finset (S ×ₗ Bytes)) (idx : UInt64)
    (rows : Nat → List Nat) : Prop where
  row : ∀ i < z.level, zslRow z i (z.length + 1) z.header = some (rows i)
  nodup : (z.header :: rows 0).Nodup
  sorted : (rows 0).map z.pair = (live.sort (· ≤ ·)).map some
  sublist : ∀ i, i + 1 < z.level → (rows (i + 1)).Sublist (rows i)
  span : ∀ i < z.level, ∀ x ∈ z.header :: rows i, ∃ pos k,
    (z.header :: rows 0)[pos]? = some x ∧ z.link x i = some k ∧
      SpansExactly (z.header :: rows 0) pos k
  backward : ∀ pos x, (rows 0)[pos]? = some x →
    z.backward x = some (if pos = 0 then none else (rows 0)[pos - 1]?)
  tail : z.tail = (rows 0).getLast?
  rank : ∀ s m, zslRank z s m = some (if toLex (s, m) ∈ live
    then ((live.sort (· ≤ ·)).idxOf (toLex (s, m)) : Int) else -1)
  index : zslAt z idx = some (rows 0)[idx.toNat]?
  rank_at : ∀ x, zslAt z idx = some (some x) → ∃ s m, z.pair x = some (toLex (s, m)) ∧
    zslRank z s m = some (idx.toNat : Int)
  at_rank : ∀ s m, zslRank z s m = some (idx.toNat : Int) → ∃ x, zslAt z idx = some (some x) ∧
    z.pair x = some (toLex (s, m))

def ZslExact [LinearOrder S] (z : Zskiplist S R) (live : Finset (S ×ₗ Bytes)) (idx : UInt64) :
    Prop :=
  ∃ rows, ZslShape z live idx rows

section

variable {z : Zskiplist S R} {hd c : ZslCell S} {l pre post : List (ZslCell S)} {i fuel : Nat}
    {a : ZslCell S}

theorem zslRow_eq (h : ZslHolds z hd l) (hi : i < z.level) (hrow : hd :: l = pre ++ c :: post)
    (hc : i < c.height) (hfuel : post.length < fuel) :
    zslRow z i fuel c.addr
      = some ((post.filter fun b => decide (i < b.height)).map ZslCell.addr) := by
  induction fuel generalizing pre c post with
  | zero => omega
  | succ fuel ih =>
    have hlink := LevelLinks.link (hrow ▸ h.links i hi) hc
    rcases first_tall ZslCell.height i post with hshort | ⟨m, a, post, rfl, hm, ha⟩
    · have hnil : (post.filter fun b => decide (i < b.height)) = [] := by
        rw [List.filter_eq_nil_iff]
        intro b hb
        simpa using hshort b hb
      rw [reach_short hshort] at hlink
      rw [zslRow, hlink, hnil]
      rfl
    have hfilter : ((m ++ a :: post).filter fun b => decide (i < b.height))
        = a :: post.filter fun b => decide (i < b.height) := by
      have hnil : (m.filter fun b => decide (i < b.height)) = [] := by
        rw [List.filter_eq_nil_iff]
        intro b hb
        simpa using hm b hb
      rw [List.filter_append, hnil, List.nil_append, List.filter_cons_of_pos (by simpa using ha)]
    rw [List.length_append, length_cons] at hfuel
    rw [reach_tall hm ha] at hlink
    have hrow' : hd :: l = (pre ++ c :: m) ++ a :: post := by rw [hrow]; simp
    have hrest := ih hrow' ha (by omega)
    rw [zslRow, hlink, hfilter]
    simp only [zslView, map_some, Option.bind_eq_bind, bind_some, hrest]
    rfl

theorem spansExactly_of_holds (h : ZslHolds z hd l) (hi : i < z.level) (hlen : l.length < 2 ^ 32)
    (hrow : hd :: l = pre ++ c :: post) (hc : i < c.height) :
    ∃ k, z.link c.addr i = some k ∧
      SpansExactly ((hd :: l).map ZslCell.addr) pre.length k := by
  refine ⟨_, LevelLinks.link (hrow ▸ h.links i hi) hc, ?_⟩
  have hlen' := congrArg List.length hrow
  simp only [length_cons, List.length_append] at hlen'
  have hle := reach_le ZslCell.height i post
  have hspan : (ofNat (reach ZslCell.height i post).2).toNat
      = (reach ZslCell.height i post).2 := by
    rw [UInt32.toNat_ofNat']
    omega
  rcases first_tall ZslCell.height i post with hshort | ⟨m, a, post, rfl, hm, ha⟩
  · rw [reach_short hshort] at hspan ⊢
    show pre.length + (ofNat post.length).toNat + 1 = _
    rw [hspan, List.length_map, length_cons]
    omega
  · rw [reach_tall hm ha] at hspan ⊢
    show (List.map ZslCell.addr (hd :: l))[pre.length + (ofNat (m.length + 1)).toNat]? = _
    rw [hspan, getElem?_map, hrow]
    simp

theorem Backs.getElem? {prev : Option Nat} {k : Nat} (h : Backs z prev l) (hk : l[k]? = some a) :
    z.data a.addr = some ⟨a.score, a.member,
      if k = 0 then prev else l[k - 1]?.map ZslCell.addr, a.height⟩ := by
  induction l generalizing prev k with
  | nil => simp at hk
  | cons b l ih =>
    cases k with
    | zero =>
      rw [List.getElem?_cons_zero, Option.some.injEq] at hk
      rw [← hk]
      exact h.1
    | succ k =>
      rw [ih h.2 hk]
      cases k with
      | zero => rfl
      | succ k => rfl

theorem ZslHolds.filter_zero (h : ZslHolds z hd l) :
    (l.filter fun b => decide (0 < b.height)) = l :=
  List.filter_eq_self.mpr fun b hb => decide_eq_true (h.height_pos b hb)

variable [LinearOrder S]

structure Tracks (z : Zskiplist S R) (hd : ZslCell S) (l : List (ZslCell S))
    (live : Finset (S ×ₗ Bytes)) : Prop where
  holds : ZslHolds z hd l
  inOrder : InOrder l
  live_eq : live = (l.map ZslCell.pair).toFinset

theorem Tracks.mem_iff (h : Tracks z hd l live) (p : S ×ₗ Bytes) :
    p ∈ live ↔ ∃ a ∈ l, a.pair = p := by
  rw [h.live_eq, List.mem_toFinset, List.mem_map]

theorem Tracks.sort_eq (h : Tracks z hd l live) : live.sort (· ≤ ·) = l.map ZslCell.pair := by
  rw [h.live_eq]
  refine (List.toFinset_sort _ h.inOrder.nodup).mpr ?_
  exact List.pairwise_map.mpr (h.inOrder.imp fun hab => hab.le)

theorem Tracks.card_eq (h : Tracks z hd l live) : live.card = l.length := by
  rw [h.live_eq, List.toFinset_card_of_nodup h.inOrder.nodup, List.length_map]

theorem Tracks.idxOf_eq (h : Tracks z hd l live) {k : Nat}
    (hk : l[k]? = some a) : (live.sort (· ≤ ·)).idxOf a.pair = k := by
  have hget : (live.sort (· ≤ ·))[k]? = some a.pair := by
    rw [h.sort_eq, getElem?_map, hk]
    rfl
  obtain ⟨hlt, hk'⟩ := List.getElem?_eq_some_iff.mp hget
  rw [← hk']
  exact List.Nodup.idxOf_getElem (Finset.sort_nodup _ _) k hlt

theorem Tracks.rank_eq (h : Tracks z hd l live) (hcard : live.card < 2 ^ 32) (s : S) (m : Bytes) :
    zslRank z s m = some (if toLex (s, m) ∈ live
      then ((live.sort (· ≤ ·)).idxOf (toLex (s, m)) : Int) else -1) := by
  rcases zslRank_search h.holds h.inOrder (h.card_eq ▸ hcard) s m with
    ⟨k, c, hk, hpair, hrank⟩ | ⟨hnone, hrank⟩
  · have hmem : toLex (s, m) ∈ live := (h.mem_iff _).mpr ⟨c, List.mem_of_getElem? hk, hpair⟩
    rw [hrank, if_pos hmem, ← hpair, h.idxOf_eq hk]
  have hmem : toLex (s, m) ∉ live := fun hmem => by
    obtain ⟨c, hc, hpair⟩ := (h.mem_iff _).mp hmem
    exact hnone c hc hpair
  rw [hrank, if_neg hmem]

theorem Tracks.pair_eq (h : Tracks z hd l live) (ha : a ∈ l) : z.pair a.addr = some a.pair := by
  obtain ⟨n, hn, hscore, hmember⟩ := h.holds.backs.node ha
  rw [Zskiplist.pair, hn, map_some, hscore, hmember]
  rfl

/-- A skip list that tracks fewer than 2^32 pairs has their shape. -/
theorem Tracks.exact {idx : UInt64} (h : Tracks z hd l live)
    (hcard : live.card < 2 ^ 32) (hidx : idx.toNat + 1 < 2 ^ 64) : ZslExact z live idx := by
  have hlen : l.length < 2 ^ 32 := h.card_eq ▸ hcard
  have hat := zslAt_eq h.holds hlen hidx
  refine ⟨fun i => (l.filter fun b => decide (i < b.height)).map ZslCell.addr, ?_⟩
  have hzero : (l.filter fun b => decide (0 < b.height)).map ZslCell.addr = l.map ZslCell.addr := by
    rw [h.holds.filter_zero]
  have hhd : ∀ i < z.level, i < hd.height := fun i hi => by
    rw [h.holds.header_height]
    exact hi.trans_le h.holds.level_le
  have hpos : ∀ {pre post} {a}, hd :: l = pre ++ a :: post →
      ((hd :: l).map ZslCell.addr)[pre.length]? = some a.addr := by
    intro pre post a hrow
    rw [getElem?_map, hrow]
    simp
  constructor
  case row =>
    intro i hi
    rw [h.holds.header]
    exact zslRow_eq h.holds hi (show hd :: l = [] ++ hd :: l from rfl) (hhd i hi)
      (by rw [h.holds.length]; omega)
  case nodup =>
    rw [hzero, h.holds.header]
    exact h.holds.nodup
  case sorted =>
    rw [hzero, h.sort_eq, List.map_map, List.map_map]
    exact List.map_congr_left fun a ha => h.pair_eq ha
  case sublist =>
    intro i _
    refine List.Sublist.map _ (List.monotone_filter_right l fun b hb => ?_)
    rw [decide_eq_true_eq] at hb ⊢
    omega
  case span =>
    intro i hi x hx
    rw [hzero, h.holds.header]
    rw [h.holds.header] at hx
    have hcell : ∃ pre a post, hd :: l = pre ++ a :: post ∧ i < a.height ∧ a.addr = x := by
      rcases List.mem_cons.mp hx with rfl | hx
      · exact ⟨[], hd, l, rfl, hhd i hi, rfl⟩
      obtain ⟨a, ha, rfl⟩ := List.mem_map.mp hx
      obtain ⟨ha, htall⟩ := List.mem_filter.mp ha
      obtain ⟨m, post, rfl⟩ := List.append_of_mem ha
      exact ⟨hd :: m, a, post, rfl, of_decide_eq_true htall, rfl⟩
    obtain ⟨pre, a, post, hrow, htall, rfl⟩ := hcell
    obtain ⟨k, hk, hspan⟩ := spansExactly_of_holds h.holds hi hlen hrow htall
    exact ⟨pre.length, k, hpos hrow, hk, hspan⟩
  case backward =>
    intro pos x hx
    rw [hzero, getElem?_map, Option.map_eq_some_iff] at hx
    obtain ⟨a, ha, rfl⟩ := hx
    have hdata := h.holds.backs.getElem? ha
    rw [Zskiplist.data, Option.map_eq_some_iff] at hdata
    obtain ⟨n, hn, hdata⟩ := hdata
    injection hdata with _ _ hback
    rw [Zskiplist.backward, hn, map_some, hback, hzero, getElem?_map]
  case tail =>
    rw [hzero, List.getLast?_map]
    exact h.holds.tail
  case rank => exact h.rank_eq hcard
  case index =>
    rw [hzero, getElem?_map]
    exact hat
  case rank_at =>
    intro x hx
    rw [hat, Option.some.injEq, Option.map_eq_some_iff] at hx
    obtain ⟨a, ha, rfl⟩ := hx
    have hmem := List.mem_of_getElem? ha
    refine ⟨a.score, a.member, h.pair_eq hmem, ?_⟩
    rw [h.rank_eq hcard, if_pos (show toLex (a.score, a.member) ∈ live from
      (h.mem_iff _).mpr ⟨a, hmem, rfl⟩)]
    exact congrArg (fun k : Nat => some (k : Int)) (h.idxOf_eq ha)
  case at_rank =>
    intro s m hrank
    rcases zslRank_search h.holds h.inOrder hlen s m with ⟨k, a, hk, hpair, hrank'⟩ | ⟨-, hrank'⟩
    · rw [hrank, Option.some.injEq, Int.natCast_inj] at hrank'
      refine ⟨a.addr, ?_, ?_⟩
      · rw [hat, hrank', hk]
        rfl
      · rw [h.pair_eq (List.mem_of_getElem? hk), hpair]
    · rw [hrank, Option.some.injEq] at hrank'
      omega

/-! ## Runs -/

inductive ZslOp (S : Type)
  | insert (score : S) (member : Bytes)
  | delete (score : S) (member : Bytes)

def zslStep (A : Heap.Allocator (ZslNode S)) (L : Levels R) (z : Zskiplist S R) :
    ZslOp S → Option (Zskiplist S R × Int)
  | .insert s m => zslInsert A L z s m
  | .delete s m => zslDelete z s m

def zslRun (A : Heap.Allocator (ZslNode S)) (L : Levels R) (z : Zskiplist S R)
    (ops : List (ZslOp S)) : Option (Zskiplist S R) :=
  ops.foldlM (fun z op => (zslStep A L z op).map Prod.fst) z

/-- The pairs after an operation. A member of more than `UINT32_MAX` bytes is refused. -/
def liveStep (live : Finset (S ×ₗ Bytes)) : ZslOp S → Finset (S ×ₗ Bytes)
  | .insert s m => if m.length ≤ uint32Max then insert (toLex (s, m)) live else live
  | .delete s m => live.erase (toLex (s, m))

/-- The operations insert no pair that is live. -/
def Distinct : Finset (S ×ₗ Bytes) → List (ZslOp S) → Prop
  | _, [] => True
  | live, .insert s m :: ops => toLex (s, m) ∉ live ∧ Distinct (liveStep live (.insert s m)) ops
  | live, .delete s m :: ops => Distinct (liveStep live (.delete s m)) ops

variable {A : Heap.Allocator (ZslNode S)} {L : Levels R} {live : Finset (S ×ₗ Bytes)}

theorem Tracks.insert_step {s : S} {m : Bytes} (h : Tracks z hd l live)
    (hnew : toLex (s, m) ∉ live) :
    ∃ z' l' code, zslInsert A L z s m = some (z', code) ∧
      Tracks z' hd l' (liveStep live (.insert s m)) := by
  by_cases hm : m.length ≤ uint32Max
  · obtain ⟨z', lo, hi, p, rfl, hz', -, hholds, horder⟩ := zslInsert_inOrder A L h.holds h.inOrder hm
      fun c hc hpair => hnew ((h.mem_iff _).mpr ⟨c, hc, hpair⟩)
    refine ⟨z', _, 0, hz', hholds, horder, ?_⟩
    rw [liveStep, if_pos hm, h.live_eq]
    ext q
    simp only [Finset.mem_insert, List.mem_toFinset, List.map_append, map_cons,
      List.mem_append, List.mem_cons]
    tauto
  · refine ⟨z, l, -1, by rw [zslInsert, if_pos (by omega)], ?_⟩
    rw [liveStep, if_neg hm]
    exact h

theorem Tracks.delete_step (h : Tracks z hd l live) (s : S) (m : Bytes) :
    ∃ z' l' code, zslDelete z s m = some (z', code) ∧
      Tracks z' hd l' (liveStep live (.delete s m)) := by
  by_cases hmem : toLex (s, m) ∈ live
  · obtain ⟨a, ha, hpair⟩ := (h.mem_iff _).mp hmem
    obtain ⟨z', lo, hi, rfl, hz', -, hholds, horder⟩ := zslDelete_inOrder h.holds h.inOrder ha hpair
    refine ⟨z', _, 1, hz', hholds, horder, ?_⟩
    have hnodup := h.inOrder.nodup
    rw [List.map_append, map_cons, List.nodup_middle, List.nodup_cons] at hnodup
    rw [liveStep, h.live_eq]
    ext q
    simp only [Finset.mem_erase, List.mem_toFinset, List.map_append, map_cons,
      List.mem_append, List.mem_cons, ← hpair]
    constructor
    · rintro ⟨hne, hq | hq | hq⟩
      · exact .inl hq
      · exact absurd hq hne
      · exact .inr hq
    intro hq
    refine ⟨fun heq => hnodup.1 (heq ▸ List.mem_append.mpr hq), ?_⟩
    rcases hq with hq | hq
    · exact .inl hq
    · exact .inr (.inr hq)
  · have hnot : ∀ c ∈ l, c.pair ≠ toLex (s, m) := fun c hc hpair =>
      hmem ((h.mem_iff _).mpr ⟨c, hc, hpair⟩)
    refine ⟨z, l, 0, zslDelete_missing h.holds h.inOrder hnot, ?_⟩
    rw [liveStep, Finset.erase_eq_of_notMem hmem]
    exact h

/-- Whatever levels are drawn, the skip list tracks the live pairs. -/
theorem zslRun_tracks {ops : List (ZslOp S)} (h : Tracks z hd l live) (hnew : Distinct live ops) :
    ∃ z' l', zslRun A L z ops = some z' ∧ Tracks z' hd l' (ops.foldl liveStep live) := by
  induction ops generalizing z l live with
  | nil => exact ⟨z, l, rfl, h⟩
  | cons op ops ih =>
    have hstep : (∃ z' l' code, zslStep A L z op = some (z', code) ∧
        Tracks z' hd l' (liveStep live op)) ∧ Distinct (liveStep live op) ops := by
      cases op with
      | insert s m => exact ⟨h.insert_step hnew.1, hnew.2⟩
      | delete s m => exact ⟨h.delete_step s m, hnew⟩
    obtain ⟨⟨z₁, l₁, code, hz₁, h₁⟩, hrest⟩ := hstep
    obtain ⟨z', l', hz', h'⟩ := ih h₁ hrest
    refine ⟨z', l', ?_, h'⟩
    rw [zslRun, List.foldlM_cons, hz₁]
    exact hz'

def headerCell [Zero S] (A : Heap.Allocator (ZslNode S)) : ZslCell S :=
  ⟨A.next [], 0, [], zslMaxLevel⟩

theorem zslCreate_tracks [Zero S] (A : Heap.Allocator (ZslNode S)) (L : Levels R) :
    Tracks (zslCreate A L) (headerCell A) [] ∅ := by
  have hnode : (zslCreate A L).node (A.next [])
      = some ⟨0, none, [], List.replicate zslMaxLevel ⟨none, 0⟩⟩ := Heap.get_cons_self _ _ _
  have hlink : ∀ i < zslMaxLevel, (zslCreate A L).link (A.next []) i = some ⟨none, 0⟩ := by
    intro i hi
    rw [Zskiplist.link, hnode, bind_some, List.getElem?_replicate, if_pos hi]
  refine ⟨⟨List.nodup_singleton _, rfl, ?_, rfl, trivial, by simp, by simp, Nat.le_refl 1,
    (show 1 ≤ zslMaxLevel by decide), ?_, ?_, rfl, rfl⟩, List.Pairwise.nil, rfl⟩
  · rw [Zskiplist.data, headerCell, hnode, map_some, List.length_replicate]
  · intro i hi pre c post hrow hc
    have hcell : c = headerCell A ∧ post = [] := by
      cases pre with
      | nil =>
        rw [List.nil_append, List.cons.injEq] at hrow
        exact ⟨hrow.1.symm, hrow.2.symm⟩
      | cons b pre => simp at hrow
    rw [hcell.1] at hc ⊢
    rw [hcell.2]
    exact hlink i hc
  · intro i _ k hk
    rw [Zskiplist.link, headerCell, hnode, bind_some, List.getElem?_replicate] at hk
    split at hk
    · injection hk with hk
      rw [← hk]
    · cases hk

/-- From a new skip list on, whatever levels are drawn: wherever fewer than 2^32 pairs are live,
    the list has the shape of these pairs, at every index but the largest `size_t`. -/
theorem zslRun_exact [Zero S] (A : Heap.Allocator (ZslNode S)) (L : Levels R)
    (ops : List (ZslOp S)) (idx : UInt64) (hnew : Distinct ∅ ops)
    (hcard : (ops.foldl liveStep ∅).card < 2 ^ 32) (hidx : idx.toNat + 1 < 2 ^ 64) :
    ∃ z, zslRun A L (zslCreate A L) ops = some z ∧ ZslExact z (ops.foldl liveStep ∅) idx := by
  obtain ⟨z, l, hz, h⟩ := zslRun_tracks (zslCreate_tracks A L) hnew
  exact ⟨z, hz, h.exact hcard hidx⟩

theorem zslRun_exact_three :
    Distinct (∅ : Finset (ℕ ×ₗ Bytes)) [.insert 2 [98], .insert 1 [97], .delete 2 [98]] ∧
    ∃ z, zslRun (Heap.bump _) zslLevels (zslCreate (Heap.bump _) zslLevels)
        [.insert 2 [98], .insert 1 [97], .delete 2 [98]] = some z ∧
      ZslExact z (List.foldl liveStep (∅ : Finset (ℕ ×ₗ Bytes))
        [.insert 2 [98], .insert 1 [97], .delete 2 [98]]) 0 := by
  have hnew : Distinct (∅ : Finset (ℕ ×ₗ Bytes))
      [.insert 2 [98], .insert 1 [97], .delete 2 [98]] :=
    ⟨by decide, by decide, trivial⟩
  exact ⟨hnew, zslRun_exact _ _ _ _ hnew (by decide) (by decide)⟩

/-! ## Where spans wrap -/

def tallFirst : Levels Bool where
  seed := true
  draw := fun r => (if r then 2 else 1, false)
  draw_pos := fun r => by cases r <;> decide
  draw_le := fun r => by cases r <;> decide

def ascending (k n : Nat) : List (ZslOp Nat) := (List.range' k n).map fun s => .insert s []

/-- A cell of two levels and then cells of one, in order, with scores below `k`. -/
structure TallFirst (z : Zskiplist Nat Bool) (hd t : ZslCell Nat) (m : List (ZslCell Nat))
    (k : Nat) : Prop where
  tracks : Tracks z hd (t :: m) ((t :: m).map ZslCell.pair).toFinset
  tall : t.height = 2
  short : ∀ c ∈ m, c.height = 1
  below : ∀ c ∈ t :: m, c.score < k
  rng : z.rngState = false

end

section

variable {A : Heap.Allocator (ZslNode Nat)} {z : Zskiplist Nat Bool} {hd t : ZslCell Nat}
  {m : List (ZslCell Nat)} {k : Nat}

theorem TallFirst.insert_step (h : TallFirst z hd t m k) :
    ∃ z' m', zslInsert A tallFirst z k [] = some (z', 0) ∧ m'.length = m.length + 1 ∧
      TallFirst z' hd t m' (k + 1) := by
  have hnew : ∀ c ∈ t :: m, c.pair ≠ toLex (k, []) := by
    intro c hc heq
    have hscore : c.score = k := congrArg (fun p => (ofLex p).1) heq
    have hlt := h.below c hc
    omega
  obtain ⟨z', lo, hi, p, hsplit, hz', hrng, hholds, horder⟩ :=
    zslInsert_inOrder A tallFirst h.tracks.holds h.tracks.inOrder (Nat.zero_le _) hnew
  have hhi : hi = [] := by
    cases hi with
    | nil => rfl
    | cons c hi =>
      have hlt := (List.pairwise_cons.mp (List.pairwise_append.mp horder).2.1).1 c (by simp)
      have hbelow := h.below c (by rw [hsplit]; simp)
      have hle : k ≤ c.score := by
        rcases Prod.Lex.toLex_lt_toLex.mp hlt with hlt | ⟨heq, -⟩
        · exact hlt.le
        · exact heq.le
      omega
  subst hhi
  rw [List.append_nil] at hsplit
  subst hsplit
  have hdraw : (tallFirst.draw z.rngState).1 = 1 := by rw [h.rng]; rfl
  rw [List.cons_append] at hholds horder
  refine ⟨z', m ++ [⟨p, k, [], (tallFirst.draw z.rngState).1⟩], hz', by simp,
    ⟨hholds, horder, rfl⟩, h.tall, ?_, ?_, ?_⟩
  · intro c hc
    rcases List.mem_append.mp hc with hc | hc
    · exact h.short c hc
    · rw [List.mem_singleton.mp hc]
      exact hdraw
  · intro c hc
    rw [← List.cons_append] at hc
    rcases List.mem_append.mp hc with hc | hc
    · exact (h.below c hc).trans (Nat.lt_succ_self k)
    · rw [List.mem_singleton.mp hc]
      exact Nat.lt_succ_self k
  · rw [hrng]
    rfl

theorem TallFirst.run (h : TallFirst z hd t m k) (n : Nat) :
    ∃ z' m', zslRun A tallFirst z (ascending k n) = some z' ∧ m'.length = m.length + n ∧
      TallFirst z' hd t m' (k + n) := by
  induction n generalizing z m k with
  | zero => exact ⟨z, m, rfl, rfl, h⟩
  | succ n ih =>
    obtain ⟨z₁, m₁, hz₁, hlen₁, h₁⟩ := h.insert_step
    obtain ⟨z', m', hz', hlen', h'⟩ := ih h₁
    refine ⟨z', m', ?_, by omega, by rwa [Nat.add_assoc, Nat.add_comm 1 n] at h'⟩
    rw [ascending, List.range'_succ, map_cons, zslRun, List.foldlM_cons, zslStep, hz₁]
    exact hz'

theorem tallFirst_create (A : Heap.Allocator (ZslNode Nat)) :
    ∃ z hd t, zslInsert A tallFirst (zslCreate A tallFirst) 0 [] = some (z, 0) ∧
      TallFirst z hd t [] 1 := by
  have h := zslCreate_tracks A tallFirst
  obtain ⟨z, lo, hi, p, hsplit, hz, hrng, hholds, horder⟩ :=
    zslInsert_inOrder A tallFirst h.holds h.inOrder (Nat.zero_le _)
      (show ∀ c ∈ ([] : List (ZslCell Nat)), c.pair ≠ toLex (0, []) by simp)
  obtain ⟨rfl, rfl⟩ := List.append_eq_nil_iff.mp hsplit.symm
  refine ⟨z, _, _, hz, ⟨⟨hholds, horder, rfl⟩, rfl, by simp, ?_, hrng⟩⟩
  intro c hc
  rw [List.mem_singleton.mp hc]
  exact Nat.one_pos

theorem TallFirst.not_exact (h : TallFirst z hd t m k) (hlen : 2 ^ 32 ≤ m.length)
    (live : Finset (ℕ ×ₗ Bytes)) (idx : UInt64) : ¬ ZslExact z live idx := by
  rintro ⟨rows, hrows⟩
  have hholds := h.tracks.holds
  have hlevel : 1 < z.level := by
    have hle := hholds.height_le t (by simp)
    rw [h.tall] at hle
    exact hle
  have hrow : ∀ i < z.level, rows i
      = ((t :: m).filter fun b => decide (i < b.height)).map ZslCell.addr := by
    intro i hi
    have hfuel : (t :: m).length < z.length + 1 := by
      rw [hholds.length]
      omega
    have hwalk := zslRow_eq hholds hi (show hd :: t :: m = [] ++ hd :: t :: m from rfl)
      (by rw [hholds.header_height]; exact hi.trans_le hholds.level_le) hfuel
    rw [← hholds.header, hrows.row i hi] at hwalk
    exact Option.some.inj hwalk
  have hzero : rows 0 = (t :: m).map ZslCell.addr := by rw [hrow 0 (by omega), hholds.filter_zero]
  have hmem : t.addr ∈ z.header :: rows 1 := by
    rw [hrow 1 hlevel, List.filter_cons_of_pos (by simp [h.tall])]
    simp
  obtain ⟨pos, s, hpos, hlink, hspan⟩ := hrows.span 1 hlevel t.addr hmem
  have hshort : ∀ c ∈ m, c.height ≤ 1 := fun c hc => (h.short c hc).le
  have hlink' := LevelLinks.link (show LevelLinks z 1 ([hd] ++ t :: m) from hholds.links 1 hlevel)
    (by rw [h.tall]; exact Nat.one_lt_two)
  rw [reach_short hshort, hlink, Option.some.injEq] at hlink'
  subst hlink'
  have hnodup := hrows.nodup
  have hpos' : pos = 1 := by
    have hone : (z.header :: rows 0)[1]? = some t.addr := by
      rw [hzero]
      rfl
    have hlt := (List.getElem?_eq_some_iff.mp hpos).1
    exact (List.getElem?_inj hlt hnodup).mp (hpos.trans hone.symm)
  have hend : pos + (ofNat m.length).toNat + 1 = (z.header :: rows 0).length := hspan
  rw [UInt32.toNat_ofNat', hzero, length_cons, List.length_map, length_cons] at hend
  omega

theorem distinct_ascending {live : Finset (ℕ ×ₗ Bytes)} {k : Nat}
    (h : ∀ p ∈ live, (ofLex p).1 < k) (n : Nat) : Distinct live (ascending k n) := by
  induction n generalizing live k with
  | zero => trivial
  | succ n ih =>
    refine ⟨fun hmem => Nat.lt_irrefl k (h _ hmem), ih ?_⟩
    intro p hp
    rw [liveStep, if_pos (show [].length ≤ uint32Max from Nat.zero_le _), Finset.mem_insert] at hp
    rcases hp with rfl | hp
    · exact Nat.lt_succ_self k
    · exact (h p hp).trans (Nat.lt_succ_self k)

/-- After more than 2^32 insertions in order, the first one of two levels and the others of one,
    the span of the first node's second level is not its distance to the end. -/
theorem wideSpan_lost :
    ¬ ∀ (ops : List (ZslOp Nat)) (idx : UInt64), Distinct ∅ ops →
      ∃ z, zslRun (Heap.bump _) tallFirst (zslCreate (Heap.bump _) tallFirst) ops = some z ∧
        ZslExact z (ops.foldl liveStep ∅) idx := by
  intro hall
  obtain ⟨n, hn⟩ : ∃ n, 2 ^ 32 ≤ n := ⟨2 ^ 32, Nat.le_refl _⟩
  obtain ⟨z₁, hd, t, hz₁, h₁⟩ := tallFirst_create (Heap.bump (ZslNode Nat))
  obtain ⟨z₂, m, hz₂, hlen, h₂⟩ := h₁.run n
  have hrun : zslRun (Heap.bump _) tallFirst (zslCreate (Heap.bump _) tallFirst)
      (ascending 0 (n + 1)) = some z₂ := by
    rw [ascending, List.range'_succ, map_cons, zslRun, List.foldlM_cons, zslStep, hz₁]
    exact hz₂
  obtain ⟨z, hz, hexact⟩ := hall (ascending 0 (n + 1)) 0 (distinct_ascending (by simp) _)
  rw [hrun, Option.some.injEq] at hz
  rw [← hz] at hexact
  exact h₂.not_exact (by rw [hlen]; simpa using hn) _ _ hexact

end

end Ddup.Ds
