/-
Ddup.Ds.QuicklistIterTheorems — iterators over a quicklist as positions in a list.

`Stands l it k` says that the iterator points at the `k`-th element: at an entry of some node,
counted from the elements of the nodes before it. Seeking and moving reach the position they
should, and an edit at the iterator is the edit of the list there. A removal may merge the node
with a neighbour; the iterator is then found again by its index.
-/
import Ddup.Ds.QuicklistNodeTheorems

namespace Ddup.Ds

open Ddup.Lib
open List (append_cons append_nil length_append)

variable {c : Chain QlNode} {l pre post : List (Nat × QlNode)} {p : Nat} {n : QlNode} {fill : Nat}
  {q : Quicklist} {count i : Nat} {data lp : Bytes} {ys : List Bytes}

/-! ## Iterators -/

/-- An iterator at the `k`-th element. -/
def Stands (l : List (Nat × QlNode)) (it : QlIter) (k : Nat) : Prop :=
  ∃ pre p n post j, l = pre ++ (p, n) :: post ∧ it = ⟨some p, some (pos (contents n) j)⟩ ∧
    j < (contents n).length ∧ k = (allOf pre).length + j

def Points (l : List (Nat × QlNode)) (it : QlIter) : Option Nat → Prop
  | none => it.entry = none
  | some k => Stands l it k

def position (xs : List Bytes) (k : Nat) : Option Nat := if k < xs.length then some k else none

def before (k : Nat) : Option Nat := if k = 0 then none else some (k - 1)

def startOf : List (Nat × QlNode) → QlIter
  | [] => ⟨none, none⟩
  | (p, n) :: _ => ⟨some p, some (pos (contents n) 0)⟩

theorem startOf_points (h : ∀ x ∈ post, NodeSound x.2) (pre : List (Nat × QlNode)) :
    Points (pre ++ post) (startOf post) (position (allOf (pre ++ post)) (allOf pre).length) := by
  cases post with
  | nil =>
    rw [append_nil, position, if_neg (Nat.lt_irrefl _)]
    exact rfl
  | cons d post =>
    obtain ⟨p, n⟩ := d
    have hpos : 0 < (contents n).length := (h (p, n) List.mem_cons_self).pos_length
    have hlt : (allOf pre).length < (allOf (pre ++ (p, n) :: post)).length := by
      simp only [allOf_append, allOf_cons, length_append]
      omega
    rw [position, if_pos hlt]
    exact ⟨pre, p, n, post, 0, rfl, rfl, hpos, rfl⟩

theorem enterNode_start (h : Nodes c (pre ++ post)) (full : Prop) :
    Meets (enterNode c true (Chain.firstOf post)) full fun it => it = startOf post := by
  cases post with
  | nil => exact rfl
  | cons d post =>
    obtain ⟨p, n⟩ := d
    have hn := h.at
    refine Meets.derefBind h.holds.node_eq ?_
    exact congrArg (QlIter.mk (some p)) (hn.packs.lpFirst_eq hn.nonempty)

theorem enterNode_first (h : Nodes c (pre ++ post)) (full : Prop) :
    Meets (enterNode c true (Chain.firstOf post)) full fun it =>
      Points (pre ++ post) it (position (allOf (pre ++ post)) (allOf pre).length) := by
  refine (enterNode_start h full).mono id ?_
  rintro it rfl
  exact startOf_points (fun x hx => h.sound x (List.mem_append_right _ hx)) pre

theorem enterNode_last (h : Nodes c (pre ++ post)) (full : Prop) :
    Meets (enterNode c false (Chain.lastOf pre)) full fun it =>
      Points (pre ++ post) it (before (allOf pre).length) := by
  cases pre using List.reverseRecOn with
  | nil => exact rfl
  | append_singleton pre d =>
    obtain ⟨p, n⟩ := d
    have hsplit : Nodes c (pre ++ (p, n) :: post) := by
      rw [append_cons]
      exact h
    have hn := hsplit.at
    have hpos := hn.pos_length
    have hlen : (allOf (pre ++ [(p, n)])).length = (allOf pre).length + (contents n).length := by
      simp
    rw [Chain.lastOf_snoc, before, if_neg (by omega)]
    refine Meets.derefBind hsplit.holds.node_eq ?_
    refine ⟨pre, p, n, post, (contents n).length - 1, (append_cons _ _ _).symm, ?_, by omega,
      by omega⟩
    exact congrArg (QlIter.mk (some p)) (hn.packs.lpLast_eq hn.nonempty)

theorem qlFirst_meets (h : Nodes q.chain l) (full : Prop) :
    Meets (qlFirst q) full fun it => Points l it (position (allOf l) 0) := by
  rw [qlFirst, h.holds.head]
  exact enterNode_first (show Nodes q.chain ([] ++ l) from h) full

theorem qlLast_meets (h : Nodes q.chain l) (full : Prop) :
    Meets (qlLast q) full fun it => Points l it (before (allOf l).length) := by
  have hsplit : Nodes q.chain (l ++ []) := by
    rw [append_nil]
    exact h
  have hlast := enterNode_last hsplit full
  rw [append_nil] at hlast
  rw [qlLast, h.holds.tail]
  exact hlast

variable {it : QlIter} {k : Nat}

theorem Stands.lt (h : Stands l it k) : k < (allOf l).length := by
  obtain ⟨pre, p, n, post, j, rfl, -, hj, rfl⟩ := h
  simp only [allOf_append, allOf_cons, length_append]
  omega

theorem qlIterNext_meets (h : Nodes q.chain l) (hit : Stands l it k) (full : Prop) :
    Meets (qlIterNext q it) full fun it' => Points l it' (position (allOf l) (k + 1)) := by
  obtain ⟨pre, p, n, post, j, rfl, rfl, hj, rfl⟩ := hit
  have hn := h.at
  refine Meets.derefBind rfl (Meets.derefBind h.holds.node_eq ?_)
  rw [hn.packs.lpNext_eq hj]
  by_cases hnext : j + 1 < (contents n).length
  · have hlt : (allOf pre).length + j + 1 < (allOf (pre ++ (p, n) :: post)).length := by
      simp only [allOf_append, allOf_cons, length_append]
      omega
    rw [if_pos hnext, position, if_pos hlt]
    exact ⟨pre, p, n, post, j + 1, rfl, rfl, hnext, by omega⟩
  have hsplit : Nodes q.chain ((pre ++ [(p, n)]) ++ post) := by
    rw [← append_cons]
    exact h
  have hlen : (allOf (pre ++ [(p, n)])).length = (allOf pre).length + j + 1 := by
    simp only [allOf_append, allOf_cons, allOf_nil, append_nil, length_append]
    omega
  have henter := enterNode_first hsplit full
  rw [hlen, ← append_cons] at henter
  rw [if_neg hnext]
  exact henter

theorem qlIterPrev_meets (h : Nodes q.chain l) (hit : Stands l it k) (full : Prop) :
    Meets (qlIterPrev q it) full fun it' => Points l it' (before k) := by
  obtain ⟨pre, p, n, post, j, rfl, rfl, hj, rfl⟩ := hit
  have hn := h.at
  refine Meets.derefBind rfl (Meets.derefBind h.holds.node_eq ?_)
  rw [hn.packs.lpPrev_eq hj.le]
  by_cases hzero : j = 0
  · rw [hzero]
    exact enterNode_last h full
  · rw [if_neg hzero, before, if_neg (by omega)]
    exact ⟨pre, p, n, post, j - 1, rfl, rfl, by omega, by omega⟩

theorem qlIterValue_meets (h : Nodes q.chain l) (hit : Stands l it k) (full : Prop) :
    Meets (qlIterValue q it) full fun v => v = (allOf l)[k]? := by
  obtain ⟨pre, p, n, post, j, rfl, rfl, hj, rfl⟩ := hit
  have hx : (contents n)[j]? = some (contents n)[j] := List.getElem?_eq_getElem hj
  refine Meets.derefBind rfl (Meets.derefBind h.holds.node_eq ?_)
  show some (lpGetStr (n.lp.drop (pos (contents n) j))) = _
  rw [h.at.packs.lpGetStr_eq hx, allOf_append, allOf_cons,
    List.getElem?_append_right (Nat.le_add_right _ _), Nat.add_sub_cancel_left,
    List.getElem?_append_left hj, hx]

/-! ### Seeking -/

theorem length_le_heap (h : c.Holds l) : l.length ≤ c.nodes.length := by
  have hsub : l.map Prod.fst ⊆ c.nodes.map Prod.fst := by
    intro p hp
    by_contra hnot
    refine (Chain.node_none_iff h).mp ?_ hp
    rw [Chain.node, Heap.get, Option.map_eq_none_iff, List.find?_eq_none]
    intro d hd heq
    exact hnot (List.mem_map.mpr ⟨d, hd, beq_iff_eq.mp heq⟩)
  have hle := (h.nodup.subperm hsub).length_le
  simpa using hle

theorem seekLoop_ahead (h : Nodes c l) (full : Prop) :
    ∀ fuel pre {rest} {idx}, l = pre ++ rest → idx < (allOf rest).length → rest.length < fuel →
      Meets (seekLoop c true fuel (Chain.firstOf rest) idx) full fun r => ∃ pre' n post,
        l = pre' ++ (r.1, n) :: post ∧ r.2 < (contents n).length ∧
          (allOf pre).length + idx = (allOf pre').length + r.2 := by
  intro fuel
  induction fuel with
  | zero => intro pre rest idx _ _ hfuel; omega
  | succ fuel ih =>
    intro pre rest idx hl hidx hfuel
    cases rest with
    | nil => exact absurd hidx (Nat.not_lt_zero _)
    | cons d rest =>
      obtain ⟨p, n⟩ := d
      subst hl
      have hn := h.at
      rw [allOf_cons, length_append] at hidx
      refine Meets.derefBind h.holds.node_eq ?_
      rw [hn.count]
      by_cases hskip : (contents n).length ≤ idx
      · rw [if_pos hskip]
        refine (ih (pre ++ [(p, n)]) (append_cons _ _ _)
          (show idx - (contents n).length < (allOf rest).length by omega)
          (by simpa using hfuel)).mono id ?_
        rintro r ⟨pre', m, post, hl, hr, hsum⟩
        refine ⟨pre', m, post, hl, hr, ?_⟩
        rw [allOf_append, allOf_cons, allOf_nil, append_nil, length_append] at hsum
        omega
      · rw [if_neg hskip]
        exact ⟨pre, n, rest, rfl, Nat.lt_of_not_le hskip, rfl⟩

theorem seekLoop_back (h : Nodes c l) (full : Prop) :
    ∀ fuel post {front} {idx}, l = front ++ post → idx < (allOf front).length → front.length < fuel →
      Meets (seekLoop c false fuel (Chain.lastOf front) idx) full fun r => ∃ pre n post',
        l = pre ++ (r.1, n) :: post' ∧ r.2 < (contents n).length ∧
          (allOf post).length + idx = (allOf post').length + r.2 := by
  intro fuel
  induction fuel with
  | zero => intro post front idx _ _ hfuel; omega
  | succ fuel ih =>
    intro post front idx hl hidx hfuel
    cases front using List.reverseRecOn with
    | nil => exact absurd hidx (Nat.not_lt_zero _)
    | append_singleton front d =>
      obtain ⟨p, n⟩ := d
      have hsplit : l = front ++ (p, n) :: post := by rw [hl, ← append_cons]
      subst hsplit
      have hn := h.at
      rw [allOf_append, allOf_cons, allOf_nil, append_nil, length_append] at hidx
      rw [Chain.lastOf_snoc]
      refine Meets.derefBind h.holds.node_eq ?_
      rw [hn.count]
      by_cases hskip : (contents n).length ≤ idx
      · rw [if_pos hskip]
        refine (ih ((p, n) :: post) rfl
          (show idx - (contents n).length < (allOf front).length by omega)
          (by simpa using hfuel)).mono id ?_
        rintro r ⟨pre, m, post', hl, hr, hsum⟩
        refine ⟨pre, m, post', hl, hr, ?_⟩
        rw [allOf_cons, length_append] at hsum
        omega
      · rw [if_neg hskip]
        exact ⟨front, n, post, rfl, Nat.lt_of_not_le hskip, rfl⟩

def Found (l : List (Nat × QlNode)) (it : Option QlIter) (cur : Option Nat) : Prop :=
  match it with
  | none => cur = none
  | some it => ∃ k, cur = some k ∧ Stands l it k

theorem qlSeek_meets (h : Sound q l) (idx : Nat) (full : Prop) :
    Meets (qlSeek q idx) full fun it => Found l it (position (allOf l) idx) := by
  have hheap := length_le_heap h.nodes.holds
  have hlen := h.len
  unfold qlSeek
  split
  · rename_i hout
    exact if_neg (by omega)
  have hpos : position (allOf l) idx = some idx := if_pos (by omega)
  rw [hpos]
  split
  · rw [h.nodes.holds.head]
    refine (seekLoop_ahead h.nodes full _ [] rfl (by omega) (by omega)).bind ?_
    rintro ⟨p, i⟩ ⟨pre, n, post, rfl, hi, hsum⟩
    refine Meets.derefBind h.nodes.holds.node_eq ?_
    have hseek := h.nodes.at.packs.lpSeek_nat hi
    rw [hseek]
    refine ⟨idx, rfl, pre, p, n, post, i, rfl, rfl, hi, ?_⟩
    simpa using hsum
  rw [h.nodes.holds.tail]
  refine (seekLoop_back h.nodes full _ [] (append_nil l).symm (by omega)
    (by omega)).bind ?_
  rintro ⟨p, i⟩ ⟨pre, n, post, rfl, hi, hsum⟩
  refine Meets.derefBind h.nodes.holds.node_eq ?_
  have hn := h.nodes.at
  have hindex : (n.count - 1 - i) = (((contents n).length - 1 - i : Nat) : Int) := by
    rw [hn.count]
    omega
  have hseek := hn.packs.lpSeek_nat (show (contents n).length - 1 - i < (contents n).length by omega)
  rw [hindex, hseek]
  refine ⟨idx, rfl, pre, p, n, post, (contents n).length - 1 - i, rfl, rfl, by omega, ?_⟩
  simp only [allOf_append, allOf_cons, length_append, allOf_nil, List.length_nil] at hlen hsum
  omega

/-! ## Edits -/

section Middle

variable {α : Type} {xs : List α} {j : Nat}

theorem set_middle (as bs : List α) (x : α) (hj : j < xs.length) :
    (as ++ (xs ++ bs)).set (as.length + j) x = as ++ (xs.set j x ++ bs) := by
  rw [List.set_append_right _ _ (Nat.le_add_right _ _), Nat.add_sub_cancel_left,
    List.set_append_left _ _ hj]

theorem eraseIdx_middle (as bs : List α) (hj : j < xs.length) :
    (as ++ (xs ++ bs)).eraseIdx (as.length + j) = as ++ (xs.eraseIdx j ++ bs) := by
  rw [List.eraseIdx_append_of_length_le (Nat.le_add_right _ _), Nat.add_sub_cancel_left,
    List.eraseIdx_append_of_lt_length hj]

theorem insertIdx_middle (as bs : List α) (x : α) (hj : j ≤ xs.length) :
    (as ++ (xs ++ bs)).insertIdx (as.length + j) x = as ++ (xs.insertIdx j x ++ bs) := by
  have hle : as.length + j ≤ (as ++ (xs ++ bs)).length := by
    simp only [length_append]
    omega
  rw [insertIdx_eq_take_append_drop x hle, insertIdx_eq_take_append_drop x hj,
    List.take_length_add_append, List.drop_length_add_append, List.take_append_of_le_length hj,
    List.drop_append_of_le_length hj]
  simp

end Middle

theorem pos_of_take_eq {xs : List Bytes} {j : Nat} (h : xs.take j = ys.take j) :
    pos xs j = pos ys j := by
  rw [pos, pos, offset, offset, h]

theorem qlSet_meets (h : Sound q l) (hit : Stands l it k) (hdata : Short data) :
    Meets (qlSet q it data) (uint32Max < packedBytes ((allOf l).set k data)) fun r =>
      ∃ l', Sound r.1 l' ∧ allOf l' = (allOf l).set k data ∧ Stands l' r.2.1 k := by
  obtain ⟨pre, p, n, post, j, rfl, rfl, hj, rfl⟩ := hit
  have hfits : ¬ uint32Max < data.length := by
    unfold Short at hdata
    unfold uint32Max
    omega
  have hn := h.nodes.at
  have hset := set_middle (allOf pre) (allOf post) data hj
  rw [← allOf_cons p n post, ← allOf_append] at hset
  rw [hset]
  dsimp only [qlSet]
  rw [if_neg hfits]
  refine Meets.derefBind rfl (Meets.derefBind h.nodes.holds.node_eq ?_)
  have hreplace := hn.packs.lpReplace_meets hdata hj
  refine Meets.bind (P := fun lp => Packs lp ((contents n).set j data)) ?_ ?_
  · refine Meets.alive ?_ ?_
    · intro hnone
      rw [hnone] at hreplace
      exact hreplace.trans_le (packedBytes_infix_le ⟨allOf pre, allOf post, by simp⟩)
    · intro lp hlp
      rw [hlp] at hreplace
      exact hreplace
  intro lp hlp
  have hm : NodeSound ⟨lp, n.count⟩ := by
    refine nodeSound_of_packs hlp (by rw [List.length_set]; exact hn.count) fun hnil => ?_
    have hlen := congrArg List.length hnil
    rw [List.length_set] at hlen
    exact absurd hlen (Nat.ne_of_gt hn.pos_length)
  obtain ⟨c', hset', hnodes⟩ := h.nodes.setData hm
  refine Meets.derefBind hset' ?_
  have hall : allOf (pre ++ (p, ⟨lp, n.count⟩) :: post)
      = allOf pre ++ ((contents n).set j data ++ allOf post) := by
    rw [allOf_append, allOf_cons, contents_of_packs hlp]
  refine ⟨_, ⟨hnodes, ?_⟩, hall, pre, p, _, post, j, rfl, ?_, ?_, rfl⟩
  · rw [hall, h.len]
    simp
  · rw [contents_of_packs hlp]
    refine congrArg (fun e => QlIter.mk (some p) (some e)) (pos_of_take_eq ?_)
    rw [List.take_set_of_le (Nat.le_refl j)]
  · rw [contents_of_packs hlp, List.length_set]
    exact hj

def insertAt (w : Where) (k : Nat) : Nat := if w = .before then k else k + 1

theorem Packs.lpInsert_at {s : Bytes} {xs : List Bytes} (h : Packs lp xs) (w : Where)
    (hs : Short s) (hi : i < xs.length) :
    match lpInsert lp s (some (pos xs i)) w with
    | none => uint32Max < packedBytes (xs.insertIdx (insertAt w i) s)
    | some r => Packs r.1 (xs.insertIdx (insertAt w i) s) ∧ r.2 = pos xs (insertAt w i) := by
  cases w with
  | before => exact h.lpInsert_before hs hi.le
  | after => exact h.lpInsert_after hs hi

theorem qlInsert_meets (h : Sound q l) (hit : Stands l it k) (w : Where) (hdata : Short data) :
    Meets (qlInsert q it w data) (uint32Max < packedBytes ((allOf l).insertIdx (insertAt w k) data))
      fun r => ∃ l', Sound r.1 l' ∧ allOf l' = (allOf l).insertIdx (insertAt w k) data ∧
        Stands l' r.2.1 (insertAt w k) := by
  obtain ⟨pre, p, n, post, j, rfl, rfl, hj, rfl⟩ := hit
  have hfits : ¬ uint32Max < data.length := by
    unfold Short at hdata
    unfold uint32Max
    omega
  have hn := h.nodes.at
  have hplace : insertAt w ((allOf pre).length + j) = (allOf pre).length + insertAt w j := by
    cases w <;> rfl
  have hle : insertAt w j ≤ (contents n).length := by
    cases w
    · exact hj.le
    · exact hj
  have hins := insertIdx_middle (allOf pre) (allOf post) data hle
  rw [← allOf_cons p n post, ← allOf_append] at hins
  have hlist := hn.packs.lpInsert_at w hdata hj
  rw [hplace, hins]
  dsimp only [qlInsert]
  rw [if_neg hfits]
  refine Meets.derefBind rfl (Meets.derefBind h.nodes.holds.node_eq ?_)
  refine Meets.bind (P := fun r => Packs r.1 ((contents n).insertIdx (insertAt w j) data) ∧
    r.2 = pos (contents n) (insertAt w j)) ?_ ?_
  · refine Meets.alive ?_ ?_
    · intro hnone
      rw [hnone] at hlist
      exact hlist.trans_le (packedBytes_infix_le ⟨allOf pre, allOf post, by simp⟩)
    · intro r hr
      rw [hr] at hlist
      exact hlist
  rintro ⟨lp, newp⟩ ⟨hlp, hnewp⟩
  subst hnewp
  have hlen := List.length_insertIdx_of_le_length hle data
  have hbound := hlp.packable.length_bound
  have hcount : uint32 (n.count + 1) = ((contents n).insertIdx (insertAt w j) data).length := by
    rw [hn.count, hlen]
    exact Nat.mod_eq_of_lt (by omega)
  have hm : NodeSound ⟨lp, uint32 (n.count + 1)⟩ :=
    nodeSound_of_packs hlp hcount fun hnil => by simp [hnil] at hlen
  obtain ⟨c', hset', hnodes⟩ := h.nodes.setData hm
  refine Meets.derefBind hset' ?_
  have hall : allOf (pre ++ (p, ⟨lp, uint32 (n.count + 1)⟩) :: post)
      = allOf pre ++ ((contents n).insertIdx (insertAt w j) data ++ allOf post) := by
    rw [allOf_append, allOf_cons, contents_of_packs hlp]
  refine ⟨_, ⟨hnodes, ?_⟩, hall, pre, p, _, post, insertAt w j, rfl, ?_, ?_, rfl⟩
  · rw [hall, h.len]
    simp only [allOf_append, allOf_cons, length_append]
    omega
  · rw [contents_of_packs hlp]
    refine congrArg (fun e => QlIter.mk (some p) (some e)) (pos_of_take_eq ?_)
    rw [List.take_insertIdx_eq_take_of_le _ _ _ _ (Nat.le_refl _)]
  · rw [contents_of_packs hlp]
    omega

/-! ### Removing -/

theorem pos_strictMono {xs : List Bytes} (h : ∀ x ∈ xs, Short x) {j : Nat} (hij : i < j)
    (hj : j ≤ xs.length) : pos xs i < pos xs j := by
  induction j with
  | zero => omega
  | succ j ih =>
    have hx : xs[j]? = some xs[j] := List.getElem?_eq_getElem hj
    have hentry := lpEncodeEntry_pos (h _ (List.mem_of_getElem? hx))
    have hsucc := pos_succ hx
    rcases Nat.lt_succ_iff_lt_or_eq.mp hij with hlt | rfl
    · have hprev := ih hlt (by omega)
      omega
    · omega

theorem length_takeWhile_ne {a : Nat} : ∀ {l : List Nat} {j : Nat}, l[j]? = some a →
    (∀ i < j, l[i]? ≠ some a) → (l.takeWhile (· ≠ a)).length = j
  | [], j, h, _ => by simp at h
  | x :: l, 0, h, _ => by
    have hx : x = a := by simpa using h
    simp [hx]
  | x :: l, j + 1, h, hbefore => by
    have hx : x ≠ a := fun heq => hbefore 0 (Nat.succ_pos j) (by simp [heq])
    have ih := length_takeWhile_ne (by simpa using h)
      fun i hi => by simpa using hbefore (i + 1) (Nat.succ_lt_succ hi)
    simp only [decide_not] at ih
    simp [hx, ih]

theorem qlEntryIndex_eq {xs : List Bytes} (h : Packs lp xs) {j : Nat}
    (hj : j < xs.length) : qlEntryIndex lp (pos xs j) = j := by
  rw [qlEntryIndex, h.lpForward_eq]
  refine length_takeWhile_ne (by simp [hj]) ?_
  intro i hi heq
  have hlt := pos_strictMono h.packable.short hi hj.le
  have heq' : pos xs i = pos xs j := by simpa [hi.trans hj] using heq
  omega

theorem seekNode_meets (h : Nodes c (pre ++ (p, n) :: post)) {j : Nat} (hj : j < (contents n).length)
    (full : Prop) :
    Meets (seekNode c p j) full fun it =>
      Stands (pre ++ (p, n) :: post) it ((allOf pre).length + j) := by
  refine Meets.derefBind h.holds.node_eq ?_
  refine ⟨pre, p, n, post, j, rfl, ?_, hj, rfl⟩
  exact congrArg (QlIter.mk (some p)) (h.at.packs.lpSeek_nat hj)

theorem prevCount_meets (h : Nodes c (pre ++ (p, n) :: post)) (full : Prop) :
    Meets (prevCount c (Chain.lastOf pre)) full fun k =>
      ∀ pre' r m, pre = pre' ++ [(r, m)] → k = (contents m).length := by
  cases pre using List.reverseRecOn with
  | nil =>
    intro pre' r m hpre
    simp at hpre
  | append_singleton pre d =>
    obtain ⟨r, m⟩ := d
    have hsplit : Nodes c (pre ++ (r, m) :: (p, n) :: post) := by
      rw [append_cons]
      exact h
    rw [Chain.lastOf_snoc]
    refine Meets.derefBind hsplit.holds.node_eq ?_
    intro pre' r' m' hpre
    have hlast : (r, m) = (r', m') := by
      have hend := congrArg List.getLast? hpre
      simpa using hend
    injection hlast with _ hm
    subst hm
    exact hsplit.at.count

def Removed (xs : List Bytes) (k : Nat) (r : Chain QlNode × QlIter) : Prop :=
  ∃ l', Nodes r.1 l' ∧ allOf l' = xs ∧ Points l' r.2 (position xs k)

theorem removed_of_stands {c' : Chain QlNode} (hnodes : Nodes c' l) (hit : Stands l it k) :
    Removed (allOf l) k (c', it) := by
  refine ⟨l, hnodes, rfl, ?_⟩
  rw [position, if_pos hit.lt]
  exact hit

theorem removeInside_meets (h : Nodes c (pre ++ (p, n) :: post))
    (hlp : Packs lp ys) {j : Nat} (hcount : count = ys.length) (hj : j < ys.length) :
    Meets (removeInside fill c ⟨Chain.lastOf pre, Chain.firstOf post, n⟩ p lp count (pos ys j))
      (uint32Max < packedBytes (allOf pre ++ (ys ++ allOf post)))
      (Removed (allOf pre ++ (ys ++ allOf post)) ((allOf pre).length + j)) := by
  have hne : ys ≠ [] := List.ne_nil_of_length_pos (Nat.zero_lt_of_lt hj)
  obtain ⟨c₁, hset, hnodes⟩ := h.setData (nodeSound_of_packs hlp hcount hne)
  have hcontents : contents ⟨lp, count⟩ = ys := contents_of_packs hlp count
  have hall : allOf (pre ++ (p, ⟨lp, count⟩) :: post) = allOf pre ++ (ys ++ allOf post) := by
    rw [allOf_append, allOf_cons, hcontents]
  have hmerge : Meets (qlMaybeMerge fill c₁ p) _ _ := qlMaybeMerge_meets hnodes
  rw [hall] at hmerge
  refine Meets.derefBind hset ?_
  split
  · refine (prevCount_meets hnodes _).bind ?_
    intro prevCnt hprev
    refine hmerge.bind ?_
    rintro ⟨c₂, merged⟩ hdone
    rw [qlEntryIndex_eq hlp hj]
    cases merged with
    | none =>
      refine (seekNode_meets hdone (hcontents ▸ hj) _).bind ?_
      intro it hit
      have hremoved := removed_of_stands hdone hit
      rwa [hall] at hremoved
    | nextIn =>
      obtain ⟨q, m, post', n', rfl, hnodes', hmerged⟩ := hdone
      rw [hcontents] at hmerged
      refine (seekNode_meets hnodes' ?_ _).bind ?_
      · rw [hmerged, length_append]
        omega
      intro it hit
      refine Meets.pure ?_
      have hremoved := removed_of_stands hnodes' hit
      simpa [hmerged] using hremoved
    | intoPrev =>
      obtain ⟨q, m, pre', m', rfl, hnodes', hmerged⟩ := hdone
      rw [hcontents] at hmerged
      refine Meets.derefBind (Chain.lastOf_snoc pre' (q, m)) ?_
      rw [hprev pre' q m rfl]
      refine (seekNode_meets hnodes' ?_ _).bind ?_
      · rw [hmerged, length_append]
        omega
      intro it hit
      refine Meets.pure ?_
      have hremoved := removed_of_stands hnodes' hit
      simpa [hmerged, Nat.add_assoc] using hremoved
  · refine ⟨_, hnodes, hall, ?_⟩
    rw [← hall]
    have hstands : Stands (pre ++ (p, ⟨lp, count⟩) :: post) ⟨some p, some (pos ys j)⟩
        ((allOf pre).length + j) :=
      ⟨pre, p, ⟨lp, count⟩, post, j, rfl, by rw [hcontents], by rw [hcontents]; exact hj, rfl⟩
    rw [position, if_pos hstands.lt]
    exact hstands

theorem removeLast_meets (h : Nodes c (pre ++ (p, n) :: post))
    (hlp : Packs lp ys) (hcount : count = ys.length) :
    Meets (removeLast fill c ⟨Chain.lastOf pre, Chain.firstOf post, n⟩ p lp count)
      (uint32Max < packedBytes (allOf pre ++ (ys ++ allOf post)))
      (Removed (allOf pre ++ (ys ++ allOf post)) ((allOf pre).length + ys.length)) := by
  unfold removeLast
  split
  · rename_i hzero
    have hnil : ys = [] := List.length_eq_zero_iff.mp (by omega)
    obtain ⟨c₁, hunlink, hnodes⟩ := h.unlink
    refine Meets.derefBind hunlink ((enterNode_first hnodes _).bind ?_)
    intro it hit
    refine ⟨_, hnodes, by simp [hnil], ?_⟩
    simpa [hnil] using hit
  rename_i hpos
  have hne : ys ≠ [] := fun hnil => hpos (by rw [hcount, hnil]; rfl)
  obtain ⟨c₁, hset, hnodes⟩ := h.setData (nodeSound_of_packs hlp hcount hne)
  have hcontents : contents ⟨lp, count⟩ = ys := contents_of_packs hlp count
  have hall : allOf (pre ++ (p, ⟨lp, count⟩) :: post) = allOf pre ++ (ys ++ allOf post) := by
    rw [allOf_append, allOf_cons, hcontents]
  have hpost : ∀ x ∈ post, NodeSound x.2 := fun x hx => h.others x (List.mem_append_right _ hx)
  have hmerge : Meets (qlMaybeMerge fill c₁ p) _ _ := qlMaybeMerge_meets hnodes
  rw [hall] at hmerge
  have hsplit : Nodes c₁ ((pre ++ [(p, ⟨lp, count⟩)]) ++ post) := by
    rw [← append_cons]
    exact hnodes
  -- the iterator at the next node, whatever nodes stand before it
  have hstart : ∀ front, allOf front = allOf pre ++ ys → ∀ c',
      Nodes c' (front ++ post) →
        Removed (allOf pre ++ (ys ++ allOf post)) ((allOf pre).length + ys.length)
          (c', startOf post) := by
    intro front hfront c' hnodes'
    refine ⟨_, hnodes', by rw [allOf_append, hfront, List.append_assoc], ?_⟩
    have hpoints := startOf_points hpost front
    rwa [allOf_append, hfront, List.append_assoc, length_append] at hpoints
  have hsame : allOf (pre ++ [(p, ⟨lp, count⟩)]) = allOf pre ++ ys := by
    rw [allOf_append, allOf_cons, allOf_nil, hcontents, append_nil]
  refine Meets.derefBind hset ((enterNode_start hsplit _).bind ?_)
  rintro it rfl
  split
  · refine hmerge.bind ?_
    rintro ⟨c₂, merged⟩ hdone
    cases merged with
    | none =>
      refine hstart _ hsame c₂ ?_
      rw [← append_cons]
      exact hdone
    | nextIn =>
      obtain ⟨q, m, post', n', rfl, hnodes', hmerged⟩ := hdone
      have hm : 0 < (contents m).length := (hpost (q, m) List.mem_cons_self).pos_length
      rw [hcontents] at hmerged
      refine (seekNode_meets hnodes' ?_ _).bind ?_
      · rw [hmerged, length_append]
        omega
      intro it hit
      refine Meets.pure ?_
      have hremoved := removed_of_stands hnodes' hit
      rw [hcount] at hremoved
      simpa [hmerged] using hremoved
    | intoPrev =>
      obtain ⟨q, m, pre', m', rfl, hnodes', hmerged⟩ := hdone
      rw [hcontents] at hmerged
      refine hstart (pre' ++ [(q, m')]) (by simp [hmerged]) c₂ ?_
      rw [← append_cons]
      exact hnodes'
  · exact hstart _ hsame c₁ hsplit

/-- `ql_remove` takes the element out, and leaves the iterator at the one that followed. -/
theorem qlRemove_meets (h : Sound q l) (hit : Stands l it k) :
    Meets (qlRemove fill q it) (uint32Max < packedBytes ((allOf l).eraseIdx k)) fun r =>
      ∃ l', Sound r.1 l' ∧ allOf l' = (allOf l).eraseIdx k ∧
        Points l' r.2 (position ((allOf l).eraseIdx k) k) := by
  obtain ⟨pre, p, n, post, j, rfl, rfl, hj, rfl⟩ := hit
  have hn := h.nodes.at
  obtain ⟨lp, hdelete, hlp⟩ := hn.packs.lpDelete_eq hj
  have hshort := List.length_eraseIdx_of_lt hj
  have hcount : uint32Pred n.count = ((contents n).eraseIdx j).length := by rw [hn.pred, hshort]
  have herase := eraseIdx_middle (allOf pre) (allOf post) hj
  rw [← allOf_cons p n post, ← allOf_append] at herase
  rw [herase]
  refine Meets.derefBind rfl (Meets.derefBind h.nodes.holds.node_eq ?_)
  refine Meets.aliveBind hdelete ?_
  have hfinish : ∀ r,
      Removed (allOf pre ++ ((contents n).eraseIdx j ++ allOf post)) ((allOf pre).length + j) r →
        ∃ l', Sound ⟨r.1, q.len - 1⟩ l' ∧
          allOf l' = allOf pre ++ ((contents n).eraseIdx j ++ allOf post) ∧
          Points l' r.2 (position (allOf pre ++ ((contents n).eraseIdx j ++ allOf post))
            ((allOf pre).length + j)) := by
    rintro r ⟨l', hnodes, hall, hpoints⟩
    refine ⟨l', ⟨hnodes, ?_⟩, hall, hpoints⟩
    rw [hall, h.len]
    simp only [allOf_append, allOf_cons, length_append]
    omega
  by_cases hinside : j + 1 < (contents n).length
  · rw [if_pos hinside]
    exact (removeInside_meets h.nodes hlp hcount (by omega)).bind hfinish
  have hlast : j = ((contents n).eraseIdx j).length := by omega
  have hmeets : Meets (removeLast fill _ _ _ _ _) _ _ := removeLast_meets h.nodes hlp hcount
  rw [← hlast] at hmeets
  rw [if_neg hinside]
  exact hmeets.bind hfinish

end Ddup.Ds
