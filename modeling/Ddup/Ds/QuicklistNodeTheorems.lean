/-
Ddup.Ds.QuicklistNodeTheorems — the nodes of a quicklist: merging them, and pushing and popping at
its ends.

`Meets r full P` is what a function may do: end in a result that satisfies `P`, or end the process
if `full` holds; it never reads through a bad pointer. Each function gets such a rule over the
list of nodes of `Lib.Linked`, with the nodes' listpacks read by `Ds.ListpackTheorems`. An
insertion ends the process only if the whole list needs more bytes than a listpack can have, since
the elements of a node are a piece of it.
-/
import Ddup.Ds.ListpackTheorems
import Ddup.Ds.Quicklist

namespace Ddup.Ds

open Ddup.Lib

variable {xs : List Bytes} {lp : Bytes} {k : Nat} {m : QlNode} {ys : List Bytes}

/-! ## Bytes of a list -/

theorem packedBytes_infix_le (h : xs <:+: ys) : packedBytes xs ≤ packedBytes ys := by
  obtain ⟨pre, post, rfl⟩ := h
  simp only [packedBytes, pack_append, List.length_append]
  omega

theorem Packable.length_bound (h : Packable xs) : xs.length < 2 ^ 32 := by
  have hle := length_le_pack h.short
  have hbytes := h.bytes
  unfold packedBytes uint32Max at hbytes
  omega

/-! ## Nodes -/

def contents (n : QlNode) : List Bytes := (lpForward n.lp).map fun p => lpGetStr (n.lp.drop p)

structure NodeSound (n : QlNode) : Prop where
  packs : Packs n.lp (contents n)
  count : n.count = (contents n).length
  nonempty : contents n ≠ []

theorem contents_of_packs (h : Packs lp xs) (k : Nat) : contents ⟨lp, k⟩ = xs := h.shows.forward

theorem nodeSound_of_packs (h : Packs lp xs) (hk : k = xs.length) (hne : xs ≠ [])
    : NodeSound ⟨lp, k⟩ := by
  have hcontents := contents_of_packs h k
  exact ⟨hcontents.symm ▸ h, by rw [hcontents]; exact hk, by rw [hcontents]; exact hne⟩

def allOf (l : List (Nat × QlNode)) : List Bytes := l.flatMap fun c => contents c.2

@[simp] theorem allOf_nil : allOf [] = [] := rfl

@[simp] theorem allOf_cons (p : Nat) (n : QlNode) (l : List (Nat × QlNode)) :
    allOf ((p, n) :: l) = contents n ++ allOf l := rfl

@[simp] theorem allOf_append (l m : List (Nat × QlNode)) : allOf (l ++ m) = allOf l ++ allOf m :=
  List.flatMap_append

structure Nodes (c : Chain QlNode) (l : List (Nat × QlNode)) : Prop where
  holds : c.Holds l
  sound : ∀ x ∈ l, NodeSound x.2

variable {c : Chain QlNode} {l pre post : List (Nat × QlNode)} {p : Nat} {n : QlNode} {fill : Nat}

theorem Nodes.at (h : Nodes c (pre ++ (p, n) :: post)) : NodeSound n :=
  h.sound (p, n) (by simp)

theorem nodes_setData (h : c.Holds (pre ++ (p, n) :: post))
    (hrest : ∀ x ∈ pre ++ post, NodeSound x.2) (hm : NodeSound m) :
    ∃ c', c.setData p m = some c' ∧ Nodes c' (pre ++ (p, m) :: post) := by
  obtain ⟨c', hset, hholds⟩ := h.setData m
  refine ⟨c', hset, hholds, ?_⟩
  intro x hx
  rcases List.mem_append.mp hx with hx | hx
  · exact hrest x (by simp [hx])
  rcases List.mem_cons.mp hx with rfl | hx
  · exact hm
  · exact hrest x (by simp [hx])

theorem Nodes.others (h : Nodes c (pre ++ (p, n) :: post)) : ∀ x ∈ pre ++ post, NodeSound x.2 := by
  intro x hx
  rcases List.mem_append.mp hx with hx | hx
  · exact h.sound x (by simp [hx])
  · exact h.sound x (by simp [hx])

theorem Nodes.setData (h : Nodes c (pre ++ (p, n) :: post)) (hm : NodeSound m) :
    ∃ c', c.setData p m = some c' ∧ Nodes c' (pre ++ (p, m) :: post) :=
  nodes_setData h.holds h.others hm

theorem Nodes.unlink (h : Nodes c (pre ++ (p, n) :: post)) :
    ∃ c', c.unlink p = some c' ∧ Nodes c' (pre ++ post) := by
  obtain ⟨c', hunlink, hholds⟩ := h.holds.unlink
  exact ⟨c', hunlink, hholds, h.others⟩

/-! ## Merging -/

theorem foldlM_lpAppend (h : Packs lp xs) :
    ∀ {ys}, (∀ y ∈ ys, Short y) → Meets (alive (ys.foldlM lpAppend lp))
      (uint32Max < packedBytes (xs ++ ys)) fun lp' => Packs lp' (xs ++ ys) := by
  intro ys
  induction ys generalizing lp xs with
  | nil =>
    intro _
    rw [List.append_nil]
    exact h
  | cons y ys ih =>
    intro hshort
    have hstep := h.lpAppend_meets (hshort y List.mem_cons_self)
    have hcons : xs ++ y :: ys = xs ++ [y] ++ ys := List.append_cons xs y ys
    rw [List.foldlM_cons]
    cases hlp : lpAppend lp y with
    | none =>
      rw [hlp] at hstep
      refine hstep.trans_le (packedBytes_infix_le ?_)
      rw [hcons]
      exact (List.prefix_append _ _).isInfix
    | some lp' =>
      rw [hlp] at hstep
      rw [hcons]
      exact ih hstep fun z hz => hshort z (List.mem_cons_of_mem _ hz)

/-- `ql_node_merge_into` of a node's successor, or into its predecessor. -/
theorem qlNodeMergeInto_meets {dst src : Nat} {d s : QlNode}
    (h : Nodes c (pre ++ (dst, d) :: (src, s) :: post)) :
    Meets (qlNodeMergeInto c dst src) (uint32Max < packedBytes (contents d ++ contents s))
      fun c' => ∃ m, Nodes c' (pre ++ (dst, m) :: post) ∧ contents m = contents d ++ contents s := by
  have hd := h.at
  have hsplit : Nodes c ((pre ++ [(dst, d)]) ++ (src, s) :: post) := by
    rw [← List.append_cons]
    exact h
  have hs := hsplit.at
  have hvalues : (lpForward s.lp).foldlM (fun lp p => lpAppend lp (lpGetStr (s.lp.drop p))) d.lp
      = (contents s).foldlM lpAppend d.lp := by
    rw [contents, List.foldlM_map]
  refine Meets.derefBind h.holds.node_eq ?_
  refine Meets.derefBind hsplit.holds.node_eq ?_
  rw [hvalues]
  refine (foldlM_lpAppend hd.packs hs.packs.packable.short).bind ?_
  intro lp hlp
  have hbound := hlp.packable.length_bound
  rw [List.length_append] at hbound
  have hcount : uint32 (d.count + s.count) = (contents d ++ contents s).length := by
    rw [hd.count, hs.count, List.length_append]
    exact Nat.mod_eq_of_lt hbound
  have hm : NodeSound ⟨lp, uint32 (d.count + s.count)⟩ :=
    nodeSound_of_packs hlp hcount (by simp [hd.nonempty])
  obtain ⟨c₁, hset, hnodes⟩ := h.setData hm
  refine Meets.derefBind hset ?_
  rw [List.append_cons] at hnodes
  obtain ⟨c₂, hunlink, hnodes'⟩ := hnodes.unlink
  refine Meets.deref ⟨c₂, hunlink, ⟨lp, uint32 (d.count + s.count)⟩, ?_, contents_of_packs hlp _⟩
  rw [List.append_cons]
  exact hnodes'

def MergeDone (pre : List (Nat × QlNode)) (p : Nat) (n : QlNode) (post : List (Nat × QlNode))
    (r : Chain QlNode × Merge) : Prop :=
  match r.2 with
  | .none => Nodes r.1 (pre ++ (p, n) :: post)
  | .nextIn => ∃ q m post' n', post = (q, m) :: post' ∧ Nodes r.1 (pre ++ (p, n') :: post') ∧
      contents n' = contents n ++ contents m
  | .intoPrev => ∃ q m pre' m', pre = pre' ++ [(q, m)] ∧ Nodes r.1 (pre' ++ (q, m') :: post) ∧
      contents m' = contents m ++ contents n

theorem foldable_meets (h : c.Holds l) {q : Option Nat} (hq : ∀ r, q = some r → r ∈ l.map Prod.fst)
    (k : Nat) (full : Prop) :
    Meets (foldable fill c k q) full fun b => b = true → ∃ r, q = some r := by
  cases q with
  | none => exact fun hb => absurd hb (by simp)
  | some r =>
    have hmem := hq r rfl
    cases hnode : c.node r with
    | none => exact absurd hmem ((Chain.node_none_iff h).mp hnode)
    | some m => exact Meets.derefBind hnode fun _ => ⟨r, rfl⟩

theorem firstOf_mem {q : Nat} (h : Chain.firstOf post = some q) :
    q ∈ (pre ++ (p, n) :: post).map Prod.fst := by
  cases post with
  | nil => cases h
  | cons d post =>
    injection h with h
    simp [← h]

theorem lastOf_mem {q : Nat} (h : Chain.lastOf pre = some q) :
    q ∈ (pre ++ (p, n) :: post).map Prod.fst := by
  cases pre using List.reverseRecOn with
  | nil => cases h
  | append_singleton pre d =>
    rw [Chain.lastOf_snoc] at h
    injection h with h
    simp [← h]

theorem qlMaybeMerge_meets (h : Nodes c (pre ++ (p, n) :: post)) :
    Meets (qlMaybeMerge fill c p) (uint32Max < packedBytes (allOf (pre ++ (p, n) :: post)))
      (MergeDone pre p n post) := by
  refine Meets.derefBind h.holds.node_eq ?_
  split
  · exact h
  refine (foldable_meets h.holds (fun _ => firstOf_mem) n.count _).bind ?_
  intro next hnext
  split
  · rename_i hfold
    obtain ⟨q, hq⟩ := hnext hfold
    refine Meets.derefBind hq ?_
    cases post with
    | nil => cases hq
    | cons d post =>
      obtain ⟨r, m⟩ := d
      injection hq with hq
      subst hq
      refine ((qlNodeMergeInto_meets h).mono ?_ fun _ hc => hc).bind ?_
      · intro hfull
        refine hfull.trans_le (packedBytes_infix_le ⟨allOf pre, allOf post, ?_⟩)
        simp
      · rintro c' ⟨n', hnodes, hcontents⟩
        exact ⟨r, m, post, n', rfl, hnodes, hcontents⟩
  · refine (foldable_meets h.holds (fun _ => lastOf_mem) n.count _).bind ?_
    intro prev hprev
    split
    · rename_i hfold
      obtain ⟨q, hq⟩ := hprev hfold
      refine Meets.derefBind hq ?_
      cases pre using List.reverseRecOn with
      | nil => cases hq
      | append_singleton pre d =>
        obtain ⟨r, m⟩ := d
        rw [Chain.lastOf_snoc] at hq
        injection hq with hq
        subst hq
        rw [← List.append_cons] at h
        refine ((qlNodeMergeInto_meets h).mono ?_ fun _ hc => hc).bind ?_
        · intro hfull
          refine hfull.trans_le (packedBytes_infix_le ⟨allOf pre, allOf post, ?_⟩)
          simp
        · rintro c' ⟨m', hnodes, hcontents⟩
          exact ⟨r, m, pre, m', rfl, hnodes, hcontents⟩
    · exact h

/-! ## Ends -/

structure Sound (q : Quicklist) (l : List (Nat × QlNode)) : Prop where
  nodes : Nodes q.chain l
  len : q.len = (allOf l).length

variable {A : Heap.Allocator (Node QlNode)} {q : Quicklist} {left : Bool}

theorem endNode (h : c.Holds l) (hend : (if left then c.head else c.tail) = some p) :
    ∃ pre n post, l = pre ++ (p, n) :: post ∧ if left then pre = [] else post = [] := by
  cases left with
  | true =>
    rw [h.head] at hend
    cases l with
    | nil => cases hend
    | cons d l =>
      injection hend with hend
      exact ⟨[], d.2, l, by rw [← hend]; rfl, rfl⟩
  | false =>
    rw [h.tail] at hend
    cases l using List.reverseRecOn with
    | nil => cases hend
    | append_singleton l d =>
      rw [Chain.lastOf_snoc] at hend
      injection hend with hend
      exact ⟨l, d.2, [], by rw [← hend], rfl⟩

theorem endNode_none (h : c.Holds l) (hend : (if left then c.head else c.tail) = none) :
    l = [] := by
  cases left with
  | true =>
    rw [h.head] at hend
    cases l with
    | nil => rfl
    | cons d l => cases hend
  | false =>
    rw [h.tail] at hend
    cases l using List.reverseRecOn with
    | nil => rfl
    | append_singleton l d =>
      rw [Chain.lastOf_snoc] at hend
      cases hend

/-- A node that may take one more element, and the sound nodes around it. -/
def Growable (left : Bool) (all : List Bytes) (c : Chain QlNode) (p : Nat) : Prop :=
  ∃ pre n post xs, c.Holds (pre ++ (p, n) :: post) ∧ (∀ x ∈ pre ++ post, NodeSound x.2) ∧
    Packs n.lp xs ∧ n.count = xs.length ∧ all = allOf pre ++ (xs ++ allOf post) ∧
    if left then pre = [] else post = []

theorem qlNodeNew_meets (h : Nodes c l) (full : Prop) :
    Meets (qlNodeNew A c left) full fun r => Growable left (allOf l) r.1 r.2 := by
  have hfresh : c.node (A.next c.nodes) = none := A.fresh c.nodes
  cases left with
  | true =>
    obtain ⟨c', hlink, hholds⟩ := h.holds.linkLeft hfresh ⟨lpNew, 0⟩
    refine Meets.derefBind hlink ?_
    exact ⟨[], ⟨lpNew, 0⟩, l, [], hholds, h.sound, lpNew_packs, rfl, rfl, rfl⟩
  | false =>
    obtain ⟨c', hlink, hholds⟩ := h.holds.linkRight hfresh ⟨lpNew, 0⟩
    refine Meets.derefBind hlink ?_
    refine ⟨l, ⟨lpNew, 0⟩, [], [], hholds, ?_, lpNew_packs, rfl, by simp, rfl⟩
    rw [List.append_nil]
    exact h.sound

theorem qlPushNode_meets (h : Nodes c l) (full : Prop) :
    Meets (qlPushNode A fill c left) full fun r => Growable left (allOf l) r.1 r.2 := by
  unfold qlPushNode
  split
  · exact qlNodeNew_meets h full
  rename_i p hend
  obtain ⟨pre, n, post, rfl, hside⟩ := endNode h.holds hend
  refine Meets.derefBind h.holds.node_eq ?_
  split
  · exact qlNodeNew_meets h full
  · exact ⟨pre, n, post, contents n, h.holds, h.others, h.at.packs, h.at.count, by simp, hside⟩

theorem qlPush_meets (h : Sound q l) {data : Bytes} (hdata : Short data) :
    Meets (qlPush A fill q left data)
      (uint32Max < packedBytes (if left then data :: allOf l else allOf l ++ [data]))
      fun r => r.2 = 0 ∧ ∃ l', Sound r.1 l' ∧
        allOf l' = if left then data :: allOf l else allOf l ++ [data] := by
  have hfits : ¬ uint32Max < data.length := by
    unfold Short at hdata
    unfold uint32Max
    omega
  rw [qlPush, if_neg hfits]
  refine (qlPushNode_meets h.nodes _).bind ?_
  rintro ⟨c, p⟩ ⟨pre, n, post, xs, hholds, hrest, hpacks, hcount, hall, hside⟩
  refine Meets.derefBind hholds.node_eq ?_
  -- the node's listpack with the element
  have hgrown : StepPacks (if left then data :: xs else xs ++ [data])
      (if left then lpPrepend n.lp data else lpAppend n.lp data) := by
    cases left with
    | true => exact hpacks.lpPrepend_meets hdata
    | false => exact hpacks.lpAppend_meets hdata
  have hnew : (if left then data :: allOf l else allOf l ++ [data])
      = allOf pre ++ ((if left then data :: xs else xs ++ [data]) ++ allOf post) := by
    cases left with
    | true =>
      rw [if_pos rfl] at hside
      simp [hall, hside]
    | false =>
      rw [if_neg (by simp)] at hside
      simp [hall, hside]
  have hlen : (if left then data :: xs else xs ++ [data]).length = xs.length + 1 := by
    cases left <;> simp
  rw [hnew]
  generalize (if left then data :: xs else xs ++ [data]) = ys at hgrown hlen ⊢
  refine Meets.bind (P := fun lp => Packs lp ys) ?_ ?_
  · refine Meets.alive ?_ ?_
    · intro hnone
      rw [hnone] at hgrown
      exact hgrown.trans_le (packedBytes_infix_le ⟨allOf pre, allOf post, by simp⟩)
    · intro lp hlp
      rw [hlp] at hgrown
      exact hgrown
  intro lp hlp
  have hbound := hlp.packable.length_bound
  have hcount' : uint32 (n.count + 1) = ys.length := by
    rw [hcount, hlen]
    exact Nat.mod_eq_of_lt (by omega)
  have hm : NodeSound ⟨lp, uint32 (n.count + 1)⟩ :=
    nodeSound_of_packs hlp hcount' fun hnil => by simp [hnil] at hlen
  obtain ⟨c', hset, hnodes⟩ := nodes_setData hholds hrest hm
  refine Meets.derefBind hset ?_
  have hall' : allOf (pre ++ (p, ⟨lp, uint32 (n.count + 1)⟩) :: post)
      = allOf pre ++ (ys ++ allOf post) := by
    rw [allOf_append, allOf_cons, contents_of_packs hlp]
  refine ⟨rfl, _, ⟨hnodes, ?_⟩, hall'⟩
  rw [hall', h.len, hall]
  simp only [List.length_append]
  omega

theorem MergeDone.all {r : Chain QlNode × Merge} (h : MergeDone pre p n post r) :
    ∃ l', Nodes r.1 l' ∧ allOf l' = allOf (pre ++ (p, n) :: post) := by
  obtain ⟨c, m⟩ := r
  cases m with
  | none => exact ⟨_, h, rfl⟩
  | nextIn =>
    obtain ⟨q, m, post', n', rfl, hnodes, hcontents⟩ := h
    exact ⟨_, hnodes, by simp [hcontents]⟩
  | intoPrev =>
    obtain ⟨q, m, pre', m', rfl, hnodes, hcontents⟩ := h
    exact ⟨_, hnodes, by simp [hcontents]⟩

/-- A node that lost an entry goes if it is empty, and may be merged if it is not. -/
theorem qlShrink_meets (h : Nodes c (pre ++ (p, n) :: post)) (hlp : Packs lp ys) (hk : k = ys.length) :
    Meets (qlShrink fill c p lp k) (uint32Max < packedBytes (allOf pre ++ (ys ++ allOf post)))
      fun c' => ∃ l', Nodes c' l' ∧ allOf l' = allOf pre ++ (ys ++ allOf post) := by
  unfold qlShrink
  split
  · rename_i hzero
    obtain ⟨c', hunlink, hnodes⟩ := h.unlink
    have hnil : ys = [] := List.length_eq_zero_iff.mp (by omega)
    exact Meets.deref ⟨c', hunlink, pre ++ post, hnodes, by simp [hnil]⟩
  rename_i hpos
  have hne : ys ≠ [] := fun hnil => hpos (by rw [hk, hnil]; rfl)
  obtain ⟨c', hset, hnodes⟩ := h.setData (nodeSound_of_packs hlp hk hne)
  have hall : allOf (pre ++ (p, ⟨lp, k⟩) :: post) = allOf pre ++ (ys ++ allOf post) := by
    rw [allOf_append, allOf_cons, contents_of_packs hlp]
  have hmerge : Meets (qlMaybeMerge fill c' p) _ _ := qlMaybeMerge_meets hnodes
  rw [hall] at hmerge
  refine Meets.derefBind hset (hmerge.bind ?_)
  rintro r hr
  obtain ⟨l', hnodes', hall'⟩ := hr.all
  exact ⟨l', hnodes', hall'.trans hall⟩

theorem NodeSound.pos_length (h : NodeSound n) : 0 < (contents n).length :=
  List.length_pos_iff.mpr h.nonempty

theorem NodeSound.pred (h : NodeSound n) : uint32Pred n.count = (contents n).length - 1 := by
  rw [h.count, uint32Pred, if_neg (Nat.ne_of_gt h.pos_length)]

def popped (left : Bool) (xs : List Bytes) : Option Bytes × List Bytes :=
  if left then (xs.head?, xs.tail) else (xs.getLast?, xs.dropLast)

theorem qlPop_meets (h : Sound q l) :
    Meets (qlPop fill q left) (uint32Max < packedBytes (popped left (allOf l)).2)
      fun r => r.2 = (popped left (allOf l)).1 ∧ ∃ l', Sound r.1 l' ∧
        allOf l' = (popped left (allOf l)).2 := by
  unfold qlPop
  split
  · rename_i hend
    have hnil := endNode_none h.nodes.holds hend
    subst hnil
    refine ⟨?_, [], h, ?_⟩ <;> · cases left <;> rfl
  rename_i p hend
  obtain ⟨pre, n, post, rfl, hside⟩ := endNode h.nodes.holds hend
  have hn := h.nodes.at
  have hpos := hn.pos_length
  -- the index of the entry, and the lists it splits off
  obtain ⟨j, x, hj, hentry, hx, htake, hleave⟩ : ∃ j x, j < (contents n).length ∧
      (if left then lpFirst n.lp else lpLast n.lp) = some (pos (contents n) j) ∧
      (contents n)[j]? = some x ∧
      (popped left (allOf (pre ++ (p, n) :: post))).1 = some x ∧
      (popped left (allOf (pre ++ (p, n) :: post))).2
        = allOf pre ++ ((contents n).eraseIdx j ++ allOf post) := by
    cases left with
    | true =>
      subst hside
      obtain ⟨x, xs, hxs⟩ := List.exists_cons_of_ne_nil hn.nonempty
      refine ⟨0, x, hpos, hn.packs.lpFirst_eq hn.nonempty, by simp [hxs], ?_, ?_⟩
      · simp [popped, hxs]
      · simp [popped, hxs]
    | false =>
      subst hside
      obtain ⟨xs, x, hxs⟩ : ∃ xs x, contents n = xs ++ [x] :=
        ⟨_, _, (List.dropLast_append_getLast hn.nonempty).symm⟩
      refine ⟨(contents n).length - 1, x, by omega, hn.packs.lpLast_eq hn.nonempty, ?_, ?_, ?_⟩
      · simp [hxs]
      · simp [popped, hxs]
      · simp [popped, hxs, List.eraseIdx_append_of_length_le]
  refine Meets.derefBind h.nodes.holds.node_eq ?_
  refine Meets.derefBind hentry ?_
  obtain ⟨lp, hdelete, hlp⟩ := hn.packs.lpDelete_eq hj
  have hcount : uint32Pred n.count = ((contents n).eraseIdx j).length := by
    rw [hn.pred, List.length_eraseIdx_of_lt hj]
  refine Meets.aliveBind hdelete ?_
  rw [hleave]
  refine (qlShrink_meets h.nodes hlp hcount).bind ?_
  rintro c' ⟨l', hnodes, hall⟩
  refine ⟨?_, l', ⟨hnodes, ?_⟩, hall⟩
  · rw [htake]
    exact congrArg some (hn.packs.lpGetStr_eq hx)
  have hshort := List.length_eraseIdx_of_lt hj
  rw [hall, h.len]
  simp only [allOf_append, allOf_cons, List.length_append]
  omega

end Ddup.Ds
