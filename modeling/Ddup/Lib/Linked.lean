/-
Ddup.Lib.Linked — doubly linked lists in a heap.

A `Chain` is a heap of nodes with pointers to the first and the last one. Its operations read and
write nodes through their addresses and fail where nothing is allocated. `Holds c l` says that the
nodes of `c` are exactly those of the list `l` of addresses and data, each linked to its
neighbours; linking, unlinking and writing then do to `l` what they do to a list, and do not fail.
-/
import Ddup.Lib.Heap

namespace Ddup.Lib

open List (reverseRecOn)
open Option (some_or)
open Prod (fst)

structure Node (α : Type) where
  prev : Option Nat
  next : Option Nat
  data : α

structure Chain (α : Type) where
  nodes : Heap (Node α)
  head : Option Nat
  tail : Option Nat

namespace Chain

variable {α : Type}

def empty : Chain α := ⟨[], none, none⟩

def node (c : Chain α) (p : Nat) : Option (Node α) := c.nodes.get p

def write (c : Chain α) (p : Nat) (n : Node α) : Chain α :=
  { c with nodes := (p, n) :: c.nodes.free p }

def setPrev (c : Chain α) (p : Nat) (prev : Option Nat) : Option (Chain α) :=
  (c.node p).map fun n => c.write p { n with prev := prev }

def setNext (c : Chain α) (p : Nat) (next : Option Nat) : Option (Chain α) :=
  (c.node p).map fun n => c.write p { n with next := next }

def setData (c : Chain α) (p : Nat) (a : α) : Option (Chain α) :=
  (c.node p).map fun n => c.write p { n with data := a }

def linkLeft (c : Chain α) (p : Nat) (a : α) : Option (Chain α) :=
  let c' := { c.write p ⟨none, c.head, a⟩ with head := some p }
  match c.head with
  | some h => c'.setPrev h (some p)
  | none => some { c' with tail := some p }

def linkRight (c : Chain α) (p : Nat) (a : α) : Option (Chain α) :=
  let c' := { c.write p ⟨c.tail, none, a⟩ with tail := some p }
  match c.tail with
  | some t => c'.setNext t (some p)
  | none => some { c' with head := some p }

/-- What comes after a node, or after nothing: the first node. -/
def setNextOf (c : Chain α) (p next : Option Nat) : Option (Chain α) :=
  match p with
  | some p => c.setNext p next
  | none => some { c with head := next }

/-- What comes before a node, or before nothing: the last node. -/
def setPrevOf (c : Chain α) (p prev : Option Nat) : Option (Chain α) :=
  match p with
  | some p => c.setPrev p prev
  | none => some { c with tail := prev }

/-- A node's neighbours are linked to each other, and it is released. -/
def unlink (c : Chain α) (p : Nat) : Option (Chain α) :=
  (c.node p).bind fun n =>
    (c.setNextOf n.prev n.next).bind fun c' =>
      (c'.setPrevOf n.next n.prev).map fun c'' => { c'' with nodes := c''.nodes.free p }

/-! ## Segments -/

def firstOf (l : List (Nat × α)) : Option Nat := l.head?.map fst

def lastOf (l : List (Nat × α)) : Option Nat := l.getLast?.map fst

def segment (prev next : Option Nat) : List (Nat × α) → Nat → Option (Node α)
  | [], _ => none
  | (p, a) :: l, x =>
    if x = p then some ⟨prev, (firstOf l).or next, a⟩ else segment (some p) next l x

@[simp] theorem firstOf_nil : firstOf ([] : List (Nat × α)) = none := rfl

@[simp] theorem firstOf_cons (c : Nat × α) (l : List (Nat × α)) : firstOf (c :: l) = some c.1 := rfl

@[simp] theorem lastOf_nil : lastOf ([] : List (Nat × α)) = none := rfl

@[simp] theorem lastOf_snoc (l : List (Nat × α)) (c : Nat × α) : lastOf (l ++ [c]) = some c.1 := by
  simp [lastOf]

theorem lastOf_cons (c : Nat × α) (l : List (Nat × α)) :
    lastOf (c :: l) = (lastOf l).or (some c.1) := by
  cases l using reverseRecOn with
  | nil => rfl
  | append_singleton l d => rw [← List.cons_append, lastOf_snoc, lastOf_snoc, some_or]

theorem firstOf_append (l m : List (Nat × α)) : firstOf (l ++ m) = (firstOf l).or (firstOf m) := by
  cases l with
  | nil | cons c l => rfl

theorem lastOf_append (l m : List (Nat × α)) : lastOf (l ++ m) = (lastOf m).or (lastOf l) := by
  cases m using reverseRecOn with
  | nil => simp
  | append_singleton m d => rw [← List.append_assoc, lastOf_snoc, lastOf_snoc, some_or]

theorem segment_eq_none {l : List (Nat × α)} {x : Nat} (h : x ∉ l.map fst)
    (prev next : Option Nat) : segment prev next l x = none := by
  induction l generalizing prev with
  | nil => rfl
  | cons c l ih =>
    rw [List.map_cons, List.mem_cons, not_or] at h
    rw [segment, if_neg h.1]
    exact ih h.2 _

theorem segment_append (prev next : Option Nat) (l m : List (Nat × α)) (x : Nat) :
    segment prev next (l ++ m) x = (segment prev ((firstOf m).or next) l x).or
        (segment ((lastOf l).or prev) next m x) := by
  induction l generalizing prev with
  | nil => rfl
  | cons c l ih =>
    rw [List.cons_append, segment, segment]
    by_cases hx : x = c.1
    · rw [if_pos hx, if_pos hx, firstOf_append, Option.or_assoc]
      rfl
    · rw [if_neg hx, if_neg hx, ih, lastOf_cons, Option.or_assoc, some_or]

/-! ## What a chain holds -/

/-- The nodes of the chain are those of the list, linked in its order. -/
structure Holds (c : Chain α) (l : List (Nat × α)) : Prop where
  nodup : (l.map fst).Nodup
  head : c.head = firstOf l
  tail : c.tail = lastOf l
  nodes : ∀ x, c.node x = segment none none l x

theorem empty_holds : (empty : Chain α).Holds [] :=
  ⟨List.nodup_nil, rfl, rfl, fun _ => rfl⟩

theorem node_write (c : Chain α) (p : Nat) (n : Node α) (x : Nat) :
    (c.write p n).node x = if x = p then some n else c.node x := by
  by_cases hx : x = p
  · rw [if_pos hx, hx]
    exact Heap.get_cons_self _ _ _
  · rw [if_neg hx]
    exact (Heap.get_cons_ne _ _ hx).trans (Heap.get_free_ne _ hx)

theorem node_free (c : Chain α) (p x : Nat) :
    node { c with nodes := c.nodes.free p } x = if x = p then none else c.node x := by
  by_cases hx : x = p
  · rw [if_pos hx, hx]
    exact Heap.get_free_self _ _
  · rw [if_neg hx]
    exact Heap.get_free_ne _ hx

variable {c : Chain α} {l pre post : List (Nat × α)} {p : Nat} {a : α}

theorem nodup_split (h : ((pre ++ (p, a) :: post).map fst).Nodup) :
    p ∉ pre.map fst ∧ p ∉ post.map fst ∧
      (∀ x ∈ pre.map fst, x ∉ post.map fst) ∧ (pre.map fst).Nodup
        ∧ (post.map fst).Nodup := by
  rw [List.map_append, List.nodup_append] at h
  obtain ⟨hpre, hpost, hdisj⟩ := h
  obtain ⟨hp, hpost⟩ := List.nodup_cons.mp hpost
  exact ⟨fun hmem => hdisj p hmem p (by simp) rfl, hp,
    fun x hx hx' => hdisj x hx x (List.mem_cons_of_mem _ hx') rfl, hpre, hpost⟩

theorem Holds.node_eq (h : c.Holds (pre ++ (p, a) :: post)) :
    c.node p = some ⟨lastOf pre, firstOf post, a⟩ := by
  obtain ⟨hpre, -⟩ := nodup_split h.nodup
  rw [h.nodes, segment_append, segment_eq_none hpre, segment]
  simp

theorem segment_cons (prev next : Option Nat) (p : Nat) (a : α) (l : List (Nat × α)) (x : Nat) :
    segment prev next ((p, a) :: l) x
      = if x = p then some ⟨prev, (firstOf l).or next, a⟩ else segment (some p) next l x := rfl

theorem segment_snoc (prev next : Option Nat) (l : List (Nat × α)) (p : Nat) (a : α) (x : Nat) :
    segment prev next (l ++ [(p, a)]) x = (segment prev (some p) l x).or
        (if x = p then some ⟨(lastOf l).or prev, next, a⟩ else none) := by
  rw [segment_append, firstOf_cons]
  rfl

theorem Holds.setData (h : c.Holds (pre ++ (p, a) :: post)) (b : α) :
    ∃ c', c.setData p b = some c' ∧ c'.Holds (pre ++ (p, b) :: post) := by
  have hnode := h.node_eq
  obtain ⟨hpre, hpost, -⟩ := nodup_split h.nodup
  refine ⟨c.write p ⟨lastOf pre, firstOf post, b⟩, by rw [Chain.setData, hnode]; rfl, ?_, ?_, ?_, ?_⟩
  · have hmap : (pre ++ (p, b) :: post).map fst = (pre ++ (p, a) :: post).map fst := by simp
    rw [hmap]
    exact h.nodup
  · rw [firstOf_append]
    exact h.head.trans (firstOf_append _ _)
  · rw [lastOf_append, lastOf_cons]
    exact h.tail.trans (by rw [lastOf_append, lastOf_cons])
  intro x
  rw [node_write, h.nodes, segment_append, segment_append, segment_cons, segment_cons]
  by_cases hx : x = p
  · rw [if_pos hx, hx, segment_eq_none hpre]
    simp
  · rw [if_neg hx, if_neg hx, if_neg hx]
    rfl

theorem node_none_iff (h : c.Holds l) : c.node p = none ↔ p ∉ l.map fst := by
  constructor
  · intro hnone hmem
    obtain ⟨⟨q, b⟩, hq, rfl⟩ := List.mem_map.mp hmem
    obtain ⟨pre, post, rfl⟩ := List.append_of_mem hq
    rw [h.node_eq] at hnone
    cases hnone
  · intro hmem
    rw [h.nodes, segment_eq_none hmem]

theorem Holds.linkLeft (h : c.Holds l) (hp : c.node p = none) (a : α) :
    ∃ c', c.linkLeft p a = some c' ∧ c'.Holds ((p, a) :: l) := by
  have hnew := (node_none_iff h).mp hp
  have hnodup : (((p, a) :: l).map fst).Nodup := List.nodup_cons.mpr ⟨hnew, h.nodup⟩
  cases l with
  | nil =>
    refine ⟨{ c.write p ⟨none, c.head, a⟩ with
      head := some p
      tail := some p }, by rw [Chain.linkLeft, h.head]; rfl, hnodup, rfl, rfl, ?_⟩
    intro x
    refine (node_write c p ⟨none, c.head, a⟩ x).trans ?_
    rw [h.nodes, h.head]
    rfl
  | cons d l =>
    obtain ⟨q, b⟩ := d
    have hne : q ≠ p := fun heq => hnew (by simp [heq])
    have hnode : ({ c.write p ⟨none, c.head, a⟩ with head := some p } : Chain α).node q
        = some ⟨none, firstOf l, b⟩ := by
      refine (node_write c p ⟨none, c.head, a⟩ q).trans ?_
      rw [if_neg hne]
      exact Holds.node_eq (show c.Holds ([] ++ (q, b) :: l) from h)
    refine ⟨{ (c.write p ⟨none, c.head, a⟩).write q ⟨some p, firstOf l, b⟩ with head := some p },
      ?_, hnodup, rfl, ?_, ?_⟩
    · rw [Chain.linkLeft, h.head]
      dsimp
      rw [Chain.setPrev, ← firstOf_cons (q, b) l, ← h.head, hnode]
      rfl
    · refine h.tail.trans ?_
      rw [lastOf_cons (p, a), lastOf_cons (q, b)]
      simp
    intro x
    refine (node_write _ q _ x).trans ?_
    rw [node_write, h.nodes, h.head, segment_cons, segment_cons, segment_cons]
    by_cases hx : x = q
    · rw [if_pos hx, if_neg (hx ▸ hne), if_pos hx]
      simp
    by_cases hx' : x = p
    · rw [if_neg hx, if_pos hx', if_pos hx']
      rfl
    · rw [if_neg hx, if_neg hx', if_neg hx, if_neg hx', if_neg hx]

theorem Holds.linkRight (h : c.Holds l) (hp : c.node p = none) (a : α) :
    ∃ c', c.linkRight p a = some c' ∧ c'.Holds (l ++ [(p, a)]) := by
  have hnew := (node_none_iff h).mp hp
  have hnodup : ((l ++ [(p, a)]).map fst).Nodup := by
    rw [List.map_append, List.nodup_append]
    refine ⟨h.nodup, List.nodup_singleton _, ?_⟩
    intro x hx y hy hxy
    rw [List.map_singleton, List.mem_singleton] at hy
    rw [hxy, hy] at hx
    exact hnew hx
  cases l using reverseRecOn with
  | nil =>
    refine ⟨{ c.write p ⟨c.tail, none, a⟩ with
      head := some p
      tail := some p }, by rw [Chain.linkRight, h.tail]; rfl, hnodup, rfl, rfl, ?_⟩
    intro x
    refine (node_write c p ⟨c.tail, none, a⟩ x).trans ?_
    rw [h.nodes, h.tail]
    rfl
  | append_singleton l d =>
    obtain ⟨q, b⟩ := d
    have hne : q ≠ p := fun heq => hnew (by simp [heq])
    obtain ⟨hq, -⟩ := nodup_split h.nodup
    have hp' : p ∉ l.map fst := fun hmem => hnew (by simp [hmem])
    have hnode : ({ c.write p ⟨c.tail, none, a⟩ with tail := some p } : Chain α).node q
        = some ⟨lastOf l, none, b⟩ := by
      refine (node_write c p ⟨c.tail, none, a⟩ q).trans ?_
      rw [if_neg hne]
      exact h.node_eq
    refine ⟨{ (c.write p ⟨c.tail, none, a⟩).write q ⟨lastOf l, some p, b⟩ with tail := some p },
      ?_, hnodup, ?_, by rw [lastOf_snoc], ?_⟩
    · rw [Chain.linkRight, h.tail]
      simp only [lastOf_snoc]
      rw [Chain.setNext, ← lastOf_snoc l (q, b), ← h.tail, hnode]
      rfl
    · refine h.head.trans ?_
      rw [firstOf_append, firstOf_append, firstOf_append, firstOf_cons, Option.or_assoc, some_or]
    intro x
    refine (node_write _ q _ x).trans ?_
    rw [node_write, h.nodes, h.tail, segment_snoc, segment_snoc, segment_snoc]
    by_cases hx : x = q
    · rw [hx, segment_eq_none hq]
      simp
    by_cases hx' : x = p
    · rw [if_neg hx, if_pos hx', hx', segment_eq_none hp', if_neg (Ne.symm hne)]
      simp
    · simp [hx, hx']

/-- What is left of a list when a node is cut out, its neighbours already linked. -/
theorem Holds.of_free {c' : Chain α} (h : c.Holds (pre ++ (p, a) :: post))
    (hhead : c'.head = (firstOf pre).or (firstOf post))
    (htail : c'.tail = (lastOf post).or (lastOf pre)) (hnodes : ∀ x, x ≠ p → c'.node x
      = (segment none (firstOf post) pre x).or (segment (lastOf pre) none post x)) :
    Holds { c' with nodes := c'.nodes.free p } (pre ++ post) := by
  obtain ⟨hpre, hpost, hdisj, hnodup, hnodup'⟩ := nodup_split h.nodup
  refine ⟨?_, ?_, ?_, ?_⟩
  · rw [List.map_append, List.nodup_append]
    exact ⟨hnodup, hnodup', fun x hx y hy hxy => hdisj x hx (hxy ▸ hy)⟩
  · rw [firstOf_append]
    exact hhead
  · rw [lastOf_append]
    exact htail
  intro x
  rw [node_free, segment_append]
  by_cases hx : x = p
  · rw [if_pos hx, hx, segment_eq_none hpre, segment_eq_none hpost]
    rfl
  · rw [if_neg hx, hnodes x hx]
    simp

theorem Holds.relinkPrev (h : c.Holds (pre ++ (p, a) :: post)) :
    ∃ c', c.setNextOf (lastOf pre) (firstOf post) = some c' ∧
      c'.head = (firstOf pre).or (firstOf post) ∧ c'.tail = c.tail ∧
      ∀ x, c'.node x
        = (segment none (firstOf post) pre x).or (segment (lastOf pre) none ((p, a) :: post) x) := by
  cases pre using reverseRecOn with
  | nil =>
    refine ⟨{ c with head := firstOf post }, rfl, rfl, rfl, ?_⟩
    exact h.nodes
  | append_singleton pre d =>
    obtain ⟨q, b⟩ := d
    have hsplit : c.Holds (pre ++ (q, b) :: ((p, a) :: post)) := by
      rw [List.append_cons]
      exact h
    obtain ⟨hq, hq', -⟩ := nodup_split hsplit.nodup
    have hnode := hsplit.node_eq
    refine ⟨c.write q ⟨lastOf pre, firstOf post, b⟩, ?_, ?_, rfl, ?_⟩
    · rw [lastOf_snoc, setNextOf, Chain.setNext, hnode]
      rfl
    · refine h.head.trans ?_
      rw [firstOf_append, firstOf_append, firstOf_cons, Option.or_assoc,
        Option.or_assoc, some_or, some_or]
    intro x
    rw [node_write, h.nodes, segment_append, segment_snoc, segment_snoc]
    by_cases hx : x = q
    · rw [hx, segment_eq_none hq]
      simp
    · simp [hx]

theorem relinkNext {c' : Chain α} (hnodup : ((pre ++ (p, a) :: post).map fst).Nodup)
    (htail : c'.tail = lastOf (pre ++ (p, a) :: post)) (hnodes : ∀ x, c'.node x
      = (segment none (firstOf post) pre x).or (segment (lastOf pre) none ((p, a) :: post) x)) :
    ∃ c'', c'.setPrevOf (firstOf post) (lastOf pre) = some c'' ∧
      c''.head = c'.head ∧ c''.tail = (lastOf post).or (lastOf pre) ∧
      ∀ x, x ≠ p → c''.node x
        = (segment none (firstOf post) pre x).or (segment (lastOf pre) none post x) := by
  obtain ⟨hpre, hpost, hdisj, -⟩ := nodup_split hnodup
  cases post with
  | nil =>
    refine ⟨{ c' with tail := lastOf pre }, rfl, rfl, rfl, ?_⟩
    intro x hx
    refine (hnodes x).trans ?_
    rw [segment_cons, if_neg hx]
    rfl
  | cons d post =>
    obtain ⟨q, b⟩ := d
    have hq : q ∉ pre.map fst := fun hmem => hdisj q hmem (by simp)
    have hne : q ≠ p := fun heq => hpost (by simp [heq])
    have hnode : c'.node q = some ⟨some p, firstOf post, b⟩ := by
      rw [hnodes, segment_eq_none hq, segment_cons, if_neg hne, segment_cons]
      simp
    refine ⟨c'.write q ⟨lastOf pre, firstOf post, b⟩, ?_, rfl, ?_, ?_⟩
    · rw [firstOf_cons, setPrevOf, Chain.setPrev, hnode]
      rfl
    · refine htail.trans ?_
      rw [lastOf_append, lastOf_cons, lastOf_cons]
      simp
    intro x hx
    rw [node_write, hnodes, segment_cons, segment_cons, segment_cons, if_neg hx]
    by_cases hx' : x = q
    · rw [hx', segment_eq_none hq]
      simp
    · rw [if_neg hx', if_neg hx', if_neg hx']

theorem Holds.unlink (h : c.Holds (pre ++ (p, a) :: post)) :
    ∃ c', c.unlink p = some c' ∧ c'.Holds (pre ++ post) := by
  obtain ⟨c₁, hprev, hhead, htail, hnodes⟩ := h.relinkPrev
  obtain ⟨c₂, hnext, hhead', htail', hnodes'⟩ :=
    relinkNext h.nodup (htail.trans h.tail) hnodes
  refine ⟨{ c₂ with nodes := c₂.nodes.free p }, ?_, h.of_free (hhead'.trans hhead) htail' hnodes'⟩
  simp only [Chain.unlink, h.node_eq, Option.bind_some, hprev, hnext, Option.map_some]

theorem Holds.inverse (h : c.Holds l) (p q : Nat) :
    (∃ n, c.node p = some n ∧ n.next = some q) ↔ ∃ m, c.node q = some m ∧ m.prev = some p := by
  constructor
  · rintro ⟨n, hn, hnext⟩
    have hmem : p ∈ l.map fst := by
      by_contra hnot
      rw [(node_none_iff h).mpr hnot] at hn
      cases hn
    obtain ⟨⟨r, a⟩, hr, rfl⟩ := List.mem_map.mp hmem
    obtain ⟨pre, post, rfl⟩ := List.append_of_mem hr
    rw [h.node_eq, Option.some.injEq] at hn
    subst hn
    cases post with
    | nil => cases hnext
    | cons d post =>
      obtain ⟨s, b⟩ := d
      injection hnext with hs
      subst hs
      have hsplit : c.Holds ((pre ++ [(r, a)]) ++ (s, b) :: post) := by
        rw [← List.append_cons]
        exact h
      exact ⟨_, hsplit.node_eq, lastOf_snoc pre (r, a)⟩
  · rintro ⟨m, hm, hprev⟩
    have hmem : q ∈ l.map fst := by
      by_contra hnot
      rw [(node_none_iff h).mpr hnot] at hm
      cases hm
    obtain ⟨⟨r, a⟩, hr, rfl⟩ := List.mem_map.mp hmem
    obtain ⟨pre, post, rfl⟩ := List.append_of_mem hr
    rw [h.node_eq, Option.some.injEq] at hm
    subst hm
    cases pre using reverseRecOn with
    | nil => cases hprev
    | append_singleton pre d =>
      obtain ⟨s, b⟩ := d
      rw [lastOf_snoc] at hprev
      injection hprev with hs
      subst hs
      have hsplit : c.Holds (pre ++ (s, b) :: ((r, a) :: post)) := by
        rw [List.append_cons]
        exact h
      exact ⟨_, hsplit.node_eq, rfl⟩

end Chain

end Ddup.Lib
