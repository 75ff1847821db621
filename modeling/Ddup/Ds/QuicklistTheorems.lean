/-
Ddup.Ds.QuicklistTheorems — a quicklist is the list of its elements, and its iterator a position
in it, along every run.

A `View` is a plain list with a position. Each operation on a quicklist and its iterator does to
the elements and the position what `viewStep` does to a view, and hands out the same elements; so
does a run, as long as each element is short enough for a listpack entry. One that is not loses
its contents.
-/
import Ddup.Ds.QuicklistIterTheorems

namespace Ddup.Ds

open Ddup.Lib

variable {l : List (Nat × QlNode)} {fill : Nat} {A : Heap.Allocator (Node QlNode)}
    {s : QlState} {v : View}

/-! ## Runs -/

inductive QlOp
  | push (left : Bool) (data : Element)
  | pop (left : Bool)
  | seek (idx : Nat)
  | first
  | last
  | next
  | prev
  | set (data : Element)
  | insert (w : Where) (data : Element)
  | remove

def QlOp.value : QlOp → Bytes
  | push _ data | set data | insert _ data => data
  | _ => []

structure QlState where
  list : Quicklist
  iter : QlIter

def noIter : QlIter := ⟨none, none⟩

/-- One call, and what it hands out. Pushes and pops invalidate the iterator, and `ql_remove` is
not called with an invalid one. -/
def qlStep (A : Heap.Allocator (Node QlNode)) (fill : Nat) (s : QlState) :
    QlOp → Faulty (QlState × Option Bytes)
  | .push left data => do
    let r ← qlPush A fill s.list left data
    return (⟨r.1, noIter⟩, none)
  | .pop left => do
    let r ← qlPop fill s.list left
    return (⟨r.1, noIter⟩, r.2)
  | .seek idx => do
    let it ← qlSeek s.list idx
    return (⟨s.list, it.getD noIter⟩, none)
  | .first => do return (⟨s.list, ← qlFirst s.list⟩, none)
  | .last => do return (⟨s.list, ← qlLast s.list⟩, none)
  | .next => do return (⟨s.list, ← qlIterNext s.list s.iter⟩, none)
  | .prev => do return (⟨s.list, ← qlIterPrev s.list s.iter⟩, none)
  | .set data => do
    let r ← qlSet s.list s.iter data
    return (⟨r.1, r.2.1⟩, none)
  | .insert w data => do
    let r ← qlInsert s.list s.iter w data
    return (⟨r.1, r.2.1⟩, none)
  | .remove =>
    match s.iter.entry with
    | none => .ok (s, none)
    | some _ => do
      let r ← qlRemove fill s.list s.iter
      return (⟨r.1, r.2⟩, none)

def qlRun (A : Heap.Allocator (Node QlNode)) (fill : Nat) (s : QlState) :
    List QlOp → Faulty (QlState × List (Option Bytes))
  | [] => .ok (s, [])
  | op :: ops => do
    let r ← qlStep A fill s op
    let rest ← qlRun A fill r.1 ops
    return (rest.1, r.2 :: rest.2)

structure View where
  items : List Bytes
  cursor : Option Nat

def viewStep (v : View) : QlOp → View × Option Bytes
  | .push left data => (⟨if left then data.1 :: v.items else v.items ++ [data.1], none⟩, none)
  | .pop left => (⟨(popped left v.items).2, none⟩, (popped left v.items).1)
  | .seek idx => (⟨v.items, position v.items idx⟩, none)
  | .first => (⟨v.items, position v.items 0⟩, none)
  | .last => (⟨v.items, before v.items.length⟩, none)
  | .next => (⟨v.items, v.cursor.bind fun k => position v.items (k + 1)⟩, none)
  | .prev => (⟨v.items, v.cursor.bind before⟩, none)
  | .set data => (v.cursor.elim v fun k => ⟨v.items.set k data.1, some k⟩, none)
  | .insert w data =>
    (v.cursor.elim v fun k => ⟨v.items.insertIdx (insertAt w k) data.1, some (insertAt w k)⟩, none)
  | .remove =>
    (v.cursor.elim v fun k => ⟨v.items.eraseIdx k, position (v.items.eraseIdx k) k⟩, none)

def viewRun (v : View) : List QlOp → View × List (Option Bytes)
  | [] => (v, [])
  | op :: ops =>
    let rest := viewRun (viewStep v op).1 ops
    (rest.1, (viewStep v op).2 :: rest.2)

/-- A quicklist with its iterator follows a list with a position. -/
def Follows (s : QlState) (v : View) : Prop :=
  ∃ l, Sound s.list l ∧ allOf l = v.items ∧ Points l s.iter v.cursor

theorem follows_move {full : Prop} {move : Faulty QlIter} {cur : Option Nat} (h : Sound s.list l)
    (hall : allOf l = v.items) (hmove : Meets move full fun it => Points l it cur) :
    Meets (do return ((⟨s.list, ← move⟩ : QlState), (none : Option Bytes))) full
      fun r => Follows r.1 ⟨v.items, cur⟩ ∧ r.2 = none :=
  hmove.bind fun _ hit => ⟨⟨l, h, hall, hit⟩, rfl⟩

theorem qlStep_follows (h : Follows s v) {op : QlOp} (hop : Short op.value) :
    Meets (qlStep A fill s op) (uint32Max < packedBytes (viewStep v op).1.items)
      fun r => Follows r.1 (viewStep v op).1 ∧ r.2 = (viewStep v op).2 := by
  obtain ⟨l, hsound, hall, hpoints⟩ := h
  obtain ⟨items, cursor⟩ := v
  subst hall
  cases op with
  | push left data =>
    refine (qlPush_meets hsound hop).bind ?_
    rintro r ⟨-, l', hsound', hall'⟩
    exact ⟨⟨l', hsound', hall', rfl⟩, rfl⟩
  | pop left =>
    refine (qlPop_meets hsound).bind ?_
    rintro r ⟨hout, l', hsound', hall'⟩
    exact ⟨⟨l', hsound', hall', rfl⟩, hout⟩
  | seek idx =>
    refine (qlSeek_meets hsound idx _).bind ?_
    intro it hfound
    refine ⟨⟨l, hsound, rfl, ?_⟩, rfl⟩
    dsimp only [viewStep]
    cases it with
    | none =>
      rw [hfound]
      rfl
    | some it =>
      obtain ⟨k, hk, hstands⟩ := hfound
      rw [hk]
      exact hstands
  | first => exact follows_move hsound rfl (qlFirst_meets hsound.nodes _)
  | last => exact follows_move hsound rfl (qlLast_meets hsound.nodes _)
  | next =>
    cases cursor with
    | none =>
      refine follows_move hsound rfl ?_
      rw [qlIterNext, show s.iter.entry = none from hpoints]
      exact hpoints
    | some k => exact follows_move hsound rfl (qlIterNext_meets hsound.nodes hpoints _)
  | prev =>
    cases cursor with
    | none =>
      refine follows_move hsound rfl ?_
      rw [qlIterPrev, show s.iter.entry = none from hpoints]
      exact hpoints
    | some k => exact follows_move hsound rfl (qlIterPrev_meets hsound.nodes hpoints _)
  | set data =>
    cases cursor with
    | none =>
      dsimp only [qlStep]
      rw [qlSet, show s.iter.entry = none from hpoints]
      exact ⟨⟨l, hsound, rfl, hpoints⟩, rfl⟩
    | some k =>
      refine (qlSet_meets hsound hpoints hop).bind ?_
      rintro r ⟨l', hsound', hall', hstands⟩
      exact ⟨⟨l', hsound', hall', hstands⟩, rfl⟩
  | insert w data =>
    cases cursor with
    | none =>
      dsimp only [qlStep]
      rw [qlInsert, show s.iter.entry = none from hpoints]
      exact ⟨⟨l, hsound, rfl, hpoints⟩, rfl⟩
    | some k =>
      refine (qlInsert_meets hsound hpoints w hop).bind ?_
      rintro r ⟨l', hsound', hall', hstands⟩
      exact ⟨⟨l', hsound', hall', hstands⟩, rfl⟩
  | remove =>
    cases cursor with
    | none =>
      dsimp only [qlStep]
      rw [show s.iter.entry = none from hpoints]
      exact ⟨⟨l, hsound, rfl, hpoints⟩, rfl⟩
    | some k =>
      obtain ⟨e, he⟩ : ∃ e, s.iter.entry = some e := by
        obtain ⟨pre, p, n, post, j, -, hit, -⟩ := hpoints
        exact ⟨_, by rw [hit]⟩
      dsimp only [qlStep]
      rw [he]
      refine (qlRemove_meets hsound hpoints).bind ?_
      rintro r ⟨l', hsound', hall', hpoints'⟩
      exact ⟨⟨l', hsound', hall', hpoints'⟩, rfl⟩

theorem qlRun_follows {ops : List QlOp} (hops : ∀ op ∈ ops, Short op.value) :
    ∀ {s} {v}, Follows s v →
      Meets (qlRun A fill s ops)
        (∃ part, part <+: ops ∧ uint32Max < packedBytes (viewRun v part).1.items)
        fun r => Follows r.1 (viewRun v ops).1 ∧ r.2 = (viewRun v ops).2 := by
  induction ops with
  | nil => exact fun h => ⟨h, rfl⟩
  | cons op ops ih =>
    intro s v h
    refine ((qlStep_follows h (hops op List.mem_cons_self)).mono ?_ fun _ hr => hr).bind ?_
    · exact fun hfull => ⟨[op], ⟨ops, rfl⟩, hfull⟩
    rintro r ⟨hfollows, hout⟩
    refine ((ih (fun o ho => hops o (List.mem_cons_of_mem _ ho)) hfollows).mono ?_
      fun _ hr => hr).bind ?_
    · rintro ⟨part, hpart, hfull⟩
      exact ⟨op :: part, List.cons_prefix_cons.mpr ⟨rfl, hpart⟩, hfull⟩
    rintro rest ⟨hlast, houts⟩
    refine ⟨hlast, ?_⟩
    rw [hout, houts]
    rfl

/-! ## The refinement -/

/-- A quicklist with its nodes `l` and its iterator, seen as a list with a position. -/
structure QlShows (s : QlState) (v : View) (l : List (Nat × QlNode)) : Prop where
  nodes : s.list.chain.Holds l
  inverse : ∀ p r, (∃ n, s.list.chain.node p = some n ∧ n.next = some r) ↔
    ∃ m, s.list.chain.node r = some m ∧ m.prev = some p
  concat : l.flatMap (fun c => contents c.2) = v.items
  len : s.list.len = v.items.length
  counts : s.list.len = (l.map fun c => c.2.count).sum
  nonempty : ∀ c ∈ l, contents c.2 ≠ []
  cursor : Points l s.iter v.cursor
  value : qlIterValue s.list s.iter = .ok (v.cursor.bind (v.items[·]?))

theorem sum_counts (h : ∀ x ∈ l, NodeSound x.2) :
    (l.map fun c => c.2.count).sum = (allOf l).length := by
  induction l with
  | nil => rfl
  | cons d l ih =>
    obtain ⟨p, n⟩ := d
    have hn : n.count = (contents n).length := (h (p, n) List.mem_cons_self).count
    rw [List.map_cons, List.sum_cons, ih fun x hx => h x (List.mem_cons_of_mem _ hx), allOf_cons,
      List.length_append, hn]

theorem Follows.shows (h : Follows s v) : ∃ l, QlShows s v l := by
  obtain ⟨l, hsound, hall, hpoints⟩ := h
  refine ⟨l, hsound.nodes.holds, hsound.nodes.holds.inverse, hall, hall ▸ hsound.len,
    hsound.len.trans (sum_counts hsound.nodes.sound).symm,
    fun c hc => (hsound.nodes.sound c hc).nonempty, hpoints, ?_⟩
  cases hcur : v.cursor with
  | none =>
    rw [hcur] at hpoints
    rw [qlIterValue, show s.iter.entry = none from hpoints]
    rfl
  | some k =>
    rw [hcur] at hpoints
    have hvalue := qlIterValue_meets hsound.nodes hpoints False
    cases hres : qlIterValue s.list s.iter with
    | error e =>
      rw [hres] at hvalue
      cases e <;> exact absurd hvalue id
    | ok x =>
      rw [hres] at hvalue
      rw [← hall]
      exact congrArg Except.ok hvalue

/-- After a run from a new quicklist it shows what the same operations make of an empty list, and
has handed out the same elements, unless the process ended at a list along the way that needs more
than `UINT32_MAX` bytes. -/
def QlRefined (A : Heap.Allocator (Node QlNode)) (fill : Nat) (ops : List QlOp) : Prop :=
  match qlRun A fill ⟨qlNew, noIter⟩ ops with
  | .ok (s, outs) =>
    (∃ l, QlShows s (viewRun ⟨[], none⟩ ops).1 l) ∧ outs = (viewRun ⟨[], none⟩ ops).2
  | .error .exit => ∃ part, part <+: ops ∧ uint32Max < packedBytes (viewRun ⟨[], none⟩ part).1.items
  | .error .undefined => False

theorem qlNew_follows : Follows ⟨qlNew, noIter⟩ ⟨[], none⟩ :=
  ⟨[], ⟨⟨Chain.empty_holds, by simp⟩, rfl⟩, rfl, rfl⟩

/-- Every run with elements of fewer than 2^32 - 5 bytes. -/
theorem qlRun_refined (A : Heap.Allocator (Node QlNode)) (fill : Nat) (ops : List QlOp)
    (hshort : ∀ op ∈ ops, op.value.length + 5 < 2 ^ 32) : QlRefined A fill ops := by
  have hrun : Meets (qlRun A fill ⟨qlNew, noIter⟩ ops) _ _ := qlRun_follows hshort qlNew_follows
  unfold QlRefined
  cases hres : qlRun A fill ⟨qlNew, noIter⟩ ops with
  | ok r =>
    rw [hres] at hrun
    exact ⟨hrun.1.shows, hrun.2⟩
  | error e =>
    rw [hres] at hrun
    cases e with
    | exit => exact hrun
    | undefined => exact hrun

theorem qlRun_refined_six :
    QlRefined (Heap.bump _) 2 [.push true ⟨[49], by decide⟩, .push false ⟨[97], by decide⟩,
      .seek 0, .insert .after ⟨[], by decide⟩, .remove, .pop false] :=
  qlRun_refined _ _ _ (by decide)

def truncated : Quicklist :=
  ⟨⟨[(1, ⟨none, none, ⟨[8, 0, 0, 0, 1, 0, 0, 0xFF], 1⟩⟩)], some 1, some 1⟩, 1⟩

/-- An element of 2^32 - 5 bytes reads back as the text of zero. -/
theorem push_wraps_not_refined {s : Element} (h : s.1.length = 2 ^ 32 - 5) :
    ¬ QlRefined (Heap.bump _) 128 [.push false s, .first] := by
  have hfits : ¬ uint32Max < s.1.length := Nat.not_lt.mpr s.2
  have hrun : ∃ st, qlRun (Heap.bump _) 128 ⟨qlNew, noIter⟩ [.push false s, .first]
      = .ok (st, [none, none]) ∧ qlIterValue st.list st.iter = .ok (some [48]) := by
    have hpush : qlPush (Heap.bump _) 128 qlNew false s = .ok (truncated, 0) := by
      rw [qlPush, if_neg hfits]
      show (alive (lpAppend lpNew s) >>= _) = _
      rw [lpAppend_wraps h]
      rfl
    refine ⟨⟨truncated, ⟨some 1, some 6⟩⟩, ?_, rfl⟩
    rw [qlRun, qlStep, hpush]
    rfl
  intro hrefined
  obtain ⟨st, hst, hvalue⟩ := hrun
  rw [QlRefined, hst] at hrefined
  obtain ⟨⟨l, hshows⟩, -⟩ := hrefined
  have hread := hvalue.symm.trans hshows.value
  injection hread with hread
  have hs : some [48] = some s.1 := hread
  injection hs with hs
  rw [← hs] at h
  exact absurd h (by decide)

theorem longPush_lost : ¬ ∀ A fill ops, QlRefined A fill ops := by
  intro hall
  obtain ⟨s, hs⟩ : ∃ s : Bytes, s.length = 2 ^ 32 - 5 :=
    ⟨List.replicate (2 ^ 32 - 5) 97, List.length_replicate⟩
  have hfits : s.length ≤ uint32Max := by
    rw [hs]
    decide
  exact push_wraps_not_refined (s := ⟨s, hfits⟩) hs (hall _ _ _)

end Ddup.Ds
