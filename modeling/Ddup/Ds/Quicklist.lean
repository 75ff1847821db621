/-
Ddup.Ds.Quicklist — `ds/quicklist.c`: a doubly linked list of listpack nodes.

Nodes live in a heap with an arbitrary allocator. A function that would read through NULL or
through a released node fails with `undefined`, a listpack that ends the process with `exit`.
`count` is a `uint32_t`, and its sums wrap. The byte counters (`bytes`, `mem`) are left out: no
function here reads them but to update them.
-/
import Ddup.Lib.Linked
import Ddup.Lib.Fault
import Ddup.Ds.Listpack

namespace Ddup.Ds

open Ddup.Lib

structure QlNode where
  lp : Bytes
  count : Nat

structure Quicklist where
  chain : Chain QlNode
  len : Nat

structure QlIter where
  node : Option Nat
  entry : Option Nat

def uint32 (n : Nat) : Nat := n % 2 ^ 32

/-- A `uint32_t` counted down. -/
def uint32Pred (n : Nat) : Nat := if n = 0 then uint32Max else n - 1

def qlNew : Quicklist := ⟨Chain.empty, 0⟩

/-! ## Merging -/

def qlNodeMergeInto (c : Chain QlNode) (dst src : Nat) : Faulty (Chain QlNode) := do
  let d ← deref (c.node dst)
  let s ← deref (c.node src)
  let lp ← alive ((lpForward s.data.lp).foldlM
    (fun lp p => lpAppend lp (lpGetStr (s.data.lp.drop p))) d.data.lp)
  let c ← deref (c.setData dst ⟨lp, uint32 (d.data.count + s.data.count)⟩)
  deref (c.unlink src)

/-- Whether a neighbour is there and the two nodes fit into one. -/
def foldable (fill : Nat) (c : Chain QlNode) (count : Nat) : Option Nat → Faulty Bool
  | none => .ok false
  | some q => do
    let m ← deref (c.node q)
    return uint32 (count + m.data.count) ≤ uint32 (2 * fill)

inductive Merge
  | none
  | nextIn
  | intoPrev
deriving DecidableEq

def qlMaybeMerge (fill : Nat) (c : Chain QlNode) (p : Nat) : Faulty (Chain QlNode × Merge) := do
  let n ← deref (c.node p)
  if fill / 4 ≤ n.data.count then return (c, .none)
  else if ← foldable fill c n.data.count n.next then
    let q ← deref n.next
    return (← qlNodeMergeInto c p q, .nextIn)
  else if ← foldable fill c n.data.count n.prev then
    let q ← deref n.prev
    return (← qlNodeMergeInto c q p, .intoPrev)
  else return (c, .none)

/-! ## Ends -/

def qlNodeNew (A : Heap.Allocator (Node QlNode)) (c : Chain QlNode) (left : Bool) :
    Faulty (Chain QlNode × Nat) := do
  let p := A.next c.nodes
  let c ← deref (if left then c.linkLeft p ⟨lpNew, 0⟩ else c.linkRight p ⟨lpNew, 0⟩)
  return (c, p)

/-- The end node a push goes to: a full one is left alone. -/
def qlPushNode (A : Heap.Allocator (Node QlNode)) (fill : Nat) (c : Chain QlNode) (left : Bool) :
    Faulty (Chain QlNode × Nat) :=
  match if left then c.head else c.tail with
  | none => qlNodeNew A c left
  | some p => do
    let n ← deref (c.node p)
    if fill ≤ n.data.count then qlNodeNew A c left else return (c, p)

def qlPush (A : Heap.Allocator (Node QlNode)) (fill : Nat) (q : Quicklist) (left : Bool)
    (data : Bytes) : Faulty (Quicklist × Int) :=
  if uint32Max < data.length then .ok (q, -1)
  else do
    let (c, p) ← qlPushNode A fill q.chain left
    let n ← deref (c.node p)
    let lp ← alive (if left then lpPrepend n.data.lp data else lpAppend n.data.lp data)
    let c ← deref (c.setData p ⟨lp, uint32 (n.data.count + 1)⟩)
    return (⟨c, q.len + 1⟩, 0)

/-- What becomes of an end node that lost an entry. -/
def qlShrink (fill : Nat) (c : Chain QlNode) (p : Nat) (lp : Bytes) (count : Nat) :
    Faulty (Chain QlNode) :=
  if count = 0 then deref (c.unlink p)
  else do
    let c ← deref (c.setData p ⟨lp, count⟩)
    let (c, _) ← qlMaybeMerge fill c p
    return c

def qlPop (fill : Nat) (q : Quicklist) (left : Bool) : Faulty (Quicklist × Option Bytes) :=
  match if left then q.chain.head else q.chain.tail with
  | none => .ok (q, none)
  | some p => do
    let n ← deref (q.chain.node p)
    let e ← deref (if left then lpFirst n.data.lp else lpLast n.data.lp)
    let (lp, _) ← alive (lpDelete n.data.lp e)
    let c ← qlShrink fill q.chain p lp (uint32Pred n.data.count)
    return (⟨c, q.len - 1⟩, some (lpGetStr (n.data.lp.drop e)))

/-! ## Iterators -/

/-- The loops of `ql_seek`: the node that holds the index, counted from one end. -/
def seekLoop (c : Chain QlNode) (ahead : Bool) : Nat → Option Nat → Nat → Faulty (Nat × Nat)
  | fuel + 1, some p, idx => do
    let n ← deref (c.node p)
    if n.data.count ≤ idx then
      seekLoop c ahead fuel (if ahead then n.next else n.prev) (idx - n.data.count)
    else return (p, idx)
  | _, _, _ => .error .undefined

def qlSeek (q : Quicklist) (idx : Nat) : Faulty (Option QlIter) :=
  if q.len ≤ idx then .ok none
  else if idx < q.len / 2 then do
    let (p, i) ← seekLoop q.chain true (q.chain.nodes.length + 1) q.chain.head idx
    let n ← deref (q.chain.node p)
    return (lpSeek n.data.lp i).map fun e => ⟨some p, some e⟩
  else do
    let (p, i) ← seekLoop q.chain false (q.chain.nodes.length + 1) q.chain.tail (q.len - 1 - idx)
    let n ← deref (q.chain.node p)
    return (lpSeek n.data.lp ((n.data.count : Int) - 1 - i)).map fun e => ⟨some p, some e⟩

def enterNode (c : Chain QlNode) (first : Bool) : Option Nat → Faulty QlIter
  | none => .ok ⟨none, none⟩
  | some p => do
    let n ← deref (c.node p)
    return ⟨some p, if first then lpFirst n.data.lp else lpLast n.data.lp⟩

def qlFirst (q : Quicklist) : Faulty QlIter := enterNode q.chain true q.chain.head
def qlLast (q : Quicklist) : Faulty QlIter := enterNode q.chain false q.chain.tail

def qlIterNext (q : Quicklist) (it : QlIter) : Faulty QlIter :=
  match it.entry with
  | none => .ok it
  | some e => do
    let p ← deref it.node
    let n ← deref (q.chain.node p)
    match lpNext n.data.lp e with
    | some e' => return ⟨some p, some e'⟩
    | none => enterNode q.chain true n.next

def qlIterPrev (q : Quicklist) (it : QlIter) : Faulty QlIter :=
  match it.entry with
  | none => .ok it
  | some e => do
    let p ← deref it.node
    let n ← deref (q.chain.node p)
    match lpPrev n.data.lp e with
    | some e' => return ⟨some p, some e'⟩
    | none => enterNode q.chain false n.prev

def qlIterValue (q : Quicklist) (it : QlIter) : Faulty (Option Bytes) :=
  match it.entry with
  | none => .ok none
  | some e => do
    let p ← deref it.node
    let n ← deref (q.chain.node p)
    return some (lpGetStr (n.data.lp.drop e))

/-! ## Edits -/

def qlSet (q : Quicklist) (it : QlIter) (data : Bytes) : Faulty (Quicklist × QlIter × Int) :=
  match it.entry with
  | none => .ok (q, it, -1)
  | some e =>
    if uint32Max < data.length then .ok (q, it, -1)
    else do
      let p ← deref it.node
      let n ← deref (q.chain.node p)
      let lp ← alive (lpReplace n.data.lp e data)
      let c ← deref (q.chain.setData p ⟨lp, n.data.count⟩)
      return (⟨c, q.len⟩, it, 1)

def qlInsert (q : Quicklist) (it : QlIter) (w : Where) (data : Bytes) :
    Faulty (Quicklist × QlIter × Int) :=
  match it.entry with
  | none => .ok (q, it, -1)
  | some e =>
    if uint32Max < data.length then .ok (q, it, -1)
    else do
      let p ← deref it.node
      let n ← deref (q.chain.node p)
      let (lp, newp) ← alive (lpInsert n.data.lp data (some e) w)
      let c ← deref (q.chain.setData p ⟨lp, uint32 (n.data.count + 1)⟩)
      return (⟨c, q.len + 1⟩, ⟨some p, some newp⟩, 1)

def qlEntryIndex (lp : Bytes) (e : Nat) : Nat := ((lpForward lp).takeWhile (· ≠ e)).length

def seekNode (c : Chain QlNode) (p : Nat) (i : Nat) : Faulty QlIter := do
  let n ← deref (c.node p)
  return ⟨some p, lpSeek n.data.lp i⟩

def prevCount (c : Chain QlNode) : Option Nat → Faulty Nat
  | none => .ok 0
  | some q => do
    let m ← deref (c.node q)
    return m.data.count

/-- The rest of `ql_remove` when the entry that followed is in the same node. -/
def removeInside (fill : Nat) (c : Chain QlNode) (n : Node QlNode) (p : Nat) (lp : Bytes)
    (count e : Nat) : Faulty (Chain QlNode × QlIter) := do
  let c ← deref (c.setData p ⟨lp, count⟩)
  if count < fill / 4 then
    let prevCnt ← prevCount c n.prev
    let (c, merged) ← qlMaybeMerge fill c p
    if merged = .intoPrev then
      let prev ← deref n.prev
      return (c, ← seekNode c prev (prevCnt + qlEntryIndex lp e))
    else return (c, ← seekNode c p (qlEntryIndex lp e))
  else return (c, ⟨some p, some e⟩)

/-- The rest of `ql_remove` when the removed entry was the last of its node. -/
def removeLast (fill : Nat) (c : Chain QlNode) (n : Node QlNode) (p : Nat) (lp : Bytes)
    (count : Nat) : Faulty (Chain QlNode × QlIter) :=
  if count = 0 then do
    let c ← deref (c.unlink p)
    return (c, ← enterNode c true n.next)
  else do
    let c ← deref (c.setData p ⟨lp, count⟩)
    let it ← enterNode c true n.next
    if count < fill / 4 then
      let (c, merged) ← qlMaybeMerge fill c p
      if merged = .nextIn then return (c, ← seekNode c p count)
      else return (c, it)
    else return (c, it)

/-- `ql_remove`. It reads the node before it looks whether there is an entry. -/
def qlRemove (fill : Nat) (q : Quicklist) (it : QlIter) : Faulty (Quicklist × QlIter) := do
  let p ← deref it.node
  let n ← deref (q.chain.node p)
  match it.entry with
  | none => return (q, it)
  | some e =>
    let (lp, np) ← alive (lpDelete n.data.lp e)
    let count := uint32Pred n.data.count
    let (c, it) ← match np with
      | some e' => removeInside fill q.chain n p lp count e'
      | none => removeLast fill q.chain n p lp count
    return (⟨c, q.len - 1⟩, it)

end Ddup.Ds
