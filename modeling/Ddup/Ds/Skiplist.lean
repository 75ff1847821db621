/-
Ddup.Ds.Skiplist — `ds/skiplist.c`: a skip list of (score, member) pairs with spans.

Nodes live in a heap with an arbitrary allocator, the header among them. A read through NULL, of a
released node or past a node's levels gives `none`. Scores come from any linear order. The level a
new node gets is drawn from a source of levels; the source of the code is `zslLevels`. Spans and
the ranks of an insertion are `uint32_t` and wrap; `length` is a `size_t` and is not taken to wrap.
The memory counter is left out: no function here reads it but to update it.
-/
import Ddup.Basic
import Ddup.Lib.Heap

namespace Ddup.Ds

open Ddup.Lib

/-- `ZSL_MAX_LEVEL`. -/
def zslMaxLevel : Nat := 32

structure ZslLevel where
  forward : Option Nat
  span : UInt32
deriving DecidableEq

structure ZslNode (S : Type) where
  score : S
  backward : Option Nat
  member : Bytes
  level : List ZslLevel

structure Zskiplist (S R : Type) where
  nodes : Heap (ZslNode S)
  header : Nat
  tail : Option Nat
  length : Nat
  level : Nat
  rngState : R

/-! ## Levels -/

structure Levels (R : Type) where
  seed : R
  draw : R → Nat × R
  draw_pos : ∀ r, 1 ≤ (draw r).1
  draw_le : ∀ r, (draw r).1 ≤ zslMaxLevel

def zslRand (x : UInt32) : UInt32 :=
  let x := x ^^^ x <<< 13
  let x := x ^^^ x >>> 17
  x ^^^ x <<< 5

/-- The rounds of `zsl_random_level`, with the levels still free. -/
def zslClimb : Nat → UInt32 → Nat × UInt32
  | 0, x => (0, x)
  | room + 1, x =>
    if zslRand x &&& 0xFFFF < 0x4000 then
      ((zslClimb room (zslRand x)).1 + 1, (zslClimb room (zslRand x)).2)
    else (0, zslRand x)

def zslRandomLevel (x : UInt32) : Nat × UInt32 :=
  ((zslClimb (zslMaxLevel - 1) x).1 + 1, (zslClimb (zslMaxLevel - 1) x).2)

theorem zslClimb_le (room : Nat) (x : UInt32) : (zslClimb room x).1 ≤ room := by
  induction room generalizing x with
  | zero => exact Nat.le_refl 0
  | succ room ih =>
    rw [zslClimb]
    split
    · exact Nat.succ_le_succ (ih _)
    · exact Nat.zero_le _

def zslLevels : Levels UInt32 where
  seed := 0x2545F491
  draw := zslRandomLevel
  draw_pos := fun _ => Nat.le_add_left _ _
  draw_le := fun x => Nat.succ_le_succ (zslClimb_le (zslMaxLevel - 1) x)

/-! ## Comparing -/

def memcmp : Bytes → Bytes → Nat → Ordering
  | a :: as, b :: bs, n + 1 => (compare a b).then (memcmp as bs n)
  | _, _, _ => .eq

def zslLexCmp (m₁ m₂ : Bytes) : Ordering :=
  (memcmp m₁ m₂ (min m₁.length m₂.length)).then (compare m₁.length m₂.length)

section

variable {S R : Type}

/-- `zsl_cmp`: the score first, then the member as in `zsl_lex_cmp`. -/
def zslCmp [LinearOrder S] (s₁ : S) (m₁ : Bytes) (s₂ : S) (m₂ : Bytes) : Ordering :=
  if s₁ < s₂ then .lt
  else if s₂ < s₁ then .gt
  else zslLexCmp m₁ m₂

/-! ## Nodes -/

namespace Zskiplist

def node (z : Zskiplist S R) (p : Nat) : Option (ZslNode S) := z.nodes.get p

/-- `p->level[i]`. -/
def link (z : Zskiplist S R) (p i : Nat) : Option ZslLevel := (z.node p).bind (·.level[i]?)

def setNode (z : Zskiplist S R) (p : Nat) (n : ZslNode S) : Zskiplist S R :=
  { z with nodes := (p, n) :: z.nodes.free p }

def setLink (z : Zskiplist S R) (p i : Nat) (l : ZslLevel) : Option (Zskiplist S R) :=
  (z.node p).bind fun n =>
    if i < n.level.length then some (z.setNode p { n with level := n.level.set i l }) else none

def setBackward (z : Zskiplist S R) (p : Nat) (backward : Option Nat) : Option (Zskiplist S R) :=
  (z.node p).map fun n => z.setNode p { n with backward := backward }

end Zskiplist

def zslCreate [Zero S] (A : Heap.Allocator (ZslNode S)) (L : Levels R) : Zskiplist S R :=
  let header := A.next []
  { nodes := [(header, ⟨0, none, [], List.replicate zslMaxLevel ⟨none, 0⟩⟩)]
    header := header
    tail := none
    length := 0
    level := 1
    rngState := L.seed }

/-! ## Searching -/

variable {K : Type}

/-- Going forward on level `i` while `go` holds of the next node, from a node with a counter that
    adds up the spans. The fuel is more than the number of nodes. -/
def zslAdvance (z : Zskiplist S R) (add : K → UInt32 → K) (go : S → Bytes → K → Bool) (i : Nat) :
    Nat → Nat × K → Option (Nat × K)
  | 0, _ => none
  | fuel + 1, (x, r) => do
    let l ← z.link x i
    match l.forward with
    | none => some (x, r)
    | some q =>
      let n ← z.node q
      if go n.score n.member (add r l.span) then
        zslAdvance z add go i fuel (q, add r l.span)
      else some (x, r)

/-- Going down from the top level: where each level ends, the lowest level first. -/
def zslDescend (z : Zskiplist S R) (add : K → UInt32 → K) (go : S → Bytes → K → Bool) :
    Nat → Nat × K → Option (List (Nat × K))
  | 0, _ => some []
  | i + 1, c => do
    let c ← zslAdvance z add go i (z.length + 1) c
    let below ← zslDescend z add go i c
    return below ++ [c]

/-- Going down until `found` holds where a level ends. -/
def zslSearch (z : Zskiplist S R) (add : K → UInt32 → K) (go : S → Bytes → K → Bool)
    (found : Nat × K → Option Bool) : Nat → Nat × K → Option (Option (Nat × K))
  | 0, _ => some none
  | i + 1, c => do
    let c ← zslAdvance z add go i (z.length + 1) c
    if ← found c then return some c
    else zslSearch z add go found i c

def noCount (_ : Unit) (_ : UInt32) : Unit := ()

/-- A `uint64_t` that adds up spans. -/
def addSpan (r : UInt64) (span : UInt32) : UInt64 := r + span.toUInt64

def zslEachLevel (f : Nat → Nat × K → Zskiplist S R → Option (Zskiplist S R)) :
    List (Nat × K) → Nat → Zskiplist S R → Option (Zskiplist S R)
  | [], _, z => some z
  | u :: us, i, z => do
    let z ← f i u z
    zslEachLevel f us (i + 1) z

/-! ## Insertion -/

/-- New levels of the header span the whole list. -/
def zslRaise (z : Zskiplist S R) (level : Nat) (us : List (Nat × UInt32)) :
    Option (Zskiplist S R × List (Nat × UInt32)) :=
  if z.level < level then do
    let z' ← (List.range' z.level (level - z.level)).foldlM (fun z' i => do
      let l ← z'.link z'.header i
      z'.setLink z'.header i { l with span := UInt32.ofNat z'.length }) z
    return ({ z' with level := level }, us ++ List.replicate (level - z.level) (z.header, 0))
  else some (z, us)

/-- The new node `p` of `level` levels is linked behind `u.1` on level `i`, or passed over there. -/
def zslLinkLevel (p level : Nat) (rank : UInt32) (i : Nat) (u : Nat × UInt32)
    (z : Zskiplist S R) : Option (Zskiplist S R) := do
  let l ← z.link u.1 i
  if i < level then
    let z ← z.setLink p i ⟨l.forward, l.span - (rank - u.2)⟩
    z.setLink u.1 i ⟨some p, rank - u.2 + 1⟩
  else z.setLink u.1 i { l with span := l.span + 1 }

/-- The backward pointers around a new node, or the tail. -/
def zslLinkBack (p first : Nat) (z : Zskiplist S R) : Option (Zskiplist S R) := do
  let z ← z.setBackward p (if first = z.header then none else some first)
  let l ← z.link p 0
  match l.forward with
  | some q => z.setBackward q (some p)
  | none => some { z with tail := some p }

def zslInsert [LinearOrder S] (A : Heap.Allocator (ZslNode S)) (L : Levels R)
    (z : Zskiplist S R) (score : S) (member : Bytes) : Option (Zskiplist S R × Int) :=
  if uint32Max < member.length then some (z, -1)
  else do
    let us ← zslDescend z (· + ·) (fun s m _ => zslCmp s m score member == .lt) z.level
      (z.header, (0 : UInt32))
    let (level, rng) := L.draw z.rngState
    let (z, us) ← zslRaise { z with rngState := rng } level us
    let p := A.next z.nodes
    let z := z.setNode p ⟨score, none, member, List.replicate level ⟨none, 0⟩⟩
    let first ← us.head?
    let z ← zslEachLevel (zslLinkLevel p level first.2) us 0 z
    let z ← zslLinkBack p first.1 z
    return ({ z with length := z.length + 1 }, 0)

/-! ## Deletion -/

/-- The node `x` is taken out behind `u.1` on level `i`, or passed over no more. -/
def zslUnlinkLevel (x i : Nat) (u : Nat × Unit) (z : Zskiplist S R) :
    Option (Zskiplist S R) := do
  let l ← z.link u.1 i
  if l.forward = some x then
    let m ← z.link x i
    z.setLink u.1 i ⟨m.forward, l.span + (m.span - 1)⟩
  else z.setLink u.1 i { l with span := l.span - 1 }

/-- The backward pointer behind a node that goes, or the tail. -/
def zslUnlinkBack (x : Nat) (z : Zskiplist S R) : Option (Zskiplist S R) := do
  let l ← z.link x 0
  let n ← z.node x
  match l.forward with
  | some q => z.setBackward q n.backward
  | none => some { z with tail := n.backward }

/-- The level count after the header's empty top levels are dropped. -/
def zslLower (z : Zskiplist S R) : Nat → Option Nat
  | 0 => some 0
  | 1 => some 1
  | n + 2 => do
    let l ← z.link z.header (n + 1)
    if l.forward = none then zslLower z (n + 1) else some (n + 2)

def zslDelete [LinearOrder S] (z : Zskiplist S R) (score : S) (member : Bytes) :
    Option (Zskiplist S R × Int) := do
  let us ← zslDescend z noCount (fun s m _ => zslCmp s m score member == .lt) z.level
    (z.header, ())
  let first ← us.head?
  let l ← z.link first.1 0
  match l.forward with
  | none => some (z, 0)
  | some x =>
    let n ← z.node x
    if zslCmp n.score n.member score member ≠ .eq then some (z, 0)
    else
      let z ← zslEachLevel (zslUnlinkLevel x) us 0 z
      let z ← zslUnlinkBack x z
      let level ← zslLower z z.level
      return ({ z with
        nodes := z.nodes.free x
        length := z.length - 1
        level := level }, 1)

/-! ## Ranks -/

def zslRank [LinearOrder S] (z : Zskiplist S R) (score : S) (member : Bytes) : Option Int := do
  let c ← zslSearch z addSpan (fun s m _ => zslCmp s m score member != .gt)
    (fun c => if c.1 = z.header then some false
      else (z.node c.1).map fun n => zslCmp n.score n.member score member == .eq)
    z.level (z.header, 0)
  return match c with
    | some (_, r) => (r.toNat : Int) - 1
    | none => -1

/-- `zsl_at`; the index is a `size_t`, and `idx + 1` wraps. -/
def zslAt (z : Zskiplist S R) (idx : UInt64) : Option (Option Nat) := do
  let c ← zslSearch z addSpan (fun _ _ r => decide (r ≤ idx + 1)) (fun c => some (c.2 == idx + 1))
    z.level (z.header, 0)
  return c.map (·.1)

end

end Ddup.Ds
