/-
Ddup.Cluster.Slots — the slot bitmaps of `core/cluster.c` and their text form.

A bitmap of 2048 bytes is one word of 16384 bits: bit `s % 8` of byte `s / 8` is bit `s`. The text of a
bitmap is a list of slots and ranges, cut at the last item that fits the buffer.
-/
import Ddup.Lib.Wire
import Ddup.Lib.Words
import Ddup.Resp.Writer

namespace Ddup.Cluster

open Ddup.Lib Ddup.Command Ddup.Resp

def slotCount : Nat := 16384

abbrev Bitmap := BitVec 16384

def clusterSlotsGet (bm : Bitmap) (slot : Nat) : Bool := bm.getLsbD slot

def clusterSlotsSet (bm : Bitmap) (slot : Nat) (on : Bool) : Bitmap :=
  if slotCount ≤ slot then bm
  else if on then bm ||| BitVec.twoPow 16384 slot
  else bm &&& ~~~ BitVec.twoPow 16384 slot

def bitmapOf (b : Bytes) : Bitmap := BitVec.ofNat 16384 (leNat b)

def bitmapBytes (bm : Bitmap) : Bytes := leBytes 2048 bm.toNat

/-! ## Rendering -/

/-- A slot or a range, as `snprintf` writes it. -/
def rangeText (a b : Nat) : Bytes := if a = b then u64ToStr a else u64ToStr a ++ 45 :: u64ToStr b

/-- The loop of `cluster_slots_render`: `out` is what is written, `start` where the current run
    began. It ends at an item the buffer has no room for. -/
def renderLoop (bm : Bitmap) (cap : Nat) : Nat → Nat → Bytes → Option Nat → Bytes
  | 0, _, out, _ => out
  | fuel + 1, i, out, start =>
    if i < slotCount ∧ clusterSlotsGet bm i = true then
      renderLoop bm cap fuel (i + 1) out (some (start.getD i))
    else
      match start with
      | none => renderLoop bm cap fuel (i + 1) out none
      | some a =>
        let item := (if out.isEmpty then [] else [32]) ++ rangeText a (i - 1)
        if cap - out.length ≤ item.length then out
        else renderLoop bm cap fuel (i + 1) (out ++ item) none

/-- `cluster_slots_render`: the text written to a buffer of `cap` bytes. -/
def clusterSlotsRender (bm : Bitmap) (cap : Nat) : Option Bytes :=
  if cap = 0 then none else some (renderLoop bm cap (slotCount + 1) 0 [] none)

/-! ## Parsing -/

def isBlank (c : UInt8) : Bool := c == 32 || c == 9 || c == 13 || c == 10

/-- The overflow test of the 32-bit digit loops. -/
def u32Ok (v d : Nat) : Bool := v ≤ (uint32Max - d) / 10

/-- The two bounds of an item, absent if it is malformed. The second bound starts from the value of
    the first, as in the source. -/
def parseBounds (item : Bytes) : Option (Nat × Nat) :=
  let low := item.takeWhile (· != 45)
  match item.dropWhile (· != 45) with
  | [] => if low = [] then none else (digitLoop u32Ok 0 low).map fun a => (a, a)
  | _ :: high =>
    if high.contains 45 ∨ low = [] ∨ high = [] then none
    else do
      let a ← digitLoop u32Ok 0 low
      let b ← digitLoop u32Ok a high
      return (a, b)

def setRange (bm : Bitmap) (a b : Nat) : Bitmap :=
  (List.range' a (b + 1 - a)).foldl (fun bm s => clusterSlotsSet bm s true) bm

/-- One item; what is malformed or out of range is ignored. -/
def parseItem (bm : Bitmap) (item : Bytes) : Bitmap :=
  match parseBounds item with
  | none => bm
  | some (a, b) => if slotCount ≤ a ∨ b < a then bm else setRange bm a (min b (slotCount - 1))

def clusterSlotsParse (s : Bytes) : Bitmap := (words isBlank s).foldl parseItem 0

end Ddup.Cluster
