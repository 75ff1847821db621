/-
Ddup.Table.RhtableSpec — what the table is for: a finite map from keys to values.

The abstract machine `mapStep` answers every operation of `core/rhtable.h` from
a finite map; `rhStep` is the same operation on the table. `MatchesMap` says
that a sequence of operations from the empty table got the map's replies and
left the map's contents, each key once, with `rh_size` the number of keys.

While a rehash is under way a lookup in the old array starts at the key's home
bucket and stops at the first empty slot. The batch that the operation moved
just before has emptied a run of slots at the front; `Stranded` describes, on
the table BEFORE the operation, the entries that such a run cuts off from their
home.
-/
import Ddup.Table.Rhtable

namespace Ddup.Table

open Ddup.Lib

/-- The abstract state: which keys are present, and with which value. -/
abbrev KeyMap := Finmap fun _ : Bytes => Bytes

inductive RhOp
  | get (key : Bytes)
  | getTouch (key : Bytes) (lruMeta : UInt32)
  | set (key val : Bytes)
  | setEx2 (key v1 v2 : Bytes) (lruMeta : UInt32)
  | del (key : Bytes)
deriving Repr, DecidableEq

inductive RhReply
  | got (val : Option Bytes)
  | set (code : Int)
  | setEx2 (code : Int) (oldKv : Option (Bytes × Nat))
  | del (removed : Bool)
deriving Repr, DecidableEq

def RhOp.key : RhOp → Bytes
  | .get k | .getTouch k _ | .set k _ | .setEx2 k _ _ _ | .del k => k

/-- The lengths a setter accepts; the other operations take any key. -/
def RhOp.Fits : RhOp → Prop
  | .set k v => k.length ≤ uint32Max ∧ v.length ≤ uint32Max
  | .setEx2 k v1 v2 _ => k.length ≤ uint32Max ∧ v1.length + v2.length ≤ uint32Max
  | _ => True

instance : DecidablePred RhOp.Fits
  | .get _ | .getTouch _ _ | .del _ => inferInstanceAs (Decidable True)
  | .set _ _ | .setEx2 _ _ _ _ => inferInstanceAs (Decidable (_ ∧ _))

/-! ## The table as a machine -/

def rhStep (H : Bytes → UInt64) (t : RhTable) : RhOp → Option (RhTable × RhReply)
  | .get k => (rhGet H t k).map fun r => (r.1, .got r.2)
  | .getTouch k mt => (rhGetTouch H t k mt).map fun r => (r.1, .got r.2)
  | .set k v => (rhSet H t k v).map fun r => (r.1, .set r.2)
  | .setEx2 k v1 v2 mt => (rhSetEx2 H t k v1 v2 mt).map fun r => (r.1, .setEx2 r.2.1 r.2.2)
  | .del k => (rhDel H t k).map fun r => (r.1, .del r.2)

def rhRun (H : Bytes → UInt64) (t : RhTable) : List RhOp → Option (RhTable × List RhReply)
  | [] => some (t, [])
  | op :: ops => do
    let (t, r) ← rhStep H t op
    let (t, rs) ← rhRun H t ops
    return (t, r :: rs)

/-! ## The finite map as a machine -/

/-- The reply code of a setter: `1` when the key was present, else `0`. -/
def setCode (M : KeyMap) (k : Bytes) : Int := if k ∈ M then 1 else 0

def mapStep (M : KeyMap) : RhOp → KeyMap × RhReply
  | .get k | .getTouch k _ => (M, .got (M.lookup k))
  | .set k v => if (RhOp.set k v).Fits then (M.insert k v, .set (setCode M k)) else (M, .set (-1))
  | .setEx2 k v1 v2 mt =>
    if (RhOp.setEx2 k v1 v2 mt).Fits then
      (M.insert k (v1 ++ v2),
        .setEx2 (setCode M k) ((M.lookup k).map fun v => (k ++ v, v.length)))
    else (M, .setEx2 (-1) none)
  | .del k => (M.erase k, .del (k ∈ M))

def mapRun (M : KeyMap) : List RhOp → KeyMap × List RhReply
  | [] => (M, [])
  | op :: ops =>
    let s := mapStep M op
    let r := mapRun s.1 ops
    (r.1, s.2 :: r.2)

/-! ## The table holds the map -/

def view (e : RhEntry) : Σ _ : Bytes, Bytes := ⟨e.key, e.val⟩

/-- The entries of both arrays, as often as they are stored. -/
def contents (t : RhTable) : Multiset (Σ _ : Bytes, Bytes) :=
  bag view t.slots + (t.oldSlots.elim 0 (bag view))

/-- The table stores exactly the map's pairs, no key twice, and `rh_size` is the
number of keys. -/
structure Stores (t : RhTable) (M : KeyMap) : Prop where
  contents : contents t = M.entries
  once : ((Table.contents t).map Sigma.fst).Nodup
  size : rhSize t = M.keys.card

/-- The operations got the map's replies and left the map's contents. -/
def MatchesMap (H : Bytes → UInt64) (ops : List RhOp) : Prop :=
  ∃ t, rhRun H rhInit ops = some (t, (mapRun ∅ ops).2) ∧ Stores t (mapRun ∅ ops).1

/-- Key `k` is in the old array at a slot the next batch of sixteen will not
reach, while the batch does reach some slot between the key's home and that slot
(all of them when the probe path wraps past the end of the array). -/
def Stranded (t : RhTable) (k : Bytes) : Prop :=
  ∃ old p e, t.oldSlots = some old ∧ slotAt old p = some e ∧ e.key = k ∧
    rhMigrateBatch ≤ occupied old t.migratePos p ∧
    (p < e.psl ∨ occupied old t.migratePos (p - e.psl) < rhMigrateBatch)

end Ddup.Table
