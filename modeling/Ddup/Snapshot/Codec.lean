/-
Ddup.Snapshot.Codec — the value payloads of `core/snapshot.c`: `write_value_payload`,
`load_payload`, and the entry format around them.

The writer fails where the source clears `ctx->ok`; the reader fails where it
clears `r->ok`. A table is written in the order it is walked in. What memory an
object built by the loader accounts for is computed by its constructors in the
source and is a parameter here (`ObjMem`).
-/
import Ddup.Lib.Wire
import Ddup.Store.Db

namespace Ddup.Snapshot

open Ddup.Lib Ddup.Store

/-! ## Writing -/

def writeAll {α : Type} (write : α → Option Bytes) : List α → Option Bytes
  | [] => some []
  | x :: xs => do
    let b ← write x
    let bs ← writeAll write xs
    return b ++ bs

/-- A count or length that is checked against `UINT32_MAX`. -/
def writeLen (n : Nat) : Option Bytes := if uint32Max < n then none else some (leBytes 4 n)

/-- A length and the bytes, unchecked. -/
def blobBytes (b : Bytes) : Bytes := leBytes 4 b.length ++ b

def u64Bytes (x : UInt64) : Bytes := leBytes 8 x.toNat

def writeBlob (b : Bytes) : Option Bytes := if uint32Max < b.length then none else some (blobBytes b)

def writePair (p : Bytes × Bytes) : Option Bytes := do
  let f ← writeBlob p.1
  let v ← writeBlob p.2
  return f ++ v

def zsetBytes (x : Bytes × UInt64) : Bytes := blobBytes x.1 ++ u64Bytes x.2

def fieldBytes (p : Bytes × Bytes) : Bytes := blobBytes p.1 ++ blobBytes p.2

def streamEntryBytes (e : StreamEntry) : Bytes :=
  u64Bytes e.ms ++ u64Bytes e.seq ++ leBytes 4 e.fields.length ++ e.fields.flatMap fieldBytes

def pendingBytes (p : Pending) : Bytes :=
  u64Bytes p.ms ++ u64Bytes p.seq ++ u64Bytes p.idle ++ u64Bytes p.deliveryCount

def writeConsumer (c : Consumer) : Option Bytes := do
  let name ← writeBlob c.name
  let n ← writeLen c.pel.items.length
  return name ++ u64Bytes c.seenTime ++ u64Bytes c.activeTime ++ n
    ++ c.pel.items.flatMap pendingBytes

def writeGroup (g : Group) : Option Bytes := do
  let name ← writeBlob g.name
  let n ← writeLen g.consumers.items.length
  let consumers ← writeAll writeConsumer g.consumers.items
  return name ++ u64Bytes g.lastMs ++ u64Bytes g.lastSeq ++ u64Bytes g.entriesRead ++ n
    ++ consumers

def writeStream (s : StreamObj) : Option Bytes := do
  let n ← writeLen s.entries.length
  let ng ← writeLen s.groups.items.length
  let groups ← writeAll writeGroup s.groups.items
  return n ++ u64Bytes s.lastMs ++ u64Bytes s.lastSeq ++ u64Bytes s.entriesAdded
    ++ u64Bytes s.maxDeletedMs ++ u64Bytes s.maxDeletedSeq ++ s.entries.flatMap streamEntryBytes
    ++ ng ++ groups

def writeElement (x : UInt64 × Bytes) : Option Bytes := do
  let v ← writeBlob x.2
  return u64Bytes x.1 ++ v

def writeArray (a : ArrayObj) : Option Bytes := do
  let n ← writeLen a.values.items.length
  let hn ← writeLen a.history.length
  let values ← writeAll writeElement a.values.items
  return n ++ u64Bytes a.nextInsert ++ u64Bytes a.ringSize ++ hn
    ++ a.history.flatMap u64Bytes ++ values

/-- `write_value_payload`. A tier reference falls into the default case: nothing is
written. The field expiries of a hash and the length of an array are not written
either. -/
def writeValuePayload : Obj → Option Bytes
  | .str b => writeBlob b
  | .list items _ => do
    let n ← writeLen items.length
    return n ++ items.flatMap blobBytes
  | .boxed (.hash h) _ => do
    let n ← writeLen h.fields.pairs.length
    let pairs ← writeAll writePair h.fields.pairs
    return n ++ pairs
  | .boxed (.set s) _ => do
    let n ← writeLen s.items.length
    let members ← writeAll writeBlob s.items
    return n ++ members
  | .boxed (.zset z) _ => do
    let n ← writeLen z.items.length
    return n ++ z.items.flatMap zsetBytes
  | .boxed (.stream s) _ => writeStream s
  | .boxed (.array a) _ => writeArray a
  | .tier _ _ => some []

/-- The tags of `ds/obj.h`. -/
def objTag : Obj → Nat
  | .str _ => 0
  | .boxed (.hash _) _ => 1
  | .list _ _ => 2
  | .boxed (.set _) _ => 3
  | .boxed (.zset _) _ => 4
  | .boxed (.stream _) _ => 5
  | .tier _ _ => 6
  | .boxed (.array _) _ => 7

/-! ## Reading -/

/-- The memory the constructors account an object for. -/
structure ObjMem where
  list : List Bytes → UInt64
  container : Container → UInt64

def readBlob : Dec Bytes := do
  let n ← Dec.le 4
  Dec.bytes n

def readU64 : Dec UInt64 := do
  let n ← Dec.le 8
  return UInt64.ofNat n

def loadHash (lim : Limits) : Dec HashObj := do
  let n ← Dec.le 4
  Dec.loop (fun h => do
    let f ← readBlob
    let v ← readBlob
    Dec.ofOption (objHashSet lim h f v)) n objHashNew

def loadList : Dec (List Bytes) := do
  let n ← Dec.le 4
  Dec.loop (fun items => do
    let e ← readBlob
    return items ++ [e]) n []

def loadSet : Dec SetObj := do
  let n ← Dec.le 4
  Dec.loop (fun s => do
    let m ← readBlob
    Dec.ofOption (objSetAdd s m)) n (Unique.empty _)

def loadZset : Dec ZsetObj := do
  let n ← Dec.le 4
  Dec.loop (fun z => do
    let m ← readBlob
    let score ← readU64
    Dec.ofOption (if isNan score then none else objZsetAdd z m score)) n (Unique.empty _)

def readField : Dec (Bytes × Bytes) := do
  let f ← readBlob
  let v ← readBlob
  return (f, v)

def loadStreamEntry : Dec StreamEntry := do
  let ms ← readU64
  let seq ← readU64
  let nf ← Dec.le 4
  let fields ← Dec.loop (fun fs => do
    let p ← readField
    return fs ++ [p]) nf []
  return ⟨ms, seq, fields⟩

def loadPending : Dec Pending := do
  let ms ← readU64
  let seq ← readU64
  let idle ← readU64
  let count ← readU64
  return ⟨ms, seq, idle, count⟩

/-- A consumer with its pending entries; a repeated id is refused. The source refuses
a repeated name before it reads what the consumer or group holds, here that comes
after it: either way nothing is loaded. -/
def loadConsumer : Dec Consumer := do
  let name ← readBlob
  let seen ← readU64
  let active ← readU64
  let np ← Dec.le 4
  let pel ← Dec.loop (fun pel => do
    let p ← loadPending
    Dec.ofOption (Unique.push pel p)) np (Unique.empty _)
  return ⟨name, seen, active, pel⟩

def loadGroup : Dec Group := do
  let name ← readBlob
  let lastMs ← readU64
  let lastSeq ← readU64
  let entriesRead ← readU64
  let nc ← Dec.le 4
  let consumers ← Dec.loop (fun cs => do
    let c ← loadConsumer
    Dec.ofOption (Unique.push cs c)) nc (Unique.empty _)
  return ⟨name, lastMs, lastSeq, entriesRead, consumers⟩

/-- The entries go through `obj_stream_append`; the counters it kept are then set to
the saved ones. -/
def loadStream : Dec StreamObj := do
  let n ← Dec.le 4
  let lastMs ← readU64
  let lastSeq ← readU64
  let entriesAdded ← readU64
  let maxDeletedMs ← readU64
  let maxDeletedSeq ← readU64
  let st ← Dec.loop (fun st => do
    let e ← loadStreamEntry
    Dec.ofOption (objStreamAppend st e)) n objStreamNew
  let ng ← Dec.le 4
  let groups ← Dec.loop (fun gs => do
    let g ← loadGroup
    Dec.ofOption (Unique.push gs g)) ng (Unique.empty _)
  return ⟨st.entries, lastMs, lastSeq, entriesAdded, maxDeletedMs, maxDeletedSeq, groups⟩

def loadArray : Dec ArrayObj := do
  let n ← Dec.le 4
  let nextInsert ← readU64
  let ringSize ← readU64
  let hn ← Dec.le 4
  let history ← Dec.loop (fun hs => do
    let h ← readU64
    return hs ++ [h]) hn []
  Dec.loop (fun a => do
    let index ← readU64
    let v ← readBlob
    Dec.ofOption (objArraySet a index v)) n
      { objArrayNew with
        nextInsert := nextInsert
        ringSize := ringSize
        history := history }

def boxed (sz : ObjMem) (c : Container) : Obj := .boxed c (sz.container c)

def loadPayload (sz : ObjMem) (lim : Limits) (tag : Nat) : Dec Obj :=
  match tag with
  | 0 => do return .str (← readBlob)
  | 1 => do return boxed sz (.hash (← loadHash lim))
  | 2 => do
    let items ← loadList
    return .list items (sz.list items)
  | 3 => do return boxed sz (.set (← loadSet))
  | 4 => do return boxed sz (.zset (← loadZset))
  | 5 => do return boxed sz (.stream (← loadStream))
  | 7 => do return boxed sz (.array (← loadArray))
  | _ => Dec.fail

end Ddup.Snapshot
