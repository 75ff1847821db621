/-
Ddup.Snapshot.Shards — snapshots of several databases and of several shards, with
the objects they share: `snapshot_serialize_multi`, `snapshot_serialize_multi_shards`,
`snapshot_load_mem_multi` and `snapshot_load_mem` of `core/snapshot.c`.

Here a collection is a pointer into a heap, as it is in the tables of the source:
merging a shard copies pointers, `db_destroy` releases what a table points to, and
`swap_db_data` releases what the target pointed to before. A table is the list of
its entries; the order `rh_each` walks it in is any permutation of them. Releasing
an address that is not in use has no effect on other addresses.
-/
import Ddup.Lib.Heap
import Ddup.Snapshot.Load

namespace Ddup.Snapshot

open Ddup.Lib Ddup.Store

/-! ## Objects behind pointers -/

abbrev ObjHeap := Heap Obj

/-- A value blob: a string holds its bytes, a collection is a pointer. -/
inductive Blob
  | str (bytes : Bytes)
  | ptr (addr : Nat)
  | tier (rid expire : Nat)
deriving DecidableEq

def Blob.vlen : Blob → Nat
  | .str b => b.length + 1
  | .ptr _ => 9
  | .tier _ _ => 17

def Blob.extraMem (h : ObjHeap) : Blob → UInt64
  | .ptr a => ((h.get a).map Obj.extraMem).getD 0
  | _ => 0

def Blob.entryMem (h : ObjHeap) (k : Bytes) (b : Blob) : UInt64 :=
  entryBytes k.length b.vlen + b.extraMem h

def objFreeValue (h : ObjHeap) : Blob → ObjHeap
  | .ptr a => h.free a
  | _ => h

/-- The order `rh_each` walks a table in. -/
structure RhEach where
  order : ∀ {α : Type}, List (Bytes × α) → List (Bytes × α)
  perm : ∀ {α : Type} (l : List (Bytes × α)), (order l).Perm l

/-- What a load depends on besides its input. -/
structure Env where
  sizes : ObjMem
  limits : Limits
  alloc : Heap.Allocator Obj
  each : RhEach
  now : Nat

/-- The fields of `struct db` that loading touches. -/
structure HeapDb where
  table : Unique (Prod.fst : Bytes × Blob → Bytes)
  expires : Unique (Prod.fst : Bytes × Nat → Bytes)
  usedMemory : UInt64
  flushEpoch : Nat
deriving DecidableEq

def heapDbInit : HeapDb := ⟨Unique.empty _, Unique.empty _, 0, 0⟩

/-- The blob of a decoded value: collections are allocated. -/
def storeValue (al : Heap.Allocator Obj) (h : ObjHeap) : Obj → ObjHeap × Blob
  | .str b => (h, .str b)
  | .tier rid expire => (h, .tier rid expire)
  | v => ((al.next h, v) :: h, .ptr (al.next h))

/-- `db_install_blob`: overwrite, clear the expiry, release the old value. Absent where
the table refuses a length. -/
def installBlob (h : ObjHeap) (d : HeapDb) (k : Bytes) (b : Blob) : Option (ObjHeap × HeapDb) :=
  if k.length ≤ uint32Max ∧ b.vlen ≤ uint32Max then
    let timed := if (d.expires.get? k).isSome then entryBytes k.length 8 else 0
    match d.table.get? k with
    | none => some (h, { d with
        table := d.table.put (k, b)
        expires := d.expires.erase k
        usedMemory := d.usedMemory - timed + b.entryMem h k })
    | some (_, old) =>
      let h' := objFreeValue h old
      some (h', { d with
        table := d.table.put (k, b)
        expires := d.expires.erase k
        usedMemory := d.usedMemory - timed - old.entryMem h k + b.entryMem h' k })
  else none

def installExpiry (d : HeapDb) (k : Bytes) (t : Nat) : Option HeapDb :=
  if k.length ≤ uint32Max then
    some { d with
      expires := d.expires.put (k, t)
      usedMemory := if (d.expires.get? k).isSome then d.usedMemory
        else d.usedMemory + entryBytes k.length 8 }
  else none

def destroyDb (E : Env) (h : ObjHeap) (d : HeapDb) : ObjHeap :=
  (E.each.order d.table.items).foldl (fun h x => objFreeValue h x.2) h

def destroyDbs (E : Env) (h : ObjHeap) (ds : List HeapDb) : ObjHeap := ds.foldl (destroyDb E) h

/-! ## Loading entries -/

/-- The installing half of a round of `load_entries`. An expired entry is released
again, and so is one the table refuses. -/
def installInto (E : Env) (h : ObjHeap) (d : HeapDb) (e : Entry) : (ObjHeap × HeapDb) × Bool :=
  if e.dead E.now then ((h, d), true)
  else
    let s := storeValue E.alloc h e.value
    match installBlob s.1 d e.key s.2 with
    | none => ((objFreeValue s.1 s.2, d), false)
    | some (h', d') =>
      if e.timed then
        match installExpiry d' e.key e.expire with
        | none => ((h', d'), false)
        | some d'' => ((h', d''), true)
      else ((h', d'), true)

/-- `load_entries`: until the input ends, or `count` entries. Yields the input that is
left; absent on failure. Every round takes a byte at least, so the length of the
input is fuel enough. -/
def loadInto (E : Env) : Nat → Option Nat → ObjHeap → HeapDb → Bytes →
    (ObjHeap × HeapDb) × Option Bytes
  | _, none, h, d, [] => ((h, d), some [])
  | _, some 0, h, d, bs => ((h, d), some bs)
  | _, some (_ + 1), h, d, [] => ((h, d), none)
  | 0, _, h, d, _ :: _ => ((h, d), none)
  | fuel + 1, count, h, d, b :: bs =>
    match readEntry E.sizes E.limits (b :: bs) with
    | none => ((h, d), none)
    | some (e, rest) =>
      match installInto E h d e with
      | (s, false) => (s, none)
      | (s, true) => loadInto E fuel (count.map (· - 1)) s.1 s.2 rest

def swapHeapDb (E : Env) (h : ObjHeap) (d tmp : HeapDb) : ObjHeap × HeapDb :=
  (destroyDb E h d, { tmp with flushEpoch := d.flushEpoch + 1 })

def loadMem (E : Env) (h : ObjHeap) (d : HeapDb) (buf : Bytes) : Int × ObjHeap × HeapDb :=
  if buf.take 8 = snapshotMagic then
    match loadInto E (buf.drop 8).length none h heapDbInit (buf.drop 8) with
    | (s, some []) => (0, swapHeapDb E s.1 d s.2)
    | (s, _) => (-1, destroyDb E s.1 s.2, d)
  else (-1, h, d)

/-! ## Several databases -/

def multiMagic : Bytes := text "DDUP0002"

def shardMagic : Bytes := text "DDUPMT01"

def readSegment : Dec (Nat × Nat) := do
  let idx ← Dec.le 2
  let count ← Dec.le 4
  return (idx, count)

/-- The segments of a DDUP0002 snapshot. A segment whose index is out of range ends the
loop without an error. -/
def loadSegments (E : Env) : Nat → List Nat → ObjHeap → List HeapDb → Bytes →
    (ObjHeap × List HeapDb) × Option Bytes
  | _, _, h, tmps, [] => ((h, tmps), some [])
  | 0, _, h, tmps, _ :: _ => ((h, tmps), none)
  | fuel + 1, segs, h, tmps, b :: bs =>
    match readSegment (b :: bs) with
    | none => ((h, tmps), none)
    | some ((idx, count), rest) =>
      if tmps.length ≤ idx then ((h, tmps), some rest)
      else if idx ∈ segs then ((h, tmps), none)
      else
        let r := loadInto E rest.length (some count) h (tmps.getD idx heapDbInit) rest
        match r.2 with
        | none => ((r.1.1, tmps.set idx r.1.2), none)
        | some rest' => loadSegments E fuel (idx :: segs) r.1.1 (tmps.set idx r.1.2) rest'

def swapAll (E : Env) : ObjHeap → List HeapDb → List HeapDb → ObjHeap × List HeapDb
  | h, d :: ds, tmp :: tmps =>
    let s := swapHeapDb E h d tmp
    let r := swapAll E s.1 ds tmps
    (r.1, s.2 :: r.2)
  | h, _, _ => (h, [])

/-! ## Several shards -/

/-- `merge_entry_cb` over the entries of a shard: the blobs are copied. -/
def mergeEntries : List (Bytes × Blob) → ObjHeap → HeapDb → (ObjHeap × HeapDb) × Bool
  | [], h, dst => ((h, dst), true)
  | x :: xs, h, dst =>
    match installBlob h dst x.1 x.2 with
    | none => ((h, dst), false)
    | some (h', dst') => mergeEntries xs h' dst'

def mergeExpiries : List (Bytes × Nat) → HeapDb → HeapDb × Bool
  | [], dst => (dst, true)
  | x :: xs, dst =>
    match installExpiry dst x.1 x.2 with
    | none => (dst, false)
    | some dst' => mergeExpiries xs dst'

def mergeShardDb (E : Env) (h : ObjHeap) (dst src : HeapDb) : (ObjHeap × HeapDb) × Bool :=
  match mergeEntries (E.each.order src.table.items) h dst with
  | (s, false) => (s, false)
  | (s, true) =>
    let r := mergeExpiries (E.each.order src.expires.items) s.2
    ((s.1, r.1), r.2)

/-- Merge each database of a shard into its temporary, and destroy it. -/
def mergeAll (E : Env) : ObjHeap → List HeapDb → List HeapDb → (ObjHeap × List HeapDb) × Bool
  | h, tmp :: tmps, src :: srcs =>
    let m := mergeShardDb E h tmp src
    let r := mergeAll E (destroyDb E m.1.1 src) tmps srcs
    ((r.1.1, m.1.2 :: r.1.2), m.2 && r.2)
  | h, tmps, _ => ((h, tmps), true)

abbrev LoadResult := Int × ObjHeap × List (Option HeapDb)

/-- The shard loop of a DDUPMT01 snapshot. Each shard is loaded into new databases by
`nested`. -/
def loadShards (E : Env) (nested : ObjHeap → List (Option HeapDb) → Bytes → LoadResult) :
    Nat → ObjHeap → List HeapDb → Bytes → (ObjHeap × List HeapDb) × Option Bytes
  | 0, h, tmps, bs => ((h, tmps), some bs)
  | n + 1, h, tmps, bs =>
    match readBlob bs with
    | none => ((h, tmps), none)
    | some (shard, rest) =>
      let r := nested h (List.replicate tmps.length (some heapDbInit)) shard
      if r.1 ≠ 0 then ((destroyDbs E r.2.1 r.2.2.reduceOption, tmps), none)
      else
        let m := mergeAll E r.2.1 tmps r.2.2.reduceOption
        if m.2 then loadShards E nested n m.1.1 m.1.2 rest else (m.1, none)

/-- The end of every format: swap if all went well, the input is used up and every
target is there. Otherwise `release` says what becomes of the temporaries. -/
def finishLoad (E : Env) (targets : List (Option HeapDb))
    (release : ObjHeap → List HeapDb → ObjHeap) :
    (ObjHeap × List HeapDb) × Option Bytes → LoadResult
  | ((h, tmps), some []) =>
    match targets.mapM id with
    | some ds =>
      let r := swapAll E h ds tmps
      (0, r.1, r.2.map some)
    | none => (-1, release h tmps, targets)
  | ((h, tmps), _) => (-1, release h tmps, targets)

/-- `snapshot_load_mem_multi`. The temporaries of the DDUP0001 and DDUP0002 formats are
torn down by `destroy_temp_db`, which releases no object; those of DDUPMT01 by
`db_destroy`. A shard is shorter than the snapshot it is in, so the length of the
input is fuel enough. -/
def loadMemMulti (E : Env) : Nat → ObjHeap → List (Option HeapDb) → Bytes → LoadResult
  | 0, h, targets, _ => (-1, h, targets)
  | fuel + 1, h, targets, buf =>
    let tmps := List.replicate targets.length heapDbInit
    let body := buf.drop 8
    if targets = [] ∨ buf.length < 8 then (-1, h, targets)
    else if buf.take 8 = shardMagic then
      match Dec.le 2 body with
      | none => (-1, h, targets)
      | some (nshards, rest) =>
        finishLoad E targets (destroyDbs E)
          (loadShards E (loadMemMulti E fuel) nshards h tmps rest)
    else if buf.take 8 = snapshotMagic then
      let r := loadInto E body.length none h heapDbInit body
      finishLoad E targets (fun h _ => h) ((r.1.1, tmps.set 0 r.1.2), r.2)
    else if buf.take 8 = multiMagic then
      match Dec.le 2 body with
      | none => (-1, h, targets)
      | some (_, rest) =>
        finishLoad E targets (fun h _ => h) (loadSegments E rest.length [] h tmps rest)
    else (-1, h, targets)

def snapshotLoadMemMulti (E : Env) (h : ObjHeap) (targets : List (Option HeapDb))
    (buf : Bytes) : LoadResult := loadMemMulti E (buf.length + 1) h targets buf

/-! ## Saving -/

/-- A database and the order its table is walked in. -/
structure Saved where
  db : Db
  walk : Walk db.table

def uint16Max : Nat := 65535

def serializeDb (x : Saved × Nat) : Option Bytes :=
  if x.1.walk.entries.items = [] then some []
  else do
    let n ← writeLen x.1.walk.entries.items.length
    let entries ← writeAll (saveEntry x.1.db.expires) x.1.walk.entries.items
    return leBytes 2 x.2 ++ n ++ entries

def serializeMulti (dbs : List Saved) : Option Bytes :=
  if uint16Max < dbs.length then none
  else do
    let segments ← writeAll serializeDb dbs.zipIdx
    return multiMagic ++ leBytes 2 dbs.length ++ segments

def serializeShard (dbs : List Saved) : Option Bytes := do
  let shard ← serializeMulti dbs
  writeBlob shard

def serializeMultiShards (shards : List (List Saved)) : Option Bytes :=
  if uint16Max < shards.length then none
  else do
    let bytes ← writeAll serializeShard shards
    return shardMagic ++ leBytes 2 shards.length ++ bytes

end Ddup.Snapshot
