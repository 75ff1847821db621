/-
Ddup.Tier.Log — the append-only cold log of `core/tier.c` and its record index.

The file is a magic followed by records; a record is a 26-byte header and, for a
PUT, the key and the value. The index maps a record id to the place of its record.
It is an `rh_table` in the source and stands here as the finite map that table
implements; the order in which `rh_each` walks it is a parameter (`Scan`). File
operations succeed: a failed one makes its call fail, and the properties are about
calls that succeed. The `failed` flag, which only a failed file operation sets, is
left out with them.
-/
import Ddup.Basic
import Ddup.Lib.Wire

namespace Ddup.Tier

open Ddup.Lib

def uint64Max : Nat := 18446744073709551615

/-! ## Records -/

/-- `TIER_MAGIC` with its terminating zero. -/
def magic : Bytes := text "DDUPTC1" ++ [0]

structure Header where
  op : Nat
  dbIndex : Nat
  klen : Nat
  vlen : Nat
  expire : Nat
  rid : Nat
deriving Repr, DecidableEq

def headerSize : Nat := 26

def opPut : Nat := 1
def opDel : Nat := 2
def opFlushDb : Nat := 3
def opFlushAll : Nat := 4

def Header.bytes (h : Header) : Bytes :=
  leBytes 1 h.op ++ leBytes 1 h.dbIndex ++ leBytes 4 h.klen ++ leBytes 4 h.vlen
    ++ leBytes 8 h.expire ++ leBytes 8 h.rid

def readHeader : Dec Header := do
  let op ← Dec.le 1
  let dbIndex ← Dec.le 1
  let klen ← Dec.le 4
  let vlen ← Dec.le 4
  let expire ← Dec.le 8
  let rid ← Dec.le 8
  return ⟨op, dbIndex, klen, vlen, expire, rid⟩

/-! ## The store -/

structure Loc where
  off : Nat
  len : Nat
  vlen : Nat
  valueOff : Nat
  dbIndex : Nat
deriving Repr, DecidableEq

abbrev Index := Finmap fun _ : Nat => Loc

/-- The order `rh_each` walks an index in. -/
structure Scan where
  order : Index → List Nat
  mem : ∀ idx rid, rid ∈ order idx ↔ rid ∈ idx
  nodup : ∀ idx, (order idx).Nodup

/-- `struct tier_store`, with the contents of its file. `disk_bytes` equals `end`. -/
structure TierStore where
  file : Bytes
  index : Index
  nextId : Nat
  fileEnd : Nat
  maxDisk : Nat

def tierCreate (maxDisk : Nat) : TierStore := ⟨magic, ∅, 1, magic.length, maxDisk⟩

def writeAt (file : Bytes) (off : Nat) (bs : Bytes) : Bytes :=
  file.take off ++ bs ++ file.drop (off + bs.length)

def readAt (file : Bytes) (off len : Nat) : Option Bytes :=
  if len = 0 ∨ off + len ≤ file.length then some ((file.drop off).take len) else none

def appendRecord (t : TierStore) (h : Header) (key val : Bytes) : Option TierStore :=
  let total := headerSize + key.length + val.length
  if uint64Max - total < t.fileEnd then none
  else if t.maxDisk ≠ 0 ∧ t.maxDisk < t.fileEnd + total then none
  else some
    { t with
      file := writeAt t.file t.fileEnd (h.bytes ++ key ++ val)
      fileEnd := t.fileEnd + total }

def putLoc (off dbIndex klen vlen : Nat) : Loc :=
  ⟨off, headerSize + (klen + vlen), vlen, headerSize + klen, dbIndex⟩

def tierPut (t : TierStore) (dbIndex : Nat) (key val : Bytes) (expire : Nat) :
    Option (Nat × TierStore) :=
  if 255 < dbIndex ∨ uint32Max < key.length ∨ uint32Max < val.length then none
  else if t.nextId = 0 ∨ t.nextId = uint64Max ∨
      uint32Max - headerSize < key.length + val.length then none
  else
    let rid := t.nextId
    let h : Header := ⟨opPut, dbIndex, key.length, val.length, expire, rid⟩
    (appendRecord t h key val).map fun t' =>
      (rid,
        { t' with
          index := t'.index.insert rid (putLoc t.fileEnd dbIndex key.length val.length)
          nextId := rid + 1 })

def tierGet (t : TierStore) (rid : Nat) : Option (Bytes × Nat) :=
  match t.index.lookup rid with
  | none => none
  | some loc =>
    if t.fileEnd < loc.off ∨ t.fileEnd - loc.off < loc.len ∨ loc.len < loc.valueOff ∨
        loc.len - loc.valueOff < loc.vlen then none
    else do
      let val ← readAt t.file (loc.off + loc.valueOff) loc.vlen
      let hdr ← readAt t.file loc.off headerSize
      let (h, _) ← readHeader hdr
      return (val, h.expire)

def tierDel (t : TierStore) (rid : Nat) : Option TierStore :=
  (appendRecord t ⟨opDel, 0, 0, 0, 0, rid⟩ [] []).map fun t' =>
    { t' with
      index := t'.index.erase rid }

/-- Drop the records of one database: collect their ids, then delete each. -/
def dropDb (scan : Scan) (idx : Index) (dbIndex : Nat) : Index :=
  let rids := (scan.order idx).filter fun rid => (idx.lookup rid).map Loc.dbIndex = some dbIndex
  rids.foldl (fun idx rid => idx.erase rid) idx

def tierFlushDb (scan : Scan) (t : TierStore) (dbIndex : Nat) : Option TierStore :=
  if 255 < dbIndex then none
  else
    (appendRecord t ⟨opFlushDb, dbIndex, 0, 0, 0, 0⟩ [] []).map fun t' =>
      { t' with
        index := dropDb scan t'.index dbIndex }

/-- The copy loop of `tier_compact`: the new file so far, and the ids copied with
their new places. -/
def copyRecords (t : TierStore) : List Nat → Bytes × List (Nat × Loc) →
    Option (Bytes × List (Nat × Loc))
  | [], acc => some acc
  | rid :: rest, (file, items) =>
    match t.index.lookup rid with
    | none => copyRecords t rest (file, items)
    | some loc =>
      match readAt t.file loc.off loc.len with
      | none => none
      | some rec =>
        if uint64Max - loc.len < file.length then none
        else
          let loc' := { loc with off := file.length }
          copyRecords t rest (file ++ rec, items ++ [(rid, loc')])

/-- `tier_compact`: copy the live records in table order and index the copies. -/
def tierCompact (scan : Scan) (t : TierStore) : Option TierStore :=
  (copyRecords t (scan.order t.index) (magic, [])).map fun (file, items) =>
    { t with
      file := file
      index := items.foldl (fun idx x => idx.insert x.1 x.2) ∅
      fileEnd := file.length }

/-! ## Opening -/

def advanceId (nextId rid : Nat) : Nat := if nextId ≤ rid then rid + 1 else nextId

def replayIndex (scan : Scan) (off : Nat) (h : Header) (idx : Index) : Index :=
  if h.op = opFlushAll then ∅
  else if h.op = opFlushDb then dropDb scan idx h.dbIndex
  else if h.op = opDel then idx.erase h.rid
  else idx.insert h.rid (putLoc off h.dbIndex h.klen h.vlen)

/-- One record of the replay loop of `tier_open`; `avail` bytes follow its header. -/
def replayRecord (scan : Scan) (t : TierStore) (h : Header) (avail : Nat) : Option TierStore :=
  let body := h.klen + h.vlen
  if h.op ≠ opPut ∧ h.op ≠ opDel ∧ h.op ≠ opFlushDb ∧ h.op ≠ opFlushAll then none
  else if h.op ≠ opPut ∧ (h.klen ≠ 0 ∨ h.vlen ≠ 0) then none
  else if h.op = opPut ∧ (h.rid = 0 ∨ h.rid < t.nextId) then none
  else if uint32Max - headerSize < body ∨ h.rid = uint64Max then none
  else if uint64Max - headerSize - body < t.fileEnd ∨ avail < body then none
  else some
    { t with
      index := replayIndex scan t.fileEnd h t.index
      nextId := advanceId t.nextId h.rid
      fileEnd := t.fileEnd + (headerSize + body) }

/-- The replay loop. Every record takes at least a header off the file, so as many
rounds as the file has bytes are enough. -/
def replayLoop (scan : Scan) : Nat → TierStore → Option TierStore
  | 0, _ => none
  | fuel + 1, t =>
    match t.file.drop t.fileEnd with
    | [] => some t
    | b :: bs =>
      match readHeader (b :: bs) with
      | none => none
      | some (h, rest) =>
        match replayRecord scan t h rest.length with
        | none => none
        | some t' => replayLoop scan fuel t'

def tierOpen (scan : Scan) (file : Bytes) (maxDisk : Nat) : Option TierStore :=
  if file.take magic.length = magic then
    replayLoop scan file.length ⟨file, ∅, 1, magic.length, maxDisk⟩
  else none

/-! ## Runs of calls -/

/-- A call on an open store. Ids and instants are 64-bit arguments. -/
inductive Call
  | put (dbIndex : Nat) (key val : Bytes) (expire : UInt64)
  | del (rid : UInt64)
  | flushDb (dbIndex : Nat)
  | compact

def step (scan : Scan) (t : TierStore) : Call → Option TierStore
  | .put dbIndex key val expire => (tierPut t dbIndex key val expire.toNat).map (·.2)
  | .del rid => tierDel t rid.toNat
  | .flushDb dbIndex => tierFlushDb scan t dbIndex
  | .compact => tierCompact scan t

def runCalls (scan : Scan) : TierStore → List Call → Option TierStore
  | t, [] => some t
  | t, c :: cs => (step scan t c).bind fun t' => runCalls scan t' cs

end Ddup.Tier
