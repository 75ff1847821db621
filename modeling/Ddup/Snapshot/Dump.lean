/-
Ddup.Snapshot.Dump — one key at a time: `snapshot_dump_key` and
`snapshot_restore_key` of `core/snapshot.c`, with the checksum of `core/crc64.c`.

A dump is the format version, the tag, the payload and a checksum over these.
-/
import Ddup.Snapshot.Codec

namespace Ddup.Snapshot

open Ddup.Lib Ddup.Store

/-! ## The checksum -/

/-- One bit of the reflected division by `CRC64_POLY`. -/
def crcBit (c : UInt64) : UInt64 :=
  if c &&& 1 = 1 then (c >>> 1) ^^^ 0xC96C5795D7870F42 else c >>> 1

/-- The entry of `crc64_tab` for a byte: eight bits of the division. -/
def crcEntry (b : UInt64) : UInt64 := (List.range 8).foldl (fun c _ => crcBit c) b

example : crcEntry 1 = 0xB32E4CBE03A75F6F := by decide

example : crcEntry 128 = 0xC96C5795D7870F42 := by decide

def crc64 (crc : UInt64) (data : Bytes) : UInt64 :=
  ~~~ data.foldl (fun c b => crcEntry ((c ^^^ b.toUInt64) &&& 0xFF) ^^^ (c >>> 8)) (~~~ crc)

/-! ## Dump -/

def dumpVersion : Nat := 1

def dumpBody (v : Obj) : Option Bytes := do
  let payload ← writeValuePayload v
  return leBytes 2 dumpVersion ++ leBytes 1 (objTag v) ++ payload

def snapshotDumpKey (d : Db) (k : Bytes) : Option Bytes := do
  let v ← d.table.lookup k
  let body ← dumpBody v
  return body ++ u64Bytes (crc64 0 body)

/-! ## Restore -/

def readDump (sz : ObjMem) (lim : Limits) : Dec Obj := do
  let version ← Dec.le 2
  if version = dumpVersion then do
    let tag ← Dec.le 1
    loadPayload sz lim tag
  else Dec.fail

/-- The checks on a payload, and the value it decodes to with nothing left over. -/
def decodeDump (sz : ObjMem) (lim : Limits) (payload : Bytes) : Option Obj :=
  if payload.length < 11 then none
  else
    let body := payload.take (payload.length - 8)
    if (crc64 0 body).toNat ≠ leNat (payload.drop (payload.length - 8)) then none
    else
      match readDump sz lim body with
      | some (v, []) => some v
      | _ => none

def snapshotRestoreKey (sz : ObjMem) (lim : Limits) (d : Db) (k payload : Bytes) (expire : Nat)
    (replace : Bool) (now : Nat) : Int × Db :=
  if uint32Max < k.length then (-1, d)
  else
    let d₁ := dbExpireIfNeeded d k now
    if !replace && (d₁.table.lookup k).isSome then (1, d₁)
    else
      match decodeDump sz lim payload with
      | none => (-1, d₁)
      | some v => if storable k v then (0, restoreKey d₁ k v expire) else (-1, d₁)

end Ddup.Snapshot
