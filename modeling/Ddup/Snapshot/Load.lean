/-
Ddup.Snapshot.Load — whole databases: `snapshot_serialize` and `snapshot_load_mem`
of `core/snapshot.c`.

A snapshot is a magic number and the entries of the table in the order `rh_each`
walks it. The expiry of a key is written as a signed 64-bit number, -1 for none.
The loader reads entries until the input ends, installs the ones that have not
expired into a temporary database, and swaps its tables in at the end.
-/
import Ddup.Snapshot.Codec

namespace Ddup.Snapshot

open Ddup.Lib Ddup.Store

/-! ## Saving -/

/-- The order `rh_each` walks a table in. -/
structure Walk (t : KeyTable Obj) where
  entries : Unique (Prod.fst : Bytes × Obj → Bytes)
  mem : ∀ k v, (k, v) ∈ entries.items ↔ t.lookup k = some v

/-- -1, as the unsigned number it is written as. -/
def noExpire : Nat := 18446744073709551615

def saveEntry (expires : KeyTable Nat) (x : Bytes × Obj) : Option Bytes := do
  let key ← writeBlob x.1
  let payload ← writeValuePayload x.2
  return leBytes 1 (objTag x.2) ++ key ++ leBytes 8 ((expires.lookup x.1).getD noExpire)
    ++ payload

def snapshotMagic : Bytes := text "DDUP0001"

def snapshotSerialize (d : Db) (walk : Walk d.table) : Option Bytes := do
  let entries ← writeAll (saveEntry d.expires) walk.entries.items
  return snapshotMagic ++ entries

/-! ## Loading -/

/-- An entry as it is read: the expiry is still an unsigned number. -/
structure Entry where
  key : Bytes
  expire : Nat
  value : Obj

/-- `expire >= 0` of the signed number. -/
def Entry.timed (e : Entry) : Bool := e.expire < 9223372036854775808

def Entry.dead (e : Entry) (now : Nat) : Bool := e.timed && e.expire ≤ now

def readEntry (sz : ObjMem) (lim : Limits) : Dec Entry := do
  let tag ← Dec.le 1
  let key ← readBlob
  let expire ← Dec.le 8
  let value ← loadPayload sz lim tag
  return ⟨key, expire, value⟩

/-- `load_entries` on an unbounded stream, over what installing an entry does. Every
round takes a byte at least, so the length of the input is fuel enough. -/
def loadEntries {σ : Type} (read : Dec Entry) (install : σ → Entry → Option σ) :
    Nat → σ → Bytes → Option σ
  | _, s, [] => some s
  | 0, _, _ :: _ => none
  | fuel + 1, s, b :: bs =>
    match read (b :: bs) with
    | none => none
    | some (e, rest) => (install s e).bind fun s' => loadEntries read install fuel s' rest

/-- The installing half of a round of `load_entries`: `db_install_blob` and
`db_install_expiry` into the temporary database. -/
def installEntry (now : Nat) (tmp : Db) (e : Entry) : Option Db :=
  if e.dead now then some tmp
  else if storable e.key e.value then
    let tmp' := dbSetKv tmp e.key e.value false
    some (if e.timed then dbSetExpiry tmp' e.key e.expire else tmp')
  else none

/-- `swap_db_data`: the contents move, settings and WATCH bookkeeping stay. -/
def swapDbData (d tmp : Db) : Db :=
  { d with
    table := tmp.table
    expires := tmp.expires
    usedMemory := tmp.usedMemory
    flushEpoch := d.flushEpoch + 1
    owned := tmp.owned
    short := tmp.short }

def snapshotLoadMem (sz : ObjMem) (lim : Limits) (d : Db) (buf : Bytes) (now : Nat) : Int × Db :=
  if buf.take 8 = snapshotMagic then
    match loadEntries (readEntry sz lim) (installEntry now) (buf.drop 8).length dbInit
        (buf.drop 8) with
    | none => (-1, d)
    | some tmp => (0, swapDbData d tmp)
  else (-1, d)

end Ddup.Snapshot
