/-
Ddup.Table.Rhtable — the Robin Hood table of `core/rhtable.c`.

A table is one array of slots, or two while an incremental rehash is under way:
`slots` receives every new entry, `oldSlots` is emptied from the front, sixteen
occupied buckets at the start of every operation. A slot's `psl` (probe
sequence length) is its distance from the bucket its hash selects; the C code
marks an empty slot by `psl = -1`, which is `none` here.

Probe loops in C have no bound; here they take fuel and answer `none` when it
runs out, so a result of `none` from any operation means the C loop would not
have returned. Growth past `SIZE_MAX` and a failed `malloc` both end the
process and are not modelled, and `psl` is a natural number.

The hash function is a parameter `H` throughout: the platform picks wyhash or
FNV-1a.
-/
import Ddup.Basic
import Ddup.Lib.Slots

namespace Ddup.Table

open Ddup.Lib

/-- `rh_entry` of an occupied slot. The C struct keeps key and value bytes in
one block `kv` with `klen` and `vlen`; here they are two fields. `lruMeta` is the
C field `meta`, opaque to the table. -/
structure RhEntry where
  hash : UInt64
  key : Bytes
  val : Bytes
  psl : Nat
  lruMeta : UInt32
deriving Repr, DecidableEq

abbrev Slots := List (Option RhEntry)

structure RhTable where
  slots : Slots
  cap : Nat
  size : Nat
  growAt : Nat
  oldSlots : Option Slots
  oldCap : Nat
  oldLive : Nat
  migratePos : Nat
deriving Repr, DecidableEq

def rhInitCap : Nat := 16
def rhMaxLoadNum : Nat := 85
def rhMaxLoadDen : Nat := 100
def rhMigrateBatch : Nat := 16

def rhGrowthLimit (cap : Nat) : Nat :=
  cap / rhMaxLoadDen * rhMaxLoadNum + cap % rhMaxLoadDen * rhMaxLoadNum / rhMaxLoadDen

def rhAllocSlots (cap : Nat) : Slots := List.replicate cap none

def rhInit : RhTable where
  slots := rhAllocSlots rhInitCap
  cap := rhInitCap
  size := 0
  growAt := rhGrowthLimit rhInitCap
  oldSlots := none
  oldCap := 0
  oldLive := 0
  migratePos := 0

/-! ## One array -/

/-- The loop of `rh_insert_entry`: the carried entry `e` stands `dist` buckets
from its home, and takes the slot of any entry nearer to its own. -/
def rhInsertLoop (mask : Nat) : Nat → Slots → RhEntry → Nat → Nat → Option Slots
  | 0, _, _, _, _ => none
  | fuel + 1, slots, e, i, dist =>
    match slotAt slots i with
    | none => some (slots.set i (some { e with psl := dist }))
    | some o =>
      if o.psl < dist then
        rhInsertLoop mask fuel (slots.set i (some { e with psl := dist })) o
          ((i + 1) &&& mask) (o.psl + 1)
      else
        rhInsertLoop mask fuel slots e ((i + 1) &&& mask) (dist + 1)

def rhInsertEntry (slots : Slots) (cap : Nat) (e : RhEntry) : Option Slots :=
  rhInsertLoop (cap - 1) cap slots e (e.hash.toNat &&& (cap - 1)) 0

/-- The loop of `rh_find_in`: `some none` is the C answer `-1`. -/
def rhFindLoop (mask : Nat) (slots : Slots) (hash : UInt64) (key : Bytes) :
    Nat → Nat → Nat → Option (Option Nat)
  | 0, _, _ => none
  | fuel + 1, i, dist =>
    match slotAt slots i with
    | none => some none
    | some e =>
      if e.psl < dist then some none
      else if e.hash = hash ∧ e.key = key then some (some i)
      else rhFindLoop mask slots hash key fuel ((i + 1) &&& mask) (dist + 1)

def rhFindIn (slots : Slots) (cap : Nat) (hash : UInt64) (key : Bytes) : Option (Option Nat) :=
  rhFindLoop (cap - 1) slots hash key cap (hash.toNat &&& (cap - 1)) 0

/-- The loop of `rh_delete_at`: shift the followers back by one until one of
them is empty or at home. -/
def rhDeleteLoop (mask : Nat) : Nat → Slots → Nat → Option Slots
  | 0, _, _ => none
  | fuel + 1, slots, j =>
    let next := (j + 1) &&& mask
    match slotAt slots next with
    | none => some (slots.set j none)
    | some e =>
      if e.psl = 0 then some (slots.set j none)
      else rhDeleteLoop mask fuel (slots.set j (some { e with psl := e.psl - 1 })) next

def rhDeleteAt (slots : Slots) (cap i : Nat) : Option Slots :=
  rhDeleteLoop (cap - 1) cap slots i

/-! ## The two arrays of a rehash -/

/-- The loop of `rh_migrate_some_slow`. The first argument counts the buckets
from `migratePos` to `oldCap`; at `0` the C loop takes its defensive `break`. -/
def rhMigrateLoop : Nat → Nat → RhTable → Option RhTable
  | 0, _, t => some t
  | left + 1, moved, t =>
    if moved < rhMigrateBatch ∧ 0 < t.oldLive then
      match t.oldSlots with
      | none => some t
      | some old =>
        match slotAt old t.migratePos with
        | none => rhMigrateLoop left moved { t with migratePos := t.migratePos + 1 }
        | some e => do
          let slots ← rhInsertEntry t.slots t.cap e
          rhMigrateLoop left (moved + 1)
            { t with
              slots := slots
              oldSlots := some (old.set t.migratePos none)
              oldLive := t.oldLive - 1
              migratePos := t.migratePos + 1 }
    else some t

/-- The end of `rh_migrate_some_slow`: an emptied old array is released. -/
def rhReleaseOld (t : RhTable) : RhTable :=
  if t.oldLive = 0 then { t with oldSlots := none, oldCap := 0, migratePos := 0 } else t

def rhMigrateSome (t : RhTable) : Option RhTable :=
  match t.oldSlots with
  | none => some t
  | some _ => (rhMigrateLoop (t.oldCap - t.migratePos) 0 t).map rhReleaseOld

def rhMaybeGrow (t : RhTable) : RhTable :=
  if t.oldSlots.isSome then t
  else if t.size + 1 ≤ t.growAt then t
  else
    { t with
      oldSlots := some t.slots
      oldCap := t.cap
      oldLive := t.size
      migratePos := 0
      slots := rhAllocSlots (t.cap * 2)
      cap := t.cap * 2
      growAt := rhGrowthLimit (t.cap * 2) }

/-! ## Operations -/

section Operations

variable (H : Bytes → UInt64)

/-- Which array and slot a lookup lands on. -/
inductive Place
  | new (i : Nat)
  | old (i : Nat)
  | absent
deriving Repr, DecidableEq

/-- The lookup every operation makes after migrating: the new array, then the
old one if there is one. -/
def rhLocate (t : RhTable) (key : Bytes) : Option Place :=
  match rhFindIn t.slots t.cap (H key) key with
  | none => none
  | some (some i) => some (.new i)
  | some none =>
    match t.oldSlots with
    | none => some .absent
    | some old =>
      match rhFindIn old t.oldCap (H key) key with
      | none => none
      | some (some i) => some (.old i)
      | some none => some .absent

def RhTable.entryAt (t : RhTable) : Place → Option RhEntry
  | .new i => slotAt t.slots i
  | .old i => t.oldSlots.bind (slotAt · i)
  | .absent => none

/-- Write the entry at a place through the pointer the lookup returned. -/
def RhTable.setAt (t : RhTable) (e : RhEntry) : Place → RhTable
  | .new i => { t with slots := t.slots.set i (some e) }
  | .old i => { t with oldSlots := t.oldSlots.map (·.set i (some e)) }
  | .absent => t

def RhTable.deleteAt (t : RhTable) : Place → Option RhTable
  | .new i =>
    (rhDeleteAt t.slots t.cap i).map fun slots => { t with slots := slots, size := t.size - 1 }
  | .old i =>
    (t.oldSlots.bind (rhDeleteAt · t.oldCap i)).map fun old =>
      { t with oldSlots := some old, oldLive := t.oldLive - 1, size := t.size - 1 }
  | .absent => some t

def rhSize (t : RhTable) : Nat := t.size

def rhGet (t : RhTable) (key : Bytes) : Option (RhTable × Option Bytes) := do
  let t ← rhMigrateSome t
  let place ← rhLocate H t key
  return (t, (t.entryAt place).map (·.val))

/-- `rh_get_touch`: as `rh_get`, and store `meta` on the entry. -/
def rhGetTouch (t : RhTable) (key : Bytes) (lruMeta : UInt32) :
    Option (RhTable × Option Bytes) := do
  let t ← rhMigrateSome t
  let place ← rhLocate H t key
  match t.entryAt place with
  | none => return (t, none)
  | some e => return (t.setAt { e with lruMeta := lruMeta } place, some e.val)

def rhInsertNew (t : RhTable) (key val : Bytes) (lruMeta : UInt32) : Option RhTable := do
  let t := rhMaybeGrow t
  let slots ← rhInsertEntry t.slots t.cap
    { hash := H key, key := key, val := val, psl := 0, lruMeta := lruMeta }
  return { t with slots := slots, size := t.size + 1 }

/-- `rh_set`: `-1` for a length the entry cannot hold, `1` on overwrite (the
entry's `meta` stays), `0` on insert. -/
def rhSet (t : RhTable) (key val : Bytes) : Option (RhTable × Int) :=
  if uint32Max < key.length ∨ uint32Max < val.length then some (t, -1)
  else do
    let t ← rhMigrateSome t
    let place ← rhLocate H t key
    match t.entryAt place with
    | some e => return (t.setAt { e with val := val } place, 1)
    | none => do
      let t ← rhInsertNew H t key val 0
      return (t, 0)

/-- `rh_set_ex2`: the value is `v1` followed by `v2`; on overwrite the old block
(key bytes, then value bytes) and its `vlen` are handed back. -/
def rhSetEx2 (t : RhTable) (key v1 v2 : Bytes) (lruMeta : UInt32) :
    Option (RhTable × Int × Option (Bytes × Nat)) :=
  if uint32Max < key.length ∨ uint32Max < v1.length ∨ uint32Max < v2.length
      ∨ uint32Max < v1.length + v2.length then some (t, -1, none)
  else do
    let t ← rhMigrateSome t
    let place ← rhLocate H t key
    match t.entryAt place with
    | some e =>
      return (t.setAt { e with val := v1 ++ v2, lruMeta := lruMeta } place, 1,
        some (e.key ++ e.val, e.val.length))
    | none => do
      let t ← rhInsertNew H t key (v1 ++ v2) lruMeta
      return (t, 0, none)

def rhDel (t : RhTable) (key : Bytes) : Option (RhTable × Bool) := do
  let t ← rhMigrateSome t
  match ← rhLocate H t key with
  | .absent => return (t, false)
  | place => do
    let t ← t.deleteAt place
    return (t, true)

end Operations

end Ddup.Table
