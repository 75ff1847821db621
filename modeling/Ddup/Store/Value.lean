/-
Ddup.Store.Value — the container objects of `ds/obj.h` and `ds/stream.h`, as far as
commands can observe them, with the constructors the snapshot loader builds them
with.

A table inside an object stands as the list of its entries in the order it is
walked, with distinct names (`Lib.Unique`). A listpack is the sequence of its
elements; integers in it have one canonical text, so an element is its bytes. Sets
and sorted sets have a packed form too, which holds the same members and is not
distinguished here. A sorted set is walked by score and member, so its order is
determined by its entries. Memory counters are kept beside the object
(`Ddup.Store.Obj`).
-/
import Ddup.Basic
import Ddup.Lib.Unique

namespace Ddup.Store

open Ddup.Lib

/-! ## Hashes -/

/-- The listpack limits for hashes of `obj_limits`. -/
structure Limits where
  hashEntries : Nat
  hashValue : Nat

/-- Fields and values: one listpack in which they alternate (absent for a NULL
`lp`), or a table. -/
inductive HashFields
  | packed (lp : Option (List (Bytes × Bytes)))
  | table (fields : Unique (Prod.fst : Bytes × Bytes → Bytes))
deriving DecidableEq

/-- The pairs `obj_hash_each` visits. -/
def HashFields.pairs : HashFields → List (Bytes × Bytes)
  | .packed lp => lp.getD []
  | .table fields => fields.items

/-- `obj_hash`. -/
structure HashObj where
  fields : HashFields
  expires : Finmap fun _ : Bytes => Nat
deriving DecidableEq

def objHashNew : HashObj := ⟨.packed (some []), ∅⟩

/-- `lp_find` of `f` and `lp_replace` of the element after it. The search runs over
fields and values alike. Absent if `f` is not found; NULL if nothing follows it. -/
def replaceNext (f v : Bytes) : List (Bytes × Bytes) → Option (Option (List (Bytes × Bytes)))
  | [] => none
  | (x, y) :: rest =>
    if x = f then some (some ((x, v) :: rest))
    else if y = f then
      match rest with
      | [] => some none
      | (_, z) :: rest' => some (some ((x, y) :: (v, z) :: rest'))
    else (replaceNext f v rest).map fun r => r.map fun l => (x, y) :: l

def hashConvert (lp : Option (List (Bytes × Bytes))) : Unique (Prod.fst : Bytes × Bytes → Bytes) :=
  (lp.getD []).foldl Unique.put (Unique.empty _)

def Limits.fits (lim : Limits) (f v : Bytes) : Bool :=
  f.length ≤ lim.hashValue && v.length ≤ lim.hashValue

/-- The listpack half of `obj_hash_set`: convert, overwrite or append. -/
def packedSet (lim : Limits) (lp : Option (List (Bytes × Bytes))) (f v : Bytes) : HashFields :=
  match if lim.fits f v then lp.bind (replaceNext f v) else none with
  | some lp' => .packed lp'
  | none =>
    if !lim.fits f v || lim.hashEntries ≤ (lp.getD []).length then
      .table ((hashConvert lp).put (f, v))
    else .packed (lp.map fun l => l ++ [(f, v)])

def objHashSet (lim : Limits) (h : HashObj) (f v : Bytes) : Option HashObj :=
  if uint32Max < f.length ∨ uint32Max < v.length then none
  else
    let fields :=
      match h.fields with
      | .packed lp => packedSet lim lp f v
      | .table t => .table (t.put (f, v))
    some ⟨fields, h.expires.erase f⟩

/-! ## Sets and sorted sets -/

abbrev SetObj := Unique (id : Bytes → Bytes)

def objSetAdd (s : SetObj) (m : Bytes) : Option SetObj :=
  if uint32Max < m.length then none else some (s.put m)

def isNan (score : UInt64) : Bool := 0x7FF0000000000000 < (score &&& 0x7FFFFFFFFFFFFFFF)

def scoreEq (a b : UInt64) : Bool :=
  a == b || (a &&& 0x7FFFFFFFFFFFFFFF == 0 && b &&& 0x7FFFFFFFFFFFFFFF == 0)

abbrev ZsetObj := Unique (Prod.fst : Bytes × UInt64 → Bytes)

def objZsetAdd (z : ZsetObj) (m : Bytes) (score : UInt64) : Option ZsetObj :=
  if uint32Max < m.length then none
  else if z.items.any fun x => x.1 == m && scoreEq x.2 score then some z
  else some (z.put (m, score))

/-! ## Streams -/

structure Pending where
  ms : UInt64
  seq : UInt64
  idle : UInt64
  deliveryCount : UInt64
deriving DecidableEq

structure Consumer where
  name : Bytes
  seenTime : UInt64
  activeTime : UInt64
  pel : Unique fun p : Pending => (p.ms, p.seq)
deriving DecidableEq

structure Group where
  name : Bytes
  lastMs : UInt64
  lastSeq : UInt64
  entriesRead : UInt64
  consumers : Unique Consumer.name
deriving DecidableEq

structure StreamEntry where
  ms : UInt64
  seq : UInt64
  fields : List (Bytes × Bytes)
deriving DecidableEq

structure StreamObj where
  entries : List StreamEntry
  lastMs : UInt64
  lastSeq : UInt64
  entriesAdded : UInt64
  maxDeletedMs : UInt64
  maxDeletedSeq : UInt64
  groups : Unique Group.name
deriving DecidableEq

def objStreamNew : StreamObj := ⟨[], 0, 0, 0, 0, 0, Unique.empty _⟩

/-- `obj_stream_append`: the id has to be past the last one. -/
def objStreamAppend (s : StreamObj) (e : StreamEntry) : Option StreamObj :=
  if e.ms < s.lastMs ∨ (e.ms = s.lastMs ∧ e.seq ≤ s.lastSeq) then none
  else if uint32Max < e.fields.length ∨
      e.fields.any fun p => uint32Max < p.1.length || uint32Max < p.2.length then none
  else some
    { s with
      entries := s.entries ++ [e]
      lastMs := e.ms
      lastSeq := e.seq
      entriesAdded := s.entriesAdded + 1 }

/-! ## Arrays -/

/-- `obj_array`; `count` is the number of values. Every index lies below `length`. -/
structure ArrayObj where
  values : Unique (Prod.fst : UInt64 × Bytes → UInt64)
  length : UInt64
  nextInsert : UInt64
  ringSize : UInt64
  history : List UInt64
  bounded : ∀ x ∈ values.items, x.1 < length
deriving DecidableEq

def objArrayNew : ArrayObj := ⟨Unique.empty _, 0, 0, 0, [], fun _ h => absurd h List.not_mem_nil⟩

def grownLength (length index : UInt64) : UInt64 :=
  if length < index + 1 then index + 1 else length

theorem lt_grownLength (length : UInt64) {index : UInt64} (h : index ≠ 0xFFFFFFFFFFFFFFFF) :
    index < grownLength length index := by
  have hmax : index.toNat + 1 < 2 ^ 64 := by
    have hlt := index.toNat_lt
    have hne : index.toNat ≠ 18446744073709551615 := fun heq => h (UInt64.toNat_inj.mp heq)
    omega
  have hadd : (index + 1).toNat = index.toNat + 1 := by
    rw [UInt64.toNat_add]
    exact Nat.mod_eq_of_lt hmax
  unfold grownLength
  split
  · rw [UInt64.lt_iff_toNat_lt, hadd]
    exact Nat.lt_succ_self _
  rename_i hge
  rw [UInt64.lt_iff_toNat_lt] at hge ⊢
  omega

theorem le_grownLength (length index : UInt64) : length ≤ grownLength length index := by
  unfold grownLength
  split
  · rename_i hlt
    exact UInt64.le_of_lt hlt
  · exact UInt64.le_refl _

def objArraySet (a : ArrayObj) (index : UInt64) (value : Bytes) : Option ArrayObj :=
  if uint32Max < value.length then none
  else if h : index = 0xFFFFFFFFFFFFFFFF then none
  else some
    { a with
      values := a.values.put (index, value)
      length := grownLength a.length index
      bounded := fun x hx => (Unique.mem_put hx).elim
        (fun heq => heq ▸ lt_grownLength a.length h)
        (fun hold => UInt64.lt_of_lt_of_le (a.bounded x hold) (le_grownLength _ _)) }

/-! ## All containers -/

/-- The objects a tagged pointer can point to, lists apart. -/
inductive Container
  | hash (h : HashObj)
  | set (s : SetObj)
  | zset (z : ZsetObj)
  | stream (s : StreamObj)
  | array (a : ArrayObj)
deriving DecidableEq

end Ddup.Store
