/-
Ddup.Server.StreamCounters — a stream object with the two byte counters of `ds/stream.c`.

`mem` counts the object and its entries, `group_mem` the groups with their consumers and
pending records. Every edit moves them by the size of what it adds or removes; sizes are those
of the 64-bit structs. A `UInt64` addition or subtraction of the source is one here, and each of
its calls of `abort` is an error. The capacities of the arrays are left out: they grow before an
element is added and are read nowhere else.
-/
import Ddup.Server.StreamGroups

namespace Ddup.Server

open Ddup.Lib Ddup.Command Ddup.Store

/-! ## Sizes -/

def dataLen (e : StreamEntry) : Nat := (e.fields.map fun p => p.1.length + p.2.length).sum

def streamEntryBytes (nfields dataLen : Nat) : Option Nat :=
  let total := 48 + nfields * 8
  if uint32Max < nfields then none
  else if uint64Max - total < dataLen then none
  else if uint64Max - 32 < total + dataLen then none
  else some (total + dataLen + 32)

/-- `stream_mem_add` from zero with nothing extra, as all its callers have it. -/
def streamMemAdd (structSize nameLen : Nat) : Option Nat :=
  if uint64Max - structSize < nameLen then none
  else if uint64Max - 16 < structSize + nameLen then none
  else some (structSize + nameLen + 16)

/-- `sizeof(obj_stream)`, `sizeof(stream_group)`, `sizeof(stream_consumer)`, and
`sizeof(stream_pending)` with its 16 bytes of overhead. -/
def streamSize : Nat := 104
def groupSize : Nat := 72
def consumerSize : Nat := 56
def pendingBytes : Nat := 32 + 16

/-! ## The object -/

structure CountedStream where
  body : StreamObj
  mem : UInt64
  groupMem : UInt64

/-- The calls of `abort`. -/
inductive StreamAbort
  /-- an entry that is too large to have been stored -/
  | entrySize
  /-- `s->mem` would overflow -/
  | entryMem
  /-- a name that is too long to have been stored -/
  | groupSize
  /-- `stream_group_mem_sub` -/
  | groupMem
deriving DecidableEq

def streamNew : CountedStream := ⟨objStreamNew, UInt64.ofNat streamSize, 0⟩

/-- `stream_group_mem_add`, behind the check its callers make first. -/
def streamGroupMemAdd (s : CountedStream) (bytes : Nat) : Option CountedStream :=
  if uint64Max - s.groupMem.toNat < bytes then none
  else some { s with groupMem := s.groupMem + UInt64.ofNat bytes }

def streamGroupMemSub (s : CountedStream) (bytes : Nat) : Except StreamAbort CountedStream :=
  if s.groupMem.toNat < bytes then .error .groupMem
  else .ok { s with groupMem := s.groupMem - UInt64.ofNat bytes }

/-! ## Entries -/

def storedBytes (e : StreamEntry) : Except StreamAbort Nat :=
  match streamEntryBytes e.fields.length (dataLen e) with
  | none => .error .entrySize
  | some bytes => .ok bytes

def streamAppend (s : CountedStream) (e : StreamEntry) : Except StreamAbort (CountedStream × Int) :=
  if !idLt s.body.lastMs s.body.lastSeq e.ms e.seq then .ok (s, -2)
  else
    match objStreamAppend s.body e with
    | none => .ok (s, -1)
    | some body =>
      if uint64Max < dataLen e then .ok (s, -1)
      else
        match streamEntryBytes e.fields.length (dataLen e) with
        | none => .ok (s, -1)
        | some bytes =>
          if uint64Max - s.mem.toNat < bytes then .error .entryMem
          else
            .ok ({ s with
                  body := body
                  mem := s.mem + UInt64.ofNat bytes }, 0)

def dropEntries : List StreamEntry → UInt64 → Except StreamAbort UInt64
  | [], mem => .ok mem
  | e :: rest, mem => do
    let bytes ← storedBytes e
    dropEntries rest (mem - UInt64.ofNat bytes)

def countedDelete (s : CountedStream) (id : StreamId) : Except StreamAbort (CountedStream × Int) :=
  match entryAt s.body id, streamDelete s.body id with
  | some e, some body => do
    let mem ← dropEntries [e] s.mem
    return ({ s with
              body := body
              mem := mem }, 1)
  | _, _ => .ok (s, 0)

def trimCount (s : StreamObj) : Trim → Nat
  | .maxlen threshold limit => min limit (s.entries.length - threshold)
  | .minid ms seq limit => min limit (lowerBound s.entries (UInt64.ofNat ms) (UInt64.ofNat seq))

def countedTrim (s : CountedStream) (t : Trim) : Except StreamAbort (CountedStream × Int) := do
  let mem ← dropEntries (s.body.entries.take (trimCount s.body t)) s.mem
  return ({ s with
            body := streamTrim s.body t
            mem := mem }, trimCount s.body t)

/-! ## Groups -/

def groupCreate (s : CountedStream) (name : Bytes) (last : StreamId) : CountedStream :=
  match s.body.groups.get? name with
  | some _ => s
  | none =>
    match (streamMemAdd groupSize name.length).bind (streamGroupMemAdd s) with
    | none => s
    | some s' => { s' with body := setGroup s.body ⟨name, last.1, last.2, 0, Unique.empty _⟩ }

def addPending : Nat → Nat → Except StreamAbort Nat
  | 0, mem => .ok mem
  | k + 1, mem =>
    if uint64Max - pendingBytes < mem then .error .groupSize else addPending k (mem + pendingBytes)

def goneConsumer (c : Consumer) : Except StreamAbort Nat :=
  match streamMemAdd consumerSize c.name.length with
  | none => .error .groupSize
  | some mem => addPending c.pel.items.length mem

/-- The bytes of a group's consumers, added up without a check. -/
def goneConsumers : List Consumer → Nat → Except StreamAbort Nat
  | [], mem => .ok mem
  | c :: rest, mem => do
    let cmem ← goneConsumer c
    goneConsumers rest ((mem + cmem) % 2 ^ 64)

def groupDestroy (s : CountedStream) (name : Bytes) : Except StreamAbort (CountedStream × Int) :=
  match s.body.groups.get? name with
  | none => .ok (s, 0)
  | some g =>
    match streamMemAdd groupSize g.name.length with
    | none => .error .groupSize
    | some base => do
      let mem ← goneConsumers g.consumers.items base
      let s' ← streamGroupMemSub s mem
      return ({ s' with body := { s.body with groups := s.body.groups.erase name } }, 1)

def countedConsumerCreate (s : CountedStream) (g : Group) (name : Bytes) : CountedStream :=
  match g.consumers.get? name with
  | some _ => s
  | none =>
    match (streamMemAdd consumerSize name.length).bind (streamGroupMemAdd s) with
    | none => s
    | some s' => { s' with body := setGroup s.body (consumerCreate g name) }

def consumerDestroy (s : CountedStream) (g : Group) (name : Bytes) :
    Except StreamAbort (CountedStream × Int) :=
  match g.consumers.get? name with
  | none => .ok (s, 0)
  | some c => do
    let mem ← goneConsumer c
    let s' ← streamGroupMemSub s mem
    return ({ s' with body := setGroup s.body { g with consumers := g.consumers.erase name } }, 1)

def countedPelAdd (s : CountedStream) (g : Group) (c : Consumer) (p : Pending) : CountedStream :=
  match c.pel.get? (p.ms, p.seq) with
  | some _ => s
  | none =>
    match streamGroupMemAdd s pendingBytes with
    | none => s
    | some s' => { s' with body := setGroup s.body (pelAdd g c p) }

def countedPelRemove (s : CountedStream) (g : Group) (id : StreamId) :
    Except StreamAbort (CountedStream × Int) :=
  match pelRemove g id with
  | none => .ok (s, 0)
  | some g' => do
    let s' ← streamGroupMemSub s pendingBytes
    return ({ s' with body := setGroup s.body g' }, 1)

/-! ## Runs -/

/-- An edit of a stream. The edits of a group and of a consumer first look them up by name,
and do nothing if they are not there. -/
inductive StreamOp
  | append (e : StreamEntry)
  | delete (id : StreamId)
  | trim (t : Trim)
  | groupCreate (name : Bytes) (last : StreamId)
  | groupDestroy (name : Bytes)
  | consumerCreate (group name : Bytes)
  | consumerDestroy (group name : Bytes)
  | pelAdd (group consumer : Bytes) (p : Pending)
  | pelRemove (group : Bytes) (id : StreamId)

def streamStep (s : CountedStream) : StreamOp → Except StreamAbort CountedStream
  | .append e => (streamAppend s e).map Prod.fst
  | .delete id => (countedDelete s id).map Prod.fst
  | .trim t => (countedTrim s t).map Prod.fst
  | .groupCreate name last => .ok (groupCreate s name last)
  | .groupDestroy name => (groupDestroy s name).map Prod.fst
  | .consumerCreate group name =>
    match s.body.groups.get? group with
    | none => .ok s
    | some g => .ok (countedConsumerCreate s g name)
  | .consumerDestroy group name =>
    match s.body.groups.get? group with
    | none => .ok s
    | some g => (consumerDestroy s g name).map Prod.fst
  | .pelAdd group consumer p =>
    match s.body.groups.get? group with
    | none => .ok s
    | some g =>
      match g.consumers.get? consumer with
      | none => .ok s
      | some c => .ok (countedPelAdd s g c p)
  | .pelRemove group id =>
    match s.body.groups.get? group with
    | none => .ok s
    | some g => (countedPelRemove s g id).map Prod.fst

def goneEntries (s s' : CountedStream) : List StreamEntry :=
  s.body.entries.filter (· ∉ s'.body.entries)

def streamRun (s : CountedStream) :
    List StreamOp → Except StreamAbort (CountedStream × List StreamEntry)
  | [] => .ok (s, [])
  | op :: ops => do
    let s' ← streamStep s op
    let (last, gone) ← streamRun s' ops
    return (last, goneEntries s s' ++ gone)

end Ddup.Server
