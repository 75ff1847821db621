/-
Ddup.Server.Containers — command bodies that edit a sorted set or a stream through
the object pointer: ZADD and XADD.

The object is fetched once, created if it is missing, and then edited while the
arguments are still being read. An edit that `mem_sync` does not follow stays in
the object all the same: it is an `edit` call with no touch.
-/
import Ddup.Resp.Writer
import Ddup.Server.Handlers

namespace Ddup.Server

open Ddup.Lib Ddup.Resp Ddup.Command Ddup.Store

/-! ## Runtime -/

/-- What the C library and the encodings of the containers compute: `strtod` of a
text it consumes whole, the sum of two doubles and `fmt_score`, each on the bits;
the memory counter of a new container and of one whose contents have changed. -/
structure Runtime where
  strtod : Bytes → Option UInt64
  fadd : UInt64 → UInt64 → UInt64
  fmtScore : UInt64 → Bytes
  newMem : Container → UInt64
  editMem : Container → UInt64 → Container → UInt64

def parseDouble (R : Runtime) (s : Bytes) : Option UInt64 :=
  if s = [] ∨ 128 ≤ s.length ∨ s.head? = some 32 then none
  else (R.strtod s).filter fun v => !isNan v

/-- The place of a double that is no NaN on the line; both zeros are 0. -/
def scoreRank (score : UInt64) : Int :=
  if score.toNat < 2 ^ 63 then score.toNat else -((score.toNat - 2 ^ 63 : Nat) : Int)

/-- `a < b` on doubles. -/
def scoreLt (a b : UInt64) : Bool := !isNan a && !isNan b && scoreRank a < scoreRank b

def errNotFloat : RespValue := errorReply "ERR value is not a valid float"

/-! ## Fetching and editing a container -/

/-- One kind of container: how it is tagged, and the object a missing key gets. -/
structure Kind (α : Type) where
  wrap : α → Container
  unwrap : Container → Option α
  fresh : α
  unwrap_eq : ∀ x a, unwrap x = some a ↔ x = wrap a

def zsetKind : Kind ZsetObj where
  wrap := .zset
  unwrap := fun | .zset z => some z | _ => none
  fresh := Unique.empty _
  unwrap_eq := fun x _ => by cases x <;> simp

def streamKind : Kind StreamObj where
  wrap := .stream
  unwrap := fun | .stream s => some s | _ => none
  fresh := objStreamNew
  unwrap_eq := fun x _ => by cases x <;> simp

/-- The object of this kind a blob points to, with its memory counter. -/
def Kind.ofObj {α : Type} (K : Kind α) : Obj → Option (α × UInt64)
  | .boxed x mem => (K.unwrap x).map fun a => (a, mem)
  | _ => none

def Kind.freshObj {α : Type} (K : Kind α) (R : Runtime) : Obj :=
  .boxed (K.wrap K.fresh) (R.newMem (K.wrap K.fresh))

/-- `get_zset`, `get_stream`: the object under a key, absent, or an error reply. -/
def getContainer {α : Type} (R : Runtime) (K : Kind α) (c : Ctx) (k : Bytes) (create : Bool) :
    Cmd (Except RespValue (Option (α × UInt64))) := do
  match ← Cmd.get c.dbIndex k with
  | some v =>
    match K.ofObj v with
    | some a => return .ok (some a)
    | none => return .error wrongType
  | none =>
    if !create then return .ok none
    else if ← Cmd.setKv c.dbIndex k (K.freshObj R) false then
      return .ok (some (K.fresh, R.newMem (K.wrap K.fresh)))
    else return .error storageLengthError

def Kind.editedObj {α : Type} [DecidableEq α] (K : Kind α) (R : Runtime) (old : α × UInt64)
    (new : α) : Obj :=
  .boxed (K.wrap new)
    (if new = old.1 then old.2 else R.editMem (K.wrap old.1) old.2 (K.wrap new))

/-- Edit an object in place; `synced` if `mem_sync` follows. -/
def editContainer {α : Type} [DecidableEq α] (R : Runtime) (K : Kind α) (c : Ctx) (k : Bytes)
    (old : α × UInt64) (new : α) (synced : Bool) : Cmd Unit :=
  Cmd.edit c.dbIndex k (K.editedObj R old new) synced

/-! ## ZADD -/

structure ZaddFlags where
  nx : Bool := false
  xx : Bool := false
  gt : Bool := false
  lt : Bool := false
  ch : Bool := false
  incr : Bool := false

/-- The option loop of ZADD: the flags, and the arguments from the first that is no
option on. -/
def zaddOptions : List RespValue → ZaddFlags → Except RespValue (ZaddFlags × List RespValue)
  | [], f => .ok (f, [])
  | a :: rest, f =>
    match argStr a with
    | none => .error badType
    | some w =>
      if ciEqual w (text "NX") && !f.nx && !f.xx then zaddOptions rest { f with nx := true }
      else if ciEqual w (text "XX") && !f.nx && !f.xx then zaddOptions rest { f with xx := true }
      else if ciEqual w (text "GT") && !f.gt && !f.lt then zaddOptions rest { f with gt := true }
      else if ciEqual w (text "LT") && !f.gt && !f.lt then zaddOptions rest { f with lt := true }
      else if ciEqual w (text "CH") && !f.ch then zaddOptions rest { f with ch := true }
      else if ciEqual w (text "INCR") && !f.incr then zaddOptions rest { f with incr := true }
      else .ok (f, a :: rest)

/-- What ZADD reads before it fetches the key: the key, the flags and the pairs. -/
def zaddArgs (argv : List RespValue) : Except RespValue (Bytes × ZaddFlags × List RespValue) :=
  if argv.length < 4 then .error (wrongArgs "zadd")
  else
    match argAt argv 1 with
    | none => .error badType
    | some k =>
      if uint32Max < k.length then .error storageLengthError
      else
        match zaddOptions (argv.drop 2) {} with
        | .error err => .error err
        | .ok (f, rest) =>
          if f.incr then
            if rest.length ≠ 2 then .error (wrongArgs "zadd") else .ok (k, f, rest)
          else if rest = [] ∨ rest.length % 2 ≠ 0 then .error (wrongArgs "zadd")
          else .ok (k, f, rest)

def zsetScore (z : ZsetObj) (m : Bytes) : Option UInt64 := (z.get? m).map Prod.snd

def ZaddFlags.skips (f : ZaddFlags) (old : Option UInt64) (score : UInt64) : Bool :=
  (f.nx && old.isSome) || (f.xx && old.isNone) || (f.gt && old.any fun o => !scoreLt o score)
    || (f.lt && old.any fun o => !scoreLt score o)

def zaddPair (R : Runtime) (s m : RespValue) : Except RespValue (UInt64 × Bytes) :=
  match argStr s, argStr m with
  | some sv, some mv =>
    match parseDouble R sv with
    | none => .error errNotFloat
    | some score => if uint32Max < mv.length then .error storageLengthError else .ok (score, mv)
  | _, _ => .error badType

/-- The pair loop of ZADD: the sorted set as the loop leaves it, and an error or how
many members it added and changed. -/
def zaddLoop (R : Runtime) (f : ZaddFlags) : List RespValue → ZsetObj → Nat → Nat →
    ZsetObj × Except RespValue (Nat × Nat)
  | s :: m :: rest, z, added, changed =>
    match zaddPair R s m with
    | .error err => (z, .error err)
    | .ok (score, mv) =>
      let old := zsetScore z mv
      if f.skips old score then zaddLoop R f rest z added changed
      else
        match objZsetAdd z mv score with
        | none => (z, .error storageLengthError)
        | some z' => zaddLoop R f rest z' (added + old.isNone.toNat) (changed + 1)
  | _, z, added, changed => (z, .ok (added, changed))

def zaddIncr (R : Runtime) (c : Ctx) (k : Bytes) (f : ZaddFlags) (s m : RespValue) : Cmd Outcome :=
  match zaddPair R s m with
  | .error err => reply err
  | .ok (score, mv) => do
    match ← getContainer R zsetKind c k !f.xx with
    | .error err => reply err
    | .ok none => reply nullBulk
    | .ok (some (z, mem)) =>
      let old := zsetScore z mv
      let final := (old.map fun o => R.fadd o score).getD score
      if isNan final then reply (errorReply "ERR resulting score is not a number (NaN)")
      else if f.skips old final then reply nullBulk
      else
        match objZsetAdd z mv final with
        | none =>
          editContainer R zsetKind c k (z, mem) z true
          reply storageLengthError
        | some z' =>
          editContainer R zsetKind c k (z, mem) z' true
          reply (bulk (R.fmtScore final))

def zaddPairs (R : Runtime) (c : Ctx) (k : Bytes) (f : ZaddFlags) (rest : List RespValue) :
    Cmd Outcome := do
  match ← getContainer R zsetKind c k !f.xx with
  | .error err => reply err
  | .ok none => reply (.integer 0)
  | .ok (some (z, mem)) =>
    match zaddLoop R f rest z 0 0 with
    | (z', .error err) =>
      editContainer R zsetKind c k (z, mem) z' false
      reply err
    | (z', .ok (added, changed)) =>
      editContainer R zsetKind c k (z, mem) z' true
      reply (.integer (if f.ch then changed else added))

def zaddCommand (R : Runtime) (c : Ctx) : Cmd Outcome :=
  match zaddArgs c.argv with
  | .error err => reply err
  | .ok (k, f, rest) =>
    match f.incr, rest with
    | true, [s, m] => zaddIncr R c k f s m
    | _, _ => zaddPairs R c k f rest

/-! ## XADD -/

inductive Trim
  | maxlen (threshold limit : Nat)
  | minid (ms seq limit : Nat)

def streamParseFullId (s : Bytes) : Option (Nat × Nat) :=
  let ms := s.takeWhile (· ≠ 45)
  let seq := s.drop (ms.length + 1)
  if s.length < 3 ∨ ms = [] ∨ s.length ≤ ms.length + 1 then none
  else (parseU64 ms).bind fun a => (parseU64 seq).map fun b => (a, b)

/-- The optional `=` or `~` of a trim option. -/
def dropApprox : List RespValue → List RespValue
  | a :: rest => if isOption (text "=") a || isOption (text "~") a then rest else a :: rest
  | [] => []

/-- The LIMIT of a trim option: wherever two more arguments follow it has to be
there. -/
def trimLimit (rest : List RespValue) : Except RespValue (Nat × List RespValue) :=
  match rest with
  | a :: n :: rest' =>
    if isOption (text "LIMIT") a then
      match (argStr n).bind parseU64 with
      | some limit => .ok (limit, rest')
      | none => .error errSyntax
    else .error errSyntax
  | _ => .ok (uint64Max, rest)

def streamParseTrim (maxlen : Bool) (rest : List RespValue) :
    Except RespValue (Trim × List RespValue) :=
  match dropApprox rest with
  | [] => .error errSyntax
  | t :: rest' =>
    if maxlen then
      match (argStr t).bind parseU64 with
      | none => .error errSyntax
      | some n => (trimLimit rest').map fun r => (.maxlen n r.1, r.2)
    else
      match (argStr t).bind streamParseFullId with
      | none => .error errSyntax
      | some (ms, seq) => (trimLimit rest').map fun r => (.minid ms seq r.1, r.2)

/-- The option loop of XADD, by the number of arguments left: NOMKSTREAM once, and
one trim option. -/
def xaddOptions : Nat → List RespValue → Bool → Option Trim →
    Except RespValue (Bool × Option Trim × List RespValue)
  | fuel + 1, a :: rest, nomkstream, trim =>
    if isOption (text "NOMKSTREAM") a && !nomkstream then xaddOptions fuel rest true trim
    else if isOption (text "MAXLEN") a || isOption (text "MINID") a then
      if trim.isSome then .error errSyntax
      else
        match streamParseTrim (isOption (text "MAXLEN") a) rest with
        | .error err => .error err
        | .ok (t, rest') => xaddOptions fuel rest' nomkstream (some t)
    else .ok (nomkstream, trim, a :: rest)
  | _, rest, nomkstream, trim => .ok (nomkstream, trim, rest)

/-- What XADD reads before it fetches the key. -/
structure XaddArgs where
  key : Bytes
  nomkstream : Bool
  trim : Option Trim
  id : Bytes
  fields : List RespValue

def xaddArgs (argv : List RespValue) : Except RespValue XaddArgs :=
  if argv.length < 5 then .error (wrongArgs "xadd")
  else
    match argAt argv 1 with
    | none => .error badType
    | some k =>
      if uint32Max < k.length then .error storageLengthError
      else
        match xaddOptions argv.length (argv.drop 2) false none with
        | .error err => .error err
        | .ok (_, _, []) => .error errSyntax
        | .ok (nomkstream, trim, a :: fields) =>
          match argStr a with
          | none => .error errSyntax
          | some id =>
            if fields.length < 2 ∨ fields.length % 2 ≠ 0 then .error errSyntax
            else .ok ⟨k, nomkstream, trim, id, fields⟩

def invalidStreamId : RespValue :=
  errorReply "ERR Invalid stream ID specified as stream command argument"

def smallStreamId : RespValue :=
  errorReply ("ERR The ID specified in XADD is equal or smaller than the "
    ++ "target stream top item")

def idLt (ms seq ms' seq' : UInt64) : Bool := ms < ms' || (ms == ms' && seq < seq')

/-- The sequence number XADD picks within a millisecond. -/
def nextSeq (s : StreamObj) (ms : UInt64) : UInt64 := if ms = s.lastMs then s.lastSeq + 1 else 0

def streamParseXaddId (s : StreamObj) (now : Nat) (id : Bytes) :
    Except RespValue (UInt64 × UInt64) :=
  let left := id.takeWhile (· ≠ 45)
  if id = [42] then
    let ms := if UInt64.ofNat now < s.lastMs then s.lastMs else UInt64.ofNat now
    .ok (ms, nextSeq s ms)
  else if left ≠ [] ∧ id = left ++ [45, 42] then
    match parseU64 left with
    | none => .error invalidStreamId
    | some n =>
      let ms := UInt64.ofNat n
      if ms < s.lastMs then .error smallStreamId else .ok (ms, nextSeq s ms)
  else
    match streamParseFullId id with
    | none => .error invalidStreamId
    | some (a, b) =>
      let ms := UInt64.ofNat a
      let seq := UInt64.ofNat b
      if idLt s.lastMs s.lastSeq ms seq then .ok (ms, seq) else .error smallStreamId

def lowerBoundLoop (entries : List StreamEntry) (ms seq : UInt64) : Nat → Nat → Nat → Nat
  | fuel + 1, lo, hi =>
    if lo < hi then
      let mid := lo + (hi - lo) / 2
      if entries[mid]?.any fun e => idLt e.ms e.seq ms seq then
        lowerBoundLoop entries ms seq fuel (mid + 1) hi
      else lowerBoundLoop entries ms seq fuel lo mid
    else lo
  | 0, lo, _ => lo

def lowerBound (entries : List StreamEntry) (ms seq : UInt64) : Nat :=
  lowerBoundLoop entries ms seq (entries.length + 1) 0 entries.length

def updateDeleted (s : StreamObj) (e : StreamEntry) : StreamObj :=
  if idLt s.maxDeletedMs s.maxDeletedSeq e.ms e.seq then
    { s with
      maxDeletedMs := e.ms
      maxDeletedSeq := e.seq }
  else s

def removeFront (s : StreamObj) (n : Nat) : StreamObj :=
  match (s.entries.take n).getLast? with
  | none => s
  | some e =>
    let s' := updateDeleted s e
    { s' with entries := s'.entries.drop n }

def streamTrim (s : StreamObj) : Trim → StreamObj
  | .maxlen threshold limit => removeFront s (min limit (s.entries.length - threshold))
  | .minid ms seq limit =>
    removeFront s (min limit (lowerBound s.entries (UInt64.ofNat ms) (UInt64.ofNat seq)))

def fieldPairs : List RespValue → Option (List (Bytes × Bytes))
  | f :: v :: rest =>
    match argStr f, argStr v with
    | some fb, some vb => (fieldPairs rest).map ((fb, vb) :: ·)
    | _, _ => none
  | _ => some []

def streamIdText (ms seq : UInt64) : Bytes := u64ToStr ms.toNat ++ 45 :: u64ToStr seq.toNat

/-- What XADD does to the stream it has fetched: the new entry's id and the stream,
or an error reply with the stream as it was. -/
def xaddEntry (a : XaddArgs) (now : Nat) (s : StreamObj) :
    Except RespValue (UInt64 × UInt64 × StreamObj) :=
  match streamParseXaddId s now a.id with
  | .error err => .error err
  | .ok (ms, seq) =>
    match fieldPairs a.fields with
    | none => .error badType
    | some fields =>
      match objStreamAppend s ⟨ms, seq, fields⟩ with
      | none => .error (errorReply "ERR stream entry is not representable")
      | some s' => .ok (ms, seq, (a.trim.map (streamTrim s')).getD s')

def xaddCommand (R : Runtime) (c : Ctx) : Cmd Outcome :=
  match xaddArgs c.argv with
  | .error err => reply err
  | .ok a => do
    match ← getContainer R streamKind c a.key !a.nomkstream with
    | .error err => reply err
    | .ok none => reply nullBulk
    | .ok (some (s, mem)) =>
      match xaddEntry a c.now s with
      | .error err => reply err
      | .ok (ms, seq, s') =>
        editContainer R streamKind c a.key (s, mem) s' true
        reply (bulk (streamIdText ms seq))

end Ddup.Server
