/-
Ddup.Server.Handlers — the command bodies of `command_dispatch` that the
properties of this development turn on: database selection and exchange, the
string commands, deletion, expiry, flushing, the list commands and their blocking
forms, authentication.

The remaining bodies are a parameter (`Host.handler`): any program over the calls
of `Ddup.Server.Ops`. What the C library and the embedded engines compute (float
parsing, quicklist memory, Lua) is in `Host` too.
-/
import Ddup.Server.Ops

namespace Ddup.Server

open Ddup.Resp Ddup.Command Ddup.Store Ddup.Acl

/-! ## Contexts and outcomes -/

/-- What a handler is given: the request, the instant, `s->db_index`,
`s->sel_ndbs` and whether the database is in cluster mode. -/
structure Ctx where
  argv : List RespValue
  now : Nat
  dbIndex : Nat
  ndbs : Nat
  cluster : Bool

/-- What a handler does to its session once its body is done. -/
inductive Effect
  | none
  /-- `session_block_start` -/
  | block (deadline : Nat)
  /-- a change of an ACL user's rules -/
  | acl (user : Nat) (rules : AclUser)
  /-- `acl_authenticate` and what follows it -/
  | login (name password : Bytes)
  | select (i : Nat)
  | swap (a b : Nat)
  | unwatch

/-- The values written to the reply buffer, and the effect on the session. -/
structure Outcome where
  replies : List RespValue
  effect : Effect

/-- The effects of the handlers outside this module. -/
inductive HostEffect
  | none
  | block (deadline : Nat)
  | acl (user : Nat) (rules : AclUser)

/-- `blocking_parse_timeout` before the clock is added. -/
inductive Timeout
  | invalid | negative | forever
  | after (ms : Nat)

/-- A script as its bridge calls see it: it ends with replies, or calls a command
with arguments and goes on with the replies. -/
inductive Script
  | done (replies : List RespValue)
  | call (argv : List Bytes) (k : List RespValue → Script)

/-- The parts of the server the model is generic in. -/
structure Host where
  /-- The command bodies not defined here. -/
  handler : CmdId → Ctx → Cmd (List RespValue × HostEffect)
  /-- `cluster_check_ownership`: an error, or go on. -/
  ownership : Ctx → Cmd (Option RespValue)
  /-- The retry body of a blocking command not defined here; `none` is not ready. -/
  retry : CmdId → Ctx → Cmd (Option (List RespValue))
  /-- `script_load` and `lua_pcall`: the script a request runs, or an error. -/
  script : CmdId → Ctx → Except RespValue Script
  /-- `ql_mem` of a list's elements. -/
  listMem : List Bytes → UInt64
  /-- `parse_double` of a timeout, in milliseconds. -/
  timeout : Bytes → Timeout
  /-- The key `db_evict_one` picks. -/
  victim : Db → Option Bytes

/-! ## Replies -/

def okReply : RespValue := .simpleString (.view (text "OK"))

def errorReply (msg : String) : RespValue := .error (.view (text msg))

def nullBulk : RespValue := .bulkString (.null 0)

def nullArray : RespValue := .array [] true

def wrongArgs (name : String) : RespValue :=
  errorReply ("ERR wrong number of arguments for '" ++ name ++ "' command")

def errNotInt : RespValue := errorReply "ERR value is not an integer or out of range"

def errSyntax : RespValue := errorReply "ERR syntax error"

def badType : RespValue := errorReply "ERR invalid argument type"

def dbRange : RespValue := errorReply "ERR DB index is out of range"

def storageLengthError : RespValue := errorReply "ERR key or value length is not representable"

def wrongType : RespValue :=
  errorReply "WRONGTYPE Operation against a key holding the wrong kind of value"

def oomError : RespValue := errorReply "OOM command not allowed when used memory > 'maxmemory'."

def crossSlot : RespValue := errorReply "CROSSSLOT Keys in request don't hash to the same slot"

def reply (v : RespValue) : Cmd Outcome := .done ⟨[v], .none⟩

/-! ## Argument helpers -/

def strView : RespValue → Option Bytes
  | .simpleString (.view b) | .error (.view b) | .bulkString (.view b)
  | .bigNumber (.view b) | .blobError (.view b) | .verbatimString (.view b) => some b
  | _ => none

def cmdParseLl (v : RespValue) : Option Int :=
  (strView v).bind fun b =>
    let (neg, digits) := splitSign b
    if digits = [] then none
    else (digitLoop (fun x _ => x ≤ 1000000000) 0 digits).map fun (x : Nat) =>
      if neg then -(x : Int) else (x : Int)

def dbIndexArg (c : Ctx) (pos : Nat) : Except RespValue Nat :=
  match c.argv[pos]?.bind cmdParseLl with
  | none => .error errNotInt
  | some i => if i < 0 ∨ (c.ndbs : Int) ≤ i then .error dbRange else .ok i.toNat

def crossslotReject (c : Ctx) : Bool := c.cluster && !(cmdKeysAccum c.argv none).1

def storageStringOk (k v : Bytes) : Bool := k.length ≤ uint32Max && v.length < uint32Max

def timeAddSaturating (now delta : Nat) : Nat := min (now + delta) uint64Max

/-! ## Databases and sessions -/

def selectCommand (c : Ctx) : Cmd Outcome :=
  if c.argv.length ≠ 2 then reply (wrongArgs "select")
  else
    match dbIndexArg c 1 with
    | .error err => reply err
    | .ok i => .done ⟨[okReply], .select i⟩

def swapdbCommand (c : Ctx) : Cmd Outcome :=
  if c.argv.length ≠ 3 then reply (wrongArgs "swapdb")
  else
    match c.argv[1]?.bind cmdParseLl, c.argv[2]?.bind cmdParseLl with
    | some a, some b =>
      if a < 0 ∨ (c.ndbs : Int) ≤ a ∨ b < 0 ∨ (c.ndbs : Int) ≤ b then reply dbRange
      else .done ⟨[okReply], .swap a.toNat b.toNat⟩
    | _, _ => reply errNotInt

def unwatchCommand (c : Ctx) : Cmd Outcome :=
  if c.argv.length ≠ 1 then reply (wrongArgs "unwatch") else .done ⟨[okReply], .unwatch⟩

def authCommand (c : Ctx) : Cmd Outcome :=
  match c.argv with
  | [_, p] =>
    match argStr p with
    | some pw => .done ⟨[okReply], .login (text "default") pw⟩
    | none => reply badType
  | [_, u, p] =>
    match argStr u, argStr p with
    | some user, some pw => .done ⟨[okReply], .login user pw⟩
    | _, _ => reply badType
  | _ => reply (wrongArgs "auth")

def flushArgs (c : Ctx) : Bool :=
  c.argv.length = 1 ∨ c.argv.length = 2 ∧
    c.argv[1]?.any fun v => isOption (text "ASYNC") v || isOption (text "SYNC") v

def flushdbCommand (c : Ctx) : Cmd Outcome :=
  if !flushArgs c then reply (wrongArgs "flushdb")
  else do
    Cmd.flush c.dbIndex
    reply okReply

def flushBelow : Nat → Cmd Unit
  | 0 => .done ()
  | n + 1 => do
    flushBelow n
    Cmd.flush n

def flushallCommand (c : Ctx) : Cmd Outcome :=
  if !flushArgs c then reply (wrongArgs "flushall")
  else do
    flushBelow c.ndbs
    reply okReply

/-! ## Strings and keys -/

def getCommand (c : Ctx) : Cmd Outcome :=
  if c.argv.length ≠ 2 then reply (wrongArgs "get")
  else
    match argAt c.argv 1 with
    | none => reply badType
    | some k => do
      match ← Cmd.get c.dbIndex k with
      | some (.str b) => reply (bulk b)
      | some _ => reply wrongType
      | none => reply nullBulk

structure SetOpts where
  nx : Bool := false
  xx : Bool := false
  ttl : Option Nat := none
  keepttl : Bool := false
  getOld : Bool := false

def setOptions : List RespValue → SetOpts → Except RespValue SetOpts
  | [], o => .ok o
  | a :: rest, o =>
    match argStr a with
    | none => .error badType
    | some w =>
      if (ciEqual w (text "NX") || ciEqual w (text "XX")) && !o.nx && !o.xx then
        setOptions rest { o with nx := ciEqual w (text "NX"), xx := !ciEqual w (text "NX") }
      else if (ciEqual w (text "EX") || ciEqual w (text "PX")) && o.ttl.isNone && !o.keepttl
          && !rest.isEmpty then
        match rest with
        | [] => .error errSyntax
        | t :: rest' =>
          match argStr t with
          | none => .error badType
          | some tb =>
            match parseI64 tb with
            | none => .error errNotInt
            | some tv =>
              if tv ≤ 0 ∨ ciEqual w (text "EX") ∧ (llongMax / 1000 : Nat) < tv then
                .error (errorReply "ERR invalid expire time in 'set' command")
              else
                let ms := if ciEqual w (text "EX") then tv.toNat * 1000 else tv.toNat
                setOptions rest' { o with ttl := some ms }
      else if ciEqual w (text "KEEPTTL") && !o.keepttl && o.ttl.isNone then
        setOptions rest { o with keepttl := true }
      else if ciEqual w (text "GET") && !o.getOld then
        setOptions rest { o with getOld := true }
      else .error errSyntax

/-- The writing half of SET, after its checks. -/
def setStore (c : Ctx) (k v : Bytes) (o : SetOpts) : Cmd RespValue := do
  let keep ← if o.keepttl then Cmd.ttl c.dbIndex k else pure none
  if !(← Cmd.setKv c.dbIndex k (.str v) false) then return storageLengthError
  match keep with
  | some t => if !(← Cmd.setExpiry c.dbIndex k t false) then return storageLengthError
  | none => pure ()
  match o.ttl with
  | some ms =>
    if !(← Cmd.setExpiry c.dbIndex k (timeAddSaturating c.now ms) false) then
      return storageLengthError
  | none => pure ()
  return okReply

def oldReply : Option Obj → RespValue
  | some (.str b) => bulk b
  | some _ => wrongType
  | none => nullBulk

def setBody (c : Ctx) (k v : Bytes) (o : SetOpts) : Cmd Outcome := do
  let old ← Cmd.get c.dbIndex k
  match old with
  | some (.list _ _) | some (.boxed _ _) | some (.tier _ _) => reply wrongType
  | _ =>
    if (o.nx && old.isSome) || (o.xx && old.isNone) then reply nullBulk
    else
      let shown := if o.getOld then [oldReply old] else []
      if ← Cmd.oom c.dbIndex then return ⟨shown ++ [oomError], .none⟩
      let res ← setStore c k v o
      return ⟨if o.getOld then shown else [res], .none⟩

def setCommand (c : Ctx) : Cmd Outcome :=
  if c.argv.length < 3 then reply (wrongArgs "set")
  else
    match argAt c.argv 1, argAt c.argv 2 with
    | some k, some v =>
      if !storageStringOk k v then reply storageLengthError
      else
        match setOptions (c.argv.drop 3) {} with
        | .error err => reply err
        | .ok o => setBody c k v o
    | _, _ => reply badType

/-- The loop of DEL; an argument that is no string ends it with an error. -/
def delLoop (c : Ctx) : List RespValue → Nat → Cmd Outcome
  | [], n => reply (.integer n)
  | a :: rest, n =>
    match argStr a with
    | none => reply badType
    | some k => do
      Cmd.expire c.dbIndex k
      let existed ← Cmd.delKv c.dbIndex k false
      delLoop c rest (n + existed.toNat)

def delCommand (c : Ctx) : Cmd Outcome :=
  if c.argv.length < 2 then reply (wrongArgs "del")
  else if crossslotReject c then reply crossSlot
  else delLoop c c.argv.tail 0

def moveCommand (c : Ctx) : Cmd Outcome :=
  if c.argv.length ≠ 3 then reply (wrongArgs "move")
  else if crossslotReject c then reply crossSlot
  else
    match argAt c.argv 1, dbIndexArg c 2 with
    | none, _ => reply badType
    | _, .error err => reply err
    | some k, .ok t =>
      if t = c.dbIndex then reply (errorReply "ERR source and destination objects are the same")
      else if uint32Max < k.length then reply storageLengthError
      else do
        Cmd.expire c.dbIndex k
        Cmd.expire t k
        match ← Cmd.peek c.dbIndex k with
        | none => reply (.integer 0)
        | some v =>
          if (← Cmd.peek t k).isSome then reply (.integer 0)
          else if ← Cmd.oom t then reply oomError
          else if !(← Cmd.setKv t k v false) then reply storageLengthError
          else
            match ← Cmd.ttl c.dbIndex k with
            | some e => let _ ← Cmd.setExpiry t k e false
            | none => pure ()
            let _ ← Cmd.delKv c.dbIndex k true
            reply (.integer 1)

/-- The common end of RENAME and MOVE: store the value under the destination, carry
the expiry over, drop the source and keep its object. -/
def transfer (i : Nat) (sk : Bytes) (j : Nat) (dk : Bytes) (v : Obj) (done : RespValue) :
    Cmd Outcome := do
  if ← Cmd.oom j then reply oomError
  else if !(← Cmd.setKv j dk v false) then reply storageLengthError
  else
    match ← Cmd.ttl i sk with
    | some e => let _ ← Cmd.setExpiry j dk e false
    | none => pure ()
    let _ ← Cmd.delKv i sk true
    reply done

/-- Lazy expiry of the source and, where it is another key, of the destination. -/
def expireBoth (i : Nat) (sk dk : Bytes) : Cmd Unit :=
  if sk = dk then Cmd.expire i sk
  else do
    Cmd.expire i sk
    Cmd.expire i dk

def destTaken (i : Nat) (dk : Bytes) (nx : Bool) : Cmd Bool :=
  if nx then do return (← Cmd.peek i dk).isSome else pure false

def renameKey (i : Nat) (sk dk : Bytes) (nx : Bool) : Cmd Outcome := do
  expireBoth i sk dk
  match ← Cmd.peek i sk with
  | none => reply (errorReply "ERR no such key")
  | some v =>
    if sk = dk then reply (errorReply "ERR source and destination objects are the same")
    else if ← destTaken i dk nx then reply (.integer 0)
    else transfer i sk i dk v (if nx then .integer 1 else okReply)

def renameOrNx (c : Ctx) (name : String) (nx : Bool) : Cmd Outcome :=
  if c.argv.length ≠ 3 then reply (wrongArgs name)
  else if crossslotReject c then reply crossSlot
  else
    match argAt c.argv 1, argAt c.argv 2 with
    | some sk, some dk =>
      if uint32Max < sk.length ∨ uint32Max < dk.length then reply storageLengthError
      else renameKey c.dbIndex sk dk nx
    | _, _ => reply badType

def renameCommand (c : Ctx) : Cmd Outcome := renameOrNx c "rename" false

def renamenxCommand (c : Ctx) : Cmd Outcome := renameOrNx c "renamenx" true

/-! ## Expiry -/

structure ExpireFlags where
  nx : Bool := false
  xx : Bool := false
  gt : Bool := false
  lt : Bool := false
deriving DecidableEq

def expireFlags : List RespValue → ExpireFlags → Except RespValue ExpireFlags
  | [], f => .ok f
  | a :: rest, f =>
    match argStr a with
    | none => .error badType
    | some w =>
      if ciEqual w (text "NX") && !f.nx && !f.xx then expireFlags rest { f with nx := true }
      else if ciEqual w (text "XX") && !f.nx && !f.xx then expireFlags rest { f with xx := true }
      else if ciEqual w (text "GT") && !f.gt && !f.lt then expireFlags rest { f with gt := true }
      else if ciEqual w (text "LT") && !f.gt && !f.lt then expireFlags rest { f with lt := true }
      else .error errSyntax

def ExpireFlags.refuses (f : ExpireFlags) (cur : Option Nat) (exp : Int) : Bool :=
  (f.nx && cur.isSome) || (f.xx && cur.isNone) ||
    (f.gt && cur.any fun t => exp ≤ t) || (f.lt && cur.all fun t => (t : Int) ≤ exp)

/-- `cmd_expire` once its arguments are parsed and the key found. The expiry is
read only when a flag asks for it. -/
def expireBody (c : Ctx) (k : Bytes) (f : ExpireFlags) (exp : Int) : Cmd Outcome := do
  let refused ←
    if f = {} then pure false
    else do pure (f.refuses (← Cmd.ttl c.dbIndex k) exp)
  if refused then reply (.integer 0)
  else if exp ≤ c.now then
    let _ ← Cmd.delKv c.dbIndex k false
    reply (.integer 1)
  else if !(← Cmd.setExpiry c.dbIndex k exp.toNat false) then reply storageLengthError
  else reply (.integer 1)

/-- `base + tv * scale` in 64 bits. Only a positive argument is guarded, so a product far
below zero wraps around. -/
def wrappedInstant (base tv : Int) (scale : Nat) : Int := Int.bmod (base + tv * scale) (2 ^ 64)

def cmdExpire (c : Ctx) (scale : Nat) (absolute : Bool) (name : String) : Cmd Outcome :=
  if c.argv.length < 3 ∨ 7 < c.argv.length then reply (wrongArgs name)
  else
    match argAt c.argv 1, argAt c.argv 2 with
    | some k, some t =>
      if uint32Max < k.length then reply storageLengthError
      else
        match parseI64 t with
        | none => reply errNotInt
        | some tv =>
          match expireFlags (c.argv.drop 3) {} with
          | .error err => reply err
          | .ok f => do
            match ← Cmd.get c.dbIndex k with
            | none => reply (.integer 0)
            | some _ =>
              let base : Int := if absolute then 0 else c.now
              if 0 < tv ∧ ((llongMax : Int) - base).tdiv scale < tv then
                reply (errorReply ("ERR invalid expire time in '" ++ name ++ "' command"))
              else expireBody c k f (wrappedInstant base tv scale)
    | _, _ => reply badType

def expireCommand (c : Ctx) : Cmd Outcome := cmdExpire c 1000 false "expire"
def pexpireCommand (c : Ctx) : Cmd Outcome := cmdExpire c 1 false "pexpire"
def expireatCommand (c : Ctx) : Cmd Outcome := cmdExpire c 1000 true "expireat"
def pexpireatCommand (c : Ctx) : Cmd Outcome := cmdExpire c 1 true "pexpireat"

def persistCommand (c : Ctx) : Cmd Outcome :=
  if c.argv.length ≠ 2 then reply (wrongArgs "persist")
  else
    match argAt c.argv 1 with
    | none => reply badType
    | some k => do
      Cmd.expire c.dbIndex k
      reply (.integer (← Cmd.clearExpiry c.dbIndex k false).toNat)

/-! ## Lists -/

def getList (H : Host) (c : Ctx) (k : Bytes) (create : Bool) :
    Cmd (Except RespValue (Option (List Bytes))) := do
  match ← Cmd.get c.dbIndex k with
  | some (.list items _) => return .ok (some items)
  | some _ => return .error wrongType
  | none =>
    if !create then return .ok none
    else if ← Cmd.setKv c.dbIndex k (.list [] (H.listMem [])) false then return .ok (some [])
    else return .error storageLengthError

def putList (H : Host) (c : Ctx) (k : Bytes) (items : List Bytes) : Cmd Unit :=
  Cmd.edit c.dbIndex k (.list items (H.listMem items)) true

/-- Write back what a pop left; an empty list takes its key with it. -/
def popStore (H : Host) (c : Ctx) (k : Bytes) (items : List Bytes) : Cmd Unit := do
  putList H c k items
  if items = [] then let _ ← Cmd.delKv c.dbIndex k false

def pushItems (left : Bool) (vals items : List Bytes) : List Bytes :=
  if left then vals.reverse ++ items else items ++ vals

/-- `n` elements from one end, in the order they are popped, and what stays. -/
def popItems (left : Bool) (n : Nat) (items : List Bytes) : List Bytes × List Bytes :=
  if left then (items.take n, items.drop n)
  else ((items.reverse.take n), (items.reverse.drop n).reverse)

def pushArgs : List RespValue → Except RespValue (List Bytes)
  | [] => .ok []
  | a :: rest =>
    match argStr a with
    | none => .error badType
    | some v =>
      if uint32Max < v.length then .error storageLengthError
      else (pushArgs rest).map (v :: ·)

def pushCommand (H : Host) (c : Ctx) (left onlyIfExists : Bool) (name : String) : Cmd Outcome :=
  if c.argv.length < 3 then reply (wrongArgs name)
  else
    match argAt c.argv 1 with
    | none => reply badType
    | some k =>
      if uint32Max < k.length then reply storageLengthError
      else
        match pushArgs (c.argv.drop 2) with
        | .error err => reply err
        | .ok vals => do
          if ← Cmd.oom c.dbIndex then reply oomError
          else
            match ← getList H c k !onlyIfExists with
            | .error err => reply err
            | .ok none => reply (.integer 0)
            | .ok (some items) =>
              putList H c k (pushItems left vals items)
              reply (.integer (items.length + vals.length))

def lpushCommand (H : Host) (c : Ctx) : Cmd Outcome := pushCommand H c true false "lpush"
def rpushCommand (H : Host) (c : Ctx) : Cmd Outcome := pushCommand H c false false "rpush"
def lpushxCommand (H : Host) (c : Ctx) : Cmd Outcome := pushCommand H c true true "lpushx"
def rpushxCommand (H : Host) (c : Ctx) : Cmd Outcome := pushCommand H c false true "rpushx"

def popCount (c : Ctx) : Except RespValue (Option Nat) :=
  match c.argv[2]? with
  | none => .ok none
  | some v =>
    match argStr v with
    | none => .error badType
    | some b =>
      match parseI64 b with
      | none => .error errNotInt
      | some n =>
        if n ≤ 0 then .error (errorReply "ERR value is out of range, must be positive")
        else .ok (some n.toNat)

def popCommand (H : Host) (c : Ctx) (left : Bool) (name : String) : Cmd Outcome :=
  if c.argv.length ≠ 2 ∧ c.argv.length ≠ 3 then reply (wrongArgs name)
  else
    match argAt c.argv 1, popCount c with
    | none, _ => reply badType
    | _, .error err => reply err
    | some k, .ok count => do
      match ← getList H c k false with
      | .error err => reply err
      | .ok none => reply (if count.isSome then nullArray else nullBulk)
      | .ok (some items) =>
        match count with
        | some n =>
          let (out, rest) := popItems left n items
          popStore H c k rest
          reply (.array (out.map bulk) false)
        | none =>
          match popItems left 1 items with
          | (x :: _, rest) =>
            popStore H c k rest
            reply (bulk x)
          | ([], _) => reply nullBulk

def lpopCommand (H : Host) (c : Ctx) : Cmd Outcome := popCommand H c true "lpop"
def rpopCommand (H : Host) (c : Ctx) : Cmd Outcome := popCommand H c false "rpop"

/-! ## Blocking commands -/

/-- What `blocking_pop_try` reports: replies written, or nothing ready. -/
inductive Ready
  | replied (vs : List RespValue)
  | wait (deadline : Nat)

def blockingParseTimeout (H : Host) (c : Ctx) (pos : Nat) : Except RespValue Nat :=
  match (argAt c.argv pos).map H.timeout with
  | none | some .invalid => .error (errorReply "ERR timeout is not a float or out of range")
  | some .negative => .error (errorReply "ERR timeout is negative")
  | some .forever => .ok 0
  | some (.after ms) => .ok (timeAddSaturating c.now ms)

def blockingFirstList (H : Host) (c : Ctx) : List RespValue →
    Cmd (Except RespValue (Option (Bytes × List Bytes)))
  | [] => pure (.ok none)
  | a :: rest =>
    match argStr a with
    | none => pure (.error badType)
    | some k => do
      match ← getList H c k false with
      | .error err => pure (.error err)
      | .ok (some (x :: xs)) => pure (.ok (some (k, x :: xs)))
      | _ => blockingFirstList H c rest

def blpopTry (H : Host) (c : Ctx) (left : Bool) (name : String) : Cmd Ready :=
  let argc := c.argv.length
  if argc < 3 then pure (.replied [wrongArgs name])
  else
    match blockingParseTimeout H c (argc - 1) with
    | .error err => pure (.replied [err])
    | .ok deadline => do
      match ← blockingFirstList H c ((c.argv.take (argc - 1)).drop 1) with
      | .error err => pure (.replied [err])
      | .ok none => pure (.wait deadline)
      | .ok (some (k, items)) =>
        match popItems left 1 items with
        | (x :: _, rest) =>
          popStore H c k rest
          pure (.replied [.array [bulk k, bulk x] false])
        | ([], _) => pure (.replied [nullBulk])

def listMoveReady (H : Host) (c : Ctx) (sk dk : Bytes) (srcLeft dstLeft : Bool) :
    Cmd (List RespValue) := do
  match ← getList H c sk false with
  | .error err => return [err]
  | .ok none => return [nullBulk]
  | .ok (some src) =>
    match popItems srcLeft 1 src with
    | ([], _) => return [nullBulk]
    | (x :: _, rest) =>
      if sk = dk then
        popStore H c sk (pushItems dstLeft [x] rest)
        return [bulk x]
      else
        match ← getList H c dk false with
        | .error err => return [err]
        | .ok (some dst) =>
          putList H c dk (pushItems dstLeft [x] dst)
          popStore H c sk rest
          return [bulk x]
        | .ok none =>
          if ← Cmd.oom c.dbIndex then return [oomError]
          match ← getList H c dk true with
          | .error err => return [err]
          | .ok created =>
            putList H c dk (pushItems dstLeft [x] (created.getD []))
            popStore H c sk rest
            return [bulk x]

def sideArg (v : Option Bytes) : Except RespValue Bool :=
  match v with
  | none => .error badType
  | some w =>
    if ciEqual w (text "LEFT") then .ok true
    else if ciEqual w (text "RIGHT") then .ok false
    else .error errSyntax

def blmoveTry (H : Host) (c : Ctx) (srcLeft dstLeft : Bool) : Cmd Ready :=
  match argAt c.argv 1, argAt c.argv 2 with
  | some sk, some dk =>
    if uint32Max < sk.length ∨ uint32Max < dk.length then pure (.replied [storageLengthError])
    else
      match blockingParseTimeout H c (c.argv.length - 1) with
      | .error err => pure (.replied [err])
      | .ok deadline => do
        match ← getList H c sk false with
        | .error err => pure (.replied [err])
        | .ok none | .ok (some []) => pure (.wait deadline)
        | .ok (some _) => return .replied (← listMoveReady H c sk dk srcLeft dstLeft)
  | _, _ => pure (.replied [badType])

/-- The COUNT trailer of BLMPOP at `pos`. -/
def mpopCount (c : Ctx) (pos : Nat) : Except RespValue Nat :=
  if c.argv.length ≤ pos then .ok 1
  else if c.argv.length ≠ pos + 2 then .error (wrongArgs "blmpop")
  else
    match argAt c.argv pos with
    | none => .error badType
    | some w =>
      if !ciEqual w (text "COUNT") then .error errSyntax
      else
        match c.argv[pos + 1]?.bind cmdParseLl with
        | none => .error errNotInt
        | some n =>
          if n ≤ 0 then .error (errorReply "ERR value is out of range, must be positive")
          else .ok n.toNat

def blmpopTry (H : Host) (c : Ctx) : Cmd Ready :=
  if c.argv.length < 5 then pure (.replied [wrongArgs "blmpop"])
  else
    match blockingParseTimeout H c 1, c.argv[2]?.bind cmdParseLl with
    | .error err, _ => pure (.replied [err])
    | _, none => pure (.replied [errNotInt])
    | .ok deadline, some nk =>
      if nk ≤ 0 ∨ ((c.argv.length - 4 : Nat) : Int) < nk then
        pure (.replied [errorReply "ERR Number of keys can't be greater than number of args"])
      else
        let dir := 3 + nk.toNat
        match sideArg (argAt c.argv dir), mpopCount c (dir + 1) with
        | .error err, _ | _, .error err => pure (.replied [err])
        | .ok left, .ok count => do
          match ← blockingFirstList H c ((c.argv.take dir).drop 3) with
          | .error err => pure (.replied [err])
          | .ok none => pure (.wait deadline)
          | .ok (some (k, items)) =>
            let (out, rest) := popItems left count items
            popStore H c k rest
            pure (.replied [.array [bulk k, .array (out.map bulk) false] false])

/-- `blocking_pop_try`, for the list commands; the others are the host's. -/
def blockingPopTry (H : Host) (id : CmdId) (c : Ctx) : Cmd Ready :=
  match id with
  | .blpop => blpopTry H c true "blpop"
  | .brpop => blpopTry H c false "brpop"
  | .brpoplpush =>
    if c.argv.length ≠ 4 then pure (.replied [wrongArgs "brpoplpush"])
    else blmoveTry H c false true
  | .blmove =>
    if c.argv.length ≠ 6 then pure (.replied [wrongArgs "blmove"])
    else if (argAt c.argv 1).isNone ∨ (argAt c.argv 2).isNone ∨ (argAt c.argv 4).isNone then
      pure (.replied [badType])
    else
      match sideArg (argAt c.argv 3), sideArg (argAt c.argv 4) with
      | .ok src, .ok dst => blmoveTry H c src dst
      | .error err, _ | _, .error err => pure (.replied [err])
  | .blmpop => blmpopTry H c
  | _ => do
    match ← H.retry id c with
    | some vs => pure (.replied vs)
    | none => pure (.wait 0)

/-- A blocking list command: served at once, or the session blocks. -/
def blockingCommand (H : Host) (id : CmdId) (c : Ctx) : Cmd Outcome := do
  match ← blockingPopTry H id c with
  | .replied vs => return ⟨vs, .none⟩
  | .wait deadline => return ⟨[], .block deadline⟩

end Ddup.Server
