/-
Ddup.Server.Session — `session_execute_at_raw` with its transaction commands and
its short paths for GET and SET, `exec_transaction`, and eviction. The reply of
EXEC is one array of what its commands wrote.
-/
import Ddup.Server.Execute

namespace Ddup.Server

open Ddup.Resp Ddup.Command Ddup.Store Ddup.Acl

/-! ## Eviction -/

/-- The loop of `db_evict_if_needed`. Every round removes a key or turns a hot
value cold, so twice the number of keys bounds it. -/
def evictLoop (H : Host) (now : Nat) : Nat → Exec → Exec
  | 0, e => e
  | fuel + 1, e =>
    if e.db.maxmemory < e.db.usedMemory ∧ 0 < e.db.table.keys.card then
      match H.victim e.db with
      | none => e
      | some k =>
        if k ∈ e.db.table then
          let r := dbEvictOne e.db k
          let e' := (e.emit [.evicted e.s.dbIndex k]).commit now e.s.dbIndex k r.1
          if r.2 then evictLoop H now fuel e' else e'
        else e
    else e

def evictIfNeeded (H : Host) (now : Nat) (e : Exec) : Exec :=
  if e.db.policy = .allkeysLru ∧ e.db.maxmemory ≠ 0 then
    evictLoop H now (2 * e.db.table.keys.card + 1) e
  else e

/-! ## Transactions -/

def watchesHold (e : Exec) : Bool := e.s.watches.all e.untripped

def queueOneSlot : List (List RespValue) → Option Nat → Bool
  | [], _ => true
  | argv :: rest, slot =>
    let r := cmdKeysAccum argv slot
    r.1 && queueOneSlot rest r.2

/-- The loop of EXEC over the queue: replies, the requests to log, and the state. -/
def execLoop (H : Host) (now : Nat) : List (List RespValue) → Exec →
    List RespValue × List (List RespValue) × Exec
  | [], e => ([], [], e)
  | argv :: rest, e =>
    let r := commandDispatch H now argv e
    let logged := if r.2.s.aofSkip then [] else [argv]
    let q := execLoop H now rest (r.2.setS { r.2.s with aofSkip := false })
    (r.1 ++ q.1, logged ++ q.2.1, q.2.2)

def logAll (now : Nat) : List (List RespValue) → Exec → Exec
  | [], e => e
  | argv :: rest, e => logAll now rest (e.aofLog argv none now)

/-- The queue of a transaction whose checks have passed, up to the logging. -/
def execQueue (H : Host) (now : Nat) (e : Exec) : List RespValue × Exec :=
  let r := execLoop H now e.s.queue { e with origin := .queued }
  let e' := { r.2.2 with origin := e.origin }
  (r.1, if e'.db.dirty ≠ e.db.dirty then logAll now r.2.1 e' else e')

def Exec.endMulti (e : Exec) : Exec :=
  let e' := e.watchClear
  e'.setS { e'.s with
    queue := []
    inMulti := false
    multiError := false }

def execTransaction (H : Host) (now : Nat) (e : Exec) : List RespValue × Exec :=
  if e.s.multiError then
    ([errorReply "EXECABORT Transaction discarded because of previous errors."], e.endMulti)
  else if !watchesHold e then ([nullArray], e.endMulti)
  else if e.db.clusterEnabled && !queueOneSlot e.s.queue none then ([crossSlot], e.endMulti)
  else
    let r := execQueue H now e
    ([.array r.1 false], (evictIfNeeded H now r.2).endMulti)

def isExecReply : List RespValue → Bool
  | [.array _ false] => true
  | _ => false

/-- `queue_validate`: an error reply, or the request can be queued. -/
def queueValidate (argv : List RespValue) : Option RespValue :=
  match argAt argv 0 with
  | none => some (errorReply "ERR invalid command name")
  | some name =>
    match cmdTableEntry (cmdResolve name) with
    | none => some (.error (.view (text "ERR unknown command '" ++ name.take 96 ++ text "'")))
    | some ce =>
      let argc := argv.length
      if argc < ce.minArgc ∨ ce.maxArgc.any (· < argc) ∨ (ce.parity = 1 ∧ argc % 2 = 0)
          ∨ (ce.parity = 2 ∧ argc % 2 = 1) then some (wrongArgs ce.name)
      else none

def queueRequest (argv : List RespValue) (e : Exec) : List RespValue × Exec :=
  match queueValidate argv with
  | some err => ([err], e.setS { e.s with multiError := true })
  | none =>
    if argv.all copyable then
      ([.simpleString (.view (text "QUEUED"))], e.setS { e.s with queue := e.s.queue ++ [argv] })
    else ([errorReply "ERR command is too large"], e)

def watchLoop (now : Nat) : List RespValue → Exec → List RespValue × Exec
  | [], e => ([okReply], e)
  | a :: rest, e =>
    match argStr a with
    | none => ([badType], e)
    | some k => watchLoop now rest (e.watchAdd now k)

def watchCommand (H : Host) (now : Nat) (argv : List RespValue) (e : Exec) :
    List RespValue × Exec :=
  if argv.length < 2 then ([wrongArgs "watch"], e)
  else if e.s.inMulti then ([errorReply "ERR WATCH inside MULTI is not allowed"], e)
  else if crossslotReject (e.ctx argv now) then ([crossSlot], e)
  else
    let r := runCmd now (ownershipCheck H (e.ctx argv now)) e
    match r.1 with
    | some err => ([err], r.2)
    | none => watchLoop now argv.tail r.2

def resetCommand (argv : List RespValue) (e : Exec) : List RespValue × Exec :=
  if argv.length ≠ 1 then ([wrongArgs "reset"], e)
  else
    let e' := e.endMulti
    ([.simpleString (.view (text "RESET"))], e'.setS { e'.s with dbIndex := 0 })

/-! ## `session_execute_at_raw` -/

/-- `session_acl_refresh`: a user whose generation moved on is logged out. -/
def aclRefresh (e : Exec) : Exec :=
  match e.s.user with
  | none => e
  | some u =>
    if (e.users u).generation = e.s.aclGeneration then e
    else
      e.setS { e.s with
        user := none
        aclGeneration := 0
        authed := false }

def aclRefuses (id : CmdId) (argv : List RespValue) (e : Exec) : Bool :=
  id ≠ .auth && e.s.aclCtx && e.s.user.any fun u => !aclAuthorize (e.users u) id argv

/-- A session no path below treats specially. -/
def isPlainSession (e : Exec) : Bool :=
  e.s.authed && !e.s.inMulti && e.s.nsub == 0 && e.s.nssub == 0 && e.s.npsub == 0
    && !e.db.clusterEnabled

def tierIoReply : RespValue := errorReply "ERR tiered storage I/O error"

def leanRead (id : CmdId) (argv : List RespValue) (i : Nat) (k : Bytes) : Cmd (Option Obj) := do
  Cmd.enter id argv
  Cmd.get i k

def leanGet (H : Host) (now : Nat) (argv : List RespValue) (e : Exec) : List RespValue × Exec :=
  if argv.length ≠ 2 then ([wrongArgs "get"], e)
  else
    match argAt argv 1 with
    | none => ([badType], e)
    | some k =>
      let r := runCmd now (leanRead .get argv e.s.dbIndex k) e
      match r.1 with
      | some (.str b) => ([bulk b], evictIfNeeded H now r.2)
      | some _ => ([wrongType], r.2)
      | none =>
        if r.2.db.tierIoError then ([tierIoReply], r.2)
        else ([nullBulk], evictIfNeeded H now r.2)

def leanSetWrite (i : Nat) (k v : Bytes) : Cmd (Except RespValue Unit) := do
  if ← Cmd.oom i then return .error oomError
  if ← Cmd.setKv i k (.str v) false then return .ok () else return .error storageLengthError

/-- The tail of a request that ran: log it if the database it left selected has
another dirty count than the one it started on, then evict. -/
def logAndEvict (H : Host) (now : Nat) (argv : List RespValue) (dirtyBefore : Nat) (e : Exec) :
    Exec :=
  let e' := if e.db.dirty ≠ dirtyBefore ∧ !e.s.aofSkip then e.aofLog argv e.s.rawCmd now else e
  evictIfNeeded H now (e'.setS { e'.s with aofSkip := false })

def leanSet (H : Host) (now : Nat) (argv : List RespValue) (e : Exec) : List RespValue × Exec :=
  match argAt argv 1, argAt argv 2 with
  | some k, some v =>
    if !storageStringOk k v then ([storageLengthError], e)
    else
      let r := runCmd now (leanRead .set argv e.s.dbIndex k) e
      match r.1 with
      | some (.list _ _) | some (.boxed _ _) | some (.tier _ _) => ([wrongType], r.2)
      | _ =>
        if r.2.db.tierIoError then ([tierIoReply], r.2)
        else
          let w := runCmd now (leanSetWrite e.s.dbIndex k v) r.2
          match w.1 with
          | .error err => ([err], w.2)
          | .ok () => ([okReply], logAndEvict H now argv e.db.dirty w.2)
  | _, _ => ([badType], e)

def allowedSubscribed (id : CmdId) : Bool :=
  id ∈ [CmdId.subscribe, .unsubscribe, .ssubscribe, .sunsubscribe, .psubscribe, .punsubscribe,
    .ping, .quit, .reset, .shutdown]

def subscribedError (name : Bytes) : RespValue :=
  .error (.view (text "ERR Can't execute '"
    ++ (name.take 31).map (fun c => if 65 ≤ c ∧ c ≤ 90 then c + 32 else c)
    ++ text "': only (P)SUBSCRIBE / (P)UNSUBSCRIBE / PING / QUIT / SHUTDOWN are allowed in "
    ++ text "this context"))

def generalRequest (H : Host) (now : Nat) (argv : List RespValue) (dirtyBefore : Nat)
    (e : Exec) : List RespValue × Exec :=
  let r := commandDispatch H now argv e
  if r.2.db.tierIoError then ([tierIoReply], r.2)
  else (r.1, logAndEvict H now argv dirtyBefore r.2)

def runRequest (H : Host) (now : Nat) (name : Option Bytes) (id : CmdId)
    (argv : List RespValue) (e : Exec) : List RespValue × Exec :=
  let arity (cmd : String) (k : List RespValue × Exec) :=
    if argv.length ≠ 1 then ([wrongArgs cmd], e) else k
  if id = .get ∧ isPlainSession e then leanGet H now argv e
  else if id = .set ∧ argv.length = 3 ∧ isPlainSession e ∧ (!e.replica ∨ e.s.replLink) then
    leanSet H now argv e
  else if (0 < e.s.nsub ∨ 0 < e.s.nssub ∨ 0 < e.s.npsub) ∧ name.isSome
      ∧ !allowedSubscribed id then
    ([subscribedError (name.getD [])], e)
  else
    match name, id with
    | some _, .multi =>
      arity "multi" (if e.s.inMulti then ([errorReply "ERR MULTI calls can not be nested"], e)
        else ([okReply], e.setS { e.s with
          inMulti := true
          multiError := false }))
    | some _, .exec =>
      arity "exec" (if !e.s.inMulti then ([errorReply "ERR EXEC without MULTI"], e)
        else execTransaction H now e)
    | some _, .discard =>
      arity "discard" (if !e.s.inMulti then ([errorReply "ERR DISCARD without MULTI"], e)
        else ([okReply], e.endMulti))
    | some _, .reset => resetCommand argv e
    | some _, .watch => watchCommand H now argv e
    | some _, _ =>
      if e.s.inMulti then queueRequest argv e else generalRequest H now argv e.db.dirty e
    | none, _ => generalRequest H now argv e.db.dirty e

/-- What a request starts with: the error flag of its database is cleared and the
session's user checked. -/
def startRequest (e : Exec) : Exec :=
  let d := e.db
  aclRefresh (e.setDb e.s.dbIndex { d with tierIoError := false })

def noAuth (argv : List RespValue) (e : Exec) : Bool :=
  !e.s.authed && (argAt argv 0).isSome && argvCmd argv ∉ [CmdId.auth, .quit, .reset, .hello]

def sessionExecuteAtRaw (H : Host) (now : Nat) (argv : List RespValue) (e : Exec) :
    List RespValue × Exec :=
  let e := startRequest e
  if noAuth argv e then ([errorReply "NOAUTH Authentication required."], e)
  else if (argAt argv 0).isSome ∧ aclRefuses (argvCmd argv) argv e then
    ([errorReply
      "NOPERM this user has no permissions to run the command or access the key"], e)
  else runRequest H now (argAt argv 0) (argvCmd argv) argv e

end Ddup.Server
