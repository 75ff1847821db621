/-
Ddup.Server.Execute — the watch list of a session, what a handler's outcome does
to its session, `command_dispatch`, and the script bridge.

Replies are the values written to the output buffer, in order.
-/
import Ddup.Server.Handlers

namespace Ddup.Server

open Ddup.Resp Ddup.Command Ddup.Store Ddup.Acl

/-! ## Session state -/

namespace Exec

def unref (dbs : Nat → Db) (w : Watch) : Nat → Db :=
  let d := dbs w.dbIndex
  Function.update dbs w.dbIndex { d with watchRefs := d.watchRefs - 1 }

def watchClear (e : Exec) : Exec :=
  { e with
    dbs := e.s.watches.foldl unref e.dbs
    s := { e.s with watches := [] } }

/-- `session_watch_add` with the version and epoch WATCH reads for it. -/
def watchAdd (e : Exec) (now : Nat) (k : Bytes) : Exec :=
  let d := e.db
  let w : Watch := ⟨k, dbKeyVersion d k, d.flushEpoch, e.s.dbIndex, d.entry k, now⟩
  { e with
    dbs := Function.update e.dbs e.s.dbIndex { d with watchRefs := d.watchRefs + 1 }
    s := { e.s with watches := e.s.watches ++ [w] } }

def aofLog (e : Exec) (argv : List RespValue) (raw : Option Bytes) (now : Nat) : Exec :=
  if e.s.aofLog then { e with log := e.log ++ [⟨e.s.dbIndex, argv, raw, now⟩] } else e

/-- The databases after `a` and `b` have changed places: contents and bookkeeping
move, then both epochs count on. -/
def exchanged (dbs : Nat → Db) (a b : Nat) : Nat → Db :=
  let bump (d : Db) : Db := { d with flushEpoch := d.flushEpoch + 1 }
  Function.update (Function.update dbs a (bump (dbs b))) b (bump (dbs a))

/-- Whether the watch count and the epoch of index `j` cover the watches held on
index `i`. -/
def covers (e : Exec) (i j : Nat) : Bool :=
  decide (e.watchCount i ≤ (e.dbs j).watchRefs) &&
    decide ((e.watches.filter fun w => w.dbIndex = i ∧ (e.dbs j).flushEpoch < w.epoch).card = 0)

/-- SWAPDB: the exchange, after which the session's own database counts as dirty. -/
def swapDbs (e : Exec) (a b : Nat) : Exec :=
  if a = b then e
  else
    let dbs := exchanged e.dbs a b
    let dbs' := Function.update dbs e.s.dbIndex (markDirty (dbs e.s.dbIndex))
    { e.emit [.swapped a b (e.dbs a).watchRefs (e.dbs b).watchRefs
        (e.covers a b && e.covers b a) (dbs' e.s.dbIndex).dirty] with
      dbs := dbs' }

end Exec

/-- An argument whose view the queue and the blocked request can copy. -/
def copyable : RespValue → Bool
  | .simpleString (.null (_ + 1)) | .error (.null (_ + 1)) | .bulkString (.null (_ + 1))
  | .bigNumber (.null (_ + 1)) | .blobError (.null (_ + 1))
  | .verbatimString (.null (_ + 1)) => false
  | _ => true

/-- What a handler's outcome does to its session, and the replies. -/
def applyEffect (id : CmdId) (argv : List RespValue) (o : Outcome) (e : Exec) :
    List RespValue × Exec :=
  match o.effect with
  | .none => (o.replies, e)
  | .block deadline =>
    if argv.all copyable then
      (o.replies, e.setS { e.s with blocked := some ⟨id, argv, deadline⟩ })
    else ([errorReply "ERR out of memory"], e)
  | .acl user rules =>
    (o.replies, { e.emit [.aclChanged user] with users := Function.update e.users user rules })
  | .login name password =>
    if !e.s.aclCtx then ([errorReply "ERR Client sent AUTH, but no password is set"], e)
    else
      match e.auth name password with
      | none => ([errorReply "WRONGPASS invalid username-password pair or user is disabled."], e)
      | some u =>
        (o.replies, (e.emit [.login e.origin]).setS
          { e.s with
            user := some u
            aclGeneration := (e.users u).generation
            authed := true })
  | .select i => (o.replies, e.setS { e.s with dbIndex := i })
  | .swap a b => (o.replies, e.swapDbs a b)
  | .unwatch => (o.replies, e.watchClear)

/-! ## `command_dispatch` -/

def isScriptCmd (id : CmdId) : Bool :=
  id ∈ [CmdId.eval, .evalsha, .evalRo, .evalshaRo, .fcall, .fcallRo]

def HostEffect.toEffect : HostEffect → Effect
  | .none => .none
  | .block deadline => .block deadline
  | .acl user rules => .acl user rules

def commandBody (H : Host) (id : CmdId) (c : Ctx) : Cmd Outcome :=
  match id with
  | .select => selectCommand c
  | .swapdb => swapdbCommand c
  | .unwatch => unwatchCommand c
  | .auth => authCommand c
  | .flushdb => flushdbCommand c
  | .flushall => flushallCommand c
  | .get => getCommand c
  | .set => setCommand c
  | .del | .unlink => delCommand c
  | .move => moveCommand c
  | .rename => renameCommand c
  | .renamenx => renamenxCommand c
  | .expire => expireCommand c
  | .pexpire => pexpireCommand c
  | .expireat => expireatCommand c
  | .pexpireat => pexpireatCommand c
  | .persist => persistCommand c
  | .lpush => lpushCommand H c
  | .rpush => rpushCommand H c
  | .lpushx => lpushxCommand H c
  | .rpushx => rpushxCommand H c
  | .lpop => lpopCommand H c
  | .rpop => rpopCommand H c
  | .blpop | .brpop | .brpoplpush | .blmove | .blmpop => blockingCommand H id c
  | _ => do
    let (vs, eff) ← H.handler id c
    return ⟨vs, eff.toEffect⟩

def scriptName : CmdId → String
  | .evalsha => "evalsha"
  | .evalRo => "eval_ro"
  | .evalshaRo => "evalsha_ro"
  | .fcall => "fcall"
  | .fcallRo => "fcall_ro"
  | _ => "eval"

def notFromScripts : RespValue :=
  errorReply "ERR This Redis command is not allowed from scripts"

def ownershipCheck (H : Host) (c : Ctx) : Cmd (Option RespValue) :=
  if c.cluster then H.ownership c else pure none

/-- A command from the ownership check on. A script command gets here only from
inside a script, where it is refused. -/
def plainCmd (H : Host) (id : CmdId) (c : Ctx) : Cmd Outcome := do
  match ← ownershipCheck H c with
  | some err => reply err
  | none =>
    Cmd.enter id c.argv
    if isScriptCmd id then
      reply (if c.argv.length < 3 then wrongArgs (scriptName id) else notFromScripts)
    else commandBody H id c

def Exec.ctx (e : Exec) (argv : List RespValue) (now : Nat) : Ctx :=
  ⟨argv, now, e.s.dbIndex, e.ndbs, e.db.clusterEnabled⟩

def runPlain (H : Host) (now : Nat) (id : CmdId) (argv : List RespValue) (e : Exec) :
    List RespValue × Exec :=
  let r := runCmd now (plainCmd H id (e.ctx argv now)) e
  applyEffect id argv r.1 r.2

/-- The write test of the replica check: SORT counts only with STORE. -/
def writeBlocked (id : CmdId) (argv : List RespValue) : Bool :=
  if id = .sort then (argv.drop 2).any (isOption (text "STORE")) else cmdIsWrite id

def readonlyReplica (id : CmdId) (argv : List RespValue) (e : Exec) : Bool :=
  e.replica && !e.s.replLink && writeBlocked id argv

def readonlyError : RespValue :=
  errorReply "READONLY You can't write against a read only replica."

/-- The checks of `lua_redis_generic` in front of the dispatch. -/
def luaRefuses (ro : Bool) (args : List Bytes) (e : Exec) : Option RespValue :=
  match args with
  | [] => some (errorReply "Please specify at least one argument for redis.call()")
  | name :: _ =>
    if 63 < args.length then some (errorReply "too many arguments for redis.call()")
    else if [text "eval", text "script", text "evalsha", text "eval_ro", text "shutdown",
        text "subscribe", text "psubscribe", text "evalsha_ro", text "unsubscribe",
        text "punsubscribe"].any (ciEqual name) then
      some (errorReply "This Redis command is not allowed from scripts")
    else if ro && cmdIsWrite (cmdResolve name) then
      some (errorReply "ERR Write commands are not allowed from read-only scripts.")
    else if readonlyReplica (cmdResolve name) (args.map bulk) e then some readonlyError
    else none

def luaExecute (H : Host) (now : Nat) (args : List Bytes) (e : Exec) : List RespValue × Exec :=
  let argv := args.map bulk
  let r := runPlain H now (cmdResolve (args.headD [])) argv { e with origin := .script }
  let e' := { r.2 with origin := e.origin }
  (r.1, if e'.db.dirty ≠ e.db.dirty then e'.aofLog argv none now else e')

/-- `lua_redis_generic`: one call from a script. -/
def luaRedisCall (H : Host) (now : Nat) (ro : Bool) (args : List Bytes) (e : Exec) :
    List RespValue × Exec :=
  match luaRefuses ro args e with
  | some err => ([err], e)
  | none => luaExecute H now args e

def runScript (H : Host) (now : Nat) (ro : Bool) : Script → Exec → List RespValue × Exec
  | .done vs, e => (vs, e)
  | .call args k, e =>
    let r := luaRedisCall H now ro args e
    runScript H now ro (k r.1) r.2

/-- The argument checks of EVAL and FCALL: FCALL reads its function name before
the key count, EVAL its script after it. -/
def scriptArgs (id : CmdId) (argv : List RespValue) : Option RespValue :=
  let isFcall := id ∈ [CmdId.fcall, .fcallRo]
  if argv.length < 3 then some (wrongArgs (scriptName id))
  else if isFcall ∧ ((argAt argv 1).isNone ∨ (argAt argv 2).isNone) then some badType
  else
    match (argAt argv 2).bind parseI64 with
    | none => some errNotInt
    | some n =>
      if n < 0 then some (errorReply "ERR Number of keys can't be negative")
      else if ((argv.length - 3 : Nat) : Int) < n then
        some (errorReply "ERR Number of keys can't be greater than number of args")
      else if (argAt argv 1).isNone then some badType
      else none

/-- What a script command does before it reads its arguments. -/
def scriptEnter (H : Host) (id : CmdId) (c : Ctx) : Cmd (Option RespValue) := do
  match ← ownershipCheck H c with
  | some err => return some err
  | none =>
    Cmd.enter id c.argv
    return none

/-- EVAL, EVALSHA, FCALL and their read-only forms, from the ownership check on:
the request itself is not logged, its calls are. -/
def scriptCommand (H : Host) (now : Nat) (id : CmdId) (argv : List RespValue) (e : Exec) :
    List RespValue × Exec :=
  let r := runCmd now (scriptEnter H id (e.ctx argv now)) e
  match r.1 with
  | some err => ([err], r.2)
  | none =>
    match scriptArgs id argv with
    | some err => ([err], r.2)
    | none =>
      match H.script id (e.ctx argv now) with
      | .error err => ([err], r.2)
      | .ok script =>
        runScript H now (id ∈ [CmdId.evalRo, .evalshaRo, .fcallRo]) script
          (r.2.setS { r.2.s with aofSkip := true })

def commandDispatch (H : Host) (now : Nat) (argv : List RespValue) (e : Exec) :
    List RespValue × Exec :=
  match argv with
  | [] => ([errorReply "ERR empty command"], e)
  | a :: _ =>
    match argStr a with
    | none => ([errorReply "ERR invalid command name"], e)
    | some name =>
      let id := cmdResolve name
      if readonlyReplica id argv e then ([readonlyError], e)
      else if isScriptCmd id then scriptCommand H now id argv e
      else runPlain H now id argv e

end Ddup.Server
