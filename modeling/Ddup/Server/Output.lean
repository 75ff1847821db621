/-
Ddup.Server.Output — what a request does to the connection's output buffer.

Almost every write of the command layer appends. `tier_io_reply`, DELEX on a value of
the wrong type, SFLUSH and CLUSTER SLOT-STATS SLOTSRANGE set the buffer's length to
zero first: each of them means to replace its own reply, but the buffer holds the
replies of earlier requests too, and inside EXEC the array header and the replies of
the commands before. The functions here follow `session_execute_at_raw` and
`exec_transaction` and give the change of the buffer; the state comes from
`Ddup.Server.Session`. A command called by a script writes to a buffer of its own.
-/
import Ddup.Resp.Reply
import Ddup.Server.Session

namespace Ddup.Server

open Ddup.Resp Ddup.Command Ddup.Store

/-! ## Changes of a buffer -/

/-- The calls that were made since the buffer was last emptied, if it was. -/
structure Written where
  cleared : Bool
  pieces : List Piece

namespace Written

def onto (w : Written) (p : Bytes) : Bytes := (if w.cleared then [] else p) ++ replyBytes w.pieces

def andThen (a b : Written) : Written := if b.cleared then b else ⟨a.cleared, a.pieces ++ b.pieces⟩

end Written

def appended (vs : List RespValue) : Written := ⟨false, piecesOfAll vs⟩

def tierIoWritten : Written := ⟨true, piecesOf tierIoReply⟩

/-! ## The handlers that empty the buffer -/

/-- DELEX with a condition, on a value that is no string. -/
def delexClears (c : Ctx) : Cmd Bool :=
  match c.argv.map argStr with
  | [_, some k, some _, some _] => do
    match ← Cmd.get c.dbIndex k with
    | none | some (.str _) => return false
    | some _ => return true
  | _ => return false

def isSlotRange (a b : RespValue) : Bool :=
  match (argStr a).bind parseI64, (argStr b).bind parseI64 with
  | some first, some last => 0 ≤ first && last < 16384 && first ≤ last
  | _, _ => false

def areSlotRanges : List RespValue → Bool
  | [] => true
  | [_] => false
  | a :: b :: rest => isSlotRange a b && areSlotRanges rest

/-- SFLUSH, once its ranges are checked. -/
def sflushClears (c : Ctx) : Bool :=
  let timed := 3 ≤ c.argv.length &&
    (c.argv.getLast?.any fun v => isOption (text "SYNC") v || isOption (text "ASYNC") v)
  let args := if timed then c.argv.dropLast.tail else c.argv.tail
  c.cluster && 2 ≤ args.length && areSlotRanges args

/-- CLUSTER SLOT-STATS SLOTSRANGE with a range. -/
def slotStatsClears (c : Ctx) : Bool :=
  match c.argv with
  | [_, sub, mode, a, b] =>
    c.cluster && isOption (text "SLOT-STATS") sub
      && (strView mode).any (ciEqual · (text "SLOTSRANGE")) && isSlotRange a b
  | _ => false

def handlerClears (id : CmdId) (c : Ctx) : Cmd Bool :=
  match id with
  | .delex => delexClears c
  | .sflush => pure (sflushClears c)
  | .cluster => pure (slotStatsClears c)
  | _ => pure false

/-- The same from the ownership check on. -/
def reachedClears (H : Host) (id : CmdId) (c : Ctx) : Cmd Bool := do
  match ← ownershipCheck H c with
  | some _ => return false
  | none => handlerClears id c

def dispatchClears (H : Host) (now : Nat) (argv : List RespValue) (e : Exec) : Bool :=
  match argAt argv 0 with
  | none => false
  | some name =>
    let id := cmdResolve name
    if readonlyReplica id argv e || isScriptCmd id then false
    else (runCmd now (reachedClears H id (e.ctx argv now)) e).1

def dispatchWritten (H : Host) (now : Nat) (argv : List RespValue) (e : Exec) : Written :=
  ⟨dispatchClears H now argv e, piecesOfAll (commandDispatch H now argv e).1⟩

/-! ## EXEC -/

def afterQueued (H : Host) (now : Nat) (argv : List RespValue) (e : Exec) : Exec :=
  let r := commandDispatch H now argv e
  r.2.setS { r.2.s with aofSkip := false }

def execLoopWritten (H : Host) (now : Nat) : List (List RespValue) → Exec → Written
  | [], _ => appended []
  | argv :: rest, e =>
    (dispatchWritten H now argv e).andThen (execLoopWritten H now rest (afterQueued H now argv e))

def execRuns (e : Exec) : Bool :=
  !e.s.multiError && watchesHold e && !(e.db.clusterEnabled && !queueOneSlot e.s.queue none)

def execWritten (H : Host) (now : Nat) (e : Exec) : Written :=
  if execRuns e then
    Written.andThen ⟨false, [.header e.s.queue.length]⟩
      (execLoopWritten H now e.s.queue { e with origin := .queued })
  else appended (execTransaction H now e).1

/-! ## `session_execute_at` -/

def leanGetFails (now : Nat) (argv : List RespValue) (e : Exec) : Bool :=
  argv.length == 2 && (argAt argv 1).any fun k =>
    let r := runCmd now (leanRead .get argv e.s.dbIndex k) e
    r.1.isNone && r.2.db.tierIoError

def leanSetFails (now : Nat) (argv : List RespValue) (e : Exec) : Bool :=
  match argAt argv 1, argAt argv 2 with
  | some k, some v =>
    let r := runCmd now (leanRead .set argv e.s.dbIndex k) e
    storageStringOk k v && r.2.db.tierIoError &&
      match r.1 with
      | none | some (.str _) => true
      | _ => false
  | _, _ => false

inductive Route
  | leanGet | leanSet | exec | general | other
deriving DecidableEq

def routeOf (argv : List RespValue) (e : Exec) : Route :=
  let name := argAt argv 0
  let id := argvCmd argv
  if id = .get ∧ isPlainSession e then .leanGet
  else if id = .set ∧ argv.length = 3 ∧ isPlainSession e ∧ (!e.replica ∨ e.s.replLink) then .leanSet
  else if (0 < e.s.nsub ∨ 0 < e.s.nssub ∨ 0 < e.s.npsub) ∧ name.isSome
      ∧ !allowedSubscribed id then .other
  else if name.isNone then .general
  else if id = .exec ∧ argv.length = 1 ∧ e.s.inMulti then .exec
  else if id ∈ [CmdId.multi, .exec, .discard, .reset, .watch] ∨ e.s.inMulti then .other
  else .general

def refused (argv : List RespValue) (e : Exec) : Bool :=
  noAuth argv e || ((argAt argv 0).isSome && aclRefuses (argvCmd argv) argv e)

def executeWritten (H : Host) (now : Nat) (argv : List RespValue) (e : Exec) : Written :=
  let e' := startRequest e
  let plain := appended (sessionExecuteAtRaw H now argv e).1
  if refused argv e' then plain
  else
    match routeOf argv e' with
    | .leanGet => if leanGetFails now argv e' then tierIoWritten else plain
    | .leanSet => if leanSetFails now argv e' then tierIoWritten else plain
    | .exec => execWritten H now e'
    | .general =>
      if (commandDispatch H now argv e').2.db.tierIoError then tierIoWritten
      else dispatchWritten H now argv e'
    | .other => plain

end Ddup.Server
