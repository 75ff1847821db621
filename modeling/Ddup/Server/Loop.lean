/-
Ddup.Server.Loop — the event loop: connections come and go, requests are executed
one at a time, blocked sessions are retried, expired keys are collected in the
background; and the replay of a command log.
-/
import Ddup.Server.Session

namespace Ddup.Server

open Ddup.Resp Ddup.Command Ddup.Store Ddup.Acl

/-! ## Blocked sessions -/

def Exec.unblock (e : Exec) : Exec := e.setS { e.s with blocked := none }

def retryCmd (H : Host) (b : Blocked) (c : Ctx) : Cmd Ready := do
  Cmd.enter b.cmd b.argv
  blockingPopTry H b.cmd c

/-- `command_blocked_try`: time out, serve, or leave the session blocked. The
`aof_log` hook is not called. -/
def commandBlockedTry (H : Host) (now : Nat) (e : Exec) : Exec :=
  match e.s.blocked with
  | none => e
  | some b =>
    if b.deadline ≠ 0 ∧ b.deadline ≤ now then e.unblock
    else
      let r := runCmd now (retryCmd H b (e.ctx b.argv now)) e
      match r.1 with
      | .wait _ => r.2
      | .replied _ => (r.2.emit [.served]).unblock

/-! ## The loop -/

namespace State

def focus (st : State) (sid : Nat) (s : Session) (origin : Origin) : Exec :=
  { st with s := s, others := st.conns.set sid none, origin := origin }

/-- Take session `sid` out of the table, let it act, and put it back. -/
def withSession (st : State) (sid : Nat) (origin : Origin) (act : Exec → Exec) : State :=
  match Lib.slotAt st.conns sid with
  | none => st
  | some s =>
    let e := act (st.focus sid s origin)
    { st with
      toCore := e.toCore
      conns := e.others.set sid (some e.s) }

/-- The sessions `server_process_blocked` visits. -/
def processBlocked (H : Host) (now : Nat) : Nat → State → State
  | 0, st => st
  | n + 1, st => (processBlocked H now n st).withSession n .retry (commandBlockedTry H now)

end State

inductive Action
  /-- A connection is accepted, authenticated as a user or not. -/
  | accept (user : Option Nat) (authed : Bool)
  /-- A request arrives from session `sid`, with its bytes. -/
  | request (sid : Nat) (argv : List RespValue) (raw : Bytes)
  /-- Session `sid` is closed. -/
  | close (sid : Nat)
  /-- `server_process_blocked` -/
  | retryBlocked
  /-- `db_active_expire` on db `i`, with the keys it samples. -/
  | activeExpire (i : Nat) (keys : List Bytes)

def newSession (st : State) (user : Option Nat) (authed : Bool) : Session :=
  { sessionInit with
    authed := authed
    aclCtx := true
    user := user
    aclGeneration := (user.map fun u => (st.users u).generation).getD 0
    aofLog := true }

def requestStep (H : Host) (now : Nat) (argv : List RespValue) (raw : Bytes) (e : Exec) : Exec :=
  if e.s.blocked.isSome then e
  else
    let r := sessionExecuteAtRaw H now argv (e.setS { e.s with rawCmd := some raw })
    r.2.setS { r.2.s with rawCmd := none }

/-- The keys `db_active_expire` samples are collected if they have expired. -/
def expireSampled (now : Nat) (dbs : Nat → Db) (i : Nat) (keys : List Bytes) : Nat → Db :=
  Function.update dbs i (keys.foldl (fun d k => dbExpireIfNeeded d k now) (dbs i))

def step (H : Host) (st : State) (dt : Nat) (a : Action) : State :=
  let st := { st with clock := st.clock + dt }
  match a with
  | .accept user authed => { st with conns := st.conns ++ [some (newSession st user authed)] }
  | .request sid argv raw => st.withSession sid .top (requestStep H st.clock argv raw)
  | .close sid =>
    let st' := st.withSession sid .top Exec.watchClear
    { st' with conns := st'.conns.set sid none }
  | .retryBlocked => st.processBlocked H st.clock st.conns.length
  | .activeExpire i keys => { st with dbs := expireSampled st.clock st.dbs i keys }

def run (H : Host) (st : State) (acts : List (Nat × Action)) : State :=
  acts.foldl (fun st a => step H st a.1 a.2) st

/-- A server that has just started: empty databases, no connections. -/
def bootState (ndbs : Nat) (users : Nat → AclUser) (auth : Bytes → Bytes → Option Nat) :
    State where
  dbs := fun _ => dbInit
  ndbs := ndbs
  users := users
  auth := auth
  replica := false
  env := fun _ => []
  log := []
  trace := []
  conns := []
  clock := 0

/-! ## Concrete servers -/

def words (ws : List String) : List RespValue := ws.map fun w => bulk (text w)

def openUser : AclUser where
  name := text "default"
  password := []
  patterns := [text "*"]
  allow := fun _ => false
  deny := fun _ => false
  enabled := true
  allCommands := true
  generation := 1
  channels := []
  allChannels := true
  noPassword := true

/-- A host that knows no command beyond the modelled ones and no script. -/
def bareHost : Host where
  handler := fun _ _ => pure ([errorReply "ERR unknown command"], .none)
  ownership := fun _ => pure none
  retry := fun _ _ => pure none
  script := fun _ _ => .error (errorReply "ERR Error compiling script")
  listMem := fun items => UInt64.ofNat (items.map List.length).sum
  timeout := fun b => if b = text "0" then .forever else .invalid
  victim := fun _ => none

/-! ## Replay -/

end Ddup.Server
