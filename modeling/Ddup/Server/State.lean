/-
Ddup.Server.State — the data the command layer runs over: sessions
(`core/session.h`), the databases of one event loop, the command log behind the
`aof_log` hook, and a trace of what the handlers did.

A request is executed by one session while the others wait. `Exec` is the state
during that: the executing session `s` taken out of the connection table, the
rest of the table in `others`. `State` is the state between requests.

The trace and the last two fields of a watch entry are ghosts: no function below
reads them to decide anything, they are there to state what happened.
-/
import Ddup.Acl.Authorize
import Ddup.Lib.Slots
import Ddup.Store.Db

namespace Ddup.Server

open Ddup.Resp Ddup.Command Ddup.Store Ddup.Acl

/-! ## Sessions -/

/-- `watch_entry`, with the stored entry of the key when it was watched and the
instant of the WATCH. -/
structure Watch where
  key : Bytes
  version : Nat
  epoch : Nat
  dbIndex : Nat
  seen : Option Obj × Option Nat
  since : Nat

/-- The request a blocked session retries; a deadline of 0 never passes. -/
structure Blocked where
  cmd : CmdId
  argv : List RespValue
  deadline : Nat

/-- `struct session`. `user` is the position of the ACL user the session is
authenticated as, `aclCtx` and `aofLog` whether the ACL registry and the logging
hook are set. -/
structure Session where
  dbIndex : Nat
  authed : Bool
  aclCtx : Bool
  user : Option Nat
  aclGeneration : Nat
  inMulti : Bool
  multiError : Bool
  queue : List (List RespValue)
  watches : List Watch
  nsub : Nat
  nssub : Nat
  npsub : Nat
  blocked : Option Blocked
  aofLog : Bool
  aofSkip : Bool
  replLink : Bool
  rawCmd : Option Bytes

def sessionInit : Session where
  dbIndex := 0
  authed := true
  aclCtx := false
  user := none
  aclGeneration := 0
  inMulti := false
  multiError := false
  queue := []
  watches := []
  nsub := 0
  nssub := 0
  npsub := 0
  blocked := none
  aofLog := false
  aofSkip := false
  replLink := false
  rawCmd := none

/-! ## Log and trace -/

/-- One call of the `aof_log` hook, with the instant the command ran at. -/
structure LogRec where
  dbIndex : Nat
  argv : List RespValue
  raw : Option Bytes
  now : Nat

/-- The way a handler is reached. -/
inductive Origin
  | top | queued | script | retry
deriving Repr, DecidableEq

/-- What a step of the command layer did. -/
inductive Event
  /-- The dirty counter of db `i` moved. -/
  | wrote (i : Nat)
  /-- The entry of `k` in db `i` changed and the dirty counter did not move;
  `watched` if a session held a watch on it that had not tripped. -/
  | quiet (i : Nat) (k : Bytes) (watched : Bool)
  /-- The value or expiry of `k` in db `i` that a client can observe changed. -/
  | changed (i : Nat) (k : Bytes)
  /-- Db `i` was emptied. -/
  | flushed (i : Nat)
  /-- Two databases changed places. `refsA`, `refsB` are their watch counts before,
  `guarded` whether each count and epoch covers the watches held on the other
  index, `dirty` the counter the session's own index has afterwards. -/
  | swapped (a b refsA refsB : Nat) (guarded : Bool) (dirty : Nat)
  /-- A number was drawn. -/
  | random (i : Nat)
  /-- State outside the datasets was read. -/
  | inspected
  /-- A memory limit was set. -/
  | configured (i : Nat)
  /-- A write was refused for memory. -/
  | oom (i : Nat)
  /-- A key was evicted. -/
  | evicted (i : Nat) (k : Bytes)
  /-- A command's handler started. -/
  | ran (origin : Origin) (user : Option Nat) (id : CmdId) (argv : List RespValue)
  /-- The session became another user. -/
  | login (origin : Origin)
  /-- The rules of an ACL user changed. -/
  | aclChanged (user : Nat)
  /-- A blocked session was served by a retry. -/
  | served

/-! ## Machine states -/

/-- What all sessions share: databases, ACL users, role, everything else a command
may read or set (`env`), the log and the trace. `auth` is `acl_authenticate`. -/
structure Core where
  dbs : Nat → Db
  ndbs : Nat
  users : Nat → AclUser
  auth : Bytes → Bytes → Option Nat
  replica : Bool
  env : Bytes → Bytes
  log : List LogRec
  trace : List Event

/-- A request being executed by session `s`. -/
structure Exec extends Core where
  s : Session
  others : List (Option Session)
  origin : Origin

/-- The state between requests: the connection table and the clock. -/
structure State extends Core where
  conns : List (Option Session)
  clock : Nat

def heldWatches (conns : List (Option Session)) : Multiset Watch :=
  (Lib.bag (fun s => (s.watches : Multiset Watch)) conns).sum

def heldOn (ws : Multiset Watch) (i : Nat) : Nat := (ws.filter (·.dbIndex = i)).card

namespace Exec

def db (e : Exec) : Db := e.dbs e.s.dbIndex

def emit (e : Exec) (evs : List Event) : Exec := { e with trace := e.trace ++ evs }

def setDb (e : Exec) (i : Nat) (d : Db) : Exec := { e with dbs := Function.update e.dbs i d }

def setS (e : Exec) (s : Session) : Exec := { e with s := s }

def watches (e : Exec) : Multiset Watch := e.s.watches + heldWatches e.others

def watchCount (e : Exec) (i : Nat) : Nat := heldOn e.watches i

/-- A watch that EXEC would find unchanged. -/
def untripped (e : Exec) (w : Watch) : Bool :=
  w.epoch == (e.dbs w.dbIndex).flushEpoch &&
    w.version == dbKeyVersion (e.dbs w.dbIndex) w.key

def isWatched (e : Exec) (i : Nat) (k : Bytes) : Bool :=
  decide (0 < (e.watches.filter fun w => w.dbIndex = i ∧ w.key = k ∧ e.untripped w).card)

end Exec

end Ddup.Server
