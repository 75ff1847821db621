/-
Ddup.Server.ReplStream — the byte streams of `server/server.c` that carry commands out
of the process, and the replica's end of the link.

`srv_propagate` is what the `aof_log` hook calls: it feeds the AOF and, unless the
server is one worker of several, the replication backlog. With several workers the
commands go to the coordinator, which appends them with
`server_repl_stream_append_db`. `repl_link_feed` is the loop a replica runs over what
arrives.

The backlog here is every byte ever appended to it; the ring keeps the newest of them.
Database indices are not negative, the AOF does not fail and buffers can grow.
-/
import Ddup.Resp.Writer
import Ddup.Server.Session

namespace Ddup.Server

open Ddup.Resp Ddup.Command Ddup.Lib

/-! ## The master's side -/

/-- The fields of `struct server` the streams use: the AOF with the db it is on, the
replication backlog, the output buffers of the replica connections, what was handed to
the coordinator, and the db the central stream is on. -/
structure Streams where
  aof : Option Bytes
  aofDbIndex : Nat
  centralized : Bool
  connectedSlaves : Nat
  backlogUsed : Bool
  backlog : Bytes
  replicas : List Bytes
  forwarded : List (Nat × Bytes)
  streamDb : Nat

namespace Streams

def active (s : Streams) : Bool := s.connectedSlaves != 0 || s.backlogUsed

def selectArgv (db : Nat) : List RespValue := [bulk (text "SELECT"), bulk (u64ToStr db)]

/-- `srv_aof_log`: a SELECT goes first where the AOF is on another db. -/
def srvAofLog (s : Streams) (db : Nat) (argv : List RespValue) : Streams :=
  match s.aof with
  | none => s
  | some log =>
    let log := if db ≠ s.aofDbIndex then log ++ writeCommand (selectArgv db) else log
    { s with
      aof := some (log ++ writeCommand argv)
      aofDbIndex := db }

/-- The bytes of a command go to the backlog and, if any are attached, to the
replicas. -/
def fanOut (s : Streams) (data : Bytes) : Streams :=
  { s with
    backlog := s.backlog ++ data
    replicas := if s.connectedSlaves = 0 then s.replicas else s.replicas.map (· ++ data) }

def srvPropagate (s : Streams) (db : Nat) (argv : List RespValue) (raw : Option Bytes) : Streams :=
  let s := s.srvAofLog db argv
  let data := raw.getD (writeCommand argv)
  if s.centralized then { s with forwarded := s.forwarded ++ [(db, data)] }
  else if !s.active then s
  else s.fanOut data

def replStreamAppend (s : Streams) (raw : Bytes) : Streams :=
  if raw = [] then s else if !s.active then s else s.fanOut raw

/-- The frame `server_repl_stream_append_db` prints in front of a command of another
db: the format has the index in the place of its length too. -/
def selectFrame (db : Nat) : Bytes :=
  text "*2\r\n$6\r\nSELECT\r\n$" ++ (u64ToStr db ++ (crlf ++ (u64ToStr db ++ crlf)))

def replStreamAppendDb (s : Streams) (db : Nat) (raw : Bytes) : Streams :=
  if raw = [] ∨ 999999999 < db then s
  else if !s.active then s
  else if db ≠ s.streamDb then
    if 48 ≤ (selectFrame db).length then s
    else
      let s' := s.replStreamAppend (selectFrame db)
      { s' with streamDb := db }.replStreamAppend raw
  else s.replStreamAppend raw

end Streams

/-! ## The replica's side -/

/-- What a run of the streaming loop of `repl_link_feed` comes to: the commands handed
to `session_execute` in order, and the bytes kept for the next run; none if the link
was closed because the stream made no sense. -/
structure Fed where
  commands : List (List RespValue)
  left : Option Bytes

def linkLoop (isDouble : Bytes → Bool) : Nat → Bytes → Fed
  | 0, rbuf => ⟨[], some rbuf⟩
  | fuel + 1, rbuf =>
    if rbuf = [] then ⟨[], some []⟩
    else
      match respParse isDouble rbuf with
      | .incomplete => ⟨[], some rbuf⟩
      | .done (.array items false) rest =>
        let r := linkLoop isDouble fuel rest
        ⟨items :: r.commands, r.left⟩
      | _ => ⟨[], none⟩

/-- `repl_link_feed` on the bytes of the stream. Every command takes a byte at least. -/
def replLinkFeed (isDouble : Bytes → Bool) (rbuf : Bytes) : Fed :=
  linkLoop isDouble rbuf.length rbuf

/-- The db a session is on after a command: SELECT and RESET move it. -/
def dbAfter (ndbs cur : Nat) (argv : List RespValue) : Nat :=
  match argvCmd argv with
  | .select =>
    if argv.length ≠ 2 then cur
    else
      match dbIndexArg ⟨argv, 0, cur, ndbs, false⟩ 1 with
      | .ok i => i
      | .error _ => cur
  | .reset => if argv.length ≠ 1 then cur else 0
  | _ => cur

/-- The commands of a session, each with the db it runs in. -/
def placed (ndbs : Nat) : Nat → List (List RespValue) → List (Nat × List RespValue)
  | _, [] => []
  | cur, argv :: rest => (cur, argv) :: placed ndbs (dbAfter ndbs cur argv) rest

end Ddup.Server
