/-
Ddup.Server.Ops — the calls a command handler makes on the key space and on the
rest of the server, and what each of them does.

Every handler of `command_dispatch` writes the key space through the helpers of
`Ddup.Store.Db` only. A handler is therefore a program over the calls below:
`KeyOp` for one key of one database, `Op` for everything else. Reading calls that
the source makes right after looking the key up (the raw table and expiry lookups,
in-place edits, expiry changes, `db_del_kv`) include that lookup's lazy expiry:
repeating it at the same instant does nothing.
-/
import Ddup.Lib.Prog
import Ddup.Server.State

namespace Ddup.Server

open Ddup.Resp Ddup.Command Ddup.Store

/-! ## Calls on one key -/

/-- A call on one key. `touch` says whether the caller announces the change with
`db_touch_key` (for an edit, with `mem_sync`). -/
inductive KeyOp
  /-- `db_get` -/
  | get
  /-- `db_expire_if_needed` -/
  | expire
  /-- `rh_get(&d->table, ..)` -/
  | peek
  /-- `rh_get(&d->expires, ..)` -/
  | ttl
  /-- `db_set_kv`, `db_set_string`, `db_set_string_keep_ttl` -/
  | setKv (v : Obj) (keepTtl : Bool)
  /-- `db_del_kv`, `db_del_kv_keep_obj` -/
  | delKv (keepObj : Bool)
  /-- `db_set_expiry` -/
  | setExpiry (t : Nat) (touch : Bool)
  /-- `rh_del(&d->expires, ..)` -/
  | clearExpiry (touch : Bool)
  /-- a mutation through the object pointer -/
  | edit (v : Obj) (touch : Bool)
deriving DecidableEq

namespace KeyOp

def reads : KeyOp → Bool
  | .get | .expire | .peek | .ttl => true
  | _ => false

def isHot : KeyOp → Bool
  | .setKv v _ => v.isHot
  | .edit v _ => v.isHot
  | _ => true

end KeyOp

/-- What a call answers. -/
inductive Answer
  | unit
  | obj (v : Option Obj)
  | time (t : Option Nat)
  | flag (b : Bool)
  | num (n : UInt32)
  | bytes (b : Bytes)
deriving DecidableEq

def keyStep (now : Nat) (k : Bytes) : KeyOp → Db → Answer × Db
  | .get, d => (.obj (dbGet d k now).2, (dbGet d k now).1)
  | .expire, d => (.unit, dbExpireIfNeeded d k now)
  | .peek, d =>
    let d := dbExpireIfNeeded d k now
    (.obj (d.table.lookup k), d)
  | .ttl, d =>
    let d := dbExpireIfNeeded d k now
    (.time (d.expires.lookup k), d)
  | .setKv v keepTtl, d =>
    let d := if keepTtl then dbExpireIfNeeded d k now else d
    (.flag (storable k v), dbSetKv d k v keepTtl)
  | .delKv keepObj, d =>
    let r := dbDelKv (dbExpireIfNeeded d k now) k keepObj
    (.flag r.2, r.1)
  | .setExpiry t touch, d =>
    let d := dbSetExpiry (dbExpireIfNeeded d k now) k t
    (.flag (k.length ≤ uint32Max), if touch then dbTouchKey d k else d)
  | .clearExpiry touch, d =>
    let d := dbExpireIfNeeded d k now
    if k ∈ d.expires then
      (.flag true, if touch then dbTouchKey (clearExpiry d k) k else clearExpiry d k)
    else (.flag false, d)
  | .edit v touch, d =>
    let d := dbExpireIfNeeded d k now
    match d.table.lookup k with
    | none => (.unit, d)
    | some old =>
      (.unit, if touch then dbTouchKey (syncMem (editEntry d k v) old.extraMem v.extraMem) k
        else editEntry d k v)

/-! ## All calls -/

inductive Op
  | key (i : Nat) (k : Bytes) (o : KeyOp)
  /-- The checks in front of the handler have passed. -/
  | enter (id : CmdId) (argv : List RespValue)
  /-- `flush_db_contents` -/
  | flush (i : Nat)
  /-- `d->dirty++` on its own -/
  | mark (i : Nat)
  /-- `db_rand` -/
  | rand (i : Nat)
  /-- `oom_blocked` -/
  | oom (i : Nat)
  /-- CONFIG SET maxmemory, maxmemory-policy -/
  | config (i : Nat) (maxmemory : UInt64) (policy : Policy)
  /-- Any other read. -/
  | inspect (f : Exec → Bytes)
  /-- Any other write outside the databases. -/
  | tell (q v : Bytes)

def markDirty (d : Db) : Db := { d with dirty := d.dirty + 1 }

def setLimit (d : Db) (maxmemory : UInt64) (policy : Policy) : Db :=
  { d with
    maxmemory := maxmemory
    policy := policy }

namespace Exec

def keyEvents (e : Exec) (now i : Nat) (k : Bytes) (d' : Db) : List Event :=
  (if d'.dirty ≠ (e.dbs i).dirty then [.wrote i]
    else if d'.entry k ≠ (e.dbs i).entry k then [.quiet i k (e.isWatched i k)]
    else [])
  ++ (if d'.live now k ≠ (e.dbs i).live now k then [.changed i k] else [])

def setEnv (e : Exec) (q v : Bytes) : Exec :=
  { e with
    env := Function.update e.env q v }

def commit (e : Exec) (now i : Nat) (k : Bytes) (d' : Db) : Exec :=
  (e.emit (e.keyEvents now i k d')).setDb i d'

end Exec

def opStep (now : Nat) : Op → Exec → Answer × Exec
  | .key i k o, e => ((keyStep now k o (e.dbs i)).1, e.commit now i k (keyStep now k o (e.dbs i)).2)
  | .enter id argv, e => (.unit, e.emit [.ran e.origin e.s.user id argv])
  | .flush i, e => (.unit, (e.emit [.wrote i, .flushed i]).setDb i (flushDbContents (e.dbs i)))
  | .mark i, e => (.unit, (e.emit [.wrote i]).setDb i (markDirty (e.dbs i)))
  | .rand i, e => (.num (dbRand (e.dbs i)).2, (e.emit [.random i]).setDb i (dbRand (e.dbs i)).1)
  | .oom i, e => (.flag (oomBlocked (e.dbs i)), if oomBlocked (e.dbs i) then e.emit [.oom i] else e)
  | .config i maxmemory policy, e =>
    (.unit, (e.emit [.configured i]).setDb i (setLimit (e.dbs i) maxmemory policy))
  | .inspect f, e => (.bytes (f e), e.emit [.inspected])
  | .tell q v, e => (.unit, e.setEnv q v)

/-! ## Handler programs -/

abbrev Cmd (α : Type) := Lib.Prog Op Answer α

def runCmd {α : Type} (now : Nat) (p : Cmd α) (e : Exec) : α × Exec := p.run (opStep now) e

namespace Cmd

def get (i : Nat) (k : Bytes) : Cmd (Option Obj) :=
  .call (.key i k .get) fun | .obj v => .done v | _ => .done none

def expire (i : Nat) (k : Bytes) : Cmd Unit := .call (.key i k .expire) fun _ => .done ()

def peek (i : Nat) (k : Bytes) : Cmd (Option Obj) :=
  .call (.key i k .peek) fun | .obj v => .done v | _ => .done none

def ttl (i : Nat) (k : Bytes) : Cmd (Option Nat) :=
  .call (.key i k .ttl) fun | .time t => .done t | _ => .done none

def setKv (i : Nat) (k : Bytes) (v : Obj) (keepTtl : Bool) : Cmd Bool :=
  .call (.key i k (.setKv v keepTtl)) fun | .flag b => .done b | _ => .done false

def delKv (i : Nat) (k : Bytes) (keepObj : Bool) : Cmd Bool :=
  .call (.key i k (.delKv keepObj)) fun | .flag b => .done b | _ => .done false

def setExpiry (i : Nat) (k : Bytes) (t : Nat) (touch : Bool) : Cmd Bool :=
  .call (.key i k (.setExpiry t touch)) fun | .flag b => .done b | _ => .done false

def clearExpiry (i : Nat) (k : Bytes) (touch : Bool) : Cmd Bool :=
  .call (.key i k (.clearExpiry touch)) fun | .flag b => .done b | _ => .done false

def edit (i : Nat) (k : Bytes) (v : Obj) (touch : Bool) : Cmd Unit :=
  .call (.key i k (.edit v touch)) fun _ => .done ()

def enter (id : CmdId) (argv : List RespValue) : Cmd Unit :=
  .call (.enter id argv) fun _ => .done ()

def flush (i : Nat) : Cmd Unit := .call (.flush i) fun _ => .done ()

def oom (i : Nat) : Cmd Bool := .call (.oom i) fun | .flag b => .done b | _ => .done false

end Cmd

end Ddup.Server
