/-
Ddup.Tier.Cold — a database together with its tier store: the key-space helpers of
`core/command.c` where a cold value goes through the store, and the commands that
read, overwrite, delete and expire keys.

The functions on `Ddup.Store.Db` do the part inside the database. The field `tier` of
`Db`, a store that only answers, is not used here; the store stands beside the
database and changes with it. `tier_del` of a value that is dropped does not depend on
the rest of the function it is called in, so it is made first.
-/
import Ddup.Server.Handlers
import Ddup.Snapshot.CodecTheorems
import Ddup.Snapshot.Dump
import Ddup.Tier.Log

namespace Ddup.Tier

open Ddup.Store Ddup.Snapshot Ddup.Server Ddup.Command

/-- What a database's use of its store depends on: object sizes, listpack limits,
`tier_db_index` and `tier_enabled`. -/
structure ColdEnv where
  sizes : ObjMem
  limits : Limits
  dbIndex : Nat
  enabled : Bool

structure Tiered where
  db : Db
  store : TierStore

def Tiered.update (s : Tiered) (f : Db → Db) : Tiered := { s with db := f s.db }

/-! ## Dropping values -/

def dropRecord (s : Tiered) : Option Obj → Tiered
  | some (.tier rid _) =>
    match tierDel s.store rid with
    | some t => { s with store := t }
    | none => s.update failTier
  | _ => s

def hasExpired (d : Db) (k : Bytes) (now : Nat) : Bool := (d.expires.lookup k).any (· ≤ now)

def expireIfNeeded (s : Tiered) (k : Bytes) (now : Nat) : Tiered :=
  if hasExpired s.db k now then
    (dropRecord s (s.db.table.lookup k)).update fun d => dbExpireIfNeeded d k now
  else s

def setKv (s : Tiered) (k : Bytes) (v : Obj) (keepTtl : Bool) : Tiered :=
  if storable k v then
    (dropRecord s (s.db.table.lookup k)).update fun d => dbSetKv d k v keepTtl
  else s

def delKv (s : Tiered) (k : Bytes) : Tiered :=
  (dropRecord s (s.db.table.lookup k)).update fun d => (dbDelKv d k false).1

/-! ## Cold and hot -/

/-- `snapshot_restore_key` over an existing key; whether it returns 0. -/
def restoreCold (E : ColdEnv) (s : Tiered) (k payload : Bytes) (expire now : Nat) : Tiered × Bool :=
  if uint32Max < k.length then (s, false)
  else
    let s₁ := expireIfNeeded s k now
    match decodeDump E.sizes E.limits payload with
    | none => (s₁, false)
    | some v =>
      if storable k v then
        let s₂ := setKv s₁ k v false
        (if expire = 0 then s₂ else s₂.update fun d => dbSetExpiry d k expire, true)
      else (s₁, false)

def materialize (E : ColdEnv) (s : Tiered) (k : Bytes) (rid now : Nat) : Tiered × Option Obj :=
  match tierGet s.store rid with
  | none => (s.update failTier, none)
  | some (payload, expire) =>
    match restoreCold E s k payload expire now with
    | (s₁, false) => (s₁.update failTier, none)
    | (s₁, true) =>
      let s₂ := dropRecord s₁ (some (.tier rid expire))
      match s₂.db.table.lookup k with
      | none => (s₂.update failTier, none)
      | some v => (s₂, some v)

def coldGet (E : ColdEnv) (s : Tiered) (k : Bytes) (now : Nat) : Tiered × Option Obj :=
  let s₁ := expireIfNeeded s k now
  match s₁.db.table.lookup k with
  | none => (s₁, none)
  | some (.tier rid _) => materialize E s₁ k rid now
  | some v => (s₁, some v)

def offload (E : ColdEnv) (s : Tiered) (k : Bytes) : Tiered :=
  match s.db.table.lookup k with
  | none => s
  | some v =>
    if !E.enabled || !v.isHot then s
    else
      match snapshotDumpKey s.db k with
      | none => s.update failTier
      | some payload =>
        let expire := (s.db.expires.lookup k).getD 0
        match tierPut s.store E.dbIndex k payload expire with
        | none => s.update failTier
        | some (rid, t) =>
          let cold := Obj.tier rid expire
          ⟨syncMem (editEntry s.db k cold) (entryMem k.length v) (entryMem k.length cold), t⟩

/-! ## Commands -/

/-- PERSIST: the expiry goes, wherever the value is. -/
def persist (s : Tiered) (k : Bytes) (now : Nat) : Tiered :=
  (expireIfNeeded s k now).update fun d => clearExpiry d k

/-- The time arguments of `cmd_expire`. -/
structure ExpireArgs where
  value : Int
  scale : Nat
  absolute : Bool
  flags : ExpireFlags

/-- The instant the arguments stand for; absent where it does not fit a `long long`. -/
def ExpireArgs.instant (a : ExpireArgs) (now : Nat) : Option Int :=
  let base : Int := if a.absolute then 0 else now
  if 0 < a.value ∧ ((llongMax : Int) - base).tdiv a.scale < a.value then none
  else some (base + a.value * a.scale)

/-- `cmd_expire`, once its arguments are parsed. -/
def expire (E : ColdEnv) (s : Tiered) (k : Bytes) (a : ExpireArgs) (now : Nat) : Tiered :=
  match coldGet E s k now with
  | (s₁, none) => s₁
  | (s₁, some _) =>
    match a.instant now with
    | none => s₁
    | some exp =>
      if a.flags.refuses (s₁.db.expires.lookup k) exp then s₁
      else if exp ≤ now then delKv s₁ k
      else s₁.update fun d => dbSetExpiry d k exp.toNat

/-! ## Runs -/

/-- A value a command stores: no reference, and of lengths the constructors take. -/
structure StoredObj where
  obj : Obj
  hot : obj.isHot = true
  sized : Sized obj

inductive ColdOp
  | get (k : Bytes) (now : Nat)
  | set (k : Bytes) (v : StoredObj) (keepTtl : Bool)
  | del (k : Bytes)
  | persist (k : Bytes) (now : Nat)
  | expire (k : Bytes) (a : ExpireArgs) (now : Nat)
  | offload (k : Bytes)

def coldStep (E : ColdEnv) (s : Tiered) : ColdOp → Tiered
  | .get k now => (coldGet E s k now).1
  | .set k v keepTtl => setKv s k v.obj keepTtl
  | .del k => delKv s k
  | .persist k now => persist s k now
  | .expire k a now => expire E s k a now
  | .offload k => offload E s k

def runCold (E : ColdEnv) (s : Tiered) (ops : List ColdOp) : Tiered := ops.foldl (coldStep E) s

def ColdOp.isOffload : ColdOp → Bool
  | .offload _ => true
  | _ => false

end Ddup.Tier
