/-
Ddup.Store.Db — the database structure of `core/command.h` and the key-space
helpers of `core/command.c` that every command handler is built from.

`table`, `expires` and `keyvers` are `rh_table`s in the source. They stand here
as the finite maps those tables implement; `Ddup.Table` relates the two and says
for which call sequences they agree. The statistics counters, the LRU clocks and
the cluster metadata have no reader among the functions modelled and are left out.

A value of `Db` cannot hold an expiry for a key it does not store (`db_set_expiry`
is only ever called on a key that was just looked up or stored), nor a key longer
than an entry's length field.
-/
import Ddup.Store.Value

namespace Ddup.Store

/-- A value blob. A list is the sequence of its elements and the memory counter
its quicklist keeps; the other containers come with their counter too. `tier` is a
reference to a record of the cold store. -/
inductive Obj
  | str (bytes : Bytes)
  | list (items : List Bytes) (mem : UInt64)
  | boxed (c : Container) (mem : UInt64)
  | tier (rid expire : Nat)
deriving DecidableEq

/-- Length of the blob in the table: tag and payload, a tagged pointer, or a
tagged tier reference. -/
def Obj.vlen : Obj → Nat
  | .str b => b.length + 1
  | .list _ _ => 9
  | .boxed _ _ => 9
  | .tier _ _ => 17

def Obj.extraMem : Obj → UInt64
  | .str _ => 0
  | .list _ mem => mem
  | .boxed _ mem => mem
  | .tier _ _ => 0

def Obj.isHot : Obj → Bool
  | .tier _ _ => false
  | _ => true

/-- What the cold store answers: `tier_get` of a record id with the value its
payload decodes to (absent on any failure), whether `tier_del` succeeds, and the
record id `tier_put` gives a value (absent on failure). -/
structure Tier where
  get : Nat → Option (Obj × Nat)
  del : Nat → Bool
  put : Bytes → Obj → Option Nat

inductive Policy
  | noeviction | allkeysLru
deriving Repr, DecidableEq

/-- A map from keys, as `rh_table` implements it. -/
abbrev KeyTable (α : Type) := Finmap fun _ : Bytes => α

structure Db where
  table : KeyTable Obj
  expires : KeyTable Nat
  keyvers : KeyTable Nat
  watchRefs : Nat
  flushEpoch : Nat
  dirty : Nat
  usedMemory : UInt64
  maxmemory : UInt64
  policy : Policy
  clusterEnabled : Bool
  rngState : UInt32
  tier : Option Tier
  tierIoError : Bool
  owned : ∀ k, k ∈ expires → k ∈ table
  short : ∀ k, k ∈ table → k.length ≤ uint32Max

/-- What is configured and not written by commands on keys. -/
def Db.settings (d : Db) : Option Tier × UInt64 × Policy × Bool :=
  (d.tier, d.maxmemory, d.policy, d.clusterEnabled)

def dbInit : Db where
  table := ∅
  expires := ∅
  keyvers := ∅
  watchRefs := 0
  flushEpoch := 0
  dirty := 0
  usedMemory := 0
  maxmemory := 0
  policy := .allkeysLru
  clusterEnabled := false
  rngState := 0x9E3779B9
  tier := none
  tierIoError := false
  owned := fun _ h => absurd h Finmap.notMem_empty
  short := fun _ h => absurd h Finmap.notMem_empty

def entryBytes (klen vlen : Nat) : UInt64 := 40 + 16 + UInt64.ofNat klen + UInt64.ofNat vlen

/-- What an entry holding `v` under a key of this length is accounted for. -/
def entryMem (klen : Nat) (v : Obj) : UInt64 := entryBytes klen v.vlen + v.extraMem

/-! ## Versions -/

def dbKeyVersion (d : Db) (k : Bytes) : Nat := (d.keyvers.lookup k).getD 0

/-- `db_touch_key`: the version moves only while some WATCH is active. -/
def dbTouchKey (d : Db) (k : Bytes) : Db :=
  if uint32Max < k.length then d
  else if d.watchRefs = 0 then { d with dirty := d.dirty + 1 }
  else
    { d with
      keyvers := d.keyvers.insert k (dbKeyVersion d k + 1)
      dirty := d.dirty + 1 }

/-! ## The cold store -/

def failTier (d : Db) : Db := { d with tierIoError := true }

/-- The `tier_del` of a value that is about to be dropped. -/
def dropTier (d : Db) (v : Obj) : Db :=
  match d.tier, v with
  | some t, .tier rid _ => if t.del rid then d else failTier d
  | _, _ => d

/-! ## Reading, storing, deleting -/

def clearExpiry (d : Db) (k : Bytes) : Db :=
  if k ∈ d.expires then
    { d with
      expires := d.expires.erase k
      usedMemory := d.usedMemory - entryBytes k.length 8
      owned := fun k' h => d.owned k' (Finmap.mem_erase.mp h).2 }
  else d

theorem clearExpiry_notMem (d : Db) (k : Bytes) : k ∉ (clearExpiry d k).expires := by
  unfold clearExpiry
  split
  · exact fun h => (Finmap.mem_erase.mp h).1 rfl
  · assumption

def eraseEntry (d : Db) (k : Bytes) (h : k ∉ d.expires) : Db :=
  { d with
    table := d.table.erase k
    owned := fun k' hk' => Finmap.mem_erase.mpr ⟨fun heq => h (heq ▸ hk'), d.owned k' hk'⟩
    short := fun k' hk' => d.short k' (Finmap.mem_erase.mp hk').2 }

/-- Drop an entry: `tier_del` where it is a reference, accounting, removal. The
object's own memory stays accounted when the object moves to another key. -/
def removeEntry (d : Db) (k : Bytes) (v : Obj) (keepObj : Bool) : Db :=
  let d₁ := clearExpiry (if keepObj then d else dropTier d v) k
  let d₂ := eraseEntry d₁ k (clearExpiry_notMem _ k)
  { d₂ with
    usedMemory := d₂.usedMemory -
      (if keepObj then entryBytes k.length v.vlen else entryMem k.length v) }

/-- `db_expire_if_needed`: collect the key if its expiry instant has passed. -/
def dbExpireIfNeeded (d : Db) (k : Bytes) (now : Nat) : Db :=
  if uint32Max < k.length then d
  else
    match d.expires.lookup k with
    | none => d
    | some t =>
      if now < t then d
      else
        match d.table.lookup k with
        | none => dbTouchKey (clearExpiry d k) k
        | some v => dbTouchKey (removeEntry d k v false) k

/-- Release the value a key holds, before it is overwritten. -/
def releaseOld (d : Db) (k : Bytes) : Db :=
  match d.table.lookup k with
  | none => d
  | some old =>
    let d₁ := dropTier d old
    { d₁ with usedMemory := d₁.usedMemory - entryMem k.length old }

def putEntry (d : Db) (k : Bytes) (v : Obj) (hk : k.length ≤ uint32Max) : Db :=
  { d with
    table := d.table.insert k v
    usedMemory := d.usedMemory + entryMem k.length v
    owned := fun k' h => Finmap.mem_insert.mpr (.inr (d.owned k' h))
    short := fun k' h => (Finmap.mem_insert.mp h).elim (fun heq => heq ▸ hk) (d.short k') }

/-- Both lengths fit an entry's length fields: the store does not fail. -/
def storable (k : Bytes) (v : Obj) : Bool := k.length ≤ uint32Max && v.vlen ≤ uint32Max

theorem storable_key {k : Bytes} {v : Obj} (h : storable k v = true) : k.length ≤ uint32Max := by
  simp only [storable, Bool.and_eq_true, decide_eq_true_eq] at h
  exact h.1

/-- `db_set_kv`, and `db_set_kv_string` when the value is a string: overwrite,
clear the expiry unless it is kept, touch. -/
def dbSetKv (d : Db) (k : Bytes) (v : Obj) (keepTtl : Bool) : Db :=
  if h : storable k v = true then
    let d₁ := releaseOld (if keepTtl then d else clearExpiry d k) k
    dbTouchKey (putEntry d₁ k v (storable_key h)) k
  else d

/-- `db_del_kv` and, with `keepObj`, `db_del_kv_keep_obj`. -/
def dbDelKv (d : Db) (k : Bytes) (keepObj : Bool) : Db × Bool :=
  if uint32Max < k.length then (d, false)
  else
    match d.table.lookup k with
    | none => (clearExpiry d k, false)
    | some v => (dbTouchKey (removeEntry d k v keepObj) k, true)

/-- `db_set_expiry` on a stored key: no touch, no dirty count. -/
def dbSetExpiry (d : Db) (k : Bytes) (t : Nat) : Db :=
  if uint32Max < k.length then d
  else if h : k ∈ d.table then
    { d with
      expires := d.expires.insert k t
      usedMemory := if k ∈ d.expires then d.usedMemory else d.usedMemory + entryBytes k.length 8
      owned := fun k' hk' => (Finmap.mem_insert.mp hk').elim (fun heq => heq ▸ h) (d.owned k') }
  else d

/-- Replace the value of a stored key in place, as a mutation through the object
pointer does; the expiry and the counters stay. -/
def editEntry (d : Db) (k : Bytes) (v : Obj) : Db :=
  if hk : k ∈ d.table then
    { d with
      table := d.table.insert k v
      owned := fun k' h => Finmap.mem_insert.mpr (.inr (d.owned k' h))
      short := fun k' h =>
        (Finmap.mem_insert.mp h).elim (fun heq => heq ▸ d.short k hk) (d.short k') }
  else d

/-- The accounting half of `mem_sync`: fold the change of the object's memory in. -/
def syncMem (d : Db) (before after : UInt64) : Db :=
  { d with usedMemory := d.usedMemory + (after - before) }

/-- `snapshot_restore_key` with the decoded value: install it over what is there,
with the expiry its record carries. -/
def restoreKey (d : Db) (k : Bytes) (v : Obj) (expire : Nat) : Db :=
  let d₁ := dbSetKv d k v false
  if expire = 0 then d₁ else dbSetExpiry d₁ k expire

/-- `db_tier_materialize`: bring a cold value back under its key. -/
def dbTierMaterialize (d : Db) (k : Bytes) (rid : Nat) : Db × Option Obj :=
  match d.tier.bind (·.get rid) with
  | none => (failTier d, none)
  | some (v, expire) =>
    let d₁ := dropTier (restoreKey d k v expire) (.tier rid expire)
    (d₁, d₁.table.lookup k)

/-- Look a key up and bring a cold value back. -/
def lookupHot (d : Db) (k : Bytes) : Db × Option Obj :=
  match d.table.lookup k with
  | none => (d, none)
  | some (.tier rid _) => dbTierMaterialize d k rid
  | some v => (d, some v)

def dbGet (d : Db) (k : Bytes) (now : Nat) : Db × Option Obj :=
  lookupHot (dbExpireIfNeeded d k now) k

def flushDbContents (d : Db) : Db :=
  { d with
    table := ∅
    expires := ∅
    keyvers := ∅
    usedMemory := 0
    flushEpoch := d.flushEpoch + 1
    dirty := d.dirty + 1
    owned := fun _ h => absurd h Finmap.notMem_empty
    short := fun _ h => absurd h Finmap.notMem_empty }

/-! ## Memory limit and randomness -/

/-- `db_tier_offload` of a hot value: the entry becomes a reference. -/
def tierOffload (d : Db) (t : Tier) (k : Bytes) (v : Obj) : Db × Bool :=
  match t.put k v with
  | none => (failTier d, false)
  | some rid =>
    let cold := Obj.tier rid ((d.expires.lookup k).getD 0)
    (syncMem (editEntry d k cold) (entryMem k.length v) (entryMem k.length cold), true)

/-- `db_evict_one` on the sampled key: offload a hot value where there is a cold
store, delete otherwise. -/
def dbEvictOne (d : Db) (k : Bytes) : Db × Bool :=
  match d.tier, d.table.lookup k with
  | some _, some (.tier _ _) => ((dbDelKv d k false).1, true)
  | some t, some v => tierOffload d t k v
  | _, _ => ((dbDelKv d k false).1, true)

def oomBlocked (d : Db) : Bool :=
  d.maxmemory != 0 && d.policy == .noeviction && d.maxmemory < d.usedMemory

def dbRand (d : Db) : Db × UInt32 :=
  let x := d.rngState
  let x := x ^^^ (x <<< 13)
  let x := x ^^^ (x >>> 17)
  let x := x ^^^ (x <<< 5)
  let d' := { d with rngState := x }
  (d', x)

/-! ## What a client can observe -/

def Db.entry (d : Db) (k : Bytes) : Option Obj × Option Nat :=
  (d.table.lookup k, d.expires.lookup k)

/-- The value and expiry a key has at an instant; absent once it has expired. -/
def liveEntry (now : Nat) : Option Obj × Option Nat → Option (Obj × Option Nat)
  | (none, _) => none
  | (some v, none) => some (v, none)
  | (some v, some t) => if now < t then some (v, some t) else none

def Db.live (d : Db) (now : Nat) (k : Bytes) : Option (Obj × Option Nat) :=
  liveEntry now (d.entry k)

end Ddup.Store
