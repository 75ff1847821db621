/-
Ddup.Cluster.State — the node table of `core/cluster.c`: identities, flags, failure reports, and
the claims by which nodes take slots from one another.

A node pointer of the source is an index into the table. The table keeps distinct, valid ids, and at
most 32 of them, by its type. Epochs are 64-bit words. The counter of changes and the cache behind
`cluster_state_is_ok` are left out; `reports` is the used part of its array.
-/
import Ddup.Cluster.Slots
import Ddup.Ds.Skiplist
import Mathlib.Data.List.TakeWhile

namespace Ddup.Cluster

open Ddup.Ds

/-! ## Strings and ids -/

/-- A string in a `char[cap]`. -/
def CStr (cap : Nat) := { b : Bytes // b.length < cap ∧ 0 ∉ b }

instance (cap : Nat) : DecidableEq (CStr cap) := inferInstanceAs (DecidableEq { _b : Bytes // _ })

theorem cstr_ok {cap : Nat} (hcap : 0 < cap) (b : Bytes) :
    ((b.takeWhile (· != 0)).take (cap - 1)).length < cap ∧
      0 ∉ (b.takeWhile (· != 0)).take (cap - 1) := by
  refine ⟨by rw [List.length_take]; omega, fun h => ?_⟩
  have hne := List.mem_takeWhile_imp (List.mem_of_mem_take h)
  simp at hne

/-- `snprintf(dst, cap, "%s", src)`: up to a NUL, and cut to the room there is. -/
def CStr.print (cap : Nat) (hcap : 0 < cap) (src : Bytes) : CStr cap :=
  ⟨(src.takeWhile (· != 0)).take (cap - 1), cstr_ok hcap src⟩

theorem ipRoom : 0 < 64 := by decide

theorem idRoom : 0 < 41 := by decide

def isHex (c : UInt8) : Bool := (48 ≤ c && c ≤ 57) || (97 ≤ c && c ≤ 102)

/-- `cluster_id_valid`, `wire_id_valid`. -/
def IdValid (b : Bytes) : Prop := b.length = 40 ∧ ∀ c ∈ b, isHex c = true

instance (b : Bytes) : Decidable (IdValid b) := inferInstanceAs (Decidable (_ ∧ _))

def NodeId := { b : Bytes // IdValid b }

instance : DecidableEq NodeId := inferInstanceAs (DecidableEq { _b : Bytes // _ })

/-- The id that repeats one digit. -/
def NodeId.ofDigit (c : UInt8) (h : isHex c = true) : NodeId :=
  ⟨List.replicate 40 c, List.length_replicate, fun x hx => by
    rw [List.eq_of_mem_replicate hx]
    exact h⟩

theorem hex97 : isHex 97 = true := rfl

theorem hex98 : isHex 98 = true := rfl

theorem hex99 : isHex 99 = true := rfl

/-! ## Nodes -/

/-- The bits of `cluster_node.flags`. -/
inductive NodeFlag
  | myself
  | master
  | handshake
  | noaddr
  | disconnected
  | slave
  | pfail
  | fail
deriving DecidableEq

def NodeFlag.bit : NodeFlag → Nat
  | myself => 0
  | master => 1
  | handshake => 2
  | noaddr => 3
  | disconnected => 4
  | slave => 5
  | pfail => 6
  | fail => 7

abbrev Flags := BitVec 32

def Flags.has (f : Flags) (x : NodeFlag) : Bool := f.getLsbD x.bit
def Flags.raise (f : Flags) (x : NodeFlag) : Flags := f ||| BitVec.twoPow 32 x.bit
def Flags.drop (f : Flags) (x : NodeFlag) : Flags := f &&& ~~~ BitVec.twoPow 32 x.bit

/-- `cluster_node` without its id. -/
structure ClusterNode where
  ip : CStr 64
  port : UInt16
  busPort : UInt16
  flags : Flags
  lastSeenMs : UInt64
  pingSentMs : UInt64
  epoch : UInt64
  masterId : CStr 41
  slots : Bitmap
  reports : List (NodeId × UInt64)
  failTimeMs : UInt64
deriving DecidableEq

def noMaster : CStr 41 := ⟨[45], by decide⟩

/-- The node `cluster_node_add` starts with. -/
def freshNode : ClusterNode where
  ip := ⟨[], by decide⟩
  port := 0
  busPort := 0
  flags := BitVec.twoPow 32 NodeFlag.master.bit
  lastSeenMs := 0
  pingSentMs := 0
  epoch := 0
  masterId := noMaster
  slots := 0
  reports := []
  failTimeMs := 0

/-- The own entry `server_enable_cluster` makes. -/
def ownNode : ClusterNode :=
  { freshNode with
    flags := BitVec.twoPow 32 NodeFlag.myself.bit ||| BitVec.twoPow 32 NodeFlag.master.bit }

/-- `CLUSTER_MAX_NODES`. -/
def clusterMaxNodes : Nat := 32

structure NodeTable where
  entries : List (NodeId × ClusterNode)
  distinct : (entries.map Prod.fst).Nodup
  bounded : entries.length ≤ clusterMaxNodes

namespace NodeTable

def mapNodes (t : NodeTable) (f : Nat → NodeId × ClusterNode → ClusterNode) : NodeTable where
  entries := t.entries.mapIdx fun i e => (e.1, f i e)
  distinct := by
    have hids : (t.entries.mapIdx fun i e => (e.1, f i e)).map Prod.fst = t.entries.map Prod.fst := by
      refine List.ext_getElem (by simp) fun i h _ => ?_
      simp
    rw [hids]
    exact t.distinct
  bounded := by
    rw [List.length_mapIdx]
    exact t.bounded

def modify (t : NodeTable) (i : Nat) (f : ClusterNode → ClusterNode) : NodeTable :=
  t.mapNodes fun j e => if j = i then f e.2 else e.2

def setSlot (t : NodeTable) (i s : Nat) (on : Bool) : NodeTable :=
  t.modify i fun n => { n with slots := clusterSlotsSet n.slots s on }

def find (t : NodeTable) (id : NodeId) : Option Nat := t.entries.findIdx? fun e => e.1 = id

def findStr (t : NodeTable) (b : Bytes) : Option Nat :=
  if h : IdValid b then t.find ⟨b, h⟩ else none

theorem find_eq_none {t : NodeTable} {id : NodeId} (h : t.find id = none) :
    id ∉ t.entries.map Prod.fst := by
  rintro hmem
  obtain ⟨e, he, rfl⟩ := List.mem_map.mp hmem
  have := List.findIdx?_eq_none_iff.mp h e he
  simp at this

def add (t : NodeTable) (id : NodeId) : Option (NodeTable × Nat) :=
  match h : t.find id with
  | some i => some (t, i)
  | none =>
    if hroom : t.entries.length < clusterMaxNodes then
      some ({ entries := t.entries ++ [(id, freshNode)]
              distinct := by
                rw [List.map_append]
                refine List.nodup_append.mpr ⟨t.distinct, List.nodup_singleton _, ?_⟩
                rintro x hx y hy rfl
                rw [List.mem_singleton.mp hy] at hx
                exact find_eq_none h hx
              bounded := by
                rw [List.length_append]
                exact hroom }, t.entries.length)
    else none

def myself (t : NodeTable) : Option Nat := t.entries.findIdx? fun e => e.2.flags.has .myself

end NodeTable

/-- The cluster part of `db`, as in `cluster_state`. No entry of a slot array is `0xFFFF`. -/
structure ClusterState where
  nodeId : NodeId
  table : NodeTable
  slotOwner : Nat → Option Nat
  slotOwnerDirty : Bool
  slotMigrating : Nat → Option Nat
  slotImporting : Nat → Option Nat
  currentEpoch : UInt64
  nodeTimeoutMs : UInt64
  lastVoteEpoch : UInt64
  failoverReqEpoch : UInt64
  ackMask : BitVec 32
  ackCount : Nat
  failBroadcastId : Option NodeId

namespace ClusterState

def start (id : NodeId) (table : NodeTable) : ClusterState where
  nodeId := id
  table := table
  slotOwner := fun _ => none
  slotOwnerDirty := true
  slotMigrating := fun _ => none
  slotImporting := fun _ => none
  currentEpoch := 1
  nodeTimeoutMs := 15000
  lastVoteEpoch := 0
  failoverReqEpoch := 0
  ackMask := 0
  ackCount := 0
  failBroadcastId := none

def modify (d : ClusterState) (i : Nat) (f : ClusterNode → ClusterNode) : ClusterState :=
  { d with table := d.table.modify i f }

/-- `if (epoch > d->cluster_current_epoch) ...`. -/
def raiseCurrent (d : ClusterState) (epoch : UInt64) : ClusterState :=
  { d with currentEpoch := max d.currentEpoch epoch }

end ClusterState

/-! ## Failure reports -/

/-- The last report takes the place of one that goes. -/
def swapRemove (rs : List (NodeId × UInt64)) (i : Nat) : List (NodeId × UInt64) :=
  match rs.getLast? with
  | none => rs
  | some x => (rs.set i x).dropLast

def clusterReportFailure (n : ClusterNode) (reporter : NodeId) (now : UInt64) : ClusterNode :=
  match n.reports.findIdx? fun r => r.1 = reporter with
  | some i => { n with reports := n.reports.set i (reporter, now) }
  | none =>
    if clusterMaxNodes ≤ n.reports.length then n
    else { n with reports := n.reports ++ [(reporter, now)] }

def clusterReportHeal (n : ClusterNode) (reporter : NodeId) : ClusterNode :=
  match n.reports.findIdx? fun r => r.1 = reporter with
  | some i => { n with reports := swapRemove n.reports i }
  | none => n

/-- The loop of `cluster_report_count`: reports past the window go. -/
def dropExpired (window now : UInt64) : Nat → Nat → List (NodeId × UInt64) → List (NodeId × UInt64)
  | 0, _, rs => rs
  | fuel + 1, i, rs =>
    match rs[i]? with
    | none => rs
    | some r =>
      if r.2 ≤ now ∧ window < now - r.2 then dropExpired window now fuel i (swapRemove rs i)
      else dropExpired window now fuel (i + 1) rs

def reportWindow (timeout : UInt64) : UInt64 :=
  if (0 - 1) / 2 < timeout then 0 - 1 else timeout * 2

/-- `cluster_report_count`: the node with what is left of its reports. -/
def clusterReportCount (timeout now : UInt64) (n : ClusterNode) : ClusterNode :=
  { n with reports := dropExpired (reportWindow timeout) now n.reports.length 0 n.reports }

def clusterMarkFail (n : ClusterNode) (now : UInt64) : ClusterNode :=
  if n.flags.has .fail || n.flags.has .myself then n
  else { n with flags := (n.flags.drop .pfail).raise .fail, failTimeMs := now }

def servesSlots (n : ClusterNode) : Bool := n.slots != 0

def clusterMarkFailIfQuorum (d : ClusterState) (i : Nat) (now : UInt64) : ClusterState :=
  match d.table.entries[i]? with
  | none => d
  | some (id, subject) =>
    if !subject.flags.has .pfail || subject.flags.has .fail then d
    else
      let masters := d.table.entries.countP fun e => e.2.flags.has .master && servesSlots e.2
      let subject := clusterReportCount d.nodeTimeoutMs now subject
      let mine := (d.table.myself.bind (d.table.entries[·]?)).any fun e => e.2.flags.has .master
      let failures := subject.reports.length + (if mine then 1 else 0)
      let d := d.modify i fun _ => subject
      if failures < masters / 2 + 1 then d
      else { d.modify i (clusterMarkFail · now) with failBroadcastId := some id }

/-! ## Claims -/

/-- The claimant wins a slot against another holder: a larger epoch, or the same and a larger id. -/
def outranks (claimant other : NodeId × ClusterNode) : Bool :=
  decide (other.2.epoch < claimant.2.epoch) ||
    (claimant.2.epoch == other.2.epoch && memcmp claimant.1.1 other.1.1 40 == .gt)

def mergeSlot (bm : Bitmap) (c : Nat) (t : NodeTable) (s : Nat) : NodeTable :=
  match t.entries[c]? with
  | none => t
  | some claimant =>
    let has := clusterSlotsGet claimant.2.slots s
    if !clusterSlotsGet bm s then
      if has then t.setSlot c s false else t
    else
      -- another holder yields if it is outranked; one that is not makes the claimant lose
      let wins := (t.entries.mapIdx fun i o =>
        i == c || !clusterSlotsGet o.2.slots s || outranks claimant o).all id
      let t := t.mapNodes fun i o =>
        if i ≠ c ∧ clusterSlotsGet o.2.slots s = true ∧ outranks claimant o = true then
          { o.2 with slots := clusterSlotsSet o.2.slots s false }
        else o.2
      if wins then
        if has then t else t.setSlot c s true
      else if has then t.setSlot c s false
      else t

def eachSlot (step : NodeTable → Nat → NodeTable) (t : NodeTable) : NodeTable :=
  (List.range slotCount).foldl step t

/-- Both claim functions first raise the claimant's epoch and the current one. -/
def raiseEpochs (d : ClusterState) (c : Nat) (epoch : UInt64) : ClusterState :=
  (d.modify c fun n => { n with epoch := max n.epoch epoch }).raiseCurrent epoch

def clusterMergeClaims (d : ClusterState) (c : Nat) (bm : Bitmap) (epoch : UInt64) : ClusterState :=
  let me := d.table.myself
  let d := raiseEpochs d c epoch
  if me = some c then d
  else { d with table := eachSlot (mergeSlot bm c) d.table, slotOwnerDirty := true }

def adoptSlot (bm : Bitmap) (c : Nat) (t : NodeTable) (s : Nat) : NodeTable :=
  if !clusterSlotsGet bm s then t
  else t.mapNodes fun i e => { e.2 with slots := clusterSlotsSet e.2.slots s (i == c) }

def clusterAdoptClaims (d : ClusterState) (c : Nat) (bm : Bitmap) (epoch : UInt64) : ClusterState :=
  let d := raiseEpochs d c epoch
  { d with table := eachSlot (adoptSlot bm c) d.table, slotOwnerDirty := true }

def clusterNextEpoch (d : ClusterState) : ClusterState × UInt64 :=
  ({ d with currentEpoch := d.currentEpoch + 1 }, d.currentEpoch + 1)

/-- One slot of a promotion: it goes from the master at `m` to the promoted node at `c`. -/
def takeSlot (c m : Nat) (t : NodeTable) (s : Nat) : NodeTable :=
  if (t.entries[m]?).any fun e => clusterSlotsGet e.2.slots s then
    (t.setSlot m s false).setSlot c s true
  else t

/-- `cluster_failover_promote`: whether there was a promotion. -/
def clusterFailoverPromote (d : ClusterState) : ClusterState × Bool :=
  match d.table.myself.bind fun c => (d.table.entries[c]?).map fun e => (c, e.2) with
  | none => (d, false)
  | some (c, me) =>
    if !me.flags.has .slave then (d, false)
    else
      let (d, epoch) := clusterNextEpoch d
      let d := d.modify c fun n =>
        { n with
          flags := (n.flags.raise .master).drop .slave
          masterId := noMaster
          epoch := epoch }
      let d := match d.table.findStr me.masterId.1 with
        | none => d
        | some m => { d with table := eachSlot (takeSlot c m) d.table }
      ({ d with slotOwnerDirty := true }, true)

end Ddup.Cluster
