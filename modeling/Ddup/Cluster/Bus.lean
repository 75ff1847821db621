/-
Ddup.Cluster.Bus — the cluster bus of `core/cluster.c`: PING, PONG, MEET and FAIL frames.

A frame is read in one pass before anything is written (`decodeBus`); the source then goes over the
same bytes a second time, and only the master of a gossip entry is checked in that pass. A handler
gives the new state and the bytes of its reply, or no reply where the source returns -1. The bytes
behind the NUL of a master id go out as zeros.
-/
import Ddup.Cluster.State

namespace Ddup.Cluster

open Ddup.Lib

/-! ## Frames -/

/-- A node as it stands in a frame; the address may have a NUL in it. -/
structure WireNode where
  id : NodeId
  ip : Bytes
  port : UInt16
  busPort : UInt16
  flags : Flags

/-- What version 2 adds to a node: the 40 bytes of its master, and its config epoch. -/
structure WireExt where
  master : Bytes
  epoch : UInt64

structure GossipEntry where
  node : WireNode
  slots : Bytes
  ext : Option WireExt

structure BusFrame where
  type : Nat
  sender : WireNode
  slots : Bitmap
  ext : Option WireExt
  gossip : List GossipEntry

inductive BusMessage
  | fail (subject : Bytes)
  | hello (frame : BusFrame)

def clusterMsgPing : Nat := 1
def clusterMsgPong : Nat := 2
def clusterMsgMeet : Nat := 3
def clusterMsgFail : Nat := 5
def clusterMsgMax : Nat := 16384

def busMagicV1 : Bytes := text "RCMB"
def busMagicV2 : Bytes := text "RCM2"

/-- A frame without epochs counts as epoch 0. -/
def wireEpoch (ext : Option WireExt) : UInt64 := (ext.map WireExt.epoch).getD 0

/-- A master field: `-` and a NUL, or an id. -/
def masterOk (m : Bytes) : Bool := m.take 2 == [45, 0] || decide (IdValid m)

/-! ## Reading a frame -/

def readId : Dec NodeId := do
  let b ← Dec.bytes 40
  if h : IdValid b then return ⟨b, h⟩ else Dec.fail

def readNode : Dec WireNode := do
  let id ← readId
  let ipl ← Dec.le 2
  if 64 ≤ ipl then Dec.fail
  else do
    let ip ← Dec.bytes ipl
    let port ← Dec.le 2
    let busPort ← Dec.le 2
    let flags ← Dec.le 4
    return ⟨id, ip, UInt16.ofNat port, UInt16.ofNat busPort, BitVec.ofNat 32 flags⟩

def readExt (v2 : Bool) : Dec (Option WireExt) :=
  if v2 then do
    let master ← Dec.bytes 40
    let epoch ← Dec.le 8
    return some ⟨master, UInt64.ofNat epoch⟩
  else return none

def readGossip (v2 : Bool) : Dec GossipEntry := do
  let node ← readNode
  let slen ← Dec.le 2
  let slots ← Dec.bytes slen
  let ext ← readExt v2
  return ⟨node, slots, ext⟩

def readFrame (v2 : Bool) (type : Nat) : Dec BusFrame := do
  let sender ← readNode
  let slots ← Dec.bytes 2048
  let ext ← readExt v2
  if (ext.map WireExt.master).all masterOk then do
    let gc ← Dec.le 2
    let gossip ← Dec.gather (readGossip v2) gc
    return ⟨type, sender, bitmapOf slots, ext, gossip⟩
  else Dec.fail

/-- Whether a frame is of version 2; absent for another magic. -/
def frameVersion (frame : Bytes) : Option Bool :=
  if frame.take 4 = busMagicV2 then some true
  else if frame.take 4 = busMagicV1 then some false
  else none

/-- The checks of `cluster_bus_handle_frame` before its first write, and what the frame holds. -/
def decodeBus (frame : Bytes) : Option BusMessage := do
  if frame.length < 10 then none
  else
    let v2 ← frameVersion frame
    let totlen := leNat ((frame.drop 4).take 4)
    if totlen ≠ frame.length ∨ clusterMsgMax < totlen then none
    else
      let type := leNat ((frame.drop 8).take 2)
      if type = clusterMsgFail then
        if totlen ≠ 50 then none else return .fail ((frame.drop 10).take 40)
      else if type < clusterMsgPing ∨ clusterMsgMeet < type then none
      else
        match readFrame v2 type (frame.drop 10) with
        | some (f, []) => return .hello f
        | _ => none

/-! ## Building a frame -/

/-- The node a frame is sent as: the own entry, or the first one if there is none. -/
def NodeTable.sender (t : NodeTable) : Option Nat :=
  match t.myself with
  | some i => some i
  | none => if t.entries = [] then none else some 0

def nodeBytes (e : NodeId × ClusterNode) : Bytes :=
  e.1.1 ++ (leBytes 2 e.2.ip.1.length ++ (e.2.ip.1 ++ (leBytes 2 e.2.port.toNat ++
    (leBytes 2 e.2.busPort.toNat ++ leBytes 4 e.2.flags.toNat))))

def masterField (n : ClusterNode) : Bytes :=
  n.masterId.1 ++ List.replicate (40 - n.masterId.1.length) 0

def extBytes (n : ClusterNode) : Bytes := masterField n ++ leBytes 8 n.epoch.toNat

/-- `CLUSTER_GOSSIP_MAX`. -/
def clusterGossipMax : Nat := 10

def gossipBytes (e : NodeId × ClusterNode) : Bytes :=
  let slots := (clusterSlotsRender e.2.slots 256).getD []
  nodeBytes e ++ (leBytes 2 slots.length ++ (slots ++ extBytes e.2))

def NodeTable.gossip (t : NodeTable) (i : Nat) : List (NodeId × ClusterNode) :=
  (t.entries.eraseIdx i).take clusterGossipMax

def clusterBusBuildFrame (d : ClusterState) (type : Nat) : Option Bytes := do
  let i ← d.table.sender
  let sn ← d.table.entries[i]?
  let gossip := d.table.gossip i
  let body := nodeBytes sn ++ (bitmapBytes sn.2.slots ++ (extBytes sn.2 ++
    (leBytes 2 gossip.length ++ gossip.flatMap gossipBytes)))
  let total := 10 + body.length
  if clusterMsgMax < total then none
  else return busMagicV2 ++ (leBytes 4 total ++ (leBytes 2 type ++ body))

/-! ## Handling a frame -/

/-- A master's word on a known third node: a failure is reported, a clean view takes the report
    back. `c` is the sender, `i` the node in question. -/
def gossipReport (c i : Nat) (failing : Bool) (now : UInt64) (d : ClusterState) : ClusterState :=
  match d.table.entries[c]?, d.table.entries[i]? with
  | some n, some g =>
    if !g.2.flags.has .myself && n.2.flags.has .master then
      if failing then
        clusterMarkFailIfQuorum (d.modify i fun g => clusterReportFailure g n.1 now) i now
      else d.modify i fun g => clusterReportHeal g n.1
    else d
  | _, _ => d

def gossipNode (g : GossipEntry) (n : ClusterNode) : ClusterNode :=
  { n with
    ip := CStr.print 64 ipRoom g.node.ip
    port := g.node.port
    busPort := g.node.busPort
    flags := (g.node.flags.drop .myself).raise .handshake
    masterId := match g.ext with
      | some x => CStr.print 41 idRoom x.master
      | none => n.masterId }

/-- A gossip entry in a frame of the node at `c`: an unseen node is added, the claims of a known one
    are merged if they are at least as fresh as its epoch. -/
def gossipStep (c : Nat) (now : UInt64) (d : ClusterState) (g : GossipEntry) : ClusterState :=
  match d.table.find g.node.id with
  | some i =>
    let d := gossipReport c i (g.node.flags.has .pfail || g.node.flags.has .fail) now d
    match g.ext, d.table.entries[i]? with
    | some x, some o =>
      if o.2.epoch ≤ x.epoch then clusterMergeClaims d i (clusterSlotsParse g.slots) x.epoch else d
    | _, _ => d
  | none =>
    match d.table.add g.node.id with
    | none => d
    | some (t, i) =>
      clusterMergeClaims ({ d with table := t }.modify i (gossipNode g)) i (clusterSlotsParse g.slots)
        (wireEpoch g.ext)

/-- The gossip loop; it stops at an entry with a malformed master. -/
def gossipLoop (c : Nat) (now : UInt64) : ClusterState → List GossipEntry → ClusterState × Bool
  | d, [] => (d, true)
  | d, g :: gs =>
    if (g.ext.map WireExt.master).all masterOk then gossipLoop c now (gossipStep c now d g) gs
    else (d, false)

def senderNode (f : BusFrame) (now : UInt64) (n : ClusterNode) : ClusterNode :=
  let flags := f.sender.flags.drop .myself
  { n with
    ip := CStr.print 64 ipRoom f.sender.ip
    port := f.sender.port
    busPort := f.sender.busPort
    flags := if f.type = clusterMsgMeet then flags.drop .handshake else flags
    lastSeenMs := now
    masterId := match f.ext with
      | some x => CStr.print 41 idRoom x.master
      | none => n.masterId }

def applySender (f : BusFrame) (now : UInt64) (t : NodeTable) (c : Nat) (d : ClusterState) :
    ClusterState :=
  clusterMergeClaims ({ d with table := t }.modify c (senderNode f now)) c f.slots (wireEpoch f.ext)

/-- `cluster_bus_handle_frame`: the state, and the reply unless it returns -1. -/
def clusterBusHandleFrame (d : ClusterState) (frame : Bytes) (now : UInt64) :
    ClusterState × Option Bytes :=
  match decodeBus frame with
  | none => (d, none)
  | some (.fail subject) =>
    match d.table.findStr subject with
    | none => (d, some [])
    | some i => (d.modify i fun n => clusterMarkFail n now, some [])
  | some (.hello f) =>
    match d.table.add f.sender.id with
    | none => (d, none)
    | some (t, c) =>
      match gossipLoop c now (applySender f now t c d) f.gossip with
      | (d, false) => (d, none)
      | (d, true) =>
        if f.type = clusterMsgPong then ({ d with slotOwnerDirty := true }, some [])
        else
          match clusterBusBuildFrame d clusterMsgPong with
          | none => (d, none)
          | some reply => ({ d with slotOwnerDirty := true }, some reply)

end Ddup.Cluster
