/-
Ddup.Cluster.Redbus — the Redis cluster bus of `core/redbus.c`.

The source reads the fields of a frame at fixed offsets; here a frame is read from front to back
(`decodeRedbus`), with the same checks, all of them before the first write. A handler gives the new
state and the bytes of its reply, or no reply where the source returns -1. What PUBLISH frames carry
is left to the server, so no content is read from them.
-/
import Ddup.Cluster.Bus

namespace Ddup.Cluster

open Ddup.Lib

/-! ## Frames -/

@[match_pattern] def redbusTypePing : Nat := 0
@[match_pattern] def redbusTypePong : Nat := 1
@[match_pattern] def redbusTypeMeet : Nat := 2
@[match_pattern] def redbusTypeFail : Nat := 3
@[match_pattern] def redbusTypePublish : Nat := 4
@[match_pattern] def redbusTypeAuthRequest : Nat := 5
@[match_pattern] def redbusTypeAuthAck : Nat := 6
@[match_pattern] def redbusTypeUpdate : Nat := 7
@[match_pattern] def redbusTypePublishshard : Nat := 10

def redbusHdrLen : Nat := 2256
def redbusGossipLen : Nat := 104
def redbusGossipMax : Nat := 10

structure RedHeader where
  totlen : Nat
  port : UInt16
  type : Nat
  count : Nat
  currentEpoch : UInt64
  configEpoch : UInt64
  sender : Bytes
  slots : Bitmap
  slaveof : Bytes
  ip : Bytes
  cport : UInt16
  flags : BitVec 16

structure RedGossip where
  id : NodeId
  ip : Bytes
  port : UInt16
  cport : UInt16
  flags : BitVec 16

inductive RedMessage
  | hello (h : RedHeader) (sender : NodeId) (gossip : List RedGossip)
  | update (epoch : UInt64) (id : NodeId) (slots : Bitmap)
  | fail (id : NodeId)
  | authRequest (h : RedHeader)
  | authAck (h : RedHeader)
  | ignored

/-! ## Reading a frame -/

/-- `get16be`, `get32be` and `get64be`. -/
def readBe (w : Nat) : Dec Nat := do
  let b ← Dec.bytes w
  return leNat b.reverse

def readHeader : Dec RedHeader := do
  let magic ← Dec.bytes 4
  let totlen ← readBe 4
  let _version ← readBe 2
  let port ← readBe 2
  let type ← readBe 2
  let count ← readBe 2
  let currentEpoch ← readBe 8
  let configEpoch ← readBe 8
  let _offset ← readBe 8
  let sender ← Dec.bytes 40
  let slots ← Dec.bytes 2048
  let slaveof ← Dec.bytes 40
  let ip ← Dec.bytes 46
  let _unused ← Dec.bytes 34
  let cport ← readBe 2
  let flags ← readBe 2
  let _state ← Dec.bytes 4
  if magic = text "RCmb" then
    return ⟨totlen, UInt16.ofNat port, type, count, UInt64.ofNat currentEpoch,
      UInt64.ofNat configEpoch, sender, bitmapOf slots, slaveof, ip, UInt16.ofNat cport,
      BitVec.ofNat 16 flags⟩
  else Dec.fail

def readRedGossip : Dec RedGossip := do
  let id ← readId
  let _times ← Dec.bytes 8
  let ip ← Dec.bytes 46
  let port ← readBe 2
  let cport ← readBe 2
  let flags ← readBe 2
  let _unused ← Dec.bytes 4
  return ⟨id, ip, UInt16.ofNat port, UInt16.ofNat cport, BitVec.ofNat 16 flags⟩

def nameIsZero (p : Bytes) : Bool := p.all (· == 0)

def readHello (h : RedHeader) : Dec RedMessage := do
  let gossip ← Dec.gather readRedGossip h.count
  if hid : IdValid h.sender then
    if nameIsZero h.slaveof ∨ IdValid h.slaveof then return .hello h ⟨h.sender, hid⟩ gossip
    else Dec.fail
  else Dec.fail

def readUpdate : Dec RedMessage := do
  let epoch ← readBe 8
  let id ← readId
  let slots ← Dec.bytes 2048
  return .update (UInt64.ofNat epoch) id (bitmapOf slots)

def readFail : Dec RedMessage := do
  let id ← readId
  return .fail id

def readPublish : Dec RedMessage := do
  let chlen ← readBe 4
  let mlen ← readBe 4
  let _content ← Dec.bytes (chlen + mlen)
  return .ignored

def payload (d : Dec RedMessage) (rest : Bytes) : Option RedMessage :=
  match d rest with
  | some (m, []) => some m
  | _ => none

def plainPayload (h : RedHeader) (d : Dec RedMessage) (rest : Bytes) : Option RedMessage :=
  if h.count ≠ 0 then none else payload d rest

/-- The checks of `redbus_handle_frame` before its first write, and what the frame holds. -/
def decodeRedbus (frame : Bytes) : Option RedMessage :=
  match readHeader frame with
  | none => none
  | some (h, rest) =>
    if h.totlen ≠ frame.length ∨ rest.length < h.count * redbusGossipLen then none
    else
      match h.type with
      | redbusTypePing => payload (readHello h) rest
      | redbusTypePong => payload (readHello h) rest
      | redbusTypeMeet => payload (readHello h) rest
      | redbusTypeUpdate => plainPayload h readUpdate rest
      | redbusTypeFail => plainPayload h readFail rest
      | redbusTypeAuthRequest => plainPayload h (pure (.authRequest h)) rest
      | redbusTypeAuthAck => plainPayload h (pure (.authAck h)) rest
      | redbusTypePublish => plainPayload h readPublish rest
      | redbusTypePublishshard => plainPayload h readPublish rest
      | _ => some .ignored

/-! ## Building a frame -/

/-- The flags that nodes tell one another, by their bits on the wire. -/
def wireFlags : List (Nat × NodeFlag) :=
  [(0, .master), (1, .slave), (5, .handshake), (6, .noaddr), (2, .pfail), (3, .fail)]

/-- `flags_from_wire`: the own flag is not taken over. -/
def flagsFromWire (f : BitVec 16) : Flags :=
  wireFlags.foldl (fun g x => if f.getLsbD x.1 then g.raise x.2 else g) 0

def flagsToWire (n : ClusterNode) : BitVec 16 :=
  ((4, .myself) :: wireFlags).foldl
    (fun f x => if n.flags.has x.2 then f ||| BitVec.twoPow 16 x.1 else f) 0

/-- `put16be`, `put32be` and `put64be`. -/
def beBytes (w n : Nat) : Bytes := (leBytes w n).reverse

def slaveofField (n : ClusterNode) : Bytes :=
  if n.masterId.1.head? = some 45 then List.replicate 40 0 else masterField n

def ipField (n : ClusterNode) : Bytes :=
  n.ip.1.take 45 ++ List.replicate (46 - (n.ip.1.take 45).length) 0

/-- `write_header`, with the fields the callers patch. -/
def headerBytes (sn : NodeId × ClusterNode) (type count : Nat) (currentEpoch configEpoch : UInt64)
    (slots : Bitmap) : Bytes :=
  text "RCmb" ++ (beBytes 4 (redbusHdrLen + count * redbusGossipLen) ++ (beBytes 2 1 ++
    (beBytes 2 sn.2.port.toNat ++ (beBytes 2 type ++ (beBytes 2 count ++
    (beBytes 8 currentEpoch.toNat ++ (beBytes 8 configEpoch.toNat ++ (beBytes 8 0 ++
    (sn.1.1 ++ (bitmapBytes slots ++ (slaveofField sn.2 ++ (ipField sn.2 ++
    (List.replicate 34 0 ++ (beBytes 2 sn.2.busPort.toNat ++
    (beBytes 2 (flagsToWire sn.2).toNat ++ List.replicate 4 0)))))))))))))))

def gossipEntryBytes (e : NodeId × ClusterNode) : Bytes :=
  e.1.1 ++ (beBytes 4 (e.2.pingSentMs.toNat / 1000) ++ (beBytes 4 (e.2.lastSeenMs.toNat / 1000) ++
    (ipField e.2 ++ (beBytes 2 e.2.port.toNat ++ (beBytes 2 e.2.busPort.toNat ++
    (beBytes 2 (flagsToWire e.2).toNat ++ List.replicate 4 0))))))

def redbusBuildFrame (d : ClusterState) (type : Nat) : Option Bytes := do
  let i ← d.table.sender
  let sn ← d.table.entries[i]?
  let gossip := if type = redbusTypeAuthRequest ∨ type = redbusTypeAuthAck then []
    else (d.table.entries.eraseIdx i).take redbusGossipMax
  return headerBytes sn type gossip.length d.currentEpoch sn.2.epoch sn.2.slots ++
    gossip.flatMap gossipEntryBytes

/-- `redbus_build_auth_request`: the claim in it is that of the own master, if it is known. -/
def redbusBuildAuthRequest (d : ClusterState) (electionEpoch : UInt64) : Option Bytes := do
  let i ← d.table.sender
  let sn ← d.table.entries[i]?
  let me := d.table.myself.bind (d.table.entries[·]?)
  let m := (me.bind fun e => d.table.findStr e.2.masterId.1).bind (d.table.entries[·]?)
  let claim := ((m.getD sn).2.epoch, (m.getD sn).2.slots)
  return headerBytes sn redbusTypeAuthRequest 0 electionEpoch claim.1 claim.2

/-! ## Handling a frame -/

/-- The record `apply_node` writes; without an address in the frame, that of the connection counts. -/
def appliedNode (ip srcIp : Bytes) (port cport : UInt16) (flags : Flags) (slaveof : Option Bytes)
    (epoch : UInt64) (n : ClusterNode) : ClusterNode :=
  let useIp := if ip.head? = some 0 then srcIp else ip
  { n with
    ip := if useIp = [] then n.ip else CStr.print 64 ipRoom useIp
    port := port
    busPort := cport
    flags := flags
    masterId := match slaveof with
      | none => n.masterId
      | some name => if nameIsZero name then noMaster else CStr.print 41 idRoom name
    epoch := max n.epoch epoch }

/-- `apply_node`: the state and the node's place, unless the table is full. -/
def applyNode (d : ClusterState) (id : NodeId) (record : ClusterNode → ClusterNode) (epoch : UInt64) :
    Option (ClusterState × Nat) :=
  (d.table.add id).map fun r => (({ d with table := r.1 }.modify r.2 record).raiseCurrent epoch, r.2)

def redGossipStep (c : Nat) (now : UInt64) (srcIp : Bytes) (d : ClusterState) (g : RedGossip) :
    ClusterState :=
  match d.table.find g.id with
  | none =>
    let flags := (flagsFromWire g.flags).raise .handshake
    ((applyNode d g.id (appliedNode g.ip srcIp g.port g.cport flags none 0) 0).map Prod.fst).getD d
  | some i => gossipReport c i (g.flags.getLsbD 2 || g.flags.getLsbD 3) now d

def redSender (h : RedHeader) (now : UInt64) (d : ClusterState) (c : Nat) : ClusterState :=
  let d := if h.type = redbusTypeMeet then d.modify c fun n => { n with flags := n.flags.drop .handshake }
    else d
  let d := clusterMergeClaims d c h.slots h.configEpoch
  (d.modify c fun n => { n with lastSeenMs := now }).raiseCurrent h.currentEpoch

/-- The requester is a replica whose master has failed, and no other owner of a slot it claims has a
    newer epoch. -/
def voteDeserved (d : ClusterState) (h : RedHeader) : Bool :=
  match (d.table.findStr h.sender).bind fun i => (d.table.entries[i]?).map fun e => (i, e.2) with
  | none => false
  | some (i, sender) =>
    sender.flags.has .slave &&
      (((d.table.findStr sender.masterId.1).bind (d.table.entries[·]?)).any fun m =>
        m.2.flags.has .fail) &&
      (List.range slotCount).all fun s => !clusterSlotsGet h.slots s ||
        (d.table.entries.mapIdx fun j o =>
          j == i || !clusterSlotsGet o.2.slots s || decide (o.2.epoch ≤ h.configEpoch)).all id

def handleAuthRequest (d : ClusterState) (h : RedHeader) : ClusterState × Option Bytes :=
  let me := d.table.myself.bind (d.table.entries[·]?)
  if !me.any (fun e => e.2.flags.has .master && servesSlots e.2) then (d, some [])
  else
    let d := d.raiseCurrent h.currentEpoch
    if h.currentEpoch < d.currentEpoch ∨ d.lastVoteEpoch = d.currentEpoch then (d, some [])
    else if !voteDeserved d h then (d, some [])
    else
      match redbusBuildFrame d redbusTypeAuthAck with
      | none => (d, none)
      | some ack => ({ d with lastVoteEpoch := d.currentEpoch }, some ack)

def handleAuthAck (d : ClusterState) (h : RedHeader) : ClusterState :=
  if d.failoverReqEpoch = 0 ∨ h.currentEpoch < d.failoverReqEpoch then d
  else
    match (d.table.findStr h.sender).bind fun i => (d.table.entries[i]?).map fun e => (i, e.2) with
    | none => d
    | some (i, sender) =>
      if sender.flags.has .master && servesSlots sender && !d.ackMask.getLsbD i then
        { d with ackMask := d.ackMask ||| BitVec.twoPow 32 i, ackCount := d.ackCount + 1 }
      else d

/-- An UPDATE frame: what it says of the own node is adopted. -/
def updateClaims (d : ClusterState) (epoch : UInt64) (id : NodeId) (slots : Bitmap) : ClusterState :=
  let claimed : ClusterState := match d.table.find id with
    | none => d
    | some i =>
      if (d.table.entries[i]?).any (fun e => e.2.flags.has .myself) then
        clusterAdoptClaims d i slots epoch
      else clusterMergeClaims d i slots epoch
  claimed.raiseCurrent epoch

/-- `redbus_handle_frame`: the state, and the reply unless it returns -1. -/
def redbusHandleFrame (d : ClusterState) (frame : Bytes) (now : UInt64) (srcIp : Bytes) :
    ClusterState × Option Bytes :=
  match decodeRedbus frame with
  | none => (d, none)
  | some .ignored => (d, some [])
  | some (.update epoch id slots) => (updateClaims d epoch id slots, some [])
  | some (.fail id) =>
    match d.table.find id with
    | none => (d, some [])
    | some i => (d.modify i fun n => clusterMarkFail n now, some [])
  | some (.authRequest h) => handleAuthRequest d h
  | some (.authAck h) => (handleAuthAck d h, some [])
  | some (.hello h sender gossip) =>
    let record := appliedNode h.ip srcIp h.port h.cport (flagsFromWire h.flags) (some h.slaveof) h.configEpoch
    match applyNode d sender record h.configEpoch with
    | none => (d, none)
    | some (d, c) =>
      let d := gossip.foldl (redGossipStep c now srcIp) (redSender h now d c)
      if h.type = redbusTypePong then ({ d with slotOwnerDirty := true }, some [])
      else
        match redbusBuildFrame d redbusTypePong with
        | none => (d, none)
        | some reply => ({ d with slotOwnerDirty := true }, some reply)

end Ddup.Cluster
