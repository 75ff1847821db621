/-
Ddup.Cluster.OwnEntryTheorems — what bus frames, node lines and promotions do to the own entry, and
what a refused frame leaves behind.

Every step leaves the flag of the own node where it is, or writes one node's record with a flag that
the input decides: a PING, PONG or MEET frame clears its sender's (`Strips`), a line of `nodes.conf`
sets that of its node from its text. So the own entry is kept exactly by the inputs in
`ClusterEvent.Keeps`.
-/
import Ddup.Cluster.GossipTheorems
import Ddup.Cluster.NodesConfTheorems
import Ddup.Cluster.Redbus

namespace Ddup.Cluster

open Ddup.Lib
open Option (bind_some some_ne_none)

variable {f : ClusterNode → ClusterNode} {d : ClusterState} {c : Nat} {frame : Bytes}

/-! ## The flag of the own node -/

namespace NodeTable

variable {t t' : NodeTable} {id : NodeId} {n : ClusterNode} {i : Nat}

def Carries (t : NodeTable) (x : NodeId) : Prop := (x, true) ∈ t.selves

theorem carries_iff {x : NodeId} :
    t.Carries x ↔ ∃ n, t.get? x = some n ∧ n.flags.has .myself = true := by
  simp only [Carries, selves, List.mem_map, Prod.mk.injEq, get?_eq_some]
  constructor
  · rintro ⟨⟨_, n⟩, hmem, rfl, hflag⟩
    exact ⟨n, hmem, hflag⟩
  · rintro ⟨n, hmem, hflag⟩
    exact ⟨(x, n), hmem, rfl, hflag⟩

theorem carries_modify (h : t.entries[i]? = some (id, n)) (f : ClusterNode → ClusterNode) (x : NodeId) :
    (t.modify i f).Carries x ↔ if x = id then (f n).flags.has .myself = true else t.Carries x := by
  rw [carries_iff, carries_iff, get?_modify h]
  split_ifs with hx <;> simp

theorem carries_add (h : t.add id = some (t', i)) (x : NodeId) : t'.Carries x ↔ t.Carries x := by
  rcases add_selves h with heq | ⟨-, heq⟩ <;> simp [Carries, heq]

theorem carries_record (h : t.add id = some (t', i)) {b : Bool}
    (hf : ∀ n, (f n).flags.has .myself = b) (x : NodeId) :
    (t'.modify i f).Carries x ↔ if x = id then b = true else t.Carries x := by
  obtain ⟨n, hn⟩ := add_get h
  rw [carries_modify hn, hf, carries_add h]

end NodeTable

/-- The own node, and only it, has the flag. -/
def OwnEntry (d : ClusterState) : Prop := ∀ x, d.table.Carries x ↔ x = d.nodeId

structure SameOwn (d d' : ClusterState) : Prop where
  nodeId : d'.nodeId = d.nodeId
  nonempty : d.table.selves ≠ [] → d'.table.selves ≠ []
  carries : ∀ x, d'.table.Carries x ↔ d.table.Carries x

namespace SameOwn

variable {d d' d'' : ClusterState}

theorem refl (d : ClusterState) : SameOwn d d := ⟨rfl, id, fun _ => Iff.rfl⟩

theorem trans (h : SameOwn d d') (h' : SameOwn d' d'') : SameOwn d d'' :=
  ⟨h'.nodeId.trans h.nodeId, h'.nonempty ∘ h.nonempty, fun x => (h'.carries x).trans (h.carries x)⟩

theorem of_selves (hid : d'.nodeId = d.nodeId)
    (h : d'.table.selves = d.table.selves ∨ ∃ id, d'.table.selves = d.table.selves ++ [(id, false)]) :
    SameOwn d d' := by
  refine ⟨hid, ?_, fun x => ?_⟩ <;> rcases h with h | ⟨id, h⟩ <;> simp [NodeTable.Carries, h]

theorem of_table (hid : d'.nodeId = d.nodeId) (h : d'.table = d.table) : SameOwn d d' :=
  of_selves hid (.inl (congrArg NodeTable.selves h))

theorem of_keeps (h : Keeps d d') : SameOwn d d' := of_selves h.nodeId (.inl h.selves)

theorem modify {i : Nat}
    (hf : ∀ n, (f n).flags.has .myself = n.flags.has .myself) : SameOwn d (d.modify i f) :=
  of_selves rfl (.inl (NodeTable.selves_modify hf))

theorem merge (d : ClusterState) (i : Nat) (bm : Bitmap) (e : UInt64) :
    SameOwn d (clusterMergeClaims d i bm e) := by
  refine of_selves ?_ (.inl (merge_selves d i bm e))
  simp only [clusterMergeClaims]
  split_ifs <;> rfl

theorem adopt (d : ClusterState) (i : Nat) (bm : Bitmap) (e : UInt64) :
    SameOwn d (clusterAdoptClaims d i bm e) := by
  have hstep : ∀ t s, (adoptSlot bm i t s).selves = t.selves := by
    intro t s
    rw [adoptSlot]
    split_ifs
    · rfl
    · exact NodeTable.map_mapNodes _ fun _ _ _ => rfl
  have hraise : (raiseEpochs d i e).table.selves = d.table.selves := NodeTable.selves_modify fun _ => rfl
  refine of_selves ?_ (.inl ?_) <;> simp only [clusterAdoptClaims]
  · rfl
  · rw [NodeTable.eachSlot_selves hstep, hraise]

theorem ownEntry_iff (h : SameOwn d d') : OwnEntry d' ↔ OwnEntry d :=
  forall_congr' fun x => by rw [h.carries, h.nodeId]

end SameOwn

structure Strips (d : ClusterState) (id : NodeId) (d' : ClusterState) : Prop where
  nodeId : d'.nodeId = d.nodeId
  nonempty : d'.table.selves ≠ []
  carries : ∀ x, d'.table.Carries x ↔ x ≠ id ∧ d.table.Carries x

namespace Strips

variable {d d' d'' : ClusterState} {id : NodeId}

theorem same (h : Strips d id d') (h' : SameOwn d' d'') : Strips d id d'' :=
  ⟨h'.nodeId.trans h.nodeId, h'.nonempty h.nonempty, fun x => (h'.carries x).trans (h.carries x)⟩

theorem ownEntry_iff (h : Strips d id d') (hown : OwnEntry d) : OwnEntry d' ↔ id ≠ d.nodeId := by
  constructor
  · intro hown' heq
    have hself := (hown' d.nodeId).mpr h.nodeId.symm
    exact ((h.carries _).mp hself).1 heq.symm
  · intro hne x
    rw [h.carries, hown, h.nodeId]
    exact and_iff_right_of_imp fun hx => hx.trans_ne hne.symm

end Strips

theorem strips_record {id : NodeId} {t : NodeTable} (hadd : d.table.add id = some (t, c))
    (hf : ∀ n, (f n).flags.has .myself = false) : Strips d id ({ d with table := t }.modify c f) := by
  obtain ⟨n, hn⟩ := NodeTable.add_get hadd
  refine ⟨rfl, fun hnil => ?_, fun x => ?_⟩
  · have hempty : (t.modify c f).entries = [] := List.map_eq_nil_iff.mp hnil
    have hget := NodeTable.modify_getElem? t c f c
    rw [hn, hempty] at hget
    cases hget
  · show (t.modify c f).Carries x ↔ _
    rw [NodeTable.carries_record hadd hf]
    split_ifs with hx <;> simp [hx]

theorem OwnEntry.add_own (h : OwnEntry d) : d.table.add d.nodeId ≠ none := by
  obtain ⟨n, hn, -⟩ := NodeTable.carries_iff.mp ((h d.nodeId).mpr rfl)
  obtain ⟨i, hi, -⟩ := NodeTable.find_of_get? hn
  rw [NodeTable.add_known hi]
  exact some_ne_none _

/-! ## The cluster bus -/

theorem gossipStep_own (c : Nat) (now : UInt64) (d : ClusterState) (g : GossipEntry) :
    SameOwn d (gossipStep c now d g) := by
  rcases gossipStep_cases c now d g with hkeeps | ⟨d₁, i, n, -, hid, -, hselves, heq⟩
  · exact .of_keeps hkeeps
  · rw [heq]
    exact (SameOwn.of_selves hid (hselves.imp_right fun h => ⟨_, h⟩)).trans (.merge ..)

/-- A frame that is read clears the flag of its sender, and no other. -/
theorem bus_strips {f : BusFrame} {t : NodeTable} (now : UInt64)
    (hf : decodeBus frame = some (.hello f)) (hadd : d.table.add f.sender.id = some (t, c)) :
    Strips d f.sender.id (clusterBusHandleFrame d frame now).1 := by
  have hsender : Strips d f.sender.id (applySender f now t c d) :=
    (strips_record hadd (senderNode_myself f now)).same (.merge ..)
  have hloop : Strips d f.sender.id (gossipLoop c now (applySender f now t c d) f.gossip).1 :=
    gossipLoop_keeps (fun g _ d' h => h.same (gossipStep_own c now d' g)) hsender
  rw [(handle_hello now hf hadd).2.2]
  exact ⟨hloop.nodeId, hloop.nonempty, hloop.carries⟩

theorem bus_own_iff (hown : OwnEntry d) (frame : Bytes) (now : UInt64) :
    OwnEntry (clusterBusHandleFrame d frame now).1 ↔
      ∀ f, decodeBus frame = some (.hello f) → f.sender.id ≠ d.nodeId := by
  cases hdecode : decodeBus frame with
  | none => simpa [clusterBusHandleFrame, hdecode] using hown
  | some m =>
    cases m with
    | fail subject =>
      simp only [clusterBusHandleFrame, hdecode, Option.some.injEq, reduceCtorEq, false_implies,
        implies_true, iff_true]
      split
      · exact hown
      · exact (SameOwn.of_keeps (markFail_keeps d _ now)).ownEntry_iff.mpr hown
    | hello f =>
      simp only [Option.some.injEq, BusMessage.hello.injEq, forall_eq']
      cases hadd : d.table.add f.sender.id with
      | some r => exact (bus_strips now hdecode hadd).ownEntry_iff hown
      | none =>
        simp only [clusterBusHandleFrame, hdecode, hadd]
        refine iff_of_true hown fun heq => ?_
        rw [heq] at hadd
        exact hown.add_own hadd

/-! ## The Redis bus -/

theorem flagsFromWire_myself (f : BitVec 16) : (flagsFromWire f).has .myself = false := by
  refine List.foldlRecOn (motive := fun g : Flags => g.has .myself = false) _ _ (by decide) ?_
  intro g hg x hx
  have hne : NodeFlag.myself ≠ x.2 := by
    revert x
    decide
  split_ifs
  · rw [has_raise_of_ne g hne, hg]
  · exact hg

theorem applyNode_strips {d' : ClusterState} {id : NodeId} {e : UInt64} (h : applyNode d id f e = some (d', c)) (hf : ∀ n, (f n).flags.has .myself = false) :
    Strips d id d' := by
  obtain ⟨r, hadd, heq⟩ := Option.map_eq_some_iff.mp h
  cases heq
  exact (strips_record hadd hf).same (.of_table rfl rfl)

theorem redGossipStep_own (c : Nat) (now : UInt64) (srcIp : Bytes) (d : ClusterState) (g : RedGossip) :
    SameOwn d (redGossipStep c now srcIp d g) := by
  unfold redGossipStep
  split
  · rename_i hnone
    dsimp only
    cases happly : applyNode d g.id (appliedNode g.ip srcIp g.port g.cport
        ((flagsFromWire g.flags).raise .handshake) none 0) 0 with
    | none => exact .refl d
    | some r =>
      have hflag : ((flagsFromWire g.flags).raise .handshake).has .myself = false := by
        rw [has_raise_of_ne _ (by decide), flagsFromWire_myself]
      have hstrips := applyNode_strips happly fun _ => hflag
      refine ⟨hstrips.nodeId, fun _ => hstrips.nonempty, fun x => (hstrips.carries x).trans (and_iff_right_of_imp ?_)⟩
      rintro hcarries rfl
      obtain ⟨n, hn, -⟩ := NodeTable.carries_iff.mp hcarries
      rw [NodeTable.get?_eq_none.mpr hnone] at hn
      cases hn
  · exact .of_keeps (gossipReport_keeps ..)

theorem redSender_own (h : RedHeader) (now : UInt64) (d : ClusterState) (c : Nat) :
    SameOwn d (redSender h now d c) := by
  have hmeet : SameOwn d (if h.type = redbusTypeMeet then
      d.modify c fun n => { n with flags := n.flags.drop .handshake } else d) := by
    split_ifs
    · exact .modify fun n => has_drop_of_ne _ (by decide)
    · exact .refl d
  have hseen : ∀ d, SameOwn d
      ((d.modify c fun n => { n with lastSeenMs := now }).raiseCurrent h.currentEpoch) := fun d =>
    (SameOwn.modify (f := fun n => { n with lastSeenMs := now }) fun _ => rfl).trans (.of_table rfl rfl)
  exact (hmeet.trans (.merge ..)).trans (hseen _)

theorem updateClaims_own (d : ClusterState) (epoch : UInt64) (id : NodeId) (slots : Bitmap) :
    SameOwn d (updateClaims d epoch id slots) := by
  have hraise : ∀ d', SameOwn d' (d'.raiseCurrent epoch) := fun _ => .of_table rfl rfl
  simp only [updateClaims]
  split
  · exact hraise d
  split_ifs
  · exact (SameOwn.adopt ..).trans (hraise _)
  · exact (SameOwn.merge ..).trans (hraise _)

theorem handleAuthRequest_own (d : ClusterState) (h : RedHeader) : SameOwn d (handleAuthRequest d h).1 := by
  have hraise : SameOwn d (d.raiseCurrent h.currentEpoch) := .of_table rfl rfl
  simp only [handleAuthRequest]
  split_ifs
  · exact .refl d
  · exact hraise
  · exact hraise
  split
  · exact hraise
  · exact hraise.trans (.of_table rfl rfl)

theorem handleAuthAck_own (d : ClusterState) (h : RedHeader) : SameOwn d (handleAuthAck d h) := by
  unfold handleAuthAck
  split_ifs
  · exact .refl d
  split
  · exact .refl d
  split_ifs
  · exact .of_table rfl rfl
  · exact .refl d

theorem redbusBuildFrame_some (h : d.table.selves ≠ []) (type : Nat) :
    ∃ reply, redbusBuildFrame d type = some reply := by
  obtain ⟨i, sn, hi, hsn⟩ := sender_some fun hnil => h (List.map_eq_nil_iff.mpr hnil)
  simp only [redbusBuildFrame, hi, hsn, Option.bind_eq_bind, bind_some]
  exact ⟨_, rfl⟩

/-- A PING, PONG or MEET frame of a node there is room for: a reply can always be built. -/
theorem redbus_hello {d₁ : ClusterState} {h : RedHeader} {sender : NodeId}
    {gossip : List RedGossip} (now : UInt64) (srcIp : Bytes)
    (hf : decodeRedbus frame = some (.hello h sender gossip))
    (happly : applyNode d sender (appliedNode h.ip srcIp h.port h.cport (flagsFromWire h.flags)
      (some h.slaveof) h.configEpoch) h.configEpoch = some (d₁, c)) :
    Strips d sender (redbusHandleFrame d frame now srcIp).1 ∧
      (redbusHandleFrame d frame now srcIp).2 ≠ none := by
  have hsender : Strips d sender (redSender h now d₁ c) :=
    (applyNode_strips happly fun _ => flagsFromWire_myself h.flags).same (redSender_own h now d₁ c)
  have hafter : Strips d sender (gossip.foldl (redGossipStep c now srcIp) (redSender h now d₁ c)) :=
    List.foldlRecOn (motive := fun d' => Strips d sender d') _ _ hsender fun d' h g _ =>
      h.same (redGossipStep_own c now srcIp d' g)
  obtain ⟨reply, hreply⟩ := redbusBuildFrame_some hafter.nonempty redbusTypePong
  simp only [redbusHandleFrame, hf, happly, hreply]
  split_ifs
  · exact ⟨hafter.same (.of_table rfl rfl), some_ne_none _⟩
  · exact ⟨hafter.same (.of_table rfl rfl), some_ne_none _⟩

theorem handleAuthRequest_reply (d : ClusterState) (h : RedHeader) : (handleAuthRequest d h).2 ≠ none := by
  simp only [handleAuthRequest]
  split_ifs with hme
  · exact some_ne_none _
  · exact some_ne_none _
  · exact some_ne_none _
  have hne : d.table.selves ≠ [] := by
    intro hnil
    rw [NodeTable.myself_eq, hnil] at hme
    exact hme rfl
  obtain ⟨reply, hreply⟩ := redbusBuildFrame_some (d := d.raiseCurrent h.currentEpoch) hne
    redbusTypeAuthAck
  rw [hreply]
  exact some_ne_none _

/-- What a frame does: it clears the flag of its sender and is answered, or it leaves the flags alone
and, if it is refused, everything else. -/
theorem redbus_cases (d : ClusterState) (frame : Bytes) (now : UInt64) (srcIp : Bytes) :
    (∃ h sender gossip, decodeRedbus frame = some (.hello h sender gossip) ∧
      Strips d sender (redbusHandleFrame d frame now srcIp).1 ∧
      (redbusHandleFrame d frame now srcIp).2 ≠ none) ∨
    ((∀ h sender gossip, decodeRedbus frame = some (.hello h sender gossip) → d.table.add sender = none) ∧
      SameOwn d (redbusHandleFrame d frame now srcIp).1 ∧
      ((redbusHandleFrame d frame now srcIp).2 = none → (redbusHandleFrame d frame now srcIp).1 = d)) := by
  cases hdecode : decodeRedbus frame with
  | none => simp [redbusHandleFrame, hdecode, SameOwn.refl]
  | some m =>
    cases m with
    | hello h sender gossip =>
      cases happly : applyNode d sender (appliedNode h.ip srcIp h.port h.cport
          (flagsFromWire h.flags) (some h.slaveof) h.configEpoch) h.configEpoch with
      | some r => exact .inl ⟨h, sender, gossip, rfl, redbus_hello now srcIp hdecode happly⟩
      | none =>
        have hadd := Option.map_eq_none_iff.mp happly
        refine .inr ⟨fun _ _ _ heq => by cases heq; exact hadd, ?_⟩
        simp [redbusHandleFrame, hdecode, happly, SameOwn.refl]
    | ignored => simp [redbusHandleFrame, hdecode, SameOwn.refl]
    | update epoch id slots => simp [redbusHandleFrame, hdecode, updateClaims_own]
    | fail id =>
      cases hfind : d.table.find id with
      | none => simp [redbusHandleFrame, hdecode, hfind, SameOwn.refl]
      | some i =>
        simp [redbusHandleFrame, hdecode, hfind, SameOwn.of_keeps (markFail_keeps d i now)]
    | authRequest h =>
      simp [redbusHandleFrame, hdecode, handleAuthRequest_own, handleAuthRequest_reply]
    | authAck h => simp [redbusHandleFrame, hdecode, handleAuthAck_own]

theorem redbus_own_iff (hown : OwnEntry d) (frame : Bytes) (now : UInt64) (srcIp : Bytes) :
    OwnEntry (redbusHandleFrame d frame now srcIp).1 ↔
      ∀ h sender gossip, decodeRedbus frame = some (.hello h sender gossip) → sender ≠ d.nodeId := by
  rcases redbus_cases d frame now srcIp with ⟨h, sender, gossip, hf, hstrips, -⟩ | ⟨hfull, hsame, -⟩
  · rw [hstrips.ownEntry_iff hown]
    refine ⟨fun hne _ _ _ heq => ?_, fun hne => hne h sender gossip hf⟩
    rw [hf] at heq
    cases heq
    exact hne
  · refine iff_of_true (hsame.ownEntry_iff.mpr hown) fun h sender gossip hf heq => ?_
    exact hown.add_own (heq ▸ hfull h sender gossip hf)

/-! ## Lines and promotions -/

theorem takeSlot_selves (c m : Nat) (t : NodeTable) (s : Nat) : (takeSlot c m t s).selves = t.selves := by
  rw [takeSlot]
  split_ifs
  · rw [NodeTable.setSlot_selves, NodeTable.setSlot_selves]
  · rfl

theorem promote_own (d : ClusterState) : SameOwn d (clusterFailoverPromote d).1 := by
  have hself : ∀ n : ClusterNode, ((n.flags.raise .master).drop .slave).has .myself = n.flags.has .myself :=
    fun n => by rw [has_drop_of_ne _ (by decide), has_raise_of_ne _ (by decide)]
  unfold clusterFailoverPromote
  split
  · exact .refl d
  rename_i c me _
  dsimp only [clusterNextEpoch]
  split_ifs
  · exact .refl d
  have hflags : SameOwn d ({ d with currentEpoch := d.currentEpoch + 1 }.modify c fun n =>
      { n with
        flags := (n.flags.raise .master).drop .slave
        masterId := noMaster
        epoch := d.currentEpoch + 1 }) := .of_selves rfl (.inl (NodeTable.selves_modify hself))
  refine hflags.trans ?_
  split
  · exact .of_table rfl rfl
  rename_i m _
  refine .of_selves rfl (.inl ?_)
  rw [NodeTable.eachSlot_selves (takeSlot_selves c m)]

def loadLine (d : ClusterState) (line : Bytes) : ClusterState :=
  match clusterNodesParseLine d.table line with
  | none => d
  | some t => { d with table := t }

/-- The node a line is for and whether its flags have the own one; absent if the line is refused. -/
def lineSelf (t : NodeTable) (line : Bytes) : Option (NodeId × Bool) := do
  let l ← splitLine line
  let _ ← parseAddr l.addr
  if h : IdValid l.id then
    let _ ← t.add ⟨l.id, h⟩
    return (⟨l.id, h⟩, (flagsParse (cString l.flags)).has .myself)
  else none

theorem loadLine_cases (d : ClusterState) (line : Bytes) :
    lineSelf d.table line = none ∧ loadLine d line = d ∨
      ∃ id b t i f, lineSelf d.table line = some (id, b) ∧ d.table.add id = some (t, i) ∧
        loadLine d line = { d with table := t.modify i f } ∧ ∀ n, (f n).flags.has .myself = b := by
  simp only [lineSelf, loadLine, clusterNodesParseLine]
  cases splitLine line with
  | none => exact .inl ⟨rfl, rfl⟩
  | some l =>
    simp only [Option.bind_eq_bind, bind_some]
    cases parseAddr l.addr with
    | none => exact .inl ⟨rfl, rfl⟩
    | some a =>
      by_cases hid : IdValid l.id
      · simp only [dif_pos hid]
        cases hadd : d.table.add ⟨l.id, hid⟩ with
        | none => exact .inl ⟨rfl, rfl⟩
        | some r => exact .inr ⟨_, _, r.1, r.2, _, rfl, hadd, rfl, fun _ => rfl⟩
      · simp only [bind_some, dif_neg hid]
        exact .inl ⟨trivial, trivial⟩

theorem loadLine_own_iff (hown : OwnEntry d) (line : Bytes) :
    OwnEntry (loadLine d line) ↔
      ∀ id b, lineSelf d.table line = some (id, b) → (b = true ↔ id = d.nodeId) := by
  rcases loadLine_cases d line with ⟨hnone, heq⟩ | ⟨id, b, t, i, f, hself, hadd, heq, hf⟩
  · simpa [hnone, heq] using hown
  have hcarries : ∀ x, (loadLine d line).table.Carries x
      ↔ if x = id then b = true else d.table.Carries x := by
    rw [heq]
    exact NodeTable.carries_record hadd hf
  have hnode : (loadLine d line).nodeId = d.nodeId := by rw [heq]
  constructor
  · intro h id' b' hself'
    cases hself.symm.trans hself'
    rw [← hnode, ← h id, hcarries, if_pos rfl]
  intro h x
  rw [hcarries, hnode]
  split_ifs with hx
  · rw [hx]
    exact h id b hself
  · exact hown x

/-! ## Runs -/

inductive ClusterEvent
  | bus (frame : Bytes) (now : UInt64)
  | redbus (frame : Bytes) (now : UInt64) (srcIp : Bytes)
  | line (text : Bytes)
  | promote

namespace ClusterEvent

def apply (d : ClusterState) : ClusterEvent → ClusterState
  | bus frame now => (clusterBusHandleFrame d frame now).1
  | redbus frame now srcIp => (redbusHandleFrame d frame now srcIp).1
  | line text => loadLine d text
  | promote => (clusterFailoverPromote d).1

/-- No well-formed PING, PONG or MEET frame has the local node as its sender, and a line that is taken
    has the own flag exactly if it is for the local node. -/
def Sound (d : ClusterState) : ClusterEvent → Prop
  | bus frame _ => ∀ f, decodeBus frame = some (.hello f) → f.sender.id ≠ d.nodeId
  | redbus frame _ _ =>
    ∀ h sender gossip, decodeRedbus frame = some (.hello h sender gossip) → sender ≠ d.nodeId
  | line text => ∀ id b, lineSelf d.table text = some (id, b) → (b = true ↔ id = d.nodeId)
  | promote => True

/-- One step keeps the own entry exactly if its input is sound. -/
theorem own_iff (hown : OwnEntry d) : ∀ e : ClusterEvent, OwnEntry (e.apply d) ↔ e.Sound d
  | bus frame now => bus_own_iff hown frame now
  | redbus frame now srcIp => redbus_own_iff hown frame now srcIp
  | line text => loadLine_own_iff hown text
  | promote => iff_of_true ((promote_own d).ownEntry_iff.mpr hown) trivial

end ClusterEvent

def SoundRun (d : ClusterState) : List ClusterEvent → Prop
  | [] => True
  | e :: es => e.Sound d ∧ SoundRun (e.apply d) es

/-- Along a run the own entry is kept in every state exactly if every event is sound. -/
theorem own_entry_kept_iff {d : ClusterState} (hown : OwnEntry d) (es : List ClusterEvent) :
    (∀ k, OwnEntry ((es.take k).foldl ClusterEvent.apply d)) ↔ SoundRun d es := by
  induction es generalizing d with
  | nil => simpa [SoundRun] using hown
  | cons e es ih =>
    constructor
    · intro h
      have hstep : OwnEntry (e.apply d) := h 1
      exact ⟨(e.own_iff hown).mp hstep, (ih hstep).mp fun k => h (k + 1)⟩
    rintro ⟨hsound, hrest⟩ k
    cases k with
    | zero => exact hown
    | succ k => exact (ih ((e.own_iff hown).mpr hsound)).mpr hrest k

theorem trioFirst_own : OwnEntry (trioFirst 0#16384) := by
  intro x
  have hselves : (trioFirst 0#16384).table.selves = [(NodeId.ofDigit 97 rfl, true),
      (NodeId.ofDigit 98 rfl, false), (NodeId.ofDigit 99 rfl, false)] := rfl
  rw [NodeTable.Carries, hselves]
  simp [trioFirst, ClusterState.start]

theorem trioSecond_own : OwnEntry (trioSecond 0#16384) := by
  intro x
  have hselves : (trioSecond 0#16384).table.selves = [(NodeId.ofDigit 97 rfl, false),
      (NodeId.ofDigit 98 rfl, true), (NodeId.ofDigit 99 rfl, false)] := rfl
  rw [NodeTable.Carries, hselves]
  simp [trioSecond, ClusterState.start]

theorem own_entry_kept_trio : ∃ frame f, decodeBus frame = some (.hello f) ∧
    ∀ k, OwnEntry (([.bus frame 0, .promote].take k).foldl ClusterEvent.apply (trioSecond 0#16384)) := by
  obtain ⟨frame, f, hf, hid, -⟩ := trio_frame (x := ownNode) (by decide) (by decide)
  refine ⟨frame, f, hf, (own_entry_kept_iff trioSecond_own _).mpr ⟨fun f' hf' => ?_, trivial, trivial⟩⟩
  rw [hf] at hf'
  cases hf'
  rw [hid]
  decide

/-- A node whose own frame comes back to it loses its own entry. -/
theorem own_entry_lost_to_echo : ¬ ∀ (d : ClusterState) (es : List ClusterEvent), OwnEntry d →
    OwnEntry (es.foldl ClusterEvent.apply d) := by
  intro h
  obtain ⟨frame, f, hf, hid, -⟩ := trio_frame (x := ownNode) (by decide) (by decide)
  exact (bus_own_iff trioFirst_own frame 0).mp (h _ [.bus frame 0] trioFirst_own) f hf hid

/-! ## Refused frames -/

/-- A frame with a malformed gossip entry is refused after its sender was added. -/
theorem refused_after_write {f : BusFrame} (hf : decodeBus frame = some (.hello f))
    (hbad : ¬ ∀ g ∈ f.gossip, GossipOk g) :
    ∃ d, (clusterBusHandleFrame d frame 0).2 = none ∧ (clusterBusHandleFrame d frame 0).1 ≠ d := by
  obtain ⟨me, hme⟩ : ∃ me, f.sender.id ≠ me := by
    by_cases h : f.sender.id = NodeId.ofDigit 97 rfl
    · exact ⟨NodeId.ofDigit 98 rfl, by rw [h]; decide⟩
    · exact ⟨_, h⟩
  let d := ClusterState.start me ⟨[(me, ownNode)], List.nodup_singleton _, (by decide : 1 ≤ 32)⟩
  have hfresh : f.sender.id ∉ d.table.entries.map Prod.fst := by
    simpa [d, ClusterState.start] using hme
  obtain ⟨t, hadd, hentries⟩ := NodeTable.add_fresh hfresh (by decide : 1 < 32)
  obtain ⟨htable, hok, -⟩ := handle_hello 0 hf hadd
  refine ⟨d, by simpa using mt hok.mp hbad, fun heq => ?_⟩
  have hsender : 1 < (applySender f 0 t d.table.entries.length d).table.selves.length := by
    rw [applySender, merge_selves]
    show 1 < (t.modify _ _).selves.length
    simp [NodeTable.selves, NodeTable.modify, NodeTable.mapNodes, hentries, d, ClusterState.start]
  have hlonger : 1 < (clusterBusHandleFrame d frame 0).1.table.selves.length := by
    rw [htable]
    refine gossipLoop_keeps (P := fun d' => 1 < d'.table.selves.length) (fun g _ d' hd' => ?_) hsender
    rcases gossipStep_selves d.table.entries.length 0 d' g with h | h <;> rw [h]
    · exact hd'
    · rw [List.length_append]
      omega
  rw [heq] at hlonger
  exact absurd hlonger (Nat.lt_irrefl 1)

/-- A frame of the cluster bus leaves every view that refuses it as it was exactly if no gossip entry of
it, well formed otherwise, has a malformed master; a frame of the Redis bus always does. -/
theorem refused_frame_keeps_iff (frame : Bytes) :
    ((∀ d now, (clusterBusHandleFrame d frame now).2 = none → (clusterBusHandleFrame d frame now).1 = d) ↔
      ∀ f, decodeBus frame = some (.hello f) → ∀ g ∈ f.gossip, GossipOk g) ∧
    ∀ d now srcIp, (redbusHandleFrame d frame now srcIp).2 = none →
      (redbusHandleFrame d frame now srcIp).1 = d := by
  refine ⟨⟨fun h f hf => ?_, fun h d now hnone => ?_⟩, fun d now srcIp hnone => ?_⟩
  · by_contra hbad
    obtain ⟨d, hnone, hne⟩ := refused_after_write hf hbad
    exact hne (h d 0 hnone)
  · cases hdecode : decodeBus frame with
    | none => simp [clusterBusHandleFrame, hdecode]
    | some m =>
      cases m with
      | fail subject =>
        simp only [clusterBusHandleFrame, hdecode] at hnone
        split at hnone <;> cases hnone
      | hello f =>
        cases hadd : d.table.add f.sender.id with
        | none => simp [clusterBusHandleFrame, hdecode, hadd]
        | some r => exact absurd hnone ((handle_hello now hdecode hadd).2.1.mpr (h f hdecode))
  · rcases redbus_cases d frame now srcIp with ⟨-, -, -, -, -, hsome⟩ | ⟨-, -, hsame⟩
    · exact absurd hnone hsome
    · exact hsame hnone

/-- The second of three nodes has a master that is no id. -/
theorem refused_frame_adds_sender : ¬ ∀ d frame now, (clusterBusHandleFrame d frame now).2 = none →
    (clusterBusHandleFrame d frame now).1 = d := by
  intro h
  let y : ClusterNode := { freshNode with masterId := ⟨[120], by decide⟩ }
  let A : ClusterState := .start (NodeId.ofDigit 97 rfl) (trio ownNode y 0#16384)
  have hsender : A.table.sender = some 0 := rfl
  have hdecode := decodeBus_built hsender rfl (buildFrame_eq 1 hsender rfl)
  have hbad : ¬ GossipOk (wireGossip (NodeId.ofDigit 98 rfl, y)) := by decide
  obtain ⟨d, hnone, hne⟩ := refused_after_write hdecode fun hall =>
    hbad (hall _ (List.mem_map.mpr ⟨_, List.mem_cons_self, rfl⟩))
  exact hne (h d _ 0 hnone)

end Ddup.Cluster
