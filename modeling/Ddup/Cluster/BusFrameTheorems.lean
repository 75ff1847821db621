/-
Ddup.Cluster.BusFrameTheorems — a frame that `cluster_bus_build_frame` made is read as what its sender
knows.

Every field is read back as it was written, but for a gossip entry's slots, which go as text. The
frame is refused only if its type is none of PING, PONG and MEET, or if the sender's own master link is
malformed.
-/
import Ddup.Cluster.Bus
import Ddup.Cluster.SlotTextTheorems

namespace Ddup.Cluster

open Ddup.Lib

variable (e : NodeId × ClusterNode) {d : ClusterState} {i type : Nat} {sn : NodeId × ClusterNode}

/-! ## What a frame holds -/

def wireNode (e : NodeId × ClusterNode) : WireNode := ⟨e.1, e.2.ip.1, e.2.port, e.2.busPort, e.2.flags⟩

def wireExt (n : ClusterNode) : WireExt := ⟨masterField n, n.epoch⟩

def wireGossip (e : NodeId × ClusterNode) : GossipEntry :=
  ⟨wireNode e, lineSlots e.2.slots, some (wireExt e.2)⟩

def NodeTable.hello (t : NodeTable) (type i : Nat) (sn : NodeId × ClusterNode) : BusFrame :=
  ⟨type, wireNode sn, sn.2.slots, some (wireExt sn.2), (t.gossip i).map wireGossip⟩

/-! ## Fields -/

theorem readId_reads (id : NodeId) : Reads readId id.1 id := by
  obtain ⟨b, hb⟩ := id
  have hbytes := Reads.bytes b
  rw [hb.1] at hbytes
  have hread : Reads (if h : IdValid b then (return ⟨b, h⟩ : Dec NodeId) else Dec.fail) [] ⟨b, hb⟩ := by
    rw [dif_pos hb]
    exact Reads.pure _
  exact hbytes.bind_nil hread

theorem readNode_reads : Reads readNode (nodeBytes e) (wireNode e) := by
  have hip : e.2.ip.1.length < 64 := e.2.ip.2.1
  have hport := e.2.port.toNat_lt
  have hbus := e.2.busPort.toNat_lt
  have hnode : wireNode e = ⟨e.1, e.2.ip.1, UInt16.ofNat e.2.port.toNat,
      UInt16.ofNat e.2.busPort.toNat, BitVec.ofNat 32 e.2.flags.toNat⟩ := by
    rw [UInt16.ofNat_toNat, UInt16.ofNat_toNat, BitVec.ofNat_toNat]
    rfl
  rw [hnode]
  refine (readId_reads e.1).bind ((Reads.le (by omega)).bind ?_)
  rw [if_neg (Nat.not_le.mpr hip)]
  exact (Reads.bytes _).bind ((Reads.le (by omega)).bind ((Reads.le (by omega)).bind
    ((Reads.le (by omega)).bind_nil (Reads.pure _))))

theorem masterField_length (n : ClusterNode) : (masterField n).length = 40 := by
  have hlen := n.masterId.2.1
  rw [masterField, List.length_append, List.length_replicate]
  omega

theorem readExt_reads (n : ClusterNode) : Reads (readExt true) (extBytes n) (some (wireExt n)) := by
  have hepoch := n.epoch.toNat_lt
  have hmaster := Reads.bytes (masterField n)
  rw [masterField_length] at hmaster
  have hext : wireExt n = ⟨masterField n, UInt64.ofNat n.epoch.toNat⟩ := by
    rw [UInt64.ofNat_toNat]
    rfl
  rw [hext]
  exact hmaster.bind ((Reads.le (by omega)).bind_nil (Reads.pure _))

theorem readGossip_reads : Reads (readGossip true) (gossipBytes e) (wireGossip e) := by
  have hslots : ((clusterSlotsRender e.2.slots 256).getD []).length < 256 := lineSlots_length _
  exact (readNode_reads e).bind ((Reads.le (by omega)).bind ((Reads.bytes _).bind
    ((readExt_reads e.2).bind_nil (Reads.pure _))))

theorem toNat_lt_bytes {k : Nat} (bm : BitVec (8 * k)) : bm.toNat < 256 ^ k := by
  have hlt := bm.isLt
  rwa [Nat.pow_mul] at hlt

theorem bitmapOf_bitmapBytes (bm : Bitmap) : bitmapOf (bitmapBytes bm) = bm := by
  have hlt : bm.toNat < 256 ^ 2048 := toNat_lt_bytes (k := 2048) bm
  rw [bitmapOf, bitmapBytes, leNat_leBytes_of_lt hlt, BitVec.ofNat_toNat, BitVec.setWidth_eq]

/-! ## A frame -/

def helloBody (t : NodeTable) (i : Nat) (sn : NodeId × ClusterNode) : Bytes :=
  nodeBytes sn ++ (bitmapBytes sn.2.slots ++ (extBytes sn.2 ++
    (leBytes 2 (t.gossip i).length ++ (t.gossip i).flatMap gossipBytes)))

theorem gossip_length_le (t : NodeTable) (i : Nat) : (t.gossip i).length ≤ 10 :=
  List.length_take_le _ _

theorem readFrame_yields (t : NodeTable) (type i : Nat) (sn : NodeId × ClusterNode) :
    readFrame true type (helloBody t i sn)
      = if masterOk (masterField sn.2) = true then some (t.hello type i sn, []) else none := by
  have hgossip := gossip_length_le t i
  have hslots : Reads (Dec.bytes 2048) (bitmapBytes sn.2.slots) (bitmapBytes sn.2.slots) := by
    have hbytes := Reads.bytes (bitmapBytes sn.2.slots)
    rwa [bitmapBytes, leBytes_length] at hbytes
  by_cases hmaster : masterOk (masterField sn.2) = true
  · have hall : (Option.map WireExt.master (some (wireExt sn.2))).all masterOk = true := hmaster
    have hreads : Reads (readFrame true type) (helloBody t i sn) (t.hello type i sn) := by
      have hhello : t.hello type i sn = ⟨type, wireNode sn, bitmapOf (bitmapBytes sn.2.slots),
          some (wireExt sn.2), (t.gossip i).map wireGossip⟩ := by
        rw [bitmapOf_bitmapBytes]
        rfl
      rw [hhello]
      refine (readNode_reads sn).bind (hslots.bind ((readExt_reads sn.2).bind ?_))
      rw [if_pos hall]
      exact (Reads.le (by omega)).bind ((Reads.gather fun e _ => readGossip_reads e).bind_nil
        (Reads.pure _))
    have hread := hreads []
    rw [List.append_nil] at hread
    rw [hread, if_pos hmaster]
    rfl
  · have hall : ¬ (Option.map WireExt.master (some (wireExt sn.2))).all masterOk = true := hmaster
    have hyields : Yields (readFrame true type)
        (nodeBytes sn ++ (bitmapBytes sn.2.slots ++ (extBytes sn.2 ++ []))) none := by
      refine (readNode_reads sn).yields (hslots.yields ((readExt_reads sn.2).yields ?_))
      rw [if_neg hall]
      exact Yields.fail
    have hread := hyields (leBytes 2 (t.gossip i).length ++ (t.gossip i).flatMap gossipBytes)
    rw [if_neg hmaster, helloBody]
    simpa only [List.append_nil, List.append_assoc, Option.map_none] using hread

theorem nodeBytes_length : (nodeBytes e).length < 114 := by
  have hid : e.1.1.length = 40 := e.1.2.1
  have hip : e.2.ip.1.length < 64 := e.2.ip.2.1
  simp only [nodeBytes, List.length_append, leBytes_length]
  omega

theorem extBytes_length (n : ClusterNode) : (extBytes n).length = 48 := by
  rw [extBytes, List.length_append, masterField_length, leBytes_length]

theorem gossipBytes_length : (gossipBytes e).length ≤ 418 := by
  have hnode := nodeBytes_length e
  have hslots : ((clusterSlotsRender e.2.slots 256).getD []).length < 256 := lineSlots_length _
  simp only [gossipBytes, List.length_append, leBytes_length, extBytes_length]
  omega

theorem helloBody_length (t : NodeTable) (i : Nat) (sn : NodeId × ClusterNode) :
    2098 ≤ (helloBody t i sn).length ∧ (helloBody t i sn).length ≤ 6391 := by
  have hgossip : ((t.gossip i).flatMap gossipBytes).length ≤ 4180 := by
    have hsum : ((t.gossip i).flatMap gossipBytes).length ≤ (t.gossip i).length * 418 := by
      rw [List.length_flatMap]
      refine (List.sum_le_card_nsmul _ 418 ?_).trans_eq (by simp)
      intro k hk
      obtain ⟨e, -, rfl⟩ := List.mem_map.mp hk
      exact gossipBytes_length e
    have hle := gossip_length_le t i
    omega
  have hnode := nodeBytes_length sn
  simp only [helloBody, List.length_append, leBytes_length, extBytes_length, bitmapBytes]
  omega

theorem buildFrame_eq (type : Nat)
    (hi : d.table.sender = some i) (hsn : d.table.entries[i]? = some sn) :
    clusterBusBuildFrame d type = some (busMagicV2 ++ (leBytes 4 (10 + (helloBody d.table i sn).length) ++
      (leBytes 2 type ++ helloBody d.table i sn))) := by
  have hlen := helloBody_length d.table i sn
  have hmax : ¬ clusterMsgMax < 10 + (helloBody d.table i sn).length := by
    unfold clusterMsgMax
    omega
  rw [clusterBusBuildFrame, hi]
  simp only [Option.bind_eq_bind, Option.bind_some, hsn]
  exact if_neg hmax

theorem sender_some {t : NodeTable} (h : t.entries ≠ []) :
    ∃ i sn, t.sender = some i ∧ t.entries[i]? = some sn := by
  have hget : ∀ i, i < t.entries.length → ∃ sn, t.entries[i]? = some sn := fun i hi =>
    ⟨t.entries[i], List.getElem?_eq_getElem hi⟩
  unfold NodeTable.sender
  cases hme : t.myself with
  | some i =>
    obtain ⟨sn, hsn⟩ := hget i (List.findIdx?_eq_some_iff_getElem.mp hme).1
    exact ⟨i, sn, rfl, hsn⟩
  | none =>
    obtain ⟨sn, hsn⟩ := hget 0 (List.length_pos_iff.mpr h)
    exact ⟨0, sn, if_neg h, hsn⟩

theorem decodeBus_header {body : Bytes} (hlen : body.length ≤ 6391) :
    decodeBus (busMagicV2 ++ (leBytes 4 (10 + body.length) ++ (leBytes 2 type ++ body)))
      = if type % 65536 = clusterMsgFail then
          if 10 + body.length ≠ 50 then none else some (.fail (body.take 40))
        else if type % 65536 < clusterMsgPing ∨ clusterMsgMeet < type % 65536 then none
        else match readFrame true (type % 65536) body with
          | some (f, []) => some (.hello f)
          | _ => none := by
  have hmagic : busMagicV2.length = 4 := by decide
  have hsize : (busMagicV2 ++ (leBytes 4 (10 + body.length) ++ (leBytes 2 type ++ body))).length
      = 10 + body.length := by
    simp only [List.length_append, leBytes_length]
    omega
  have htot : leNat (leBytes 4 (10 + body.length)) = 10 + body.length := leNat_leBytes_of_lt (by omega)
  have htype : leNat (leBytes 2 type) = type % 65536 := leNat_leBytes 2 type
  have hversion : frameVersion (busMagicV2 ++ (leBytes 4 (10 + body.length) ++ (leBytes 2 type ++ body)))
      = some true := by
    rw [frameVersion, List.take_left' hmagic, if_pos rfl]
  have h4 : (busMagicV2 ++ (leBytes 4 (10 + body.length) ++ (leBytes 2 type ++ body))).drop 4
      = leBytes 4 (10 + body.length) ++ (leBytes 2 type ++ body) := List.drop_left' hmagic
  have h8 : (busMagicV2 ++ (leBytes 4 (10 + body.length) ++ (leBytes 2 type ++ body))).drop 8
      = leBytes 2 type ++ body := by
    rw [← List.drop_drop (i := 4), h4, List.drop_left' (leBytes_length 4 _)]
  have h10 : (busMagicV2 ++ (leBytes 4 (10 + body.length) ++ (leBytes 2 type ++ body))).drop 10
      = body := by
    rw [← List.drop_drop (i := 2), h8, List.drop_left' (leBytes_length 2 _)]
  have hok : ¬ (10 + body.length ≠ 10 + body.length ∨ clusterMsgMax < 10 + body.length) := by
    unfold clusterMsgMax
    omega
  unfold decodeBus
  rw [if_neg (by rw [hsize]; omega), hversion]
  simp only [Option.bind_eq_bind, h4, h8, hsize,
    List.take_left' (leBytes_length 4 _), List.take_left' (leBytes_length 2 _), htot, htype, if_neg hok]
  rfl

theorem decodeBus_built {frame : Bytes} (hi : d.table.sender = some i)
    (hsn : d.table.entries[i]? = some sn) (hframe : clusterBusBuildFrame d type = some frame) :
    decodeBus frame = if 1 ≤ type % 65536 ∧ type % 65536 ≤ 3 ∧ masterOk (masterField sn.2) = true
      then some (.hello (d.table.hello (type % 65536) i sn)) else none := by
  rw [buildFrame_eq type hi hsn] at hframe
  have hlen := helloBody_length d.table i sn
  rw [← Option.some.inj hframe, decodeBus_header hlen.2, readFrame_yields]
  unfold clusterMsgFail clusterMsgPing clusterMsgMeet
  by_cases hfail : type % 65536 = 5
  · rw [if_pos hfail, if_pos (by omega), if_neg (by omega)]
  rw [if_neg hfail]
  by_cases htype : type % 65536 < 1 ∨ 3 < type % 65536
  · rw [if_pos htype, if_neg (by omega)]
  rw [if_neg htype]
  by_cases hmaster : masterOk (masterField sn.2) = true
  · rw [if_pos hmaster, if_pos ⟨by omega, by omega, hmaster⟩]
  · rw [if_neg hmaster, if_neg fun h => hmaster h.2.2]

end Ddup.Cluster
