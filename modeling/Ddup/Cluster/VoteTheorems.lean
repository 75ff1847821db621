/-
Ddup.Cluster.VoteTheorems — the votes a node grants in the failover elections of the Redis bus.

The epoch a node has voted for is changed by a vote only, and no frame lowers the current epoch. A vote is
granted for the current epoch, in which there was none: so the epochs of all votes increase, whatever
frames arrive and whatever elections the node holds for itself, unless one of these wraps the counter.
-/
import Ddup.Cluster.OwnEntryTheorems

namespace Ddup.Cluster

variable {d d' : ClusterState}

/-- `cluster_failover_check` with the Redis bus, once the deadline has passed: the node asks for votes,
or is promoted if it has got enough of them. -/
def clusterFailoverCheck (d : ClusterState) : ClusterState :=
  let me := (d.table.myself.bind (d.table.entries[·]?)).map Prod.snd
  let masterId := (me.map (·.masterId.1)).filter (· != text "-")
  let master := (masterId.bind d.table.findStr).bind (d.table.entries[·]?)
  if !(me.any fun n => n.flags.has .slave) || !(master.any fun m => m.2.flags.has .fail) then
    { d with failoverReqEpoch := 0 }
  else if d.failoverReqEpoch = 0 then
    let (d, epoch) := clusterNextEpoch d
    { d with failoverReqEpoch := epoch, ackMask := 0, ackCount := 0 }
  else
    let masters := d.table.entries.countP fun e =>
      e.2.flags.has .master && !e.2.flags.has .myself && servesSlots e.2
    let d' := { d with failoverReqEpoch := 0 }
    if masters / 2 < d.ackCount then (clusterFailoverPromote d').1 else d'

/-- What reaches a node that uses the Redis bus. -/
inductive ElectionEvent
  | frame (bytes : Bytes) (now : UInt64) (srcIp : Bytes)
  | deadline

namespace ElectionEvent

def apply (d : ClusterState) : ElectionEvent → ClusterState
  | frame bytes now srcIp => (redbusHandleFrame d bytes now srcIp).1
  | deadline => clusterFailoverCheck d

/-- The epoch of the vote that is granted: the reply to a request is an acknowledgement. -/
def vote (d : ClusterState) : ElectionEvent → Option UInt64
  | frame bytes _ _ =>
    match decodeRedbus bytes with
    | some (.authRequest h) => if (handleAuthRequest d h).2 = some [] then none else some h.currentEpoch
    | _ => none
  | deadline => none

end ElectionEvent

/-- The epochs of the votes along a run. -/
def votes (d : ClusterState) : List ElectionEvent → List UInt64
  | [] => []
  | e :: es => (e.vote d).toList ++ votes (e.apply d) es

/-- No event wraps the current epoch. -/
def NoWrap (d : ClusterState) : List ElectionEvent → Prop
  | [] => True
  | e :: es => (d.currentEpoch + 1 = 0 → (e.apply d).currentEpoch ≠ 0) ∧ NoWrap (e.apply d) es

theorem le_max_epoch (a b : UInt64) : a ≤ max a b ∧ b ≤ max a b := by
  show a ≤ ite (a ≤ b) b a ∧ b ≤ ite (a ≤ b) b a
  split_ifs with h
  · exact ⟨h, UInt64.le_refl _⟩
  · exact ⟨UInt64.le_refl _, UInt64.le_of_lt (UInt64.not_le.mp h)⟩

/-- A step without a vote. -/
structure Abstains (d d' : ClusterState) : Prop where
  vote : d'.lastVoteEpoch = d.lastVoteEpoch
  epoch : d.currentEpoch ≤ d'.currentEpoch

namespace Abstains

theorem refl (d : ClusterState) : Abstains d d := ⟨rfl, UInt64.le_refl _⟩

theorem raise (h : Abstains d d') (e : UInt64) : Abstains d (d'.raiseCurrent e) :=
  ⟨h.vote, UInt64.le_trans h.epoch (le_max_epoch _ _).1⟩

theorem dirty (h : Abstains d d') : Abstains d { d' with slotOwnerDirty := true } := ⟨h.vote, h.epoch⟩

theorem merge (h : Abstains d d') (i : Nat) (bm : Bitmap) (e : UInt64) :
    Abstains d (clusterMergeClaims d' i bm e) := by
  have hraise := h.raise e
  simp only [clusterMergeClaims]
  split_ifs <;> exact ⟨hraise.vote, hraise.epoch⟩

theorem update (d : ClusterState) (epoch : UInt64) (id : NodeId) (slots : Bitmap) :
    Abstains d (updateClaims d epoch id slots) := by
  have hraise := (refl d).raise epoch
  simp only [updateClaims]
  split
  · exact hraise
  split_ifs
  · simp only [clusterAdoptClaims]
    exact .raise (by exact ⟨hraise.vote, hraise.epoch⟩) epoch
  · exact ((refl d).merge _ _ _).raise epoch

theorem ack (d : ClusterState) (h : RedHeader) : Abstains d (handleAuthAck d h) := by
  unfold handleAuthAck
  split_ifs
  · exact .refl d
  split
  · exact .refl d
  split_ifs
  · exact ⟨rfl, UInt64.le_refl _⟩
  · exact .refl d

theorem sender (h : Abstains d d') (f : RedHeader) (now : UInt64) (c : Nat) :
    Abstains d (redSender f now d' c) := by
  have hmeet : Abstains d (if f.type = redbusTypeMeet then
      d'.modify c fun n => { n with flags := n.flags.drop .handshake } else d') := by
    split_ifs
    · exact ⟨h.vote, h.epoch⟩
    · exact h
  have hmerge := hmeet.merge c f.slots f.configEpoch
  exact .raise (by exact ⟨hmerge.vote, hmerge.epoch⟩) f.currentEpoch

theorem gossip (h : Abstains d d') (c : Nat) (now : UInt64) (srcIp : Bytes) (g : RedGossip) :
    Abstains d (redGossipStep c now srcIp d' g) := by
  unfold redGossipStep
  split
  · dsimp only [applyNode]
    cases d'.table.add g.id with
    | none => exact h
    | some r => exact .raise (by exact ⟨h.vote, h.epoch⟩) 0
  · rw [(gossipReport_keeps ..).rest]
    exact ⟨h.vote, h.epoch⟩

/-- A frame that is no request for a vote. -/
theorem frame (d : ClusterState) {bytes : Bytes} (now : UInt64) (srcIp : Bytes)
    (hno : ∀ h, decodeRedbus bytes ≠ some (.authRequest h)) :
    Abstains d (redbusHandleFrame d bytes now srcIp).1 := by
  cases hf : decodeRedbus bytes with
  | none => simpa only [redbusHandleFrame, hf] using .refl d
  | some m =>
    simp only [redbusHandleFrame, hf]
    cases m with
    | ignored => exact .refl d
    | update epoch id slots => exact update ..
    | fail id =>
      dsimp only
      split
      · exact .refl d
      · exact ⟨rfl, UInt64.le_refl _⟩
    | authRequest h => exact absurd hf (hno h)
    | authAck h => exact ack d h
    | hello h sender gossip =>
      cases hadd : d.table.add sender with
      | none => simpa only [applyNode, hadd, Option.map_none] using .refl d
      | some r =>
        have hadded : ∀ t, Abstains d ({ d with table := t }.raiseCurrent h.configEpoch) := fun t =>
          .raise (by exact ⟨rfl, UInt64.le_refl _⟩) _
        have hloop : ∀ t, Abstains d (gossip.foldl (redGossipStep r.2 now srcIp)
            (redSender h now ({ d with table := t }.raiseCurrent h.configEpoch) r.2)) := fun t =>
          List.foldlRecOn (motive := Abstains d) gossip _ ((hadded t).sender h now r.2)
            fun d' h' g _ => h'.gossip r.2 now srcIp g
        simp only [applyNode, hadd, Option.map_some]
        split_ifs
        · exact (hloop _).dirty
        · split
          · exact hloop _
          · exact (hloop _).dirty

end Abstains

-- stated for any table: comparing two states field by field would unfold a loop over all slots
theorem retabled (d : ClusterState) (t : NodeTable) (b : Bool) :
    { d with table := t, slotOwnerDirty := b }.lastVoteEpoch = d.lastVoteEpoch ∧
      { d with table := t, slotOwnerDirty := b }.currentEpoch = d.currentEpoch := ⟨rfl, rfl⟩

theorem promote_epoch (d : ClusterState) :
    (clusterFailoverPromote d).1.lastVoteEpoch = d.lastVoteEpoch ∧
      ((clusterFailoverPromote d).1.currentEpoch = d.currentEpoch ∨
        (clusterFailoverPromote d).1.currentEpoch = d.currentEpoch + 1) := by
  unfold clusterFailoverPromote
  split
  · exact ⟨rfl, .inl rfl⟩
  simp only [clusterNextEpoch]
  split_ifs
  · exact ⟨rfl, .inl rfl⟩
  split
  · exact ⟨rfl, .inr rfl⟩
  · rw [(retabled ..).1, (retabled ..).2]
    exact ⟨rfl, .inr rfl⟩

/-- The own elections and promotions take the next epoch. -/
theorem failoverCheck_epoch (d : ClusterState) :
    (clusterFailoverCheck d).lastVoteEpoch = d.lastVoteEpoch ∧
      ((clusterFailoverCheck d).currentEpoch = d.currentEpoch ∨
        (clusterFailoverCheck d).currentEpoch = d.currentEpoch + 1) := by
  simp only [clusterFailoverCheck, clusterNextEpoch]
  split_ifs
  · exact ⟨rfl, .inl rfl⟩
  · exact ⟨rfl, .inr rfl⟩
  · exact promote_epoch { d with failoverReqEpoch := 0 }
  · exact ⟨rfl, .inl rfl⟩

theorem redbusBuildFrame_ne_nil {type : Nat} {frame : Bytes} (h : redbusBuildFrame d type = some frame) :
    frame ≠ [] := by
  simp only [redbusBuildFrame, Option.bind_eq_bind, Option.bind_eq_some_iff] at h
  obtain ⟨i, -, sn, -, hframe⟩ := h
  cases hframe
  simp [headerBytes, text]

/-- A request is refused, or granted for an epoch that is current afterwards and had no vote. -/
theorem handleAuthRequest_cases (d : ClusterState) (h : RedHeader) :
    (handleAuthRequest d h).2 = some [] ∧ Abstains d (handleAuthRequest d h).1 ∨
      (handleAuthRequest d h).2 ≠ some [] ∧ d.currentEpoch ≤ h.currentEpoch ∧
        d.lastVoteEpoch ≠ h.currentEpoch ∧ (handleAuthRequest d h).1.lastVoteEpoch = h.currentEpoch ∧
        (handleAuthRequest d h).1.currentEpoch = h.currentEpoch := by
  have hreply := handleAuthRequest_reply d h
  have hraise := (Abstains.refl d).raise h.currentEpoch
  simp only [handleAuthRequest] at hreply ⊢
  split_ifs with hme hold hvote
  · exact .inl ⟨rfl, .refl d⟩
  · exact .inl ⟨rfl, hraise⟩
  · exact .inl ⟨rfl, hraise⟩
  rw [if_neg hme, if_neg hold, if_neg hvote] at hreply
  rw [not_or] at hold
  have hcur : max d.currentEpoch h.currentEpoch = h.currentEpoch :=
    UInt64.le_antisymm (UInt64.not_lt.mp hold.1) (le_max_epoch _ _).2
  split
  · rename_i hnone
    rw [hnone] at hreply
    exact absurd rfl hreply
  · rename_i ack hack
    refine .inr ⟨?_, hcur ▸ hraise.epoch, hcur ▸ hold.2, hcur, hcur⟩
    exact fun heq => redbusBuildFrame_ne_nil hack (Option.some.inj heq)

/-- An event without a vote, or with one for a later epoch than any before. -/
theorem ElectionEvent.vote_cases (hvote : d.lastVoteEpoch ≤ d.currentEpoch) (e : ElectionEvent)
    (hwrap : d.currentEpoch + 1 = 0 → (e.apply d).currentEpoch ≠ 0) :
    e.vote d = none ∧ Abstains d (e.apply d) ∨
      ∃ v, e.vote d = some v ∧ d.lastVoteEpoch < v ∧ (e.apply d).lastVoteEpoch = v ∧
        (e.apply d).currentEpoch = v := by
  cases e with
  | deadline =>
    obtain ⟨hlast, hcur⟩ := failoverCheck_epoch d
    refine .inl ⟨rfl, hlast, ?_⟩
    rcases hcur with hcur | hcur
    · exact UInt64.le_of_eq hcur.symm
    · have hne : d.currentEpoch + 1 ≠ 0 := fun hzero => hwrap hzero (hcur.trans hzero)
      rw [show (deadline.apply d).currentEpoch = _ from hcur]
      grind
  | frame bytes now srcIp =>
    by_cases hreq : ∃ h, decodeRedbus bytes = some (.authRequest h)
    · obtain ⟨h, hf⟩ := hreq
      have happly : (frame bytes now srcIp).apply d = (handleAuthRequest d h).1 := by
        simp [apply, redbusHandleFrame, hf]
      simp only [happly, vote, hf]
      rcases handleAuthRequest_cases d h with ⟨hnone, habst⟩ | ⟨hsome, hle, hne, hlast, hcur⟩
      · exact .inl ⟨if_pos hnone, habst⟩
      · refine .inr ⟨h.currentEpoch, if_neg hsome, ?_, hlast, hcur⟩
        exact UInt64.lt_of_le_of_ne (UInt64.le_trans hvote hle) hne
    · rw [not_exists] at hreq
      refine .inl ⟨?_, Abstains.frame d now srcIp hreq⟩
      simp only [vote]

end Ddup.Cluster
