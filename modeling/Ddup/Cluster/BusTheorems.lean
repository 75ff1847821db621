/-
Ddup.Cluster.BusTheorems — what handling a bus frame does to a view.

The sender's record is followed by its claim (`applySender_claims`). A gossip entry changes no claim,
or makes one for the node it names (`gossipStep_claims`); it never takes the own flag from a node or
gives it to one (`gossipStep_selves`). A frame is refused before anything is written, or at a gossip
entry whose master is malformed.
-/
import Ddup.Cluster.BusFrameTheorems
import Ddup.Cluster.ViewTheorems

namespace Ddup.Cluster

open Ddup.Lib

variable {d : ClusterState} {c : Nat}
variable {g : GossipEntry} {gs : List GossipEntry} {s : Nat} {x y : NodeFlag}

/-! ## The sender -/

theorem has_drop_self (f : Flags) (x : NodeFlag) : (f.drop x).has x = false := by
  simp [Flags.has, Flags.drop]

theorem has_drop_of_ne (f : Flags) (h : x ≠ y) : (f.drop y).has x = f.has x := by
  cases x <;> cases y <;> first | exact absurd rfl h | simp [Flags.has, Flags.drop, NodeFlag.bit]

theorem has_raise_of_ne (f : Flags) (h : x ≠ y) : (f.raise y).has x = f.has x := by
  cases x <;> cases y <;> first | exact absurd rfl h | simp [Flags.has, Flags.raise, NodeFlag.bit]

theorem senderNode_myself (f : BusFrame) (now : UInt64) (n : ClusterNode) :
    (senderNode f now n).flags.has .myself = false := by
  simp only [senderNode]
  split_ifs
  · rw [has_drop_of_ne _ (by decide), has_drop_self]
  · exact has_drop_self _ _

section sender

variable {d : ClusterState} {f : BusFrame} {t : NodeTable} {c : Nat} (now : UInt64)

theorem senderRecord (hadd : d.table.add f.sender.id = some (t, c)) :
    (∃ n, (t.modify c (senderNode f now)).entries[c]? = some (f.sender.id, n)) ∧
      (t.modify c (senderNode f now)).myself ≠ some c ∧
      (t.modify c (senderNode f now)).claims = d.table.claims := by
  obtain ⟨n, hn⟩ := NodeTable.add_get hadd
  have hget : (t.modify c (senderNode f now)).entries[c]? = some (f.sender.id, senderNode f now n) := by
    rw [NodeTable.modify_getElem?, hn, Option.map_some, if_pos rfl]
  refine ⟨⟨_, hget⟩, fun hme => ?_, ?_⟩
  · obtain ⟨hlt, hflag, -⟩ := List.findIdx?_eq_some_iff_getElem.mp hme
    have hentry := Option.some.inj ((List.getElem?_eq_getElem hlt).symm.trans hget)
    rw [hentry, senderNode_myself] at hflag
    cases hflag
  · rw [NodeTable.claims_modify (f := senderNode f now) (fun _ _ => ⟨rfl, rfl⟩) ⟨n, hn⟩,
      NodeTable.add_claims hadd]

/-- The sender of a frame claims the frame's slots, whatever its flags. -/
theorem applySender_claims (hadd : d.table.add f.sender.id = some (t, c)) :
    (applySender f now t c d).table.claims
      = d.table.claims.claim f.sender.id f.slots (wireEpoch f.ext) := by
  obtain ⟨⟨n, hn⟩, hme, hclaims⟩ := senderRecord now hadd
  rw [applySender]
  generalize hd : { d with table := t }.modify c (senderNode f now) = d'
  have htable : t.modify c (senderNode f now) = d'.table := by rw [← hd, ClusterState.modify]
  rw [htable] at hn hme hclaims
  rw [← hclaims]
  exact merge_claims hn hme _ _

end sender

/-! ## Gossip -/

theorem gossipReport_keeps (c i : Nat) (failing : Bool) (now : UInt64) (d : ClusterState) :
    Keeps d (gossipReport c i failing now d) := by
  unfold gossipReport
  split
  · rename_i n g _ _
    refine Keeps.ite (Keeps.ite ?_ ?_) (Keeps.refl d)
    · have hreport : Keeps d (d.modify i fun g => clusterReportFailure g n.1 now) :=
        Keeps.modify fun e _ => nodeCore_reportFailure e.1 e.2 n.1 now
      exact hreport.trans (markFailIfQuorum_keeps _ i now)
    · exact Keeps.modify fun e _ => nodeCore_reportHeal e.1 e.2 n.1
  · exact Keeps.refl d

theorem merge_claims_cases {i : Nat} {id : NodeId} {n : ClusterNode}
    (h : d.table.entries[i]? = some (id, n)) (bm : Bitmap) (e : UInt64) :
    (clusterMergeClaims d i bm e).table.claims
      = if d.table.own = some id then d.table.claims.raise id e else d.table.claims.claim id bm e := by
  by_cases hown : d.table.own = some id
  · rw [if_pos hown, merge_claims_own h ((NodeTable.myself_iff_own h).mpr hown)]
  · rw [if_neg hown, merge_claims h fun hme => hown ((NodeTable.myself_iff_own h).mp hme)]

/-- What a gossip entry does: it changes no claim, or it merges claims for its node, which was known
or is added behind the others. -/
theorem gossipStep_cases (c : Nat) (now : UInt64) (d : ClusterState) (g : GossipEntry) :
    Keeps d (gossipStep c now d g) ∨
      ∃ d₁ : ClusterState, ∃ i n, d₁.table.entries[i]? = some (g.node.id, n) ∧
        d₁.nodeId = d.nodeId ∧ d₁.table.claims = d.table.claims ∧
        (d₁.table.selves = d.table.selves ∨ d₁.table.selves = d.table.selves ++ [(g.node.id, false)]) ∧
        gossipStep c now d g
          = clusterMergeClaims d₁ i (clusterSlotsParse g.slots) (wireEpoch g.ext) := by
  unfold gossipStep
  split
  · rename_i i hfind
    have hkeeps := gossipReport_keeps c i (g.node.flags.has .pfail || g.node.flags.has .fail) now d
    generalize gossipReport c i (g.node.flags.has .pfail || g.node.flags.has .fail) now d = d₁ at hkeeps
    dsimp only
    split
    · rename_i x o hext ho
      split_ifs
      · have hid : o.1 = g.node.id := by
          obtain ⟨n, hn⟩ := NodeTable.get_of_find hfind
          have hids := congrArg (fun l => (l[i]?).map Prod.fst) hkeeps.core
          simp only [NodeTable.core, List.getElem?_map, ho, hn] at hids
          exact Option.some.inj hids
        refine .inr ⟨d₁, i, o.2, ?_, hkeeps.nodeId, hkeeps.claims, .inl hkeeps.selves, ?_⟩
        · rw [ho, ← hid]
        · rw [hext]
          rfl
      · exact .inl hkeeps
    · exact .inl hkeeps
  · rename_i hfind
    split
    · exact .inl (Keeps.refl d)
    rename_i t i hadd
    obtain ⟨n, hn⟩ := NodeTable.add_get hadd
    refine .inr ⟨{ d with table := t }.modify i (gossipNode g), i, gossipNode g n, ?_, rfl, ?_, .inr ?_,
      rfl⟩
    · show (t.modify i (gossipNode g)).entries[i]? = _
      rw [NodeTable.modify_getElem?, hn, Option.map_some, if_pos rfl]
    · show (t.modify i (gossipNode g)).claims = _
      rw [NodeTable.claims_modify (f := gossipNode g) (fun _ _ => ⟨rfl, rfl⟩) ⟨n, hn⟩,
        NodeTable.add_claims hadd]
    show (t.modify i (gossipNode g)).selves = _
    rcases NodeTable.add_cases hadd with ⟨-, hsome⟩ | ⟨-, hentries, rfl⟩
    · rw [hfind] at hsome
      cases hsome
    rw [NodeTable.selves, NodeTable.modify_last hentries, List.map_append]
    have hflag : (gossipNode g freshNode).flags.has .myself = false := by
      simp only [gossipNode]
      rw [has_raise_of_ne _ (by decide), has_drop_self]
    rw [List.map_singleton, hflag]
    rfl

theorem gossipStep_claims (c : Nat) (now : UInt64) (d : ClusterState) (g : GossipEntry) :
    (gossipStep c now d g).table.claims = d.table.claims ∨
      (gossipStep c now d g).table.claims = d.table.claims.raise g.node.id (wireEpoch g.ext) ∨
      (gossipStep c now d g).table.claims
        = d.table.claims.claim g.node.id (clusterSlotsParse g.slots) (wireEpoch g.ext) := by
  rcases gossipStep_cases c now d g with hkeeps | ⟨d₁, i, n, hi, -, hclaims, -, heq⟩
  · exact .inl hkeeps.claims
  rw [heq, merge_claims_cases hi, hclaims]
  split_ifs
  · exact .inr (.inl rfl)
  · exact .inr (.inr rfl)

theorem gossipStep_selves (c : Nat) (now : UInt64) (d : ClusterState) (g : GossipEntry) :
    (gossipStep c now d g).table.selves = d.table.selves ∨
      (gossipStep c now d g).table.selves = d.table.selves ++ [(g.node.id, false)] := by
  rcases gossipStep_cases c now d g with hkeeps | ⟨d₁, i, n, -, -, -, hselves, heq⟩
  · exact .inl hkeeps.selves
  · rw [heq, merge_selves]
    exact hselves

theorem gossipStep_owns_le {now : UInt64} {x : NodeId} (hx : x ≠ g.node.id) (h : (gossipStep c now d g).table.claims.owns x s) :
    d.table.claims.owns x s := by
  rcases gossipStep_claims c now d g with heq | heq | heq <;> rw [heq] at h
  · exact h
  · exact h
  · exact ((Claims.settle_other hx).mp h).1

theorem gossipStep_owns_ge {now : UInt64} {x : NodeId} (hx : x ≠ g.node.id) (hs : clusterSlotsGet (clusterSlotsParse g.slots) s = false)
    (h : d.table.claims.owns x s) : (gossipStep c now d g).table.claims.owns x s := by
  rcases gossipStep_claims c now d g with heq | heq | heq <;> rw [heq]
  · exact h
  · exact h
  refine (Claims.settle_other hx).mpr ⟨h, fun hclaim => ?_⟩
  rw [hs] at hclaim
  cases hclaim.1

def GossipOk (g : GossipEntry) : Prop := (g.ext.map WireExt.master).all masterOk = true

instance (g : GossipEntry) : Decidable (GossipOk g) := inferInstanceAs (Decidable (_ = true))

theorem gossipLoop_cons (c : Nat) (now : UInt64) (d : ClusterState) (g : GossipEntry)
    (gs : List GossipEntry) :
    gossipLoop c now d (g :: gs)
      = if GossipOk g then gossipLoop c now (gossipStep c now d g) gs else (d, false) := rfl

theorem gossipLoop_ok {now : UInt64} : (gossipLoop c now d gs).2 = true ↔ ∀ g ∈ gs, GossipOk g := by
  induction gs generalizing d with
  | nil => simp [gossipLoop]
  | cons g gs ih =>
    rw [gossipLoop_cons]
    by_cases hg : GossipOk g
    · rw [if_pos hg, ih]
      simp [hg]
    · rw [if_neg hg]
      simp [hg]

theorem gossipLoop_keeps {now : UInt64} {P : ClusterState → Prop}
    (hstep : ∀ g ∈ gs, ∀ d, P d → P (gossipStep c now d g)) (h : P d) :
    P (gossipLoop c now d gs).1 := by
  induction gs generalizing d with
  | nil => exact h
  | cons g gs ih =>
    rw [gossipLoop_cons]
    by_cases hg : GossipOk g
    · rw [if_pos hg]
      exact ih (fun g' hg' => hstep g' (List.mem_cons_of_mem g hg')) (hstep g List.mem_cons_self d h)
    · rw [if_neg hg]
      exact h

/-! ## A frame -/

theorem applySender_selves_ne_nil {f : BusFrame} {t : NodeTable}
    (now : UInt64) (hadd : d.table.add f.sender.id = some (t, c)) :
    (applySender f now t c d).table.selves ≠ [] := by
  obtain ⟨⟨n, hn⟩, -, -⟩ := senderRecord now hadd
  rw [applySender, merge_selves]
  show (t.modify c (senderNode f now)).selves ≠ []
  intro hnil
  rw [List.map_eq_nil_iff.mp hnil] at hn
  cases hn

/-- A PING, PONG or MEET frame: the sender, then the gossip; a reply can always be built. -/
theorem handle_hello {frame : Bytes} {f : BusFrame} {t : NodeTable} (now : UInt64)
    (hf : decodeBus frame = some (.hello f)) (hadd : d.table.add f.sender.id = some (t, c)) :
    (clusterBusHandleFrame d frame now).1.table
        = (gossipLoop c now (applySender f now t c d) f.gossip).1.table ∧
      ((clusterBusHandleFrame d frame now).2 ≠ none ↔ ∀ g ∈ f.gossip, GossipOk g) ∧
      (clusterBusHandleFrame d frame now).1
        = { (gossipLoop c now (applySender f now t c d) f.gossip).1 with
            slotOwnerDirty := (clusterBusHandleFrame d frame now).1.slotOwnerDirty } := by
  have hne : (gossipLoop c now (applySender f now t c d) f.gossip).1.table.selves ≠ [] := by
    refine gossipLoop_keeps (P := fun d => d.table.selves ≠ []) (fun g _ d hd => ?_)
      (applySender_selves_ne_nil now hadd)
    rcases gossipStep_selves c now d g with heq | heq <;> rw [heq]
    · exact hd
    · simp
  rw [← gossipLoop_ok]
  unfold clusterBusHandleFrame
  simp only [hf, hadd]
  cases hloop : gossipLoop c now (applySender f now t c d) f.gossip with
  | mk d' ok =>
    rw [hloop] at hne
    cases ok with
    | false => simp
    | true =>
      have hentries : d'.table.entries ≠ [] := fun hnil => hne (List.map_eq_nil_iff.mpr hnil)
      obtain ⟨i, sn, hi, hsn⟩ := sender_some hentries
      simp only [buildFrame_eq clusterMsgPong hi hsn]
      split_ifs <;> simp

end Ddup.Cluster
