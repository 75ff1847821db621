/-
Ddup.Cluster.GossipTheorems — when gossip between nodes that agree changes nothing.

A frame tells the receiver of the sender's slots, and then of other nodes one by one; their slots go as
text, which is cut and misread. For views that agree, handling a frame comes down to a list of claims,
each with the epoch the receiver already has (`tellAll`). Such a list leaves the owners alone exactly if
each of its claims would by itself: a slot that is lost stays lost, and one that is won stays with the
winner or goes to a node of even higher rank.
-/
import Ddup.Cluster.BusTheorems

namespace Ddup.Cluster

open Ddup.Lib
open List (map_cons map_map mem_cons)
open Prod (fst)

variable {e : NodeId × ClusterNode} {c : Nat} {n y : ClusterNode} {t : NodeTable}

/-! ## Claims without a new epoch -/

namespace Claims

variable {v : Claims} {id : NodeId} {bm : Bitmap} {x : NodeId} {s : Nat}

/-- A claim for a node's own slots, and perhaps for others that nodes of higher rank own. -/
structure Neutral (v : Claims) (id : NodeId) (bm : Bitmap) : Prop where
  keeps : ∀ s, v.owns id s → clusterSlotsGet bm s = true
  loses : ∀ s, clusterSlotsGet bm s = true → v.owns id s ∨ ∃ y, v.owns y s ∧ v.rank id < v.rank y

theorem Neutral.settle_eq (h : v.Neutral id bm) (hsole : v.Sole) : v.settle id bm = v := by
  refine Claims.ext rfl (funext fun x => funext fun s => propext ?_)
  by_cases hx : x = id
  · subst hx
    rw [settle_self]
    constructor
    · rintro ⟨hbm, hwins⟩
      rcases h.loses s hbm with hown | ⟨y, hy, hrank⟩
      · exact hown
      have hne : y ≠ x := by
        rintro rfl
        exact lt_irrefl _ hrank
      exact absurd (hwins y hne hy) (lt_asymm hrank)
    · intro hown
      exact ⟨h.keeps s hown, fun y hy hown' => absurd (hsole y x s hown' hown) hy⟩
  · rw [settle_other hx]
    refine ⟨fun hown => hown.1, fun hown => ⟨hown, ?_⟩⟩
    rintro ⟨hbm, hrank⟩
    rcases h.loses s hbm with hid | ⟨y, hy, hrank'⟩
    · exact hx (hsole x id s hown hid)
    · rw [hsole y x s hy hown] at hrank'
      exact lt_asymm hrank hrank'

/-- What a claim that is not neutral does: the node loses a slot, or gets one that nobody, or only
nodes of lower rank, owned. -/
theorem not_neutral (h : ¬ v.Neutral id bm) :
    (∃ s, v.owns id s ∧ clusterSlotsGet bm s = false) ∨
      ∃ s, clusterSlotsGet bm s = true ∧ ¬ v.owns id s ∧ ∀ y, v.owns y s → v.rank y < v.rank id := by
  by_contra hcon
  rw [not_or] at hcon
  obtain ⟨hlost, hwon⟩ := hcon
  refine h ⟨fun s hown => ?_, fun s hbm => ?_⟩
  · by_contra hbm
    exact hlost ⟨s, hown, Bool.eq_false_iff.mpr hbm⟩
  by_contra hnone
  rw [not_or] at hnone
  refine hwon ⟨s, hbm, hnone.1, fun y hy => ?_⟩
  rcases lt_trichotomy (v.rank y) (v.rank id) with hlt | heq | hgt
  · exact hlt
  · rw [rank_inj heq] at hy
    exact absurd hy hnone.1
  · exact absurd ⟨y, hy, hgt⟩ hnone.2

def tell (own : Option NodeId) (v : Claims) (p : NodeId × Bitmap) : Claims :=
  if own = some p.1 then v else v.settle p.1 p.2

def tellAll (own : Option NodeId) (v : Claims) (ps : List (NodeId × Bitmap)) : Claims :=
  ps.foldl (tell own) v

variable {own : Option NodeId} {p : NodeId × Bitmap} {ps : List (NodeId × Bitmap)}

theorem tellAll_cons : tellAll own v (p :: ps) = tellAll own (tell own v p) ps := rfl

theorem tell_epoch : (tell own v p).epoch = v.epoch := by
  unfold tell
  split_ifs <;> rfl

theorem tell_rank (x : NodeId) : (tell own v p).rank x = v.rank x := by rw [rank, rank, tell_epoch]

theorem Sole.tell (h : v.Sole) : (tell own v p).Sole := by
  unfold Claims.tell
  split_ifs
  · exact h
  · exact h.settle p.2

theorem tell_owns_le (hx : x ≠ p.1) (h : (tell own v p).owns x s) : v.owns x s := by
  unfold tell at h
  split_ifs at h
  · exact h
  · exact ((settle_other hx).mp h).1

theorem tellAll_owns_le (hx : x ∉ ps.map fst) (h : (tellAll own v ps).owns x s) : v.owns x s := by
  induction ps generalizing v with
  | nil => exact h
  | cons p ps ih =>
    rw [map_cons, mem_cons, not_or] at hx
    exact tell_owns_le hx.1 (ih hx.2 h)

/-- A slot that has gone to a node stays with it, or goes to nodes of higher rank. -/
theorem tellAll_owner_rank (hnodup : (ps.map fst).Nodup) (hsole : v.Sole)
    (hx : x ∉ ps.map fst) (hown : v.owns x s) :
    ∃ y, (tellAll own v ps).owns y s ∧ v.rank x ≤ v.rank y := by
  induction ps generalizing v x with
  | nil => exact ⟨x, hown, le_refl _⟩
  | cons p ps ih =>
    rw [map_cons, mem_cons, not_or] at hx
    rw [map_cons, List.nodup_cons] at hnodup
    by_cases hkeep : (tell own v p).owns x s
    · obtain ⟨y, hy, hrank⟩ := ih hnodup.2 hsole.tell hx.2 hkeep
      rw [tell_rank, tell_rank] at hrank
      exact ⟨y, hy, hrank⟩
    -- the claimant outranks the only owner, so it gets the slot
    have htell : tell own v p = v.settle p.1 p.2 := by
      unfold tell at hkeep ⊢
      split_ifs at hkeep ⊢ with hown'
      · exact absurd hown hkeep
      · rfl
    rw [htell, settle_other hx.1, not_and, not_not] at hkeep
    obtain ⟨hbm, hlt⟩ := hkeep hown
    have hwon : (tell own v p).owns p.1 s := by
      rw [htell, settle_self]
      refine ⟨hbm, fun y _ hy => ?_⟩
      rw [hsole y x s hy hown]
      exact hlt
    obtain ⟨y, hy, hrank⟩ := ih hnodup.2 hsole.tell hnodup.1 hwon
    rw [tell_rank, tell_rank] at hrank
    exact ⟨y, hy, hlt.le.trans hrank⟩

/-- A list of claims, one for each node, leaves the owners alone exactly if each of them would. -/
theorem tellAll_owns_iff (hnodup : (ps.map fst).Nodup) (hsole : v.Sole) :
    (tellAll own v ps).owns = v.owns ↔ ∀ p ∈ ps, own ≠ some p.1 → v.Neutral p.1 p.2 := by
  induction ps with
  | nil => simp [tellAll]
  | cons p ps ih =>
    rw [map_cons, List.nodup_cons] at hnodup
    rw [tellAll_cons, List.forall_mem_cons]
    by_cases hp : own ≠ some p.1 → v.Neutral p.1 p.2
    · have htell : tell own v p = v := by
        unfold tell
        split_ifs with hown
        · rfl
        · exact (hp hown).settle_eq hsole
      rw [htell, ih hnodup.2]
      exact ⟨fun h => ⟨hp, h⟩, fun h => h.2⟩
    refine ⟨fun heq => absurd heq ?_, fun h => absurd h.1 hp⟩
    rw [Classical.not_imp] at hp
    have htell : tell own v p = v.settle p.1 p.2 := by
      unfold tell
      rw [if_neg hp.1]
    rcases not_neutral hp.2 with ⟨s, hown, hbm⟩ | ⟨s, hbm, hnone, hlow⟩
    · rw [← heq] at hown
      have hlast := tellAll_owns_le hnodup.1 hown
      rw [htell, settle_self, hbm] at hlast
      cases hlast.1
    have hwon : (tell own v p).owns p.1 s := by
      rw [htell, settle_self]
      exact ⟨hbm, fun y _ hy => hlow y hy⟩
    obtain ⟨y, hy, hrank⟩ := tellAll_owner_rank hnodup.2 hsole.tell hnodup.1 hwon
    rw [tell_rank, tell_rank] at hrank
    rw [heq] at hy
    exact absurd (hlow y hy) (not_lt.mpr hrank)

end Claims

/-! ## Gossip about known nodes -/

theorem known_iff {id : NodeId} : (∃ n, t.get? id = some n) ↔ id ∈ t.selves.map fst := by
  rw [← Option.ne_none_iff_exists', Ne, NodeTable.get?_eq_none, ← Ne, Option.ne_none_iff_exists',
    NodeTable.find_isSome_iff, NodeTable.selves, map_map]
  rfl

/-- A gossip entry about a known node, with the epoch it has. -/
def Tells (t : NodeTable) (g : GossipEntry) : Prop :=
  g.node.id ∈ t.selves.map fst ∧ ∃ x, g.ext = some x ∧ x.epoch = t.claims.epoch g.node.id

theorem gossipStep_tells (c : Nat) (now : UInt64) {d : ClusterState} {g : GossipEntry}
    (h : Tells d.table g) :
    (gossipStep c now d g).table.claims
        = d.table.claims.tell d.table.own (g.node.id, clusterSlotsParse g.slots) ∧
      (gossipStep c now d g).table.selves = d.table.selves := by
  obtain ⟨hknown, x, hext, hepoch⟩ := h
  obtain ⟨n, hn⟩ := known_iff.mpr hknown
  obtain ⟨i, hfind, hi⟩ := NodeTable.find_of_get? hn
  have hkeeps := gossipReport_keeps c i (g.node.flags.has .pfail || g.node.flags.has .fail) now d
  unfold gossipStep
  rw [hfind, hext]
  dsimp only
  generalize gossipReport c i (g.node.flags.has .pfail || g.node.flags.has .fail) now d = d₁ at hkeeps
  have hcore := congrArg (fun l => l[i]?) hkeeps.core
  simp only [NodeTable.core, List.getElem?_map, hi] at hcore
  obtain ⟨o, ho, heq⟩ := Option.map_eq_some_iff.mp hcore
  have hid : o.1 = g.node.id := congrArg fst heq
  have hsame : o.2.epoch = x.epoch := by
    rw [hepoch, NodeTable.claims_epoch hn]
    exact congrArg (fun e => e.2.2.1) heq
  have hown : d₁.table.own = d.table.own := by rw [NodeTable.own, NodeTable.own, hkeeps.selves]
  have hget : d₁.table.entries[i]? = some (g.node.id, o.2) := by rw [ho, ← hid]
  have hraise : d.table.claims.raise g.node.id x.epoch = d.table.claims :=
    Claims.raise_of_le (by rw [hepoch]; exact UInt64.le_refl _)
  simp only [ho, hsame, UInt64.le_refl, if_true]
  refine ⟨?_, (merge_selves _ _ _ _).trans hkeeps.selves⟩
  rw [merge_claims_cases hget, hown, hkeeps.claims, Claims.tell, Claims.claim, hraise]

theorem gossipSteps_tell {now : UInt64} {d : ClusterState} {gs : List GossipEntry}
    (h : ∀ g ∈ gs, Tells d.table g) :
    (gs.foldl (gossipStep c now) d).table.claims = d.table.claims.tellAll d.table.own
          (gs.map fun g => (g.node.id, clusterSlotsParse g.slots)) := by
  induction gs generalizing d with
  | nil => rfl
  | cons g gs ih =>
    obtain ⟨hclaims, hselves⟩ := gossipStep_tells c now (h g List.mem_cons_self)
    have hown : (gossipStep c now d g).table.own = d.table.own := by
      rw [NodeTable.own, NodeTable.own, hselves]
    have hrest : ∀ g' ∈ gs, Tells (gossipStep c now d g).table g' := by
      intro g' hg'
      obtain ⟨hknown, x, hext, hepoch⟩ := h g' (List.mem_cons_of_mem g hg')
      refine ⟨hselves ▸ hknown, x, hext, ?_⟩
      rw [hepoch, hclaims, Claims.tell_epoch]
    rw [List.foldl_cons, ih hrest, hown, hclaims]
    rfl

theorem gossipLoop_eq (c : Nat) (now : UInt64) (d : ClusterState) (gs : List GossipEntry) :
    (gossipLoop c now d gs).1 = (gs.takeWhile fun g => decide (GossipOk g)).foldl (gossipStep c now) d := by
  induction gs generalizing d with
  | nil => rfl
  | cons g gs ih =>
    rw [gossipLoop_cons]
    by_cases hg : GossipOk g
    · rw [if_pos hg, List.takeWhile_cons_of_pos (by simpa using hg), List.foldl_cons, ih]
    · rw [if_neg hg, List.takeWhile_cons_of_neg (by simpa using hg), List.foldl_nil]

/-! ## Views that agree -/

/-- Two views with the same nodes, the same epochs and the same owner of every slot. -/
structure Agree (a b : NodeTable) : Prop where
  nodes : ∀ id, id ∈ a.selves.map fst ↔ id ∈ b.selves.map fst
  claims : a.claims = b.claims
  sole : b.claims.Sole

/-- The own node of a receiver once the sender's record has been written. -/
def NodeTable.ownBut (t : NodeTable) (id : NodeId) : Option NodeId :=
  (t.selves.find? fun e => e.2 && e.1 ≠ id).map fst

/-- The nodes a frame of the node at `i` tells of, up to the first with a malformed master. -/
def NodeTable.told (t : NodeTable) (i : Nat) : List (NodeId × ClusterNode) :=
  (t.gossip i).takeWhile fun e => masterOk (masterField e.2)

/-- The slots a node has after the text of its slots went through a frame. -/
def toldSlots (n : ClusterNode) : Bitmap := clusterSlotsParse (lineSlots n.slots)

theorem selves_senderRecord {f : BusFrame} (now : UInt64)
    (hc : t.entries[c]? = some (f.sender.id, n)) :
    (t.modify c (senderNode f now)).selves
      = t.selves.map fun e => (e.1, e.2 && e.1 ≠ f.sender.id) := by
  refine List.ext_getElem? fun j => ?_
  rw [NodeTable.selves, NodeTable.selves, List.getElem?_map, List.getElem?_map, List.getElem?_map,
    NodeTable.modify_getElem?]
  cases hj : t.entries[j]? with
  | none => rfl
  | some e =>
    simp only [Option.map_some]
    by_cases hjc : j = c
    · subst hjc
      rw [hc] at hj
      rw [if_pos rfl, senderNode_myself, ← Option.some.inj hj]
      simp
    · have hne : e.1 ≠ f.sender.id := fun heq => hjc (NodeTable.index_unique hj hc heq)
      rw [if_neg hjc]
      simp [hne]

theorem own_applySender {d : ClusterState} {f : BusFrame} (now : UInt64)
    (hc : d.table.entries[c]? = some (f.sender.id, n)) :
    (applySender f now d.table c d).table.own = d.table.ownBut f.sender.id := by
  have hselves : (applySender f now d.table c d).table.selves
      = d.table.selves.map fun e => (e.1, e.2 && e.1 ≠ f.sender.id) := by
    rw [applySender, merge_selves]
    exact selves_senderRecord now hc
  rw [NodeTable.own, hselves, List.find?_map, Option.map_map]
  rfl

section agree

variable {A B : ClusterState} {i : Nat} {sn : NodeId × ClusterNode}

theorem told_mem (h : e ∈ A.table.told i) : e ∈ A.table.entries :=
  List.mem_of_mem_eraseIdx (List.mem_of_mem_take ((List.takeWhile_sublist _).mem h))

theorem told_nodup (t : NodeTable) (i : Nat) : ((t.told i).map fst).Nodup := by
  have hsub : (t.told i).Sublist t.entries :=
    (List.takeWhile_sublist _).trans ((List.take_sublist _ _).trans (List.eraseIdx_sublist _ _))
  exact t.distinct.sublist (hsub.map fst)

theorem Agree.epoch (h : Agree A.table B.table) (he : e ∈ A.table.entries) :
    B.table.claims.epoch e.1 = e.2.epoch := by
  rw [← h.claims]
  exact NodeTable.claims_epoch (NodeTable.get?_eq_some.mpr he)

theorem Agree.known (h : Agree A.table B.table) (he : e ∈ A.table.entries) :
    e.1 ∈ B.table.selves.map fst :=
  (h.nodes e.1).mp (known_iff.mp ⟨e.2, NodeTable.get?_eq_some.mpr he⟩)

theorem Agree.sender_neutral (h : Agree A.table B.table) (hsn : A.table.entries[i]? = some sn) :
    B.table.claims.claim sn.1 sn.2.slots sn.2.epoch = B.table.claims := by
  have hmem : sn ∈ A.table.entries := List.mem_of_getElem? hsn
  have howns : ∀ s, B.table.claims.owns sn.1 s ↔ clusterSlotsGet sn.2.slots s = true := by
    intro s
    rw [← h.claims]
    exact NodeTable.claims_owns (NodeTable.get?_eq_some.mpr hmem) s
  have hraise : B.table.claims.raise sn.1 sn.2.epoch = B.table.claims :=
    Claims.raise_of_le (by rw [h.epoch hmem]; exact UInt64.le_refl _)
  rw [Claims.claim, hraise]
  refine Claims.Neutral.settle_eq ⟨fun s hown => (howns s).mp hown, fun s hbm => ?_⟩ h.sole
  exact .inl ((howns s).mpr hbm)

/-- What a frame between views that agree comes down to. -/
theorem Agree.handle_claims (h : Agree A.table B.table) {type : Nat} {frame : Bytes} (now : UInt64)
    (hsn : A.table.entries[i]? = some sn)
    (hf : decodeBus frame = some (.hello (A.table.hello type i sn))) :
    (clusterBusHandleFrame B frame now).1.table.claims
      = B.table.claims.tellAll (B.table.ownBut sn.1)
          ((A.table.told i).map fun e => (e.1, toldSlots e.2)) := by
  have hmem : sn ∈ A.table.entries := List.mem_of_getElem? hsn
  obtain ⟨n, hn⟩ := known_iff.mpr (h.known hmem)
  obtain ⟨c, hfind, hc⟩ := NodeTable.find_of_get? hn
  have hadd : B.table.add (A.table.hello type i sn).sender.id = some (B.table, c) :=
    NodeTable.add_known hfind
  have hsender : (applySender (A.table.hello type i sn) now B.table c B).table.claims
      = B.table.claims := (applySender_claims now hadd).trans (h.sender_neutral hsn)
  have hown : (applySender (A.table.hello type i sn) now B.table c B).table.own
      = B.table.ownBut sn.1 := own_applySender now hc
  have hselves : (applySender (A.table.hello type i sn) now B.table c B).table.selves.map fst
      = B.table.selves.map fst := by
    rw [applySender, merge_selves]
    refine (congrArg (List.map fst) (selves_senderRecord now hc)).trans ?_
    rw [map_map]
    rfl
  have hgossip : (A.table.hello type i sn).gossip.takeWhile (fun g => decide (GossipOk g))
      = (A.table.told i).map wireGossip := by
    refine (List.takeWhile_map ..).trans (congrArg (List.map wireGossip) ?_)
    refine congrArg (fun q => List.takeWhile q (A.table.gossip i)) (funext fun e => ?_)
    exact Bool.decide_eq_true
  have htells : ∀ g ∈ (A.table.told i).map wireGossip,
      Tells (applySender (A.table.hello type i sn) now B.table c B).table g := by
    intro g hg
    obtain ⟨e, he, rfl⟩ := List.mem_map.mp hg
    refine ⟨?_, wireExt e.2, rfl, ?_⟩
    · rw [hselves]
      exact h.known (told_mem he)
    · rw [hsender]
      exact (h.epoch (told_mem he)).symm
  rw [(handle_hello now hf hadd).1, gossipLoop_eq, hgossip, gossipSteps_tell htells, hsender, hown,
    map_map]
  rfl

end agree

/-! ## Two views -/

def trio (x y : ClusterNode) (bm : Bitmap) : NodeTable where
  entries := [(NodeId.ofDigit 97 hex97, x), (NodeId.ofDigit 98 hex98, y),
    (NodeId.ofDigit 99 hex99, { freshNode with slots := bm })]
  distinct := by
    show [NodeId.ofDigit 97 rfl, NodeId.ofDigit 98 rfl, NodeId.ofDigit 99 rfl].Nodup
    decide
  bounded := (by decide : 3 ≤ 32)

def trioFirst (bm : Bitmap) : ClusterState := .start (NodeId.ofDigit 97 hex97) (trio ownNode freshNode bm)
def trioSecond (bm : Bitmap) : ClusterState := .start (NodeId.ofDigit 98 hex98) (trio freshNode ownNode bm)

theorem trio_owns {x : ClusterNode} {bm : Bitmap} {id : NodeId} {s : Nat} (hx : x.slots = 0#16384)
    (hy : y.slots = 0#16384) (h : (trio x y bm).claims.owns id s) :
    id = NodeId.ofDigit 99 rfl ∧ clusterSlotsGet bm s = true := by
  obtain ⟨n, hn, hget⟩ := h
  have hmem := NodeTable.get?_eq_some.mp hn
  simp only [trio, mem_cons, List.not_mem_nil, or_false] at hmem
  rcases hmem with ⟨-, rfl⟩ | ⟨-, rfl⟩ | ⟨rfl, rfl⟩
  · rw [hx, clusterSlotsGet_zero] at hget
    cases hget
  · rw [hy, clusterSlotsGet_zero] at hget
    cases hget
  · exact ⟨rfl, hget⟩

theorem trio_agree (bm : Bitmap) : Agree (trioFirst bm).table (trioSecond bm).table where
  nodes := fun _ => Iff.rfl
  claims := NodeTable.claims_of_map_eq rfl
  sole := fun _ _ _ hx hy => (trio_owns rfl rfl hx).1.trans (trio_owns rfl rfl hy).1.symm

theorem trio_told (bm : Bitmap) :
    e ∈ (trioFirst bm).table.told 0 ↔ e = (NodeId.ofDigit 98 (by decide), freshNode) ∨
      e = (NodeId.ofDigit 99 (by decide), { freshNode with slots := bm }) := by
  have hmaster : masterOk (masterField freshNode) = true := by decide
  have hgossip : (trioFirst bm).table.gossip 0 = [(NodeId.ofDigit 98 (by decide), freshNode),
      (NodeId.ofDigit 99 (by decide), { freshNode with slots := bm })] := rfl
  have hall : ∀ e ∈ (trioFirst bm).table.gossip 0, masterOk (masterField e.2) = true := by
    rw [hgossip]
    simp only [mem_cons, List.not_mem_nil, or_false]
    rintro e (rfl | rfl)
    · exact hmaster
    · exact hmaster
  rw [NodeTable.told, List.takeWhile_eq_self_iff.mpr hall, hgossip]
  simp

theorem trio_sender (bm : Bitmap) : (trioFirst bm).table.sender = some 0 := by
  have hme : (trioFirst bm).table.myself = some 0 := by
    refine List.findIdx?_eq_some_iff_getElem.mpr ⟨(by decide : 0 < 3), ?_, fun j hj => absurd hj (by omega)⟩
    exact (by decide : ownNode.flags.has .myself = true)
  rw [NodeTable.sender, hme]

theorem toldSlots_empty (h : n.slots = 0#16384) : toldSlots n = 0#16384 := by
  have hfits : (slotText 0#16384).length < 256 := by
    rw [slotText_empty]
    decide
  rw [toldSlots, h, lineSlots, clusterSlotsRender_of_fits hfits, slotText_empty]
  rfl

/-- A slot that another node owns with a newer epoch than the frame's is not the sender's afterwards. -/
def NoSteal (d : ClusterState) (f : BusFrame) (d' : ClusterState) : Prop :=
  ∀ s x, x ≠ f.sender.id → d.table.claims.owns x s → wireEpoch f.ext < d.table.claims.epoch x →
    ¬ d'.table.claims.owns f.sender.id s

/-- Each slot the frame claims that another node owns with a newer epoch has an owner that the sender,
    with the larger of its epoch on record and the frame's, does not outrank. -/
def Defended (d : ClusterState) (f : BusFrame) : Prop :=
  ∀ s x, clusterSlotsGet f.slots s = true → x ≠ f.sender.id → d.table.claims.owns x s →
    wireEpoch f.ext < d.table.claims.epoch x →
    ∃ y, y ≠ f.sender.id ∧ d.table.claims.owns y s ∧
      ¬ d.table.claims.rank y < rank (max (d.table.claims.epoch f.sender.id) (wireEpoch f.ext)) f.sender.id

theorem claim_owns_self {v : Claims} {id : NodeId} {bm : Bitmap} {e : UInt64} {s : Nat} :
    (v.claim id bm e).owns id s ↔ clusterSlotsGet bm s = true ∧
      ∀ y, y ≠ id → v.owns y s → v.rank y < rank (max (v.epoch id) e) id := by
  have hself : (v.raise id e).rank id = rank (max (v.epoch id) e) id := by
    simp [Claims.rank, Claims.raise]
  have hother : ∀ y, y ≠ id → (v.raise id e).rank y = v.rank y := by
    intro y hy
    simp only [Claims.rank, Claims.raise, Function.update_of_ne hy]
  rw [Claims.claim, Claims.settle_self, hself]
  refine and_congr_right fun _ => forall₂_congr fun y hy => ?_
  rw [hother y hy]
  rfl

section stale

variable {d : ClusterState} {frame : Bytes} {f : BusFrame} (now : UInt64)

/-- An accepted frame: its sender, and what the sender owns afterwards. -/
theorem owns_sender_of_handle (hf : decodeBus frame = some (.hello f))
    (hok : (clusterBusHandleFrame d frame now).2 ≠ none)
    (hnames : ∀ g ∈ f.gossip, g.node.id ≠ f.sender.id) (s : Nat) :
    ((clusterBusHandleFrame d frame now).1.table.claims.owns f.sender.id s →
        (d.table.claims.claim f.sender.id f.slots (wireEpoch f.ext)).owns f.sender.id s) ∧
      ((∀ g ∈ f.gossip, clusterSlotsGet (clusterSlotsParse g.slots) s = false) →
        (d.table.claims.claim f.sender.id f.slots (wireEpoch f.ext)).owns f.sender.id s →
        (clusterBusHandleFrame d frame now).1.table.claims.owns f.sender.id s) := by
  cases hadd : d.table.add f.sender.id with
  | none =>
    unfold clusterBusHandleFrame at hok
    simp only [hf, hadd] at hok
    exact absurd rfl hok
  | some r =>
    rw [(handle_hello now hf hadd).1, ← applySender_claims now hadd]
    refine ⟨fun h => ?_, fun hapart h => ?_⟩
    · by_contra hnot
      refine gossipLoop_keeps (P := fun d => ¬ d.table.claims.owns f.sender.id s) ?_ hnot h
      exact fun g hg d hd hown => hd (gossipStep_owns_le (hnames g hg).symm hown)
    · refine gossipLoop_keeps (P := fun d => d.table.claims.owns f.sender.id s) ?_ h
      exact fun g hg d hd => gossipStep_owns_ge (hnames g hg).symm (hapart g hg) hd

end stale

theorem trio_frame {x : ClusterNode} (hme : x.flags.has .myself = true)
    (hmaster : masterOk (masterField x) = true) :
    ∃ frame f, decodeBus frame = some (.hello f) ∧ f.sender.id = NodeId.ofDigit 97 (by decide) ∧
      f.slots = x.slots ∧ wireEpoch f.ext = x.epoch ∧
      ∀ g ∈ f.gossip, g.node.id ≠ NodeId.ofDigit 97 (by decide) ∧ GossipOk g ∧
        clusterSlotsParse g.slots = 0#16384 := by
  let d : ClusterState := .start (NodeId.ofDigit 97 (by decide)) (trio x freshNode 0#16384)
  have hfirst : d.table.myself = some 0 :=
    List.findIdx?_eq_some_iff_getElem.mpr ⟨(by decide : 0 < 3), hme, fun j hj => absurd hj (by omega)⟩
  have hsender : d.table.sender = some 0 := by rw [NodeTable.sender, hfirst]
  have hdecode := decodeBus_built hsender rfl (buildFrame_eq 1 hsender rfl)
  rw [if_pos ⟨by decide, by decide, hmaster⟩] at hdecode
  refine ⟨_, _, hdecode, rfl, rfl, rfl, fun g hg => ?_⟩
  obtain ⟨e, he, rfl⟩ := List.mem_map.mp hg
  have hall : ∀ e ∈ d.table.gossip 0, e.1 ≠ NodeId.ofDigit 97 (by decide) ∧
      masterOk (masterField e.2) = true ∧ e.2.slots = 0#16384 := by
    refine List.forall_mem_cons.mpr ⟨⟨by decide, by decide, rfl⟩, List.forall_mem_singleton.mpr ?_⟩
    exact ⟨by decide, by decide, rfl⟩
  obtain ⟨hid, hok, hslots⟩ := hall e he
  exact ⟨hid, hok, toldSlots_empty hslots⟩

theorem trio_accepts {frame : Bytes} {f : BusFrame} {x : ClusterNode} {bm : Bitmap}
    (hf : decodeBus frame = some (.hello f)) (hid : f.sender.id = NodeId.ofDigit 97 (by decide))
    (hok : ∀ g ∈ f.gossip, GossipOk g) (me : NodeId) :
    (clusterBusHandleFrame (.start me (trio x y bm)) frame 0).2 ≠ none := by
  have hadd : (ClusterState.start me (trio x y bm)).table.add f.sender.id = some (trio x y bm, 0) := by
    rw [hid]
    exact NodeTable.add_known (NodeTable.find_of_get rfl)
  exact (handle_hello 0 hf hadd).2.1.mpr hok

/-- An own entry with slot 0, and a view in which such a node of epoch 5 knows another one with epoch 10. -/
def holder (e : UInt64) : ClusterNode :=
  { ownNode with epoch := e, slots := clusterSlotsSet 0#16384 0 true }
def heldView : ClusterState :=
  .start (NodeId.ofDigit 98 hex98) (trio { freshNode with epoch := 10 } (holder 5) 0#16384)

theorem get_holder (e : UInt64) : clusterSlotsGet (holder e).slots 0 = true := by
  rw [holder, clusterSlotsGet_set, if_pos ⟨rfl, by decide⟩]

theorem heldView_own : heldView.table.get? (NodeId.ofDigit 98 rfl) = some (holder 5) :=
  NodeTable.get?_of_get (i := 1) rfl

theorem heldView_rank {y : NodeId} (hy : y ≠ NodeId.ofDigit 97 rfl)
    (hown : heldView.table.claims.owns y 0) :
    heldView.table.claims.rank y < rank 10 (NodeId.ofDigit 97 rfl) := by
  obtain ⟨n, hn, -⟩ := hown
  have hmem := NodeTable.get?_eq_some.mp hn
  simp only [heldView, ClusterState.start, trio, mem_cons, List.not_mem_nil, or_false] at hmem
  rcases hmem with ⟨rfl, -⟩ | ⟨rfl, rfl⟩ | ⟨rfl, rfl⟩
  · exact absurd rfl hy
  · exact Prod.Lex.toLex_lt_toLex.mpr (.inl (by decide))
  · exact Prod.Lex.toLex_lt_toLex.mpr (.inl (by decide))

end Ddup.Cluster
