/-
Ddup.Cluster.ConvergenceTheorems — claims of the same content converge.

Each node makes one claim, a bitmap and an epoch, that may be merged any number of times. After any
sequence of claims from a table without owners, a slot is with the highest-ranked node among those of
the sequence that claim it: merging keeps, for every slot, the largest of the claimants seen so far.
Who is largest depends neither on order nor on repetition.
-/
import Ddup.Cluster.ViewTheorems

namespace Ddup.Cluster

open Ddup.Ds

variable (claim : NodeId → Bitmap × UInt64) {seq : List NodeId} {s : Nat}
variable {ids : List NodeId} {x : NodeId}

def claimStep (d : ClusterState) (id : NodeId) : ClusterState :=
  match d.table.find id with
  | none => d
  | some c => clusterMergeClaims d c (claim id).1 (claim id).2

def claimRun (d : ClusterState) (seq : List NodeId) : ClusterState := seq.foldl (claimStep claim) d

def claimRank (id : NodeId) : ℕ ×ₗ Bytes := rank (claim id).2 id

def Owns (d : ClusterState) (s : Nat) (id : NodeId) : Prop :=
  ∃ n, (id, n) ∈ d.table.entries ∧ clusterSlotsGet n.slots s = true

/-- Among the nodes of the sequence that claim the slot, this one has the largest epoch, and among
those the largest id. -/
def Largest (claim : NodeId → Bitmap × UInt64) (seq : List NodeId) (s : Nat) (id : NodeId) : Prop :=
  id ∈ seq ∧ clusterSlotsGet (claim id).1 s = true ∧
    ∀ id' ∈ seq, clusterSlotsGet (claim id').1 s = true →
      (claim id').2 < (claim id).2 ∨ (claim id').2 = (claim id).2 ∧ id'.1 ≤ id.1

theorem rank_le_iff {e e' : UInt64} {id id' : NodeId} :
    rank e' id' ≤ rank e id ↔ e' < e ∨ e' = e ∧ id'.1 ≤ id.1 := by
  rw [rank, rank, Prod.Lex.toLex_le_toLex, UInt64.lt_iff_toNat_lt, ← UInt64.toNat_inj]

variable {claim}

theorem largest_iff {id : NodeId} : Largest claim seq s id ↔
    id ∈ seq ∧ clusterSlotsGet (claim id).1 s = true ∧
      ∀ x ∈ seq, clusterSlotsGet (claim x).1 s = true → claimRank claim x ≤ claimRank claim id := by
  simp only [Largest, claimRank, rank_le_iff]

theorem exists_largest (hx : x ∈ seq) (hs : clusterSlotsGet (claim x).1 s = true) :
    ∃ id, Largest claim seq s id ∧ claimRank claim x ≤ claimRank claim id := by
  have hmem : ∀ y, y ∈ (seq.filter fun id => clusterSlotsGet (claim id).1 s).toFinset ↔
      y ∈ seq ∧ clusterSlotsGet (claim y).1 s = true := by simp
  obtain ⟨id, hid, hmax⟩ := Finset.exists_max_image _ (claimRank claim) ⟨x, (hmem x).mpr ⟨hx, hs⟩⟩
  have hid' := (hmem id).mp hid
  exact ⟨id, largest_iff.mpr ⟨hid'.1, hid'.2, fun y hy hys => hmax y ((hmem y).mpr ⟨hy, hys⟩)⟩,
    hmax x ((hmem x).mpr ⟨hx, hs⟩)⟩

theorem largest_unique {y : NodeId} (hx : Largest claim seq s x) (hy : Largest claim seq s y)
    : x = y := by
  rw [largest_iff] at hx hy
  exact rank_inj (le_antisymm (hy.2.2 x hx.1 hx.2.1) (hx.2.2 y hy.1 hy.2.1))

/-! ## One claim -/

/-- What a sequence of claims has made of a view: epochs are those of the claims seen, and a slot is
with the largest claimant. -/
structure Settled (claim : NodeId → Bitmap × UInt64) (d₀ : ClusterState) (seen : List NodeId)
    (d : ClusterState) : Prop where
  selves : d.table.selves = d₀.table.selves
  epoch : ∀ id, d.table.claims.epoch id = if id ∈ seen then (claim id).2 else 0
  owner : ∀ id s, d.table.claims.owns id s ↔ Largest claim seen s id

section Step

variable {d₀ d : ClusterState} {seen : List NodeId} {id : NodeId}

/-- Once its epoch is raised, the claimant has the rank of its claim, like those before it. -/
theorem Settled.raised_epoch (h : Settled claim d₀ seen d) (x : NodeId) :
    (d.table.claims.raise id (claim id).2).epoch x = if x ∈ seen ++ [id] then (claim x).2 else 0 := by
  show Function.update d.table.claims.epoch id (max (d.table.claims.epoch id) (claim id).2) x = _
  by_cases hx : x = id
  · subst hx
    rw [Function.update_self, h.epoch, if_pos (List.mem_append_right _ List.mem_cons_self)]
    split_ifs
    · exact ite_self _
    · exact if_pos (UInt64.le_iff_toNat_le.mpr (Nat.zero_le _))
  · rw [Function.update_of_ne hx, h.epoch]
    simp [hx]

theorem Settled.raised_rank (h : Settled claim d₀ seen d) (hx : x ∈ seen ++ [id]) :
    (d.table.claims.raise id (claim id).2).rank x = claimRank claim x := by
  rw [Claims.rank, h.raised_epoch, if_pos hx, claimRank]

/-- The owners after a claim: the largest of one claimant more. -/
theorem Settled.claimed (h : Settled claim d₀ seen d) (x : NodeId) (s : Nat) :
    (d.table.claims.claim id (claim id).1 (claim id).2).owns x s ↔ Largest claim (seen ++ [id]) s x := by
  have hself := h.raised_rank (List.mem_append_right seen (List.mem_singleton.mpr (Eq.refl id)))
  have hseen : ∀ y ∈ seen, (d.table.claims.raise id (claim id).2).rank y = claimRank claim y :=
    fun y hy => h.raised_rank (List.mem_append_left _ hy)
  rw [Claims.claim, largest_iff]
  simp only [List.forall_mem_append, List.forall_mem_singleton]
  by_cases hx : x = id
  · subst hx
    rw [Claims.settle_self, hself]
    constructor
    · rintro ⟨hs, hwins⟩
      refine ⟨List.mem_append_right _ List.mem_cons_self, hs, fun y hy hys => ?_, fun _ => le_rfl⟩
      -- the largest so far is the claimant itself, or yields to it
      obtain ⟨z, hz, hyz⟩ := exists_largest hy hys
      by_cases hzx : z = x
      · exact hzx ▸ hyz
      · exact hyz.trans (hseen z hz.1 ▸ (hwins z hzx ((h.owner z s).mpr hz)).le)
    · rintro ⟨-, hs, hmax, -⟩
      refine ⟨hs, fun y hy hown => ?_⟩
      have hlargest := (h.owner y s).mp hown
      rw [hseen y hlargest.1]
      exact lt_of_le_of_ne (hmax y hlargest.1 hlargest.2.1) fun heq => hy (rank_inj heq)
  · rw [Claims.settle_other hx, hself]
    constructor
    · rintro ⟨hown, hkeeps⟩
      have hlargest := (h.owner x s).mp hown
      rw [hseen x hlargest.1] at hkeeps
      have hmax := (largest_iff.mp hlargest).2.2
      exact ⟨List.mem_append_left _ hlargest.1, hlargest.2.1, hmax,
        fun hs => not_lt.mp fun hlt => hkeeps ⟨hs, hlt⟩⟩
    · rintro ⟨hmem, hs, hmax, hid⟩
      have hx' : x ∈ seen := by simpa [hx] using hmem
      refine ⟨(h.owner x s).mpr (largest_iff.mpr ⟨hx', hs, hmax⟩), ?_⟩
      rintro ⟨hids, hlt⟩
      rw [hseen x hx'] at hlt
      exact absurd (hid hids) (not_le.mpr hlt)

theorem Settled.step (h : Settled claim d₀ seen d) {c : Nat} (hc : d.table.find id = some c)
    (hme : d.table.myself ≠ some c) : Settled claim d₀ (seen ++ [id]) (claimStep claim d id) := by
  obtain ⟨n, hn⟩ := NodeTable.get_of_find hc
  have hclaims := merge_claims hn hme (claim id).1 (claim id).2
  rw [claimStep, hc]
  refine ⟨(merge_selves d c _ _).trans h.selves, fun x => ?_, fun x s => ?_⟩
  · rw [hclaims]
    exact h.raised_epoch x
  · rw [hclaims]
    exact h.claimed x s

end Step

/-! ## Runs -/

/-- The view knows the claimants, none of them is the node itself, no slot has an owner and every
epoch is zero. -/
structure Unclaimed (d : ClusterState) (ids : List NodeId) : Prop where
  known : ∀ id ∈ ids, ∃ c, d.table.find id = some c
  others : ∀ id ∈ ids, d.table.find id ≠ d.table.myself
  free : ∀ e ∈ d.table.entries, e.2.slots = 0
  zero : ∀ e ∈ d.table.entries, e.2.epoch = 0

theorem Unclaimed.settled {d : ClusterState} (h : Unclaimed d ids) : Settled claim d [] d := by
  refine ⟨rfl, fun id => ?_, fun id s => ?_⟩
  · cases hid : d.table.get? id with
    | none => simp [NodeTable.claims, hid]
    | some n =>
      rw [NodeTable.claims_epoch hid, h.zero _ (NodeTable.get?_eq_some.mp hid)]
      simp
  · refine iff_of_false ?_ fun hlargest => List.not_mem_nil hlargest.1
    rintro ⟨n, hn, hget⟩
    rw [h.free _ (NodeTable.get?_eq_some.mp hn)] at hget
    simp at hget

theorem claimRun_settled {d₀ : ClusterState} (h₀ : Unclaimed d₀ ids)
    {seq : List NodeId} (hseq : ∀ id ∈ seq, id ∈ ids) {seen : List NodeId} {d : ClusterState}
    (h : Settled claim d₀ seen d) : Settled claim d₀ (seen ++ seq) (claimRun claim d seq) := by
  induction seq generalizing seen d with
  | nil =>
    rw [List.append_nil]
    exact h
  | cons id seq ih =>
    have hid := hseq id List.mem_cons_self
    obtain ⟨c, hc⟩ := h₀.known id hid
    have hfind := (NodeTable.find_of_selves_eq h.selves id).trans hc
    have hme : d.table.myself ≠ some c := by
      rw [NodeTable.myself_eq, h.selves, ← NodeTable.myself_eq, ← hc]
      exact (h₀.others id hid).symm
    have hrun := ih (fun x hx => hseq x (List.mem_cons_of_mem _ hx)) (h.step hfind hme)
    rw [List.append_assoc] at hrun
    exact hrun

theorem Settled.owns_iff {d₀ d : ClusterState} {seq : List NodeId} (h : Settled claim d₀ seq d)
    (s : Nat) (id : NodeId) : Owns d s id ↔ Largest claim seq s id := by
  simp only [← h.owner, Owns, NodeTable.claims, NodeTable.get?_eq_some]

/-- Claims merged in any order and any number of times leave each slot with the largest claimant, and
at every step a slot has at most one owner. -/
theorem merge_claims_converge (claim : NodeId → Bitmap × UInt64) (d : ClusterState)
    (seq seq' : List NodeId) (h : Unclaimed d seq) (hsame : ∀ id, id ∈ seq' ↔ id ∈ seq) :
    (∀ s id, Owns (claimRun claim d seq) s id ↔ Largest claim seq s id) ∧
    (∀ s id, Owns (claimRun claim d seq') s id ↔ Owns (claimRun claim d seq) s id) ∧
    ∀ part, part <+: seq → ∀ s id id', Owns (claimRun claim d part) s id →
      Owns (claimRun claim d part) s id' → id = id' := by
  have hrun : ∀ part : List NodeId, (∀ id ∈ part, id ∈ seq) →
      Settled claim d part (claimRun claim d part) := fun part hpart =>
    List.nil_append part ▸ claimRun_settled h hpart h.settled
  have hwhole := hrun seq fun _ hid => hid
  have hother := hrun seq' fun id hid => (hsame id).mp hid
  refine ⟨hwhole.owns_iff, fun s id => ?_, fun part hpart s id id' hid hid' => ?_⟩
  · rw [hwhole.owns_iff, hother.owns_iff]
    simp only [Largest, hsame]
  · have hpart' := hrun part fun x hx => hpart.subset hx
    exact largest_unique ((hpart'.owns_iff s id).mp hid) ((hpart'.owns_iff s id').mp hid')

def threeNodes : NodeTable where
  entries := [(.ofDigit 97 rfl, ownNode), (.ofDigit 98 rfl, freshNode), (.ofDigit 99 rfl, freshNode)]
  distinct := by decide
  bounded := by decide

theorem threeNodes_unclaimed : Unclaimed (.start (.ofDigit 97 rfl) threeNodes)
    [.ofDigit 99 rfl, .ofDigit 98 rfl, .ofDigit 99 rfl] where
  known := by
    intro id hid
    simp only [List.mem_cons, List.not_mem_nil, or_false] at hid
    rcases hid with rfl | rfl | rfl
    · exact ⟨2, rfl⟩
    · exact ⟨1, rfl⟩
    · exact ⟨2, rfl⟩
  others := by decide
  free := by
    intro e he
    simp only [ClusterState.start, threeNodes, List.mem_cons, List.not_mem_nil, or_false] at he
    rcases he with rfl | rfl | rfl <;> rfl
  zero := by
    intro e he
    simp only [ClusterState.start, threeNodes, List.mem_cons, List.not_mem_nil, or_false] at he
    rcases he with rfl | rfl | rfl <;> rfl

/-- Two claims of all slots with the same epoch, merged three times. -/
theorem merge_claims_converge_two :
    Owns (claimRun (fun _ => (BitVec.allOnes 16384, 7)) (.start (.ofDigit 97 rfl) threeNodes)
      [.ofDigit 99 rfl, .ofDigit 98 rfl, .ofDigit 99 rfl]) 5 (.ofDigit 99 rfl) := by
  have hclaims : clusterSlotsGet (BitVec.allOnes 16384) 5 = true := BitVec.getLsbD_allOnes
  refine ((merge_claims_converge _ _ _ _ threeNodes_unclaimed fun _ => Iff.rfl).1 5 _).mpr
    ⟨by decide, hclaims, fun id' hid' _ => .inr ⟨rfl, ?_⟩⟩
  simp only [List.mem_cons, List.not_mem_nil, or_false] at hid'
  rcases hid' with rfl | rfl | rfl
  · exact le_refl _
  · exact le_of_lt (show (NodeId.ofDigit 98 rfl).1 < (NodeId.ofDigit 99 rfl).1 by decide)
  · exact le_refl _

end Ddup.Cluster
