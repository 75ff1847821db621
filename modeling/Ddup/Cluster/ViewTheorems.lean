/-
Ddup.Cluster.ViewTheorems — a node table as a view of the cluster: which nodes it knows, which of them
is the own one, their epochs, and who owns which slot.

`Claims` is that view by node id, without the places of the nodes in the table. A claim on it is one
formula (`Claims.claim`). `cluster_merge_claims` computes it, settling one slot after the other
(`mergeSlot_claims`, `merge_claims`). Failure reports change none of this (`Keeps`).
-/
import Ddup.Cluster.SlotTextTheorems
import Ddup.Cluster.State
import Ddup.Ds.SkiplistOrderTheorems

namespace Ddup.Cluster

open Ddup.Ds
open Function (update)
open List (getElem?_map)
open Option (getD_some map_none map_some)
open Prod (fst snd)

variable {f : ClusterNode → ClusterNode} {bm : Bitmap} {x : NodeId}

/-! ## Nodes by place and by id -/

namespace NodeTable

variable {t t' : NodeTable} {id : NodeId} {n : ClusterNode} {e : NodeId × ClusterNode} {i c : Nat}

theorem get_of_find (h : t.find id = some c) : ∃ n, t.entries[c]? = some (id, n) := by
  obtain ⟨hlt, hid, -⟩ := List.findIdx?_eq_some_iff_getElem.mp h
  refine ⟨t.entries[c].2, ?_⟩
  rw [List.getElem?_eq_getElem hlt, ← of_decide_eq_true hid]

theorem index_unique {i j : Nat} {e' : NodeId × ClusterNode} (hi : t.entries[i]? = some e)
    (hj : t.entries[j]? = some e') (hid : e.1 = e'.1) : i = j := by
  have hlen : i < (t.entries.map fst).length := by
    rw [List.length_map]
    exact (List.getElem?_eq_some_iff.mp hi).1
  refine (List.getElem?_inj hlen t.distinct).mp ?_
  rw [getElem?_map, getElem?_map, hi, hj, map_some, map_some, hid]

theorem find_of_get {n : ClusterNode} (h : t.entries[c]? = some (id, n)) : t.find id = some c := by
  cases hf : t.find id with
  | none =>
    refine absurd (List.mem_map.mpr ⟨(id, n), List.mem_of_getElem? h, rfl⟩) (find_eq_none hf)
  | some j =>
    obtain ⟨n', hj⟩ := get_of_find hf
    rw [index_unique hj h rfl]

theorem find_isSome_iff : (∃ c, t.find id = some c) ↔ id ∈ t.entries.map fst := by
  constructor
  · rintro ⟨c, hc⟩
    obtain ⟨n, hn⟩ := get_of_find hc
    exact List.mem_map.mpr ⟨(id, n), List.mem_of_getElem? hn, rfl⟩
  intro h
  obtain ⟨e, he, rfl⟩ := List.mem_map.mp h
  obtain ⟨c, hc⟩ := List.mem_iff_getElem?.mp he
  exact ⟨c, find_of_get hc⟩

def get? (t : NodeTable) (id : NodeId) : Option ClusterNode :=
  (t.entries.find? fun e => e.1 = id).map snd

theorem eq_of_mem (h : (id, n) ∈ t.entries) {n' : ClusterNode} (h' : (id, n') ∈ t.entries) : n = n' := by
  obtain ⟨i, hi⟩ := List.mem_iff_getElem?.mp h
  obtain ⟨j, hj⟩ := List.mem_iff_getElem?.mp h'
  obtain rfl : i = j := index_unique hi hj rfl
  exact congrArg snd (Option.some.inj (hi.symm.trans hj))

theorem get?_eq_some : t.get? id = some n ↔ (id, n) ∈ t.entries := by
  constructor
  · intro h
    obtain ⟨⟨id', n'⟩, hfind, rfl⟩ := Option.map_eq_some_iff.mp h
    have hid : id' = id := by simpa using List.find?_some hfind
    rw [← hid]
    exact List.mem_of_find?_eq_some hfind
  intro h
  cases hfind : t.entries.find? fun e => e.1 = id with
  | none =>
    have := List.find?_eq_none.mp hfind _ h
    simp at this
  | some e =>
    have hid : e.1 = id := by simpa using List.find?_some hfind
    have hmem : (id, e.2) ∈ t.entries := by
      rw [← hid]
      exact List.mem_of_find?_eq_some hfind
    rw [get?, hfind, map_some, eq_of_mem hmem h]

theorem get?_of_get (h : t.entries[i]? = some (id, n)) : t.get? id = some n :=
  get?_eq_some.mpr (List.mem_of_getElem? h)

theorem get?_eq_none : t.get? id = none ↔ t.find id = none := by
  rw [get?, find]
  simp

theorem find_of_get? (h : t.get? id = some n) :
    ∃ i, t.find id = some i ∧ t.entries[i]? = some (id, n) := by
  obtain ⟨i, hi⟩ := List.mem_iff_getElem?.mp (get?_eq_some.mp h)
  exact ⟨i, find_of_get hi, hi⟩

theorem mapNodes_getElem? (t : NodeTable) (f : Nat → NodeId × ClusterNode → ClusterNode) (i : Nat) :
    (t.mapNodes f).entries[i]? = (t.entries[i]?).map fun e => (e.1, f i e) := by
  rw [mapNodes, List.getElem?_mapIdx]

theorem modify_getElem? (t : NodeTable) (i : Nat) (f : ClusterNode → ClusterNode) (j : Nat) :
    (t.modify i f).entries[j]?
      = (t.entries[j]?).map fun e => (e.1, if j = i then f e.2 else e.2) :=
  mapNodes_getElem? t _ j

theorem map_mapNodes {β : Type} (g : NodeId × ClusterNode → β)
    {f : Nat → NodeId × ClusterNode → ClusterNode}
    (hf : ∀ j e, t.entries[j]? = some e → g (e.1, f j e) = g e) :
    (t.mapNodes f).entries.map g = t.entries.map g := by
  refine List.ext_getElem? fun j => ?_
  rw [getElem?_map, getElem?_map, mapNodes_getElem?]
  cases hj : t.entries[j]? with
  | none => rfl
  | some e => exact congrArg some (hf j e hj)

/-- Tables with the same nodes at the same places, and how a node may have changed there. -/
theorem get?_of_map {f : NodeId × ClusterNode → ClusterNode}
    (h : ∀ j : Nat, t'.entries[j]? = (t.entries[j]?).map fun e => (e.1, f e)) (id : NodeId) :
    t'.get? id = (t.get? id).map fun n => f (id, n) := by
  cases hid : t.get? id with
  | none =>
    cases hid' : t'.get? id with
    | none => rfl
    | some n =>
      obtain ⟨j, hj⟩ := List.mem_iff_getElem?.mp (get?_eq_some.mp hid')
      rw [h j] at hj
      obtain ⟨⟨id₀, m⟩, hm, heq⟩ := Option.map_eq_some_iff.mp hj
      cases heq
      rw [get?_of_get hm] at hid
      cases hid
  | some n =>
    obtain ⟨j, -, hj⟩ := find_of_get? hid
    refine get?_of_get (i := j) ?_
    rw [h j, hj, map_some]

theorem get?_modify (h : t.entries[i]? = some (id, n)) (f : ClusterNode → ClusterNode) (x : NodeId) :
    (t.modify i f).get? x = if x = id then some (f n) else t.get? x := by
  have hmap : ∀ j : Nat, (t.modify i f).entries[j]?
      = (t.entries[j]?).map fun e => (e.1, if e.1 = id then f e.2 else e.2) := by
    intro j
    rw [modify_getElem?]
    cases hj : t.entries[j]? with
    | none => rfl
    | some e =>
      rw [map_some, map_some]
      by_cases hji : j = i
      · subst hji
        rw [hj] at h
        rw [if_pos rfl, if_pos (by rw [Option.some.inj h])]
      · rw [if_neg hji, if_neg fun heq => hji (index_unique hj h heq)]
  rw [get?_of_map hmap]
  by_cases hx : x = id
  · subst hx
    rw [get?_of_get h, map_some, if_pos rfl, if_pos rfl]
  rw [if_neg hx]
  cases t.get? x with
  | none => rfl
  | some m => rw [map_some, if_neg hx]

theorem get?_of_find (h : t.find id = some i) : ∃ n, t.get? id = some n ∧ t.entries[i]? = some (id, n) := by
  obtain ⟨n, hn⟩ := get_of_find h
  exact ⟨n, get?_of_get hn, hn⟩

end NodeTable

/-! ## Adding a node -/

namespace NodeTable

variable {t t' : NodeTable} {id : NodeId} {i : Nat}

theorem add_fresh (hfresh : id ∉ t.entries.map fst) (hroom : t.entries.length < clusterMaxNodes) :
    ∃ t', t.add id = some (t', t.entries.length) ∧ t'.entries = t.entries ++ [(id, freshNode)] := by
  unfold add
  split
  · rename_i c hc
    exact absurd (find_isSome_iff.mp ⟨c, hc⟩) hfresh
  · rw [dif_pos hroom]
    exact ⟨_, rfl, rfl⟩

theorem add_cases (h : t.add id = some (t', i)) :
    (t' = t ∧ t.find id = some i) ∨
      (t.find id = none ∧ t'.entries = t.entries ++ [(id, freshNode)] ∧ i = t.entries.length) := by
  unfold add at h
  split at h
  · rename_i c hc
    cases h
    exact .inl ⟨rfl, hc⟩
  rename_i hc
  split_ifs at h
  cases h
  exact .inr ⟨hc, rfl, rfl⟩

theorem add_get (h : t.add id = some (t', i)) : ∃ n, t'.entries[i]? = some (id, n) := by
  rcases add_cases h with ⟨rfl, hfind⟩ | ⟨-, hentries, rfl⟩
  · exact get_of_find hfind
  · exact ⟨freshNode, by rw [hentries, List.getElem?_concat_length]⟩

theorem add_known (h : t.find id = some i) : t.add id = some (t, i) := by
  unfold add
  split
  · rename_i c hc
    rw [h] at hc
    cases hc
    rfl
  · rename_i hc
    rw [h] at hc
    cases hc

theorem add_get? (h : t.add id = some (t', i)) (x : NodeId) :
    t'.get? x = if x = id then some ((t.get? id).getD freshNode) else t.get? x := by
  rcases add_cases h with ⟨rfl, hfind⟩ | ⟨hnone, hentries, -⟩
  · obtain ⟨n, hn, -⟩ := get?_of_find hfind
    split_ifs with hx
    · rw [hx, hn, getD_some]
    · rfl
  have hold : t.get? id = none := get?_eq_none.mpr hnone
  split_ifs with hx
  · rw [hx, hold, get?_eq_some, hentries]
    exact List.mem_append_right _ (List.mem_singleton.mpr rfl)
  rw [get?, get?, hentries, List.find?_append]
  have hlast : [(id, freshNode)].find? (fun e => e.1 = x) = none := by simp [Ne.symm hx]
  rw [hlast, Option.or_none]

theorem modify_last {es : List (NodeId × ClusterNode)} {n : ClusterNode}
    (ht : t.entries = es ++ [(id, n)]) (f : ClusterNode → ClusterNode) :
    (t.modify es.length f).entries = es ++ [(id, f n)] := by
  refine List.ext_getElem? fun j => ?_
  rw [modify_getElem?, ht]
  rcases Nat.lt_trichotomy j es.length with hlt | rfl | hgt
  · rw [List.getElem?_append_left hlt, List.getElem?_append_left hlt, List.getElem?_eq_getElem hlt,
      map_some, if_neg (Nat.ne_of_lt hlt)]
  · rw [List.getElem?_concat_length, List.getElem?_concat_length, map_some, if_pos rfl]
  · rw [List.getElem?_eq_none (by simp; omega), List.getElem?_eq_none (by simp; omega), map_none]

end NodeTable

/-! ## Rank -/

/-- What a contested slot is decided by: the epoch, then the id. -/
def rank (epoch : UInt64) (id : NodeId) : ℕ ×ₗ Bytes := toLex (epoch.toNat, id.1)

theorem rank_inj {e e' : UInt64} {id id' : NodeId} (h : rank e id = rank e' id') : id = id' := by
  have hpair : (e.toNat, id.1) = (e'.toNat, id'.1) := toLex_inj.mp h
  exact Subtype.ext (congrArg snd hpair)

theorem memcmp_id (a b : NodeId) : memcmp a.1 b.1 40 = .gt ↔ b.1 < a.1 := by
  rw [← zslLexCmp_gt_iff, zslLexCmp, a.2.1, b.2.1]
  simp

theorem outranks_iff (a b : NodeId × ClusterNode) :
    outranks a b = true ↔ rank b.2.epoch b.1 < rank a.2.epoch a.1 := by
  rw [outranks, rank, rank, Prod.Lex.toLex_lt_toLex, Bool.or_eq_true, Bool.and_eq_true,
    decide_eq_true_iff, beq_iff_eq, beq_iff_eq, memcmp_id, ← UInt64.toNat_inj]
  constructor
  · rintro (h | ⟨h, h'⟩)
    · exact .inl h
    · exact .inr ⟨h.symm, h'⟩
  · rintro (h | ⟨h, h'⟩)
    · exact .inl h
    · exact .inr ⟨h.symm, h'⟩

/-! ## Claims -/

/-- The epochs of the nodes and who owns which slot. An unknown node has epoch 0 and owns nothing. -/
@[ext] structure Claims where
  epoch : NodeId → UInt64
  owns : NodeId → Nat → Prop

namespace Claims

variable (v : Claims) (id : NodeId)

def rank : ℕ ×ₗ Bytes := Cluster.rank (v.epoch id) id

def raise (e : UInt64) : Claims where
  epoch := update v.epoch id (max (v.epoch id) e)
  owns := v.owns

/-- A node claims exactly the slots of a bitmap: it gets those it outranks every other owner of,
which lose them, and has no others. -/
def settle (bm : Bitmap) : Claims where
  epoch := v.epoch
  owns x s :=
    if x = id then clusterSlotsGet bm s = true ∧ ∀ y, y ≠ id → v.owns y s → v.rank y < v.rank id
    else v.owns x s ∧ ¬ (clusterSlotsGet bm s = true ∧ v.rank x < v.rank id)

def claim (bm : Bitmap) (e : UInt64) : Claims := (v.raise id e).settle id bm

def Sole : Prop := ∀ x y s, v.owns x s → v.owns y s → x = y

variable {v id}

theorem rank_inj {y : NodeId} (h : v.rank x = v.rank y) : x = y := Cluster.rank_inj h

theorem raise_of_le {e : UInt64} (h : e ≤ v.epoch id) : v.raise id e = v := by
  refine Claims.ext (funext fun x => ?_) rfl
  show update v.epoch id (max (v.epoch id) e) x = v.epoch x
  by_cases hx : x = id
  · subst hx
    rw [Function.update_self]
    show (if v.epoch x ≤ e then e else v.epoch x) = v.epoch x
    split_ifs with hle
    · exact UInt64.le_antisymm h hle
    · rfl
  · rw [Function.update_of_ne hx]

theorem settle_self {s : Nat} : (v.settle id bm).owns id s ↔
    clusterSlotsGet bm s = true ∧ ∀ y, y ≠ id → v.owns y s → v.rank y < v.rank id := by
  simp [settle]

theorem settle_other {s : Nat} (hx : x ≠ id) : (v.settle id bm).owns x s ↔
    v.owns x s ∧ ¬ (clusterSlotsGet bm s = true ∧ v.rank x < v.rank id) := by
  simp only [settle, if_neg hx]

theorem Sole.settle (h : v.Sole) (bm : Bitmap) : (v.settle id bm).Sole := by
  -- a claimant that gets a slot takes it from whoever had it
  have hmix : ∀ x s, x ≠ id → (v.settle id bm).owns id s → ¬ (v.settle id bm).owns x s := by
    intro x s hx hid hown
    rw [settle_self] at hid
    rw [settle_other hx] at hown
    exact hown.2 ⟨hid.1, hid.2 x hx hown.1⟩
  intro x y s hx hy
  by_cases hxid : x = id
  · subst hxid
    by_cases hyid : y = x
    · exact hyid.symm
    · exact absurd hy (hmix y s hyid hx)
  by_cases hyid : y = id
  · subst hyid
    exact absurd hx (hmix x s hxid hy)
  rw [settle_other hxid] at hx
  rw [settle_other hyid] at hy
  exact h x y s hx.1 hy.1

end Claims

namespace NodeTable

variable {t t' : NodeTable} {id : NodeId} {n : ClusterNode} {i : Nat}

def claims (t : NodeTable) : Claims where
  epoch id := ((t.get? id).map ClusterNode.epoch).getD 0
  owns id s := ∃ n, t.get? id = some n ∧ clusterSlotsGet n.slots s = true

theorem claims_epoch (h : t.get? id = some n) : t.claims.epoch id = n.epoch := by
  simp [claims, h]

theorem claims_owns (h : t.get? id = some n) (s : Nat) :
    t.claims.owns id s ↔ clusterSlotsGet n.slots s = true := by
  simp [claims, h]

theorem claims_rank (h : t.get? id = some n) : t.claims.rank id = Cluster.rank n.epoch id := by
  rw [Claims.rank, claims_epoch h]

theorem claims_congr (h : ∀ id, (t'.get? id).map (fun n => (n.epoch, n.slots))
    = (t.get? id).map fun n => (n.epoch, n.slots)) : t'.claims = t.claims := by
  have hnode : ∀ id, (t'.claims.epoch id = t.claims.epoch id) ∧
      ∀ s, t'.claims.owns id s ↔ t.claims.owns id s := by
    intro id
    have hid := h id
    cases hn : t.get? id with
    | none =>
      rw [hn, map_none, Option.map_eq_none_iff] at hid
      simp only [claims, hn, hid]
      simp
    | some n =>
      rw [hn] at hid
      obtain ⟨n', hn', heq⟩ := Option.map_eq_some_iff.mp hid
      rw [Prod.mk.injEq] at heq
      rw [claims_epoch hn, claims_epoch hn', heq.1]
      refine ⟨rfl, fun s => ?_⟩
      rw [claims_owns hn, claims_owns hn', heq.2]
  exact Claims.ext (funext fun id => (hnode id).1)
    (funext fun id => funext fun s => propext ((hnode id).2 s))

theorem modify_claims (h : t.entries[i]? = some (id, n)) (f : ClusterNode → ClusterNode) :
    (t.modify i f).claims =
      { epoch := update t.claims.epoch id (f n).epoch
        owns := update t.claims.owns id fun s => clusterSlotsGet (f n).slots s = true } := by
  have hget := get?_modify h f
  refine Claims.ext (funext fun x => ?_) (funext fun x => ?_)
  · by_cases hx : x = id <;> simp [claims, hget, hx]
  · by_cases hx : x = id <;> simp [claims, hget, hx]

theorem claims_modify
    (hf : ∀ n, t.entries[i]? = some (id, n) → (f n).epoch = n.epoch ∧ (f n).slots = n.slots)
    (h : ∃ n, t.entries[i]? = some (id, n)) : (t.modify i f).claims = t.claims := by
  obtain ⟨n, hn⟩ := h
  have hget := get?_of_get hn
  rw [modify_claims hn, (hf n hn).1, (hf n hn).2, ← claims_epoch hget, Function.update_eq_self,
    Function.update_eq_self_iff.mpr (funext fun s => (propext (claims_owns hget s)).symm)]

theorem add_claims (h : t.add id = some (t', i)) : t'.claims = t.claims := by
  have hget := add_get? h
  refine Claims.ext (funext fun x => ?_) (funext fun x => funext fun s => propext ?_)
  · simp only [claims, hget]
    split_ifs with hx
    · subst hx
      cases t.get? x <;> rfl
    · rfl
  simp only [claims, hget]
  split_ifs with hx
  · subst hx
    cases t.get? x with
    | none => simp [freshNode]
    | some n => rw [getD_some]
  · rfl

end NodeTable

/-! ## The own node -/

namespace NodeTable

variable {t t' : NodeTable} {id : NodeId} {n : ClusterNode} {i c : Nat}

/-- The nodes, and which of them carry the flag of the own one. -/
def selves (t : NodeTable) : List (NodeId × Bool) :=
  t.entries.map fun e => (e.1, e.2.flags.has .myself)

theorem myself_eq (t : NodeTable) : t.myself = t.selves.findIdx? snd := by
  rw [selves, List.findIdx?_map]
  rfl

theorem find_of_selves_eq (h : t'.selves = t.selves) (id : NodeId) : t'.find id = t.find id := by
  have hfind : ∀ u : NodeTable, u.find id = u.selves.findIdx? (·.1 = id) := fun u => by
    rw [selves, List.findIdx?_map]
    rfl
  rw [hfind, hfind, h]

def own (t : NodeTable) : Option NodeId := (t.selves.find? snd).map fst

theorem own_of_myself (h : t.myself = some i) (hi : t.entries[i]? = some (id, n)) : t.own = some id := by
  obtain ⟨hlt, hflag, hfirst⟩ := List.findIdx?_eq_some_iff_getElem.mp h
  have hentry : t.entries[i] = (id, n) :=
    Option.some.inj ((List.getElem?_eq_getElem hlt).symm.trans hi)
  have hfind : t.entries.find? (fun e => e.2.flags.has .myself) = some (id, n) := by
    refine List.find?_eq_some_iff_getElem.mpr ⟨?_, i, hlt, hentry, fun j hj => ?_⟩
    · rw [hentry] at hflag
      exact hflag
    · simpa using hfirst j hj
  rw [own, selves, List.find?_map, Option.map_map]
  exact congrArg (Option.map _) hfind

theorem myself_iff_own (hi : t.entries[i]? = some (id, n)) : t.myself = some i ↔ t.own = some id := by
  refine ⟨fun h => own_of_myself h hi, fun h => ?_⟩
  cases hme : t.myself with
  | none =>
    have hnone : t.selves.find? snd = none := by
      rw [myself_eq, List.findIdx?_eq_none_iff] at hme
      rw [List.find?_eq_none]
      intro e he
      simpa using hme e he
    rw [own, hnone] at h
    cases h
  | some j =>
    obtain ⟨hlt, -⟩ := List.findIdx?_eq_some_iff_getElem.mp hme
    have hj : t.entries[j]? = some (t.entries[j].1, t.entries[j].2) := List.getElem?_eq_getElem hlt
    have hid := own_of_myself hme hj
    rw [h] at hid
    rw [index_unique hj hi (Option.some.inj hid).symm]

theorem add_selves (h : t.add id = some (t', i)) :
    t'.selves = t.selves ∨ t.find id = none ∧ t'.selves = t.selves ++ [(id, false)] := by
  rcases add_cases h with ⟨rfl, -⟩ | ⟨hnone, hentries, -⟩
  · exact .inl rfl
  refine .inr ⟨hnone, ?_⟩
  have hfresh : freshNode.flags.has .myself = false := by decide
  rw [selves, selves, hentries, List.map_append, List.map_singleton, hfresh]

theorem get_of_selves_eq (h : t'.selves = t.selves) (hc : t.entries[c]? = some (id, n)) :
    ∃ n', t'.entries[c]? = some (id, n') := by
  have hget := congrArg (·[c]?) h
  simp only [selves, getElem?_map, hc, map_some] at hget
  obtain ⟨e, he, heq⟩ := Option.map_eq_some_iff.mp hget
  exact ⟨e.2, by rw [he, ← (Prod.mk.inj heq).1]⟩

theorem selves_modify (hf : ∀ n, (f n).flags.has .myself = n.flags.has .myself) :
    (t.modify i f).selves = t.selves :=
  map_mapNodes _ fun j e _ => by
    split_ifs
    · rw [hf]
    · rfl

theorem setSlot_selves (t : NodeTable) (c s : Nat) (on : Bool) : (t.setSlot c s on).selves = t.selves :=
  selves_modify fun _ => rfl

theorem eachSlot_selves {step : NodeTable → Nat → NodeTable}
    (hstep : ∀ t s, (step t s).selves = t.selves) (t : NodeTable) : (eachSlot step t).selves = t.selves :=
  List.foldlRecOn _ step (motive := fun u : NodeTable => u.selves = t.selves) rfl fun u hu s _ =>
    (hstep u s).trans hu

end NodeTable

/-! ## Merging claims -/

section merge

variable {t : NodeTable} {d : ClusterState} {c s : Nat} {a : NodeId} {n : ClusterNode}

def Claims.put (v : Claims) (a : NodeId) (s : Nat) (p : Prop) : Claims where
  epoch := v.epoch
  owns x s' := if x = a ∧ s' = s then p else v.owns x s'

def Claims.settleAt (v : Claims) (a : NodeId) (bm : Bitmap) (s : Nat) : Claims where
  epoch := v.epoch
  owns x s' := if s' = s then (v.settle a bm).owns x s else v.owns x s'

theorem setSlot_claims (h : t.entries[c]? = some (a, n)) (hs : s < slotCount) (on : Bool) :
    (if clusterSlotsGet n.slots s = on then t else t.setSlot c s on).claims
      = t.claims.put a s (on = true) := by
  have hget := NodeTable.get?_of_get h
  have howns := NodeTable.claims_owns hget
  split_ifs with hon
  · refine Claims.ext rfl (funext fun x => funext fun s' => ?_)
    by_cases hx : x = a ∧ s' = s
    · simp [Claims.put, hx, howns, hon]
    · simp [Claims.put, hx]
  rw [NodeTable.setSlot, NodeTable.modify_claims h]
  refine Claims.ext ?_ (funext fun x => funext fun s' => ?_)
  · exact Function.update_eq_self_iff.mpr (NodeTable.claims_epoch hget).symm
  by_cases hx : x = a
  · by_cases hs' : s' = s
    · simp [Claims.put, hx, hs', clusterSlotsGet_set, hs]
    · simp [Claims.put, hx, hs', Ne.symm hs', clusterSlotsGet_set, howns]
  · simp [Claims.put, hx]

theorem outranks_iff_rank {m : ClusterNode} (h : t.entries[c]? = some (a, n))
    (hx : t.get? x = some m) :
    outranks (a, n) (x, m) = true ↔ t.claims.rank x < t.claims.rank a := by
  rw [outranks_iff, NodeTable.claims_rank hx, NodeTable.claims_rank (NodeTable.get?_of_get h)]

/-- The other holders of a slot yield where they are outranked. -/
def NodeTable.yield (t : NodeTable) (c s : Nat) (claimant : NodeId × ClusterNode) : NodeTable :=
  t.mapNodes fun i o =>
    if i ≠ c ∧ clusterSlotsGet o.2.slots s = true ∧ outranks claimant o = true then
      { o.2 with slots := clusterSlotsSet o.2.slots s false }
    else o.2

theorem yield_claims (h : t.entries[c]? = some (a, n)) (hs : s < slotCount) :
    (t.yield c s (a, n)).claims =
      { epoch := t.claims.epoch
        owns x s' :=
          t.claims.owns x s' ∧ ¬ (s' = s ∧ x ≠ a ∧ t.claims.rank x < t.claims.rank a) } := by
  have hget : ∀ x, (t.yield c s (a, n)).get? x = _ := NodeTable.get?_of_map (t := t) (f := fun o =>
    if o.1 ≠ a ∧ clusterSlotsGet o.2.slots s = true ∧ outranks (a, n) o = true then
      { o.2 with slots := clusterSlotsSet o.2.slots s false } else o.2) fun j => by
    rw [NodeTable.yield, NodeTable.mapNodes_getElem?]
    cases hj : t.entries[j]? with
    | none => rfl
    | some o =>
      have hplace : j ≠ c ↔ o.1 ≠ a := not_congr
        ⟨fun hjc => by subst hjc; rw [h] at hj; rw [← Option.some.inj hj],
          fun ho => NodeTable.index_unique hj h ho⟩
      simp [hplace]
  refine Claims.ext (funext fun x => ?_) (funext fun x => funext fun s' => propext ?_)
  · simp only [NodeTable.claims, hget]
    cases t.get? x with
    | none => rfl
    | some m =>
      dsimp
      split_ifs <;> rfl
  cases hx : t.get? x with
  | none => simp [NodeTable.claims, hget, hx]
  | some m =>
    show _ ↔ t.claims.owns x s' ∧ _
    rw [← outranks_iff_rank h hx]
    simp only [NodeTable.claims, hget, hx, map_some, Option.some_inj, exists_eq_left']
    split_ifs with hyield
    · rw [clusterSlotsGet_set]
      grind
    · grind

theorem wins_iff (h : t.entries[c]? = some (a, n)) :
    ((t.entries.mapIdx fun i o =>
        i == c || !clusterSlotsGet o.2.slots s || outranks (a, n) o).all id = true) ↔
      ∀ y, y ≠ a → t.claims.owns y s → t.claims.rank y < t.claims.rank a := by
  simp only [List.all_eq_true, List.mem_mapIdx, forall_exists_index]
  constructor
  · rintro hall y hy ⟨m, hm, hget⟩
    obtain ⟨j, -, hj⟩ := NodeTable.find_of_get? hm
    obtain ⟨hlt, hentry⟩ := List.getElem?_eq_some_iff.mp hj
    have hjc : j ≠ c := by
      rintro rfl
      rw [h] at hj
      exact hy (congrArg fst (Option.some.inj hj)).symm
    have := hall _ j hlt rfl
    rw [hentry] at this
    rw [← outranks_iff_rank h hm]
    simpa [hjc, hget] using this
  · rintro hall b j hlt rfl
    have hj : t.entries[j]? = some (t.entries[j].1, t.entries[j].2) := List.getElem?_eq_getElem hlt
    by_cases hjc : j = c
    · simp [hjc]
    have hne : t.entries[j].1 ≠ a := fun heq => hjc (NodeTable.index_unique hj h heq)
    have hm := NodeTable.get?_of_get hj
    have := hall _ hne
    rw [NodeTable.claims_owns hm, ← outranks_iff_rank h hm] at this
    cases hget : clusterSlotsGet t.entries[j].2.slots s with
    | false => simp
    | true => simp [this hget]

/-- The other holders yield, then the claimant's bit is set to whether it wins. -/
theorem mergeSlot_eq {e : NodeId × ClusterNode} {wins : Bool} (bm : Bitmap) (h : t.entries[c]? = some e)
    (hw : (t.entries.mapIdx fun i o =>
      i == c || !clusterSlotsGet o.2.slots s || outranks e o).all id = wins) :
    mergeSlot bm c t s = if clusterSlotsGet bm s then
        if clusterSlotsGet e.2.slots s = wins then t.yield c s e else (t.yield c s e).setSlot c s wins
      else if clusterSlotsGet e.2.slots s = false then t else t.setSlot c s false := by
  simp only [mergeSlot, h]
  rw [hw, ← NodeTable.yield]
  cases clusterSlotsGet bm s <;> cases clusterSlotsGet e.2.slots s <;> cases wins <;>
    simp

theorem mergeSlot_claims (bm : Bitmap) (h : t.entries[c]? = some (a, n)) (hs : s < slotCount) :
    (mergeSlot bm c t s).claims = t.claims.settleAt a bm s := by
  have hyield : (t.yield c s (a, n)).entries[c]? = some (a, n) := by
    rw [NodeTable.yield, NodeTable.mapNodes_getElem?, h, map_some, if_neg fun hc => hc.1 rfl]
  have hwins := wins_iff (s := s) h
  generalize hw : List.all _ _ = wins at hwins
  rw [mergeSlot_eq bm h hw]
  refine Claims.ext ?_ (funext fun x => funext fun s' => propext ?_) <;>
    cases hbm : clusterSlotsGet bm s
  · simp [setSlot_claims h hs, Claims.put, Claims.settleAt]
  · simp [setSlot_claims hyield hs, yield_claims h hs, Claims.put, Claims.settleAt]
  · simp [setSlot_claims h hs, Claims.put, Claims.settleAt, Claims.settle]
    grind
  simp [setSlot_claims hyield hs, yield_claims h hs, Claims.put, Claims.settleAt, Claims.settle]
  grind

theorem mergeSlot_selves (bm : Bitmap) (c : Nat) (t : NodeTable) (s : Nat) :
    (mergeSlot bm c t s).selves = t.selves := by
  have hset := fun u : NodeTable => u.setSlot_selves c s
  have hyield : ∀ e, (t.yield c s e).selves = t.selves := fun e =>
    NodeTable.map_mapNodes _ fun j o _ => by split_ifs <;> rfl
  cases h : t.entries[c]? with
  | none => simp only [mergeSlot, h]
  | some e =>
    rw [mergeSlot_eq bm h rfl]
    split_ifs <;> simp only [hset, hyield]

theorem mergeSlots_claims (bm : Bitmap) (h : t.entries[c]? = some (a, n)) {k : Nat} (hk : k ≤ slotCount) :
    let t' := (List.range k).foldl (mergeSlot bm c) t
    t'.selves = t.selves ∧ t'.claims =
      { epoch := t.claims.epoch
        owns x s := if s < k then (t.claims.settle a bm).owns x s else t.claims.owns x s } := by
  induction k with
  | zero => exact ⟨rfl, by simp⟩
  | succ k ih =>
    obtain ⟨hselves, hclaims⟩ := ih (Nat.le_of_succ_le hk)
    obtain ⟨n', hn'⟩ := NodeTable.get_of_selves_eq hselves h
    simp only [List.range_succ, List.foldl_append, List.foldl_cons, List.foldl_nil]
    refine ⟨(mergeSlot_selves ..).trans hselves, ?_⟩
    rw [mergeSlot_claims bm hn' hk, hclaims]
    refine Claims.ext rfl (funext fun x => funext fun s => propext ?_)
    simp only [Claims.settleAt, Claims.settle, Claims.rank]
    grind

theorem raiseEpochs_claims (h : d.table.entries[c]? = some (a, n)) (e : UInt64) :
    (raiseEpochs d c e).table.claims = d.table.claims.raise a e := by
  have hget := NodeTable.get?_of_get h
  refine (NodeTable.modify_claims h _).trans (Claims.ext ?_ ?_)
  · rw [Claims.raise, NodeTable.claims_epoch hget]
  · exact Function.update_eq_self_iff.mpr (funext fun s => (propext (NodeTable.claims_owns hget s)).symm)

/-- `cluster_merge_claims` is a claim, unless it is for the own node. -/
theorem merge_claims (h : d.table.entries[c]? = some (a, n)) (hme : d.table.myself ≠ some c)
    (bm : Bitmap) (e : UInt64) :
    (clusterMergeClaims d c bm e).table.claims = d.table.claims.claim a bm e := by
  have hraised : ∃ n', (raiseEpochs d c e).table.entries[c]? = some (a, n') :=
    NodeTable.get_of_selves_eq (NodeTable.selves_modify fun _ => rfl) h
  obtain ⟨n', hn'⟩ := hraised
  have hloop := (mergeSlots_claims bm hn' (Nat.le_refl slotCount)).2
  rw [Claims.claim, ← raiseEpochs_claims h]
  have hrun : (clusterMergeClaims d c bm e).table
      = (List.range slotCount).foldl (mergeSlot bm c) (raiseEpochs d c e).table := by
    simp only [clusterMergeClaims, if_neg hme, eachSlot]
  rw [hrun, hloop]
  refine Claims.ext rfl (funext fun x => funext fun s => propext ?_)
  dsimp only
  split_ifs with hs
  · rfl
  -- there is no such slot
  have hge := Nat.le_of_not_lt hs
  have hnone : ¬ (raiseEpochs d c e).table.claims.owns x s := by
    rintro ⟨m, -, hm⟩
    rw [clusterSlotsGet_ge _ hge] at hm
    cases hm
  simp [Claims.settle, clusterSlotsGet_ge bm hge, hnone]

theorem merge_claims_own (h : d.table.entries[c]? = some (a, n)) (hme : d.table.myself = some c)
    (bm : Bitmap) (e : UInt64) :
    (clusterMergeClaims d c bm e).table.claims = d.table.claims.raise a e := by
  simp only [clusterMergeClaims, if_pos hme]
  exact raiseEpochs_claims h e

theorem merge_selves (d : ClusterState) (i : Nat) (bm : Bitmap) (e : UInt64) :
    (clusterMergeClaims d i bm e).table.selves = d.table.selves := by
  have hraise : (raiseEpochs d i e).table.selves = d.table.selves := NodeTable.selves_modify fun _ => rfl
  simp only [clusterMergeClaims]
  split_ifs
  · exact hraise
  · rw [NodeTable.eachSlot_selves (mergeSlot_selves bm i), hraise]

end merge

/-! ## What failure reports leave alone -/

/-- What a view is about in one node. -/
def nodeCore (e : NodeId × ClusterNode) : NodeId × Bool × UInt64 × Bitmap :=
  (e.1, e.2.flags.has .myself, e.2.epoch, e.2.slots)

namespace NodeTable

variable {t t' : NodeTable} {id : NodeId} {n : ClusterNode} {i : Nat}

def core (t : NodeTable) : List (NodeId × Bool × UInt64 × Bitmap) := t.entries.map nodeCore

theorem selves_of_core_eq (h : t'.core = t.core) : t'.selves = t.selves := by
  have hmap := congrArg (List.map fun e => (e.1, e.2.1)) h
  rw [core, core, List.map_map, List.map_map] at hmap
  exact hmap

/-- Tables that list the same nodes, each with the same epoch and slots. -/
theorem claims_of_map_eq (h : t'.entries.map (fun e => (e.1, e.2.epoch, e.2.slots))
    = t.entries.map fun e => (e.1, e.2.epoch, e.2.slots)) : t'.claims = t.claims := by
  have hget : ∀ u : NodeTable, ∀ x, (u.get? x).map (fun n => (n.epoch, n.slots))
      = ((u.entries.map fun e => (e.1, e.2.epoch, e.2.slots)).find? fun e => e.1 = x).map snd := by
    intro u x
    rw [List.find?_map, Option.map_map, get?, Option.map_map]
    rfl
  exact claims_congr fun x => by rw [hget, hget, h]

theorem claims_of_core_eq (h : t'.core = t.core) : t'.claims = t.claims := by
  have hmap := congrArg (List.map fun e => (e.1, e.2.2)) h
  rw [core, core, List.map_map, List.map_map] at hmap
  exact claims_of_map_eq hmap

theorem core_modify (hf : ∀ e, t.entries[i]? = some e → nodeCore (e.1, f e.2) = nodeCore e) :
    (t.modify i f).core = t.core :=
  map_mapNodes _ fun j e he => by
    split_ifs with hji
    · exact hf e (hji ▸ he)
    · rfl

end NodeTable

/-- Only the reports, failure flags and pending broadcast of a state may have changed. -/
structure Keeps (d d' : ClusterState) : Prop where
  core : d'.table.core = d.table.core
  rest : d' = { d with table := d'.table, failBroadcastId := d'.failBroadcastId }

namespace Keeps

variable {d d' d'' : ClusterState}

theorem refl (d : ClusterState) : Keeps d d := ⟨rfl, rfl⟩

theorem trans (h : Keeps d d') (h' : Keeps d' d'') : Keeps d d'' := by
  refine ⟨h'.core.trans h.core, ?_⟩
  have hrest := h'.rest
  rw [h.rest] at hrest
  exact hrest

theorem ite {p : Prop} [Decidable p] (h : Keeps d d') (h' : Keeps d d'') :
    Keeps d (if p then d' else d'') := by
  by_cases hp : p
  · rw [if_pos hp]
    exact h
  · rw [if_neg hp]
    exact h'

theorem modify {i : Nat}
    (hf : ∀ e, d.table.entries[i]? = some e → nodeCore (e.1, f e.2) = nodeCore e) :
    Keeps d (d.modify i f) := ⟨NodeTable.core_modify hf, rfl⟩

theorem nodeId (h : Keeps d d') : d'.nodeId = d.nodeId := by rw [h.rest]

theorem claims (h : Keeps d d') : d'.table.claims = d.table.claims :=
  NodeTable.claims_of_core_eq h.core

theorem selves (h : Keeps d d') : d'.table.selves = d.table.selves :=
  NodeTable.selves_of_core_eq h.core

end Keeps

theorem has_raise_fail (f : Flags) : ((f.drop .pfail).raise .fail).has .myself = f.has .myself := by
  simp [Flags.has, Flags.raise, Flags.drop, NodeFlag.bit]

theorem nodeCore_markFail (id : NodeId) (n : ClusterNode) (now : UInt64) :
    nodeCore (id, clusterMarkFail n now) = nodeCore (id, n) := by
  unfold clusterMarkFail
  split_ifs
  · rfl
  · simp only [nodeCore, has_raise_fail]

theorem nodeCore_reportFailure (id : NodeId) (n : ClusterNode) (r : NodeId) (now : UInt64) :
    nodeCore (id, clusterReportFailure n r now) = nodeCore (id, n) := by
  unfold clusterReportFailure
  split
  · rfl
  · split_ifs <;> rfl

theorem nodeCore_reportHeal (id : NodeId) (n : ClusterNode) (r : NodeId) :
    nodeCore (id, clusterReportHeal n r) = nodeCore (id, n) := by
  unfold clusterReportHeal
  split <;> rfl

theorem markFail_keeps (d : ClusterState) (i : Nat) (now : UInt64) :
    Keeps d (d.modify i fun n => clusterMarkFail n now) :=
  Keeps.modify fun e _ => nodeCore_markFail e.1 e.2 now

theorem markFailIfQuorum_keeps (d : ClusterState) (i : Nat) (now : UInt64) :
    Keeps d (clusterMarkFailIfQuorum d i now) := by
  unfold clusterMarkFailIfQuorum
  split
  · exact Keeps.refl d
  rename_i id subject hi
  have hcount : Keeps d (d.modify i fun _ => clusterReportCount d.nodeTimeoutMs now subject) := by
    refine Keeps.modify fun e he => ?_
    rw [hi] at he
    cases he
    rfl
  split
  · exact Keeps.refl d
  have hmark := markFail_keeps
    (d.modify i fun _ => clusterReportCount d.nodeTimeoutMs now subject) i now
  exact Keeps.ite hcount (hcount.trans ⟨hmark.core, rfl⟩)

end Ddup.Cluster
