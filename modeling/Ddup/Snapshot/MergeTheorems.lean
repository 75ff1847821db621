/-
Ddup.Snapshot.MergeTheorems — merging the snapshots of several shards.

The merge is the union of the shards. Its collections are pointers copied from
databases that are then destroyed: nothing that was allocated since the load began
survives it (`NoLeak`), so each of these pointers dangles.
-/
import Ddup.Snapshot.SegmentTheorems

namespace Ddup.Snapshot

open Ddup.Lib Ddup.Store
open List (map_cons mem_cons_of_mem mem_cons_self not_mem_nil replicate)
open Prod (fst)

variable {dbs : List Saved} {k : Bytes} {now : Nat} {s : ObjHeap × HeapDb} {tmps : List HeapDb}

/-! ## Nothing leaks

Whatever was allocated since the load began is pointed to by a temporary. -/

section Leaks

variable {h₀ h : ObjHeap} {d : HeapDb} {own : Nat → Prop} (E : Env) {b : Blob}

def HeapDb.Points (d : HeapDb) (a : Nat) : Prop := ∃ x ∈ d.table.items, x.2 = .ptr a

/-- What is not in `h₀` is in `h` only under an address that is `own`ed. -/
def NoLeak (h₀ h : ObjHeap) (own : Nat → Prop) : Prop :=
  ∀ a, h₀.get a = none → ¬ own a → h.get a = none

theorem NoLeak.mono {own' : Nat → Prop} (hl : NoLeak h₀ h own) (h' : ∀ a, own a → own' a) :
    NoLeak h₀ h own' := fun a ha hno => hl a ha fun hown => hno (h' a hown)

theorem NoLeak.shrink {h' : ObjHeap} (hl : NoLeak h₀ h own) (hw : Heap.Within h h') :
    NoLeak h₀ h' own := fun a ha hno => hw a (hl a ha hno)

theorem objFreeValue_within (h : ObjHeap) (b : Blob) : Heap.Within h (objFreeValue h b) := by
  cases b with
  | ptr a => exact Heap.Within.free h a
  | str b | tier rid expire => exact Heap.Within.refl h

theorem objFreeValue_noLeak (hl : NoLeak h₀ h fun a => own a ∨ b = .ptr a) :
    NoLeak h₀ (objFreeValue h b) own := by
  intro a ha hno
  by_cases hb : b = .ptr a
  · rw [hb]
    exact Heap.get_free_self h a
  · exact objFreeValue_within h b a (hl a ha fun hown => hown.elim hno hb)

theorem storeValue_noLeak (al : Heap.Allocator Obj) (v : Obj) (hl : NoLeak h₀ h own) :
    NoLeak h₀ (storeValue al h v).1 fun a => own a ∨ (storeValue al h v).2 = .ptr a := by
  have halloc : NoLeak h₀ ((al.next h, v) :: h) fun a => own a ∨ Blob.ptr (al.next h) = .ptr a := by
    intro a ha hno
    have hne : a ≠ al.next h := fun heq => hno (.inr (congrArg Blob.ptr heq.symm))
    rw [Heap.get_cons_ne h v hne]
    exact hl a ha fun hown => hno (.inl hown)
  have hsame : NoLeak h₀ h fun a => own a ∨ (storeValue al h v).2 = .ptr a :=
    hl.mono fun _ => Or.inl
  cases v with
  | str b | tier rid expire => exact hsame
  | list items mem | boxed c mem => exact halloc

/-- The blob that is overwritten is the only entry that is lost, and it is released. -/
theorem installBlob_noLeak (hl : NoLeak h₀ h fun a => own a ∨ d.Points a ∨ b = .ptr a)
    (hinst : installBlob h d k b = some s) : NoLeak h₀ s.1 fun a => own a ∨ s.2.Points a := by
  have hpoints : ∀ a, d.Points a → (∃ x, d.table.get? k = some x ∧ x.2 = .ptr a) ∨
      ∃ x ∈ (d.table.put (k, b)).items, x.2 = .ptr a := by
    rintro a ⟨x, hx, hptr⟩
    by_cases hk : x.1 = k
    · exact .inl ⟨x, Unique.get?_eq_some.mpr ⟨hx, hk⟩, hptr⟩
    · exact .inr ⟨x, (Unique.mem_put_of_ne hk).mpr hx, hptr⟩
  have hnew : (k, b) ∈ (d.table.put (k, b)).items :=
    (Unique.get?_eq_some.mp (Unique.get?_put_self d.table (k, b))).1
  unfold installBlob at hinst
  split at hinst
  · dsimp only at hinst
    cases hold : d.table.get? k with
    | none =>
      rw [hold] at hinst
      cases hinst
      refine hl.mono fun a hown => ?_
      rcases hown with hown | hpt | rfl
      · exact .inl hown
      · rcases hpoints a hpt with ⟨x, hx, -⟩ | hpt
        · rw [hold] at hx
          cases hx
        · exact .inr hpt
      · exact .inr ⟨_, hnew, rfl⟩
    | some x =>
      rw [hold] at hinst
      cases hinst
      refine objFreeValue_noLeak (hl.mono fun a hown => ?_)
      rcases hown with hown | hpt | rfl
      · exact .inl (.inl hown)
      · rcases hpoints a hpt with ⟨y, hy, hptr⟩ | hpt
        · rw [hold] at hy
          cases hy
          exact .inr hptr
        · exact .inl (.inr hpt)
      · exact .inl (.inr ⟨_, hnew, rfl⟩)
  · cases hinst

theorem installInto_noLeak (e : Entry) (hl : NoLeak h₀ h fun a => own a ∨ d.Points a) :
    NoLeak h₀ (installInto E h d e).1.1 fun a => own a ∨ (installInto E h d e).1.2.Points a := by
  have hstore := storeValue_noLeak E.alloc e.value hl
  unfold installInto
  split
  · exact hl
  dsimp only
  cases hinst : installBlob (storeValue E.alloc h e.value).1 d e.key
      (storeValue E.alloc h e.value).2 with
  | none => exact objFreeValue_noLeak hstore
  | some s =>
    have hblob := installBlob_noLeak (hstore.mono fun a => or_assoc.mp) hinst
    dsimp only
    split
    · cases hexp : installExpiry s.2 e.key e.expire with
      | none => exact hblob
      | some d'' =>
        refine hblob.mono fun a hown => hown.imp id fun hpt => ?_
        rwa [HeapDb.Points, installExpiry_table hexp]
    · exact hblob

theorem loadInto_noLeak (fuel : Nat) (count : Option Nat) (bs : Bytes)
    (hl : NoLeak h₀ h fun a => own a ∨ d.Points a) :
    NoLeak h₀ (loadInto E fuel count h d bs).1.1
      fun a => own a ∨ (loadInto E fuel count h d bs).1.2.Points a :=
  loadInto_invariant E (I := fun s => NoLeak h₀ s.1 fun a => own a ∨ s.2.Points a)
    (fun _ _ e hl => installInto_noLeak E e hl) fuel count h d bs hl

/-- A temporary points to an address. -/
def PointsAny (ds : List HeapDb) (a : Nat) : Prop := ∃ d ∈ ds, d.Points a

theorem loadSegments_noLeak (fuel : Nat) (segs : List Nat) (h : ObjHeap) (tmps : List HeapDb)
    (bs : Bytes) (hl : NoLeak h₀ h (PointsAny tmps)) :
    NoLeak h₀ (loadSegments E fuel segs h tmps bs).1.1
      (PointsAny (loadSegments E fuel segs h tmps bs).1.2) := by
  refine loadSegments_invariant E (I := fun s => NoLeak h₀ s.1 (PointsAny s.2)) ?_
    fuel segs h tmps bs hl
  intro h tmps idx n count bs hidx hl
  -- the other temporaries own what they own; the one at `idx` is loaded into
  let own : Nat → Prop := fun a => ∃ j d, j ≠ idx ∧ tmps[j]? = some d ∧ d.Points a
  have hsplit : NoLeak h₀ h fun a => own a ∨ (tmps.getD idx heapDbInit).Points a := by
    refine hl.mono ?_
    rintro a ⟨d, hd, hpt⟩
    obtain ⟨j, hj⟩ := List.mem_iff_getElem?.mp hd
    by_cases heq : j = idx
    · subst heq
      rw [List.getD_eq_getElem?_getD, hj]
      exact .inr hpt
    · exact .inl ⟨j, d, heq, hj, hpt⟩
  refine (loadInto_noLeak E n (some count) bs hsplit).mono ?_
  rintro a (⟨j, d, hne, hj, hpt⟩ | hpt)
  · refine ⟨d, List.mem_iff_getElem?.mpr ⟨j, ?_⟩, hpt⟩
    rw [List.getElem?_set_ne (Ne.symm hne)]
    exact hj
  · exact ⟨_, List.mem_set hidx _, hpt⟩

theorem destroyDb_noLeak (hl : NoLeak h₀ h fun a => own a ∨ d.Points a) :
    NoLeak h₀ (destroyDb E h d) own := by
  have hwalk : NoLeak h₀ h fun a => own a ∨ ∃ x ∈ E.each.order d.table.items, x.2 = .ptr a := by
    refine hl.mono fun a hown => hown.imp id ?_
    rintro ⟨x, hx, hptr⟩
    exact ⟨x, (E.each.perm d.table.items).mem_iff.mpr hx, hptr⟩
  clear hl
  unfold destroyDb
  generalize E.each.order d.table.items = l at hwalk
  induction l generalizing h with
  | nil => exact hwalk.mono fun a hown => hown.elim id fun ⟨x, hx, _⟩ => absurd hx not_mem_nil
  | cons x l ih =>
    refine ih (objFreeValue_noLeak (hwalk.mono fun a hown => ?_))
    rcases hown with hown | ⟨y, hy, hptr⟩
    · exact .inl (.inl hown)
    rcases List.mem_cons.mp hy with rfl | hy
    · exact .inr hptr
    · exact .inl (.inr ⟨y, hy, hptr⟩)

theorem destroyDb_within (h : ObjHeap) (d : HeapDb) : Heap.Within h (destroyDb E h d) := by
  unfold destroyDb
  generalize E.each.order d.table.items = l
  induction l generalizing h with
  | nil => exact Heap.Within.refl h
  | cons x l ih => exact (objFreeValue_within h x.2).trans (ih _)

theorem installBlob_within (hinst : installBlob h d k b = some s) : Heap.Within h s.1 := by
  unfold installBlob at hinst
  split at hinst
  · dsimp only at hinst
    cases hold : d.table.get? k with
    | none =>
      rw [hold] at hinst
      cases hinst
      exact Heap.Within.refl h
    | some x =>
      rw [hold] at hinst
      cases hinst
      exact objFreeValue_within h x.2
  · cases hinst

theorem mergeEntries_within : ∀ xs h d,
    Heap.Within h (mergeEntries xs h d).1.1
  | [], h, _ => Heap.Within.refl h
  | x :: xs, h, d => by
    unfold mergeEntries
    cases hinst : installBlob h d x.1 x.2 with
    | none => exact Heap.Within.refl h
    | some s => exact (installBlob_within hinst).trans (mergeEntries_within xs s.1 s.2)

theorem mergeShardDb_within (h : ObjHeap) (d src : HeapDb) :
    Heap.Within h (mergeShardDb E h d src).1.1 := by
  have hentries := mergeEntries_within (E.each.order src.table.items) h d
  unfold mergeShardDb
  generalize mergeEntries (E.each.order src.table.items) h d = r at hentries ⊢
  obtain ⟨s, ok⟩ := r
  cases ok <;> exact hentries

/-- Merging a shard allocates nothing, and the shard is destroyed. -/
theorem mergeAll_within (E : Env) : ∀ {tmps srcs} {h},
    tmps.length = srcs.length → NoLeak h₀ h (PointsAny srcs) →
    Heap.Within h₀ (mergeAll E h tmps srcs).1.1
  | [], [], h, _, hl => by
    intro a ha
    refine hl a ha ?_
    rintro ⟨d, hd, -⟩
    exact not_mem_nil hd
  | tmp :: tmps, src :: srcs, h, hlen, hl => by
    have hmerge := hl.shrink (mergeShardDb_within E h tmp src)
    have hrest : NoLeak h₀ (destroyDb E (mergeShardDb E h tmp src).1.1 src) (PointsAny srcs) := by
      refine destroyDb_noLeak E (hmerge.mono ?_)
      rintro a ⟨d, hd, hpt⟩
      rcases List.mem_cons.mp hd with rfl | hd
      · exact .inr hpt
      · exact .inl ⟨d, hd, hpt⟩
    have ih := mergeAll_within E (show tmps.length = srcs.length by simpa using hlen) hrest
    exact ih

theorem swapAll_within (E : Env) : ∀ ds tmps h,
    Heap.Within h (swapAll E h ds tmps).1
  | [], _, h => Heap.Within.refl h
  | _ :: _, [], h => Heap.Within.refl h
  | d :: ds, _ :: tmps, h => (destroyDb_within E h d).trans (swapAll_within E ds tmps _)

end Leaks

/-! ## The snapshot of a shard -/

section Shard

theorem swapAll_forall₂ {α : Type} {R : α → HeapDb → Prop}
    (hR : ∀ x hd n, R x hd → R x { hd with flushEpoch := n }) E :
    ∀ {xs} {ds tmps} {h}, ds.length = tmps.length →
      List.Forall₂ R xs tmps → List.Forall₂ R xs (swapAll E h ds tmps).2
  | _, [], [], _, _, hall => hall
  | _, d :: ds, tmp :: tmps, h, hlen, hall => by
    cases hall with
    | cons hhead htail =>
      exact .cons (hR _ _ _ hhead) (swapAll_forall₂ hR E (by simpa using hlen) htail)

theorem swapAll_points (E : Env) : ∀ {ds tmps} {h} {a},
    ds.length = tmps.length → (PointsAny (swapAll E h ds tmps).2 a ↔ PointsAny tmps a)
  | [], [], _, _, _ => Iff.rfl
  | d :: ds, tmp :: tmps, h, a, hlen => by
    have ih := swapAll_points E (h := destroyDb E h d) (a := a)
      (show ds.length = tmps.length by simpa using hlen)
    simp only [PointsAny, swapAll, swapHeapDb, List.mem_cons, exists_eq_or_imp] at ih ⊢
    rw [ih]
    rfl

theorem mapM_id_map_some {α : Type} : ∀ xs : List α, (xs.map some).mapM id = some xs
  | [] => rfl
  | x :: xs => by simp [mapM_id_map_some xs]

theorem finishLoad_done (E : Env) (ds : List HeapDb) (release : ObjHeap → List HeapDb → ObjHeap)
    (h : ObjHeap) (tmps : List HeapDb) :
    finishLoad E (ds.map some) release ((h, tmps), some [])
      = (0, (swapAll E h ds tmps).1, (swapAll E h ds tmps).2.map some) := by
  simp only [finishLoad, mapM_id_map_some]

theorem finishLoad_failed (E : Env) (targets : List (Option HeapDb))
    (release : ObjHeap → List HeapDb → ObjHeap) {r : (ObjHeap × List HeapDb) × Option Bytes}
    (hr : r.2 = none) : (finishLoad E targets release r).1 = -1 := by
  obtain ⟨s, rest⟩ := r
  cases hr
  rfl

/-- A shard is loaded into new databases: some value does not load, or all do. -/
theorem loadMemMulti_shard (E : Env) {bytes : Bytes} (fuel : Nat) (h : ObjHeap)
    (hw : serializeMulti dbs = some bytes) (hne : dbs ≠ []) (hsized : ∀ s ∈ dbs, DbSized s.db) :
    ((∃ s ∈ dbs, ¬ AllLoadable s.db) →
      (loadMemMulti E (fuel + 1) h (replicate dbs.length (some heapDbInit)) bytes).1 = -1) ∧
    ((∀ s ∈ dbs, AllLoadable s.db) →
      ∃ h' new, loadMemMulti E (fuel + 1) h (replicate dbs.length (some heapDbInit)) bytes
          = (0, h', new.map some) ∧
        List.Forall₂ (fun s hd => HoldsLoaded E.now s.db hd) dbs new ∧
        NoLeak h h' (PointsAny new)) := by
  unfold serializeMulti at hw
  split at hw
  · cases hw
  rename_i hmax
  simp only [Option.bind_eq_bind, Option.bind_eq_some_iff, Option.pure_def, Option.some.injEq] at hw
  obtain ⟨segments, hsegments, rfl⟩ := hw
  have hcount : dbs.length < 256 ^ 2 := by
    unfold uint16Max at hmax
    omega
  have hread : Dec.le 2 (leBytes 2 dbs.length ++ segments) = some (dbs.length, segments) :=
    Reads.le hcount segments
  have hmagic : multiMagic.length = 8 := by decide
  have htake : (multiMagic ++ (leBytes 2 dbs.length ++ segments)).take 8 = multiMagic :=
    List.take_left' hmagic
  have hdrop : (multiMagic ++ (leBytes 2 dbs.length ++ segments)).drop 8
      = leBytes 2 dbs.length ++ segments := List.drop_left' hmagic
  have hstart : ¬ (replicate dbs.length (some heapDbInit) = [] ∨
      (multiMagic ++ (leBytes 2 dbs.length ++ segments)).length < 8) := by
    simp [hmagic, hne]
  have hload : loadMemMulti E (fuel + 1) h (replicate dbs.length (some heapDbInit))
        (multiMagic ++ leBytes 2 dbs.length ++ segments)
      = finishLoad E ((replicate dbs.length heapDbInit).map some) (fun h _ => h)
        (loadSegments E segments.length [] h (replicate dbs.length heapDbInit) segments) := by
    rw [List.append_assoc, loadMemMulti]
    simp only [hstart, if_false, htake, hdrop, hread, List.length_replicate, List.map_replicate,
      show multiMagic ≠ shardMagic by decide, show multiMagic ≠ snapshotMagic by decide, if_true]
  have hnone : ∀ j ∈ [], j < 0 := fun j hj => absurd hj not_mem_nil
  obtain ⟨hno, hyes⟩ := loadSegments_written E [] h hsegments
    (by simpa using Nat.le_of_not_lt hmax) hnone (Nat.le_refl _) hsized
  simp only [List.nil_append] at hno hyes
  rw [hload]
  refine ⟨fun hbad => finishLoad_failed E _ _ (hno hbad), fun hgood => ?_⟩
  obtain ⟨h', new, hsegs, hnew⟩ := hyes hgood
  have hlen : (replicate dbs.length heapDbInit).length = new.length := by simp [hnew.length_eq]
  have hstart : NoLeak h h (PointsAny (replicate dbs.length heapDbInit)) :=
    fun a ha _ => ha
  have hleak := loadSegments_noLeak E segments.length [] h _ segments hstart
  rw [hsegs] at hleak
  rw [hsegs, finishLoad_done]
  refine ⟨_, _, rfl, swapAll_forall₂ (fun _ _ _ hholds => hholds) E hlen hnew, ?_⟩
  exact (hleak.shrink (swapAll_within E _ _ _)).mono fun a => (swapAll_points E hlen).mpr

end Shard

/-! ## Merging is a union -/

section Merge

theorem mergeEntries_entry : ∀ {xs} h {d}, Fits d →
    (∀ x ∈ xs, x.1.length ≤ uint32Max ∧ x.2.vlen ≤ uint32Max) → (xs.map fst).Nodup →
    ∃ s, mergeEntries xs h d = (s, true) ∧ Fits s.2 ∧
      (∀ k, k ∉ xs.map fst → s.2.entry k = d.entry k) ∧
      ∀ x ∈ xs, s.2.entry x.1 = (some x.2.string?, none)
  | [], h, d, hfits, _, _ => ⟨(h, d), rfl, hfits, fun _ _ => rfl, fun _ hx => absurd hx not_mem_nil⟩
  | x :: xs, h, d, hfits, hx, hnodup => by
    obtain ⟨hk, hb⟩ := hx x (mem_cons_self ..)
    obtain ⟨h₁, d₁, hinst, hfits₁, htable, hexp⟩ := installBlob_entry h hfits hk hb
    have hentry := entry_of_put htable hexp
    rw [map_cons, List.nodup_cons] at hnodup
    obtain ⟨s, hs, hfits', hframe, hmerged⟩ := mergeEntries_entry h₁ hfits₁
      (fun y hy => hx y (mem_cons_of_mem _ hy)) hnodup.2
    refine ⟨s, by simp [mergeEntries, hinst, hs], hfits', fun k hnot => ?_, fun y hy => ?_⟩
    · rw [map_cons, List.mem_cons, not_or] at hnot
      rw [hframe k hnot.2, hentry k, if_neg hnot.1]
    rcases List.mem_cons.mp hy with rfl | hy
    · rw [hframe y.1 hnodup.1, hentry y.1, if_pos rfl]
    · exact hmerged y hy

theorem mergeExpiries_entry : ∀ {xs} {d}, Fits d →
    (∀ x ∈ xs, x.1.length ≤ uint32Max) → (xs.map fst).Nodup →
    ∃ d', mergeExpiries xs d = (d', true) ∧ Fits d' ∧
      (∀ k, k ∉ xs.map fst → d'.entry k = d.entry k) ∧
      ∀ x ∈ xs, d'.entry x.1 = ((d.entry x.1).1, some x.2)
  | [], d, hfits, _, _ => ⟨d, rfl, hfits, fun _ _ => rfl, fun _ hx => absurd hx not_mem_nil⟩
  | x :: xs, d, hfits, hx, hnodup => by
    obtain ⟨d₁, hinst, hfits₁, -, hentry⟩ :=
      installExpiry_entry x.2 hfits (hx x (mem_cons_self ..))
    rw [map_cons, List.nodup_cons] at hnodup
    obtain ⟨d', hd', hfits', hframe, hmerged⟩ := mergeExpiries_entry hfits₁
      (fun y hy => hx y (mem_cons_of_mem _ hy)) hnodup.2
    refine ⟨d', by simp [mergeExpiries, hinst, hd'], hfits', fun k hnot => ?_, fun y hy => ?_⟩
    · rw [map_cons, List.mem_cons, not_or] at hnot
      rw [hframe k hnot.2, hentry k, if_neg hnot.1]
    rcases List.mem_cons.mp hy with rfl | hy
    · rw [hframe y.1 hnodup.1, hentry y.1, if_pos rfl]
    · have hne : y.1 ≠ x.1 := fun heq => hnodup.1 (heq ▸ List.mem_map_of_mem hy)
      rw [hmerged y hy, hentry y.1, if_neg hne]

/-- What is merged over an entry: the entry of the shard if it has the key. -/
def overlay (old new : Option (Option Bytes) × Option Nat) : Option (Option Bytes) × Option Nat :=
  if new.1 = none then old else new

theorem mergeShardDb_entry (E : Env) (h : ObjHeap) {d src : HeapDb} (hfits : Fits d)
    (hsrc : Fits src) (howned : ∀ k, (src.entry k).1 = none → (src.entry k).2 = none) :
    ∃ s, mergeShardDb E h d src = (s, true) ∧ Fits s.2 ∧
      ∀ k, s.2.entry k = overlay (d.entry k) (src.entry k) := by
  have hperm := E.each.perm src.table.items
  have hperm' := E.each.perm src.expires.items
  have hnodup : ((E.each.order src.table.items).map fst).Nodup :=
    (hperm.map fst).nodup_iff.mpr src.table.nodup
  have hnodup' : ((E.each.order src.expires.items).map fst).Nodup :=
    (hperm'.map fst).nodup_iff.mpr src.expires.nodup
  obtain ⟨s, hs, hfits₁, hframe, hmerged⟩ := mergeEntries_entry h hfits
    (fun x hx => hsrc.1 x (hperm.mem_iff.mp hx)) hnodup
  obtain ⟨d', hd', hfits', hframe', hmerged'⟩ := mergeExpiries_entry hfits₁
    (fun x hx => hsrc.2 x (hperm'.mem_iff.mp hx)) hnodup'
  refine ⟨(s.1, d'), by simp [mergeShardDb, hs, hd'], hfits', fun k => ?_⟩
  have hnot : ∀ {α : Type} {u : Unique (fst : Bytes × α → Bytes)}, u.get? k = none →
      k ∉ (E.each.order u.items).map fst := by
    intro α u hnone
    rw [((E.each.perm u.items).map fst).mem_iff]
    exact Unique.get?_eq_none.mp hnone
  have hsome : ∀ {α : Type} {u : Unique fst} {x : Bytes × α},
      u.get? k = some x → x ∈ E.each.order u.items ∧ x.1 = k := by
    intro α u x hx
    obtain ⟨hmem, hk⟩ := Unique.get?_eq_some.mp hx
    exact ⟨(E.each.perm u.items).mem_iff.mpr hmem, hk⟩
  have hexp : (src.entry k).2 = (src.expires.get? k).map Prod.snd := rfl
  cases htable : src.table.get? k with
  | none =>
    have hentry : (src.entry k).1 = none := by simp [HeapDb.entry, htable]
    have hnone : src.expires.get? k = none := by
      rw [howned k hentry] at hexp
      exact Option.map_eq_none_iff.mp hexp.symm
    rw [overlay, if_pos hentry, hframe' k (hnot hnone), hframe k (hnot htable)]
  | some x =>
    obtain ⟨hx, rfl⟩ := hsome htable
    have hentry : src.entry x.1 = (some x.2.string?, (src.expires.get? x.1).map Prod.snd) := by
      simp [HeapDb.entry, htable]
    rw [hentry]
    cases hget : src.expires.get? x.1 with
    | none => rw [hframe' x.1 (hnot hget), hmerged x hx]; rfl
    | some y =>
      obtain ⟨hy, hyk⟩ := hsome hget
      have hlast := hmerged' y hy
      rw [hyk, hmerged x hx] at hlast
      exact hlast

theorem forall₂_getElem? {α β : Type} {R : α → β → Prop} : ∀ {xs} {ys},
    List.Forall₂ R xs ys → ∀ {j : Nat} {y : β}, ys[j]? = some y → ∃ x, xs[j]? = some x ∧ R x y
  | _, _, .nil, j, y, hy => by simp at hy
  | _, _, .cons hhead htail, j, y, hy => by
    cases j with
    | zero =>
      simp only [List.getElem?_cons_zero, Option.some.injEq] at hy
      exact ⟨_, rfl, hy ▸ hhead⟩
    | succ j => exact forall₂_getElem? htail hy

theorem HoldsLoaded.owned {d : Db} {hd : HeapDb} (h : HoldsLoaded now d hd) (k : Bytes)
    (hnone : (hd.entry k).1 = none) : (hd.entry k).2 = none := by
  rw [h.1 k] at hnone ⊢
  unfold loadedEntry at hnone ⊢
  cases hlookup : d.table.lookup k with
  | none => rfl
  | some v =>
    rw [hlookup] at hnone
    dsimp only at hnone ⊢
    split at hnone
    · rename_i hdead
      rw [if_pos hdead]
    · cases hnone

theorem mergeAll_entry (E : Env) : ∀ {tmps srcs} h,
    tmps.length = srcs.length → (∀ d ∈ tmps, Fits d) →
    (∀ src ∈ srcs, ∃ d, HoldsLoaded E.now d src) →
    ∃ h' tmps', mergeAll E h tmps srcs = ((h', tmps'), true) ∧
      List.Forall₂ (fun p hd => Fits hd ∧
        ∀ k, hd.entry k = overlay (HeapDb.entry p.1 k) (HeapDb.entry p.2 k)) (tmps.zip srcs) tmps'
  | [], [], h, _, _, _ => ⟨h, [], rfl, .nil⟩
  | tmp :: tmps, src :: srcs, h, hlen, hfits, hsrcs => by
    obtain ⟨d, hsrc⟩ := hsrcs src (mem_cons_self ..)
    obtain ⟨s, hs, hfits', hentry⟩ := mergeShardDb_entry E h (hfits tmp (mem_cons_self ..))
      hsrc.2 hsrc.owned
    obtain ⟨h', tmps', hrest, hall⟩ := mergeAll_entry E (destroyDb E s.1 src)
      (show tmps.length = srcs.length by simpa using hlen)
      (fun d hd => hfits d (mem_cons_of_mem _ hd))
      (fun d hd => hsrcs d (mem_cons_of_mem _ hd))
    refine ⟨h', s.2 :: tmps', ?_, .cons ⟨hfits', hentry⟩ hall⟩
    simp [mergeAll, hs, hrest]

def column (shards : List (List Saved)) (j : Nat) : List Db :=
  shards.filterMap fun dbs => (dbs[j]?).map Saved.db

/-- A temporary holds the databases of its index, one merged over the other. -/
def HoldsUnion (now : Nat) (ds : List Db) (hd : HeapDb) : Prop :=
  (∀ k, hd.entry k = (ds.map fun d => loadedEntry now d k).foldl overlay (none, none)) ∧ Fits hd

def UnionOf (now : Nat) (shards : List (List Saved)) (tmps : List HeapDb) : Prop :=
  ∀ j hd, tmps[j]? = some hd → HoldsUnion now (column shards j) hd

theorem UnionOf.fits {shards : List (List Saved)}
    (h : UnionOf now shards tmps) : ∀ d ∈ tmps, Fits d := by
  intro d hd
  obtain ⟨j, hj⟩ := List.mem_iff_getElem?.mp hd
  exact (h j d hj).2

theorem UnionOf.merge {E : Env} {done : List (List Saved)} {srcs : List HeapDb} (h : ObjHeap)
    (hu : UnionOf E.now done tmps) (hlen : tmps.length = srcs.length)
    (hsrcs : List.Forall₂ (fun s hd => HoldsLoaded E.now s.db hd) dbs srcs) :
    ∃ h' tmps', mergeAll E h tmps srcs = ((h', tmps'), true) ∧ tmps'.length = tmps.length ∧
      UnionOf E.now (done ++ [dbs]) tmps' := by
  have hloaded : ∀ src ∈ srcs, ∃ d, HoldsLoaded E.now d src := by
    intro src hsrc
    obtain ⟨j, hj⟩ := List.mem_iff_getElem?.mp hsrc
    obtain ⟨s, -, hholds⟩ := forall₂_getElem? hsrcs hj
    exact ⟨s.db, hholds⟩
  obtain ⟨h', tmps', hmerge, hall⟩ := mergeAll_entry E h hlen hu.fits hloaded
  refine ⟨h', tmps', hmerge, ?_, fun j hd hj => ?_⟩
  · have hlen' := hall.length_eq
    rw [List.length_zip] at hlen'
    omega
  obtain ⟨⟨tmp, src⟩, hp, hfits, hentry⟩ := forall₂_getElem? hall hj
  obtain ⟨htmp, hsrc⟩ := List.getElem?_zip_eq_some.mp hp
  obtain ⟨s, hs, hholds⟩ := forall₂_getElem? hsrcs hsrc
  refine ⟨fun k => ?_, hfits⟩
  have hcol : column (done ++ [dbs]) j = column done j ++ [s.db] := by simp [column, hs]
  rw [hentry k, (hu j tmp htmp).1 k, hholds.1 k, hcol, List.map_append, List.foldl_append]
  rfl

/-- The shards of a family: as many databases as there are targets, all within the
lengths the code stores. -/
def ShardsSized (n : Nat) (shards : List (List Saved)) : Prop :=
  ∀ dbs ∈ shards, dbs.length = n ∧ ∀ s ∈ dbs, DbSized s.db

def ShardsLoadable (shards : List (List Saved)) : Prop :=
  ∀ dbs ∈ shards, ∀ s ∈ dbs, AllLoadable s.db

/-- The shard loop fails, or leaves the union and nothing else that is allocated. -/
theorem loadShards_written (E : Env) (fuel : Nat) {h₀ : ObjHeap} :
    ∀ {shards done} {bs} {h} {tmps},
    writeAll serializeShard shards = some bs → ShardsSized tmps.length shards → tmps ≠ [] →
    Heap.Within h₀ h → UnionOf E.now done tmps →
    (¬ ShardsLoadable shards →
      (loadShards E (loadMemMulti E (fuel + 1)) shards.length h tmps bs).2 = none) ∧
    (ShardsLoadable shards →
      ∃ h' tmps', loadShards E (loadMemMulti E (fuel + 1)) shards.length h tmps bs
          = ((h', tmps'), some []) ∧ tmps'.length = tmps.length ∧
        UnionOf E.now (done ++ shards) tmps' ∧ Heap.Within h₀ h')
  | [], done, bs, h, tmps, hw, _, _, hwithin, hu => by
    cases hw
    refine ⟨fun hbad => absurd (fun dbs hdbs => absurd hdbs not_mem_nil) hbad, fun _ => ?_⟩
    exact ⟨h, tmps, rfl, rfl, by simpa using hu, hwithin⟩
  | dbs :: shards, done, bs, h, tmps, hw, hsized, hne, hwithin, hu => by
    simp only [writeAll, serializeShard, Option.bind_eq_bind, Option.bind_eq_some_iff,
      Option.pure_def, Option.some.injEq] at hw
    obtain ⟨b, ⟨shard, hshard, hblob⟩, rest, hrest, rfl⟩ := hw
    obtain ⟨hlen, hdbs⟩ := hsized dbs (mem_cons_self ..)
    have hdbsne : dbs ≠ [] := by
      rintro rfl
      exact hne (List.length_eq_zero_iff.mp hlen.symm)
    have hread : readBlob (b ++ rest) = some (shard, rest) := writeBlob_eq_some hblob rest
    obtain ⟨hno, hyes⟩ := loadMemMulti_shard E fuel h hshard hdbsne hdbs
    rw [hlen] at hno hyes
    rw [List.length_cons, loadShards, hread]
    dsimp only
    by_cases hall : ∀ s ∈ dbs, AllLoadable s.db
    · obtain ⟨h₁, new, hload, hnew, hleak⟩ := hyes hall
      have hlen' : tmps.length = new.length := hlen ▸ hnew.length_eq
      obtain ⟨h₂, tmps₂, hmerge, hlen₂, hu₂⟩ := hu.merge h₁ hlen' hnew
      have hwithin₂ : Heap.Within h₀ h₂ := by
        have hw₂ := mergeAll_within E hlen' fun a ha => hleak a (hwithin a ha)
        rwa [hmerge] at hw₂
      have htail : ShardsSized tmps₂.length shards := by
        rw [hlen₂]
        exact fun dbs' hdbs' => hsized dbs' (mem_cons_of_mem _ hdbs')
      have hne₂ : tmps₂ ≠ [] := by
        rintro rfl
        exact hne (List.length_eq_zero_iff.mp hlen₂.symm)
      obtain ⟨hno', hyes'⟩ := loadShards_written E fuel hrest htail hne₂ hwithin₂ hu₂
      have hstep : (new.map some).reduceOption = new := by simp [List.reduceOption]
      simp only [hload, hstep, hmerge]
      constructor
      · intro hbad
        refine hno' fun hgood => hbad fun dbs' hdbs' => ?_
        rcases List.mem_cons.mp hdbs' with rfl | hdbs'
        · exact hall
        · exact hgood dbs' hdbs'
      · intro hgood
        obtain ⟨h', tmps', hrun, hlen'', hu', hwithin'⟩ :=
          hyes' fun dbs' hdbs' => hgood dbs' (mem_cons_of_mem _ hdbs')
        exact ⟨h', tmps', hrun, hlen''.trans hlen₂, by simpa using hu', hwithin'⟩
    · have hbad : ∃ s ∈ dbs, ¬ AllLoadable s.db := by
        push Not at hall
        exact hall
      refine ⟨fun _ => ?_, fun hgood => absurd (hgood dbs (mem_cons_self ..)) hall⟩
      rw [hno hbad, if_pos (by decide)]

end Merge

end Ddup.Snapshot
