/-
Ddup.Snapshot.ShardsTheorems — loading is all or nothing.

A load works on temporary databases. Everything they point to was allocated since
the load began (`Foreign`), so whatever it releases, even twice, the objects that
were there before stay (`Keeps`). The targets change in the last step only.
-/
import Mathlib.Data.List.ReduceOption
import Ddup.Snapshot.Shards
import Ddup.Snapshot.LoadTheorems

namespace Ddup.Snapshot

open Ddup.Lib Ddup.Store
open List (mem_cons_of_mem mem_cons_self)

variable {i : Nat} {tmps : List HeapDb}

/-! ## What a load releases -/

section Keeping

variable {E : Env} {h₀ h : ObjHeap} {d : HeapDb} {b : Blob} {k : Bytes}

/-- The blob points at no object of `h₀`. -/
def Foreign (h₀ : ObjHeap) (b : Blob) : Prop := ∀ a, b = .ptr a → h₀.get a = none

def DbForeign (h₀ : ObjHeap) (d : HeapDb) : Prop := ∀ x ∈ d.table.items, Foreign h₀ x.2

/-- The objects of `h₀` are there, and the temporary has none of them. -/
def Safe (h₀ : ObjHeap) (s : ObjHeap × HeapDb) : Prop := Heap.Keeps h₀ s.1 ∧ DbForeign h₀ s.2

def SafeAll (h₀ : ObjHeap) (s : ObjHeap × List HeapDb) : Prop :=
  Heap.Keeps h₀ s.1 ∧ ∀ d ∈ s.2, DbForeign h₀ d

theorem heapDbInit_foreign (h₀ : ObjHeap) : DbForeign h₀ heapDbInit :=
  fun _ hx => absurd hx List.not_mem_nil

theorem objFreeValue_keeps (hk : Heap.Keeps h₀ h) (hb : Foreign h₀ b) :
    Heap.Keeps h₀ (objFreeValue h b) := by
  cases b with
  | ptr a => exact hk.free (hb a rfl)
  | str b | tier rid expire => exact hk

theorem storeValue_keeps (al : Heap.Allocator Obj) (v : Obj) (hk : Heap.Keeps h₀ h) :
    Heap.Keeps h₀ (storeValue al h v).1 ∧ Foreign h₀ (storeValue al h v).2 := by
  have hfresh : h₀.get (al.next h) = none := hk.unused (al.fresh h)
  have halloc : Foreign h₀ (.ptr (al.next h)) := by
    intro a ha
    cases ha
    exact hfresh
  cases v with
  | str b | tier rid expire => exact ⟨hk, nofun⟩
  | list items mem | boxed c mem => exact ⟨hk.cons hfresh _, halloc⟩

theorem put_foreign (hd : DbForeign h₀ d) (hb : Foreign h₀ b) :
    ∀ x ∈ (d.table.put (k, b)).items, Foreign h₀ x.2 := by
  intro x hx
  rcases Unique.mem_put hx with rfl | hold
  · exact hb
  · exact hd x hold

theorem installBlob_safe {s : ObjHeap × HeapDb} (hs : Safe h₀ (h, d)) (hb : Foreign h₀ b)
    (h' : installBlob h d k b = some s) : Safe h₀ s := by
  obtain ⟨hk, hd⟩ := hs
  unfold installBlob at h'
  split at h'
  · dsimp only at h'
    cases hold : d.table.get? k with
    | none =>
      rw [hold] at h'
      cases h'
      exact ⟨hk, put_foreign hd hb⟩
    | some x =>
      rw [hold] at h'
      cases h'
      have hx := hd x (Unique.get?_eq_some.mp hold).1
      exact ⟨objFreeValue_keeps hk hx, put_foreign hd hb⟩
  · cases h'

theorem installExpiry_table {t : Nat} {d' : HeapDb} (h : installExpiry d k t = some d')
    : d'.table = d.table := by
  unfold installExpiry at h
  split at h
  · cases h
    rfl
  · cases h

theorem installInto_safe (e : Entry) (hs : Safe h₀ (h, d)) : Safe h₀ (installInto E h d e).1 := by
  unfold installInto
  split
  · exact hs
  obtain ⟨hk, hb⟩ := storeValue_keeps E.alloc e.value hs.1
  dsimp only
  cases hinst : installBlob (storeValue E.alloc h e.value).1 d e.key
      (storeValue E.alloc h e.value).2 with
  | none => exact ⟨objFreeValue_keeps hk hb, hs.2⟩
  | some s =>
    have hsafe := installBlob_safe ⟨hk, hs.2⟩ hb hinst
    dsimp only
    split
    · cases hexp : installExpiry s.2 e.key e.expire with
      | none => exact hsafe
      | some d' =>
        refine ⟨hsafe.1, ?_⟩
        show ∀ x ∈ d'.table.items, _
        rw [installExpiry_table hexp]
        exact hsafe.2
    · exact hsafe

/-- The invariant rule of `load_entries`: what every round keeps holds when it stops,
whatever the input. -/
theorem loadInto_invariant (E : Env) {I : ObjHeap × HeapDb → Prop}
    (hstep : ∀ h d e, I (h, d) → I (installInto E h d e).1) :
    ∀ fuel count h d bs,
      I (h, d) → I (loadInto E fuel count h d bs).1 := by
  intro fuel
  induction fuel with
  | zero =>
    intro count h d bs hi
    rcases count with _ | _ | n <;> cases bs <;> exact hi
  | succ fuel ih =>
    intro count h d bs hi
    rcases count with _ | _ | n <;> rcases bs with _ | ⟨b, bs⟩ <;> try exact hi
    all_goals
      rw [loadInto]
      swap
      · simp
      cases readEntry E.sizes E.limits (b :: bs) with
      | none => exact hi
      | some r =>
        obtain ⟨e, rest⟩ := r
        have hinst := hstep h d e hi
        dsimp only
        generalize installInto E h d e = r at hinst ⊢
        obtain ⟨s, ok⟩ := r
        cases ok with
        | false => exact hinst
        | true => exact ih _ s.1 s.2 rest hinst

theorem loadInto_safe (E : Env) (fuel : Nat) (count : Option Nat) (h : ObjHeap) (d : HeapDb)
    (bs : Bytes) (hs : Safe h₀ (h, d)) : Safe h₀ (loadInto E fuel count h d bs).1 :=
  loadInto_invariant E (fun _ _ e hs => installInto_safe e hs) fuel count h d bs hs

theorem destroyDb_keeps (E : Env) (hk : Heap.Keeps h₀ h) (hd : DbForeign h₀ d) :
    Heap.Keeps h₀ (destroyDb E h d) := by
  have hall : ∀ x ∈ E.each.order d.table.items, Foreign h₀ x.2 := fun x hx =>
    hd x ((E.each.perm d.table.items).mem_iff.mp hx)
  unfold destroyDb
  generalize E.each.order d.table.items = l at hall
  induction l generalizing h with
  | nil => exact hk
  | cons x l ih =>
    exact ih (objFreeValue_keeps hk (hall x (mem_cons_self ..)))
      fun y hy => hall y (mem_cons_of_mem _ hy)

theorem destroyDbs_keeps (E : Env) {ds : List HeapDb} (hs : SafeAll h₀ (h, ds)) :
    Heap.Keeps h₀ (destroyDbs E h ds) := by
  obtain ⟨hk, hds⟩ := hs
  induction ds generalizing h with
  | nil => exact hk
  | cons d ds ih =>
    exact ih (destroyDb_keeps E hk (hds d (mem_cons_self ..)))
      fun y hy => hds y (mem_cons_of_mem _ hy)

theorem mergeEntries_safe : ∀ {xs} {h} {d},
    Safe h₀ (h, d) → (∀ x ∈ xs, Foreign h₀ x.2) → Safe h₀ (mergeEntries xs h d).1
  | [], _, _, hs, _ => hs
  | x :: xs, h, d, hs, hx => by
    unfold mergeEntries
    cases hinst : installBlob h d x.1 x.2 with
    | none => exact hs
    | some s =>
      exact mergeEntries_safe (installBlob_safe hs (hx x (mem_cons_self ..)) hinst)
        fun y hy => hx y (mem_cons_of_mem _ hy)

theorem mergeExpiries_table : ∀ {xs} {d},
    (mergeExpiries xs d).1.table = d.table
  | [], _ => rfl
  | x :: xs, d => by
    unfold mergeExpiries
    cases hexp : installExpiry d x.1 x.2 with
    | none => rfl
    | some d' => exact mergeExpiries_table.trans (installExpiry_table hexp)

theorem mergeShardDb_safe (E : Env) {src : HeapDb} (hs : Safe h₀ (h, d))
    (hsrc : DbForeign h₀ src) : Safe h₀ (mergeShardDb E h d src).1 := by
  have hentries := mergeEntries_safe hs fun x hx =>
    hsrc x ((E.each.perm src.table.items).mem_iff.mp hx)
  unfold mergeShardDb
  generalize mergeEntries (E.each.order src.table.items) h d = r at hentries ⊢
  obtain ⟨s, ok⟩ := r
  cases ok with
  | false => exact hentries
  | true =>
    refine ⟨hentries.1, ?_⟩
    show ∀ x ∈ (mergeExpiries (E.each.order src.expires.items) s.2).1.table.items, _
    rw [mergeExpiries_table]
    exact hentries.2

theorem mergeAll_safe (E : Env) : ∀ {tmps srcs} {h},
    SafeAll h₀ (h, tmps) → (∀ d ∈ srcs, DbForeign h₀ d) → SafeAll h₀ (mergeAll E h tmps srcs).1
  | [], _, _, hs, _ => hs
  | _ :: _, [], _, hs, _ => hs
  | tmp :: tmps, src :: srcs, h, hs, hsrcs => by
    have hsrc := hsrcs src (mem_cons_self ..)
    have hmerge := mergeShardDb_safe E ⟨hs.1, hs.2 tmp (mem_cons_self ..)⟩ hsrc
    have hrest : SafeAll h₀ (destroyDb E (mergeShardDb E h tmp src).1.1 src, tmps) :=
      ⟨destroyDb_keeps E hmerge.1 hsrc, fun d hd => hs.2 d (mem_cons_of_mem _ hd)⟩
    have ih := mergeAll_safe E hrest fun d hd => hsrcs d (mem_cons_of_mem _ hd)
    refine ⟨ih.1, fun d hd => ?_⟩
    rcases List.mem_cons.mp hd with rfl | hd
    · exact hmerge.2
    · exact ih.2 d hd

theorem mem_set_foreign (hs : ∀ d ∈ tmps, DbForeign h₀ d)
    (hd : DbForeign h₀ d) : ∀ d' ∈ tmps.set i d, DbForeign h₀ d' := by
  intro d' hd'
  rcases List.mem_or_eq_of_mem_set hd' with hold | rfl
  · exact hs d' hold
  · exact hd

theorem getD_foreign (hs : ∀ d ∈ tmps, DbForeign h₀ d) : DbForeign h₀ (tmps.getD i heapDbInit) := by
  rw [List.getD_eq_getElem?_getD]
  cases hget : tmps[i]? with
  | none => exact heapDbInit_foreign h₀
  | some d => exact hs d (List.mem_of_getElem? hget)

theorem loadSegments_invariant (E : Env) {I : ObjHeap × List HeapDb → Prop}
    (hstep : ∀ h tmps idx n count bs, idx < tmps.length → I (h, tmps) →
      I ((loadInto E n (some count) h (tmps.getD idx heapDbInit) bs).1.1,
        tmps.set idx (loadInto E n (some count) h (tmps.getD idx heapDbInit) bs).1.2)) :
    ∀ fuel segs h tmps bs,
      I (h, tmps) → I (loadSegments E fuel segs h tmps bs).1 := by
  intro fuel
  induction fuel with
  | zero => intro segs h tmps bs hi; cases bs <;> exact hi
  | succ fuel ih =>
    intro segs h tmps bs hi
    cases bs with
    | nil => exact hi
    | cons b bs =>
      unfold loadSegments
      cases readSegment (b :: bs) with
      | none => exact hi
      | some r =>
        obtain ⟨⟨idx, count⟩, rest⟩ := r
        dsimp only
        split
        · exact hi
        rename_i hidx
        split
        · exact hi
        have hset := hstep h tmps idx rest.length count rest (Nat.lt_of_not_le hidx) hi
        generalize loadInto E rest.length (some count) h (tmps.getD idx heapDbInit)
          rest = r at hset ⊢
        obtain ⟨s, rest'⟩ := r
        cases rest' with
        | none => exact hset
        | some rest' => exact ih _ _ _ _ hset

theorem loadSegments_safe (E : Env) (fuel : Nat) (segs : List Nat) (h : ObjHeap)
    (tmps : List HeapDb) (bs : Bytes) (hs : SafeAll h₀ (h, tmps)) :
    SafeAll h₀ (loadSegments E fuel segs h tmps bs).1 := by
  refine loadSegments_invariant E ?_ fuel segs h tmps bs hs
  intro h tmps idx n count bs _ hs
  have hload := loadInto_safe E n (some count) h (tmps.getD idx heapDbInit) bs
    ⟨hs.1, getD_foreign hs.2⟩
  exact ⟨hload.1, mem_set_foreign hs.2 hload.2⟩

theorem mem_of_mapM_id {α : Type} : ∀ {xs : List (Option α)} {ys : List α},
    xs.mapM id = some ys → ∀ {y}, y ∈ ys → some y ∈ xs
  | [], ys, h, y, hy => by
    simp at h
    subst h
    exact absurd hy List.not_mem_nil
  | x :: xs, ys, h, y, hy => by
    simp only [List.mapM_cons, Option.bind_eq_bind, Option.bind_eq_some_iff,
      Option.pure_def, Option.some.injEq] at h
    obtain ⟨z, rfl, zs, hzs, rfl⟩ := h
    rcases List.mem_cons.mp hy with rfl | hy
    · exact mem_cons_self ..
    · exact mem_cons_of_mem _ (mem_of_mapM_id hzs hy)

/-- A failed load left the targets and the old objects alone; a successful one did so
too where the targets pointed at none of the old objects. -/
def LoadSafe (h₀ : ObjHeap) (targets : List (Option HeapDb)) (r : LoadResult) : Prop :=
  (r.1 ≠ 0 → r.2.2 = targets ∧ Heap.Keeps h₀ r.2.1) ∧
    (r.1 = 0 → (∀ d, some d ∈ targets → DbForeign h₀ d) →
      Heap.Keeps h₀ r.2.1 ∧ ∀ d, some d ∈ r.2.2 → DbForeign h₀ d)

theorem LoadSafe.failed (targets : List (Option HeapDb)) (hk : Heap.Keeps h₀ h) :
    LoadSafe h₀ targets (-1, h, targets) :=
  ⟨fun _ => ⟨rfl, hk⟩, fun hrc => absurd hrc (show -1 ≠ 0 by decide)⟩

theorem swapAll_safe (E : Env) : ∀ {ds tmps} {h},
    SafeAll h₀ (h, tmps) → (∀ d ∈ ds, DbForeign h₀ d) → SafeAll h₀ (swapAll E h ds tmps)
  | [], _, _, hs, _ => ⟨hs.1, fun _ hd => absurd hd List.not_mem_nil⟩
  | _ :: _, [], _, hs, _ => ⟨hs.1, fun _ hd => absurd hd List.not_mem_nil⟩
  | d :: ds, tmp :: tmps, h, hs, hds => by
    have hrest : SafeAll h₀ (destroyDb E h d, tmps) :=
      ⟨destroyDb_keeps E hs.1 (hds d (mem_cons_self ..)),
        fun x hx => hs.2 x (mem_cons_of_mem _ hx)⟩
    have ih := swapAll_safe E hrest fun x hx => hds x (mem_cons_of_mem _ hx)
    refine ⟨ih.1, fun x hx => ?_⟩
    rcases List.mem_cons.mp hx with rfl | hx
    · exact hs.2 tmp (mem_cons_self ..)
    · exact ih.2 x hx

theorem loadShards_safe (E : Env) {nested : ObjHeap → List (Option HeapDb) → Bytes → LoadResult}
    (hnested : ∀ h targets buf, Heap.Keeps h₀ h → LoadSafe h₀ targets (nested h targets buf)) :
    ∀ n h tmps bs, SafeAll h₀ (h, tmps) →
      SafeAll h₀ (loadShards E nested n h tmps bs).1 := by
  intro n
  induction n with
  | zero => exact fun h tmps bs hs => hs
  | succ n ih =>
    intro h tmps bs hs
    unfold loadShards
    cases readBlob bs with
    | none => exact hs
    | some r =>
      obtain ⟨shard, rest⟩ := r
      dsimp only
      have hnew : ∀ d, some d ∈ List.replicate tmps.length (some heapDbInit) →
          DbForeign h₀ d := by
        intro d hd
        cases List.eq_of_mem_replicate hd
        exact heapDbInit_foreign h₀
      have hspec := hnested h (List.replicate tmps.length (some heapDbInit)) shard hs.1
      generalize nested h (List.replicate tmps.length (some heapDbInit)) shard = r at hspec ⊢
      split
      · rename_i hrc
        obtain ⟨hsame, hkeeps⟩ := hspec.1 hrc
        have hdead : SafeAll h₀ (r.2.1, r.2.2.reduceOption) :=
          ⟨hkeeps, fun d hd => hnew d (hsame ▸ List.reduceOption_mem_iff.mp hd)⟩
        exact ⟨destroyDbs_keeps E hdead, hs.2⟩
      rename_i hrc
      obtain ⟨hkeeps, hloaded⟩ := hspec.2 (not_not.mp hrc) hnew
      have hmerge := mergeAll_safe E (show SafeAll h₀ (r.2.1, tmps) from ⟨hkeeps, hs.2⟩)
        fun d hd => hloaded d (List.reduceOption_mem_iff.mp hd)
      split
      · exact ih _ _ _ hmerge
      · exact hmerge

theorem finishLoad_safe (E : Env) {targets : List (Option HeapDb)}
    {release : ObjHeap → List HeapDb → ObjHeap}
    (hrelease : ∀ h tmps, SafeAll h₀ (h, tmps) → Heap.Keeps h₀ (release h tmps))
    {r : (ObjHeap × List HeapDb) × Option Bytes} (hs : SafeAll h₀ r.1) :
    LoadSafe h₀ targets (finishLoad E targets release r) := by
  obtain ⟨⟨h, tmps⟩, rest⟩ := r
  have hfail := LoadSafe.failed targets (hrelease h tmps hs)
  rcases rest with _ | _ | ⟨b, bs⟩
  · exact hfail
  · unfold finishLoad
    cases hds : targets.mapM id with
    | none => exact hfail
    | some ds =>
      refine ⟨fun hrc => absurd rfl hrc, fun _ htargets => ?_⟩
      have hmem : ∀ d ∈ ds, DbForeign h₀ d := by
        intro d hd
        exact htargets d (mem_of_mapM_id hds hd)
      have hswap := swapAll_safe E hs hmem
      exact ⟨hswap.1, fun d hd => hswap.2 d (by simpa using hd)⟩
  · exact hfail

theorem loadMemMulti_safe (E : Env) : ∀ (fuel : Nat) (h : ObjHeap)
    (targets : List (Option HeapDb)) (buf : Bytes), Heap.Keeps h₀ h →
    LoadSafe h₀ targets (loadMemMulti E fuel h targets buf) := by
  intro fuel
  induction fuel with
  | zero => exact fun h targets buf hk => LoadSafe.failed targets hk
  | succ fuel ih =>
    intro h targets buf hk
    have hfail := LoadSafe.failed targets hk
    have htmps : SafeAll h₀ (h, List.replicate targets.length heapDbInit) :=
      ⟨hk, fun d hd => List.eq_of_mem_replicate hd ▸ heapDbInit_foreign h₀⟩
    have hleak : ∀ h tmps, SafeAll h₀ (h, tmps) →
        Heap.Keeps h₀ h := fun _ _ hs => hs.1
    unfold loadMemMulti
    dsimp only
    split
    · exact hfail
    split
    · cases Dec.le 2 (buf.drop 8) with
      | none => exact hfail
      | some r =>
        exact finishLoad_safe E (fun _ _ hs => destroyDbs_keeps E hs)
          (loadShards_safe E ih r.1 h _ r.2 htmps)
    split
    · have hload := loadInto_safe E (buf.drop 8).length none h heapDbInit (buf.drop 8)
        ⟨hk, heapDbInit_foreign h₀⟩
      exact finishLoad_safe E hleak ⟨hload.1, mem_set_foreign htmps.2 hload.2⟩
    split
    · cases Dec.le 2 (buf.drop 8) with
      | none => exact hfail
      | some r => exact finishLoad_safe E hleak (loadSegments_safe E _ _ _ _ _ htmps)
    · exact hfail

end Keeping

theorem loadMem_safe (E : Env) (h : ObjHeap) (d : HeapDb) (buf : Bytes)
    (hrc : (loadMem E h d buf).1 ≠ 0) :
    (loadMem E h d buf).2.2 = d ∧ Heap.Keeps h (loadMem E h d buf).2.1 := by
  have hkeeps := Heap.Keeps.refl h
  unfold loadMem at hrc ⊢
  split
  · rename_i hmagic
    rw [if_pos hmagic] at hrc
    have hload := loadInto_safe E (buf.drop 8).length none h heapDbInit (buf.drop 8)
      ⟨hkeeps, heapDbInit_foreign h⟩
    generalize loadInto E (buf.drop 8).length none h heapDbInit (buf.drop 8) = r at hload hrc ⊢
    obtain ⟨s, rest⟩ := r
    rcases rest with _ | _ | ⟨b, bs⟩
    · exact ⟨rfl, destroyDb_keeps E hload.1 hload.2⟩
    · exact absurd rfl hrc
    · exact ⟨rfl, destroyDb_keeps E hload.1 hload.2⟩
  · exact ⟨rfl, hkeeps⟩

/-- Whatever the input, the allocator and the order tables are walked in: a load that
returns -1 has left every target as it was, and every object that was allocated
before is still there with its contents. -/
theorem snapshot_load_all_or_nothing (E : Env) (h : ObjHeap) (buf : Bytes) :
    (∀ d, (loadMem E h d buf).1 = -1 →
      (loadMem E h d buf).2.2 = d ∧ Heap.Keeps h (loadMem E h d buf).2.1) ∧
    ∀ targets, (snapshotLoadMemMulti E h targets buf).1 = -1 →
      (snapshotLoadMemMulti E h targets buf).2.2 = targets ∧
        Heap.Keeps h (snapshotLoadMemMulti E h targets buf).2.1 := by
  have hne : -1 ≠ 0 := by decide
  constructor
  · intro d hrc
    exact loadMem_safe E h d buf fun hzero => hne (hrc.symm.trans hzero)
  intro targets hrc
  exact (loadMemMulti_safe E _ h targets buf (Heap.Keeps.refl h)).1
    fun hzero => hne (hrc.symm.trans hzero)

/-- Tables walked in the order of their lists, addresses handed out in sequence. -/
def plainEnv : Env where
  sizes := noSizes
  limits := smallLimits
  alloc := Heap.bump Obj
  each := ⟨fun l => l, fun l => List.Perm.refl l⟩
  now := 7

def listShard : Bytes :=
  multiMagic ++ [1, 0, 0, 0, 1, 0, 0, 0, 2, 1, 0, 0, 0, 107, 255, 255, 255, 255, 255, 255, 255, 255,
    1, 0, 0, 0, 1, 0, 0, 0, 97]

def listTarget : HeapDb := ⟨⟨[([120], .ptr 1)], by decide⟩, Unique.empty _, 0, 0⟩

/-- Two shards are announced and one is there: the list that was merged from it is
released a second time, the one of the target is not. -/
theorem truncatedShards_kept :
    (snapshotLoadMemMulti plainEnv [(1, .list [[98]] 0)] [some listTarget]
      (shardMagic ++ [2, 0, 39, 0, 0, 0] ++ listShard)).1 = -1 ∧
    (snapshotLoadMemMulti plainEnv [(1, .list [[98]] 0)] [some listTarget]
      (shardMagic ++ [2, 0, 39, 0, 0, 0] ++ listShard)).2.2 = [some listTarget] ∧
    Heap.Keeps [(1, .list [[98]] 0)]
      (snapshotLoadMemMulti plainEnv [(1, .list [[98]] 0)] [some listTarget]
        (shardMagic ++ [2, 0, 39, 0, 0, 0] ++ listShard)).2.1 := by
  have hrc : (snapshotLoadMemMulti plainEnv [(1, .list [[98]] 0)] [some listTarget]
      (shardMagic ++ [2, 0, 39, 0, 0, 0] ++ listShard)).1 = -1 := by decide
  exact ⟨hrc, (snapshot_load_all_or_nothing plainEnv _ _).2 _ hrc⟩

end Ddup.Snapshot
