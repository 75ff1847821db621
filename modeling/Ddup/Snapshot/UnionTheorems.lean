/-
Ddup.Snapshot.UnionTheorems — what the targets show after shards were merged into them,
against what the shards showed.
-/
import Ddup.Snapshot.MergeTheorems

namespace Ddup.Snapshot

open Ddup.Lib Ddup.Store

/-! ## What the targets show -/

section Shown

variable {t : Option Nat} {v : Obj}

def blobView (h : ObjHeap) : Blob → Option View
  | .str b => some (.str b)
  | .ptr a => (h.get a).map view
  | .tier _ _ => some .cold

def shownIn (h : ObjHeap) (d : HeapDb) (k : Bytes) : Option (Option View × Option Nat) :=
  (d.table.get? k).map fun x => (blobView h x.2, (d.expires.get? k).map Prod.snd)

variable {h : ObjHeap} {hd : HeapDb} {k : Bytes}

theorem shownIn_of_absent (hentry : (hd.entry k).1 = none) : shownIn h hd k = none := by
  simp only [HeapDb.entry, Option.map_eq_none_iff] at hentry
  simp [shownIn, hentry]

theorem shownIn_of_string {b : Bytes} (hentry : hd.entry k = (some (some b), t)) :
    shownIn h hd k = some (some (.str b), t) := by
  simp only [HeapDb.entry, Prod.mk.injEq, Option.map_eq_some_iff] at hentry
  obtain ⟨⟨⟨k', blob⟩, hget, hb⟩, hexp⟩ := hentry
  cases blob with
  | str b' =>
    cases hb
    simp [shownIn, hget, hexp, blobView]
  | ptr a | tier rid expire => cases hb

/-- A collection whose object was released shows nothing it held. -/
theorem shownIn_of_collection {w : View} (hentry : hd.entry k = (some none, t))
    (hlost : ∀ a, hd.Points a → h.get a = none) (hw : w ≠ .cold) :
    shownIn h hd k ≠ some (some w, t) := by
  simp only [HeapDb.entry, Prod.mk.injEq, Option.map_eq_some_iff] at hentry
  obtain ⟨⟨⟨k', blob⟩, hget, hb⟩, hexp⟩ := hentry
  cases blob with
  | str b' => cases hb
  | ptr a =>
    have hnone := hlost a ⟨_, (Unique.get?_eq_some.mp hget).1, rfl⟩
    simp [shownIn, hget, blobView, hnone]
  | tier rid expire =>
    intro heq
    simp only [shownIn, hget, blobView, Option.map_some, Option.some.injEq, Prod.mk.injEq] at heq
    exact hw heq.1.symm

theorem view_of_string {b : Bytes} (hv : objString? v = some b) : view v = .str b := by
  cases v with
  | str b' =>
    cases hv
    rfl
  | list items mem | boxed c mem | tier rid expire => cases hv

theorem view_ne_cold (hv : Loadable v) : view v ≠ .cold := by
  cases v with
  | str b | list items mem => simp [view]
  | boxed c mem => cases c <;> simp [view]
  | tier rid expire => exact hv.elim

/-- What a database shows at an instant, in the terms of `shownIn`. -/
def shownThen (now : Nat) (d : Db) (k : Bytes) : Option (Option View × Option Nat) :=
  (shownAt now d k).map fun x => (some x.1, x.2)

theorem shownIn_iff_string (hentry : hd.entry k = (some (objString? v), t)) (hload : Loadable v)
    (hlost : ∀ a, hd.Points a → h.get a = none) :
    shownIn h hd k = some (some (view v), t) ↔ (objString? v).isSome := by
  cases hv : objString? v with
  | none =>
    rw [hv] at hentry
    simp [shownIn_of_collection hentry hlost (view_ne_cold hload)]
  | some b =>
    rw [hv] at hentry
    simp [shownIn_of_string hentry, view_of_string hv]

/-- Per key: the merged entry shows what the saved one did just if the expiry is in
range and a value that has not expired is a string. -/
theorem merged_shown_iff {now : Nat} {d : Db} (hlookup : d.table.lookup k = some v)
    (hload : Loadable v) (hentry : hd.entry k = loadedEntry now d k)
    (hlost : ∀ a, hd.Points a → h.get a = none) :
    shownIn h hd k = shownThen now d k ↔
      (∀ t, d.expires.lookup k = some t → t ≤ int64Max) ∧
        ((d.live now k).isSome → (objString? v).isSome) := by
  simp only [loadedEntry, hlookup] at hentry
  cases ht : d.expires.lookup k with
  | none =>
    have hlive : d.live now k = some (v, none) := by simp [Db.live, Db.entry, hlookup, ht, liveEntry]
    have hstring : hd.entry k = (some (objString? v), none) := by
      simpa [savedEntry, ht, Entry.dead, Entry.timed, Entry.expiry, noExpire] using hentry
    simp [shownThen, shownAt, hlive, shownIn_iff_string hstring hload hlost]
  | some t =>
    by_cases hrange : t ≤ int64Max
    · have htimed : t < 9223372036854775808 := by unfold int64Max at hrange; omega
      by_cases hlt : now < t
      · have hlive : d.live now k = some (v, some t) := by
          simp [Db.live, Db.entry, hlookup, ht, liveEntry, hlt]
        have halive : ¬ t ≤ now := Nat.not_le.mpr hlt
        have hstring : hd.entry k = (some (objString? v), some t) := by
          simpa [savedEntry, ht, Entry.dead, Entry.timed, Entry.expiry, htimed, halive] using hentry
        simp [shownThen, shownAt, hlive, hrange, shownIn_iff_string hstring hload hlost]
      have hlive : d.live now k = none := by simp [Db.live, Db.entry, hlookup, ht, liveEntry, hlt]
      have hdead : t ≤ now := Nat.not_lt.mp hlt
      have hgone : hd.entry k = (none, none) := by
        simpa [savedEntry, ht, Entry.dead, Entry.timed, htimed, hdead] using hentry
      have habsent : (hd.entry k).1 = none := by rw [hgone]
      simp [shownThen, shownAt, hlive, hrange, shownIn_of_absent habsent]
    · -- a number that reads as negative: the key is loaded without an expiry
      have htimed : ¬ t < 9223372036854775808 := by unfold int64Max at hrange; omega
      have hkept : hd.entry k = (some (objString? v), none) := by
        simpa [savedEntry, ht, Entry.dead, Entry.timed, Entry.expiry, htimed] using hentry
      have hne : shownIn h hd k ≠ shownThen now d k := by
        simp only [HeapDb.entry, Prod.mk.injEq, Option.map_eq_some_iff] at hkept
        obtain ⟨⟨x, hget, -⟩, hexp⟩ := hkept
        simp only [shownIn, hget, hexp, shownThen, shownAt, Db.live, Db.entry, hlookup, ht,
          liveEntry]
        split <;> simp
      simp [hne, hrange]

end Shown

/-! ## Families of shards -/

section Family

variable {now : Nat} {k : Bytes} {d : Db} {shards : List (List Saved)}

def DisjointKeys (d e : Db) : Prop := ∀ k, k ∈ d.table → k ∉ e.table

instance : Std.Symm DisjointKeys where
  symm _ _ hde k he hd := hde k hd he

/-- No two shards have a key in the databases of one index. -/
def DisjointShards (shards : List (List Saved)) : Prop :=
  ∀ j, (column shards j).Pairwise DisjointKeys

theorem loadedEntry_of_absent (hk : k ∉ d.table) : loadedEntry now d k = (none, none) := by
  rw [loadedEntry, Finmap.lookup_eq_none.mpr hk]

theorem overlay_loadedEntry (d : Db) : overlay (none, none) (loadedEntry now d k)
    = loadedEntry now d k := by
  unfold overlay loadedEntry
  cases d.table.lookup k with
  | none => rfl
  | some v =>
    dsimp only
    split <;> simp

theorem union_absent : ∀ {ds : List Db} (init : Option (Option Bytes) × Option Nat),
    (∀ d ∈ ds, k ∉ d.table) → (ds.map fun d => loadedEntry now d k).foldl overlay init = init
  | [], _, _ => rfl
  | d :: ds, init, h => by
    rw [List.map_cons, loadedEntry_of_absent (h d (List.mem_cons_self ..))]
    exact union_absent init fun e he => h e (List.mem_cons_of_mem _ he)

/-- The one database that has a key decides what the union has. -/
theorem union_owner : ∀ {ds : List Db} {d : Db},
    ds.Pairwise DisjointKeys → d ∈ ds → k ∈ d.table →
    (ds.map fun d => loadedEntry now d k).foldl overlay (none, none) = loadedEntry now d k
  | e :: ds, d, hpair, hd, hk => by
    rw [List.pairwise_cons] at hpair
    rw [List.map_cons, List.foldl_cons]
    rcases List.mem_cons.mp hd with rfl | hd
    · rw [union_absent _ fun e he => hpair.1 e he k hk, overlay_loadedEntry]
    have habsent : k ∉ e.table := fun he => hpair.1 d hd k he hk
    rw [loadedEntry_of_absent habsent]
    exact union_owner hpair.2 hd hk

theorem shownThen_of_absent (hk : k ∉ d.table) : shownThen now d k = none := by
  have hlookup := Finmap.lookup_eq_none.mpr hk
  simp [shownThen, shownAt, Db.live, Db.entry, hlookup, liveEntry]

/-- Loading what `snapshot_serialize_multi_shards` wrote: some value does not load, or
the targets are the union of the shards and all their pointers dangle. -/
theorem snapshotLoadMemMulti_shards (E : Env) (h : ObjHeap) {targets : List HeapDb} {bs : Bytes}
    (hsave : serializeMultiShards shards = some bs) (hsized : ShardsSized targets.length shards)
    (hne : targets ≠ []) :
    (¬ ShardsLoadable shards → (snapshotLoadMemMulti E h (targets.map some) bs).1 = -1) ∧
    (ShardsLoadable shards →
      ∃ h' new, snapshotLoadMemMulti E h (targets.map some) bs = (0, h', new.map some) ∧
        new.length = targets.length ∧ UnionOf E.now shards new ∧
        ∀ a, PointsAny new a → h'.get a = none) := by
  unfold serializeMultiShards at hsave
  split at hsave
  · cases hsave
  rename_i hmax
  simp only [Option.bind_eq_bind, Option.bind_eq_some_iff, Option.pure_def,
    Option.some.injEq] at hsave
  obtain ⟨bytes, hbytes, rfl⟩ := hsave
  have hcount : shards.length < 256 ^ 2 := by
    unfold uint16Max at hmax
    omega
  have hread : Dec.le 2 (leBytes 2 shards.length ++ bytes) = some (shards.length, bytes) :=
    Reads.le hcount bytes
  have hmagic : shardMagic.length = 8 := by decide
  have htake : (shardMagic ++ (leBytes 2 shards.length ++ bytes)).take 8 = shardMagic :=
    List.take_left' hmagic
  have hdrop : (shardMagic ++ (leBytes 2 shards.length ++ bytes)).drop 8
      = leBytes 2 shards.length ++ bytes := List.drop_left' hmagic
  have hstart : ¬ (targets.map some = [] ∨
      (shardMagic ++ (leBytes 2 shards.length ++ bytes)).length < 8) := by
    simp [hmagic, hne]
  let tmps := List.replicate targets.length heapDbInit
  -- a byte of the magic is fuel for the nested loads
  obtain ⟨fuel, hfuel⟩ : ∃ n, (shardMagic ++ leBytes 2 shards.length ++ bytes).length = n + 1 :=
    ⟨7 + (leBytes 2 shards.length ++ bytes).length, by simp; omega⟩
  have hload : snapshotLoadMemMulti E h (targets.map some)
        (shardMagic ++ leBytes 2 shards.length ++ bytes)
      = finishLoad E (targets.map some) (destroyDbs E)
        (loadShards E (loadMemMulti E (fuel + 1)) shards.length h tmps bytes) := by
    rw [snapshotLoadMemMulti, hfuel, List.append_assoc, loadMemMulti]
    simp only [hstart, if_false, htake, hdrop, hread, if_true, List.length_map, tmps]
  have hlen : tmps.length = targets.length := List.length_replicate
  have hne' : tmps ≠ [] := by
    intro hnil
    rw [hnil] at hlen
    exact hne (List.length_eq_zero_iff.mp hlen.symm)
  have hinit : UnionOf E.now [] tmps := by
    intro j hd hj
    rw [List.eq_of_mem_replicate (List.mem_of_getElem? hj)]
    exact ⟨fun _ => rfl, heapDbInit_fits⟩
  obtain ⟨hno, hyes⟩ := loadShards_written E fuel hbytes (hlen ▸ hsized) hne'
    (Heap.Within.refl h) hinit
  have hsafe : SafeAll h (loadShards E (loadMemMulti E (fuel + 1)) shards.length h tmps bytes).1 := by
    refine loadShards_safe E (fun h' targets' buf hk => loadMemMulti_safe E _ h' targets' buf hk)
      shards.length h tmps bytes ⟨Heap.Keeps.refl h, fun d hd => ?_⟩
    rw [List.eq_of_mem_replicate hd]
    exact heapDbInit_foreign h
  rw [hload]
  refine ⟨fun hbad => finishLoad_failed E _ _ (hno hbad), fun hgood => ?_⟩
  obtain ⟨h', tmps', hrun, hlen', hu, hwithin⟩ := hyes hgood
  have hlens : targets.length = tmps'.length := (hlen'.trans hlen).symm
  rw [hrun] at hsafe
  rw [hrun, finishLoad_done]
  have htables := swapAll_forall₂ (R := fun x hd : HeapDb => hd.table = x.table ∧ hd.expires = x.expires)
    (fun _ _ _ hsame => hsame) E (h := h') hlens (List.forall₂_same.mpr fun _ _ => ⟨rfl, rfl⟩)
  refine ⟨_, _, rfl, htables.length_eq.symm.trans (hlen'.trans hlen), fun j hd hj => ?_,
    fun a ha => ?_⟩
  · obtain ⟨tmp, htmp, htable, hexp⟩ := forall₂_getElem? htables hj
    obtain ⟨hentry, hfits⟩ := hu j tmp htmp
    refine ⟨fun k => ?_, ?_⟩
    · rw [HeapDb.entry, htable, hexp]
      exact hentry k
    · rw [Fits, htable, hexp]
      exact hfits
  · obtain ⟨d, hd, x, hx, hptr⟩ := (swapAll_points E hlens).mp ha
    have hforeign : h.get a = none := hsafe.2 d hd x hx a hptr
    exact swapAll_within E _ _ _ a (hwithin a hforeign)

/-- What is shown under each key of each target is what some shard shows under it. -/
def ShowsUnion (now : Nat) (shards : List (List Saved)) (h : ObjHeap) (new : List HeapDb) : Prop :=
  ∀ j hd, new[j]? = some hd → ∀ k x,
    shownIn h hd k = some x ↔ ∃ d ∈ column shards j, shownThen now d k = some x

/-- Every collection a target points to is allocated, and one key points to it. -/
def ObjectsOwned (h : ObjHeap) (new : List HeapDb) : Prop :=
  ∀ a, PointsAny new a → (h.get a).isSome ∧
    ∃! p : Nat × Bytes, ∃ hd, new[p.1]? = some hd ∧ hd.table.get? p.2 = some (p.2, .ptr a)

/-- What the shards have to be like: every value loads, no expiry is past what a signed
number holds, and what has not expired is a string. -/
def StringShards (now : Nat) (shards : List (List Saved)) : Prop :=
  ∀ dbs ∈ shards, ∀ s ∈ dbs, ∀ k v, s.db.table.lookup k = some v →
    Loadable v ∧ (∀ t, s.db.expires.lookup k = some t → t ≤ int64Max) ∧
      ((s.db.live now k).isSome → (objString? v).isSome)

/-- In a union, every key shows what it should just if its owner allows it. -/
theorem union_shown_iff {h : ObjHeap} {hd : HeapDb} {ds : List Db} (hu : HoldsUnion now ds hd)
    (hpair : ds.Pairwise DisjointKeys)
    (hload : ∀ d ∈ ds, AllLoadable d) (hlost : ∀ a, hd.Points a → h.get a = none) :
    (∀ k x, shownIn h hd k = some x ↔ ∃ d ∈ ds, shownThen now d k = some x) ↔
      ∀ d ∈ ds, ∀ k v, d.table.lookup k = some v →
        (∀ t, d.expires.lookup k = some t → t ≤ int64Max) ∧
          ((d.live now k).isSome → (objString? v).isSome) := by
  -- a key of `d` is a key of no other database, so `d` alone shows it
  have hown : ∀ {d k} x, d ∈ ds → k ∈ d.table →
      ((∃ e ∈ ds, shownThen now e k = some x) ↔ shownThen now d k = some x) := by
    intro d k x hmem hk
    refine ⟨?_, fun hx => ⟨d, hmem, hx⟩⟩
    rintro ⟨e, he, hx⟩
    by_cases heq : e = d
    · exact heq ▸ hx
    have hnot := hpair.forall hmem he (Ne.symm heq) k hk
    rw [shownThen_of_absent hnot] at hx
    cases hx
  have hkey : ∀ d ∈ ds, ∀ k v, d.table.lookup k = some v →
      (shownIn h hd k = shownThen now d k ↔
        (∀ t, d.expires.lookup k = some t → t ≤ int64Max) ∧
          ((d.live now k).isSome → (objString? v).isSome)) := by
    intro d hmem k v hlookup
    have hk : k ∈ d.table := Finmap.mem_of_lookup_eq_some hlookup
    exact merged_shown_iff hlookup (hload d hmem k v hlookup)
      ((hu.1 k).trans (union_owner hpair hmem hk)) hlost
  constructor
  · intro hshown d hmem k v hlookup
    refine (hkey d hmem k v hlookup).mp (Option.ext fun x => ?_)
    exact (hshown k x).trans (hown x hmem (Finmap.mem_of_lookup_eq_some hlookup))
  intro hcond k x
  by_cases hex : ∃ d ∈ ds, k ∈ d.table
  · obtain ⟨d, hmem, hk⟩ := hex
    obtain ⟨v, hlookup⟩ := Finmap.mem_iff.mp hk
    rw [(hkey d hmem k v hlookup).mpr (hcond d hmem k v hlookup)]
    exact (hown x hmem hk).symm
  push Not at hex
  have hnone : shownIn h hd k = none := by
    apply shownIn_of_absent
    rw [hu.1 k, union_absent _ hex]
  constructor
  · intro hx
    rw [hnone] at hx
    cases hx
  · rintro ⟨d, hmem, hx⟩
    rw [shownThen_of_absent (hex d hmem)] at hx
    cases hx

/-- Where all pointers dangle, a target that shows the union has none. -/
theorem ShowsUnion.points_none {h : ObjHeap} {new : List HeapDb}
    (hshows : ShowsUnion now shards h new) (hlost : ∀ a, PointsAny new a → h.get a = none) (a : Nat)
    : ¬ PointsAny new a := by
  intro ha
  have hnone := hlost a ha
  obtain ⟨hd, hmem, ⟨k, blob⟩, hx, rfl⟩ := ha
  obtain ⟨j, hj⟩ := List.mem_iff_getElem?.mp hmem
  have hget : hd.table.get? k = some (k, .ptr a) := Unique.get?_eq_some.mpr ⟨hx, rfl⟩
  have hshown : shownIn h hd k = some (none, (hd.expires.get? k).map Prod.snd) := by
    simp [shownIn, hget, blobView, hnone]
  obtain ⟨d, -, hd'⟩ := (hshows j hd hj k _).mp hshown
  simp [shownThen] at hd'

theorem mem_column {j : Nat} :
    d ∈ column shards j ↔ ∃ dbs ∈ shards, ∃ s, dbs[j]? = some s ∧ s.db = d := by
  simp [column]

end Family

/-! ### One shard of one key -/

def oneShard (v : Obj) : List (List Saved) := [[⟨oneKey v, oneWalk v⟩]]

theorem oneShard_sized {v : Obj} (hv : Sized v) : ShardsSized 1 (oneShard v) := by
  intro dbs hdbs
  obtain rfl := List.mem_singleton.mp hdbs
  refine ⟨rfl, fun s hs => ?_⟩
  obtain rfl := List.mem_singleton.mp hs
  exact oneKey_sized hv

theorem oneShard_disjoint (v : Obj) : DisjointShards (oneShard v) := by
  intro j
  cases j with
  | zero => exact List.pairwise_singleton ..
  | succ j => exact List.Pairwise.nil

def stringShardBytes : Bytes :=
  shardMagic ++ [1, 0, 35, 0, 0, 0] ++ multiMagic ++ [1, 0, 0, 0, 1, 0, 0, 0, 0, 1, 0, 0, 0, 107,
    255, 255, 255, 255, 255, 255, 255, 255, 1, 0, 0, 0, 49]

end Ddup.Snapshot
