/-
Ddup.Snapshot.SegmentTheorems — what loading the segments of saved databases leaves.

The temporaries hold what `loadRound` builds, up to the contents of collections
(`Mirrors`), so what is known of one loaded database is known of each of them.
-/
import Ddup.Snapshot.ShardsTheorems

namespace Ddup.Snapshot

open Ddup.Lib Ddup.Store
open List (cons_append length_cons replicate)
open Option (map_some pure_def)

variable {b : Blob} {bs : Bytes} {fuel : Nat}

/-! ## Temporaries mirror loaded databases

What the loader of this module builds has the keys, strings and expiries of what
`loadRound` builds. -/

section Mirror

variable {d : HeapDb} {k : Bytes}

def Blob.string? : Blob → Option Bytes
  | .str b => some b
  | _ => none

def objString? : Obj → Option Bytes
  | .str b => some b
  | _ => none

/-- What a temporary holds under a key, up to the contents of collections. -/
def HeapDb.entry (d : HeapDb) (k : Bytes) : Option (Option Bytes) × Option Nat :=
  ((d.table.get? k).map fun x => x.2.string?, (d.expires.get? k).map Prod.snd)

def entryKind (x : Option Obj × Option Nat) : Option (Option Bytes) × Option Nat :=
  (x.1.map objString?, x.2)

def Mirrors (hd : HeapDb) (d : Db) : Prop := ∀ k, hd.entry k = entryKind (d.entry k)

theorem heapDbInit_mirrors : Mirrors heapDbInit dbInit := fun _ => rfl

/-- Lengths a table of the source keeps to. -/
def Fits (d : HeapDb) : Prop :=
  (∀ x ∈ d.table.items, x.1.length ≤ uint32Max ∧ x.2.vlen ≤ uint32Max) ∧
    ∀ x ∈ d.expires.items, x.1.length ≤ uint32Max

theorem heapDbInit_fits : Fits heapDbInit :=
  ⟨fun _ hx => absurd hx List.not_mem_nil, fun _ hx => absurd hx List.not_mem_nil⟩

theorem storeValue_string (al : Heap.Allocator Obj) (h : ObjHeap) (v : Obj) :
    (storeValue al h v).2.string? = objString? v ∧ (storeValue al h v).2.vlen = v.vlen := by
  cases v <;> exact ⟨rfl, rfl⟩

/-- A blob that fits is installed: it and no expiry under its key, the rest as it was. -/
theorem installBlob_entry (h : ObjHeap) (hfits : Fits d) (hk : k.length ≤ uint32Max)
    (hb : b.vlen ≤ uint32Max) :
    ∃ h' d', installBlob h d k b = some (h', d') ∧ Fits d' ∧
      d'.table = d.table.put (k, b) ∧ d'.expires = d.expires.erase k := by
  have hfits' : ∀ u, Fits { d with
      table := d.table.put (k, b), expires := d.expires.erase k, usedMemory := u } := by
    intro u
    refine ⟨fun x hx => ?_, fun x hx => hfits.2 x (List.mem_of_mem_filter hx)⟩
    rcases Unique.mem_put hx with rfl | hold
    · exact ⟨hk, hb⟩
    · exact hfits.1 x hold
  unfold installBlob
  rw [if_pos ⟨hk, hb⟩]
  cases d.table.get? k with
  | none | some x => exact ⟨_, _, rfl, hfits' _, rfl, rfl⟩

theorem entry_of_put {d' : HeapDb} (htable : d'.table = d.table.put (k, b))
    (hexp : d'.expires = d.expires.erase k) (k' : Bytes) :
    d'.entry k' = if k' = k then (some b.string?, none) else d.entry k' := by
  unfold HeapDb.entry
  rw [htable, hexp]
  by_cases hk : k' = k
  · subst hk
    rw [Unique.get?_erase_self]
    have hself := Unique.get?_put_self d.table (k', b)
    simp [hself]
  · have hne := Unique.get?_put_ne (u := d.table) (a := (k, b)) hk
    rw [if_neg hk, Unique.get?_erase_ne hk, hne]

theorem installExpiry_entry (t : Nat) (hfits : Fits d) (hk : k.length ≤ uint32Max) :
    ∃ d', installExpiry d k t = some d' ∧ Fits d' ∧ d'.table = d.table ∧
      ∀ k', d'.entry k' = if k' = k then ((d.entry k).1, some t) else d.entry k' := by
  refine ⟨_, if_pos hk, ⟨hfits.1, fun x hx => ?_⟩, rfl, fun k' => ?_⟩
  · rcases Unique.mem_put hx with rfl | hold
    · exact hk
    · exact hfits.2 x hold
  unfold HeapDb.entry
  by_cases hk' : k' = k
  · subst hk'
    have hself := Unique.get?_put_self d.expires (k', t)
    simp [hself]
  · have hne := Unique.get?_put_ne (u := d.expires) (a := (k, t)) hk'
    simp [hk', hne]

/-- A round of the loader does to a temporary what it does to a database. -/
theorem installInto_mirrors {E : Env} {hd : HeapDb} {d : Db} (h : ObjHeap) (e : Entry)
    (hm : Mirrors hd d) (hfits : Fits hd) :
    (installEntry E.now d e = none → (installInto E h hd e).2 = false) ∧
      ∀ d', installEntry E.now d e = some d' →
        ∃ s, installInto E h hd e = (s, true) ∧ Mirrors s.2 d' ∧ Fits s.2 := by
  obtain ⟨hstring, hvlen⟩ := storeValue_string E.alloc h e.value
  cases hdead : e.dead E.now with
  | true =>
    have hinst : installEntry E.now d e = some d := by rw [installEntry, if_pos hdead]
    have hinto : installInto E h hd e = ((h, hd), true) := by rw [installInto, if_pos hdead]
    rw [hinst, hinto]
    refine ⟨fun hno => (by cases hno), fun d' hd' => ?_⟩
    cases hd'
    exact ⟨_, rfl, hm, hfits⟩
  | false =>
    by_cases hstore : storable e.key e.value = true
    · obtain ⟨tmp', hinst, hentry, hframe⟩ := installEntry_alive d hdead hstore
      refine ⟨fun hno => absurd (hinst.symm.trans hno) (by simp), fun d' hd' => ?_⟩
      cases hinst.symm.trans hd'
      simp only [storable, Bool.and_eq_true, decide_eq_true_eq] at hstore
      obtain ⟨h₁, d₁, hblob, hfits₁, htable₁, hexp₁⟩ := installBlob_entry
        (storeValue E.alloc h e.value).1 hfits hstore.1 (hvlen ▸ hstore.2)
      have hentry₁ := entry_of_put htable₁ hexp₁
      unfold installInto
      simp only [hdead, hblob]
      cases htimed : e.timed with
      | false =>
        refine ⟨(h₁, d₁), rfl, fun k => ?_, hfits₁⟩
        rw [hentry₁ k]
        split
        · rename_i hk
          rw [hk, hentry, hstring]
          simp [entryKind, Entry.expiry, htimed]
        · rename_i hk
          rw [hframe k hk]
          exact hm k
      | true =>
        obtain ⟨d₂, hexpiry, hfits₂, -, hentry₂⟩ :=
          installExpiry_entry e.expire hfits₁ hstore.1
        refine ⟨(h₁, d₂), by simp [hexpiry], fun k => ?_, hfits₂⟩
        rw [hentry₂ k]
        split
        · rename_i hk
          rw [hk, hentry, hentry₁ e.key, hstring]
          simp [entryKind, Entry.expiry, htimed]
        · rename_i hk
          rw [hentry₁ k, if_neg hk, hframe k hk]
          exact hm k
    · have hinst : installEntry E.now d e = none := by
        rw [installEntry, hdead]
        simp [hstore]
      refine ⟨fun _ => ?_, fun d' hd' => absurd (hinst.symm.trans hd') (by simp)⟩
      have hblob : installBlob (storeValue E.alloc h e.value).1 hd e.key
          (storeValue E.alloc h e.value).2 = none := by
        refine if_neg fun hok => hstore ?_
        rw [hvlen] at hok
        simp [storable, hok]
      unfold installInto
      simp [hdead, hblob]

/-- What a counted run of `load_entries` over saved entries needs of them. -/
def SavedBounds (expires : KeyTable Nat) (x : Bytes × Obj) : Prop :=
  EntryBounds x ∧ ∀ t, expires.lookup x.1 = some t → t < 256 ^ 8

/-- The loader takes the entries off the front of its input and fails, or mirrors what
the rounds build. -/
theorem loadInto_written (E : Env) {expires : KeyTable Nat} (rest : Bytes) :
    ∀ {xs} {bs} {fuel} {h} {hd} {d},
      writeAll (saveEntry expires) xs = some bs → (∀ x ∈ xs, SavedBounds expires x) →
      (bs ++ rest).length ≤ fuel → Mirrors hd d → Fits hd →
      (xs.foldlM (loadRound E.sizes E.limits E.now expires) d = none →
        (loadInto E fuel (some xs.length) h hd (bs ++ rest)).2 = none) ∧
      ∀ d', xs.foldlM (loadRound E.sizes E.limits E.now expires) d = some d' →
        ∃ s, loadInto E fuel (some xs.length) h hd (bs ++ rest) = (s, some rest) ∧
          Mirrors s.2 d' ∧ Fits s.2
  | [], bs, fuel, h, hd, d, hw, _, _, hm, hfits => by
    cases hw
    refine ⟨fun hno => absurd hno (by simp), fun d' hd' => ?_⟩
    cases hd'
    refine ⟨(h, hd), ?_, hm, hfits⟩
    simp [loadInto]
  | x :: xs, bs, fuel, h, hd, d, hw, hx, hfuel, hm, hfits => by
    simp only [writeAll, Option.bind_eq_bind, Option.bind_eq_some_iff, pure_def,
      Option.some.injEq] at hw
    obtain ⟨b, hb, bs', hbs', rfl⟩ := hw
    obtain ⟨⟨hsized, hshort⟩, hexp⟩ := hx x (List.mem_cons_self ..)
    obtain ⟨hne, hyields⟩ := saveEntry_yields E.sizes E.limits hb hsized hexp
    obtain ⟨c, cs, rfl⟩ := List.exists_cons_of_ne_nil hne
    -- the byte `c` pays for the round
    obtain ⟨fuel, rfl⟩ : ∃ n, fuel = n + 1 :=
      ⟨fuel - 1, by simp only [cons_append, length_cons] at hfuel; omega⟩
    have hfuel' : (bs' ++ rest).length ≤ fuel := by
      simp only [length_cons, List.length_append] at hfuel ⊢
      omega
    have hread := hyields (bs' ++ rest)
    rw [cons_append, ← List.append_assoc] at hread
    rw [List.foldlM_cons, cons_append, cons_append, loadInto, hread]
    swap
    · simp
    cases hv : reload E.sizes E.limits x.2 with
    | none =>
      refine ⟨fun _ => rfl, fun d' hd' => ?_⟩
      simp [loadRound, hv] at hd'
    | some v =>
      obtain ⟨hno, hyes⟩ := installInto_mirrors h (savedEntry expires x.1 v) hm hfits
      have hround : loadRound E.sizes E.limits E.now expires d x
          = installEntry E.now d (savedEntry expires x.1 v) := by
        simp [loadRound, hv]
      rw [hround]
      simp only [map_some]
      cases hinst : installEntry E.now d (savedEntry expires x.1 v) with
      | none =>
        have hfail := hno hinst
        simp only [savedEntry] at hfail
        refine ⟨fun _ => ?_, fun d' hd' => by cases hd'⟩
        generalize installInto E h hd _ = r at hfail ⊢
        obtain ⟨s, ok⟩ := r
        cases hfail
        rfl
      | some d₁ =>
        obtain ⟨s, hs, hm₁, hfits₁⟩ := hyes d₁ hinst
        simp only [savedEntry] at hs
        rw [hs]
        exact loadInto_written E rest hbs'
          (fun y hy => hx y (List.mem_cons_of_mem _ hy)) hfuel' hm₁ hfits₁

end Mirror

/-! ## Temporaries hold what was saved -/

section Saved

variable {s : Saved}

/-- What a saved database leaves under a key of a temporary, up to the contents of
collections. -/
def loadedEntry (now : Nat) (d : Db) (k : Bytes) : Option (Option Bytes) × Option Nat :=
  match d.table.lookup k with
  | none => (none, none)
  | some v =>
    if (savedEntry d.expires k v).dead now then (none, none)
    else (some (objString? v), (savedEntry d.expires k v).expiry)

/-- A temporary holds a saved database. -/
def HoldsLoaded (now : Nat) (d : Db) (hd : HeapDb) : Prop :=
  (∀ k, hd.entry k = loadedEntry now d k) ∧ Fits hd

def AllLoadable (d : Db) : Prop := ∀ k v, d.table.lookup k = some v → Loadable v

theorem reload_string {sz : ObjMem} {lim : Limits} {v v' : Obj} (h : reload sz lim v = some v') :
    objString? v' = objString? v := by
  cases v with
  | str b =>
    cases h
    rfl
  | list xs n =>
    cases h
    rfl
  | boxed c n =>
    -- every collection is rebuilt as a collection
    cases c <;>
    · simp only [reload, Option.map_eq_some_iff] at h
      obtain ⟨c', -, rfl⟩ := h
      rfl
  | tier rid expire => cases h

theorem rounds_loadedEntry (sz : ObjMem) (lim : Limits) (now : Nat) {tmp : Db}
    (hsized : DbSized s.db)
    (hrun : s.walk.entries.items.foldlM (loadRound sz lim now s.db.expires) dbInit = some tmp)
    (k : Bytes) : entryKind (tmp.entry k) = loadedEntry now s.db k := by
  have hbounds := walk_bounds hsized s.walk
  unfold loadedEntry
  cases hlookup : s.db.table.lookup k with
  | none =>
    have hnot : k ∉ s.walk.entries.items.map Prod.fst := by
      intro hmem
      obtain ⟨x, hx, rfl⟩ := List.mem_map.mp hmem
      rw [(s.walk.mem x.1 x.2).mp hx] at hlookup
      cases hlookup
    rw [loadRounds_frame sz lim now s.db.expires hbounds hrun k hnot]
    rfl
  | some v =>
    have hmem := (s.walk.mem k v).mpr hlookup
    obtain ⟨v', hv', hentry⟩ := loadRounds_entry sz lim now s.db.expires hbounds
      s.walk.entries.nodup hrun (k, v) hmem
    rw [hentry]
    have hstring := reload_string hv'
    -- whether the entry is dead, and its expiry, do not depend on the value
    change entryKind (if (savedEntry s.db.expires k v).dead now then _
      else (some v', (savedEntry s.db.expires k v).expiry)) = _
    dsimp only
    split
    · rfl
    · simp [entryKind, hstring]

theorem rounds_isSome_iff (sz : ObjMem) (lim : Limits) (now : Nat) (hsized : DbSized s.db) :
    (s.walk.entries.items.foldlM (loadRound sz lim now s.db.expires) dbInit).isSome ↔
      AllLoadable s.db := by
  rw [loadRounds_isSome sz lim now s.db.expires dbInit (walk_bounds hsized s.walk)]
  exact ⟨fun h k v hlookup => h (k, v) ((s.walk.mem k v).mpr hlookup),
    fun h x hx => h x.1 x.2 ((s.walk.mem x.1 x.2).mp hx)⟩

theorem loadInto_saved (E : Env) (h : ObjHeap) (rest : Bytes)
    (hsized : DbSized s.db) (hw : writeAll (saveEntry s.db.expires) s.walk.entries.items = some bs)
    (hfuel : (bs ++ rest).length ≤ fuel) :
    (¬ AllLoadable s.db →
      (loadInto E fuel (some s.walk.entries.items.length) h heapDbInit (bs ++ rest)).2 = none) ∧
    (AllLoadable s.db →
      ∃ st, loadInto E fuel (some s.walk.entries.items.length) h heapDbInit (bs ++ rest)
          = (st, some rest) ∧ HoldsLoaded E.now s.db st.2) := by
  have hbounds : ∀ x ∈ s.walk.entries.items, SavedBounds s.db.expires x := fun x hx =>
    ⟨walk_bounds hsized s.walk x hx, hsized.expiries x.1⟩
  obtain ⟨hno, hyes⟩ := loadInto_written E rest hw hbounds hfuel heapDbInit_mirrors
    heapDbInit_fits
  have hiff := rounds_isSome_iff E.sizes E.limits E.now hsized
  refine ⟨fun hbad => hno ?_, fun hall => ?_⟩
  · rw [← hiff] at hbad
    exact Option.not_isSome_iff_eq_none.mp hbad
  obtain ⟨tmp, htmp⟩ := Option.isSome_iff_exists.mp (hiff.mpr hall)
  obtain ⟨st, hst, hmirrors, hfits⟩ := hyes tmp htmp
  refine ⟨st, hst, fun k => ?_, hfits⟩
  rw [hmirrors k, rounds_loadedEntry E.sizes E.limits E.now hsized htmp k]

end Saved

/-! ## Segments -/

section Segments

variable {s : Saved}

/-- A database that is not empty is written as a header and its entries. -/
theorem serializeDb_cases {i : Nat} (hi : i ≤ uint16Max) (h : serializeDb (s, i) = some bs) :
    (s.walk.entries.items = [] ∧ bs = []) ∨
      ∃ b header entries, bs = b :: header ++ entries ∧
        Reads readSegment (b :: header) (i, s.walk.entries.items.length) ∧
        writeAll (saveEntry s.db.expires) s.walk.entries.items = some entries := by
  unfold serializeDb at h
  split at h
  · rename_i hnil
    cases h
    exact .inl ⟨hnil, rfl⟩
  simp only [Option.bind_eq_bind, Option.bind_eq_some_iff, pure_def, Option.some.injEq] at h
  obtain ⟨n, hn, entries, hentries, rfl⟩ := h
  have hidx : i < 256 ^ 2 := by
    unfold uint16Max at hi
    omega
  have hread : Reads readSegment (leBytes 2 i ++ n) (i, s.walk.entries.items.length) :=
    (Reads.le hidx).bind ((writeLen_eq_some hn).bind_nil (Reads.pure _))
  exact .inr ⟨UInt8.ofNat i, leBytes 1 (i / 256) ++ n, entries, rfl, hread, hentries⟩

theorem heapDbInit_holds (now : Nat) (hnil : s.walk.entries.items = []) :
    HoldsLoaded now s.db heapDbInit ∧ AllLoadable s.db := by
  have hnone : ∀ k v, s.db.table.lookup k ≠ some v := by
    intro k v hlookup
    have hmem := (s.walk.mem k v).mpr hlookup
    rw [hnil] at hmem
    cases hmem
  refine ⟨⟨fun k => ?_, heapDbInit_fits⟩, fun k v hlookup => absurd hlookup (hnone k v)⟩
  unfold loadedEntry
  cases hlookup : s.db.table.lookup k with
  | none => rfl
  | some v => exact absurd hlookup (hnone k v)

/-- The segment of one database: the load fails, or goes on after it with the database
in its temporary. -/
theorem loadSegments_head (E : Env) {seg rest : Bytes} {segs : List Nat} {done : List HeapDb}
    (more : List HeapDb) (h : ObjHeap) (hseg : serializeDb (s, done.length) = some seg)
    (hmax : done.length ≤ uint16Max) (hsegs : ∀ j ∈ segs, j < done.length)
    (hfuel : (seg ++ rest).length ≤ fuel) (hsized : DbSized s.db) :
    (¬ AllLoadable s.db →
      (loadSegments E fuel segs h (done ++ heapDbInit :: more) (seg ++ rest)).2 = none) ∧
    (AllLoadable s.db → ∃ fuel' segs' h' hd,
      loadSegments E fuel segs h (done ++ heapDbInit :: more) (seg ++ rest)
        = loadSegments E fuel' segs' h' (done ++ hd :: more) rest ∧
      HoldsLoaded E.now s.db hd ∧ rest.length ≤ fuel' ∧ ∀ j ∈ segs', j < done.length + 1) := by
  rcases serializeDb_cases hmax hseg with
    ⟨hnil, rfl⟩ | ⟨b, header, entries, rfl, hread, hentries⟩
  · -- no segment: the temporary stays new
    obtain ⟨hholds, hall⟩ := heapDbInit_holds E.now hnil
    refine ⟨fun hbad => absurd hall hbad, fun _ => ?_⟩
    exact ⟨fuel, segs, h, heapDbInit, rfl, hholds, hfuel, fun j hj => Nat.lt_succ_of_lt (hsegs j hj)⟩
  obtain ⟨fuel, rfl⟩ : ∃ n, fuel = n + 1 :=
    ⟨fuel - 1, by simp only [cons_append, length_cons] at hfuel; omega⟩
  have hfuel' : rest.length ≤ fuel := by
    simp only [length_cons, List.length_append] at hfuel
    omega
  have hreads := hread (entries ++ rest)
  rw [cons_append, ← List.append_assoc] at hreads
  have hin : ¬ (done ++ heapDbInit :: more).length ≤ done.length := by simp
  have hnew : done.length ∉ segs := fun hmem => Nat.lt_irrefl _ (hsegs _ hmem)
  have htmp : (done ++ heapDbInit :: more).getD done.length heapDbInit = heapDbInit := by simp
  obtain ⟨hno, hyes⟩ := loadInto_saved E h rest hsized hentries (Nat.le_refl _)
  rw [cons_append, cons_append, loadSegments, hreads]
  simp only [map_some, hin, hnew, if_false, htmp]
  constructor
  · intro hbad
    rw [hno hbad]
  intro hall
  obtain ⟨st, hst, hholds⟩ := hyes hall
  refine ⟨fuel, done.length :: segs, st.1, st.2, ?_, hholds, hfuel', fun j hj => ?_⟩
  · rw [hst]
    simp
  rcases List.mem_cons.mp hj with rfl | hj
  · exact Nat.lt_succ_self _
  · exact Nat.lt_succ_of_lt (hsegs j hj)

/-- The temporaries from `done` on: the load fails, or leaves the databases in them. -/
theorem loadSegments_written (E : Env) : ∀ {dbs : List Saved} {bs : Bytes} {fuel : Nat}
    {segs : List Nat} (done : List HeapDb) (h : ObjHeap),
    writeAll serializeDb (dbs.zipIdx done.length) = some bs →
    done.length + dbs.length ≤ uint16Max → (∀ j ∈ segs, j < done.length) → bs.length ≤ fuel →
    (∀ s ∈ dbs, DbSized s.db) →
    ((∃ s ∈ dbs, ¬ AllLoadable s.db) →
      (loadSegments E fuel segs h (done ++ replicate dbs.length heapDbInit) bs).2 = none) ∧
    ((∀ s ∈ dbs, AllLoadable s.db) →
      ∃ h' new, loadSegments E fuel segs h (done ++ replicate dbs.length heapDbInit) bs
          = ((h', done ++ new), some []) ∧
        List.Forall₂ (fun s hd => HoldsLoaded E.now s.db hd) dbs new)
  | [], bs, fuel, segs, done, h, hw, _, _, _, _ => by
    cases hw
    refine ⟨fun ⟨s, hs, _⟩ => absurd hs List.not_mem_nil, fun _ => ?_⟩
    exact ⟨h, [], by simp [loadSegments], .nil⟩
  | s :: dbs, bs, fuel, segs, done, h, hw, hmax, hsegs, hfuel, hsized => by
    simp only [List.zipIdx_cons, writeAll, Option.bind_eq_bind, Option.bind_eq_some_iff,
      pure_def, Option.some.injEq] at hw
    obtain ⟨seg, hseg, rest, hrest, rfl⟩ := hw
    rw [length_cons] at hmax
    obtain ⟨hno, hyes⟩ := loadSegments_head E (replicate dbs.length heapDbInit) h hseg
      (by omega) hsegs hfuel (hsized s (List.mem_cons_self ..))
    rw [length_cons, List.replicate_succ]
    by_cases hall : AllLoadable s.db
    · obtain ⟨fuel', segs', h', hd, hstep, hholds, hfuel', hsegs'⟩ := hyes hall
      have hlen : (done ++ [hd]).length = done.length + 1 := by simp
      have hassoc : done ++ hd :: replicate dbs.length heapDbInit
          = (done ++ [hd]) ++ replicate dbs.length heapDbInit := by simp
      obtain ⟨hno', hyes'⟩ := loadSegments_written E (done ++ [hd]) h' (hlen ▸ hrest)
        (by omega) (hlen ▸ hsegs') hfuel' fun s' hs' => hsized s' (List.mem_cons_of_mem _ hs')
      rw [hstep, hassoc]
      constructor
      · rintro ⟨s', hs', hbad⟩
        rcases List.mem_cons.mp hs' with rfl | hs'
        · exact absurd hall hbad
        · exact hno' ⟨s', hs', hbad⟩
      · intro hgood
        obtain ⟨h'', new, hload, hnew⟩ :=
          hyes' fun s' hs' => hgood s' (List.mem_cons_of_mem _ hs')
        exact ⟨h'', hd :: new, hload.trans (by simp), .cons hholds hnew⟩
    · exact ⟨fun _ => hno hall, fun hgood => absurd (hgood s (List.mem_cons_self ..)) hall⟩

end Segments

end Ddup.Snapshot
