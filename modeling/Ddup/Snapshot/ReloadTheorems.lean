/-
Ddup.Snapshot.ReloadTheorems — which values the loader builds anew as they were.

`reload` runs the constructors over what was written. Sets and sorted sets come
back as they are, a stream if its ids increase, an array up to its length. A hash
that is still a listpack searches its values along with its fields, so a pair whose
field occurs as an earlier value overwrites instead of being added: `LoadsClean`
says that this does not happen.
-/
import Ddup.Snapshot.CodecTheorems

namespace Ddup.Snapshot

open Ddup.Lib Ddup.Store
open List (foldlM_cons mem_cons_of_mem mem_cons_self)
open Option (map_some)
open Prod (fst)

/-! ## Hashes -/

section Hash

variable {lim : Limits} {pre : List (Bytes × Bytes)} {p : Bytes × Bytes} {f v : Bytes} {h : HashObj}

/-- The search of a listpack fails only for bytes that are neither a field nor a
value. -/
theorem replaceNext_eq_none : ∀ {l},
    replaceNext f v l = none ↔ f ∉ l.map fst ∧ f ∉ l.map Prod.snd
  | [] => by simp [replaceNext]
  | (x, y) :: rest => by
    have ih := replaceNext_eq_none (l := rest)
    unfold replaceNext
    by_cases hx : x = f
    · simp [hx]
    by_cases hy : y = f
    · cases rest <;> simp [hx, hy]
    · simp [hx, hy, ih, Ne.symm hx, Ne.symm hy]

theorem replaceNext_length : ∀ {l l'},
    replaceNext f v l = some (some l') → l'.length = l.length
  | [], _, h => by cases h
  | (x, y) :: rest, l', h => by
    unfold replaceNext at h
    by_cases hx : x = f
    · simp only [hx, if_true, Option.some.injEq] at h
      simp [← h]
    by_cases hy : y = f
    · cases rest with
      | nil => simp [hx, hy] at h
      | cons q rest =>
        simp only [hx, hy, if_false, if_true, Option.some.injEq] at h
        simp [← h]
    · simp only [hx, hy, if_false, Option.map_eq_some_iff] at h
      obtain ⟨r, hr, l₀, rfl, rfl⟩ := h
      simp [replaceNext_length hr]

theorem hashConvert_length_le (lp : Option (List (Bytes × Bytes))) :
    (hashConvert lp).items.length ≤ (lp.getD []).length := by
  have hle := Unique.foldl_put_length_le (lp.getD []) (Unique.empty fst)
  rwa [show (Unique.empty fst : Unique fst).items.length = 0 from rfl, Nat.zero_add] at hle

theorem packedSet_length_le (lim : Limits) (lp : Option (List (Bytes × Bytes))) (f v : Bytes) :
    (packedSet lim lp f v).pairs.length ≤ (lp.getD []).length + 1 := by
  unfold packedSet
  split
  · rename_i lp' hfound
    split at hfound
    · obtain ⟨l, rfl, hl⟩ := Option.bind_eq_some_iff.mp hfound
      cases lp' with
      | none => simp [HashFields.pairs]
      | some l' => simp [HashFields.pairs, replaceNext_length hl]
    · cases hfound
  · split
    · have hput := Unique.put_length_le (hashConvert lp) (f, v)
      have hconv := hashConvert_length_le lp
      simp only [HashFields.pairs]
      omega
    · cases lp <;> simp [HashFields.pairs]

/-- `obj_hash_set` of short bytes succeeds, keeps an empty expiry table empty and
adds one pair at most. -/
theorem objHashSet_short (lim : Limits) (hexp : h.expires = ∅)
    (hp : p.1.length ≤ uint32Max ∧ p.2.length ≤ uint32Max) :
    ∃ h', objHashSet lim h p.1 p.2 = some h' ∧ h'.expires = ∅ ∧
      h'.fields.pairs.length ≤ h.fields.pairs.length + 1 := by
  have hnot : ¬ (uint32Max < p.1.length ∨ uint32Max < p.2.length) := by omega
  refine ⟨_, if_neg hnot, by rw [hexp]; rfl, ?_⟩
  cases hfields : h.fields with
  | packed lp => exact packedSet_length_le lim lp p.1 p.2
  | table t => exact Unique.put_length_le t p

def Small (lim : Limits) (l : List (Bytes × Bytes)) : Prop :=
  l.length ≤ lim.hashEntries ∧ ∀ q ∈ l, lim.fits q.1 q.2 = true

/-- The pair `p` is added after the pairs `pre`: its field is new, and no value
either while the listpack is searched for it. -/
def AddsClean (lim : Limits) (pre : List (Bytes × Bytes)) (p : Bytes × Bytes) : Prop :=
  p.1 ∉ pre.map fst ∧
    (Small lim pre → lim.fits p.1 p.2 = true → p.1 ∉ pre.map Prod.snd)

/-- Every pair is added after those before it. -/
def LoadsClean (lim : Limits) : List (Bytes × Bytes) → List (Bytes × Bytes) → Prop
  | _, [] => True
  | pre, p :: rest => AddsClean lim pre p ∧ LoadsClean lim (pre ++ [p]) rest

/-- A hash that holds just the pairs `pre`, of distinct fields, in the encoding their
number and lengths call for. -/
def Loaded (lim : Limits) (pre : List (Bytes × Bytes)) (h : HashObj) : Prop :=
  h.expires = ∅ ∧ (pre.map fst).Nodup ∧
    ((h.fields = .packed (some pre) ∧ Small lim pre) ∨
      ∃ t, h.fields = .table t ∧ t.items = pre ∧ ¬ Small lim pre)

theorem small_snoc : Small lim (pre ++ [p]) ↔
    pre.length < lim.hashEntries ∧ (∀ q ∈ pre, lim.fits q.1 q.2 = true) ∧
      lim.fits p.1 p.2 = true := by
  simp only [Small, List.length_append, List.mem_append,
    List.mem_singleton]
  constructor
  · rintro ⟨hlen, hfits⟩
    exact ⟨hlen, fun q hq => hfits q (.inl hq), hfits p (.inr rfl)⟩
  · rintro ⟨hlen, hpre, hp⟩
    exact ⟨hlen, fun q hq => hq.elim (hpre q) fun heq => heq ▸ hp⟩

theorem hashConvert_items (hnodup : (pre.map fst).Nodup) : (hashConvert (some pre)).items = pre :=
  Unique.foldl_put_items pre (Unique.empty fst) hnodup

/-- The listpack half: a clean pair is added, in the encoding called for. -/
theorem packedSet_clean (hsmall : Small lim pre) (hnodup : (pre.map fst).Nodup)
    (hclean : AddsClean lim pre p) :
    (packedSet lim (some pre) p.1 p.2 = .packed (some (pre ++ [p])) ∧ Small lim (pre ++ [p])) ∨
      ∃ t, packedSet lim (some pre) p.1 p.2 = .table t ∧ t.items = pre ++ [p] ∧
        ¬ Small lim (pre ++ [p]) := by
  have hfind : (if lim.fits p.1 p.2 then (some pre).bind (replaceNext p.1 p.2) else none)
      = none := by
    by_cases hfits : lim.fits p.1 p.2 = true
    · rw [if_pos hfits]
      exact replaceNext_eq_none.mpr ⟨hclean.1, hclean.2 hsmall hfits⟩
    · rw [if_neg hfits]
  have htable : ((hashConvert (some pre)).put p).items = pre ++ [p] := by
    have hitems := hashConvert_items hnodup
    rw [Unique.put_of_new (by rw [hitems]; exact hclean.1), hitems]
  unfold packedSet
  rw [hfind]
  by_cases hconv : (!lim.fits p.1 p.2 || decide (lim.hashEntries ≤ pre.length)) = true
  · refine .inr ⟨_, if_pos hconv, htable, ?_⟩
    intro hsnoc
    obtain ⟨hlen, -, hfits⟩ := small_snoc.mp hsnoc
    simp [hfits] at hconv
    omega
  · refine .inl ⟨if_neg hconv, ?_⟩
    simp only [Bool.or_eq_true, Bool.not_eq_true', decide_eq_true_eq, not_or,
      Bool.not_eq_false, Nat.not_le] at hconv
    exact small_snoc.mpr ⟨hconv.2, hsmall.2, hconv.1⟩

theorem packedSet_unclean (hnodup : (pre.map fst).Nodup) (hclean : ¬ AddsClean lim pre p) :
    (packedSet lim (some pre) p.1 p.2).pairs.length ≤ pre.length := by
  unfold packedSet
  by_cases hfits : lim.fits p.1 p.2 = true
  · -- the search finds the field, or a value that equals it
    have hfound : replaceNext p.1 p.2 pre ≠ none := by
      intro hnone
      obtain ⟨hfst, hsnd⟩ := replaceNext_eq_none.mp hnone
      exact hclean ⟨hfst, fun _ _ => hsnd⟩
    obtain ⟨lp, hlp⟩ := Option.ne_none_iff_exists'.mp hfound
    rw [if_pos hfits, Option.bind_some, hlp]
    cases lp with
    | none => exact Nat.zero_le _
    | some l => exact (replaceNext_length hlp).le
  · -- too long for a listpack: the table has the field already
    have hmem : p.1 ∈ pre.map fst := by
      by_contra hnew
      exact hclean ⟨hnew, fun _ h => absurd h hfits⟩
    have hitems := hashConvert_items hnodup
    have hlen : ((hashConvert (some pre)).put p).items.length = pre.length := by
      rw [Unique.put_length_of_old (by rw [hitems]; exact hmem), hitems]
    simp only [hfits]
    exact hlen.le

/-- One round of the loader: a clean pair is added, any other is lost. -/
theorem objHashSet_loaded (hl : Loaded lim pre h)
    (hp : p.1.length ≤ uint32Max ∧ p.2.length ≤ uint32Max) :
    ∃ h', objHashSet lim h p.1 p.2 = some h' ∧ h'.expires = ∅ ∧
      (AddsClean lim pre p → Loaded lim (pre ++ [p]) h') ∧
      (¬ AddsClean lim pre p → h'.fields.pairs.length ≤ pre.length) := by
  obtain ⟨hexp, hnodup, hform⟩ := hl
  have hnot : ¬ (uint32Max < p.1.length ∨ uint32Max < p.2.length) := by omega
  have hexp' : h.expires.erase p.1 = ∅ := by rw [hexp]; rfl
  refine ⟨_, if_neg hnot, hexp', ?_, ?_⟩
  · intro hclean
    refine ⟨hexp', Unique.nodup_snoc hnodup hclean.1, ?_⟩
    rcases hform with ⟨hfields, hsmall⟩ | ⟨t, hfields, hitems, hlarge⟩
    · simp only [hfields]
      exact packedSet_clean hsmall hnodup hclean
    simp only [hfields]
    refine .inr ⟨t.put p, rfl, ?_, fun hsnoc => hlarge ?_⟩
    · rw [Unique.put_of_new (by rw [hitems]; exact hclean.1), hitems]
    · obtain ⟨hlen, hfits, -⟩ := small_snoc.mp hsnoc
      exact ⟨hlen.le, hfits⟩
  intro hclean
  rcases hform with ⟨hfields, -⟩ | ⟨t, hfields, hitems, hlarge⟩
  · simp only [hfields]
    exact packedSet_unclean hnodup hclean
  have hmem : p.1 ∈ t.items.map fst := by
    rw [hitems]
    by_contra hnew
    exact hclean ⟨hnew, fun hsmall _ => absurd hsmall hlarge⟩
  simp only [hfields]
  rw [← hitems]
  exact (Unique.put_length_of_old hmem).le

theorem loaded_pairs (hl : Loaded lim pre h) : h.fields.pairs = pre := by
  obtain ⟨-, -, ⟨hfields, -⟩ | ⟨t, hfields, hitems, -⟩⟩ := hl
  · rw [hfields]
    rfl
  · rw [hfields]
    exact hitems

def setPairs (lim : Limits) (h : HashObj) (rest : List (Bytes × Bytes)) : Option HashObj :=
  rest.foldlM (fun h p => objHashSet lim h p.1 p.2) h

def PairsShort (l : List (Bytes × Bytes)) : Prop :=
  ∀ p ∈ l, p.1.length ≤ uint32Max ∧ p.2.length ≤ uint32Max

theorem setPairs_length_le (lim : Limits) : ∀ {rest} {h}, h.expires = ∅ →
    PairsShort rest → ∃ h', setPairs lim h rest = some h' ∧ h'.expires = ∅ ∧
      h'.fields.pairs.length ≤ h.fields.pairs.length + rest.length
  | [], h, hexp, _ => ⟨h, rfl, hexp, Nat.le_refl _⟩
  | p :: rest, h, hexp, hshort => by
    obtain ⟨h₁, hset, hexp₁, hlen₁⟩ := objHashSet_short lim hexp
      (hshort p (mem_cons_self ..))
    obtain ⟨h₂, hrun, hexp₂, hlen₂⟩ := setPairs_length_le lim hexp₁
      fun q hq => hshort q (mem_cons_of_mem _ hq)
    refine ⟨h₂, ?_, hexp₂, ?_⟩
    · rw [setPairs, foldlM_cons, hset]
      exact hrun
    · rw [List.length_cons]
      omega

/-- The whole loop: all pairs are there if each was added cleanly, and fewer than
were written otherwise. -/
theorem setPairs_loaded : ∀ {rest pre} {h},
    Loaded lim pre h → PairsShort rest →
    ∃ h', setPairs lim h rest = some h' ∧ h'.expires = ∅ ∧
      (LoadsClean lim pre rest → h'.fields.pairs = pre ++ rest) ∧
      (¬ LoadsClean lim pre rest → h'.fields.pairs.length < (pre ++ rest).length)
  | [], pre, h, hl, _ =>
    ⟨h, rfl, hl.1, fun _ => by rw [loaded_pairs hl, List.append_nil],
      fun hno => absurd trivial hno⟩
  | p :: rest, pre, h, hl, hshort => by
    have hshort' : PairsShort rest := fun q hq => hshort q (mem_cons_of_mem _ hq)
    obtain ⟨h₁, hset, hexp₁, hadd, hlose⟩ := objHashSet_loaded hl
      (hshort p (mem_cons_self ..))
    have hstep : ∀ h₂, setPairs lim h₁ rest = some h₂ →
        setPairs lim h (p :: rest) = some h₂ := by
      intro h₂ hrun
      rw [setPairs, foldlM_cons, hset]
      exact hrun
    by_cases hclean : AddsClean lim pre p
    · obtain ⟨h₂, hrun, hexp₂, hall, hfew⟩ := setPairs_loaded (hadd hclean) hshort'
      rw [List.append_assoc] at hall hfew
      exact ⟨h₂, hstep h₂ hrun, hexp₂, fun hc => hall hc.2,
        fun hno => hfew fun hrest => hno ⟨hclean, hrest⟩⟩
    obtain ⟨h₂, hrun, hexp₂, hlen⟩ := setPairs_length_le lim hexp₁ hshort'
    refine ⟨h₂, hstep h₂ hrun, hexp₂, fun hc => absurd hc.1 hclean, fun _ => ?_⟩
    have hlost := hlose hclean
    rw [List.length_append, List.length_cons]
    omega

theorem objHashNew_loaded (lim : Limits) : Loaded lim [] objHashNew :=
  ⟨rfl, List.nodup_nil, .inl ⟨rfl, Nat.zero_le _, fun _ h => absurd h List.not_mem_nil⟩⟩

/-- A hash is loaded without field expiries; its pairs are those that were written
just if each of them loads cleanly. -/
theorem reloadHash_spec (lim : Limits) (hshort : PairsShort h.fields.pairs) :
    ∃ h', reloadHash lim h = some h' ∧ h'.expires = ∅ ∧
      ((h'.fields.pairs : Multiset (Bytes × Bytes)) = h.fields.pairs ↔
        LoadsClean lim [] h.fields.pairs) := by
  obtain ⟨h', hrun, hexp, hall, hfew⟩ := setPairs_loaded (objHashNew_loaded lim) hshort
  refine ⟨h', hrun, hexp, ?_, ?_⟩
  · intro hsame
    by_contra hno
    have hlt := hfew hno
    have hcard := (Multiset.coe_eq_coe.mp hsame).length_eq
    rw [List.nil_append] at hlt
    omega
  · intro hclean
    exact congrArg _ (hall hclean)

end Hash

/-! ## Sets and sorted sets -/

theorem objSetAdd_foldlM : ∀ {l : List Bytes} (s : SetObj), (∀ m ∈ l, m.length ≤ uint32Max) →
    l.foldlM objSetAdd s = some (l.foldl Unique.put s)
  | [], _, _ => rfl
  | m :: l, s, h => by
    have hm : ¬ uint32Max < m.length := Nat.not_lt.mpr (h m (mem_cons_self ..))
    rw [foldlM_cons, objSetAdd, if_neg hm]
    exact objSetAdd_foldlM (s.put m) fun q hq => h q (mem_cons_of_mem _ hq)

theorem reloadSet_eq {s : SetObj} (h : ∀ m ∈ s.items, m.length ≤ uint32Max) :
    reloadSet s = some s := by
  rw [reloadSet, objSetAdd_foldlM _ h, Unique.foldl_put]

def NanFree (z : ZsetObj) : Prop := ∀ x ∈ z.items, isNan x.2 = false

instance (z : ZsetObj) : Decidable (NanFree z) :=
  inferInstanceAs (Decidable (∀ x ∈ z.items, isNan x.2 = false))

theorem zsetRound_new {z : ZsetObj} {x : Bytes × UInt64} (hnew : x.1 ∉ z.items.map fst)
    (hlen : x.1.length ≤ uint32Max) (hnum : isNan x.2 = false) :
    zsetRound z x = some (z.put x) := by
  have hany : (z.items.any fun y => y.1 == x.1 && scoreEq y.2 x.2) = false := by
    rw [List.any_eq_false]
    intro y hy hsame
    rw [Bool.and_eq_true, beq_iff_eq] at hsame
    exact hnew (hsame.1 ▸ List.mem_map_of_mem hy)
  rw [zsetRound, hnum, objZsetAdd, if_neg (Nat.not_lt.mpr hlen), hany]
  rfl

theorem zsetRound_foldlM : ∀ {l : List (Bytes × UInt64)} {z : ZsetObj},
    ((z.items ++ l).map fst).Nodup → (∀ x ∈ l, x.1.length ≤ uint32Max) →
    l.foldlM zsetRound z =
      if ∀ x ∈ l, isNan x.2 = false then some (l.foldl Unique.put z) else none
  | [], _, _, _ => by simp
  | x :: l, z, hnodup, hlen => by
    have hnew : x.1 ∉ z.items.map fst := Unique.new_of_split hnodup rfl
    have hlen' : ∀ y ∈ l, y.1.length ≤ uint32Max :=
      fun y hy => hlen y (mem_cons_of_mem _ hy)
    rw [foldlM_cons]
    by_cases hnum : isNan x.2 = false
    · have hnodup' : (((z.put x).items ++ l).map fst).Nodup := by
        rw [Unique.put_of_new hnew]
        simpa using hnodup
      rw [zsetRound_new hnew (hlen x (mem_cons_self ..)) hnum]
      exact (zsetRound_foldlM hnodup' hlen').trans
        (by simp only [List.forall_mem_cons, hnum, true_and, List.foldl_cons])
    · rw [Bool.not_eq_false] at hnum
      simp [zsetRound, hnum]

theorem reloadZset_eq {z : ZsetObj} (h : ∀ x ∈ z.items, x.1.length ≤ uint32Max) :
    reloadZset z = if NanFree z then some z else none := by
  have hfold := zsetRound_foldlM (z := Unique.empty fst) z.nodup h
  rwa [Unique.foldl_put] at hfold

/-! ## Streams -/

/-- The ids of the entries increase, from past the given one on. -/
def Increasing : UInt64 → UInt64 → List StreamEntry → Prop
  | _, _, [] => True
  | ms, seq, e :: es => ¬ (e.ms < ms ∨ (e.ms = ms ∧ e.seq ≤ seq)) ∧ Increasing e.ms e.seq es

instance decidableIncreasing : ∀ (ms seq : UInt64) (es : List StreamEntry),
    Decidable (Increasing ms seq es)
  | _, _, [] => isTrue trivial
  | ms, seq, e :: es =>
    have := decidableIncreasing e.ms e.seq es
    inferInstanceAs (Decidable (¬ (e.ms < ms ∨ (e.ms = ms ∧ e.seq ≤ seq)) ∧ _))

theorem objStreamAppend_foldlM : ∀ {es} {s},
    (∀ e ∈ es, EntrySized e) →
    (Increasing s.lastMs s.lastSeq es →
      ∃ st, es.foldlM objStreamAppend s = some st ∧ st.entries = s.entries ++ es) ∧
    (¬ Increasing s.lastMs s.lastSeq es → es.foldlM objStreamAppend s = none)
  | [], s, _ => ⟨fun _ => ⟨s, rfl, (List.append_nil _).symm⟩, fun h => absurd trivial h⟩
  | e :: es, s, hsized => by
    have hsized' : ∀ x ∈ es, EntrySized x := fun x hx => hsized x (mem_cons_of_mem _ hx)
    rw [foldlM_cons]
    by_cases hid : e.ms < s.lastMs ∨ (e.ms = s.lastMs ∧ e.seq ≤ s.lastSeq)
    · refine ⟨fun h => absurd hid h.1, fun _ => ?_⟩
      rw [objStreamAppend, if_pos hid]
      rfl
    have hfits : ¬ (uint32Max < e.fields.length ∨
        (e.fields.any fun p => uint32Max < p.1.length || uint32Max < p.2.length) = true) := by
      obtain ⟨hcount, hlens⟩ := hsized e (mem_cons_self ..)
      rintro (hlong | hany)
      · omega
      obtain ⟨p, hp, hlong⟩ := List.any_eq_true.mp hany
      have := hlens p hp
      simp only [Bool.or_eq_true, decide_eq_true_eq] at hlong
      omega
    rw [objStreamAppend, if_neg hid, if_neg hfits]
    obtain ⟨hgood, hbad⟩ := objStreamAppend_foldlM (s :=
      { s with
        entries := s.entries ++ [e]
        lastMs := e.ms
        lastSeq := e.seq
        entriesAdded := s.entriesAdded + 1 }) hsized'
    refine ⟨fun h => ?_, fun h => hbad fun hes => h ⟨hid, hes⟩⟩
    obtain ⟨st, hst, hentries⟩ := hgood h.2
    exact ⟨st, hst, by rw [hentries]; simp⟩

theorem reloadEntries_eq {s : StreamObj} (h : ∀ e ∈ s.entries, EntrySized e) :
    (reloadEntries s).map (fun st => { s with entries := st.entries }) =
      if Increasing 0 0 s.entries then some s else none := by
  obtain ⟨hgood, hbad⟩ := objStreamAppend_foldlM (s := objStreamNew) h
  split
  · rename_i hinc
    obtain ⟨st, hst, hentries⟩ := hgood hinc
    have heq : st.entries = s.entries := hentries
    rw [reloadEntries, hst, map_some, heq]
  · rename_i hinc
    rw [reloadEntries, hbad hinc]
    rfl

/-! ## Arrays -/

/-- The length the indices alone give an array. -/
def arraySpan (l : List (UInt64 × Bytes)) (length : UInt64) : UInt64 :=
  l.foldl (fun n x => grownLength n x.1) length

theorem index_ne_max {a : ArrayObj} {x : UInt64 × Bytes} (h : x ∈ a.values.items) :
    x.1 ≠ 0xFFFFFFFFFFFFFFFF := by
  have hlt := UInt64.lt_iff_toNat_lt.mp (a.bounded x h)
  have hlen := a.length.toNat_lt
  intro heq
  rw [heq] at hlt
  have hmax : (0xFFFFFFFFFFFFFFFF : UInt64).toNat = 18446744073709551615 := rfl
  omega

theorem objArraySet_foldlM : ∀ {l} {a},
    (∀ x ∈ l, x.2.length ≤ uint32Max) → (∀ x ∈ l, x.1 ≠ 0xFFFFFFFFFFFFFFFF) →
    ∃ a', l.foldlM (fun a x => objArraySet a x.1 x.2) a = some a' ∧
      a'.values = l.foldl Unique.put a.values ∧ a'.length = arraySpan l a.length ∧
      a'.nextInsert = a.nextInsert ∧ a'.ringSize = a.ringSize ∧ a'.history = a.history
  | [], a, _, _ => ⟨a, rfl, rfl, rfl, rfl, rfl, rfl⟩
  | x :: l, a, hlen, hidx => by
    have hx := hlen x (mem_cons_self ..)
    have hi := hidx x (mem_cons_self ..)
    obtain ⟨a₁, hset, hvalues, hlength, hnext, hring, hhist⟩ :
        ∃ a₁, objArraySet a x.1 x.2 = some a₁ ∧ a₁.values = a.values.put x ∧
          a₁.length = grownLength a.length x.1 ∧ a₁.nextInsert = a.nextInsert ∧
          a₁.ringSize = a.ringSize ∧ a₁.history = a.history := by
      rw [objArraySet, if_neg (Nat.not_lt.mpr hx), dif_neg hi]
      exact ⟨_, rfl, rfl, rfl, rfl, rfl, rfl⟩
    obtain ⟨a₂, hrun, hvalues₂, hlength₂, hnext₂, hring₂, hhist₂⟩ :=
      objArraySet_foldlM (fun y hy => hlen y (mem_cons_of_mem _ hy))
        fun y hy => hidx y (mem_cons_of_mem _ hy)
    refine ⟨a₂, ?_, ?_, ?_, hnext₂.trans hnext, hring₂.trans hring, hhist₂.trans hhist⟩
    · rw [foldlM_cons, hset]
      exact hrun
    · rw [hvalues₂, hvalues, List.foldl_cons]
    · rw [hlength₂, hlength, arraySpan, arraySpan, List.foldl_cons]

theorem reloadArray_spec {a : ArrayObj} (h : ∀ x ∈ a.values.items, x.2.length ≤ uint32Max) :
    ∃ a', reloadArray a = some a' ∧ a'.values = a.values ∧
      a'.length = arraySpan a.values.items 0 ∧ a'.nextInsert = a.nextInsert ∧
      a'.ringSize = a.ringSize ∧ a'.history = a.history := by
  obtain ⟨a', hrun, hvalues, hrest⟩ := objArraySet_foldlM h
    fun x hx => index_ne_max hx
  exact ⟨a', hrun, hvalues.trans (Unique.foldl_put a.values), hrest⟩

/-! ## All values -/

/-- What commands can tell about a value: the listing of a table without its order,
the field expiries of a hash, everything in a stream, the cursors of an array. -/
inductive View
  | str (bytes : Bytes)
  | list (items : List Bytes)
  | hash (pairs : Multiset (Bytes × Bytes)) (expires : Finmap fun _ : Bytes => Nat)
  | set (members : Multiset Bytes)
  | zset (members : Multiset (Bytes × UInt64))
  | stream (s : StreamObj)
  | array (values : Multiset (UInt64 × Bytes)) (length nextInsert ringSize : UInt64)
      (history : List UInt64)
  | cold

def view : Obj → View
  | .str b => .str b
  | .list items _ => .list items
  | .boxed (.hash h) _ => .hash h.fields.pairs h.expires
  | .boxed (.set s) _ => .set s.items
  | .boxed (.zset z) _ => .zset z.items
  | .boxed (.stream s) _ => .stream s
  | .boxed (.array a) _ => .array a.values.items a.length a.nextInsert a.ringSize a.history
  | .tier _ _ => .cold

/-- The loader takes what was written for this value. -/
def Loadable : Obj → Prop
  | .boxed (.zset z) _ => NanFree z
  | .boxed (.stream s) _ => Increasing 0 0 s.entries
  | .tier _ _ => False
  | _ => True

/-- The loader makes of this value one that looks the same. -/
def Faithful (lim : Limits) : Obj → Prop
  | .boxed (.hash h) _ => h.expires = ∅ ∧ LoadsClean lim [] h.fields.pairs
  | .boxed (.array a) _ => a.length = arraySpan a.values.items 0
  | v => Loadable v

theorem Faithful.loadable {lim : Limits} {v : Obj} (h : Faithful lim v) : Loadable v := by
  cases v with
  | boxed c mem =>
    cases c with
    | hash h' => trivial
    | array a => trivial
    | _ => exact h
  | _ => exact h

theorem reload_isSome (sz : ObjMem) (lim : Limits) {v : Obj} (h : Sized v) :
    (reload sz lim v).isSome ↔ Loadable v := by
  cases v with
  | str b | list items mem => exact ⟨fun _ => trivial, fun _ => rfl⟩
  | tier rid expire => exact ⟨fun hs => absurd hs (by simp [reload]), fun hf => hf.elim⟩
  | boxed c mem =>
    cases c with
    | hash h' =>
      obtain ⟨h₁, hrun, -⟩ := reloadHash_spec lim h
      simp [reload, hrun, Loadable]
    | set s => simp [reload, reloadSet_eq h, Loadable]
    | zset z =>
      simp only [reload, reloadZset_eq h, Loadable]
      split <;> simp_all
    | stream s =>
      have heq := reloadEntries_eq h
      simp only [reload, Loadable, Option.isSome_map]
      rw [← Option.isSome_map, heq]
      split <;> simp_all
    | array a =>
      obtain ⟨a', hrun, -⟩ := reloadArray_spec h
      simp [reload, hrun, Loadable]

/-- A loaded value looks as it did just if it is `Faithful`. -/
theorem reload_view (sz : ObjMem) (lim : Limits) {v v' : Obj} (h : Sized v)
    (hv' : reload sz lim v = some v') : view v' = view v ↔ Faithful lim v := by
  have hload : Loadable v := (reload_isSome sz lim h).mp (by rw [hv']; rfl)
  cases v with
  | str b | list items mem => cases hv'; exact ⟨fun _ => trivial, fun _ => rfl⟩
  | tier rid expire => exact hload.elim
  | boxed c mem =>
    cases c with
    | hash h' =>
      obtain ⟨h₁, hrun, hexp, hpairs⟩ := reloadHash_spec lim h
      simp only [reload, hrun, map_some, Option.some.injEq] at hv'
      subst hv'
      simp only [view, boxed, View.hash.injEq, hpairs, hexp]
      exact ⟨fun hs => ⟨hs.2.symm, hs.1⟩, fun hs => ⟨hs.2, hs.1.symm⟩⟩
    | set s =>
      simp only [reload, reloadSet_eq h, map_some, Option.some.injEq] at hv'
      subst hv'
      exact ⟨fun _ => trivial, fun _ => rfl⟩
    | zset z =>
      simp only [reload, reloadZset_eq h, if_pos (show NanFree z from hload),
        map_some, Option.some.injEq] at hv'
      subst hv'
      exact ⟨fun _ => hload, fun _ => rfl⟩
    | stream s =>
      have heq := congrArg (Option.map fun s' => boxed sz (.stream s')) (reloadEntries_eq h)
      rw [if_pos (show Increasing 0 0 s.entries from hload), Option.map_map] at heq
      have hsame : boxed sz (.stream s) = v' := Option.some.inj (heq.symm.trans hv')
      subst hsame
      exact ⟨fun _ => hload, fun _ => rfl⟩
    | array a =>
      obtain ⟨a', hrun, hvalues, hlength, hnext, hring, hhist⟩ := reloadArray_spec h
      simp only [reload, hrun, map_some, Option.some.injEq] at hv'
      subst hv'
      simp only [view, boxed, View.array.injEq, hvalues, hlength, hnext, hring, hhist, true_and, and_true]
      exact eq_comm

end Ddup.Snapshot
