/-
Ddup.Snapshot.CodecTheorems — what `load_payload` makes of the bytes
`write_value_payload` wrote.

A written payload is read back exactly, whatever follows it, and the reader then
builds the object anew with the constructors of `ds/obj.c` (`reload`). For strings,
lists, sets and stream groups that gives the value back. For a hash it is the
sequence of `obj_hash_set` calls, a sorted set is refused if it holds a NaN, a
stream if its ids do not increase, and an array gets the length its last index
gives it.
-/
import Ddup.Snapshot.Codec

namespace Ddup.Snapshot

open Ddup.Lib Ddup.Store
open Option (bind_eq_bind bind_eq_some_iff pure_def)

variable {bs : Bytes} {b : Bytes} {n : Nat}

/-! ## Fields -/

theorem lt_pow_of_le_uint32Max (h : n ≤ uint32Max) : n < 256 ^ 4 := by
  have hmax : uint32Max < 256 ^ 4 := by decide
  omega

theorem readBlob_reads (h : b.length ≤ uint32Max) : Reads readBlob (blobBytes b) b :=
  (Reads.le (lt_pow_of_le_uint32Max h)).bind (Reads.bytes b)

theorem readU64_reads (x : UInt64) : Reads readU64 (u64Bytes x) x := by
  have hlt : x.toNat < 256 ^ 8 := x.toNat_lt
  have hread : Reads readU64 (u64Bytes x) (UInt64.ofNat x.toNat) :=
    (Reads.le hlt).bind_nil (Reads.pure _)
  rwa [UInt64.ofNat_toNat] at hread

theorem writeLen_eq_some (h : writeLen n = some bs) : Reads (Dec.le 4) bs n := by
  unfold writeLen at h
  split at h
  · cases h
  rename_i hle
  cases h
  exact Reads.le (lt_pow_of_le_uint32Max (Nat.le_of_not_lt hle))

theorem writeBlob_eq_some (h : writeBlob b = some bs) : Reads readBlob bs b := by
  unfold writeBlob at h
  split at h
  · cases h
  rename_i hle
  cases h
  exact readBlob_reads (Nat.le_of_not_lt hle)

/-- The items written one after the other are read by a loop over their number. -/
theorem writeAll_loop {ι σ : Type} {write : ι → Option Bytes} {step : σ → Dec σ}
    {next : σ → ι → Option σ} :
    ∀ {xs} {bs}, writeAll write xs = some bs →
      (∀ x ∈ xs, ∀ b, write x = some b → ∀ s, Yields (step s) b (next s x)) →
      ∀ s, Yields (Dec.loop step xs.length s) bs (xs.foldlM next s)
  | [], _, hw, _, _ => by
    cases hw
    exact fun _ => rfl
  | x :: xs, bs, hw, h, s => by
    simp only [writeAll, bind_eq_bind, bind_eq_some_iff, pure_def, Option.some.injEq] at hw
    obtain ⟨b, hb, bs', hbs', rfl⟩ := hw
    exact (h x (List.mem_cons_self ..) b hb s).bind fun s' _ =>
      writeAll_loop hbs' (fun y hy => h y (List.mem_cons_of_mem _ hy)) s'

theorem writeAll_some {ι : Type} (enc : ι → Bytes) : ∀ xs,
    writeAll (fun x => some (enc x)) xs = some (xs.flatMap enc)
  | [] => rfl
  | x :: xs => by
    rw [writeAll, writeAll_some enc xs]
    rfl

/-! ## Loops that only collect -/

theorem collect_reads {α : Type} {read : Dec α} {enc : α → Bytes} {xs : List α}
    (h : ∀ x ∈ xs, Reads read (enc x) x) :
    Reads (Dec.loop (fun l => do
      let x ← read
      return l ++ [x]) xs.length []) (xs.flatMap enc) xs := by
  have hgather := Reads.gather h
  rwa [List.map_id'] at hgather

/-- A loop that pushes what it reads gives a list with distinct names back. -/
theorem push_reads {α β : Type} [DecidableEq β] {f : α → β} {read : Dec α}
    {write : α → Option Bytes} {u : Unique f} (hw : writeAll write u.items = some bs)
    (h : ∀ x b, write x = some b → Reads read b x) :
    Reads (Dec.loop (fun v => do
      let x ← read
      Dec.ofOption (Unique.push v x)) u.items.length (Unique.empty f)) bs u := by
  have hstep : ∀ x ∈ u.items, ∀ b, write x = some b → ∀ v : Unique f,
      Yields (read >>= fun x => Dec.ofOption (v.push x)) b (v.push x) :=
    fun x _ b hb v => (h x b hb).yields_nil (Yields.ofOption (v.push x))
  have hloop := writeAll_loop hw hstep (Unique.empty f)
  rwa [Unique.foldlM_push] at hloop

/-! ## Streams

Everything a stream holds is read back as it was written, except that its entries
have to pass `obj_stream_append` one after the other. -/

theorem loadPending_reads (p : Pending) : Reads loadPending (pendingBytes p) p := by
  exact (readU64_reads _).bind ((readU64_reads _).bind ((readU64_reads _).bind
    ((readU64_reads _).bind_nil (Reads.pure _))))

theorem writeConsumer_reads {c : Consumer} (h : writeConsumer c = some bs) :
    Reads loadConsumer bs c := by
  simp only [writeConsumer, bind_eq_bind, bind_eq_some_iff, pure_def, Option.some.injEq] at h
  obtain ⟨name, hname, n, hn, rfl⟩ := h
  have hpel := push_reads (writeAll_some pendingBytes c.pel.items) fun p b hb => by
    cases hb
    exact loadPending_reads p
  simp only [List.append_assoc]
  exact (writeBlob_eq_some hname).bind ((readU64_reads _).bind ((readU64_reads _).bind
    ((writeLen_eq_some hn).bind (hpel.bind_nil (Reads.pure _)))))

theorem writeGroup_reads {g : Group} (h : writeGroup g = some bs) : Reads loadGroup bs g := by
  simp only [writeGroup, bind_eq_bind, bind_eq_some_iff, pure_def, Option.some.injEq] at h
  obtain ⟨name, hname, n, hn, consumers, hcs, rfl⟩ := h
  have hread := push_reads hcs fun _ _ => writeConsumer_reads
  simp only [List.append_assoc]
  exact (writeBlob_eq_some hname).bind ((readU64_reads _).bind ((readU64_reads _).bind
    ((readU64_reads _).bind ((writeLen_eq_some hn).bind (hread.bind_nil (Reads.pure _))))))

/-- The lengths `obj_stream_append` takes. -/
def EntrySized (e : StreamEntry) : Prop :=
  e.fields.length ≤ uint32Max ∧
    ∀ p ∈ e.fields, p.1.length ≤ uint32Max ∧ p.2.length ≤ uint32Max

theorem readField_reads {p : Bytes × Bytes}
    (h : p.1.length ≤ uint32Max ∧ p.2.length ≤ uint32Max) : Reads readField (fieldBytes p) p :=
  (readBlob_reads h.1).bind ((readBlob_reads h.2).bind_nil (Reads.pure p))

theorem loadStreamEntry_reads {e : StreamEntry} (h : EntrySized e) :
    Reads loadStreamEntry (streamEntryBytes e) e := by
  have hfields := collect_reads fun p hp => readField_reads (h.2 p hp)
  exact (readU64_reads _).bind ((readU64_reads _).bind
    ((Reads.le (lt_pow_of_le_uint32Max h.1)).bind (hfields.bind_nil (Reads.pure _))))

/-- What the entries of a stream come to when they are appended one by one. -/
def reloadEntries (s : StreamObj) : Option StreamObj := s.entries.foldlM objStreamAppend objStreamNew

theorem writeStream_yields {s : StreamObj} (h : writeStream s = some bs)
    (hsized : ∀ e ∈ s.entries, EntrySized e) :
    Yields loadStream bs ((reloadEntries s).map fun st => { s with entries := st.entries }) := by
  simp only [writeStream, bind_eq_bind, bind_eq_some_iff, pure_def, Option.some.injEq] at h
  obtain ⟨n, hn, ng, hng, groups, hgs, rfl⟩ := h
  have hentries := Yields.loop streamEntryBytes objStreamAppend s.entries objStreamNew
    fun e he st => (loadStreamEntry_reads (hsized e he)).yields_nil
      (Yields.ofOption (objStreamAppend st e))
  have hgroups := push_reads hgs fun _ _ => writeGroup_reads
  rw [Option.map_eq_bind]
  simp only [List.append_assoc]
  exact (writeLen_eq_some hn).yields ((readU64_reads _).yields ((readU64_reads _).yields
    ((readU64_reads _).yields ((readU64_reads _).yields ((readU64_reads _).yields
      (hentries.bind fun _ _ =>
        (writeLen_eq_some hng).yields (hgroups.bind_nil (Reads.pure _))))))))

/-! ## All values -/

/-- One `obj_zset_add` of the loader. -/
def zsetRound (z : ZsetObj) (x : Bytes × UInt64) : Option ZsetObj :=
  if isNan x.2 then none else objZsetAdd z x.1 x.2

def reloadHash (lim : Limits) (h : HashObj) : Option HashObj :=
  h.fields.pairs.foldlM (fun h p => objHashSet lim h p.1 p.2) objHashNew

def reloadSet (s : SetObj) : Option SetObj := s.items.foldlM objSetAdd (Unique.empty _)

def reloadZset (z : ZsetObj) : Option ZsetObj := z.items.foldlM zsetRound (Unique.empty _)

/-- An array of no values with the cursor, ring and history of `a`. -/
def arrayHeader (a : ArrayObj) : ArrayObj :=
  { objArrayNew with
    nextInsert := a.nextInsert
    ringSize := a.ringSize
    history := a.history }

def reloadArray (a : ArrayObj) : Option ArrayObj :=
  a.values.items.foldlM (fun a x => objArraySet a x.1 x.2) (arrayHeader a)

/-- What the loader makes of a written value; absent if it refuses it. -/
def reload (sz : ObjMem) (lim : Limits) : Obj → Option Obj
  | .str b => some (.str b)
  | .list items _ => some (.list items (sz.list items))
  | .boxed (.hash h) _ => (reloadHash lim h).map fun h' => boxed sz (.hash h')
  | .boxed (.set s) _ => (reloadSet s).map fun s' => boxed sz (.set s')
  | .boxed (.zset z) _ => (reloadZset z).map fun z' => boxed sz (.zset z')
  | .boxed (.stream s) _ =>
    (reloadEntries s).map fun st => boxed sz (.stream { s with entries := st.entries })
  | .boxed (.array a) _ => (reloadArray a).map fun a' => boxed sz (.array a')
  | .tier _ _ => none

/-- The lengths the constructors take. Every stored object keeps to them:
`rh_set_ex`, `obj_list_push_many`, `obj_hash_set`, `obj_set_add`, `obj_zset_add`,
`obj_stream_append` and `obj_array_set` refuse anything longer. -/
def Sized : Obj → Prop
  | .str b => b.length < uint32Max
  | .list items _ => ∀ e ∈ items, e.length ≤ uint32Max
  | .boxed (.hash h) _ => ∀ p ∈ h.fields.pairs, p.1.length ≤ uint32Max ∧ p.2.length ≤ uint32Max
  | .boxed (.set s) _ => ∀ m ∈ s.items, m.length ≤ uint32Max
  | .boxed (.zset z) _ => ∀ x ∈ z.items, x.1.length ≤ uint32Max
  | .boxed (.stream s) _ => ∀ e ∈ s.entries, EntrySized e
  | .boxed (.array a) _ => ∀ x ∈ a.values.items, x.2.length ≤ uint32Max
  | .tier _ _ => True

theorem writeHash_yields (lim : Limits) {h : HashObj} {n pairs : Bytes}
    (hn : writeLen h.fields.pairs.length = some n)
    (hp : writeAll writePair h.fields.pairs = some pairs) :
    Yields (loadHash lim) (n ++ pairs) (reloadHash lim h) := by
  refine (writeLen_eq_some hn).yields (writeAll_loop hp ?_ _)
  intro p _ b hb acc
  simp only [writePair, bind_eq_bind, bind_eq_some_iff, pure_def, Option.some.injEq] at hb
  obtain ⟨f, hf, v, hv, rfl⟩ := hb
  exact (writeBlob_eq_some hf).yields ((writeBlob_eq_some hv).yields_nil (Yields.ofOption _))

theorem writeZset_yields {z : ZsetObj} {n : Bytes} (hn : writeLen z.items.length = some n)
    (hsized : ∀ x ∈ z.items, x.1.length ≤ uint32Max) :
    Yields loadZset (n ++ z.items.flatMap zsetBytes) (reloadZset z) := by
  refine (writeLen_eq_some hn).yields (Yields.loop zsetBytes zsetRound _ _ ?_)
  intro x hx acc
  exact (readBlob_reads (hsized x hx)).yields
    ((readU64_reads x.2).yields_nil (Yields.ofOption (zsetRound acc x)))

theorem writeArray_yields {a : ArrayObj} (h : writeArray a = some bs) :
    Yields loadArray bs (reloadArray a) := by
  simp only [writeArray, bind_eq_bind, bind_eq_some_iff, pure_def, Option.some.injEq] at h
  obtain ⟨n, hn, hlen, hhn, values, hvs, rfl⟩ := h
  simp only [List.append_assoc]
  refine (writeLen_eq_some hn).yields ((readU64_reads _).yields ((readU64_reads _).yields
    ((writeLen_eq_some hhn).yields
      ((collect_reads fun x _ => readU64_reads x).yields (writeAll_loop hvs ?_ _)))))
  intro x _ b hb acc
  simp only [writeElement, bind_eq_bind, bind_eq_some_iff, pure_def, Option.some.injEq] at hb
  obtain ⟨v, hv, rfl⟩ := hb
  exact (readU64_reads x.1).yields ((writeBlob_eq_some hv).yields_nil (Yields.ofOption _))

/-- Reading a written payload under the tag of its value gives what `reload` makes of
the value, whatever bytes follow. -/
theorem writeValuePayload_yields (sz : ObjMem) (lim : Limits) {v : Obj}
    (h : writeValuePayload v = some bs) (hsized : Sized v) :
    Yields (loadPayload sz lim (objTag v)) bs (reload sz lim v) := by
  cases v with
  | str b => exact Yields.map (writeBlob_eq_some h) Obj.str
  | list items mem =>
    simp only [writeValuePayload, bind_eq_bind, bind_eq_some_iff, pure_def, Option.some.injEq] at h
    obtain ⟨n, hn, rfl⟩ := h
    have hread : Reads loadList (n ++ items.flatMap blobBytes) items :=
      (writeLen_eq_some hn).bind (collect_reads fun e he => readBlob_reads (hsized e he))
    exact hread.bind_nil (Reads.pure _)
  | boxed c mem =>
    cases c with
    | hash h' =>
      simp only [writeValuePayload, bind_eq_bind, bind_eq_some_iff,
        pure_def, Option.some.injEq] at h
      obtain ⟨n, hn, pairs, hp, rfl⟩ := h
      exact (writeHash_yields lim hn hp).map _
    | set s =>
      simp only [writeValuePayload, bind_eq_bind, bind_eq_some_iff,
        pure_def, Option.some.injEq] at h
      obtain ⟨n, hn, members, hm, rfl⟩ := h
      have hloop : Yields loadSet (n ++ members) (reloadSet s) :=
        (writeLen_eq_some hn).yields (writeAll_loop hm (fun m _ b hb acc =>
          (writeBlob_eq_some hb).yields_nil (Yields.ofOption (objSetAdd acc m))) _)
      exact hloop.map _
    | zset z =>
      simp only [writeValuePayload, bind_eq_bind, bind_eq_some_iff,
        pure_def, Option.some.injEq] at h
      obtain ⟨n, hn, rfl⟩ := h
      exact (writeZset_yields hn hsized).map _
    | stream s =>
      have hboxed := (writeStream_yields h hsized).map fun s' => boxed sz (.stream s')
      rwa [Option.map_map] at hboxed
    | array a => exact (writeArray_yields h).map _
  | tier rid expire =>
    cases h
    exact Yields.fail

end Ddup.Snapshot
