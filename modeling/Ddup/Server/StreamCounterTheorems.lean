/-
Ddup.Server.StreamCounterTheorems — what every run of edits keeps of a stream.

The ids of the entries increase and end at or before the last id, the greatest removed id is the
one remembered, and the two counters are the sums of the sizes of what is stored. A counter that
is such a sum never goes below what one of its parts takes off, so the only `abort` a run can
reach is the one for a stream of 2^64 bytes.
-/
import Ddup.Server.StreamCounters

namespace Ddup.Server

open Ddup.Lib Ddup.Command Ddup.Store
open Prod (fst)
open UInt64 (ofNat)

variable {bytes : Nat} {c : Consumer} {s' : CountedStream} {g : Group}
    {e : StreamEntry} {group : Bytes}
variable {gm m : UInt64} {len size : Nat} {name : Bytes} {post pre : List StreamEntry}

/-! ## Ids as numbers -/

/-- Ids in their order. -/
def idKey (ms seq : UInt64) : Nat := ms.toNat * 2 ^ 64 + seq.toNat

def entryKey (e : StreamEntry) : Nat := idKey e.ms e.seq

def lastKey (s : StreamObj) : Nat := idKey s.lastMs s.lastSeq

def deletedKey (s : StreamObj) : Nat := idKey s.maxDeletedMs s.maxDeletedSeq

theorem idLt_iff (ms seq ms' seq' : UInt64) :
    idLt ms seq ms' seq' = true ↔ idKey ms seq < idKey ms' seq' := by
  have h1 := seq.toNat_lt
  have h2 := seq'.toNat_lt
  simp only [idLt, Bool.or_eq_true, Bool.and_eq_true, decide_eq_true_eq, beq_iff_eq,
    UInt64.lt_iff_toNat_lt, ← UInt64.toNat_inj, idKey]
  omega

def maxKey (l : List StreamEntry) : Nat := (l.map entryKey).foldr max 0

theorem maxKey_nil : maxKey [] = 0 := by rw [maxKey, List.map_nil, List.foldr_nil]

theorem maxKey_cons (e : StreamEntry) (l : List StreamEntry) :
    maxKey (e :: l) = max (entryKey e) (maxKey l) := by
  rw [maxKey, List.map_cons, List.foldr_cons, maxKey]

theorem maxKey_append (l m : List StreamEntry) : maxKey (l ++ m) = max (maxKey l) (maxKey m) := by
  induction l with
  | nil => rw [List.nil_append, maxKey_nil, Nat.zero_max]
  | cons e l ih => rw [List.cons_append, maxKey_cons, maxKey_cons, ih, Nat.max_assoc]

theorem maxKey_of_getLast {l : List StreamEntry}
    (hl : l.Pairwise (entryKey · < entryKey ·)) (he : l.getLast? = some e) :
    maxKey l = entryKey e := by
  obtain ⟨pre, rfl⟩ := List.getLast?_eq_some_iff.mp he
  have hpre : ∀ x ∈ pre, entryKey x < entryKey e := fun x hx =>
    (List.pairwise_append.mp hl).2.2 x hx e (by simp)
  have hle : maxKey pre ≤ entryKey e := by
    clear he hl
    induction pre with
    | nil => rw [maxKey_nil]; exact Nat.zero_le _
    | cons x pre ih =>
      have hx := hpre x (by simp)
      have hrest := ih fun y hy => hpre y (by simp [hy])
      rw [maxKey_cons]
      exact Nat.max_le.mpr ⟨hx.le, hrest⟩
  rw [maxKey_append, maxKey_cons, maxKey_nil, Nat.max_zero, Nat.max_eq_right hle]

theorem deletedKey_updateDeleted (s : StreamObj) (e : StreamEntry) :
    deletedKey (updateDeleted s e) = max (deletedKey s) (entryKey e) := by
  unfold updateDeleted
  by_cases h : idLt s.maxDeletedMs s.maxDeletedSeq e.ms e.seq = true
  · have hlt := (idLt_iff _ _ _ _).mp h
    rw [if_pos h]
    exact (max_eq_right hlt.le).symm
  · have hge := Nat.le_of_not_lt fun hlt => h ((idLt_iff _ _ _ _).mpr hlt)
    rw [if_neg h]
    exact (max_eq_left hge).symm

theorem updateDeleted_entries (s : StreamObj) (e : StreamEntry) :
    (updateDeleted s e).entries = s.entries := by
  unfold updateDeleted
  split <;> rfl

theorem updateDeleted_groups (s : StreamObj) (e : StreamEntry) :
    (updateDeleted s e).groups = s.groups := by
  unfold updateDeleted
  split <;> rfl

theorem lastKey_updateDeleted (s : StreamObj) (e : StreamEntry) :
    lastKey (updateDeleted s e) = lastKey s := by
  unfold updateDeleted
  split <;> rfl

/-! ## Sizes -/

def entryBytes (e : StreamEntry) : Nat := 48 + e.fields.length * 8 + dataLen e + 32

def entriesBytes (l : List StreamEntry) : Nat := (l.map entryBytes).sum

def consumerBytes (c : Consumer) : Nat :=
  consumerSize + c.name.length + 16 + pendingBytes * c.pel.items.length

def groupBytes (g : Group) : Nat :=
  groupSize + g.name.length + 16 + g.consumers.total consumerBytes

theorem streamEntryBytes_eq (hn : e.fields.length ≤ uint32Max) (hb : entryBytes e ≤ uint64Max) :
    streamEntryBytes e.fields.length (dataLen e) = some (entryBytes e) := by
  unfold entryBytes at hb
  simp only [streamEntryBytes]
  rw [if_neg (by omega), if_neg (by omega), if_neg (by omega)]
  rfl

theorem streamEntryBytes_some (h : streamEntryBytes e.fields.length (dataLen e) = some bytes) :
    bytes = entryBytes e ∧ e.fields.length ≤ uint32Max ∧ bytes ≤ uint64Max := by
  simp only [streamEntryBytes] at h
  split at h
  · exact absurd h (by simp)
  split at h
  · exact absurd h (by simp)
  split at h
  · exact absurd h (by simp)
  injection h with h
  unfold entryBytes
  omega

theorem streamMemAdd_eq (h : size + len + 16 ≤ uint64Max) :
    streamMemAdd size len = some (size + len + 16) := by
  simp only [streamMemAdd]
  rw [if_neg (by omega), if_neg (by omega)]

theorem streamMemAdd_some (h : streamMemAdd size len = some bytes) : bytes = size + len + 16 := by
  simp only [streamMemAdd] at h
  split at h
  · exact absurd h (by simp)
  split at h
  · exact absurd h (by simp)
  injection h with h
  exact h.symm

/-! ## Counting up and down -/

theorem toNat_add_bytes (h : m.toNat + bytes ≤ uint64Max) :
    (m + ofNat bytes).toNat = m.toNat + bytes := by
  unfold uint64Max at h
  rw [UInt64.toNat_add, UInt64.toNat_ofNat']
  omega

theorem toNat_sub_bytes (h : bytes ≤ m.toNat) : (m - ofNat bytes).toNat = m.toNat - bytes := by
  have hm := m.toNat_lt
  rw [UInt64.toNat_sub, UInt64.toNat_ofNat']
  omega

theorem toNat_le_max (m : UInt64) : m.toNat ≤ uint64Max := by
  have hm := m.toNat_lt
  unfold uint64Max
  omega

theorem dropEntries_ok : ∀ {l} {mem},
    (∀ e ∈ l, e.fields.length ≤ uint32Max) → entriesBytes l ≤ mem.toNat →
      ∃ mem', dropEntries l mem = .ok mem' ∧ mem'.toNat = mem.toNat - entriesBytes l
  | [], mem, _, _ => ⟨mem, rfl, rfl⟩
  | e :: l, mem, hn, hsum => by
    have hcons : entriesBytes (e :: l) = entryBytes e + entriesBytes l := rfl
    have hmem := toNat_le_max mem
    have hbytes := streamEntryBytes_eq (hn e (by simp)) (by omega)
    have hsub : (mem - ofNat (entryBytes e)).toNat = mem.toNat - entryBytes e :=
      toNat_sub_bytes (by omega)
    obtain ⟨mem', hrun, hmem'⟩ := dropEntries_ok (fun x hx => hn x (by simp [hx]))
      (show entriesBytes l ≤ (mem - ofNat (entryBytes e)).toNat by omega)
    refine ⟨mem', ?_, by omega⟩
    simp only [dropEntries, storedBytes, hbytes]
    exact hrun

theorem addPending_ok : ∀ {k mem}, mem + pendingBytes * k ≤ uint64Max →
    addPending k mem = .ok (mem + pendingBytes * k)
  | 0, _, _ => rfl
  | k + 1, mem, h => by
    have hstep : pendingBytes * (k + 1) = pendingBytes + pendingBytes * k := by ring
    rw [addPending, if_neg (by omega), addPending_ok (by omega), hstep, Nat.add_assoc]

theorem goneConsumer_ok (h : consumerBytes c ≤ uint64Max) :
    goneConsumer c = .ok (consumerBytes c) := by
  unfold consumerBytes at h
  rw [goneConsumer, streamMemAdd_eq (by omega)]
  exact addPending_ok h

theorem goneConsumers_ok : ∀ {l} {mem},
    mem + (l.map consumerBytes).sum ≤ uint64Max →
      goneConsumers l mem = .ok (mem + (l.map consumerBytes).sum)
  | [], _, _ => rfl
  | c :: l, mem, h => by
    rw [List.map_cons, List.sum_cons] at h ⊢
    have hwrap : (mem + consumerBytes c) % 2 ^ 64 = mem + consumerBytes c := by
      unfold uint64Max at h
      omega
    rw [goneConsumers, goneConsumer_ok (by omega)]
    show goneConsumers l ((mem + consumerBytes c) % 2 ^ 64) = _
    rw [hwrap, goneConsumers_ok (by omega), Nat.add_assoc]

theorem streamGroupMemSub_ok {s : CountedStream} (h : bytes ≤ s.groupMem.toNat) :
    ∃ gm, streamGroupMemSub s bytes = .ok { s with groupMem := gm } ∧
      gm.toNat = s.groupMem.toNat - bytes :=
  ⟨_, if_neg (Nat.not_lt.mpr h), toNat_sub_bytes h⟩

theorem streamGroupMemAdd_some {s : CountedStream} (h : streamGroupMemAdd s bytes = some s') :
    ∃ gm, s' = { s with groupMem := gm } ∧ gm.toNat = s.groupMem.toNat + bytes := by
  have hmax := toNat_le_max s.groupMem
  unfold streamGroupMemAdd at h
  split at h
  · exact absurd h (by simp)
  injection h with h
  exact ⟨_, h.symm, toNat_add_bytes (by omega)⟩

/-! ## The invariant -/

/-- A stream after a run that removed the entries `gone`. -/
structure StreamSound (s : CountedStream) (gone : List StreamEntry) : Prop where
  sorted : s.body.entries.Pairwise (entryKey · < entryKey ·)
  le_last : ∀ e ∈ s.body.entries, entryKey e ≤ lastKey s.body
  deleted : deletedKey s.body = maxKey gone
  fields : ∀ e ∈ s.body.entries, e.fields.length ≤ uint32Max
  mem : s.mem.toNat = streamSize + entriesBytes s.body.entries
  groupMem : s.groupMem.toNat = s.body.groups.total groupBytes

/-- What a step from `s` may come to: the `abort` of a stream that is too large, or a sound
stream whose last id is no smaller. -/
def StepSound (s : CountedStream) (gone : List StreamEntry) :
    Except StreamAbort CountedStream → Prop
  | .error a => a = .entryMem
  | .ok s' => StreamSound s' (gone ++ goneEntries s s') ∧ lastKey s.body ≤ lastKey s'.body

theorem streamNew_sound : StreamSound streamNew [] where
  sorted := List.Pairwise.nil
  le_last := by simp [streamNew, objStreamNew]
  deleted := by rw [maxKey_nil]; rfl
  fields := by simp [streamNew, objStreamNew]
  mem := rfl
  groupMem := rfl

variable {s : CountedStream} {gone : List StreamEntry}

theorem StreamSound.nodup (h : StreamSound s gone) : s.body.entries.Nodup :=
  h.sorted.imp fun hlt => fun heq => Nat.ne_of_lt hlt (congrArg entryKey heq)

theorem goneEntries_of_kept (h : ∀ e ∈ s.body.entries, e ∈ s'.body.entries) :
    goneEntries s s' = [] := by
  refine List.filter_eq_nil_iff.mpr fun e he => ?_
  simpa using h e he

theorem goneEntries_of_cut {cut : List StreamEntry} (hnodup : s.body.entries.Nodup)
    (hs : s.body.entries = pre ++ cut ++ post) (hs' : s'.body.entries = pre ++ post)
    : goneEntries s s' = cut := by
  rw [hs] at hnodup
  obtain ⟨hleft, -, hright⟩ := List.nodup_append.mp hnodup
  obtain ⟨-, -, hmid⟩ := List.nodup_append.mp hleft
  have hpre : pre.filter (fun e => decide (e ∉ pre ++ post)) = [] := by
    refine List.filter_eq_nil_iff.mpr fun e he => ?_
    simp [he]
  have hpost : post.filter (fun e => decide (e ∉ pre ++ post)) = [] := by
    refine List.filter_eq_nil_iff.mpr fun e he => ?_
    simp [he]
  have hcut : cut.filter (fun e => decide (e ∉ pre ++ post)) = cut := by
    refine List.filter_eq_self.mpr fun e he => ?_
    have h1 : e ∉ pre := fun hp => hmid e hp e he rfl
    have h2 : e ∉ post := fun hp => hright e (by simp [he]) e hp rfl
    simp [h1, h2]
  rw [goneEntries, hs, hs', List.filter_append, List.filter_append, hpre, hpost, hcut]
  simp

/-! ## Steps on the groups -/

theorem StreamSound.regroup (h : StreamSound s gone) {groups : Unique Group.name}
    (hsum : gm.toNat = groups.total groupBytes) :
    StepSound s gone (.ok { s with body := { s.body with groups := groups }, groupMem := gm }) := by
  refine ⟨⟨h.sorted, h.le_last, ?_, h.fields, h.mem, hsum⟩, Nat.le_refl _⟩
  rw [goneEntries_of_kept, List.append_nil]
  · exact h.deleted
  · exact fun e he => he

theorem StreamSound.same (h : StreamSound s gone) : StepSound s gone (.ok s) :=
  h.regroup h.groupMem

theorem StreamSound.groupBytes_le (h : StreamSound s gone)
    (hg : s.body.groups.get? name = some g) : groupBytes g ≤ s.groupMem.toNat := by
  have hsplit := Unique.total_erase (w := groupBytes) hg
  have hsum := h.groupMem
  omega

theorem consumerBytes_le (hc : g.consumers.get? name = some c)
    : consumerBytes c ≤ groupBytes g := by
  have hsplit := Unique.total_erase (w := consumerBytes) hc
  unfold groupBytes
  omega

theorem StreamSound.setGroup (h : StreamSound s gone) {g' : Group}
    (hg : s.body.groups.get? g'.name = some g)
    (hsum : gm.toNat + groupBytes g = s.groupMem.toNat + groupBytes g') :
    StepSound s gone (.ok { s with body := Server.setGroup s.body g', groupMem := gm }) := by
  refine h.regroup ?_
  have hput := Unique.total_put_of_old (w := groupBytes) hg
  have hold := h.groupMem
  omega

theorem groupCreate_sound (h : StreamSound s gone) (name : Bytes) (last : StreamId) :
    StepSound s gone (.ok (groupCreate s name last)) := by
  unfold groupCreate
  cases hget : s.body.groups.get? name with
  | some g => exact h.same
  | none =>
    cases hadd : (streamMemAdd groupSize name.length).bind (streamGroupMemAdd s) with
    | none => exact h.same
    | some s' =>
      obtain ⟨bytes, hbytes, hs'⟩ := Option.bind_eq_some_iff.mp hadd
      obtain ⟨gm, rfl, hgm⟩ := streamGroupMemAdd_some hs'
      refine h.regroup ?_
      rw [hgm, streamMemAdd_some hbytes, h.groupMem, Unique.total_put_of_new hget]
      rfl

theorem groupDestroy_sound (h : StreamSound s gone) (name : Bytes) :
    StepSound s gone ((groupDestroy s name).map fst) := by
  unfold groupDestroy
  cases hget : s.body.groups.get? name with
  | none => exact h.same
  | some g =>
    have hle := h.groupBytes_le hget
    have hmax := toNat_le_max s.groupMem
    have hsplit := Unique.total_erase (w := groupBytes) hget
    have hbytes : groupSize + g.name.length + 16 + (g.consumers.items.map consumerBytes).sum
        = groupBytes g := rfl
    obtain ⟨gm, hsub, hgm⟩ := streamGroupMemSub_ok hle
    simp only [streamMemAdd_eq (show groupSize + g.name.length + 16 ≤ uint64Max by omega)]
    rw [goneConsumers_ok (by omega)]
    show StepSound s gone
      (((streamGroupMemSub s (groupBytes g)).bind fun s' => _).map fst)
    rw [hsub]
    refine h.regroup ?_
    have hold := h.groupMem
    show gm.toNat = _
    omega

theorem consumerCreate_sound (h : StreamSound s gone)
    (hg : s.body.groups.get? group = some g) (name : Bytes) :
    StepSound s gone (.ok (countedConsumerCreate s g name)) := by
  obtain ⟨-, rfl⟩ := Unique.get?_eq_some.mp hg
  unfold countedConsumerCreate
  cases hget : g.consumers.get? name with
  | some c => exact h.same
  | none =>
    cases hadd : (streamMemAdd consumerSize name.length).bind (streamGroupMemAdd s) with
    | none => exact h.same
    | some s' =>
      obtain ⟨bytes, hbytes, hs'⟩ := Option.bind_eq_some_iff.mp hadd
      obtain ⟨gm, rfl, hgm⟩ := streamGroupMemAdd_some hs'
      have hnew : consumerCreate g name =
          { g with consumers := g.consumers.put ⟨name, 0, 0, Unique.empty _⟩ } := by
        rw [consumerCreate, hget]
      have hput : (g.consumers.put ⟨name, 0, 0, Unique.empty _⟩).total consumerBytes
          = g.consumers.total consumerBytes + (consumerSize + name.length + 16) :=
        Unique.total_put_of_new hget
      simp only [hnew]
      refine h.setGroup hg ?_
      rw [hgm, streamMemAdd_some hbytes]
      simp only [groupBytes]
      omega

theorem consumerDestroy_sound (h : StreamSound s gone)
    (hg : s.body.groups.get? group = some g) (name : Bytes) :
    StepSound s gone ((consumerDestroy s g name).map fst) := by
  obtain ⟨-, rfl⟩ := Unique.get?_eq_some.mp hg
  unfold consumerDestroy
  cases hget : g.consumers.get? name with
  | none => exact h.same
  | some c =>
    have hgroup := h.groupBytes_le hg
    have hconsumer := consumerBytes_le hget
    have hmax := toNat_le_max s.groupMem
    have hsplit := Unique.total_erase (w := consumerBytes) hget
    obtain ⟨gm, hsub, hgm⟩ := streamGroupMemSub_ok (hconsumer.trans hgroup)
    simp only [goneConsumer_ok (show consumerBytes c ≤ uint64Max by omega)]
    show StepSound s gone
      (((streamGroupMemSub s (consumerBytes c)).bind fun s' => _).map fst)
    rw [hsub]
    refine h.setGroup hg ?_
    simp only [groupBytes]
    omega

theorem get?_consumers (h : c ∈ g.consumers.items) : g.consumers.get? c.name = some c := Unique.get?_eq_some.mpr ⟨h, rfl⟩

theorem groupBytes_setPel (hc : g.consumers.get? c.name = some c)
    (pel : Unique fun p : Pending => (p.ms, p.seq)) :
    groupBytes { g with consumers := g.consumers.put { c with pel := pel } }
        + pendingBytes * c.pel.items.length = groupBytes g + pendingBytes * pel.items.length := by
  have hput := Unique.total_put_of_old (w := consumerBytes) (a := { c with pel := pel }) hc
  simp only [groupBytes, consumerBytes] at hput ⊢
  omega

theorem pelAdd_sound (h : StreamSound s gone)
    (hg : s.body.groups.get? group = some g) (hc : g.consumers.get? name = some c) (p : Pending) :
    StepSound s gone (.ok (countedPelAdd s g c p)) := by
  obtain ⟨-, rfl⟩ := Unique.get?_eq_some.mp hg
  obtain ⟨hmem, -⟩ := Unique.get?_eq_some.mp hc
  unfold countedPelAdd
  cases hget : c.pel.get? (p.ms, p.seq) with
  | some q => exact h.same
  | none =>
    cases hadd : streamGroupMemAdd s pendingBytes with
    | none => exact h.same
    | some s' =>
      obtain ⟨gm, rfl, hgm⟩ := streamGroupMemAdd_some hadd
      have hlen : (c.pel.put p).items.length = c.pel.items.length + 1 := by
        rw [Unique.put_of_new (Unique.get?_eq_none.mp hget), List.length_append]
        rfl
      have hbytes := groupBytes_setPel (get?_consumers hmem) (c.pel.put p)
      have hnew : pelAdd g c p =
          { g with consumers := g.consumers.put { c with pel := c.pel.put p } } := by
        rw [pelAdd, hget]
      simp only [hnew]
      refine h.setGroup hg ?_
      rw [hlen, Nat.mul_succ] at hbytes
      omega

theorem pelRemove_sound (h : StreamSound s gone)
    (hg : s.body.groups.get? group = some g) (id : StreamId) :
    StepSound s gone ((countedPelRemove s g id).map fst) := by
  obtain ⟨-, rfl⟩ := Unique.get?_eq_some.mp hg
  unfold countedPelRemove pelRemove
  cases hfind : g.consumers.items.find? fun c => (c.pel.get? id).isSome with
  | none => exact h.same
  | some c =>
    have hmem := List.mem_of_find?_eq_some hfind
    have hsome : (c.pel.get? id).isSome = true :=
      List.find?_some (p := fun c : Consumer => (c.pel.get? id).isSome) hfind
    obtain ⟨q, hq⟩ := Option.isSome_iff_exists.mp hsome
    have hlen := Unique.length_erase hq
    have hbytes := groupBytes_setPel (get?_consumers hmem) (c.pel.erase id)
    have hgroup := h.groupBytes_le hg
    rw [hlen, Nat.mul_succ] at hbytes
    have hpending : pendingBytes ≤ s.groupMem.toNat := by
      have hconsumer := consumerBytes_le (get?_consumers hmem)
      omega
    obtain ⟨gm, hsub, hgm⟩ := streamGroupMemSub_ok hpending
    rw [hsub]
    refine h.setGroup hg ?_
    show gm.toNat + _ = s.groupMem.toNat + groupBytes { g with
      consumers := g.consumers.put { c with pel := c.pel.erase id } }
    omega

/-! ## Steps on the entries -/

theorem entriesBytes_append (l m : List StreamEntry) :
    entriesBytes (l ++ m) = entriesBytes l + entriesBytes m := by
  rw [entriesBytes, List.map_append, List.sum_append, entriesBytes, entriesBytes]

theorem objStreamAppend_some {b body : StreamObj} (h : objStreamAppend b e = some body) :
    lastKey b < entryKey e ∧
      body = { b with
        entries := b.entries ++ [e], lastMs := e.ms, lastSeq := e.seq
        entriesAdded := b.entriesAdded + 1 } := by
  unfold objStreamAppend at h
  split at h
  · exact absurd h (by simp)
  rename_i hpast
  split at h
  · exact absurd h (by simp)
  injection h with h
  refine ⟨?_, h.symm⟩
  have h2 := b.lastSeq.toNat_lt
  simp only [UInt64.lt_iff_toNat_lt, UInt64.le_iff_toNat_le, ← UInt64.toNat_inj] at hpast
  unfold lastKey entryKey idKey
  omega

theorem append_sound (h : StreamSound s gone) (e : StreamEntry) :
    StepSound s gone ((streamAppend s e).map fst) := by
  unfold streamAppend
  split
  · exact h.same
  cases happend : objStreamAppend s.body e with
  | none => exact h.same
  | some body =>
    dsimp only
    split
    · exact h.same
    cases hbytes : streamEntryBytes e.fields.length (dataLen e) with
    | none => exact h.same
    | some bytes =>
      dsimp only
      split
      · rfl
      obtain ⟨hlast, rfl⟩ := objStreamAppend_some happend
      obtain ⟨rfl, hfields, -⟩ := streamEntryBytes_some hbytes
      have hmax := toNat_le_max s.mem
      refine ⟨⟨?_, ?_, ?_, ?_, ?_, h.groupMem⟩, hlast.le⟩
      · refine List.pairwise_append.mpr ⟨h.sorted, List.pairwise_singleton _ _, ?_⟩
        intro x hx y hy
        rw [List.mem_singleton.mp hy]
        exact (h.le_last x hx).trans_lt hlast
      · intro x hx
        rcases List.mem_append.mp hx with hx | hx
        · exact (h.le_last x hx).trans hlast.le
        · rw [List.mem_singleton.mp hx]
          exact Nat.le_refl _
      · rw [goneEntries_of_kept, List.append_nil]
        · exact h.deleted
        · exact fun x hx => List.mem_append_left _ hx
      · intro x hx
        rcases List.mem_append.mp hx with hx | hx
        · exact h.fields x hx
        · rw [List.mem_singleton.mp hx]
          exact hfields
      · rw [toNat_add_bytes (by omega), h.mem, entriesBytes_append, Nat.add_assoc]
        rfl

/-- A step that cuts a piece out of the entries, remembers its greatest id and takes its bytes
off. -/
theorem StreamSound.cut (h : StreamSound s gone) {cut : List StreamEntry}
    (body : StreamObj) (hs : s.body.entries = pre ++ cut ++ post)
    (hbody : body.entries = pre ++ post) (hlast : lastKey body = lastKey s.body)
    (hdeleted : deletedKey body = max (deletedKey s.body) (maxKey cut))
    (hgroups : body.groups = s.body.groups) :
    ∃ mem, dropEntries cut s.mem = .ok mem ∧
      StepSound s gone (.ok { s with body := body, mem := mem }) := by
  have hsub : (pre ++ post).Sublist s.body.entries := by
    rw [hs]
    exact (List.sublist_append_left pre cut).append_right post
  have hsum : entriesBytes s.body.entries = entriesBytes (pre ++ post) + entriesBytes cut := by
    rw [hs, entriesBytes_append, entriesBytes_append, entriesBytes_append]
    omega
  have hmem := h.mem
  obtain ⟨mem, hdrop, htoNat⟩ := dropEntries_ok
    (fun e he => h.fields e (by rw [hs]; simp [he]))
    (show entriesBytes cut ≤ s.mem.toNat by omega)
  refine ⟨mem, hdrop, ⟨?_, ?_, ?_, ?_, ?_, ?_⟩, hlast.ge⟩
  · show body.entries.Pairwise _
    exact hbody ▸ h.sorted.sublist hsub
  · intro e he
    rw [hlast]
    exact h.le_last e (hsub.subset (hbody ▸ he))
  · rw [goneEntries_of_cut h.nodup hs hbody, maxKey_append, ← h.deleted]
    exact hdeleted
  · exact fun e he => h.fields e (hsub.subset (hbody ▸ he))
  · show mem.toNat = streamSize + entriesBytes body.entries
    rw [hbody]
    omega
  · show s.groupMem.toNat = body.groups.total groupBytes
    rw [hgroups]
    exact h.groupMem

theorem delete_sound (h : StreamSound s gone) (id : StreamId) :
    StepSound s gone ((countedDelete s id).map fst) := by
  unfold countedDelete streamDelete
  cases hat : entryAt s.body id with
  | none => exact h.same
  | some e =>
    obtain ⟨hget, -⟩ := Option.filter_eq_some_iff.mp hat
    have hsplit := List.getElem?_eq_some_iff.mp hget
    obtain ⟨hlt, hval⟩ := hsplit
    have hs : s.body.entries = s.body.entries.take (lowerBound s.body.entries id.1 id.2) ++ [e]
        ++ s.body.entries.drop (lowerBound s.body.entries id.1 id.2 + 1) := by
      rw [← hval, List.append_assoc, List.singleton_append, List.getElem_cons_drop,
        List.take_append_drop]
    obtain ⟨mem, hdrop, hstep⟩ := h.cut { updateDeleted s.body e with
        entries := (updateDeleted s.body e).entries.eraseIdx
          (lowerBound s.body.entries id.1 id.2) } hs
      (by rw [updateDeleted_entries]; exact List.eraseIdx_eq_take_drop_succ _ _)
      (lastKey_updateDeleted s.body e)
      (by
        rw [maxKey_cons, maxKey_nil, Nat.max_zero]
        exact deletedKey_updateDeleted s.body e)
      (updateDeleted_groups s.body e)
    dsimp
    rw [hdrop]
    exact hstep

theorem streamTrim_eq (b : StreamObj) (t : Trim) : streamTrim b t = removeFront b (trimCount b t) := by
  cases t with
  | maxlen threshold limit | minid ms seq limit => rfl

theorem trim_sound (h : StreamSound s gone) (t : Trim) :
    StepSound s gone ((countedTrim s t).map fst) := by
  unfold countedTrim
  rw [streamTrim_eq, removeFront]
  generalize trimCount s.body t = n
  have hs : s.body.entries = [] ++ s.body.entries.take n ++ s.body.entries.drop n := by
    rw [List.nil_append, List.take_append_drop]
  cases hlast : (s.body.entries.take n).getLast? with
  | none =>
    rw [List.getLast?_eq_none_iff.mp hlast]
    exact h.same
  | some e =>
    have hmax : maxKey (s.body.entries.take n) = entryKey e :=
      maxKey_of_getLast (h.sorted.sublist (List.take_sublist _ _)) hlast
    obtain ⟨mem, hdrop, hstep⟩ := h.cut { updateDeleted s.body e with
        entries := (updateDeleted s.body e).entries.drop n } hs
      (by rw [updateDeleted_entries]; rfl)
      (lastKey_updateDeleted s.body e)
      (by
        rw [hmax]
        exact deletedKey_updateDeleted s.body e)
      (updateDeleted_groups s.body e)
    rw [hdrop]
    exact hstep

/-! ## Runs -/

theorem streamStep_sound (h : StreamSound s gone) (op : StreamOp) :
    StepSound s gone (streamStep s op) := by
  cases op with
  | append e => exact append_sound h e
  | delete id => exact delete_sound h id
  | trim t => exact trim_sound h t
  | groupCreate name last => exact groupCreate_sound h name last
  | groupDestroy name => exact groupDestroy_sound h name
  | consumerCreate group name =>
    dsimp only [streamStep]
    cases hg : s.body.groups.get? group with
    | none => exact h.same
    | some g => exact consumerCreate_sound h hg name
  | consumerDestroy group name =>
    dsimp only [streamStep]
    cases hg : s.body.groups.get? group with
    | none => exact h.same
    | some g => exact consumerDestroy_sound h hg name
  | pelAdd group consumer p =>
    dsimp only [streamStep]
    cases hg : s.body.groups.get? group with
    | none => exact h.same
    | some g =>
      dsimp only
      cases hc : g.consumers.get? consumer with
      | none => exact h.same
      | some c => exact pelAdd_sound h hg hc p
  | pelRemove group id =>
    dsimp only [streamStep]
    cases hg : s.body.groups.get? group with
    | none => exact h.same
    | some g => exact pelRemove_sound h hg id

/-- What a run from `s` may come to. -/
def RunSound (s : CountedStream) (gone : List StreamEntry) :
    Except StreamAbort (CountedStream × List StreamEntry) → Prop
  | .error a => a = .entryMem
  | .ok (s', more) => StreamSound s' (gone ++ more) ∧ lastKey s.body ≤ lastKey s'.body

theorem streamRun_sound : ∀ ops {s} {gone},
    StreamSound s gone → RunSound s gone (streamRun s ops)
  | [], s, gone, h => ⟨by rw [List.append_nil]; exact h, Nat.le_refl _⟩
  | op :: ops, s, gone, h => by
    have hstep := streamStep_sound h op
    unfold streamRun
    cases hs' : streamStep s op with
    | error a =>
      rw [hs'] at hstep
      exact hstep
    | ok s' =>
      rw [hs'] at hstep
      obtain ⟨hsound, hle⟩ := hstep
      have hrun := streamRun_sound ops hsound
      show RunSound s gone ((streamRun s' ops).bind fun r => _)
      cases hlast : streamRun s' ops with
      | error a =>
        rw [hlast] at hrun
        exact hrun
      | ok r =>
        rw [hlast] at hrun
        obtain ⟨hend, hle'⟩ := hrun
        refine ⟨?_, hle.trans hle'⟩
        rw [← List.append_assoc]
        exact hend

/-- Every run from a new stream, and every run that goes on from there: the only `abort` is that
of `obj_stream_append` for a counter that is full; else ids are in order and at most the last id,
which never goes back, the greatest removed id is remembered, `mem` is the size of the object and
its entries, and `group_mem` that of the groups, consumers and pending records. -/
theorem streamRun_keeps_books (ops more : List StreamOp) :
    match streamRun streamNew ops with
    | .error a => a = .entryMem
    | .ok (s, gone) =>
      StreamSound s gone ∧
        match streamRun s more with
        | .error a => a = .entryMem
        | .ok (s', _) => lastKey s.body ≤ lastKey s'.body := by
  have hfirst := streamRun_sound ops streamNew_sound
  cases hs : streamRun streamNew ops with
  | error a =>
    rw [hs] at hfirst
    exact hfirst
  | ok r =>
    obtain ⟨s, gone⟩ := r
    rw [hs] at hfirst
    obtain ⟨hsound, -⟩ := hfirst
    refine ⟨hsound, ?_⟩
    have hmore := streamRun_sound more hsound
    cases hs' : streamRun s more with
    | error a =>
      rw [hs'] at hmore
      exact hmore
    | ok r' =>
      rw [hs'] at hmore
      exact hmore.2

/-- `mem` starts at the size of the object: it is not the sum of the entries alone. -/
theorem streamNew_mem_not_entries :
    ¬ ∀ ops s gone, streamRun streamNew ops = .ok (s, gone) →
        s.mem.toNat = entriesBytes s.body.entries := by
  intro h
  have hnew : 104 = 0 := h [] streamNew [] rfl
  omega

end Ddup.Server
