/-
Ddup.Snapshot.DumpTheorems — a dump restored under another key, and restores that
fail.

The checksum of a dump is the one the restore computes, so a dump is decoded to what
`reload` makes of its value. Dumping fails only where a count or a name is too long
for its length field (`Writable`).
-/
import Ddup.Snapshot.Dump
import Ddup.Snapshot.LoadTheorems

namespace Ddup.Snapshot

open Ddup.Lib Ddup.Store
open Option (bind_eq_bind pure_def)

variable (sz : ObjMem) (lim : Limits) {v : Obj} {body k : Bytes} {d : Db} {now : Nat}

/-! ## When a value can be written -/

theorem writeLen_isSome (n : Nat) : (writeLen n).isSome ↔ n ≤ uint32Max := by
  unfold writeLen
  split <;> simp_all

theorem writeBlob_isSome (b : Bytes) : (writeBlob b).isSome ↔ b.length ≤ uint32Max := by
  unfold writeBlob
  split <;> simp_all

theorem writeAll_isSome {ι : Type} (write : ι → Option Bytes) : ∀ xs,
    (writeAll write xs).isSome ↔ ∀ x ∈ xs, (write x).isSome
  | [] => by simp [writeAll]
  | x :: xs => by
    have ih := writeAll_isSome write xs
    rw [List.forall_mem_cons, ← ih, writeAll]
    cases write x with
    | none => simp
    | some b => cases writeAll write xs <;> simp

def ConsumerWritable (c : Consumer) : Prop :=
  c.name.length ≤ uint32Max ∧ c.pel.items.length ≤ uint32Max

def GroupWritable (g : Group) : Prop :=
  g.name.length ≤ uint32Max ∧ g.consumers.items.length ≤ uint32Max ∧
    ∀ c ∈ g.consumers.items, ConsumerWritable c

/-- The counts and names the constructors do not bound fit their length fields. -/
def Writable : Obj → Prop
  | .str _ => True
  | .list items _ => items.length ≤ uint32Max
  | .boxed (.hash h) _ => h.fields.pairs.length ≤ uint32Max
  | .boxed (.set s) _ => s.items.length ≤ uint32Max
  | .boxed (.zset z) _ => z.items.length ≤ uint32Max
  | .boxed (.stream s) _ =>
    s.entries.length ≤ uint32Max ∧ s.groups.items.length ≤ uint32Max ∧
      ∀ g ∈ s.groups.items, GroupWritable g
  | .boxed (.array a) _ => a.values.items.length ≤ uint32Max ∧ a.history.length ≤ uint32Max
  | .tier _ _ => True

theorem isSome_bind_const {α β : Type} (x : Option α) (f : α → Option β) (P : Prop)
    (h : ∀ a, (f a).isSome ↔ P) : (x.bind f).isSome ↔ x.isSome ∧ P := by
  cases x with
  | none => simp
  | some a => simp [h a]

theorem isSome_bind_some {α β : Type} (x : Option α) (f : α → β) :
    (x.bind fun a => some (f a)).isSome ↔ x.isSome := by
  cases x <;> simp

theorem writeConsumer_isSome (c : Consumer) : (writeConsumer c).isSome ↔ ConsumerWritable c := by
  simp only [writeConsumer, bind_eq_bind, pure_def]
  rw [isSome_bind_const _ _ _ fun _ => (isSome_bind_some _ _).trans (writeLen_isSome _),
    writeBlob_isSome]
  rfl

theorem writeGroup_isSome (g : Group) : (writeGroup g).isSome ↔ GroupWritable g := by
  simp only [writeGroup, bind_eq_bind, pure_def]
  rw [isSome_bind_const _ _ _ fun _ => isSome_bind_const _ _ _ fun _ =>
    (isSome_bind_some _ _).trans (writeAll_isSome _ _), writeBlob_isSome, writeLen_isSome]
  simp only [writeConsumer_isSome]
  rfl

/-- A value of lengths in bounds is written just if it is `Writable`. -/
theorem writeValuePayload_isSome (h : Sized v) : (writeValuePayload v).isSome ↔ Writable v := by
  cases v with
  | str b => exact (writeBlob_isSome b).trans ⟨fun _ => trivial, fun _ => Nat.le_of_lt h⟩
  | list items mem => exact (isSome_bind_some _ _).trans (writeLen_isSome _)
  | tier rid expire => exact ⟨fun _ => trivial, fun _ => rfl⟩
  | boxed c mem =>
    cases c with
    | hash h' =>
      have hpairs : ∀ p ∈ h'.fields.pairs, (writePair p).isSome := by
        intro p hp
        simp only [writePair, bind_eq_bind, pure_def]
        rw [isSome_bind_const _ _ _ fun _ =>
          (isSome_bind_some _ _).trans (writeBlob_isSome _), writeBlob_isSome]
        exact h p hp
      simp only [writeValuePayload, bind_eq_bind, pure_def]
      rw [isSome_bind_const _ _ _ fun _ =>
        (isSome_bind_some _ _).trans (writeAll_isSome _ _), writeLen_isSome]
      exact ⟨fun hw => hw.1, fun hw => ⟨hw, hpairs⟩⟩
    | set s =>
      simp only [writeValuePayload, bind_eq_bind, pure_def]
      rw [isSome_bind_const _ _ _ fun _ =>
        (isSome_bind_some _ _).trans (writeAll_isSome _ _), writeLen_isSome]
      exact ⟨fun hw => hw.1, fun hw => ⟨hw, fun m hm => (writeBlob_isSome m).mpr (h m hm)⟩⟩
    | zset z => exact (isSome_bind_some _ _).trans (writeLen_isSome _)
    | stream s =>
      simp only [writeValuePayload, writeStream, bind_eq_bind, pure_def]
      rw [isSome_bind_const _ _ _ fun _ => isSome_bind_const _ _ _ fun _ =>
        (isSome_bind_some _ _).trans (writeAll_isSome _ _), writeLen_isSome, writeLen_isSome]
      simp only [writeGroup_isSome]
      rfl
    | array a =>
      have hvalues : ∀ x ∈ a.values.items, (writeElement x).isSome := by
        intro x hx
        exact (isSome_bind_some _ _).mpr ((writeBlob_isSome _).mpr (h x hx))
      simp only [writeValuePayload, writeArray, bind_eq_bind, pure_def]
      rw [isSome_bind_const _ _ _ fun _ => isSome_bind_const _ _ _ fun _ =>
        (isSome_bind_some _ _).trans (writeAll_isSome _ _), writeLen_isSome, writeLen_isSome]
      exact ⟨fun hw => ⟨hw.1, hw.2.1⟩, fun hw => ⟨hw.1, hw.2, hvalues⟩⟩

/-! ## Decoding a dump -/

theorem readDump_yields (h : dumpBody v = some body) (hsized : Sized v) :
    Yields (readDump sz lim) body (reload sz lim v) := by
  simp only [dumpBody, bind_eq_bind, Option.bind_eq_some_iff, pure_def, Option.some.injEq] at h
  obtain ⟨payload, hpayload, rfl⟩ := h
  refine (Reads.le (show dumpVersion < 256 ^ 2 by decide)).yields ?_
  exact (Reads.le (objTag_lt v)).yields (writeValuePayload_yields sz lim hpayload hsized)

/-- A dump passes the checks and decodes to what the loader makes of its value. -/
theorem decodeDump_dumped (h : dumpBody v = some body) (hsized : Sized v) :
    decodeDump sz lim (body ++ u64Bytes (crc64 0 body)) = reload sz lim v := by
  have hlong : 3 ≤ body.length := by
    simp only [dumpBody, bind_eq_bind, Option.bind_eq_some_iff, pure_def, Option.some.injEq] at h
    obtain ⟨payload, -, rfl⟩ := h
    simp only [List.length_append, leBytes_length]
    omega
  have hcrc : (u64Bytes (crc64 0 body)).length = 8 := leBytes_length 8 _
  have hlen : (body ++ u64Bytes (crc64 0 body)).length = body.length + 8 := by
    rw [List.length_append, hcrc]
  have hread := readDump_yields sz lim h hsized []
  rw [List.append_nil] at hread
  have hstored : leNat (u64Bytes (crc64 0 body)) = (crc64 0 body).toNat :=
    leNat_leBytes_of_lt (UInt64.toNat_lt _)
  unfold decodeDump
  rw [hlen, if_neg (by omega), Nat.add_sub_cancel, List.take_left, List.drop_left, hstored]
  simp only [ne_eq, hread]
  cases reload sz lim v <;> rfl

/-! ## Restoring -/

theorem restoreKey_entry (d : Db) (expire : Nat) (h : storable k v = true) :
    (restoreKey d k v expire).entry k = (some v, if expire = 0 then none else some expire) := by
  have hset := dbSetKv_entry d false h
  unfold restoreKey
  by_cases hzero : expire = 0
  · simpa [hzero] using hset
  have htable : (dbSetKv d k v false).table.lookup k = some v := congrArg Prod.fst hset
  simp only [hzero, if_false]
  rw [dbSetExpiry_entry, htable]
  rfl

theorem dbExpireIfNeeded_of_hidden (h : d.live now k = none) (hk : k.length ≤ uint32Max)
    : (dbExpireIfNeeded d k now).table.lookup k = none := by
  unfold dbExpireIfNeeded
  rw [if_neg (Nat.not_lt.mpr hk)]
  cases ht : d.expires.lookup k with
  | none =>
    cases hv : d.table.lookup k with
    | none => rfl
    | some v => simp [Db.live, Db.entry, hv, ht, liveEntry] at h
  | some t =>
    have hmem : k ∈ d.table := d.owned k (Finmap.mem_of_lookup_eq_some ht)
    obtain ⟨v, hv⟩ := Finmap.mem_iff.mp hmem
    have hge : ¬ now < t := by
      intro hlt
      simp [Db.live, Db.entry, hv, ht, liveEntry, hlt] at h
    simp only [if_neg hge, hv]
    have hentry : (dbTouchKey (removeEntry d k v false) k).entry k = (none, none) := by
      rw [dbTouchKey_entry, removeEntry_entry]
    exact congrArg Prod.fst hentry

/-- `d'` is `d`, or `d` without a key whose expiry had passed. -/
def Kept (now : Nat) (k : Bytes) (d d' : Db) : Prop :=
  d' = d ∨ ((∃ t, d.expires.lookup k = some t ∧ t ≤ now) ∧ d' = dbExpireIfNeeded d k now)

theorem dbExpireIfNeeded_kept (now : Nat) (k : Bytes) (d : Db) :
    Kept now k d (dbExpireIfNeeded d k now) := by
  cases ht : d.expires.lookup k with
  | none => exact .inl (by simp [dbExpireIfNeeded, ht])
  | some t =>
    by_cases hlt : now < t
    · exact .inl (by simp [dbExpireIfNeeded, ht, hlt])
    · exact .inr ⟨⟨t, ht, Nat.not_lt.mp hlt⟩, rfl⟩

/-- A restore that does not return 0 changed nothing, an expired target apart. -/
theorem snapshotRestoreKey_kept (d : Db) (k payload : Bytes) (expire : Nat) (replace : Bool)
    (now : Nat) (h : (snapshotRestoreKey sz lim d k payload expire replace now).1 ≠ 0) :
    Kept now k d (snapshotRestoreKey sz lim d k payload expire replace now).2 := by
  have hexpire := dbExpireIfNeeded_kept now k d
  unfold snapshotRestoreKey at h ⊢
  split
  · exact .inl rfl
  rename_i hk
  rw [if_neg hk] at h
  dsimp only at h ⊢
  split
  · exact hexpire
  rename_i hreplace
  rw [if_neg hreplace] at h
  cases hdec : decodeDump sz lim payload with
  | none => exact hexpire
  | some v =>
    rw [hdec] at h
    dsimp only at h ⊢
    split
    · rename_i hstore
      rw [if_pos hstore] at h
      exact absurd rfl h
    · exact hexpire

theorem lookup_of_live {t : Option Nat} (h : d.live now k = some (v, t))
    : d.table.lookup k = some v := by
  cases hv : d.table.lookup k with
  | none => simp [Db.live, Db.entry, hv, liveEntry] at h
  | some w =>
    cases ht : d.expires.lookup k with
    | none =>
      simp only [Db.live, Db.entry, hv, ht, liveEntry, Option.some.injEq, Prod.mk.injEq] at h
      rw [h.1]
    | some u =>
      simp only [Db.live, Db.entry, hv, ht, liveEntry] at h
      split at h
      · simp only [Option.some.injEq, Prod.mk.injEq] at h
        rw [h.1]
      · cases h

/-- What restoring a dump under a key that shows nothing comes to. -/
theorem snapshotRestoreKey_dumped (hk : k.length ≤ uint32Max) (habsent : d.live now k = none)
    (h : dumpBody v = some body) (hsized : Sized v) (expire : Nat) (replace : Bool) :
    snapshotRestoreKey sz lim d k (body ++ u64Bytes (crc64 0 body)) expire replace now =
      match reload sz lim v with
      | none => (-1, dbExpireIfNeeded d k now)
      | some v' => (0, restoreKey (dbExpireIfNeeded d k now) k v' expire) := by
  have hnone := dbExpireIfNeeded_of_hidden habsent hk
  unfold snapshotRestoreKey
  rw [if_neg (Nat.not_lt.mpr hk), decodeDump_dumped sz lim h hsized]
  simp only [hnone, Option.isSome_none, Bool.and_false]
  cases hv' : reload sz lim v with
  | none => rfl
  | some v' => simp [reload_storable hsized hk hv']

theorem restoreKey_live {expire : Nat} (h : storable k v = true)
    (hexpire : expire = 0 ∨ now < expire) :
    ((restoreKey d k v expire).live now k).map (fun x => view x.1) = some (view v) := by
  rw [live_of_entry (restoreKey_entry d expire h)]
  by_cases hzero : expire = 0
  · simp [hzero, liveEntry]
  · simp [hzero, liveEntry, hexpire.resolve_left hzero]

theorem oneKey_live (v : Obj) (now : Nat) : (oneKey v).live now keyK = some (v, none) := by
  have hlookup : (oneKey v).table.lookup keyK = some v := oneKey_lookup.mpr ⟨rfl, rfl⟩
  have hexp : (oneKey v).expires.lookup keyK = none := Finmap.lookup_empty keyK
  simp [Db.live, Db.entry, hlookup, hexp, liveEntry]

end Ddup.Snapshot
