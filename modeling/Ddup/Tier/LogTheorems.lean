/-
Ddup.Tier.LogTheorems — reopening a cold log.

The file is described by the list of records in it (`Logged`). Every call appends
one record or, for a compaction, rewrites the list; the index is always the fold of
the records. Replay computes the same fold, but refuses a PUT whose id is below an
id it has already passed and any record with the last id. So a reopened store
agrees with the one that was closed exactly if the ids in the file are in replay
order, and that is decided by the calls since the last compaction.
-/
import Ddup.Tier.Log

namespace Ddup.Tier

open Ddup.Lib

variable {r : Rec} {t t' : TierStore} {scan : Scan} {rs : List Rec}
variable {dbIndex m n rid : Nat} {g : Ids} {h : Header} {key val : Bytes}

/-! ## Records -/

/-- A record of the log. FLUSH_ALL is read but never written. -/
inductive Rec
  | put (dbIndex : Nat) (key val : Bytes) (expire rid : Nat)
  | del (rid : Nat)
  | flushDb (dbIndex : Nat)

namespace Rec

def header : Rec → Header
  | .put dbIndex key val expire rid => ⟨opPut, dbIndex, key.length, val.length, expire, rid⟩
  | .del rid => ⟨opDel, 0, 0, 0, 0, rid⟩
  | .flushDb dbIndex => ⟨opFlushDb, dbIndex, 0, 0, 0, 0⟩

def body : Rec → Bytes
  | .put _ key val _ _ => key ++ val
  | _ => []

def bytes (r : Rec) : Bytes := r.header.bytes ++ r.body

def size (r : Rec) : Nat := headerSize + r.body.length

/-- The fields fit the header, and a PUT has an id the allocator can give. -/
def Fits : Rec → Prop
  | .put dbIndex key val expire rid =>
    dbIndex ≤ 255 ∧ key.length + val.length ≤ uint32Max - headerSize ∧ expire ≤ uint64Max ∧
      0 < rid ∧ rid < uint64Max
  | .del rid => rid ≤ uint64Max
  | .flushDb dbIndex => dbIndex ≤ 255

end Rec

@[simp] theorem Header.bytes_length (h : Header) : h.bytes.length = headerSize := by
  simp [Header.bytes, headerSize]

@[simp] theorem Rec.bytes_length (r : Rec) : r.bytes.length = r.size := by
  simp [Rec.bytes, Rec.size]

theorem readHeader_bytes (hop : h.op ≤ 255) (hdb : h.dbIndex ≤ 255)
    (hk : h.klen ≤ uint32Max) (hv : h.vlen ≤ uint32Max) (hexp : h.expire ≤ uint64Max)
    (hrid : h.rid ≤ uint64Max) : Reads readHeader h.bytes h := by
  have h8 : ∀ n, n ≤ uint64Max → n < 256 ^ 8 := fun n hn => Nat.lt_succ_of_le hn
  have h4 : ∀ n, n ≤ uint32Max → n < 256 ^ 4 := fun n hn => Nat.lt_succ_of_le hn
  have h1 : ∀ n, n ≤ 255 → n < 256 ^ 1 := fun n hn => Nat.lt_succ_of_le hn
  refine (Reads.le (h1 _ hop)).bind ((Reads.le (h1 _ hdb)).bind ?_)
  refine (Reads.le (h4 _ hk)).bind ((Reads.le (h4 _ hv)).bind ?_)
  exact (Reads.le (h8 _ hexp)).bind ((Reads.le (h8 _ hrid)).bind_nil (Reads.pure _))

theorem Rec.header_reads (hfits : r.Fits) : Reads readHeader r.header.bytes r.header := by
  cases r with
  | put dbIndex key val expire rid =>
    obtain ⟨hdb, hbody, hexp, _, hrid⟩ := hfits
    have hsub : uint32Max - headerSize ≤ uint32Max := Nat.sub_le _ _
    refine readHeader_bytes (by simp [header, opPut]) hdb ?_ ?_ hexp (Nat.le_of_lt hrid)
    · exact Nat.le_trans (Nat.le_add_right _ _) (hbody.trans hsub)
    · exact Nat.le_trans (Nat.le_add_left _ _) (hbody.trans hsub)
  | del rid =>
    exact readHeader_bytes (by simp [header, opDel]) (Nat.zero_le _) (Nat.zero_le _)
      (Nat.zero_le _) (Nat.zero_le _) hfits
  | flushDb dbIndex =>
    exact readHeader_bytes (by simp [header, opFlushDb]) hfits (Nat.zero_le _)
      (Nat.zero_le _) (Nat.zero_le _) (Nat.zero_le _)

/-! ## What a log means -/

/-- The index after the records, the first of which lies at `off`. -/
def logIndex (scan : Scan) : Nat → List Rec → Index → Index
  | _, [], idx => idx
  | off, r :: rs, idx => logIndex scan (off + r.size) rs (replayIndex scan off r.header idx)

/-- The allocator of a replay after a record, if the record is accepted. -/
def accept (nextId : Nat) : Rec → Option Nat
  | .put _ _ _ _ rid => if rid < nextId then none else some (rid + 1)
  | .del rid => if rid = uint64Max then none else some (advanceId nextId rid)
  | .flushDb _ => some (advanceId nextId 0)

def acceptAll : Nat → List Rec → Option Nat
  | nextId, [] => some nextId
  | nextId, r :: rs => (accept nextId r).bind fun n => acceptAll n rs

def logBytes (rs : List Rec) : Bytes := rs.flatMap Rec.bytes

theorem replayRecord_rec (scan : Scan) (hfits : r.Fits)
    (avail : Nat) (havail : r.body.length ≤ avail) (hend : t.fileEnd + r.size ≤ uint64Max) :
    replayRecord scan t r.header avail = (accept t.nextId r).map fun n =>
      { t with
        index := replayIndex scan t.fileEnd r.header t.index
        nextId := n
        fileEnd := t.fileEnd + r.size } := by
  cases r with
  | put dbIndex key val expire rid =>
    obtain ⟨_, hbody, _, hpos, hrid⟩ := hfits
    simp only [Rec.size, Rec.body, List.length_append] at hend havail
    have hplace : ¬ (uint64Max - headerSize - (key.length + val.length) < t.fileEnd ∨
        avail < key.length + val.length) := by omega
    have hbody' : ¬ (uint32Max - headerSize < key.length + val.length ∨ rid = uint64Max) := by omega
    by_cases hlow : rid < t.nextId
    · simp [replayRecord, Rec.header, accept, hlow]
    have hnz : rid ≠ 0 := Nat.ne_of_gt hpos
    have hadv : advanceId t.nextId rid = rid + 1 := if_pos (Nat.le_of_not_lt hlow)
    simp [replayRecord, Rec.header, accept, hlow, hnz, hbody', hplace, Rec.size, Rec.body, hadv]
  | del rid =>
    simp only [Rec.size] at hend
    have hplace : ¬ (uint64Max - headerSize < t.fileEnd) := by omega
    by_cases hlast : rid = uint64Max
    · simp [replayRecord, Rec.header, accept, hlast]
    · simp [replayRecord, Rec.header, accept, hlast, opDel, opPut, hplace, Rec.size, Rec.body]
  | flushDb dbIndex =>
    simp only [Rec.size] at hend
    have hplace : ¬ (uint64Max - headerSize < t.fileEnd) := by omega
    have hmax : ¬ (0 = uint64Max) := by simp [uint64Max]
    simp [replayRecord, Rec.header, accept, opFlushDb, opPut, hplace, Rec.size, Rec.body,
      hmax]

/-- Replay of a file computes what its records mean, or refuses one of them. -/
theorem replayLoop_log (scan : Scan) : ∀ (rs : List Rec) (pre : Bytes) (t : TierStore)
    (fuel : Nat), (∀ r ∈ rs, r.Fits) → t.file = pre ++ logBytes rs → t.fileEnd = pre.length →
    t.file.length ≤ uint64Max → rs.length < fuel →
    replayLoop scan fuel t = (acceptAll t.nextId rs).map fun n =>
      { t with
        index := logIndex scan t.fileEnd rs t.index
        nextId := n
        fileEnd := t.file.length }
  | [], pre, t, fuel + 1, _, hfile, hend, _, _ => by
    have hfile' : t.file = pre := by simpa [logBytes] using hfile
    have hrest : t.file.drop t.fileEnd = [] := by rw [hfile', hend, List.drop_length]
    have hdone : t.file.length = t.fileEnd := by rw [hfile', hend]
    simp only [replayLoop, hrest, acceptAll, logIndex, Option.map_some, hdone]
  | r :: rs, pre, t, fuel + 1, hfits, hfile, hend, hmax, hfuel => by
    have hr : r.Fits := hfits r (List.mem_cons_self ..)
    have hbytes : logBytes (r :: rs) = r.header.bytes ++ (r.body ++ logBytes rs) := by
      simp [logBytes, Rec.bytes]
    have hrest : t.file.drop t.fileEnd = r.header.bytes ++ (r.body ++ logBytes rs) := by
      rw [hfile, hend, List.drop_left, hbytes]
    have hlen : t.file.length = pre.length + (r.size + (logBytes rs).length) := by
      rw [hfile, hbytes]
      simp [Rec.size]
      omega
    have hread := Rec.header_reads hr (r.body ++ logBytes rs)
    have hrec := replayRecord_rec scan (t := t) hr
      (r.body ++ logBytes rs).length (by simp) (by omega)
    have hstep : replayLoop scan (fuel + 1) t =
        (replayRecord scan t r.header (r.body ++ logBytes rs).length).bind (replayLoop scan fuel) := by
      rw [replayLoop, hrest]
      have hne : r.header.bytes ++ (r.body ++ logBytes rs) ≠ [] := by
        intro hnil
        have := congrArg List.length hnil
        simp [headerSize] at this
      cases hcons : r.header.bytes ++ (r.body ++ logBytes rs) with
      | nil => exact absurd hcons hne
      | cons b bs =>
        rw [hcons] at hread
        simp only [hread, Option.map_some]
        cases replayRecord scan t r.header (r.body ++ logBytes rs).length <;> rfl
    rw [hstep, hrec]
    simp only [acceptAll, logIndex]
    cases haccept : accept t.nextId r with
    | none => rfl
    | some n =>
      -- the rest of the file is the log of the remaining records
      have hnext := replayLoop_log scan rs (pre ++ r.bytes)
        { t with
          index := replayIndex scan t.fileEnd r.header t.index
          nextId := n
          fileEnd := t.fileEnd + r.size } fuel
        (fun x hx => hfits x (List.mem_cons_of_mem _ hx))
        (by rw [hfile]; simp [logBytes]) (by simp [hend]) hmax
        (by simpa using hfuel)
      simpa using hnext

/-! ## Dropping a database -/

theorem lookup_erase_all (rids : List Nat) (idx : Index) (rid : Nat) :
    (rids.foldl (fun idx r => idx.erase r) idx).lookup rid =
      if rid ∈ rids then none else idx.lookup rid := by
  induction rids generalizing idx with
  | nil => rfl
  | cons r rids ih =>
    rw [List.foldl_cons, ih]
    by_cases hr : rid = r
    · subst hr
      simp
    · simp [hr]

theorem dropDb_lookup (scan : Scan) (idx : Index) (dbIndex rid : Nat) :
    (dropDb scan idx dbIndex).lookup rid =
      if (idx.lookup rid).map Loc.dbIndex = some dbIndex then none else idx.lookup rid := by
  unfold dropDb
  simp only [lookup_erase_all, List.mem_filter, scan.mem, decide_eq_true_eq]
  by_cases hdb : (idx.lookup rid).map Loc.dbIndex = some dbIndex
  · have hmem : rid ∈ idx := by
      rw [← Finmap.lookup_isSome]
      cases hl : idx.lookup rid with
      | none => rw [hl] at hdb; cases hdb
      | some loc => rfl
    rw [if_pos ⟨hmem, hdb⟩, if_pos hdb]
  · rw [if_neg fun h => hdb h.2, if_neg hdb]

theorem dropDb_scan (scan scan' : Scan) (idx : Index) (dbIndex : Nat) :
    dropDb scan idx dbIndex = dropDb scan' idx dbIndex := by
  apply Finmap.ext_lookup
  intro rid
  rw [dropDb_lookup, dropDb_lookup]

theorem replayIndex_scan (scan scan' : Scan) (off : Nat) (h : Header) (idx : Index) :
    replayIndex scan off h idx = replayIndex scan' off h idx := by
  unfold replayIndex
  rw [dropDb_scan scan scan']

theorem logIndex_scan (scan scan' : Scan) : ∀ rs off idx,
    logIndex scan off rs idx = logIndex scan' off rs idx
  | [], _, _ => rfl
  | r :: rs, off, idx => by
    rw [logIndex, replayIndex_scan scan scan']
    exact logIndex_scan scan scan' rs _ _

theorem logIndex_append (scan : Scan) : ∀ rs rs' off idx,
    logIndex scan off (rs ++ rs') idx =
      logIndex scan (off + (logBytes rs).length) rs' (logIndex scan off rs idx)
  | [], _, _, _ => rfl
  | r :: rs, rs', off, idx => by
    rw [List.cons_append, logIndex, logIndex_append scan rs rs']
    congr 1
    simp [logBytes, Nat.add_assoc]

theorem acceptAll_append : ∀ rs rs' nextId,
    acceptAll nextId (rs ++ rs') = (acceptAll nextId rs).bind fun n => acceptAll n rs'
  | [], _, _ => rfl
  | r :: rs, rs', nextId => by
    rw [List.cons_append, acceptAll, acceptAll]
    cases accept nextId r with
    | none => rfl
    | some n => exact acceptAll_append rs rs' n

/-! ## The records in the file -/

/-- The records at which the ids of an index are found: a live id has a PUT in the
log, at the place the index gives. -/
theorem logIndex_lookup (scan : Scan) : ∀ (rs : List Rec) (off : Nat) (idx : Index) (rid : Nat)
    (loc : Loc), (logIndex scan off rs idx).lookup rid = some loc →
    idx.lookup rid = some loc ∨
      ∃ pre dbIndex key val expire post, rs = pre ++ .put dbIndex key val expire rid :: post ∧
        loc = putLoc (off + (logBytes pre).length) dbIndex key.length val.length
  | [], _, _, _, _, h => .inl h
  | r :: rs, off, idx, rid, loc, h => by
    rcases logIndex_lookup scan rs _ _ rid loc h with hidx | ⟨pre, db, key, val, exp, post, hrs, hl⟩
    · cases r with
      | put dbIndex key val expire rid' =>
        by_cases hr : rid = rid'
        · subst hr
          refine .inr ⟨[], dbIndex, key, val, expire, rs, rfl, ?_⟩
          simpa [replayIndex, Rec.header, opPut, opDel, opFlushDb, opFlushAll, logBytes,
            eq_comm] using hidx
        · left
          simpa [replayIndex, Rec.header, opPut, opDel, opFlushDb, opFlushAll,
            Finmap.lookup_insert_of_ne _ hr] using hidx
      | del rid' =>
        left
        by_cases hr : rid = rid'
        · subst hr
          simp [replayIndex, Rec.header, opDel, opFlushDb, opFlushAll] at hidx
        · simpa [replayIndex, Rec.header, opDel, opFlushDb, opFlushAll,
            Finmap.lookup_erase_ne hr] using hidx
      | flushDb dbIndex =>
        left
        have hdrop : (dropDb scan idx dbIndex).lookup rid = some loc := hidx
        rw [dropDb_lookup] at hdrop
        split at hdrop
        · cases hdrop
        · exact hdrop
    · refine .inr ⟨r :: pre, db, key, val, exp, post, by rw [hrs]; rfl, ?_⟩
      rw [hl]
      congr 1
      simp [logBytes, Nat.add_assoc]

/-- `t` is the store whose file holds the records `rs`. -/
structure Logged (scan : Scan) (t : TierStore) (rs : List Rec) : Prop where
  file : t.file = magic ++ logBytes rs
  fileEnd : t.fileEnd = t.file.length
  bound : t.file.length ≤ uint64Max
  fits : ∀ r ∈ rs, r.Fits
  index : t.index = logIndex scan magic.length rs ∅
  below : ∀ rid, rid ∈ t.index → rid < t.nextId
  next : 0 < t.nextId ∧ t.nextId ≤ uint64Max

theorem tierCreate_logged (scan : Scan) (maxDisk : Nat) : Logged scan (tierCreate maxDisk) [] where
  file := (List.append_nil _).symm
  fileEnd := rfl
  bound := show magic.length ≤ uint64Max by decide
  fits := by simp
  index := rfl
  below := fun _ h => absurd h Finmap.notMem_empty
  next := ⟨Nat.one_pos, show 1 ≤ uint64Max by decide⟩

theorem appendRecord_eq (hend : t.fileEnd = t.file.length)
    (hpos : 0 < t.file.length) (happ : appendRecord t h key val = some t') :
    t' = { t with
      file := t.file ++ (h.bytes ++ (key ++ val))
      fileEnd := (t.file ++ (h.bytes ++ (key ++ val))).length } ∧
    t'.file.length ≤ uint64Max := by
  unfold appendRecord at happ
  dsimp only at happ
  split at happ
  · cases happ
  rename_i hroom
  split at happ
  · cases happ
  cases happ
  have hwrite : writeAt t.file t.fileEnd (h.bytes ++ key ++ val) =
      t.file ++ (h.bytes ++ (key ++ val)) := by
    simp [writeAt, hend]
  constructor
  · rw [hwrite]
    congr 1
    simp
    omega
  · rw [hwrite]
    simp at hroom ⊢
    omega

theorem Logged.pos (h : Logged scan t rs) : 0 < t.file.length := by
  rw [h.file]
  simp [magic]

/-- A call that appends the record `r` and does to the index what replay does. -/
theorem Logged.append {t₁ : TierStore} (hlog : Logged scan t rs) (hfits : r.Fits)
    (hbody : r.body = key ++ val) (happ : appendRecord t r.header key val = some t₁) {idx : Index} (hidx : idx = replayIndex scan t.fileEnd r.header t.index)
    (hbelow : ∀ rid, rid ∈ idx → rid < n) (hnext : 0 < n ∧ n ≤ uint64Max) :
    Logged scan { t₁ with index := idx, nextId := n } (rs ++ [r]) := by
  obtain ⟨ht₁, hbound⟩ := appendRecord_eq hlog.fileEnd hlog.pos happ
  have hfile : t₁.file = magic ++ logBytes (rs ++ [r]) := by
    rw [ht₁, hlog.file]
    simp [logBytes, Rec.bytes, hbody]
  refine ⟨hfile, ?_, hbound, ?_, ?_, hbelow, hnext⟩
  · rw [ht₁]
  · intro x hx
    rcases List.mem_append.mp hx with hx | hx
    · exact hlog.fits x hx
    · rw [List.mem_singleton.mp hx]
      exact hfits
  · have hoff : t.fileEnd = magic.length + (logBytes rs).length := by
      rw [hlog.fileEnd, hlog.file, List.length_append]
    rw [logIndex_append, ← hlog.index, hidx, hoff]
    rfl

theorem tierPut_logged (hlog : Logged scan t rs) {expire : UInt64}
    (hput : step scan t (.put dbIndex key val expire) = some t') :
    Logged scan t' (rs ++ [.put dbIndex key val expire.toNat t.nextId]) ∧
      t'.nextId = t.nextId + 1 := by
  simp only [step, tierPut] at hput
  split at hput
  · cases hput
  split at hput
  · cases hput
  rw [Option.map_map, Option.map_eq_some_iff] at hput
  obtain ⟨t₁, happ, ht'⟩ := hput
  subst ht'
  have hexp : expire.toNat ≤ uint64Max := Nat.le_of_lt_succ expire.toNat_lt
  have hnext := hlog.next
  have hfits : (Rec.put dbIndex key val expire.toNat t.nextId).Fits :=
    ⟨by omega, by omega, hexp, hnext.1, by omega⟩
  obtain ⟨ht₁, _⟩ := appendRecord_eq hlog.fileEnd hlog.pos happ
  refine ⟨hlog.append hfits rfl happ ?_ ?_ ?_, rfl⟩
  · rw [ht₁]
    rfl
  · intro rid hrid
    rw [ht₁] at hrid
    rcases Finmap.mem_insert.mp hrid with rfl | hold
    · exact Nat.lt_succ_self _
    · exact Nat.lt_succ_of_lt (hlog.below rid hold)
  · omega

theorem tierDel_logged
    (hlog : Logged scan t rs) {rid : UInt64} (hdel : step scan t (.del rid) = some t') :
    Logged scan t' (rs ++ [.del rid.toNat]) ∧ t'.nextId = t.nextId := by
  simp only [step, tierDel, Option.map_eq_some_iff] at hdel
  obtain ⟨t₁, happ, ht'⟩ := hdel
  subst ht'
  have hfits : (Rec.del rid.toNat).Fits := Nat.le_of_lt_succ rid.toNat_lt
  obtain ⟨ht₁, _⟩ := appendRecord_eq hlog.fileEnd hlog.pos happ
  have hnext : t₁.nextId = t.nextId := by rw [ht₁]
  refine ⟨hlog.append hfits rfl happ (by rw [ht₁]; rfl) ?_ (hnext ▸ hlog.next), hnext⟩
  intro r hr
  rw [ht₁] at hr ⊢
  exact hlog.below r (Finmap.mem_erase.mp hr).2

theorem tierFlushDb_logged
    (hlog : Logged scan t rs) (hflush : step scan t (.flushDb dbIndex) = some t') :
    Logged scan t' (rs ++ [.flushDb dbIndex]) ∧ t'.nextId = t.nextId := by
  simp only [step, tierFlushDb] at hflush
  split at hflush
  · cases hflush
  rename_i hdb
  rw [Option.map_eq_some_iff] at hflush
  obtain ⟨t₁, happ, ht'⟩ := hflush
  subst ht'
  have hfits : (Rec.flushDb dbIndex).Fits := Nat.le_of_not_lt hdb
  obtain ⟨ht₁, _⟩ := appendRecord_eq hlog.fileEnd hlog.pos happ
  have hnext : t₁.nextId = t.nextId := by rw [ht₁]
  refine ⟨hlog.append hfits rfl happ (by rw [ht₁]; rfl) ?_ (hnext ▸ hlog.next), hnext⟩
  intro r hr
  rw [ht₁] at hr ⊢
  refine hlog.below r ?_
  rw [← Finmap.lookup_isSome, dropDb_lookup] at hr
  split at hr
  · cases hr
  · exact Finmap.lookup_isSome.mp hr

/-! ## Compaction -/

def IsPut (rid : Nat) (r : Rec) : Prop :=
  ∃ dbIndex key val expire, r = .put dbIndex key val expire rid

theorem Logged.record (hlog : Logged scan t rs) {loc : Loc} (hloc : t.index.lookup rid = some loc) :
    ∃ dbIndex key val expire, (Rec.put dbIndex key val expire rid).Fits ∧
      readAt t.file loc.off loc.len = some (Rec.put dbIndex key val expire rid).bytes ∧
      loc = putLoc loc.off dbIndex key.length val.length := by
  rw [hlog.index] at hloc
  rcases logIndex_lookup scan rs _ _ rid loc hloc with hnone |
      ⟨pre, dbIndex, key, val, expire, post, hrs, hl⟩
  · rw [Finmap.lookup_empty] at hnone
    cases hnone
  refine ⟨dbIndex, key, val, expire, hlog.fits _ (hrs ▸ by simp), ?_, by rw [hl]; rfl⟩
  have hfile : t.file = (magic ++ logBytes pre) ++
      ((Rec.put dbIndex key val expire rid).bytes ++ logBytes post) := by
    rw [hlog.file, hrs]
    simp [logBytes]
  have hoff : loc.off = (magic ++ logBytes pre).length := by rw [hl]; simp [putLoc]
  have hlen : loc.len = (Rec.put dbIndex key val expire rid).bytes.length := by
    rw [hl]
    simp [putLoc, Rec.size, Rec.body]
  unfold readAt
  rw [if_pos, hfile, hoff, List.drop_left, hlen, List.take_left]
  right
  rw [hfile, hoff]
  simp only [List.length_append]
  omega

theorem forall₂_exists_left {rids : List Nat} {new : List Rec}
    (h : List.Forall₂ IsPut rids new) (hr : r ∈ new) : ∃ rid ∈ rids, IsPut rid r := by
  induction h with
  | nil => cases hr
  | cons hput _ ih =>
    rcases List.mem_cons.mp hr with rfl | hr
    · exact ⟨_, List.mem_cons_self .., hput⟩
    · obtain ⟨rid, hmem, hput'⟩ := ih hr
      exact ⟨rid, List.mem_cons_of_mem _ hmem, hput'⟩

def installItems (items : List (Nat × Loc)) : Index :=
  items.foldl (fun idx x => idx.insert x.1 x.2) ∅

/-- The copy loop writes one PUT for each id, in the order of the ids, and the new
places are those of the copies. -/
theorem copyRecords_log
    (hlog : Logged scan t rs) : ∀ (rids : List Nat) (file : Bytes) (items : List (Nat × Loc))
    (file' : Bytes) (items' : List (Nat × Loc)), (∀ rid ∈ rids, rid ∈ t.index) →
    file.length ≤ uint64Max → copyRecords t rids (file, items) = some (file', items') →
    ∃ new, List.Forall₂ IsPut rids new ∧ (∀ r ∈ new, r.Fits) ∧ file' = file ++ logBytes new ∧
      file'.length ≤ uint64Max ∧
      installItems items' = logIndex scan file.length new (installItems items)
  | [], file, items, file', items', _, hmax, h => by
    cases h
    exact ⟨[], .nil, by simp, by simp [logBytes], hmax, rfl⟩
  | rid :: rids, file, items, file', items', hlive, hmax, h => by
    obtain ⟨loc, hloc⟩ := Finmap.mem_iff.mp (hlive rid (List.mem_cons_self ..))
    obtain ⟨dbIndex, key, val, expire, hfits, hread, hplace⟩ := hlog.record hloc
    simp only [copyRecords, hloc, hread] at h
    split at h
    · cases h
    rename_i hroom
    have hlen : loc.len = (Rec.put dbIndex key val expire rid).size := by
      rw [hplace]
      simp [putLoc, Rec.size, Rec.body]
    have hmax' : (file ++ (Rec.put dbIndex key val expire rid).bytes).length ≤ uint64Max := by
      have hsize := hfits.2.1
      simp only [List.length_append, Rec.bytes_length]
      simp only [hlen] at hroom
      simp only [Rec.size, Rec.body, List.length_append] at hroom ⊢
      have : headerSize + (key.length + val.length) ≤ uint64Max := by
        have hu : uint32Max ≤ uint64Max := by decide
        have hh : headerSize ≤ uint32Max := by decide
        omega
      omega
    obtain ⟨new, hputs, hnew, hfile', hbound, hitems⟩ :=
      copyRecords_log hlog rids _ _ file' items'
        (fun x hx => hlive x (List.mem_cons_of_mem _ hx)) hmax' h
    refine ⟨.put dbIndex key val expire rid :: new, .cons ⟨_, _, _, _, rfl⟩ hputs, ?_, ?_,
      hbound, ?_⟩
    · intro r hr
      rcases List.mem_cons.mp hr with rfl | hr
      · exact hfits
      · exact hnew r hr
    · rw [hfile']
      simp [logBytes]
    rw [hitems, logIndex]
    simp only [List.length_append, Rec.bytes_length]
    congr 1
    have hloc' : { loc with off := file.length } =
        putLoc file.length dbIndex key.length val.length := by
      rw [hplace]
      rfl
    simp only [installItems, List.foldl_append, hloc']
    rfl

theorem tierCompact_logged (hlog : Logged scan t rs) (hcompact : step scan t .compact = some t') :
    ∃ new, Logged scan t' new ∧ List.Forall₂ IsPut (scan.order t.index) new ∧
      t'.nextId = t.nextId := by
  simp only [step, tierCompact, Option.map_eq_some_iff] at hcompact
  obtain ⟨⟨file', items'⟩, hcopy, ht'⟩ := hcompact
  subst ht'
  obtain ⟨new, hputs, hfits, hfile', hbound, hitems⟩ := copyRecords_log hlog _ _ _ _ _
    (fun rid hrid => (scan.mem _ rid).mp hrid) (show magic.length ≤ uint64Max by decide) hcopy
  have hindex : installItems items' = logIndex scan magic.length new ∅ := hitems
  refine ⟨new, ⟨hfile', rfl, hbound, hfits, hindex, ?_, hlog.next⟩, hputs, rfl⟩
  intro rid hrid
  -- a live id of the copy is one of the ids that were walked
  obtain ⟨loc, hloc⟩ := Finmap.mem_iff.mp hrid
  change (installItems items').lookup rid = some loc at hloc
  rw [hindex] at hloc
  rcases logIndex_lookup scan new _ _ rid loc hloc with hnone |
      ⟨pre, dbIndex, key, val, expire, post, hnew, _⟩
  · rw [Finmap.lookup_empty] at hnone
    cases hnone
  have hin : Rec.put dbIndex key val expire rid ∈ new := by rw [hnew]; simp
  obtain ⟨rid', hmem, _, _, _, _, hput⟩ := forall₂_exists_left hputs hin
  cases hput
  exact hlog.below _ ((scan.mem _ _).mp hmem)

/-! ## Replay order -/

theorem accept_le (h : accept n r = some m) : n ≤ m := by
  cases r with
  | put dbIndex key val expire rid =>
    simp only [accept] at h
    split at h
    · cases h
    · cases h
      omega
  | del rid =>
    simp only [accept, advanceId] at h
    split at h
    · cases h
    · cases h
      split <;> omega
  | flushDb dbIndex =>
    simp only [accept, advanceId, Option.some.injEq] at h
    subst h
    split <;> omega

theorem acceptAll_le : ∀ {rs} {n m}, acceptAll n rs = some m → n ≤ m
  | [], _, _, h => by cases h; exact Nat.le_refl _
  | r :: rs, n, m, h => by
    rw [acceptAll, Option.bind_eq_some_iff] at h
    obtain ⟨k, hr, hrs⟩ := h
    exact (accept_le hr).trans (acceptAll_le hrs)

theorem acceptAll_put {pre post : List Rec} {expire : Nat}
    (h : acceptAll n (pre ++ .put dbIndex key val expire rid :: post) = some m) : rid < m := by
  rw [acceptAll_append, Option.bind_eq_some_iff] at h
  obtain ⟨k, _, h⟩ := h
  rw [acceptAll, Option.bind_eq_some_iff] at h
  obtain ⟨k', hput, hpost⟩ := h
  have hle := acceptAll_le hpost
  simp only [accept] at hput
  split at hput
  · cases hput
  · cases hput
    exact hle

/-- PUTs are replayed exactly if their ids increase; the allocator then follows the
last of them. -/
theorem acceptAll_puts : ∀ {rids} {new} {n},
    List.Forall₂ IsPut rids new →
      (∀ m, acceptAll n new = some m ↔
        (n :: rids.map (· + 1)).getLast (by simp) = m ∧ rids.Pairwise (· < ·) ∧
          ∀ rid ∈ rids, n ≤ rid)
  | [], _, n, .nil, m => by simp [acceptAll]
  | rid :: rids, r :: new, n, .cons hput hputs, m => by
    obtain ⟨dbIndex, key, val, expire, rfl⟩ := hput
    rw [acceptAll, accept]
    by_cases hlow : rid < n
    · simp only [if_pos hlow, Option.bind_none, false_iff, reduceCtorEq]
      rintro ⟨_, _, hge⟩
      exact absurd (hge rid (List.mem_cons_self ..)) (Nat.not_le_of_lt hlow)
    rw [if_neg hlow, Option.bind_some, acceptAll_puts hputs]
    simp only [List.map_cons, List.pairwise_cons, List.mem_cons,
      forall_eq_or_imp]
    constructor
    · rintro ⟨hlast, hpair, hge⟩
      exact ⟨hlast, ⟨hge, hpair⟩, by omega, fun x hx => by have := hge x hx; omega⟩
    · rintro ⟨hlast, ⟨hge, hpair⟩, _, _⟩
      exact ⟨hlast, hpair, hge⟩

/-- What the calls since the last compaction tell about the ids in the file:
whether they are in replay order, and whether a deletion has named an id that had
not been handed out yet. -/
structure Ids where
  ordered : Bool
  ahead : Bool

/-- A call, judged in the state it starts from. A compaction writes the live ids in
table order; a deletion of the last id is never replayed; after a deletion of an id
still to come no id of the allocator is. -/
def Ids.next (scan : Scan) (t : TierStore) (g : Ids) : Call → Ids
  | .put _ _ _ _ => ⟨g.ordered && !g.ahead, g.ahead⟩
  | .del rid =>
    ⟨g.ordered && decide (rid.toNat ≠ uint64Max), g.ahead || decide (t.nextId ≤ rid.toNat)⟩
  | .flushDb _ => g
  | .compact => ⟨decide ((scan.order t.index).Pairwise (· < ·)), false⟩

/-- Whether a sequence of calls leaves the ids of the file in replay order. -/
def idsInOrder (scan : Scan) : TierStore → Ids → List Call → Bool
  | _, g, [] => g.ordered
  | t, g, c :: cs =>
    match step scan t c with
    | none => g.ordered
    | some t' => idsInOrder scan t' (g.next scan t c) cs

/-- The judgement is that of the replay. -/
def Tracked (scan : Scan) (t : TierStore) (g : Ids) : Prop :=
  ∃ rs, Logged scan t rs ∧
    ((g.ordered = false ∧ acceptAll 1 rs = none) ∨
      ∃ n, g.ordered = true ∧ acceptAll 1 rs = some n ∧ (g.ahead = false ↔ n ≤ t.nextId))

theorem tierCreate_tracked (scan : Scan) (maxDisk : Nat) :
    Tracked scan (tierCreate maxDisk) ⟨true, false⟩ :=
  ⟨[], tierCreate_logged scan maxDisk, .inr ⟨1, rfl, rfl, by simp [tierCreate]⟩⟩

theorem acceptAll_snoc (h : acceptAll 1 rs = some n) :
    acceptAll 1 (rs ++ [r]) = accept n r := by
  rw [acceptAll_append, h, Option.bind_some, acceptAll]
  cases accept n r <;> rfl

theorem acceptAll_snoc_none (h : acceptAll 1 rs = none) : acceptAll 1 (rs ++ [r]) = none := by
  rw [acceptAll_append, h]
  rfl

theorem advanceId_le_iff :
    advanceId n rid ≤ m ↔ n ≤ m ∧ rid < m ∨ n ≤ m ∧ rid < n := by
  unfold advanceId
  split <;> omega

theorem step_tracked {c : Call} (htrack : Tracked scan t g) (hstep : step scan t c = some t') :
    Tracked scan t' (g.next scan t c) := by
  obtain ⟨rs, hlog, hids⟩ := htrack
  cases c with
  | put dbIndex key val expire =>
    obtain ⟨hlog', hnext⟩ := tierPut_logged hlog hstep
    refine ⟨_, hlog', ?_⟩
    rcases hids with ⟨hord, hnone⟩ | ⟨n, hord, hsome, hahead⟩
    · exact .inl ⟨by simp [Ids.next, hord], acceptAll_snoc_none hnone⟩
    rw [acceptAll_snoc hsome]
    cases hg : g.ahead with
    | true =>
      -- a deletion went past the allocator: the next id comes too late
      have hlate : t.nextId < n := by
        by_contra hle
        exact absurd (hahead.mpr (Nat.le_of_not_lt hle)) (by simp [hg])
      exact .inl ⟨by simp [Ids.next, hg], if_pos hlate⟩
    | false =>
      have hle : n ≤ t.nextId := hahead.mp hg
      refine .inr ⟨t.nextId + 1, by simp [Ids.next, hg, hord],
        if_neg (Nat.not_lt_of_le hle), ?_⟩
      simp [Ids.next, hg, hnext]
  | del rid =>
    obtain ⟨hlog', hnext⟩ := tierDel_logged hlog hstep
    refine ⟨_, hlog', ?_⟩
    rcases hids with ⟨hord, hnone⟩ | ⟨n, hord, hsome, hahead⟩
    · exact .inl ⟨by simp [Ids.next, hord], acceptAll_snoc_none hnone⟩
    rw [acceptAll_snoc hsome]
    by_cases hlast : rid.toNat = uint64Max
    · exact .inl ⟨by simp [Ids.next, hlast], if_pos hlast⟩
    refine .inr ⟨advanceId n rid.toNat, by simp [Ids.next, hord, hlast], if_neg hlast, ?_⟩
    rw [advanceId_le_iff]
    simp only [Ids.next, Bool.or_eq_false_iff, hahead, decide_eq_false_iff_not]
    omega
  | flushDb dbIndex =>
    obtain ⟨hlog', hnext⟩ := tierFlushDb_logged hlog hstep
    refine ⟨_, hlog', ?_⟩
    rcases hids with ⟨hord, hnone⟩ | ⟨n, hord, hsome, hahead⟩
    · exact .inl ⟨hord, acceptAll_snoc_none hnone⟩
    refine .inr ⟨advanceId n 0, hord, by rw [acceptAll_snoc hsome, accept], ?_⟩
    have hpos := hlog.next.1
    rw [advanceId_le_iff]
    exact hahead.trans (by omega)
  | compact =>
    obtain ⟨new, hlog', hputs, hnext⟩ := tierCompact_logged hlog hstep
    refine ⟨new, hlog', ?_⟩
    have hpos : ∀ rid ∈ scan.order t.index, 1 ≤ rid := by
      intro rid hrid
      obtain ⟨loc, hloc⟩ := Finmap.mem_iff.mp ((scan.mem _ _).mp hrid)
      obtain ⟨_, _, _, _, hfits, _⟩ := hlog.record hloc
      exact hfits.2.2.2.1
    by_cases hpair : (scan.order t.index).Pairwise (· < ·)
    · refine .inr ⟨_, by simp [Ids.next, hpair],
        (acceptAll_puts hputs _).mpr ⟨rfl, hpair, hpos⟩, ?_⟩
      simp only [Ids.next, true_iff]
      have hmem := List.getLast_mem
        (show (1 :: (scan.order t.index).map (· + 1)) ≠ [] by simp)
      rw [hnext]
      rcases List.mem_cons.mp hmem with hone | hlast
      · rw [hone]
        exact hlog.next.1
      obtain ⟨rid, hrid, hsucc⟩ := List.mem_map.mp hlast
      rw [← hsucc]
      exact hlog.below rid ((scan.mem _ _).mp hrid)
    · refine .inl ⟨by simp [Ids.next, hpair], ?_⟩
      cases haccept : acceptAll 1 new with
      | none => rfl
      | some m => exact absurd ((acceptAll_puts hputs m).mp haccept).2.1 hpair

/-! ## Reopening -/

theorem length_le_logBytes (rs : List Rec) : rs.length ≤ (logBytes rs).length := by
  induction rs with
  | nil => exact Nat.le_refl _
  | cons r rs ih =>
    simp only [logBytes, List.flatMap_cons, List.length_append, Rec.bytes_length, Rec.size,
      headerSize, List.length_cons] at ih ⊢
    omega

/-- Opening a file gives the store that wrote it, if its ids are accepted. -/
theorem Logged.reopen (hlog : Logged scan t rs) (scan' : Scan) (maxDisk : Nat) :
    tierOpen scan' t.file maxDisk =
      (acceptAll 1 rs).map fun n => ⟨t.file, t.index, n, t.fileEnd, maxDisk⟩ := by
  have hmagic : t.file.take magic.length = magic := by rw [hlog.file, List.take_left]
  have hfuel : rs.length < t.file.length := by
    have hle := length_le_logBytes rs
    have hm : 0 < magic.length := by decide
    rw [hlog.file, List.length_append]
    omega
  have hloop := replayLoop_log scan' rs magic ⟨t.file, ∅, 1, magic.length, maxDisk⟩ _ hlog.fits
    hlog.file rfl hlog.bound hfuel
  rw [tierOpen, if_pos hmagic, hloop, hlog.fileEnd, hlog.index]
  simp only [logIndex_scan scan' scan]

/-- A reopened store agrees with `t`: the same live ids, the same value and expiry
for each, and an allocator past all of them. -/
def Recovers (t : TierStore) (reopened : Option TierStore) : Prop :=
  ∃ t', reopened = some t' ∧ (∀ rid, rid ∈ t'.index ↔ rid ∈ t.index) ∧
    (∀ rid, tierGet t' rid = tierGet t rid) ∧ ∀ rid, rid ∈ t'.index → rid < t'.nextId

theorem Logged.recovers_iff (hlog : Logged scan t rs) (scan' : Scan) (maxDisk : Nat) :
    Recovers t (tierOpen scan' t.file maxDisk) ↔ ∃ n, acceptAll 1 rs = some n := by
  rw [hlog.reopen]
  constructor
  · rintro ⟨t', hopen, _⟩
    obtain ⟨n, hn, _⟩ := Option.map_eq_some_iff.mp hopen
    exact ⟨n, hn⟩
  rintro ⟨n, hn⟩
  refine ⟨⟨t.file, t.index, n, t.fileEnd, maxDisk⟩, by rw [hn]; rfl, fun _ => Iff.rfl,
    fun _ => rfl, ?_⟩
  intro rid hrid
  obtain ⟨loc, hloc⟩ := Finmap.mem_iff.mp hrid
  rw [hlog.index] at hloc
  rcases logIndex_lookup scan rs _ _ rid loc hloc with hnone |
      ⟨pre, dbIndex, key, val, expire, post, hrs, _⟩
  · rw [Finmap.lookup_empty] at hnone
    cases hnone
  · exact acceptAll_put (hrs ▸ hn)

theorem Tracked.recovers_iff (h : Tracked scan t g) (scan' : Scan) (maxDisk : Nat) :
    Recovers t (tierOpen scan' t.file maxDisk) ↔ g.ordered = true := by
  obtain ⟨rs, hlog, hids⟩ := h
  rw [hlog.recovers_iff scan' maxDisk]
  rcases hids with ⟨hord, hnone⟩ | ⟨n, hord, hsome, _⟩
  · simp [hord, hnone]
  · simp [hord, hsome]

/-- A whole run: what one call preserves, from any state a run can reach. -/
theorem runCalls_recovers_iff (scan' : Scan) (maxDisk : Nat) :
    ∀ calls t g t', Tracked scan t g →
      runCalls scan t calls = some t' →
      (Recovers t' (tierOpen scan' t'.file maxDisk) ↔ idsInOrder scan t g calls = true)
  | [], _, _, _, htrack, hrun => by
    cases hrun
    exact htrack.recovers_iff scan' maxDisk
  | c :: cs, t, g, t', htrack, hrun => by
    rw [runCalls, Option.bind_eq_some_iff] at hrun
    obtain ⟨t₁, hstep, hrest⟩ := hrun
    rw [idsInOrder, hstep]
    exact runCalls_recovers_iff scan' maxDisk cs t₁ _ t' (step_tracked htrack hstep) hrest

/-- A table that holds each id in a slot of its own. -/
def slotScan (slot : Nat ≃ Nat) : Scan where
  order := fun idx =>
    ((List.range (idx.keys.sup slot + 1)).map slot.symm).filter (· ∈ idx)
  mem := by
    intro idx rid
    simp only [List.mem_filter, List.mem_map, List.mem_range, decide_eq_true_eq,
      and_iff_right_iff_imp]
    intro hmem
    have hle : slot rid ≤ idx.keys.sup slot :=
      Finset.le_sup (Finmap.mem_keys.mpr hmem)
    exact ⟨slot rid, Nat.lt_succ_of_le hle, slot.symm_apply_apply rid⟩
  nodup := by
    intro idx
    exact (List.nodup_range.map slot.symm.injective).filter _

def fourPuts : List Call :=
  [.put 0 [1] [7] 0, .put 0 [2] [7] 0, .put 0 [3] [7] 0, .put 0 [4] [7] 0, .compact]

def fourPutsStore (slot : Nat ≃ Nat) : TierStore :=
  (runCalls (slotScan slot) (tierCreate 0) fourPuts).getD (tierCreate 0)

theorem fourPuts_run (slot : Nat ≃ Nat)
    (h : (runCalls (slotScan slot) (tierCreate 0) fourPuts).isSome = true) :
    runCalls (slotScan slot) (tierCreate 0) fourPuts = some (fourPutsStore slot) := by
  obtain ⟨t, ht⟩ := Option.isSome_iff_exists.mp h
  rw [fourPutsStore, ht]
  rfl

end Ddup.Tier
