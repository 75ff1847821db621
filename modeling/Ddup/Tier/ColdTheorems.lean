/-
Ddup.Tier.ColdTheorems — offloading against the same run without it.

The abstract machine holds a view and an expiry per key and knows no cold store
(`absStep`). A tiered database refines it (`Refines`): a cold key has a record of its
own, whose payload decodes to the value and whose expiry is the key's. Every step
keeps this but PERSIST of a cold key, which changes one of the two expiries, and the
offload of a value whose dump loses something.
-/
import Ddup.Tier.Cold
import Ddup.Tier.LogTheorems
import Ddup.Snapshot.DumpTheorems

namespace Ddup.Tier

open Ddup.Lib Ddup.Store Ddup.Snapshot Ddup.Server Ddup.Command
open List (length_append)
open Prod (ext fst snd)
open UInt64 (ofNat)

variable {t t' : TierStore} {rid : Nat}
    {s : Tiered} {rid : Nat} {k payload : Bytes} {v : Obj} {E : ColdEnv}
variable {dbIndex e len now off : Nat} {f : Db → Db} {lim : Limits} {op : ColdOp} {sz : ObjMem}
  {val : Bytes}

/-! ## The store -/

/-- The file is a log of records and the index finds them. -/
def Working (t : TierStore) : Prop := ∃ scan rs, Logged scan t rs

theorem readAt_append {file : Bytes} (more : Bytes) {b : Bytes}
    (h : readAt file off len = some b) : readAt (file ++ more) off len = some b := by
  unfold readAt at h ⊢
  split at h
  · rename_i hin
    rcases hin with rfl | hle
    · simpa using h
    have hle' : off + len ≤ (file ++ more).length := by
      rw [length_append]
      omega
    rw [if_pos (.inr hle'), List.drop_append_of_le_length (by omega),
      List.take_append_of_le_length (by rw [List.length_drop]; omega)]
    exact h
  · cases h

/-- A record stays readable while the file grows and its id is not touched. -/
theorem tierGet_append {more : Bytes} {x : Bytes × Nat} (hend : t.fileEnd ≤ t'.fileEnd)
    (hfile : t'.file = t.file ++ more) (hidx : t'.index.lookup rid = t.index.lookup rid)
    (h : tierGet t rid = some x) : tierGet t' rid = some x := by
  unfold tierGet at h ⊢
  rw [hidx]
  cases hloc : t.index.lookup rid with
  | none =>
    rw [hloc] at h
    cases h
  | some loc =>
    rw [hloc] at h
    dsimp only at h ⊢
    split at h
    · cases h
    rw [if_neg (by omega)]
    simp only [Option.bind_eq_bind, Option.bind_eq_some_iff] at h ⊢
    obtain ⟨val, hval, hdr, hhdr, hrest⟩ := h
    exact ⟨val, hfile ▸ readAt_append more hval, hdr, hfile ▸ readAt_append more hhdr, hrest⟩

theorem index_of_tierGet {x : Bytes × Nat} (h : tierGet t rid = some x) : rid ∈ t.index := by
  unfold tierGet at h
  cases hloc : t.index.lookup rid with
  | none =>
    rw [hloc] at h
    cases h
  | some loc => exact Finmap.mem_of_lookup_eq_some hloc

theorem tierDel_spec (hw : Working t) (hrid : rid ≤ uint64Max) (h : tierDel t rid = some t') :
    Working t' ∧ ∀ rid' x, rid' ≠ rid → tierGet t rid' = some x → tierGet t' rid' = some x := by
  obtain ⟨scan, rs, hlog⟩ := hw
  have hround : (ofNat rid).toNat = rid :=
    UInt64.toNat_ofNat_of_lt' (Nat.lt_succ_of_le hrid)
  have hstep : step scan t (.del (ofNat rid)) = some t' := by rw [step, hround, h]
  obtain ⟨hlog', -⟩ := tierDel_logged hlog hstep
  refine ⟨⟨scan, _, hlog'⟩, fun rid' x hne hget => ?_⟩
  rw [tierDel, Option.map_eq_some_iff] at h
  obtain ⟨t₁, happ, rfl⟩ := h
  obtain ⟨rfl, -⟩ := appendRecord_eq hlog.fileEnd hlog.pos happ
  refine tierGet_append ?_ rfl (Finmap.lookup_erase_ne hne) hget
  rw [hlog.fileEnd, length_append]
  exact Nat.le_add_right _ _

theorem readAt_middle (a b c : Bytes) (hoff : off = a.length)
    (hlen : len = b.length) : readAt (a ++ (b ++ c)) off len = some b := by
  subst hoff hlen
  unfold readAt
  rw [if_pos (.inr (by simp only [length_append]; omega)), List.drop_left, List.take_left]

theorem tierGet_put {expire nextId : Nat} {key : Bytes}
    (hend : t.fileEnd = t.file.length) (hfits : (Rec.put dbIndex key val expire rid).Fits) :
    tierGet { t with
      file := t.file ++ ((Rec.put dbIndex key val expire rid).header.bytes ++ (key ++ val))
      fileEnd := (t.file ++ ((Rec.put dbIndex key val expire rid).header.bytes ++ (key ++ val))).length
      index := t.index.insert rid (putLoc t.fileEnd dbIndex key.length val.length)
      nextId := nextId } rid = some (val, expire) := by
  let hdr := (Rec.put dbIndex key val expire rid).header.bytes
  have hhdr : hdr.length = headerSize := Header.bytes_length _
  have hval : readAt (t.file ++ (hdr ++ (key ++ val)))
      (t.fileEnd + (headerSize + key.length)) val.length = some val := by
    have happ : t.file ++ (hdr ++ (key ++ val)) = (t.file ++ hdr ++ key) ++ (val ++ []) := by simp
    rw [happ]
    refine readAt_middle _ _ _ ?_ rfl
    simp only [length_append]
    omega
  have hhead : readAt (t.file ++ (hdr ++ (key ++ val))) t.fileEnd headerSize = some hdr :=
    readAt_middle _ _ _ hend hhdr.symm
  have hread : readHeader hdr = some ((Rec.put dbIndex key val expire rid).header, []) := by
    have hreads := Rec.header_reads hfits []
    rwa [List.append_nil] at hreads
  have hin : ¬ ((t.file ++ (hdr ++ (key ++ val))).length < t.fileEnd ∨
      (t.file ++ (hdr ++ (key ++ val))).length - t.fileEnd < headerSize + (key.length + val.length) ∨
      headerSize + (key.length + val.length) < headerSize + key.length ∨
      headerSize + (key.length + val.length) - (headerSize + key.length) < val.length) := by
    simp only [length_append]
    omega
  unfold tierGet
  simp only [Finmap.lookup_insert, putLoc]
  rw [if_neg hin]
  simp only [hdr] at hval hhead hread
  simp only [hval, hhead, hread, Option.bind_eq_bind, Option.bind_some]
  rfl

/-- `tier_put` hands out an id no record has; its record is readable, and so are the
others still. -/
theorem tierPut_spec {expire : Nat} {key : Bytes} (hw : Working t)
    (hexp : expire ≤ uint64Max) (h : tierPut t dbIndex key val expire = some (rid, t')) :
    Working t' ∧ rid ∉ t.index ∧ rid ≤ uint64Max ∧ tierGet t' rid = some (val, expire) ∧
      ∀ rid' x, tierGet t rid' = some x → tierGet t' rid' = some x := by
  obtain ⟨scan, rs, hlog⟩ := hw
  have hround : (ofNat expire).toNat = expire :=
    UInt64.toNat_ofNat_of_lt' (Nat.lt_succ_of_le hexp)
  have hstep : step scan t (.put dbIndex key val (ofNat expire)) = some t' := by
    rw [step, hround, h]
    rfl
  obtain ⟨hlog', -⟩ := tierPut_logged hlog hstep
  unfold tierPut at h
  split at h
  · cases h
  split at h
  · cases h
  rw [Option.map_eq_some_iff] at h
  obtain ⟨t₁, happ, heq⟩ := h
  obtain ⟨rfl, rfl⟩ := Prod.mk.inj heq
  obtain ⟨rfl, -⟩ := appendRecord_eq hlog.fileEnd hlog.pos happ
  have hnext := hlog.next
  have hfits : (Rec.put dbIndex key val expire t.nextId).Fits :=
    ⟨by omega, by omega, hexp, hnext.1, by omega⟩
  have hfresh : t.nextId ∉ t.index := fun hmem => Nat.lt_irrefl _ (hlog.below _ hmem)
  refine ⟨⟨scan, _, hlog'⟩, hfresh, hnext.2, tierGet_put hlog.fileEnd hfits, fun rid' x hget => ?_⟩
  have hne : rid' ≠ t.nextId := fun heq => hfresh (heq ▸ index_of_tierGet hget)
  refine tierGet_append ?_ rfl (Finmap.lookup_insert_of_ne _ hne) hget
  rw [hlog.fileEnd, length_append]
  exact Nat.le_add_right _ _

/-! ## What a call does to the other keys -/

/-- The store works, and the id a key refers to is one of its ids. -/
def Ready (k : Bytes) (s : Tiered) : Prop :=
  Working s.store ∧ ∀ rid e, s.db.table.lookup k = some (.tier rid e) → rid ≤ uint64Max

/-- `s'` came from `s` by a call on `k` that makes nothing cold: the other keys keep
their entries and their records. -/
structure Touches (k : Bytes) (s s' : Tiered) : Prop where
  frame : ∀ k', k' ≠ k → s'.db.entry k' = s.db.entry k'
  refs : ∀ rid e, s'.db.table.lookup k = some (.tier rid e) →
    s.db.table.lookup k = some (.tier rid e)
  store : Ready k s → Working s'.store ∧ ∀ rid x, tierGet s.store rid = some x →
    (∀ e, s.db.table.lookup k ≠ some (.tier rid e)) → tierGet s'.store rid = some x

namespace Touches

variable {k : Bytes} {s s₁ s₂ : Tiered}

theorem refl (k : Bytes) (s : Tiered) : Touches k s s where
  frame := fun _ _ => rfl
  refs := fun _ _ h => h
  store := fun hr => ⟨hr.1, fun _ _ h _ => h⟩

theorem ready (h : Touches k s s₁) (hr : Ready k s) : Ready k s₁ :=
  ⟨(h.store hr).1, fun rid e href => hr.2 rid e (h.refs rid e href)⟩

theorem trans (h₁ : Touches k s s₁) (h₂ : Touches k s₁ s₂) : Touches k s s₂ where
  frame := fun k' hk' => (h₂.frame k' hk').trans (h₁.frame k' hk')
  refs := fun rid e h => h₁.refs rid e (h₂.refs rid e h)
  store := fun hr => by
    obtain ⟨-, hget₁⟩ := h₁.store hr
    obtain ⟨hw₂, hget₂⟩ := h₂.store (h₁.ready hr)
    refine ⟨hw₂, fun rid x hx hne => ?_⟩
    exact hget₂ rid x (hget₁ rid x hx hne) fun e he => hne e (h₁.refs rid e he)

theorem update (s : Tiered) (hconf : Confined k s.db (f s.db))
    (hrefs : ∀ rid e, (f s.db).table.lookup k = some (.tier rid e) →
      s.db.table.lookup k = some (.tier rid e)) : Touches k s (s.update f) where
  frame := hconf.frame
  refs := hrefs
  store := fun hr => ⟨hr.1, fun _ _ h _ => h⟩

end Touches

@[simp] theorem dropRecord_entry (s : Tiered) (v : Option Obj) (k : Bytes) :
    (dropRecord s v).db.entry k = s.db.entry k := by
  unfold dropRecord
  split
  · split <;> rfl
  · rfl

theorem dropRecord_lookup (s : Tiered) (v : Option Obj) (k : Bytes) :
    (dropRecord s v).db.table.lookup k = s.db.table.lookup k :=
  congrArg fst (dropRecord_entry s v k)

theorem dropRecord_expires (s : Tiered) (v : Option Obj) (k : Bytes) :
    (dropRecord s v).db.expires.lookup k = s.db.expires.lookup k :=
  congrArg snd (dropRecord_entry s v k)

theorem dropRecord_store (hw : Working s.store) (hrid : rid ≤ uint64Max) :
    Working (dropRecord s (some (.tier rid e))).store ∧ ∀ rid' x, rid' ≠ rid →
      tierGet s.store rid' = some x →
      tierGet (dropRecord s (some (.tier rid e))).store rid' = some x := by
  cases hdel : tierDel s.store rid with
  | none =>
    simp only [dropRecord, hdel]
    exact ⟨hw, fun _ _ _ h => h⟩
  | some t =>
    simp only [dropRecord, hdel]
    exact tierDel_spec hw hrid hdel

theorem dropRecord_touches (s : Tiered) (k : Bytes) :
    Touches k s (dropRecord s (s.db.table.lookup k)) where
  frame := fun k' _ => dropRecord_entry s _ k'
  refs := fun rid e h => by rwa [dropRecord_lookup] at h
  store := fun hr => by
    have hsame : ∀ v, (∀ rid e, v ≠ some (.tier rid e)) → dropRecord s v = s := by
      intro v hv
      unfold dropRecord
      split
      · exact absurd rfl (hv _ _)
      · rfl
    by_cases href : ∃ rid e, s.db.table.lookup k = some (.tier rid e)
    · obtain ⟨rid, e, href⟩ := href
      rw [href]
      obtain ⟨hw, hget⟩ := dropRecord_store hr.1 (hr.2 rid e href)
      exact ⟨hw, fun rid' x hx hne => hget rid' x (fun heq => hne e (by rw [heq])) hx⟩
    · push Not at href
      rw [hsame _ href]
      exact ⟨hr.1, fun _ _ h _ => h⟩

theorem dropRecord_update_touches (s : Tiered) (hconf : ∀ d, Confined k d (f d))
    (hrefs : ∀ d rid e, (f d).table.lookup k = some (.tier rid e) →
      d.table.lookup k = some (.tier rid e)) :
    Touches k s ((dropRecord s (s.db.table.lookup k)).update f) :=
  (dropRecord_touches s k).trans (Touches.update _ (hconf _) (hrefs _))

/-! ## One spec per call -/

theorem dbExpireIfNeeded_entry (d : Db) (k : Bytes) (now : Nat) :
    (dbExpireIfNeeded d k now).entry k
      = if hasExpired d k now then (none, none) else d.entry k := by
  unfold dbExpireIfNeeded hasExpired
  by_cases hlong : uint32Max < k.length
  · have htable := table_none_of_long (d := d) hlong
    simp [Db.entry, expires_none_of_table htable]
  rw [if_neg hlong]
  cases ht : d.expires.lookup k with
  | none => simp
  | some t =>
    by_cases hlt : now < t
    · simp [hlt]
    obtain ⟨v, hv⟩ := Finmap.mem_iff.mp (d.owned k (Finmap.mem_of_lookup_eq_some ht))
    simp only [if_neg hlt, hv]
    rw [dbTouchKey_entry, removeEntry_entry]
    simp [Nat.le_of_not_lt hlt]

theorem hasExpired_of_expires {d d' : Db} (now : Nat)
    (h : d'.expires.lookup k = d.expires.lookup k) : hasExpired d' k now = hasExpired d k now := by
  rw [hasExpired, hasExpired, h]

theorem expireIfNeeded_entry (s : Tiered) (k : Bytes) (now : Nat) :
    (expireIfNeeded s k now).db.entry k
      = if hasExpired s.db k now then (none, none) else s.db.entry k := by
  unfold expireIfNeeded
  split
  · rename_i hexp
    have hexp' := hasExpired_of_expires now (dropRecord_expires s (s.db.table.lookup k) k)
    change (dbExpireIfNeeded _ k now).entry k = _
    rw [dbExpireIfNeeded_entry, hexp', hexp]
    rfl
  · rfl

theorem expireIfNeeded_touches (s : Tiered) (k : Bytes) (now : Nat) :
    Touches k s (expireIfNeeded s k now) := by
  unfold expireIfNeeded
  split
  · refine dropRecord_update_touches s (fun d => dbExpireIfNeeded_confined d k now) ?_
    intro d rid e h
    have hentry := congrArg fst (dbExpireIfNeeded_entry d k now)
    split at hentry
    · exact absurd (hentry.symm.trans h) (by simp)
    · exact hentry.symm.trans h
  · exact Touches.refl k s

theorem setKv_touches (s : Tiered) (k : Bytes) (keepTtl : Bool) (hv : v.isHot = true) :
    Touches k s (setKv s k v keepTtl) := by
  unfold setKv
  split
  · rename_i hstore
    refine dropRecord_update_touches s (fun d => dbSetKv_confined d k v keepTtl) ?_
    intro d rid e h
    have hentry := congrArg fst (dbSetKv_entry d keepTtl hstore)
    cases hentry.symm.trans h
    cases hv
  · exact Touches.refl k s

theorem setKv_entry (s : Tiered) (keepTtl : Bool) (hstore : storable k v = true) :
    (setKv s k v keepTtl).db.entry k
      = (some v, if keepTtl then s.db.expires.lookup k else none) := by
  unfold setKv
  rw [if_pos hstore]
  change (dbSetKv _ k v keepTtl).entry k = _
  rw [dbSetKv_entry _ keepTtl hstore, dropRecord_expires]

theorem delKv_touches (s : Tiered) (k : Bytes) : Touches k s (delKv s k) := by
  refine dropRecord_update_touches s (fun d => dbDelKv_confined d k false) ?_
  intro d rid e h
  exact absurd ((congrArg fst (dbDelKv_spec d k false).2).symm.trans h) (by simp)

theorem delKv_entry (s : Tiered) (k : Bytes) : (delKv s k).db.entry k = (none, none) :=
  (dbDelKv_spec _ k false).2

theorem clearExpiry_touches (s : Tiered) (k : Bytes) :
    Touches k s (s.update fun d => clearExpiry d k) :=
  Touches.update s (clearExpiry_confined s.db k) fun _ _ h =>
    (congrArg fst (clearExpiry_entry s.db k)).symm.trans h

theorem dbSetExpiry_touches (s : Tiered) (k : Bytes) (t : Nat) :
    Touches k s (s.update fun d => dbSetExpiry d k t) :=
  Touches.update s (dbSetExpiry_confined s.db k t) fun _ _ h =>
    (congrArg fst (dbSetExpiry_entry s.db k t)).symm.trans h

theorem failTier_touches (s : Tiered) (k : Bytes) : Touches k s (s.update failTier) :=
  Touches.update s (failTier_confined s.db k) fun _ _ h => h

/-! ## Decoded values -/

theorem loadPayload_hot {tag : Nat} {bs rest : Bytes}
    (h : loadPayload sz lim tag bs = some (v, rest)) : v.isHot = true := by
  unfold loadPayload at h
  split at h
  case h_8 => cases h
  all_goals
    obtain ⟨a, bs', -, hpure⟩ := Dec.bind_eq_some.mp h
    cases hpure
    rfl

theorem decodeDump_hot (h : decodeDump sz lim payload = some v) : v.isHot = true := by
  have hread : ∀ bs, readDump sz lim bs = some (v, []) → v.isHot = true := by
    intro bs hbs
    obtain ⟨version, bs₁, -, hrest⟩ := Dec.bind_eq_some.mp hbs
    split at hrest
    · obtain ⟨tag, bs₂, -, hpayload⟩ := Dec.bind_eq_some.mp hrest
      exact loadPayload_hot hpayload
    · cases hrest
  unfold decodeDump at h
  split at h
  · cases h
  dsimp only at h
  split at h
  · cases h
  split at h
  · rename_i w hbs
    cases h
    exact hread _ hbs
  · cases h

/-! ## Reading -/

theorem restoreCold_touches (E : ColdEnv) (s : Tiered) (k payload : Bytes) (expire now : Nat) :
    Touches k s (restoreCold E s k payload expire now).1 := by
  unfold restoreCold
  split
  · exact Touches.refl k s
  have hexpire := expireIfNeeded_touches s k now
  cases hdec : decodeDump E.sizes E.limits payload with
  | none => exact hexpire
  | some v =>
    have hset := setKv_touches (expireIfNeeded s k now) k false (decodeDump_hot hdec)
    dsimp only
    split
    · dsimp only
      split
      · exact hexpire.trans hset
      · exact (hexpire.trans hset).trans (dbSetExpiry_touches _ k expire)
    · exact hexpire

theorem Touches.dropRecord {s₁ : Tiered} (h : Touches k s s₁)
    (href : s.db.table.lookup k = some (.tier rid e)) (e' : Nat) :
    Touches k s (dropRecord s₁ (some (.tier rid e'))) where
  frame := fun k' hk' => (dropRecord_entry s₁ _ k').trans (h.frame k' hk')
  refs := fun rid' e₁ h₁ => h.refs rid' e₁ ((dropRecord_lookup s₁ _ k).symm.trans h₁)
  store := fun hr => by
    obtain ⟨hw, hget⟩ := h.store hr
    obtain ⟨hw', hget'⟩ := dropRecord_store hw (hr.2 rid e href)
    refine ⟨hw', fun rid' x hx hne => ?_⟩
    exact hget' rid' x (fun heq => hne e (by rw [heq, href])) (hget rid' x hx hne)

theorem materialize_touches (E : ColdEnv) (now : Nat)
    (href : s.db.table.lookup k = some (.tier rid e)) :
    Touches k s (materialize E s k rid now).1 := by
  unfold materialize
  cases tierGet s.store rid with
  | none => exact failTier_touches s k
  | some x =>
    have hrestore := restoreCold_touches E s k x.1 x.2 now
    dsimp only
    generalize restoreCold E s k x.1 x.2 now = r at hrestore ⊢
    obtain ⟨s₁, ok⟩ := r
    cases ok with
    | false => exact hrestore.trans (failTier_touches s₁ k)
    | true =>
      have hdrop := hrestore.dropRecord href x.2
      dsimp only
      split
      · exact hdrop.trans (failTier_touches _ k)
      · exact hdrop

theorem coldGet_touches (E : ColdEnv) (s : Tiered) (k : Bytes) (now : Nat) :
    Touches k s (coldGet E s k now).1 := by
  have hexpire := expireIfNeeded_touches s k now
  unfold coldGet
  dsimp only
  cases hlookup : (expireIfNeeded s k now).db.table.lookup k with
  | none => exact hexpire
  | some v =>
    cases v with
    | tier rid e => exact hexpire.trans (materialize_touches E now hlookup)
    | _ => exact hexpire

/-! ## Cells -/

/-- What a key shows: a value and an expiry. -/
abbrev Cell := Option View × Option Nat

def Cell.expire (now : Nat) (x : Cell) : Cell := if x.2.any (· ≤ now) then (none, none) else x

/-- A cold key: its record decodes to `v` and carries the key's expiry. -/
def ColdRecord (E : ColdEnv) (s : Tiered) (k : Bytes) (v : Obj) : Prop :=
  ∃ rid e payload, s.db.table.lookup k = some (.tier rid e) ∧
    tierGet s.store rid = some (payload, (s.db.expires.lookup k).getD 0) ∧
    decodeDump E.sizes E.limits payload = some v

/-- The value of a key, wherever it is. -/
def Backed (E : ColdEnv) (s : Tiered) (k : Bytes) (v : Obj) : Prop :=
  v.isHot = true ∧ Sized v ∧ (s.db.table.lookup k = some v ∨ ColdRecord E s k v)

/-- A key of a tiered database represents a cell. -/
def Represents (E : ColdEnv) (s : Tiered) (k : Bytes) (x : Cell) : Prop :=
  s.db.expires.lookup k = x.2 ∧ (∀ t, x.2 = some t → t ≤ uint64Max) ∧
    match x.1 with
    | none => s.db.table.lookup k = none
    | some w => ∃ v, Backed E s k v ∧ view v = w

theorem Sized.storable (h : Sized v) (hk : k.length ≤ uint32Max)
    (hv : v.isHot = true) : storable k v = true := by
  simp only [Store.storable, Bool.and_eq_true, decide_eq_true_eq]
  refine ⟨hk, ?_⟩
  cases v with
  | str b => exact h
  | list items mem | boxed c mem => exact (by decide : 9 ≤ uint32Max)
  | tier rid expire => cases hv

theorem materialize_spec (E : ColdEnv) (href : s.db.table.lookup k = some (.tier rid e))
    (hget : tierGet s.store rid = some (payload, (s.db.expires.lookup k).getD 0))
    (hdec : decodeDump E.sizes E.limits payload = some v) (hsized : Sized v)
    (hlive : hasExpired s.db k now = false) :
    (materialize E s k rid now).2 = some v ∧
      (materialize E s k rid now).1.db.entry k = (some v, s.db.expires.lookup k) := by
  have hk : k.length ≤ uint32Max := s.db.short k (Finmap.mem_of_lookup_eq_some href)
  have hstore := Sized.storable hsized hk (decodeDump_hot hdec)
  have hsame : expireIfNeeded s k now = s := by simp [expireIfNeeded, hlive]
  have hset := setKv_entry s false hstore
  -- an expiry at 0 would have passed, so 0 stands for none
  obtain ⟨s₁, hrestore, hentry⟩ : ∃ s₁,
      restoreCold E s k payload ((s.db.expires.lookup k).getD 0) now = (s₁, true) ∧
        s₁.db.entry k = (some v, s.db.expires.lookup k) := by
    unfold restoreCold
    simp only [Nat.not_lt.mpr hk, hsame, hdec, hstore]
    refine ⟨_, rfl, ?_⟩
    cases ht : s.db.expires.lookup k with
    | none => simpa using hset
    | some t =>
      have hpos : t ≠ 0 := by
        rintro rfl
        simp [hasExpired, ht] at hlive
      have htable : (setKv s k v false).db.table.lookup k = some v := congrArg fst hset
      simp only [Option.getD_some, hpos]
      change (dbSetExpiry _ k t).entry k = _
      rw [dbSetExpiry_entry, htable]
      rfl
  have hdrop := dropRecord_entry s₁ (some (.tier rid ((s.db.expires.lookup k).getD 0))) k
  have hlookup := (congrArg fst hdrop).trans (congrArg fst hentry)
  simp only [Db.entry] at hlookup
  simp only [materialize, hget, hrestore, hlookup]
  exact ⟨trivial, hdrop.trans hentry⟩

/-- A read answers what the cell shows, and leaves the key hot. -/
theorem coldGet_spec (E : ColdEnv) {x : Cell} (now : Nat) (h : Represents E s k x) :
    (x.expire now = (none, none) ∧ (coldGet E s k now).2 = none ∧
      (coldGet E s k now).1.db.entry k = (none, none)) ∨
    ∃ v, (x.expire now).1 = some (view v) ∧ v.isHot = true ∧ Sized v ∧
      (coldGet E s k now).2 = some v ∧
      (coldGet E s k now).1.db.entry k = (some v, (x.expire now).2) := by
  obtain ⟨hexp, -, hvalue⟩ := h
  have hpassed : hasExpired s.db k now = x.2.any (· ≤ now) := by rw [hasExpired, hexp]
  have hentry := expireIfNeeded_entry s k now
  unfold Cell.expire
  cases hlive : x.2.any (· ≤ now) with
  | true =>
    rw [hpassed, hlive] at hentry
    have hnone : (expireIfNeeded s k now).db.table.lookup k = none := congrArg fst hentry
    refine .inl ⟨rfl, ?_⟩
    simp only [coldGet, hnone]
    exact ⟨trivial, hentry⟩
  | false =>
    have hlive' := hpassed.trans hlive
    have hsame : expireIfNeeded s k now = s := by simp [expireIfNeeded, hlive']
    simp only [Bool.false_eq_true, if_false, coldGet, hsame]
    cases hw : x.1 with
    | none =>
      rw [hw] at hvalue
      have hvalue' : s.db.table.lookup k = none := hvalue
      have hnone := expires_none_of_table hvalue'
      refine .inl ⟨ext hw (hexp.symm.trans hnone), ?_⟩
      rw [hvalue']
      exact ⟨rfl, by simp [Db.entry, hvalue', hnone]⟩
    | some w =>
      rw [hw] at hvalue
      obtain ⟨v, ⟨hhot, hsized, hwhere⟩, rfl⟩ := hvalue
      refine .inr ⟨v, rfl, hhot, hsized, ?_⟩
      rcases hwhere with hlookup | ⟨rid, e, payload, href, hget, hdec⟩
      · have hgoal : s.db.entry k = (some v, x.2) := by rw [Db.entry, hlookup, hexp]
        rw [hlookup]
        cases v with
        | tier rid e => cases hhot
        | _ => exact ⟨rfl, hgoal⟩
      · rw [href]
        rw [← hexp]
        exact materialize_spec E href hget hdec hsized hlive'

/-! ## The abstract machine -/

/-- A cell per key. -/
abbrev Cells := Bytes → Cell

def ColdOp.key : ColdOp → Bytes
  | .get k _ => k
  | .set k _ _ => k
  | .del k => k
  | .persist k _ => k
  | .expire k _ _ => k
  | .offload k => k

def Cell.setExpiry (a : ExpireArgs) (now : Nat) (x : Cell) : Cell :=
  if x.1 = none then x
  else
    match a.instant now with
    | none => x
    | some exp =>
      if a.flags.refuses x.2 exp then x
      else if exp ≤ now then (none, none)
      else (x.1, some exp.toNat)

/-- What a call does to the cell of its key. An offload does nothing. -/
def cellStep : ColdOp → Cell → Cell
  | .get _ now, x => x.expire now
  | .set k v keepTtl, x =>
    if storable k v.obj then (some (view v.obj), if keepTtl then x.2 else none) else x
  | .del _, _ => (none, none)
  | .persist _ now, x => ((x.expire now).1, none)
  | .expire _ a now, x => (x.expire now).setExpiry a now
  | .offload _, x => x

def absStep (A : Cells) (op : ColdOp) : Cells :=
  Function.update A op.key (cellStep op (A op.key))

/-! ## Refinement -/

/-- A tiered database stands for the cells: every key represents its cell, and no two
keys refer to one record. -/
structure Refines (E : ColdEnv) (s : Tiered) (A : Cells) : Prop where
  working : Working s.store
  distinct : ∀ k k' rid e e', s.db.table.lookup k = some (.tier rid e) →
    s.db.table.lookup k' = some (.tier rid e') → k = k'
  key : ∀ k, Represents E s k (A k)

section Steps

variable {E : ColdEnv} {s s' : Tiered} {A : Cells} {k : Bytes} {x : Cell} {v : Obj}

theorem represents_none (hentry : s.db.entry k = (none, none)) : Represents E s k (none, none) :=
  ⟨congrArg snd hentry, fun _ h => (by cases h), congrArg fst hentry⟩

theorem represents_hot {t : Option Nat} (hentry : s.db.entry k = (some v, t))
    (hhot : v.isHot = true) (hsized : Sized v) (ht : ∀ n, t = some n → n ≤ uint64Max) :
    Represents E s k (some (view v), t) :=
  ⟨congrArg snd hentry, ht, v, ⟨hhot, hsized, .inl (congrArg fst hentry)⟩, rfl⟩

theorem Represents.record (h : Represents E s k x)
    (href : s.db.table.lookup k = some (.tier rid e)) :
    ∃ payload v, tierGet s.store rid = some (payload, (s.db.expires.lookup k).getD 0) ∧
      decodeDump E.sizes E.limits payload = some v ∧ Sized v ∧ x.1 = some (view v) := by
  obtain ⟨-, -, hvalue⟩ := h
  cases hw : x.1 with
  | none =>
    rw [hw] at hvalue
    exact absurd (href.symm.trans hvalue) (by simp)
  | some w =>
    rw [hw] at hvalue
    obtain ⟨v, ⟨hhot, hsized, hwhere⟩, rfl⟩ := hvalue
    rcases hwhere with hlookup | ⟨rid', e', payload, href', hget, hdec⟩
    · cases href.symm.trans hlookup
      cases hhot
    · cases href.symm.trans href'
      exact ⟨payload, v, hget, hdec, hsized, rfl⟩

theorem Refines.ready (h : Refines E s A) (k : Bytes) : Ready k s := by
  refine ⟨h.working, fun rid e href => ?_⟩
  obtain ⟨payload, v, hget, -⟩ := (h.key k).record href
  obtain ⟨scan, rs, hlog⟩ := h.working
  exact Nat.le_of_lt (Nat.lt_of_lt_of_le (hlog.below rid (index_of_tierGet hget)) hlog.next.2)

theorem Represents.of_same (h : Represents E s k x) (hentry : s'.db.entry k = s.db.entry k)
    (hstore : ∀ rid e y, s.db.table.lookup k = some (.tier rid e) → tierGet s.store rid = some y →
      tierGet s'.store rid = some y) : Represents E s' k x := by
  have htable : s'.db.table.lookup k = s.db.table.lookup k := congrArg fst hentry
  have hexpires : s'.db.expires.lookup k = s.db.expires.lookup k := congrArg snd hentry
  obtain ⟨hexp, hbound, hvalue⟩ := h
  refine ⟨hexpires.trans hexp, hbound, ?_⟩
  cases hw : x.1 with
  | none =>
    rw [hw] at hvalue
    exact htable.trans hvalue
  | some w =>
    rw [hw] at hvalue
    obtain ⟨v, ⟨hhot, hsized, hwhere⟩, hview⟩ := hvalue
    refine ⟨v, ⟨hhot, hsized, ?_⟩, hview⟩
    rcases hwhere with hlookup | ⟨rid, e, payload, href, hget, hdec⟩
    · exact .inl (htable.trans hlookup)
    refine .inr ⟨rid, e, payload, htable.trans href, ?_, hdec⟩
    rw [hexpires]
    exact hstore rid e _ href hget

/-- A call that makes nothing cold keeps the refinement if its own key represents the
new cell. -/
theorem Refines.touch (h : Refines E s A) (ht : Touches k s s') {x : Cell}
    (hk : Represents E s' k x) : Refines E s' (Function.update A k x) := by
  obtain ⟨hworking, hget⟩ := ht.store (h.ready k)
  have hcold : ∀ k' rid e, s'.db.table.lookup k' = some (.tier rid e) →
      s.db.table.lookup k' = some (.tier rid e) := by
    intro k' rid e href
    by_cases heq : k' = k
    · subst heq
      exact ht.refs rid e href
    · exact (congrArg fst (ht.frame k' heq)).symm.trans href
  refine ⟨hworking, fun k₁ k₂ rid e e' h₁ h₂ =>
    h.distinct k₁ k₂ rid e e' (hcold k₁ rid e h₁) (hcold k₂ rid e' h₂), fun k' => ?_⟩
  by_cases heq : k' = k
  · subst heq
    rw [Function.update_self]
    exact hk
  · rw [Function.update_of_ne heq]
    refine (h.key k').of_same (ht.frame k' heq) fun rid e y href hy => ?_
    exact hget rid y hy fun e' href' => heq (h.distinct k' k rid e e' href href')

theorem instant_le {a : ExpireArgs} {exp : Int} (h : a.instant now = some exp)
    (hnow : ¬ exp ≤ now) : exp.toNat ≤ uint64Max := by
  unfold ExpireArgs.instant at h
  dsimp only at h
  generalize hbase : (if a.absolute then 0 else (now : Int)) = base at h
  split at h
  · cases h
  rename_i hfit
  cases h
  have hpos : 0 < a.value := by
    by_contra hneg
    have hmul : a.value * a.scale ≤ 0 :=
      Int.mul_nonpos_of_nonpos_of_nonneg (Int.not_lt.mp hneg) (Int.natCast_nonneg _)
    omega
  have hquot : a.value ≤ (llongMax - base).tdiv a.scale := by
    by_contra hlt
    exact hfit ⟨hpos, Int.not_le.mp hlt⟩
  have hroom : 0 ≤ llongMax - base := by
    by_contra hneg
    have hflip := Int.tdiv_nonneg (show 0 ≤ -(llongMax - base) by omega)
      (Int.natCast_nonneg a.scale)
    rw [Int.neg_tdiv] at hflip
    omega
  have hscale : (a.scale : Int) ≠ 0 := by
    intro hzero
    rw [hzero, Int.tdiv_zero] at hquot
    omega
  rw [Int.tdiv_eq_ediv_of_nonneg hroom] at hquot
  have hmul : a.value * a.scale ≤ llongMax - base :=
    (Int.mul_le_mul_of_nonneg_right hquot (Int.natCast_nonneg _)).trans
      (Int.ediv_mul_le _ hscale)
  have hmax : llongMax ≤ uint64Max := by decide
  omega

theorem Cell.expire_bound {x : Cell} (h : ∀ t, x.2 = some t → t ≤ uint64Max) :
    ∀ t, (x.expire now).2 = some t → t ≤ uint64Max := by
  intro t ht
  unfold Cell.expire at ht
  split at ht
  · cases ht
  · exact h t ht

theorem coldGet_represents (now : Nat) (h : Represents E s k x) :
    Represents E (coldGet E s k now).1 k (x.expire now) := by
  rcases coldGet_spec E now h with ⟨hx, -, hentry⟩ | ⟨v, hv, hhot, hsized, -, hentry⟩
  · rw [hx]
    exact represents_none hentry
  have hcell : x.expire now = (some (view v), (x.expire now).2) := ext hv rfl
  rw [hcell]
  exact represents_hot hentry hhot hsized (Cell.expire_bound h.2.1)

/-- PERSIST leaves a cold key alone, or its record would keep the old expiry. -/
theorem persist_represents (h : Represents E s k x)
    (hok : ∀ rid e t, s.db.table.lookup k = some (.tier rid e) →
      s.db.expires.lookup k = some t → t ≤ now) :
    Represents E (persist s k now) k ((x.expire now).1, none) := by
  have hexpire := expireIfNeeded_entry s k now
  have hclear : (persist s k now).db.entry k
      = ((expireIfNeeded s k now).db.table.lookup k, none) := clearExpiry_entry _ k
  have hpassed : hasExpired s.db k now = x.2.any (· ≤ now) := by rw [hasExpired, h.1]
  unfold Cell.expire
  cases hlive : x.2.any (· ≤ now) with
  | true =>
    rw [hpassed, hlive] at hexpire
    have hgone : (expireIfNeeded s k now).db.table.lookup k = none := congrArg fst hexpire
    rw [hgone] at hclear
    exact represents_none hclear
  | false =>
    have hlive' := hpassed.trans hlive
    have hsame : expireIfNeeded s k now = s := by simp [expireIfNeeded, hlive']
    rw [hsame] at hclear
    simp only [Bool.false_eq_true, if_false]
    by_cases hcold : ∃ rid e, s.db.table.lookup k = some (.tier rid e)
    · obtain ⟨rid, e, href⟩ := hcold
      have hnone : s.db.expires.lookup k = none := by
        cases ht : s.db.expires.lookup k with
        | none => rfl
        | some t =>
          have hle := hok rid e t href ht
          rw [hasExpired, ht] at hlive'
          simp [hle] at hlive'
      have hcell : (x.1, none) = x := ext rfl (hnone.symm.trans h.1)
      rw [hcell]
      refine h.of_same (hclear.trans ?_) fun rid' e' y _ hy => ?_
      · rw [Db.entry, hnone]
      change tierGet (expireIfNeeded s k now).store rid' = some y
      rw [hsame]
      exact hy
    · push Not at hcold
      obtain ⟨-, -, hvalue⟩ := h
      cases hw : x.1 with
      | none =>
        rw [hw] at hvalue
        exact represents_none (hclear.trans (congrArg (·, none) hvalue))
      | some w =>
        rw [hw] at hvalue
        obtain ⟨v, ⟨hhot, hsized, hwhere⟩, rfl⟩ := hvalue
        rcases hwhere with hlookup | ⟨rid, e, payload, href, -⟩
        · exact represents_hot (hclear.trans (congrArg (·, none) hlookup)) hhot hsized
            fun _ hn => (by cases hn)
        · exact absurd href (hcold rid e)

theorem setKv_represents (v : StoredObj) (keepTtl : Bool) (h : Represents E s k x) :
    Represents E (setKv s k v.obj keepTtl) k
      (if storable k v.obj then (some (view v.obj), if keepTtl then x.2 else none) else x) := by
  split
  · rename_i hstore
    refine represents_hot ((setKv_entry s keepTtl hstore).trans ?_) v.hot v.sized ?_
    · rw [h.1]
    intro t ht
    cases keepTtl with
    | true => exact h.2.1 t ht
    | false => cases ht
  · rename_i hstore
    rw [setKv, if_neg hstore]
    exact h

theorem expire_represents (a : ExpireArgs) (now : Nat) (h : Represents E s k x) :
    Represents E (expire E s k a now) k ((x.expire now).setExpiry a now) := by
  have hget := coldGet_represents now h
  have hspec := coldGet_spec E now h
  unfold Tier.expire Cell.setExpiry
  generalize coldGet E s k now = r at hget hspec ⊢
  obtain ⟨s₁, o⟩ := r
  rcases hspec with ⟨hx, ho, -⟩ | ⟨v, hv, hhot, hsized, ho, hentry⟩
  · cases ho
    rw [if_pos (by rw [hx])]
    exact hget
  cases ho
  rw [if_neg (by rw [hv]; simp)]
  cases hinst : a.instant now with
  | none => exact hget
  | some exp =>
    have hcur : s₁.db.expires.lookup k = (x.expire now).2 := congrArg snd hentry
    dsimp only
    rw [hcur]
    split
    · exact hget
    split
    · exact represents_none (delKv_entry s₁ k)
    rename_i hnow
    have htable : s₁.db.table.lookup k = some v := congrArg fst hentry
    have hset : (s₁.update fun d => dbSetExpiry d k exp.toNat).db.entry k
        = (some v, some exp.toNat) := by
      change (dbSetExpiry s₁.db k exp.toNat).entry k = _
      rw [dbSetExpiry_entry, htable]
      rfl
    rw [hv]
    refine represents_hot hset hhot hsized fun n hn => ?_
    cases hn
    exact instant_le hinst hnow

theorem expire_touches (a : ExpireArgs) (now : Nat) : Touches k s (expire E s k a now) := by
  have hget := coldGet_touches E s k now
  unfold Tier.expire
  generalize coldGet E s k now = r at hget ⊢
  obtain ⟨s₁, o⟩ := r
  cases o with
  | none => exact hget
  | some v =>
    dsimp only
    split
    · exact hget
    split
    · exact hget
    split
    · exact hget.trans (delKv_touches s₁ k)
    · exact hget.trans (dbSetExpiry_touches s₁ k _)

/-! ### Offloading -/

/-- `Sized`, of what a value shows. -/
def viewSized : View → Prop
  | .str b => b.length < uint32Max
  | .list items => ∀ e ∈ items, e.length ≤ uint32Max
  | .hash pairs _ => ∀ p ∈ pairs, p.1.length ≤ uint32Max ∧ p.2.length ≤ uint32Max
  | .set members => ∀ m ∈ members, m.length ≤ uint32Max
  | .zset members => ∀ x ∈ members, x.1.length ≤ uint32Max
  | .stream s => ∀ e ∈ s.entries, EntrySized e
  | .array values _ _ _ _ => ∀ x ∈ values, x.2.length ≤ uint32Max
  | .cold => True

theorem viewSized_view (v : Obj) : viewSized (view v) ↔ Sized v := by
  cases v with
  | boxed c mem => cases c <;> exact Iff.rfl
  | _ => exact Iff.rfl

/-- The value that is offloaded decodes from its record to one that shows the same. -/
theorem dump_decodes (hlookup : s.db.table.lookup k = some v) (hsized : Sized v)
    (hok : Writable v → Faithful E.limits v) (hdump : snapshotDumpKey s.db k = some payload) :
    ∃ v', decodeDump E.sizes E.limits payload = some v' ∧ Sized v' ∧ view v' = view v := by
  simp only [snapshotDumpKey, hlookup, Option.bind_eq_bind, Option.bind_some,
    Option.bind_eq_some_iff, Option.pure_def, Option.some.injEq] at hdump
  obtain ⟨body, hbody, rfl⟩ := hdump
  have hwritten : (writeValuePayload v).isSome := by
    obtain ⟨p, hp, -⟩ := Option.bind_eq_some_iff.mp hbody
    rw [hp]
    rfl
  have hfaithful := hok ((writeValuePayload_isSome hsized).mp hwritten)
  obtain ⟨v', hv'⟩ := Option.isSome_iff_exists.mp
    ((reload_isSome E.sizes E.limits hsized).mpr hfaithful.loadable)
  have hview := (reload_view E.sizes E.limits hsized hv').mpr hfaithful
  refine ⟨v', (decodeDump_dumped E.sizes E.limits hbody hsized).trans hv', ?_, hview⟩
  rw [← viewSized_view, hview, viewSized_view]
  exact hsized

theorem Represents.hot (h : Represents E s k x) (hlookup : s.db.table.lookup k = some v)
    (hhot : v.isHot = true) : Sized v ∧ x.1 = some (view v) := by
  obtain ⟨-, -, hvalue⟩ := h
  cases hw : x.1 with
  | none =>
    rw [hw] at hvalue
    exact absurd (hlookup.symm.trans hvalue) (by simp)
  | some w =>
    rw [hw] at hvalue
    obtain ⟨u, ⟨-, hsized, hwhere⟩, rfl⟩ := hvalue
    rcases hwhere with hu | ⟨r, e, p, href, -⟩
    · cases hlookup.symm.trans hu
      exact ⟨hsized, rfl⟩
    · cases hlookup.symm.trans href
      cases hhot

theorem Refines.offloaded (h : Refines E s A) {v' : Obj}
    {t : TierStore} {before after : UInt64} (hlookup : s.db.table.lookup k = some v)
    (hhot : v.isHot = true) (hdec : decodeDump E.sizes E.limits payload = some v')
    (hsized : Sized v') (hview : view v' = view v)
    (hput : tierPut s.store E.dbIndex k payload ((s.db.expires.lookup k).getD 0) = some (rid, t)) :
    Refines E ⟨syncMem (editEntry s.db k (.tier rid ((s.db.expires.lookup k).getD 0))) before after,
      t⟩ A := by
  obtain ⟨hexp, hbound, -⟩ := h.key k
  have hle : (s.db.expires.lookup k).getD 0 ≤ uint64Max := by
    rw [hexp]
    cases hx : (A k).2 with
    | none => exact Nat.zero_le _
    | some n => exact hbound n hx
  obtain ⟨hworking, hfresh, -, hnew, hold⟩ := tierPut_spec h.working hle hput
  have hentry := editEntry_entry hlookup (.tier rid ((s.db.expires.lookup k).getD 0))
  have hframe := (editEntry_confined s.db k (.tier rid ((s.db.expires.lookup k).getD 0))).frame
  -- nobody else refers to the new record
  have hothers : ∀ k' e, k' ≠ k → s.db.table.lookup k' ≠ some (.tier rid e) := by
    intro k' e _ href
    obtain ⟨p, w, hget, -⟩ := (h.key k').record href
    exact hfresh (index_of_tierGet hget)
  have hlookup' : ∀ k', k' ≠ k →
      (editEntry s.db k (.tier rid ((s.db.expires.lookup k).getD 0))).table.lookup k'
        = s.db.table.lookup k' := fun k' hk' => congrArg fst (hframe k' hk')
  refine ⟨hworking, fun k₁ k₂ r e e' h₁ h₂ => ?_, fun k' => ?_⟩
  · have hself : ∀ r e, (editEntry s.db k (.tier rid ((s.db.expires.lookup k).getD 0))).table.lookup k
        = some (.tier r e) → r = rid := by
      intro r e href
      cases (congrArg fst hentry).symm.trans href
      rfl
    by_cases hk₁ : k₁ = k
    · subst hk₁
      by_contra hne
      rw [hself r e h₁] at h₂
      exact hothers k₂ e' (Ne.symm hne) ((hlookup' k₂ (Ne.symm hne)).symm.trans h₂)
    by_cases hk₂ : k₂ = k
    · subst hk₂
      rw [hself r e' h₂] at h₁
      exact absurd ((hlookup' k₁ hk₁).symm.trans h₁) (hothers k₁ e hk₁)
    · exact h.distinct k₁ k₂ r e e' ((hlookup' k₁ hk₁).symm.trans h₁)
        ((hlookup' k₂ hk₂).symm.trans h₂)
  · by_cases hk' : k' = k
    · subst hk'
      have hcell : (A k').1 = some (view v) := ((h.key k').hot hlookup hhot).2
      have hexpires : (editEntry s.db k' (.tier rid ((s.db.expires.lookup k').getD 0))).expires.lookup
          k' = s.db.expires.lookup k' := congrArg snd hentry
      refine ⟨hexpires.trans hexp, hbound, ?_⟩
      rw [hcell]
      refine ⟨v', ⟨decodeDump_hot hdec, hsized, .inr ⟨rid, _, payload, congrArg fst hentry,
        ?_, hdec⟩⟩, hview⟩
      rw [hnew]
      exact congrArg (fun o => some (payload, Option.getD o 0)) hexpires.symm
    · exact (h.key k').of_same (hframe k' hk') fun r e y _ hy => hold r y hy

/-- Any key may be offloaded whose value survives its dump. -/
theorem Refines.offload (h : Refines E s A) (k : Bytes)
    (hok : ∀ v, s.db.table.lookup k = some v → v.isHot = true → Writable v → Faithful E.limits v) :
    Refines E (offload E s k) A := by
  have hfail : Refines E (s.update failTier) A := ⟨h.working, h.distinct, h.key⟩
  unfold Tier.offload
  cases hlookup : s.db.table.lookup k with
  | none => exact h
  | some v =>
    dsimp only
    split
    · exact h
    rename_i hgo
    have hhot : v.isHot = true := by
      simp only [Bool.or_eq_true, Bool.not_eq_true', not_or, Bool.not_eq_false] at hgo
      exact hgo.2
    have hsized : Sized v := ((h.key k).hot hlookup hhot).1
    cases hdump : snapshotDumpKey s.db k with
    | none => exact hfail
    | some payload =>
      dsimp only
      cases hput : tierPut s.store E.dbIndex k payload ((s.db.expires.lookup k).getD 0) with
      | none => exact hfail
      | some r =>
        obtain ⟨v', hdec, hsized', hview⟩ := dump_decodes hlookup hsized
          (hok v hlookup hhot) hdump
        exact h.offloaded hlookup hhot hdec hsized' hview hput

end Steps

/-! ## Runs -/

/-- What a step needs of the state before it: PERSIST finds no cold key that has an
expiry, and what is offloaded survives its dump. -/
def StepOk (E : ColdEnv) (s : Tiered) : ColdOp → Prop
  | .persist k now => ∀ rid e t, s.db.table.lookup k = some (.tier rid e) →
      s.db.expires.lookup k = some t → t ≤ now
  | .offload k => ∀ v, s.db.table.lookup k = some v → v.isHot = true → Writable v →
      Faithful E.limits v
  | _ => True

def RunOk (E : ColdEnv) : Tiered → List ColdOp → Prop
  | _, [] => True
  | s, op :: ops => StepOk E s op ∧ RunOk E (coldStep E s op) ops

theorem coldStep_touches (E : ColdEnv) (s : Tiered) (h : op.isOffload = false) :
    Touches op.key s (coldStep E s op) := by
  cases op with
  | get k now => exact coldGet_touches E s k now
  | set k v keepTtl => exact setKv_touches s k keepTtl v.hot
  | del k => exact delKv_touches s k
  | persist k now => exact (expireIfNeeded_touches s k now).trans (clearExpiry_touches _ k)
  | expire k a now => exact expire_touches a now
  | offload k => cases h

/-- A step does to the cells what it does without a store. -/
theorem coldStep_refines {A : Cells} (h : Refines E s A)
    (hok : StepOk E s op) : Refines E (coldStep E s op) (absStep A op) := by
  cases op with
  | get k now => exact h.touch (coldGet_touches E s k now) (coldGet_represents now (h.key k))
  | set k v keepTtl =>
    exact h.touch (setKv_touches s k keepTtl v.hot) (setKv_represents v keepTtl (h.key k))
  | del k => exact h.touch (delKv_touches s k) (represents_none (delKv_entry s k))
  | persist k now =>
    exact h.touch ((expireIfNeeded_touches s k now).trans (clearExpiry_touches _ k))
      (persist_represents (h.key k) hok)
  | expire k a now => exact h.touch (expire_touches a now) (expire_represents a now (h.key k))
  | offload k =>
    have hsame : absStep A (.offload k) = A := Function.update_eq_self k A
    rw [hsame]
    exact h.offload k hok

theorem runCold_refines : ∀ {ops} {s} {A},
    Refines E s A → RunOk E s ops → Refines E (runCold E s ops) (ops.foldl absStep A)
  | [], _, _, h, _ => h
  | op :: ops, s, A, h, hok => by
    have ih := runCold_refines (coldStep_refines h hok.1) hok.2
    exact ih

/-- What a command sees of a key: the value a read returns, and the expiry then. -/
def observe (E : ColdEnv) (s : Tiered) (k : Bytes) (now : Nat) : Option (View × Option Nat) :=
  (coldGet E s k now).2.map fun v => (view v, (coldGet E s k now).1.db.expires.lookup k)

theorem observe_of_represents {x : Cell} (now : Nat) (h : Represents E s k x) :
    observe E s k now = (x.expire now).1.map fun w => (w, (x.expire now).2) := by
  unfold observe
  rcases coldGet_spec E now h with ⟨hx, ho, -⟩ | ⟨v, hv, -, -, ho, hentry⟩
  · rw [ho, hx]
    rfl
  have hexp : (coldGet E s k now).1.db.expires.lookup k = (x.expire now).2 :=
    congrArg snd hentry
  rw [ho, hv, hexp]
  rfl

/-- A database none of whose values is cold, with a store that works. -/
structure AllHot (s : Tiered) : Prop where
  working : Working s.store
  hot : ∀ k v, s.db.table.lookup k = some v → v.isHot = true

/-- Without offloading nothing gets cold, so PERSIST is harmless. -/
theorem AllHot.run_ok : ∀ {ops} {s}, AllHot s →
    (∀ op ∈ ops, op.isOffload = false) → RunOk E s ops
  | [], _, _, _ => trivial
  | op :: ops, s, h, hops => by
    have hop := hops op (List.mem_cons_self ..)
    have ht := coldStep_touches E s hop
    have hready : Ready op.key s :=
      ⟨h.working, fun rid e href => absurd (h.hot _ _ href) (by simp [Obj.isHot])⟩
    refine ⟨?_, AllHot.run_ok ⟨(ht.store hready).1, fun k v hlookup => ?_⟩
      fun o ho => hops o (List.mem_cons_of_mem _ ho)⟩
    · cases op with
      | persist k now =>
        intro rid e t href
        exact absurd (h.hot k _ href) (by simp [Obj.isHot])
      | offload k => cases hop
      | _ => trivial
    cases v with
    | tier rid e =>
      by_cases hk : k = op.key
      · subst hk
        exact absurd (h.hot _ _ (ht.refs rid e hlookup)) (by simp [Obj.isHot])
      · exact h.hot k _ ((congrArg fst (ht.frame k hk)).symm.trans hlookup)
    | _ => rfl

/-- The cells of a database without cold values. -/
def cellsOf (s : Tiered) : Cells := fun k =>
  ((s.db.table.lookup k).map view, s.db.expires.lookup k)

theorem AllHot.refines (h : AllHot s) (hsized : DbSized s.db) :
    Refines E s (cellsOf s) where
  working := h.working
  distinct := fun k _ _ _ _ href _ => absurd (h.hot k _ href) (by simp [Obj.isHot])
  key := fun k => by
    refine ⟨rfl, fun t ht => Nat.le_of_lt_succ (hsized.expiries k t ht), ?_⟩
    cases hlookup : s.db.table.lookup k with
    | none => simp [cellsOf, hlookup]
    | some v =>
      simp only [cellsOf, hlookup]
      exact ⟨v, ⟨h.hot k v hlookup, hsized.values k v hlookup, .inl hlookup⟩, rfl⟩

theorem foldl_absStep_filter : ∀ (ops : List ColdOp) (A : Cells),
    (ops.filter fun op => !op.isOffload).foldl absStep A = ops.foldl absStep A
  | [], _ => rfl
  | op :: ops, A => by
    have ih := foldl_absStep_filter ops
    cases op with
    | offload k =>
      have hsame : absStep A (.offload k) = A := Function.update_eq_self k A
      rw [List.foldl_cons, hsame]
      exact ih A
    | _ => exact ih _

def coldEnv : ColdEnv := ⟨noSizes, smallLimits, 0, true⟩

def freshTiered : Tiered := ⟨dbInit, tierCreate 0⟩

theorem freshTiered_hot : AllHot freshTiered :=
  ⟨⟨slotScan (Equiv.refl Nat), [], tierCreate_logged _ 0⟩,
    fun k v h => absurd h (by simp [freshTiered, dbInit])⟩

theorem freshTiered_sized : DbSized freshTiered.db where
  values := fun k v h => absurd h (by simp [freshTiered, dbInit])
  expiries := fun k t h => absurd h (by simp [freshTiered, dbInit])

def storedOne : StoredObj := ⟨.str [49], rfl, (by decide : 1 < uint32Max)⟩

end Ddup.Tier
