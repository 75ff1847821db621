/-
Ddup.Store.AccountingTheorems — what the key-space helpers do to the memory counter.

`drift` is how far `used_memory` is from what the stored entries weigh. Every
helper leaves it where it was, with one exception: `db_del_kv_keep_obj` forgets
the object of the entry it removes, and the counter stays ahead by its memory.
-/
import Mathlib.Data.UInt
import Ddup.Lib.Weight
import Ddup.Store.Db

namespace Ddup.Store

open Ddup.Lib

variable (d : Db) (k : Bytes) (v : Obj)

/-! ## The sums -/

def tableMem (t : KeyTable Obj) : UInt64 := weight (fun k v => entryMem k.length v) t

def expiresMem (t : KeyTable Nat) : UInt64 := weight (fun k _ => entryBytes k.length 8) t

/-- How far the counter is ahead of the entries. -/
def Db.drift (d : Db) : UInt64 := d.usedMemory - (tableMem d.table + expiresMem d.expires)

/-- The counter is the sum over the entries. -/
def Accounted (d : Db) : Prop := d.usedMemory = tableMem d.table + expiresMem d.expires

theorem accounted_iff_drift : Accounted d ↔ d.drift = 0 := by exact sub_eq_zero.symm

theorem dbInit_accounted : Accounted dbInit := rfl

/-! ## The helpers -/

theorem dbTouchKey_drift : (dbTouchKey d k).drift = d.drift := by
  unfold dbTouchKey
  split
  · rfl
  · split <;> rfl

theorem dropTier_drift : (dropTier d v).drift = d.drift := by
  unfold dropTier
  split
  · split <;> rfl
  · rfl

theorem dropTier_table : (dropTier d v).table = d.table := by
  unfold dropTier
  split
  · split <;> rfl
  · rfl

theorem clearExpiry_table : (clearExpiry d k).table = d.table := by
  unfold clearExpiry
  split <;> rfl

theorem clearExpiry_drift : (clearExpiry d k).drift = d.drift := by
  unfold clearExpiry
  split
  · rename_i hk
    obtain ⟨t, ht⟩ := Finmap.mem_iff.mp hk
    have hsum : expiresMem d.expires =
        entryBytes k.length 8 + expiresMem (d.expires.erase k) :=
      weight_eq_of_lookup _ ht
    simp only [Db.drift, hsum]
    abel
  · rfl

theorem eraseEntry_drift {k : Bytes} {v : Obj} (h : k ∉ d.expires) (hv : d.table.lookup k = some v)
    : (eraseEntry d k h).drift = d.drift + entryMem k.length v := by
  have hsum : tableMem d.table = entryMem k.length v + tableMem (d.table.erase k) :=
    weight_eq_of_lookup _ hv
  simp only [Db.drift, hsum]
  abel

/-- Dropping an entry settles its memory, except for the object it keeps. -/
theorem removeEntry_drift {k : Bytes} {v : Obj} (keepObj : Bool) (hv : d.table.lookup k = some v) :
    (removeEntry d k v keepObj).drift = d.drift + if keepObj then v.extraMem else 0 := by
  have hclear : ∀ d', d'.table = d.table → d'.drift = d.drift →
      (eraseEntry (clearExpiry d' k) k (clearExpiry_notMem d' k)).drift =
        d.drift + entryMem k.length v := by
    intro d' htable hdrift
    rw [eraseEntry_drift _ _ (by rw [clearExpiry_table, htable]; exact hv), clearExpiry_drift,
      hdrift]
  cases keepObj with
  | false =>
    have h := hclear (dropTier d v) (dropTier_table d v) (dropTier_drift d v)
    simp only [removeEntry, Db.drift, Bool.false_eq_true, if_false] at h ⊢
    rw [sub_right_comm, h]
    abel
  | true =>
    have h := hclear d rfl rfl
    simp only [removeEntry, Db.drift, if_true] at h ⊢
    rw [sub_right_comm, h, entryMem]
    abel

theorem dbExpireIfNeeded_drift (now : Nat) : (dbExpireIfNeeded d k now).drift = d.drift := by
  unfold dbExpireIfNeeded
  split
  · rfl
  split
  · rfl
  split
  · rfl
  split
  · rw [dbTouchKey_drift, clearExpiry_drift]
  rename_i v hv
  rw [dbTouchKey_drift, removeEntry_drift d false hv]
  exact add_zero _

/-- Storing over what is there: the old entry's memory goes, the new one's comes. -/
theorem putEntry_drift {k : Bytes} (hk : k.length ≤ uint32Max) :
    (putEntry (releaseOld d k) k v hk).drift = d.drift := by
  have hnew : tableMem (d.table.insert k v) =
      entryMem k.length v + tableMem (d.table.erase k) := weight_insert _ _ _ _
  cases hold : d.table.lookup k with
  | none =>
    have herase : tableMem (d.table.erase k) = tableMem d.table :=
      weight_erase_of_notMem _ (Finmap.lookup_eq_none.mp hold)
    simp only [releaseOld, hold, putEntry, Db.drift, hnew, herase]
    abel
  | some old =>
    have hsum : tableMem d.table = entryMem k.length old + tableMem (d.table.erase k) :=
      weight_eq_of_lookup _ hold
    have hdrop := dropTier_drift d old
    simp only [Db.drift, dropTier_table] at hdrop
    simp only [releaseOld, hold, putEntry, Db.drift, dropTier_table, hnew]
    rw [← hdrop, hsum]
    abel

theorem dbSetKv_drift (keepTtl : Bool) : (dbSetKv d k v keepTtl).drift = d.drift := by
  unfold dbSetKv
  split
  · dsimp only
    rw [dbTouchKey_drift, putEntry_drift]
    split
    · rfl
    · exact clearExpiry_drift d k
  · rfl

/-- Deleting an entry and keeping its object leaves the object's memory behind. -/
theorem dbDelKv_drift (keepObj : Bool) :
    (dbDelKv d k keepObj).1.drift = d.drift + if keepObj ∧ k.length ≤ uint32Max then
      ((d.table.lookup k).map Obj.extraMem).getD 0 else 0 := by
  unfold dbDelKv
  split
  · rename_i hlen
    rw [if_neg fun h => absurd h.2 (Nat.not_le_of_lt hlen)]
    exact (add_zero _).symm
  rename_i hlen
  have hshort : k.length ≤ uint32Max := Nat.le_of_not_lt hlen
  split
  · rename_i hnone
    simp [clearExpiry_drift, hnone]
  rename_i v hv
  simp only [dbTouchKey_drift, removeEntry_drift d keepObj hv, hv, Option.map_some,
    Option.getD_some, hshort, and_true]

theorem dbSetExpiry_drift (t : Nat) : (dbSetExpiry d k t).drift = d.drift := by
  unfold dbSetExpiry
  split
  · rfl
  split
  · have hnew : expiresMem (d.expires.insert k t) =
        entryBytes k.length 8 + expiresMem (d.expires.erase k) := weight_insert _ _ _ _
    by_cases hk : k ∈ d.expires
    · obtain ⟨old, hold⟩ := Finmap.mem_iff.mp hk
      have hsum : expiresMem d.expires =
          entryBytes k.length 8 + expiresMem (d.expires.erase k) := weight_eq_of_lookup _ hold
      simp only [Db.drift, hnew, hsum, if_pos hk]
    · have herase : expiresMem (d.expires.erase k) = expiresMem d.expires :=
        weight_erase_of_notMem _ hk
      simp only [Db.drift, hnew, herase, if_neg hk]
      abel
  · rfl

theorem editEntry_drift {k : Bytes} {old : Obj} (hold : d.table.lookup k = some old) :
    (syncMem (editEntry d k v) (entryMem k.length old) (entryMem k.length v)).drift = d.drift := by
  have hmem : k ∈ d.table := Finmap.mem_of_lookup_eq_some hold
  have hnew : tableMem (d.table.insert k v) =
      entryMem k.length v + tableMem (d.table.erase k) := weight_insert _ _ _ _
  have hsum : tableMem d.table = entryMem k.length old + tableMem (d.table.erase k) :=
    weight_eq_of_lookup _ hold
  simp only [syncMem, editEntry, dif_pos hmem, Db.drift, hnew, hsum]
  abel

theorem tierOffload_drift (t : Tier) {k : Bytes} {v : Obj} (hv : d.table.lookup k = some v)
    : (tierOffload d t k v).1.drift = d.drift := by
  unfold tierOffload
  split
  · rfl
  · exact editEntry_drift d _ hv

theorem restoreKey_drift (expire : Nat) : (restoreKey d k v expire).drift = d.drift := by
  unfold restoreKey
  split
  · exact dbSetKv_drift d k v false
  · rw [dbSetExpiry_drift, dbSetKv_drift]

theorem dbTierMaterialize_drift (rid : Nat) : (dbTierMaterialize d k rid).1.drift = d.drift := by
  unfold dbTierMaterialize
  split
  · rfl
  · rw [dropTier_drift, restoreKey_drift]

theorem lookupHot_drift : (lookupHot d k).1.drift = d.drift := by
  unfold lookupHot
  split
  · rfl
  · exact dbTierMaterialize_drift d k _
  · rfl

end Ddup.Store
