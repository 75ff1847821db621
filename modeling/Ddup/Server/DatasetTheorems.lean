/-
Ddup.Server.DatasetTheorems — the entry of a key as a client can observe it.

Lazy expiry leaves what is observable alone: afterwards the tables hold exactly the observable entry,
whatever expired entries were stored before.
-/
import Ddup.Store.DbTheorems

namespace Ddup.Server

open Ddup.Store

variable (d : Db) (k : Bytes) (now : Nat)

/-! ## Entries of the helpers -/

abbrev Entry := Obj × Option Nat

def stored : Option Entry → Option Obj × Option Nat
  | none => (none, none)
  | some (v, t) => (some v, t)

@[simp] theorem liveEntry_none (t : Option Nat) : liveEntry now (none, t) = none := rfl

@[simp] theorem liveEntry_forever (v : Obj) : liveEntry now (some v, none) = some (v, none) := rfl

theorem liveEntry_stored (x : Option Obj × Option Nat) :
    liveEntry now (stored (liveEntry now x)) = liveEntry now x := by
  obtain ⟨v, t⟩ := x
  cases v with
  | none => rfl
  | some v =>
    cases t with
    | none => rfl
    | some t =>
      by_cases hlt : now < t
      · simp [liveEntry, stored, hlt]
      · simp [liveEntry, stored, hlt]

theorem dbExpireIfNeeded_entry : (dbExpireIfNeeded d k now).entry k = stored (d.live now k) := by
  unfold dbExpireIfNeeded
  split
  · rename_i hlong
    have htable := table_none_of_long (d := d) hlong
    simp [Db.entry, Db.live, stored, htable, expires_none_of_table htable]
  split
  · rename_i hexp
    simp only [Db.entry, Db.live, hexp]
    cases d.table.lookup k <;> rfl
  rename_i t hexp
  split
  · rename_i hlt
    have hmem : k ∈ d.table := d.owned k (Finmap.mem_of_lookup_eq_some hexp)
    obtain ⟨v, hv⟩ := Finmap.mem_iff.mp hmem
    simp [Db.entry, Db.live, hexp, hv, liveEntry, stored, hlt]
  rename_i hge
  have hlive : d.live now k = none := by
    simp only [Db.live, Db.entry, hexp]
    cases d.table.lookup k with
    | none => rfl
    | some v => simp [liveEntry, hge]
  rw [hlive]
  split
  · rename_i htable
    rw [dbTouchKey_entry, clearExpiry_entry, htable]
    rfl
  · rw [dbTouchKey_entry, removeEntry_entry]
    rfl

/-! ## Calls on one key -/

theorem dbExpireIfNeeded_table :
    (dbExpireIfNeeded d k now).table.lookup k = (d.live now k).map (·.1) := by
  have h := congrArg Prod.fst (dbExpireIfNeeded_entry d k now)
  refine h.trans ?_
  cases d.live now k <;> rfl

theorem dbExpireIfNeeded_expires :
    (dbExpireIfNeeded d k now).expires.lookup k = (d.live now k).bind (·.2) := by
  have h := congrArg Prod.snd (dbExpireIfNeeded_entry d k now)
  refine h.trans ?_
  cases d.live now k <;> rfl

theorem dbExpireIfNeeded_live : (dbExpireIfNeeded d k now).live now k = d.live now k := by
  rw [live_of_entry (dbExpireIfNeeded_entry d k now), Db.live, liveEntry_stored]

/-- The expiry of an observable entry lies ahead, whatever value it goes with. -/
theorem liveEntry_keep {now : Nat} {x : Option Obj × Option Nat} {w : Obj} {t : Option Nat}
    (h : liveEntry now x = some (w, t)) (v : Obj) : liveEntry now (some v, t) = some (v, t) := by
  obtain ⟨u, e⟩ := x
  cases u with
  | none => cases h
  | some u =>
    cases e with
    | none => cases h; rfl
    | some e =>
      simp only [liveEntry] at h
      split at h
      · rename_i hlt
        cases h
        simp [liveEntry, hlt]
      · cases h

theorem tier_of_confined {k : Bytes} {d d' : Db} (h : Confined k d d') : d'.tier = d.tier :=
  congrArg Prod.fst h.settings

end Ddup.Server
