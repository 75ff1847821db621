/-
Ddup.Server.AccountingTheorems — `used_memory` over runs of key-space calls.

A run is a sequence of calls of the key-space helpers and of the commands that
store, drop or move entries, on any of the databases. RENAME, RENAMENX and MOVE
put the value under its new key with `db_set_kv`, which adds the object's memory,
and drop the old key with `db_del_kv_keep_obj`, which does not subtract it. The
counter is therefore right after every step exactly while no command moves a value
that owns memory.
-/
import Ddup.Server.Loop
import Ddup.Server.DatasetTheorems
import Ddup.Store.AccountingTheorems

namespace Ddup.Server

open Ddup.Resp Ddup.Command Ddup.Store
open Finmap (lookup_isSome)
open Function (update update_of_ne update_self)

variable {d : Db} {k : Bytes}

/-! ## Calls -/

/-- `db_tier_offload` of the value a key holds, if it is hot and there is a cold
store. -/
def dbTierOffload (d : Db) (k : Bytes) : Db :=
  match d.tier, d.table.lookup k with
  | some t, some v => if v.isHot then (tierOffload d t k v).1 else d
  | _, _ => d

/-- A call on the key space of one database, or a command run by a session. -/
inductive KeyspaceCall
  | setKv (i : Nat) (k : Bytes) (v : Obj)
  | setKvString (i : Nat) (k b : Bytes) (keepTtl : Bool)
  | delKv (i : Nat) (k : Bytes)
  | expireIfNeeded (i : Nat) (k : Bytes) (now : Nat)
  | setExpiry (i : Nat) (k : Bytes) (t : Nat)
  | tierOffload (i : Nat) (k : Bytes)
  | tierMaterialize (i : Nat) (k : Bytes)
  | persist (c : Ctx)
  | rename (c : Ctx)
  | renamenx (c : Ctx)
  | move (c : Ctx)

def keyspaceStep (e : Exec) : KeyspaceCall → Exec
  | .setKv i k v => e.setDb i (dbSetKv (e.dbs i) k v false)
  | .setKvString i k b keepTtl => e.setDb i (dbSetKv (e.dbs i) k (.str b) keepTtl)
  | .delKv i k => e.setDb i (dbDelKv (e.dbs i) k false).1
  | .expireIfNeeded i k now => e.setDb i (dbExpireIfNeeded (e.dbs i) k now)
  | .setExpiry i k t => e.setDb i (dbSetExpiry (e.dbs i) k t)
  | .tierOffload i k => e.setDb i (dbTierOffload (e.dbs i) k)
  | .tierMaterialize i k => e.setDb i (lookupHot (e.dbs i) k).1
  | .persist c => (runCmd c.now (persistCommand c) e).2
  | .rename c => (runCmd c.now (renameCommand c) e).2
  | .renamenx c => (runCmd c.now (renamenxCommand c) e).2
  | .move c => (runCmd c.now (moveCommand c) e).2

def keyspaceRun (e : Exec) (calls : List KeyspaceCall) : Exec := calls.foldl keyspaceStep e

/-! ## What a command moves -/

def renameArgs (c : Ctx) : Option (Bytes × Bytes) :=
  if c.argv.length ≠ 3 ∨ crossslotReject c then none
  else
    match argAt c.argv 1, argAt c.argv 2 with
    | some sk, some dk =>
      if uint32Max < sk.length ∨ uint32Max < dk.length then none else some (sk, dk)
    | _, _ => none

def moveArgs (c : Ctx) : Option (Bytes × Nat) :=
  if c.argv.length ≠ 3 ∨ crossslotReject c then none
  else
    match argAt c.argv 1, dbIndexArg c 2 with
    | some k, .ok t => if t = c.dbIndex ∨ uint32Max < k.length then none else some (k, t)
    | _, _ => none

/-- The databases once the expired source and destination are collected. -/
def collectBoth (now : Nat) (dbs : Nat → Db) (i : Nat) (sk : Bytes) (j : Nat) (dk : Bytes) :
    Nat → Db :=
  let dbs := update dbs i (dbExpireIfNeeded (dbs i) sk now)
  update dbs j (dbExpireIfNeeded (dbs j) dk now)

/-- The value that goes from key `sk` of db `i` to key `dk` of db `j`: the source is
live, it is another entry, the destination is free where it has to be, memory is
not short and the entry fits. -/
def movedValue (now : Nat) (dbs : Nat → Db) (i : Nat) (sk : Bytes) (j : Nat) (dk : Bytes)
    (free : Bool) : Option Obj :=
  let dbs := collectBoth now dbs i sk j dk
  match (dbs i).table.lookup sk with
  | none => none
  | some v =>
    if (i = j ∧ sk = dk) ∨ (free ∧ dk ∈ (dbs j).table) ∨ oomBlocked (dbs j) ∨ ¬ storable dk v
    then none else some v

def renameMoves (dbs : Nat → Db) (c : Ctx) (nx : Bool) : Option Obj :=
  (renameArgs c).bind fun (sk, dk) => movedValue c.now dbs c.dbIndex sk c.dbIndex dk nx

def moveMoves (dbs : Nat → Db) (c : Ctx) : Option Obj :=
  (moveArgs c).bind fun (k, t) => movedValue c.now dbs c.dbIndex k t k true

def KeyspaceCall.moves (dbs : Nat → Db) : KeyspaceCall → Option (Nat × Obj)
  | .rename c => (renameMoves dbs c false).map fun v => (c.dbIndex, v)
  | .renamenx c => (renameMoves dbs c true).map fun v => (c.dbIndex, v)
  | .move c => (moveMoves dbs c).map fun v => (c.dbIndex, v)
  | _ => none

/-! ## Single calls -/

def Unexpired (now : Nat) (d : Db) (k : Bytes) : Prop :=
  ∀ t, d.expires.lookup k = some t → now < t

theorem dbExpireIfNeeded_of_unexpired {now : Nat} (h : Unexpired now d k) :
    dbExpireIfNeeded d k now = d := by
  unfold dbExpireIfNeeded
  split
  · rfl
  split
  · rfl
  · rename_i t ht
    rw [if_pos (h t ht)]

theorem dbExpireIfNeeded_unexpired (now : Nat) (d : Db) (k : Bytes) :
    Unexpired now (dbExpireIfNeeded d k now) k := by
  intro t ht
  rw [dbExpireIfNeeded_expires] at ht
  cases hlive : d.live now k with
  | none => rw [hlive] at ht; cases ht
  | some x =>
    obtain ⟨v, u⟩ := x
    rw [hlive] at ht
    have hkeep := liveEntry_keep hlive v
    cases ht
    by_contra hge
    simp [liveEntry, hge] at hkeep

theorem Unexpired.frame {now : Nat} {d' : Db} {k' : Bytes} (h : Unexpired now d k)
    (hc : Confined k' d d') (hne : k ≠ k') : Unexpired now d' k := by
  intro t ht
  exact h t ((congrArg Prod.snd (hc.frame k hne)).symm.trans ht)

theorem dbTierOffload_drift (d : Db) (k : Bytes) : (dbTierOffload d k).drift = d.drift := by
  unfold dbTierOffload
  split
  · rename_i t v _ hv
    split
    · exact tierOffload_drift d t hv
    · rfl
  · rfl

@[simp] theorem commit_dbs (e : Exec) (now i : Nat) (k : Bytes) (d : Db) :
    (e.commit now i k d).dbs = update e.dbs i d := rfl

/-! ## Moving a value -/

section Transfer

variable {now i j : Nat} {sk dk : Bytes} {v : Obj} {e : Exec} {x : Option Nat}

/-- The observable value of a key is not touched by calls on other keys, nor by a
look at its own expiry. -/
theorem live_update_ne {dbs : Nat → Db} (hne : i ≠ j ∨ sk ≠ dk) (hc : Confined dk (dbs j) d) :
    ((update dbs j d) i).live now sk = (dbs i).live now sk := by
  by_cases hij : i = j
  · subst hij
    have hk : sk ≠ dk := hne.resolve_left fun h => h rfl
    rw [update_self, Db.live, hc.frame sk hk, Db.live]
  · rw [update_of_ne hij]

theorem drift_update {dbs : Nat → Db} {j : Nat} (h : d.drift = (dbs j).drift) (n : Nat) :
    ((update dbs j d) n).drift = (dbs n).drift := by
  by_cases hn : n = j
  · subst hn
    rw [update_self, h]
  · rw [update_of_ne hn]

/-- What a transfer does before its last step: the counters stay right and the
source is still observable. -/
structure Holds (now i : Nat) (sk : Bytes) (e e' : Exec) : Prop where
  drift : ∀ n, (e'.dbs n).drift = (e.dbs n).drift
  live : (e'.dbs i).live now sk = (e.dbs i).live now sk

theorem Holds.trans {e₁ e₂ : Exec} (h₁ : Holds now i sk e e₁) (h₂ : Holds now i sk e₁ e₂) :
    Holds now i sk e e₂ :=
  ⟨fun n => (h₂.drift n).trans (h₁.drift n), h₂.live.trans h₁.live⟩

theorem Holds.call {o : KeyOp} (e : Exec) (hne : i ≠ j ∨ sk ≠ dk)
    (hdrift : ∀ d, (keyStep now dk o d).2.drift = d.drift) :
    Holds now i sk e (opStep now (.key j dk o) e).2 :=
  ⟨drift_update (hdrift _), live_update_ne hne (keyStep_confined now dk o (e.dbs j))⟩

theorem Holds.ttl (e : Exec) : Holds now i sk e (opStep now (.key i sk .ttl) e).2 := by
  refine ⟨drift_update (dbExpireIfNeeded_drift _ _ _), ?_⟩
  simp only [opStep, commit_dbs, update_self]
  exact dbExpireIfNeeded_live _ _ _

theorem keyStep_setExpiry_drift (k : Bytes) (t : Nat) (d : Db) :
    (keyStep now k (.setExpiry t false) d).2.drift = d.drift := by
  simp only [keyStep, Bool.false_eq_true, if_false, dbSetExpiry_drift, dbExpireIfNeeded_drift]

/-- The last step of a transfer: the source entry goes and its object's memory stays. -/
theorem delKeep_drift (hlive : (e.dbs i).live now sk = some (v, x)) (n : Nat) :
    ((opStep now (.key i sk (.delKv true)) e).2.dbs n).drift =
      (e.dbs n).drift + if n = i then v.extraMem else 0 := by
  have htable : (dbExpireIfNeeded (e.dbs i) sk now).table.lookup sk = some v := by
    rw [dbExpireIfNeeded_table, hlive]
    rfl
  have hshort : sk.length ≤ uint32Max := Db.short _ sk (Finmap.mem_of_lookup_eq_some htable)
  by_cases hn : n = i
  · subst hn
    simp only [opStep, commit_dbs, update_self, keyStep, dbDelKv_drift, htable,
      Option.map_some, Option.getD_some, hshort, and_self, dbExpireIfNeeded_drift]
  · simp only [opStep, commit_dbs, update_of_ne hn, if_neg hn, add_zero]

/-- The end of a transfer, once the value is stored under the destination. -/
theorem finish_drift {e' : Exec} (hheld : Holds now i sk e e')
    (hlive : (e.dbs i).live now sk = some (v, x)) (n : Nat) :
    ((opStep now (.key i sk (.delKv true)) e').2.dbs n).drift =
      (e.dbs n).drift + if n = i then v.extraMem else 0 := by
  rw [delKeep_drift (hheld.live.trans hlive), hheld.drift]

/-- A transfer leaves the moved object's memory behind in the source database. -/
theorem transfer_drift (done : RespValue) (hne : i ≠ j ∨ sk ≠ dk)
    (hlive : (e.dbs i).live now sk = some (v, x)) (n : Nat) :
    ((runCmd now (transfer i sk j dk v done) e).2.dbs n).drift = (e.dbs n).drift +
      if n = i ∧ oomBlocked (e.dbs j) = false ∧ storable dk v = true then v.extraMem else 0 := by
  cases hoom : oomBlocked (e.dbs j) with
  | true => simp [transfer, runCmd, Cmd.oom, reply, opStep, hoom, Exec.emit]
  | false =>
    cases hfits : storable dk v with
    | false =>
      have hsame : dbSetKv (e.dbs j) dk v false = e.dbs j := by simp [dbSetKv, hfits]
      simp [transfer, runCmd, Cmd.oom, Cmd.setKv, reply, opStep, hoom, keyStep, hfits, hsame]
    | true =>
      -- the entry is stored, its expiry carried over if there is one, and the source goes
      have hset : Holds now i sk e (opStep now (.key j dk (.setKv v false)) e).2 :=
        .call e hne fun d => dbSetKv_drift d dk v false
      have hlook := hset.trans (.ttl _)
      have hcall : (opStep now (.oom j) e) = (.flag false, e) := by
        simp [opStep, hoom]
      have hstored : (opStep now (.key j dk (.setKv v false)) e).1 = .flag true := by
        simp only [opStep, keyStep, hfits]
      simp only [and_true]
      simp only [transfer, runCmd, Cmd.oom, Cmd.setKv, Cmd.ttl, Lib.Prog.call_bind,
        Lib.Prog.run_call, hcall, Lib.Prog.done_bind, Bool.false_eq_true, if_false, hstored,
        Bool.not_true]
      split
      · rename_i t _
        cases t with
        | none => exact finish_drift hlook hlive n
        | some t =>
          exact finish_drift (hlook.trans (.call _ hne (keyStep_setExpiry_drift dk t)))
            hlive n
      · exact finish_drift hlook hlive n

end Transfer

/-! ## The commands -/

theorem commit_self (e : Exec) (now i : Nat) (k : Bytes) : e.commit now i k (e.dbs i) = e := by
  simp [Exec.commit, Exec.keyEvents, Exec.emit, Exec.setDb]

theorem peek_unexpired {now i : Nat} {e : Exec} (h : Unexpired now (e.dbs i) k) :
    opStep now (.key i k .peek) e = (.obj ((e.dbs i).table.lookup k), e) := by
  simp only [opStep, keyStep, dbExpireIfNeeded_of_unexpired h, commit_self]

theorem live_of_unexpired {now : Nat} {v : Obj} (h : Unexpired now d k)
    (hv : d.table.lookup k = some v) : d.live now k = some (v, d.expires.lookup k) := by
  cases ht : d.expires.lookup k with
  | none => simp only [Db.live, Db.entry, hv, ht, liveEntry]
  | some t => simp only [Db.live, Db.entry, hv, ht, liveEntry, if_pos (h t ht)]

def movedMem (moved : Option Obj) : UInt64 := (moved.map Obj.extraMem).getD 0

section Commands

variable {now i j : Nat} {sk dk : Bytes} {e : Exec} (c : Ctx) {dbs : Nat → Db} {free : Bool}

theorem collectBoth_drift (dbs : Nat → Db) (n : Nat) :
    (collectBoth now dbs i sk j dk n).drift = (dbs n).drift := by
  unfold collectBoth
  rw [drift_update (dbExpireIfNeeded_drift _ _ _), drift_update (dbExpireIfNeeded_drift _ _ _)]

theorem collectBoth_dest (dbs : Nat → Db) : Unexpired now (collectBoth now dbs i sk j dk j) dk := by
  unfold collectBoth
  rw [update_self]
  exact dbExpireIfNeeded_unexpired _ _ _

theorem collectBoth_source (dbs : Nat → Db) :
    Unexpired now (collectBoth now dbs i sk j dk i) sk := by
  unfold collectBoth
  by_cases hij : i = j
  · subst hij
    rw [update_self, update_self]
    by_cases hk : sk = dk
    · subst hk
      exact dbExpireIfNeeded_unexpired _ _ _
    · exact (dbExpireIfNeeded_unexpired _ _ _).frame (dbExpireIfNeeded_confined _ _ _) hk
  · rw [update_of_ne hij, update_self]
    exact dbExpireIfNeeded_unexpired _ _ _

/-- The check for a taken destination and the transfer, from collected databases. -/
theorem place_drift (free : Bool) (done : RespValue) {v : Obj}
    (hdbs : e.dbs = collectBoth now dbs i sk j dk) (hne : i ≠ j ∨ sk ≠ dk)
    (hv : (e.dbs i).table.lookup sk = some v) (hfree : ¬ (free ∧ dk ∈ (e.dbs j).table)) (n : Nat) :
    ((runCmd now (transfer i sk j dk v done) e).2.dbs n).drift = (dbs n).drift +
      if n = i then movedMem (movedValue now dbs i sk j dk free) else 0 := by
  have hunexp : Unexpired now (e.dbs i) sk := hdbs ▸ collectBoth_source dbs
  have hsame : ¬ (i = j ∧ sk = dk) := fun h => hne.elim (· h.1) (· h.2)
  rw [transfer_drift done hne (live_of_unexpired hunexp hv) n]
  have hmoved : movedValue now dbs i sk j dk free =
      if oomBlocked (e.dbs j) = false ∧ storable dk v = true then some v else none := by
    unfold movedValue
    simp only [← hdbs, hv, hsame, hfree]
    cases oomBlocked (e.dbs j) <;> cases storable dk v <;> rfl
  rw [hdbs, collectBoth_drift, ← hdbs, hmoved]
  by_cases hn : n = i
  · by_cases hok : oomBlocked (e.dbs j) = false ∧ storable dk v = true
    · simp only [if_pos hok, if_pos hn, if_pos (And.intro hn hok), movedMem, Option.map_some,
        Option.getD_some]
    · simp only [if_neg hok, if_pos hn, if_neg fun h : _ ∧ _ => hok h.2, movedMem,
        Option.map_none, Option.getD_none]
  · simp only [if_neg hn, if_neg fun h : _ ∧ _ => hn h.1]

theorem stop_drift (hdbs : e.dbs = collectBoth now dbs i sk j dk)
    (hnone : movedValue now dbs i sk j dk free = none) (n : Nat) :
    (e.dbs n).drift = (dbs n).drift +
      if n = i then movedMem (movedValue now dbs i sk j dk free) else 0 := by
  rw [hdbs, collectBoth_drift, hnone]
  exact (ite_self (0 : UInt64) ▸ add_zero _).symm

theorem movedValue_of_absent (hdbs : e.dbs = collectBoth now dbs i sk j dk)
    (h : (e.dbs i).table.lookup sk = none) : movedValue now dbs i sk j dk free = none := by
  unfold movedValue
  simp only [← hdbs, h]

theorem movedValue_of_refused (hdbs : e.dbs = collectBoth now dbs i sk j dk)
    (h : (i = j ∧ sk = dk) ∨ (free = true ∧ dk ∈ (e.dbs j).table)) :
    movedValue now dbs i sk j dk free = none := by
  unfold movedValue
  simp only [← hdbs]
  split
  · rfl
  · rw [if_pos]
    exact h.imp_right Or.inl

theorem expireBoth_dbs (now i : Nat) (sk dk : Bytes) (e : Exec) :
    (runCmd now (expireBoth i sk dk) e).2.dbs = collectBoth now e.dbs i sk i dk := by
  unfold expireBoth collectBoth
  split
  · rename_i hk
    subst hk
    have hunexp := dbExpireIfNeeded_unexpired now (e.dbs i) sk
    simp [runCmd, Cmd.expire, opStep, keyStep, dbExpireIfNeeded_of_unexpired hunexp]
  · simp [runCmd, Cmd.expire, opStep, keyStep]

theorem destTaken_run (nx : Bool) (h : Unexpired now (e.dbs i) dk) :
    runCmd now (destTaken i dk nx) e = (nx && ((e.dbs i).table.lookup dk).isSome, e) := by
  cases nx with
  | false => rfl
  | true => simp [destTaken, runCmd, Cmd.peek, peek_unexpired h]

theorem renameKey_drift (nx : Bool) (n : Nat) :
    ((runCmd now (renameKey i sk dk nx) e).2.dbs n).drift = (e.dbs n).drift +
      if n = i then movedMem (movedValue now e.dbs i sk i dk nx) else 0 := by
  have hdbs := expireBoth_dbs now i sk dk e
  simp only [renameKey, runCmd, Lib.Prog.run_bind] at hdbs ⊢
  generalize (Lib.Prog.run (opStep now) (expireBoth i sk dk) e).2 = e₁ at hdbs ⊢
  have hpeek := peek_unexpired (hdbs ▸ collectBoth_source e.dbs)
  simp only [Cmd.peek, Lib.Prog.run_call, hpeek, Lib.Prog.run_done]
  cases hv : (e₁.dbs i).table.lookup sk with
  | none => exact stop_drift hdbs (movedValue_of_absent hdbs hv) n
  | some v =>
    dsimp only
    split
    · rename_i hk
      exact stop_drift hdbs (movedValue_of_refused hdbs (.inl ⟨rfl, hk⟩)) n
    rename_i hk
    have htaken := destTaken_run nx (hdbs ▸ collectBoth_dest e.dbs)
    rw [runCmd] at htaken
    simp only [Lib.Prog.run_bind, htaken]
    split
    · rename_i hyes
      rw [Bool.and_eq_true, lookup_isSome] at hyes
      exact stop_drift hdbs (movedValue_of_refused hdbs (.inr hyes)) n
    · rename_i hno
      rw [Bool.and_eq_true, lookup_isSome] at hno
      exact place_drift nx _ hdbs (.inr hk) hv hno n

def moveBody (c : Ctx) (k : Bytes) (t : Nat) : Cmd Outcome := do
  Cmd.expire c.dbIndex k
  Cmd.expire t k
  match ← Cmd.peek c.dbIndex k with
  | none => reply (.integer 0)
  | some v =>
    if (← Cmd.peek t k).isSome then reply (.integer 0)
    else transfer c.dbIndex k t k v (.integer 1)

theorem moveBody_drift (k : Bytes) {t : Nat} (ht : t ≠ c.dbIndex) (n : Nat) :
    ((runCmd now (moveBody c k t) e).2.dbs n).drift = (e.dbs n).drift +
      if n = c.dbIndex then movedMem (movedValue now e.dbs c.dbIndex k t k true) else 0 := by
  have hdbs : (opStep now (.key t k .expire) (opStep now (.key c.dbIndex k .expire) e).2).2.dbs =
      collectBoth now e.dbs c.dbIndex k t k := rfl
  simp only [moveBody, runCmd, Cmd.expire, Lib.Prog.call_bind, Lib.Prog.run_call,
    Lib.Prog.done_bind] at hdbs ⊢
  generalize (opStep now (.key t k .expire) (opStep now (.key c.dbIndex k .expire) e).2).2 = e₁
    at hdbs ⊢
  have hpeek := peek_unexpired (hdbs ▸ collectBoth_source e.dbs)
  have hpeek' := peek_unexpired (hdbs ▸ collectBoth_dest e.dbs)
  simp only [Cmd.peek, Lib.Prog.call_bind, Lib.Prog.run_call, hpeek]
  cases hv : (e₁.dbs c.dbIndex).table.lookup k with
  | none => exact stop_drift hdbs (movedValue_of_absent hdbs hv) n
  | some v =>
    simp only [Lib.Prog.run_call, hpeek', Lib.Prog.done_bind]
    split
    · rename_i hyes
      rw [lookup_isSome] at hyes
      exact stop_drift hdbs (movedValue_of_refused hdbs (.inr ⟨rfl, hyes⟩)) n
    · rename_i hno
      rw [lookup_isSome] at hno
      exact place_drift true _ hdbs (.inl ht.symm) hv (fun h => hno h.2) n

theorem renameOrNx_cases (name : String) (nx : Bool) :
    (renameArgs c = none ∧ ∃ r, renameOrNx c name nx = reply r) ∨
      ∃ sk dk, renameArgs c = some (sk, dk) ∧
        renameOrNx c name nx = renameKey c.dbIndex sk dk nx := by
  unfold renameArgs renameOrNx
  by_cases harity : c.argv.length ≠ 3
  · exact .inl ⟨if_pos (.inl harity), _, if_pos harity⟩
  by_cases hslot : crossslotReject c
  · exact .inl ⟨if_pos (.inr hslot), _, (if_neg harity).trans (if_pos hslot)⟩
  rw [if_neg fun h => h.elim harity hslot, if_neg harity, if_neg hslot]
  cases argAt c.argv 1 with
  | none => exact .inl ⟨rfl, _, rfl⟩
  | some sk =>
    cases argAt c.argv 2 with
    | none => exact .inl ⟨rfl, _, rfl⟩
    | some dk =>
      by_cases hlong : uint32Max < sk.length ∨ uint32Max < dk.length
      · exact .inl ⟨if_pos hlong, _, if_pos hlong⟩
      · exact .inr ⟨sk, dk, if_neg hlong, if_neg hlong⟩

theorem moveCommand_cases :
    (moveArgs c = none ∧ ∃ r, moveCommand c = reply r) ∨
      ∃ k t, moveArgs c = some (k, t) ∧ t ≠ c.dbIndex ∧ moveCommand c = moveBody c k t := by
  unfold moveArgs moveCommand
  by_cases harity : c.argv.length ≠ 3
  · exact .inl ⟨if_pos (.inl harity), _, if_pos harity⟩
  by_cases hslot : crossslotReject c
  · exact .inl ⟨if_pos (.inr hslot), _, (if_neg harity).trans (if_pos hslot)⟩
  rw [if_neg fun h => h.elim harity hslot, if_neg harity, if_neg hslot]
  cases argAt c.argv 1 with
  | none => exact .inl ⟨rfl, _, rfl⟩
  | some k =>
    cases dbIndexArg c 2 with
    | error err => exact .inl ⟨rfl, _, rfl⟩
    | ok t =>
      by_cases hself : t = c.dbIndex
      · exact .inl ⟨if_pos (.inl hself), _, if_pos hself⟩
      by_cases hlong : uint32Max < k.length
      · exact .inl ⟨if_pos (.inr hlong), _, (if_neg hself).trans (if_pos hlong)⟩
      · exact .inr ⟨k, t, if_neg fun h => h.elim hself hlong, hself,
          (if_neg hself).trans (if_neg hlong)⟩

theorem persistCommand_drift (n : Nat) :
    ((runCmd now (persistCommand c) e).2.dbs n).drift = (e.dbs n).drift := by
  unfold persistCommand
  split
  · rfl
  split
  · rfl
  rename_i k _
  have hclear : ∀ d, (keyStep now k (.clearExpiry false) d).2.drift = d.drift := by
    intro d
    simp only [keyStep]
    split
    · simp [clearExpiry_drift, dbExpireIfNeeded_drift]
    · exact dbExpireIfNeeded_drift d k now
  simp only [runCmd, Cmd.expire, Cmd.clearExpiry, Lib.Prog.call_bind, Lib.Prog.run_call,
    Lib.Prog.done_bind]
  have hfirst : ((opStep now (.key c.dbIndex k .expire) e).2.dbs n).drift = (e.dbs n).drift :=
    drift_update (dbExpireIfNeeded_drift _ _ _) n
  split <;> exact (drift_update (hclear _) n).trans hfirst

end Commands

theorem renameOrNx_drift (c : Ctx) (name : String) (nx : Bool) (e : Exec) (n : Nat) :
    ((runCmd c.now (renameOrNx c name nx) e).2.dbs n).drift = (e.dbs n).drift +
      if n = c.dbIndex then movedMem (renameMoves e.dbs c nx) else 0 := by
  rcases renameOrNx_cases c name nx with ⟨hargs, r, hstop⟩ | ⟨sk, dk, hargs, hrun⟩
  · rw [hstop, renameMoves, hargs]
    exact (ite_self (0 : UInt64) ▸ add_zero _).symm
  · rw [hrun, renameMoves, hargs]
    exact renameKey_drift nx n

theorem moveCommand_drift (c : Ctx) (e : Exec) (n : Nat) :
    ((runCmd c.now (moveCommand c) e).2.dbs n).drift = (e.dbs n).drift +
      if n = c.dbIndex then movedMem (moveMoves e.dbs c) else 0 := by
  rcases moveCommand_cases c with ⟨hargs, r, hstop⟩ | ⟨k, t, hargs, ht, hrun⟩
  · rw [hstop, moveMoves, hargs]
    exact (ite_self (0 : UInt64) ▸ add_zero _).symm
  · rw [hrun, moveMoves, hargs]
    exact moveBody_drift c k ht n

/-! ## Runs -/

/-- The memory a call leaves behind in db `n`. -/
def KeyspaceCall.leak (dbs : Nat → Db) (call : KeyspaceCall) (n : Nat) : UInt64 :=
  match call.moves dbs with
  | some (i, v) => if n = i then v.extraMem else 0
  | none => 0

theorem leak_of_moved {dbs : Nat → Db} {call : KeyspaceCall} {i : Nat} {moved : Option Obj}
    (h : call.moves dbs = moved.map fun v => (i, v)) (n : Nat) :
    call.leak dbs n = if n = i then movedMem moved else 0 := by
  unfold KeyspaceCall.leak
  rw [h]
  cases moved with
  | none => exact (ite_self _).symm
  | some v => rfl

/-- One call leaves exactly the memory of the value it moves behind. -/
theorem keyspaceStep_drift (e : Exec) (call : KeyspaceCall) (n : Nat) :
    ((keyspaceStep e call).dbs n).drift = (e.dbs n).drift + call.leak e.dbs n := by
  cases call with
  | setKv i k v | setKvString i k b keepTtl =>
    exact (drift_update (dbSetKv_drift _ _ _ _) n).trans (add_zero _).symm
  | delKv i k =>
    refine (drift_update ?_ n).trans (add_zero _).symm
    rw [dbDelKv_drift]
    exact add_zero _
  | expireIfNeeded i k now =>
    exact (drift_update (dbExpireIfNeeded_drift _ _ _) n).trans (add_zero _).symm
  | setExpiry i k t => exact (drift_update (dbSetExpiry_drift _ _ _) n).trans (add_zero _).symm
  | tierOffload i k => exact (drift_update (dbTierOffload_drift _ _) n).trans (add_zero _).symm
  | tierMaterialize i k => exact (drift_update (lookupHot_drift _ _) n).trans (add_zero _).symm
  | persist c => exact (persistCommand_drift c n).trans (add_zero _).symm
  | rename c => rw [leak_of_moved rfl n]; exact renameOrNx_drift c "rename" false e n
  | renamenx c => rw [leak_of_moved rfl n]; exact renameOrNx_drift c "renamenx" true e n
  | move c => rw [leak_of_moved rfl n]; exact moveCommand_drift c e n

def AllAccounted (e : Exec) : Prop := ∀ n, Accounted (e.dbs n)

/-- A call keeps the counters right exactly if it moves no value that owns memory. -/
theorem keyspaceStep_accounted_iff {e : Exec} (he : AllAccounted e) (call : KeyspaceCall) :
    AllAccounted (keyspaceStep e call) ↔
      ∀ i v, call.moves e.dbs = some (i, v) → v.extraMem = 0 := by
  have hdrift : ∀ n, ((keyspaceStep e call).dbs n).drift = call.leak e.dbs n := by
    intro n
    rw [keyspaceStep_drift, (accounted_iff_drift _).mp (he n)]
    exact zero_add _
  constructor
  · intro h i v hmoves
    have hzero := (hdrift i).symm.trans ((accounted_iff_drift _).mp (h i))
    simpa only [KeyspaceCall.leak, hmoves, if_true] using hzero
  intro h n
  rw [accounted_iff_drift, hdrift, KeyspaceCall.leak]
  cases hmoves : call.moves e.dbs with
  | none => rfl
  | some m =>
    obtain ⟨i, v⟩ := m
    simp [h i v hmoves]

theorem keyspaceRun_snoc (e : Exec) (calls : List KeyspaceCall) (call : KeyspaceCall) :
    keyspaceRun e (calls ++ [call]) = keyspaceStep (keyspaceRun e calls) call := by
  simp [keyspaceRun]

def emptyServer : Exec :=
  { (bootState 2 (fun _ => openUser) fun _ _ => none).toCore with
    s := sessionInit
    others := []
    origin := .top }

theorem emptyServer_accounted : AllAccounted emptyServer := fun _ => dbInit_accounted

def onDb0 (ws : List String) : Ctx := ⟨words ws, 1, 0, 2, false⟩

end Ddup.Server
