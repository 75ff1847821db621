/-
Ddup.Server.ExactTheorems — the integer arithmetic of EXPIRE and INCREX.

Both commands compute in 64 bits and decide by comparisons made beforehand whether a sum,
a product or a difference leaves the range. The theorems compare what they do with the
same arithmetic in the integers.
-/
import Ddup.Server.OneReplyTheorems

namespace Ddup.Server

open Ddup.Lib Ddup.Resp Ddup.Command Ddup.Store

variable {absolute : Bool} {b : Bytes} {now scale : Nat} {tv : Int}

theorem runCmd_ttl_same {i : Nat} {e : Exec} {k : Bytes} {v : Obj} {t : Option Nat}
    (hlive : (e.dbs i).live now k = some (v, t)) : (runCmd now (Cmd.ttl i k) e).2.dbs = e.dbs := by
  show Function.update e.dbs i (dbExpireIfNeeded (e.dbs i) k now) = e.dbs
  rw [dbExpireIfNeeded_of_live (by rw [hlive]; rfl), Function.update_eq_self]

theorem runCmd_setExpiry {k : Bytes} (hk : k.length ≤ uint32Max) (now i t : Nat) (e : Exec) :
    runCmd now (Cmd.setExpiry i k t false) e
      = (true, e.commit now i k (dbSetExpiry (dbExpireIfNeeded (e.dbs i) k now) k t)) := by
  rw [← decide_eq_true hk]
  rfl

/-! ## EXPIRE -/

/-- The command refused and changed nothing, or answered 1 and gave its key the expiry
`exp`; an instant that is not after the clock means deletion. -/
def ExpiresAt (c : Ctx) (exp : Int) (e : Exec) (r : Outcome × Exec) : Prop :=
  (r.1.replies ≠ [.integer 1] ∧ SameData c.now e.dbs r.2.dbs) ∨
  r.1.replies = [.integer 1] ∧ ∃ k v t, argAt c.argv 1 = some k ∧
    readDb (e.dbs c.dbIndex) c.now k = some (v, t) ∧
    readDb (r.2.dbs c.dbIndex) c.now k
      = (if exp ≤ c.now then none else some (v, some exp.toNat)) ∧
    ∀ j k', j ≠ c.dbIndex ∨ k' ≠ k → readDb (r.2.dbs j) c.now k' = readDb (e.dbs j) c.now k'

section Expire

variable {c : Ctx} {exp : Int} {e : Exec} {k : Bytes} {v : Obj} {t : Option Nat}

theorem expiresAt_reply {r : RespValue} (h : r ≠ .integer 1) :
    ExpiresAt c exp e (runCmd c.now (reply r) e) :=
  .inl ⟨fun heq => h (List.head_eq_of_cons_eq heq), fun _ _ => rfl⟩

theorem ExpiresAt.of_same {e' : Exec} {r : Outcome × Exec} (h : SameData c.now e.dbs e'.dbs)
    (hr : ExpiresAt c exp e' r) : ExpiresAt c exp e r := by
  rcases hr with ⟨hne, hsame⟩ | ⟨hone, k, v, t, hk, hread, hnew, hothers⟩
  · exact .inl ⟨hne, h.trans hsame⟩
  · exact .inr ⟨hone, k, v, t, hk, (h _ _).symm.trans hread, hnew,
      fun j k' hne => (hothers j k' hne).trans (h j k')⟩

/-- The end of `cmd_expire`, on a key that was found: its last call writes that key only. -/
theorem expireTail_expires (hk : argAt c.argv 1 = some k)
    (hlive : (e.dbs c.dbIndex).live c.now k = some (v, t)) (hhot : v.isHot = true)
    (refused : Bool) : ExpiresAt c exp e
      (runCmd c.now (if refused then reply (.integer 0)
      else if exp ≤ c.now then do
        let _ ← Cmd.delKv c.dbIndex k false
        reply (.integer 1)
      else do
        if !(← Cmd.setExpiry c.dbIndex k exp.toNat false) then reply storageLengthError
        else reply (.integer 1)) e) := by
  have hsame : dbExpireIfNeeded (e.dbs c.dbIndex) k c.now = e.dbs c.dbIndex :=
    dbExpireIfNeeded_of_live (by rw [hlive]; rfl)
  have hlast (o : KeyOp) (hnew : readDb (keyStep c.now k o (e.dbs c.dbIndex)).2 c.now k
        = if exp ≤ c.now then none else some (bareObj v, some exp.toNat)) :
      ExpiresAt c exp e (⟨[.integer 1], .none⟩,
        e.commit c.now c.dbIndex k (keyStep c.now k o (e.dbs c.dbIndex)).2) :=
    .inr ⟨rfl, k, _, t, hk, readEntry_hot hlive hhot, commit_read_self.trans hnew,
      fun _ _ hne => commit_read (keyStep_confined c.now k o _) hne⟩
  cases refused with
  | true => exact expiresAt_reply (by simp)
  | false =>
    rw [if_neg (by simp)]
    by_cases hpast : exp ≤ c.now
    · rw [if_pos hpast]
      refine hlast (.delKv false) ?_
      rw [if_pos hpast, readDb]
      simp only [keyStep, (dbDelKv_spec _ k false).2]
      rfl
    have htable : (e.dbs c.dbIndex).table.lookup k = some v := by
      rw [← hsame, dbExpireIfNeeded_table, hlive]
      rfl
    have hshort : k.length ≤ uint32Max :=
      (e.dbs c.dbIndex).short k (Finmap.mem_of_lookup_eq_some htable)
    rw [if_neg hpast, runCmd_bind, runCmd_setExpiry hshort]
    refine hlast (.setExpiry exp.toNat false) ?_
    show readDb (dbSetExpiry (dbExpireIfNeeded (e.dbs c.dbIndex) k c.now) k exp.toNat) c.now k = _
    rw [if_neg hpast, readDb, hsame, dbSetExpiry_entry, htable]
    exact readEntry_hot (if_pos (by omega)) hhot

theorem expireBody_expires (hk : argAt c.argv 1 = some k)
    (hlive : (e.dbs c.dbIndex).live c.now k = some (v, t)) (hhot : v.isHot = true)
    (f : ExpireFlags) (exp : Int) : ExpiresAt c exp e (runCmd c.now (expireBody c k f exp) e) := by
  unfold expireBody
  dsimp only
  split
  · exact expireTail_expires hk hlive hhot false
  -- the expiry is read: lazy expiry finds nothing to do
  have hdbs := runCmd_ttl_same hlive
  rw [runCmd_bind]
  exact ExpiresAt.of_same (fun j k' => by rw [hdbs])
    (expireTail_expires hk (by rw [hdbs]; exact hlive) hhot _)

theorem expireFlags_lines (args : List RespValue) (f : ExpireFlags) :
    ErrLines (expireFlags args f) := by
  fun_induction expireFlags args f <;> first | assumption | trivial

/-- The instant that `cmd_expire` is asked for. -/
def exactInstant (now : Nat) (absolute : Bool) (tv : Int) (scale : Nat) : Int :=
  (if absolute then (0 : Int) else now) + tv * scale

/-- The test in front of the product. -/
def TooLate (now : Nat) (absolute : Bool) (tv : Int) (scale : Nat) : Prop :=
  0 < tv ∧ ((llongMax : Int) - (if absolute then (0 : Int) else now)).tdiv scale < tv

/-- What `cmd_expire` does, in terms of any instant that the computed one stands for. -/
theorem cmdExpire_expires (scale : Nat) (absolute : Bool) (name : String)
    (hcold : ColdOk (e.dbs c.dbIndex)) (hb : argAt c.argv 2 = some b) (htv : parseI64 b = some tv)
    (hexp : ¬ TooLate c.now absolute tv scale →
      exp = Int.bmod (exactInstant c.now absolute tv scale) (2 ^ 64) ∨
      exp ≤ c.now ∧ Int.bmod (exactInstant c.now absolute tv scale) (2 ^ 64) ≤ c.now) :
    ExpiresAt c exp e (runCmd c.now (cmdExpire c scale absolute name) e) := by
  unfold cmdExpire
  split
  · exact expiresAt_reply (by simp [wrongArgs, errorReply])
  cases hk : argAt c.argv 1 with
  | none => exact expiresAt_reply (by simp [badType, errorReply])
  | some k =>
    simp only [hb, htv]
    split
    · exact expiresAt_reply (by simp [storageLengthError, errorReply])
    cases hflags : expireFlags (c.argv.drop 3) {} with
    | error err =>
      have hline := (expireFlags_lines _ _).error hflags
      exact expiresAt_reply fun h => by rw [h] at hline; cases hline
    | ok f =>
      obtain ⟨hread, hfound⟩ := dbGet_read hcold k c.now
      have hsame : SameData c.now e.dbs (runCmd c.now (Cmd.get c.dbIndex k) e).2.dbs :=
        sameData_commit (dbGet_confined _ k c.now) (hread k)
      simp only [runCmd_bind, runCmd_get]
      cases hget : (dbGet (e.dbs c.dbIndex) k c.now).2 with
      | none => exact .of_same hsame (expiresAt_reply (by simp))
      | some v =>
        rw [hget] at hfound
        obtain ⟨t, hlive, -⟩ := hfound.live
        by_cases hlate : TooLate c.now absolute tv scale <;> unfold TooLate at hlate hexp
        · rw [if_pos hlate]
          exact .of_same hsame (expiresAt_reply (by simp [errorReply]))
        rw [if_neg hlate]
        have hbody := ExpiresAt.of_same hsame <| expireBody_expires hk
          (by rw [runCmd_get_dbs]; exact hlive) hfound.hot f
          (Int.bmod (exactInstant c.now absolute tv scale) (2 ^ 64))
        rcases hexp hlate with rfl | ⟨hle, hle'⟩
        · exact hbody
        rcases hbody with hrefused | ⟨hone, k', v', t', hk', hold, hnew, hothers⟩
        · exact .inl hrefused
        · rw [if_pos hle'] at hnew
          exact .inr ⟨hone, k', v', t', hk', hold, by rw [if_pos hle]; exact hnew, hothers⟩

theorem exactInstant_le (hscale : 0 < scale)
    (hnow : now ≤ llongMax) (h : ¬ TooLate now absolute tv scale) :
    exactInstant now absolute tv scale ≤ llongMax := by
  unfold exactInstant
  by_cases hpos : 0 < tv
  · have hle := not_lt.mp fun hlt => h ⟨hpos, hlt⟩
    rw [Int.tdiv_eq_ediv_of_nonneg (by omega), Int.le_ediv_iff_mul_le (by omega)] at hle
    omega
  · have hprod : tv * scale ≤ 0 := Int.mul_nonpos_of_nonpos_of_nonneg (by omega) (by omega)
    omega

/-- An argument whose product wraps around to an instant in the future: the key gets that
expiry, and should have been deleted. -/
theorem cmdExpire_wraps (name : String) (htv : parseI64 b = some tv) (hlow : exactInstant now absolute tv scale < -2 ^ 63)
    (hafter : now < Int.bmod (exactInstant now absolute tv scale) (2 ^ 64)) :
    ∃ c e, c.now = now ∧ argAt c.argv 2 = some b ∧ ColdOk (e.dbs c.dbIndex) ∧
      ¬ ExpiresAt c (exactInstant now absolute tv scale) e
        (runCmd c.now (cmdExpire c scale absolute name) e) := by
  let c : Ctx := ⟨[bulk [], bulk [], bulk b], now, 0, 1, false⟩
  let e := execOn (dbSetKv dbInit [] (.str []) false)
  have hcold : ColdOk (e.dbs c.dbIndex) := nofun
  refine ⟨c, e, rfl, rfl, hcold, fun hexact => ?_⟩
  have hneg : tv < 0 := by
    by_contra hpos
    have hprod : 0 ≤ tv * scale := Int.mul_nonneg (by omega) (by omega)
    unfold exactInstant at hlow
    split at hlow <;> omega
  have hone : (runCmd now (cmdExpire c scale absolute name) e).1.replies = [.integer 1] := by
    have hlate : ¬ TooLate now absolute tv scale := fun h => Int.lt_asymm h.1 hneg
    have hinstant : ¬ wrappedInstant (if absolute then 0 else now) tv scale ≤ now :=
      Int.not_le.mpr hafter
    have hget : (dbGet (e.dbs 0) [] now).2 = some (.str []) := rfl
    unfold TooLate at hlate
    simp only [cmdExpire, argAt]
    simp [c, hlate, hinstant, expireBody, bulk, argStr,
      RespStr.bytes?, htv]
    rfl
  rcases hexact with ⟨hne, -⟩ | ⟨-, k, v, t, hk, -, hnew, -⟩
  · exact hne hone
  rcases cmdExpire_expires scale absolute name hcold rfl htv fun _ => .inl rfl with
    ⟨hne, -⟩ | ⟨-, k', v', t', hk', -, hnew', -⟩
  · exact hne hone
  cases hk.symm.trans hk'
  rw [if_pos (by omega)] at hnew
  rw [if_neg (Int.not_le.mpr hafter)] at hnew'
  cases hnew.symm.trans hnew'

end Expire

/-! ## INCREX -/

instance fits64Decidable (n : Int) : Decidable (Fits64 n) := instDecidableAnd

/-- What INCREX should make of the number `old`, in the integers. -/
def increxExact (n lb ub : Int) (saturate : Bool) (old : Int) : Increased :=
  let sum := old + n
  let res := if saturate then max lb (min ub sum) else sum
  if saturate = false ∧ ¬ (lb ≤ sum ∧ sum ≤ ub) then .error [.header 2, .int old, .int 0]
  else if Fits64 (res - old) then .ok (Piece.llToStr res, [.header 2, .int res, .int (res - old)])
  else .error (piecesOf (errorReply "ERR applied increment would overflow"))

theorem increxInt_eq_exact {n lb ub old : Int} (saturate : Bool) (hlb : Fits64 lb) (hub : Fits64 ub)
    (hold : Fits64 old) (hle : lb ≤ ub) :
    increxInt n lb ub saturate old = increxExact n lb ub saturate old := by
  unfold increxInt increxExact
  extract_lets overflow res out res' sum target
  unfold Fits64 at hlb hub
  have hbounds : -(llongMax : Int) - 1 ≤ old ∧ old ≤ llongMax := hold
  have hover : overflow = true ↔ ¬ Fits64 sum := by
    unfold Fits64
    simp only [overflow, Bool.or_eq_true, Bool.and_eq_true, decide_eq_true_eq]
    omega
  unfold Fits64 at hover
  have hsum : sum = old + n := rfl
  have hres : res = if overflow then old else sum := rfl
  have hout : out = true ↔ ¬ (lb ≤ sum ∧ sum ≤ ub) := by
    simp only [out, Bool.or_eq_true, decide_eq_true_eq, hres, hover]
    clear_value sum
    split_ifs <;> omega
  by_cases hrefused : saturate = false ∧ ¬ (lb ≤ sum ∧ sum ≤ ub)
  · rw [if_pos hrefused, if_pos (by simp [hout.mpr hrefused.2, hrefused.1])]
  have hin : saturate = true ∨ lb ≤ sum ∧ sum ≤ ub := by
    rw [not_and_or, not_not, Bool.not_eq_false] at hrefused
    exact hrefused
  have hgo : ¬ (out && !saturate) = true := by
    rw [Bool.and_eq_true, hout, Bool.not_eq_true']
    exact fun h => hrefused h.symm
  obtain ⟨htarget, hfits⟩ : res' = target ∧ Fits64 target := by
    simp only [res', target, Fits64, Bool.not_eq_true', hres, ← Bool.not_eq_true, hout, hover]
    clear_value sum
    rcases hin with hsat | hin
    · rw [if_pos hsat]
      split_ifs <;> omega
    · split_ifs <;> omega
  rw [if_neg hrefused, if_neg hgo, htarget]
  by_cases hdelta : Fits64 (target - old)
  · rw [if_pos hdelta, (llSubOverflow_spec hfits hold).1 hdelta]
  · rw [if_neg hdelta, (llSubOverflow_spec hfits hold).2 hdelta]

/-- `increxValue` with the arithmetic of the integers. -/
def increxValueExact (L : LongDouble) (a : IncrexArgs L) (v : Option Obj) : Increased :=
  match a.step with
  | .int n lb ub => (numberAt parseI64 errNotInt 0 v).bind (increxExact n lb ub a.saturate)
  | .float x lb ub =>
    (numberAt (parseLd L) errNotFloat L.zero v).bind (increxFloat L x lb ub a.saturate)

/-- INCREX with the arithmetic of the integers: a result that is an error is replied and
nothing is stored. -/
def increxCommandExact (L : LongDouble) (c : Ctx) : Cmd (List Piece) :=
  match increxArgs L c.argv c.now with
  | .error err => return piecesOf err
  | .ok a => do
    let v ← Cmd.get c.dbIndex a.key
    let oldExpire ← if v.isSome then Cmd.ttl c.dbIndex a.key else pure none
    match increxValueExact L a v with
    | .error ps => return ps
    | .ok (value, shown) => increxStore c a v.isSome oldExpire value shown

theorem increxValue_exact {L : LongDouble} {a : IncrexArgs L} (h : StepFits a.step) (v : Option Obj) :
    increxValue L a v = increxValueExact L a v := by
  unfold increxValue increxValueExact
  cases hstep : a.step with
  | float x lb ub => rfl
  | int n lb ub =>
    rw [hstep] at h
    obtain ⟨hlb, hub, hle⟩ := h
    have hint {cur : Int} (hcur : Fits64 cur) :=
      increxInt_eq_exact (n := n) a.saturate hlb hub hcur hle
    cases v with
    | none => exact hint ⟨by simp, by simp⟩
    | some o =>
      cases o with
      | str b =>
        cases hparse : parseI64 b with
        | none =>
          simp only [numberAt, hparse]
          rfl
        | some cur =>
          have hnumber : numberAt parseI64 errNotInt 0 (some (.str b)) = .ok cur := by
            simp only [numberAt, hparse]
          rw [hnumber]
          exact hint (parseI64_fits hparse)
      | _ => rfl

end Ddup.Server
