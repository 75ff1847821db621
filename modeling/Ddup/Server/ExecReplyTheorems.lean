/-
Ddup.Server.ExecReplyTheorems — when EXEC replies with one value for each command it
queued.

EXEC writes the array header before it runs the queue, so its reply is an array only
if every command answers with exactly one value. Most handlers do, whatever they find
(`Answers`). A blocking command that finds nothing ready writes nothing and blocks the
session, in the middle of the transaction; SET with GET writes the old value before
it may be refused for memory.
-/
import Ddup.Server.FrameTheorems
import Ddup.Server.OutputTheorems
import Ddup.Server.ReadTheorems

namespace Ddup.Server

open Ddup.Lib Ddup.Resp Ddup.Command Ddup.Store Ddup.Acl
open Prog.Ends (seq)

variable (c : Ctx) {now : Nat} {e : Exec} {id : CmdId} {H : Host}
variable {d : Db} {deadline i : Nat} {dstLeft ro srcLeft : Bool} {o : Outcome}

/-! ## Handlers that answer once -/

def Answers (o : Outcome) : Prop := o.replies.length = 1 ∧ ∀ deadline, o.effect ≠ .block deadline

theorem ends_reply (v : RespValue) : (reply v).Ends Answers := ⟨rfl, nofun⟩

theorem selectCommand_answers : (selectCommand c).Ends Answers := by
  unfold selectCommand
  split
  · exact ends_reply _
  split
  · exact ends_reply _
  · exact ⟨rfl, nofun⟩

theorem swapdbCommand_answers : (swapdbCommand c).Ends Answers := by
  unfold swapdbCommand
  split
  · exact ends_reply _
  split
  · split
    · exact ends_reply _
    · exact ⟨rfl, nofun⟩
  · exact ends_reply _

theorem unwatchCommand_answers : (unwatchCommand c).Ends Answers := by
  unfold unwatchCommand
  split
  · exact ends_reply _
  · exact ⟨rfl, nofun⟩

theorem authCommand_answers : (authCommand c).Ends Answers := by
  unfold authCommand
  split
  · split
    · exact ⟨rfl, nofun⟩
    · exact ends_reply _
  · split
    · exact ⟨rfl, nofun⟩
    · exact ends_reply _
  · exact ends_reply _

theorem flushdbCommand_answers : (flushdbCommand c).Ends Answers := by
  unfold flushdbCommand
  split
  · exact ends_reply _
  · exact seq (fun _ => ends_reply _) _

theorem flushallCommand_answers : (flushallCommand c).Ends Answers := by
  unfold flushallCommand
  split
  · exact ends_reply _
  · exact seq (fun _ => ends_reply _) _

theorem getCommand_answers : (getCommand c).Ends Answers := by
  unfold getCommand
  split
  · exact ends_reply _
  split
  · exact ends_reply _
  · refine seq (fun v => ?_) _
    split <;> exact ends_reply _

theorem delLoop_answers (c : Ctx) : ∀ args n,
    (delLoop c args n).Ends Answers
  | [], _ => ends_reply _
  | a :: rest, n => by
    unfold delLoop
    split
    · exact ends_reply _
    · exact seq (fun _ => seq (fun _ => delLoop_answers c rest _) _) _

theorem delCommand_answers : (delCommand c).Ends Answers := by
  unfold delCommand
  split
  · exact ends_reply _
  split
  · exact ends_reply _
  · exact delLoop_answers c _ _

theorem transfer_answers (i : Nat) (sk : Bytes) (j : Nat) (dk : Bytes) (v : Obj) (done : RespValue) :
    (transfer i sk j dk v done).Ends Answers := by
  refine seq (fun full => ?_) _
  split
  · exact ends_reply _
  refine seq (fun stored => ?_) _
  split
  · exact ends_reply _
  refine seq (fun t => ?_) _
  split
  · exact seq (fun _ => seq (fun _ => ends_reply _) _) _
  · exact seq (fun _ => ends_reply _) _

theorem moveCommand_answers : (moveCommand c).Ends Answers := by
  unfold moveCommand
  split
  · exact ends_reply _
  split
  · exact ends_reply _
  split
  · exact ends_reply _
  · exact ends_reply _
  split
  · exact ends_reply _
  split
  · exact ends_reply _
  refine seq (fun _ => seq (fun _ => seq (fun v => ?_) _) _) _
  split
  · exact ends_reply _
  refine seq (fun w => ?_) _
  split
  · exact ends_reply _
  · exact transfer_answers _ _ _ _ _ _

theorem renameOrNx_answers (name : String) (nx : Bool) : (renameOrNx c name nx).Ends Answers := by
  unfold renameOrNx
  split
  · exact ends_reply _
  split
  · exact ends_reply _
  split
  · split
    · exact ends_reply _
    refine seq (fun _ => seq (fun v => ?_) _) _
    split
    · exact ends_reply _
    split
    · exact ends_reply _
    refine seq (fun taken => ?_) _
    split
    · exact ends_reply _
    · exact transfer_answers _ _ _ _ _ _
  · exact ends_reply _

theorem cmdExpire_answers (scale : Nat) (absolute : Bool) (name : String) :
    (cmdExpire c scale absolute name).Ends Answers := by
  have htail (k : Bytes) (exp : Int) (refused : Bool) : Prog.Ends Answers
      (if refused then reply (.integer 0)
      else if exp ≤ c.now then do
        let _ ← Cmd.delKv c.dbIndex k false
        reply (.integer 1)
      else do
        if !(← Cmd.setExpiry c.dbIndex k exp.toNat false) then reply storageLengthError
        else reply (.integer 1)) := by
    split
    · exact ends_reply _
    split
    · exact seq (fun _ => ends_reply _) _
    · refine seq (fun stored => ?_) _
      split <;> exact ends_reply _
  have hbody k f exp : (expireBody c k f exp).Ends Answers := by
    unfold expireBody
    dsimp only
    split
    · exact htail k exp false
    · exact seq (fun t => htail k exp _) _
  unfold cmdExpire
  split
  · exact ends_reply _
  split
  · split
    · exact ends_reply _
    split
    · exact ends_reply _
    split
    · exact ends_reply _
    refine seq (fun v => ?_) _
    split
    · exact ends_reply _
    dsimp only
    generalize (if absolute = true then (0 : Int) else c.now) = base
    split
    · exact ends_reply _
    · exact hbody _ _ _
  · exact ends_reply _

theorem persistCommand_answers : (persistCommand c).Ends Answers := by
  unfold persistCommand
  split
  · exact ends_reply _
  split
  · exact ends_reply _
  · exact seq (fun _ => seq (fun _ => ends_reply _) _) _

theorem pushCommand_answers (H : Host) (c : Ctx) (left only : Bool) (name : String) :
    (pushCommand H c left only name).Ends Answers := by
  unfold pushCommand
  split
  · exact ends_reply _
  split
  · exact ends_reply _
  split
  · exact ends_reply _
  split
  · exact ends_reply _
  refine seq (fun full => ?_) _
  split
  · exact ends_reply _
  refine seq (fun list => ?_) _
  split
  · exact ends_reply _
  · exact ends_reply _
  · exact seq (fun _ => ends_reply _) _

theorem popCommand_answers (H : Host) (c : Ctx) (left : Bool) (name : String) :
    (popCommand H c left name).Ends Answers := by
  unfold popCommand
  split
  · exact ends_reply _
  split
  · exact ends_reply _
  · exact ends_reply _
  refine seq (fun list => ?_) _
  split
  · exact ends_reply _
  · exact ends_reply _
  split
  · exact seq (fun _ => ends_reply _) _
  split
  · exact seq (fun _ => ends_reply _) _
  · exact ends_reply _

/-! ## SET -/

/-- The arguments of SET, if it gets past them. -/
def setArgs (argv : List RespValue) : Option (Bytes × Bytes × SetOpts) :=
  if argv.length < 3 then none
  else
    match argAt argv 1, argAt argv 2 with
    | some k, some v =>
      if !storageStringOk k v then none
      else
        match setOptions (argv.drop 3) {} with
        | .error _ => none
        | .ok o => some (k, v, o)
    | _, _ => none

/-- SET GET shows the old value and is then refused for memory. -/
def SetTwice (c : Ctx) (now : Nat) (e : Exec) : Prop :=
  ∃ k v o, setArgs c.argv = some (k, v, o) ∧ o.getOld = true ∧
    oomBlocked (dbGet (e.dbs c.dbIndex) k now).1 = true ∧
    match (dbGet (e.dbs c.dbIndex) k now).2 with
    | none => o.xx = false
    | some (.str _) => o.nx = false
    | some _ => False

theorem setCommand_eq : ∃ err : RespValue, setCommand c =
    match setArgs c.argv with
    | none => reply err
    | some (k, v, o) => setBody c k v o := by
  unfold setCommand setArgs
  by_cases hlen : c.argv.length < 3
  · exact ⟨wrongArgs "set", by simp only [if_pos hlen]⟩
  simp only [if_neg hlen]
  cases argAt c.argv 1 with
  | none => exact ⟨badType, rfl⟩
  | some k =>
    cases argAt c.argv 2 with
    | none => exact ⟨badType, rfl⟩
    | some v =>
      dsimp only
      by_cases hok : (!storageStringOk k v) = true
      · exact ⟨storageLengthError, by rw [if_pos hok, if_pos hok]⟩
      rw [if_neg hok, if_neg hok]
      cases setOptions (c.argv.drop 3) {} with
      | error err => exact ⟨err, rfl⟩
      | ok o => exact ⟨badType, rfl⟩

theorem runCmd_oom : runCmd now (Cmd.oom i) e
    = (oomBlocked (e.dbs i), if oomBlocked (e.dbs i) then e.emit [.oom i] else e) := rfl

/-- SET from its lookup on, for an old value that is no obstacle. -/
theorem setBody_answers_iff {c : Ctx} {k v : Bytes} {o : SetOpts} :
    Answers (runCmd now (setBody c k v o) e).1 ↔
      ¬ (o.getOld = true ∧ oomBlocked (dbGet (e.dbs c.dbIndex) k now).1 = true ∧
        match (dbGet (e.dbs c.dbIndex) k now).2 with
        | none => o.xx = false
        | some (.str _) => o.nx = false
        | some _ => False) := by
  have hdb : (e.commit now c.dbIndex k (dbGet (e.dbs c.dbIndex) k now).1).dbs c.dbIndex
      = (dbGet (e.dbs c.dbIndex) k now).1 := Function.update_self ..
  -- past the flags, the number of replies depends on the memory limit only
  have hwrite old :
      Answers (runCmd now (do
        let shown := if o.getOld then [oldReply old] else []
        if ← Cmd.oom c.dbIndex then return ⟨shown ++ [oomError], .none⟩
        let res ← setStore c k v o
        return ⟨if o.getOld then shown else [res], .none⟩ : Cmd Outcome)
        (e.commit now c.dbIndex k (dbGet (e.dbs c.dbIndex) k now).1)).1 ↔
      ¬ (o.getOld = true ∧ oomBlocked (dbGet (e.dbs c.dbIndex) k now).1 = true) := by
    rw [runCmd_bind, runCmd_oom, hdb]
    cases oomBlocked (dbGet (e.dbs c.dbIndex) k now).1 with
    | true =>
      cases hget : o.getOld with
      | true => exact iff_of_false nofun (fun h => h ⟨rfl, rfl⟩)
      | false => exact iff_of_true ⟨rfl, nofun⟩ nofun
    | false =>
      refine iff_of_true ?_ nofun
      rw [if_neg (by simp), runCmd_bind]
      cases o.getOld with
      | true => exact ⟨rfl, nofun⟩
      | false => exact ⟨rfl, nofun⟩
  unfold setBody
  rw [runCmd_bind, runCmd_get]
  cases hold : (dbGet (e.dbs c.dbIndex) k now).2 with
  | none =>
    cases hxx : o.xx with
    | true =>
      rw [if_pos (by simp)]
      exact iff_of_true (ends_reply nullBulk) (fun h => by cases h.2.2)
    | false =>
      rw [if_neg (by simp), hwrite none]
      simp
  | some w =>
    cases w with
    | str b =>
      cases hnx : o.nx with
      | true =>
        exact iff_of_true (ends_reply nullBulk) (fun h => by cases h.2.2)
      | false =>
        rw [if_neg (by simp), hwrite (some (.str b))]
        simp
    | list items mem => exact iff_of_true (ends_reply wrongType) (fun h => h.2.2)
    | boxed x mem => exact iff_of_true (ends_reply wrongType) (fun h => h.2.2)
    | tier rid ex => exact iff_of_true (ends_reply wrongType) (fun h => h.2.2)

theorem setCommand_answers_iff (now : Nat) (e : Exec) :
    Answers (runCmd now (setCommand c) e).1 ↔ ¬ SetTwice c now e := by
  obtain ⟨err, hset⟩ := setCommand_eq c
  rw [hset]
  cases hargs : setArgs c.argv with
  | none =>
    refine iff_of_true (ends_reply err) ?_
    rintro ⟨k, v, o, hok, -⟩
    rw [hargs] at hok
    cases hok
  | some a =>
    obtain ⟨k, v, o⟩ := a
    rw [setBody_answers_iff]
    refine not_congr ⟨fun h => ⟨k, v, o, hargs, h⟩, ?_⟩
    rintro ⟨k', v', o', hok, h⟩
    cases hargs.symm.trans hok
    exact h

/-! ## Blocking commands -/

def NoElement (v : Option Obj) : Prop := v = none ∨ ∃ mem, v = some (.list [] mem)

/-- None of the keys has an element, looked up in order. -/
def NoneReady (now : Nat) : List RespValue → Db → Prop
  | [], _ => True
  | a :: rest, d => ∃ k, argStr a = some k ∧ NoElement (dbGet d k now).2 ∧
      NoneReady now rest (dbGet d k now).1

def timeoutOk (H : Host) (c : Ctx) (pos : Nat) : Bool :=
  match blockingParseTimeout H c pos with
  | .ok _ => true
  | .error _ => false

/-- The source of BRPOPLPUSH and BLMOVE, if the other arguments are in order. -/
def moveKeys (H : Host) (c : Ctx) : Option (List RespValue) :=
  match argAt c.argv 1, argAt c.argv 2 with
  | some sk, some dk =>
    if uint32Max < sk.length ∨ uint32Max < dk.length then none
    else if timeoutOk H c (c.argv.length - 1) then some [bulk sk] else none
  | _, _ => none

def mpopKeys (H : Host) (c : Ctx) : Option (List RespValue) :=
  if c.argv.length < 5 then none
  else
    match c.argv[2]?.bind cmdParseLl with
    | none => none
    | some nk =>
      let dir := 3 + nk.toNat
      if nk ≤ 0 ∨ ((c.argv.length - 4 : Nat) : Int) < nk ∨ timeoutOk H c 1 = false then none
      else
        match sideArg (argAt c.argv dir), mpopCount c (dir + 1) with
        | .ok _, .ok _ => some ((c.argv.take dir).drop 3)
        | _, _ => none

/-- The keys a blocking command waits for, if its other arguments are in order. -/
def blockingKeys (H : Host) (id : CmdId) (c : Ctx) : Option (List RespValue) :=
  match id with
  | .blpop | .brpop =>
    if c.argv.length < 3 ∨ timeoutOk H c (c.argv.length - 1) = false then none
    else some ((c.argv.take (c.argv.length - 1)).drop 1)
  | .brpoplpush => if c.argv.length ≠ 4 then none else moveKeys H c
  | .blmove =>
    if c.argv.length ≠ 6 ∨ (argAt c.argv 4).isNone then none
    else
      match sideArg (argAt c.argv 3), sideArg (argAt c.argv 4) with
      | .ok _, .ok _ => moveKeys H c
      | _, _ => none
  | .blmpop => mpopKeys H c
  | _ => none

/-- A blocking command has to wait. -/
def Starved (H : Host) (id : CmdId) (c : Ctx) (now : Nat) (d : Db) : Prop :=
  ∃ keys, blockingKeys H id c = some keys ∧ NoneReady now keys d

/-- What a try reports: one value, or that the command has to wait exactly if `starved`. -/
def Tried (starved : Prop) : Ready → Prop
  | .replied vs => vs.length = 1 ∧ ¬ starved
  | .wait _ => starved

section Blocking

variable {H : Host} {c : Ctx} {now : Nat} {e : Exec} {k : Bytes}

theorem runCmd_getList : runCmd now (getList H c k false) e =
    ((match (dbGet (e.dbs c.dbIndex) k now).2 with
      | some (.list items _) => .ok (some items)
      | some _ => .error wrongType
      | none => .ok none),
      e.commit now c.dbIndex k (dbGet (e.dbs c.dbIndex) k now).1) := by
  unfold getList
  rw [runCmd_bind, runCmd_get]
  cases (dbGet (e.dbs c.dbIndex) k now).2 with
  | none => rfl
  | some v => cases v <;> rfl

theorem commit_dbs_self : (e.commit now i k d).dbs i = d :=
  Function.update_self ..

theorem noneReady_cons {a : RespValue} {rest : List RespValue} (h : argStr a = some k)
    : NoneReady now (a :: rest) d ↔
      NoElement (dbGet d k now).2 ∧ NoneReady now rest (dbGet d k now).1 := by
  constructor
  · rintro ⟨k', hk, hready⟩
    cases h.symm.trans hk
    exact hready
  · exact fun hready => ⟨k, h, hready⟩

theorem noElement_cons {x : Bytes} {xs : List Bytes} {mem : UInt64} :
    ¬ NoElement (some (.list (x :: xs) mem)) := by
  rintro (h | ⟨mem', h⟩) <;> cases h

theorem blockingFirstList_run (H : Host) (c : Ctx) (now : Nat) : ∀ args e,
    (NoneReady now args (e.dbs c.dbIndex) ∧
        (runCmd now (blockingFirstList H c args) e).1 = .ok none) ∨
      (¬ NoneReady now args (e.dbs c.dbIndex) ∧
        (runCmd now (blockingFirstList H c args) e).1 ≠ .ok none)
  | [], _ => .inl ⟨trivial, rfl⟩
  | a :: rest, e => by
    unfold blockingFirstList
    cases ha : argStr a with
    | none =>
      refine .inr ⟨?_, by simp [runCmd]⟩
      rintro ⟨k, hk, -⟩
      cases ha.symm.trans hk
    | some k =>
      rw [noneReady_cons ha]
      rw [runCmd_bind, runCmd_getList]
      -- if the key has nothing, the answer is that of the other keys
      have hrest := blockingFirstList_run H c now rest
        (e.commit now c.dbIndex k (dbGet (e.dbs c.dbIndex) k now).1)
      rw [commit_dbs_self] at hrest
      cases (dbGet (e.dbs c.dbIndex) k now).2 with
      | none => simpa [NoElement] using hrest
      | some v =>
        cases v with
        | list items mem =>
          cases items with
          | nil => simpa [NoElement] using hrest
          | cons x xs => exact .inr ⟨fun h => noElement_cons h.1, nofun⟩
        | str b => exact .inr ⟨by simp [NoElement], nofun⟩
        | boxed y mem => exact .inr ⟨by simp [NoElement], nofun⟩
        | tier rid ex => exact .inr ⟨by simp [NoElement], nofun⟩

def OneReply : Ready → Prop
  | .replied vs => vs.length = 1
  | .wait _ => False

theorem OneReply.tried {starved : Prop} (hnot : ¬ starved) :
    ∀ {r}, OneReply r → Tried starved r
  | .replied _, h => ⟨h, hnot⟩

theorem ends_replied (v : RespValue) : (pure (.replied [v]) : Cmd Ready).Ends OneReply := rfl

/-- A command that waits if the search finds nothing, and else answers. -/
theorem blockingFirstList_tried {args : List RespValue}
    {f : Except RespValue (Option (Bytes × List Bytes)) → Cmd Ready}
    (hwait : f (.ok none) = pure (.wait deadline))
    (hreply : ∀ r, r ≠ .ok none → (f r).Ends OneReply) :
    Tried (NoneReady now args (e.dbs c.dbIndex))
      (runCmd now (blockingFirstList H c args >>= f) e).1 := by
  rw [runCmd_bind]
  rcases blockingFirstList_run H c now args e with ⟨hnone, hr⟩ | ⟨hsome, hr⟩
  · rw [hr, hwait]
    exact hnone
  · exact ((hreply _ hr).run _).tried hsome

theorem ends_one (v : RespValue) : (pure [v] : Cmd (List RespValue)).Ends fun vs => vs.length = 1 :=
  rfl

theorem listMoveReady_length {sk dk : Bytes} :
    (listMoveReady H c sk dk srcLeft dstLeft).Ends fun vs => vs.length = 1 := by
  refine seq (fun src => ?_) _
  split
  · exact ends_one _
  · exact ends_one _
  split
  · exact ends_one _
  split
  · exact seq (fun _ => ends_one _) _
  refine seq (fun dst => ?_) _
  split
  · exact ends_one _
  · exact seq (fun _ => seq (fun _ => ends_one _) _) _
  refine seq (fun oom => ?_) _
  split
  · exact ends_one _
  refine seq (fun created => ?_) _
  split
  · exact ends_one _
  · exact seq (fun _ => seq (fun _ => ends_one _) _) _

/-- A command whose arguments are refused answers, and waits for no key. -/
theorem refused_tried {v : RespValue} {P : List RespValue → Prop} :
    Tried (∃ keys, (none : Option (List RespValue)) = some keys ∧ P keys) (.replied [v]) :=
  ⟨rfl, fun ⟨_, h, _⟩ => by cases h⟩

theorem blpopTry_tried {left : Bool} {name : String} :
    Tried (∃ keys, (if c.argv.length < 3 ∨ timeoutOk H c (c.argv.length - 1) = false then none
        else some ((c.argv.take (c.argv.length - 1)).drop 1)) = some keys ∧
          NoneReady now keys (e.dbs c.dbIndex)) (runCmd now (blpopTry H c left name) e).1 := by
  unfold blpopTry timeoutOk
  by_cases hlen : c.argv.length < 3
  · rw [if_pos hlen, if_pos (.inl hlen)]
    exact refused_tried
  rw [if_neg hlen]
  cases blockingParseTimeout H c (c.argv.length - 1) with
  | error err =>
    rw [if_pos (.inr rfl)]
    exact refused_tried
  | ok deadline =>
    rw [if_neg (by simp [hlen])]
    simp only [Option.some.injEq, exists_eq_left']
    refine blockingFirstList_tried rfl fun r hr => ?_
    rcases r with err | _ | ⟨k, items⟩
    · exact ends_replied _
    · exact absurd rfl hr
    dsimp only
    split
    · exact seq (fun _ => ends_replied _) _
    · exact ends_replied _

theorem blmoveTry_tried :
    Tried (∃ keys, moveKeys H c = some keys ∧ NoneReady now keys (e.dbs c.dbIndex))
      (runCmd now (blmoveTry H c srcLeft dstLeft) e).1 := by
  unfold blmoveTry moveKeys timeoutOk
  cases argAt c.argv 1 with
  | none => exact refused_tried
  | some sk =>
    cases argAt c.argv 2 with
    | none => exact refused_tried
    | some dk =>
      dsimp only
      by_cases hlen : uint32Max < sk.length ∨ uint32Max < dk.length
      · rw [if_pos hlen, if_pos hlen]
        exact refused_tried
      rw [if_neg hlen, if_neg hlen]
      cases blockingParseTimeout H c (c.argv.length - 1) with
      | error err => exact refused_tried
      | ok deadline =>
        simp only [if_true, Option.some.injEq, exists_eq_left']
        rw [noneReady_cons rfl, runCmd_bind, runCmd_getList]
        have hmove : OneReply (runCmd now (do
            return .replied (← listMoveReady H c sk dk srcLeft dstLeft) : Cmd Ready)
            (e.commit now c.dbIndex sk (dbGet (e.dbs c.dbIndex) sk now).1)).1 := by
          rw [runCmd_bind]
          exact listMoveReady_length.run _
        cases (dbGet (e.dbs c.dbIndex) sk now).2 with
        | none => exact ⟨.inl rfl, trivial⟩
        | some v =>
          cases v with
          | list items mem =>
            cases items with
            | nil => exact ⟨.inr ⟨mem, rfl⟩, trivial⟩
            | cons x xs => exact hmove.tried fun h => noElement_cons h.1
          | str b => exact ⟨rfl, by simp [NoElement]⟩
          | boxed y mem => exact ⟨rfl, by simp [NoElement]⟩
          | tier rid ex => exact ⟨rfl, by simp [NoElement]⟩

theorem blmpopTry_tried :
    Tried (∃ keys, mpopKeys H c = some keys ∧ NoneReady now keys (e.dbs c.dbIndex))
      (runCmd now (blmpopTry H c) e).1 := by
  unfold blmpopTry mpopKeys timeoutOk
  by_cases hlen : c.argv.length < 5
  · rw [if_pos hlen, if_pos hlen]
    exact refused_tried
  rw [if_neg hlen, if_neg hlen]
  cases blockingParseTimeout H c 1 with
  | error err =>
    cases c.argv[2]?.bind cmdParseLl with
    | none => exact refused_tried
    | some nk =>
      dsimp only
      rw [if_pos (by simp)]
      exact refused_tried
  | ok deadline =>
    cases c.argv[2]?.bind cmdParseLl with
    | none => exact refused_tried
    | some nk =>
      dsimp only
      by_cases hnk : nk ≤ 0 ∨ ((c.argv.length - 4 : Nat) : Int) < nk
      · rw [if_pos hnk, if_pos (by tauto)]
        exact refused_tried
      rw [if_neg hnk, if_neg (by simpa using hnk)]
      cases sideArg (argAt c.argv (3 + nk.toNat)) with
      | error err => exact refused_tried
      | ok left =>
        cases mpopCount c (3 + nk.toNat + 1) with
        | error err => exact refused_tried
        | ok count =>
          simp only [Option.some.injEq, exists_eq_left']
          refine blockingFirstList_tried rfl fun r hr => ?_
          rcases r with err | _ | ⟨k, items⟩
          · exact ends_replied _
          · exact absurd rfl hr
          · exact seq (fun _ => ends_replied _) _

def isBlockingList (id : CmdId) : Bool :=
  id ∈ [CmdId.blpop, .brpop, .brpoplpush, .blmove, .blmpop]

theorem blockingPopTry_tried (H : Host) (c : Ctx) (now : Nat) (e : Exec)
    (hid : isBlockingList id = true) :
    Tried (Starved H id c now (e.dbs c.dbIndex)) (runCmd now (blockingPopTry H id c) e).1 := by
  simp only [isBlockingList, List.mem_cons, List.not_mem_nil, or_false, decide_eq_true_eq] at hid
  unfold Starved blockingKeys blockingPopTry
  rcases hid with rfl | rfl | rfl | rfl | rfl
  · exact blpopTry_tried
  · exact blpopTry_tried
  · dsimp only
    split
    · exact refused_tried
    · exact blmoveTry_tried
  · dsimp only
    by_cases hlen : c.argv.length ≠ 6
    · rw [if_pos hlen, if_pos (.inl hlen)]
      exact refused_tried
    rw [if_neg hlen]
    by_cases hside : (argAt c.argv 4).isNone
    · rw [if_pos (.inr hside), if_pos (.inr (.inr hside))]
      exact refused_tried
    rw [if_neg (show ¬ (c.argv.length ≠ 6 ∨ _) by tauto)]
    by_cases hkeys : (argAt c.argv 1).isNone ∨ (argAt c.argv 2).isNone
    · rw [if_pos (by tauto)]
      have hnone : moveKeys H c = none := by
        unfold moveKeys
        rcases hkeys with h | h
        · rw [Option.isNone_iff_eq_none.mp h]
        · rw [Option.isNone_iff_eq_none.mp h]
          cases argAt c.argv 1 <;> rfl
      rw [hnone]
      cases sideArg (argAt c.argv 3) with
      | error err => exact refused_tried
      | ok src => cases sideArg (argAt c.argv 4) <;> exact refused_tried
    · rw [if_neg (by tauto)]
      cases sideArg (argAt c.argv 3) with
      | error err => exact refused_tried
      | ok src =>
        cases sideArg (argAt c.argv 4) with
        | error err => exact refused_tried
        | ok dst => exact blmoveTry_tried
  · exact blmpopTry_tried

theorem blockingCommand_run (H : Host) (c : Ctx) (now : Nat) (e : Exec)
    (hid : isBlockingList id = true) :
    (¬ Starved H id c now (e.dbs c.dbIndex) ∧
        Answers (runCmd now (blockingCommand H id c) e).1) ∨
      (Starved H id c now (e.dbs c.dbIndex) ∧
        ∃ deadline, (runCmd now (blockingCommand H id c) e).1 = ⟨[], .block deadline⟩) := by
  have htried := blockingPopTry_tried H c now e hid
  unfold blockingCommand
  rw [runCmd_bind]
  cases hr : (runCmd now (blockingPopTry H id c) e).1 with
  | replied vs =>
    rw [hr] at htried
    exact .inl ⟨htried.2, htried.1, nofun⟩
  | wait deadline =>
    rw [hr] at htried
    exact .inr ⟨htried, deadline, rfl⟩

end Blocking

/-! ## Handlers by command -/

/-- The commands whose handler the host supplies. -/
def isHosted : CmdId → Bool
  | .select | .swapdb | .unwatch | .auth | .flushdb | .flushall | .get | .set | .del | .unlink
  | .move | .rename | .renamenx | .expire | .pexpire | .expireat | .pexpireat | .persist
  | .lpush | .rpush | .lpushx | .rpushx | .lpop | .rpop
  | .blpop | .brpop | .brpoplpush | .blmove | .blmpop => false
  | _ => true

/-- A handler of the host's that does not answer with one value, or blocks. -/
def HostFails (argv : List RespValue) (r : List RespValue × HostEffect) : Prop :=
  match r.2 with
  | .block _ => argv.all copyable = true
  | _ => r.1.length ≠ 1

/-- The handler, started in `e`, does not answer with one value, or blocks. -/
def BodyFails (H : Host) (now : Nat) (id : CmdId) (c : Ctx) (e : Exec) : Prop :=
  (id = .set ∧ SetTwice c now e) ∨
    (isBlockingList id = true ∧ c.argv.all copyable = true ∧
      Starved H id c now (e.dbs c.dbIndex)) ∨
    (isHosted id = true ∧ HostFails c.argv (runCmd now (H.handler id c) e).1)

/-- The handler, started in `e`, blocks the session. -/
def BodyBlocks (H : Host) (now : Nat) (id : CmdId) (c : Ctx) (e : Exec) : Prop :=
  c.argv.all copyable = true ∧
    ((isBlockingList id = true ∧ Starved H id c now (e.dbs c.dbIndex)) ∨
      (isHosted id = true ∧ ∃ deadline, (runCmd now (H.handler id c) e).1.2 = .block deadline))

theorem commandBody_answers {c : Ctx} (hset : id ≠ .set)
    (hblock : isBlockingList id = false) (hhost : isHosted id = false) :
    (commandBody H id c).Ends Answers := by
  unfold commandBody
  split
  · exact selectCommand_answers c
  · exact swapdbCommand_answers c
  · exact unwatchCommand_answers c
  · exact authCommand_answers c
  · exact flushdbCommand_answers c
  · exact flushallCommand_answers c
  · exact getCommand_answers c
  · exact absurd rfl hset
  · exact delCommand_answers c
  · exact delCommand_answers c
  · exact moveCommand_answers c
  · exact renameOrNx_answers c _ _
  · exact renameOrNx_answers c _ _
  · exact cmdExpire_answers c _ _ _
  · exact cmdExpire_answers c _ _ _
  · exact cmdExpire_answers c _ _ _
  · exact cmdExpire_answers c _ _ _
  · exact persistCommand_answers c
  · exact pushCommand_answers H c _ _ _
  · exact pushCommand_answers H c _ _ _
  · exact pushCommand_answers H c _ _ _
  · exact pushCommand_answers H c _ _ _
  · exact popCommand_answers H c _ _
  · exact popCommand_answers H c _ _
  all_goals first
    | exact absurd hblock (by decide)
    | (unfold isHosted at hhost; split at hhost <;> contradiction)

theorem commandBody_hosted {c : Ctx} (h : isHosted id = true) :
    commandBody H id c = (do
      let r ← H.handler id c
      return ⟨r.1, r.2.toEffect⟩) := by
  unfold commandBody
  split
  all_goals first
    | rfl
    | exact absurd h (by decide)

theorem commandBody_blocking {c : Ctx} (h : isBlockingList id = true) :
    commandBody H id c = blockingCommand H id c := by
  simp only [isBlockingList, List.mem_cons, List.not_mem_nil, or_false, decide_eq_true_eq] at h
  rcases h with rfl | rfl | rfl | rfl | rfl <;> rfl

theorem setCommand_effect (c : Ctx) : (setCommand c).Ends fun o => o.effect = .none := by
  obtain ⟨err, hset⟩ := setCommand_eq c
  rw [hset]
  split
  · exact rfl
  refine seq (fun old => ?_) _
  have hend (o : Outcome) (h : o.effect = .none) :
      (pure o : Cmd Outcome).Ends fun o => o.effect = .none := h
  split
  · exact hend _ rfl
  · exact hend _ rfl
  · exact hend _ rfl
  split
  · exact hend _ rfl
  refine seq (fun full => ?_) _
  split
  · exact hend _ rfl
  · exact seq (fun _ => hend _ rfl) _

/-! ## Outcomes -/

theorem Exec.swapDbs_s (e : Exec) (a b : Nat) : (e.swapDbs a b).s = e.s := by
  unfold Exec.swapDbs
  split
  · rfl
  · rfl

theorem applyEffect_answers (id : CmdId) (argv : List RespValue) (e : Exec)
    (h : Answers o) : (applyEffect id argv o e).1.length = 1 ∧
      (applyEffect id argv o e).2.s.blocked = e.s.blocked := by
  unfold applyEffect
  cases heff : o.effect with
  | none => exact ⟨h.1, rfl⟩
  | block deadline => exact absurd heff (h.2 deadline)
  | acl user rules => exact ⟨h.1, rfl⟩
  | login name password =>
    dsimp only
    split
    · exact ⟨rfl, rfl⟩
    cases e.auth name password with
    | none => exact ⟨rfl, rfl⟩
    | some u => exact ⟨h.1, rfl⟩
  | select i => exact ⟨h.1, rfl⟩
  | swap a b => exact ⟨h.1, congrArg Session.blocked (e.swapDbs_s a b)⟩
  | unwatch => exact ⟨h.1, rfl⟩

theorem applyEffect_block {argv : List RespValue} {vs : List RespValue} :
    applyEffect id argv ⟨vs, .block deadline⟩ e =
      if argv.all copyable then (vs, e.setS { e.s with blocked := some ⟨id, argv, deadline⟩ })
      else ([errorReply "ERR out of memory"], e) := rfl

/-- The request is answered with one value, and the session does not wait. -/
def Settled (r : List RespValue × Exec) : Prop := r.1.length = 1 ∧ r.2.s.blocked = none

section Body

variable {H : Host} {now : Nat} {id : CmdId} {c : Ctx} {e : Exec}

def Miscounts (o : Outcome) : Prop :=
  o.replies.length ≠ 1 ∧ (o.effect = .none ∨ ∃ user rules, o.effect = .acl user rules)

theorem isBlockingList_not_hosted (h : isBlockingList id = true) : isHosted id = false := by
  simp only [isBlockingList, List.mem_cons, List.not_mem_nil, or_false, decide_eq_true_eq] at h
  rcases h with rfl | rfl | rfl | rfl | rfl <;> rfl

theorem commandBody_cases (H : Host) (now : Nat) (id : CmdId) (c : Ctx) (e : Exec) (o : Outcome)
    (ho : (runCmd now (commandBody H id c) e).1 = o) :
    (Answers o ∧ ¬ BodyFails H now id c e ∧ ¬ BodyBlocks H now id c e) ∨
      (Miscounts o ∧ BodyFails H now id c e ∧ ¬ BodyBlocks H now id c e) ∨
      ((∃ vs deadline, o = ⟨vs, .block deadline⟩) ∧
        (BodyFails H now id c e ↔ c.argv.all copyable = true) ∧
        (BodyBlocks H now id c e ↔ c.argv.all copyable = true)) := by
  unfold BodyFails BodyBlocks
  by_cases hset : id = .set
  · subst hset
    have ho' : (runCmd now (setCommand c) e).1 = o := ho
    have heff : o.effect = .none := ho' ▸ (setCommand_effect c).run e
    have hiff : Answers o ↔ ¬ SetTwice c now e := ho' ▸ setCommand_answers_iff c now e
    by_cases htwice : SetTwice c now e
    · refine .inr (.inl ⟨⟨fun hlen => ?_, .inl heff⟩, ?_, ?_⟩)
      · exact hiff.mp ⟨hlen, fun _ h => by rw [heff] at h; cases h⟩ htwice
      · exact .inl ⟨rfl, htwice⟩
      · simp [isBlockingList, isHosted]
    · refine .inl ⟨hiff.mpr htwice, ?_, ?_⟩
      · simp [isBlockingList, isHosted, htwice]
      · simp [isBlockingList, isHosted]
  by_cases hblock : isBlockingList id = true
  · rw [commandBody_blocking hblock] at ho
    rw [isBlockingList_not_hosted hblock]
    rcases blockingCommand_run H c now e hblock with
      ⟨hfull, hone⟩ | ⟨hstarved, deadline, hwait⟩
    · refine .inl ⟨ho ▸ hone, ?_, ?_⟩ <;> simp [hset, hfull]
    refine .inr (.inr ⟨⟨[], deadline, ho.symm.trans hwait⟩, ?_, ?_⟩)
    · simp [hset, hblock, hstarved]
    · simp [hblock, hstarved]
  by_cases hhost : isHosted id = true
  · rw [commandBody_hosted hhost, runCmd_bind] at ho
    unfold HostFails
    rcases hr : (runCmd now (H.handler id c) e).1 with ⟨vs, eff⟩
    rw [hr] at ho
    have ho' : o = ⟨vs, eff.toEffect⟩ := ho.symm
    cases eff with
    | block deadline =>
      refine .inr (.inr ⟨⟨vs, deadline, ho'⟩, ?_, ?_⟩) <;> simp [hset, hblock, hhost]
    | none =>
      by_cases hone : vs.length = 1
      · refine .inl ⟨?_, ?_, ?_⟩
        · subst ho'
          exact ⟨hone, nofun⟩
        · simp [hset, hblock, hone]
        · simp [hblock]
      · refine .inr (.inl ⟨?_, ?_, ?_⟩)
        · subst ho'
          exact ⟨hone, .inl rfl⟩
        · simp [hblock, hhost, hone]
        · simp [hblock]
    | acl user rules =>
      by_cases hone : vs.length = 1
      · refine .inl ⟨?_, ?_, ?_⟩
        · subst ho'
          exact ⟨hone, nofun⟩
        · simp [hset, hblock, hone]
        · simp [hblock]
      · refine .inr (.inl ⟨?_, ?_, ?_⟩)
        · subst ho'
          exact ⟨hone, .inr ⟨user, rules, rfl⟩⟩
        · simp [hblock, hhost, hone]
        · simp [hblock]
  · refine .inl ⟨?_, ?_, ?_⟩
    · exact ho ▸ (commandBody_answers hset (by simpa using hblock) (by simpa using hhost)).run e
    · simp [hset, hblock, hhost]
    · simp [hblock, hhost]

theorem applyEffect_miscounts (id : CmdId) (argv : List RespValue) (e : Exec) (h : Miscounts o) :
    (applyEffect id argv o e).1.length ≠ 1 ∧
      (applyEffect id argv o e).2.s.blocked = e.s.blocked := by
  unfold applyEffect
  rcases h.2 with heff | ⟨user, rules, heff⟩
  · rw [heff]
    exact ⟨h.1, rfl⟩
  · rw [heff]
    exact ⟨h.1, rfl⟩

theorem commandBody_applied (hfree : e.s.blocked = none) (r : List RespValue × Exec)
    (hr : r = applyEffect id c.argv (runCmd now (commandBody H id c) e).1
      (runCmd now (commandBody H id c) e).2) :
    (Settled r ↔ ¬ BodyFails H now id c e) ∧
      (r.2.s.blocked = none ↔ ¬ BodyBlocks H now id c e) := by
  have hkeeps : (runCmd now (commandBody H id c) e).2.s.blocked = none := by
    rw [(runCmd_kept now _ e).s, hfree]
  rcases commandBody_cases H now id c e _ rfl with
    ⟨hone, hfails, hblocks⟩ | ⟨hmis, hfails, hblocks⟩ | ⟨⟨vs, deadline, ho⟩, hfails, hblocks⟩
  · have happly := applyEffect_answers id c.argv (runCmd now (commandBody H id c) e).2 hone
    rw [← hr, hkeeps] at happly
    exact ⟨iff_of_true happly hfails, iff_of_true happly.2 hblocks⟩
  · have happly := applyEffect_miscounts id c.argv (runCmd now (commandBody H id c) e).2 hmis
    rw [← hr, hkeeps] at happly
    exact ⟨iff_of_false (fun h => happly.1 h.1) (fun h => h hfails), iff_of_true happly.2 hblocks⟩
  rw [ho, applyEffect_block] at hr
  rw [hfails, hblocks]
  by_cases hcopy : c.argv.all copyable = true
  · rw [if_pos hcopy] at hr
    subst hr
    exact ⟨iff_of_false nofun (fun h => h hcopy), iff_of_false nofun (fun h => h hcopy)⟩
  · rw [if_neg hcopy] at hr
    subst hr
    exact ⟨iff_of_true ⟨rfl, hkeeps⟩ hcopy, iff_of_true hkeeps hcopy⟩

end Body

/-! ## Dispatch -/

/-- The state a command's handler starts in, if the checks in front of it pass. -/
def bodyState (H : Host) (now : Nat) (id : CmdId) (c : Ctx) (e : Exec) : Option Exec :=
  let r := runCmd now (ownershipCheck H c) e
  if r.1.isSome ∨ isScriptCmd id then none else some (runCmd now (Cmd.enter id c.argv) r.2).2

theorem plainCmd_run (H : Host) (now : Nat) (id : CmdId) (c : Ctx) (e : Exec) :
    match bodyState H now id c e with
    | none => ∃ v, (runCmd now (plainCmd H id c) e).1 = ⟨[v], .none⟩
    | some e₁ => runCmd now (plainCmd H id c) e = runCmd now (commandBody H id c) e₁ ∧
        SessionKept e e₁ := by
  unfold bodyState plainCmd
  rw [runCmd_bind]
  have hkept := runCmd_kept now (ownershipCheck H c) e
  rcases hown : runCmd now (ownershipCheck H c) e with ⟨_ | err, e'⟩
  · rw [hown] at hkept
    cases hscript : isScriptCmd id with
    | true =>
      exact ⟨_, rfl⟩
    | false =>
      exact ⟨rfl, hkept.trans (runCmd_kept now _ _)⟩
  · dsimp only
    exact ⟨err, rfl⟩

section Dispatch

variable {H : Host} {now : Nat} {argv : List RespValue}

/-- A command that runs no script does not answer with one value, or blocks. -/
def PlainFails (H : Host) (now : Nat) (id : CmdId) (argv : List RespValue) (e : Exec) : Prop :=
  ∃ e₁, bodyState H now id (e.ctx argv now) e = some e₁ ∧
    BodyFails H now id (e.ctx argv now) e₁

def PlainBlocks (H : Host) (now : Nat) (id : CmdId) (argv : List RespValue) (e : Exec) : Prop :=
  ∃ e₁, bodyState H now id (e.ctx argv now) e = some e₁ ∧
    BodyBlocks H now id (e.ctx argv now) e₁

theorem runPlain_settled (H : Host) (now : Nat) (id : CmdId) (argv : List RespValue)
    (hfree : e.s.blocked = none) :
    (Settled (runPlain H now id argv e) ↔ ¬ PlainFails H now id argv e) ∧
      ((runPlain H now id argv e).2.s.blocked = none ↔ ¬ PlainBlocks H now id argv e) := by
  unfold runPlain PlainFails PlainBlocks
  have hrun := plainCmd_run H now id (e.ctx argv now) e
  cases hbody : bodyState H now id (e.ctx argv now) e with
  | none =>
    rw [hbody] at hrun
    obtain ⟨v, hv⟩ := hrun
    dsimp only
    rw [hv]
    have hkeeps : (runCmd now (plainCmd H id (e.ctx argv now)) e).2.s.blocked = none :=
      (congrArg Session.blocked (runCmd_kept now _ e).s).trans hfree
    constructor
    · exact iff_of_true ⟨rfl, hkeeps⟩ fun ⟨_, h, _⟩ => by cases h
    · exact iff_of_true hkeeps fun ⟨_, h, _⟩ => by cases h
  | some e₁ =>
    rw [hbody] at hrun
    rw [hrun.1]
    simp only [Option.some.injEq, exists_eq_left']
    exact commandBody_applied (by rw [hrun.2.s, hfree]) _ rfl

/-! ## Scripts -/

theorem Exec.aofLog_blocked (e : Exec) (argv : List RespValue) (raw : Option Bytes) (t : Nat) :
    (e.aofLog argv raw t).s.blocked = e.s.blocked := by
  unfold Exec.aofLog
  split
  · rfl
  · rfl

def CallBlocks (H : Host) (now : Nat) (ro : Bool) (args : List Bytes) (e : Exec) : Prop :=
  luaRefuses ro args e = none ∧
    PlainBlocks H now (cmdResolve (args.headD [])) (args.map bulk) { e with origin := .script }

theorem luaRedisCall_blocked (H : Host) (now : Nat) (ro : Bool) (args : List Bytes)
    (hfree : e.s.blocked = none) :
    (luaRedisCall H now ro args e).2.s.blocked = none ↔ ¬ CallBlocks H now ro args e := by
  unfold luaRedisCall CallBlocks
  cases luaRefuses ro args e with
  | some err => exact iff_of_true hfree nofun
  | none =>
    have hcall := (runPlain_settled H now (cmdResolve (args.headD []))
      (args.map bulk) (e := { e with origin := .script }) hfree).2
    simp only [true_and, ← hcall]
    unfold luaExecute
    dsimp only
    split
    · rw [Exec.aofLog_blocked]
    · rfl

/-- A script does not answer with one value, or one of its calls blocks. -/
def ScriptFails (H : Host) (now : Nat) (ro : Bool) : Script → Exec → Prop
  | .done vs, _ => vs.length ≠ 1
  | .call args k, e => CallBlocks H now ro args e ∨
      ScriptFails H now ro (k (luaRedisCall H now ro args e).1) (luaRedisCall H now ro args e).2

/-! ## A blocked session stays blocked -/

theorem applyEffect_waits (h : e.s.blocked ≠ none)
    : (applyEffect id argv o e).2.s.blocked ≠ none := by
  unfold applyEffect
  cases o.effect with
  | none => exact h
  | block deadline =>
    dsimp only
    split
    · exact Option.some_ne_none _
    · exact h
  | acl user rules => exact h
  | login name password =>
    dsimp only
    split
    · exact h
    cases e.auth name password with
    | none => exact h
    | some u => exact h
  | select i => exact h
  | swap a b =>
    rw [e.swapDbs_s a b]
    exact h
  | unwatch => exact h

theorem runPlain_waits (H : Host) (now : Nat) (id : CmdId) (argv : List RespValue)
    (h : e.s.blocked ≠ none) : (runPlain H now id argv e).2.s.blocked ≠ none :=
  applyEffect_waits (by rwa [(runCmd_kept now _ e).s])

theorem luaRedisCall_waits {args : List Bytes} (h : e.s.blocked ≠ none) :
    (luaRedisCall H now ro args e).2.s.blocked ≠ none := by
  unfold luaRedisCall
  split
  · exact h
  have hcall := runPlain_waits H now (cmdResolve (args.headD [])) (args.map bulk)
    (e := { e with origin := .script }) h
  unfold luaExecute
  dsimp only
  split
  · rwa [Exec.aofLog_blocked]
  · exact hcall

theorem runScript_waits : ∀ script {e}, e.s.blocked ≠ none →
    (runScript H now ro script e).2.s.blocked ≠ none
  | .done _, _, h => h
  | .call _ k, _, h => runScript_waits (k _) (luaRedisCall_waits h)

theorem scriptCommand_waits (h : e.s.blocked ≠ none)
    : (scriptCommand H now id argv e).2.s.blocked ≠ none := by
  have hchecks : (runCmd now (scriptEnter H id (e.ctx argv now)) e).2.s.blocked ≠ none := by
    rwa [(runCmd_kept now _ e).s]
  unfold scriptCommand
  dsimp only
  split
  · exact hchecks
  split
  · exact hchecks
  split
  · exact hchecks
  · exact runScript_waits _ hchecks

theorem commandDispatch_waits (h : e.s.blocked ≠ none) :
    (commandDispatch H now argv e).2.s.blocked ≠ none := by
  unfold commandDispatch
  split
  · exact h
  split
  · exact h
  dsimp only
  split_ifs
  · exact h
  · exact scriptCommand_waits h
  · exact runPlain_waits H now _ _ h

theorem afterQueue_waits : ∀ queue {e}, e.s.blocked ≠ none →
    (afterQueue H now queue e).s.blocked ≠ none
  | [], _, h => h
  | _ :: rest, _, h => afterQueue_waits rest (commandDispatch_waits h)

/-! ## One command -/

theorem runScript_settled_iff (H : Host) (now : Nat) (ro : Bool) : ∀ script {e}, e.s.blocked = none →
    (Settled (runScript H now ro script e) ↔ ¬ ScriptFails H now ro script e)
  | .done vs, e, hfree => ⟨fun h hne => hne h.1, fun h => ⟨not_not.mp h, hfree⟩⟩
  | .call args k, e, hfree => by
    have hcall := luaRedisCall_blocked H now ro args hfree
    unfold ScriptFails
    by_cases hblocks : CallBlocks H now ro args e
    · refine iff_of_false (fun h => ?_) (fun h => h (.inl hblocks))
      exact runScript_waits _ (fun hnone => hcall.mp hnone hblocks) h.2
    have hrest := runScript_settled_iff H now ro (k (luaRedisCall H now ro args e).1)
      (hcall.mpr hblocks)
    rw [or_iff_right hblocks]
    exact hrest

/-- A command that runs a script does not answer with one value, or blocks. -/
def ScriptCommandFails (H : Host) (now : Nat) (id : CmdId) (argv : List RespValue) (e : Exec) :
    Prop :=
  let r := runCmd now (scriptEnter H id (e.ctx argv now)) e
  r.1 = none ∧ scriptArgs id argv = none ∧
    ∃ script, H.script id (e.ctx argv now) = .ok script ∧
      ScriptFails H now (id ∈ [CmdId.evalRo, .evalshaRo, .fcallRo]) script
        (r.2.setS { r.2.s with aofSkip := true })

theorem scriptCommand_settled_iff (hfree : e.s.blocked = none) :
    Settled (scriptCommand H now id argv e) ↔ ¬ ScriptCommandFails H now id argv e := by
  have hkeeps : (runCmd now (scriptEnter H id (e.ctx argv now)) e).2.s.blocked = none := by
    rw [(runCmd_kept now _ e).s, hfree]
  unfold scriptCommand ScriptCommandFails
  dsimp only
  cases (runCmd now (scriptEnter H id (e.ctx argv now)) e).1 with
  | some err => exact iff_of_true ⟨rfl, hkeeps⟩ nofun
  | none =>
    cases scriptArgs id argv with
    | some err => exact iff_of_true ⟨rfl, hkeeps⟩ fun h => by cases h.2.1
    | none =>
      cases H.script id (e.ctx argv now) with
      | error err =>
        refine iff_of_true ⟨rfl, hkeeps⟩ ?_
        rintro ⟨-, -, script, h, -⟩
        cases h
      | ok script =>
        have hrun := runScript_settled_iff H now
          (id ∈ [CmdId.evalRo, .evalshaRo, .fcallRo]) script
          (e := (runCmd now (scriptEnter H id (e.ctx argv now)) e).2.setS
            { (runCmd now (scriptEnter H id (e.ctx argv now)) e).2.s with aofSkip := true }) hkeeps
        simp only [true_and, Except.ok.injEq, exists_eq_left']
        exact hrun

def DispatchFails (H : Host) (now : Nat) (argv : List RespValue) (e : Exec) : Prop :=
  ∃ name, argAt argv 0 = some name ∧ readonlyReplica (cmdResolve name) argv e = false ∧
    if isScriptCmd (cmdResolve name) then ScriptCommandFails H now (cmdResolve name) argv e
    else PlainFails H now (cmdResolve name) argv e

theorem commandDispatch_settled_iff (hfree : e.s.blocked = none) :
    Settled (commandDispatch H now argv e) ↔ ¬ DispatchFails H now argv e := by
  unfold commandDispatch DispatchFails argAt
  cases argv with
  | nil => exact iff_of_true ⟨rfl, hfree⟩ fun ⟨_, h, _⟩ => by cases h
  | cons a rest =>
    simp only [List.getElem?_cons_zero, Option.bind_some]
    cases argStr a with
    | none => exact iff_of_true ⟨rfl, hfree⟩ fun ⟨_, h, _⟩ => by cases h
    | some name =>
      simp only [Option.some.injEq, exists_eq_left']
      by_cases hro : readonlyReplica (cmdResolve name) (a :: rest) e = true
      · rw [if_pos hro]
        exact iff_of_true ⟨rfl, hfree⟩ fun h => by rw [hro] at h; cases h.1
      rw [if_neg hro]
      simp only [hro, true_and]
      split
      · exact scriptCommand_settled_iff hfree
      · exact (runPlain_settled H now _ _ hfree).1

end Dispatch

/-! ## Transactions -/

theorem logAll_blocked (now : Nat) : ∀ queue e,
    (logAll now queue e).s.blocked = e.s.blocked
  | [], _ => rfl
  | argv :: rest, e => (logAll_blocked now rest _).trans (e.aofLog_blocked argv none now)

theorem execLoop_state (H : Host) (now : Nat) : ∀ queue e,
    (execLoop H now queue e).2.2 = afterQueue H now queue e
  | [], _ => rfl
  | _ :: rest, _ => execLoop_state H now rest _

/-- The state the queue of an EXEC meets. -/
def Exec.asQueue (e : Exec) : Exec := { e with origin := .queued }

theorem execTransaction_blocked (hruns : execRuns e = true) :
    (execTransaction H now e).2.s.blocked = (afterQueue H now e.s.queue e.asQueue).s.blocked := by
  simp only [execRuns, Bool.and_eq_true, Bool.not_eq_true', Bool.and_eq_false_iff] at hruns
  obtain ⟨⟨herror, hwatches⟩, hslot⟩ := hruns
  unfold execTransaction
  rw [if_neg (by simp [herror]), if_neg (by simp [hwatches]), if_neg]
  swap
  · rcases hslot with h | h <;> simp [h]
  show (evictIfNeeded H now _).s.blocked = _
  rw [(evictIfNeeded_kept H now _).s]
  unfold execQueue
  dsimp only
  have hstate := execLoop_state H now e.s.queue e.asQueue
  split
  · rw [logAll_blocked]
    exact congrArg (fun e => e.s.blocked) hstate
  · exact congrArg (fun e => e.s.blocked) hstate

theorem afterQueue_append (H : Host) (now : Nat) (pre post : List (List RespValue)) (e : Exec) :
    afterQueue H now (pre ++ post) e = afterQueue H now post (afterQueue H now pre e) :=
  List.foldl_append

/-- A queue whose commands all answer leaves the session free, command after command. -/
theorem afterQueue_free {queue : List (List RespValue)} (hfree : e.s.blocked = none)
    (hqueue : ∀ pre argv post, queue = pre ++ argv :: post →
      ¬ DispatchFails H now argv (afterQueue H now pre e)) :
    ∀ pre post, queue = pre ++ post → (afterQueue H now pre e).s.blocked = none := by
  intro pre
  induction pre using List.reverseRecOn with
  | nil => exact fun _ _ => hfree
  | append_singleton pre argv ih =>
    intro post hsplit
    have hsplit' : queue = pre ++ argv :: post := by simpa using hsplit
    have hsettled := (commandDispatch_settled_iff (ih _ hsplit')).mpr (hqueue pre argv post hsplit')
    rw [afterQueue_append]
    exact hsettled.2

theorem execLoop_cons (H : Host) (now : Nat) (argv : List RespValue)
    (rest : List (List RespValue)) (e : Exec) : (execLoop H now (argv :: rest) e).1 =
      (commandDispatch H now argv e).1 ++ (execLoop H now rest (afterQueued H now argv e)).1 := rfl

theorem execLoop_length : ∀ queue {e},
    (∀ pre argv post, queue = pre ++ argv :: post →
      (commandDispatch H now argv (afterQueue H now pre e)).1.length = 1) →
    (execLoop H now queue e).1.length = queue.length
  | [], _, _ => rfl
  | argv :: rest, e, h => by
    have hrest := execLoop_length rest
      fun pre argv' post hsplit =>
        h (argv :: pre) argv' post (by rw [hsplit]; rfl)
    have hfirst : (commandDispatch H now argv e).1.length = 1 := h [] argv rest rfl
    rw [execLoop_cons, List.length_append, List.length_cons, hfirst, hrest, Nat.add_comm]

/-- EXEC replies with one array that has one value for each queued command, in order,
and the session does not wait for anything. -/
structure ExecAnswers (H : Host) (now : Nat) (e : Exec) : Prop where
  array : ∃ vs, vs.length = e.s.queue.length ∧
    execWritten H now e = ⟨false, piecesOf (.array vs false)⟩
  each : ∀ pre argv post, e.s.queue = pre ++ argv :: post →
    (commandDispatch H now argv (afterQueue H now pre e.asQueue)).1.length = 1
  free : (execTransaction H now e).2.s.blocked = none

def queuedExec (queue : List (List RespValue)) : Exec :=
  { bootState 1 (fun _ => openUser) fun _ _ => none with
    s := { sessionInit with inMulti := true, queue := queue }, others := [], origin := .top }

end Ddup.Server
