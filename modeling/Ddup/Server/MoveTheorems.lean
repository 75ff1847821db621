/-
Ddup.Server.MoveTheorems — what the command layer can do to databases and watches.

`Move` lists the changes one step can make, as far as WATCH is concerned: a write
confined to one key, a flush, an exchange of two databases, a watch taken, the
session's watches dropped, or something WATCH cannot see. Every function of
`Ddup.Server.Execute`, `Session` and `Loop` is a chain of moves. An invariant of
moves therefore is an invariant of the server; no proof about watches looks at a
handler.
-/
import Ddup.Server.Loop
import Ddup.Store.DbTheorems

namespace Ddup.Server

open Ddup.Resp Ddup.Command Ddup.Store Relation

/-! ## Moves -/

/-- Two databases that agree on all that WATCH compares. -/
structure Still (d d' : Db) : Prop where
  refs : d'.watchRefs = d.watchRefs
  epoch : d'.flushEpoch = d.flushEpoch
  version : ∀ k, dbKeyVersion d' k = dbKeyVersion d k
  entry : ∀ k, d'.entry k = d.entry k

theorem Still.refl (d : Db) : Still d d := ⟨rfl, rfl, fun _ => rfl, fun _ => rfl⟩

/-- A step WATCH cannot see: at most the trace grows. -/
structure Unseen (e e' : Exec) : Prop where
  others : e'.others = e.others
  watches : e'.s.watches = e.s.watches
  trace : ∃ evs, e'.trace = e.trace ++ evs
  still : ∀ i, Still (e.dbs i) (e'.dbs i)

inductive Move (now : Nat) : Exec → Exec → Prop
  | key (e : Exec) (i : Nat) (k : Bytes) (d : Db) :
      Confined k (e.dbs i) d → Move now e (e.commit now i k d)
  | flush (e : Exec) (i : Nat) :
      Move now e ((e.emit [.wrote i, .flushed i]).setDb i (flushDbContents (e.dbs i)))
  | swap (e : Exec) (a b : Nat) : Move now e (e.swapDbs a b)
  | watch (e : Exec) (k : Bytes) : Move now e (e.watchAdd now k)
  | unwatch (e : Exec) : Move now e e.watchClear
  | unseen (e e' : Exec) : Unseen e e' → Move now e e'

abbrev Moves (now : Nat) : Exec → Exec → Prop := ReflTransGen (Move now)

section

variable {now : Nat} {e e' : Exec}

theorem Moves.setS (s : Session) (h : s.watches = e.s.watches) : Moves now e (e.setS s) :=
  .single (.unseen _ _ ⟨rfl, h, ⟨[], by simp [Exec.setS]⟩, fun _ => .refl _⟩)

theorem Moves.emit (evs : List Event) : Moves now e (e.emit evs) :=
  .single (.unseen _ _ ⟨rfl, rfl, ⟨evs, rfl⟩, fun _ => .refl _⟩)

theorem Moves.of_eq (hothers : e'.others = e.others) (hwatches : e'.s.watches = e.s.watches)
    (htrace : e'.trace = e.trace) (hdbs : e'.dbs = e.dbs) : Moves now e e' :=
  .single (.unseen _ _ ⟨hothers, hwatches, ⟨[], by simp [htrace]⟩, fun _ => hdbs ▸ .refl _⟩)

theorem Moves.setOrigin (e : Exec) (o : Origin) : Moves now e { e with origin := o } :=
  Moves.of_eq rfl rfl rfl rfl

theorem Moves.setDb (i : Nat) (d : Db) (h : Still (e.dbs i) d) : Moves now e (e.setDb i d) := by
  refine .single (.unseen _ _ ⟨rfl, rfl, ⟨[], by simp [Exec.setDb]⟩, fun j => ?_⟩)
  by_cases hj : j = i
  · subst hj
    simpa [Exec.setDb] using h
  · simpa [Exec.setDb, hj] using Still.refl (e.dbs j)

theorem Moves.aofLog (argv : List RespValue) (raw : Option Bytes) (t : Nat) :
    Moves now e (e.aofLog argv raw t) := by
  unfold Exec.aofLog
  split
  · exact Moves.of_eq rfl rfl rfl rfl
  · exact .refl

end

/-! ## Handlers -/

theorem opStep_moves (now : Nat) (o : Op) (e : Exec) : Moves now e (opStep now o e).2 := by
  cases o with
  | key i k o => exact .single (.key e i k _ (keyStep_confined now k o (e.dbs i)))
  | enter id argv => exact Moves.emit _
  | flush i => exact .single (.flush e i)
  | mark i =>
    exact (Moves.emit [.wrote i]).trans (Moves.setDb i _ ⟨rfl, rfl, fun _ => rfl, fun _ => rfl⟩)
  | rand i =>
    exact (Moves.emit [.random i]).trans (Moves.setDb i _ ⟨rfl, rfl, fun _ => rfl, fun _ => rfl⟩)
  | oom i =>
    simp only [opStep]
    split
    · exact Moves.emit _
    · exact .refl
  | config i maxmemory policy =>
    exact (Moves.emit [.configured i]).trans
      (Moves.setDb i _ ⟨rfl, rfl, fun _ => rfl, fun _ => rfl⟩)
  | inspect f => exact Moves.emit _
  | tell q v => exact Moves.of_eq rfl rfl rfl rfl

theorem runCmd_moves {α : Type} (now : Nat) (p : Cmd α) (e : Exec) :
    Moves now e (runCmd now p e).2 := by
  refine Lib.Prog.run_preserves ?_ p e .refl
  intro o e₁ h
  exact h.trans (opStep_moves now o e₁)

theorem applyEffect_moves (now : Nat) (id : CmdId) (argv : List RespValue) (o : Outcome)
    (e : Exec) : Moves now e (applyEffect id argv o e).2 := by
  unfold applyEffect
  split
  · exact .refl
  · split
    · exact Moves.setS _ rfl
    · exact .refl
  · exact (Moves.emit [.aclChanged _]).trans (Moves.of_eq rfl rfl rfl rfl)
  · split
    · exact .refl
    split
    · exact .refl
    · exact (Moves.emit _).trans (Moves.setS _ rfl)
  · exact Moves.setS _ rfl
  · exact .single (.swap e _ _)
  · exact .single (.unwatch e)

/-! ## Dispatch -/

section Dispatch

variable (H : Host) (now : Nat)

theorem runPlain_moves (id : CmdId) (argv : List RespValue) (e : Exec) :
    Moves now e (runPlain H now id argv e).2 :=
  (runCmd_moves now _ e).trans (applyEffect_moves now id argv _ _)

theorem luaExecute_moves (args : List Bytes) (e : Exec) :
    Moves now e (luaExecute H now args e).2 := by
  have hcall := (Moves.setOrigin e .script).trans
    (runPlain_moves H now (cmdResolve (args.headD [])) (args.map bulk) _)
  have hback := hcall.trans (Moves.setOrigin _ e.origin)
  unfold luaExecute
  dsimp only
  split
  · exact hback.trans (Moves.aofLog _ _ _)
  · exact hback

theorem luaRedisCall_moves (ro : Bool) (args : List Bytes) (e : Exec) :
    Moves now e (luaRedisCall H now ro args e).2 := by
  unfold luaRedisCall
  split
  · exact .refl
  · exact luaExecute_moves H now args e

theorem runScript_moves (ro : Bool) :
    ∀ script e, Moves now e (runScript H now ro script e).2
  | .done _, _ => .refl
  | .call args k, e =>
    (luaRedisCall_moves H now ro args e).trans
      (runScript_moves ro (k (luaRedisCall H now ro args e).1) _)

theorem scriptCommand_moves (id : CmdId) (argv : List RespValue) (e : Exec) :
    Moves now e (scriptCommand H now id argv e).2 := by
  have hchecks := runCmd_moves now (scriptEnter H id (e.ctx argv now)) e
  unfold scriptCommand
  dsimp only
  split
  · exact hchecks
  split
  · exact hchecks
  split
  · exact hchecks
  · refine (hchecks.trans (Moves.setS _ ?_)).trans (runScript_moves H now _ _ _)
    rfl

theorem commandDispatch_moves (argv : List RespValue) (e : Exec) :
    Moves now e (commandDispatch H now argv e).2 := by
  unfold commandDispatch
  split
  · exact .refl
  split
  · exact .refl
  dsimp only
  split
  · exact .refl
  split
  · exact scriptCommand_moves H now _ _ e
  · exact runPlain_moves H now _ _ e

end Dispatch

/-! ## Requests -/

section Requests

variable (H : Host) (now : Nat) (argv : List RespValue)

theorem evictLoop_moves : ∀ fuel e, Moves now e (evictLoop H now fuel e)
  | 0, _ => .refl
  | fuel + 1, e => by
    unfold evictLoop
    split
    · split
      · exact .refl
      rename_i k _
      split
      · -- one key leaves or turns cold; the loop goes on from there
        have hone : Moves now e ((e.emit [.evicted e.s.dbIndex k]).commit now e.s.dbIndex k
            (dbEvictOne e.db k).1) :=
          (Moves.emit _).trans (.single (.key _ _ _ _ (dbEvictOne_confined e.db k)))
        dsimp only
        split
        · exact hone.trans (evictLoop_moves fuel _)
        · exact hone
      · exact .refl
    · exact .refl

theorem evictIfNeeded_moves (e : Exec) : Moves now e (evictIfNeeded H now e) := by
  unfold evictIfNeeded
  split
  · exact evictLoop_moves H now _ e
  · exact .refl

theorem execLoop_moves : ∀ queue e,
    Moves now e (execLoop H now queue e).2.2
  | [], _ => .refl
  | argv :: rest, e => by
    refine ((commandDispatch_moves H now argv e).trans (Moves.setS _ ?_)).trans
      (execLoop_moves rest _)
    rfl

theorem logAll_moves (t : Nat) : ∀ argvs e,
    Moves now e (logAll t argvs e)
  | [], _ => .refl
  | argv :: rest, _ => (Moves.aofLog argv none t).trans (logAll_moves t rest _)

theorem execQueue_moves (e : Exec) : Moves now e (execQueue H now e).2 := by
  have hloop := (Moves.setOrigin e .queued).trans (execLoop_moves H now e.s.queue _)
  have hback := hloop.trans (Moves.setOrigin _ e.origin)
  unfold execQueue
  dsimp only
  split
  · exact hback.trans (logAll_moves now now _ _)
  · exact hback

theorem endMulti_moves (e : Exec) : Moves now e e.endMulti :=
  (ReflTransGen.single (Move.unwatch e)).trans (Moves.setS _ rfl)

theorem execTransaction_moves (e : Exec) : Moves now e (execTransaction H now e).2 := by
  unfold execTransaction
  split
  · exact endMulti_moves now e
  split
  · exact endMulti_moves now e
  split
  · exact endMulti_moves now e
  · exact ((execQueue_moves H now e).trans (evictIfNeeded_moves H now _)).trans
      (endMulti_moves now _)

theorem queueRequest_moves (e : Exec) : Moves now e (queueRequest argv e).2 := by
  unfold queueRequest
  split
  · exact Moves.setS _ rfl
  split
  · exact Moves.setS _ rfl
  · exact .refl

theorem watchLoop_moves : ∀ args e,
    Moves now e (watchLoop now args e).2
  | [], _ => .refl
  | a :: rest, e => by
    unfold watchLoop
    split
    · exact .refl
    · rename_i k _
      exact (ReflTransGen.single (Move.watch e k)).trans (watchLoop_moves rest _)

theorem watchCommand_moves (e : Exec) : Moves now e (watchCommand H now argv e).2 := by
  have howned := runCmd_moves now (ownershipCheck H (e.ctx argv now)) e
  unfold watchCommand
  split
  · exact .refl
  split
  · exact .refl
  split
  · exact .refl
  dsimp only
  split
  · exact howned
  · exact howned.trans (watchLoop_moves now _ _)

theorem resetCommand_moves (e : Exec) : Moves now e (resetCommand argv e).2 := by
  unfold resetCommand
  split
  · exact .refl
  · exact (endMulti_moves now e).trans (Moves.setS _ rfl)

theorem aclRefresh_moves (e : Exec) : Moves now e (aclRefresh e) := by
  unfold aclRefresh
  split
  · exact .refl
  split
  · exact .refl
  · exact Moves.setS _ rfl

theorem leanGet_moves (e : Exec) : Moves now e (leanGet H now argv e).2 := by
  unfold leanGet
  split
  · exact .refl
  split
  · exact .refl
  rename_i k _
  have hread := runCmd_moves now (leanRead .get argv e.s.dbIndex k) e
  dsimp only
  split
  · exact hread.trans (evictIfNeeded_moves H now _)
  · exact hread
  split
  · exact hread
  · exact hread.trans (evictIfNeeded_moves H now _)

theorem logAndEvict_moves (dirtyBefore : Nat) (e : Exec) :
    Moves now e (logAndEvict H now argv dirtyBefore e) := by
  have hlog : Moves now e (if e.db.dirty ≠ dirtyBefore ∧ !e.s.aofSkip
      then e.aofLog argv e.s.rawCmd now else e) := by
    split
    · exact Moves.aofLog _ _ _
    · exact .refl
  refine (hlog.trans (Moves.setS _ ?_)).trans (evictIfNeeded_moves H now _)
  rfl

theorem leanSet_moves (e : Exec) : Moves now e (leanSet H now argv e).2 := by
  unfold leanSet
  split
  · rename_i k v _ _
    split
    · exact .refl
    have hcheck := runCmd_moves now (leanRead .set argv e.s.dbIndex k) e
    generalize runCmd now (leanRead .set argv e.s.dbIndex k) e = r at hcheck ⊢
    dsimp only
    split
    · exact hcheck
    · exact hcheck
    · exact hcheck
    split
    · exact hcheck
    have hwrite := hcheck.trans (runCmd_moves now (leanSetWrite e.s.dbIndex k v) r.2)
    split
    · exact hwrite
    · exact hwrite.trans (logAndEvict_moves H now argv _ _)
  · exact .refl

theorem generalRequest_moves (dirtyBefore : Nat) (e : Exec) :
    Moves now e (generalRequest H now argv dirtyBefore e).2 := by
  have hrun := commandDispatch_moves H now argv e
  unfold generalRequest
  dsimp only
  split
  · exact hrun
  · exact hrun.trans (logAndEvict_moves H now argv _ _)

theorem runRequest_moves (name : Option Bytes) (id : CmdId) (argv : List RespValue) (e : Exec) :
    Moves now e (runRequest H now name id argv e).2 := by
  unfold runRequest
  dsimp only
  split
  · exact leanGet_moves H now argv e
  split
  · exact leanSet_moves H now argv e
  split
  · exact .refl
  split
  · split
    · exact .refl
    split
    · exact .refl
    · exact Moves.setS _ rfl
  · split
    · exact .refl
    split
    · exact .refl
    · exact execTransaction_moves H now e
  · split
    · exact .refl
    split
    · exact .refl
    · exact endMulti_moves now e
  · exact resetCommand_moves now argv e
  · exact watchCommand_moves H now argv e
  · split
    · exact queueRequest_moves now argv e
    · exact generalRequest_moves H now argv _ e
  · exact generalRequest_moves H now argv _ e

theorem sessionExecuteAtRaw_moves (e : Exec) :
    Moves now e (sessionExecuteAtRaw H now argv e).2 := by
  have hstart : Moves now e (startRequest e) :=
    (Moves.setDb e.s.dbIndex { e.db with tierIoError := false }
      ⟨rfl, rfl, fun _ => rfl, fun _ => rfl⟩).trans (aclRefresh_moves now _)
  unfold sessionExecuteAtRaw
  dsimp only
  split
  · exact hstart
  split
  · exact hstart
  · exact hstart.trans (runRequest_moves H now _ _ argv _)

theorem requestStep_moves (raw : Bytes) (e : Exec) :
    Moves now e (requestStep H now argv raw e) := by
  unfold requestStep
  split
  · exact .refl
  refine ((Moves.setS _ ?_).trans (sessionExecuteAtRaw_moves H now argv _)).trans
    (Moves.setS _ ?_)
  · rfl
  · rfl

theorem commandBlockedTry_moves (e : Exec) : Moves now e (commandBlockedTry H now e) := by
  unfold commandBlockedTry
  split
  · exact .refl
  rename_i b _
  split
  · exact Moves.setS _ rfl
  have htry := runCmd_moves now (retryCmd H b (e.ctx b.argv now)) e
  dsimp only
  split
  · exact htry
  · exact (htry.trans (Moves.emit [.served])).trans (Moves.setS _ rfl)

end Requests

end Ddup.Server
