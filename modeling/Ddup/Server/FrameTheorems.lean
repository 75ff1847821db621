/-
Ddup.Server.FrameTheorems — what a handler leaves alone.

A handler reaches the databases, the environment and the trace. The session, the
other connections, the ACL users, the role and the log change only around it: when
its outcome is applied, when a request is logged, and when a transaction ends.
-/
import Ddup.Server.Session

namespace Ddup.Server

open Ddup.Lib Ddup.Resp Ddup.Command Ddup.Store

structure SessionKept (e e' : Exec) : Prop where
  s : e'.s = e.s
  others : e'.others = e.others
  origin : e'.origin = e.origin
  users : e'.users = e.users
  auth : e'.auth = e.auth
  ndbs : e'.ndbs = e.ndbs
  replica : e'.replica = e.replica
  log : e'.log = e.log

namespace SessionKept

theorem refl (e : Exec) : SessionKept e e := ⟨rfl, rfl, rfl, rfl, rfl, rfl, rfl, rfl⟩

theorem trans {e₁ e₂ e₃ : Exec} (h : SessionKept e₁ e₂) (h' : SessionKept e₂ e₃) : SessionKept e₁ e₃ where
  s := h'.s.trans h.s
  others := h'.others.trans h.others
  origin := h'.origin.trans h.origin
  users := h'.users.trans h.users
  auth := h'.auth.trans h.auth
  ndbs := h'.ndbs.trans h.ndbs
  replica := h'.replica.trans h.replica
  log := h'.log.trans h.log

end SessionKept

theorem opStep_kept (now : Nat) (o : Op) (e : Exec) : SessionKept e (opStep now o e).2 := by
  cases o with
  | oom i =>
    simp only [opStep]
    split
    · exact ⟨rfl, rfl, rfl, rfl, rfl, rfl, rfl, rfl⟩
    · exact SessionKept.refl e
  | _ => exact ⟨rfl, rfl, rfl, rfl, rfl, rfl, rfl, rfl⟩

theorem runCmd_kept {α : Type} (now : Nat) (p : Cmd α) (e : Exec) :
    SessionKept e (runCmd now p e).2 := by
  refine Prog.run_preserves ?_ p e (SessionKept.refl e)
  intro o e₁ h
  exact h.trans (opStep_kept now o e₁)

/-! ## Eviction -/

theorem evictLoop_kept (H : Host) (now : Nat) :
    ∀ fuel e, SessionKept e (evictLoop H now fuel e)
  | 0, e => SessionKept.refl e
  | fuel + 1, e => by
    unfold evictLoop
    split
    · split
      · exact SessionKept.refl e
      split
      · have hround d k : SessionKept e
            ((e.emit [.evicted e.s.dbIndex k]).commit now e.s.dbIndex k d) :=
          ⟨rfl, rfl, rfl, rfl, rfl, rfl, rfl, rfl⟩
        dsimp only
        split
        · exact (hround _ _).trans (evictLoop_kept H now fuel _)
        · exact hround _ _
      · exact SessionKept.refl e
    · exact SessionKept.refl e

theorem evictIfNeeded_kept (H : Host) (now : Nat) (e : Exec) :
    SessionKept e (evictIfNeeded H now e) := by
  unfold evictIfNeeded
  split
  · exact evictLoop_kept H now _ e
  · exact SessionKept.refl e

end Ddup.Server
