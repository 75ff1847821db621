/-
Ddup.Server.InPlace — commands that edit an object through its pointer.

Such a command fetches the object, reads its memory counter, edits the object and
reports the difference with `mem_sync`, which also marks the key as changed. What is
edited before the counter is read or after the report stays out of the accounts, and an
exit in between reports nothing. A `Plan` keeps these stretches apart.
-/
import Ddup.Resp.Reply
import Ddup.Server.Containers

namespace Ddup.Server

open Ddup.Lib Ddup.Resp

/-- What a command does to the object it has fetched: the object when its memory counter
is read, when `mem_sync` is called (absent if the command ends without that) and at the
end; whether the key is then deleted; and the reply. -/
structure Plan (α : Type) where
  early : α
  synced : Option α
  final : α
  remove : Bool
  reply : List Piece

namespace Plan

def keep {α : Type} (a : α) (reply : List Piece) : Plan α := ⟨a, none, a, false, reply⟩

def unreported {α : Type} (a b : α) (reply : List Piece) : Plan α := ⟨a, none, b, false, reply⟩

def reported {α : Type} (a b : α) (reply : List Piece) : Plan α := ⟨a, some b, b, false, reply⟩

end Plan

/-- A command whose arguments have been read: the key, whether a missing object is
created, the reply if it is not, and what is done to the object. -/
structure Request (α : Type) where
  key : Bytes
  create : Bool
  absent : List Piece
  plan : α → Plan α

section

variable {α : Type} [DecidableEq α]

/-- The memory counter of an object after an edit. -/
def Kind.memAfter (K : Kind α) (R : Runtime) (old : α × UInt64) (new : α) : UInt64 :=
  if new = old.1 then old.2 else R.editMem (K.wrap old.1) old.2 (K.wrap new)

def planEdits (R : Runtime) (K : Kind α) (c : Ctx) (k : Bytes) (a : α × UInt64) (p : Plan α) :
    Cmd Unit := do
  editContainer R K c k a p.early false
  let a₁ := (p.early, K.memAfter R a p.early)
  match p.synced with
  | none => editContainer R K c k a₁ p.final false
  | some b =>
    editContainer R K c k a₁ b true
    editContainer R K c k (b, K.memAfter R a₁ b) p.final false

def runPlan (R : Runtime) (K : Kind α) (c : Ctx) (k : Bytes) (a : α × UInt64) (p : Plan α) :
    Cmd (List Piece) := do
  planEdits R K c k a p
  if p.remove then
    let _ ← Cmd.delKv c.dbIndex k false
  return p.reply

/-- A command from its arguments on, or the reply to wrong ones. -/
def inPlace (R : Runtime) (K : Kind α) (c : Ctx) :
    Except (List Piece) (Request α) → Cmd (List Piece)
  | .error ps => return ps
  | .ok q => do
    match ← getContainer R K c q.key q.create with
    | .error err => return piecesOf err
    | .ok none => return q.absent
    | .ok (some a) => runPlan R K c q.key a (q.plan a.1)

end

end Ddup.Server
