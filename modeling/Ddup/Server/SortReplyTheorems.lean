/-
Ddup.Server.SortReplyTheorems — when SORT answers with exactly one value, and the six
commands that write their replies call by call taken together.

SORT reads many keys before and while it answers: the value it sorts, a weight for each
element, and the values of its GET patterns. All of these are lookups, so what they answer
is a function of what is held under the keys, whatever else the lookups do to the database.
`Looks` says that a program only looks, `against` is its answer, and `Looks.run` connects
the two to a run.
-/
import Ddup.Server.OneReplyTheorems

namespace Ddup.Server

open Ddup.Lib Ddup.Resp Ddup.Command Ddup.Store

variable (R : Runtime) (S : SortScan) (listMem : List Bytes → UInt64) (o : SortOpts) (c : Ctx)
  {α : Type}

/-! ## Programs that only look -/

/-- The program looks up keys of one database and does nothing else. -/
inductive Looks {α : Type} (i : Nat) : Cmd α → Prop
  | done (a : α) : Looks i (.done a)
  | get {k : Bytes} {f : Answer → Cmd α} (h : ∀ v, Looks i (f (.obj v))) :
      Looks i (.call (.key i k .get) f)

def lookAnswer (held : Bytes → Option Obj) : Op → Answer
  | .key _ k _ => .obj (held k)
  | _ => .unit

/-- The result of a program that only looks, from what is held under the keys. -/
def against {α : Type} (held : Bytes → Option Obj) (p : Cmd α) : α :=
  (p.run (fun op (_ : Unit) => (lookAnswer held op, ())) ()).1

theorem looks_get (i : Nat) (k : Bytes) : Looks i (Cmd.get i k) := .get fun v => .done v

theorem Looks.bind {β : Type} {i : Nat} {p : Cmd α} {f : α → Cmd β} (hp : Looks i p)
    (hf : ∀ a, Looks i (f a)) : Looks i (p >>= f) := by
  induction hp with
  | done a => exact hf a
  | get h ih => exact .get ih

/-- What a program that only looks answers, and that it changes nothing that is held. -/
theorem Looks.run {i : Nat} {p : Cmd α} (hp : Looks i p) (now : Nat) :
    ∀ {e}, ColdOk (e.dbs i) →
      (runCmd now p e).1 = against (heldAt now (e.dbs i)) p ∧ Looked now i e (runCmd now p e).2 := by
  induction hp with
  | done a =>
    intro e hcold
    exact ⟨rfl, .refl now hcold⟩
  | @get k f h ih =>
    intro e hcold
    obtain ⟨hanswer, hlooked⟩ := looked_get now k hcold
    have hstep : runCmd now (.call (.key i k .get) f) e
        = runCmd now (f (.obj (runCmd now (Cmd.get i k) e).1)) (runCmd now (Cmd.get i k) e).2 :=
      rfl
    obtain ⟨hrest, hlooked'⟩ := ih (runCmd now (Cmd.get i k) e).1 hlooked.cold
    rw [hstep]
    refine ⟨?_, hlooked.trans hlooked'⟩
    rw [hrest, hanswer, hlooked.held]
    rfl

theorem against_bind {β : Type} (held : Bytes → Option Obj) (p : Cmd α) (f : α → Cmd β) :
    against held (p >>= f) = against held (f (against held p)) := by
  unfold against
  rw [Prog.run_bind]

/-! ## SORT -/

theorem sortPatternLookup_looks (pat elem : Bytes) :
    Looks c.dbIndex (sortPatternLookup c pat elem) := by
  unfold sortPatternLookup
  cases sortPatternKey pat elem with
  | none => exact .done _
  | some k =>
    refine (looks_get _ k).bind fun v => ?_
    split <;> exact .done _

theorem sortCell_looks : ∀ cell, Looks c.dbIndex (sortCell c cell)
  | (_, none) => .done _
  | (val, some pat) => sortPatternLookup_looks c pat val

theorem sortWeight_looks (o : SortOpts) (val : Bytes) : Looks c.dbIndex (sortWeight R c o val) := by
  unfold sortWeight
  cases o.weights with
  | none => exact .done _
  | some pat =>
    refine (sortPatternLookup_looks c pat val).bind fun r => ?_
    split <;> exact .done _

theorem sortWeights_looks (R : Runtime) (c : Ctx) (o : SortOpts) : ∀ vals,
    Looks c.dbIndex (sortWeights R c o vals)
  | [] => .done _
  | val :: rest => by
    refine (sortWeight_looks R c o val).bind fun r => ?_
    split
    · exact .done _
    · refine (sortWeights_looks R c o rest).bind fun r' => ?_
      split <;> exact .done _

theorem sortLoad_looks (o : SortOpts) (key : Bytes) : Looks c.dbIndex (sortLoad R S c o key) := by
  refine (looks_get _ key).bind fun v => ?_
  split
  · exact .done _
  split
  · exact .done _
  · refine (sortWeights_looks R c o _).bind fun r => ?_
    split <;> exact .done _

theorem sortEmit_looks (c : Ctx) : ∀ cells, Looks c.dbIndex (sortEmit c cells)
  | [] => .done _
  | cell :: rest => by
    refine (sortCell_looks c cell).bind fun r => ?_
    split
    · exact .done _
    · exact (sortEmit_looks c rest).bind fun _ => .done _

/-! ### Errors -/

theorem sortPatternLookup_lines (pat elem : Bytes) :
    (sortPatternLookup c pat elem).Ends ErrLines := by
  unfold sortPatternLookup
  cases sortPatternKey pat elem with
  | none => trivial
  | some k =>
    refine Prog.Ends.seq (fun v => ?_) _
    split
    · trivial
    · trivial
    · exact isLine_wrongType

theorem sortCell_lines : ∀ cell, (sortCell c cell).Ends ErrLines
  | (_, none) => trivial
  | (val, some pat) => sortPatternLookup_lines c pat val

theorem sortWeight_lines (o : SortOpts) (val : Bytes) : (sortWeight R c o val).Ends ErrLines := by
  unfold sortWeight
  cases o.weights with
  | none => trivial
  | some pat =>
    refine Prog.Ends.bind (fun r hr => ?_) (sortPatternLookup_lines c pat val)
    split
    · exact hr
    · trivial
    · trivial

theorem sortWeights_lines (R : Runtime) (c : Ctx) (o : SortOpts) : ∀ vals,
    (sortWeights R c o vals).Ends ErrLines
  | [] => trivial
  | val :: rest => by
    refine Prog.Ends.bind (fun r hr => ?_) (sortWeight_lines R c o val)
    split
    · exact hr
    refine Prog.Ends.bind (fun r' hr' => ?_) (sortWeights_lines R c o rest)
    split
    · exact hr'
    · trivial

theorem sortLoad_lines (o : SortOpts) (key : Bytes) : (sortLoad R S c o key).Ends ErrLines := by
  refine Prog.Ends.seq (fun v => ?_) _
  split
  · exact isLine_wrongType
  split
  · trivial
  refine Prog.Ends.bind (fun r hr => ?_) (sortWeights_lines R c o _)
  split
  · exact hr
  rename_i bad
  cases bad
  · trivial
  · show isLine sortConv = true
    decide

theorem sortCollect_lines (c : Ctx) : ∀ cells, (sortCollect c cells).Ends ErrLines
  | [] => trivial
  | cell :: rest => by
    refine Prog.Ends.bind (fun r hr => ?_) (sortCell_lines c cell)
    split
    · exact hr
    refine Prog.Ends.bind (fun r' hr' => ?_) (sortCollect_lines c rest)
    split
    · exact hr'
    · trivial

/-! ### The number of cells -/

theorem sortPass_length (le : SortElem → SortElem → Bool) (width : Nat) : ∀ (fuel : Nat)
    (l : List SortElem), (sortPass le width fuel l).length = l.length
  | 0, _ => rfl
  | fuel + 1, l => by
    rw [sortPass]
    split
    · rename_i hl
      rw [hl]
    rw [List.length_append, List.length_merge, sortPass_length le width fuel]
    simp only [List.length_take, List.length_drop]
    omega

theorem sortLoop_length (le : SortElem → SortElem → Bool) : ∀ (fuel width : Nat)
    (l : List SortElem), (sortLoop le fuel width l).length = l.length
  | 0, _, _ => rfl
  | fuel + 1, width, l => by
    rw [sortLoop]
    split
    · rfl
    · rw [sortLoop_length le fuel, sortPass_length]

theorem sorted_length (elems : List SortElem) : (sorted o elems).length = elems.length := by
  unfold sorted
  split
  · exact sortLoop_length ..
  split
  · exact List.length_reverse
  · rfl

theorem outRange_le (n : Nat) : (outRange o n).1 + (outRange o n).2 ≤ n := by
  unfold outRange
  dsimp only
  split
  · split <;> simp only <;> omega
  · simp

theorem sortCells_length (elems : List SortElem) :
    (sortCells o elems).length
      = if o.gets = [] then elems.length else elems.length * o.gets.length := by
  unfold sortCells
  split
  · exact List.length_map ..
  · simp

def sortShown (o : SortOpts) (elems : List SortElem) : List (Bytes × Option Bytes) :=
  let range := outRange o elems.length
  sortCells o (((sorted o elems).drop range.1).take range.2)

theorem sortShown_length (elems : List SortElem) :
    (if o.gets = [] then (outRange o elems.length).2
      else (outRange o elems.length).2 * o.gets.length) = (sortShown o elems).length := by
  have hrange := outRange_le o elems.length
  have hlength : (((sorted o elems).drop (outRange o elems.length).1).take
      (outRange o elems.length).2).length = (outRange o elems.length).2 := by
    rw [List.length_take, List.length_drop, sorted_length]
    omega
  unfold sortShown
  rw [sortCells_length, hlength]

/-! ### The cells -/

def writtenCell (c : Ctx) (held : Bytes → Option Obj) (cell : Bytes × Option Bytes) :
    Except Piece (List Piece) :=
  match against held (sortCell c cell) with
  | .error err => .error (errorPiece err)
  | .ok b => .ok [bulkPiece b]

theorem sortCell_line (held : Bytes → Option Obj) (cell : Bytes × Option Bytes) :
    ErrLines (against held (sortCell c cell)) := Prog.Ends.run (sortCell_lines c cell) ()

theorem sortEmit_eq (c : Ctx) (held : Bytes → Option Obj) : ∀ cells,
    against held (sortEmit c cells) = (writeCells (cells.map (writtenCell c held))).flatten
  | [] => rfl
  | cell :: rest => by
    have hline := sortCell_line c held cell
    rw [sortEmit, against_bind, List.map_cons, writtenCell]
    cases hcell : against held (sortCell c cell) with
    | error err => exact piecesOf_line (hline.error hcell)
    | ok b =>
      rw [against_bind, sortEmit_eq c held rest]
      rfl

theorem writtenCell_ok (held : Bytes → Option Obj) (cell : Bytes × Option Bytes) :
    CellOk (writtenCell c held cell) := by
  have hline := sortCell_line c held cell
  unfold writtenCell
  split
  · rename_i hcell
    exact errorPiece_ok (hline.error hcell)
  · exact bulkPiece_cell _

theorem writtenCell_error_iff (held : Bytes → Option Obj) (cell : Bytes × Option Bytes) :
    (∃ err, against held (sortCell c cell) = .error err) ↔
      ∃ p, writtenCell c held cell = .error p := by
  unfold writtenCell
  split
  · rename_i err hcell
    exact iff_of_true ⟨err, hcell⟩ ⟨_, rfl⟩
  rename_i b hcell
  refine iff_of_false ?_ ?_
  · rintro ⟨err, herr⟩
    rw [hcell] at herr
    cases herr
  · rintro ⟨p, hp⟩
    cases hp

theorem writtenCells_fit_iff (held : Bytes → Option Obj) (cells : List (Bytes × Option Bytes)) :
    (∀ ps, .ok ps ∈ cells.map (writtenCell c held) → ∀ p ∈ ps, p.Fits) ↔
      ∀ cell ∈ cells, ∀ b, against held (sortCell c cell) = .ok (some b) → Showable b := by
  constructor
  · intro h cell hcell b hb
    have hwritten : writtenCell c held cell = .ok [bulkPiece (some b)] := by rw [writtenCell, hb]
    have hfits := h _ (List.mem_map.mpr ⟨cell, hcell, hwritten⟩) _ (List.mem_singleton.mpr rfl)
    exact (bulkPiece_fits (some b)).mp hfits b rfl
  intro h ps hps p hp
  obtain ⟨cell, hcell, hwritten⟩ := List.mem_map.mp hps
  unfold writtenCell at hwritten
  split at hwritten
  · cases hwritten
  rename_i b hb
  cases hwritten
  rw [List.mem_singleton.mp hp, bulkPiece_fits]
  rintro s rfl
  exact h cell hcell s hb

/-! ### The command -/

def sortArgs (ro : Bool) (argv : List RespValue) : Option (Bytes × SortOpts) :=
  if argv.length < 2 then none
  else
    match argAt argv 1, sortOptions ro (argv.drop 2) {} with
    | some key, .ok o => some (key, o)
    | _, _ => none

/-- The condition under which SORT answers once: it stores its output, or of the cells it
shows, none but the last is under a key that holds no string, and all are within the
limits. -/
def SortOnce (R : Runtime) (S : SortScan) (ro : Bool) (c : Ctx) (held : Bytes → Option Obj) :
    Prop :=
  match sortArgs ro c.argv with
  | none => True
  | some (key, o) =>
    match against held (sortLoad R S c o key) with
    | .error _ => True
    | .ok elems =>
      o.store = none →
        ¬ BadBeforeLast (fun cell => ∃ err, against held (sortCell c cell) = .error err)
            (sortShown o elems) ∧
          (sortShown o elems).length ≤ respMaxArrayLen ∧
          ∀ cell ∈ sortShown o elems, ∀ b, against held (sortCell c cell) = .ok (some b) →
            Showable b

variable {isDouble : Bytes → Bool}

theorem oneValue_int {n : Int} (h : Fits64 n) : OneValue isDouble [.int n] :=
  (oneValue_leaf_iff (p := .int n) rfl h).mpr trivial

theorem bmod_fits64 (n : Int) : Fits64 (Int.bmod n (2 ^ 64)) := by
  have hle := Int.le_bmod (x := n) (m := 2 ^ 64) (by decide)
  have hlt := Int.bmod_lt (x := n) (m := 2 ^ 64) (by decide)
  unfold Fits64 llongMax
  omega

theorem sortAnswer_stored {o : SortOpts} {k : Bytes} (hstore : o.store = some k)
    (elems : List SortElem) (start count : Nat) :
    (sortAnswer listMem c o elems start count).Ends (OneValue isDouble) := by
  unfold sortAnswer
  rw [hstore]
  dsimp only
  split
  · refine Prog.Ends.seq (fun _ => ?_) _
    exact oneValue_int ⟨by decide, by decide⟩
  refine Prog.Ends.bind (fun r hr => ?_) (sortCollect_lines c _)
  split
  · exact oneValue_line hr
  refine Prog.Ends.seq (fun stored => ?_) _
  cases stored
  · exact oneValue_line (by decide)
  · exact oneValue_int (bmod_fits64 _)

theorem sortCommand_refused (ro : Bool) (c : Ctx) (h : sortArgs ro c.argv = none) :
    ∃ err, isLine err = true ∧ sortCommand R S listMem ro c = pure (piecesOf err) := by
  unfold sortArgs at h
  unfold sortCommand
  split at h
  · rename_i hlen
    rw [if_pos hlen]
    exact ⟨_, by cases ro <;> decide, rfl⟩
  rename_i hlen
  rw [if_neg hlen]
  cases hkey : argAt c.argv 1 with
  | none => exact ⟨_, isLine_badType, rfl⟩
  | some key =>
    cases hopts : sortOptions ro (c.argv.drop 2) {} with
    | error err => exact ⟨err, (sortOptions_lines ro _ _).error hopts, rfl⟩
    | ok o =>
      rw [hkey, hopts] at h
      cases h

theorem sortCommand_of_args (ro : Bool) (c : Ctx) {key : Bytes} {o : SortOpts}
    (h : sortArgs ro c.argv = some (key, o)) :
    sortCommand R S listMem ro c = (do
      match ← sortLoad R S c o key with
      | .error err => return piecesOf err
      | .ok elems =>
        let range := outRange o elems.length
        sortAnswer listMem c o (sorted o elems) range.1 range.2) := by
  unfold sortArgs at h
  unfold sortCommand
  split at h
  · cases h
  rename_i hlen
  rw [if_neg hlen]
  cases hkey : argAt c.argv 1 with
  | none =>
    rw [hkey] at h
    cases h
  | some _ =>
    cases hopts : sortOptions ro (c.argv.drop 2) {} with
    | error _ =>
      rw [hkey, hopts] at h
      cases h
    | ok _ =>
      rw [hkey, hopts] at h
      cases h
      rfl

theorem sort_oneValue_iff (ro : Bool) (c : Ctx) (now : Nat) {e : Exec}
    (hcold : ColdOk (e.dbs c.dbIndex)) :
    OneValue isDouble (runCmd now (sortCommand R S listMem ro c) e).1 ↔
      SortOnce R S ro c (heldAt now (e.dbs c.dbIndex)) := by
  unfold SortOnce
  cases hargs : sortArgs ro c.argv with
  | none =>
    obtain ⟨err, hline, hsort⟩ := sortCommand_refused R S listMem ro c hargs
    rw [hsort]
    exact iff_of_true (oneValue_line hline) trivial
  | some a =>
    obtain ⟨key, o⟩ := a
    obtain ⟨hload, hlooked⟩ := (sortLoad_looks R S c o key).run now hcold
    have hline : ErrLines (against (heldAt now (e.dbs c.dbIndex)) (sortLoad R S c o key)) :=
      Prog.Ends.run (sortLoad_lines R S c o key) ()
    rw [sortCommand_of_args R S listMem ro c hargs, runCmd_bind, hload]
    dsimp only
    cases hloaded : against (heldAt now (e.dbs c.dbIndex)) (sortLoad R S c o key) with
    | error err => exact iff_of_true (oneValue_line (hline.error hloaded)) trivial
    | ok elems =>
      cases hstore : o.store with
      | some k =>
        refine iff_of_true ?_ nofun
        exact (sortAnswer_stored listMem c hstore _ _ _).run _
      | none =>
        obtain ⟨hemit, -⟩ := (sortEmit_looks c (sortShown o elems)).run now hlooked.cold
        have hanswer : (runCmd now (sortAnswer listMem c o (sorted o elems)
            (outRange o elems.length).1 (outRange o elems.length).2)
            (runCmd now (sortLoad R S c o key) e).2).1
            = .header ((sortShown o elems).map (writtenCell c
                (heldAt now (e.dbs c.dbIndex)))).length
              :: (writeCells ((sortShown o elems).map (writtenCell c
                (heldAt now (e.dbs c.dbIndex))))).flatten := by
          unfold sortAnswer
          rw [hstore, List.length_map, ← sortShown_length, ← sortEmit_eq, ← hlooked.held, ← hemit]
          rw [runCmd_bind]
          rfl
        rw [hanswer, oneValue_cells_iff isDouble fun cell hcell => by
          obtain ⟨x, -, rfl⟩ := List.mem_map.mp hcell
          exact writtenCell_ok c _ x]
        rw [interrupted_map_iff (writtenCell_error_iff c _), writtenCells_fit_iff, List.length_map]
        exact ⟨fun h _ => h, fun h => h rfl⟩

/-! ## The six commands -/

inductive ReplyCommand
  | set
  | increx
  | sort (ro : Bool)
  | xread
  | xclaim
  | armget
deriving DecidableEq

/-- What the handlers take from the C library and from memory. -/
structure Machine where
  runtime : Runtime
  longDouble : LongDouble
  scan : SortScan
  listMem : List Bytes → UInt64
  /-- what stands behind the last argument -/
  stray : RespValue

def ReplyCommand.run (M : Machine) (c : Ctx) : ReplyCommand → Cmd (List Piece)
  | .set => do return piecesOfAll (← setCommand c).replies
  | .increx => increxCommand M.longDouble c
  | .sort ro => sortCommand M.runtime M.scan M.listMem ro c
  | .xread => xreadCommand M.runtime c
  | .xclaim => inPlace M.runtime streamKind c ((xclaimRequest c.argv c.now).mapError piecesOf)
  | .armget => armgetCommand M.runtime M.stray c

/-- The condition on the arguments and on the database under which a command answers once. -/
def ReplyCommand.Once (M : Machine) (c : Ctx) (d : Db) : ReplyCommand → Prop
  | .set => SetOnce c.argv c.now d
  | .increx => IncrexOnce M.longDouble c.argv c.now d
  | .sort ro => SortOnce M.runtime M.scan ro c (heldAt c.now d)
  | .xread => XreadOnce c.argv (heldAt c.now d)
  | .xclaim => XclaimOnce c.argv c.now (heldAt c.now d)
  | .armget => ArmgetOnce M.stray c.argv (heldAt c.now d)

def oneMachine : Machine where
  runtime := oneRuntime
  longDouble :=
    { T := Unit
      strtold := fun _ => some ()
      isNan := fun _ => false
      isInf := fun _ => false
      zero := ()
      max := ()
      min := ()
      add := fun _ _ => ()
      sub := fun _ _ => ()
      lt := fun _ _ => false
      fmt := fun _ => text "1"
      fmt_short := fun _ => by decide }
  scan :=
    { ofSet := fun s => s.items
      ofZset := fun z => z.items.map Prod.fst
      set_members := fun _ => .refl _
      zset_members := fun _ => .refl _ }
  listMem := fun _ => 0
  stray := nullBulk

end Ddup.Server
