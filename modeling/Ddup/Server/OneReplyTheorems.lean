/-
Ddup.Server.OneReplyTheorems — which commands answer with exactly one value.

SET, INCREX, SORT, XREAD, XCLAIM and ARMGET write their replies call by call. The
conditions below say, in terms of the arguments and of what is under the keys, when the
calls add up to one value that the parser of the protocol takes back.
-/
import Ddup.Resp.CellTheorems
import Ddup.Server.BookTheorems
import Ddup.Server.ExecReplyTheorems
import Ddup.Server.ReplyCommands

namespace Ddup.Server

open Ddup.Lib Ddup.Resp Ddup.Command Ddup.Store

variable {α : Type} {v : RespValue} {α : Type} {e : Exec}
variable {L : LongDouble} {a b n : Int} {bad : String} {err : RespValue} {k : Bytes} {p : Piece}
  {x : StreamEntry}

/-! ## Errors -/

def isLine : RespValue → Bool
  | .error (.view s) => !s.contains 13
  | _ => false

theorem isLine_piecesOf (h : isLine v = true) :
    ∃ p w, piecesOf v = [p] ∧ p.leaf? = some w ∧ p.Sane ∧ p.Fits := by
  unfold isLine at h
  split at h
  · rename_i s
    refine ⟨.error s, _, by rw [piecesOf], rfl, noCrlf_of_not_mem ?_, trivial⟩
    simpa using h
  · cases h

variable {isDouble : Bytes → Bool}

theorem oneValue_line (h : isLine v = true) : OneValue isDouble (piecesOf v) := by
  obtain ⟨p, w, hp, hleaf, hsane, hfits⟩ := isLine_piecesOf h
  rw [hp]
  exact (oneValue_leaf_iff hleaf hsane).mpr hfits

theorem isLine_errors : isLine badType = true ∧ isLine errSyntax = true ∧ isLine errNotInt = true ∧
    isLine errNotFloat = true ∧ isLine wrongType = true ∧ isLine oomError = true ∧
    isLine storageLengthError = true := by
  decide

@[simp] theorem isLine_badType : isLine badType = true := isLine_errors.1
@[simp] theorem isLine_errSyntax : isLine errSyntax = true := isLine_errors.2.1
@[simp] theorem isLine_errNotInt : isLine errNotInt = true := isLine_errors.2.2.1
@[simp] theorem isLine_errNotFloat : isLine errNotFloat = true := isLine_errors.2.2.2.1
@[simp] theorem isLine_wrongType : isLine wrongType = true := isLine_errors.2.2.2.2.1
@[simp] theorem isLine_oomError : isLine oomError = true := isLine_errors.2.2.2.2.2.1
@[simp] theorem isLine_storageLengthError : isLine storageLengthError = true := isLine_errors.2.2.2.2.2.2

def ErrLines {α : Type} : Except RespValue α → Prop
  | .error err => isLine err = true
  | .ok _ => True

@[simp] theorem errLines_error (err : RespValue) :
    ErrLines (.error err : Except RespValue α) ↔ isLine err = true := Iff.rfl

@[simp] theorem errLines_ok (a : α) : ErrLines (.ok a : Except RespValue α) := trivial

theorem ErrLines.error {r : Except RespValue α} (h : ErrLines r)
    (heq : r = .error err) : isLine err = true := by
  rw [heq] at h
  exact h

theorem setOptions_lines (args : List RespValue) (o : SetOpts) : ErrLines (setOptions args o) := by
  fun_induction setOptions args o <;> first | assumption | trivial

theorem sortOptions_lines (ro : Bool) (args : List RespValue) (o : SortOpts) :
    ErrLines (sortOptions ro args o) := by
  fun_induction sortOptions ro args o <;> first | assumption | trivial

theorem increxOptions_lines (L : LongDouble) (args : List RespValue) (o : IncrexOpts L) :
    ErrLines (increxOptions L args o) := by
  fun_induction increxOptions L args o <;> first | assumption | trivial

theorem claimOptions_lines (args : List RespValue) (o : ClaimOpts) :
    ErrLines (claimOptions args o) := by
  fun_induction claimOptions args o <;> first | assumption | trivial

theorem xreadOptions_lines (args : List RespValue) (count : Option Nat) :
    ErrLines (xreadOptions args count) := by
  fun_induction xreadOptions args count <;> first | assumption | trivial

/-! ## Looking -/

/-- A bad element with others behind it. -/
def BadBeforeLast {α : Type} (bad : α → Prop) (l : List α) : Prop :=
  ∃ before x after, l = before ++ x :: after ∧ after ≠ [] ∧ bad x

theorem interrupted_map_iff {f : α → Except Piece (List Piece)} {bad : α → Prop}
    (hbad : ∀ x, bad x ↔ ∃ p, f x = .error p) (l : List α) :
    Interrupted (l.map f) ↔ BadBeforeLast bad l := by
  constructor
  · rintro ⟨before, p, after, heq, hne⟩
    obtain ⟨l₁, l₂, rfl, h₁, h₂⟩ := List.map_eq_append_iff.mp heq
    obtain ⟨x, l₃, rfl, hx, h₃⟩ := List.map_eq_cons_iff.mp h₂
    refine ⟨l₁, x, l₃, rfl, ?_, (hbad x).mpr ⟨p, hx⟩⟩
    rintro rfl
    exact hne h₃.symm
  · rintro ⟨before, x, after, rfl, hne, hx⟩
    obtain ⟨p, hp⟩ := (hbad x).mp hx
    refine ⟨before.map f, p, after.map f, ?_, ?_⟩
    · rw [List.map_append, List.map_cons, hp]
    · simpa using hne

/-- A fetch that makes nothing, on what is held under the key. -/
def lookHeld {α : Type} (K : Kind α) : Option Obj → Except RespValue (Option (α × UInt64))
  | none => .ok none
  | some v =>
    match K.ofObj v with
    | some a => .ok (some a)
    | none => .error wrongType

structure Looked (now i : Nat) (e e' : Exec) : Prop where
  held : heldAt now (e'.dbs i) = heldAt now (e.dbs i)
  cold : ColdOk (e'.dbs i)

section Looking

variable (now : Nat) {e : Exec} {i : Nat}

theorem Looked.refl (hcold : ColdOk (e.dbs i)) : Looked now i e e := ⟨rfl, hcold⟩

variable {now} in
theorem Looked.trans {e₁ e₂ : Exec} (h₁ : Looked now i e e₁) (h₂ : Looked now i e₁ e₂) :
    Looked now i e e₂ := ⟨h₂.held.trans h₁.held, h₂.cold⟩

theorem looked_get (k : Bytes) (hcold : ColdOk (e.dbs i)) :
    (runCmd now (Cmd.get i k) e).1 = heldAt now (e.dbs i) k ∧
      Looked now i e (runCmd now (Cmd.get i k) e).2 := by
  obtain ⟨hkept, hcold'⟩ := dbGet_kept hcold k now
  rw [runCmd_get]
  refine ⟨dbGet_held hcold k now, ?_, ?_⟩
  · rw [Exec.commit_self]
    exact hkept
  · rw [Exec.commit_self]
    exact hcold'

theorem looked_getContainer (R : Runtime) (K : Kind α) (c : Ctx) (k : Bytes)
    (hcold : ColdOk (e.dbs c.dbIndex)) :
    (runCmd now (getContainer R K c k false) e).1 = lookHeld K (heldAt now (e.dbs c.dbIndex) k) ∧
      Looked now c.dbIndex e (runCmd now (getContainer R K c k false) e).2 := by
  obtain ⟨hget, hlooked⟩ := looked_get now k hcold
  unfold getContainer
  rw [runCmd_bind, hget]
  cases heldAt now (e.dbs c.dbIndex) k with
  | none => exact ⟨rfl, hlooked⟩
  | some v =>
    dsimp only [lookHeld]
    cases K.ofObj v with
    | none => exact ⟨rfl, hlooked⟩
    | some a => exact ⟨rfl, hlooked⟩

end Looking

/-! ## Cells of one call -/

def Showable (b : Bytes) : Prop := b.length ≤ respMaxArrayLen

theorem bulkPiece_cell (b : Option Bytes) : Cell [bulkPiece b] := by
  cases b with
  | none | some b => exact cell_leaf rfl nofun

theorem bulkPiece_fits (b : Option Bytes) : (bulkPiece b).Fits ↔ ∀ s, b = some s → Showable s := by
  cases b with
  | none => simp [bulkPiece, Piece.Fits, StrFits]
  | some b => simp [bulkPiece, Piece.Fits, StrFits, Showable]

def errorPiece : RespValue → Piece
  | .error (.view s) => .error s
  | _ => .error []

theorem piecesOf_line (h : isLine v = true) : piecesOf v = [errorPiece v] := by
  unfold isLine at h
  split at h
  · rw [piecesOf]
    rfl
  · cases h

theorem errorPiece_ok (h : isLine v = true) : CellOk (.error (errorPiece v)) := by
  obtain ⟨p, w, hp, hleaf, hsane, hfits⟩ := isLine_piecesOf h
  rw [piecesOf_line h] at hp
  cases hp
  exact ⟨⟨w, hleaf⟩, hsane, hfits⟩

/-! ## ARMGET -/

def indexArg (v : RespValue) : Option UInt64 := ((argStr v).bind parseU64).map UInt64.ofNat

def armgetCell (a : Option ArrayObj) (v : RespValue) : Except Piece (List Piece) :=
  match indexArg v with
  | none => .error (errorPiece errNotInt)
  | some i => .ok [bulkPiece (a.bind fun x => objArrayGet x i)]

theorem armgetLoop_eq (a : Option ArrayObj) : ∀ args,
    armgetLoop a args = (writeCells (args.map (armgetCell a))).flatten
  | [] => rfl
  | v :: rest => by
    unfold armgetLoop
    simp only [List.map_cons, armgetCell, indexArg]
    cases (argStr v).bind parseU64 with
    | none =>
      rfl
    | some i =>
      rw [armgetLoop_eq a rest]
      rfl

theorem armgetCell_ok (a : Option ArrayObj) (v : RespValue) : CellOk (armgetCell a v) := by
  unfold armgetCell
  split
  · exact errorPiece_ok isLine_errNotInt
  · exact bulkPiece_cell _

/-- The condition on the arguments and on what is under the key under which ARMGET answers
once: no index but the last is malformed, and what is shown is within the limits. -/
def ArmgetOnce (stray : RespValue) (argv : List RespValue) (held : Bytes → Option Obj) : Prop :=
  match argStr (argv.getD 1 stray) with
  | none => True
  | some k =>
    match lookHeld arrayKind (held k) with
    | .error _ => True
    | .ok a =>
      2 ≤ argv.length ∧ ¬ BadBeforeLast (fun v => indexArg v = none) (argv.drop 2) ∧
        (argv.drop 2).length ≤ respMaxArrayLen ∧
        ∀ v ∈ argv.drop 2, ∀ i b, indexArg v = some i →
          ((a.map Prod.fst).bind fun x => objArrayGet x i) = some b → Showable b

theorem lookHeld_line {K : Kind α} {v : Option Obj}
    (h : lookHeld K v = .error err) : isLine err = true := by
  unfold lookHeld at h
  split at h
  · cases h
  split at h
  · cases h
  · cases h
    exact isLine_wrongType

theorem armgetCell_error_iff (a : Option ArrayObj) (v : RespValue) :
    indexArg v = none ↔ ∃ p, armgetCell a v = .error p := by
  unfold armgetCell
  split
  · rename_i h
    exact iff_of_true h ⟨_, rfl⟩
  · rename_i i h
    exact iff_of_false (by rw [h]; simp) nofun

theorem armgetCells_fit_iff (a : Option ArrayObj) (args : List RespValue) :
    (∀ ps, .ok ps ∈ args.map (armgetCell a) → ∀ p ∈ ps, p.Fits) ↔
      ∀ v ∈ args, ∀ i b, indexArg v = some i → (a.bind fun x => objArrayGet x i) = some b →
        Showable b := by
  constructor
  · intro h v hv i b hi hb
    have hcell : armgetCell a v = .ok [bulkPiece (some b)] := by
      rw [armgetCell, hi]
      dsimp only
      rw [hb]
    have hfits := h _ (List.mem_map.mpr ⟨v, hv, hcell⟩) _ (List.mem_singleton.mpr rfl)
    exact (bulkPiece_fits (some b)).mp hfits b rfl
  intro h ps hps p hp
  obtain ⟨v, hv, hcell⟩ := List.mem_map.mp hps
  unfold armgetCell at hcell
  split at hcell
  · cases hcell
  rename_i i hi
  cases hcell
  rw [List.mem_singleton.mp hp, bulkPiece_fits]
  exact fun b hb => h v hv i b hi hb

theorem armget_oneValue_iff (R : Runtime) (stray : RespValue) (c : Ctx) (now : Nat)
    (hcold : ColdOk (e.dbs c.dbIndex)) :
    OneValue isDouble (runCmd now (armgetCommand R stray c) e).1 ↔
      ArmgetOnce stray c.argv (heldAt now (e.dbs c.dbIndex)) := by
  unfold armgetCommand ArmgetOnce
  cases argStr (c.argv.getD 1 stray) with
  | none => exact iff_of_true (oneValue_line isLine_badType) trivial
  | some k =>
    obtain ⟨hlook, -⟩ := looked_getContainer now R arrayKind c k hcold
    dsimp only
    rw [runCmd_bind, hlook]
    cases hheld : lookHeld arrayKind (heldAt now (e.dbs c.dbIndex) k) with
    | error err => exact iff_of_true (oneValue_line (lookHeld_line hheld)) trivial
    | ok a =>
      show OneValue isDouble (.header (if c.argv.length < 2 then 2 ^ 64 - 1
        else c.argv.length - 2) :: armgetLoop (a.map Prod.fst) (c.argv.drop 2)) ↔ _
      rw [armgetLoop_eq]
      by_cases hlen : c.argv.length < 2
      · rw [if_pos hlen, List.drop_eq_nil_of_le (by omega)]
        refine iff_of_false (fun h => ?_) fun h => absurd h.1 (by omega)
        have hcount := ((oneValue_array_iff _ _ (fun ps hps => by cases hps)).mp h).1
        simp [writeCells] at hcount
      rw [if_neg hlen, ← List.length_drop]
      have hok : ∀ x ∈ (c.argv.drop 2).map (armgetCell (a.map Prod.fst)), CellOk x := by
        intro x hx
        obtain ⟨v, -, rfl⟩ := List.mem_map.mp hx
        exact armgetCell_ok _ v
      have hcells := oneValue_cells_iff isDouble hok
      rw [List.length_map, interrupted_map_iff (armgetCell_error_iff _),
        armgetCells_fit_iff] at hcells
      rw [hcells]
      exact ⟨fun h => ⟨by omega, h⟩, fun h => h.2⟩

/-! ## Stream entries -/

def EntryShowable (x : StreamEntry) : Prop :=
  2 * x.fields.length ≤ respMaxArrayLen ∧ ∀ p ∈ x.fields, Showable p.1 ∧ Showable p.2

theorem u64ToStr_length {n : Nat} (h : n < 10 ^ 20) : (u64ToStr n).length ≤ 20 := by
  rw [u64ToStr_eq, List.length_map, List.length_reverse]
  unfold lowDigits
  split
  · simp
  · exact (Nat.digits_length_le_iff (by norm_num) n).mpr h

theorem idPiece_fits (id : StreamId) : (idPiece id).Fits := by
  have hms := u64ToStr_length (n := id.1.toNat) (by have := id.1.toNat_lt; omega)
  have hseq := u64ToStr_length (n := id.2.toNat) (by have := id.2.toNat_lt; omega)
  show (streamIdText id.1 id.2).length ≤ respMaxArrayLen
  rw [streamIdText, List.length_append, List.length_cons, respMaxArrayLen]
  omega

theorem idPiece_cell (id : StreamId) : Cell [idPiece id] := cell_leaf rfl nofun

def fieldPieces (x : StreamEntry) : List Piece :=
  x.fields.flatMap fun p => [.bulk (.view p.1), .bulk (.view p.2)]

theorem fieldPieces_length (x : StreamEntry) : (fieldPieces x).length = 2 * x.fields.length := by
  rw [fieldPieces]
  simp [Nat.mul_comm]

theorem mem_fieldPieces :
    p ∈ fieldPieces x ↔ ∃ f ∈ x.fields, p = .bulk (.view f.1) ∨ p = .bulk (.view f.2) := by
  simp [fieldPieces]

theorem entryPieces_eq (x : StreamEntry) : entryPieces x =
    .header 2 :: idPiece (x.ms, x.seq) :: .header (2 * x.fields.length) :: fieldPieces x := rfl

theorem entryPieces_forest (d : Nat) (x : StreamEntry) : Forest (d + 3) 1 (entryPieces x) := by
  have hfields : Forest (d + 1) (2 * x.fields.length) (fieldPieces x) := by
    rw [← fieldPieces_length]
    refine forest_leaves d fun p hp => ?_
    obtain ⟨f, -, rfl | rfl⟩ := mem_fieldPieces.mp hp
    · exact ⟨_, rfl⟩
    · exact ⟨_, rfl⟩
  exact (Forest.leaf rfl hfields.array).array

theorem entryPieces_sane (hp : p ∈ entryPieces x) : p.Sane := by
  rw [entryPieces_eq] at hp
  simp only [List.mem_cons] at hp
  rcases hp with rfl | rfl | rfl | hp
  · trivial
  · exact nofun
  · trivial
  obtain ⟨f, -, rfl | rfl⟩ := mem_fieldPieces.mp hp
  · exact nofun
  · exact nofun

theorem entryPieces_fits_iff (x : StreamEntry) :
    (∀ p ∈ entryPieces x, p.Fits) ↔ EntryShowable x := by
  rw [entryPieces_eq]
  simp only [List.forall_mem_cons]
  constructor
  · rintro ⟨-, -, hcount, hfields⟩
    refine ⟨hcount, fun f hf => ⟨?_, ?_⟩⟩
    · exact hfields _ (mem_fieldPieces.mpr ⟨f, hf, .inl rfl⟩)
    · exact hfields _ (mem_fieldPieces.mpr ⟨f, hf, .inr rfl⟩)
  rintro ⟨hcount, hfields⟩
  refine ⟨by simp [Piece.Fits, respMaxArrayLen], idPiece_fits _, hcount, fun p hp => ?_⟩
  obtain ⟨f, hf, rfl | rfl⟩ := mem_fieldPieces.mp hp
  · exact (hfields f hf).1
  · exact (hfields f hf).2

theorem entryPieces_cell (x : StreamEntry) : Cell (entryPieces x) :=
  ⟨entryPieces_forest 509 x, fun _ hp => entryPieces_sane hp⟩

/-! ## XREAD -/

/-- The id XREAD reads a stream from. -/
def readFrom (s : StreamObj) (idv : Bytes) : StreamId :=
  if ciEqual idv (text "$") then (s.lastMs, s.lastSeq)
  else ((streamParseFullId idv).map fun x => (UInt64.ofNat x.1, UInt64.ofNat x.2)).getD (0, 0)

def shownEntries (s : StreamObj) (idv : Bytes) (count : Option Nat) : List StreamEntry :=
  entriesAfter s (readFrom s idv) count

theorem readPieces_eq (s : StreamObj) (idv : Bytes) (count : Option Nat) :
    readPieces s idv count = .header (shownEntries s idv count).length
      :: (shownEntries s idv count).flatMap entryPieces := rfl

theorem readPieces_cell (s : StreamObj) (idv : Bytes) (count : Option Nat) :
    Cell (readPieces s idv count) := by
  refine ⟨Forest.array (forest_flatMap fun x _ => entryPieces_forest 508 x), fun p hp => ?_⟩
  rcases List.mem_cons.mp hp with rfl | hp
  · trivial
  · obtain ⟨x, -, hp⟩ := List.mem_flatMap.mp hp
    exact entryPieces_sane hp

theorem readPieces_fits_iff (s : StreamObj) (idv : Bytes) (count : Option Nat) :
    (∀ p ∈ readPieces s idv count, p.Fits) ↔
      (shownEntries s idv count).length ≤ respMaxArrayLen ∧
        ∀ x ∈ shownEntries s idv count, EntryShowable x := by
  rw [readPieces_eq, List.forall_mem_cons]
  refine and_congr Iff.rfl ?_
  simp only [← entryPieces_fits_iff, List.mem_flatMap]
  exact ⟨fun h x hx p hp => h p ⟨x, hx, hp⟩, fun h p ⟨x, hx, hp⟩ => h x hx p hp⟩

def xreadCell (held : Bytes → Option Obj) (count : Option Nat) (p : RespValue × RespValue) :
    Except Piece (List Piece) :=
  match argStr p.1, argStr p.2 with
  | some key, some idv =>
    match lookHeld streamKind (held key) with
    | .error err => .error (errorPiece err)
    | .ok none => .ok [.bulk (.null 0)]
    | .ok (some s) => .ok (readPieces s.1 idv count)
  | _, _ => .error (errorPiece badType)

theorem xreadCell_ok (held : Bytes → Option Obj) (count : Option Nat) (p : RespValue × RespValue) :
    CellOk (xreadCell held count p) := by
  unfold xreadCell
  split
  · split
    · rename_i hlook
      exact errorPiece_ok (lookHeld_line hlook)
    · exact bulkPiece_cell none
    · exact readPieces_cell _ _ _
  · exact errorPiece_ok isLine_badType

/-- The key loop of XREAD writes the cells of what is held under its keys. -/
theorem xreadLoop_eq (R : Runtime) (c : Ctx) (count : Option Nat) (now : Nat) :
    ∀ pairs e, ColdOk (e.dbs c.dbIndex) →
    (runCmd now (xreadLoop R c count pairs) e).1
      = (writeCells (pairs.map (xreadCell (heldAt now (e.dbs c.dbIndex)) count))).flatten
  | [], _, _ => rfl
  | (kv, vv) :: rest, e, hcold => by
    unfold xreadLoop
    rw [List.map_cons]
    cases hkey : argStr kv with
    | none =>
      simp only [xreadCell, hkey]
      rfl
    | some key =>
      cases hidv : argStr vv with
      | none =>
        simp only [xreadCell, hkey, hidv]
        rfl
      | some idv =>
        obtain ⟨hlook, hlooked⟩ := looked_getContainer now R streamKind c key hcold
        have hrest := xreadLoop_eq R c count now rest _ hlooked.cold
        rw [hlooked.held] at hrest
        simp only [xreadCell, hkey, hidv]
        rw [runCmd_bind, hlook]
        cases hheld : lookHeld streamKind (heldAt now (e.dbs c.dbIndex) key) with
        | error err =>
          dsimp only
          rw [piecesOf_line (lookHeld_line hheld)]
          rfl
        | ok found =>
          cases found with
          | none =>
            rw [runCmd_bind, hrest]
            rfl
          | some s =>
            rw [runCmd_bind, hrest]
            rfl

/-- A key that XREAD cannot show. -/
def xreadRefuses (held : Bytes → Option Obj) (p : RespValue × RespValue) : Prop :=
  ∀ key idv, argStr p.1 = some key → argStr p.2 = some idv →
    ∃ err, lookHeld streamKind (held key) = .error err

theorem xreadRefuses_iff (held : Bytes → Option Obj) (count : Option Nat)
    (p : RespValue × RespValue) : xreadRefuses held p ↔ ∃ q, xreadCell held count p = .error q := by
  unfold xreadCell
  split
  · rename_i key idv hkey hidv
    split
    · rename_i err hlook
      refine iff_of_true (fun key' idv' hk hv => ?_) ⟨_, rfl⟩
      cases hkey.symm.trans hk
      exact ⟨err, hlook⟩
    all_goals
      rename_i hlook
      refine iff_of_false (fun h => ?_) nofun
      obtain ⟨err, herr⟩ := h key idv hkey hidv
      rw [hlook] at herr
      cases herr
  · rename_i hnone
    exact iff_of_true (fun key idv hk hv => (hnone key idv hk hv).elim) ⟨_, rfl⟩

def xreadFits (held : Bytes → Option Obj) (count : Option Nat) (p : RespValue × RespValue) : Prop :=
  ∀ key idv s, argStr p.1 = some key → argStr p.2 = some idv →
    lookHeld streamKind (held key) = .ok (some s) →
    (shownEntries s.1 idv count).length ≤ respMaxArrayLen ∧
      ∀ x ∈ shownEntries s.1 idv count, EntryShowable x

theorem xreadCells_fit_iff (held : Bytes → Option Obj) (count : Option Nat)
    (pairs : List (RespValue × RespValue)) :
    (∀ ps, .ok ps ∈ pairs.map (xreadCell held count) → ∀ p ∈ ps, p.Fits) ↔
      ∀ p ∈ pairs, xreadFits held count p := by
  constructor
  · intro h p hp key idv s hkey hidv hlook
    have hcell : xreadCell held count p = .ok (readPieces s.1 idv count) := by
      simp only [xreadCell, hkey, hidv, hlook]
    exact (readPieces_fits_iff s.1 idv count).mp (h _ (List.mem_map.mpr ⟨p, hp, hcell⟩))
  intro h ps hps
  obtain ⟨p, hp, hcell⟩ := List.mem_map.mp hps
  have hfits := h p hp
  unfold xreadCell at hcell
  split at hcell
  · rename_i key idv hkey hidv
    split at hcell
    · cases hcell
    · cases hcell
      exact fun q hq => by rw [List.mem_singleton.mp hq]; trivial
    rename_i s hlook
    cases hcell
    exact (readPieces_fits_iff s.1 idv count).mpr (hfits key idv s hkey hidv hlook)
  · cases hcell

/-- The condition under which XREAD answers once: no key but the last holds a value of
another type, and what is shown is within the limits. -/
def XreadOnce (argv : List RespValue) (held : Bytes → Option Obj) : Prop :=
  match xreadArgs argv with
  | .error _ => True
  | .ok (count, pairs) =>
    ¬ BadBeforeLast (xreadRefuses held) pairs ∧ pairs.length ≤ respMaxArrayLen ∧
      ∀ p ∈ pairs, xreadFits held count p

theorem xreadCheck_line {pairs : List (RespValue × RespValue)}
    (h : xreadCheck pairs = some err) : isLine err = true := by
  fun_induction xreadCheck pairs with
  | case1 => cases h
  | case2 _ _ _ _ _ _ _ _ ih => exact ih h
  | case3 => cases h; exact isLine_errSyntax
  | case4 => cases h; exact isLine_badType

theorem xreadArgs_lines (argv : List RespValue) : ErrLines (xreadArgs argv) := by
  unfold xreadArgs
  split
  · trivial
  split
  · rename_i err hopts
    exact (xreadOptions_lines _ _).error hopts
  split
  · exact isLine_errSyntax
  dsimp only
  split
  · rename_i err hcheck
    exact xreadCheck_line hcheck
  · trivial

theorem xread_oneValue_iff (R : Runtime) (c : Ctx) (now : Nat) (hcold : ColdOk (e.dbs c.dbIndex)) :
    OneValue isDouble (runCmd now (xreadCommand R c) e).1 ↔
      XreadOnce c.argv (heldAt now (e.dbs c.dbIndex)) := by
  unfold xreadCommand XreadOnce
  cases hargs : xreadArgs c.argv with
  | error err => exact iff_of_true (oneValue_line ((xreadArgs_lines _).error hargs)) trivial
  | ok args =>
    obtain ⟨count, pairs⟩ := args
    have hok : ∀ x ∈ pairs.map (xreadCell (heldAt now (e.dbs c.dbIndex)) count), CellOk x := by
      intro x hx
      obtain ⟨p, -, rfl⟩ := List.mem_map.mp hx
      exact xreadCell_ok _ _ p
    have hcells := oneValue_cells_iff isDouble hok
    rw [List.length_map, interrupted_map_iff (xreadRefuses_iff _ count),
      xreadCells_fit_iff] at hcells
    rw [runCmd_bind, xreadLoop_eq R c count now pairs e hcold]
    exact hcells

/-! ## XCLAIM -/

theorem runPlan_reply [DecidableEq α] (R : Runtime) (K : Kind α) (c : Ctx) (k : Bytes)
    (a : α × UInt64) (p : Plan α) (now : Nat) (e : Exec) :
    (runCmd now (runPlan R K c k a p) e).1 = p.reply := by
  unfold runPlan
  rw [runCmd_bind]
  split <;> rfl

/-- The reply of a command that edits in place an object that is there. -/
theorem inPlace_reply [DecidableEq α] (R : Runtime) (K : Kind α) (c : Ctx) {q : Request α}
    (hcreate : q.create = false) (now : Nat) (hcold : ColdOk (e.dbs c.dbIndex)) :
    (runCmd now (inPlace R K c (.ok q)) e).1 =
      match lookHeld K (heldAt now (e.dbs c.dbIndex) q.key) with
      | .error err => piecesOf err
      | .ok none => q.absent
      | .ok (some a) => (q.plan a.1).reply := by
  obtain ⟨hlook, -⟩ := looked_getContainer now R K c q.key hcold
  unfold inPlace
  rw [runCmd_bind, hcreate, hlook]
  cases lookHeld K (heldAt now (e.dbs c.dbIndex) q.key) with
  | error err => rfl
  | ok found =>
    cases found with
    | none => rfl
    | some a => exact runPlan_reply ..

/-- The ids that qualify when the second pass of XCLAIM comes to them. -/
def claimHits (a : ClaimArgs) (now : Nat) : List StreamId → Group → List StreamId
  | [], _ => []
  | id :: rest, g =>
    if !claims a now g id then claimHits a now rest g
    else id :: claimHits a now rest (if a.opts.justid then g else claimed a now g id)

/-- What the second pass writes for an id it claims. -/
def claimCell (a : ClaimArgs) (s : StreamObj) (id : StreamId) : List Piece :=
  if a.opts.justid then [idPiece id]
  else
    match entryAt s id with
    | some x => entryPieces x
    | none => [.bulk (.null 0)]

theorem claimLoop_eq (a : ClaimArgs) (now : Nat) (s : StreamObj) :
    ∀ ids g,
      (claimLoop a now s ids g).2 = ((claimHits a now ids g).map (claimCell a s)).flatten
  | [], _ => rfl
  | id :: rest, g => by
    unfold claimLoop claimHits
    split
    · exact claimLoop_eq a now s rest g
    rw [List.map_cons, claimCell]
    split
    · exact congrArg ([idPiece id] ++ ·) (claimLoop_eq a now s rest g)
    · cases entryAt s id <;> exact congrArg (_ ++ ·) (claimLoop_eq a now s rest _)

theorem claimCell_cell (a : ClaimArgs) (s : StreamObj) (id : StreamId) : Cell (claimCell a s id) := by
  unfold claimCell
  split
  · exact idPiece_cell id
  split
  · exact entryPieces_cell _
  · exact bulkPiece_cell none

theorem claimCell_fits_iff (a : ClaimArgs) (s : StreamObj) (id : StreamId) :
    (∀ p ∈ claimCell a s id, p.Fits) ↔
      (a.opts.justid = false → ∀ x, entryAt s id = some x → EntryShowable x) := by
  unfold claimCell
  split
  · rename_i hjust
    refine iff_of_true (fun p hp => ?_) fun h => by rw [hjust] at h; cases h
    rw [List.mem_singleton.mp hp]
    exact idPiece_fits id
  rename_i hjust
  rw [Bool.not_eq_true] at hjust
  split
  · rename_i x hx
    rw [entryPieces_fits_iff]
    refine ⟨fun h _ y hy => ?_, fun h => h hjust x hx⟩
    cases hx.symm.trans hy
    exact h
  · rename_i hx
    refine iff_of_true (fun p hp => ?_) fun _ x h => by rw [hx] at h; cases h
    rw [List.mem_singleton.mp hp]
    trivial

def claimGroup (a : ClaimArgs) (g : Group) : Group :=
  if a.opts.justid then g else consumerCreate g a.consumer

/-- XCLAIM on a group answers once: as many ids qualify in the second pass as in the
first, and what is shown is within the limits. -/
def ClaimOnce (a : ClaimArgs) (now : Nat) (s : StreamObj) (g : Group) : Prop :=
  a.ids.countP (claims a now g) = (claimHits a now a.ids g).length ∧
    a.ids.countP (claims a now g) ≤ respMaxArrayLen ∧
    ∀ id ∈ claimHits a now a.ids g, a.opts.justid = false →
      ∀ x, entryAt s id = some x → EntryShowable x

def XclaimOnce (argv : List RespValue) (now : Nat) (held : Bytes → Option Obj) : Prop :=
  match claimArgs argv now with
  | .error _ => True
  | .ok a =>
    match lookHeld streamKind (held a.key) with
    | .ok (some s) =>
      match s.1.groups.get? a.group with
      | none => True
      | some g => ClaimOnce a now s.1 (claimGroup a g)
    | _ => True

theorem claimArgs_lines (argv : List RespValue) (now : Nat) : ErrLines (claimArgs argv now) := by
  unfold claimArgs
  split
  · trivial
  split
  · split
    · exact isLine_errSyntax
    split
    · exact isLine_badType
    · exact isLine_errSyntax
    split
    · rename_i hopts
      exact (claimOptions_lines _ _).error hopts
    · trivial
  · exact isLine_badType

theorem isLine_noGroup : isLine noGroup = true := by decide

theorem xclaim_oneValue_iff (R : Runtime) (c : Ctx) (now : Nat) (hcold : ColdOk (e.dbs c.dbIndex)) :
    OneValue isDouble (runCmd now (inPlace R streamKind c
        ((xclaimRequest c.argv now).mapError piecesOf)) e).1 ↔
      XclaimOnce c.argv now (heldAt now (e.dbs c.dbIndex)) := by
  unfold xclaimRequest XclaimOnce
  cases hargs : claimArgs c.argv now with
  | error err => exact iff_of_true (oneValue_line ((claimArgs_lines _ _).error hargs)) trivial
  | ok a =>
    dsimp only [Except.mapError]
    rw [inPlace_reply R streamKind c rfl now hcold]
    cases hlook : lookHeld streamKind (heldAt now (e.dbs c.dbIndex) a.key) with
    | error err => exact iff_of_true (oneValue_line (lookHeld_line hlook)) trivial
    | ok found =>
      cases found with
      | none => exact iff_of_true (oneValue_line isLine_noGroup) trivial
      | some s =>
        dsimp only [claimPlan]
        cases s.1.groups.get? a.group with
        | none => exact iff_of_true (oneValue_line isLine_noGroup) trivial
        | some g =>
          dsimp only
          rw [claimLoop_eq]
          have hcells : ∀ ps ∈ (claimHits a now a.ids (claimGroup a g)).map
              (claimCell a s.1), Cell ps := by
            intro ps hps
            obtain ⟨id, -, rfl⟩ := List.mem_map.mp hps
            exact claimCell_cell a s.1 id
          have harray := oneValue_array_iff isDouble
            (a.ids.countP (claims a now (claimGroup a g))) hcells
          simp only [List.length_map, List.forall_mem_map, claimCell_fits_iff] at harray
          exact harray

/-! ## INCREX -/

def Fits64 (n : Int) : Prop := -(llongMax : Int) - 1 ≤ n ∧ n ≤ llongMax

theorem parseI64_fits {s : Bytes} (h : parseI64 s = some n) : Fits64 n := by
  unfold parseI64 at h
  rcases hsign : splitSign s with ⟨neg, digits⟩
  simp only [hsign] at h
  split at h
  · cases h
  obtain ⟨v, hv, rfl⟩ := Option.map_eq_some_iff.mp h
  have hle := digitLoop_le (llongMax + if neg then 1 else 0) (fun v d hok hd => by
    unfold i64Ok at hok
    simp only [Bool.or_eq_true, Bool.and_eq_true, decide_eq_true_eq, beq_iff_eq] at hok
    omega) hv (by omega)
  cases neg with
  | true =>
    simp only [if_true] at hle ⊢
    exact ⟨by omega, by omega⟩
  | false =>
    simp only [Bool.false_eq_true, if_false] at hle ⊢
    exact ⟨by omega, by omega⟩

theorem oneValue_pair {q : Piece} {w : RespValue} (hp : p.leaf? = some v) (hq : q.leaf? = some w)
    (hpsane : p.Sane) (hqsane : q.Sane) (hpfits : p.Fits) (hqfits : q.Fits) :
    OneValue isDouble [.header 2, p, q] := by
  have hcells : ∀ ps ∈ [[p], [q]], Cell ps := by
    intro ps hps
    simp only [List.mem_cons, List.not_mem_nil, or_false] at hps
    rcases hps with rfl | rfl
    · exact cell_leaf hp hpsane
    · exact cell_leaf hq hqsane
  refine (oneValue_array_iff isDouble 2 hcells).mpr ⟨rfl, by simp [respMaxArrayLen], ?_⟩
  simp [hpfits, hqfits]

theorem oneValue_ints (ha : Fits64 a) (hb : Fits64 b) :
    OneValue isDouble [.header 2, .int a, .int b] :=
  oneValue_pair rfl rfl ha hb trivial trivial

theorem oneValue_floats (L : LongDouble) (x y : L.T) :
    OneValue isDouble [.header 2, .bulk (.view (L.fmt x)), .bulk (.view (L.fmt y))] := by
  have hfits z : (Piece.bulk (.view (L.fmt z))).Fits := by
    show (L.fmt z).length ≤ respMaxArrayLen
    have := L.fmt_short z
    rw [respMaxArrayLen]
    omega
  exact oneValue_pair rfl rfl nofun nofun (hfits x) (hfits y)

/-- What INCREX is about to reply is one value. -/
def IncreasedOne (isDouble : Bytes → Bool) : Increased → Prop
  | .error ps => OneValue isDouble ps
  | .ok (_, ps) => OneValue isDouble ps

theorem llSubOverflow_spec (ha : Fits64 a) (hb : Fits64 b) :
    (Fits64 (a - b) → llSubOverflow a b = some (a - b)) ∧
      (¬ Fits64 (a - b) → llSubOverflow a b = none) := by
  have hneg : -(b - a) = a - b := by omega
  unfold Fits64 at ha hb ⊢
  unfold llSubOverflow
  refine ⟨fun h => ?_, fun h => ?_⟩ <;> split_ifs <;> first | rw [hneg] | rfl | omega

theorem increxInt_one {lb ub old : Int} (saturate : Bool) (hlb : Fits64 lb) (hub : Fits64 ub)
    (hold : Fits64 old) : IncreasedOne isDouble (increxInt n lb ub saturate old) := by
  unfold increxInt
  extract_lets overflow res out res'
  have hres : Fits64 res' := by
    show Fits64 (if !out then res else if overflow then (if 0 ≤ n then ub else lb)
      else if ub < res then ub else lb)
    split
    · -- within its bounds
      rename_i hin
      simp only [out, Bool.not_eq_true', Bool.or_eq_false_iff, decide_eq_false_iff_not] at hin
      exact ⟨by have := hlb.1; omega, by have := hub.2; omega⟩
    · split_ifs
      all_goals assumption
  split
  · exact oneValue_ints hold ⟨by simp, by simp⟩
  by_cases hdelta : Fits64 (res' - old)
  · rw [(llSubOverflow_spec hres hold).1 hdelta]
    exact oneValue_ints hres hdelta
  · rw [(llSubOverflow_spec hres hold).2 hdelta]
    exact oneValue_line (by decide)

theorem increxFloat_one (L : LongDouble) (x lb ub old : L.T) (saturate : Bool) :
    IncreasedOne isDouble (increxFloat L x lb ub saturate old) := by
  unfold increxFloat
  extract_lets res overflow out res' delta
  split
  · exact oneValue_floats L _ _
  by_cases hdelta : L.isInf delta = true
  · rw [if_pos hdelta]
    exact oneValue_line (by decide)
  · rw [if_neg hdelta]
    exact oneValue_floats L _ _

def StepFits {L : LongDouble} : Step L → Prop
  | .int _ lb ub => Fits64 lb ∧ Fits64 ub ∧ lb ≤ ub
  | .float _ _ _ => True

theorem boundArg_fits {default : Int} (hdefault : Fits64 default)
    {v : Option RespValue} (h : boundArg parseI64 bad default v = .ok n) : Fits64 n := by
  unfold boundArg at h
  split at h
  · cases h
    exact hdefault
  split at h
  · cases h
  split at h
  · cases h
  rename_i hparse
  cases h
  exact parseI64_fits hparse

theorem boundArg_lines (parse : Bytes → Option α) (default : α)
    (v : Option RespValue) (hbad : isLine (errorReply bad) = true) :
    ErrLines (boundArg parse bad default v) := by
  unfold boundArg
  split
  · trivial
  split
  · exact isLine_badType
  split
  · exact hbad
  · trivial

theorem increxStep_spec (L : LongDouble) (o : IncrexOpts L) :
    ErrLines (increxStep L o) ∧ ∀ step, increxStep L o = .ok step → StepFits step := by
  have hmin : Fits64 (-(llongMax : Int) - 1) := ⟨le_refl _, by simp [llongMax]⟩
  have hmax : Fits64 llongMax := ⟨by simp [llongMax], le_refl _⟩
  unfold increxStep
  split
  · refine ⟨?_, fun step h => ?_⟩
    · split
      · rename_i hlb
        exact (boundArg_lines _ _ _ (by decide)).error hlb
      · rename_i hub
        exact (boundArg_lines _ _ _ (by decide)).error hub
      · split <;> trivial
    split at h
    · cases h
    · cases h
    split at h
    · cases h
    · cases h
      trivial
  · dsimp only
    refine ⟨?_, fun step h => ?_⟩
    · split
      · rename_i hlb
        exact (boundArg_lines _ _ _ (by decide)).error hlb
      · rename_i hub
        exact (boundArg_lines _ _ _ (by decide)).error hub
      · split <;> trivial
    split at h
    · cases h
    · cases h
    rename_i hlb hub
    split at h
    · cases h
    rename_i hle
    cases h
    exact ⟨boundArg_fits hmin hlb, boundArg_fits hmax hub, Int.not_lt.mp hle⟩

theorem parseAbsoluteExpiry_lines (v : RespValue) (seconds relative : Bool) (now : Nat) :
    ErrLines (parseAbsoluteExpiry v seconds relative now "increx") := by
  unfold parseAbsoluteExpiry
  split
  · exact isLine_badType
  split
  · exact isLine_errNotInt
  split
  · trivial
  dsimp only
  split
  · generalize (if seconds then _ else _) = ms
    by_cases hover : uint64Max - now < ms
    · rw [if_pos hover]
      show isLine (invalidExpire "increx") = true
      decide
    · rw [if_neg hover]
      trivial
  · trivial

theorem increxArgs_spec (L : LongDouble) (argv : List RespValue) (now : Nat) :
    ErrLines (increxArgs L argv now) ∧ ∀ a, increxArgs L argv now = .ok a → StepFits a.step := by
  unfold increxArgs
  split
  · exact ⟨by trivial, nofun⟩
  split
  · exact ⟨isLine_badType, nofun⟩
  split
  · exact ⟨isLine_storageLengthError, nofun⟩
  split
  · rename_i hopts
    exact ⟨(increxOptions_lines L _ _).error hopts, nofun⟩
  rename_i o hopts
  obtain ⟨hlines, hfits⟩ := increxStep_spec L o
  split
  · rename_i hstep
    exact ⟨hlines.error hstep, nofun⟩
  rename_i step hstep
  split
  · exact ⟨by trivial, nofun⟩
  split
  · exact ⟨trivial, fun a h => by cases h; exact hfits _ hstep⟩
  split
  · rename_i hexpire
    exact ⟨(parseAbsoluteExpiry_lines _ _ _ _).error hexpire, nofun⟩
  · exact ⟨trivial, fun a h => by cases h; exact hfits _ hstep⟩

theorem numberAt_bind_one {parse : Bytes → Option α} {bad : RespValue} {zero : α} {v : Option Obj}
    {f : α → Increased} (hbad : isLine bad = true) (hzero : IncreasedOne isDouble (f zero))
    (hf : ∀ b x, parse b = some x → IncreasedOne isDouble (f x)) :
    IncreasedOne isDouble ((numberAt parse bad zero v).bind f) := by
  unfold numberAt
  split
  · exact hzero
  · split
    · exact oneValue_line hbad
    · rename_i hparse
      exact hf _ _ hparse
  · exact oneValue_line isLine_wrongType

theorem increxValue_one {a : IncrexArgs L} (h : StepFits a.step) (v : Option Obj) :
    IncreasedOne isDouble (increxValue L a v) := by
  unfold increxValue
  cases hstep : a.step with
  | int n lb ub =>
    rw [hstep] at h
    refine numberAt_bind_one isLine_errNotInt ?_ fun b x hx => ?_
    · exact increxInt_one _ h.1 h.2.1 ⟨by simp, by simp⟩
    · exact increxInt_one _ h.1 h.2.1 (parseI64_fits hx)
  | float x lb ub =>
    exact numberAt_bind_one isLine_errNotFloat (increxFloat_one ..) fun _ _ _ =>
      increxFloat_one ..

/-- The condition under which INCREX answers once: it does not come to delete its key for
an expiry that has passed. -/
def IncrexOnce (L : LongDouble) (argv : List RespValue) (now : Nat) (d : Db) : Prop :=
  match increxArgs L argv now with
  | .error _ => True
  | .ok a =>
    match increxValue L a (heldAt now d a.key) with
    | .error _ => True
    | .ok _ => a.past now = true → oomBlocked (dbGet d a.key now).1 = true

theorem increxStore_one (c : Ctx) (a : IncrexArgs L) (exists? : Bool) (oldExpire : Option Nat)
    (value : Bytes) {shown : List Piece} (hshown : OneValue isDouble shown) (now : Nat) (e : Exec) :
    OneValue isDouble (runCmd now (increxStore c a exists? oldExpire value shown) e).1 ↔
      (a.past c.now = true → oomBlocked (e.dbs c.dbIndex) = true) := by
  have hlength : OneValue isDouble (piecesOf storageLengthError) :=
    oneValue_line isLine_storageLengthError
  unfold increxStore
  rw [runCmd_bind, runCmd_oom]
  cases oomBlocked (e.dbs c.dbIndex) with
  | true => exact iff_of_true (oneValue_line isLine_oomError) fun _ => rfl
  | false =>
    cases a.past c.now with
    | true =>
      refine iff_of_false ?_ (by simp)
      cases exists? <;> exact not_oneValue_nil
    | false =>
      refine iff_of_true ?_ (by simp)
      simp only [Bool.false_eq_true, if_false, runCmd_bind]
      rcases runCmd now (Cmd.setKv c.dbIndex a.key (.str value) false) e with ⟨_ | _, e₁⟩
      · exact hlength
      simp only [Bool.not_true, Bool.false_eq_true, if_false]
      generalize (if a.persist = true then none else _) = expire
      cases expire with
      | none => exact hshown
      | some t =>
        simp only [runCmd_bind]
        rcases runCmd now (Cmd.setExpiry c.dbIndex a.key t false) e₁ with ⟨_ | _, e₂⟩
        · exact hlength
        · exact hshown

theorem runCmd_get_dbs {i now : Nat} (k : Bytes) :
    (runCmd now (Cmd.get i k) e).2.dbs i = (dbGet (e.dbs i) k now).1 := by
  exact Exec.commit_self ..

/-- The expiry of a key that was just found is read without any effect. -/
theorem runCmd_ttl_dbs {i now : Nat} {v : Obj} (hcold : ColdOk (e.dbs i))
    (hheld : heldAt now (e.dbs i) k = some v) :
    (runCmd now (Cmd.ttl i k) (runCmd now (Cmd.get i k) e).2).2.dbs i
      = (dbGet (e.dbs i) k now).1 := by
  have hfound := (dbGet_read hcold k now).2
  rw [dbGet_held hcold, hheld] at hfound
  obtain ⟨t, hlive, -⟩ := hfound.live
  show (Exec.commit _ now i k (dbExpireIfNeeded ((runCmd now (Cmd.get i k) e).2.dbs i) k now)).dbs i
    = _
  rw [Exec.commit_self, runCmd_get_dbs]
  exact dbExpireIfNeeded_of_live (by rw [hlive]; rfl)

theorem increx_oneValue_iff (L : LongDouble) (c : Ctx) (hcold : ColdOk (e.dbs c.dbIndex)) :
    OneValue isDouble (runCmd c.now (increxCommand L c) e).1 ↔
      IncrexOnce L c.argv c.now (e.dbs c.dbIndex) := by
  obtain ⟨hlines, hfits⟩ := increxArgs_spec L c.argv c.now
  unfold increxCommand IncrexOnce
  cases hargs : increxArgs L c.argv c.now with
  | error err => exact iff_of_true (oneValue_line (hlines.error hargs)) trivial
  | ok a =>
    have hone : IncreasedOne isDouble (increxValue L a (heldAt c.now (e.dbs c.dbIndex) a.key)) :=
      increxValue_one (hfits a hargs) _
    dsimp only
    rw [runCmd_bind, (looked_get c.now a.key hcold).1]
    cases hvalue : increxValue L a (heldAt c.now (e.dbs c.dbIndex) a.key) with
    | error ps =>
      rw [hvalue] at hone
      refine iff_of_true ?_ trivial
      cases heldAt c.now (e.dbs c.dbIndex) a.key <;> exact hone
    | ok vs =>
      rw [hvalue] at hone
      cases hheld : heldAt c.now (e.dbs c.dbIndex) a.key with
      | none =>
        refine (increxStore_one c a false none vs.1 hone _ _).trans ?_
        rw [runCmd_get_dbs]
      | some v =>
        simp only [Option.isSome_some, if_true, runCmd_bind]
        refine (increxStore_one c a true _ vs.1 hone _ _).trans ?_
        rw [runCmd_ttl_dbs hcold hheld]

/-! ## SET -/

theorem oneValue_okReply : OneValue isDouble (piecesOf okReply) :=
  (oneValue_leaf_iff (p := .simple (text "OK")) rfl (noCrlf_of_not_mem (by decide))).mpr
    trivial

theorem oneValue_bulk_iff (b : Option Bytes) :
    OneValue isDouble [bulkPiece b] ↔ ∀ s, b = some s → Showable s := by
  rw [← bulkPiece_fits]
  cases b with
  | none => exact oneValue_leaf_iff rfl nofun
  | some b => exact oneValue_leaf_iff rfl nofun

theorem setStore_one (c : Ctx) (k v : Bytes) (o : SetOpts) (now : Nat) (e : Exec) :
    OneValue isDouble (piecesOf (runCmd now (setStore c k v o) e).1) := by
  refine Prog.Ends.run (P := fun r => OneValue isDouble (piecesOf r)) ?_ e
  have hlength : OneValue isDouble (piecesOf storageLengthError) :=
    oneValue_line isLine_storageLengthError
  have hok : OneValue isDouble (piecesOf okReply) := oneValue_okReply
  unfold setStore
  cases o.keepttl <;> cases o.ttl <;>
    repeat first | exact hlength | exact hok | (refine Prog.Ends.seq (fun r => ?_) _; cases r)

/-- The condition under which SET answers once. With GET it shows the old value, so that
value has to be short enough to be shown, and memory must not refuse the write afterwards. -/
def SetOnce (argv : List RespValue) (now : Nat) (d : Db) : Prop :=
  match setArgs argv with
  | none => True
  | some (k, _, o) =>
    o.getOld = true →
      match heldAt now d k with
      | none => o.xx = true ∨ oomBlocked (dbGet d k now).1 = false
      | some (.str b) => o.nx = true ∨ (oomBlocked (dbGet d k now).1 = false ∧ Showable b)
      | some _ => True

theorem setCommand_refused (c : Ctx) (h : setArgs c.argv = none) :
    ∃ err, isLine err = true ∧ setCommand c = reply err := by
  unfold setArgs at h
  unfold setCommand
  by_cases hlen : c.argv.length < 3
  · exact ⟨_, by decide, if_pos hlen⟩
  rw [if_neg hlen] at h ⊢
  cases hk : argAt c.argv 1 with
  | none => exact ⟨badType, isLine_badType, rfl⟩
  | some k =>
    cases hv : argAt c.argv 2 with
    | none => exact ⟨badType, isLine_badType, rfl⟩
    | some v =>
      rw [hk, hv] at h
      by_cases hok : (!storageStringOk k v) = true
      · exact ⟨_, isLine_storageLengthError, if_pos hok⟩
      simp only [if_neg hok] at h ⊢
      cases hopts : setOptions (c.argv.drop 3) {} with
      | error err => exact ⟨err, (setOptions_lines _ _).error hopts, rfl⟩
      | ok o =>
        rw [hopts] at h
        cases h

theorem setCommand_of_args (c : Ctx) {v : Bytes} {o : SetOpts}
    (h : setArgs c.argv = some (k, v, o)) : setCommand c = setBody c k v o := by
  obtain ⟨err, hset⟩ := setCommand_eq c
  rw [hset, h]

/-- SET past its flags: the old value, if it is asked for, and the outcome. -/
theorem setWrite_one (c : Ctx) (k v : Bytes) (o : SetOpts) {old : RespValue} {shown : Option Bytes}
    (hold : piecesOf old = [bulkPiece shown]) (now : Nat) (e : Exec) :
    OneValue isDouble (piecesOfAll (runCmd now (do
      let shown := if o.getOld then [old] else []
      if ← Cmd.oom c.dbIndex then return ⟨shown ++ [oomError], .none⟩
      let res ← setStore c k v o
      return ⟨if o.getOld then shown else [res], .none⟩ : Cmd Outcome) e).1.replies) ↔
    (o.getOld = true → oomBlocked (e.dbs c.dbIndex) = false ∧ ∀ b, shown = some b → Showable b) := by
  rw [runCmd_bind, runCmd_oom]
  cases oomBlocked (e.dbs c.dbIndex) with
  | true =>
    cases o.getOld with
    | false => exact iff_of_true (oneValue_line isLine_oomError) nofun
    | true =>
      refine iff_of_false ?_ (fun h => by cases (h rfl).1)
      obtain ⟨p, w, hp, -, hsane, -⟩ := isLine_piecesOf isLine_oomError
      show ¬ OneValue isDouble (piecesOf old ++ piecesOf oomError)
      rw [hold, hp]
      cases shown with
      | none => exact not_oneValue_two rfl nofun hsane
      | some b => exact not_oneValue_two rfl nofun hsane
  | false =>
    rw [if_neg Bool.false_ne_true, runCmd_bind]
    cases o.getOld with
    | false =>
      refine iff_of_true ?_ nofun
      show OneValue isDouble (piecesOf _ ++ [])
      rw [List.append_nil]
      exact setStore_one c k v o now e
    | true =>
      show OneValue isDouble (piecesOf old ++ []) ↔ _
      rw [List.append_nil, hold, oneValue_bulk_iff]
      exact ⟨fun h _ => ⟨rfl, h⟩, fun h => (h rfl).2⟩

theorem setBody_oneValue_iff (c : Ctx) (k v : Bytes) (o : SetOpts) (now : Nat)
    (hcold : ColdOk (e.dbs c.dbIndex)) :
    OneValue isDouble (piecesOfAll (runCmd now (setBody c k v o) e).1.replies) ↔
      (o.getOld = true →
        match heldAt now (e.dbs c.dbIndex) k with
        | none => o.xx = true ∨ oomBlocked (dbGet (e.dbs c.dbIndex) k now).1 = false
        | some (.str b) =>
          o.nx = true ∨ (oomBlocked (dbGet (e.dbs c.dbIndex) k now).1 = false ∧ Showable b)
        | some _ => True) := by
  have hnull : OneValue isDouble [bulkPiece none] :=
    (oneValue_bulk_iff none).mpr fun _ h => by cases h
  have htype : OneValue isDouble (piecesOfAll [wrongType]) := oneValue_line isLine_wrongType
  unfold setBody
  rw [runCmd_bind, (looked_get now k hcold).1]
  cases hheld : heldAt now (e.dbs c.dbIndex) k with
  | none =>
    cases hxx : o.xx with
    | true =>
      rw [if_pos (by simp)]
      exact iff_of_true hnull fun _ => .inl rfl
    | false =>
      have hshown : piecesOf (oldReply none) = [bulkPiece none] := rfl
      rw [if_neg (by simp)]
      refine (setWrite_one c k v o hshown now _).trans ?_
      rw [runCmd_get_dbs]
      simp
  | some w =>
    cases w with
    | str b =>
      cases hnx : o.nx with
      | true =>
        exact iff_of_true hnull fun _ => .inl rfl
      | false =>
        have hshown : piecesOf (oldReply (some (.str b))) = [bulkPiece (some b)] := rfl
        rw [if_neg (by simp)]
        refine (setWrite_one c k v o hshown now _).trans ?_
        rw [runCmd_get_dbs]
        simp
    | list items mem => exact iff_of_true htype fun _ => trivial
    | boxed x mem => exact iff_of_true htype fun _ => trivial
    | tier rid ex => exact iff_of_true htype fun _ => trivial

theorem set_oneValue_iff (c : Ctx) (now : Nat) (hcold : ColdOk (e.dbs c.dbIndex)) :
    OneValue isDouble (piecesOfAll (runCmd now (setCommand c) e).1.replies) ↔
      SetOnce c.argv now (e.dbs c.dbIndex) := by
  unfold SetOnce
  cases hargs : setArgs c.argv with
  | none =>
    obtain ⟨err, hline, hset⟩ := setCommand_refused c hargs
    rw [hset]
    refine iff_of_true ?_ trivial
    show OneValue isDouble (piecesOf err ++ [])
    rw [List.append_nil]
    exact oneValue_line hline
  | some a =>
    obtain ⟨k, v, o⟩ := a
    rw [setCommand_of_args c hargs]
    exact setBody_oneValue_iff c k v o now hcold

end Ddup.Server
