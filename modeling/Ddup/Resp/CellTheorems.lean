/-
Ddup.Resp.CellTheorems — array replies that are written cell by cell.

The header comes first and announces a number of cells; each cell is then written as one
value, or an error is written in its place and nothing follows. Such a reply is one value
if, and only if, no cell behind the error is missing and nothing is over the limit.
-/
import Ddup.Resp.ReplyTheorems

namespace Ddup.Resp

open Ddup.Lib
open List (mem_cons_of_mem mem_cons_self)

variable {ps : List Piece} {p : Piece} {v : RespValue}
variable {cells : List (List Piece)} {d n : Nat} {rest : List (Except Piece (List Piece))}

/-! ## An array of terms -/

structure Cell (ps : List Piece) : Prop where
  forest : Forest respMaxDepth 1 ps
  sane : ∀ p ∈ ps, p.Sane

theorem Forest.append {m : Nat} {qs : List Piece} (h : Forest d n ps) (h' : Forest d m qs) :
    Forest d (n + m) (ps ++ qs) := by
  induction h with
  | nil d =>
    rw [Nat.zero_add]
    exact h'
  | leaf hleaf rest ih =>
    rw [Nat.add_right_comm]
    exact .leaf hleaf (ih h')
  | node items rest ihItems ihRest =>
    rw [Nat.add_right_comm, List.cons_append, List.append_assoc]
    exact .node items (ihRest h')

theorem forest_leaves (d : Nat) : ∀ {ps}, (∀ p ∈ ps, ∃ v, p.leaf? = some v) →
    Forest (d + 1) ps.length ps
  | [], _ => .nil _
  | p :: _, h => by
    obtain ⟨v, hleaf⟩ := h p mem_cons_self
    exact .leaf hleaf (forest_leaves d fun q hq => h q (mem_cons_of_mem _ hq))

theorem Forest.array (h : Forest d n ps) : Forest (d + 1) 1 (.header n :: ps) := by
  have hnode := Forest.node h (.nil (d + 1))
  rwa [List.append_nil] at hnode

theorem forest_flatMap {α : Type} {f : α → List Piece} : ∀ {l : List α},
    (∀ x ∈ l, Forest d 1 (f x)) → Forest d l.length (l.flatMap f)
  | [], _ => .nil _
  | x :: l, h => by
    have hrest := forest_flatMap fun y hy => h y (mem_cons_of_mem _ hy)
    have hboth := (h x mem_cons_self).append hrest
    rw [Nat.add_comm] at hboth
    exact hboth

theorem Forest.due {ps : List Piece} (h : Forest d n ps) : due Piece.arity n ps = some 0 := by
  induction h with
  | nil d => rfl
  | leaf hleaf rest ih =>
    rw [due_cons, Piece.arity_of_leaf hleaf, Nat.zero_add]
    exact ih
  | @node d n m ps qs items rest ihItems ihRest =>
    rw [due_cons, due_append]
    have hitems := due_add n ihItems
    rw [Nat.zero_add] at hitems
    rw [show (Piece.header m).arity = m from rfl, hitems]
    exact ihRest

theorem forest_cells (h : ∀ ps ∈ cells, Cell ps) :
    Forest respMaxDepth cells.length cells.flatten := by
  have hall := forest_flatMap fun ps hps => (h ps hps).forest
  rwa [List.flatMap_id'] at hall

variable {isDouble : Bytes → Bool}

/-- An array reply is one value if the header announces as many cells as follow. -/
theorem oneValue_array_iff (isDouble : Bytes → Bool) (n : Nat) (hcells : ∀ ps ∈ cells, Cell ps) :
    OneValue isDouble (.header n :: cells.flatten) ↔
      n = cells.length ∧ n ≤ respMaxArrayLen ∧ ∀ ps ∈ cells, ∀ p ∈ ps, p.Fits := by
  have hsane : ∀ p ∈ Piece.header n :: cells.flatten, p.Sane := by
    intro p hp
    rcases List.mem_cons.mp hp with rfl | hp
    · trivial
    · obtain ⟨ps, hps, hp⟩ := List.mem_flatten.mp hp
      exact (hcells ps hps).sane p hp
  have hforest := forest_cells hcells
  constructor
  · intro h
    obtain ⟨hdue, hfits⟩ := h.due hsane
    refine ⟨?_, hfits _ mem_cons_self, fun ps hps p hp =>
      hfits p (mem_cons_of_mem _ (List.mem_flatten.mpr ⟨ps, hps, hp⟩))⟩
    rw [due_cons] at hdue
    -- reading on for `n` values where `cells.length` are there
    have hread := hforest.due
    rcases Nat.le_total cells.length n with hle | hle
    · obtain ⟨m, rfl⟩ := Nat.exists_eq_add_of_le hle
      have hmore := due_add m hread
      rw [show (Piece.header (cells.length + m)).arity + 0 = cells.length + m from rfl, hmore] at hdue
      have hm : 0 + m = 0 := Option.some.inj hdue
      omega
    · obtain ⟨m, hm⟩ := Nat.exists_eq_add_of_le hle
      have hmore := due_add m hdue
      rw [show (Piece.header n).arity + 0 + m = cells.length from hm.symm, hread] at hmore
      have hzero : 0 = 0 + m := Option.some.inj hmore
      omega
  · rintro ⟨rfl, hcount, hfits⟩
    have hall : Forest (respMaxDepth + 1) 1 (.header cells.length :: (cells.flatten ++ [])) :=
      .node hforest (.nil _)
    rw [List.append_nil] at hall
    refine hall.oneValue hsane fun p hp => ?_
    rcases List.mem_cons.mp hp with rfl | hp
    · exact hcount
    · obtain ⟨ps, hps, hp⟩ := List.mem_flatten.mp hp
      exact hfits ps hps p hp

theorem oneValue_leaf_iff (hleaf : p.leaf? = some v) (hsane : p.Sane) :
    OneValue isDouble [p] ↔ p.Fits := by
  have hall : ∀ q ∈ [p], q.Sane := fun q hq => List.mem_singleton.mp hq ▸ hsane
  refine ⟨fun h => (h.due hall).2 p (List.mem_singleton.mpr rfl), fun hfits => ?_⟩
  exact (Forest.leaf hleaf (.nil _)).oneValue hall fun q hq => List.mem_singleton.mp hq ▸ hfits

theorem not_oneValue_nil : ¬ OneValue isDouble [] := by
  intro h
  obtain ⟨hdue, -⟩ := h.due nofun
  cases hdue

theorem not_oneValue_two {q : Piece} (hleaf : p.leaf? = some v) (hp : p.Sane) (hq : q.Sane)
    : ¬ OneValue isDouble [p, q] := by
  intro h
  obtain ⟨hdue, -⟩ := h.due (fun r hr => by
    rcases List.mem_cons.mp hr with rfl | hr
    · exact hp
    · rw [List.mem_singleton.mp hr]
      exact hq)
  rw [due_cons, Piece.arity_of_leaf hleaf] at hdue
  cases hdue

/-! ## Cells that may fail -/

def writeCells : List (Except Piece (List Piece)) → List (List Piece)
  | [] => []
  | .error p :: _ => [[p]]
  | .ok ps :: rest => ps :: writeCells rest

/-- An error stands in front of other cells. -/
def Interrupted (cells : List (Except Piece (List Piece))) : Prop :=
  ∃ before p after, cells = before ++ .error p :: after ∧ after ≠ []

theorem interrupted_error : Interrupted (.error p :: rest) ↔ rest ≠ [] ∨ Interrupted rest := by
  constructor
  · rintro ⟨before, q, after, heq, hne⟩
    cases before with
    | nil =>
      cases heq
      exact .inl hne
    | cons b before =>
      cases heq
      exact .inr ⟨before, q, after, rfl, hne⟩
  · rintro (hne | ⟨before, q, after, rfl, hne⟩)
    · exact ⟨[], p, rest, rfl, hne⟩
    · exact ⟨.error p :: before, q, after, rfl, hne⟩

theorem interrupted_ok : Interrupted (.ok ps :: rest) ↔ Interrupted rest := by
  constructor
  · rintro ⟨before, q, after, heq, hne⟩
    cases before with
    | nil => cases heq
    | cons b before =>
      cases heq
      exact ⟨before, q, after, rfl, hne⟩
  · rintro ⟨before, q, after, rfl, hne⟩
    exact ⟨.ok ps :: before, q, after, rfl, hne⟩

theorem interrupted_nil : ¬ Interrupted [] := by
  rintro ⟨before, q, after, heq, -⟩
  cases before <;> cases heq

/-- All cells are written unless an error stands in front of others. -/
theorem writeCells_length_iff : ∀ {cells},
    cells.length = (writeCells cells).length ↔ ¬ Interrupted cells
  | [] => iff_of_true rfl interrupted_nil
  | .error p :: rest => by
    rw [interrupted_error]
    cases rest with
    | nil => exact iff_of_true rfl (by rintro (h | h); exacts [h rfl, interrupted_nil h])
    | cons c rest =>
      refine iff_of_false ?_ fun h => h (.inl (by simp))
      simp [writeCells]
  | .ok ps :: rest => by
    rw [interrupted_ok, ← writeCells_length_iff]
    simp [writeCells]

/-- A cell that writes one value, or one error line in its place. -/
def CellOk : Except Piece (List Piece) → Prop
  | .ok ps => Cell ps
  | .error p => (∃ v, p.leaf? = some v) ∧ p.Sane ∧ p.Fits

theorem cell_leaf (hleaf : p.leaf? = some v) (hsane : p.Sane) : Cell [p] :=
  ⟨.leaf hleaf (.nil _), fun _ hq => List.mem_singleton.mp hq ▸ hsane⟩

theorem writeCells_cell : ∀ {cells}, (∀ c ∈ cells, CellOk c) →
    ∀ ps ∈ writeCells cells, Cell ps
  | [], _, ps, hps => by cases hps
  | .error p :: rest, h, ps, hps => by
    obtain ⟨⟨v, hleaf⟩, hsane, -⟩ := h _ mem_cons_self
    rw [List.mem_singleton.mp hps]
    exact cell_leaf hleaf hsane
  | .ok qs :: rest, h, ps, hps => by
    rcases List.mem_cons.mp hps with rfl | hps
    · exact h _ mem_cons_self
    · exact writeCells_cell (fun c hc => h c (mem_cons_of_mem _ hc)) ps hps

/-- Where no error interrupts, what is written fits if the cells do. -/
theorem writeCells_fits_iff : ∀ {cells},
    (∀ c ∈ cells, CellOk c) → ¬ Interrupted cells →
    ((∀ ps ∈ writeCells cells, ∀ p ∈ ps, p.Fits) ↔ ∀ ps, .ok ps ∈ cells → ∀ p ∈ ps, p.Fits)
  | [], _, _ => by simp [writeCells]
  | .error p :: rest, h, hi => by
    obtain ⟨-, -, hfits⟩ := h _ mem_cons_self
    rw [interrupted_error] at hi
    push Not at hi
    obtain ⟨rfl, -⟩ := hi
    simp [writeCells, hfits]
  | .ok qs :: rest, h, hi => by
    have hrest := writeCells_fits_iff (fun c hc => h c (mem_cons_of_mem _ hc))
      (fun h' => hi (interrupted_ok.mpr h'))
    constructor
    · intro hall ps hps
      rcases List.mem_cons.mp hps with heq | hps
      · cases heq
        exact hall _ mem_cons_self
      · exact hrest.mp (fun ps' hps' => hall ps' (mem_cons_of_mem _ hps')) ps hps
    · intro hall ps hps
      rcases List.mem_cons.mp hps with rfl | hps
      · exact hall _ mem_cons_self
      · exact hrest.mpr (fun ps' hps' => hall ps' (mem_cons_of_mem _ hps')) ps hps

theorem oneValue_cells_iff (isDouble : Bytes → Bool) {cells : List (Except Piece (List Piece))}
    (hok : ∀ c ∈ cells, CellOk c) :
    OneValue isDouble (.header cells.length :: (writeCells cells).flatten) ↔
      ¬ Interrupted cells ∧ cells.length ≤ respMaxArrayLen ∧
        ∀ ps, .ok ps ∈ cells → ∀ p ∈ ps, p.Fits := by
  rw [oneValue_array_iff isDouble _ (writeCells_cell hok), writeCells_length_iff]
  exact and_congr_right fun hi => and_congr_right fun _ => writeCells_fits_iff hok hi

end Ddup.Resp
