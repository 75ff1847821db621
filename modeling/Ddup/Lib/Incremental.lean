/-
Ddup.Lib.Incremental — parsers over a receive buffer that may hold less than one
value.

A parser reads one value from the front of the buffer and leaves the rest, asks for
more bytes, or gives up. `Recognises p R` says what it reads: a value `v` off the
front exactly when a prefix that stands in relation `R` to `v` is there, whatever
follows it. So a parser that recognises a relation neither looks past what it
consumes nor changes its mind when more bytes arrive. The rules below derive it for
a parser from its parts.
-/
import Mathlib.Data.List.Basic
import Mathlib.Tactic

namespace Ddup.Lib

open List (append_assoc length_append)

/-- The answer of a parser: a value and what is left, not enough input yet, or input
that no continuation makes valid. -/
inductive Parsed (β α : Type)
  | done (value : α) (rest : List β)
  | incomplete
  | failed
deriving DecidableEq

variable {β α γ : Type}

namespace Parsed

def andThen : Parsed β α → (α → List β → Parsed β γ) → Parsed β γ
  | .done v rest, f => f v rest
  | .incomplete, _ => .incomplete
  | .failed, _ => .failed

def map (f : α → γ) : Parsed β α → Parsed β γ
  | .done v rest => .done (f v) rest
  | .incomplete => .incomplete
  | .failed => .failed

theorem andThen_eq_done {r : Parsed β α} {f : α → List β → Parsed β γ} {w : γ} {rest : List β} :
    r.andThen f = .done w rest ↔ ∃ v mid, r = .done v mid ∧ f v mid = .done w rest := by
  cases r <;> simp [andThen]

theorem map_eq_done {r : Parsed β α} {f : α → γ} {w : γ} {rest : List β} :
    r.map f = .done w rest ↔ ∃ v, r = .done v rest ∧ f v = w := by
  cases r <;> simp [map, and_comm]

end Parsed

def repeatN (p : List β → Parsed β α) : Nat → List β → Parsed β (List α)
  | 0, inp => .done [] inp
  | n + 1, inp => (p inp).andThen fun v rest => (repeatN p n rest).map (v :: ·)

/-! ## Recognition -/

/-- The parser reads `v` off the front exactly when a text of `v` is there. -/
def Recognises (p : List β → Parsed β α) (R : α → List β → Prop) : Prop :=
  ∀ inp v rest, p inp = .done v rest ↔ ∃ used, inp = used ++ rest ∧ R v used

inductive Each (R : α → List β → Prop) : List α → List β → Prop
  | nil : Each R [] []
  | cons {v : α} {vs : List α} {u us : List β} (head : R v u) (tail : Each R vs us) :
      Each R (v :: vs) (u ++ us)

theorem Each.length_le {R : α → List β → Prop} {k : Nat} (hk : ∀ v u, R v u → k ≤ u.length)
    {vs : List α} {us : List β} (h : Each R vs us) : k * vs.length ≤ us.length := by
  induction h with
  | nil => simp
  | cons head tail ih =>
    have hhead := hk _ _ head
    simp only [List.length_cons, length_append, Nat.mul_add]
    omega

theorem Each.imp {R S : α → List β → Prop} {vs : List α} {us : List β} (h : Each R vs us)
    (himp : ∀ v ∈ vs, ∀ u, R v u → S v u) : Each S vs us := by
  induction h with
  | nil => exact .nil
  | cons head tail ih =>
    refine .cons (himp _ List.mem_cons_self _ head) (ih ?_)
    intro v hv u hu
    exact himp v (List.mem_cons_of_mem _ hv) u hu

/-- An additive measure that agrees on the parts agrees on the whole. -/
theorem Each.measure_eq {R S : α → List β → Prop} {m : List β → Nat}
    (hadd : ∀ a b, m (a ++ b) = m a + m b) {vs : List α} {us ws : List β} (hR : Each R vs us)
    (hS : Each S vs ws) (heq : ∀ v ∈ vs, ∀ u w, R v u → S v w → m u = m w) : m us = m ws := by
  induction hR generalizing ws with
  | nil =>
    cases hS
    rfl
  | cons head tail ih =>
    cases hS with
    | cons head' tail' =>
      rw [hadd, hadd, heq _ List.mem_cons_self _ _ head head',
        ih tail' fun v hv => heq v (List.mem_cons_of_mem _ hv)]

namespace Recognises

variable {p : List β → Parsed β α} {R : α → List β → Prop}

theorem apply_append (h : Recognises p R) {v : α} {u : List β} (hu : R v u) (more : List β) :
    p (u ++ more) = .done v more :=
  (h _ _ _).mpr ⟨u, rfl, hu⟩

theorem congr (h : Recognises p R) {S : α → List β → Prop} (hiff : ∀ v u, R v u ↔ S v u) :
    Recognises p S := by
  intro inp v rest
  simp only [h inp v rest, hiff]

theorem done (v : α) : Recognises (fun inp : List β => .done v inp) (fun w u => w = v ∧ u = []) := by
  intro inp w rest
  constructor
  · intro h
    cases h
    exact ⟨[], rfl, rfl, rfl⟩
  · rintro ⟨used, rfl, rfl, rfl⟩
    rfl

theorem failed : Recognises (fun _ : List β => (.failed : Parsed β α)) (fun _ _ => False) := by
  intro inp v rest
  constructor
  · intro h
    cases h
  · rintro ⟨_, _, hfalse⟩
    exact hfalse.elim

theorem map (h : Recognises p R) (f : α → γ) :
    Recognises (fun inp => (p inp).map f) (fun w u => ∃ v, f v = w ∧ R v u) := by
  intro inp w rest
  rw [Parsed.map_eq_done]
  constructor
  · rintro ⟨v, hv, rfl⟩
    obtain ⟨used, rfl, hu⟩ := (h _ _ _).mp hv
    exact ⟨used, rfl, v, rfl, hu⟩
  · rintro ⟨used, rfl, v, rfl, hu⟩
    exact ⟨v, h.apply_append hu rest, rfl⟩

theorem andThen (h : Recognises p R) {f : α → List β → Parsed β γ} {S : α → γ → List β → Prop}
    (hf : ∀ v, Recognises (f v) (S v)) :
    Recognises (fun inp => (p inp).andThen f)
      (fun w u => ∃ v x y, u = x ++ y ∧ R v x ∧ S v w y) := by
  intro inp w rest
  rw [Parsed.andThen_eq_done]
  constructor
  · rintro ⟨v, mid, hv, hw⟩
    obtain ⟨x, rfl, hx⟩ := (h _ _ _).mp hv
    obtain ⟨y, rfl, hy⟩ := (hf v _ _ _).mp hw
    exact ⟨x ++ y, by rw [append_assoc], v, x, y, rfl, hx, hy⟩
  · rintro ⟨_, rfl, v, x, y, rfl, hx, hy⟩
    refine ⟨v, y ++ rest, ?_, (hf v).apply_append hy rest⟩
    rw [append_assoc]
    exact h.apply_append hx _

/-- A parser that first asks for as many bytes as it is going to need. -/
theorem guard (h : Recognises p R) {s : Nat → Prop} [DecidablePred s]
    (hlong : ∀ v u, R v u → ∀ k, u.length ≤ k → ¬s k) :
    Recognises (fun inp => if s inp.length then .incomplete else p inp) R := by
  intro inp v rest
  constructor
  · intro hdone
    dsimp only at hdone
    split at hdone
    · cases hdone
    · exact (h _ _ _).mp hdone
  · rintro ⟨used, rfl, hu⟩
    have hns : ¬s (used ++ rest).length := hlong v used hu _ (by simp)
    dsimp only
    rw [if_neg hns]
    exact h.apply_append hu rest

theorem cons {f : β → List β → Parsed β α} {S : β → α → List β → Prop}
    (hf : ∀ c, Recognises (f c) (S c)) {q : List β → Parsed β α}
    (hnil : ∀ v rest, q [] ≠ .done v rest) (hcons : ∀ c inp, q (c :: inp) = f c inp) :
    Recognises q (fun v u => ∃ c w, u = c :: w ∧ S c v w) := by
  intro inp v rest
  constructor
  · intro hdone
    cases inp with
    | nil => exact absurd hdone (hnil v rest)
    | cons c inp =>
      rw [hcons] at hdone
      obtain ⟨w, rfl, hw⟩ := (hf c _ _ _).mp hdone
      exact ⟨c :: w, rfl, c, w, rfl, hw⟩
  · rintro ⟨_, rfl, c, w, rfl, hw⟩
    rw [List.cons_append, hcons]
    exact (hf c).apply_append hw rest

theorem repeatN (h : Recognises p R) : ∀ n : Nat,
    Recognises (Lib.repeatN p n) (fun vs u => vs.length = n ∧ Each R vs u)
  | 0 => by
    refine (Recognises.done []).congr fun vs u => ?_
    constructor
    · rintro ⟨rfl, rfl⟩
      exact ⟨rfl, .nil⟩
    rintro ⟨hlen, heach⟩
    cases heach with
    | nil => exact ⟨rfl, rfl⟩
    | cons _ _ => cases hlen
  | n + 1 => by
    have hn := repeatN h n
    refine (h.andThen fun v => hn.map (v :: ·)).congr fun vs u => ?_
    constructor
    · rintro ⟨v, x, y, rfl, hx, vs, rfl, hlen, hy⟩
      exact ⟨congrArg (· + 1) hlen, .cons hx hy⟩
    rintro ⟨hlen, heach⟩
    cases heach with
    | nil => cases hlen
    | cons head tail => exact ⟨_, _, _, rfl, head, _, rfl, Nat.succ.inj hlen, tail⟩

end Recognises

/-! ## Failure

A parser should give up only on input that no continuation makes valid. `Fails c p E`
says where `p` does not keep to that: on the inputs in `E` it gives up although it
would wait if the byte `c` were there, too. -/

/-- The parser gives up too early on the inputs in `E` and for good on all others. -/
structure Fails (c : β) (p : List β → Parsed β α) (E : List β → Prop) : Prop where
  early : ∀ inp, E inp → p inp = .failed ∧ p (inp ++ [c]) = .incomplete
  final : ∀ inp, p inp = .failed → E inp ∨ ∀ more, p (inp ++ more) = .failed

namespace Fails

variable {c : β} {p : List β → Parsed β α} {R : α → List β → Prop} {E : List β → Prop}

theorem congr (h : Fails c p E) {F : List β → Prop} (hiff : ∀ inp, E inp ↔ F inp) :
    Fails c p F where
  early inp hF := h.early inp ((hiff inp).mpr hF)
  final inp hfail := (h.final inp hfail).imp (hiff inp).mp id

theorem never (h : ∀ inp, p inp ≠ .failed) : Fails c p (fun _ => False) where
  early _ := False.elim
  final inp hfail := absurd hfail (h inp)

theorem done (v : α) : Fails c (fun inp : List β => .done v inp) (fun _ => False) :=
  never fun _ => nofun

theorem always : Fails c (fun _ => (.failed : Parsed β α)) (fun _ => False) where
  early _ := False.elim
  final _ _ := Or.inr fun _ => rfl

theorem map (h : Fails c p E) (f : α → γ) : Fails c (fun inp => (p inp).map f) E where
  early inp hE := by
    obtain ⟨hfail, hwait⟩ := h.early inp hE
    simp only [hfail, hwait, Parsed.map, and_self]
  final inp hfail := by
    cases hp : p inp with
    | done v rest | incomplete => rw [hp] at hfail; cases hfail
    | failed =>
      refine (h.final inp hp).imp id fun hgood more => ?_
      rw [hgood more]
      rfl

theorem andThen (hR : Recognises p R) (h : Fails c p E) {f : α → List β → Parsed β γ}
    {F : α → List β → Prop} (hf : ∀ v, Fails c (f v) (F v)) :
    Fails c (fun inp => (p inp).andThen f)
      (fun inp => E inp ∨ ∃ v u rest, inp = u ++ rest ∧ R v u ∧ F v rest) where
  early inp hE := by
    rcases hE with hE | ⟨v, u, rest, rfl, hu, hF⟩
    · obtain ⟨hfail, hwait⟩ := h.early inp hE
      rw [hfail, hwait]
      exact ⟨rfl, rfl⟩
    · rw [append_assoc, hR.apply_append hu, hR.apply_append hu]
      exact (hf v).early rest hF
  final inp hfail := by
    cases hp : p inp with
    | done v rest =>
      -- the first part is read as before, so the failure is one of the second
      rw [hp] at hfail
      obtain ⟨used, rfl, hused⟩ := (hR _ _ _).mp hp
      rcases (hf v).final rest hfail with hF | hgood
      · exact Or.inl (Or.inr ⟨v, used, rest, rfl, hused, hF⟩)
      refine Or.inr fun more => ?_
      rw [append_assoc, hR.apply_append hused]
      exact hgood more
    | incomplete => rw [hp] at hfail; cases hfail
    | failed =>
      rcases h.final inp hp with hE | hgood
      · exact Or.inl (Or.inl hE)
      refine Or.inr fun more => ?_
      rw [hgood more]
      rfl

theorem andThen_final (hR : Recognises p R) (h : Fails c p (fun _ => False))
    {f : α → List β → Parsed β γ} (hf : ∀ v, Fails c (f v) (fun _ => False)) :
    Fails c (fun inp => (p inp).andThen f) (fun _ => False) :=
  (andThen hR h hf).congr fun inp => by simp

theorem guard (h : Fails c p E) {s : Nat → Prop} [DecidablePred s]
    (hs : ∀ k k', k ≤ k' → s k' → s k) :
    Fails c (fun inp => if s inp.length then .incomplete else p inp)
      (fun inp => ¬s inp.length ∧ E inp) where
  early inp hE := by
    have hlonger : ¬s (inp ++ [c]).length := fun hshort => hE.1 (hs _ _ (by simp) hshort)
    simp only [if_neg hE.1, if_neg hlonger]
    exact h.early inp hE.2
  final inp hfail := by
    split at hfail
    · cases hfail
    rename_i hlong
    refine (h.final inp hfail).imp (fun hE => ⟨hlong, hE⟩) fun hgood more => ?_
    have hlonger : ¬s (inp ++ more).length := fun hshort => hlong (hs _ _ (by simp) hshort)
    rw [if_neg hlonger]
    exact hgood more

theorem cons {f : β → List β → Parsed β α} {F : β → List β → Prop} (hf : ∀ x, Fails c (f x) (F x))
    {q : List β → Parsed β α} (hnil : q [] ≠ .failed) (hcons : ∀ x inp, q (x :: inp) = f x inp) :
    Fails c q (fun inp => ∃ x rest, inp = x :: rest ∧ F x rest) where
  early inp hE := by
    obtain ⟨x, rest, rfl, hF⟩ := hE
    rw [List.cons_append, hcons, hcons]
    exact (hf x).early rest hF
  final inp hfail := by
    cases inp with
    | nil => exact absurd hfail hnil
    | cons x inp =>
      rw [hcons] at hfail
      refine ((hf x).final inp hfail).imp (fun hF => ⟨x, inp, rfl, hF⟩) fun hgood more => ?_
      rw [List.cons_append, hcons]
      exact hgood more

theorem repeatN (hR : Recognises p R) (h : Fails c p E) : ∀ n : Nat,
    Fails c (Lib.repeatN p n)
      (fun inp => ∃ vs u rest, inp = u ++ rest ∧ Each R vs u ∧ vs.length < n ∧ E rest)
  | 0 => (never (by simp [Lib.repeatN])).congr fun inp => by simp
  | n + 1 => by
    have hn := repeatN hR h n
    refine (andThen hR h fun v => hn.map (v :: ·)).congr fun inp => ?_
    constructor
    · rintro (hE | ⟨v, u, _, rfl, hu, vs, us, rest, rfl, hus, hlen, hE⟩)
      · exact ⟨[], [], inp, rfl, .nil, Nat.succ_pos n, hE⟩
      · exact ⟨v :: vs, u ++ us, rest, (append_assoc _ _ _).symm, .cons hu hus,
          Nat.succ_lt_succ hlen, hE⟩
    rintro ⟨vs, us, rest, rfl, heach, hlen, hE⟩
    cases heach with
    | nil => exact Or.inl hE
    | cons head tail =>
      exact Or.inr ⟨_, _, _, append_assoc _ _ _, head, _, _, rest, rfl, tail,
        Nat.lt_of_succ_lt_succ hlen, hE⟩

end Fails

/-! ## Draining a buffer

A reader takes all the complete values off what has arrived and keeps the rest for the
next time. -/

/-- What a reader has made of the input so far: the values, the number of bytes they
took, and the bytes it keeps; none once the parser has given up. -/
structure Drained (β α : Type) where
  values : List α
  used : Nat
  left : Option (List β)

def Drained.after (v : α) (n : Nat) (r : Drained β α) : Drained β α :=
  ⟨v :: r.values, n + r.used, r.left⟩

def drainLoop (p : List β → Parsed β α) : Nat → List β → Drained β α
  | 0, buf => ⟨[], 0, some buf⟩
  | fuel + 1, buf =>
    match p buf with
    | .done v rest => (drainLoop p fuel rest).after v (buf.length - rest.length)
    | .incomplete => ⟨[], 0, some buf⟩
    | .failed => ⟨[], 0, none⟩

/-- Take all the complete values off the buffer; each takes a byte at least. -/
def drain (p : List β → Parsed β α) (buf : List β) : Drained β α := drainLoop p (buf.length + 1) buf

def Drained.feed (p : List β → Parsed β α) (st : Drained β α) (chunk : List β) : Drained β α :=
  match st.left with
  | none => st
  | some buf =>
    let r := drain p (buf ++ chunk)
    ⟨st.values ++ r.values, st.used + r.used, r.left⟩

section Drain

variable {p : List β → Parsed β α} {R : α → List β → Prop} {buf : List β}

theorem drainLoop_fuel (hR : Recognises p R) (hpos : ∀ v u, R v u → u ≠ []) {a b : Nat}
    (ha : buf.length < a) (hb : buf.length < b) : drainLoop p a buf = drainLoop p b buf := by
  induction a generalizing b buf with
  | zero => omega
  | succ a ih =>
    cases b with
    | zero => omega
    | succ b =>
      rw [drainLoop, drainLoop]
      cases hp : p buf with
      | incomplete => rfl
      | failed => rfl
      | done v rest =>
        obtain ⟨used, rfl, hused⟩ := (hR _ _ _).mp hp
        have hlen := List.length_pos_of_ne_nil (hpos v used hused)
        rw [length_append] at ha hb
        simp only
        rw [ih (by omega) (by omega : rest.length < b)]

theorem drain_text (hR : Recognises p R) (hpos : ∀ v u, R v u → u ≠ []) {v : α} {u : List β}
    (hu : R v u) (rest : List β) : drain p (u ++ rest) = (drain p rest).after v u.length := by
  have hlen := List.length_pos_of_ne_nil (hpos v u hu)
  have hfuel : drainLoop p (u ++ rest).length rest = drain p rest :=
    drainLoop_fuel hR hpos (by rw [length_append]; omega) (Nat.lt_succ_self _)
  unfold drain at hfuel ⊢
  rw [drainLoop, hR.apply_append hu]
  simp only
  rw [hfuel, length_append, Nat.add_sub_cancel]

theorem drain_incomplete (h : p buf = .incomplete) : drain p buf = ⟨[], 0, some buf⟩ := by
  unfold drain
  rw [drainLoop, h]

theorem drain_failed (h : p buf = .failed) : drain p buf = ⟨[], 0, none⟩ := by
  unfold drain
  rw [drainLoop, h]

/-- After complete values, the input ends where the parser gives up too early. -/
def CutAfter (R : α → List β → Prop) (E : List β → Prop) (inp : List β) : Prop :=
  ∃ vs u rest, inp = u ++ rest ∧ Each R vs u ∧ E rest

theorem CutAfter.text {E : List β → Prop} {v : α} {u rest : List β} (hu : R v u)
    (h : CutAfter R E rest) : CutAfter R E (u ++ rest) := by
  obtain ⟨vs, us, tail, rfl, heach, hE⟩ := h
  exact ⟨v :: vs, u ++ us, tail, (append_assoc _ _ _).symm, .cons hu heach, hE⟩

variable {c : β} {E : List β → Prop}

/-- Bytes that come later find the reader as if they had been there from the start,
unless it has given up too early. -/
theorem drain_append (hR : Recognises p R) (hpos : ∀ v u, R v u → u ≠ []) (hfail : Fails c p E)
    (buf chunk : List β) (hcut : ¬CutAfter R E buf) :
    (drain p buf).feed p chunk = drain p (buf ++ chunk) := by
  -- on the length of the buffer: a value at its front is there with more bytes, too
  induction hn : buf.length using Nat.strongRecOn generalizing buf with
  | _ n ih =>
    cases hp : p buf with
    | incomplete =>
      rw [drain_incomplete hp]
      simp [Drained.feed]
    | failed =>
      have hgood := (hfail.final buf hp).resolve_left fun hE => hcut ⟨[], [], buf, rfl, .nil, hE⟩
      rw [drain_failed hp, drain_failed (hgood chunk)]
      rfl
    | done v rest =>
      obtain ⟨used, rfl, hused⟩ := (hR _ _ _).mp hp
      have hlen := List.length_pos_of_ne_nil (hpos v used hused)
      have hrest := ih rest.length (by rw [← hn, length_append]; omega) rest
        (fun hcut' => hcut (hcut'.text hused)) rfl
      rw [append_assoc, drain_text hR hpos hused, drain_text hR hpos hused, ← hrest]
      generalize drain p rest = r
      obtain ⟨values, n, left⟩ := r
      cases left with
      | none => rfl
      | some left => simp only [Drained.feed, Drained.after, List.cons_append, Nat.add_assoc]

/-- A reader that has given up too early would wait, had it seen one byte more. -/
theorem drain_cut (hR : Recognises p R) (hpos : ∀ v u, R v u → u ≠ []) (hfail : Fails c p E)
    (hcut : CutAfter R E buf) : (drain p buf).left = none ∧ (drain p (buf ++ [c])).left ≠ none := by
  obtain ⟨vs, us, rest, rfl, heach, hE⟩ := hcut
  induction heach with
  | nil =>
    obtain ⟨hnow, hwait⟩ := hfail.early rest hE
    rw [List.nil_append, drain_failed hnow, drain_incomplete hwait]
    exact ⟨rfl, nofun⟩
  | cons head tail ih =>
    rw [append_assoc, append_assoc, drain_text hR hpos head, drain_text hR hpos head]
    exact ih

def feedAll (p : List β → Parsed β α) (chunks : List (List β)) : Drained β α :=
  chunks.foldl (Drained.feed p) (drain p [])

theorem feedAll_snoc (p : List β → Parsed β α) (chunks : List (List β)) (chunk : List β) :
    feedAll p (chunks ++ [chunk]) = (feedAll p chunks).feed p chunk := by
  unfold feedAll
  rw [List.foldl_append, List.foldl_cons, List.foldl_nil]

/-- Input in chunks is read as in one piece, as long as no chunk but the last ends where
the parser gives up too early. -/
theorem feedAll_eq (hR : Recognises p R) (hpos : ∀ v u, R v u → u ≠ []) (hfail : Fails c p E)
    (chunks : List (List β)) (last : List β)
    (hcut : ∀ pre, pre <+: chunks → ¬CutAfter R E pre.flatten) :
    feedAll p (chunks ++ [last]) = drain p (chunks.flatten ++ last) := by
  induction chunks using List.reverseRecOn generalizing last with
  | nil => exact drain_append hR hpos hfail [] last (hcut [] List.nil_prefix)
  | append_singleton chunks chunk ih =>
    have hbefore := ih chunk fun pre hpre => hcut pre (hpre.trans (List.prefix_append _ _))
    have hhere := hcut (chunks ++ [chunk]) List.prefix_rfl
    have hflat : (chunks ++ [chunk]).flatten = chunks.flatten ++ chunk := by simp
    rw [feedAll_snoc, hbefore, hflat]
    rw [hflat] at hhere
    exact drain_append hR hpos hfail _ last hhere

/-- Reading in chunks is reading in one piece, whatever comes next, exactly when no
chunk ends where the parser gives up too early. -/
theorem feedAll_iff (hR : Recognises p R) (hpos : ∀ v u, R v u → u ≠ []) (hfail : Fails c p E)
    (chunks : List (List β)) :
    (∀ pre, pre <+: chunks → ∀ next,
        feedAll p (pre ++ [next]) = drain p (pre.flatten ++ next)) ↔
      ∀ pre, pre <+: chunks → ¬CutAfter R E pre.flatten := by
  constructor
  · intro hsame pre hpre hcut
    obtain ⟨hbroken, hwait⟩ := drain_cut hR hpos hfail hcut
    have hpiece : feedAll p pre = drain p pre.flatten := by
      rcases List.eq_nil_or_concat' pre with rfl | ⟨pre', chunk, rfl⟩
      · rfl
      · rw [hsame pre' ((List.prefix_append _ _).trans hpre) chunk]
        simp
    -- once broken the reader stays so, but the whole input would make it wait
    have hstay : (feedAll p (pre ++ [[c]])).left = none := by
      rw [feedAll_snoc, hpiece]
      simp only [Drained.feed, hbroken]
    rw [hsame pre hpre [c]] at hstay
    exact hwait hstay
  · intro hcut pre hpre next
    exact feedAll_eq hR hpos hfail pre next fun pre' hpre' => hcut pre' (hpre'.trans hpre)

end Drain

end Ddup.Lib
