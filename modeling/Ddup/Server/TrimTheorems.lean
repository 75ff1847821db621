/-
Ddup.Server.TrimTheorems — XADD with a trim option.

The parser of a trim option takes whatever two arguments follow the threshold for LIMIT and
its number. In XADD an id and fields follow, so the option works with a LIMIT only.
-/
import Ddup.Server.StreamCounterTheorems
import Mathlib.Data.List.TakeWhile

namespace Ddup.Server

open Ddup.Resp Ddup.Command Ddup.Store

def xaddStream (argv : List RespValue) (now : Nat) (s : StreamObj) : Except RespValue StreamObj :=
  (xaddArgs argv).bind fun a => (xaddEntry a now s).map (·.2.2)

theorem removeFront_entries (s : StreamObj) (n : Nat) :
    (removeFront s n).entries = s.entries.drop n := by
  unfold removeFront
  cases h : (s.entries.take n).getLast? with
  | none =>
    have hnil := List.getLast?_eq_none_iff.mp h
    exact (List.append_cancel_left ((List.take_append_drop n _).trans (by rw [hnil]; rfl))).symm
  | some e => exact congrArg (List.drop n) (updateDeleted_entries s e)

inductive TrimBound
  | maxlen (n : Nat)
  | minid (ms seq : Nat)

namespace TrimBound

def word : TrimBound → Bytes
  | maxlen _ => text "MAXLEN"
  | minid .. => text "MINID"

def Written (v : RespValue) : TrimBound → Prop
  | maxlen n => (argStr v).bind parseU64 = some n
  | minid ms seq => (argStr v).bind streamParseFullId = some (ms, seq)

def trim : TrimBound → Nat → Trim
  | maxlen n => .maxlen n
  | minid ms seq => .minid ms seq

def Obeyed (l : List StreamEntry) : TrimBound → Prop
  | maxlen n => l.length ≤ n
  | minid ms seq => ∀ e ∈ l, ¬ idLt e.ms e.seq (.ofNat ms) (.ofNat seq)

end TrimBound

/-- XADD of a valid entry to `s` with a trim option: its word, the threshold behind `=`, `~` or
nothing, and LIMIT with a number or nothing. -/
structure TrimAdd (now : Nat) (s : StreamObj) where
  key : Bytes
  key_ok : key.length ≤ uint32Max
  bound : TrimBound
  word : RespValue
  word_ok : isOption bound.word word = true
  words : List RespValue
  threshold : RespValue
  words_ok : ∀ rest, dropApprox (words ++ rest) = threshold :: rest
  threshold_ok : bound.Written threshold
  limit : Option (RespValue × RespValue × Nat)
  limit_ok : ∀ l ∈ limit, isOption (text "LIMIT") l.1 = true ∧
    (argStr l.2.1).bind parseU64 = some l.2.2
  id : Bytes
  fields : List RespValue
  fields_ok : fields ≠ [] ∧ fields.length % 2 = 0
  entry : StreamEntry
  id_ok : streamParseXaddId s now id = .ok (entry.ms, entry.seq)
  entry_ok : fieldPairs fields = some entry.fields
  body : StreamObj
  body_ok : objStreamAppend s entry = some body

namespace TrimAdd

variable {now : Nat} {s : StreamObj} (r : TrimAdd now s)

def tail : List RespValue :=
  (match r.limit with
    | none => []
    | some l => [l.1, l.2.1]) ++ bulk r.id :: r.fields

def argv : List RespValue := bulk (text "XADD") :: bulk r.key :: r.word :: (r.words ++ r.tail)

/-- The command goes through, and what is left are the old entries and the new one without
some of the first: so many that the rest obeys the threshold, or no more than LIMIT says. -/
def Trims : Prop :=
  ∃ s' n, xaddStream r.argv now s = .ok s' ∧ s'.entries = (s.entries ++ [r.entry]).drop n ∧
    match r.limit with
    | none => r.bound.Obeyed s'.entries
    | some l => n ≤ l.2.2

/-- A valid id is `*` or contains a dash, so it is none of the words. -/
theorem id_not_word {w : Bytes} (hstar : 42 ∉ w.map upper) (hdash : 45 ∉ w.map upper) :
    isOption w (bulk r.id) = false := by
  by_contra hword
  have heq : r.id.map upper = w.map upper := eq_of_beq (Bool.not_eq_false _ ▸ hword)
  have hleft : r.id.takeWhile (· ≠ 45) = r.id := by
    rw [List.takeWhile_eq_self_iff]
    intro c hc
    refine decide_eq_true fun h => hdash ?_
    rw [← heq]
    exact List.mem_map.mpr ⟨c, hc, by rw [h]; rfl⟩
  have hnone : streamParseFullId r.id = none := by
    simp only [streamParseFullId, hleft]
    exact if_pos (by omega)
  have hid := r.id_ok
  simp only [streamParseXaddId, hleft, hnone] at hid
  rw [if_neg fun h => by rw [h] at heq; exact hstar (heq ▸ by decide), if_neg (by simp)] at hid
  cases hid

theorem xaddOptions_eq : xaddOptions r.argv.length (r.argv.drop 2) false none =
    match r.limit with
    | none => .error errSyntax
    | some l => .ok (false, some (r.bound.trim l.2.2), bulk r.id :: r.fields) := by
  have hid {w : Bytes} := r.id_not_word (w := w)
  have hlimit : trimLimit r.tail = match r.limit with
      | none => .error errSyntax
      | some l => .ok (l.2.2, bulk r.id :: r.fields) := by
    unfold tail
    cases hl : r.limit with
    | none =>
      obtain ⟨f, fields, hf⟩ := List.exists_cons_of_ne_nil r.fields_ok.1
      rw [hf]
      exact if_neg (by rw [hid (by decide) (by decide)]; simp)
    | some l =>
      obtain ⟨hword, hnumber⟩ := r.limit_ok l hl
      simp [trimLimit, hword, hnumber]
  have hword (w : Bytes) : isOption w r.word = ciEqual r.bound.word w := by
    obtain ⟨b, hb, hw⟩ := (Option.any_eq_true _ _).mp r.word_ok
    rw [isOption, hb, Option.any_some, ciEqual, ciEqual, eq_of_beq hw]
  have hparse : streamParseTrim (ciEqual r.bound.word (text "MAXLEN")) (r.words ++ r.tail)
      = (trimLimit r.tail).map fun x => (r.bound.trim x.1, x.2) := by
    have hbound := r.threshold_ok
    rw [streamParseTrim, r.words_ok]
    cases hb : r.bound with
    | maxlen n | minid ms seq =>
      rw [hb] at hbound
      dsimp only [TrimBound.Written] at hbound ⊢
      rw [hbound]
      rfl
  show xaddOptions (_ + 2) (r.word :: (r.words ++ r.tail)) false none = _
  rw [xaddOptions, hword, hword, hword, if_neg (by cases r.bound <;> exact Bool.false_ne_true),
    if_pos (by cases r.bound <;> rfl), hparse, hlimit]
  cases r.limit with
  | none => rfl
  | some l =>
    dsimp only [Except.map]
    rw [xaddOptions, hid (by decide) (by decide), hid (by decide) (by decide),
      hid (by decide) (by decide)]
    rfl

/-- XADD with a trim option does what it should exactly if LIMIT is given: without it, the
parser takes the id for LIMIT. -/
theorem trims_iff : r.Trims ↔ r.limit.isSome = true := by
  have hargs : xaddArgs r.argv = match r.limit with
      | none => .error errSyntax
      | some l => .ok ⟨r.key, false, some (r.bound.trim l.2.2), r.id, r.fields⟩ := by
    have hpos := List.length_pos_iff.mpr r.fields_ok.1
    have heven := r.fields_ok.2
    have hlen : ¬ r.argv.length < 5 := by
      simp only [argv, tail, List.length_cons, List.length_append]
      omega
    rw [xaddArgs, if_neg hlen, r.xaddOptions_eq]
    show (if uint32Max < r.key.length then _ else _) = _
    rw [if_neg (Nat.not_lt.mpr r.key_ok)]
    cases r.limit with
    | none => rfl
    | some l => exact if_neg (by omega)
  unfold Trims xaddStream
  rw [hargs]
  cases hl : r.limit with
  | none => simp [Except.bind]
  | some l =>
    have hcount : trimCount r.body (r.bound.trim l.2.2) ≤ l.2.2 := by
      cases r.bound <;> exact Nat.min_le_left _ _
    refine iff_of_true ⟨streamTrim r.body (r.bound.trim l.2.2), _, ?_, ?_, hcount⟩ rfl
    · simp [Except.bind, xaddEntry, r.id_ok, r.entry_ok, r.body_ok, Except.map]
    · rw [streamTrim_eq, removeFront_entries, (objStreamAppend_some r.body_ok).2]

end TrimAdd

def plainTrim : TrimAdd 0 objStreamNew where
  key := text "k"
  key_ok := by decide
  bound := .maxlen 1
  word := bulk (text "MAXLEN")
  word_ok := rfl
  words := [bulk (text "1")]
  threshold := bulk (text "1")
  words_ok := fun _ => rfl
  threshold_ok := rfl
  limit := none
  limit_ok := by simp
  id := text "0-1"
  fields := [bulk (text "f"), bulk (text "v")]
  fields_ok := by decide
  entry := ⟨0, 1, [(text "f", text "v")]⟩
  id_ok := rfl
  entry_ok := rfl
  body := _
  body_ok := rfl

/-- It is refused. -/
theorem plainTrim_refused : ¬ plainTrim.Trims := by
  rintro ⟨s', n, h, -⟩
  have herror : xaddStream plainTrim.argv 0 objStreamNew = .error errSyntax := rfl
  cases herror.symm.trans h

end Ddup.Server
