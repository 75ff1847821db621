/-
Ddup.Resp.StreamTheorems — `resp_parse` on a stream that arrives in pieces.

A value that is complete is read the same whatever follows it. A refusal is final with
one exception, which the inline loop over the bulk children of an array makes: at the
deepest level it leaves the depth check to `parse_at`, which checks the depth before it
looks whether there is any input. So an array at that level that is cut between two of
its children is refused, although the missing bulks would be accepted if they were
there. `CutOff` is that place.
-/
import Ddup.Resp.ParserTheorems

namespace Ddup.Resp

open Ddup.Lib

variable {d : Nat} {p : Bytes}

/-! ## Lines and blobs refuse for good -/

section Leaves

variable {c : UInt8}

theorem parseLine_fails : Fails c parseLine (fun _ => False) := by
  refine Fails.never fun inp hfail => ?_
  unfold parseLine at hfail
  split at hfail <;> cases hfail

theorem parseLength_fails : Fails c parseLength (fun _ => False) := by
  refine Fails.andThen_final parseLine_recognises parseLine_fails fun l => ?_
  cases parseBulkLen l with
  | none => exact Fails.always
  | some len => exact Fails.done _

theorem parseLineAs_fails (read : Bytes → Option RespValue) :
    Fails c (parseLineAs read) (fun _ => False) := by
  refine Fails.andThen_final parseLine_recognises parseLine_fails fun l => ?_
  cases read l with
  | none => exact Fails.always
  | some v => exact Fails.done _

theorem parsePayload_fails (n : Nat) : Fails c (parsePayload n) (fun _ => False) where
  early _ := False.elim
  final inp hfail := by
    refine Or.inr fun more => ?_
    unfold parsePayload at hfail ⊢
    split_ifs at hfail with hshort hend
    have hlong : ¬(inp ++ more).length < n + 2 := by
      rw [List.length_append]
      omega
    have hsame : ((inp ++ more).drop n).take 2 = (inp.drop n).take 2 := by
      rw [List.drop_append_of_le_length (by omega), List.take_append_of_le_length]
      rw [List.length_drop]
      omega
    rw [if_neg hlong, hsame, if_neg hend]

theorem parseBlob_fails : Fails c parseBlob (fun _ => False) := by
  refine Fails.andThen_final parseLength_recognises parseLength_fails fun len => ?_
  cases len with
  | none => exact Fails.done _
  | some n => exact (parsePayload_fails n).map some

theorem parseBulk_fails : Fails c parseBulk (fun _ => False) := parseBlob_fails.map bulkOf

theorem parseBlobAs_fails (wrap : RespStr → RespValue) :
    Fails c (parseBlobAs wrap) (fun _ => False) := by
  refine Fails.andThen_final parseBlob_recognises parseBlob_fails fun b => ?_
  cases b with
  | none => exact Fails.always
  | some b => exact Fails.done _

end Leaves

/-! ## Aggregates -/

/-- What follows the type byte of an aggregate ends before one of its children: the
count, as many bytes as the count asks for, and fewer children than announced. -/
def CutBody (R : RespValue → Bytes → Prop) (E : Bytes → Prop) (tag : Tag) (w : Bytes) : Prop :=
  ∃ n vs x u rest, w = x ++ (u ++ rest) ∧ LengthText (some n) x ∧
    (tag = .map → n ≤ respMaxArrayLen / 2) ∧ slotsOf tag n ≤ (u ++ rest).length / 3 ∧
    Each R vs u ∧ vs.length < slotsOf tag n ∧ E rest

/-- What follows a type byte ends too early with `d` levels left below it, where `R` and
`E` are the texts of the children and the places where a child ends too early. At the
last level an array has no child to end too early, but an end of input there will do. -/
def CutTail (d : Nat) (R : RespValue → Bytes → Prop) (E : Bytes → Prop) (tag : Tag) (w : Bytes) :
    Prop :=
  (tag = .array ∧ CutBody (fun v u => BulkText v u ∨ R v u)
    (fun rest => (d = 0 ∧ rest = []) ∨ E rest) tag w) ∨
  ((tag = .map ∨ tag = .set ∨ tag = .push) ∧ CutBody R E tag w)

/-- The input ends between two children of an array at the last level. -/
def CutOff (isDouble : Bytes → Bool) : Nat → Bytes → Prop
  | 0, _ => False
  | d + 1, inp => ∃ tag w, inp = tag.byte :: w ∧
      CutTail d (Encodes isDouble d) (CutOff isDouble d) tag w

/-- An aggregate refuses too early where its children do. -/
theorem parseAggregate_fails {c : UInt8} (tag : Tag) {items : Nat → Parse (List RespValue)}
    {R : RespValue → Bytes → Prop} {E : Bytes → Prop} (hitems : ∀ n, Fails c (items n)
      (fun inp => ∃ vs u rest, inp = u ++ rest ∧ Each R vs u ∧ vs.length < n ∧ E rest)) :
    Fails c (parseAggregate tag items) (CutBody R E tag) := by
  refine (Fails.andThen parseLength_recognises parseLength_fails
    (F := fun len cur => ∃ n, len = some n ∧ (tag = .map → n ≤ respMaxArrayLen / 2) ∧
      slotsOf tag n ≤ cur.length / 3 ∧ ∃ vs u rest, cur = u ++ rest ∧ Each R vs u ∧
        vs.length < slotsOf tag n ∧ E rest) fun len => ?_).congr fun w => ?_
  · cases len with
    | none =>
      by_cases htag : tag = .array
      · simp only [if_pos htag]
        exact (Fails.done (RespValue.array [] true)).congr fun inp => by simp
      · simp only [if_neg htag]
        exact Fails.always.congr fun inp => by simp
    | some n =>
      by_cases hmap : tag = .map ∧ respMaxArrayLen / 2 < n
      · simp only [if_pos hmap]
        refine Fails.always.congr fun inp => ?_
        constructor
        · exact False.elim
        rintro ⟨m, hm, hle, -⟩
        cases hm
        exact absurd (hle hmap.1) (Nat.not_le.mpr hmap.2)
      simp only [if_neg hmap]
      have hguarded := ((hitems (slotsOf tag n)).map (aggregateOf tag)).guard
        (s := fun k => k / 3 < slotsOf tag n) fun k k' hle hshort => by omega
      refine hguarded.congr fun inp => ?_
      constructor
      · rintro ⟨hroom, hcut⟩
        exact ⟨n, rfl, fun ht => Nat.not_lt.mp fun hlt => hmap ⟨ht, hlt⟩, Nat.not_lt.mp hroom, hcut⟩
      rintro ⟨m, hm, -, hroom, hcut⟩
      cases hm
      exact ⟨Nat.not_lt.mpr hroom, hcut⟩
  · constructor
    · rintro (hfalse | ⟨_, x, _, rfl, hlen, n, rfl, hmap, hroom, vs, u, rest, rfl, hcut⟩)
      · exact hfalse.elim
      · exact ⟨n, vs, x, u, rest, rfl, hlen, hmap, hroom, hcut⟩
    · rintro ⟨n, vs, x, u, rest, rfl, hlen, hmap, hroom, hcut⟩
      exact Or.inr ⟨some n, x, u ++ rest, rfl, hlen, n, rfl, hmap, hroom, vs, u, rest, rfl, hcut⟩

/-- A child of an array is refused too early at the last level, where nothing is left
to see whether it is a bulk. -/
theorem parseArrayChild_fails {isDouble : Bytes → Bool}
    (h : Fails Tag.bulkString.byte (parseAt isDouble d) (CutOff isDouble d)) :
    Fails Tag.bulkString.byte (parseArrayChild (parseAt isDouble d))
      (fun rest => (d = 0 ∧ rest = []) ∨ CutOff isDouble d rest) := by
  cases d with
  | zero =>
    constructor
    · rintro inp (⟨-, rfl⟩ | hfalse)
      · exact ⟨rfl, rfl⟩
      · exact hfalse.elim
    intro inp hfail
    cases inp with
    | nil => exact Or.inl (Or.inl ⟨rfl, rfl⟩)
    | cons x inp =>
      refine Or.inr fun more => ?_
      unfold parseArrayChild at hfail ⊢
      rw [List.cons_append, List.head?_cons]
      rw [List.head?_cons] at hfail
      split_ifs at hfail ⊢ with hbulk
      · exact ((parseBulk_fails (c := Tag.bulkString.byte)).final inp hfail).resolve_left id more
      · rfl
  | succ d =>
    have hsame : parseArrayChild (parseAt isDouble (d + 1)) = parseAt isDouble (d + 1) := by
      funext inp
      cases inp with
      | nil => rfl
      | cons x inp =>
        unfold parseArrayChild
        split_ifs with hbulk
        · cases hbulk
          rfl
        · rfl
    rw [hsame]
    exact h.congr fun inp => by simp

/-- The parser refuses too early exactly where the input is cut off at the last level. -/
theorem parseAt_fails (isDouble : Bytes → Bool) (d : Nat) :
    Fails Tag.bulkString.byte (parseAt isDouble d) (CutOff isDouble d) := by
  induction d with
  | zero => exact Fails.always
  | succ d ih =>
    have hchild := parseAt_recognises isDouble d
    have harray n : Fails Tag.bulkString.byte (parseArrayItems (parseAt isDouble d) n)
        (fun inp => ∃ vs u rest, inp = u ++ rest ∧
          Each (fun v u => BulkText v u ∨ Encodes isDouble d v u) vs u ∧ vs.length < n ∧
          ((d = 0 ∧ rest = []) ∨ CutOff isDouble d rest)) := by
      rw [parseArrayItems_parseAt]
      exact Fails.repeatN (parseArrayChild_recognises hchild) (parseArrayChild_fails ih) n
    have hagg tag : Fails Tag.bulkString.byte
        (parseAggregate tag (repeatN (parseAt isDouble d)))
        (CutBody (Encodes isDouble d) (CutOff isDouble d) tag) :=
      parseAggregate_fails tag (Fails.repeatN hchild ih)
    have hbody tag : Fails Tag.bulkString.byte
        (parseBody isDouble (parseAt isDouble d) tag)
        (CutTail d (Encodes isDouble d) (CutOff isDouble d) tag) := by
      have hline (t : Tag) (ht : t ≠ .array ∧ t ≠ .map ∧ t ≠ .set ∧ t ≠ .push) :
          Fails Tag.bulkString.byte (parseLineAs (readLine isDouble t))
            (CutTail d (Encodes isDouble d) (CutOff isDouble d) t) :=
        (parseLineAs_fails _).congr fun w => by simp [CutTail, ht]
      cases tag with
      | array => exact (parseAggregate_fails .array harray).congr fun w => by simp [CutTail]
      | map => exact (hagg .map).congr fun w => by simp [CutTail]
      | set => exact (hagg .set).congr fun w => by simp [CutTail]
      | push => exact (hagg .push).congr fun w => by simp [CutTail]
      | bulkString => exact parseBulk_fails.congr fun w => by simp [CutTail]
      | blobError => exact (parseBlobAs_fails .blobError).congr fun w => by simp [CutTail]
      | verbatimString => exact (parseBlobAs_fails .verbatimString).congr fun w => by simp [CutTail]
      | simpleString => exact hline .simpleString (by decide)
      | error => exact hline .error (by decide)
      | integer => exact hline .integer (by decide)
      | null => exact hline .null (by decide)
      | boolean => exact hline .boolean (by decide)
      | double => exact hline .double (by decide)
      | bigNumber => exact hline .bigNumber (by decide)
    refine (Fails.cons (F := fun c w => ∃ tag, c = tag.byte ∧
        CutTail d (Encodes isDouble d) (CutOff isDouble d) tag w)
      (fun c => ?_) (fun h => by cases h) (fun _ _ => rfl)).congr fun inp => ?_
    · cases htag : tagOf c with
      | none =>
        simp only [parseAt, htag]
        refine Fails.always.congr fun w => ?_
        constructor
        · exact False.elim
        rintro ⟨tag, rfl, -⟩
        rw [tagOf_eq_some.mpr rfl] at htag
        cases htag
      | some tag =>
        simp only [parseAt, htag]
        refine (hbody tag).congr fun w => ?_
        constructor
        · intro h
          exact ⟨tag, tagOf_eq_some.mp htag, h⟩
        rintro ⟨tag', hc', h⟩
        rw [tagOf_eq_some.mpr hc'] at htag
        cases htag
        exact h
    · constructor
      · rintro ⟨_, w, rfl, tag, rfl, h⟩
        exact ⟨tag, w, rfl, h⟩
      · rintro ⟨tag, w, rfl, h⟩
        exact ⟨_, w, rfl, tag, rfl, h⟩

/-! ## Streams -/

section Streams

variable (isDouble : Bytes → Bool)

/-- The answer on `p` is binding whatever follows: the same value and the same number of
bytes, and an error stays an error. -/
def AnswerBinding (p : Bytes) : Prop :=
  ∀ q, (∀ v rest, respParse isDouble p = .done v rest →
      0 < respReturn isDouble p ∧ respParse isDouble (p ++ q) = .done v (rest ++ q) ∧
      respReturn isDouble (p ++ q) = respReturn isDouble p) ∧
    (respReturn isDouble p = -1 → respReturn isDouble (p ++ q) = -1)

/-- At every chunk, whatever comes next: reading the chunks as they come gives the
values, the bytes consumed and the error that the whole gives. -/
def ChunksBinding (chunks : List Bytes) : Prop :=
  ∀ pre, pre <+: chunks → ∀ next,
    feedAll (respParse isDouble) (pre ++ [next]) = drain (respParse isDouble) (pre.flatten ++ next)

variable {isDouble}

theorem respReturn_eq_neg_one : respReturn isDouble p = -1 ↔ respParse isDouble p = .failed := by
  unfold respReturn
  cases hp : respParse isDouble p with
  | done v rest =>
    obtain ⟨used, rfl, -⟩ := (parseAt_recognises isDouble _ _ _ _).mp hp
    simp only [List.length_append, reduceCtorEq, iff_false]
    omega
  | incomplete | failed => simp

theorem encodes_ne_nil (v : RespValue) (u : Bytes) (h : Encodes isDouble d v u) : u ≠ [] := by
  rintro rfl
  exact absurd h.three_le (by decide)

theorem answerBinding_iff (p : Bytes) :
    AnswerBinding isDouble p ↔ ¬CutOff isDouble (respMaxDepth + 1) p := by
  have hfails := parseAt_fails isDouble (respMaxDepth + 1)
  constructor
  · intro hbinding hcut
    obtain ⟨hnow, hwait⟩ := hfails.early p hcut
    have hlater := (hbinding [Tag.bulkString.byte]).2 (respReturn_eq_neg_one.mpr hnow)
    rw [respReturn_eq_neg_one] at hlater
    exact absurd (hlater.symm.trans hwait) nofun
  intro hcut q
  constructor
  · intro v rest hdone
    obtain ⟨used, rfl, henc⟩ := (parseAt_recognises isDouble _ _ _ _).mp hdone
    have hlen := henc.three_le
    have hmore : respParse isDouble (used ++ rest ++ q) = .done v (rest ++ q) := by
      rw [List.append_assoc]
      exact (parseAt_recognises isDouble _).apply_append henc _
    refine ⟨?_, hmore, ?_⟩
    · simp only [respReturn, hdone, List.length_append]
      omega
    · simp only [respReturn, hdone, hmore, List.length_append]
      omega
  · intro hfail
    rw [respReturn_eq_neg_one] at hfail ⊢
    exact (hfails.final p hfail).resolve_left hcut q

theorem chunksBinding_iff (chunks : List Bytes) :
    ChunksBinding isDouble chunks ↔ ∀ pre, pre <+: chunks →
      ¬CutAfter (Encodes isDouble (respMaxDepth + 1)) (CutOff isDouble (respMaxDepth + 1))
        pre.flatten :=
  feedAll_iff (parseAt_recognises isDouble _) (fun v u h => encodes_ne_nil v u h)
    (parseAt_fails isDouble _) chunks

/-- An answer is binding, and reading in chunks is reading in one piece, exactly as
long as the input so far does not end between two children of an array at the deepest
level. -/
theorem resp_stream_consistent_iff (isDouble : Bytes → Bool) :
    (∀ p, AnswerBinding isDouble p ↔ ¬CutOff isDouble (respMaxDepth + 1) p) ∧
      ∀ chunks, ChunksBinding isDouble chunks ↔ ∀ pre, pre <+: chunks →
        ¬CutAfter (Encodes isDouble (respMaxDepth + 1)) (CutOff isDouble (respMaxDepth + 1))
          pre.flatten :=
  ⟨answerBinding_iff, chunksBinding_iff⟩

def nested : Nat → Bytes → Bytes
  | 0, p => p
  | n + 1, p => text "*1\r\n" ++ nested n p

theorem cutOff_nested (hcut : CutOff isDouble d p) (hlen : 3 ≤ p.length)
    (n : Nat) : CutOff isDouble (d + n) (nested n p) ∧ 3 ≤ (nested n p).length := by
  induction n with
  | zero => exact ⟨hcut, hlen⟩
  | succ n ih =>
    have hlength : LengthText (some 1) (text "1\r\n") := ⟨[49], by decide, by decide⟩
    refine ⟨⟨.array, text "1\r\n" ++ nested n p, rfl, Or.inl ⟨rfl, 1, [], _, [], nested n p, rfl,
      hlength, nofun, ?_, .nil, Nat.one_pos, Or.inr ih.1⟩⟩, ?_⟩
    · have hslots : slotsOf .array 1 = 1 := rfl
      rw [List.nil_append]
      omega
    · have hlong := ih.2
      rw [nested, List.length_append]
      omega

/-- Two children announced at the last level, one there: refused, but with the first
byte of the second the parser waits. -/
theorem deep_array_cut :
    respReturn (fun _ => false) (nested 512 (text "*2\r\n$0\r\n\r\n")) = -1 ∧
      respReturn (fun _ => false) (nested 512 (text "*2\r\n$0\r\n\r\n") ++ text "$") = 0 := by
  have hlength : LengthText (some 2) (text "2\r\n") := ⟨[50], by decide, by decide⟩
  have hbulk : BulkText (bulk []) (text "$0\r\n\r\n") :=
    ⟨some [], text "0\r\n\r\n", rfl, by decide, [48], by decide, by decide⟩
  have hlast : CutOff (fun _ => false) 1 (text "*2\r\n$0\r\n\r\n") := by
    refine ⟨.array, text "2\r\n" ++ (text "$0\r\n\r\n" ++ []), by decide, Or.inl ⟨rfl, 2,
      [bulk []], _, _, [], rfl, hlength, nofun, by decide, ?_, by decide, Or.inl ⟨rfl, rfl⟩⟩⟩
    exact .cons (u := text "$0\r\n\r\n") (Or.inl hbulk) .nil
  obtain ⟨hcut, -⟩ := cutOff_nested hlast (by decide) 512
  obtain ⟨hnow, hwait⟩ := (parseAt_fails (fun _ => false) (respMaxDepth + 1)).early _ hcut
  have hdollar : text "$" = [Tag.bulkString.byte] := by decide
  refine ⟨respReturn_eq_neg_one.mpr hnow, ?_⟩
  unfold respReturn respParse
  rw [hdollar, hwait]

end Streams

end Ddup.Resp
