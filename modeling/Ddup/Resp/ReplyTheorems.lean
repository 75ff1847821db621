/-
Ddup.Resp.ReplyTheorems — which sequences of writer calls are one value.

`Forest d n ps` is the shape of `n` values, nested at most `d` levels deep: their
texts are read back as `n` values. Conversely a value read off the bytes of some calls
ends where a call ends, and those calls are one term in the sense of `Lib.due`. So
the arithmetic of headers and elements decides whether a reply is one value, as long
as no string or count is over the limit of the protocol.
-/
import Ddup.Resp.Reply
import Ddup.Resp.WriterTheorems

namespace Ddup.Resp

open Ddup.Lib Ddup.Command
open List (mem_cons_of_mem mem_cons_self)
open Option (bind_some map_some)

variable {v : RespValue} {ps : List Piece}
variable {f : Parse RespValue} {n w : Nat} {ok : Nat → Nat → Bool} {p : Piece} {rest s : Bytes}

/-! ## Integers -/

theorem le_digitLoop {v : Nat} (h : digitLoop ok v s = some w) : v ≤ w := by
  induction s generalizing v with
  | nil =>
    cases h
    exact Nat.le_refl _
  | cons c cs ih =>
    simp only [digitLoop, Option.bind_eq_bind] at h
    cases hd : digit? c with
    | none => rw [hd] at h; cases h
    | some d =>
      rw [hd, bind_some] at h
      split at h
      · exact (by omega : v ≤ v * 10 + d).trans (ih h)
      · cases h

/-- An overflow test that lets every number up to the value pass does not stop the loop. -/
theorem digitLoop_bounded {v : Nat} (h : digitLoop (fun _ _ => true) v s = some w)
    (hok : ∀ x d, x * 10 + d ≤ w → ok x d = true) : digitLoop ok v s = some w := by
  induction s generalizing v with
  | nil => exact h
  | cons c cs ih =>
    simp only [digitLoop, Option.bind_eq_bind] at h ⊢
    cases hd : digit? c with
    | none => rw [hd] at h; cases h
    | some d =>
      rw [hd] at h
      rw [bind_some, if_pos (hok v d (le_digitLoop h))]
      exact ih h

theorem splitSign_u64ToStr (n : Nat) : splitSign (u64ToStr n) = (false, u64ToStr n) := by
  unfold splitSign
  split
  · rename_i cs heq
    have hmem : 45 ∈ u64ToStr n := by rw [heq]; exact mem_cons_self
    exact absurd (digitLoop_digits (digitLoop_u64ToStr n) _ hmem).1 (by decide)
  · rfl

theorem digitLoop_llOk {neg : Bool} (h : n ≤ llongMax + if neg then 1 else 0) :
    (skipZeros (u64ToStr n)).length ≤ 19 ∧
      digitLoop (llOk neg (skipZeros (u64ToStr n)).length) 0 (skipZeros (u64ToStr n)) = some n := by
  have hloop : digitLoop (fun _ _ => true) 0 (skipZeros (u64ToStr n)) = some n := by
    rw [digitLoop_skipZeros, digitLoop_u64ToStr]
  have hmax : llongMax + (if neg then 1 else 0) ≤ 9223372036854775808 := by
    unfold llongMax
    cases neg <;> simp
  constructor
  · rw [skipZeros_eq hloop, List.length_map, List.length_reverse,
      Nat.digits_length_le_iff (by decide)]
    exact lt_of_le_of_lt (h.trans hmax) (by norm_num)
  refine digitLoop_bounded hloop fun x d hxd => ?_
  have hle := hxd.trans h
  unfold llOk
  generalize llongMax + (if neg then 1 else 0) = limit at hle
  simp only [Bool.or_eq_true, Bool.and_eq_true, decide_eq_true_eq, beq_iff_eq]
  by_cases hlt : x < limit / 10
  · exact .inl (.inr hlt)
  · refine .inr ⟨?_, ?_⟩ <;> omega

theorem parseLl_llToStr {n : Int} (hlow : -(llongMax : Int) - 1 ≤ n) (hhigh : n ≤ llongMax) :
    parseLl (Piece.llToStr n) = some n := by
  unfold Piece.llToStr
  by_cases hneg : n < 0
  · have hbound : n.natAbs ≤ llongMax + if true = true then 1 else 0 := by
      simp only [if_true]
      omega
    obtain ⟨hlen, hloop⟩ := digitLoop_llOk hbound
    have hsign : splitSign (45 :: u64ToStr n.natAbs) = (true, u64ToStr n.natAbs) := rfl
    rw [if_pos hneg]
    unfold parseLl
    simp only [hsign, if_neg (u64ToStr_ne_nil _), if_neg (Nat.not_lt.mpr hlen), hloop,
      map_some, if_true]
    congr 1
    omega
  · have hbound : n.natAbs ≤ llongMax + if false = true then 1 else 0 := by omega
    obtain ⟨hlen, hloop⟩ := digitLoop_llOk hbound
    rw [if_neg hneg]
    unfold parseLl
    simp only [splitSign_u64ToStr, if_neg (u64ToStr_ne_nil _), if_neg (Nat.not_lt.mpr hlen), hloop,
      map_some, Bool.false_eq_true, if_false]
    congr 1
    omega

theorem llToStr_noCrlf (n : Int) : NoCrlf (Piece.llToStr n) := by
  have hdigits : 13 ∉ u64ToStr n.natAbs := fun hmem =>
    absurd (digitLoop_digits (digitLoop_u64ToStr _) _ hmem).1 (by decide)
  refine noCrlf_of_not_mem ?_
  unfold Piece.llToStr
  split
  · intro hmem
    rcases List.mem_cons.mp hmem with h | h
    · exact absurd h (by decide)
    · exact hdigits h
  · exact hdigits

/-! ## Single calls -/

namespace Piece

/-- A call as the commands make it: no line break in a line, a 64-bit integer, no NULL
string with a length. -/
def Sane : Piece → Prop
  | .simple s | .error s => NoCrlf s
  | .int n => -(llongMax : Int) - 1 ≤ n ∧ n ≤ llongMax
  | .bulk s => s.bytes? ≠ none
  | _ => True

/-- No string and no count is over the limit of the protocol. -/
def Fits : Piece → Prop
  | .bulk s => StrFits s
  | .header n => n ≤ respMaxArrayLen
  | _ => True

def leaf? : Piece → Option RespValue
  | .simple s => some (.simpleString (.view s))
  | .error s => some (.error (.view s))
  | .int n => some (.integer n)
  | .bulk s => some (.bulkString s)
  | .nullArray => some (.array [] true)
  | .header _ => none

end Piece

variable {isDouble : Bytes → Bool}

theorem Piece.encodes (isDouble : Bytes → Bool)
    (hleaf : p.leaf? = some v) (hsane : p.Sane) (hfits : p.Fits) (d : Nat) : Encodes isDouble (d + 1) v p.bytes := by
  cases p with
  | simple s =>
    cases hleaf
    exact ⟨.simpleString, _, rfl, .line hsane rfl⟩
  | error s =>
    cases hleaf
    exact ⟨.error, _, rfl, .line hsane rfl⟩
  | int n =>
    cases hleaf
    refine ⟨.integer, _, rfl, .line (llToStr_noCrlf n) ?_⟩
    simp [readLine, parseLl_llToStr hsane.1 hsane.2]
  | bulk s =>
    cases hleaf
    obtain ⟨b, w, hb, hw, hblob⟩ := bulkText_write hsane hfits
    exact ⟨.bulkString, w, hw, (body_bulk_iff _ w).mpr ⟨b, hb.symm, hblob⟩⟩
  | nullArray =>
    cases hleaf
    exact ⟨.array, _, rfl, .nullArray ⟨[45, 49], rfl, rfl⟩⟩
  | header n => cases hleaf

theorem lengthText_u64ToStr (h : n ≤ respMaxArrayLen) : LengthText (some n) (u64ToStr n ++ crlf) :=
  ⟨u64ToStr n, by rw [parseBulkLen_u64ToStr, if_pos h], rfl⟩

/-! ## Well-formed replies are read back -/

/-- Calls that write `n` values, nested at most so many levels deep. -/
inductive Forest : Nat → Nat → List Piece → Prop
  | nil (d : Nat) : Forest d 0 []
  | leaf {d n : Nat} {p : Piece} {v : RespValue} {ps : List Piece} (hleaf : p.leaf? = some v)
      (rest : Forest (d + 1) n ps) : Forest (d + 1) (n + 1) (p :: ps)
  | node {d n m : Nat} {ps qs : List Piece} (items : Forest d m ps) (rest : Forest (d + 1) n qs) :
      Forest (d + 1) (n + 1) (.header m :: (ps ++ qs))

theorem Forest.encodes (isDouble : Bytes → Bool) {d : Nat}
    (h : Forest d n ps) (hsane : ∀ p ∈ ps, p.Sane) (hfits : ∀ p ∈ ps, p.Fits) :
    ∃ vs : List RespValue, vs.length = n ∧ Each (Encodes isDouble d) vs (replyBytes ps) := by
  induction h with
  | nil d => exact ⟨[], rfl, .nil⟩
  | @leaf d n p v ps hleaf rest ih =>
    obtain ⟨vs, hlen, heach⟩ := ih (fun q hq => hsane q (mem_cons_of_mem _ hq))
      (fun q hq => hfits q (mem_cons_of_mem _ hq))
    refine ⟨v :: vs, congrArg (· + 1) hlen, ?_⟩
    exact .cons (Piece.encodes isDouble hleaf (hsane p mem_cons_self) (hfits p mem_cons_self) d)
      heach
  | @node d n m ps qs items rest ihItems ihRest =>
    obtain ⟨us, hulen, hitems⟩ := ihItems
      (fun q hq => hsane q (mem_cons_of_mem _ (List.mem_append_left _ hq)))
      (fun q hq => hfits q (mem_cons_of_mem _ (List.mem_append_left _ hq)))
    obtain ⟨vs, hlen, heach⟩ := ihRest
      (fun q hq => hsane q (mem_cons_of_mem _ (List.mem_append_right _ hq)))
      (fun q hq => hfits q (mem_cons_of_mem _ (List.mem_append_right _ hq)))
    have hm : m ≤ respMaxArrayLen := hfits (.header m) mem_cons_self
    refine ⟨.array us false :: vs, congrArg (· + 1) hlen, ?_⟩
    rw [replyBytes_cons, replyBytes_append, ← List.append_assoc]
    refine .cons ⟨.array, (u64ToStr m ++ crlf) ++ replyBytes ps, ?_, ?_⟩ heach
    · simp [Piece.bytes, respWriteArrayHeader, writeHeader]
    refine .array ?_ (hitems.imp fun v _ u hvu => .inr hvu)
    rw [hulen]
    exact lengthText_u64ToStr hm

theorem Forest.oneValue (h : Forest (respMaxDepth + 1) 1 ps)
    (hsane : ∀ p ∈ ps, p.Sane) (hfits : ∀ p ∈ ps, p.Fits) : OneValue isDouble ps := by
  obtain ⟨vs, hlen, heach⟩ := h.encodes isDouble hsane hfits
  obtain ⟨v, rfl⟩ := List.length_eq_one_iff.mp hlen
  refine ⟨v, ?_⟩
  generalize replyBytes ps = bytes at heach
  cases heach with
  | cons hv hrest =>
    cases hrest
    exact (parseAt_recognises isDouble _).apply_append hv []

/-! ## What is read back is one term -/

/-- What a reader takes off the bytes of some calls: it stops where a call ends, having
read terms, none of them over the limit. -/
def StopsAfter (n : Nat) (ps : List Piece) (rest : Bytes) : Prop :=
  ∃ a b, ps = a ++ b ∧ rest = replyBytes b ∧ due Piece.arity n a = some 0 ∧ ∀ p ∈ a, p.Fits

/-- A reader that takes one term off the bytes of any calls. -/
def ReadsTerm (f : Parse RespValue) : Prop :=
  ∀ ps v rest, (∀ p ∈ ps, p.Sane) → f (replyBytes ps) = .done v rest → StopsAfter 1 ps rest

theorem Piece.arity_of_leaf (h : p.leaf? = some v) : p.arity = 0 := by
  cases p with
  | header n => cases h
  | _ => rfl

theorem stopsAfter_leaf (hleaf : p.leaf? = some v) (hfits : p.Fits)
    (ps : List Piece) : StopsAfter 1 (p :: ps) (replyBytes ps) := by
  refine ⟨[p], ps, rfl, rfl, ?_, fun q hq => List.mem_singleton.mp hq ▸ hfits⟩
  rw [due_cons, Piece.arity_of_leaf hleaf, due_nil]

theorem ReadsTerm.repeatN (hf : ReadsTerm f) :
    ∀ n ps vs rest, (∀ p ∈ ps, p.Sane) →
      Lib.repeatN f n (replyBytes ps) = .done vs rest → StopsAfter n ps rest
  | 0, ps, vs, rest, _, h => by
    cases h
    exact ⟨[], ps, rfl, rfl, due_nil 0, fun q hq => absurd hq List.not_mem_nil⟩
  | n + 1, ps, vs, rest, hsane, h => by
    obtain ⟨v, mid, hv, hrest⟩ := Parsed.andThen_eq_done.mp h
    obtain ⟨us, hus, -⟩ := Parsed.map_eq_done.mp hrest
    obtain ⟨a, b, rfl, rfl, hterm, hfits⟩ := hf ps v mid hsane hv
    obtain ⟨a', b', rfl, hmid, hterms, hfits'⟩ := ReadsTerm.repeatN hf n b us rest
      (fun p hp => hsane p (List.mem_append_right _ hp)) hus
    refine ⟨a ++ a', b', by rw [List.append_assoc], hmid, due_term hterm hterms, fun p hp => ?_⟩
    rcases List.mem_append.mp hp with hp | hp
    · exact hfits p hp
    · exact hfits' p hp

theorem parseBulk_stops (hsane : p.Sane)
    (hhead : (replyBytes (p :: ps)).head? = some Tag.bulkString.byte)
    (h : parseBulk (replyBytes (p :: ps)).tail = .done v rest) : StopsAfter 1 (p :: ps) rest := by
  rw [replyBytes_cons] at hhead h
  cases p with
  | bulk s =>
    by_cases hfits : StrFits s
    · obtain ⟨b, w, -, hw, hblob⟩ := bulkText_write hsane hfits
      rw [show (Piece.bulk s).bytes = _ from hw, List.cons_append, List.tail_cons,
        parseBulk_recognises.apply_append ⟨b, rfl, hblob⟩] at h
      cases h
      exact stopsAfter_leaf (p := .bulk s) rfl hfits ps
    · obtain ⟨q, hq, hfail⟩ := parseBulk_long hfits (replyBytes ps)
      rw [show (Piece.bulk s).bytes ++ replyBytes ps = _ from hq, List.tail_cons, hfail] at h
      cases h
  | _ => exact absurd hhead (by simp [Piece.bytes, Piece.typedLine, respWriteArrayHeader,
      writeHeader, Tag.byte])

theorem ReadsTerm.arrayChild (hf : ReadsTerm f) : ReadsTerm (parseArrayChild f) := by
  intro ps v rest hsane h
  unfold parseArrayChild at h
  split_ifs at h with hhead
  · cases ps with
    | nil => cases hhead
    | cons p ps => exact parseBulk_stops (hsane p mem_cons_self) hhead h
  · exact hf ps v rest hsane h

theorem parseAt_header (d n : Nat) (more : Bytes)
    (h : parseAt isDouble (d + 1) (respWriteArrayHeader n ++ more) = .done v rest) :
    n ≤ respMaxArrayLen ∧ ∃ vs,
      Lib.repeatN (parseArrayChild (parseAt isDouble d)) n more = .done vs rest := by
  have hcr : NoCrlf (u64ToStr n) := by
    refine noCrlf_of_not_mem fun hmem => ?_
    exact absurd (digitLoop_digits (digitLoop_u64ToStr _) _ hmem).1 (by decide)
  have hagg : parseAt isDouble (d + 1) (respWriteArrayHeader n ++ more) =
      parseAggregate .array (parseArrayItems (parseAt isDouble d))
        (u64ToStr n ++ (crlf ++ more)) := by
    rw [respWriteArrayHeader, writeHeader, List.cons_append, List.append_assoc]
    rfl
  have hslots : slotsOf .array n = n := rfl
  rw [hagg, parseAggregate] at h
  simp only [parseLength, parseLine, findCrlf_append hcr, Parsed.andThen,
    parseBulkLen_u64ToStr] at h
  by_cases hn : n ≤ respMaxArrayLen
  · refine ⟨hn, ?_⟩
    simp only [if_pos hn, reduceCtorEq, false_and, if_false] at h
    split at h
    · cases h
    obtain ⟨vs, hvs, -⟩ := Parsed.map_eq_done.mp h
    rw [parseArrayItems_parseAt] at hvs
    exact ⟨vs, hvs⟩
  · simp only [if_neg hn] at h
    cases h

/-- The parser takes one term off the bytes of any calls. -/
theorem parseAt_readsTerm (d : Nat) : ReadsTerm (parseAt isDouble d) := by
  -- along the levels that are left, as the elements of an array are one level down
  induction d with
  | zero => intro ps v rest _ h; cases h
  | succ d ih =>
    intro ps v rest hsane h
    cases ps with
    | nil => cases h
    | cons p ps =>
      have hp := hsane p mem_cons_self
      have hps : ∀ q ∈ ps, q.Sane := fun q hq => hsane q (mem_cons_of_mem _ hq)
      cases hleaf : p.leaf? with
      | none =>
        cases p with
        | header n =>
          obtain ⟨hn, vs, hvs⟩ := parseAt_header d n _ h
          obtain ⟨a, b, rfl, rfl, hterms, hfits⟩ := ih.arrayChild.repeatN n ps vs rest hps hvs
          refine ⟨.header n :: a, b, rfl, rfl, hterms, fun q hq => ?_⟩
          rcases List.mem_cons.mp hq with rfl | hq
          · exact hn
          · exact hfits q hq
        | _ => cases hleaf
      | some w =>
        by_cases hfits : p.Fits
        · have henc := Piece.encodes isDouble hleaf hp hfits d
          rw [replyBytes_cons, (parseAt_recognises isDouble (d + 1)).apply_append henc] at h
          cases h
          exact stopsAfter_leaf hleaf hfits ps
        cases p with
        | bulk s =>
          obtain ⟨q, hq, hfail⟩ := parseBulk_long hfits (replyBytes ps)
          rw [replyBytes_cons, show (Piece.bulk s).bytes ++ replyBytes ps = _ from hq,
            parseAt_bulk, hfail] at h
          cases h
        | header n => cases hleaf
        | _ => exact absurd trivial hfits

/-- A reply that is one value is one term, and no call is over the limit. -/
theorem OneValue.due (h : OneValue isDouble ps) (hsane : ∀ p ∈ ps, p.Sane) :
    due Piece.arity 1 ps = some 0 ∧ ∀ p ∈ ps, p.Fits := by
  obtain ⟨v, hv⟩ := h
  obtain ⟨a, b, rfl, hrest, hterm, hfits⟩ := parseAt_readsTerm _ ps v [] hsane hv
  have hb : b = [] := by
    cases b with
    | nil => rfl
    | cons p b =>
      have hp := hsane p (List.mem_append_right _ mem_cons_self)
      have hnil : p.bytes = [] := (List.append_eq_nil_iff.mp hrest.symm).1
      cases p with
      | bulk s =>
        cases s with
        | view s => cases hnil
        | null n =>
          cases n with
          | zero => cases hnil
          | succ n => exact absurd rfl hp
      | _ => cases hnil
  subst hb
  rw [List.append_nil]
  exact ⟨hterm, hfits⟩

end Ddup.Resp
