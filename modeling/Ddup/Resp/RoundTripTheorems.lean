/-
Ddup.Resp.RoundTripTheorems — what `resp_write_value` writes, `resp_parse` reads back.

`Built` are the values the round trip is about: lines without CR LF, 64-bit integers, blobs
and aggregates within the limits, nested no deeper than the parser goes. A blob error is not
among them: the writer gives it no length, and no blob error is ever read back.
-/
import Ddup.Resp.ValueWriter
import Ddup.Resp.ReplyTheorems

namespace Ddup.Resp

open Ddup.Lib Ddup.Command

/-! ## Values that can be read back -/

/-- A value of at most so many levels that is within the limits of the protocol. -/
def Built : Nat → RespValue → Prop
  | 0, _ => False
  | d + 1, v =>
    match v with
    | .simpleString (.view s) | .error (.view s) | .bigNumber (.view s) => NoCrlf s
    | .integer n => -(llongMax : Int) - 1 ≤ n ∧ n ≤ llongMax
    | .null | .boolean _ | .bulkString (.null 0) => True
    | .bulkString (.view s) | .verbatimString (.view s) => s.length ≤ respMaxArrayLen
    | .array items true => items = []
    | .array items false | .set items | .push items =>
      items.length ≤ respMaxArrayLen ∧ ∀ x ∈ items, Built d x
    | .map items =>
      items.length % 2 = 0 ∧ items.length / 2 ≤ respMaxArrayLen / 2 ∧ ∀ x ∈ items, Built d x
    | _ => False

section Encoding

variable (fmt : Bytes → Bytes) (isDouble : Bytes → Bool)

theorem each_writeAll {R : RespValue → Bytes → Prop} : ∀ {vs},
    (∀ v ∈ vs, R v (respWriteValue fmt v)) → Each R vs (respWriteAll fmt vs)
  | [], _ => by
    exact .nil
  | v :: vs, h => by
    exact .cons (h v List.mem_cons_self)
      (each_writeAll fun w hw => h w (List.mem_cons_of_mem v hw))

theorem encodes_line {tag : Tag} {l : Bytes} {v : RespValue} (hl : NoCrlf l)
    (hread : readLine isDouble tag l = some v) (d : Nat) :
    Encodes isDouble (d + 1) v (Piece.typedLine tag l) :=
  ⟨tag, l ++ crlf, rfl, .line hl hread⟩

theorem encodes_bulk {s : RespStr} (hnull : s.bytes? ≠ none) (hfits : StrFits s) (d : Nat) :
    Encodes isDouble (d + 1) (.bulkString s) (respWriteBulk s) := by
  obtain ⟨b, w, hv, hu, hblob⟩ := bulkText_write hnull hfits
  rw [hv, hu]
  exact ⟨.bulkString, w, rfl, (body_bulk_iff _ w).mpr ⟨b, rfl, hblob⟩⟩

theorem encodes_verbatim {s : Bytes} (h : s.length ≤ respMaxArrayLen) (d : Nat) :
    Encodes isDouble (d + 1) (.verbatimString (.view s)) (writeVerbatim (.view s)) := by
  refine ⟨.verbatimString, u64ToStr s.length ++ (crlf ++ (s ++ crlf)), ?_, .blob rfl ?_⟩
  · simp [writeVerbatim, RespStr.bytes?, writeHeader]
  · exact ⟨u64ToStr s.length, by rw [parseBulkLen_u64ToStr, if_pos h], rfl⟩

theorem built_encodes (d : Nat) {v : RespValue} (h : Built d v) :
    Encodes isDouble d v (respWriteValue fmt v) := by
  induction d generalizing v with
  | zero => exact h.elim
  | succ d ih =>
    cases v with
    | simpleString s =>
      cases s with
      | view s => rw [respWriteValue]; exact encodes_line isDouble h rfl d
      | null n => exact h.elim
    | error s =>
      cases s with
      | view s => rw [respWriteValue]; exact encodes_line isDouble h rfl d
      | null n => exact h.elim
    | bigNumber s =>
      cases s with
      | view s => rw [respWriteValue]; exact encodes_line isDouble h rfl d
      | null n => exact h.elim
    | integer n =>
      refine encodes_line isDouble (llToStr_noCrlf n) ?_ d
      rw [readLine, parseLl_llToStr h.1 h.2]
      rfl
    | null => exact encodes_line isDouble (l := []) trivial rfl d
    | boolean b =>
      cases b with
      | true => exact encodes_line isDouble (noCrlf_of_not_mem (by decide)) rfl d
      | false => exact encodes_line isDouble (noCrlf_of_not_mem (by decide)) rfl d
    | bulkString s =>
      cases s with
      | view s => exact encodes_bulk isDouble (s := .view s) (fun hnone => by cases hnone) h d
      | null n =>
        cases n with
        | zero => exact encodes_bulk isDouble (s := .null 0) (fun hnone => by cases hnone) trivial d
        | succ n => exact h.elim
    | verbatimString s =>
      cases s with
      | view s => rw [respWriteValue]; exact encodes_verbatim isDouble h d
      | null n => exact h.elim
    | double digits => exact h.elim
    | blobError s => exact h.elim
    | array items isNull =>
      cases isNull with
      | true =>
        obtain rfl : items = [] := h
        exact ⟨.array, _, rfl, .nullArray ⟨[45, 49], rfl, rfl⟩⟩
      | false =>
        obtain ⟨hlen, hitems⟩ := h
        refine ⟨.array, _, rfl, .array (lengthText_u64ToStr hlen) ?_⟩
        exact each_writeAll fmt fun x hx => .inr (ih (hitems x hx))
    | map items =>
      obtain ⟨heven, hlen, hitems⟩ := h
      have htag : Tag.map = .map ∨ Tag.map = .set ∨ Tag.map = .push := .inl rfl
      refine ⟨.map, _, rfl, .aggregate htag
        (lengthText_u64ToStr (hlen.trans (Nat.div_le_self _ _))) ?_ (fun _ => hlen)
        (each_writeAll fmt fun x hx => ih (hitems x hx))⟩
      show items.length = items.length / 2 * 2
      omega
    | set items =>
      obtain ⟨hlen, hitems⟩ := h
      have htag : Tag.set = .map ∨ Tag.set = .set ∨ Tag.set = .push := .inr (.inl rfl)
      exact ⟨.set, _, rfl, .aggregate htag (lengthText_u64ToStr hlen) rfl
        (fun hne => by cases hne) (each_writeAll fmt fun x hx => ih (hitems x hx))⟩
    | push items =>
      obtain ⟨hlen, hitems⟩ := h
      have htag : Tag.push = .map ∨ Tag.push = .set ∨ Tag.push = .push := .inr (.inr rfl)
      exact ⟨.push, _, rfl, .aggregate htag (lengthText_u64ToStr hlen) rfl
        (fun hne => by cases hne) (each_writeAll fmt fun x hx => ih (hitems x hx))⟩

end Encoding

/-- A value within the limits is written and read back whole. -/
theorem respParse_respWriteValue (fmt : Bytes → Bytes) (isDouble : Bytes → Bool) {v : RespValue}
    (h : Built (respMaxDepth + 1) v) : respParse isDouble (respWriteValue fmt v) = .done v [] := by
  exact (parseAt_recognises isDouble (respMaxDepth + 1) _ v []).mpr
    ⟨respWriteValue fmt v, (List.append_nil _).symm, built_encodes fmt isDouble _ h⟩

/-- A map from an integer to an array with an empty and a null bulk. -/
def sampleValue : RespValue :=
  .map [.integer (-5), .array [bulk [], .bulkString (.null 0)] false]

theorem sampleValue_read_back :
    Built (respMaxDepth + 1) sampleValue ∧
      respParse (fun _ => false) (respWriteValue id sampleValue) = .done sampleValue [] := by
  have hbuilt : Built (respMaxDepth + 1) sampleValue := by
    refine ⟨rfl, by decide, fun x hx => ?_⟩
    rcases List.mem_pair.mp hx with rfl | rfl
    · exact ⟨by decide, by decide⟩
    refine ⟨by decide, fun y hy => ?_⟩
    rcases List.mem_pair.mp hy with rfl | rfl
    · exact Nat.zero_le _
    · trivial
  exact ⟨hbuilt, respParse_respWriteValue id (fun _ => false) hbuilt⟩

/-! ## Blob errors -/

/-- A blob error is written without its length, so the parser takes the first line of its
text for one: whatever the text and whatever follows, it is never read back. -/
theorem blobError_not_read_back (fmt : Bytes → Bytes) (isDouble : Bytes → Bool) (s t : Bytes) :
    respParse isDouble (respWriteValue fmt (.blobError (.view s)) ++ t)
      ≠ .done (.blobError (.view s)) t := by
  intro h
  obtain ⟨used, hinput, tag, w, rfl, hbody⟩ :=
    (parseAt_recognises isDouble (respMaxDepth + 1) _ _ t).mp h
  have hwritten : Tag.blobError.byte :: (s ++ crlf) = tag.byte :: w :=
    List.append_cancel_right hinput
  obtain ⟨hbyte, rfl⟩ := List.cons.inj hwritten
  obtain rfl : Tag.blobError = tag := Option.some.inj
    ((tagOf_eq_some.mpr rfl).symm.trans (tagOf_eq_some.mpr hbyte))
  obtain ⟨b, hb, text, -, hw⟩ := (body_blob_iff rfl (by decide) _ _).mp hbody
  cases hb
  -- the length line and the payload are longer than what was written
  have hlen := congrArg List.length hw
  simp only [List.length_append, crlf, List.length_cons] at hlen
  omega

/-- One letter. -/
theorem blobError_refused :
    ¬ ∀ (fmt : Bytes → Bytes) (isDouble : Bytes → Bool) (s t : Bytes),
      s.length ≤ respMaxArrayLen →
        respParse isDouble (respWriteValue fmt (.blobError (.view s)) ++ t)
          = .done (.blobError (.view s)) t := by
  intro h
  have hread := h id (fun _ => false) (text "x") [] (by decide)
  cases hread

end Ddup.Resp
