/-
Ddup.Resp.WriterTheorems — decimal texts, and what becomes of a serialised command in
the parser.

`writeCommand_parse` is the round trip: the parser reads the written command back,
with the arguments that were no strings turned into empty ones, unless a length is
over the protocol limit; then it refuses the text. `encodes_solid` is the other half
of reading a text twice: all the texts of a value have the same bytes but for padding
zeros and signs, so the number of the other bytes is a property of the value.
-/
import Mathlib.Data.Nat.Digits.Lemmas
import Ddup.Resp.ParserTheorems
import Ddup.Resp.Writer

namespace Ddup.Resp

open Ddup.Lib Ddup.Command

variable {v : RespValue} {d n : Nat} {argv : List RespValue} {isDouble : Bytes → Bool}
  {b : Option Bytes} {u l u' : Bytes}
variable {len : Option Nat} {ok : Nat → Nat → Bool} {s t t' : Bytes} {w : Nat}

/-! ## Decimal texts -/

/-- The digits of a number, the low one first; zero has one digit here. -/
def lowDigits (v : Nat) : List Nat := if v = 0 then [0] else Nat.digits 10 v

theorem u64Loop_eq {fuel v : Nat} (h : v < fuel) : u64Loop fuel v = (lowDigits v).map digitByte := by
  induction fuel generalizing v with
  | zero => omega
  | succ fuel ih =>
    rw [u64Loop]
    split_ifs with hbig hsmall
    · have hne : v ≠ 0 := by omega
      have hne' : v / 10 ≠ 0 := by omega
      have hne'' : v / 100 ≠ 0 := by omega
      rw [ih (by omega), lowDigits, lowDigits, if_neg hne, if_neg hne'',
        Nat.digits_def' (by decide) (Nat.pos_of_ne_zero hne),
        Nat.digits_def' (by decide) (Nat.pos_of_ne_zero hne'), Nat.div_div_eq_div_mul]
      have hlow : v % 100 % 10 = v % 10 := by omega
      have hhigh : v % 100 / 10 = v / 10 % 10 := by omega
      simp [hhigh]
    · rw [lowDigits]
      split_ifs with hzero
      · subst hzero
        rfl
      · rw [Nat.digits_of_lt 10 v hzero hsmall]
        rfl
    · have hne : v ≠ 0 := by omega
      have hne' : v / 10 ≠ 0 := by omega
      rw [lowDigits, if_neg hne, Nat.digits_def' (by decide) (Nat.pos_of_ne_zero hne),
        Nat.digits_of_lt 10 (v / 10) hne' (by omega)]
      rfl

theorem u64ToStr_eq (v : Nat) : u64ToStr v = (lowDigits v).reverse.map digitByte := by
  rw [u64ToStr, u64Loop_eq (Nat.lt_succ_self v), List.map_reverse]

theorem lowDigits_lt {v : Nat} (h : d ∈ lowDigits v) : d < 10 := by
  rw [lowDigits] at h
  split_ifs at h
  · rw [List.mem_singleton.mp h]
    decide
  · exact Nat.digits_lt_base (by decide) h

theorem ofDigits_lowDigits (v : Nat) : Nat.ofDigits 10 (lowDigits v) = v := by
  rw [lowDigits]
  split_ifs with hzero
  · subst hzero
    rfl
  · exact Nat.ofDigits_digits 10 v

theorem digit?_digitByte (h : d < 10) : digit? (digitByte d) = some d := by interval_cases d <;> rfl

theorem digitLoop_map {ds : List Nat} (h : ∀ d ∈ ds, d < 10) (v : Nat) :
    digitLoop (fun _ _ => true) v (ds.map digitByte) =
      some (v * 10 ^ ds.length + Nat.ofDigits 10 ds.reverse) := by
  induction ds generalizing v with
  | nil => simp [digitLoop]
  | cons d ds ih =>
    have hd := digit?_digitByte (h d List.mem_cons_self)
    simp only [List.map_cons, digitLoop, hd, Option.bind_eq_bind, Option.bind_some, if_true]
    rw [ih (fun x hx => h x (List.mem_cons_of_mem _ hx)), List.reverse_cons, Nat.ofDigits_append,
      List.length_reverse, Nat.ofDigits_singleton, List.length_cons]
    ring_nf

theorem exists_digits {v : Nat}
    (h : digitLoop ok v s = some w) : ∃ ds : List Nat, (∀ d ∈ ds, d < 10) ∧ s = ds.map digitByte := by
  refine ⟨s.map fun c => c.toNat - 48, ?_, ?_⟩
  · intro d hd
    obtain ⟨c, hc, rfl⟩ := List.mem_map.mp hd
    have hle : c.toNat ≤ 57 := UInt8.le_iff_toNat_le.mp (digitLoop_digits h c hc).2
    omega
  rw [List.map_map]
  refine (List.map_id s).symm.trans (List.map_congr_left fun c hc => ?_)
  obtain ⟨hlow, hhigh⟩ := digitLoop_digits h c hc
  have hge : 48 ≤ c.toNat := UInt8.le_iff_toNat_le.mp hlow
  show c = UInt8.ofNat (48 + (c.toNat - 48))
  rw [Nat.add_sub_cancel' hge, UInt8.ofNat_toNat]

theorem digitLoop_unbounded {v : Nat}
    (h : digitLoop ok v s = some w) : digitLoop (fun _ _ => true) v s = some w := by
  obtain ⟨ds, hds, rfl⟩ := exists_digits h
  rw [digitLoop_map hds v]
  exact congrArg some (digitLoop_agree (digitLoop_map hds v) h)

theorem skipZeros_head (t : Bytes) : (skipZeros t).head? ≠ some 48 := by
  intro h
  have hnot := List.head?_dropWhile_not (fun c : UInt8 => c == 48) t
  unfold skipZeros at h
  rw [h] at hnot
  exact absurd hnot (by decide)

theorem skipZeros_eq (h : digitLoop (fun _ _ => true) 0 (skipZeros t) = some n) :
    skipZeros t = (Nat.digits 10 n).reverse.map digitByte := by
  obtain ⟨ds, hds, heq⟩ := exists_digits h
  have hval : Nat.ofDigits 10 ds.reverse = n := by
    rw [heq, digitLoop_map hds, Nat.zero_mul, Nat.zero_add] at h
    exact Option.some.inj h
  have hlast : ∀ hne, ds.reverse.getLast hne ≠ 0 := by
    intro hne hzero
    rw [List.getLast_reverse] at hzero
    cases ds with
    | nil => exact hne rfl
    | cons d ds =>
      refine skipZeros_head t ?_
      rw [heq]
      simp only [List.head_cons] at hzero
      rw [hzero]
      rfl
  have hdigits : Nat.digits 10 n = ds.reverse := by
    rw [← hval]
    exact Nat.digits_ofDigits 10 (by decide) _ (fun d hd => hds d (List.mem_reverse.mp hd)) hlast
  rw [hdigits, List.reverse_reverse, heq]

theorem digitLoop_skipZeros (t : Bytes) :
    digitLoop (fun _ _ => true) 0 (skipZeros t) = digitLoop (fun _ _ => true) 0 t := by
  induction t with
  | nil => rfl
  | cons c cs ih =>
    unfold skipZeros at ih ⊢
    rw [List.dropWhile_cons]
    split
    · rename_i hc
      rw [ih, beq_iff_eq.mp hc]
      rfl
    · rfl

theorem digitLoop_u64ToStr (n : Nat) : digitLoop (fun _ _ => true) 0 (u64ToStr n) = some n := by
  rw [u64ToStr_eq, digitLoop_map fun d hd => lowDigits_lt (List.mem_reverse.mp hd),
    List.reverse_reverse, ofDigits_lowDigits]
  simp

theorem u64ToStr_ne_nil (n : Nat) : u64ToStr n ≠ [] := by
  intro h
  rw [u64ToStr_eq, List.map_eq_nil_iff, List.reverse_eq_nil_iff, lowDigits] at h
  split_ifs at h with hzero
  exact hzero (Nat.digits_eq_nil_iff_eq_zero.mp h)

/-- The length the writer writes is the length the parser reads, up to the protocol
limit. -/
theorem parseBulkLen_u64ToStr (n : Nat) :
    parseBulkLen (u64ToStr n) = if n ≤ respMaxArrayLen then some (some n) else none := by
  have hloop : digitLoop (fun _ _ => true) 0 (skipZeros (u64ToStr n)) = some n := by
    rw [digitLoop_skipZeros, digitLoop_u64ToStr]
  have hsign : (u64ToStr n).head? ≠ some 45 := by
    intro h
    have hmem := List.mem_of_head? h
    exact absurd (digitLoop_digits (digitLoop_u64ToStr n) _ hmem).1 (by decide)
  have hlen : (skipZeros (u64ToStr n)).length = (Nat.digits 10 n).length := by
    rw [skipZeros_eq hloop, List.length_map, List.length_reverse]
  unfold parseBulkLen
  rw [if_neg (u64ToStr_ne_nil n), if_neg hsign, hloop, hlen]
  by_cases hn : n ≤ respMaxArrayLen
  · have hshort : ¬10 < (Nat.digits 10 n).length := by
      rw [Nat.not_lt, Nat.digits_length_le_iff (by decide)]
      exact lt_of_le_of_lt hn (by decide)
    simp only [if_neg hshort, if_neg (Nat.not_lt.mpr hn), if_pos hn]
  · simp [if_pos (Nat.not_le.mp hn), if_neg hn]

/-! ## Serialised commands -/

def writtenStr : RespValue → RespStr
  | .bulkString s | .simpleString s => s
  | _ => .view []

theorem writeArg_eq (v : RespValue) : writeArg v = respWriteBulk (writtenStr v) := by
  cases v <;> rfl

def StrFits : RespStr → Prop
  | .view s => s.length ≤ respMaxArrayLen
  | .null _ => True

instance : DecidablePred StrFits := fun s =>
  match s with
  | .view b => inferInstanceAs (Decidable (b.length ≤ respMaxArrayLen))
  | .null _ => inferInstanceAs (Decidable True)

def Fits (argv : List RespValue) : Prop :=
  argv.length ≤ respMaxArrayLen ∧ ∀ v ∈ argv, StrFits (writtenStr v)

theorem bulkText_write {s : RespStr} (hnull : s.bytes? ≠ none) (hfits : StrFits s) :
    BulkText (.bulkString s) (respWriteBulk s) := by
  cases s with
  | view b =>
    refine ⟨some b, _, rfl, rfl, u64ToStr b.length, ?_, rfl⟩
    rw [parseBulkLen_u64ToStr]
    exact if_pos hfits
  | null n =>
    cases n with
    | zero => exact ⟨none, _, rfl, rfl, [45, 49], rfl, rfl⟩
    | succ n => exact absurd rfl hnull

theorem parseBulk_long {s : RespStr} (hfits : ¬StrFits s) (more : Bytes) :
    ∃ p, respWriteBulk s ++ more = Tag.bulkString.byte :: p ∧ parseBulk p = .failed := by
  cases s with
  | null n => exact absurd trivial hfits
  | view b =>
    have hlen : parseBulkLen (u64ToStr b.length) = none := by
      rw [parseBulkLen_u64ToStr]
      exact if_neg hfits
    have hcr : NoCrlf (u64ToStr b.length) := by
      refine noCrlf_of_not_mem fun hmem => ?_
      exact absurd (digitLoop_digits (digitLoop_u64ToStr _) _ hmem).1 (by decide)
    refine ⟨u64ToStr b.length ++ (crlf ++ (b ++ (crlf ++ more))), ?_, ?_⟩
    · simp [respWriteBulk]
    · simp only [parseBulk, parseBlob, parseLength, parseLine, findCrlf_append hcr, hlen,
        Parsed.andThen, Parsed.map]

def readBack (argv : List RespValue) : List RespValue := argv.map fun v => .bulkString (writtenStr v)

theorem each_writeArg (hnull : ∀ v ∈ argv, (writtenStr v).bytes? ≠ none)
    (hfits : ∀ v ∈ argv, StrFits (writtenStr v)) :
    Each BulkText (readBack argv) (argv.flatMap writeArg) := by
  induction argv with
  | nil => exact .nil
  | cons v vs ih =>
    rw [List.flatMap_cons, writeArg_eq]
    refine .cons (bulkText_write (hnull v List.mem_cons_self) (hfits v List.mem_cons_self)) ?_
    exact ih (fun x hx => hnull x (List.mem_cons_of_mem _ hx))
      (fun x hx => hfits x (List.mem_cons_of_mem _ hx))

theorem writeArg_three_le (hnull : (writtenStr v).bytes? ≠ none) : 3 ≤ (writeArg v).length := by
  rw [writeArg_eq]
  cases hs : writtenStr v with
  | view b =>
    simp only [respWriteBulk, List.length_cons, List.length_append, crlf]
    omega
  | null n =>
    cases n with
    | zero => decide
    | succ n =>
      rw [hs] at hnull
      exact absurd rfl hnull

theorem flatMap_writeArg_length (hnull : ∀ v ∈ argv, (writtenStr v).bytes? ≠ none) :
    3 * argv.length ≤ (argv.flatMap writeArg).length := by
  induction argv with
  | nil => simp
  | cons v vs ih =>
    have hv := writeArg_three_le (hnull v List.mem_cons_self)
    have hvs := ih fun x hx => hnull x (List.mem_cons_of_mem _ hx)
    rw [List.flatMap_cons, List.length_append, List.length_cons]
    omega

/-- The inline loop stops at an argument over the limit. -/
theorem leadingBulks_long (hnull : ∀ v ∈ argv, (writtenStr v).bytes? ≠ none)
    (hlong : ∃ v ∈ argv, ¬StrFits (writtenStr v)) (more : Bytes) :
    leadingBulks argv.length (argv.flatMap writeArg ++ more) = .failed := by
  induction argv with
  | nil =>
    obtain ⟨v, hv, -⟩ := hlong
    cases hv
  | cons v vs ih =>
    rw [List.flatMap_cons, List.append_assoc, writeArg_eq, List.length_cons, leadingBulks]
    by_cases hv : StrFits (writtenStr v)
    · obtain ⟨b, w, hb, hw, hblob⟩ := bulkText_write (hnull v List.mem_cons_self) hv
      have hrest : ∃ x ∈ vs, ¬StrFits (writtenStr x) := by
        obtain ⟨x, hx, hxlong⟩ := hlong
        rcases List.mem_cons.mp hx with rfl | hx
        · exact absurd hv hxlong
        · exact ⟨x, hx, hxlong⟩
      rw [hw, List.cons_append, List.head?_cons, List.tail_cons,
        parseBulk_recognises.apply_append ⟨b, hb.symm, hblob⟩]
      simp only [Parsed.andThen]
      rw [ih (fun x hx => hnull x (List.mem_cons_of_mem _ hx)) hrest]
      rfl
    · obtain ⟨p, hp, hfail⟩ := parseBulk_long hv (vs.flatMap writeArg ++ more)
      rw [hp, List.head?_cons, List.tail_cons, hfail]
      rfl

theorem writeCommand_parse (isDouble : Bytes → Bool)
    (hnull : ∀ v ∈ argv, (writtenStr v).bytes? ≠ none) (hfits : Fits argv) (more : Bytes) :
    respParse isDouble (writeCommand argv ++ more) = .done (.array (readBack argv) false) more := by
  have htext : Encodes isDouble (respMaxDepth + 1) (.array (readBack argv) false)
      (writeCommand argv) := by
    have hlen : LengthText (some (readBack argv).length) (u64ToStr argv.length ++ crlf) := by
      refine ⟨u64ToStr argv.length, ?_, rfl⟩
      rw [parseBulkLen_u64ToStr, if_pos hfits.1, readBack, List.length_map]
    refine ⟨.array, (u64ToStr argv.length ++ crlf) ++ argv.flatMap writeArg, rfl, ?_⟩
    exact .array hlen ((each_writeArg hnull hfits.2).imp fun v _ u h => Or.inl h)
  exact (parseAt_recognises isDouble _).apply_append htext more

theorem writeCommand_refused (isDouble : Bytes → Bool)
    (hnull : ∀ v ∈ argv, (writtenStr v).bytes? ≠ none) (hfits : ¬Fits argv) (more : Bytes) :
    respParse isDouble (writeCommand argv ++ more) = .failed := by
  have hcr : NoCrlf (u64ToStr argv.length) := by
    refine noCrlf_of_not_mem fun hmem => ?_
    exact absurd (digitLoop_digits (digitLoop_u64ToStr _) _ hmem).1 (by decide)
  have hshape : writeCommand argv ++ more = Tag.array.byte ::
      (u64ToStr argv.length ++ (crlf ++ (argv.flatMap writeArg ++ more))) := by
    simp only [writeCommand, respWriteArrayHeader, writeHeader, List.cons_append, List.append_assoc]
  rw [hshape, respParse_array]
  simp only [parseAggregate, parseLength, parseLine, findCrlf_append hcr, Parsed.andThen,
    parseBulkLen_u64ToStr]
  by_cases hcount : argv.length ≤ respMaxArrayLen
  · have hlong : ∃ v ∈ argv, ¬StrFits (writtenStr v) := by
      by_contra hall
      push Not at hall
      exact hfits ⟨hcount, hall⟩
    have hroom : ¬(argv.flatMap writeArg ++ more).length / 3 < slotsOf .array argv.length := by
      have hlen := flatMap_writeArg_length hnull
      have hslots : slotsOf .array argv.length = argv.length := rfl
      rw [List.length_append]
      omega
    have hslots : slotsOf .array argv.length = argv.length := rfl
    simp only [if_pos hcount, if_neg hroom]
    rw [hslots, parseArrayItems, leadingBulks_long hnull hlong]
    rfl
  · simp only [if_neg hcount]

/-! ## Padding

Two texts of one value differ in padding zeros, and in the sign of an integer zero. -/

/-- The number of bytes that are neither `0` nor `-`. -/
def solid (u : Bytes) : Nat := u.countP fun c => c != 48 && c != 45

theorem solid_append (a b : Bytes) : solid (a ++ b) = solid a + solid b := List.countP_append ..

theorem solid_cons (c : UInt8) (u : Bytes) :
    solid (c :: u) = solid u + if c != 48 && c != 45 then 1 else 0 := List.countP_cons ..

theorem solid_skipZeros (t : Bytes) : solid (skipZeros t) = solid t := by
  induction t with
  | nil => rfl
  | cons c cs ih =>
    unfold skipZeros at ih ⊢
    rw [List.dropWhile_cons]
    split
    · rename_i hc
      rw [ih, beq_iff_eq.mp hc]
      simp [solid_cons]
    · rfl

theorem solid_digits (h : digitLoop (fun _ _ => true) 0 (skipZeros t) = some n)
    (h' : digitLoop (fun _ _ => true) 0 (skipZeros t') = some n) : solid t = solid t' := by
  rw [← solid_skipZeros t, ← solid_skipZeros t', skipZeros_eq h, skipZeros_eq h']

theorem solid_parseBulkLen (h : parseBulkLen t = some len)
    (h' : parseBulkLen t' = some len) : solid t = solid t' := by
  rcases parseBulkLen_eq_some h with ⟨rfl, rfl⟩ | ⟨n, rfl, -, hn⟩
  · rcases parseBulkLen_eq_some h' with ⟨rfl, -⟩ | ⟨n, hsome, -⟩
    · rfl
    · cases hsome
  rcases parseBulkLen_eq_some h' with ⟨-, hnone⟩ | ⟨m, hsome, -, hm⟩
  · cases hnone
  · cases hsome
    exact solid_digits hn hm

theorem parseLl_eq_some {n : Int} (h : parseLl l = some n) :
    digitLoop (fun _ _ => true) 0 (skipZeros (splitSign l).2) = some n.natAbs := by
  unfold parseLl at h
  simp only at h
  split_ifs at h with hnil hlong hneg
  · obtain ⟨v, hv, rfl⟩ := Option.map_eq_some_iff.mp h
    rw [digitLoop_unbounded hv, Int.natAbs_neg, Int.natAbs_natCast]
  · obtain ⟨v, hv, rfl⟩ := Option.map_eq_some_iff.mp h
    rw [digitLoop_unbounded hv, Int.natAbs_natCast]

theorem solid_splitSign (l : Bytes) : solid (splitSign l).2 = solid l := by
  unfold splitSign
  split
  · simp [solid_cons]
  · rfl

theorem solid_readLine {tag : Tag} {l' : Bytes} (h : readLine isDouble tag l = some v)
    (h' : readLine isDouble tag l' = some v) : solid l = solid l' := by
  cases tag with
  | integer =>
    obtain ⟨n, hn, rfl⟩ := Option.map_eq_some_iff.mp h
    obtain ⟨m, hm, heq⟩ := Option.map_eq_some_iff.mp h'
    cases heq
    rw [← solid_splitSign l, ← solid_splitSign l']
    exact solid_digits (parseLl_eq_some hn) (parseLl_eq_some hm)
  | null =>
    simp only [readLine] at h h'
    split_ifs at h h' with hl hl'
    rw [hl, hl']
  | boolean =>
    simp only [readLine] at h h'
    split_ifs at h h' <;> cases h <;> cases h' <;> simp_all
  | double =>
    simp only [readLine] at h h'
    split_ifs at h h' <;> cases h <;> cases h' <;> rfl
  | simpleString | error | bigNumber => cases h; cases h'; rfl
  | bulkString | blobError | verbatimString | array | map | set | push => cases h

theorem solid_lengthText (h : LengthText len u) (h' : LengthText len u') : solid u = solid u' := by
  obtain ⟨t, ht, rfl⟩ := h
  obtain ⟨t', ht', rfl⟩ := h'
  rw [solid_append, solid_append, solid_parseBulkLen ht ht']

theorem solid_blobText (h : BlobText b u) (h' : BlobText b u') : solid u = solid u' := by
  cases b with
  | none => exact solid_lengthText h h'
  | some b =>
    obtain ⟨t, ht, rfl⟩ := h
    obtain ⟨t', ht', rfl⟩ := h'
    rw [solid_append t, solid_append t', solid_parseBulkLen ht ht']

def RespValue.tag : RespValue → Tag
  | .simpleString _ => .simpleString
  | .error _ => .error
  | .integer _ => .integer
  | .null => .null
  | .boolean _ => .boolean
  | .double _ => .double
  | .bigNumber _ => .bigNumber
  | .bulkString _ => .bulkString
  | .blobError _ => .blobError
  | .verbatimString _ => .verbatimString
  | .array _ _ => .array
  | .map _ => .map
  | .set _ => .set
  | .push _ => .push

theorem readLine_tag {tag : Tag} (h : readLine isDouble tag l = some v) : v.tag = tag := by
  cases tag <;> simp only [readLine, Option.map_eq_some_iff] at h
  case integer =>
    obtain ⟨n, -, rfl⟩ := h
    rfl
  all_goals (try split_ifs at h) <;> cases h <;> rfl

theorem Body.tag_eq {A C : RespValue → Bytes → Prop} {tag : Tag} (h : Body isDouble A C tag v u)
    : v.tag = tag := by
  cases h with
  | line _ hread => exact readLine_tag hread
  | nullBulk _ => rfl
  | blob hwrap _ => cases tag <;> cases hwrap <;> rfl
  | nullArray _ | array _ _ => rfl
  | aggregate htag _ _ _ _ => rcases htag with rfl | rfl | rfl <;> rfl

theorem slotsOf_inj {tag : Tag} {m : Nat} (h : slotsOf tag n = slotsOf tag m) : n = m := by
  unfold slotsOf at h
  split_ifs at h <;> omega

theorem aggregateOf_inj {tag : Tag} {vs ws : List RespValue}
    (h : aggregateOf tag vs = aggregateOf tag ws) : vs = ws := by
  cases tag <;> simpa [aggregateOf] using h

theorem bulkOf_inj {c : Option Bytes} (h : bulkOf b = bulkOf c) : b = c := by
  cases b <;> cases c <;> simp_all [bulkOf]

theorem solid_aggregate {tag : Tag} {R R' : RespValue → Bytes → Prop}
    (hR : ∀ v x y, R v x → R' v y → solid x = solid y)
    (h : (tag = .array ∧ v = .array [] true ∧ LengthText none u) ∨
      ∃ n vs x y, u = x ++ y ∧ LengthText (some n) x ∧ (tag = .map → n ≤ respMaxArrayLen / 2) ∧
        vs.length = slotsOf tag n ∧ v = aggregateOf tag vs ∧ Each R vs y)
    (h' : (tag = .array ∧ v = .array [] true ∧ LengthText none u') ∨
      ∃ n vs x y, u' = x ++ y ∧ LengthText (some n) x ∧ (tag = .map → n ≤ respMaxArrayLen / 2) ∧
        vs.length = slotsOf tag n ∧ v = aggregateOf tag vs ∧ Each R' vs y) :
    solid u = solid u' := by
  rcases h with ⟨rfl, rfl, hlen⟩ | ⟨n, vs, x, y, rfl, hlen, -, hslots, rfl, heach⟩
  · rcases h' with ⟨-, -, hlen'⟩ | ⟨_, _, _, _, _, _, _, _, hv, _⟩
    · exact solid_lengthText hlen hlen'
    · cases hv
  rcases h' with ⟨rfl, hv, -⟩ | ⟨m, ws, x', y', rfl, hlen', -, hslots', hv, heach'⟩
  · cases hv
  obtain rfl := aggregateOf_inj hv
  obtain rfl := slotsOf_inj (hslots.symm.trans hslots')
  rw [solid_append, solid_append, solid_lengthText hlen hlen',
    heach.measure_eq solid_append heach' fun w _ => hR w]

/-- Two texts of one value have the same number of bytes that are no padding, if this
is so of its children. -/
theorem solid_body {A C A' C' : RespValue → Bytes → Prop} {tag : Tag}
    (hA : ∀ v x y, A v x → A' v y → solid x = solid y)
    (hC : ∀ v x y, C v x → C' v y → solid x = solid y) (h : Body isDouble A C tag v u)
    (h' : Body isDouble A' C' tag v u') : solid u = solid u' := by
  by_cases hline : blobWrap tag = none ∧ tag ≠ .array ∧ tag ≠ .map ∧ tag ≠ .set ∧ tag ≠ .push
  · obtain ⟨l, -, hread, rfl⟩ := (body_line_iff hline v u).mp h
    obtain ⟨l', -, hread', rfl⟩ := (body_line_iff hline v u').mp h'
    rw [solid_append, solid_append, solid_readLine hread hread']
  cases tag with
  | bulkString =>
    obtain ⟨b, rfl, hb⟩ := (body_bulk_iff v u).mp h
    obtain ⟨b', hv, hb'⟩ := (body_bulk_iff _ u').mp h'
    exact solid_blobText hb (bulkOf_inj hv ▸ hb')
  | blobError | verbatimString =>
    obtain ⟨b, rfl, hb⟩ := (body_blob_iff rfl (by decide) v u).mp h
    obtain ⟨b', hv, hb'⟩ := (body_blob_iff rfl (by decide) _ u').mp h'
    cases hv
    exact solid_blobText hb hb'
  | array => exact solid_aggregate hA ((body_array_iff v u).mp h) ((body_array_iff v u').mp h')
  | map | set | push =>
    exact solid_aggregate hC ((body_aggregate_iff (by decide) v u).mp h)
      ((body_aggregate_iff (by decide) v u').mp h')
  | _ => exact absurd (by decide) hline

theorem BulkText.encodes (isDouble : Bytes → Bool) (h : BulkText v u) : Encodes isDouble 1 v u := by
  obtain ⟨b, w, rfl, rfl, hblob⟩ := h
  exact ⟨.bulkString, w, rfl, (body_bulk_iff _ w).mpr ⟨b, rfl, hblob⟩⟩

theorem Encodes.bulkText (h : Encodes isDouble d (bulkOf b) u) : BulkText (bulkOf b) u := by
  cases d with
  | zero => exact h.elim
  | succ d =>
    obtain ⟨tag, w, rfl, hbody⟩ := h
    obtain rfl : tag = .bulkString := by
      rw [← hbody.tag_eq]
      cases b <;> rfl
    obtain ⟨c, hc, hblob⟩ := (body_bulk_iff _ w).mp hbody
    exact ⟨c, w, hc.symm, rfl, hblob⟩

theorem solid_bulkText (h : BulkText v u) (h' : BulkText v u') : solid u = solid u' := by
  obtain ⟨b, w, rfl, rfl, hblob⟩ := h
  obtain ⟨c, w', hc, rfl, hblob'⟩ := h'
  rw [solid_cons, solid_cons, solid_blobText hblob (bulkOf_inj hc ▸ hblob')]

/-- Two texts of one value have the same number of bytes that are no padding. -/
theorem encodes_solid {d' : Nat} (h : Encodes isDouble d v u) (h' : Encodes isDouble d' v u')
    : solid u = solid u' := by
  induction d generalizing d' v u u' with
  | zero => exact h.elim
  | succ d ih =>
    cases d' with
    | zero => exact h'.elim
    | succ d' =>
      obtain ⟨tag, w, rfl, hbody⟩ := h
      obtain ⟨tag', w', rfl, hbody'⟩ := h'
      obtain rfl : tag = tag' := hbody.tag_eq.symm.trans hbody'.tag_eq
      have hchild (v : RespValue) (x y : Bytes) (hx : BulkText v x ∨ Encodes isDouble d v x)
          (hy : BulkText v y ∨ Encodes isDouble d' v y) : solid x = solid y := by
        rcases hx with hx | hx
        · have hy' : BulkText v y := by
            rcases hy with hy | hy
            · exact hy
            · obtain ⟨b, _, rfl, -⟩ := hx
              exact hy.bulkText
          exact solid_bulkText hx hy'
        · exact hy.elim (fun hb => ih hx (hb.encodes isDouble)) (ih hx)
      have hother (v : RespValue) (x y : Bytes) (hx : Encodes isDouble d v x)
          (hy : Encodes isDouble d' v y) : solid x = solid y := ih hx hy
      rw [solid_cons, solid_cons, solid_body hchild hother hbody hbody']

end Ddup.Resp
