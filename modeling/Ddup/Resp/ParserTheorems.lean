/-
Ddup.Resp.ParserTheorems — the language `resp_parse` accepts.

`Encodes d v u` is the grammar: `u` is a text of the value `v` that nests at most `d`
levels deep. A value has many texts, since lengths and integers may be padded with
zeros. `parseAt_recognises` says that the parser takes a value off the front of the
buffer exactly when one of its texts stands there; what follows the text plays no
part. The inline loop for the bulk children of an array is invisible but for one
thing: it skips the depth check, so an array at the last level may still hold bulks.
-/
import Mathlib.Data.List.TakeWhile
import Ddup.Resp.Parser

namespace Ddup.Resp

open Ddup.Lib Ddup.Command
open List (append_assoc append_nil)

variable {l t u : Bytes} {len : Option Nat}
variable {c : UInt8} {child : Parse RespValue} {d : Nat} {v : RespValue}

/-! ## Lines -/

def NoCrlf : Bytes → Prop
  | [] => True
  | c :: cs => ¬(c = 13 ∧ cs.head? = some 10) ∧ NoCrlf cs

theorem noCrlf_of_not_mem (h : (13 : UInt8) ∉ l) : NoCrlf l := by
  induction l with
  | nil => trivial
  | cons c cs ih =>
    rw [List.mem_cons, not_or] at h
    exact ⟨fun hc => h.1 hc.1.symm, ih h.2⟩

theorem findCrlf_append (h : NoCrlf l) (rest : Bytes) :
    findCrlf (l ++ (crlf ++ rest)) = some (l, rest) := by
  induction l with
  | nil => rfl
  | cons c cs ih =>
    have hcond : ¬(c = 13 ∧ (cs ++ (crlf ++ rest)).head? = some 10) := by
      rintro ⟨hc, hhead⟩
      cases cs with
      | nil => exact absurd hhead (by simp [crlf])
      | cons x xs => exact h.1 ⟨hc, hhead⟩
    rw [List.cons_append, findCrlf, if_neg hcond, ih h.2]
    rfl

theorem findCrlf_eq_some {p rest : Bytes} (h : findCrlf p = some (l, rest)) :
    p = l ++ (crlf ++ rest) ∧ NoCrlf l := by
  induction p generalizing l with
  | nil => cases h
  | cons c cs ih =>
    rw [findCrlf] at h
    split at h
    · rename_i hcond
      cases h
      obtain ⟨rfl, hhead⟩ := hcond
      refine ⟨?_, trivial⟩
      cases cs with
      | nil => cases hhead
      | cons x xs =>
        cases hhead
        rfl
    rename_i hcond
    obtain ⟨⟨l', rest'⟩, hfind, hpair⟩ := Option.map_eq_some_iff.mp h
    cases hpair
    obtain ⟨rfl, hl⟩ := ih hfind
    refine ⟨rfl, ?_, hl⟩
    rintro ⟨hc, hhead⟩
    refine hcond ⟨hc, ?_⟩
    cases l' with
    | nil => cases hhead
    | cons x xs => exact hhead

theorem parseLine_recognises : Recognises parseLine (fun l u => NoCrlf l ∧ u = l ++ crlf) := by
  intro inp l rest
  unfold parseLine
  constructor
  · intro h
    split at h
    · cases h
    rename_i hfind
    cases h
    obtain ⟨rfl, hl⟩ := findCrlf_eq_some hfind
    exact ⟨_, (append_assoc _ _ _).symm, hl, rfl⟩
  · rintro ⟨_, rfl, hl, rfl⟩
    rw [append_assoc, findCrlf_append hl]

theorem parseLineAs_recognises (read : Bytes → Option RespValue) :
    Recognises (parseLineAs read) (fun v u => ∃ l, NoCrlf l ∧ read l = some v ∧ u = l ++ crlf) := by
  refine (parseLine_recognises.andThen
    (S := fun l v u => read l = some v ∧ u = []) fun l => ?_).congr fun v u => ?_
  · cases hread : read l with
    | none => exact Recognises.failed.congr fun v u => by simp
    | some w => exact (Recognises.done w).congr fun v u => by simp [eq_comm]
  constructor
  · rintro ⟨l, _, _, rfl, ⟨hl, rfl⟩, hread, rfl⟩
    exact ⟨l, hl, hread, append_nil _⟩
  · rintro ⟨l, hl, hread, rfl⟩
    exact ⟨l, l ++ crlf, [], (append_nil _).symm, ⟨hl, rfl⟩, hread, rfl⟩

/-! ## Lengths -/

theorem digitLoop_digits {ok : Nat → Nat → Bool} {s : Bytes} {v w : Nat}
    (h : digitLoop ok v s = some w) : ∀ c ∈ s, 48 ≤ c ∧ c ≤ 57 := by
  induction s generalizing v with
  | nil => simp
  | cons c cs ih =>
    simp only [digitLoop, Option.bind_eq_bind, Option.bind_eq_some_iff] at h
    obtain ⟨d, hd, hrest⟩ := h
    have hc : 48 ≤ c ∧ c ≤ 57 := by
      by_contra hne
      simp [digit?, hne] at hd
    split at hrest
    · intro x hx
      rcases List.mem_cons.mp hx with rfl | hx
      · exact hc
      · exact ih hrest x hx
    · cases hrest

theorem mem_skipZeros (h : c ∈ t) : c = 48 ∨ c ∈ skipZeros t := by
  rw [← List.takeWhile_append_dropWhile (p := (· == 48)) (l := t)] at h
  rcases List.mem_append.mp h with hzero | hrest
  · left
    simpa using List.mem_takeWhile_imp hzero
  · exact Or.inr hrest

theorem parseBulkLen_eq_some (h : parseBulkLen t = some len) :
    (t = [45, 49] ∧ len = none) ∨
      ∃ n, len = some n ∧ t ≠ [] ∧ digitLoop (fun _ _ => true) 0 (skipZeros t) = some n := by
  unfold parseBulkLen at h
  split_ifs at h with hnil hneg hmark hlong
  · cases h
    exact Or.inl ⟨hmark, rfl⟩
  right
  split at h
  · cases h
  rename_i n hloop
  split_ifs at h with hmax
  cases h
  exact ⟨n, rfl, hnil, hloop⟩

theorem parseBulkLen_noCrlf (h : parseBulkLen t = some len) : NoCrlf t := by
  refine noCrlf_of_not_mem fun hcr => ?_
  rcases parseBulkLen_eq_some h with ⟨rfl, -⟩ | ⟨n, -, -, hloop⟩
  · exact absurd hcr (by decide)
  rcases mem_skipZeros hcr with hzero | hskip
  · exact absurd hzero (by decide)
  · exact absurd (digitLoop_digits hloop _ hskip).1 (by decide)

def LengthText (len : Option Nat) (u : Bytes) : Prop :=
  ∃ t, parseBulkLen t = some len ∧ u = t ++ crlf

theorem parseLength_recognises : Recognises parseLength LengthText := by
  refine (parseLine_recognises.andThen
    (S := fun l len u => parseBulkLen l = some len ∧ u = []) fun l => ?_).congr fun len u => ?_
  · cases hread : parseBulkLen l with
    | none => exact Recognises.failed.congr fun v u => by simp
    | some w => exact (Recognises.done w).congr fun v u => by simp [eq_comm]
  constructor
  · rintro ⟨l, _, _, rfl, ⟨-, rfl⟩, hlen, rfl⟩
    exact ⟨l, hlen, append_nil _⟩
  · rintro ⟨t, hlen, rfl⟩
    exact ⟨t, t ++ crlf, [], (append_nil _).symm, ⟨parseBulkLen_noCrlf hlen, rfl⟩, hlen, rfl⟩

/-! ## Blobs -/

theorem parsePayload_recognises (n : Nat) :
    Recognises (parsePayload n) (fun b u => b.length = n ∧ u = b ++ crlf) := by
  intro inp b rest
  unfold parsePayload
  constructor
  · intro h
    split_ifs at h with hshort hend
    cases h
    have hlen : n ≤ inp.length := by omega
    refine ⟨inp.take n ++ crlf, ?_, by simp [hlen], rfl⟩
    rw [← hend, append_assoc, ← List.drop_drop, List.take_append_drop, List.take_append_drop]
  rintro ⟨_, rfl, rfl, rfl⟩
  have hlong : ¬(b ++ crlf ++ rest).length < b.length + 2 := by simp [crlf]
  have hdrop : (b ++ crlf ++ rest).drop b.length = crlf ++ rest := by
    rw [append_assoc, List.drop_left]
  have htwo : (b ++ crlf ++ rest).drop (b.length + 2) = rest := by
    rw [← List.drop_drop, hdrop]
    rfl
  rw [if_neg hlong, hdrop, if_pos (by rfl), htwo, append_assoc, List.take_left]

/-- The text of a blob: its length, and its bytes unless it is null. -/
def BlobText : Option Bytes → Bytes → Prop
  | none, u => LengthText none u
  | some b, u => ∃ t, parseBulkLen t = some (some b.length) ∧ u = t ++ (crlf ++ (b ++ crlf))

theorem parseBlob_recognises : Recognises parseBlob BlobText := by
  refine (parseLength_recognises.andThen (S := fun len b u => (len = none ∧ b = none ∧ u = []) ∨
      ∃ c : Bytes, len = some c.length ∧ b = some c ∧ u = c ++ crlf) fun len => ?_).congr
    fun b u => ?_
  · cases len with
    | none => exact (Recognises.done none).congr fun b u => by simp
    | some n =>
      refine ((parsePayload_recognises n).map some).congr fun b u => ?_
      constructor
      · rintro ⟨c, rfl, rfl, rfl⟩
        exact Or.inr ⟨c, rfl, rfl, rfl⟩
      rintro (⟨hnone, -⟩ | ⟨c, hlen, rfl, rfl⟩)
      · cases hnone
      · cases hlen
        exact ⟨c, rfl, rfl, rfl⟩
  constructor
  · rintro ⟨len, _, _, rfl, ⟨t, ht, rfl⟩, ⟨rfl, rfl, rfl⟩ | ⟨c, rfl, rfl, rfl⟩⟩
    · exact ⟨t, ht, append_nil _⟩
    · exact ⟨t, ht, append_assoc _ _ _⟩
  intro h
  cases b with
  | none =>
    obtain ⟨t, ht, rfl⟩ := h
    exact ⟨none, t ++ crlf, [], (append_nil _).symm, ⟨t, ht, rfl⟩, Or.inl ⟨rfl, rfl, rfl⟩⟩
  | some c =>
    obtain ⟨t, ht, rfl⟩ := h
    exact ⟨some c.length, t ++ crlf, c ++ crlf, (append_assoc _ _ _).symm, ⟨t, ht, rfl⟩,
      Or.inr ⟨c, rfl, rfl, rfl⟩⟩

/-! ## The grammar -/

def blobWrap : Tag → Option (RespStr → RespValue)
  | .bulkString => some .bulkString
  | .blobError => some .blobError
  | .verbatimString => some .verbatimString
  | _ => none

/-- What may follow a type byte, for given texts of the children of an array and of
the other aggregates. -/
inductive Body (isDouble : Bytes → Bool) (arrayChild child : RespValue → Bytes → Prop) :
    Tag → RespValue → Bytes → Prop
  | line {tag : Tag} {l : Bytes} {v : RespValue} (hl : NoCrlf l)
      (hread : readLine isDouble tag l = some v) : Body isDouble arrayChild child tag v (l ++ crlf)
  | nullBulk {u : Bytes} (hlen : LengthText none u) :
      Body isDouble arrayChild child .bulkString (.bulkString (.null 0)) u
  | blob {tag : Tag} {wrap : RespStr → RespValue} {b u : Bytes} (hwrap : blobWrap tag = some wrap)
      (hblob : BlobText (some b) u) : Body isDouble arrayChild child tag (wrap (.view b)) u
  | nullArray {u : Bytes} (hlen : LengthText none u) :
      Body isDouble arrayChild child .array (.array [] true) u
  | array {items : List RespValue} {u body : Bytes} (hlen : LengthText (some items.length) u)
      (hitems : Each arrayChild items body) :
      Body isDouble arrayChild child .array (.array items false) (u ++ body)
  | aggregate {tag : Tag} {items : List RespValue} {n : Nat} {u body : Bytes}
      (htag : tag = .map ∨ tag = .set ∨ tag = .push) (hlen : LengthText (some n) u)
      (hslots : items.length = slotsOf tag n) (hmap : tag = .map → n ≤ respMaxArrayLen / 2)
      (hitems : Each child items body) :
      Body isDouble arrayChild child tag (aggregateOf tag items) (u ++ body)

def BulkText (v : RespValue) (u : Bytes) : Prop :=
  ∃ b w, v = bulkOf b ∧ u = Tag.bulkString.byte :: w ∧ BlobText b w

/-- The texts of a value that nests at most so many levels deep. -/
def Encodes (isDouble : Bytes → Bool) : Nat → RespValue → Bytes → Prop
  | 0, _, _ => False
  | d + 1, v, u => ∃ tag w, u = tag.byte :: w ∧
      Body isDouble (fun v u => BulkText v u ∨ Encodes isDouble d v u) (Encodes isDouble d) tag v w

theorem LengthText.two_le (h : LengthText len u) : 2 ≤ u.length := by
  obtain ⟨t, -, rfl⟩ := h
  simp [crlf]

theorem BlobText.two_le {b : Option Bytes} (h : BlobText b u) : 2 ≤ u.length := by
  cases b with
  | none => exact LengthText.two_le h
  | some b =>
    obtain ⟨t, -, rfl⟩ := h
    simp [crlf]
    omega

theorem BulkText.three_le (h : BulkText v u) : 3 ≤ u.length := by
  obtain ⟨b, w, -, rfl, hblob⟩ := h
  exact Nat.succ_le_succ hblob.two_le

theorem Encodes.three_le {isDouble : Bytes → Bool} (h : Encodes isDouble d v u) : 3 ≤ u.length := by
  cases d with
  | zero => exact h.elim
  | succ d =>
    obtain ⟨tag, w, rfl, hbody⟩ := h
    refine Nat.succ_le_succ ?_
    cases hbody with
    | line _ _ => simp [crlf]
    | nullBulk hlen => exact hlen.two_le
    | blob _ hblob => exact hblob.two_le
    | nullArray hlen => exact hlen.two_le
    | array hlen _ => exact hlen.two_le.trans (by simp)
    | aggregate _ hlen _ _ _ => exact hlen.two_le.trans (by simp)

/-! ## Aggregates -/

theorem parseAggregate_recognises (tag : Tag) {items : Nat → Parse (List RespValue)}
    {R : RespValue → Bytes → Prop}
    (hitems : ∀ n, Recognises (items n) (fun vs u => vs.length = n ∧ Each R vs u))
    (hthree : ∀ v u, R v u → 3 ≤ u.length) :
    Recognises (parseAggregate tag items) (fun v u =>
      (tag = .array ∧ v = .array [] true ∧ LengthText none u) ∨
      ∃ n vs x y, u = x ++ y ∧ LengthText (some n) x ∧ (tag = .map → n ≤ respMaxArrayLen / 2) ∧
        vs.length = slotsOf tag n ∧ v = aggregateOf tag vs ∧ Each R vs y) := by
  refine (parseLength_recognises.andThen
    (S := fun len v u => (len = none ∧ tag = .array ∧ v = .array [] true ∧ u = []) ∨
      ∃ n vs, len = some n ∧ (tag = .map → n ≤ respMaxArrayLen / 2) ∧
        vs.length = slotsOf tag n ∧ v = aggregateOf tag vs ∧ Each R vs u) fun len => ?_).congr
    fun v u => ?_
  · cases len with
    | none =>
      by_cases htag : tag = .array
      · simp only [if_pos htag]
        exact (Recognises.done (RespValue.array [] true)).congr fun v u => by simp [htag]
      · simp only [if_neg htag]
        exact Recognises.failed.congr fun v u => by simp [htag]
    | some n =>
      by_cases hmap : tag = .map ∧ respMaxArrayLen / 2 < n
      · simp only [if_pos hmap]
        refine Recognises.failed.congr fun v u => ?_
        constructor
        · exact False.elim
        rintro (⟨hnone, -⟩ | ⟨m, vs, hm, hle, -⟩)
        · cases hnone
        · cases hm
          exact absurd (hle hmap.1) (Nat.not_le.mpr hmap.2)
      simp only [if_neg hmap]
      have hguarded := (hitems (slotsOf tag n)).map (aggregateOf tag) |>.guard
        (s := fun k => k / 3 < slotsOf tag n) (by
          rintro v u ⟨vs, -, hlen, heach⟩ k hk
          have hlong := heach.length_le hthree
          omega)
      refine hguarded.congr fun v u => ?_
      constructor
      · rintro ⟨vs, rfl, hlen, heach⟩
        exact Or.inr ⟨n, vs, rfl, fun ht => Nat.not_lt.mp fun hlt => hmap ⟨ht, hlt⟩, hlen, rfl,
          heach⟩
      rintro (⟨hnone, -⟩ | ⟨m, vs, hm, -, hlen, rfl, heach⟩)
      · cases hnone
      · cases hm
        exact ⟨vs, rfl, hlen, heach⟩
  · constructor
    · rintro ⟨len, x, y, rfl, hlen, ⟨rfl, htag, rfl, rfl⟩ | ⟨n, vs, rfl, hmap, hslots, rfl, heach⟩⟩
      · rw [append_nil]
        exact Or.inl ⟨htag, rfl, hlen⟩
      · exact Or.inr ⟨n, vs, x, y, rfl, hlen, hmap, hslots, rfl, heach⟩
    · rintro (⟨htag, rfl, hlen⟩ | ⟨n, vs, x, y, rfl, hlen, hmap, hslots, rfl, heach⟩)
      · exact ⟨none, u, [], (append_nil _).symm, hlen, Or.inl ⟨rfl, htag, rfl, rfl⟩⟩
      · exact ⟨some n, x, y, rfl, hlen, Or.inr ⟨n, vs, rfl, hmap, hslots, rfl, heach⟩⟩

def parseArrayChild (child : Parse RespValue) : Parse RespValue := fun cur =>
  if cur.head? = some Tag.bulkString.byte then parseBulk cur.tail else child cur

/-- The inline loop reads what the general one reads, if a bulk is read alike by both
or the general one reads nothing. -/
theorem parseArrayItems_eq
    (hchild : (∀ p, child (Tag.bulkString.byte :: p) = parseBulk p) ∨ ∀ cur, child cur = .failed)
    (n : Nat) (cur : Bytes) :
    parseArrayItems child n cur = repeatN (parseArrayChild child) n cur := by
  induction n generalizing cur with
  | zero => rfl
  | succ n ih =>
    unfold parseArrayItems
    rw [leadingBulks, repeatN, parseArrayChild]
    by_cases hhead : cur.head? = some Tag.bulkString.byte
    · rw [if_pos hhead, if_pos hhead]
      cases parseBulk cur.tail with
      | incomplete => rfl
      | failed => rfl
      | done v rest =>
        simp only [Parsed.andThen]
        rw [← ih rest]
        unfold parseArrayItems
        cases leadingBulks n rest with
        | incomplete => rfl
        | failed => rfl
        | done vs rest' =>
          simp only [Parsed.map, Parsed.andThen, List.length_cons, Nat.add_sub_add_right]
          cases repeatN child (n - vs.length) rest' <;> rfl
    · rw [if_neg hhead, if_neg hhead]
      rcases hchild with hsame | hnone
      · have hfun : parseArrayChild child = child := by
          funext p
          cases p with
          | nil => rfl
          | cons c p =>
            unfold parseArrayChild
            split_ifs with hc
            · cases hc
              exact (hsame p).symm
            · rfl
        rw [hfun]
        simp only [Parsed.andThen, List.length_nil, Nat.sub_zero]
        rw [repeatN]
        cases child cur with
        | incomplete => rfl
        | failed => rfl
        | done v rest =>
          simp only [Parsed.andThen]
          cases repeatN child n rest <;> rfl
      · simp only [Parsed.andThen, List.length_nil, Nat.sub_zero, repeatN, hnone, Parsed.map]

theorem parseBulk_recognises : Recognises parseBulk (fun v u => ∃ b, bulkOf b = v ∧ BlobText b u) :=
  parseBlob_recognises.map bulkOf

theorem parseBlobAs_recognises (wrap : RespStr → RespValue) :
    Recognises (parseBlobAs wrap) (fun v u => ∃ b, v = wrap (.view b) ∧ BlobText (some b) u) := by
  refine (parseBlob_recognises.andThen
    (S := fun b v u => ∃ c, b = some c ∧ v = wrap (.view c) ∧ u = []) fun b => ?_).congr
    fun v u => ?_
  · cases b with
    | none => exact Recognises.failed.congr fun v u => by simp
    | some b => exact (Recognises.done (wrap (.view b))).congr fun v u => by simp
  constructor
  · rintro ⟨_, x, _, rfl, hblob, c, rfl, rfl, rfl⟩
    exact ⟨c, rfl, (append_nil x).symm ▸ hblob⟩
  · rintro ⟨c, rfl, hblob⟩
    exact ⟨some c, u, [], (append_nil u).symm, hblob, c, rfl, rfl, rfl⟩

section Body

variable {isDouble : Bytes → Bool} {A C : RespValue → Bytes → Prop} {tag : Tag}

theorem body_line_iff (htag : blobWrap tag = none ∧
    tag ≠ .array ∧ tag ≠ .map ∧ tag ≠ .set ∧ tag ≠ .push) (v : RespValue) (u : Bytes) :
    Body isDouble A C tag v u ↔
      ∃ l, NoCrlf l ∧ readLine isDouble tag l = some v ∧ u = l ++ crlf := by
  constructor
  · intro h
    cases h with
    | line hl hread => exact ⟨_, hl, hread, rfl⟩
    | nullBulk _ => cases htag.1
    | blob hwrap _ => rw [htag.1] at hwrap; cases hwrap
    | nullArray _ | array _ _ => exact absurd rfl htag.2.1
    | aggregate hkind _ _ _ _ =>
      rcases hkind with rfl | rfl | rfl
      · exact absurd rfl htag.2.2.1
      · exact absurd rfl htag.2.2.2.1
      · exact absurd rfl htag.2.2.2.2
  · rintro ⟨l, hl, hread, rfl⟩
    exact .line hl hread

theorem body_bulk_iff (v : RespValue) (u : Bytes) :
    Body isDouble A C .bulkString v u ↔ ∃ b, bulkOf b = v ∧ BlobText b u := by
  constructor
  · intro h
    cases h with
    | line _ hread => cases hread
    | nullBulk hlen => exact ⟨none, rfl, hlen⟩
    | blob hwrap hblob =>
      cases hwrap
      exact ⟨some _, rfl, hblob⟩
    | aggregate hkind _ _ _ _ => rcases hkind with h | h | h <;> cases h
  · rintro ⟨b, rfl, hblob⟩
    cases b with
    | none => exact .nullBulk hblob
    | some b => exact .blob rfl hblob

theorem body_blob_iff {wrap : RespStr → RespValue} (hwrap : blobWrap tag = some wrap)
    (hbulk : tag ≠ .bulkString) (v : RespValue) (u : Bytes) :
    Body isDouble A C tag v u ↔ ∃ b, v = wrap (.view b) ∧ BlobText (some b) u := by
  constructor
  · intro h
    cases h with
    | line _ hread => cases tag <;> first | cases hwrap; done | cases hread
    | nullBulk _ => exact absurd rfl hbulk
    | blob hwrap' hblob =>
      rw [hwrap] at hwrap'
      cases hwrap'
      exact ⟨_, rfl, hblob⟩
    | nullArray _ | array _ _ => cases hwrap
    | aggregate hkind _ _ _ _ => rcases hkind with rfl | rfl | rfl <;> cases hwrap
  · rintro ⟨b, rfl, hblob⟩
    exact .blob hwrap hblob

theorem body_array_iff (v : RespValue) (u : Bytes) :
    Body isDouble A C .array v u ↔
      (Tag.array = .array ∧ v = .array [] true ∧ LengthText none u) ∨
      ∃ n vs x y, u = x ++ y ∧ LengthText (some n) x ∧
        (Tag.array = .map → n ≤ respMaxArrayLen / 2) ∧
        vs.length = slotsOf .array n ∧ v = aggregateOf .array vs ∧ Each A vs y := by
  constructor
  · intro h
    cases h with
    | line _ hread => cases hread
    | blob hwrap _ => cases hwrap
    | nullArray hlen => exact Or.inl ⟨rfl, rfl, hlen⟩
    | array hlen hitems => exact Or.inr ⟨_, _, _, _, rfl, hlen, nofun, rfl, rfl, hitems⟩
    | aggregate hkind _ _ _ _ => rcases hkind with h | h | h <;> cases h
  · rintro (⟨-, rfl, hlen⟩ | ⟨n, vs, x, y, rfl, hlen, -, hslots, rfl, heach⟩)
    · exact .nullArray hlen
    have hn : n = vs.length := hslots.symm
    subst hn
    exact .array hlen heach

theorem body_aggregate_iff (htag : tag = .map ∨ tag = .set ∨ tag = .push) (v : RespValue)
    (u : Bytes) :
    Body isDouble A C tag v u ↔
      (tag = .array ∧ v = .array [] true ∧ LengthText none u) ∨
      ∃ n vs x y, u = x ++ y ∧ LengthText (some n) x ∧
        (tag = .map → n ≤ respMaxArrayLen / 2) ∧
        vs.length = slotsOf tag n ∧ v = aggregateOf tag vs ∧ Each C vs y := by
  have harray : tag ≠ .array := by rcases htag with rfl | rfl | rfl <;> decide
  have hread : ∀ l, readLine isDouble tag l = none := by
    intro l
    rcases htag with rfl | rfl | rfl <;> rfl
  have hblob : blobWrap tag = none := by rcases htag with rfl | rfl | rfl <;> rfl
  constructor
  · intro h
    cases h with
    | line _ h => rw [hread] at h; cases h
    | nullBulk _ => cases hblob
    | blob h _ => rw [hblob] at h; cases h
    | nullArray _ | array _ _ => exact absurd rfl harray
    | aggregate _ hlen hslots hmap hitems =>
      exact Or.inr ⟨_, _, _, _, rfl, hlen, hmap, hslots, rfl, hitems⟩
  · rintro (⟨h, -⟩ | ⟨n, vs, x, y, rfl, hlen, hmap, hslots, rfl, heach⟩)
    · exact absurd h harray
    · exact .aggregate htag hlen hslots hmap heach

/-- What follows a type byte is read by the grammar, if the children are. -/
theorem parseBody_recognises (hchild : Recognises child C)
    (harray : ∀ n, Recognises (parseArrayItems child n) (fun vs u => vs.length = n ∧ Each A vs u))
    (hthreeA : ∀ v u, A v u → 3 ≤ u.length) (hthreeC : ∀ v u, C v u → 3 ≤ u.length) (tag : Tag) :
    Recognises (parseBody isDouble child tag) (Body isDouble A C tag) := by
  have hline t ht :
      Recognises (parseLineAs (readLine isDouble t)) (Body isDouble A C t) :=
    (parseLineAs_recognises _).congr fun v u => (body_line_iff ht v u).symm
  have hagg t ht :
      Recognises (parseAggregate t (repeatN child)) (Body isDouble A C t) :=
    (parseAggregate_recognises t hchild.repeatN hthreeC).congr fun v u =>
      (body_aggregate_iff ht v u).symm
  cases tag with
  | bulkString => exact parseBulk_recognises.congr fun v u => (body_bulk_iff v u).symm
  | blobError | verbatimString =>
    exact (parseBlobAs_recognises _).congr fun v u => (body_blob_iff rfl (by decide) v u).symm
  | array =>
    exact (parseAggregate_recognises .array harray hthreeA).congr fun v u =>
      (body_array_iff v u).symm
  | map => exact hagg .map (by decide)
  | set => exact hagg .set (by decide)
  | push => exact hagg .push (by decide)
  | simpleString => exact hline .simpleString (by decide)
  | error => exact hline .error (by decide)
  | integer => exact hline .integer (by decide)
  | null => exact hline .null (by decide)
  | boolean => exact hline .boolean (by decide)
  | double => exact hline .double (by decide)
  | bigNumber => exact hline .bigNumber (by decide)

end Body

/-! ## The parser -/

theorem tagOf_eq_some {tag : Tag} : tagOf c = some tag ↔ c = tag.byte := by
  constructor
  · intro h
    have hbyte := List.find?_some h
    exact (beq_iff_eq.mp hbyte).symm
  · rintro rfl
    cases tag <;> rfl

theorem parseAt_bulk (isDouble : Bytes → Bool) (d : Nat) (p : Bytes) :
    parseAt isDouble (d + 1) (Tag.bulkString.byte :: p) = parseBulk p := rfl

theorem respParse_array (isDouble : Bytes → Bool) (w : Bytes) :
    respParse isDouble (Tag.array.byte :: w) =
      parseAggregate .array (parseArrayItems (parseAt isDouble respMaxDepth)) w := rfl

theorem parseArrayChild_recognises {isDouble : Bytes → Bool}
    (h : Recognises (parseAt isDouble d) (Encodes isDouble d)) :
    Recognises (parseArrayChild (parseAt isDouble d))
      (fun v u => BulkText v u ∨ Encodes isDouble d v u) := by
  intro inp v rest
  unfold parseArrayChild
  by_cases hhead : inp.head? = some Tag.bulkString.byte
  · obtain ⟨p, rfl⟩ : ∃ p, inp = Tag.bulkString.byte :: p := List.head?_eq_some_iff.mp hhead
    rw [if_pos hhead, List.tail_cons]
    constructor
    · intro hdone
      obtain ⟨w, rfl, b, rfl, hblob⟩ := (parseBulk_recognises _ _ _).mp hdone
      exact ⟨_ :: w, rfl, Or.inl ⟨b, w, rfl, rfl, hblob⟩⟩
    rintro ⟨used, heq, ⟨b, w, rfl, rfl, hblob⟩ | henc⟩
    · obtain rfl := (List.cons.inj heq).2
      exact parseBulk_recognises.apply_append ⟨b, rfl, hblob⟩ rest
    cases d with
    | zero => exact henc.elim
    | succ d => rw [← parseAt_bulk isDouble d, heq, h.apply_append henc]
  · rw [if_neg hhead]
    constructor
    · intro hdone
      obtain ⟨used, rfl, henc⟩ := (h _ _ _).mp hdone
      exact ⟨used, rfl, Or.inr henc⟩
    · rintro ⟨used, rfl, ⟨b, w, rfl, rfl, hblob⟩ | henc⟩
      · exact absurd rfl hhead
      · exact h.apply_append henc rest

theorem parseArrayItems_parseAt (isDouble : Bytes → Bool) (d n : Nat) :
    parseArrayItems (parseAt isDouble d) n = repeatN (parseArrayChild (parseAt isDouble d)) n := by
  funext cur
  refine parseArrayItems_eq ?_ n cur
  cases d with
  | zero => exact Or.inr fun _ => rfl
  | succ d => exact Or.inl (parseAt_bulk isDouble d)

/-- A value is read off the front of the buffer exactly when one of its texts is
there. -/
theorem parseAt_recognises (isDouble : Bytes → Bool) (d : Nat) :
    Recognises (parseAt isDouble d) (Encodes isDouble d) := by
  -- along the levels that are left: the children are one level further down
  induction d with
  | zero => exact Recognises.failed
  | succ d ih =>
    have harray n : Recognises (parseArrayItems (parseAt isDouble d) n)
        (fun vs u => vs.length = n ∧
          Each (fun v u => BulkText v u ∨ Encodes isDouble d v u) vs u) := by
      rw [parseArrayItems_parseAt]
      exact (parseArrayChild_recognises ih).repeatN n
    have hbody tag : Recognises (parseBody isDouble (parseAt isDouble d) tag)
        (Body isDouble (fun v u => BulkText v u ∨ Encodes isDouble d v u)
          (Encodes isDouble d) tag) :=
      parseBody_recognises ih harray
        (fun v u h => h.elim BulkText.three_le Encodes.three_le) (fun v u => Encodes.three_le) tag
    refine (Recognises.cons (S := fun c v w => ∃ tag, c = tag.byte ∧ Body isDouble
        (fun v u => BulkText v u ∨ Encodes isDouble d v u) (Encodes isDouble d) tag v w)
      (fun c => ?_) (fun v rest h => by cases h) (fun _ _ => rfl)).congr fun v u => ?_
    · cases htag : tagOf c with
      | none =>
        simp only [parseAt, htag]
        refine Recognises.failed.congr fun v u => ?_
        constructor
        · exact False.elim
        rintro ⟨tag, rfl, -⟩
        rw [tagOf_eq_some.mpr rfl] at htag
        cases htag
      | some tag =>
        simp only [parseAt, htag]
        refine (hbody tag).congr fun v u => ?_
        have hc := tagOf_eq_some.mp htag
        constructor
        · intro h
          exact ⟨tag, hc, h⟩
        rintro ⟨tag', hc', h⟩
        have heq := tagOf_eq_some.mpr hc'
        rw [htag] at heq
        cases heq
        exact h
    · constructor
      · rintro ⟨_, w, rfl, tag, rfl, h⟩
        exact ⟨tag, w, rfl, h⟩
      · rintro ⟨tag, w, rfl, h⟩
        exact ⟨_, w, rfl, tag, rfl, h⟩

end Ddup.Resp
