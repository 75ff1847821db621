/-
Ddup.Resp.FastPathTheorems — the inline bulk loop of `parse_at` against the general recursion.

`parseAtPlain` is `parse_at` with the inline loop removed: every child of an array goes
through the recursion, which checks the depth first. The two agree until the recursion comes
to an array on the last level that may have children. There the inline loop still reads bulks,
while the recursion refuses any child; `DeepBulks` is the input that leads there and is not
refused for another reason.
-/
import Ddup.Resp.ParserTheorems

namespace Ddup.Resp

open Ddup.Lib

/-! ## The parser without the inline loop -/

/-- What follows a type byte, every child through the general parser. -/
def parseBodyPlain (isDouble : Bytes → Bool) (child : Parse RespValue) (tag : Tag) :
    Parse RespValue :=
  match tag with
  | .array => parseAggregate .array (repeatN child)
  | _ => parseBody isDouble child tag

/-- `parse_at` without the inline loop. -/
def parseAtPlain (isDouble : Bytes → Bool) : Nat → Parse RespValue
  | 0, _ => .failed
  | _ + 1, [] => .incomplete
  | d + 1, c :: p =>
    match tagOf c with
    | none => .failed
    | some tag => parseBodyPlain isDouble (parseAtPlain isDouble d) tag p

/-- Children of an array on the last level, as the inline loop reads them: bulks only. -/
def bulkChild : Parse RespValue := parseArrayChild fun _ => .failed

/-- The input leads to an array on the last level, all of whose children are bulks as far as
the input goes, and nothing that follows it in the aggregates around it is refused. -/
def DeepBulks (isDouble : Bytes → Bool) : Nat → Bytes → Prop
  | 0, _ => False
  | d + 1, inp => ∃ tag q n cur, inp = tag.byte :: q ∧ parseLength q = .done (some n) cur ∧
      (tag = .map → n ≤ respMaxArrayLen / 2) ∧ slotsOf tag n ≤ cur.length / 3 ∧
      ((d = 0 ∧ tag = .array ∧ 0 < n ∧ repeatN bulkChild n cur ≠ .failed) ∨
        ((tag = .array ∨ tag = .map ∨ tag = .set ∨ tag = .push) ∧
          ∃ i before rest, i < slotsOf tag n ∧
            repeatN (parseAt isDouble d) i cur = .done before rest ∧ DeepBulks isDouble d rest ∧
            repeatN (parseAt isDouble d) (slotsOf tag n - i) rest ≠ .failed))

/-! ## One child after the other -/

section Repeat

variable {f g : Parse RespValue} {D : Bytes → Prop}

/-- Two parsers that agree outside `D`, where only the first one refuses: their repetitions
agree unless a child in `D` is reached and nothing behind it is refused. -/
theorem repeatN_agree (hsame : ∀ x, ¬ D x → f x = g x) (hdiff : ∀ x, D x → f x = .failed)
    (n : Nat) {cur : Bytes}
    (h : ∀ i before rest, i < n → repeatN g i cur = .done before rest → D rest →
      repeatN g (n - i) rest = .failed) : repeatN f n cur = repeatN g n cur := by
  induction n generalizing cur with
  | zero => rfl
  | succ n ih =>
    by_cases hcur : D cur
    · have hg : repeatN g (n + 1) cur = .failed := h 0 [] cur (Nat.succ_pos n) rfl hcur
      rw [hg, repeatN, hdiff cur hcur]
      rfl
    rw [repeatN, repeatN, hsame cur hcur]
    cases hchild : g cur with
    | incomplete => rfl
    | failed => rfl
    | done v rest =>
      have hrest : repeatN f n rest = repeatN g n rest := by
        refine ih fun i before rest' hi hread hdeep => ?_
        have hnext : repeatN g (i + 1) cur = .done (v :: before) rest' := by
          rw [repeatN, hchild]
          show (repeatN g i rest).map _ = _
          rw [hread]
          rfl
        have := h (i + 1) (v :: before) rest' (Nat.succ_lt_succ hi) hnext hdeep
        rwa [Nat.succ_sub_succ] at this
      show (repeatN f n rest).map _ = (repeatN g n rest).map _
      rw [hrest]

/-- A child in `D` with nothing refused behind it makes the repetitions differ. -/
theorem repeatN_differ (hsame : ∀ x, ¬ D x → f x = g x) (hdiff : ∀ x, D x → f x = .failed)
    {i n : Nat} {cur rest : Bytes} {before : List RespValue} (hi : i < n)
    (hread : repeatN g i cur = .done before rest) (hdeep : D rest)
    (hgood : repeatN g (n - i) rest ≠ .failed) :
    repeatN f n cur = .failed ∧ repeatN g n cur ≠ .failed := by
  induction i generalizing n cur before with
  | zero =>
    cases hread
    refine ⟨?_, hgood⟩
    obtain ⟨m, rfl⟩ : ∃ m, n = m + 1 := ⟨n - 1, by omega⟩
    rw [repeatN, hdiff _ hdeep]
    rfl
  | succ i ih =>
    obtain ⟨m, rfl⟩ : ∃ m, n = m + 1 := ⟨n - 1, by omega⟩
    rw [repeatN] at hread
    cases hchild : g cur with
    | incomplete =>
      rw [hchild] at hread
      cases hread
    | failed =>
      rw [hchild] at hread
      cases hread
    | done v mid =>
      rw [hchild] at hread
      have hmid : ∃ vs, repeatN g i mid = .done vs rest := by
        cases hrest : repeatN g i mid with
        | incomplete =>
          simp only [Parsed.andThen, hrest] at hread
          cases hread
        | failed =>
          simp only [Parsed.andThen, hrest] at hread
          cases hread
        | done vs rest' =>
          simp only [Parsed.andThen, hrest] at hread
          cases hread
          exact ⟨vs, rfl⟩
      obtain ⟨vs, hvs⟩ := hmid
      rw [Nat.succ_sub_succ] at hgood
      obtain ⟨hf, hg⟩ := ih (Nat.lt_of_succ_lt_succ hi) hvs hgood
      constructor
      · rw [repeatN]
        by_cases hcur : D cur
        · rw [hdiff cur hcur]
          rfl
        rw [hsame cur hcur, hchild]
        show (repeatN f m mid).map _ = _
        rw [hf]
        rfl
      · rw [repeatN, hchild]
        show (repeatN g m mid).map _ ≠ _
        cases hrun : repeatN g m mid with
        | failed => exact absurd hrun hg
        | incomplete => exact fun h => by cases h
        | done vs' rest' => exact fun h => by cases h

end Repeat

/-! ## Aggregates -/

section Aggregates

variable {tag : Tag} {q cur : Bytes} {n : Nat}

theorem parseAggregate_items (F : Nat → Parse (List RespValue))
    (hlen : parseLength q = .done (some n) cur) (hmap : tag = .map → n ≤ respMaxArrayLen / 2)
    (hroom : slotsOf tag n ≤ cur.length / 3) :
    parseAggregate tag F q = (F (slotsOf tag n) cur).map (aggregateOf tag) := by
  unfold parseAggregate
  rw [hlen]
  show (if tag = .map ∧ respMaxArrayLen / 2 < n then .failed
    else if cur.length / 3 < slotsOf tag n then .incomplete
    else (F (slotsOf tag n) cur).map (aggregateOf tag)) = _
  rw [if_neg (fun h => Nat.not_lt.mpr (hmap h.1) h.2), if_neg (Nat.not_lt.mpr hroom)]

theorem parseAggregate_congr {F G : Nat → Parse (List RespValue)}
    (h : ∀ n cur, parseLength q = .done (some n) cur → (tag = .map → n ≤ respMaxArrayLen / 2) →
      slotsOf tag n ≤ cur.length / 3 → F (slotsOf tag n) cur = G (slotsOf tag n) cur) :
    parseAggregate tag F q = parseAggregate tag G q := by
  unfold parseAggregate
  cases hlen : parseLength q with
  | incomplete | failed => rfl
  | done len cur =>
    cases len with
    | none => rfl
    | some n =>
      show (if tag = .map ∧ respMaxArrayLen / 2 < n then .failed
        else if cur.length / 3 < slotsOf tag n then .incomplete
        else (F (slotsOf tag n) cur).map (aggregateOf tag)) = _
      by_cases hmap : tag = .map ∧ respMaxArrayLen / 2 < n
      · rw [if_pos hmap]
        exact (if_pos hmap).symm
      by_cases hroom : cur.length / 3 < slotsOf tag n
      · rw [if_neg hmap, if_pos hroom]
        exact ((if_neg hmap).trans (if_pos hroom)).symm
      rw [if_neg hmap, if_neg hroom, h n cur hlen
        (fun ht => Nat.not_lt.mp fun hlt => hmap ⟨ht, hlt⟩) (Nat.not_lt.mp hroom)]
      exact ((if_neg hmap).trans (if_neg hroom)).symm

theorem map_ne_failed {r : Parsed UInt8 (List RespValue)} {f : List RespValue → RespValue}
    (h : r ≠ .failed) : r.map f ≠ .failed := by
  cases r with
  | failed => exact absurd rfl h
  | incomplete | done v rest => exact nofun

end Aggregates

/-! ## All values -/

section Values

variable (isDouble : Bytes → Bool) {d : Nat}

/-- What `DeepBulks` is for: outside of it the two parsers agree, inside only the one
without the inline loop refuses. -/
structure Split (d : Nat) (inp : Bytes) : Prop where
  same : ¬ DeepBulks isDouble d inp → parseAtPlain isDouble d inp = parseAt isDouble d inp
  refused : DeepBulks isDouble d inp → parseAtPlain isDouble d inp = .failed
  accepted : DeepBulks isDouble d inp → parseAt isDouble d inp ≠ .failed

variable {isDouble}

theorem parseArrayChild_parseAt (d : Nat) :
    parseArrayChild (parseAt isDouble (d + 1)) = parseAt isDouble (d + 1) := by
  funext cur
  unfold parseArrayChild
  split
  · rename_i hhead
    cases cur with
    | nil => cases hhead
    | cons c p =>
      cases hhead
      rfl
  · rfl

theorem split_aggregate {tag : Tag} {q : Bytes} (ih : ∀ inp, Split isDouble d inp)
    (hagg : tag = .array ∨ tag = .map ∨ tag = .set ∨ tag = .push) (hlast : ¬ (d = 0 ∧ tag = .array))
    (hplain : parseAtPlain isDouble (d + 1) (tag.byte :: q)
      = parseAggregate tag (repeatN (parseAtPlain isDouble d)) q)
    (hfast : parseAt isDouble (d + 1) (tag.byte :: q)
      = parseAggregate tag (repeatN (parseAt isDouble d)) q) :
    Split isDouble (d + 1) (tag.byte :: q) := by
  have hdiffer : DeepBulks isDouble (d + 1) (tag.byte :: q) →
      parseAggregate tag (repeatN (parseAtPlain isDouble d)) q = .failed ∧
        parseAggregate tag (repeatN (parseAt isDouble d)) q ≠ .failed := by
    rintro ⟨tag', q', n, cur, heq, hlen, hmap, hroom, hdeep⟩
    obtain ⟨hbyte, rfl⟩ := List.cons.inj heq
    obtain rfl : tag = tag' := Option.some.inj
      ((tagOf_eq_some.mpr rfl).symm.trans (tagOf_eq_some.mpr hbyte))
    rcases hdeep with ⟨rfl, rfl, -⟩ | ⟨-, i, before, rest, hi, hread, hchild, hgood⟩
    · exact absurd ⟨rfl, rfl⟩ hlast
    obtain ⟨hf, hg⟩ := repeatN_differ (fun x => (ih x).same) (fun x => (ih x).refused) hi hread
      hchild hgood
    rw [parseAggregate_items _ hlen hmap hroom, parseAggregate_items _ hlen hmap hroom, hf]
    exact ⟨rfl, map_ne_failed hg⟩
  refine ⟨fun hdeep => ?_, fun hdeep => ?_, fun hdeep => ?_⟩
  · rw [hplain, hfast]
    refine parseAggregate_congr fun n cur hlen hmap hroom => ?_
    refine repeatN_agree (fun x => (ih x).same) (fun x => (ih x).refused) _ ?_
    intro i before rest hi hread hchild
    by_contra hgood
    exact hdeep ⟨tag, q, n, cur, rfl, hlen, hmap, hroom,
      .inr ⟨hagg, i, before, rest, hi, hread, hchild, hgood⟩⟩
  · rw [hplain]
    exact (hdiffer hdeep).1
  · rw [hfast]
    exact (hdiffer hdeep).2

/-- An array on the last level: the recursion refuses any child, the inline loop reads
bulks. -/
theorem split_lastArray (q : Bytes) : Split isDouble 1 (Tag.array.byte :: q) := by
  have hplain : parseAtPlain isDouble 1 (Tag.array.byte :: q)
      = parseAggregate .array (repeatN (parseAtPlain isDouble 0)) q := rfl
  have hfast : parseAt isDouble 1 (Tag.array.byte :: q)
      = parseAggregate .array (repeatN bulkChild) q := by
    refine parseAggregate_congr fun n cur _ _ _ => ?_
    rw [parseArrayItems_parseAt]
    rfl
  have hnone m cur :
      repeatN (parseAtPlain isDouble 0) (m + 1) cur = .failed := rfl
  have hdiffer : DeepBulks isDouble 1 (Tag.array.byte :: q) →
      parseAggregate .array (repeatN (parseAtPlain isDouble 0)) q = .failed ∧
        parseAggregate .array (repeatN bulkChild) q ≠ .failed := by
    rintro ⟨tag, q', n, cur, heq, hlen, hmap, hroom, hdeep⟩
    obtain ⟨hbyte, rfl⟩ := List.cons.inj heq
    obtain rfl : Tag.array = tag := Option.some.inj
      ((tagOf_eq_some.mpr rfl).symm.trans (tagOf_eq_some.mpr hbyte))
    rcases hdeep with ⟨-, -, hpos, hgood⟩ | ⟨-, _, _, _, -, -, hfalse, -⟩
    · rw [parseAggregate_items _ hlen hmap hroom, parseAggregate_items _ hlen hmap hroom]
      obtain ⟨m, rfl⟩ : ∃ m, n = m + 1 := ⟨n - 1, by omega⟩
      exact ⟨rfl, map_ne_failed hgood⟩
    · exact hfalse.elim
  refine ⟨fun hdeep => ?_, fun hdeep => ?_, fun hdeep => ?_⟩
  · rw [hfast]
    refine parseAggregate_congr fun n cur hlen hmap hroom => ?_
    cases n with
    | zero => rfl
    | succ m =>
      by_contra hne
      refine hdeep ⟨.array, q, m + 1, cur, rfl, hlen, hmap, hroom,
        .inl ⟨rfl, rfl, Nat.succ_pos m, fun hfail => hne ?_⟩⟩
      exact (hnone m cur).trans hfail.symm
  · rw [hplain]
    exact (hdiffer hdeep).1
  · rw [hfast]
    exact (hdiffer hdeep).2

theorem split_of_not_deep {inp : Bytes} (hdeep : ¬ DeepBulks isDouble d inp)
    (hsame : parseAtPlain isDouble d inp = parseAt isDouble d inp) : Split isDouble d inp :=
  ⟨fun _ => hsame, fun h => absurd h hdeep, fun h => absurd h hdeep⟩

theorem DeepBulks.aggregate {tag : Tag} {q : Bytes} (h : DeepBulks isDouble d (tag.byte :: q)) :
    tag = .array ∨ tag = .map ∨ tag = .set ∨ tag = .push := by
  cases d with
  | zero => exact h.elim
  | succ d =>
    obtain ⟨tag', q', n, cur, heq, -, -, -, hdeep⟩ := h
    obtain ⟨hbyte, -⟩ := List.cons.inj heq
    obtain rfl : tag = tag' := Option.some.inj
      ((tagOf_eq_some.mpr rfl).symm.trans (tagOf_eq_some.mpr hbyte))
    rcases hdeep with ⟨-, rfl, -⟩ | ⟨hagg, -⟩
    · exact .inl rfl
    · exact hagg

theorem split_all (d : Nat) (inp : Bytes) : Split isDouble d inp := by
  -- along the levels that are left
  induction d generalizing inp with
  | zero => exact split_of_not_deep id rfl
  | succ d ih =>
    cases inp with
    | nil =>
      refine split_of_not_deep ?_ rfl
      rintro ⟨tag, q, n, cur, heq, -⟩
      cases heq
    | cons c p =>
      cases htag : tagOf c with
      | none =>
        refine split_of_not_deep ?_ (by rw [parseAtPlain, parseAt, htag])
        rintro ⟨tag, q, n, cur, heq, -⟩
        rw [(List.cons.inj heq).1, tagOf_eq_some.mpr rfl] at htag
        cases htag
      | some tag =>
        obtain rfl := tagOf_eq_some.mp htag
        have hplain : parseAtPlain isDouble (d + 1) (tag.byte :: p)
            = parseBodyPlain isDouble (parseAtPlain isDouble d) tag p := by
          rw [parseAtPlain, htag]
        have hfast : parseAt isDouble (d + 1) (tag.byte :: p)
            = parseBody isDouble (parseAt isDouble d) tag p := by
          rw [parseAt, htag]
        by_cases hagg : tag = .array ∨ tag = .map ∨ tag = .set ∨ tag = .push
        · by_cases hlast : d = 0 ∧ tag = .array
          · obtain ⟨rfl, rfl⟩ := hlast
            exact split_lastArray p
          refine split_aggregate ih hagg hlast ?_ ?_
          · rcases hagg with rfl | rfl | rfl | rfl <;> exact hplain
          rcases hagg with rfl | rfl | rfl | rfl
          · obtain ⟨m, rfl⟩ : ∃ m, d = m + 1 := ⟨d - 1, by
              have : d ≠ 0 := fun h => hlast ⟨h, rfl⟩
              omega⟩
            refine parseAggregate_congr fun n cur _ _ _ => ?_
            rw [parseArrayItems_parseAt, parseArrayChild_parseAt]
          all_goals exact hfast
        · refine split_of_not_deep (fun h => hagg h.aggregate) ?_
          cases tag <;> first | rfl | exact absurd (by simp) hagg

end Values

/-- The inline loop changes nothing unless the input leads to bulks below the last level. -/
theorem parseAtPlain_eq_iff (isDouble : Bytes → Bool) (d : Nat) (inp : Bytes) :
    parseAtPlain isDouble d inp = parseAt isDouble d inp ↔ ¬ DeepBulks isDouble d inp := by
  obtain ⟨hsame, hrefused, haccepted⟩ : Split isDouble d inp := split_all d inp
  refine ⟨fun heq hdeep => haccepted hdeep ?_, hsame⟩
  rw [← heq, hrefused hdeep]

def lastArray : Bytes := text "*1\r\n$0\r\n\r\n"

/-- On the last level the inline loop accepts what the recursion refuses. -/
theorem lastArray_differs :
    ¬ ∀ (isDouble : Bytes → Bool) (d : Nat) (inp : Bytes),
      parseAtPlain isDouble d inp = parseAt isDouble d inp := by
  intro h
  have hsame := h (fun _ => false) 1 lastArray
  cases hsame

end Ddup.Resp
