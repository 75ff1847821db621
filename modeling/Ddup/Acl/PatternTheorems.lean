/-
Ddup.Acl.PatternTheorems — the matcher of `core/acl.c` and the language of a pattern.

`acl_match_pattern` remembers the last star and retries behind it. It holds a
pattern byte against the key byte before it asks whether that byte is a star, so a
star that meets a `*` of the key is taken for that byte and never remembered. Where
this cannot happen the matcher decides the language (`aclMatchLoop_iff`).
-/
import Ddup.Acl.Authorize

namespace Ddup.Acl

/-! ## The language of a pattern -/

/-- A pattern byte that is no star, against one byte of the key. -/
def Fits (c b : UInt8) : Prop := c = 63 ∨ c = b

/-- The keys of a pattern: `*` stands for any bytes, `?` for one byte, every other
byte for itself. -/
def PatternLang : Bytes → Bytes → Prop
  | [], key => key = []
  | c :: pat, key =>
    if c = 42 then ∃ rest, rest <:+ key ∧ PatternLang pat rest
    else ∃ b rest, key = b :: rest ∧ Fits c b ∧ PatternLang pat rest

theorem patternLang_nil (pat : Bytes) : PatternLang pat [] ↔ pat.all (· == 42) = true := by
  induction pat with
  | nil => simp [PatternLang]
  | cons c pat ih => by_cases hc : c = 42 <;> simp [PatternLang, ih]

theorem patternLang_cons {c : UInt8} (hc : c ≠ 42) (b : UInt8) (pat key : Bytes) :
    PatternLang (c :: pat) (b :: key) ↔ Fits c b ∧ PatternLang pat key := by
  simp [PatternLang, hc]

theorem patternLang_append {piece front : Bytes} (hpiece : 42 ∉ piece)
    (hfits : List.Forall₂ Fits piece front) (pat back : Bytes) :
    PatternLang (piece ++ pat) (front ++ back) ↔ PatternLang pat back := by
  induction hfits with
  | nil => simp
  | cons hb _ ih =>
    simp only [List.mem_cons, not_or] at hpiece
    simp [patternLang_cons (Ne.symm hpiece.1), hb, ih hpiece.2]

/-- Wherever the pattern matches, the rest of it matches that many bytes later. -/
theorem patternLang_drop {piece : Bytes} (hpiece : 42 ∉ piece) {pat key : Bytes}
    (h : PatternLang (piece ++ pat) key) : PatternLang pat (key.drop piece.length) := by
  induction piece generalizing key with
  | nil => simpa using h
  | cons c piece ih =>
    simp only [List.mem_cons, not_or] at hpiece
    simp only [List.cons_append, PatternLang, Ne.symm hpiece.1] at h
    obtain ⟨b, rest, rfl, -, h⟩ := h
    simpa using ih hpiece.2 h

/-! ## The loop -/

/-- What the loop decides: with no star behind it, whether the rest of the pattern
matches the rest of the key; with a star at `s`, whether the pattern behind it
matches the key from `mark` or from somewhere later. -/
def Pending (pat key : Bytes) (pi ki : Nat) : Option Nat → Nat → Prop
  | none, _ => PatternLang (pat.drop pi) (key.drop ki)
  | some s, mark => ∃ rest, rest <:+ key.drop mark ∧ PatternLang (pat.drop (s + 1)) rest

/-- Since the last star the pattern has no star and fits the key from `mark`. -/
def Since (pat key : Bytes) (pi ki : Nat) : Option Nat → Nat → Prop
  | none, _ => True
  | some s, mark => s < pat.length ∧ ∃ piece front, 42 ∉ piece ∧ List.Forall₂ Fits piece front ∧
      pat.drop (s + 1) = piece ++ pat.drop pi ∧ key.drop mark = front ++ key.drop ki

variable {pat key : Bytes} {pi ki mark : Nat} {star : Option Nat}

/-- Where the rest of the pattern matches as much as it could at any later place,
what was fitted since the star is settled. -/
theorem pending_iff (hs : Since pat key pi ki star mark)
    (hrest : ∀ rest, rest <:+ key.drop ki → PatternLang (pat.drop pi) rest →
      PatternLang (pat.drop pi) (key.drop ki)) :
    Pending pat key pi ki star mark ↔ PatternLang (pat.drop pi) (key.drop ki) := by
  cases star with
  | none => rfl
  | some s =>
    obtain ⟨-, piece, front, hpiece, hfits, hpat, hkey⟩ := hs
    simp only [Pending, hpat, hkey]
    constructor
    · rintro ⟨rest, hsuffix, h⟩
      refine hrest _ ?_ (patternLang_drop hpiece h)
      refine List.suffix_of_suffix_length_le ((List.drop_suffix _ _).trans hsuffix)
        (List.suffix_append _ _) ?_
      have := hsuffix.length_le
      rw [List.length_append, ← hfits.length_eq] at this
      rw [List.length_drop]
      omega
    · intro h
      exact ⟨_, List.suffix_rfl, (patternLang_append hpiece hfits _ _).mpr h⟩

theorem pending_retry {s : Nat} (hs : Since pat key pi ki (some s) mark)
    (hmark : mark < key.length) (hno : ¬ PatternLang (pat.drop pi) (key.drop ki)) (pi' ki' : Nat) :
    Pending pat key pi ki (some s) mark ↔ Pending pat key pi' ki' (some s) (mark + 1) := by
  obtain ⟨-, piece, front, hpiece, hfits, hpat, hkey⟩ := hs
  constructor
  · rintro ⟨rest, hsuffix, h⟩
    refine ⟨rest, ?_, h⟩
    rw [List.drop_eq_getElem_cons hmark, List.suffix_cons_iff] at hsuffix
    rcases hsuffix with heq | hsuffix
    · rw [← List.drop_eq_getElem_cons hmark, hkey] at heq
      rw [heq, hpat, patternLang_append hpiece hfits] at h
      exact absurd h hno
    · exact hsuffix
  · rintro ⟨rest, hsuffix, h⟩
    exact ⟨rest, hsuffix.trans (List.drop_suffix_drop_left _ (by omega)), h⟩

theorem since_step (hp : pi < pat.length) (hk : ki < key.length) (hc : pat[pi] ≠ 42)
    (hfit : Fits pat[pi] key[ki]) (hs : Since pat key pi ki star mark) :
    Since pat key (pi + 1) (ki + 1) star mark ∧
      (Pending pat key (pi + 1) (ki + 1) star mark ↔ Pending pat key pi ki star mark) := by
  have hpat := List.drop_eq_getElem_cons hp
  have hkey := List.drop_eq_getElem_cons hk
  cases star with
  | none =>
    refine ⟨trivial, ?_⟩
    rw [Pending, Pending, hpat, hkey, patternLang_cons hc]
    simp [hfit]
  | some s =>
    obtain ⟨hstar, piece, front, hpiece, hfits, hp', hk'⟩ := hs
    refine ⟨⟨hstar, piece ++ [pat[pi]], front ++ [key[ki]], ?_, ?_, ?_, ?_⟩, Iff.rfl⟩
    · simp [hpiece, Ne.symm hc]
    · exact List.rel_append hfits (.cons hfit .nil)
    · rw [hp', hpat, List.append_assoc, List.singleton_append]
    · rw [hk', hkey, List.append_assoc, List.singleton_append]

/-- Where no star of the pattern can meet a `*` of the key, the loop decides what
is pending. -/
theorem aclMatchLoop_iff (h : 42 ∉ pat ∨ 42 ∉ key) (fuel : Nat) (hpi : pi ≤ pat.length)
    (hki : ki ≤ key.length) (hmark : mark ≤ ki) (hs : Since pat key pi ki star mark)
    (hfuel : (key.length - mark) * (pat.length + 2) + (pat.length + 1 - pi) < fuel) :
    aclMatchLoop pat key fuel pi ki star mark = true ↔ Pending pat key pi ki star mark := by
  induction fuel generalizing pi ki star mark with
  | zero => omega
  | succ fuel ih =>
    unfold aclMatchLoop
    split_ifs with hk hfit hstar
    · obtain ⟨hp, hfit⟩ := hfit
      rw [List.getElem?_eq_getElem hp, List.getElem?_eq_getElem hk, Option.some.injEq,
        Option.some.injEq] at hfit
      have hc : pat[pi] ≠ 42 := by
        intro hc
        rcases h with h | h
        · exact h (hc ▸ List.getElem_mem hp)
        rcases hfit with hfit | hfit
        · simp [hc] at hfit
        · exact h (hc ▸ hfit ▸ List.getElem_mem hk)
      obtain ⟨hs', hpending⟩ := since_step hp hk hc hfit hs
      rw [ih (by omega) (by omega) (by omega) hs' (by omega), hpending]
    · obtain ⟨hp, hstar⟩ := hstar
      have hpat := List.drop_eq_getElem_cons hp
      rw [List.getElem?_eq_getElem hp, Option.some.injEq] at hstar
      rw [hstar] at hpat
      have hmore := Nat.mul_le_mul_right (pat.length + 2) (Nat.sub_le_sub_left hmark key.length)
      have hs' : Since pat key (pi + 1) ki (some pi) ki := ⟨hp, [], [], by simp, .nil, rfl, rfl⟩
      rw [ih (by omega) hki (Nat.le_refl ki) hs' (by omega), pending_iff hs, hpat]
      · simp [Pending, PatternLang]
      rw [hpat]
      rintro rest hrest ⟨tail, htail, hlang⟩
      exact ⟨tail, htail.trans hrest, hlang⟩
    · have hkey := List.drop_eq_getElem_cons hk
      have hno : ¬ PatternLang (pat.drop pi) (key.drop ki) := by
        rw [hkey]
        by_cases hp : pi < pat.length
        · have hc : pat[pi] ≠ 42 := by simpa [hp] using hstar
          rw [List.drop_eq_getElem_cons hp, patternLang_cons hc]
          rintro ⟨hb, -⟩
          exact hfit ⟨hp, by simpa [hp, hk, Fits] using hb⟩
        · rw [List.drop_eq_nil_of_le (Nat.not_lt.mp hp)]
          exact List.cons_ne_nil _ _
      cases star with
      | none => simpa [Pending] using hno
      | some s =>
        obtain ⟨r, hr⟩ : ∃ r, key.length - mark = r + 1 := ⟨key.length - mark - 1, by omega⟩
        have hs' : Since pat key (s + 1) (mark + 1) (some s) (mark + 1) :=
          ⟨hs.1, [], [], by simp, .nil, rfl, rfl⟩
        rw [hr, Nat.succ_mul] at hfuel
        rw [pending_retry hs (by omega) hno (s + 1) (mark + 1)]
        refine ih hs.1 (by omega) (Nat.le_refl _) hs' ?_
        rw [show key.length - (mark + 1) = r by omega]
        omega
    · have hend : key.drop ki = [] := List.drop_eq_nil_of_le (by omega)
      rw [pending_iff hs (by simp [hend]), hend, patternLang_nil]

theorem aclMatchPattern_iff (h : 42 ∉ pat ∨ 42 ∉ key) :
    aclMatchPattern pat key = true ↔ PatternLang pat key := by
  have hs : Since pat key 0 0 none 0 := trivial
  refine aclMatchLoop_iff h _ (Nat.zero_le _) (Nat.zero_le _) (Nat.le_refl 0) hs ?_
  rw [Nat.succ_mul, Nat.sub_zero]
  omega

/-! ## A star that meets a star -/

theorem aclMatchLoop_straight {n : Nat} (h : ∀ j < n, j < pat.length ∧ j < key.length ∧
      (pat[j]? = some 63 ∨ pat[j]? = key[j]?)) (fuel k : Nat) (hk : k ≤ n) :
    aclMatchLoop pat key (fuel + k) (n - k) (n - k) none 0 =
      aclMatchLoop pat key fuel n n none 0 := by
  induction k with
  | zero => rfl
  | succ k ih =>
    obtain ⟨hp, hkey, hfit⟩ := h (n - (k + 1)) (by omega)
    rw [← Nat.add_assoc, aclMatchLoop, if_pos hkey, if_pos ⟨hp, hfit⟩,
      show n - (k + 1) + 1 = n - k by omega, ih (by omega)]

/-- Pattern and key fit to the end of the shorter one, where they are told apart. -/
theorem aclMatchPattern_straight (pat key : Bytes) (n : Nat) (hn : n ≤ key.length)
    (h : ∀ j < n, j < pat.length ∧ (pat[j]? = some 63 ∨ pat[j]? = key[j]?)) :
    ∃ fuel, aclMatchPattern pat key = aclMatchLoop pat key (fuel + 1) n n none 0 := by
  have hfuel := Nat.le_mul_of_pos_right (key.length + 1) (show 0 < pat.length + 2 by omega)
  refine ⟨(key.length + 1) * (pat.length + 2) - 1 - n, ?_⟩
  rw [← aclMatchLoop_straight (fun j hj => ⟨(h j hj).1, by omega, (h j hj).2⟩) _ n (Nat.le_refl n),
    aclMatchPattern, Nat.sub_self]
  congr 1
  omega

/-- A key with a star is missed by question marks, one too many, around a star in
the place of the key's. -/
theorem starred_key_missed (h : 42 ∈ key) :
    ∃ p, PatternLang p key ∧ aclMatchPattern p key = false := by
  obtain ⟨front, back, rfl⟩ := List.append_of_mem h
  have hany : ∀ l pat key, PatternLang pat key →
      PatternLang (List.replicate l.length 63 ++ pat) (l ++ key) := by
    intro l pat key hlang
    induction l with
    | nil => exact hlang
    | cons b l ih => exact (patternLang_cons (by decide) _ _ _).mpr ⟨.inl rfl, ih⟩
  refine ⟨List.replicate front.length 63 ++ 42 :: List.replicate (back.length + 1) 63,
    hany front _ _ ?_, ?_⟩
  · have hback := hany (42 :: back) [] [] rfl
    rw [List.append_nil, List.append_nil] at hback
    exact ⟨_, List.suffix_rfl, hback⟩
  obtain ⟨fuel, hrun⟩ := aclMatchPattern_straight
    (List.replicate front.length 63 ++ 42 :: List.replicate (back.length + 1) 63)
    (front ++ 42 :: back) _ (Nat.le_refl _) (fun j hj => by grind)
  rw [hrun, aclMatchLoop, if_neg (Nat.lt_irrefl _), List.replicate_succ', ← List.cons_append,
    ← List.append_assoc, List.drop_left' (by simp)]
  rfl

/-- A pattern with a star misses itself with the part behind the star repeated. -/
theorem starred_pattern_misses (h : 42 ∈ pat) :
    ∃ k, PatternLang pat k ∧ aclMatchPattern pat k = false := by
  obtain ⟨front, back, rfl⟩ := List.append_of_mem h
  have hsame : ∀ l pat key, PatternLang pat key → PatternLang (l ++ pat) (l ++ key) := by
    intro l pat key hlang
    induction l with
    | nil => exact hlang
    | cons c l ih =>
      by_cases hc : c = 42
      · simp only [List.cons_append, PatternLang, hc]
        exact ⟨_, List.suffix_cons _ _, ih⟩
      · exact (patternLang_cons hc _ _ _).mpr ⟨.inr rfl, ih⟩
  refine ⟨front ++ ((42 :: back ++ [42]) ++ back), hsame front _ _ ?_, ?_⟩
  · have hback := hsame back [] [] rfl
    rw [List.append_nil] at hback
    exact ⟨back, List.suffix_append _ _, hback⟩
  obtain ⟨fuel, hrun⟩ := aclMatchPattern_straight (front ++ 42 :: back)
    (front ++ ((42 :: back ++ [42]) ++ back)) (front ++ 42 :: back).length (by simp)
    (fun j hj => by grind)
  rw [hrun, aclMatchLoop]
  simp

/-- The matcher decides the language of every pattern on a key, or of a pattern on
every key, exactly if there is no star in the one given. -/
theorem aclMatchPattern_exact_iff (pat key : Bytes) :
    ((∀ p, aclMatchPattern p key = true ↔ PatternLang p key) ↔ 42 ∉ key) ∧
      ((∀ k, aclMatchPattern pat k = true ↔ PatternLang pat k) ↔ 42 ∉ pat) := by
  refine ⟨⟨fun h hmem => ?_, fun h p => aclMatchPattern_iff (.inr h)⟩,
    ⟨fun h hmem => ?_, fun h k => aclMatchPattern_iff (.inl h)⟩⟩
  · obtain ⟨p, hlang, hmiss⟩ := starred_key_missed hmem
    simp [(h p).mpr hlang] at hmiss
  · obtain ⟨k, hlang, hmiss⟩ := starred_pattern_misses hmem
    simp [(h k).mpr hlang] at hmiss

/-- The pattern `*` misses the key `*a`. -/
theorem star_misses_starred_key :
    PatternLang [42] [42, 97] ∧ aclMatchPattern [42] [42, 97] = false :=
  ⟨⟨[], List.nil_suffix, rfl⟩, by decide⟩

end Ddup.Acl
