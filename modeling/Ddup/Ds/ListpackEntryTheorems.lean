/-
Ddup.Ds.ListpackEntryTheorems — one entry of a listpack, read from either end.

`Codes body v` says what the encoding part of an entry has to do with what follows it unknown:
its size is read off its front, and so is its value. Every integer and every string short enough
for a 32-bit `enclen` is encoded so. The back-length behind it gives the size when read backwards.
-/
import Mathlib.Data.Nat.Bitwise
import Ddup.Ds.Listpack
import Ddup.Resp.ReplyTheorems

namespace Ddup.Ds

open Ddup.Lib Ddup.Command Ddup.Resp
open Bool (false_eq_true)
open List (cons_append getD_cons_zero length_append length_cons)
open UInt8 (ofNat toNat_ofNat')

variable (b : UInt8) {n l k w u : Nat} {iv : Int} {s : Bytes} {lp : Bytes} {q : Nat}

/-! ## Bytes -/

theorem forall_byte {P : UInt8 → Prop} (h : ∀ n : Fin 256, P (ofNat n)) (b : UInt8) : P b := by
  have hb := h ⟨b.toNat, b.toNat_lt⟩
  rwa [UInt8.ofNat_toNat] at hb

theorem first_byte : (b &&& 0x80 == 0x00) = decide (b.toNat < 128) ∧
    (b &&& 0xC0 == 0x80) = decide (b.toNat / 64 = 2) ∧
    (b &&& 0xE0 == 0xC0) = decide (b.toNat / 32 = 6) ∧
    (b &&& 0xF0 == 0xE0) = decide (b.toNat / 16 = 14) := by
  revert b
  exact forall_byte (by decide +kernel)

theorem isUint_iff : (b &&& 0x80 == 0x00) = decide (b.toNat < 128) := (first_byte b).1

theorem isShortStr_iff : (b &&& 0xC0 == 0x80) = decide (b.toNat / 64 = 2) := (first_byte b).2.1

theorem isShortInt_iff : (b &&& 0xE0 == 0xC0) = decide (b.toNat / 32 = 6) := (first_byte b).2.2.1

theorem isMidStr_iff : (b &&& 0xF0 == 0xE0) = decide (b.toNat / 16 = 14) := (first_byte b).2.2.2

theorem low_bits (k : Nat) : b.toNat &&& 2 ^ k - 1 = b.toNat % 2 ^ k := Nat.and_two_pow_sub_one_eq_mod _ k

theorem low7 : (b &&& 0x7F).toNat = b.toNat % 128 := (b.toNat_and _).trans (low_bits b 7)

theorem low6 : (b &&& 0x3F).toNat = b.toNat % 64 := (b.toNat_and _).trans (low_bits b 6)

theorem low5 : (b &&& 0x1F).toNat = b.toNat % 32 := (b.toNat_and _).trans (low_bits b 5)

theorem low4 : (b &&& 0x0F).toNat = b.toNat % 16 := (b.toNat_and _).trans (low_bits b 4)

theorem tag_toNat (h : n < 2 ^ k) (ht : 2 ^ k * w + n < 256) :
    (ofNat (2 ^ k * w) ||| ofNat n).toNat = 2 ^ k * w + n := by
  rw [UInt8.toNat_or, UInt8.toNat_ofNat_of_lt' (lt_of_le_of_lt (Nat.le_add_right _ n) ht),
    UInt8.toNat_ofNat_of_lt' (lt_of_le_of_lt (Nat.le_add_left n _) ht), Nat.two_pow_add_eq_or_of_lt h]

theorem tag6 (h : n < 64) : (0x80 ||| ofNat n).toNat = 128 + n :=
  tag_toNat (k := 6) (w := 2) h (by omega)

theorem tag5 (h : n < 32) : (0xC0 ||| ofNat n).toNat = 192 + n :=
  tag_toNat (k := 5) (w := 6) h (by omega)

theorem tag4 (h : n < 16) : (0xE0 ||| ofNat n).toNat = 224 + n :=
  tag_toNat (k := 4) (w := 14) h (by omega)

/-! ## Back-lengths -/

theorem lpEncodeBacklen_length (l : Nat) : (lpEncodeBacklen l).length = lpBacklenSize l := by
  unfold lpEncodeBacklen lpBacklenSize
  split_ifs <;> rfl

theorem lpBacklenSize_pos (l : Nat) : 0 < lpBacklenSize l := by
  unfold lpBacklenSize
  split_ifs <;> decide

theorem backlenByte_toNat (l k : Nat) : (backlenByte l k).toNat = l / 128 ^ k % 128 + 128 := by
  rw [backlenByte, toNat_ofNat']
  omega

theorem or_shift : (l % 128 ^ k) ||| (l / 128 ^ k % 128) <<< (7 * k) = l % 128 ^ (k + 1) := by
  have hpow : 2 ^ (7 * k) = 128 ^ k := by rw [Nat.pow_mul]
  have hlt : l % 128 ^ k < 2 ^ (7 * k) := by
    rw [hpow]
    exact Nat.mod_lt _ (by positivity)
  rw [Nat.or_comm, ← Nat.shiftLeft_add_eq_or_of_lt hlt, Nat.shiftLeft_eq, hpow, pow_succ,
    Nat.mod_mul]
  ring

theorem decodeBacklenLoop_more (rounds : Nat) (hq : lpHdrSize ≤ q)
    (hbyte : lp.getD q 0 = backlenByte l k) :
    decodeBacklenLoop lp (rounds + 1) q (7 * k) (l % 128 ^ k)
      = decodeBacklenLoop lp rounds (q - 1) (7 * (k + 1)) (l % 128 ^ (k + 1)) := by
  have htop : ¬ (backlenByte l k).toNat < 128 := by rw [backlenByte_toNat]; omega
  have hlow : (backlenByte l k).toNat % 128 = l / 128 ^ k % 128 := by rw [backlenByte_toNat]; omega
  rw [decodeBacklenLoop, if_neg (Nat.not_lt.mpr hq)]
  simp only [hbyte, isUint_iff, low7, htop, hlow, or_shift]
  rfl

theorem decodeBacklenLoop_last (rounds : Nat) (hq : lpHdrSize ≤ q)
    (hlt : l / 128 ^ k < 128) (hbyte : lp.getD q 0 = ofNat (l / 128 ^ k)) :
    decodeBacklenLoop lp (rounds + 1) q (7 * k) (l % 128 ^ k) = l := by
  have hnat : (ofNat (l / 128 ^ k)).toNat = l / 128 ^ k := by
    exact Nat.mod_eq_of_lt (hlt.trans (by decide))
  have hall : l % 128 ^ (k + 1) = l := by
    refine Nat.mod_eq_of_lt ?_
    rw [pow_succ, Nat.mul_comm]
    exact (Nat.div_lt_iff_lt_mul (by positivity)).mp hlt
  rw [decodeBacklenLoop, if_neg (Nat.not_lt.mpr hq)]
  simp only [hbyte, isUint_iff, low7, hnat, hlt, decide_true, if_true]
  rw [or_shift, hall]

theorem getD_append_add (pre xs : Bytes) (j : Nat) :
    (pre ++ xs).getD (pre.length + j) 0 = xs.getD j 0 := by
  rw [List.getD_eq_getElem?_getD, List.getD_eq_getElem?_getD,
    List.getElem?_append_right (Nat.le_add_right _ _), Nat.add_sub_cancel_left]

theorem lpDecodeBacklen_encode {pre : Bytes} (post : Bytes) (hpre : lpHdrSize ≤ pre.length)
    (hl : l < 2 ^ 32) :
    lpDecodeBacklen (pre ++ (lpEncodeBacklen l ++ post)) (pre.length + lpBacklenSize l) = l := by
  have hzero : l % 128 ^ 0 = 0 := by rw [pow_zero, Nat.mod_one]
  have hbyte := getD_append_add pre (lpEncodeBacklen l ++ post)
  generalize pre ++ (lpEncodeBacklen l ++ post) = lp at hbyte
  unfold lpDecodeBacklen
  rw [show decodeBacklenLoop lp 5 (pre.length + lpBacklenSize l - 1) 0 0
    = decodeBacklenLoop lp 5 (pre.length + lpBacklenSize l - 1) (7 * 0) (l % 128 ^ 0) by rw [hzero]]
  unfold lpEncodeBacklen at hbyte
  unfold lpBacklenSize
  split_ifs at hbyte ⊢ with h1 h2 h3 h4
  · refine decodeBacklenLoop_last 4 (by omega) (by omega) ?_
    simpa using hbyte 0
  · rw [decodeBacklenLoop_more 4 (by omega) (by simpa using hbyte 1)]
    exact decodeBacklenLoop_last 3 (by omega) (by omega) (by simpa using hbyte 0)
  · rw [decodeBacklenLoop_more 4 (by omega) (by simpa using hbyte 2),
      decodeBacklenLoop_more 3 (by omega) (by simpa using hbyte 1)]
    exact decodeBacklenLoop_last 2 (by omega) (by omega) (by simpa using hbyte 0)
  · rw [decodeBacklenLoop_more 4 (by omega) (by simpa using hbyte 3),
      decodeBacklenLoop_more 3 (by omega) (by simpa using hbyte 2),
      decodeBacklenLoop_more 2 (by omega) (by simpa using hbyte 1)]
    exact decodeBacklenLoop_last 1 (by omega) (by omega) (by simpa using hbyte 0)
  rw [decodeBacklenLoop_more 4 (by omega) (by simpa using hbyte 4),
    decodeBacklenLoop_more 3 (by omega) (by simpa using hbyte 3),
    decodeBacklenLoop_more 2 (by omega) (by simpa using hbyte 2),
    decodeBacklenLoop_more 1 (by omega) (by simpa using hbyte 1)]
  exact decodeBacklenLoop_last 0 (by omega) (by omega) (by simpa using hbyte 0)

/-! ## Encodings -/

/-- What the encoding part of an entry has to be, whatever follows it. -/
structure Codes (body : Bytes) (v : LpValue) : Prop where
  size : ∀ (avail : Nat) (rest : Bytes), body.length ≤ avail →
    payloadSize avail (body ++ rest) = body.length
  get : ∀ rest : Bytes, lpGet (body ++ rest) = v
  head : ∃ b tail, body = b :: tail ∧ b ≠ lpEof
  short : body.length < 2 ^ 32

theorem codes_word {tag : UInt8} {v : LpValue}
    (hsize : ∀ avail e, e.getD 0 0 = tag → payloadSize avail e = w + 1)
    (hget : ∀ e, e.getD 0 0 = tag → (e.drop 1).take w = leBytes w n → lpGet e = v)
    (htag : tag ≠ lpEof) (hw : w ≤ 8) : Codes (tag :: leBytes w n) v where
  size := by
    intro avail rest _
    rw [hsize avail _ rfl, length_cons, leBytes_length]
  get := by
    intro rest
    refine hget _ rfl ?_
    rw [cons_append, List.drop_one, List.tail_cons, List.take_left' (leBytes_length w n)]
  head := ⟨tag, leBytes w n, rfl, htag⟩
  short := by
    rw [length_cons, leBytes_length]
    omega

theorem toSigned_mod (hw : 0 < w) (hlow : -(2 ^ (w - 1)) ≤ iv) (hhigh : iv < 2 ^ (w - 1))
    : toSigned w (iv % 2 ^ w).toNat = iv := by
  have hpow : (2 : Int) ^ w = 2 * 2 ^ (w - 1) := by rw [← pow_succ', Nat.sub_add_cancel hw]
  have hcast : ((2 ^ (w - 1) : Nat) : Int) = 2 ^ (w - 1) := by push_cast; rfl
  unfold toSigned
  by_cases hneg : iv < 0
  · have hval : iv % 2 ^ w = iv + 2 ^ w := by
      rw [← Int.add_emod_right, Int.emod_eq_of_lt (by omega) (by omega)]
    omega
  · have hval : iv % 2 ^ w = iv := Int.emod_eq_of_lt (by omega) (by omega)
    rw [if_pos (by omega), hval, Int.toNat_of_nonneg (by omega)]

theorem top_bit (h : u < 2 ^ (k + 1)) : u &&& 2 ^ k ≠ 0 ↔ 2 ^ k ≤ u := by
  rw [Nat.and_two_pow]
  by_cases hle : 2 ^ k ≤ u
  · have hbit : u.testBit k = true := Nat.testBit_of_two_pow_le_and_two_pow_add_one_gt hle h
    simp [hbit, hle]
  · have hbit : u.testBit k = false := Nat.testBit_lt_two_pow (by omega)
    simp [hbit, hle]

theorem or_high (m : Nat) (h : u < 2 ^ k) : u ||| 2 ^ k * m = u + 2 ^ k * m := by
  rw [Nat.or_comm, ← Nat.two_pow_add_eq_or_of_lt h, Nat.add_comm]

theorem toSigned_extend (hu : u < 2 ^ (k + 1)) (hk : k + 1 < w) :
    toSigned w (if u &&& 2 ^ k ≠ 0 then u ||| 2 ^ (k + 1) * (2 ^ (w - (k + 1)) - 1) else u)
      = toSigned (k + 1) u := by
  have hw : 2 ^ (k + 1) * 2 ^ (w - (k + 1)) = 2 ^ w := by rw [← pow_add, Nat.add_sub_cancel' hk.le]
  have hhalf : 2 ^ w = 2 * 2 ^ (w - 1) := by rw [← pow_succ', Nat.sub_add_cancel (by omega)]
  have hle : 2 ^ (k + 1) ≤ 2 ^ (w - 1) := Nat.pow_le_pow_right (by decide) (by omega)
  have hwcast : ((2 ^ w : Nat) : Int) = 2 ^ w := by push_cast; rfl
  have hkcast : ((2 ^ (k + 1) : Nat) : Int) = 2 ^ (k + 1) := by push_cast; rfl
  unfold toSigned
  rw [Nat.add_sub_cancel]
  by_cases hbit : 2 ^ k ≤ u
  · rw [if_pos ((top_bit hu).mpr hbit), or_high _ hu, Nat.mul_sub]
    omega
  · rw [if_neg fun h => hbit ((top_bit hu).mp h), if_pos (by omega), if_pos (by omega)]

/-! ### Integers -/

theorem codes_uint (hlow : 0 ≤ iv) (hhigh : iv ≤ 127) : Codes [ofNat iv.toNat] (.int iv) := by
  have hnat : (ofNat iv.toNat).toNat = iv.toNat := by
    rw [toNat_ofNat']
    omega
  have hlt : (ofNat iv.toNat).toNat < 128 := by omega
  refine ⟨?_, ?_, ⟨_, [], rfl, ?_⟩, by simp⟩
  · intro avail rest _
    simp only [payloadSize, List.singleton_append, getD_cons_zero, isUint_iff, hlt]
    rfl
  · intro rest
    simp only [lpGet, List.singleton_append, getD_cons_zero, isUint_iff, hlt, decide_true,
      if_true, low7]
    rw [Nat.mod_eq_of_lt hlt, hnat, Int.toNat_of_nonneg hlow]
  · intro heq
    rw [heq] at hlt
    exact absurd hlt (by decide)

theorem codes_shortInt (hlow : -4096 ≤ iv) (hhigh : iv ≤ 4095) :
    Codes [0xC0 ||| ofNat ((iv % 8192).toNat / 256 % 32), ofNat (iv % 8192).toNat] (.int iv) := by
  have hu : (iv % 8192).toNat < 2 ^ (12 + 1) := by omega
  have hsigned : toSigned 13 (iv % 8192).toNat = iv :=
    toSigned_mod (by decide) (by omega) (by omega)
  generalize (iv % 8192).toNat = u at *
  have hfirst : (0xC0 ||| ofNat (u / 256 % 32)).toNat = 192 + u / 256 % 32 :=
    tag5 (Nat.mod_lt _ (by decide))
  generalize 0xC0 ||| ofNat (u / 256 % 32) = b at *
  have h1 : ¬ b.toNat < 128 := by omega
  have h2 : ¬ b.toNat / 64 = 2 := by omega
  have h3 : b.toNat / 32 = 6 := by omega
  refine ⟨?_, ?_, ⟨b, _, rfl, ?_⟩, by simp⟩
  · intro avail rest _
    simp [payloadSize, isUint_iff, isShortStr_iff, isShortInt_iff, h1, h2, h3]
  · intro rest
    have hword : (b &&& 0x1F).toNat * 256 + (ofNat u).toNat = u := by
      rw [low5, toNat_ofNat']
      omega
    simp only [lpGet, cons_append, getD_cons_zero, List.getD_cons_succ, isUint_iff,
      isShortStr_iff, isShortInt_iff, h1, h2, h3, decide_true, decide_false, false_eq_true,
      if_true, if_false, hword]
    rw [← hsigned, ← toSigned_extend (w := 16) hu (by decide)]
    split_ifs with hbit hbit'
    · rfl
    · exact absurd hbit hbit'
    · exact absurd ‹_› hbit
    · rw [toSigned, if_pos (by omega)]
  · intro heq
    rw [heq] at h3
    exact absurd h3 (by decide)

theorem codes_int16 (hlow : -32768 ≤ iv) (hhigh : iv ≤ 32767) :
    Codes (0xF1 :: leBytes 2 (iv % 2 ^ 16).toNat) (.int iv) := by
  refine codes_word ?_ ?_ (by decide) (by decide)
  · intro avail e he
    simp only [payloadSize, he]
    rfl
  intro e he hword
  simp only [lpGet, he, hword]
  rw [leNat_leBytes_of_lt (by omega), toSigned_mod (by decide) (by omega) (by omega)]
  rfl

theorem codes_int24 (hlow : -8388608 ≤ iv) (hhigh : iv ≤ 8388607) :
    Codes (0xF2 :: leBytes 3 (iv % 2 ^ 32).toNat) (.int iv) := by
  have hlowBits : (iv % 2 ^ 32).toNat % 256 ^ 3 = (iv % 2 ^ 24).toNat := by omega
  refine codes_word ?_ ?_ (by decide) (by decide)
  · intro avail e he
    simp only [payloadSize, he]
    rfl
  intro e he hword
  simp only [lpGet, he, hword]
  rw [leNat_leBytes, hlowBits]
  have hextend := toSigned_extend (u := (iv % 2 ^ 24).toNat) (k := 23) (w := 32) (by omega)
    (by decide)
  rw [toSigned_mod (by decide) (by omega) (by omega)] at hextend
  exact congrArg LpValue.int hextend

theorem codes_int32 (hlow : -2147483648 ≤ iv) (hhigh : iv ≤ 2147483647) :
    Codes (0xF3 :: leBytes 4 (iv % 2 ^ 32).toNat) (.int iv) := by
  refine codes_word ?_ ?_ (by decide) (by decide)
  · intro avail e he
    simp only [payloadSize, he]
    rfl
  intro e he hword
  simp only [lpGet, he, hword]
  rw [leNat_leBytes_of_lt (by omega), toSigned_mod (by decide) (by omega) (by omega)]
  rfl

theorem codes_int64 (hlow : -9223372036854775808 ≤ iv) (hhigh : iv ≤ 9223372036854775807) :
    Codes (0xF4 :: leBytes 8 (iv % 2 ^ 64).toNat) (.int iv) := by
  refine codes_word ?_ ?_ (by decide) (by decide)
  · intro avail e he
    simp only [payloadSize, he]
    rfl
  intro e he hword
  simp only [lpGet, he, hword]
  rw [leNat_leBytes_of_lt (by omega), toSigned_mod (by decide) (by omega) (by omega)]
  rfl

theorem encodeInt_codes (hlow : -9223372036854775808 ≤ iv) (hhigh : iv ≤ 9223372036854775807)
    : Codes (encodeInt iv) (.int iv) := by
  unfold encodeInt
  split_ifs with h1 h2 h3 h4 h5
  · exact codes_uint h1.1 h1.2
  · exact codes_shortInt h2.1 h2.2
  · exact codes_int16 h3.1 h3.2
  · exact codes_int24 h4.1 h4.2
  · exact codes_int32 h5.1 h5.2
  · exact codes_int64 hlow hhigh

/-! ### Strings -/

/-- A string whose encoding has a length that fits `enclen`'s 32 bits. -/
def Short (s : Bytes) : Prop := s.length + 5 < 2 ^ 32

instance (s : Bytes) : Decidable (Short s) := inferInstanceAs (Decidable (_ < _))

theorem codes_str6 (h : s.length ≤ 63) : Codes ((0x80 ||| ofNat s.length) :: s) (.str s) := by
  have hfirst : (0x80 ||| ofNat s.length).toNat = 128 + s.length := tag6 (by omega)
  generalize 0x80 ||| ofNat s.length = b at *
  have h1 : ¬ b.toNat < 128 := by omega
  have h2 : b.toNat / 64 = 2 := by omega
  have hlen : b.toNat % 64 = s.length := by omega
  refine ⟨?_, ?_, ⟨b, s, rfl, ?_⟩, by rw [length_cons]; omega⟩
  · intro avail rest _
    simp only [payloadSize, cons_append, getD_cons_zero, isUint_iff, isShortStr_iff, h1,
      h2, low6, decide_true, decide_false, false_eq_true, if_true, if_false,
      length_cons]
    omega
  · intro rest
    simp only [lpGet, cons_append, getD_cons_zero, isUint_iff, isShortStr_iff, h1, h2,
      low6, hlen, decide_true, decide_false, false_eq_true, if_true, if_false, List.drop_one,
      List.tail_cons, List.take_left]
  · intro heq
    rw [heq] at h2
    exact absurd h2 (by decide)

theorem codes_str12 (h : s.length ≤ 4095) :
    Codes ((0xE0 ||| ofNat (s.length / 256)) :: ofNat s.length :: s) (.str s) := by
  have hfirst : (0xE0 ||| ofNat (s.length / 256)).toNat = 224 + s.length / 256 :=
    tag4 (by omega)
  generalize 0xE0 ||| ofNat (s.length / 256) = b at *
  have h1 : ¬ b.toNat < 128 := by omega
  have h2 : ¬ b.toNat / 64 = 2 := by omega
  have h3 : ¬ b.toNat / 32 = 6 := by omega
  have h4 : b.toNat / 16 = 14 := by omega
  have hlen : b.toNat % 16 * 256 + (ofNat s.length).toNat = s.length := by
    rw [toNat_ofNat']
    omega
  refine ⟨?_, ?_, ⟨b, _, rfl, ?_⟩, by simp only [length_cons]; omega⟩
  · intro avail rest havail
    rw [length_cons, length_cons] at havail
    simp only [payloadSize, cons_append, getD_cons_zero, List.getD_cons_succ, isUint_iff,
      isShortStr_iff, isShortInt_iff, isMidStr_iff, h1, h2, h3, h4, low4, decide_true,
      decide_false, false_eq_true, if_true, if_false, length_cons]
    rw [if_neg (by omega)]
    omega
  · intro rest
    simp only [lpGet, cons_append, getD_cons_zero, List.getD_cons_succ, isUint_iff,
      isShortStr_iff, isShortInt_iff, isMidStr_iff, h1, h2, h3, h4, low4, hlen, decide_true,
      decide_false, false_eq_true, if_true, if_false, List.drop_succ_cons, List.drop_zero,
      List.take_left]
  · intro heq
    rw [heq] at h4
    exact absurd h4 (by decide)

theorem codes_str32 (h : Short s) : Codes (0xF0 :: (leBytes 4 s.length ++ s)) (.str s) := by
  unfold Short at h
  have hlen : leNat (leBytes 4 s.length) = s.length := leNat_leBytes_of_lt (by omega)
  have hword : ∀ rest, (leBytes 4 s.length ++ s ++ rest).take 4 = leBytes 4 s.length := by
    intro rest
    rw [List.append_assoc, List.take_left' (leBytes_length 4 _)]
  have hrest : ∀ rest, (leBytes 4 s.length ++ s ++ rest).drop 4 = s ++ rest := by
    intro rest
    rw [List.append_assoc, List.drop_left' (leBytes_length 4 _)]
  refine ⟨?_, ?_, ⟨0xF0, _, rfl, by decide⟩, ?_⟩
  · intro avail rest havail
    rw [length_cons, length_append, leBytes_length] at havail
    simp only [payloadSize, cons_append, getD_cons_zero, List.drop_succ_cons,
      List.drop_zero, hword, hlen, length_cons, length_append]
    rw [if_neg (show ¬ avail < 5 by omega)]
    show 5 + s.length = 4 + s.length + 1
    omega
  · intro rest
    simp only [lpGet, cons_append, getD_cons_zero, List.drop_succ_cons, List.drop_zero,
      hword, hrest, hlen, List.take_left]
    rfl
  · rw [length_cons, length_append, leBytes_length]
    omega

theorem encodeStr_codes (h : Short s) :
    Codes (encodeStr s).1 (.str s) ∧ (encodeStr s).2 = (encodeStr s).1.length := by
  unfold encodeStr
  split_ifs with h1 h2
  · refine ⟨codes_str6 h1, ?_⟩
    rw [length_cons, Nat.add_comm]
  · refine ⟨codes_str12 h2, ?_⟩
    simp only [length_cons]
    omega
  refine ⟨codes_str32 h, ?_⟩
  unfold Short at h
  simp only [length_cons, length_append, leBytes_length]
  omega

/-! ## Canonical integers -/

theorem u64ToStr_of_digits {ok : Nat → Nat → Bool} {t : Bytes} {v : Nat} (hne : t ≠ [])
    (hhead : ¬ (t.head? = some 48 ∧ 1 < t.length)) (h : digitLoop ok 0 t = some v) :
    u64ToStr v = t := by
  have hfree := digitLoop_unbounded h
  by_cases hzero : t.head? = some 48
  · obtain ⟨c, cs, rfl⟩ := List.exists_cons_of_ne_nil hne
    cases cs with
    | nil =>
      rw [List.head?_cons, Option.some.injEq] at hzero
      subst hzero
      have hv : some 0 = some v := hfree
      injection hv with hv
      rw [← hv]
      decide
    | cons d ds => exact absurd ⟨hzero, by simp⟩ hhead
  · have hskip : skipZeros t = t := by
      obtain ⟨c, cs, rfl⟩ := List.exists_cons_of_ne_nil hne
      have hc : ¬ (c == 48) = true := fun hc => hzero (by rw [List.head?_cons, beq_iff_eq.mp hc])
      exact List.dropWhile_cons_of_neg hc
    have hdigits := skipZeros_eq (by rw [hskip]; exact hfree)
    rw [hskip] at hdigits
    have hv : v ≠ 0 := by
      rintro rfl
      exact hne hdigits
    rw [u64ToStr_eq, lowDigits, if_neg hv, ← hdigits]

theorem splitSign_join {digits : Bytes} {neg : Bool} (h : splitSign s = (neg, digits)) :
    s = if neg then 45 :: digits else digits := by
  unfold splitSign at h
  split at h <;> cases h <;> rfl

theorem llToStr_of_canonical (h : lpStrToInt64 s = some iv) :
    Piece.llToStr iv = s ∧ -9223372036854775808 ≤ iv ∧ iv ≤ 9223372036854775807 := by
  unfold lpStrToInt64 at h
  split at h
  · cases h
  rcases hsplit : splitSign s with ⟨neg, digits⟩
  simp only [hsplit] at h
  split at h
  · cases h
  rename_i hne
  split at h
  · cases h
  rename_i hhead
  cases hloop : digitLoop (lpDigitOk neg) 0 digits with
  | none =>
    rw [hloop] at h
    cases h
  | some v =>
    simp only [hloop] at h
    split at h
    · cases h
    rename_i hzero
    injection h with h
    have htext := u64ToStr_of_digits hne hhead hloop
    have hjoin := splitSign_join hsplit
    have hle : v ≤ llongMax + (if neg then 1 else 0) := by
      refine digitLoop_le _ ?_ hloop (Nat.zero_le _)
      intro v d hstep hd
      have hstep := of_decide_eq_true hstep
      have hbig : 10 ≤ llongMax + (if neg = true then 1 else 0) := by
        unfold llongMax
        omega
      omega
    unfold llongMax at hle
    cases neg with
    | false =>
      simp only [false_eq_true, if_false] at h hjoin hle
      subst h
      refine ⟨?_, by omega, by omega⟩
      rw [Piece.llToStr, if_neg (by omega), Int.natAbs_natCast, htext, hjoin]
    | true =>
      simp only [if_true, true_and] at h hjoin hle hzero
      subst h
      refine ⟨?_, by omega, by omega⟩
      rw [Piece.llToStr, if_pos (by omega), Int.natAbs_neg, Int.natAbs_natCast, htext, hjoin]

/-! ## Entries -/

def stored (s : Bytes) : LpValue :=
  match lpStrToInt64 s with
  | some iv => .int iv
  | none => .str s

def lpBody (s : Bytes) : Bytes :=
  match lpStrToInt64 s with
  | some iv => encodeInt iv
  | none => (encodeStr s).1

theorem lpBody_codes (h : Short s) : Codes (lpBody s) (stored s) := by
  unfold lpBody stored
  cases hint : lpStrToInt64 s with
  | none => exact (encodeStr_codes h).1
  | some iv =>
    obtain ⟨-, hlow, hhigh⟩ := llToStr_of_canonical hint
    exact encodeInt_codes hlow hhigh

theorem lpEncodeEntry_eq (h : Short s) :
    lpEncodeEntry s = lpBody s ++ lpEncodeBacklen (lpBody s).length := by
  unfold lpEncodeEntry lpBody
  cases hint : lpStrToInt64 s with
  | none =>
    rw [(encodeStr_codes h).2, List.take_length]
  | some iv => rfl

theorem lpEncodeEntry_length (h : Short s) :
    (lpEncodeEntry s).length = (lpBody s).length + lpBacklenSize (lpBody s).length := by
  rw [lpEncodeEntry_eq h, length_append, lpEncodeBacklen_length]

theorem lpEncodeEntry_two (h : Short s) : 2 ≤ (lpEncodeEntry s).length := by
  have hpos := lpBacklenSize_pos (lpBody s).length
  obtain ⟨b, tail, hbody, -⟩ := (lpBody_codes h).head
  have hcons := congrArg List.length hbody
  rw [length_cons] at hcons
  rw [lpEncodeEntry_length h]
  omega

theorem lpEncodeEntry_pos (h : Short s) : 0 < (lpEncodeEntry s).length :=
  Nat.lt_of_lt_of_le (by decide) (lpEncodeEntry_two h)

theorem payloadSize_entry (h : Short s) {avail : Nat} (rest : Bytes)
    (havail : (lpBody s).length ≤ avail) :
    payloadSize avail (lpEncodeEntry s ++ rest) = (lpBody s).length := by
  rw [lpEncodeEntry_eq h, List.append_assoc]
  exact (lpBody_codes h).size avail _ havail

theorem lpGet_entry (h : Short s) (rest : Bytes) : lpGet (lpEncodeEntry s ++ rest) = stored s := by
  rw [lpEncodeEntry_eq h, List.append_assoc]
  exact (lpBody_codes h).get _

theorem lpGetStr_entry (h : Short s) (rest : Bytes) : lpGetStr (lpEncodeEntry s ++ rest) = s := by
  rw [lpGetStr, lpGet_entry h, stored]
  cases hint : lpStrToInt64 s with
  | none => rfl
  | some iv => exact (llToStr_of_canonical hint).1

theorem getD_entry_ne_eof (h : Short s) (rest : Bytes) :
    (lpEncodeEntry s ++ rest).getD 0 0 ≠ lpEof := by
  obtain ⟨b, tail, hbody, hne⟩ := (lpBody_codes h).head
  rw [lpEncodeEntry_eq h, hbody]
  exact hne

end Ddup.Ds
