/-
Ddup.Command.HashSlotTheorems — the table-driven CRC16 of `core/hashslot.c` is the division of the
message, bit by bit, and the two scanners of the file find the same hash tag.

One step of the division is linear in register and message bit. So a byte shifted into the register
is the sum of three parts: the register's high byte against itself, which leaves nothing, its low
byte, which only moves, and their difference to the message byte, which is an entry of the table.
-/
import Ddup.Command.HashSlot
import Mathlib.Data.List.TakeWhile

namespace Ddup.Command

/-- One message bit of the division by 0x11021: the register moves left, and the polynomial is
    subtracted if the bit that leaves differs from the message's. -/
def crcBit (r : UInt16) (b : Bool) : UInt16 :=
  (r <<< 1) ^^^ if r.toNat.testBit 15 ^^ b then 0x1021 else 0

def byteBits (b : UInt8) : List Bool := (List.range 8).map fun i => b.toNat.testBit (7 - i)

/-- CRC-16/XMODEM: the remainder of all message bits, from 0. -/
def crcRemainder (m : Bytes) : UInt16 := (m.flatMap byteBits).foldl crcBit 0

/-- The hash tag of a key: what stands between the first opening brace and the first closing brace
    behind it, or the whole key if there are no such braces or nothing between them. -/
inductive IsTag : Bytes → Bytes → Prop
  | tag {pre t post : Bytes} : 123 ∉ pre → 125 ∉ t → t ≠ [] → IsTag (pre ++ 123 :: (t ++ 125 :: post)) t
  | unopened {key : Bytes} : 123 ∉ key → IsTag key key
  | unclosed {pre rest : Bytes} : 123 ∉ pre → 125 ∉ rest →
      IsTag (pre ++ 123 :: rest) (pre ++ 123 :: rest)
  | hollow {pre post : Bytes} : 123 ∉ pre → IsTag (pre ++ 123 :: 125 :: post) (pre ++ 123 :: 125 :: post)

/-- The scan of `hash_tag`: where the tag starts and ends. -/
def tagBounds (key : Bytes) : Nat × Nat :=
  let opened := key.idxOf 123 + 1
  let closed := opened + (key.drop opened).idxOf 125
  if opened < closed ∧ closed < key.length then (opened, closed) else (0, key.length)

/-- `hash_tag`: the length of the tag, and what is written to a buffer of `cap` bytes. -/
def hashTagCopy (key : Bytes) (cap : Nat) : Nat × Bytes :=
  let b := tagBounds key
  let n := b.2 - b.1
  (n, if cap = 0 then [] else (key.drop b.1).take (min (cap - 1) n) ++ [0])

/-! ## The checksum -/

theorem crcBit_xor (r q : UInt16) (b c : Bool) :
    crcBit (r ^^^ q) (b ^^ c) = crcBit r b ^^^ crcBit q c := by
  have hshift : (r ^^^ q) <<< 1 = r <<< 1 ^^^ q <<< 1 := by
    apply UInt16.toBitVec_inj.mp
    simp [BitVec.shiftLeft_xor_distrib]
  have hpoly : ∀ a b c d : Bool, (if a ^^ b ^^ (c ^^ d) then 0x1021 else 0 : UInt16) =
      (if a ^^ c then 0x1021 else 0) ^^^ if b ^^ d then 0x1021 else 0 := by decide
  unfold crcBit
  rw [UInt16.toNat_xor, Nat.testBit_xor, hshift, hpoly]
  ac_rfl

def crcByte (r : UInt16) (b : UInt8) : UInt16 := (byteBits b).foldl crcBit r

theorem crcByte_xor (r q : UInt16) (x y : UInt8) :
    crcByte (r ^^^ q) (x ^^^ y) = crcByte r x ^^^ crcByte q y := by
  unfold crcByte byteBits
  rw [UInt8.toNat_xor]
  generalize List.range 8 = is
  induction is generalizing r q with
  | nil => rfl
  | cons i is ih =>
    simp only [List.map_cons, List.foldl_cons, Nat.testBit_xor, crcBit_xor]
    simp only [Nat.testBit_xor] at ih
    exact ih _ _

/-- A byte against itself leaves nothing, against zero it moves, and from zero it is in the table. -/
theorem crcByte_table (x : UInt8) : crcByte (x.toUInt16 <<< 8) x = 0 ∧
    crcByte x.toUInt16 0 = x.toUInt16 <<< 8 ∧ crcByte 0 x = crc16Tab.getD x.toNat 0 := by
  obtain ⟨v⟩ := x
  revert v
  decide +kernel

theorem crc16Step_eq (r : UInt16) (b : UInt8) : crc16Step r b = crcByte r b := by
  have hparts : r = (r >>> 8).toUInt8.toUInt16 <<< 8 ^^^ (r.toUInt8.toUInt16 ^^^ 0) := by
    apply UInt16.toBitVec_inj.mp
    apply BitVec.eq_of_getLsbD_eq
    intro i hi
    simp only [UInt16.toBitVec_xor, UInt16.toBitVec_shiftLeft, UInt8.toBitVec_toUInt16]
    by_cases h : i < 8
    · simp [h, hi]
    · simp [hi]
      grind
  have hbyte : b = (r >>> 8).toUInt8 ^^^ ((0 : UInt8) ^^^ ((r >>> 8).toUInt8 ^^^ b)) := by
    rw [UInt8.zero_xor, ← UInt8.xor_assoc, UInt8.xor_self, UInt8.zero_xor]
  have hlow : r <<< 8 = r.toUInt8.toUInt16 <<< 8 := by
    apply UInt16.toNat_inj.mp
    simp
    omega
  have hidx : (((r >>> 8) ^^^ b.toUInt16) &&& 0xFF).toNat = ((r >>> 8).toUInt8 ^^^ b).toNat := by
    have hb := b.toNat_lt
    simp
    rw [show 255 = 2 ^ 8 - 1 from rfl, Nat.and_two_pow_sub_one_eq_mod, Nat.xor_mod_two_pow,
      Nat.mod_eq_of_lt hb]
  have hsum : crcByte r b = crcByte ((r >>> 8).toUInt8.toUInt16 <<< 8) (r >>> 8).toUInt8 ^^^
      (crcByte r.toUInt8.toUInt16 0 ^^^ crcByte 0 ((r >>> 8).toUInt8 ^^^ b)) := by
    rw [← crcByte_xor, ← crcByte_xor, ← hparts, ← hbyte]
  rw [crc16Step, hsum, (crcByte_table _).1, (crcByte_table _).2.1, (crcByte_table _).2.2, hlow, hidx,
    UInt16.zero_xor]

theorem crc16_remainder (m : Bytes) : crc16 m = crcRemainder m := by
  unfold crc16 crcRemainder
  generalize (0 : UInt16) = r
  induction m generalizing r with
  | nil => rfl
  | cons b m ih =>
    rw [List.foldl_cons, List.flatMap_cons, List.foldl_append, crc16Step_eq]
    exact ih _

/-! ## The tag -/

theorem takeWhile_ne {a : UInt8} {pre rest : Bytes} (h : a ∉ pre) :
    (pre ++ a :: rest).takeWhile (· ≠ a) = pre ∧ (pre ++ a :: rest).dropWhile (· ≠ a) = a :: rest := by
  have hne : ∀ x ∈ pre, decide (x ≠ a) = true := by
    intro x hx
    exact decide_eq_true (ne_of_mem_of_not_mem hx h)
  rw [List.takeWhile_append_of_pos hne, List.dropWhile_append_of_pos hne]
  simp

def Takes (key t : Bytes) : Prop :=
  hashTag key = t ∧ (tagBounds key).2 - (tagBounds key).1 = t.length ∧
    (key.drop (tagBounds key).1).take t.length = t

theorem takes_whole {key : Bytes} (hslot : hashTag key = key) (hb : tagBounds key = (0, key.length)) :
    Takes key key := by
  simp [Takes, hslot, hb]

/-- Both scanners take the tag; the cases are those of the braces. -/
theorem isTag_takes (key : Bytes) : ∃ t, IsTag key t ∧ Takes key t := by
  by_cases ho : 123 ∈ key
  · obtain ⟨pre, rest, rfl, hpre⟩ := List.eq_append_cons_of_mem ho
    have hdrop : (pre ++ 123 :: rest).drop (pre.length + 1) = rest := by simp
    have hslot := hashTag.eq_1 (pre ++ 123 :: rest)
    have hb := tagBounds.eq_1 (pre ++ 123 :: rest)
    rw [(takeWhile_ne hpre).2] at hslot
    rw [List.idxOf_append_of_notMem hpre, List.idxOf_cons_self, Nat.add_zero] at hb
    dsimp only at hslot hb
    rw [hdrop] at hb
    by_cases hc : 125 ∈ rest
    · obtain ⟨t, post, rfl, ht⟩ := List.eq_append_cons_of_mem hc
      rw [(takeWhile_ne ht).1] at hslot
      rw [List.idxOf_append_of_notMem ht, List.idxOf_cons_self, Nat.add_zero] at hb
      by_cases hnil : t = []
      · subst hnil
        rw [if_neg (by simp)] at hslot hb
        exact ⟨_, .hollow hpre, takes_whole hslot hb⟩
      · have hpos := List.length_pos_iff.mpr hnil
        rw [if_pos ⟨hc, hnil⟩] at hslot
        rw [if_pos ⟨by omega, by simp; omega⟩] at hb
        refine ⟨t, .tag hpre ht hnil, hslot, ?_, ?_⟩
        · simp [hb]
        · rw [hb, hdrop, List.take_left]
    · rw [if_neg (by simp [hc])] at hslot
      rw [List.idxOf_of_notMem hc, if_neg (by simp; omega)] at hb
      exact ⟨_, .unclosed hpre hc, takes_whole hslot hb⟩
  · refine ⟨_, .unopened ho, takes_whole ?_ ?_⟩
    · rw [hashTag, List.dropWhile_eq_nil_iff.mpr]
      intro x hx
      exact decide_eq_true (ne_of_mem_of_not_mem hx ho)
    · unfold tagBounds
      rw [List.idxOf_of_notMem ho]
      exact if_neg (by omega)

/-- `hash_slot` is the remainder of the hash tag, and `hash_tag` its length and what fits of it. -/
theorem hashSlot_remainder (key : Bytes) : ∃ t, IsTag key t ∧
    hashSlot key = (crcRemainder t).toNat % 16384 ∧ ∀ cap, hashTagCopy key cap =
      (t.length, if cap = 0 then [] else t.take (cap - 1) ++ [0]) := by
  obtain ⟨t, ht, hslot, hlen, htake⟩ := isTag_takes key
  refine ⟨t, ht, by rw [hashSlot, crc16_remainder, hslot], fun cap => ?_⟩
  unfold hashTagCopy
  dsimp only
  rw [hlen, ← List.take_take, htake]

end Ddup.Command
