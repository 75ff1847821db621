/-
Ddup.Ds.Listpack — `ds/listpack.c`: a list of byte strings in one flat buffer.

The buffer is a list of bytes and a pointer into it an offset; NULL is `none`. A function that
reads from a pointer gets the bytes from there on. `exit(1)` is `none` where the source calls it
(an insertion that takes the buffer past `UINT32_MAX` bytes, a deletion at no entry); allocation
does not fail. `slen` is the length of the string, and `uint32_t` arithmetic on it wraps.
-/
import Ddup.Lib.Packing
import Ddup.Lib.Wire
import Ddup.Resp.Reply

namespace Ddup.Ds

open Ddup.Lib Ddup.Command Ddup.Resp

def lpHdrSize : Nat := 6
def lpNumeleUnknown : Nat := 0xFFFF
def lpEof : UInt8 := 0xFF

/-! ## Header -/

def lpLoadTotal (lp : Bytes) : Nat := leNat (lp.take 4)

def lpStoreTotal (lp : Bytes) (total : Nat) : Bytes := leBytes 4 total ++ lp.drop 4

def lpLoadNumele (lp : Bytes) : Nat := leNat ((lp.drop 4).take 2)

def lpStoreNumele (lp : Bytes) (n : Nat) : Bytes := lp.take 4 ++ (leBytes 2 n ++ lp.drop 6)

def lpNew : Bytes := leBytes 4 7 ++ (leBytes 2 0 ++ [lpEof])

def lpBytes (lp : Bytes) : Nat := lpLoadTotal lp

/-! ## Sizes of entries -/

/-- `lp_entry_payload_size` of the entry that starts `e`, with `avail` bytes up to the end of
the buffer. -/
def payloadSize (avail : Nat) (e : Bytes) : Nat :=
  let b := e.getD 0 0
  if b &&& 0x80 == 0x00 then 1
  else if b &&& 0xC0 == 0x80 then 1 + (b &&& 0x3F).toNat
  else if b &&& 0xE0 == 0xC0 then 2
  else if b &&& 0xF0 == 0xE0 then
    if avail < 2 then uint64Max else 2 + ((b &&& 0x0F).toNat * 256 + (e.getD 1 0).toNat)
  else if b == 0xF0 then
    if avail < 5 then uint64Max else 5 + leNat ((e.drop 1).take 4)
  else if b == 0xF1 then 3
  else if b == 0xF2 then 4
  else if b == 0xF3 then 5
  else if b == 0xF4 then 9
  else uint64Max

def lpEntryPayloadSize (lp : Bytes) (p : Nat) : Nat :=
  payloadSize (lpLoadTotal lp - p) (lp.drop p)

def lpBacklenSize (l : Nat) : Nat :=
  if l ≤ 127 then 1
  else if l < 16383 then 2
  else if l < 2097151 then 3
  else if l < 268435455 then 4
  else 5

/-- The `k`-th group of seven bits of a back-length, as a byte that has one before it. -/
def backlenByte (l k : Nat) : UInt8 := UInt8.ofNat (l / 128 ^ k % 128 + 128)

def lpEncodeBacklen (l : Nat) : Bytes :=
  if l ≤ 127 then [UInt8.ofNat l]
  else if l < 16383 then [UInt8.ofNat (l / 128), backlenByte l 0]
  else if l < 2097151 then [UInt8.ofNat (l / 128 ^ 2), backlenByte l 1, backlenByte l 0]
  else if l < 268435455 then
    [UInt8.ofNat (l / 128 ^ 3), backlenByte l 2, backlenByte l 1, backlenByte l 0]
  else
    [UInt8.ofNat (l / 128 ^ 4), backlenByte l 3, backlenByte l 2, backlenByte l 1, backlenByte l 0]

/-- The loop of `lp_decode_backlen` at `q`: at most five bytes, until `shift` passes 28. -/
def decodeBacklenLoop (lp : Bytes) : Nat → Nat → Nat → Nat → Nat
  | 0, _, _, _ => uint64Max
  | rounds + 1, q, shift, val =>
    if q < lpHdrSize then uint64Max
    else
      let b := lp.getD q 0
      let val := val ||| (b &&& 127).toNat <<< shift
      if b &&& 128 == 0 then val else decodeBacklenLoop lp rounds (q - 1) (shift + 7) val

def lpDecodeBacklen (lp : Bytes) (p : Nat) : Nat := decodeBacklenLoop lp 5 (p - 1) 0 0

/-! ## Walking -/

def lpFirst (lp : Bytes) : Option Nat :=
  if lp.getD lpHdrSize 0 == lpEof then none else some lpHdrSize

def lpNext (lp : Bytes) (p : Nat) : Option Nat :=
  let total := lpLoadTotal lp
  let esz := lpEntryPayloadSize lp p
  if esz = uint64Max then none
  else
    let next := p + (esz + lpBacklenSize esz)
    if total ≤ next then none
    else if lp.getD next 0 == lpEof then none
    else some next

def lpPrev (lp : Bytes) (p : Nat) : Option Nat :=
  if p ≤ lpHdrSize then none
  else
    let backlen := lpDecodeBacklen lp p
    if backlen = uint64Max then none
    else
      let size := backlen + lpBacklenSize backlen
      if p < size then none
      else if p - size < lpHdrSize then none
      else some (p - size)

/-- The entries in the order of a loop from `lp_first` by `lp_next`. -/
def lpForward (lp : Bytes) : List Nat := visited (lpNext lp) lp.length (lpFirst lp)

def lpLast (lp : Bytes) : Option Nat :=
  let eof := lpLoadTotal lp - 1
  if eof = lpHdrSize then none else lpPrev lp eof

/-- `lp_length`. Each step goes at least one byte further. -/
def lpLength (lp : Bytes) : Nat :=
  let n := lpLoadNumele lp
  if n ≠ lpNumeleUnknown then n else countMoves (lpNext lp) lp.length (lpFirst lp)

def lpSeek (lp : Bytes) (index : Int) : Option Nat :=
  let numele := lpLoadNumele lp
  if numele ≠ lpNumeleUnknown then
    let index := if index < 0 then index + numele else index
    if index < 0 ∨ (numele : Int) ≤ index then none
    else if index > (numele / 2 : Nat) then
      moveN (lpPrev lp) (numele - index - 1).toNat (lpLast lp)
    else moveN (lpNext lp) index.toNat (lpFirst lp)
  else if index < 0 then moveN (lpPrev lp) (-index - 1).toNat (lpLast lp)
  else moveN (lpNext lp) index.toNat (lpFirst lp)

/-! ## Decimal integers -/

def lpDigitOk (neg : Bool) (v d : Nat) : Bool :=
  v ≤ (llongMax + (if neg then 1 else 0) - d) / 10

/-- `lp_str_to_int64`: only the canonical decimal form of an int64. -/
def lpStrToInt64 (s : Bytes) : Option Int :=
  if s.length = 0 ∨ 20 < s.length then none
  else
    let (neg, digits) := splitSign s
    if digits = [] then none
    else if digits.head? = some 48 ∧ 1 < digits.length then none
    else
      match digitLoop (lpDigitOk neg) 0 digits with
      | none => none
      | some v => if neg ∧ v = 0 then none else some (if neg then -(v : Int) else v)

/-! ## Reading an entry -/

/-- What `lp_get` returns: a payload, or an integer. -/
inductive LpValue
  | str (s : Bytes)
  | int (v : Int)
deriving DecidableEq

/-- A `w`-bit word read as a signed number. -/
def toSigned (w n : Nat) : Int := if n < 2 ^ (w - 1) then n else (n : Int) - 2 ^ w

def lpGet (e : Bytes) : LpValue :=
  let b := e.getD 0 0
  let rest := e.drop 1
  if b &&& 0x80 == 0x00 then .int (b &&& 0x7F).toNat
  else if b &&& 0xC0 == 0x80 then .str (rest.take (b &&& 0x3F).toNat)
  else if b &&& 0xE0 == 0xC0 then
    let u := (b &&& 0x1F).toNat * 256 + (e.getD 1 0).toNat
    if u &&& 0x1000 ≠ 0 then .int (toSigned 16 (u ||| 0xE000)) else .int u
  else if b &&& 0xF0 == 0xE0 then
    .str ((e.drop 2).take ((b &&& 0x0F).toNat * 256 + (e.getD 1 0).toNat))
  else if b == 0xF0 then .str ((e.drop 5).take (leNat (rest.take 4)))
  else if b == 0xF1 then .int (toSigned 16 (leNat (rest.take 2)))
  else if b == 0xF2 then
    let u := leNat (rest.take 3)
    .int (toSigned 32 (if u &&& 0x800000 ≠ 0 then u ||| 0xFF000000 else u))
  else if b == 0xF3 then .int (toSigned 32 (leNat (rest.take 4)))
  else if b == 0xF4 then .int (toSigned 64 (leNat (rest.take 8)))
  else .int 0

def lpGetStr (e : Bytes) : Bytes :=
  match lpGet e with
  | .str s => s
  | .int v => Piece.llToStr v

/-! ## Writing an entry -/

def encodeInt (iv : Int) : Bytes :=
  if 0 ≤ iv ∧ iv ≤ 127 then [UInt8.ofNat iv.toNat]
  else if -4096 ≤ iv ∧ iv ≤ 4095 then
    let u := (iv % 8192).toNat
    [0xC0 ||| UInt8.ofNat (u / 256 % 32), UInt8.ofNat u]
  else if -32768 ≤ iv ∧ iv ≤ 32767 then 0xF1 :: leBytes 2 (iv % 2 ^ 16).toNat
  else if -8388608 ≤ iv ∧ iv ≤ 8388607 then 0xF2 :: leBytes 3 (iv % 2 ^ 32).toNat
  else if -2147483648 ≤ iv ∧ iv ≤ 2147483647 then 0xF3 :: leBytes 4 (iv % 2 ^ 32).toNat
  else 0xF4 :: leBytes 8 (iv % 2 ^ 64).toNat

/-- The encoding of a string, and `enclen`. Its sum is one of `uint32_t`s. -/
def encodeStr (s : Bytes) : Bytes × Nat :=
  if s.length ≤ 63 then ((0x80 ||| UInt8.ofNat s.length) :: s, 1 + s.length)
  else if s.length ≤ 4095 then
    ((0xE0 ||| UInt8.ofNat (s.length / 256)) :: UInt8.ofNat s.length :: s, 2 + s.length)
  else (0xF0 :: (leBytes 4 s.length ++ s), (5 + s.length) % 2 ^ 32)

/-- `lp_encode_entry`: the back-length is written over what lies at `enclen`. -/
def lpEncodeEntry (s : Bytes) : Bytes :=
  match lpStrToInt64 s with
  | some iv => encodeInt iv ++ lpEncodeBacklen (encodeInt iv).length
  | none => (encodeStr s).1.take (encodeStr s).2 ++ lpEncodeBacklen (encodeStr s).2

/-! ## Edits -/

def lpBumpNumele (lp : Bytes) (up : Bool) : Bytes :=
  let n := lpLoadNumele lp
  if n = lpNumeleUnknown then lp
  else if up then
    if lpNumeleUnknown ≤ n + 1 then lpStoreNumele lp lpNumeleUnknown
    else lpStoreNumele lp (n + 1)
  else lpStoreNumele lp (n - 1)

/-- `LP_BEFORE`, `LP_AFTER`. -/
inductive Where
  | before
  | after
deriving DecidableEq

def insertOffset (lp : Bytes) (p : Option Nat) (w : Where) : Nat :=
  match p, w with
  | none, _ => lpLoadTotal lp - 1
  | some p, .before => p
  | some p, .after =>
    let esz := lpEntryPayloadSize lp p
    (p + (esz + lpBacklenSize esz)) % 2 ^ 64

def lpInsert (lp s : Bytes) (p : Option Nat) (w : Where) : Option (Bytes × Nat) :=
  let total := lpLoadTotal lp
  let off := insertOffset lp p w
  let enc := lpEncodeEntry s
  let newtotal := total + enc.length
  if uint32Max < newtotal then none
  else some (lpBumpNumele (lpStoreTotal (lp.take off ++ (enc ++ lp.drop off)) newtotal) true, off)

def lpAppend (lp s : Bytes) : Option Bytes := (lpInsert lp s none .before).map Prod.fst

def lpPrepend (lp s : Bytes) : Option Bytes :=
  (lpInsert lp s (some lpHdrSize) .before).map Prod.fst

def lpDelete (lp : Bytes) (p : Nat) : Option (Bytes × Option Nat) :=
  let total := lpLoadTotal lp
  let esz := lpEntryPayloadSize lp p
  if lp.getD p 0 == lpEof ∨ esz = uint64Max then none
  else
    let entryBytes := esz + lpBacklenSize esz
    let newtotal := total - entryBytes
    some (lpBumpNumele (lpStoreTotal (lp.take p ++ lp.drop (p + entryBytes)) newtotal) false,
      if newtotal - 1 ≤ p then none else some p)

def lpReplace (lp : Bytes) (p : Nat) (s : Bytes) : Option Bytes :=
  (lpDelete lp p).bind fun r => (lpInsert r.1 s r.2 .before).map Prod.fst

/-! ## Search -/

end Ddup.Ds
