/-
Ddup.Resp.Parser — `resp_parse` of `resp/resp_parser.c`: one RESP value off the front
of a receive buffer.

The buffer is the bytes from the current position to its end, so the return codes 1,
0 and -1 of `parse_at` are the three cases of `Lib.Parsed`. Whether `strtod` takes a
text to its last byte is a parameter, `isDouble`. Allocation in the arena succeeds.
-/
import Ddup.Command.Args
import Ddup.Lib.Incremental

namespace Ddup.Resp

open Ddup.Lib Ddup.Command

abbrev Parse (α : Type) := Bytes → Parsed UInt8 α

/-- `RESP_MAX_DEPTH`. -/
def respMaxDepth : Nat := 512

/-- `RESP_MAX_ARRAY_LEN`. -/
def respMaxArrayLen : Nat := 1024 * 1024 * 1024

def crlf : Bytes := [13, 10]

/-! ## Lines and numbers -/

/-- `ddup_find_crlf`: what stands before the first CR LF, and what after it. -/
def findCrlf : Bytes → Option (Bytes × Bytes)
  | [] => none
  | c :: cs =>
    if c = 13 ∧ cs.head? = some 10 then some ([], cs.tail)
    else (findCrlf cs).map fun r => (c :: r.1, r.2)

def parseLine : Parse Bytes := fun p =>
  match findCrlf p with
  | none => .incomplete
  | some (l, rest) => .done l rest

/-- A digit string without its padding. -/
def skipZeros (p : Bytes) : Bytes := p.dropWhile (· == 48)

/-- The overflow test of `parse_ll`, made on 19 digits only. -/
def llOk (neg : Bool) (digits v d : Nat) : Bool :=
  let limit := llongMax + if neg then 1 else 0
  digits < 19 || v < limit / 10 || (v == limit / 10 && d ≤ limit % 10)

def parseLl (p : Bytes) : Option Int :=
  let (neg, q) := splitSign p
  if q = [] then none
  else
    let ds := skipZeros q
    if 19 < ds.length then none
    else (digitLoop (llOk neg ds.length) 0 ds).map fun (v : Nat) =>
      if neg then -(v : Int) else (v : Int)

/-- `parse_bulk_len`: a length, or the marker `-1` (absent). -/
def parseBulkLen (p : Bytes) : Option (Option Nat) :=
  if p = [] then none
  else if p.head? = some 45 then if p = [45, 49] then some none else none
  else if 10 < (skipZeros p).length then none
  else
    match digitLoop (fun _ _ => true) 0 (skipZeros p) with
    | none => none
    | some v => if respMaxArrayLen < v then none else some (some v)

/-! ## Line and blob types -/

/-- The first byte of a value says what follows. -/
inductive Tag
  | simpleString | error | integer | null | boolean | double | bigNumber
  | bulkString | blobError | verbatimString
  | array | map | set | push
deriving Repr, DecidableEq

def Tag.byte : Tag → UInt8
  | .simpleString => 43
  | .error => 45
  | .integer => 58
  | .null => 95
  | .boolean => 35
  | .double => 44
  | .bigNumber => 40
  | .bulkString => 36
  | .blobError => 33
  | .verbatimString => 61
  | .array => 42
  | .map => 37
  | .set => 126
  | .push => 62

def tagOf (c : UInt8) : Option Tag :=
  [Tag.simpleString, .error, .integer, .null, .boolean, .double, .bigNumber, .bulkString,
    .blobError, .verbatimString, .array, .map, .set, .push].find? (·.byte == c)

def parseLength : Parse (Option Nat) := fun p =>
  (parseLine p).andThen fun l rest =>
    match parseBulkLen l with
    | none => .failed
    | some len => .done len rest

def parsePayload (n : Nat) : Parse Bytes := fun p =>
  if p.length < n + 2 then .incomplete
  else if (p.drop n).take 2 = crlf then .done (p.take n) (p.drop (n + 2))
  else .failed

/-- A length and that many bytes; nothing for `-1`. -/
def parseBlob : Parse (Option Bytes) := fun p =>
  (parseLength p).andThen fun len rest =>
    match len with
    | none => .done none rest
    | some n => (parsePayload n rest).map some

/-- The string of a bulk: NULL for `$-1`. -/
def bulkOf : Option Bytes → RespValue
  | none => .bulkString (.null 0)
  | some b => .bulkString (.view b)

def parseBulk : Parse RespValue := fun p => (parseBlob p).map bulkOf

/-- A blob that cannot be null. -/
def parseBlobAs (wrap : RespStr → RespValue) : Parse RespValue := fun p =>
  (parseBlob p).andThen fun b rest =>
    match b with
    | none => .failed
    | some b => .done (wrap (.view b)) rest

def readLine (isDouble : Bytes → Bool) (tag : Tag) (l : Bytes) : Option RespValue :=
  match tag with
  | .simpleString => some (.simpleString (.view l))
  | .error => some (.error (.view l))
  | .integer => (parseLl l).map .integer
  | .null => if l = [] then some .null else none
  | .boolean =>
    if l = [116] then some (.boolean true)
    else if l = [102] then some (.boolean false)
    else none
  | .double =>
    if l = text "inf" ∨ l = text "-inf" ∨ l = text "nan" then some (.double l)
    else if l ≠ [] ∧ isDouble l then some (.double l)
    else none
  | .bigNumber => some (.bigNumber (.view l))
  | _ => none

def parseLineAs (read : Bytes → Option RespValue) : Parse RespValue := fun p =>
  (parseLine p).andThen fun l rest =>
    match read l with
    | none => .failed
    | some v => .done v rest

/-! ## Aggregates -/

/-- The inline loop over the leading bulk children of an array. -/
def leadingBulks : Nat → Parse (List RespValue)
  | 0, cur => .done [] cur
  | n + 1, cur =>
    if cur.head? = some Tag.bulkString.byte then
      (parseBulk cur.tail).andThen fun v rest => (leadingBulks n rest).map (v :: ·)
    else .done [] cur

/-- The children of an array: bulks inline, from the first other value on through the
general parser. -/
def parseArrayItems (child : Parse RespValue) (n : Nat) : Parse (List RespValue) := fun cur =>
  (leadingBulks n cur).andThen fun vs rest =>
    (repeatN child (n - vs.length) rest).map (vs ++ ·)

def aggregateOf : Tag → List RespValue → RespValue
  | .map, items => .map items
  | .set, items => .set items
  | .push, items => .push items
  | _, items => .array items false

def slotsOf (tag : Tag) (n : Nat) : Nat := if tag = .map then n * 2 else n

/-- The aggregate types: a count and the children. Every child takes three bytes at
least, so fewer bytes than that are never enough. -/
def parseAggregate (tag : Tag) (items : Nat → Parse (List RespValue)) : Parse RespValue := fun p =>
  (parseLength p).andThen fun len cur =>
    match len with
    | none => if tag = .array then .done (.array [] true) cur else .failed
    | some n =>
      if tag = .map ∧ respMaxArrayLen / 2 < n then .failed
      else if cur.length / 3 < slotsOf tag n then .incomplete
      else (items (slotsOf tag n) cur).map (aggregateOf tag)

/-! ## `resp_parse` -/

def parseBody (isDouble : Bytes → Bool) (child : Parse RespValue) (tag : Tag) : Parse RespValue :=
  match tag with
  | .bulkString => parseBulk
  | .blobError => parseBlobAs .blobError
  | .verbatimString => parseBlobAs .verbatimString
  | .array => parseAggregate .array (parseArrayItems child)
  | .map => parseAggregate .map (repeatN child)
  | .set => parseAggregate .set (repeatN child)
  | .push => parseAggregate .push (repeatN child)
  | _ => parseLineAs (readLine isDouble tag)

/-- `parse_at`, by the number of levels that are left: `RESP_MAX_DEPTH + 1 - depth`. -/
def parseAt (isDouble : Bytes → Bool) : Nat → Parse RespValue
  | 0, _ => .failed
  | _ + 1, [] => .incomplete
  | d + 1, c :: p =>
    match tagOf c with
    | none => .failed
    | some tag => parseBody isDouble (parseAt isDouble d) tag p

def respParse (isDouble : Bytes → Bool) : Parse RespValue := parseAt isDouble (respMaxDepth + 1)

/-- The number `resp_parse` returns: the bytes of the value, 0 while it is incomplete, -1
for a protocol error. -/
def respReturn (isDouble : Bytes → Bool) (buf : Bytes) : Int :=
  match respParse isDouble buf with
  | .done _ rest => (buf.length : Int) - rest.length
  | .incomplete => 0
  | .failed => -1

end Ddup.Resp
