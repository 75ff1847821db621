/-
Ddup.Resp.ValueWriter — `resp_write_value` of `resp/resp_writer.c`: a whole value, tree and all.

The buffer grows as needed. A double is kept as the text it was parsed from; the text that
`resp_write_double` prints for it is the parameter `fmt`.
-/
import Ddup.Resp.Reply

namespace Ddup.Resp

/-- A string as `write_typed_line` writes it: a NULL pointer is the empty string, or is
refused if a length comes with it. -/
def writeLineStr (tag : Tag) (s : RespStr) : Bytes :=
  match s.bytes? with
  | some b => Piece.typedLine tag b
  | none => []

def writeVerbatim (s : RespStr) : Bytes :=
  match s.bytes? with
  | some b => writeHeader .verbatimString b.length ++ (b ++ crlf)
  | none => []

mutual

def respWriteValue (fmt : Bytes → Bytes) : RespValue → Bytes
  | .simpleString s => writeLineStr .simpleString s
  | .error s => writeLineStr .error s
  | .integer n => Piece.typedLine .integer (Piece.llToStr n)
  | .bulkString s => respWriteBulk s
  | .null => Piece.typedLine .null []
  | .boolean b => Piece.typedLine .boolean (if b then [116] else [102])
  | .double digits => Piece.typedLine .double (fmt digits)
  | .bigNumber s => writeLineStr .bigNumber s
  -- no length in front: a line, although the parser expects a blob
  | .blobError s => writeLineStr .blobError s
  | .verbatimString s => writeVerbatim s
  | .array _ true => Tag.array.byte :: ([45, 49] ++ crlf)
  | .array items false => writeHeader .array items.length ++ respWriteAll fmt items
  | .map items => writeHeader .map (items.length / 2) ++ respWriteAll fmt items
  | .set items => writeHeader .set items.length ++ respWriteAll fmt items
  | .push items => writeHeader .push items.length ++ respWriteAll fmt items

def respWriteAll (fmt : Bytes → Bytes) : List RespValue → Bytes
  | [] => []
  | v :: vs => respWriteValue fmt v ++ respWriteAll fmt vs

end

end Ddup.Resp
