/-
Ddup.Resp.Reply — a reply as it is written: the calls of `resp/resp_writer.c` a command
makes, in order. An array is written as its header, and its elements follow as calls
of their own; nothing but the command's own counting makes the two agree.
-/
import Ddup.Lib.Terms
import Ddup.Resp.Writer

namespace Ddup.Resp

inductive Piece
  | simple (s : Bytes)
  | error (s : Bytes)
  | int (n : Int)
  | bulk (s : RespStr)
  | nullArray
  | header (n : Nat)
deriving DecidableEq

namespace Piece

def arity : Piece → Nat
  | .header n => n
  | _ => 0

def llToStr (n : Int) : Bytes := if n < 0 then 45 :: u64ToStr n.natAbs else u64ToStr n.natAbs

def typedLine (tag : Tag) (s : Bytes) : Bytes := tag.byte :: (s ++ crlf)

def bytes : Piece → Bytes
  | .simple s => typedLine .simpleString s
  | .error s => typedLine .error s
  | .int n => typedLine .integer (llToStr n)
  | .bulk s => respWriteBulk s
  | .nullArray => Tag.array.byte :: ([45, 49] ++ crlf)
  | .header n => respWriteArrayHeader n

end Piece

def replyBytes (ps : List Piece) : Bytes := ps.flatMap Piece.bytes

theorem replyBytes_append (ps qs : List Piece) :
    replyBytes (ps ++ qs) = replyBytes ps ++ replyBytes qs := List.flatMap_append

theorem replyBytes_cons (p : Piece) (ps : List Piece) :
    replyBytes (p :: ps) = p.bytes ++ replyBytes ps := List.flatMap_cons

/-- A reply is one value: `resp_parse` takes all of it. -/
def OneValue (isDouble : Bytes → Bool) (ps : List Piece) : Prop :=
  ∃ v, respParse isDouble (replyBytes ps) = .done v []

mutual

/-- The calls that write a value. The kinds no command of this development replies
with are written as nothing. -/
def piecesOf : RespValue → List Piece
  | .simpleString (.view s) => [.simple s]
  | .error (.view s) => [.error s]
  | .integer n => [.int n]
  | .bulkString s => [.bulk s]
  | .array _ true => [.nullArray]
  | .array items false => .header items.length :: piecesOfAll items
  | _ => []

def piecesOfAll : List RespValue → List Piece
  | [] => []
  | v :: vs => piecesOf v ++ piecesOfAll vs

end

end Ddup.Resp
