/-
Ddup.Resp.Writer — the parts of `resp/resp_writer.c` that serialise a command: an
array header and a bulk string for each argument. The buffer grows as needed.
-/
import Ddup.Resp.Parser

namespace Ddup.Resp

def digitByte (d : Nat) : UInt8 := UInt8.ofNat (48 + d)

/-- The loop of `u64_to_str`: two digits a round, the low one first. -/
def u64Loop : Nat → Nat → Bytes
  | 0, _ => []
  | fuel + 1, v =>
    if 100 ≤ v then digitByte (v % 100 % 10) :: digitByte (v % 100 / 10) :: u64Loop fuel (v / 100)
    else if v < 10 then [digitByte v]
    else [digitByte (v % 10), digitByte (v / 10)]

def u64ToStr (v : Nat) : Bytes := (u64Loop (v + 1) v).reverse

def writeHeader (tag : Tag) (n : Nat) : Bytes := tag.byte :: (u64ToStr n ++ crlf)

def respWriteArrayHeader (n : Nat) : Bytes := writeHeader .array n

def respWriteBulk : RespStr → Bytes
  | .view s => Tag.bulkString.byte :: (u64ToStr s.length ++ (crlf ++ (s ++ crlf)))
  | .null 0 => Tag.bulkString.byte :: ([45, 49] ++ crlf)
  | .null (_ + 1) => []

/-- An argument of a serialised command: what is no string becomes the empty one. -/
def writeArg : RespValue → Bytes
  | .bulkString s | .simpleString s => respWriteBulk s
  | _ => respWriteBulk (.view [])

/-- A serialised command, as `aof_log_cmd` and `srv_propagate` write it. -/
def writeCommand (argv : List RespValue) : Bytes :=
  respWriteArrayHeader argv.length ++ argv.flatMap writeArg

end Ddup.Resp
