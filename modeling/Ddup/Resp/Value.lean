/-
Ddup.Resp.Value — the RESP value model of `resp/resp.h`.

A string payload is a view into the receive buffer: a pointer and a length. The
pointer may be NULL (the null bulk `$-1` has length 0); a NULL pointer with a
nonzero length never comes from the parser, but the command layer guards against
it, so it is a value here too.
-/
import Ddup.Basic

namespace Ddup.Resp

/-- The `str`/`len` pair of a `resp_value`. -/
inductive RespStr
  | view (bytes : Bytes)
  | null (len : Nat)
deriving Repr, DecidableEq

/-- `resp_value`: the tag with the payload that tag carries. A double keeps the
text it was parsed from. -/
inductive RespValue
  | simpleString (str : RespStr)
  | error (str : RespStr)
  | integer (n : Int)
  | bulkString (str : RespStr)
  | array (items : List RespValue) (isNull : Bool)
  | null
  | boolean (b : Bool)
  | double (digits : Bytes)
  | bigNumber (str : RespStr)
  | blobError (str : RespStr)
  | verbatimString (str : RespStr)
  | map (items : List RespValue)
  | set (items : List RespValue)
  | push (items : List RespValue)
deriving Repr

/-- The bytes a well-formed view denotes; NULL denotes the empty string only
when its length is zero. -/
def RespStr.bytes? : RespStr → Option Bytes
  | .view b => some b
  | .null 0 => some []
  | .null (_ + 1) => none

def RespValue.bulk? : RespValue → Option Bytes
  | .bulkString s => s.bytes?
  | _ => none

def bulk (b : Bytes) : RespValue := .bulkString (.view b)

@[simp] theorem bulk?_bulk (b : Bytes) : (bulk b).bulk? = some b := rfl

end Ddup.Resp
