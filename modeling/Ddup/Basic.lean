/-
Ddup.Basic — the vocabulary every module shares.

Keys, values and command arguments are byte strings with explicit lengths in
the server (`const char *` plus a `size_t`); here a byte string is the list of
its bytes, so its length is the list's.
-/
import Mathlib.Data.Finmap
import Mathlib.Tactic

namespace Ddup

/-- A byte string: `const char *` with its length. -/
abbrev Bytes := List UInt8

/-- `UINT32_MAX`: the longest key or value an entry's length fields can hold. -/
def uint32Max : Nat := 4294967295

/-- The bytes of a text, for command names, option words and fixed replies. -/
def text (s : String) : Bytes := s.toByteArray.data.toList

end Ddup
