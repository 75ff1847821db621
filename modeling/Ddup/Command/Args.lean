/-
Ddup.Command.Args — argument helpers of `core/command.c`.

`argv` is a list of RESP values, its length `argc`. The helpers here read an
argument as a string, compare it with an option word whatever its case, and
parse it as a 64-bit integer.
-/
import Ddup.Resp.Value

namespace Ddup.Command

open Ddup.Resp

def upper (c : UInt8) : UInt8 := if 97 ≤ c ∧ c ≤ 122 then c - 32 else c

def ciEqual (a b : Bytes) : Bool := a.map upper == b.map upper

def argStr : RespValue → Option Bytes
  | .bulkString s => s.bytes?
  | .simpleString s => s.bytes?
  | _ => none

def argAt (argv : List RespValue) (i : Nat) : Option Bytes := argv[i]?.bind argStr

def isOption (word : Bytes) (v : RespValue) : Bool := (argStr v).any (ciEqual · word)

theorem argStr_of_bulk? {v : RespValue} {b : Bytes} (h : v.bulk? = some b) : argStr v = some b := by
  cases v <;> simp_all [RespValue.bulk?, argStr]

/-! ## Decimal integers -/

def llongMax : Nat := 9223372036854775807
def uint64Max : Nat := 18446744073709551615

def digit? (c : UInt8) : Option Nat := if 48 ≤ c ∧ c ≤ 57 then some (c.toNat - 48) else none

/-- A digit loop: every byte a digit, each step allowed by the overflow test. -/
def digitLoop (ok : Nat → Nat → Bool) : Nat → Bytes → Option Nat
  | v, [] => some v
  | v, c :: cs => do
    let d ← digit? c
    if ok v d then digitLoop ok (v * 10 + d) cs else none

def splitSign : Bytes → Bool × Bytes
  | 45 :: cs => (true, cs)
  | cs => (false, cs)

def i64Ok (neg : Bool) (v d : Nat) : Bool :=
  v < llongMax / 10 || (v == llongMax / 10 && d ≤ llongMax % 10 + (if neg then 1 else 0))

def parseI64 (s : Bytes) : Option Int :=
  let (neg, digits) := splitSign s
  if digits = [] then none
  else (digitLoop (i64Ok neg) 0 digits).map fun (v : Nat) => if neg then -(v : Int) else (v : Int)

/-- The overflow test of `parse_u64` and of `acl_parse_ll`. -/
def u64Ok (v d : Nat) : Bool := v ≤ (uint64Max - d) / 10

def parseU64 (s : Bytes) : Option Nat :=
  if s = [] then none else digitLoop u64Ok 0 s

theorem digitLoop_le {ok : Nat → Nat → Bool} (bound : Nat)
    (hok : ∀ v d, ok v d = true → d < 10 → v * 10 + d ≤ bound) {s : Bytes} {v w : Nat}
    (h : digitLoop ok v s = some w) (hv : v ≤ bound) : w ≤ bound := by
  induction s generalizing v with
  | nil =>
    cases h
    exact hv
  | cons c cs ih =>
    simp only [digitLoop, Option.bind_eq_bind] at h
    cases hd : digit? c with
    | none => rw [hd] at h; cases h
    | some d =>
      rw [hd, Option.bind_some] at h
      have hdigit : d < 10 := by
        unfold digit? at hd
        split at hd
        · rename_i hc
          cases hd
          have := UInt8.le_iff_toNat_le.mp hc.2
          have h57 : (57 : UInt8).toNat = 57 := rfl
          omega
        · cases hd
      split at h
      · rename_i hstep
        exact ih h (hok v d hstep hdigit)
      · cases h

theorem digitLoop_agree {ok ok' : Nat → Nat → Bool} :
    ∀ {v : Nat} {s : Bytes} {a b : Nat}, digitLoop ok v s = some a →
      digitLoop ok' v s = some b → a = b
  | v, [], a, b, ha, hb => by
    cases ha
    cases hb
    rfl
  | v, c :: cs, a, b, ha, hb => by
    simp only [digitLoop, Option.bind_eq_bind] at ha hb
    cases hd : digit? c with
    | none => rw [hd] at ha; cases ha
    | some d =>
      rw [hd, Option.bind_some] at ha hb
      split at ha
      · split at hb
        · exact digitLoop_agree ha hb
        · cases hb
      · cases ha

end Ddup.Command
