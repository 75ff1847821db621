/-
Ddup.Command.Keys — which arguments of a command are keys, by `cmd_keys_accum`.

The C function walks the key arguments of one command and feeds each to
`slot_accum`; its chain of command tests and the loop of each test are separated
here. `cmdKeyShape` is the chain, in the source's order; `keyPositions` is the
loop of each shape, as the list of argument positions it visits. An argument
that is not string-typed is skipped.
-/
import Ddup.Command.Table
import Ddup.Command.HashSlot

namespace Ddup.Command

open Ddup.Resp

/-- The loops of `cmd_keys_accum`. -/
inductive KeyShape
  | all
  | pairs
  | himport
  | sort (store : Bool)
  | msetex
  | firstTwo
  | butLast
  /-- `numkeys` at argument 2, refused when larger than the rest. -/
  | numkeysStrict
  /-- `numkeys` at argument 1, cut to the rest. -/
  | numkeysCut
  | destNumkeys
  | second
  | georadius (start : Nat)
  | streams
  | first
deriving Repr, DecidableEq

/-- The chain of `cmd_keys_accum`. -/
def cmdKeyShape (id : CmdId) : KeyShape :=
  if id ∈ [.mget, .del, .unlink, .exists, .touch, .sinter, .sunion, .sdiff, .watch,
      .sinterstore, .sunionstore, .sdiffstore, .bitop] then .all
  else if id ∈ [.mset, .msetnx] then .pairs
  else if id = .himport then .himport
  else if id ∈ [.sort, .sortRo] then .sort (id = .sort)
  else if id = .msetex then .msetex
  else if id ∈ [.smove, .rename, .renamenx, .rpoplpush, .lmove, .lmovem, .copy, .lcs,
      .brpoplpush, .blmove, .blmovem] then .firstTwo
  else if id ∈ [.blpop, .brpop, .bzpopmin, .bzpopmax] then .butLast
  else if id ∈ [.blmpop, .bzmpop] then .numkeysStrict
  else if id = .sintercard then .numkeysCut
  else if id ∈ [.sunioncard, .sdiffcard] then .numkeysCut
  else if id ∈ [.zunionstore, .zinterstore, .zdiffstore] then .destNumkeys
  else if id ∈ [.zunion, .zinter, .zdiff, .zintercard, .zmpop, .lmpop] then .numkeysCut
  else if id = .zrangestore then .firstTwo
  else if id ∈ [.pfcount, .pfmerge] then .all
  else if id = .pfdebug then .second
  else if id = .geosearchstore then .firstTwo
  else if id ∈ [.georadius, .georadiusbymember] then
    .georadius (if id = .georadius then 6 else 5)
  else if id ∈ [.eval, .evalsha, .evalRo, .evalshaRo, .fcall, .fcallRo] then .numkeysStrict
  else if id ∈ [.xgroup, .xinfo] then .second
  else if id ∈ [.xread, .xreadgroup] then .streams
  else .first

/-- The first position from `start`, below `stop`, whose argument satisfies `p`. -/
def findArg (p : RespValue → Bool) (argv : List RespValue) (start stop : Nat) : Option Nat :=
  (List.range' start (stop - start)).find? fun i => argv[i]?.any p

/-- The positive `numkeys` at a position. -/
def posNumkeys (argv : List RespValue) (i : Nat) : Option Nat :=
  ((argAt argv i).bind parseI64).bind fun nk => if 0 < nk then some nk.toNat else none

/-- `geo_radius_store_key`, as a position. -/
def geoRadiusStoreKey (argv : List RespValue) (start : Nat) : Option Nat :=
  (findArg (fun v => isOption (text "STORE") v || isOption (text "STOREDIST") v) argv start
    (argv.length - 1)).map (· + 1)

def keyPositions (argv : List RespValue) : KeyShape → List Nat
  | .all => List.range' 1 (argv.length - 1)
  | .pairs => List.range' 1 ((argv.length - 1) / 2) 2
  | .himport => if argv[1]?.any (isOption (text "SET")) ∧ 3 ≤ argv.length then [2] else []
  | .sort store =>
    if (argAt argv 1).isNone then []
    else 1 :: (if store then
        ((findArg (isOption (text "STORE")) argv 2 (argv.length - 1)).map (· + 1)).toList
      else [])
  | .msetex =>
    match posNumkeys argv 1 with
    | some nk =>
      if argv.length < 4 then []
      -- `2 + (size_t)nk * 2` wraps at 64 bits
      else List.range' 2 ((min ((2 + nk * 2) % 2 ^ 64) argv.length - 2 + 1) / 2) 2
    | none => []
  | .firstTwo => List.range' 1 (min argv.length 3 - 1)
  | .butLast => List.range' 1 (argv.length - 2)
  | .numkeysStrict =>
    match posNumkeys argv 2 with
    | some nk => if argv.length < 4 ∨ argv.length - 3 < nk then [] else List.range' 3 nk
    | none => []
  | .numkeysCut =>
    match posNumkeys argv 1 with
    | some nk => if argv.length < 3 then [] else List.range' 2 (min nk (argv.length - 2))
    | none => []
  | .destNumkeys =>
    match posNumkeys argv 2 with
    | some nk =>
      if argv.length < 4 ∨ (argAt argv 1).isNone then []
      else 1 :: List.range' 3 (min nk (argv.length - 3))
    | none => []
  | .second => if argv.length < 3 then [] else [2]
  | .georadius start => 1 :: (geoRadiusStoreKey argv start).toList
  | .streams =>
    match findArg (isOption (text "STREAMS")) argv 1 argv.length with
    | none => []
    | some s =>
      let rest := argv.length - s - 1
      if rest < 2 ∨ rest % 2 ≠ 0 then [] else List.range' (s + 1) (rest / 2)
  | .first => [1]

def argvCmd (argv : List RespValue) : CmdId :=
  ((argAt argv 0).map cmdResolve).getD .unknown

/-- The key arguments of a command: the strings at the visited positions. -/
def keysOf (id : CmdId) (argv : List RespValue) : List Bytes :=
  (keyPositions argv (cmdKeyShape id)).filterMap (argAt argv)

def cmdKeys (argv : List RespValue) : List Bytes :=
  if (argAt argv 0).isNone ∨ argv.length < 2 then [] else keysOf (argvCmd argv) argv

/-- `slot_accum`: the accumulated slot, if any, and whether the key fits it. -/
def slotAccum (slot : Option Nat) (key : Bytes) : Bool × Option Nat :=
  match slot with
  | none => (true, some (hashSlot key))
  | some s => (s = hashSlot key, some s)

/-- `cmd_keys_accum`: stops at the first key of another slot. -/
def cmdKeysAccum (argv : List RespValue) (slot : Option Nat) : Bool × Option Nat :=
  let sortNoKey := argvCmd argv ∈ [.sort, .sortRo] ∧ 2 ≤ argv.length ∧ (argAt argv 1).isNone
  if sortNoKey then (false, slot)
  else (cmdKeys argv).foldl (fun acc k => if acc.1 then slotAccum acc.2 k else acc) (true, slot)

end Ddup.Command
