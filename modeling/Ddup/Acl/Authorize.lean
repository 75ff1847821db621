/-
Ddup.Acl.Authorize — the access check of `core/acl.c`.

`acl_authorize` decides whether a user may run one command with one argument
list: the command must be allowed, and the keys (or channels) among the
arguments must match the user's patterns. It finds the keys by its own case
analysis, independent of `cmd_keys_accum`. As there, the chain of command tests
(`aclShape`) and the check of each test (`aclKeyCheck`) are separated, in the
source's order. Two tests further down the C chain (a second ZMPOP and a second
BLMPOP/BZMPOP) can never be reached and have no counterpart.
-/
import Ddup.Command.Keys

namespace Ddup.Acl

open Ddup.Resp Ddup.Command

/-- `acl_user`. The C arrays of NUL-terminated patterns are lists, the command
bit sets are predicates. -/
structure AclUser where
  name : Bytes
  password : Bytes
  patterns : List Bytes
  allow : CmdId → Bool
  deny : CmdId → Bool
  enabled : Bool
  allCommands : Bool
  generation : Nat
  channels : List Bytes
  allChannels : Bool
  noPassword : Bool

def aclParseLl (s : Bytes) : Option Int :=
  let (neg, digits) := splitSign s
  if digits = [] then none
  else (digitLoop u64Ok 0 digits).bind fun (v : Nat) =>
    if neg then (if v ≤ llongMax + 1 then some (-(v : Int)) else none)
    else (if v ≤ llongMax then some (v : Int) else none)

/-! ## `acl_match_pattern` -/

/-- The loop of `acl_match_pattern`. `star` is the position of the last star
passed, `mark` the key position it is tried from. -/
def aclMatchLoop (pat key : Bytes) : Nat → Nat → Nat → Option Nat → Nat → Bool
  | 0, _, _, _, _ => false
  | fuel + 1, pi, ki, star, mark =>
    if ki < key.length then
      if pi < pat.length ∧ (pat[pi]? = some 63 ∨ pat[pi]? = key[ki]?) then
        aclMatchLoop pat key fuel (pi + 1) (ki + 1) star mark
      else if pi < pat.length ∧ pat[pi]? = some 42 then
        aclMatchLoop pat key fuel (pi + 1) ki (some pi) ki
      else
        match star with
        | some s => aclMatchLoop pat key fuel (s + 1) (mark + 1) star (mark + 1)
        | none => false
    else (pat.drop pi).all (· == 42)

/-- `acl_match_pattern`. Every retry of the star moves `mark` on, and between two
retries `pi` only grows, which bounds the number of steps. -/
def aclMatchPattern (pat key : Bytes) : Bool :=
  aclMatchLoop pat key ((key.length + 1) * (pat.length + 2)) 0 0 none 0

def AclUser.matchesKey (u : AclUser) (key : Bytes) : Bool :=
  u.patterns.any (aclMatchPattern · key)

def aclAuthorizeChannel (u : AclUser) (channel : Bytes) (isPattern : Bool) : Bool :=
  u.enabled && (u.allChannels ||
    u.channels.any fun p => if isPattern then p == channel else aclMatchPattern p channel)

/-! ## `acl_authorize` -/

/-- The tests of `acl_authorize` on the command id. -/
inductive AclShape
  | channels (isPattern one : Bool)
  | pubsub
  | keyless
  | memory
  | debug
  | object
  | xinfo
  | script
  | streams
  | xgroup
  | migrate
  | himport
  | zrangestore
  | msetex
  | mpop (numIdx : Nat)
  | sort (store : Bool)
  | destNumkeys
  | geosearchstore
  | all
  | card
  | butLast
  | bitop
  | georadius
  | two
  | pairs
  | one
deriving Repr, DecidableEq

def aclShape (id : CmdId) : AclShape :=
  if id ∈ [.subscribe, .unsubscribe, .psubscribe, .punsubscribe, .ssubscribe, .sunsubscribe,
      .publish, .spublish] then
    .channels (id ∈ [.psubscribe, .punsubscribe]) (id ∈ [.publish, .spublish])
  else if id = .pubsub then .pubsub
  else if id ∈ [.ping, .echo, .auth, .quit, .reset, .hello, .time, .role, .readonly,
      .readwrite, .select, .command, .info, .latency, .lolwut, .config, .client, .slowlog,
      .wait, .waitaof, .function, .script, .module, .dbsize, .flushdb, .flushall, .shutdown,
      .save, .bgsave, .bgrewriteaof, .swapdb, .lastsave, .asking, .sync, .psync, .replicaof,
      .slaveof, .replconf, .failover, .monitor, .cluster, .sentinel, .backup, .hotkeys] then
    .keyless
  else if id = .memory then .memory
  else if id = .debug then .debug
  else if id = .object then .object
  else if id = .xinfo then .xinfo
  else if id ∈ [.eval, .evalsha, .evalRo, .evalshaRo, .fcall, .fcallRo] then .script
  else if id ∈ [.xread, .xreadgroup] then .streams
  else if id = .xgroup then .xgroup
  else if id = .migrate then .migrate
  else if id = .himport then .himport
  else if id = .zrangestore then .zrangestore
  else if id = .msetex then .msetex
  else if id ∈ [.lmpop, .blmpop, .zmpop, .bzmpop] then
    .mpop (if id ∈ [.lmpop, .zmpop] then 1 else 2)
  else if id ∈ [.sort, .sortRo] then .sort (id = .sort)
  else if id ∈ [.sinterstore, .sunionstore, .sdiffstore] then .destNumkeys
  else if id ∈ [.zunionstore, .zinterstore, .zdiffstore] then .destNumkeys
  else if id = .geosearchstore then .geosearchstore
  else if id ∈ [.pfcount, .pfmerge] then .all
  else if id ∈ [.sintercard, .zunion, .zinter, .zdiff, .zintercard] then .card
  else if id ∈ [.blpop, .brpop, .bzpopmin, .bzpopmax] then .butLast
  else if id = .bitop then .bitop
  else if id ∈ [.georadius, .georadiusbymember] then .georadius
  else if id ∈ [.smove, .rename, .renamenx, .rpoplpush, .lmove, .lmovem, .copy, .lcs,
      .brpoplpush, .blmove, .blmovem] then .two
  else if id ∈ [.mget, .del, .unlink, .exists, .touch, .sinter, .sunion, .sdiff] then .all
  else if id ∈ [.mset, .msetnx] then .pairs
  else .one

/-- One key argument: a bulk string that matches a pattern. -/
def AclUser.keyOk (u : AclUser) (v : RespValue) : Bool := v.bulk?.any u.matchesKey

def AclUser.keysOk (u : AclUser) (argv : List RespValue) (positions : List Nat) : Bool :=
  positions.all fun i => argv[i]?.all u.keyOk

/-- A bulk argument equal to an option word, upper case only (`memcmp`). -/
def exactWord (word : Bytes) (v : RespValue) : Bool := v.bulk? == some word

/-- The count `acl_authorize` reads from a bulk argument. -/
def aclNumkeys (argv : List RespValue) (i : Nat) : Option Int :=
  (argv[i]?.bind RespValue.bulk?).bind aclParseLl

/-- A store destination after the first exact option word. -/
def storeOk (u : AclUser) (p : RespValue → Bool) (argv : List RespValue) : Bool :=
  match findArg p argv 2 (argv.length - 1) with
  | some j => u.keysOk argv [j + 1]
  | none => true

def channelOk (u : AclUser) (isPattern : Bool) (v : RespValue) : Bool :=
  v.bulk?.any (aclAuthorizeChannel u · isPattern)

/-- The key and channel checks of `acl_authorize`, for at least two arguments. -/
def aclKeyCheck (u : AclUser) (argv : List RespValue) : AclShape → Bool
  | .channels isPattern one =>
    u.allChannels || ((argv.take (if one then 2 else argv.length)).drop 1).all
      (channelOk u isPattern)
  | .pubsub =>
    -- with all channels allowed PUBSUB falls through to the keyless commands
    u.allChannels || argv.length == 2 ||
      !(argv[1]?.any fun v => exactWord (text "CHANNELS") v || exactWord (text "NUMSUB") v) ||
      (argv.drop 2).all (channelOk u false)
  | .keyless => true
  | .memory =>
    !argv[1]?.any (exactWord (text "USAGE")) ||
      (u.patterns ≠ [] && u.keysOk argv [2])
  | .debug =>
    !argv[1]?.any (exactWord (text "OBJECT")) ||
      (u.patterns ≠ [] && u.keysOk argv [2])
  | .object | .xinfo =>
    argv[1]?.any (exactWord (text "HELP")) ||
      (u.patterns ≠ [] && u.keysOk argv [if 3 ≤ argv.length then 2 else 1])
  | .script =>
    match aclNumkeys argv 2 with
    | none => false
    | some nk =>
      if nk < 0 ∨ ((argv.length : Int) - 3) < nk then false
      else nk == 0 || (u.patterns ≠ [] && u.keysOk argv (List.range' 3 nk.toNat))
  | .streams =>
    u.patterns ≠ [] &&
      match findArg (exactWord (text "STREAMS")) argv 1 argv.length with
      | none => false
      | some s =>
        let rest := argv.length - s - 1
        rest ≠ 0 && rest % 2 == 0 && u.keysOk argv (List.range' (s + 1) (rest / 2))
  | .xgroup => 3 ≤ argv.length && u.patterns ≠ [] && u.keysOk argv [2]
  | .migrate =>
    4 ≤ argv.length && u.patterns ≠ [] &&
      (argv[3]?.any fun v => v.bulk?.any fun k => k == [] || u.matchesKey k) &&
      match findArg (exactWord (text "KEYS")) argv 6 (argv.length - 1) with
      | some j => u.keysOk argv [j + 1]
      | none => true
  | .himport =>
    !argv[1]?.any (exactWord (text "SET")) ||
      (3 ≤ argv.length && u.patterns ≠ [] && u.keysOk argv [2])
  | .zrangestore => 3 ≤ argv.length && u.patterns ≠ [] && u.keysOk argv [1, 2]
  | .msetex =>
    match aclNumkeys argv 1 with
    | none => false
    | some nk =>
      4 ≤ argv.length && 0 < nk && nk ≤ (argv.length - 2) / 2 && u.patterns ≠ [] &&
        u.keysOk argv (List.range' 2 nk.toNat 2)
  | .mpop numIdx =>
    match aclNumkeys argv numIdx with
    | none => false
    | some nk =>
      -- the unsigned `argc - key_start` does not wrap: the count was read below `argc`
      0 < nk && nk ≤ argv.length - (numIdx + 1) && u.patterns ≠ [] &&
        u.keysOk argv (List.range' (numIdx + 1) nk.toNat)
  | .sort store =>
    u.patterns ≠ [] && u.keysOk argv [1] &&
      (!store || storeOk u (exactWord (text "STORE")) argv)
  | .destNumkeys =>
    match aclNumkeys argv 2 with
    | none => false
    | some nk =>
      4 ≤ argv.length && u.patterns ≠ [] && 0 < nk && 3 + nk ≤ argv.length &&
        u.keysOk argv (1 :: List.range' 3 nk.toNat)
  | .geosearchstore =>
    3 ≤ argv.length &&
      (argv[1]?.any fun v => v.bulk?.any fun dest =>
        -- the destination loop stops at the first pattern that does NOT match
        u.patterns.any fun p => !aclMatchPattern p dest) &&
      u.keysOk argv [2]
  | .all => u.patterns ≠ [] && u.keysOk argv (List.range' 1 (argv.length - 1))
  | .card =>
    match aclNumkeys argv 1 with
    | none => false
    | some nk =>
      3 ≤ argv.length && 0 < nk && nk ≤ argv.length - 2 && u.patterns ≠ [] &&
        u.keysOk argv (List.range' 2 nk.toNat)
  | .butLast => u.patterns ≠ [] && u.keysOk argv (List.range' 1 (argv.length - 2))
  | .bitop => 4 ≤ argv.length && u.patterns ≠ [] && u.keysOk argv (List.range' 2 (argv.length - 2))
  | .georadius =>
    u.patterns ≠ [] && u.keysOk argv [1] &&
      storeOk u (fun v => exactWord (text "STORE") v || exactWord (text "STOREDIST") v) argv
  | .two => u.patterns ≠ [] && u.keysOk argv [1, 2]
  | .pairs =>
    (argv.length - 1) % 2 == 0 && u.patterns ≠ [] &&
      u.keysOk argv (List.range' 1 ((argv.length - 1) / 2) 2)
  | .one => u.patterns ≠ [] && u.keysOk argv [1]

/-- A bulk argument with a NULL pointer and a nonzero length. -/
def malformed : RespValue → Bool
  | .bulkString s => s.bytes?.isNone
  | _ => false

def aclAuthorize (u : AclUser) (id : CmdId) (argv : List RespValue) : Bool :=
  u.enabled && !argv.any malformed && (u.allCommands || u.allow id) && !u.deny id &&
    (argv.length < 2 || aclKeyCheck u argv (aclShape id))

end Ddup.Acl
