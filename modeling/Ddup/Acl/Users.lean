/-
Ddup.Acl.Users — the user registry of `core/acl.c`.

`acl_setuser` finds or makes a slot for the user, applies the rules in turn to a
copy of the record and writes the copy back when all of them were good. A rule is
read first (`aclRule`) and applied then (`AclUser.applyRule`). The category table
of `cmd_acl_category_match` is the parameter `cats`. Names, passwords and patterns
are C strings: of the bytes copied, what stands before the first NUL counts.
-/
import Ddup.Acl.Authorize

namespace Ddup.Acl

open Ddup.Resp Ddup.Command

/-- The C string in a buffer that `b` was copied to. -/
def cstr (b : Bytes) : Bytes := b.takeWhile (· ≠ 0)

/-- `cmd_acl_category_match`: whether a command is in a category, and nothing for
an unknown category. -/
abbrev Categories := Bytes → CmdId → Option Bool

/-! ## Rules -/

/-- A rule about commands: `everything` is `allcommands`, `+@all` or `-@all`, and
`commands` a single command or another category. -/
inductive CommandRule
  | everything (allow : Bool)
  | nocommands
  | commands (allow : Bool) (ids : CmdId → Bool)

/-- A rule of `acl_setuser`. -/
inductive AclRule
  | enable (on : Bool)
  | reset
  | allkeys
  | resetkeys
  | command (rule : CommandRule)
  | nopass
  | resetpass
  | password (p : Bytes)
  | pattern (p : Bytes)
  | allchannels
  | resetchannels
  | channel (p : Bytes)

def ruleWords : List (Bytes × AclRule) :=
  [(text "on", .enable true), (text "off", .enable false), (text "reset", .reset),
   (text "allkeys", .allkeys), (text "resetkeys", .resetkeys),
   (text "allcommands", .command (.everything true)),
   (text "nocommands", .command .nocommands), (text "nopass", .nopass),
   (text "resetpass", .resetpass), (text "allchannels", .allchannels),
   (text "resetchannels", .resetchannels)]

/-- The reading half of `set_cmd`, on the text behind the sign. -/
def setCmd (cats : Categories) (allow : Bool) (p : Bytes) : Option CommandRule :=
  if 1 < p.length ∧ p.head? = some 64 then
    if ciEqual p.tail (text "all") then some (.everything allow)
    else if (cats p.tail .ping).isNone then none
    else some (.commands allow fun id => cats p.tail id == some true)
  else if 254 < p.length ∨ cmdResolve p = .unknown then none
  else some (.commands allow (· == cmdResolve p))

/-- The rule of one argument of `acl_setuser`. -/
def aclRule (cats : Categories) (v : RespValue) : Option AclRule :=
  v.bulk?.bind fun p =>
    match ruleWords.find? fun w => ciEqual p w.1 with
    | some w => some w.2
    | none =>
      match p with
      | [] | [_] => none
      | sign :: q =>
        if sign = 43 ∨ sign = 45 then (setCmd cats (sign == 43) q).map .command
        else if sign = 126 ∧ q = [42] then some .allkeys
        else if sign = 38 ∧ q = [42] then some .allchannels
        else if 126 < q.length then none
        else if sign = 62 then some (.password q)
        else if sign = 126 then some (.pattern q)
        else if sign = 38 then some (.channel q)
        else none

def AclUser.clearRules (u : AclUser) : AclUser :=
  { u with
    allow := fun _ => false, deny := fun _ => false, patterns := [], allCommands := false,
    channels := [], allChannels := false, password := [], noPassword := false,
    enabled := false }

def AclUser.applyCommand (u : AclUser) : CommandRule → AclUser
  | .everything true => { u with allCommands := true, deny := fun _ => false }
  | .everything false => { u with allCommands := false, allow := fun _ => false }
  | .nocommands => { u with allCommands := false, allow := fun _ => false, deny := fun _ => false }
  | .commands true ids => { u with allow := fun id => u.allow id || ids id }
  | .commands false ids => { u with deny := fun id => u.deny id || ids id }

/-- What a rule changes; nothing when the pattern arrays are full. -/
def AclUser.applyRule (u : AclUser) : AclRule → Option AclUser
  | .enable on => some { u with enabled := on }
  | .reset => some u.clearRules
  | .allkeys => some { u with patterns := [[42]] }
  | .resetkeys => some { u with patterns := [] }
  | .command rule => some (u.applyCommand rule)
  | .nopass => some { u with password := [], noPassword := true }
  | .resetpass => some { u with password := [], noPassword := false }
  | .password p => some { u with password := cstr p, noPassword := false }
  | .pattern p =>
    if 16 ≤ u.patterns.length then none
    else some { u with patterns := u.patterns ++ [cstr p] }
  | .allchannels => some { u with channels := [], allChannels := true }
  | .resetchannels => some { u with channels := [], allChannels := false }
  | .channel p =>
    if 16 ≤ u.channels.length then none
    else some { u with channels := u.channels ++ [cstr p] }

def applyRules (cats : Categories) (u : AclUser) (rules : List RespValue) : Option AclUser :=
  rules.foldlM (fun u v => (aclRule cats v).bind u.applyRule) u

/-! ## The registry -/

/-- `acl_registry` without its log: the `count` slots in use, a free one having an
empty name, and the generation counter. -/
structure AclRegistry where
  users : List AclUser
  generationNext : Nat

def AclRegistry.tick (r : AclRegistry) : Nat := (r.generationNext + 1) % 2 ^ 64

def AclUser.fresh (name : Bytes) (generation : Nat) : AclUser :=
  ⟨cstr name, [], [], fun _ => false, fun _ => false, false, false, generation, [], false, false⟩

def aclInit (requirepass : Bytes) : AclRegistry :=
  { users := [{ AclUser.fresh (text "default") 1 with
      enabled := true, allCommands := true, patterns := [[42]], allChannels := true,
      password := (cstr requirepass).take 127 }]
    generationNext := 1 }

def aclFind (r : AclRegistry) (name : Bytes) : Option Nat :=
  r.users.findIdx? fun u => u.name != [] && u.name == name

/-- The slot `acl_setuser` works on, in the registry that has it: the user's, or a
new one in the first free place. Nothing for a bad name or a full registry. -/
def aclSlot (r : AclRegistry) (name : Bytes) : Option (AclRegistry × Nat) :=
  if name = [] ∨ 64 ≤ name.length then none
  else
    match aclFind r name, r.users.findIdx? fun u => u.name == [] with
    | some i, _ => some (r, i)
    | none, some i => some (⟨r.users.set i (.fresh name r.tick), r.tick⟩, i)
    | none, none =>
      if 32 ≤ r.users.length then none
      else some (⟨r.users ++ [.fresh name r.tick], r.tick⟩, r.users.length)

def aclSetuser (cats : Categories) (r : AclRegistry) (name : Bytes) (rules : List RespValue) :
    AclRegistry × Bool :=
  match aclSlot r name with
  | none => (r, false)
  | some (r₁, i) =>
    match r₁.users[i]?.bind fun u => applyRules cats u rules with
    | none => (r₁, false)
    | some u => ({ r₁ with users := r₁.users.set i u }, true)

/-- The slot `acl_deluser` clears. -/
def aclDoomed (r : AclRegistry) (name : Bytes) : Option Nat :=
  if name = [] ∨ name = text "default" then none
  else r.users.findIdx? fun u => u.name == name

def aclDeluser (r : AclRegistry) (name : Bytes) : AclRegistry :=
  match aclDoomed r name with
  | none => r
  | some i =>
    ⟨r.users.modify i fun u => { u.clearRules with name := [], generation := r.tick }, r.tick⟩

def aclAuthenticate (r : AclRegistry) (name password : Bytes) : Option Nat :=
  (aclFind r name).filter fun i =>
    r.users[i]?.any fun u => u.enabled && (u.noPassword || u.password == password)

end Ddup.Acl
