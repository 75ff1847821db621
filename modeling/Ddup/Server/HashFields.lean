/-
Ddup.Server.HashFields — expiry of hash fields: HSETEX, HGETEX, HEXPIRE and its kin, HTTL
and its kin.

A field that has expired stays in the hash until somebody meets it: `obj_hash_get_at`
deletes the field it is asked for, `obj_hash_purge_expired` scans the table of expiries
and deletes what it visits. The scan runs over a table its own callback deletes from, so
it need not visit everything; what it visits is left to `HashScan`.
-/
import Ddup.Server.InPlace

namespace Ddup.Server

open Ddup.Lib Ddup.Resp Ddup.Command Ddup.Store

/-! ## Fields -/

def hashKind : Kind HashObj where
  wrap := .hash
  unwrap := fun | .hash h => some h | _ => none
  fresh := objHashNew
  unwrap_eq := fun x _ => by cases x <;> simp

/-- The element after the first one that equals `f`, fields and values alike; NULL if
nothing follows. -/
def nextOf (f : Bytes) : List (Bytes × Bytes) → Option (Option Bytes)
  | [] => none
  | (x, y) :: rest =>
    if x = f then some (some y)
    else if y = f then some (rest.head?.map Prod.fst)
    else nextOf f rest

/-- `obj_hash_get`: a value, which may be NULL. -/
def objHashGet (h : HashObj) (f : Bytes) : Option (Option Bytes) :=
  match h.fields with
  | .packed lp => if uint32Max < f.length then none else lp.bind (nextOf f)
  | .table t => (t.get? f).map fun p => some p.2

/-- Delete the first element that equals `f` and the one after it; the listpack is lost
if nothing follows. -/
def deleteNext (f : Bytes) : List (Bytes × Bytes) → Option (Option (List (Bytes × Bytes)))
  | [] => none
  | (x, y) :: rest =>
    if x = f then some (some rest)
    else if y = f then
      match rest with
      | [] => some none
      | (_, z) :: rest' => some (some ((x, z) :: rest'))
    else (deleteNext f rest).map fun r => r.map fun l => (x, y) :: l

def objHashDel (h : HashObj) (f : Bytes) : HashObj :=
  let fields :=
    match h.fields with
    | .packed lp =>
      if uint32Max < f.length then .packed lp
      else .packed ((lp.bind (deleteNext f)).getD lp)
    | .table t => .table (t.erase f)
  ⟨fields, h.expires.erase f⟩

def fieldExpired (h : HashObj) (f : Bytes) (now : Nat) : Bool :=
  (h.expires.lookup f).any (· ≤ now)

def objHashGetAt (h : HashObj) (f : Bytes) (now : Nat) : HashObj × Option (Option Bytes) :=
  if fieldExpired h f now then (objHashDel h f, none) else (h, objHashGet h f)

def objHashSetAt (lim : Limits) (h : HashObj) (f v : Bytes) (now : Nat) (keepTtl : Bool) :
    Option HashObj :=
  let old := if keepTtl then h.expires.lookup f else none
  let h₁ := if old.any (· ≤ now) then objHashDel h f else h
  (objHashSet lim h₁ f v).map fun h₂ =>
    match old.filter (now < ·) with
    | none => h₂
    | some t => { h₂ with expires := h₂.expires.insert f t }

/-- `obj_hash_expire_set`: the hash it leaves, and whether the field is there. -/
def objHashExpireSet (h : HashObj) (f : Bytes) (t now : Nat) : HashObj × Bool :=
  match objHashGetAt h f now with
  | (h₁, none) => (h₁, false)
  | (h₁, some _) => ({ h₁ with expires := h₁.expires.insert f t }, true)

/-- `obj_hash_expire_persist`: -1 without the field, 0 without an expiry, else 1. -/
def objHashExpirePersist (h : HashObj) (f : Bytes) (now : Nat) : HashObj × Int :=
  match objHashGetAt h f now with
  | (h₁, none) => (h₁, -1)
  | (h₁, some _) =>
    if f ∈ h₁.expires then ({ h₁ with expires := h₁.expires.erase f }, 1) else (h₁, 0)

def objHashLen (h : HashObj) : Nat := h.fields.pairs.length

/-- What a scan of the expiries visits that has expired, in order. -/
structure HashScan where
  lim : Limits
  visit : (Finmap fun _ : Bytes => Nat) → Nat → List Bytes
  expired : ∀ m now f, f ∈ visit m now → (m.lookup f).any (· ≤ now) = true

def objHashPurge (S : HashScan) (now : Nat) (h : HashObj) : HashObj :=
  (S.visit h.expires now).foldl objHashDel h

/-- The end of the commands below: report, purge, take the length, which purges once
more, and delete the key if it is 0. -/
def purgedPlan (S : HashScan) (now : Nat) (early synced : HashObj) (reply : List Piece) :
    Plan HashObj :=
  let final := objHashPurge S now (objHashPurge S now synced)
  ⟨early, some synced, final, objHashLen final = 0, reply⟩

/-! ## Arguments -/

def timeScaleSaturating (value factor : Nat) : Nat := min (value * factor) uint64Max

def unknownArgument (opt : Bytes) : RespValue :=
  .error (.view ((text "ERR unknown argument: " ++ opt.take 96).take 127))

/-- `hash_parse_field_list`: the arguments from the first field on. `rest` is what stands
behind the word FIELDS. -/
def fieldList (per : Nat) (rest : List RespValue) : Except RespValue (List RespValue) :=
  match rest with
  | n :: a :: args =>
    match (argStr n).bind parseI64 with
    | none => .error (errorReply "ERR Number of fields must be a positive integer")
    | some nf =>
      if nf ≤ 0 then .error (errorReply "ERR Number of fields must be a positive integer")
      else if nf.toNat ≠ (args.length + 1) / per ∨ (args.length + 1) % per ≠ 0 then
        .error (errorReply "ERR The `numfields` parameter must match the number of arguments")
      else .ok (a :: args)
  | _ => .error (errorReply "ERR Mandatory argument FIELDS is missing or not at the right position")

/-- What becomes of the expiries: nothing said, KEEPTTL, PERSIST, or an instant. -/
inductive ExpireOpt
  | none | keepttl | persist | at (t : Nat)
deriving DecidableEq

structure ExpireArgs where
  opt : ExpireOpt := .none
  fnx : Bool := false
  fxx : Bool := false

def oneExpire : RespValue :=
  errorReply ("ERR Only one of EX, PX, EXAT, PXAT or KEEPTTL/PERSIST arguments "
    ++ "can be specified")

/-- The instant of EX, PX, EXAT and PXAT. -/
def expireInstant (w : Bytes) (now : Nat) (val : Nat) : Nat :=
  let ms := if ciEqual w (text "PX") || ciEqual w (text "PXAT") then val
    else timeScaleSaturating val 1000
  if ciEqual w (text "EX") || ciEqual w (text "PX") then timeAddSaturating now ms else ms

/-- `hash_parse_expire`, with the flags its callers look for among the same arguments;
what follows FIELDS. An argument that is no string ends the command without a reply. -/
def parseExpire (isHsetex : Bool) (now : Nat) : List RespValue → ExpireArgs →
    Except (List Piece) (ExpireArgs × List RespValue)
  | [], _ => .error (piecesOf (errorReply "ERR missing FIELDS argument"))
  | a :: rest, o =>
    match argStr a with
    | none => .error []
    | some w =>
      if ciEqual w (text "FIELDS") then .ok (o, rest)
      else if isHsetex && ciEqual w (text "KEEPTTL") then
        if o.opt ≠ .none then .error (piecesOf oneExpire)
        else parseExpire isHsetex now rest { o with opt := .keepttl }
      else if !isHsetex && ciEqual w (text "PERSIST") then
        if o.opt ≠ .none then .error (piecesOf oneExpire)
        else parseExpire isHsetex now rest { o with opt := .persist }
      else if ciEqual w (text "EX") || ciEqual w (text "PX") || ciEqual w (text "EXAT")
          || ciEqual w (text "PXAT") then
        if o.opt ≠ .none then .error (piecesOf oneExpire)
        else
          match rest with
          | [] => .error (piecesOf (errorReply "ERR missing expire time"))
          | v :: rest' =>
            match (argStr v).bind parseI64 with
            | none => .error (piecesOf (errorReply "ERR invalid expire time"))
            | some val =>
              if val < 0 then .error (piecesOf (errorReply "ERR invalid expire time"))
              else
                parseExpire isHsetex now rest'
                  { o with opt := .at (expireInstant w now val.toNat) }
      else if isHsetex && ciEqual w (text "FNX") then
        parseExpire isHsetex now rest { o with fnx := true }
      else if isHsetex && ciEqual w (text "FXX") then
        parseExpire isHsetex now rest { o with fxx := true }
      else .error (piecesOf (unknownArgument w))

/-! ## HSETEX and HGETEX -/

def fieldValues : List RespValue → Except RespValue (List (Bytes × Bytes))
  | f :: v :: rest =>
    match argStr f, argStr v with
    | some fb, some vb =>
      if !storageStringOk fb vb then .error storageLengthError
      else (fieldValues rest).map ((fb, vb) :: ·)
    | _, _ => .error badType
  | _ => .ok []

/-- The look at the fields for FNX and FXX: it deletes those that have expired. -/
def lookAtFields (now : Nat) : List (Bytes × Bytes) → HashObj → HashObj × Nat
  | [], h => (h, 0)
  | p :: rest, h =>
    let r := objHashGetAt h p.1 now
    let q := lookAtFields now rest r.1
    (q.1, q.2 + r.2.isSome.toNat)

/-- The store loop of HSETEX; a length that cannot be stored ends it. -/
def setFields (lim : Limits) (now : Nat) (opt : ExpireOpt) : List (Bytes × Bytes) → HashObj →
    HashObj × Bool
  | [], h => (h, true)
  | p :: rest, h =>
    match objHashSetAt lim h p.1 p.2 now (opt ≠ .none) with
    | none => (h, false)
    | some h₁ =>
      match opt with
      | .at t => setFields lim now opt rest (objHashExpireSet h₁ p.1 t now).1
      | _ => setFields lim now opt rest h₁

def hsetexPlan (S : HashScan) (now : Nat) (o : ExpireArgs) (pairs : List (Bytes × Bytes))
    (h : HashObj) : Plan HashObj :=
  let looked := if o.fxx || o.fnx then lookAtFields now pairs h else (h, 0)
  if (o.fxx && looked.2 ≠ pairs.length) || (o.fnx && looked.2 ≠ 0) then
    .unreported h looked.1 [.int 0]
  else
    match setFields S.lim now o.opt pairs looked.1 with
    | (h₁, false) => ⟨looked.1, none, h₁, false, piecesOf storageLengthError⟩
    | (h₁, true) => purgedPlan S now looked.1 h₁ [.int 1]

/-- HSETEX. A missing hash is looked for a second time where it is created. -/
def hsetexRequest (S : HashScan) (argv : List RespValue) (now : Nat) :
    Except (List Piece) (Request HashObj) :=
  match argAt argv 1 with
  | none => .error (piecesOf badType)
  | some k =>
    if uint32Max < k.length then .error (piecesOf storageLengthError)
    else
      match parseExpire true now (argv.drop 2) {} with
      | .error ps => .error ps
      | .ok (o, rest) =>
        if o.fnx && o.fxx then
          .error (piecesOf (errorReply "ERR Only one of FNX or FXX arguments can be specified"))
        else
          match (fieldList 2 rest).bind fieldValues with
          | .error err => .error (piecesOf err)
          | .ok pairs =>
            .ok
              { key := k
                create := !o.fxx
                absent := [.int 0]
                plan := hsetexPlan S now o pairs }

/-- A loop over fields that writes something for each: the hash it leaves, what it has
written, and whether it came to the end. An argument that is no string ends it. -/
def fieldLoop (f : HashObj → Bytes → HashObj × Piece) : List RespValue → HashObj →
    HashObj × List Piece × Bool
  | [], h => (h, [], true)
  | a :: rest, h =>
    match argStr a with
    | none => (h, piecesOf badType, false)
    | some b =>
      let r := f h b
      let q := fieldLoop f rest r.1
      (q.1, r.2 :: q.2.1, q.2.2)

/-- A command that runs such a loop over a hash. -/
def fieldLoopPlan (S : HashScan) (now : Nat) (f : HashObj → Bytes → HashObj × Piece)
    (fields : List RespValue) (h : HashObj) : Plan HashObj :=
  match fieldLoop f fields h with
  | (h₁, ps, false) => .unreported h h₁ (.header fields.length :: ps)
  | (h₁, ps, true) => purgedPlan S now h h₁ (.header fields.length :: ps)

def getexField (now : Nat) (opt : ExpireOpt) (h : HashObj) (f : Bytes) : HashObj × Piece :=
  match objHashGetAt h f now with
  | (h₁, none) => (h₁, .bulk (.null 0))
  | (h₁, some v) =>
    let piece := Piece.bulk ((v.map RespStr.view).getD (.null 0))
    match opt with
    | .at t => ((objHashExpireSet h₁ f t now).1, piece)
    | .persist => ((objHashExpirePersist h₁ f now).1, piece)
    | _ => (h₁, piece)

def hgetexRequest (S : HashScan) (argv : List RespValue) (now : Nat) :
    Except (List Piece) (Request HashObj) :=
  match argAt argv 1 with
  | none => .error (piecesOf badType)
  | some k =>
    if uint32Max < k.length then .error (piecesOf storageLengthError)
    else
      match parseExpire false now (argv.drop 2) {} with
      | .error ps => .error ps
      | .ok (o, rest) =>
        match fieldList 1 rest with
        | .error err => .error (piecesOf err)
        | .ok fields =>
          .ok
            { key := k
              create := false
              absent := .header fields.length :: fields.map fun _ => .bulk (.null 0)
              plan := fieldLoopPlan S now (getexField now o.opt) fields }

/-! ## HEXPIRE and its kin -/

inductive ExpireCond
  | nx | xx | gt | lt
deriving DecidableEq

def expireCond (w : Bytes) : Option ExpireCond :=
  if ciEqual w (text "NX") then some .nx
  else if ciEqual w (text "XX") then some .xx
  else if ciEqual w (text "GT") then some .gt
  else if ciEqual w (text "LT") then some .lt
  else none

/-- The condition on the expiry a field has. -/
def condHolds (cond : Option ExpireCond) (t : Nat) (cur : Option Nat) : Bool :=
  match cond with
  | none => true
  | some .nx => cur.isNone
  | some .xx => cur.isSome
  | some .gt => cur.any (· < t)
  | some .lt => cur.any (t < ·)

/-- The options of HEXPIRE in front of FIELDS, and what follows that word. -/
def hexpireOptions : List RespValue → Option ExpireCond →
    Except RespValue (Option ExpireCond × List RespValue)
  | [], _ => .error (errorReply "ERR missing FIELDS argument")
  | a :: rest, cond =>
    match argStr a with
    | none => .error badType
    | some w =>
      if ciEqual w (text "FIELDS") then .ok (cond, rest)
      else
        match expireCond w with
        | none => .error (unknownArgument w)
        | some x =>
          if cond.isSome then
            .error (errorReply "ERR Only one of NX, XX, GT or LT can be specified")
          else hexpireOptions rest (some x)

def hexpireField (now : Nat) (t : Nat) (cond : Option ExpireCond) (h : HashObj) (f : Bytes) :
    HashObj × Piece :=
  match objHashGetAt h f now with
  | (h₁, none) => (h₁, .int (-2))
  | (h₁, some _) =>
    if !condHolds cond t (h₁.expires.lookup f) then (h₁, .int 0)
    else if t ≤ now then (objHashDel h₁ f, .int 2)
    else
      let r := objHashExpireSet h₁ f t now
      (r.1, .int (if r.2 then 1 else -2))

/-- HEXPIRE, HPEXPIRE, HEXPIREAT and HPEXPIREAT: the unit, and whether the time is
absolute. -/
def hexpireRequest (S : HashScan) (scale : Nat) (absolute : Bool) (argv : List RespValue)
    (now : Nat) : Except (List Piece) (Request HashObj) :=
  match argAt argv 1, argAt argv 2 with
  | some k, some tv =>
    match parseI64 tv with
    | none => .error (piecesOf (errorReply "ERR invalid expire time"))
    | some val =>
      if val < 0 then .error (piecesOf (errorReply "ERR invalid expire time"))
      else
        let ms := timeScaleSaturating val.toNat scale
        let t := if absolute then ms else timeAddSaturating now ms
        match hexpireOptions (argv.drop 3) none with
        | .error err => .error (piecesOf err)
        | .ok (cond, rest) =>
          match fieldList 1 rest with
          | .error err => .error (piecesOf err)
          | .ok fields =>
            .ok
              { key := k
                create := false
                absent := .header fields.length :: fields.map fun _ => .int (-2)
                plan := fieldLoopPlan S now (hexpireField now t cond) fields }
  | _, _ => .error (piecesOf badType)

def hexpire (S : HashScan) := hexpireRequest S 1000 false
def hpexpire (S : HashScan) := hexpireRequest S 1 false
def hexpireat (S : HashScan) := hexpireRequest S 1000 true
def hpexpireat (S : HashScan) := hexpireRequest S 1 true

/-! ## HTTL and its kin -/

/-- The commands that show the expiry of fields, and HPERSIST, which has the same body. -/
inductive TtlCommand
  | httl | hpttl | hexpiretime | hpexpiretime | hpersist
deriving DecidableEq

def toLl (n : Nat) : Int := Int.bmod n (2 ^ 64)

def httlField (now : Nat) (cmd : TtlCommand) (h : HashObj) (f : Bytes) : HashObj × Piece :=
  match objHashGetAt h f now with
  | (h₁, none) => (h₁, .int (-2))
  | (h₁, some _) =>
    if cmd = .hpersist then
      let r := objHashExpirePersist h₁ f now
      (r.1, .int (if r.2 = 0 then -1 else r.2))
    else
      match h₁.expires.lookup f with
      | none => (h₁, .int (-1))
      | some t =>
        (h₁, .int (toLl (match cmd with
          | .httl => (t - now + 999) % 2 ^ 64 / 1000
          | .hpttl => t - now
          | .hexpiretime => t / 1000
          | _ => t)))

def httlRequest (S : HashScan) (cmd : TtlCommand) (argv : List RespValue) (now : Nat) :
    Except (List Piece) (Request HashObj) :=
  match argAt argv 1 with
  | none => .error (piecesOf badType)
  | some k =>
    match fieldList 1 (argv.drop 3) with
    | .error err => .error (piecesOf err)
    | .ok fields =>
      .ok
        { key := k
          create := false
          absent := .header fields.length :: fields.map fun _ => .int (-2)
          plan := fieldLoopPlan S now (httlField now cmd) fields }

end Ddup.Server
