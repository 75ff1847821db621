/-
Ddup.Server.StreamGroups — consumer groups of streams: XGROUP, XACK, XDEL, XCLAIM,
XREADGROUP, and XREAD.

A group keeps its consumers in the order they were made, a consumer the entries it was
given and has not acknowledged. A pending record is looked for through all consumers of
the group; its `idle` is the instant it was last delivered at.
-/
import Ddup.Server.InPlace

namespace Ddup.Server

open Ddup.Lib Ddup.Resp Ddup.Command Ddup.Store

abbrev StreamId := UInt64 × UInt64

def idArg (a : RespValue) : Option StreamId :=
  ((argStr a).bind streamParseFullId).map fun x => (UInt64.ofNat x.1, UInt64.ofNat x.2)

/-! ## Groups -/

def consumerCreate (g : Group) (name : Bytes) : Group :=
  match g.consumers.get? name with
  | some _ => g
  | none => { g with consumers := g.consumers.put ⟨name, 0, 0, Unique.empty _⟩ }

def pelFind (g : Group) (id : StreamId) : Option Pending :=
  g.consumers.items.findSome? fun c => c.pel.get? id

def pelRemove (g : Group) (id : StreamId) : Option Group :=
  (g.consumers.items.find? fun c => (c.pel.get? id).isSome).map fun c =>
    { g with consumers := g.consumers.put { c with pel := c.pel.erase id } }

/-- `obj_stream_consumer_pel_add`: a record that is there stays as it is. -/
def pelAdd (g : Group) (c : Consumer) (p : Pending) : Group :=
  match c.pel.get? (p.ms, p.seq) with
  | some _ => g
  | none => { g with consumers := g.consumers.put { c with pel := c.pel.put p } }

def setGroup (s : StreamObj) (g : Group) : StreamObj := { s with groups := s.groups.put g }

def noGroup : RespValue := errorReply "NOGROUP No such consumer group"

/-! ## Entries -/

def entryAt (s : StreamObj) (id : StreamId) : Option StreamEntry :=
  (s.entries[lowerBound s.entries id.1 id.2]?).filter fun e => e.ms = id.1 ∧ e.seq = id.2

def streamDelete (s : StreamObj) (id : StreamId) : Option StreamObj :=
  (entryAt s id).map fun e =>
    let s' := updateDeleted s e
    { s' with entries := s'.entries.eraseIdx (lowerBound s.entries id.1 id.2) }

def entriesAfter (s : StreamObj) (id : StreamId) (count : Option Nat) : List StreamEntry :=
  let rest := (s.entries.drop (lowerBound s.entries id.1 id.2)).dropWhile
    fun e => !idLt id.1 id.2 e.ms e.seq
  (count.map rest.take).getD rest

def idPiece (id : StreamId) : Piece := .bulk (.view (streamIdText id.1 id.2))

def entryPieces (e : StreamEntry) : List Piece :=
  [.header 2, idPiece (e.ms, e.seq), .header (2 * e.fields.length)]
    ++ e.fields.flatMap fun p => [.bulk (.view p.1), .bulk (.view p.2)]

/-! ## XGROUP -/

def okPieces : List Piece := piecesOf okReply

/-- The value that stands for no ENTRIESREAD, no IDLE and the like. -/
def unset : UInt64 := 0xFFFFFFFFFFFFFFFF

/-- The options of XGROUP CREATE and SETID: MKSTREAM and ENTRIESREAD. -/
def xgroupOptions (create : Bool) : List RespValue → Bool → UInt64 →
    Except RespValue (Bool × UInt64)
  | [], mkstream, entriesRead => .ok (mkstream, entriesRead)
  | a :: rest, mkstream, entriesRead =>
    match argStr a with
    | none => .error badType
    | some w =>
      if ciEqual w (text "MKSTREAM") then
        if !create || mkstream then .error errSyntax else xgroupOptions create rest true entriesRead
      else if ciEqual w (text "ENTRIESREAD") then
        match rest with
        | [] => .error errSyntax
        | v :: rest' =>
          match (argStr v).bind parseU64 with
          | none => .error errSyntax
          | some n => xgroupOptions create rest' mkstream (UInt64.ofNat n)
      else .error errSyntax

/-- XGROUP CREATE and SETID on a stream; no id is `$`. Neither calls `mem_sync`, and SETID
leaves the id of a group that is there alone. -/
def xgroupCreatePlan (create : Bool) (group : Bytes) (id : Option StreamId) (entriesRead : UInt64)
    (s : StreamObj) : Plan StreamObj :=
  match s.groups.get? group with
  | some g =>
    if create then
      .keep s (piecesOf (errorReply "BUSYGROUP Consumer Group name already exists"))
    else if entriesRead = unset then .keep s okPieces
    else .unreported s (setGroup s { g with entriesRead := entriesRead }) okPieces
  | none =>
    let last := id.getD (s.lastMs, s.lastSeq)
    let read := if entriesRead = unset then 0 else entriesRead
    .unreported s (setGroup s ⟨group, last.1, last.2, read, Unique.empty _⟩) okPieces

def xgroupConsumerPlan (argv : List RespValue) (isCreate : Bool) (s : StreamObj) (g : Group) :
    Plan StreamObj :=
  if argv.length ≠ 5 then
    .keep s (piecesOf (wrongArgs (if isCreate then "xgroup|CREATECONSUMER"
      else "xgroup|DELCONSUMER")))
  else
    match argAt argv 4 with
    | none => .keep s (piecesOf badType)
    | some name =>
      let old := g.consumers.get? name
      if isCreate then
        .reported s (setGroup s (consumerCreate g name)) [.int (if old.isSome then 0 else 1)]
      else
        match old with
        | none => .keep s [.int 0]
        | some c =>
          .reported s (setGroup s { g with consumers := g.consumers.erase name })
            [.int c.pel.items.length]

/-- The other subcommands of XGROUP on a stream. DESTROY does not call `mem_sync`. -/
def xgroupPlan (argv : List RespValue) (sub group : Bytes) (s : StreamObj) : Plan StreamObj :=
  if ciEqual sub (text "DESTROY") then
    if argv.length ≠ 4 then .keep s (piecesOf (wrongArgs "xgroup|DESTROY"))
    else
      match s.groups.get? group with
      | none => .keep s [.int 0]
      | some _ => .unreported s { s with groups := s.groups.erase group } [.int 1]
  else
    match s.groups.get? group with
    | none => .keep s (piecesOf noGroup)
    | some g =>
      if ciEqual sub (text "CREATECONSUMER") then xgroupConsumerPlan argv true s g
      else if ciEqual sub (text "DELCONSUMER") then xgroupConsumerPlan argv false s g
      else .keep s (piecesOf errSyntax)

def xgroupHelp : RespValue :=
  .array ([
    "CREATE <key> <group> <id|$> [MKSTREAM] [ENTRIESREAD entries-read]",
    "SETID <key> <group> <id|$> [ENTRIESREAD entries-read]",
    "DESTROY <key> <group>",
    "CREATECONSUMER <key> <group> <consumer>",
    "DELCONSUMER <key> <group> <consumer>"].map fun line => bulk (text line)) false

def xgroupCreateRequest (argv : List RespValue) (create : Bool) (key : Bytes) :
    Except RespValue (Request StreamObj) :=
  if argv.length < 5 then .error (wrongArgs "xgroup")
  else
    match argAt argv 3, argAt argv 4 with
    | some group, some idv =>
      match xgroupOptions create (argv.drop 5) false unset with
      | .error err => .error err
      | .ok (mkstream, entriesRead) =>
        let request (id : Option StreamId) : Request StreamObj :=
          { key := key
            create := create && mkstream
            absent := piecesOf (errorReply "ERR no such key")
            plan := xgroupCreatePlan create group id entriesRead }
        if ciEqual idv (text "$") then .ok (request none)
        else
          match streamParseFullId idv with
          | none => .error errSyntax
          | some x => .ok (request (some (UInt64.ofNat x.1, UInt64.ofNat x.2)))
    | _, _ => .error badType

def xgroupRequest (argv : List RespValue) : Except RespValue (Request StreamObj) :=
  if argv.length < 2 then .error (wrongArgs "xgroup")
  else
    match argAt argv 1 with
    | none => .error badType
    | some sub =>
      if ciEqual sub (text "HELP") then
        .error (if argv.length ≠ 2 then wrongArgs "xgroup|HELP" else xgroupHelp)
      else if argv.length < 3 then .error (wrongArgs "xgroup")
      else
        match argAt argv 2 with
        | none => .error badType
        | some key =>
          if ciEqual sub (text "CREATE") then xgroupCreateRequest argv true key
          else if ciEqual sub (text "SETID") then xgroupCreateRequest argv false key
          else if argv.length < 4 then .error (wrongArgs "xgroup")
          else
            match argAt argv 3 with
            | none => .error badType
            | some group =>
              .ok
                { key := key
                  create := false
                  absent := [.int 0]
                  plan := xgroupPlan argv sub group }

/-! ## XACK and XDEL -/

/-- A loop over ids that counts how often `f` finds something, up to the first id that
is none: what it has made of the object, and an error or the count. -/
def idLoop {α : Type} (f : α → StreamId → Option α) : List RespValue → α → Nat →
    α × Except RespValue Nat
  | [], a, n => (a, .ok n)
  | v :: rest, a, n =>
    match idArg v with
    | none => (a, .error invalidStreamId)
    | some id =>
      match f a id with
      | none => idLoop f rest a n
      | some a' => idLoop f rest a' (n + 1)

/-- The end of such a loop: an error ends the command without a report, and so does a
loop that has found nothing. -/
def idLoopPlan {α : Type} (s : StreamObj) (put : α → StreamObj) :
    α × Except RespValue Nat → Plan StreamObj
  | (a, .error err) => .unreported s (put a) (piecesOf err)
  | (a, .ok n) => if n = 0 then .keep s [.int 0] else .reported s (put a) [.int n]

def xackRequest (argv : List RespValue) : Except RespValue (Request StreamObj) :=
  if argv.length < 4 then .error (wrongArgs "xack")
  else
    match argAt argv 1, argAt argv 2 with
    | some key, some group =>
      .ok
        { key := key
          create := false
          absent := [.int 0]
          plan := fun s =>
            match s.groups.get? group with
            | none => .keep s [.int 0]
            | some g => idLoopPlan s (setGroup s) (idLoop pelRemove (argv.drop 3) g 0) }
    | _, _ => .error badType

def xdelRequest (argv : List RespValue) : Except RespValue (Request StreamObj) :=
  if argv.length < 3 then .error (wrongArgs "xdel")
  else
    match argAt argv 1 with
    | none => .error badType
    | some key =>
      .ok
        { key := key
          create := false
          absent := [.int 0]
          plan := fun s => idLoopPlan s id (idLoop streamDelete (argv.drop 2) s 0) }

/-! ## XCLAIM -/

structure ClaimOpts where
  force : Bool := false
  justid : Bool := false
  idle : UInt64 := unset
  time : UInt64
  retrycount : UInt64 := unset
  lastMs : UInt64 := unset
  lastSeq : UInt64 := unset

/-- The options of XCLAIM. The value of RETRYCOUNT is read once more as the id that
LASTID would take, so the option is always refused. -/
def claimOptions : List RespValue → ClaimOpts → Except RespValue ClaimOpts
  | [], o => .ok o
  | a :: rest, o =>
    match argStr a with
    | none => .error badType
    | some w =>
      if ciEqual w (text "FORCE") then claimOptions rest { o with force := true }
      else if ciEqual w (text "JUSTID") then claimOptions rest { o with justid := true }
      else if ciEqual w (text "IDLE") || ciEqual w (text "TIME") || ciEqual w (text "LASTID")
          || ciEqual w (text "RETRYCOUNT") then
        match rest with
        | [] => .error errSyntax
        | v :: rest' =>
          match argStr v with
          | none => .error badType
          | some b =>
            if ciEqual w (text "IDLE") then
              match parseU64 b with
              | none => .error errSyntax
              | some n => claimOptions rest' { o with idle := UInt64.ofNat n }
            else if ciEqual w (text "TIME") then
              match parseU64 b with
              | none => .error errSyntax
              | some n => claimOptions rest' { o with time := UInt64.ofNat n }
            else
              match if ciEqual w (text "RETRYCOUNT") then parseU64 b else some 0 with
              | none => .error errSyntax
              | some n =>
                let o' := if ciEqual w (text "RETRYCOUNT")
                  then { o with retrycount := UInt64.ofNat n } else o
                match streamParseFullId b with
                | none => .error errSyntax
                | some x =>
                  claimOptions rest'
                    { o' with
                      lastMs := UInt64.ofNat x.1
                      lastSeq := UInt64.ofNat x.2 }
      else .error errSyntax

structure ClaimArgs where
  key : Bytes
  group : Bytes
  consumer : Bytes
  minIdle : UInt64
  ids : List StreamId
  opts : ClaimOpts

/-- The ids in front of the first argument that is none, and the arguments from there
on; absent if that argument is no string. -/
def leadingIds : List RespValue → Option (List StreamId × List RespValue)
  | [] => some ([], [])
  | a :: rest =>
    match argStr a with
    | none => none
    | some b =>
      match streamParseFullId b with
      | none => some ([], a :: rest)
      | some x => (leadingIds rest).map fun r => ((UInt64.ofNat x.1, UInt64.ofNat x.2) :: r.1, r.2)

def claimArgs (argv : List RespValue) (now : Nat) : Except RespValue ClaimArgs :=
  if argv.length < 6 then .error (wrongArgs "xclaim")
  else
    match argAt argv 1, argAt argv 2, argAt argv 3 with
    | some key, some group, some consumer =>
      match (argAt argv 4).bind parseU64 with
      | none => .error errSyntax
      | some minIdle =>
        match leadingIds (argv.drop 5) with
        | none => .error badType
        | some ([], _) => .error errSyntax
        | some (ids, rest) =>
          match claimOptions rest { time := UInt64.ofNat now } with
          | .error err => .error err
          | .ok opts => .ok ⟨key, group, consumer, UInt64.ofNat minIdle, ids, opts⟩
    | _, _, _ => .error badType

/-- The test of both passes: the record is old enough, or FORCE was given. -/
def claims (a : ClaimArgs) (now : Nat) (g : Group) (id : StreamId) : Bool :=
  a.opts.force || (pelFind g id).any fun p =>
    a.minIdle ≤ if UInt64.ofNat now < p.idle then 0 else UInt64.ofNat now - p.idle

def claimed (a : ClaimArgs) (now : Nat) (g : Group) (id : StreamId) : Group :=
  let p := pelFind g id
  let delivery :=
    match p with
    | none => 1
    | some p => if a.opts.retrycount ≠ unset then a.opts.retrycount else p.deliveryCount + 1
  let g₁ := (pelRemove g id).getD g
  match g₁.consumers.get? a.consumer with
  | none => g₁
  | some c =>
    let idle := if a.opts.idle ≠ unset then a.opts.idle else a.opts.time
    let g₂ := pelAdd g₁ c ⟨id.1, id.2, idle, delivery⟩
    match g₂.consumers.get? a.consumer with
    | none => g₂
    | some c₂ => { g₂ with consumers := g₂.consumers.put { c₂ with seenTime := UInt64.ofNat now } }

def claimLoop (a : ClaimArgs) (now : Nat) (s : StreamObj) : List StreamId → Group →
    Group × List Piece
  | [], g => (g, [])
  | id :: rest, g =>
    if !claims a now g id then claimLoop a now s rest g
    else if a.opts.justid then
      let r := claimLoop a now s rest g
      (r.1, idPiece id :: r.2)
    else
      let r := claimLoop a now s rest (claimed a now g id)
      (r.1, (match entryAt s id with
        | some e => entryPieces e
        | none => [.bulk (.null 0)]) ++ r.2)

/-- `command_xclaim` on a stream. The consumer is made before the memory counter is
read; the first pass counts what the second one is to write. -/
def claimPlan (a : ClaimArgs) (now : Nat) (s : StreamObj) : Plan StreamObj :=
  match s.groups.get? a.group with
  | none => .keep s (piecesOf noGroup)
  | some g =>
    let g₁ := if a.opts.justid then g else consumerCreate g a.consumer
    let r := claimLoop a now s a.ids g₁
    let g₂ :=
      if !a.opts.justid && a.opts.lastMs ≠ unset then
        { r.1 with
          lastMs := a.opts.lastMs
          lastSeq := a.opts.lastSeq }
      else r.1
    { early := setGroup s g₁
      synced := some (setGroup s g₂)
      final := setGroup s g₂
      remove := false
      reply := .header (a.ids.countP (claims a now g₁)) :: r.2 }

def xclaimRequest (argv : List RespValue) (now : Nat) : Except RespValue (Request StreamObj) :=
  match claimArgs argv now with
  | .error err => .error err
  | .ok a =>
    .ok
      { key := a.key
        create := false
        absent := piecesOf noGroup
        plan := claimPlan a now }

/-! ## XREAD -/

/-- The option loop of XREAD: COUNT and BLOCK in front of STREAMS; the count, and the
arguments behind STREAMS. -/
def xreadOptions : List RespValue → Option Nat →
    Except RespValue (Option Nat × List RespValue)
  | [], _ => .error errSyntax
  | a :: rest, count =>
    match argStr a with
    | none => .error badType
    | some w =>
      if ciEqual w (text "STREAMS") then .ok (count, rest)
      else
        match rest with
        | [] => .error errSyntax
        | v :: rest' =>
          if ciEqual w (text "COUNT") then
            match (argStr v).bind parseI64 with
            | none => .error errSyntax
            | some n => if n ≤ 0 then .error errSyntax else xreadOptions rest' (some n.toNat)
          else if ciEqual w (text "BLOCK") then
            match (argStr v).bind parseU64 with
            | none => .error errSyntax
            | some _ => xreadOptions rest' count
          else .error errSyntax

def xreadCheck : List (RespValue × RespValue) → Option RespValue
  | [] => none
  | (k, v) :: rest =>
    match argStr k, argStr v with
    | some _, some b =>
      if ciEqual b (text "$") || (streamParseFullId b).isSome then xreadCheck rest
      else some errSyntax
    | _, _ => some badType

def xreadArgs (argv : List RespValue) :
    Except RespValue (Option Nat × List (RespValue × RespValue)) :=
  if argv.length < 4 then .error (wrongArgs "xread")
  else
    match xreadOptions (argv.drop 1) none with
    | .error err => .error err
    | .ok (count, args) =>
      if args = [] ∨ args.length % 2 ≠ 0 then .error errSyntax
      else
        let pairs := (args.take (args.length / 2)).zip (args.drop (args.length / 2))
        match xreadCheck pairs with
        | some err => .error err
        | none => .ok (count, pairs)

/-- The entries XREAD shows of a stream, behind the id given or its last one. -/
def readPieces (s : StreamObj) (idv : Bytes) (count : Option Nat) : List Piece :=
  let id :=
    if ciEqual idv (text "$") then (s.lastMs, s.lastSeq)
    else ((streamParseFullId idv).map fun x => (UInt64.ofNat x.1, UInt64.ofNat x.2)).getD (0, 0)
  let shown := entriesAfter s id count
  .header shown.length :: shown.flatMap entryPieces

/-- The key loop of XREAD, behind the header: a key of the wrong type ends it. -/
def xreadLoop (R : Runtime) (c : Ctx) (count : Option Nat) :
    List (RespValue × RespValue) → Cmd (List Piece)
  | [] => return []
  | (k, v) :: rest =>
    match argStr k, argStr v with
    | some key, some idv => do
      match ← getContainer R streamKind c key false with
      | .error err => return piecesOf err
      | .ok none => return .bulk (.null 0) :: (← xreadLoop R c count rest)
      | .ok (some (s, _)) => return readPieces s idv count ++ (← xreadLoop R c count rest)
    | _, _ => return piecesOf badType

def xreadCommand (R : Runtime) (c : Ctx) : Cmd (List Piece) :=
  match xreadArgs c.argv with
  | .error err => return piecesOf err
  | .ok (count, pairs) => return .header pairs.length :: (← xreadLoop R c count pairs)

/-! ## XREADGROUP -/

structure ReadGroupArgs where
  group : Bytes
  consumer : Bytes
  count : Option Nat
  noack : Bool
  pairs : List (RespValue × RespValue)

/-- The option loop of XREADGROUP: group and consumer, the count, NOACK, and the arguments
behind STREAMS. -/
def readGroupOptions : List RespValue → Option (Bytes × Bytes) → Option Nat → Bool →
    Except RespValue (Option (Bytes × Bytes) × Option Nat × Bool × List RespValue)
  | [], _, _, _ => .error errSyntax
  | a :: rest, gc, count, noack =>
    match argStr a with
    | none => .error badType
    | some w =>
      if ciEqual w (text "GROUP") then
        match rest with
        | g :: c :: rest' =>
          match argStr g, argStr c with
          | some gb, some cb => readGroupOptions rest' (some (gb, cb)) count noack
          | _, _ => .error badType
        | _ => .error errSyntax
      else if ciEqual w (text "COUNT") then
        match rest with
        | [] => .error errSyntax
        | v :: rest' =>
          match (argStr v).bind parseI64 with
          | none => .error errSyntax
          | some n => if n ≤ 0 then .error errSyntax else readGroupOptions rest' gc (some n.toNat) noack
      else if ciEqual w (text "BLOCK") then
        match rest with
        | [] => .error errSyntax
        | v :: rest' =>
          match (argStr v).bind parseU64 with
          | none => .error errSyntax
          | some _ => readGroupOptions rest' gc count noack
      else if ciEqual w (text "NOACK") then readGroupOptions rest gc count true
      else if ciEqual w (text "STREAMS") then .ok (gc, count, noack, rest)
      else .error errSyntax

def readGroupArgs (argv : List RespValue) : Except RespValue ReadGroupArgs :=
  if argv.length < 7 then .error (wrongArgs "xreadgroup")
  else
    match readGroupOptions (argv.drop 1) none none false with
    | .error err => .error err
    | .ok (none, _, _, _) => .error errSyntax
    | .ok (some (group, consumer), count, noack, args) =>
      if args = [] ∨ args.length % 2 ≠ 0 then .error errSyntax
      else
        .ok ⟨group, consumer, count, noack,
          (args.take (args.length / 2)).zip (args.drop (args.length / 2))⟩

def isNewId (idv : Bytes) : Bool := ciEqual idv (text ">")

/-- The first pass over one stream: the group has to be there, and new entries need the
consumer, which is made here. -/
def readGroupCheckPlan (a : ReadGroupArgs) (idv : Bytes) (s : StreamObj) : Option (Plan StreamObj) :=
  (s.groups.get? a.group).map fun g =>
    if isNewId idv then .unreported s (setGroup s (consumerCreate g a.consumer)) [] else .keep s []

/-- The first pass: an error reply, or every key has its group. -/
def readGroupCheck (R : Runtime) (c : Ctx) (a : ReadGroupArgs) :
    List (RespValue × RespValue) → Cmd (Option (List Piece))
  | [] => return none
  | (k, v) :: rest =>
    match argStr k, argStr v with
    | some key, some idv =>
      if !isNewId idv && (streamParseFullId idv).isNone then return some (piecesOf errSyntax)
      else do
        match ← getContainer R streamKind c key false with
        | .error err => return some (piecesOf err)
        | .ok none => return some (piecesOf noGroup)
        | .ok (some s) =>
          match readGroupCheckPlan a idv s.1 with
          | none => return some (piecesOf noGroup)
          | some p =>
            let _ ← runPlan R streamKind c key s p
            readGroupCheck R c a rest
    | _, _ => return some (piecesOf badType)

/-- New entries are pending for the consumer that reads them. -/
def deliver (a : ReadGroupArgs) (now : Nat) (g : Group) (e : StreamEntry) : Group :=
  match g.consumers.get? a.consumer with
  | none => g
  | some c => pelAdd g c ⟨e.ms, e.seq, UInt64.ofNat now, 1⟩

/-- The group once the entries `shown` have been read from it. -/
def afterRead (a : ReadGroupArgs) (now : Nat) (shown : List StreamEntry) (g : Group) : Group :=
  let g₁ := if a.noack then g else shown.foldl (deliver a now) g
  match shown.getLast? with
  | none => g₁
  | some e =>
    let g₂ :=
      match g₁.consumers.get? a.consumer with
      | none => g₁
      | some c => { g₁ with consumers := g₁.consumers.put { c with seenTime := UInt64.ofNat now } }
    { g₂ with
      lastMs := e.ms
      lastSeq := e.seq
      entriesRead := g₂.entriesRead + UInt64.ofNat shown.length }

/-- The second pass over one stream, in a group whose consumer is there. -/
def readGroupPlan (a : ReadGroupArgs) (now : Nat) (idv : Bytes) (s : StreamObj) (g : Group) :
    Plan StreamObj :=
  let start :=
    if isNewId idv then (g.lastMs, g.lastSeq)
    else ((streamParseFullId idv).map fun x => (UInt64.ofNat x.1, UInt64.ofNat x.2)).getD (0, 0)
  let shown := entriesAfter s start a.count
  let s' := if isNewId idv then setGroup s (afterRead a now shown g) else s
  .reported s s' (.header shown.length :: shown.flatMap entryPieces)

def readGroupLoop (R : Runtime) (c : Ctx) (a : ReadGroupArgs) :
    List (RespValue × RespValue) → Cmd (List Piece)
  | [] => return []
  | (k, v) :: rest =>
    match argStr k, argStr v with
    | some key, some idv => do
      match ← getContainer R streamKind c key false with
      | .error err => return piecesOf err
      | .ok none => return .bulk (.null 0) :: (← readGroupLoop R c a rest)
      | .ok (some s) =>
        match s.1.groups.get? a.group with
        | none => return piecesOf noGroup
        | some g =>
          let shown ← runPlan R streamKind c key s (readGroupPlan a c.now idv s.1 g)
          return shown ++ (← readGroupLoop R c a rest)
    | _, _ => return piecesOf badType

def xreadgroupCommand (R : Runtime) (c : Ctx) : Cmd (List Piece) :=
  match readGroupArgs c.argv with
  | .error err => return piecesOf err
  | .ok a => do
    match ← readGroupCheck R c a a.pairs with
    | some err => return err
    | none => return .header a.pairs.length :: (← readGroupLoop R c a a.pairs)

end Ddup.Server
