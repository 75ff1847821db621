/-
Ddup.Server.ReplyCommands — commands that write an array header before they know whether
every element can be shown: ARMGET and SORT; and INCREX.

The elements behind a header are written one by one while the keys they come from are
looked up. An error met on the way is written in the place of an element and ends the
command.
-/
import Ddup.Server.InPlace

namespace Ddup.Server

open Ddup.Lib Ddup.Resp Ddup.Command Ddup.Store

/-! ## ARMGET -/

def arrayKind : Kind ArrayObj where
  wrap := .array
  unwrap := fun | .array a => some a | _ => none
  fresh := objArrayNew
  unwrap_eq := fun x _ => by cases x <;> simp

def objArrayGet (a : ArrayObj) (index : UInt64) : Option Bytes := (a.values.get? index).map Prod.snd

def bulkPiece : Option Bytes → Piece
  | some b => .bulk (.view b)
  | none => .bulk (.null 0)

def armgetLoop (a : Option ArrayObj) : List RespValue → List Piece
  | [] => []
  | v :: rest =>
    match (argStr v).bind parseU64 with
    | none => piecesOf errNotInt
    | some i => bulkPiece (a.bind fun x => objArrayGet x (UInt64.ofNat i)) :: armgetLoop a rest

/-- ARMGET. The argument count is not looked at: `stray` is what the key is read from if
there is no argument, and the count of the header wraps around. -/
def armgetCommand (R : Runtime) (stray : RespValue) (c : Ctx) : Cmd (List Piece) :=
  match argStr (c.argv.getD 1 stray) with
  | none => return piecesOf badType
  | some k => do
    match ← getContainer R arrayKind c k false with
    | .error err => return piecesOf err
    | .ok a =>
      let count := if c.argv.length < 2 then 2 ^ 64 - 1 else c.argv.length - 2
      return .header count :: armgetLoop (a.map Prod.fst) (c.argv.drop 2)

/-! ## INCREX -/

/-- `long double`, as far as INCREX uses it. -/
structure LongDouble where
  T : Type
  /-- `strtold` of a text it consumes whole -/
  strtold : Bytes → Option T
  isNan : T → Bool
  isInf : T → Bool
  zero : T
  /-- `LDBL_MAX` and `-LDBL_MAX` -/
  max : T
  min : T
  add : T → T → T
  sub : T → T → T
  lt : T → T → Bool
  /-- `%.17Lg` -/
  fmt : T → Bytes
  fmt_short : ∀ x, (fmt x).length < 5120

def parseLd (L : LongDouble) (s : Bytes) : Option L.T :=
  if s = [] ∨ 5120 ≤ s.length ∨ s.head? = some 32 ∨ s.head? = some 43 then none
  else (L.strtold s).filter fun v => !L.isNan v && !L.isInf v

inductive Increment (L : LongDouble)
  | int (n : Int)
  | float (x : L.T)

/-- The options of INCREX; an expiry with whether it is in seconds and whether it is
relative. -/
structure IncrexOpts (L : LongDouble) where
  amount : Option (Increment L) := none
  lbound : Option RespValue := none
  ubound : Option RespValue := none
  saturate : Bool := false
  enx : Bool := false
  persist : Bool := false
  expire : Option (RespValue × Bool × Bool) := none

def IncrexOpts.haveExpire {L : LongDouble} (o : IncrexOpts L) : Bool := o.persist || o.expire.isSome

def increxOptions (L : LongDouble) : List RespValue → IncrexOpts L →
    Except RespValue (IncrexOpts L)
  | [], o => .ok o
  | a :: rest, o =>
    match argStr a with
    | none => .error badType
    | some w =>
      if ciEqual w (text "SATURATE") && !o.saturate then
        increxOptions L rest { o with saturate := true }
      else if ciEqual w (text "ENX") && !o.enx && !o.persist then
        increxOptions L rest { o with enx := true }
      else if ciEqual w (text "PERSIST") && !o.haveExpire && !o.enx then
        increxOptions L rest { o with persist := true }
      else
        match rest with
        | [] => .error errSyntax
        | v :: rest' =>
          if ciEqual w (text "BYINT") && o.amount.isNone then
            match argStr v with
            | none => .error badType
            | some b =>
              match parseI64 b with
              | none => .error (errorReply "ERR Increment is not an integer or out of range")
              | some n => increxOptions L rest' { o with amount := some (.int n) }
          else if ciEqual w (text "BYFLOAT") && o.amount.isNone then
            match argStr v with
            | none => .error badType
            | some b =>
              match parseLd L b with
              | none => .error (errorReply "ERR Increment is not a valid float")
              | some x =>
                if L.isInf x then .error (errorReply "ERR BYFLOAT increment cannot be Infinity")
                else increxOptions L rest' { o with amount := some (.float x) }
          else if ciEqual w (text "LBOUND") && o.lbound.isNone then
            increxOptions L rest' { o with lbound := some v }
          else if ciEqual w (text "UBOUND") && o.ubound.isNone then
            increxOptions L rest' { o with ubound := some v }
          else if ciEqual w (text "EX") && !o.haveExpire then
            increxOptions L rest' { o with expire := some (v, true, true) }
          else if ciEqual w (text "PX") && !o.haveExpire then
            increxOptions L rest' { o with expire := some (v, false, true) }
          else if ciEqual w (text "EXAT") && !o.haveExpire then
            increxOptions L rest' { o with expire := some (v, true, false) }
          else if ciEqual w (text "PXAT") && !o.haveExpire then
            increxOptions L rest' { o with expire := some (v, false, false) }
          else .error errSyntax

def boundArg {α : Type} (parse : Bytes → Option α) (bad : String) (default : α) :
    Option RespValue → Except RespValue α
  | none => .ok default
  | some v =>
    match argStr v with
    | none => .error badType
    | some b =>
      match parse b with
      | none => .error (errorReply bad)
      | some x => .ok x

def invalidExpire (cmd : String) : RespValue :=
  errorReply ("ERR invalid expire time in '" ++ cmd ++ "' command")

def parseAbsoluteExpiry (v : RespValue) (seconds relative : Bool) (now : Nat) (cmd : String) :
    Except RespValue Nat :=
  match argStr v with
  | none => .error badType
  | some b =>
    match parseI64 b with
    | none => .error errNotInt
    | some n =>
      if n ≤ 0 ∨ seconds = true ∧ (llongMax / 1000 : Nat) < n then .error (invalidExpire cmd)
      else
        let ms := if seconds then n.toNat * 1000 else n.toNat
        if relative then
          if uint64Max - now < ms then .error (invalidExpire cmd) else .ok (ms + now)
        else .ok ms

/-- The increment with its bounds. -/
inductive Step (L : LongDouble)
  | int (n lb ub : Int)
  | float (x lb ub : L.T)

def boundsCrossed : RespValue := errorReply "ERR LBOUND can't be greater than UBOUND"

def increxStep (L : LongDouble) (o : IncrexOpts L) : Except RespValue (Step L) :=
  match o.amount with
  | some (.float x) =>
    match boundArg (parseLd L) "ERR LBOUND is not a valid float" L.min o.lbound,
        boundArg (parseLd L) "ERR UBOUND is not a valid float" L.max o.ubound with
    | .error err, _ => .error err
    | .ok _, .error err => .error err
    | .ok lb, .ok ub => if L.lt ub lb then .error boundsCrossed else .ok (.float x lb ub)
  | amount =>
    let n := match amount with
      | some (.int n) => n
      | _ => 1
    match boundArg parseI64 "ERR LBOUND is not an integer or out of range"
          (-(llongMax : Int) - 1) o.lbound,
        boundArg parseI64 "ERR UBOUND is not an integer or out of range" llongMax o.ubound with
    | .error err, _ => .error err
    | .ok _, .error err => .error err
    | .ok lb, .ok ub => if ub < lb then .error boundsCrossed else .ok (.int n lb ub)

structure IncrexArgs (L : LongDouble) where
  key : Bytes
  step : Step L
  saturate : Bool
  enx : Bool
  persist : Bool
  /-- 0 if none was given -/
  expire : Nat

def increxArgs (L : LongDouble) (argv : List RespValue) (now : Nat) :
    Except RespValue (IncrexArgs L) :=
  if argv.length < 2 then .error (wrongArgs "increx")
  else
    match argAt argv 1 with
    | none => .error badType
    | some k =>
      if uint32Max < k.length then .error storageLengthError
      else
        match increxOptions L (argv.drop 2) {} with
        | .error err => .error err
        | .ok o =>
          match increxStep L o with
          | .error err => .error err
          | .ok step =>
            if o.enx && !o.haveExpire then .error (errorReply "ERR ENX flag requires an expiration")
            else
              match o.expire with
              | none => .ok ⟨k, step, o.saturate, o.enx, o.persist, 0⟩
              | some (v, seconds, relative) =>
                match parseAbsoluteExpiry v seconds relative now "increx" with
                | .error err => .error err
                | .ok t => .ok ⟨k, step, o.saturate, o.enx, o.persist, t⟩

/-- What INCREX makes of the value under its key: the text to store and the reply, or the
reply that ends it. -/
abbrev Increased := Except (List Piece) (Bytes × List Piece)

def llSubOverflow (a b : Int) : Option Int :=
  if 0 ≤ b then
    if 0 ≤ a then
      if b ≤ a then some (a - b) else some (-(b - a))
    else if a < -(llongMax : Int) - 1 + b then none
    else some (a - b)
  else if a < 0 then
    if b ≤ a then some (a - b) else some (-(b - a))
  else if (llongMax : Int) + b < a then none
  else some (a - b)

def increxInt (n lb ub : Int) (saturate : Bool) (old : Int) : Increased :=
  let overflow : Bool := (0 < n && llongMax - n < old) || (n < 0 && old < -(llongMax : Int) - 1 - n)
  let res := if overflow then old else old + n
  let out : Bool := overflow || ub < res || res < lb
  if out && !saturate then .error [.header 2, .int old, .int 0]
  else
    let res :=
      if !out then res
      else if overflow then (if 0 ≤ n then ub else lb)
      else if ub < res then ub else lb
    match llSubOverflow res old with
    | none => .error (piecesOf (errorReply "ERR applied increment would overflow"))
    | some delta => .ok (Piece.llToStr res, [.header 2, .int res, .int delta])

def increxFloat (L : LongDouble) (x lb ub : L.T) (saturate : Bool) (old : L.T) : Increased :=
  let res := L.add old x
  let overflow := L.isInf res
  let out := overflow || L.lt ub res || L.lt res lb
  if out && !saturate then
    .error [.header 2, .bulk (.view (L.fmt old)), .bulk (.view (L.fmt L.zero))]
  else
    let res :=
      if !out then res
      else if overflow then (if L.lt x L.zero then lb else ub)
      else if L.lt ub res then ub else lb
    let delta := L.sub res old
    if L.isInf delta then .error (piecesOf (errorReply "ERR applied increment would be Infinity"))
    else .ok (L.fmt res, [.header 2, .bulk (.view (L.fmt res)), .bulk (.view (L.fmt delta))])

/-- The value under the key as a number, or the reply to one that is none. -/
def numberAt {α : Type} (parse : Bytes → Option α) (bad : RespValue) (zero : α) :
    Option Obj → Except (List Piece) α
  | none => .ok zero
  | some (.str b) =>
    match parse b with
    | none => .error (piecesOf bad)
    | some x => .ok x
  | some _ => .error (piecesOf wrongType)

def increxValue (L : LongDouble) (a : IncrexArgs L) (v : Option Obj) : Increased :=
  match a.step with
  | .int n lb ub => (numberAt parseI64 errNotInt 0 v).bind (increxInt n lb ub a.saturate)
  | .float x lb ub =>
    (numberAt (parseLd L) errNotFloat L.zero v).bind (increxFloat L x lb ub a.saturate)

/-- An expiry of INCREX that has passed when it is set. -/
def IncrexArgs.past {L : LongDouble} (a : IncrexArgs L) (now : Nat) : Bool :=
  a.expire ≠ 0 && a.expire ≤ now

/-- INCREX from the memory check on. An expiry that has passed deletes the key, and
nothing is written. -/
def increxStore {L : LongDouble} (c : Ctx) (a : IncrexArgs L) (exists? : Bool)
    (oldExpire : Option Nat) (value : Bytes) (shown : List Piece) : Cmd (List Piece) := do
  if ← Cmd.oom c.dbIndex then return piecesOf oomError
  else if a.past c.now then
    if exists? then
      let _ ← Cmd.delKv c.dbIndex a.key false
    return []
  else if !(← Cmd.setKv c.dbIndex a.key (.str value) false) then return piecesOf storageLengthError
  else
    let expire :=
      if a.persist then none
      else if a.expire ≠ 0 ∧ (a.enx = false ∨ oldExpire = none) then some a.expire
      else oldExpire
    match expire with
    | none => return shown
    | some t =>
      if !(← Cmd.setExpiry c.dbIndex a.key t false) then return piecesOf storageLengthError
      else return shown

def increxCommand (L : LongDouble) (c : Ctx) : Cmd (List Piece) :=
  match increxArgs L c.argv c.now with
  | .error err => return piecesOf err
  | .ok a => do
    let v ← Cmd.get c.dbIndex a.key
    let oldExpire ← if v.isSome then Cmd.ttl c.dbIndex a.key else pure none
    match increxValue L a v with
    | .error ps => return ps
    | .ok (value, shown) => increxStore c a v.isSome oldExpire value shown

/-! ## SORT -/

structure SortOpts where
  desc : Bool := false
  alpha : Bool := false
  limitStart : Int := 0
  limitCount : Int := -1
  store : Option Bytes := none
  byPattern : Option Bytes := none
  /-- some BY had no star in its pattern -/
  dontSort : Bool := false
  gets : List Bytes := []

def star : UInt8 := 42

def sortOptions (ro : Bool) : List RespValue → SortOpts → Except RespValue SortOpts
  | [], o => .ok o
  | a :: rest, o =>
    match argStr a with
    | none => .error badType
    | some w =>
      if ciEqual w (text "ASC") then sortOptions ro rest { o with desc := false }
      else if ciEqual w (text "DESC") then sortOptions ro rest { o with desc := true }
      else if ciEqual w (text "ALPHA") then sortOptions ro rest { o with alpha := true }
      else
        match rest with
        | [] => .error errSyntax
        | v :: rest' =>
          if ciEqual w (text "LIMIT") then
            match rest' with
            | [] => .error errSyntax
            | v' :: rest'' =>
              match argStr v, argStr v' with
              | some b, some b' =>
                match parseI64 b, parseI64 b' with
                | some start, some count =>
                  sortOptions ro rest''
                    { o with
                      limitStart := start
                      limitCount := count }
                | _, _ => .error errNotInt
              | _, _ => .error badType
          else if !ro && ciEqual w (text "STORE") then
            match argStr v with
            | none => .error badType
            | some k => sortOptions ro rest' { o with store := some k }
          else if ciEqual w (text "BY") then
            match argStr v with
            | none => .error badType
            | some pat =>
              sortOptions ro rest'
                { o with
                  byPattern := some pat
                  dontSort := o.dontSort || !pat.contains star }
          else if ciEqual w (text "GET") then
            match argStr v with
            | none => .error badType
            | some pat => sortOptions ro rest' { o with gets := o.gets ++ [pat] }
          else .error errSyntax

/-- The pattern SORT looks its weights up with: the last BY, if that has a star. -/
def SortOpts.weights (o : SortOpts) : Option Bytes := o.byPattern.filter fun pat => pat.contains star

def sortPatternKey (pat elem : Bytes) : Option Bytes :=
  if pat.contains star then
    let pre := pat.takeWhile (· ≠ star)
    some (pre ++ elem ++ pat.drop (pre.length + 1))
  else none

def sortPatternLookup (c : Ctx) (pat elem : Bytes) : Cmd (Except RespValue (Option Bytes)) :=
  match sortPatternKey pat elem with
  | none => return .ok none
  | some k => do
    match ← Cmd.get c.dbIndex k with
    | none => return .ok none
    | some (.str b) => return .ok (some b)
    | some _ => return .error wrongType

structure SortElem where
  val : Bytes
  score : UInt64 := 0
  cmp : Option Bytes := none

def sortCmpBytes : Bytes → Bytes → Ordering
  | [], [] => .eq
  | [], _ :: _ => .lt
  | _ :: _, [] => .gt
  | a :: as, b :: bs => if a < b then .lt else if b < a then .gt else sortCmpBytes as bs

def sortElemCompare (alpha byPattern desc : Bool) (a b : SortElem) : Ordering :=
  let cmp :=
    if alpha then
      if byPattern then
        match a.cmp, b.cmp with
        | some x, some y => sortCmpBytes x y
        | none, none => .eq
        | some _, none => .gt
        | none, some _ => .lt
      else sortCmpBytes a.val b.val
    else if scoreLt a.score b.score then .lt
    else if scoreLt b.score a.score then .gt
    else sortCmpBytes a.val b.val
  if desc then cmp.swap else cmp

/-- One pass of `sort_merge_sort`: neighbouring runs of `width` elements are merged. The
first argument is as long as the list. -/
def sortPass (le : SortElem → SortElem → Bool) (width : Nat) : Nat → List SortElem → List SortElem
  | 0, l => l
  | fuel + 1, l =>
    if l = [] then []
    else List.merge (l.take width) ((l.drop width).take width) le
      ++ sortPass le width fuel (l.drop (2 * width))

def sortLoop (le : SortElem → SortElem → Bool) : Nat → Nat → List SortElem → List SortElem
  | 0, _, l => l
  | fuel + 1, width, l =>
    if l.length ≤ width then l else sortLoop le fuel (2 * width) (sortPass le width l.length l)

def sortMergeSort (alpha byPattern desc : Bool) (l : List SortElem) : List SortElem :=
  sortLoop (fun a b => (sortElemCompare alpha byPattern desc a b).isLE) l.length 1 l

/-- The order in which a set and a sorted set are gone through. -/
structure SortScan where
  ofSet : SetObj → List Bytes
  ofZset : ZsetObj → List Bytes
  set_members : ∀ s, List.Perm (ofSet s) s.items
  zset_members : ∀ z, List.Perm (ofZset z) (z.items.map Prod.fst)

/-- The elements SORT finds, or a value it cannot sort. -/
def sortMembers (S : SortScan) : Option Obj → Option (List Bytes)
  | none => some []
  | some (.list items _) => some items
  | some (.boxed (.set s) _) => some (S.ofSet s)
  | some (.boxed (.zset z) _) => some (S.ofZset z)
  | some _ => none

/-- The weight of one element: the element, and whether a number could not be read. -/
def sortWeight (R : Runtime) (c : Ctx) (o : SortOpts) (val : Bytes) :
    Cmd (Except RespValue (SortElem × Bool)) :=
  let scored (b : Bytes) : SortElem × Bool :=
    match parseDouble R b with
    | some score => (⟨val, score, none⟩, false)
    | none => (⟨val, 0, none⟩, true)
  match o.weights with
  | some pat => do
    match ← sortPatternLookup c pat val with
    | .error err => return .error err
    | .ok none => return .ok (⟨val, 0, none⟩, false)
    | .ok (some b) => return .ok (if o.alpha then (⟨val, 0, some b⟩, false) else scored b)
  | none => return .ok (if o.alpha then (⟨val, 0, none⟩, false) else scored val)

def sortWeights (R : Runtime) (c : Ctx) (o : SortOpts) : List Bytes →
    Cmd (Except RespValue (List SortElem × Bool))
  | [] => return .ok ([], false)
  | val :: rest => do
    match ← sortWeight R c o val with
    | .error err => return .error err
    | .ok (elem, bad) =>
      match ← sortWeights R c o rest with
      | .error err => return .error err
      | .ok (elems, bad') => return .ok (elem :: elems, bad || bad')

def sorted (o : SortOpts) (elems : List SortElem) : List SortElem :=
  if !o.dontSort then sortMergeSort o.alpha o.weights.isSome o.desc elems
  else if o.desc then elems.reverse else elems

/-- Where LIMIT lets the output of `n` elements start, and how many it lets through. -/
def outRange (o : SortOpts) (n : Nat) : Nat × Nat :=
  let start := o.limitStart.toNat
  if start < n then
    if o.limitCount < 0 ∨ n - start ≤ o.limitCount.toNat then (start, n - start)
    else (start, o.limitCount.toNat)
  else (0, 0)

/-- What is shown of the elements: for each one itself, or one cell for each GET. -/
def sortCells (o : SortOpts) (elems : List SortElem) : List (Bytes × Option Bytes) :=
  if o.gets = [] then elems.map fun x => (x.val, none)
  else elems.flatMap fun x => o.gets.map fun pat => (x.val, if pat = text "#" then none else some pat)

def sortCell (c : Ctx) : Bytes × Option Bytes → Cmd (Except RespValue (Option Bytes))
  | (val, none) => return .ok (some val)
  | (val, some pat) => sortPatternLookup c pat val

def sortEmit (c : Ctx) : List (Bytes × Option Bytes) → Cmd (List Piece)
  | [] => return []
  | cell :: rest => do
    match ← sortCell c cell with
    | .error err => return piecesOf err
    | .ok b => return bulkPiece b :: (← sortEmit c rest)

def sortCollect (c : Ctx) : List (Bytes × Option Bytes) → Cmd (Except RespValue (List Bytes))
  | [] => return .ok []
  | cell :: rest => do
    match ← sortCell c cell with
    | .error err => return .error err
    | .ok b =>
      match ← sortCollect c rest with
      | .error err => return .error err
      | .ok bs => return .ok (b.getD [] :: bs)

def sortOom : RespValue := errorReply "ERR out of memory"

def sortConv : RespValue := errorReply "ERR One or more scores can't be converted into double"

def sortAnswer (listMem : List Bytes → UInt64) (c : Ctx) (o : SortOpts) (elems : List SortElem)
    (start count : Nat) : Cmd (List Piece) :=
  let cells := sortCells o ((elems.drop start).take count)
  let total := if o.gets = [] then count else count * o.gets.length
  match o.store with
  | none => do
    return .header total :: (← sortEmit c cells)
  | some k =>
    if count = 0 then do
      let _ ← Cmd.delKv c.dbIndex k false
      return [.int 0]
    else do
      match ← sortCollect c cells with
      | .error err => return piecesOf err
      | .ok items =>
        if !(← Cmd.setKv c.dbIndex k (.list items (listMem items)) false) then
          return piecesOf sortOom
        else return [.int (Int.bmod total (2 ^ 64))]

def sortLoad (R : Runtime) (S : SortScan) (c : Ctx) (o : SortOpts) (key : Bytes) :
    Cmd (Except RespValue (List SortElem)) := do
  match sortMembers S (← Cmd.get c.dbIndex key) with
  | none => return .error wrongType
  | some vals =>
    if o.dontSort then return .ok (vals.map fun val => ⟨val, 0, none⟩)
    else
      match ← sortWeights R c o vals with
      | .error err => return .error err
      | .ok (elems, bad) => return if bad then .error sortConv else .ok elems

def sortCommand (R : Runtime) (S : SortScan) (listMem : List Bytes → UInt64) (ro : Bool) (c : Ctx) :
    Cmd (List Piece) :=
  if c.argv.length < 2 then return piecesOf (wrongArgs (if ro then "sort_ro" else "sort"))
  else
    match argAt c.argv 1 with
    | none => return piecesOf badType
    | some key =>
      match sortOptions ro (c.argv.drop 2) {} with
      | .error err => return piecesOf err
      | .ok o => do
        match ← sortLoad R S c o key with
        | .error err => return piecesOf err
        | .ok elems =>
          let range := outRange o elems.length
          sortAnswer listMem c o (sorted o elems) range.1 range.2

end Ddup.Server
