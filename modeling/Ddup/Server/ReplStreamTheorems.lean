/-
Ddup.Server.ReplStreamTheorems — what a replica makes of the streams.

The replica's session starts on db 0 and goes where the SELECT commands of the stream
lead it. `srv_propagate` writes no SELECT of its own, so a command reaches its db only
if the commands before it happen to have selected that db. The central stream does
write them, but with the index where the length of its text belongs: of all indices
only 1 gives a frame the parser reads as meant.
-/
import Ddup.Resp.WriterTheorems
import Ddup.Server.Loop
import Ddup.Server.ReplStream

namespace Ddup.Server

open Ddup.Resp Ddup.Command Ddup.Lib

variable {isDouble : Bytes → Bool} {s : Streams} {v : RespValue}

/-! ## The link -/

section Link

variable {isDouble : Bytes → Bool} {argv : List RespValue} {u buf : Bytes}

def IsFrame (isDouble : Bytes → Bool) (argv : List RespValue) (u : Bytes) : Prop :=
  Encodes isDouble (respMaxDepth + 1) (.array argv false) u

theorem isFrame_iff :
    IsFrame isDouble argv u ↔ respParse isDouble u = .done (.array argv false) [] := by
  constructor
  · intro h
    have hparse := (parseAt_recognises isDouble _).apply_append h []
    rwa [List.append_nil] at hparse
  intro h
  obtain ⟨used, hused, henc⟩ := (parseAt_recognises isDouble _ _ _ _).mp h
  rw [List.append_nil] at hused
  rw [hused]
  exact henc

theorem IsFrame.parse (h : IsFrame isDouble argv u) (more : Bytes)
    : respParse isDouble (u ++ more) = .done (.array argv false) more :=
  (parseAt_recognises isDouble _).apply_append h more

theorem IsFrame.ne_nil (h : IsFrame isDouble argv u) : u ≠ [] := by
  rintro rfl
  exact absurd (Encodes.three_le h) (by decide)

theorem linkLoop_fuel {a b : Nat} {rbuf : Bytes} (ha : rbuf.length ≤ a) (hb : rbuf.length ≤ b) :
    linkLoop isDouble a rbuf = linkLoop isDouble b rbuf := by
  -- a value leaves a shorter buffer, so both loops go on alike
  induction a generalizing b rbuf with
  | zero =>
    obtain rfl := List.eq_nil_of_length_eq_zero (Nat.le_zero.mp ha)
    cases b <;> rfl
  | succ a ih =>
    cases b with
    | zero =>
      obtain rfl := List.eq_nil_of_length_eq_zero (Nat.le_zero.mp hb)
      rfl
    | succ b =>
      rw [linkLoop, linkLoop]
      cases hparse : respParse isDouble rbuf with
      | incomplete => rfl
      | failed => rfl
      | done v rest =>
        obtain ⟨used, rfl, henc⟩ := (parseAt_recognises isDouble _ _ _ _).mp hparse
        have hthree := henc.three_le
        rw [List.length_append] at ha hb
        have hrest : linkLoop isDouble a rest = linkLoop isDouble b rest :=
          ih (by omega) (by omega)
        cases v with
        | array items isNull =>
          cases isNull with
          | false => simp only [hrest]
          | true => rfl
        | _ => rfl

theorem replLinkFeed_frame (h : IsFrame isDouble argv u) (more : Bytes) :
    replLinkFeed isDouble (u ++ more) =
      ⟨argv :: (replLinkFeed isDouble more).commands, (replLinkFeed isDouble more).left⟩ := by
  have hlen : (u ++ more).length = (u.length + more.length - 1) + 1 := by
    have hpos := List.length_pos_of_ne_nil h.ne_nil
    rw [List.length_append]
    omega
  have hne : u ++ more ≠ [] := fun hnil => h.ne_nil (List.append_eq_nil_iff.mp hnil).1
  have hfuel : linkLoop isDouble (u.length + more.length - 1) more =
      replLinkFeed isDouble more := by
    have hpos := List.length_pos_of_ne_nil h.ne_nil
    exact linkLoop_fuel (by omega) (Nat.le_refl _)
  unfold replLinkFeed at hfuel ⊢
  rw [hlen, linkLoop, if_neg hne, h.parse more]
  simp only [hfuel]

theorem replLinkFeed_failed (h : respParse isDouble buf = .failed) :
    replLinkFeed isDouble buf = ⟨[], none⟩ := by
  cases buf with
  | nil => cases h
  | cons c cs =>
    unfold replLinkFeed
    rw [List.length_cons, linkLoop, if_neg (List.cons_ne_nil c cs), h]

theorem replLinkFeed_incomplete (h : respParse isDouble buf = .incomplete) :
    replLinkFeed isDouble buf = ⟨[], some buf⟩ := by
  cases buf with
  | nil => rfl
  | cons c cs =>
    unfold replLinkFeed
    rw [List.length_cons, linkLoop, if_neg (List.cons_ne_nil c cs), h]

/-- Every command the link hands over stood in the buffer. -/
theorem mem_commands_solid (h : argv ∈ (replLinkFeed isDouble buf).commands) :
    ∃ u, IsFrame isDouble argv u ∧ solid u ≤ solid buf := by
  unfold replLinkFeed at h
  generalize buf.length = fuel at h
  induction fuel generalizing buf with
  | zero => cases h
  | succ fuel ih =>
    rw [linkLoop] at h
    split_ifs at h with hnil
    · cases h
    split at h
    · cases h
    · rename_i items rest hparse
      obtain ⟨used, rfl, henc⟩ := (parseAt_recognises isDouble _ _ _ _).mp hparse
      rw [solid_append]
      rcases List.mem_cons.mp h with rfl | hrest
      · exact ⟨used, henc, Nat.le_add_right _ _⟩
      · obtain ⟨u, hu, hle⟩ := ih hrest
        exact ⟨u, hu, hle.trans (Nat.le_add_left _ _)⟩
    · cases h

end Link

/-! ## Commands the master propagates -/

/-- A call of `srv_propagate`: the db, the command, and the bytes of the request where it
was one. The bytes parse to the command, and no argument is a NULL view with a length. -/
structure Propagated (isDouble : Bytes → Bool) where
  db : Nat
  argv : List RespValue
  raw : Option Bytes
  sound : ∀ v ∈ argv, (writtenStr v).bytes? ≠ none
  parses : ∀ b, raw = some b → respParse isDouble b = .done (.array argv false) []

namespace Propagated

variable {isDouble : Bytes → Bool}

def data (p : Propagated isDouble) : Bytes := p.raw.getD (writeCommand p.argv)

end Propagated

def propagateAll {isDouble : Bytes → Bool} (s : Streams) (cmds : List (Propagated isDouble)) :
    Streams :=
  cmds.foldl (fun s p => s.srvPropagate p.db p.argv p.raw) s

structure Attached (s : Streams) : Prop where
  alone : s.centralized = false
  replica : s.connectedSlaves ≠ 0

theorem Attached.active (h : Attached s) : s.active = true := by
  simp [Streams.active, h.replica]

theorem Attached.propagate (h : Attached s) (db : Nat) (argv : List RespValue)
    (raw : Option Bytes) :
    Attached (s.srvPropagate db argv raw) ∧
      (s.srvPropagate db argv raw).backlog = s.backlog ++ raw.getD (writeCommand argv) := by
  have hlog : Attached (s.srvAofLog db argv) ∧ (s.srvAofLog db argv).backlog = s.backlog := by
    unfold Streams.srvAofLog
    split
    · exact ⟨h, rfl⟩
    · exact ⟨⟨h.alone, h.replica⟩, rfl⟩
  obtain ⟨hattached, hbacklog⟩ := hlog
  have hfan : s.srvPropagate db argv raw =
      (s.srvAofLog db argv).fanOut (raw.getD (writeCommand argv)) := by
    simp [Streams.srvPropagate, hattached.alone, hattached.active]
  rw [hfan]
  exact ⟨⟨hattached.alone, hattached.replica⟩, congrArg (· ++ _) hbacklog⟩

theorem propagateAll_backlog (cmds : List (Propagated isDouble)) (h : Attached s) :
    (propagateAll s cmds).backlog = s.backlog ++ cmds.flatMap Propagated.data := by
  induction cmds generalizing s with
  | nil => exact (List.append_nil _).symm
  | cons p cmds ih =>
    obtain ⟨hattached, hbacklog⟩ := h.propagate p.db p.argv p.raw
    have hrest := ih hattached
    rw [hbacklog, List.append_assoc] at hrest
    exact hrest

/-- A command a session of the replica runs in a db is the propagated one: same db, same
arguments. -/
def Applied {isDouble : Bytes → Bool} (x : Nat × List RespValue) (p : Propagated isDouble) : Prop :=
  x.1 = p.db ∧ x.2.map argStr = p.argv.map argStr

/-- The replica reads the stream to its end and applies exactly the propagated commands,
each in its db. -/
def Replicated (isDouble : Bytes → Bool) (ndbs : Nat) (s : Streams)
    (cmds : List (Propagated isDouble)) : Prop :=
  ∃ read, replLinkFeed isDouble ((propagateAll s cmds).backlog.drop s.backlog.length) =
      ⟨read, some []⟩ ∧ List.Forall₂ Applied (placed ndbs 0 read) cmds

/-- A command that survives being serialised: every argument is a string, and no length
is over the protocol limit. -/
def Serialisable (argv : List RespValue) : Prop := Fits argv ∧ ∀ v ∈ argv, argStr v ≠ none

theorem argStr_written (h : argStr v ≠ none) : argStr (.bulkString (writtenStr v)) = argStr v := by
  cases v <;> first | rfl | exact absurd rfl h

/-- The arguments come back as they were exactly if all of them are strings. -/
theorem readBack_argStr_iff {argv : List RespValue}
    (hsound : ∀ v ∈ argv, (writtenStr v).bytes? ≠ none) :
    (readBack argv).map argStr = argv.map argStr ↔ ∀ v ∈ argv, argStr v ≠ none := by
  rw [readBack, List.map_map]
  constructor
  · intro heq v hv hnone
    have hsame := List.map_inj_left.mp heq v hv
    rw [hnone] at hsame
    exact hsound v hv hsame
  · intro hall
    exact List.map_congr_left fun v hv => argStr_written (hall v hv)

theorem strView_written (h : argStr v ≠ none) :
    strView (.bulkString (writtenStr v)) = strView v := by
  cases v with
  | bulkString s => rfl
  | simpleString s => cases s <;> rfl
  | _ => exact absurd rfl h

/-- A command of strings moves the session as its serialised form does. -/
theorem dbAfter_readBack (ndbs cur : Nat) {argv : List RespValue}
    (hall : ∀ v ∈ argv, argStr v ≠ none) :
    dbAfter ndbs cur (readBack argv) = dbAfter ndbs cur argv := by
  have hname : argvCmd (readBack argv) = argvCmd argv := by
    unfold argvCmd argAt readBack
    cases argv with
    | nil => rfl
    | cons v vs =>
      simp only [List.map_cons, List.getElem?_cons_zero, Option.bind_some]
      rw [argStr_written (hall v List.mem_cons_self)]
  have hindex : (readBack argv)[1]?.bind cmdParseLl = argv[1]?.bind cmdParseLl := by
    rw [readBack, List.getElem?_map]
    cases hv : argv[1]? with
    | none => rfl
    | some v =>
      simp only [Option.map_some, Option.bind_some, cmdParseLl]
      rw [strView_written (hall v (List.mem_of_getElem? hv))]
  have hlen : (readBack argv).length = argv.length := List.length_map _
  unfold dbAfter dbIndexArg
  rw [hname, hlen]
  simp only [hindex]

/-- The command the replica reads for a propagated one. -/
def Propagated.received {isDouble : Bytes → Bool} (p : Propagated isDouble) : List RespValue :=
  if p.raw = none then readBack p.argv else p.argv

theorem Propagated.isFrame (p : Propagated isDouble)
    (h : p.raw = none → Fits p.argv) : IsFrame isDouble p.received p.data := by
  rw [isFrame_iff]
  unfold Propagated.received Propagated.data
  cases hraw : p.raw with
  | none =>
    have hparse := writeCommand_parse isDouble p.sound (h hraw) []
    rw [List.append_nil] at hparse
    exact hparse
  | some b => exact p.parses b hraw

theorem Propagated.refused (p : Propagated isDouble) (hraw : p.raw = none)
    (h : ¬Fits p.argv) (more : Bytes) : replLinkFeed isDouble (p.data ++ more) = ⟨[], none⟩ := by
  have hdata : p.data = writeCommand p.argv := by
    unfold Propagated.data
    rw [hraw]
    rfl
  rw [hdata]
  exact replLinkFeed_failed (writeCommand_refused isDouble p.sound h more)

/-- A received command is the propagated one exactly if the request was sent as it came
or is made of strings; and then it moves the session alike. -/
theorem Propagated.received_iff (p : Propagated isDouble) :
    p.received.map argStr = p.argv.map argStr ↔
      (p.raw = none → ∀ v ∈ p.argv, argStr v ≠ none) := by
  unfold Propagated.received
  split_ifs with hraw
  · rw [readBack_argStr_iff p.sound]
    exact ⟨fun h _ => h, fun h => h hraw⟩
  · exact ⟨fun _ h => absurd h hraw, fun _ => rfl⟩

theorem Propagated.dbAfter_received (p : Propagated isDouble)
    (ndbs cur : Nat) (h : p.raw = none → ∀ v ∈ p.argv, argStr v ≠ none) :
    dbAfter ndbs cur p.received = dbAfter ndbs cur p.argv := by
  unfold Propagated.received
  split_ifs with hraw
  · exact dbAfter_readBack ndbs cur (h hraw)
  · rfl

/-- A session on db `cur` reads the rest of the stream as meant exactly if the commands
survive and each is on the db the ones before it have selected. -/
theorem applied_iff (ndbs : Nat) (cmds : List (Propagated isDouble)) (cur : Nat) :
    (∃ read, replLinkFeed isDouble (cmds.flatMap Propagated.data) = ⟨read, some []⟩ ∧
        List.Forall₂ Applied (placed ndbs cur read) cmds) ↔
      (∀ p ∈ cmds, p.raw = none → Serialisable p.argv) ∧
        (placed ndbs cur (cmds.map (·.argv))).map Prod.fst = cmds.map (·.db) := by
  induction cmds generalizing cur with
  | nil => exact ⟨fun _ => ⟨nofun, rfl⟩, fun _ => ⟨[], rfl, .nil⟩⟩
  | cons p cmds ih =>
    simp only [List.flatMap_cons, List.map_cons, placed, List.cons.injEq, List.forall_mem_cons]
    by_cases hfits : p.raw = none → Fits p.argv
    · rw [replLinkFeed_frame (p.isFrame hfits)]
      rcases hfed : replLinkFeed isDouble (cmds.flatMap Propagated.data) with ⟨commands, left⟩
      by_cases hstr : p.raw = none → ∀ v ∈ p.argv, argStr v ≠ none
      · have hmoved := p.dbAfter_received ndbs cur hstr
        have hser : p.raw = none → Serialisable p.argv := fun h => ⟨hfits h, hstr h⟩
        constructor
        · rintro ⟨read, hfeed, happ⟩
          cases hfeed
          obtain ⟨⟨hdb, -⟩, hrest⟩ := List.forall₂_cons.mp happ
          rw [hmoved] at hrest
          obtain ⟨hall, hdbs⟩ := (ih _).mp ⟨commands, hfed, hrest⟩
          exact ⟨⟨hser, hall⟩, hdb, hdbs⟩
        · rintro ⟨⟨-, hall⟩, hdb, hdbs⟩
          obtain ⟨read, hfeed, happ⟩ := (ih _).mpr ⟨hall, hdbs⟩
          cases hfed.symm.trans hfeed
          refine ⟨p.received :: commands, rfl, .cons ⟨hdb, p.received_iff.mpr hstr⟩ ?_⟩
          rw [hmoved]
          exact happ
      · -- an argument that is no string reaches the replica as the empty string
        constructor
        · rintro ⟨read, hfeed, happ⟩
          cases hfeed
          obtain ⟨⟨-, hsame⟩, -⟩ := List.forall₂_cons.mp happ
          exact absurd (p.received_iff.mp hsame) hstr
        · rintro ⟨⟨hser, -⟩, -⟩
          exact absurd (fun h => (hser h).2) hstr
    · -- a length over the limit closes the link
      push Not at hfits
      rw [p.refused hfits.1 hfits.2]
      constructor
      · rintro ⟨read, hfeed, -⟩
        cases hfeed
      · rintro ⟨⟨hser, -⟩, -⟩
        exact absurd (hser hfits.1).1 hfits.2

/-- The replica applies the propagated commands in their dbs exactly if every one that
is serialised survives it, and the db of each is the one a session that starts on db 0
is on once it has run the commands before it. -/
theorem replicated_iff (isDouble : Bytes → Bool) (ndbs : Nat) (s : Streams) (h : Attached s)
    (cmds : List (Propagated isDouble)) :
    Replicated isDouble ndbs s cmds ↔
      (∀ p ∈ cmds, p.raw = none → Serialisable p.argv) ∧
        (placed ndbs 0 (cmds.map (·.argv))).map Prod.fst = cmds.map (·.db) := by
  unfold Replicated
  rw [propagateAll_backlog cmds h, List.drop_left]
  exact applied_iff ndbs cmds 0

def freshMaster : Streams where
  aof := none
  aofDbIndex := 0
  centralized := false
  connectedSlaves := 1
  backlogUsed := true
  backlog := []
  replicas := [[]]
  forwarded := []
  streamDb := 0

theorem freshMaster_attached : Attached freshMaster := ⟨rfl, by decide⟩

def setOnDb (db : Nat) : Propagated (fun _ => false) where
  db := db
  argv := words ["SET", "k", "v"]
  raw := none
  sound := by decide
  parses := nofun

/-- A SET on db 0 reaches the replica's db 0. -/
theorem setOnZero_replicated : Replicated (fun _ => false) 16 freshMaster [setOnDb 0] := by
  refine (replicated_iff _ 16 freshMaster freshMaster_attached [setOnDb 0]).mpr ⟨?_, by decide⟩
  intro p hp _
  rw [List.mem_singleton.mp hp]
  exact ⟨⟨by decide, by decide⟩, by decide⟩

/-- A SET on db 1 does not reach the replica's db 1: it is the only command in the
stream. -/
theorem setOnOne_misplaced : ¬Replicated (fun _ => false) 16 freshMaster [setOnDb 1] := by
  rintro ⟨read, -, happ⟩
  cases read with
  | nil => cases happ
  | cons argv rest =>
    obtain ⟨⟨hdb, -⟩, -⟩ := List.forall₂_cons.mp happ
    exact absurd hdb (show 0 ≠ 1 by decide)

end Ddup.Server
