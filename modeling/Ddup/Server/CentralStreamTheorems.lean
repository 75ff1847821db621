/-
Ddup.Server.CentralStreamTheorems — the central stream of several workers.

`server_repl_stream_append_db` keeps the db the stream is on and prints a SELECT frame
in front of a command of another db. The frame gives the index as the length of its own
text. Only `1` is as long as it says; any longer length takes in the beginning of the
command behind the frame. And the db the stream is on is not the db of a reader that
attaches later: that reader starts on db 0 and finds no SELECT until the db changes.
-/
import Ddup.Server.ReplStreamTheorems

namespace Ddup.Server

open Ddup.Resp Ddup.Command Ddup.Lib

variable {s : Streams} {ndbs : Nat} {argv : List RespValue} {db : Nat} {raw rest : Bytes}

/-! ## The stream -/

/-- A command frame given to the stream: a db index and the bytes of a command. -/
structure Frame (isDouble : Bytes → Bool) where
  db : Nat
  db_lt : db < 16
  argv : List RespValue
  raw : Bytes
  parses : respParse isDouble raw = .done (.array argv false) []

variable {isDouble : Bytes → Bool}

theorem Frame.isFrame (f : Frame isDouble) : IsFrame isDouble f.argv f.raw :=
  isFrame_iff.mpr f.parses

def appendAll (s : Streams) (fs : List (Frame isDouble)) : Streams :=
  fs.foldl (fun s f => s.replStreamAppendDb f.db f.raw) s

/-- What a frame adds to a stream that is on db `c`. -/
def frameBytes (c : Nat) (f : Frame isDouble) : Bytes :=
  if f.db ≠ c then Streams.selectFrame f.db ++ f.raw else f.raw

def streamBytes : Nat → List (Frame isDouble) → Bytes
  | _, [] => []
  | c, f :: fs => frameBytes c f ++ streamBytes f.db fs

def lastDb (c : Nat) (fs : List (Frame isDouble)) : Nat := fs.foldl (fun _ f => f.db) c

theorem selectFrame_length : ∀ db < 16, 0 < (Streams.selectFrame db).length ∧
    (Streams.selectFrame db).length < 48 := by decide

theorem replStreamAppend_active (h : s.active = true) (hraw : raw ≠ []) :
    s.replStreamAppend raw = s.fanOut raw := by
  simp [Streams.replStreamAppend, hraw, h]

theorem replStreamAppendDb_eq (h : s.active = true) (f : Frame isDouble) :
    (s.replStreamAppendDb f.db f.raw).active = true ∧
      (s.replStreamAppendDb f.db f.raw).streamDb = f.db ∧
      (s.replStreamAppendDb f.db f.raw).backlog = s.backlog ++ frameBytes s.streamDb f := by
  have hraw := f.isFrame.ne_nil
  have hindex : ¬(f.raw = [] ∨ 999999999 < f.db) := by
    have hlt := f.db_lt
    rintro (hnil | hbig)
    · exact hraw hnil
    · omega
  obtain ⟨hpos, hfits⟩ := selectFrame_length f.db f.db_lt
  have hsel : Streams.selectFrame f.db ≠ [] := List.ne_nil_of_length_pos hpos
  unfold Streams.replStreamAppendDb frameBytes
  rw [if_neg hindex, h]
  by_cases hdb : f.db ≠ s.streamDb
  · simp only [Bool.not_true, if_pos hdb, Nat.not_le.mpr hfits,
      replStreamAppend_active h hsel]
    have hactive : { s.fanOut (Streams.selectFrame f.db) with streamDb := f.db }.active = true := h
    rw [replStreamAppend_active hactive hraw]
    refine ⟨h, rfl, ?_⟩
    simp [Streams.fanOut]
  · simp only [Bool.not_true, Bool.false_eq_true, if_neg hdb,
      replStreamAppend_active h hraw]
    exact ⟨h, (not_not.mp hdb).symm, rfl⟩

theorem appendAll_eq (fs : List (Frame isDouble)) (h : s.active = true) :
    (appendAll s fs).active = true ∧ (appendAll s fs).streamDb = lastDb s.streamDb fs ∧
      (appendAll s fs).backlog = s.backlog ++ streamBytes s.streamDb fs := by
  induction fs generalizing s with
  | nil => exact ⟨h, rfl, (List.append_nil _).symm⟩
  | cons f fs ih =>
    obtain ⟨hactive, hdb, hbacklog⟩ := replStreamAppendDb_eq h f
    obtain ⟨hactive', hdb', hbacklog'⟩ := ih hactive
    refine ⟨hactive', ?_, ?_⟩
    · rw [hdb] at hdb'
      exact hdb'
    · rw [hdb, hbacklog, List.append_assoc] at hbacklog'
      exact hbacklog'

/-! ## Its readers -/

/-- What a reader ran is the commands, each in its db, interleaved with SELECT commands. -/
inductive Interleaved : List (Nat × List RespValue) → List (Nat × List RespValue) → Prop
  | nil : Interleaved [] []
  | select {x : Nat × List RespValue} {read cmds : List (Nat × List RespValue)}
      (hselect : argvCmd x.2 = .select) (h : Interleaved read cmds) : Interleaved (x :: read) cmds
  | command {x : Nat × List RespValue} {read cmds : List (Nat × List RespValue)}
      (h : Interleaved read cmds) : Interleaved (x :: read) (x :: cmds)

theorem Interleaved.sublist {read cmds : List (Nat × List RespValue)} (h : Interleaved read cmds) :
    cmds.Sublist read := by
  induction h with
  | nil => exact .slnil
  | select _ _ ih => exact ih.cons _
  | command _ ih => exact ih.cons_cons _

/-- A reader that starts on db `cur` gets the commands out of the bytes, in their dbs. -/
def ReadsFrom (isDouble : Bytes → Bool) (ndbs cur : Nat) (bytes : Bytes)
    (fs : List (Frame isDouble)) : Prop :=
  ∃ read, replLinkFeed isDouble bytes = ⟨read, some []⟩ ∧
    Interleaved (placed ndbs cur read) (fs.map fun f => (f.db, f.argv))

/-- At every moment a reader that attached at an earlier one, on db 0, has got the
commands since then, in their dbs. A reader attaches between two calls. -/
def StreamFaithful (isDouble : Bytes → Bool) (ndbs : Nat) (s : Streams)
    (fs : List (Frame isDouble)) : Prop :=
  ∀ pre mid post, fs = pre ++ mid ++ post →
    ReadsFrom isDouble ndbs 0
      ((appendAll s (pre ++ mid)).backlog.drop (appendAll s pre).backlog.length) mid

/-- All frames are of db 0, but for one of db 1 at the end; and a frame that is followed
by one of db 0 does not select another db. -/
def InDbZero (ndbs : Nat) : List (Frame isDouble) → Prop
  | [] => True
  | [f] => f.db ≤ 1
  | f :: g :: fs => f.db = 0 ∧ (g.db = 0 → dbAfter ndbs 0 f.argv = 0) ∧ InDbZero ndbs (g :: fs)

theorem appendAll_since (h : s.active = true) (pre mid : List (Frame isDouble)) :
    (appendAll s (pre ++ mid)).backlog.drop (appendAll s pre).backlog.length =
      streamBytes (lastDb s.streamDb pre) mid := by
  obtain ⟨hactive, hdb, -⟩ := appendAll_eq pre h
  obtain ⟨-, -, hbacklog⟩ := appendAll_eq mid hactive
  have hsplit : appendAll s (pre ++ mid) = appendAll (appendAll s pre) mid := List.foldl_append ..
  rw [hsplit, hbacklog, hdb, List.drop_left]

/-! ## The SELECT frame -/

theorem parseBulk_announced {n : Nat} (hn : n ≤ respMaxArrayLen) (tail : Bytes) :
    parseBulk (u64ToStr n ++ (crlf ++ tail)) =
      (parsePayload n tail).map fun b => .bulkString (.view b) := by
  have hlen : parseLength (u64ToStr n ++ crlf ++ tail) = .done (some n) tail := by
    refine parseLength_recognises.apply_append ⟨u64ToStr n, ?_, rfl⟩ tail
    rw [parseBulkLen_u64ToStr, if_pos hn]
  rw [List.append_assoc] at hlen
  unfold parseBulk parseBlob
  rw [hlen]
  simp only [Parsed.andThen]
  cases parsePayload n tail <;> rfl

/-- The frame is read as far as the length of the index; what stands there is up to the
bytes behind it. -/
theorem respParse_selectFrame (hdb : db ≤ respMaxArrayLen) (more : Bytes) :
    respParse isDouble (Streams.selectFrame db ++ more) =
      (parsePayload db (u64ToStr db ++ (crlf ++ more))).map fun b =>
        .array [bulk (text "SELECT"), bulk b] false := by
  have hshape : Streams.selectFrame db ++ more = Tag.array.byte :: ((text "2\r\n") ++
      (Tag.bulkString.byte :: (text "6\r\nSELECT\r\n" ++ (Tag.bulkString.byte ::
        (u64ToStr db ++ (crlf ++ (u64ToStr db ++ (crlf ++ more)))))))) := by
    have hhead : text "*2\r\n$6\r\nSELECT\r\n$" = Tag.array.byte :: (text "2\r\n" ++
        (Tag.bulkString.byte :: (text "6\r\nSELECT\r\n" ++ [Tag.bulkString.byte]))) := by decide
    rw [Streams.selectFrame, hhead]
    simp
  have hcount cur : parseLength (text "2\r\n" ++ cur) = .done (some 2) cur :=
    parseLength_recognises.apply_append ⟨[50], by decide, by decide⟩ cur
  have hname cur : parseBulk (text "6\r\nSELECT\r\n" ++ cur) =
      .done (bulk (text "SELECT")) cur :=
    parseBulk_recognises.apply_append ⟨some (text "SELECT"), rfl, [54], by decide, by decide⟩ cur
  have hchild p : parseArrayChild (parseAt isDouble respMaxDepth)
      (Tag.bulkString.byte :: p) = parseBulk p := rfl
  rw [hshape, respParse_array]
  unfold parseAggregate
  rw [hcount]
  simp only [Parsed.andThen]
  have hroom tail : ¬(Tag.bulkString.byte :: (text "6\r\nSELECT\r\n" ++ tail)).length / 3 <
      slotsOf .array 2 := by
    have hlen : (text "6\r\nSELECT\r\n").length = 11 := by decide
    have hslots : slotsOf .array 2 = 2 := rfl
    rw [List.length_cons, List.length_append]
    omega
  have hslots : slotsOf .array 2 = 2 := rfl
  rw [if_neg (hroom _), hslots, parseArrayItems_parseAt]
  simp only [repeatN, hchild, hname, Parsed.andThen, parseBulk_announced hdb]
  cases parsePayload db (u64ToStr db ++ (crlf ++ more)) <;> rfl

def selectOne : List RespValue := [bulk (text "SELECT"), bulk (text "1")]

theorem selectFrame_one : IsFrame isDouble selectOne (Streams.selectFrame 1) := by
  have hparse : respParse isDouble (Streams.selectFrame 1 ++ []) = _ :=
    respParse_selectFrame (by decide) []
  exact isFrame_iff.mpr hparse

theorem dbAfter_selectOne (h : 1 < ndbs) (cur : Nat) : dbAfter ndbs cur selectOne = 1 := by
  have hindex : selectOne[1]?.bind cmdParseLl = some 1 := by decide
  have hrange : ¬((1 : Int) < 0 ∨ (ndbs : Int) ≤ 1) := by omega
  unfold dbAfter dbIndexArg
  simp only [hindex, if_neg hrange]
  rfl

theorem u64ToStr_short : ∀ db < 16, db ≠ 0 → db ≠ 1 → (u64ToStr db).length < db := by decide

theorem IsFrame.solid_rest {u z : Bytes} (h : IsFrame isDouble argv u)
    (hsplit : u = z ++ rest) (hz : z ≠ []) : solid rest < solid u := by
  obtain ⟨tag, w, rfl, hbody⟩ := h
  obtain rfl : tag = .array := hbody.tag_eq.symm
  cases z with
  | nil => exact absurd rfl hz
  | cons c z =>
    have hw : w = z ++ rest := (List.cons.inj hsplit).2
    have hone : (if Tag.array.byte != 48 && Tag.array.byte != 45 then 1 else 0) = 1 := by decide
    rw [hw, solid_cons, solid_append]
    omega

theorem mem_of_placed {cur i : Nat} {cmds : List (List RespValue)}
    (h : (i, argv) ∈ placed ndbs cur cmds) : argv ∈ cmds := by
  induction cmds generalizing cur with
  | nil => cases h
  | cons c cmds ih =>
    rcases List.mem_cons.mp h with heq | hrest
    · rw [(Prod.mk.inj heq).2]
      exact List.mem_cons_self
    · exact List.mem_cons_of_mem _ (ih hrest)

/-- What a wrong SELECT frame leaves of the bytes behind it, if it is read at all. -/
theorem parsePayload_swallows (hlt : db < 16) (hdb : db ≠ 1) {b : Bytes}
    (h : parsePayload db (u64ToStr db ++ (crlf ++ raw)) = .done b rest) :
    db ≠ 0 ∧ ∃ z, z ≠ [] ∧ raw = z ++ rest := by
  obtain ⟨used, heq, hlen, rfl⟩ := (parsePayload_recognises db _ _ _).mp h
  by_cases hzero : db = 0
  · -- an empty text cannot end before the digit
    subst hzero
    rw [List.eq_nil_of_length_eq_zero hlen] at heq
    exact absurd (List.cons.inj heq).1 (by decide)
  have hshort := u64ToStr_short db hlt hzero hdb
  rw [← List.append_assoc] at heq
  rcases List.append_eq_append_iff.mp heq with ⟨z, hz, hraw⟩ | ⟨z, hz, -⟩
  · refine ⟨hzero, z, ?_, hraw⟩
    rintro rfl
    have hsame := congrArg List.length hz
    simp only [List.length_append, List.length_nil] at hsame
    omega
  · have hsame := congrArg List.length hz
    simp only [List.length_append] at hsame
    omega

/-- Behind a wrong SELECT frame the reader never gets the command: the frame swallows
its beginning, and no text of the command starts later. -/
theorem selectFrame_wrong (f : Frame isDouble) (hdb : f.db ≠ 1) :
    ¬ReadsFrom isDouble ndbs 0 (Streams.selectFrame f.db ++ f.raw) [f] := by
  have hlt := f.db_lt
  rintro ⟨read, hfeed, hinter⟩
  have hparse : respParse isDouble (Streams.selectFrame f.db ++ f.raw) = _ :=
    respParse_selectFrame (show f.db ≤ respMaxArrayLen by unfold respMaxArrayLen; omega) f.raw
  cases hpay : parsePayload f.db (u64ToStr f.db ++ (crlf ++ f.raw)) with
  | failed =>
    rw [hpay] at hparse
    rw [replLinkFeed_failed hparse] at hfeed
    cases hfeed
  | incomplete =>
    rw [hpay] at hparse
    rw [replLinkFeed_incomplete hparse] at hfeed
    have hnil : Streams.selectFrame f.db ++ f.raw = [] := by
      injection hfeed with _ hleft
      exact Option.some.inj hleft
    exact f.isFrame.ne_nil (List.append_eq_nil_iff.mp hnil).2
  | done b rest =>
    rw [hpay] at hparse
    obtain ⟨hzero, z, hz, hraw⟩ := parsePayload_swallows hlt hdb hpay
    obtain ⟨used, hused, hframe⟩ := (parseAt_recognises isDouble _ _ _ _).mp hparse
    rw [hused, replLinkFeed_frame hframe] at hfeed
    injection hfeed with hread hleft
    have hmem : (f.db, f.argv) ∈ placed ndbs 0 read := hinter.sublist.subset List.mem_cons_self
    rw [← hread, placed, List.mem_cons] at hmem
    rcases hmem with hfirst | hlater
    · exact hzero (Prod.mk.inj hfirst).1
    obtain ⟨u, hu, hle⟩ := mem_commands_solid (mem_of_placed hlater)
    have hsame := encodes_solid hu f.isFrame
    have hless := f.isFrame.solid_rest hraw hz
    omega

/-! ## Which streams are faithful -/

theorem replLinkFeed_raw (f : Frame isDouble) : replLinkFeed isDouble f.raw = ⟨[f.argv], some []⟩ := by
  have hfeed := replLinkFeed_frame f.isFrame []
  rw [List.append_nil] at hfeed
  exact hfeed

/-- A reader that attaches right before a frame gets it if the stream and the frame are
on db 0, or if the frame is the first of db 1. -/
theorem readsFrom_one {c : Nat} {f : Frame isDouble}
    (h : ReadsFrom isDouble ndbs 0 (streamBytes c [f]) [f]) :
    (f.db = 0 ∧ c = 0) ∨ (f.db = 1 ∧ c ≠ 1) := by
  simp only [streamBytes, List.append_nil, frameBytes] at h
  split_ifs at h with hsel
  · by_cases hone : f.db = 1
    · exact Or.inr ⟨hone, fun hc => hsel (hone.trans hc.symm)⟩
    · exact absurd h (selectFrame_wrong f hone)
  obtain ⟨read, hfeed, hinter⟩ := h
  rw [replLinkFeed_raw] at hfeed
  injection hfeed with hread
  subst hread
  have heq := hinter.sublist.eq_of_length rfl
  have hdb : f.db = 0 := (Prod.mk.inj (List.cons.inj heq).1).1
  exact Or.inl ⟨hdb, (not_not.mp hsel).symm.trans hdb⟩

/-- Of two frames of db 0 the reader gets the second if the first leaves it there. -/
theorem readsFrom_two {f g : Frame isDouble} (hf : f.db = 0) (hg : g.db = 0)
    (h : ReadsFrom isDouble ndbs 0 (streamBytes 0 [f, g]) [f, g]) : dbAfter ndbs 0 f.argv = 0 := by
  have hbytes : streamBytes 0 [f, g] = f.raw ++ g.raw := by simp [streamBytes, frameBytes, hf, hg]
  obtain ⟨read, hfeed, hinter⟩ := h
  rw [hbytes, replLinkFeed_frame f.isFrame, replLinkFeed_raw] at hfeed
  injection hfeed with hread
  subst hread
  have heq := hinter.sublist.eq_of_length rfl
  have hsecond := (List.cons.inj (List.cons.inj heq).2).1
  have hdb : g.db = dbAfter ndbs 0 f.argv := (Prod.mk.inj hsecond).1
  rw [← hdb, hg]

/-- The frames of db 0 and one of db 1 behind them are read as meant. -/
theorem readsFrom_inDbZero {ndbs : Nat} (hn : 1 < ndbs) :
    ∀ fs cur, InDbZero ndbs fs →
      (∀ f ∈ fs.head?, f.db = 0 → cur = 0) → ReadsFrom isDouble ndbs cur (streamBytes 0 fs) fs
  | [], _, _, _ => ⟨[], rfl, .nil⟩
  | [f], cur, hle, hcur => by
    have hdb : f.db = 0 ∨ f.db = 1 := by
      have hle' : f.db ≤ 1 := hle
      omega
    rcases hdb with hzero | hone
    · have hbytes : streamBytes 0 [f] = f.raw := by simp [streamBytes, frameBytes, hzero]
      refine ⟨[f.argv], ?_, ?_⟩
      · rw [hbytes, replLinkFeed_raw]
      have hstart : (f.db, f.argv) = (cur, f.argv) := by rw [hzero, hcur f rfl hzero]
      rw [List.map_cons, hstart]
      exact .command .nil
    · have hbytes : streamBytes 0 [f] = Streams.selectFrame 1 ++ f.raw := by
        simp [streamBytes, frameBytes, hone]
      refine ⟨[selectOne, f.argv], ?_, ?_⟩
      · rw [hbytes, replLinkFeed_frame selectFrame_one, replLinkFeed_raw]
      · rw [placed, dbAfter_selectOne hn, List.map_cons, hone]
        exact .select (show argvCmd selectOne = .select by decide) (.command .nil)
  | f :: g :: fs, cur, ⟨hzero, hnext, hrest⟩, hcur => by
    have hbytes : streamBytes 0 (f :: g :: fs) = f.raw ++ streamBytes 0 (g :: fs) := by
      simp [streamBytes, frameBytes, hzero]
    have hstart : cur = 0 := hcur f rfl hzero
    subst hstart
    obtain ⟨read, hfeed, hinter⟩ := readsFrom_inDbZero hn (g :: fs) (dbAfter ndbs 0 f.argv) hrest
      (fun x hx hxzero => hnext (by cases hx; exact hxzero))
    refine ⟨f.argv :: read, ?_, ?_⟩
    · rw [hbytes, replLinkFeed_frame f.isFrame, hfeed]
    · rw [List.map_cons, hzero]
      exact .command hinter

/-- A part of such a stream is one, too, and the stream is on db 0 where it starts. -/
theorem InDbZero.segment {mid post : List (Frame isDouble)} (hmid : mid ≠ []) :
    ∀ pre, InDbZero ndbs (pre ++ mid ++ post) →
      InDbZero ndbs mid ∧ lastDb 0 pre = 0
  | [], h => ⟨front mid h, rfl⟩
  | [f], h => by
    cases mid with
    | nil => exact absurd rfl hmid
    | cons g mid => exact ⟨front (g :: mid) h.2.2, h.1⟩
  | f :: g :: pre, h => by
    obtain ⟨hrest, hlast⟩ := InDbZero.segment hmid (g :: pre) h.2.2
    refine ⟨hrest, ?_⟩
    rw [← hlast]
    rfl
where
  front : ∀ mid : List (Frame isDouble), InDbZero ndbs (mid ++ post) → InDbZero ndbs mid
    | [], _ => trivial
    | [f], h => by
      cases post with
      | nil => exact h
      | cons g post => exact h.1.le.trans (Nat.zero_le 1)
    | _ :: g :: mid, h => ⟨h.1, h.2.1, front (g :: mid) h.2.2⟩

theorem inDbZero_of_reads {ndbs : Nat} : ∀ fs,
    (∀ pre mid post, fs = pre ++ mid ++ post →
      ReadsFrom isDouble ndbs 0 (streamBytes (lastDb 0 pre) mid) mid) → InDbZero ndbs fs
  | [], _ => trivial
  | [f], h => by
    rcases readsFrom_one (h [] [f] [] rfl) with ⟨hzero, -⟩ | ⟨hone, -⟩
    · exact hzero.le.trans (Nat.zero_le 1)
    · exact hone.le
  | f :: g :: fs, h => by
    -- the reader in front of `g` leaves no other db for `f` than 0
    have hzero : f.db = 0 := by
      rcases readsFrom_one (h [f] [g] fs rfl) with ⟨-, hf⟩ | ⟨-, hf⟩
      · exact hf
      rcases readsFrom_one (h [] [f] (g :: fs) rfl) with ⟨hzero, -⟩ | ⟨hone, -⟩
      · exact hzero
      · exact absurd hone hf
    refine ⟨hzero, fun hg => readsFrom_two hzero hg (h [] [f, g] fs rfl), ?_⟩
    refine inDbZero_of_reads (g :: fs) fun pre mid post heq => ?_
    have hreads := h (f :: pre) mid post (by rw [heq]; rfl)
    have hlast : lastDb 0 (f :: pre) = lastDb 0 pre := by
      rw [← hzero]
      rfl
    rw [hlast] at hreads
    exact hreads

/-- Every reader of the central stream, attached at the start or between any two calls,
gets its commands in their dbs exactly if all frames are of db 0 but for one of db 1 at
the end, and none that is followed by one of db 0 selects another db. -/
theorem streamFaithful_iff {ndbs : Nat} (hn : 1 < ndbs) {s : Streams} (hactive : s.active = true)
    (hstart : s.streamDb = 0) (fs : List (Frame isDouble)) :
    StreamFaithful isDouble ndbs s fs ↔ InDbZero ndbs fs := by
  unfold StreamFaithful
  simp only [appendAll_since hactive, hstart]
  constructor
  · exact inDbZero_of_reads fs
  intro h pre mid post heq
  by_cases hmid : mid = []
  · subst hmid
    exact ⟨[], rfl, .nil⟩
  rw [heq] at h
  obtain ⟨hseg, hlast⟩ := InDbZero.segment hmid pre h
  rw [hlast]
  exact readsFrom_inDbZero hn mid 0 hseg fun _ _ _ => rfl

def pingFrame (db : Fin 16) : Frame (fun _ => false) where
  db := db
  db_lt := db.isLt
  argv := words ["PING"]
  raw := text "*1\r\n$4\r\nPING\r\n"
  parses := by rfl

/-- Two commands of db 0 and one of db 1. -/
theorem pings_faithful :
    StreamFaithful (fun _ => false) 16 freshMaster [pingFrame 0, pingFrame 0, pingFrame 1] :=
  (streamFaithful_iff (by decide) rfl rfl _).mpr
    ⟨rfl, fun _ => by decide, rfl, fun _ => by decide, show 1 ≤ 1 by decide⟩

/-- One command of db 2: the length in the SELECT frame is wrong, and the reader closes
the link. -/
theorem pingTwo_unreadable : ¬StreamFaithful (fun _ => false) 16 freshMaster [pingFrame 2] := by
  intro h
  obtain ⟨read, hfeed, -⟩ := h [] [pingFrame 2] [] rfl
  have hleft : (replLinkFeed (fun _ => false)
      ((appendAll freshMaster [pingFrame 2]).backlog.drop 0)).left = none := by decide
  have hopen := congrArg Fed.left hfeed
  cases hleft.symm.trans hopen

end Ddup.Server
