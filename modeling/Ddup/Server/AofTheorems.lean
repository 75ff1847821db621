/-
Ddup.Server.AofTheorems — the append-only file of `server/aof.c`. Commands collect in a pending
buffer; a flush hands it to a write function, which may take less than it is given, or fail.

The file and the pending buffer together are what was logged, until a flush fails. From then on the
file stays as it is.
-/
import Ddup.Resp.Writer

namespace Ddup.Server

open Ddup.Resp

inductive FsyncMode
  | no
  | everysec
  | always
deriving DecidableEq

/-- `struct aof`; `file` is what the write function took. -/
structure Aof where
  file : Bytes
  pending : Bytes
  failed : Bool
  fsyncMode : FsyncMode
  lastSyncMs : Nat

def aofOpen (mode : FsyncMode) : Aof := ⟨[], [], false, mode, 0⟩

def aofLogCmd (a : Aof) (argv : List RespValue) : Aof :=
  if a.failed then a else { a with pending := a.pending ++ writeCommand argv }

/-- What one flush meets: the results of its calls of `write_fn`, whether `pal_file_flush` and
    `sync_fn` succeed, and the clock. -/
structure FlushEnv where
  writes : Nat → Int
  flushes : Bool
  syncs : Bool
  now : Nat

def aofPolicySync (w : FlushEnv) (a : Aof) : Aof × Bool :=
  if a.fsyncMode = .no then (a, true)
  else if a.fsyncMode = .everysec ∧ a.lastSyncMs ≤ w.now ∧ w.now - a.lastSyncMs < 1000 then (a, true)
  else if !w.syncs then (a, false)
  else ({ a with lastSyncMs := w.now }, true)

/-- The loop of `aof_flush` from its `i`th call: what it writes, what it leaves, and whether it got
    to the end. A call that succeeds takes a byte at least. -/
def flushLoop (writes : Nat → Int) : Nat → Nat → Bytes → Bytes × Bytes × Bool
  | 0, _, rest => ([], rest, true)
  | fuel + 1, i, rest =>
    if rest = [] then ([], rest, true)
    else if writes i ≤ 0 then ([], rest, false)
    else
      let r := flushLoop writes fuel (i + 1) (rest.drop (writes i).toNat)
      (rest.take (writes i).toNat ++ r.1, r.2)

def aofFlush (w : FlushEnv) (a : Aof) : Aof × Bool :=
  if a.failed then (a, false)
  else
    let r := flushLoop w.writes a.pending.length 0 a.pending
    let a' := { a with file := a.file ++ r.1 }
    if !r.2.2 then ({ a' with pending := r.2.1, failed := true }, false)
    else if !w.flushes then ({ a' with failed := true }, false)
    else
      let p := aofPolicySync w { a' with pending := [] }
      if a.pending = [] then ({ a' with pending := [] }, true)
      else if p.2 then p
      else ({ p.1 with failed := true }, false)

inductive AofCall
  | log (argv : List RespValue)
  | flush (w : FlushEnv)

def aofRun : List AofCall → Aof → Aof × List Bool
  | [], a => (a, [])
  | .log argv :: rest, a => aofRun rest (aofLogCmd a argv)
  | .flush w :: rest, a =>
    let r := aofRun rest (aofFlush w a).1
    (r.1, (aofFlush w a).2 :: r.2)

def loggedBytes : List AofCall → Bytes
  | [] => []
  | .log argv :: rest => writeCommand argv ++ loggedBytes rest
  | .flush _ :: rest => loggedBytes rest

/-- The file holds a part of what was logged, and with the pending bytes all of it while no flush
    has failed. -/
structure Aof.Holds (a : Aof) (total : Bytes) : Prop where
  isPart : a.file <+: total
  whole : a.failed = false → a.file ++ a.pending = total

theorem flushLoop_spec (writes : Nat → Int) : ∀ fuel i rest, rest.length ≤ fuel →
    (flushLoop writes fuel i rest).1 ++ (flushLoop writes fuel i rest).2.1 = rest ∧
      ((flushLoop writes fuel i rest).2.2 = true → (flushLoop writes fuel i rest).2.1 = []) := by
  intro fuel
  induction fuel with
  | zero =>
    intro i rest hlen
    exact ⟨rfl, fun _ => List.length_eq_zero_iff.mp (Nat.le_zero.mp hlen)⟩
  | succ fuel ih =>
    intro i rest hlen
    rw [flushLoop]
    split
    · exact ⟨rfl, fun _ => ‹_›⟩
    split
    · exact ⟨rfl, nofun⟩
    have hrest : (rest.drop (writes i).toNat).length ≤ fuel := by
      rw [List.length_drop]
      omega
    obtain ⟨happ, hend⟩ := ih (i + 1) _ hrest
    refine ⟨?_, hend⟩
    rw [List.append_assoc, happ, List.take_append_drop]

theorem aofPolicySync_file (w : FlushEnv) (a : Aof) : (aofPolicySync w a).1.file = a.file ∧
    (aofPolicySync w a).1.pending = a.pending ∧ (aofPolicySync w a).1.failed = a.failed := by
  unfold aofPolicySync
  split <;> [skip; split <;> [skip; split]] <;> exact ⟨rfl, rfl, rfl⟩

theorem aofLogCmd_holds {a : Aof} {total : Bytes} (h : a.Holds total) (argv : List RespValue) :
    (aofLogCmd a argv).Holds (total ++ writeCommand argv) ∧ (aofLogCmd a argv).failed = a.failed := by
  have hpart : a.file <+: total ++ writeCommand argv := h.isPart.trans (List.prefix_append _ _)
  unfold aofLogCmd
  split
  case isTrue hf => exact ⟨⟨hpart, fun hok => absurd hf (by simp [hok])⟩, rfl⟩
  case isFalse => exact ⟨⟨hpart, fun hok => by rw [← List.append_assoc, h.whole hok]⟩, rfl⟩

/-- A flush moves bytes from the pending buffer to the file, and latches its failure. -/
theorem aofFlush_holds {a : Aof} {total : Bytes} (h : a.Holds total) (w : FlushEnv) :
    (aofFlush w a).1.Holds total ∧ ((aofFlush w a).2 = true → (aofFlush w a).1.failed = false) := by
  unfold aofFlush
  split
  · exact ⟨h, nofun⟩
  have hok : a.failed = false := by simpa using ‹¬a.failed = true›
  obtain ⟨happ, hend⟩ := flushLoop_spec w.writes _ 0 a.pending le_rfl
  generalize flushLoop w.writes a.pending.length 0 a.pending = r at happ hend
  have hfile : a.file ++ r.1 ++ r.2.1 = total := by rw [List.append_assoc, happ, h.whole hok]
  have hpart : a.file ++ r.1 <+: total := ⟨_, hfile⟩
  dsimp only
  split
  · exact ⟨⟨hpart, nofun⟩, nofun⟩
  have hnil : r.2.1 = [] := hend (by simpa using ‹¬(!r.2.2) = true›)
  rw [hnil] at hfile
  split
  · exact ⟨⟨hpart, nofun⟩, nofun⟩
  split
  · exact ⟨⟨hpart, fun _ => hfile⟩, fun _ => hok⟩
  obtain ⟨hf, hp, hfail⟩ := aofPolicySync_file w { a with file := a.file ++ r.1, pending := [] }
  split
  · exact ⟨⟨hf ▸ hpart, fun _ => by rw [hf, hp]; exact hfile⟩, fun _ => hfail.trans hok⟩
  · exact ⟨⟨hf ▸ hpart, nofun⟩, nofun⟩

theorem aofRun_holds (calls : List AofCall) : ∀ a total, a.Holds total →
    (aofRun calls a).1.file <+: total ++ loggedBytes calls ∧
      (a.failed = false → (∀ ok ∈ (aofRun calls a).2, ok = true) →
        (aofRun calls a).1.file ++ (aofRun calls a).1.pending = total ++ loggedBytes calls) := by
  induction calls with
  | nil =>
    intro a total h
    rw [loggedBytes, List.append_nil]
    exact ⟨h.isPart, fun hok _ => h.whole hok⟩
  | cons c rest ih =>
    intro a total h
    cases c with
    | log argv =>
      obtain ⟨hlog, hfail⟩ := aofLogCmd_holds h argv
      rw [loggedBytes, ← List.append_assoc, ← hfail]
      exact ih _ _ hlog
    | flush w =>
      obtain ⟨hflush, hlatch⟩ := aofFlush_holds h w
      obtain ⟨hpart, hall⟩ := ih _ _ hflush
      exact ⟨hpart, fun _ hoks => hall (hlatch (hoks _ List.mem_cons_self))
        fun ok hmem => hoks ok (List.mem_cons_of_mem _ hmem)⟩

/-- In every run from an opened file, the file is a part of what was logged, and file and pending
    bytes are all of it as long as no flush has failed. -/
theorem aofRun_file (mode : FsyncMode) (calls : List AofCall) :
    (aofRun calls (aofOpen mode)).1.file <+: loggedBytes calls ∧
      ((∀ ok ∈ (aofRun calls (aofOpen mode)).2, ok = true) →
        (aofRun calls (aofOpen mode)).1.file ++ (aofRun calls (aofOpen mode)).1.pending =
          loggedBytes calls) := by
  obtain ⟨hpart, hall⟩ := aofRun_holds calls (aofOpen mode) [] ⟨List.prefix_rfl, fun _ => rfl⟩
  exact ⟨hpart, hall rfl⟩

end Ddup.Server
