/-
Ddup.Server.BacklogTheorems — the replication backlog of `server/repl.c` and the partial resync of
`server/server.c` that reads from it.

The ring keeps the newest bytes of the stream, since the start or since its size was last set. A replica
that has read the stream up to an offset is continued from there exactly if the ring has every byte behind
it, and then it is sent these bytes and no others.
-/
import Ddup.Basic
import Ddup.Lib.Ring

namespace Ddup.Server

open Ddup.Lib

/-- `repl_backlog` with its buffer allocated. -/
structure ReplBacklog where
  buf : Nat → UInt8
  cap : Nat
  start : Nat
  len : Nat
  offset : Nat

/-- `ring_advance`. -/
def ringAdvance (pos n cap : Nat) : Nat :=
  let tail := cap - pos
  if tail ≤ n then n - tail else pos + n

namespace ReplBacklog

/-- `repl_backlog_init`; `junk` is what the allocated memory holds. -/
def init (junk : Nat → UInt8) (cap offset : Nat) : ReplBacklog := ⟨junk, cap, 0, 0, offset⟩

/-- The oldest bytes make room for `n` new ones. -/
def makeRoom (b : ReplBacklog) (n : Nat) : ReplBacklog :=
  if b.cap - b.len < n then
    let drop := n - (b.cap - b.len)
    { b with start := ringAdvance b.start drop b.cap, len := b.len - drop }
  else b

/-- The two calls of `memcpy` in `repl_backlog_append`. -/
def write (b : ReplBacklog) (data : Bytes) : ReplBacklog :=
  let pos := ringAdvance b.start b.len b.cap
  let tail := min (b.cap - pos) data.length
  { b with
    buf := copyAt (copyAt b.buf pos (data.take tail)) 0 (data.drop tail)
    len := b.len + data.length }

/-- Bytes that fit. -/
def store (b : ReplBacklog) (data : Bytes) : ReplBacklog := (b.makeRoom data.length).write data

/-- `repl_backlog_append`: of more bytes than fit, the newest are kept. -/
def append (b : ReplBacklog) (data : Bytes) : ReplBacklog :=
  let b := { b with offset := min (b.offset + data.length) (2 ^ 64 - 1) }
  if data = [] then b
  else if b.cap ≤ data.length then
    { b with start := 0, len := 0 }.store (data.drop (data.length - b.cap))
  else b.store data

/-- `repl_backlog_read_from`. -/
def readFrom (b : ReplBacklog) (fromOffset max : Nat) : Bytes :=
  let base := b.offset - b.len
  let skip := fromOffset - base
  if b.len = 0 ∨ max = 0 ∨ b.offset ≤ fromOffset ∨ b.len ≤ skip then []
  else
    let n := min (b.len - skip) max
    let pos := ringAdvance b.start skip b.cap
    let tail := min (b.cap - pos) n
    (List.range tail).map (fun i => b.buf (pos + i)) ++ (List.range (n - tail)).map b.buf

/-- The loop of `srv_write_continue`; it fails if nothing is read. -/
def copyLoop (b : ReplBacklog) : Nat → Nat → Nat → Option Bytes
  | 0, _, _ => some []
  | fuel + 1, offset, left =>
    if left = 0 then some []
    else
      let got := b.readFrom offset left
      if got = [] then none
      else (copyLoop b fuel (offset + got.length) (left - got.length)).map (got ++ ·)

/-- `srv_write_continue`: what is sent behind the header. -/
def writeContinue (b : ReplBacklog) (offset : Nat) : Option Bytes :=
  if b.offset < offset then none else b.copyLoop (b.offset - offset) offset (b.offset - offset)

/-- The test of `srv_psync` for a partial resync, of a replica with the id of the master. -/
def continues (b : ReplBacklog) (offset : Int) : Bool :=
  decide (0 ≤ offset) && decide (b.offset - b.len ≤ offset.toNat) && decide (offset.toNat ≤ b.offset)

end ReplBacklog

/-- The calls that change the backlog; the second is `server_set_backlog_size`. -/
inductive BacklogCall
  | append (data : Bytes)
  | resize (junk : Nat → UInt8) (bytes : Nat)

def BacklogCall.apply (b : ReplBacklog) : BacklogCall → ReplBacklog
  | append data => b.append data
  | resize junk bytes => if bytes = 0 then b else .init junk bytes b.offset

/-- The stream, and how many bytes of it came since the ring was made. -/
def BacklogCall.feed (s : Bytes × Nat) : BacklogCall → Bytes × Nat
  | append data => (s.1 ++ data, s.2 + data.length)
  | resize _ bytes => if bytes = 0 then s else (s.1, 0)

/-- The ring has the end of the stream, as much of what came since it was made as it has room for. -/
structure ReplBacklog.Holds (b : ReplBacklog) (s : Bytes × Nat) : Prop where
  start_lt : b.start < b.cap
  offset_eq : b.offset = s.1.length
  since_le : s.2 ≤ s.1.length
  len_eq : b.len = min b.cap s.2
  bytes : ring b.buf b.cap b.start b.len = s.1.drop (s.1.length - b.len)

theorem ringAdvance_eq {pos n cap : Nat} (hpos : pos < cap) (hn : n ≤ cap) :
    ringAdvance pos n cap = (pos + n) % cap := by
  simp only [ringAdvance]
  split_ifs with h
  · rw [Nat.mod_eq_sub_mod (by omega), Nat.mod_eq_of_lt (by omega)]
    omega
  · rw [Nat.mod_eq_of_lt (by omega)]

namespace ReplBacklog

variable {b : ReplBacklog} {data : Bytes} {s : Bytes × Nat}

theorem makeRoom_ring (hstart : b.start < b.cap) (hlen : b.len ≤ b.cap) {n : Nat} (hn : n ≤ b.cap) :
    (b.makeRoom n).start < b.cap ∧ (b.makeRoom n).len = min b.len (b.cap - n) ∧
      ring b.buf b.cap (b.makeRoom n).start (b.makeRoom n).len
        = (ring b.buf b.cap b.start b.len).drop (b.len - (b.cap - n)) := by
  have hdrop : n - (b.cap - b.len) = b.len - (b.cap - n) := by omega
  simp only [makeRoom]
  split_ifs with h
  · simp only [hdrop, ringAdvance_eq hstart (by omega : b.len - (b.cap - n) ≤ b.cap), ring_mod, ring_drop]
    exact ⟨Nat.mod_lt _ (by omega), by omega, trivial⟩
  · refine ⟨hstart, by omega, ?_⟩
    rw [show b.len - (b.cap - n) = 0 by omega, List.drop_zero]

theorem write_ring (data : Bytes) (hstart : b.start < b.cap) (hroom : b.len + data.length ≤ b.cap) :
    ring (b.write data).buf b.cap b.start (b.len + data.length)
      = ring b.buf b.cap b.start b.len ++ data := by
  have hlt : (b.start + b.len) % b.cap < b.cap := Nat.mod_lt _ (by omega)
  simp only [write, ringAdvance_eq hstart (by omega : b.len ≤ b.cap)]
  generalize htail : min (b.cap - (b.start + b.len) % b.cap) data.length = tail
  have hlen : (data.take tail).length = tail := by
    rw [List.length_take]
    omega
  have hfirst := ring_copyAt b.buf b.cap b.start b.len (data.take tail) (by omega) (by omega)
  rw [hlen] at hfirst
  by_cases hall : tail = data.length
  · rw [← hall, List.drop_eq_nil_of_le hall.ge, copyAt_nil, hfirst, List.take_of_length_le hall.ge]
  -- the first block ends at the last cell
  have hzero : (b.start + (b.len + tail)) % b.cap = 0 := by
    rw [← Nat.add_assoc, ← Nat.mod_add_mod, show (b.start + b.len) % b.cap + tail = b.cap by omega,
      Nat.mod_self]
  have hrest : tail + (data.drop tail).length = data.length := by
    rw [List.length_drop]
    omega
  have hsecond := ring_copyAt (copyAt b.buf ((b.start + b.len) % b.cap) (data.take tail)) b.cap b.start
    (b.len + tail) (data.drop tail) (by omega) (by omega)
  rwa [hzero, hfirst, List.append_assoc, List.take_append_drop, Nat.add_assoc, hrest] at hsecond

/-- Bytes that fit are written behind what the ring has of a stream. -/
theorem store_holds {stream : Bytes} {since : Nat} (hstart : b.start < b.cap) (hlen : b.len ≤ b.cap)
    (hfit : data.length ≤ b.cap) (hle : b.len ≤ stream.length)
    (hbytes : ring b.buf b.cap b.start b.len = stream.drop (stream.length - b.len))
    (hoffset : b.offset = (stream ++ data).length) (hsince : since ≤ (stream ++ data).length)
    (hmin : min b.cap since = min b.cap (b.len + data.length)) :
    (b.store data).Holds (stream ++ data, since) := by
  obtain ⟨hstart', hlen', hring⟩ := makeRoom_ring hstart hlen hfit
  have hkeep : (b.makeRoom data.length).cap = b.cap ∧ (b.makeRoom data.length).buf = b.buf ∧
      (b.makeRoom data.length).offset = b.offset := by
    simp only [makeRoom]
    split_ifs <;> exact ⟨rfl, rfl, rfl⟩
  obtain ⟨hcap, hbuf, hoff⟩ := hkeep
  have hwrite := write_ring (b := b.makeRoom data.length) data (by omega) (by omega)
  rw [hcap, hbuf, hring, hbytes, List.drop_drop] at hwrite
  refine ⟨?_, ?_, hsince, ?_, ?_⟩ <;> simp only [store, write, hcap, hoff]
  · exact hstart'
  · exact hoffset
  · omega
  · simp only [write, hcap] at hwrite
    rw [hwrite, List.length_append, List.drop_append_of_le_length (by omega)]
    congr 2
    omega

theorem append_holds (h : b.Holds s) (hmax : s.1.length + data.length < 2 ^ 64) :
    (b.append data).Holds (s.1 ++ data, s.2 + data.length) := by
  obtain ⟨hstart, hoffset, hsince, hlen, hbytes⟩ := h
  have hoff : min (b.offset + data.length) (2 ^ 64 - 1) = (s.1 ++ data).length := by
    rw [List.length_append]
    omega
  have hsince' : s.2 + data.length ≤ (s.1 ++ data).length := by
    rw [List.length_append]
    omega
  simp only [append, hoff]
  split_ifs with hnil hbig
  · subst hnil
    simpa using ⟨hstart, rfl, hsince, hlen, hbytes⟩
  · -- what the ring had is overwritten: the stream up to the newest `cap` bytes counts as passed
    have hcut : s.1 ++ data.take (data.length - b.cap) ++ data.drop (data.length - b.cap) = s.1 ++ data := by
      rw [List.append_assoc, List.take_append_drop]
    have hdrop : (data.drop (data.length - b.cap)).length = b.cap := by
      rw [List.length_drop]
      omega
    rw [← hcut] at hsince' ⊢
    refine store_holds (Nat.zero_lt_of_lt hstart) (Nat.zero_le _) hdrop.le (Nat.zero_le _) ?_ rfl hsince' ?_
    · simp [ring]
    · simp only [hdrop]
      omega
  · have hlen' : b.len ≤ b.cap ∧ b.len ≤ s.1.length := by omega
    refine store_holds hstart hlen'.1 (Nat.le_of_not_le hbig) hlen'.2 hbytes rfl hsince' ?_
    simp only
    omega

theorem readFrom_eq (h : b.Holds s) {fromOffset max : Nat} (hlo : b.offset - b.len ≤ fromOffset)
    (hhi : fromOffset < b.offset) (hmax : 0 < max) :
    b.readFrom fromOffset max = (s.1.drop fromOffset).take max := by
  obtain ⟨hstart, hoffset, hsince, hlen, hbytes⟩ := h
  have hskip : fromOffset - (b.offset - b.len) < b.len := by omega
  have hpos := ringAdvance_eq hstart (by omega : fromOffset - (b.offset - b.len) ≤ b.cap)
  simp only [readFrom]
  rw [if_neg (by omega), hpos, ring_blocks (Nat.mod_lt _ (by omega)) (by omega), ring_mod,
    ← ring_take (Nat.min_le_left _ _), ← ring_drop, hbytes, List.drop_drop,
    show s.1.length - b.len + (fromOffset - (b.offset - b.len)) = fromOffset by omega, ← List.take_take,
    List.take_of_length_le (by rw [List.length_take, List.length_drop]; omega)]

theorem writeContinue_eq (h : b.Holds s) {offset : Nat} (hlo : b.offset - b.len ≤ offset)
    (hhi : offset ≤ b.offset) : b.writeContinue offset = some (s.1.drop offset) := by
  have hoffset := h.offset_eq
  rw [writeContinue, if_neg (by omega)]
  cases hleft : b.offset - offset with
  | zero => rw [copyLoop, List.drop_eq_nil_of_le (by omega)]
  | succ left =>
    have hgot : b.readFrom offset (left + 1) = s.1.drop offset := by
      rw [readFrom_eq h hlo (by omega) (by omega), List.take_of_length_le (by rw [List.length_drop]; omega)]
    have hlen : (s.1.drop offset).length = left + 1 := by
      rw [List.length_drop]
      omega
    have hdone : ∀ fuel o, b.copyLoop fuel o 0 = some [] := fun fuel o => by cases fuel <;> rfl
    simp only [copyLoop, hgot, hlen, Nat.sub_self, hdone]
    simp [List.ne_nil_of_length_eq_add_one hlen]

end ReplBacklog

theorem BacklogCall.apply_holds {b : ReplBacklog} {s : Bytes × Nat} (h : b.Holds s) :
    ∀ c : BacklogCall, (c.feed s).1.length < 2 ^ 64 → (c.apply b).Holds (c.feed s)
  | append data, hmax => by
    simp only [feed, List.length_append] at hmax
    exact ReplBacklog.append_holds h hmax
  | resize junk bytes, _ => by
    simp only [apply, feed]
    split_ifs with hzero
    · exact h
    · refine ⟨Nat.pos_of_ne_zero hzero, h.offset_eq, Nat.zero_le _, (Nat.min_zero _).symm, ?_⟩
      simp [ReplBacklog.init, ring]

/-- After any appends and changes of size, a replica is continued from an offset exactly if the ring, of
the bytes that came since it was made, still has those behind the offset; and it is sent just these. -/
theorem partial_resync_exact (junk : Nat → UInt8) {cap : Nat} (hcap : 0 < cap) (calls : List BacklogCall)
    (hmax : (calls.foldl BacklogCall.feed ([], 0)).1.length < 2 ^ 64) (offset : Int) :
    let b := calls.foldl BacklogCall.apply (.init junk cap 0)
    let s := calls.foldl BacklogCall.feed ([], 0)
    (b.continues offset = true ↔
      0 ≤ offset ∧ s.1.length - min b.cap s.2 ≤ offset.toNat ∧ offset.toNat ≤ s.1.length) ∧
    (b.continues offset = true → b.writeContinue offset.toNat = some (s.1.drop offset.toNat)) := by
  have hholds : (calls.foldl BacklogCall.apply (.init junk cap 0)).Holds
      (calls.foldl BacklogCall.feed ([], 0)) := by
    induction calls using List.reverseRecOn with
    | nil =>
      refine ⟨hcap, rfl, Nat.le_refl _, ?_, ?_⟩ <;> simp [ReplBacklog.init, ring]
    | append_singleton calls c ih =>
      rw [List.foldl_append, List.foldl_append] at *
      refine c.apply_holds (ih (Nat.lt_of_le_of_lt ?_ hmax)) hmax
      simp only [List.foldl_cons, List.foldl_nil]
      cases c with
      | append data => simp [BacklogCall.feed]
      | resize junk bytes =>
        simp only [BacklogCall.feed]
        split_ifs <;> exact Nat.le_refl _
  intro b s
  have hcont : b.continues offset = true ↔
      0 ≤ offset ∧ b.offset - b.len ≤ offset.toNat ∧ offset.toNat ≤ b.offset := by
    simp [ReplBacklog.continues, and_assoc]
  refine ⟨?_, fun h => ?_⟩
  · rw [hcont, hholds.offset_eq, hholds.len_eq]
  · obtain ⟨-, hlo, hhi⟩ := hcont.mp h
    exact ReplBacklog.writeContinue_eq hholds hlo hhi

/-- The first appended bytes do not fit the ring, and the next ones wrap around. -/
theorem partial_resync_wrapped :
    let b := [BacklogCall.append [1, 2, 3, 4, 5, 6], .append [7, 8, 9]].foldl BacklogCall.apply
      (.init (fun _ => 0) 4 0)
    b.continues 5 = true ∧ b.writeContinue 5 = some [6, 7, 8, 9] := by
  have h := partial_resync_exact (fun _ => 0) (by decide : 0 < 4)
    [.append [1, 2, 3, 4, 5, 6], .append [7, 8, 9]] (by decide) 5
  have hcontinues := h.1.mpr (by decide)
  exact ⟨hcontinues, h.2 hcontinues⟩

end Ddup.Server
