/-
Ddup.Server.WorkerQueueTheorems — the queues between the workers of `server/mt_server.c`.

A ring of `server/mt_spsc.h` has one producer and one consumer, which run side by side: a step is one
access to what they share, and the steps come in any order. The index of the other side may be out of
date when it is used, but then only on the safe side. A worker sleeps until a byte is sent to it; a latch
keeps a producer from sending where another one already has.
-/
import Ddup.Lib.Ring

namespace Ddup.Server

open Ddup.Lib
open Function (update)

variable {α P R : Type}

/-! ## The ring -/

/-- Where a producer is: it has read `head`, or written the slot. -/
inductive Pushing (α : Type)
  | idle
  | loaded (x : α) (head : Nat)
  | written (x : α)

/-- Where a consumer is: it has read `tail`, or the slot. -/
inductive Popping (α : Type)
  | idle
  | loaded (tail : Nat)
  | taken (x : α)

/-- `mt_spsc` and its two threads. No step looks at `pushed` and `popped`. -/
structure Spsc (α : Type) where
  buf : Nat → α
  mask : Nat
  head : Nat
  tail : Nat
  pushing : Pushing α
  popping : Popping α
  pushed : List α
  popped : List α

inductive SpscStep (α : Type)
  | push (x : α)
  | pushOn
  | pop
  | popOn

namespace Spsc

/-- `mt_spsc_init`: the capacity is a power of two. -/
def init (junk : Nat → α) (bits : Nat) : Spsc α := ⟨junk, 2 ^ bits - 1, 0, 0, .idle, .idle, [], []⟩

def next (q : Spsc α) (i : Nat) : Nat := (i + 1) &&& q.mask

/-- A step of `mt_spsc_push` or `mt_spsc_pop`. -/
def step (q : Spsc α) : SpscStep α → Spsc α
  | .push x =>
    match q.pushing with
    | .idle => { q with pushing := .loaded x q.head }
    | _ => q
  | .pushOn =>
    match q.pushing with
    | .idle => q
    | .loaded x head =>
      if q.next q.tail = head then { q with pushing := .idle }
      else { q with buf := copyAt q.buf q.tail [x], pushing := .written x }
    | .written x =>
      { q with tail := q.next q.tail, pushing := .idle, pushed := q.pushed ++ [x] }
  | .pop =>
    match q.popping with
    | .idle => { q with popping := .loaded q.tail }
    | _ => q
  | .popOn =>
    match q.popping with
    | .idle => q
    | .loaded tail =>
      if q.head = tail then { q with popping := .idle } else { q with popping := .taken (q.buf q.head) }
    | .taken x => { q with head := q.next q.head, popping := .idle, popped := q.popped ++ [x] }

/-- All that was pushed, with an element that is written but not yet published. -/
def all (q : Spsc α) : List α :=
  q.pushed ++ match q.pushing with
    | .written x => [x]
    | _ => []

/-- The slots from `head` on hold what is to be popped. An index that was read is that of some earlier
moment, so there is at least as much room, or as many elements, as its reader takes for granted. -/
structure Sound (cap : Nat) (q : Spsc α) : Prop where
  next_eq : ∀ i, q.next i = (i + 1) % cap
  head_eq : q.head = q.popped.length % cap
  tail_eq : q.tail = q.pushed.length % cap
  fifo : q.popped <+: q.pushed
  room : q.all.length < q.popped.length + cap
  stored : ring q.buf cap q.popped.length (q.all.length - q.popped.length) = q.all.drop q.popped.length
  pushing : ∀ x head, q.pushing = .loaded x head →
    ∃ n ≤ q.popped.length, head = n % cap ∧ q.pushed.length < n + cap
  popping : ∀ tail, q.popping = .loaded tail →
    ∃ n ≤ q.pushed.length, q.popped.length ≤ n ∧ tail = n % cap
  taken : ∀ x, q.popping = .taken x → q.pushed[q.popped.length]? = some x

variable {q : Spsc α} {cap : Nat}

theorem Sound.pushOn (h : q.Sound cap) : (q.step .pushOn).Sound cap := by
  have hle := h.fifo.length_le
  have hroom := h.room
  have hstored := h.stored
  cases hp : q.pushing with
  | idle => simpa only [step, hp] using h
  | loaded x head =>
    have hall : q.all = q.pushed := by simp [all, hp]
    rw [hall] at hroom hstored
    simp only [step, hp]
    split_ifs with hfull
    · exact { h with room := by simpa [all], stored := by simpa [all], pushing := by simp }
    · obtain ⟨n, hn, rfl, hlt⟩ := h.pushing x head hp
      have hne : q.pushed.length + 1 ≠ n + cap := by
        intro heq
        rw [h.next_eq, h.tail_eq, Nat.mod_add_mod, heq, Nat.add_mod_right] at hfull
        exact hfull rfl
      have hcopy := ring_copyAt q.buf cap q.popped.length (q.pushed.length - q.popped.length) [x]
        (by simp; omega) (Nat.mod_lt _ (by omega))
      rw [Nat.add_sub_cancel' hle, ← h.tail_eq, hstored, ← List.drop_append_of_le_length hle] at hcopy
      refine { h with room := ?_, stored := ?_, pushing := by simp }
      · simp only [all, List.length_append, List.length_singleton]
        omega
      · simp only [all, List.length_append, List.length_singleton] at hcopy ⊢
        rwa [Nat.sub_add_comm hle]
  | written x =>
    have hall : q.all = q.pushed ++ [x] := by simp [all, hp]
    rw [hall] at hroom hstored
    simp only [step, hp]
    have hfifo := h.fifo.trans (List.prefix_append q.pushed [x])
    refine ⟨h.next_eq, h.head_eq, ?_, hfifo, ?_, ?_, by simp, ?_, ?_⟩
    · rw [h.next_eq, h.tail_eq, Nat.mod_add_mod, List.length_append, List.length_singleton]
    · simpa [all] using hroom
    · simpa [all] using hstored
    · intro tail heq
      obtain ⟨n, hn, hle, rfl⟩ := h.popping tail heq
      exact ⟨n, by simp; omega, hle, rfl⟩
    · intro y heq
      have hy := h.taken y heq
      rwa [List.getElem?_append_left (List.getElem?_eq_some_iff.mp hy).1]

theorem Sound.popOn (h : q.Sound cap) : (q.step .popOn).Sound cap := by
  have hroom := h.room
  have hstored := h.stored
  cases hp : q.popping with
  | idle => simpa only [step, hp] using h
  | loaded tail =>
    simp only [step, hp]
    split_ifs with hempty
    · exact { h with popping := by simp, taken := by simp }
    · refine { h with popping := by simp, taken := ?_ }
      rintro x ⟨⟩
      obtain ⟨n, hn, hle, rfl⟩ := h.popping tail hp
      have hlt : q.popped.length < q.pushed.length := by
        have hne : q.popped.length ≠ n := fun heq => hempty (by rw [h.head_eq, heq])
        omega
      have hlen : q.pushed.length ≤ q.all.length := by simp [all]
      have hget : q.all[q.popped.length]? = q.pushed[q.popped.length]? := List.getElem?_append_left hlt
      have hfirst := congrArg (·[0]?) hstored
      simp only [List.getElem?_drop, Nat.add_zero, hget] at hfirst
      rw [← hfirst, h.head_eq, ring, List.getElem?_map, List.getElem?_range (by omega)]
      rfl
  | taken x =>
    have hx := h.taken x hp
    have hrest := congrArg (List.drop 1) hstored
    rw [ring_drop, List.drop_drop, Nat.sub_sub] at hrest
    simp only [step, hp]
    refine ⟨h.next_eq, ?_, h.tail_eq, ?_, ?_, ?_, ?_, by simp, by simp⟩
    · rw [h.next_eq, h.head_eq, Nat.mod_add_mod, List.length_append, List.length_singleton]
    · have hpopped := List.prefix_iff_eq_take.mp h.fifo
      rw [hpopped, ← Option.toList_some x, ← hx, ← List.take_add_one]
      exact List.take_prefix _ _
    · simp only [List.length_append, List.length_singleton]
      exact Nat.lt_of_lt_of_le hroom (by omega)
    · simp only [List.length_append, List.length_singleton]
      exact hrest
    · intro y head heq
      obtain ⟨n, hn, hrest⟩ := h.pushing y head heq
      exact ⟨n, by simp; omega, hrest⟩

theorem Sound.step (h : q.Sound cap) : ∀ s, (q.step s).Sound cap
  | .pushOn => h.pushOn
  | .popOn => h.popOn
  | .push x => by
    cases hp : q.pushing with
    | idle =>
      have hall : q.all = q.pushed := by simp [all, hp]
      have hroom := h.room
      have hstored := h.stored
      rw [hall] at hroom hstored
      simp only [Spsc.step, hp]
      refine { h with room := by simpa [all], stored := by simpa [all], pushing := ?_ }
      rintro y head ⟨⟩
      exact ⟨_, Nat.le_refl _, h.head_eq, hroom⟩
    | _ => simpa only [Spsc.step, hp] using h
  | .pop => by
    cases hp : q.popping with
    | idle =>
      simp only [Spsc.step, hp]
      refine { h with popping := ?_, taken := by simp }
      rintro tail ⟨⟩
      exact ⟨_, Nat.le_refl _, h.fifo.length_le, h.tail_eq⟩
    | _ => simpa only [Spsc.step, hp] using h

end Spsc

/-- However the steps of the two threads interleave: what is popped is what was pushed, in order, and the
slots from `head` on hold the rest of it. -/
theorem spsc_fifo (junk : Nat → α) (bits : Nat) (steps : List (SpscStep α)) :
    let q := steps.foldl Spsc.step (.init junk bits)
    q.popped ++ ring q.buf (2 ^ bits) q.head (q.pushed.length - q.popped.length) = q.pushed ∧
      q.pushed.length < q.popped.length + 2 ^ bits := by
  intro q
  have hsound : q.Sound (2 ^ bits) := by
    refine List.foldlRecOn (motive := Spsc.Sound (2 ^ bits)) steps _ ?_ fun q h s _ => h.step s
    have hroom : 0 < 2 ^ bits := Nat.two_pow_pos bits
    refine ⟨fun i => Nat.and_two_pow_sub_one_eq_mod _ _, ?_, ?_, List.nil_prefix, ?_, ?_, ?_, ?_, ?_⟩
    all_goals simp [Spsc.init, Spsc.all, ring, hroom]
  have hle := hsound.fifo.length_le
  have hlen : q.pushed.length ≤ q.all.length := by simp [Spsc.all]
  have hheld := congrArg (List.take (q.pushed.length - q.popped.length)) hsound.stored
  rw [ring_take (Nat.sub_le_sub_right hlen _), List.take_drop, Nat.add_sub_cancel' hle, Spsc.all,
    List.take_left, ← ring_mod, ← hsound.head_eq] at hheld
  obtain ⟨rest, hrest⟩ := hsound.fifo
  refine ⟨?_, Nat.lt_of_le_of_lt hlen hsound.room⟩
  rw [hheld, ← hrest, List.drop_left]

/-! ## Wakeups -/

/-- Where a producer is: its element is in the ring, or it has taken the latch. -/
inductive Kicking
  | idle
  | pushed
  | latched
deriving DecidableEq

/-- Where a worker is in `worker_on_wakeup`. -/
inductive Waking (R : Type)
  | asleep
  | draining
  | drained
  | scanning
  | checking (left : List R)
  | kicking
  | latched

/-- The queues of one worker (what its rings hold), its producers, `kick_pending` and the bytes in its wakeup pipe. -/
structure Inbox (P R α : Type) where
  queues : R → List α
  producers : P → Kicking
  worker : Waking R
  kickPending : Bool
  bytes : Nat

inductive InboxStep (P R α : Type)
  | push (p : P) (r : R) (x : α)
  | kick (p : P)
  | pop (r : R)
  | worker (n : Nat)

namespace Inbox

/-- The exchange of `mt_kick` and the byte it sends: where the latch was taken, nothing is sent. -/
def producerStep [DecidableEq P] (w : Inbox P R α) (p : P) : Inbox P R α :=
  match w.producers p with
  | .idle => w
  | .pushed =>
    { w with
      producers := update w.producers p (if w.kickPending then .idle else .latched)
      kickPending := true }
  | .latched => { w with producers := update w.producers p .idle, bytes := w.bytes + 1 }

/-- The next step of `worker_on_wakeup`: a receive takes `n` bytes; after the drains, which may leave
elements behind, it looks at each queue and kicks itself for the first one that is not empty. -/
def workerStep (rings : List R) (w : Inbox P R α) (n : Nat) : Inbox P R α :=
  match w.worker with
  | .asleep => { w with worker := .draining }
  | .draining =>
    if w.bytes = 0 then { w with worker := .drained } else { w with bytes := w.bytes - n }
  | .drained => { w with worker := .scanning, kickPending := false }
  | .scanning => { w with worker := .checking rings }
  | .checking [] => { w with worker := .asleep }
  | .checking (r :: left) =>
    { w with worker := if (w.queues r).isEmpty then .checking left else .kicking }
  | .kicking => { w with worker := if w.kickPending then .asleep else .latched, kickPending := true }
  | .latched => { w with worker := .asleep, bytes := w.bytes + 1 }

/-- One step. A worker may also pop while it waits to push to another one. -/
def step [DecidableEq P] [DecidableEq R] (rings : List R) (w : Inbox P R α) :
    InboxStep P R α → Inbox P R α
  | .push p r x =>
    match w.producers p with
    | .idle =>
      { w with
        queues := update w.queues r (w.queues r ++ [x])
        producers := update w.producers p .pushed }
    | _ => w
  | .kick p => w.producerStep p
  | .pop r => { w with queues := update w.queues r (w.queues r).tail }
  | .worker n => w.workerStep rings n

/-- The worker is still going to look at a queue, or to wake itself. -/
def attends (r : R) : Waking R → Prop
  | .asleep => False
  | .checking left => r ∈ left
  | _ => True

/-- The worker is between a wakeup and its reset of the latch, or about to wake itself. -/
def holdsLatch : Waking R → Prop
  | .draining | .drained | .latched => True
  | _ => False

/-- A wakeup is on its way, or the worker has yet to look. -/
def Attended (w : Inbox P R α) (r : R) : Prop :=
  0 < w.bytes ∨ (∃ p, w.producers p ≠ .idle) ∨ attends r w.worker

/-- Whoever took the latch has sent a byte or will, unless a scan follows in any case. -/
def Latched (w : Inbox P R α) : Prop :=
  0 < w.bytes ∨ (∃ p, w.producers p = .latched) ∨ holdsLatch w.worker

structure Sound (rings : List R) (w : Inbox P R α) : Prop where
  latch : w.kickPending = true → w.Latched
  queue : ∀ r ∈ rings, w.queues r ≠ [] → w.Attended r

variable {rings : List R} {w : Inbox P R α}

theorem Latched.sound (h : w.Latched) : w.Sound rings := by
  refine ⟨fun _ => h, fun r _ _ => ?_⟩
  rcases h with hb | ⟨p, hp⟩ | hw
  · exact .inl hb
  · exact .inr (.inl ⟨p, by rw [hp]; decide⟩)
  · refine .inr (.inr ?_)
    cases hworker : w.worker <;> simp [hworker, holdsLatch, attends] at hw ⊢

/-- What one producer does leaves the latch to whoever has it. -/
theorem Latched.update [DecidableEq P] (h : w.Latched) {p : P} (hp : w.producers p ≠ .latched)
    (k : Kicking) : { w with producers := update w.producers p k }.Latched := by
  rcases h with hb | ⟨p', hp'⟩ | hw
  · exact .inl hb
  · have hne : p' ≠ p := fun heq => hp (heq ▸ hp')
    exact .inr (.inl ⟨p', by simp [hne, hp']⟩)
  · exact .inr (.inr hw)

theorem Sound.producerStep [DecidableEq P] (h : w.Sound rings) (p : P) :
    (w.producerStep p).Sound rings := by
  cases hp : w.producers p with
  | idle => simpa only [Inbox.producerStep, hp] using h
  | latched =>
    simp only [Inbox.producerStep, hp]
    exact Latched.sound (.inl (Nat.succ_pos _))
  | pushed =>
    simp only [Inbox.producerStep, hp]
    by_cases hk : w.kickPending = true
    · exact Latched.sound ((h.latch hk).update (by simp [hp]) _)
    · exact Latched.sound (.inr (.inl ⟨p, by simp [hk]⟩))

/-- A latch that is not the worker's own stays with its holder. -/
theorem Sound.keeps (h : w.Sound rings) (hworker : ¬ holdsLatch w.worker) (v : Waking R)
    (hk : w.kickPending = true) : { w with worker := v }.Latched :=
  (h.latch hk).imp_right (Or.imp_right fun hw => absurd hw hworker)

theorem Sound.workerStep (h : w.Sound rings) (n : Nat) : (w.workerStep rings n).Sound rings := by
  cases hw : w.worker with
  | asleep =>
    simp only [Inbox.workerStep, hw]
    exact Latched.sound (.inr (.inr trivial))
  | draining =>
    simp only [Inbox.workerStep, hw]
    split_ifs <;> exact Latched.sound (.inr (.inr trivial))
  | drained =>
    simp only [Inbox.workerStep, hw]
    exact ⟨by simp, fun _ _ _ => .inr (.inr trivial)⟩
  | scanning =>
    simp only [Inbox.workerStep, hw]
    exact ⟨h.keeps (by simp [hw, holdsLatch]) _, fun r hr _ => .inr (.inr hr)⟩
  | checking left =>
    have hkeeps := h.keeps (by simp [hw, holdsLatch])
    have hqueue := h.queue
    simp only [Attended, attends, hw] at hqueue
    cases left with
    | nil =>
      simp only [Inbox.workerStep, hw]
      exact ⟨hkeeps _, fun r hr hne => (hqueue r hr hne).imp_right (Or.imp_right (by simp))⟩
    | cons r left =>
      simp only [Inbox.workerStep, hw]
      refine ⟨hkeeps _, fun r' hr' hne => ?_⟩
      split_ifs with hempty
      · have hother : r' ≠ r := fun heq => hne (by rw [heq]; exact List.isEmpty_iff.mp hempty)
        exact (hqueue r' hr' hne).imp_right (Or.imp_right (List.mem_of_ne_of_mem hother))
      · exact .inr (.inr trivial)
  | kicking =>
    simp only [Inbox.workerStep, hw]
    by_cases hk : w.kickPending = true
    · exact Latched.sound (h.keeps (by simp [hw, holdsLatch]) _ hk)
    · exact Latched.sound (.inr (.inr (by simp [hk, holdsLatch])))
  | latched =>
    simp only [Inbox.workerStep, hw]
    exact Latched.sound (.inl (Nat.succ_pos _))

theorem Sound.step [DecidableEq P] [DecidableEq R] (h : w.Sound rings) :
    ∀ s, (w.step rings s).Sound rings
  | .kick p => h.producerStep p
  | .worker n => h.workerStep n
  | .pop r => by
    refine ⟨h.latch, fun r' hr' hne => h.queue r' hr' fun hnil => hne ?_⟩
    by_cases heq : r' = r
    · subst heq
      simp [Inbox.step, hnil]
    · simpa [Inbox.step, heq] using hnil
  | .push p r x => by
    cases hp : w.producers p with
    | idle =>
      simp only [Inbox.step, hp]
      exact ⟨fun hk => (h.latch hk).update (by simp [hp]) _, fun _ _ _ => .inr (.inl ⟨p, by simp⟩)⟩
    | _ => simpa only [Inbox.step, hp] using h

end Inbox

/-- No wakeup is lost: however any number of producers and the worker interleave, whenever one of the
worker's queues has something in it, a byte waits in the pipe, or a producer is between its push and the
end of its kick, or the worker has yet to look at that queue or to wake itself. -/
theorem wakeup_not_lost [DecidableEq P] [DecidableEq R] (rings : List R) (steps : List (InboxStep P R α)) :
    let w := steps.foldl (Inbox.step rings) ⟨fun _ => [], fun _ => .idle, .asleep, false, 0⟩
    ∀ r ∈ rings, w.queues r ≠ [] → w.Attended r := by
  refine (List.foldlRecOn (motive := Inbox.Sound rings) steps _ ?_ fun w h s _ => h.step s).queue
  exact ⟨by simp, fun _ _ hne => absurd rfl hne⟩

/-- The second producer finds the latch taken and sends nothing. -/
theorem wakeup_not_lost_latched :
    let w := [InboxStep.push 0 0 7, .kick 0, .push 1 1 8, .kick 1].foldl (Inbox.step [0, 1])
      (⟨fun _ => [], fun _ => .idle, .asleep, false, 0⟩ : Inbox Nat Nat Nat)
    w.queues 1 = [8] ∧ w.Attended 1 :=
  ⟨by decide, wakeup_not_lost [0, 1] _ 1 (by decide) (by decide)⟩

end Ddup.Server
