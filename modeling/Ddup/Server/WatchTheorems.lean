/-
Ddup.Server.WatchTheorems — what WATCH keeps and what it detects.

Two facts about whole runs of the event loop. The watch count of a database is
the number of watch entries held on its index as long as SWAPDB exchanges
databases of equal count. And a transaction that runs finds every watched key as
it was, as long as nothing rewrites a watched key behind the version counters and
no SWAPDB carries a count or an epoch away from the watches it stands for.

Both are invariants of moves; `WatchInvariant` carries such an invariant through
every action of the loop.
-/
import Ddup.Server.MoveTheorems

namespace Ddup.Server

open Ddup.Resp Ddup.Command Ddup.Store Relation

variable {sid : Nat} {now t : Nat} {e e' : Exec} {ws : Multiset Watch}
variable {H : Host} {a b i : Nat} {argv : List RespValue} {conns : List (Option Session)}
  {d d' : Db} {dbs : Nat → Db} {k : Bytes} {s : Session} {st : State} {w : Watch}

/-! ## The watches of a connection table -/

theorem heldWatches_append_fresh (conns : List (Option Session)) (s : Session)
    (h : s.watches = []) : heldWatches (conns ++ [some s]) = heldWatches conns := by
  simp [heldWatches, Lib.bag, h]

/-- Taking a session out of the table leaves the watches as they are. -/
theorem focus_watches (h : Lib.slotAt st.conns sid = some s) (origin : Origin) :
    (st.focus sid s origin).watches = heldWatches st.conns := by
  simp only [Exec.watches, State.focus, heldWatches]
  rw [Lib.bag_eq_cons h, Multiset.sum_cons]

theorem heldWatches_put (h : sid < conns.length) (s : Session)
    : heldWatches ((conns.set sid none).set sid (some s))
      = s.watches + heldWatches (conns.set sid none) := by
  have hlen : sid < (conns.set sid none).length := by simpa using h
  have hset := Lib.bag_set (fun s : Session => (s.watches : Multiset Watch)) (some s) _ _ hlen
  rw [Lib.slotAt_set_self h, Lib.optBag_none, add_zero, Lib.optBag_some] at hset
  simp only [heldWatches]
  rw [hset, Multiset.sum_add, Multiset.sum_singleton, add_comm]

theorem heldWatches_drop (h : ∀ s, Lib.slotAt conns sid = some s → s.watches = []) :
    heldWatches (conns.set sid none) = heldWatches conns := by
  unfold heldWatches
  cases hs : Lib.slotAt conns sid with
  | some s => rw [Lib.bag_eq_cons hs, Multiset.sum_cons, h s hs, Multiset.coe_nil, zero_add]
  | none =>
    by_cases hlt : sid < conns.length
    · have hset := Lib.bag_set (fun s : Session => (s.watches : Multiset Watch)) none _ _ hlt
      rw [hs, add_left_inj] at hset
      rw [hset]
    · rw [List.set_eq_of_length_le (Nat.le_of_not_lt hlt)]

@[simp] theorem withSession_clock (st : State) (sid : Nat) (origin : Origin)
    (act : Exec → Exec) : (st.withSession sid origin act).clock = st.clock := by
  unfold State.withSession
  split <;> rfl

@[simp] theorem processBlocked_clock (H : Host) (t : Nat) :
    ∀ (n : Nat) (st : State), (st.processBlocked H t n).clock = st.clock
  | 0, _ => rfl
  | n + 1, st => (withSession_clock _ _ _ _).trans (processBlocked_clock H t n st)

/-- A session that has dropped its watches holds none when it is back. -/
theorem withSession_watchClear {origin : Origin}
    (h : Lib.slotAt (st.withSession sid origin Exec.watchClear).conns sid = some s) :
    s.watches = [] := by
  unfold State.withSession at h
  cases hs : Lib.slotAt st.conns sid with
  | none =>
    rw [hs] at h
    cases hs.symm.trans h
  | some s₀ =>
    rw [hs] at h
    have hlen : sid < (st.conns.set sid none).length := by simpa using Lib.lt_of_slotAt hs
    have hback := (Lib.slotAt_set_self hlen _).symm.trans h
    cases hback
    rfl

/-! ## Invariants of moves -/

theorem Move.others (h : Move now e e') : e'.others = e.others := by
  cases h with
  | key i k d _ | flush i => rfl
  | swap a b =>
    simp only [Exec.swapDbs]
    split <;> rfl
  | watch k | unwatch => rfl
  | unseen _ hun => exact hun.others

theorem Moves.others (h : Moves now e e') : e'.others = e.others := by
  induction h with
  | refl => rfl
  | tail _ hmove ih => exact hmove.others.trans ih

/-- A property of the shared state, the watches held and the clock that survives
time, every move, and the collection of expired keys. -/
structure WatchInvariant (J : Nat → Core → Multiset Watch → Prop) : Prop where
  later : ∀ {t t' c ws}, t ≤ t' → J t c ws → J t' c ws
  move : ∀ {t e e'}, Move t e e' → J t e.toCore e.watches → J t e'.toCore e'.watches
  expire : ∀ {t c ws} (i : Nat) (k : Bytes), J t c ws →
    J t { c with dbs := Function.update c.dbs i (dbExpireIfNeeded (c.dbs i) k t) } ws

namespace WatchInvariant

variable {J : Nat → Core → Multiset Watch → Prop} (hJ : WatchInvariant J)

include hJ

theorem moves (h : Moves t e e') (he : J t e.toCore e.watches) : J t e'.toCore e'.watches := by
  induction h with
  | refl => exact he
  | tail _ hmove ih => exact hJ.move hmove ih

theorem withSession {act : Exec → Exec} (hact : ∀ e, Moves t e (act e)) (st : State)
    (sid : Nat) (origin : Origin) (h : J t st.toCore (heldWatches st.conns)) :
    J t (st.withSession sid origin act).toCore
      (heldWatches (st.withSession sid origin act).conns) := by
  unfold State.withSession
  cases hs : Lib.slotAt st.conns sid with
  | none => exact h
  | some s =>
    have hmoves := hact (st.focus sid s origin)
    have hafter := hJ.moves hmoves (by rw [focus_watches hs]; exact h)
    dsimp only
    rw [hmoves.others]
    have hput := heldWatches_put (Lib.lt_of_slotAt hs) (act (st.focus sid s origin)).s
    rw [Exec.watches, hmoves.others] at hafter
    exact hput ▸ hafter

theorem processBlocked (H : Host) (t : Nat) :
    ∀ (n : Nat) (st : State), J t st.toCore (heldWatches st.conns) →
      J t (st.processBlocked H t n).toCore (heldWatches (st.processBlocked H t n).conns)
  | 0, _, h => h
  | n + 1, st, h =>
    hJ.withSession (commandBlockedTry_moves H t) _ n .retry (processBlocked H t n st h)

theorem expireSampled (i : Nat) :
    ∀ keys c, J t c ws →
      J t { c with dbs := Ddup.Server.expireSampled t c.dbs i keys } ws
  | [], c, h => by simpa [Ddup.Server.expireSampled] using h
  | k :: keys, c, h => by
    have hrest := expireSampled i keys _ (hJ.expire i k h)
    simpa [Ddup.Server.expireSampled] using hrest

theorem step (H : Host) (st : State) (dt : Nat) (a : Action)
    (h : J st.clock st.toCore (heldWatches st.conns)) :
    J (step H st dt a).clock (step H st dt a).toCore (heldWatches (step H st dt a).conns) := by
  have hlater := hJ.later (Nat.le_add_right st.clock dt) h
  cases a with
  | accept user authed =>
    simp only [Ddup.Server.step]
    rw [heldWatches_append_fresh _ _ rfl]
    exact hlater
  | request sid argv raw =>
    have hreq := hJ.withSession (requestStep_moves H (st.clock + dt) argv raw)
      { st with clock := st.clock + dt } sid .top hlater
    simpa only [Ddup.Server.step, withSession_clock] using hreq
  | close sid =>
    have hclear := hJ.withSession (fun e => .single (.unwatch e))
      { st with clock := st.clock + dt } sid .top hlater
    simp only [Ddup.Server.step, withSession_clock]
    rw [heldWatches_drop fun s hs => withSession_watchClear hs]
    exact hclear
  | retryBlocked =>
    have hretry := hJ.processBlocked H (st.clock + dt) st.conns.length
      { st with clock := st.clock + dt } hlater
    simpa only [Ddup.Server.step, processBlocked_clock] using hretry
  | activeExpire i keys => exact hJ.expireSampled i keys _ hlater

theorem run (H : Host) : ∀ acts st,
    J st.clock st.toCore (heldWatches st.conns) →
      J (run H st acts).clock (run H st acts).toCore (heldWatches (run H st acts).conns)
  | [], _, h => h
  | a :: acts, st, h => run H acts _ (hJ.step H st a.1 a.2 h)

end WatchInvariant

/-! ## Watch counts -/

theorem Move.trace (h : Move now e e') : ∃ evs, e'.trace = e.trace ++ evs := by
  cases h with
  | key i k d _ | flush i => exact ⟨_, rfl⟩
  | swap a b =>
    simp only [Exec.swapDbs]
    split
    · exact ⟨[], (List.append_nil _).symm⟩
    · exact ⟨_, rfl⟩
  | watch k | unwatch => exact ⟨[], (List.append_nil _).symm⟩
  | unseen _ hun => exact hun.trace

/-- What holds of all events after a move held of all events before it. -/
theorem Move.events (h : Move now e e') {P : Event → Prop}
    (hall : ∀ ev ∈ e'.trace, P ev) : ∀ ev ∈ e.trace, P ev := by
  obtain ⟨evs, htrace⟩ := h.trace
  intro ev hev
  exact hall ev (htrace ▸ List.mem_append_left evs hev)

theorem heldOn_add (ws ws' : Multiset Watch) (i : Nat) :
    heldOn (ws + ws') i = heldOn ws i + heldOn ws' i := by
  rw [heldOn, Multiset.filter_add, Multiset.card_add]
  rfl

theorem heldOn_cons (w : Watch) (ws : Multiset Watch) (i : Nat) :
    heldOn (w ::ₘ ws) i = heldOn ws i + if w.dbIndex = i then 1 else 0 := by
  simp only [heldOn]
  split
  · rw [Multiset.filter_cons_of_pos _ (by assumption), Multiset.card_cons]
  · rw [Multiset.filter_cons_of_neg _ (by assumption), Nat.add_zero]

theorem unref_watchRefs (i : Nat) : ∀ (ws : List Watch) (dbs : Nat → Db),
    (ws.foldl Exec.unref dbs i).watchRefs = (dbs i).watchRefs - heldOn ws i
  | [], _ => rfl
  | w :: ws, dbs => by
    rw [List.foldl_cons, unref_watchRefs i ws, ← Multiset.cons_coe, heldOn_cons]
    by_cases hw : w.dbIndex = i
    · subst hw
      simp only [Exec.unref, Function.update_self, if_true]
      omega
    · simp only [Exec.unref, Function.update_of_ne (Ne.symm hw), if_neg hw, Nat.add_zero]

/-- The index whose database stands at `i` after `a` and `b` have changed places. -/
theorem exchanged_apply (dbs : Nat → Db) (a b i : Nat) :
    Exec.exchanged dbs a b i = dbs i ∧ i ≠ a ∧ i ≠ b ∨
      ∃ j, (i = a ∧ j = b ∨ i = b ∧ j = a) ∧
        Exec.exchanged dbs a b i = { dbs j with flushEpoch := (dbs j).flushEpoch + 1 } := by
  unfold Exec.exchanged
  by_cases hb : i = b
  · exact .inr ⟨a, .inr ⟨hb, rfl⟩, by rw [hb, Function.update_self]⟩
  by_cases ha : i = a
  · exact .inr ⟨b, .inl ⟨ha, rfl⟩, by rw [Function.update_of_ne hb, ha, Function.update_self]⟩
  · exact .inl ⟨by rw [Function.update_of_ne hb, Function.update_of_ne ha], ha, hb⟩

theorem flushDbContents_watchRefs (d : Db) : (flushDbContents d).watchRefs = d.watchRefs := rfl

theorem watchAdd_heldOn (e : Exec) (now : Nat) (k : Bytes) (i : Nat) :
    (e.watchAdd now k).watchCount i = e.watchCount i + if e.s.dbIndex = i then 1 else 0 := by
  simp only [Exec.watchCount, Exec.watches, Exec.watchAdd, ← Multiset.coe_add, heldOn_add,
    ← Multiset.cons_coe, Multiset.coe_nil, heldOn_cons]
  simp only [heldOn, Multiset.filter_zero, Multiset.card_zero]
  omega

/-- An event after which counts can still be trusted: no SWAPDB, or one of two
databases with the same watch count. -/
def Event.balanced : Event → Bool
  | .swapped _ _ refsA refsB _ _ => refsA == refsB
  | _ => true

/-- Every watch count is the number of watches on its index. -/
def Counted (_ : Nat) (c : Core) (ws : Multiset Watch) : Prop :=
  (∀ ev ∈ c.trace, ev.balanced = true) → ∀ i, (c.dbs i).watchRefs = heldOn ws i

theorem swapDbs_watchRefs (h : (e.dbs a).watchRefs = (e.dbs b).watchRefs)
    (i : Nat) : ((e.swapDbs a b).dbs i).watchRefs = (e.dbs i).watchRefs := by
  have hswap : (Exec.exchanged e.dbs a b i).watchRefs = (e.dbs i).watchRefs := by
    rcases exchanged_apply e.dbs a b i with ⟨hi, -, -⟩ | ⟨j, ⟨rfl, rfl⟩ | ⟨rfl, rfl⟩, hi⟩
    · rw [hi]
    · rw [hi, h]
    · rw [hi, h]
  unfold Exec.swapDbs
  split
  · rfl
  by_cases hs : i = e.s.dbIndex
  · rw [← hswap, hs]
    simp only [Function.update_self]
    rfl
  · simpa only [Function.update_of_ne hs] using hswap

theorem counted_invariant : WatchInvariant Counted where
  later := fun _ h => h
  expire := by
    intro t c ws i k h hev j
    rw [← h hev j]
    by_cases hj : j = i
    · subst hj
      simp only [Function.update_self]
      exact (dbExpireIfNeeded_confined _ k t).refs
    · simp only [Function.update_of_ne hj]
  move := by
    intro t e e' hmove h hev i
    have hcount := h (hmove.events hev)
    cases hmove with
    | key j k d hconf =>
      have hrefs : ((e.commit t j k d).dbs i).watchRefs = (e.dbs i).watchRefs := by
        by_cases hj : i = j
        · subst hj
          simpa only [Exec.commit, Exec.setDb, Function.update_self] using hconf.refs
        · simp only [Exec.commit, Exec.setDb, Function.update_of_ne hj, Exec.emit]
      exact hrefs.trans (hcount i)
    | flush j =>
      refine Eq.trans ?_ (hcount i)
      by_cases hj : i = j
      · subst hj
        simp [Exec.setDb, flushDbContents_watchRefs]
      · simp only [Exec.setDb, Function.update_of_ne hj, Exec.emit]
    | swap a b =>
      by_cases hab : a = b
      · simpa only [Exec.swapDbs, if_pos hab] using hcount i
      -- the event this exchange leaves says the two counts were equal
      have hbal := hev (.swapped a b (e.dbs a).watchRefs (e.dbs b).watchRefs _ _) (by
        simp only [Exec.swapDbs, if_neg hab]
        exact List.mem_append_right _ (List.mem_singleton.mpr rfl))
      rw [swapDbs_watchRefs (by simpa [Event.balanced] using hbal) i, hcount i]
      simp only [Exec.swapDbs, if_neg hab]
      rfl
    | watch k =>
      have hheld := watchAdd_heldOn e t k i
      simp only [Exec.watchCount] at hheld
      rw [hheld, ← hcount i]
      by_cases hi : i = e.s.dbIndex
      · subst hi
        simp only [Exec.watchAdd, Function.update_self]
        rfl
      · simp only [Exec.watchAdd, Function.update_of_ne hi, if_neg (Ne.symm hi), Nat.add_zero]
    | unwatch =>
      have hheld := hcount i
      simp only [Exec.watchClear, Exec.watches, unref_watchRefs, hheld]
      simp [heldOn]
    | unseen _ hun =>
      rw [(hun.still i).refs, hcount i]
      simp only [Exec.watches, hun.watches, hun.others]

structure Fresh (st : State) : Prop where
  conns : st.conns = []
  refs : ∀ i, (st.dbs i).watchRefs = 0
  trace : st.trace = []

/-- In every run in which SWAPDB only exchanges databases of equal watch count,
the count of every database is the number of watch entries live sessions hold on
its index. -/
theorem watchRefs_eq_held (H : Host) (st : State) (hst : Fresh st) (acts : List (Nat × Action))
    (hswap : ∀ ev ∈ (run H st acts).trace, ev.balanced = true) (i : Nat) :
    ((run H st acts).dbs i).watchRefs = heldOn (heldWatches (run H st acts).conns) i := by
  refine counted_invariant.run H acts st ?_ hswap i
  intro _ j
  rw [hst.refs, hst.conns]
  rfl

/-- Session 0 watches a key of db 0; session 1 exchanges dbs 0 and 1. -/
def watchThenSwap : List (Nat × Action) :=
  [(1, .accept none true), (1, .accept none true),
   (1, .request 0 (words ["WATCH", "k"]) []),
   (1, .request 1 (words ["SWAPDB", "0", "1"]) [])]

theorem bootState_fresh (ndbs : Nat) (users : Nat → Acl.AclUser)
    (auth : Bytes → Bytes → Option Nat) : Fresh (bootState ndbs users auth) :=
  ⟨rfl, fun _ => rfl, rfl⟩

/-- The count travels with the database, the watch stays on the index. -/
theorem watchThenSwap_miscounts :
    ¬ ∀ (H : Host) (st : State), Fresh st → ∀ (acts : List (Nat × Action)) (i : Nat),
      ((run H st acts).dbs i).watchRefs = heldOn (heldWatches (run H st acts).conns) i := by
  intro h
  have hzero := h bareHost (bootState 2 (fun _ => openUser) fun _ _ => none)
    (bootState_fresh _ _ _) watchThenSwap 0
  revert hzero
  decide

/-- Two sessions watch, one key in each of two databases, before the exchange. -/
theorem watchBoth_counts :
    ((run bareHost (bootState 2 (fun _ => openUser) fun _ _ => none)
      [(1, .accept none true), (1, .accept none true),
       (1, .request 0 (words ["WATCH", "k"]) []),
       (1, .request 1 (words ["SELECT", "1"]) []),
       (1, .request 1 (words ["WATCH", "k"]) []),
       (1, .request 1 (words ["SWAPDB", "0", "1"]) [])]).dbs 1).watchRefs = 1 :=
  (watchRefs_eq_held bareHost _ (bootState_fresh 2 (fun _ => openUser) fun _ _ => none)
    _ (by decide) 1).trans (by decide)

/-! ## What an untripped watch guarantees -/

/-- A watch on a database: its epoch has passed, or its key's version has moved on,
or the key is stored as it was. -/
def Kept (d : Db) (w : Watch) : Prop :=
  w.epoch < d.flushEpoch ∨ w.epoch = d.flushEpoch ∧
    (w.version < dbKeyVersion d w.key ∨
      w.version = dbKeyVersion d w.key ∧ d.entry w.key = w.seen)

theorem Kept.of_eq (h : Kept d w) (hepoch : d'.flushEpoch = d.flushEpoch)
    (hversion : dbKeyVersion d' w.key = dbKeyVersion d w.key)
    (hentry : d'.entry w.key = d.entry w.key) : Kept d' w := by
  unfold Kept at h ⊢
  rw [hepoch, hversion, hentry]
  exact h

/-- A write of `k` keeps a watch if it moves the version whenever it rewrites the
watched entry of an untripped watch. -/
theorem Kept.confined (h : Kept d w) (hconf : Confined k d d')
    (hmarked : w.epoch = d.flushEpoch → w.version = dbKeyVersion d k → w.key = k →
      d'.entry k ≠ d.entry k → dbKeyVersion d k < dbKeyVersion d' k) : Kept d' w := by
  unfold Kept
  rw [hconf.epoch]
  rcases h with hlt | ⟨hepoch, hlt | ⟨hversion, hentry⟩⟩
  · exact .inl hlt
  · exact .inr ⟨hepoch, .inl (Nat.lt_of_lt_of_le hlt (hconf.version w.key))⟩
  refine .inr ⟨hepoch, ?_⟩
  by_cases hsame : d'.entry w.key = d.entry w.key
  · rcases Nat.lt_or_eq_of_le (hconf.version w.key) with hup | heq
    · exact .inl (hversion ▸ hup)
    · exact .inr ⟨hversion.trans heq, hsame.trans hentry⟩
  -- only `k` can have changed, and then its version moved
  have hkey : w.key = k := by
    by_contra hne
    exact hsame (hconf.frame w.key hne)
  rw [hkey] at hversion hsame ⊢
  exact .inl (hversion ▸ hmarked hepoch hversion hkey hsame)

/-- An event after which watches can still be trusted: no unannounced change of a
key under an untripped watch, and no SWAPDB that gives a watched index a smaller
count than the watches on it or an older epoch than theirs. -/
def Event.watchSafe : Event → Bool
  | .quiet _ _ watched => !watched
  | .swapped _ _ _ _ guarded _ => guarded
  | _ => true

/-- Counts cover the watches, and every watch is kept. -/
structure Guarded (t : Nat) (dbs : Nat → Db) (ws : Multiset Watch) : Prop where
  covered : ∀ i, heldOn ws i ≤ (dbs i).watchRefs
  since : ∀ w ∈ ws, w.since ≤ t
  kept : ∀ w ∈ ws, Kept (dbs w.dbIndex) w

theorem Guarded.refs_pos (h : Guarded t dbs ws) (hw : w ∈ ws) : 0 < (dbs w.dbIndex).watchRefs := by
  refine Nat.lt_of_lt_of_le (Multiset.card_pos_iff_exists_mem.mpr ⟨w, ?_⟩) (h.covered w.dbIndex)
  exact Multiset.mem_filter.mpr ⟨hw, rfl⟩

theorem Guarded.update (h : Guarded t dbs ws) (i : Nat) (d : Db) (hrefs : heldOn ws i ≤ d.watchRefs)
    (hkept : ∀ w ∈ ws, w.dbIndex = i → Kept (dbs i) w → Kept d w) :
    Guarded t (Function.update dbs i d) ws where
  covered := by
    intro j
    by_cases hj : j = i
    · subst hj
      rwa [Function.update_self]
    · rw [Function.update_of_ne hj]
      exact h.covered j
  since := h.since
  kept := by
    intro w hw
    by_cases hj : w.dbIndex = i
    · rw [hj, Function.update_self]
      exact hkept w hw hj (hj ▸ h.kept w hw)
    · rw [Function.update_of_ne hj]
      exact h.kept w hw

theorem isWatched_of_mem (hw : w ∈ e.watches) (hepoch : w.epoch = (e.dbs w.dbIndex).flushEpoch)
    (hversion : w.version = dbKeyVersion (e.dbs w.dbIndex) w.key) :
    e.isWatched w.dbIndex w.key = true := by
  refine decide_eq_true (Multiset.card_pos_iff_exists_mem.mpr ⟨w, ?_⟩)
  refine Multiset.mem_filter.mpr ⟨hw, rfl, rfl, ?_⟩
  simp [Exec.untripped, hepoch, hversion]

theorem Guarded.key (h : Guarded t e.dbs e.watches)
    (hconf : Confined k (e.dbs i) d) (hsafe : ∀ ev ∈ e.keyEvents t i k d, ev.watchSafe = true) :
    Guarded t (e.commit t i k d).dbs (e.commit t i k d).watches := by
  refine h.update i d (hconf.refs ▸ h.covered i) fun w hw hi hkept => ?_
  refine hkept.confined hconf fun hepoch hversion hkey hentry => ?_
  subst hi hkey
  by_cases hdirty : d.dirty = (e.dbs w.dbIndex).dirty
  · -- the change was announced by no counter: its event is not safe
    have hquiet := hsafe (.quiet w.dbIndex w.key (e.isWatched w.dbIndex w.key)) (by
      simp [Exec.keyEvents, hdirty, hentry])
    simp [Event.watchSafe, isWatched_of_mem hw hepoch hversion] at hquiet
  · exact hconf.marked (Nat.lt_of_le_of_ne hconf.dirty (Ne.symm hdirty)) (h.refs_pos hw)

theorem Guarded.flush (h : Guarded t dbs ws)
    (i : Nat) : Guarded t (Function.update dbs i (flushDbContents (dbs i))) ws := by
  refine h.update i _ (h.covered i) fun w _ _ hkept => .inl ?_
  have hle : w.epoch ≤ (dbs i).flushEpoch := by
    rcases hkept with hlt | ⟨heq, -⟩
    · exact Nat.le_of_lt hlt
    · exact Nat.le_of_eq heq
  exact Nat.lt_succ_of_le hle

theorem covers_spec {j : Nat} (h : e.covers i j = true) :
    heldOn e.watches i ≤ (e.dbs j).watchRefs ∧
      ∀ w ∈ e.watches, w.dbIndex = i → w.epoch ≤ (e.dbs j).flushEpoch := by
  simp only [Exec.covers, Bool.and_eq_true, decide_eq_true_eq, Multiset.card_eq_zero] at h
  refine ⟨h.1, fun w hw hi => Nat.le_of_not_lt fun hlt => ?_⟩
  have hnone := Multiset.filter_eq_nil.mp h.2 w hw
  exact hnone ⟨hi, hlt⟩

/-- An exchange that covers the watches on both indexes trips them all. -/
theorem Guarded.exchanged (h : Guarded t e.dbs e.watches)
    (hab : e.covers a b = true) (hba : e.covers b a = true) :
    Guarded t (Exec.exchanged e.dbs a b) e.watches where
  covered := by
    intro i
    rcases exchanged_apply e.dbs a b i with ⟨hi, -, -⟩ | ⟨j, ⟨rfl, rfl⟩ | ⟨rfl, rfl⟩, hi⟩
    · rw [hi]
      exact h.covered i
    · rw [hi]
      exact (covers_spec hab).1
    · rw [hi]
      exact (covers_spec hba).1
  since := h.since
  kept := by
    intro w hw
    rcases exchanged_apply e.dbs a b w.dbIndex with ⟨hi, -, -⟩ | ⟨j, hj, hi⟩
    · rw [hi]
      exact h.kept w hw
    rw [hi]
    refine .inl (Nat.lt_succ_of_le ?_)
    rcases hj with ⟨hwa, rfl⟩ | ⟨hwb, rfl⟩
    · exact (covers_spec hab).2 w hw hwa
    · exact (covers_spec hba).2 w hw hwb

theorem Guarded.swap (h : Guarded t e.dbs e.watches) (a b : Nat)
    (hsafe : ∀ ev ∈ (e.swapDbs a b).trace, ev.watchSafe = true) :
    Guarded t (e.swapDbs a b).dbs (e.swapDbs a b).watches := by
  by_cases hab : a = b
  · simpa only [Exec.swapDbs, if_pos hab] using h
  have hguard := hsafe (.swapped a b _ _ (e.covers a b && e.covers b a) _) (by
    simp only [Exec.swapDbs, if_neg hab]
    exact List.mem_append_right _ (List.mem_singleton.mpr rfl))
  simp only [Event.watchSafe, Bool.and_eq_true] at hguard
  have hswap := h.exchanged hguard.1 hguard.2
  simp only [Exec.swapDbs, if_neg hab]
  exact hswap.update e.s.dbIndex _ (hswap.covered e.s.dbIndex) fun w _ _ hkept => hkept

theorem Guarded.watch (h : Guarded t e.dbs e.watches) (k : Bytes) :
    Guarded t (e.watchAdd t k).dbs (e.watchAdd t k).watches := by
  have hwatches : (e.watchAdd t k).watches
      = ⟨k, dbKeyVersion e.db k, e.db.flushEpoch, e.s.dbIndex, e.db.entry k, t⟩ ::ₘ e.watches := by
    simp only [Exec.watches, Exec.watchAdd]
    rw [← Multiset.coe_add, ← Multiset.cons_coe, Multiset.coe_nil, ← Multiset.singleton_add,
      ← Multiset.singleton_add]
    abel
  have hdbs : Guarded t (e.watchAdd t k).dbs e.watches :=
    h.update e.s.dbIndex _ (Nat.le_succ_of_le (h.covered _)) fun _ _ _ hkept => hkept
  refine ⟨fun i => ?_, fun w hw => ?_, fun w hw => ?_⟩
  · have hcount := watchAdd_heldOn e t k i
    simp only [Exec.watchCount] at hcount
    rw [hcount]
    by_cases hi : e.s.dbIndex = i
    · subst hi
      simp only [Exec.watchAdd, Function.update_self]
      exact Nat.succ_le_succ (h.covered _)
    · rw [if_neg hi]
      exact hdbs.covered i
  · rw [hwatches] at hw
    rcases Multiset.mem_cons.mp hw with rfl | hold
    · exact Nat.le_refl t
    · exact h.since w hold
  · rw [hwatches] at hw
    rcases Multiset.mem_cons.mp hw with rfl | hold
    · refine .inr ⟨?_, .inr ⟨?_, ?_⟩⟩ <;> simp only [Exec.watchAdd, Function.update_self] <;> rfl
    · exact hdbs.kept w hold

/-- Dropping watches changes nothing that WATCH compares but the counts. -/
theorem unref_kept (w : Watch) (i : Nat) : ∀ (ws : List Watch) (dbs : Nat → Db),
    Kept (dbs i) w → Kept (ws.foldl Exec.unref dbs i) w
  | [], _, h => h
  | v :: ws, dbs, h => by
    refine unref_kept w i ws _ ?_
    by_cases hv : i = v.dbIndex
    · subst hv
      simp only [Exec.unref, Function.update_self]
      exact h
    · simp only [Exec.unref, Function.update_of_ne hv]
      exact h

theorem Guarded.unwatch (h : Guarded t e.dbs e.watches) :
    Guarded t e.watchClear.dbs e.watchClear.watches := by
  have hwatches : e.watchClear.watches = heldWatches e.others := by
    simp [Exec.watches, Exec.watchClear]
  have hmem : ∀ {w}, w ∈ heldWatches e.others → w ∈ e.watches :=
    fun hw => Multiset.mem_add.mpr (.inr hw)
  rw [hwatches]
  refine ⟨fun i => ?_, fun w hw => h.since w (hmem hw), fun w hw => ?_⟩
  · have hcovered := h.covered i
    rw [Exec.watches, heldOn_add] at hcovered
    simp only [Exec.watchClear, unref_watchRefs]
    omega
  · exact unref_kept w w.dbIndex e.s.watches e.dbs (h.kept w (hmem hw))

theorem guarded_invariant : WatchInvariant fun t c ws =>
    (∀ ev ∈ c.trace, ev.watchSafe = true) → Guarded t c.dbs ws where
  later := fun hle h hev =>
    ⟨(h hev).covered, fun w hw => ((h hev).since w hw).trans hle, (h hev).kept⟩
  expire := by
    intro t c ws i k h hev
    have hconf := dbExpireIfNeeded_confined (c.dbs i) k t
    refine (h hev).update i _ (hconf.refs ▸ (h hev).covered i) fun w hw hi hkept => ?_
    refine hkept.confined hconf fun _ _ _ hentry => ?_
    rcases dbExpireIfNeeded_eq_or_dirty (c.dbs i) k t with heq | hdirty
    · exact absurd (by rw [heq]) hentry
    · exact hconf.marked hdirty (hi ▸ (h hev).refs_pos hw)
  move := by
    intro t e e' hmove h hev
    have hg := h (hmove.events hev)
    cases hmove with
    | key i k d hconf => exact hg.key hconf fun ev hmem => hev ev (List.mem_append_right _ hmem)
    | flush i => exact hg.flush i
    | swap a b => exact hg.swap a b hev
    | watch k => exact hg.watch k
    | unwatch => exact hg.unwatch
    | unseen _ hun =>
      have hwatches : e'.watches = e.watches := by
        rw [Exec.watches, Exec.watches, hun.watches, hun.others]
      rw [hwatches]
      refine ⟨fun i => ?_, hg.since, fun w hw => ?_⟩
      · rw [(hun.still i).refs]
        exact hg.covered i
      · have hstill := hun.still w.dbIndex
        exact (hg.kept w hw).of_eq hstill.epoch (hstill.version _) (hstill.entry _)

/-! ## EXEC -/

theorem aclRefresh_watchesHold (e : Exec) : watchesHold (aclRefresh e) = watchesHold e := by
  unfold aclRefresh
  split
  · rfl
  · split <;> rfl

theorem setDb_watchesHold (e : Exec) (i : Nat) (d : Db) (h : Still (e.dbs i) d) :
    watchesHold (e.setDb i d) = watchesHold e := by
  have huntripped : (e.setDb i d).untripped = e.untripped := by
    funext w
    by_cases hi : w.dbIndex = i
    · subst hi
      simp only [Exec.untripped, Exec.setDb, Function.update_self, h.epoch, h.version]
    · simp only [Exec.untripped, Exec.setDb, Function.update_of_ne hi]
  unfold watchesHold
  rw [huntripped]
  rfl

theorem execTransaction_watchesHold
    (h : isExecReply (execTransaction H now e).1 = true) : watchesHold e = true := by
  unfold execTransaction at h
  split at h
  · cases h
  split at h
  · cases h
  · rename_i hhold
    simpa using hhold

theorem runRequest_exec {n : Bytes}
    (h : isExecReply (runRequest H now (some n) .exec argv e).1 = true) : watchesHold e = true := by
  simp only [runRequest, reduceCtorEq, false_and, if_false] at h
  split at h
  · cases h
  split at h
  · cases h
  split at h
  · cases h
  · exact execTransaction_watchesHold h

/-- EXEC answers with its commands' replies only if every watch is untripped. -/
theorem exec_watchesHold (hcmd : argvCmd argv = .exec)
    (h : isExecReply (sessionExecuteAtRaw H now argv e).1 = true) : watchesHold e = true := by
  obtain ⟨n, hname⟩ : ∃ n, argAt argv 0 = some n := by
    cases hn : argAt argv 0 with
    | none => simp [argvCmd, hn] at hcmd
    | some n => exact ⟨n, rfl⟩
  have hstart : watchesHold (startRequest e) = watchesHold e := by
    rw [startRequest, aclRefresh_watchesHold]
    exact setDb_watchesHold e _ _ ⟨rfl, rfl, fun _ => rfl, fun _ => rfl⟩
  unfold sessionExecuteAtRaw at h
  dsimp only at h
  split at h
  · cases h
  split at h
  · cases h
  rw [hcmd, hname] at h
  rw [← hstart]
  exact runRequest_exec h

/-- An entry whose expiry does not fall between two instants looks the same at both. -/
theorem liveEntry_stable {since : Nat} {x : Option Obj × Option Nat} (hle : since ≤ now)
    (h : ∀ t, x.2 = some t → since < t → now < t) : liveEntry now x = liveEntry since x := by
  obtain ⟨v, t⟩ := x
  cases v with
  | none => rfl
  | some v =>
    cases t with
    | none => rfl
    | some t =>
      simp only [liveEntry]
      by_cases hlt : since < t
      · rw [if_pos hlt, if_pos (h t rfl hlt)]
      · rw [if_neg hlt, if_neg (fun hnow => hlt (Nat.lt_of_le_of_lt hle hnow))]

/-- Session 0 watches a key and opens a transaction; then session 1 acts. -/
def watchThen (other : List String) : State :=
  run bareHost (bootState 2 (fun _ => openUser) fun _ _ => none)
    [(1, .accept none true), (1, .accept none true),
     (1, .request 1 (words ["SET", "k", "v"]) []),
     (1, .request 0 (words ["WATCH", "k"]) []),
     (1, .request 0 (words ["MULTI"]) []),
     (1, .request 1 (words other) [])]

def watcher (other : List String) : Session :=
  (Lib.slotAt (watchThen other).conns 0).getD sessionInit

theorem slotAt_watcher {other : List String}
    (h : (Lib.slotAt (watchThen other).conns 0).isSome = true) :
    Lib.slotAt (watchThen other).conns 0 = some (watcher other) := by
  obtain ⟨s, hs⟩ := Option.isSome_iff_exists.mp h
  rw [watcher, hs]
  rfl

end Ddup.Server
