/-
Ddup.Server.BookTheorems — when the commands that edit hashes, sorted sets and streams in
place keep their books.

XREADGROUP goes over several keys, twice: a `Walk` is a ledger of all keys of a database.
Its two passes are followed on what is held under the keys (`checkStreams`,
`deliverStreams`).
-/
import Ddup.Server.InPlaceTheorems

namespace Ddup.Server

open Ddup.Lib Ddup.Resp Ddup.Command Ddup.Store
open Function (update update_of_ne update_self)

variable {g : Group} {held : Bytes → Option Obj} {keys : List Bytes} {m ready : Prop} {name : Bytes}
  {p : Plan StreamObj}

/-! ## Several keys -/

structure Walk (i : Nat) (e e' : Exec) (owed : UInt64) (marked : Bytes → Prop) : Prop where
  others : ∀ n, n ≠ i → e'.dbs n = e.dbs n
  refs : (e'.dbs i).watchRefs = (e.dbs i).watchRefs
  drift : (e'.dbs i).drift = (e.dbs i).drift + owed
  touches : ∃ n : Bytes → Nat,
    (∀ k, dbKeyVersion (e'.dbs i) k
      = dbKeyVersion (e.dbs i) k + if 0 < (e.dbs i).watchRefs then n k else 0) ∧
    (∀ k, (e.dbs i).dirty + n k ≤ (e'.dbs i).dirty) ∧ ∀ k, marked k ↔ 0 < n k

section Walking

variable {i : Nat} {e e₁ e₂ : Exec} {owed₁ owed₂ : UInt64} {m₁ m₂ : Bytes → Prop}

theorem Walk.refl (i : Nat) (e : Exec) : Walk i e e 0 fun _ => False where
  others := fun _ _ => rfl
  refs := rfl
  drift := (add_zero _).symm
  touches := ⟨fun _ => 0, by simp, by simp, by simp⟩

theorem Walk.trans (h₁ : Walk i e e₁ owed₁ m₁) (h₂ : Walk i e₁ e₂ owed₂ m₂) :
    Walk i e e₂ (owed₁ + owed₂) fun k => m₁ k ∨ m₂ k where
  others := fun n hn => (h₂.others n hn).trans (h₁.others n hn)
  refs := h₂.refs.trans h₁.refs
  drift := by rw [h₂.drift, h₁.drift, add_assoc]
  touches := by
    obtain ⟨n₁, hversion₁, hdirty₁, hmarked₁⟩ := h₁.touches
    obtain ⟨n₂, hversion₂, hdirty₂, hmarked₂⟩ := h₂.touches
    refine ⟨fun k => n₁ k + n₂ k, fun k => ?_, fun k => ?_, fun k => ?_⟩
    · rw [hversion₂, hversion₁, h₁.refs]
      dsimp only
      split <;> omega
    · have := hdirty₁ k
      have := hdirty₂ k
      dsimp only
      omega
    · rw [hmarked₁, hmarked₂]
      dsimp only
      omega

theorem LedgerAt.walk {k : Bytes} (h : LedgerAt i k e e₁ owed₁ m) :
    Walk i e e₁ owed₁ fun k' => k' = k ∧ m where
  others := h.others
  refs := h.here.confined.refs
  drift := h.here.drift
  touches := by
    obtain ⟨n, htouched, hmarked⟩ := h.here.touched
    refine ⟨fun k' => if k' = k then n else 0, fun k' => ?_, fun k' => ?_, fun k' => ?_⟩
    · rw [htouched.version]
      by_cases hk : k' = k <;> simp [hk]
    · rw [htouched.dirty]
      dsimp only
      split <;> omega
    dsimp only
    split
    · rename_i hk
      simp [hk, hmarked]
    · rename_i hk
      simp [hk]

/-- All databases keep their books if nothing is owed in the one walked, and what changed
there is marked while somebody watches. -/
theorem Walk.booked_iff {now : Nat} (h : Walk i e e₁ owed₁ m₁) :
    (∀ n, Booked now (e.dbs n) (e₁.dbs n)) ↔
      owed₁ = 0 ∧ ∀ k, shownAt now (e₁.dbs i) k ≠ shownAt now (e.dbs i) k →
        m₁ k ∧ 0 < (e.dbs i).watchRefs := by
  obtain ⟨n, hversion, hdirty, hmarked⟩ := h.touches
  constructor
  · intro hall
    obtain ⟨haccounts, hmarks⟩ := hall i
    refine ⟨?_, fun k hne => ?_⟩
    · rw [h.drift] at haccounts
      exact add_eq_left.mp haccounts
    obtain ⟨-, hmoved⟩ := hmarks k hne
    rw [hversion] at hmoved
    rw [hmarked]
    by_cases hrefs : 0 < (e.dbs i).watchRefs
    · rw [if_pos hrefs] at hmoved
      exact ⟨by omega, hrefs⟩
    · rw [if_neg hrefs] at hmoved
      exact absurd rfl hmoved
  · rintro ⟨howed, hkeys⟩ m
    by_cases hm : m = i
    · subst hm
      refine ⟨by rw [h.drift, howed, add_zero], fun k hne => ?_⟩
      obtain ⟨hmark, hrefs⟩ := hkeys k hne
      have hpos := (hmarked k).mp hmark
      have hmore := hdirty k
      refine ⟨by omega, ?_⟩
      rw [hversion, if_pos hrefs]
      omega
    · rw [h.others m hm]
      exact .refl now _

end Walking

/-! ## XREADGROUP -/

section Passes

variable (R : Runtime) (a : ReadGroupArgs) {k idv : Bytes} {e' : Exec} {s : StreamObj}

/-- What the first pass leaves under the keys, what it owes, and whether it lets the
second one begin. -/
structure CheckRun where
  held : Bytes → Option Obj
  owed : UInt64
  passed : Bool

def leftStream (s : StreamObj × UInt64) (p : Plan StreamObj) : Obj :=
  .boxed (.stream p.final) (p.memLeft R streamKind s)

/-- The first pass, on what is held under the keys. -/
def checkStreams : List (RespValue × RespValue) → (Bytes → Option Obj) → CheckRun
  | [], held => ⟨held, 0, true⟩
  | (k, v) :: rest, held =>
    match argStr k, argStr v with
    | some key, some idv =>
      if !isNewId idv && (streamParseFullId idv).isNone then ⟨held, 0, false⟩
      else
        match (held key).bind streamKind.ofObj with
        | none => ⟨held, 0, false⟩
        | some s =>
          match readGroupCheckPlan a idv s.1 with
          | none => ⟨held, 0, false⟩
          | some p =>
            let r := checkStreams rest (update held key (some (leftStream R s p)))
            ⟨r.held, p.owed R streamKind s + r.owed, r.passed⟩
    | _, _ => ⟨held, 0, false⟩

/-- The second pass, on what is held under the keys. -/
def deliverStreams (now : Nat) : List (RespValue × RespValue) → (Bytes → Option Obj) →
    Bytes → Option Obj
  | [], held => held
  | (k, v) :: rest, held =>
    match argStr k, argStr v with
    | some key, some idv =>
      match held key with
      | none => deliverStreams now rest held
      | some w =>
        match streamKind.ofObj w with
        | none => held
        | some s =>
          match s.1.groups.get? a.group with
          | none => held
          | some g =>
            deliverStreams now rest
              (update held key (some (leftStream R s (readGroupPlan a now idv s.1 g))))
    | _, _ => held

/-- What the first pass has done to the databases. -/
structure Checked (now i : Nat) (e e' : Exec) (w : CheckRun) : Prop where
  walk : ∃ marked, Walk i e e' w.owed marked ∧
    (∀ k, (heldAt now (e.dbs i) k).isSome = true → marked k → isCold (e.dbs i) k = true) ∧
    ∀ k, w.held k ≠ heldAt now (e.dbs i) k → isCold (e.dbs i) k = true → marked k
  shown : ∀ k, shownAt now (e'.dbs i) k = (w.held k).map bareObj
  passed : w.passed = true → heldAt now (e'.dbs i) = w.held ∧ ColdOk (e'.dbs i)

variable {R a} {now : Nat} {e : Exec}

theorem Checked.stop (i : Nat) (e : Exec) (passed : Bool) (hcold : ColdOk (e.dbs i)) :
    Checked now i e e ⟨heldAt now (e.dbs i), 0, passed⟩ where
  walk := ⟨_, .refl i e, fun _ _ h => h.elim, fun _ h => absurd rfl h⟩
  shown := fun _ => rfl
  passed := fun _ => ⟨rfl, hcold⟩

theorem Checked.shut {i : Nat} {e : Exec} (h : Shut streamKind now i k false e e') :
    Checked now i e e' ⟨heldAt now (e.dbs i), 0, false⟩ := by
  obtain ⟨marked, hledger, hmarked⟩ := h.ledger
  refine ⟨⟨_, hledger.walk, ?_, fun _ h => absurd rfl h⟩, fun k' => ?_, nofun⟩
  · rintro k' hsome ⟨rfl, hm⟩
    exact (hmarked hsome).mp hm
  · rw [shownAt, h.same]

theorem Checked.step {i : Nat} {v : Obj} {owed : UInt64} {e e₁ : Exec} {w : CheckRun}
    (hlanded : Landed now k v (e.dbs i) (e₁.dbs i))
    (hledger : LedgerAt i k e e₁ owed (isCold (e.dbs i) k = true)) (h : Checked now i e₁ e' w) :
    Checked now i e e' ⟨w.held, owed + w.owed, w.passed⟩ := by
  obtain ⟨marked, hwalk, hcold, hmarks⟩ := h.walk
  refine ⟨⟨_, hledger.walk.trans hwalk, fun k' hsome hm => ?_, fun k' hne hc => ?_⟩, h.shown,
    h.passed⟩
  · rcases hm with ⟨rfl, hc⟩ | hm
    · exact hc
    have hsome' : (heldAt now (e₁.dbs i) k').isSome = true := by
      rw [hlanded.held]
      by_cases hk : k' = k
      · rw [hk, update_self]
        rfl
      · rw [update_of_ne hk]
        exact hsome
    exact ((hlanded.warm k').mp (hcold k' hsome' hm)).2
  · by_cases hk : k' = k
    · subst hk
      exact .inl ⟨rfl, hc⟩
    refine .inr (hmarks k' ?_ ((hlanded.warm k').mpr ⟨hk, hc⟩))
    rw [hlanded.held, update_of_ne hk]
    exact hne

theorem Opened.there {α : Type} {K : Kind α} {i : Nat} {e : Exec} {x : α × UInt64}
    (h : Opened R K now i k false e e' x) :
    heldAt now (e.dbs i) k = some (.boxed (K.wrap x.1) x.2) ∧
      LedgerAt i k e e' 0 (isCold (e.dbs i) k = true) := by
  cases h with
  | found _ _ hheld hledger _ => exact ⟨hheld, hledger⟩
  | made _ hasked => cases hasked

theorem readGroupCheckPlan_cases (h : readGroupCheckPlan a idv s = some p)
    : p.remove = false ∧ ¬ p.marks := by
  unfold readGroupCheckPlan at h
  rw [Option.map_eq_some_iff] at h
  obtain ⟨g, -, rfl⟩ := h
  split <;> simp [Plan.marks, Plan.unreported, Plan.keep]

/-- The first pass does to the databases what `checkStreams` does to what they hold. -/
theorem readGroupCheck_checked (now : Nat) (c : Ctx) : ∀ pairs e,
    ColdOk (e.dbs c.dbIndex) →
    Checked now c.dbIndex e (runCmd now (readGroupCheck R c a pairs) e).2
        (checkStreams R a pairs (heldAt now (e.dbs c.dbIndex))) ∧
      (runCmd now (readGroupCheck R c a pairs) e).1.isNone
        = (checkStreams R a pairs (heldAt now (e.dbs c.dbIndex))).passed
  | [], e, hcold => ⟨.stop _ e true hcold, rfl⟩
  | (kv, vv) :: rest, e, hcold => by
    unfold readGroupCheck checkStreams
    cases hkey : argStr kv with
    | none => exact ⟨.stop _ e false hcold, rfl⟩
    | some key =>
      cases hidv : argStr vv with
      | none => exact ⟨.stop _ e false hcold, rfl⟩
      | some idv =>
        dsimp only
        split
        · exact ⟨.stop _ e false hcold, rfl⟩
        have hopened := getContainer_opened (R := R) (K := streamKind) now c key false hcold
        rw [runCmd_bind]
        rcases hrun : runCmd now (getContainer R streamKind c key false) e
          with ⟨err | _ | s, e₁⟩
        · rw [hrun] at hopened
          rw [hopened.1.held]
          exact ⟨.shut hopened.1, rfl⟩
        · rw [hrun] at hopened
          rw [hopened.1.held]
          exact ⟨.shut hopened.1, rfl⟩
        rw [hrun] at hopened
        obtain ⟨t, hlive⟩ := Opened.live hopened
        obtain ⟨hheld, hledger⟩ := Opened.there hopened
        have hof : streamKind.ofObj (.boxed (streamKind.wrap s.1) s.2) = some s :=
          Kind.ofObj_eq_some.mpr rfl
        rw [hheld, Option.bind_some, hof]
        dsimp only
        cases hplan : readGroupCheckPlan a idv s.1 with
        | none =>
          have hlanded := landed hcold hledger.here.confined hlive rfl
          have hstop := Checked.step hlanded hledger
            (.stop c.dbIndex e₁ false hlanded.cold)
          rw [hlanded.held_same hheld] at hstop
          exact ⟨hstop, rfl⟩
        | some p =>
          obtain ⟨hremove, hmarks⟩ := readGroupCheckPlan_cases hplan
          obtain ⟨hplanned, -⟩ := runPlan_ledger p hlive
          have hlive' := runPlan_live (R := R) hlive hremove
          have hboth := (hledger.trans hplanned).congr (zero_add _)
            (or_iff_left hmarks)
          have hlanded := landed hcold hboth.here.confined hlive' rfl
          obtain ⟨hrest, hpassed⟩ := readGroupCheck_checked now c rest _ hlanded.cold
          rw [hlanded.held] at hrest hpassed
          rw [runCmd_bind]
          exact ⟨hrest.step hlanded hboth, hpassed⟩

/-- Under a key there is a stream with the group. -/
def HasGroup (a : ReadGroupArgs) (held : Bytes → Option Obj) (k : Bytes) : Prop :=
  ∃ s mem g, held k = some (.boxed (.stream s) mem) ∧ s.groups.get? a.group = some g

def pairKeys (pairs : List (RespValue × RespValue)) : List Bytes :=
  pairs.filterMap fun p => argStr p.1

/-- Every pair is in order and names a stream with the group. -/
def GroupsReady (a : ReadGroupArgs) (held : Bytes → Option Obj)
    (pairs : List (RespValue × RespValue)) : Prop :=
  ∀ p ∈ pairs, ∃ key idv, argStr p.1 = some key ∧ argStr p.2 = some idv ∧ HasGroup a held key

theorem setGroup_get? (s : StreamObj) (hname : g.name = name) :
    (setGroup s g).groups.get? name = some g := by
  subst hname
  exact Unique.get?_put_self s.groups g

theorem get?_name (h : s.groups.get? name = some g) : g.name = name := (Unique.get?_eq_some.mp h).2

theorem consumerCreate_name (g : Group) (name : Bytes) : (consumerCreate g name).name = g.name := by
  unfold consumerCreate
  split <;> rfl

theorem deliver_name (g : Group) (entry : StreamEntry) : (deliver a now g entry).name = g.name := by
  unfold deliver
  split
  · rfl
  · unfold pelAdd
    split <;> rfl

theorem afterRead_name (shown : List StreamEntry) (g : Group) :
    (afterRead a now shown g).name = g.name := by
  have hfold : ∀ (l : List StreamEntry) (g : Group), (l.foldl (deliver a now) g).name = g.name := by
    intro l
    induction l with
    | nil => exact fun _ => rfl
    | cons entry l ih => exact fun g => (ih _).trans (deliver_name g entry)
  have hdelivered : (if a.noack then g else shown.foldl (deliver a now) g).name = g.name := by
    split
    · rfl
    · exact hfold shown g
  unfold afterRead
  dsimp only
  split
  · exact hdelivered
  · split <;> exact hdelivered

theorem readGroupCheckPlan_group (h : readGroupCheckPlan a idv s = some p)
    : ∃ g, p.final.groups.get? a.group = some g := by
  unfold readGroupCheckPlan at h
  rw [Option.map_eq_some_iff] at h
  obtain ⟨g, hg, rfl⟩ := h
  split
  · exact ⟨_, setGroup_get? s ((consumerCreate_name g _).trans (get?_name hg))⟩
  · exact ⟨g, hg⟩

theorem readGroupPlan_group (hg : s.groups.get? a.group = some g) :
    ∃ g', (readGroupPlan a now idv s g).final.groups.get? a.group = some g' := by
  unfold readGroupPlan
  split
  · exact ⟨_, setGroup_get? s ((afterRead_name _ g).trans (get?_name hg))⟩
  · exact ⟨g, hg⟩

theorem HasGroup.update {key : Bytes} {mem : UInt64}
    (h : HasGroup a held k) (hs : ∃ g, s.groups.get? a.group = some g) :
    HasGroup a (update held key (some (.boxed (.stream s) mem))) k := by
  by_cases hk : k = key
  · subst hk
    obtain ⟨g, hg⟩ := hs
    exact ⟨s, mem, g, update_self .., hg⟩
  · obtain ⟨s', mem', g, hheld, hg⟩ := h
    exact ⟨s', mem', g, (update_of_ne hk ..).trans hheld, hg⟩

/-- The first pass over one pair, where it goes on. -/
structure CheckStep (R : Runtime) (a : ReadGroupArgs) (held : Bytes → Option Obj)
    (p : RespValue × RespValue) (rest : List (RespValue × RespValue)) where
  key : Bytes
  idv : Bytes
  s : StreamObj × UInt64
  plan : Plan StreamObj
  keyArg : argStr p.1 = some key
  idArg : argStr p.2 = some idv
  held_eq : held key = some (.boxed (.stream s.1) s.2)
  plan_eq : readGroupCheckPlan a idv s.1 = some plan
  run_eq : checkStreams R a (p :: rest) held
    = ⟨(checkStreams R a rest (update held key (some (leftStream R s plan)))).held,
        plan.owed R streamKind s
          + (checkStreams R a rest (update held key (some (leftStream R s plan)))).owed,
        (checkStreams R a rest (update held key (some (leftStream R s plan)))).passed⟩

/-- The first pass ends at a pair, with everything as it was, or goes on from it. -/
theorem checkStreams_cons (held : Bytes → Option Obj) (p : RespValue × RespValue)
    (rest : List (RespValue × RespValue)) :
    checkStreams R a (p :: rest) held = ⟨held, 0, false⟩ ∨ Nonempty (CheckStep R a held p rest) := by
  obtain ⟨kv, vv⟩ := p
  cases hkey : argStr kv with
  | none => exact .inl (by simp only [checkStreams, hkey])
  | some key =>
    cases hidv : argStr vv with
    | none => exact .inl (by simp [checkStreams, hidv])
    | some idv =>
      by_cases hbad : (!isNewId idv && (streamParseFullId idv).isNone) = true
      · exact .inl (by simp only [checkStreams, hkey, hidv, hbad, if_true])
      cases hs : (held key).bind streamKind.ofObj with
      | none => exact .inl (by simp [checkStreams, hkey, hidv, hs])
      | some s =>
        cases hplan : readGroupCheckPlan a idv s.1 with
        | none => exact .inl (by simp [checkStreams, hkey, hidv, hs, hplan])
        | some plan =>
          obtain ⟨w, hw, hof⟩ := Option.bind_eq_some_iff.mp hs
          obtain rfl := Kind.ofObj_eq_some.mp hof
          refine .inr ⟨⟨key, idv, s, plan, hkey, hidv, hw, hplan, ?_⟩⟩
          simp only [checkStreams, hkey, hidv, hbad, hs, hplan, Bool.false_eq_true, if_false]

theorem checkStreams_hasGroup {k : Bytes} : ∀ (pairs : List (RespValue × RespValue))
    (held : Bytes → Option Obj), HasGroup a held k →
    HasGroup a (checkStreams R a pairs held).held k
  | [], _, h => h
  | p :: rest, held, h => by
    rcases checkStreams_cons held p rest with hstop | hstep
    · rw [hstop]
      exact h
    obtain ⟨step⟩ := hstep
    rw [step.run_eq]
    exact checkStreams_hasGroup rest _ (h.update (readGroupCheckPlan_group step.plan_eq))

/-- Once the first pass is through, the second one finds every group. -/
theorem checkStreams_ready : ∀ pairs held,
    (checkStreams R a pairs held).passed = true →
    GroupsReady a (checkStreams R a pairs held).held pairs
  | [], _, _ => nofun
  | p :: rest, held, h => by
    rcases checkStreams_cons held p rest with hstop | hstep
    · rw [hstop] at h
      cases h
    obtain ⟨step⟩ := hstep
    rw [step.run_eq] at h ⊢
    intro q hq
    rcases List.mem_cons.mp hq with rfl | hq
    · refine ⟨step.key, step.idv, step.keyArg, step.idArg, ?_⟩
      refine checkStreams_hasGroup rest _ ?_
      obtain ⟨g, hg⟩ := readGroupCheckPlan_group step.plan_eq
      exact ⟨_, _, g, update_self .., hg⟩
    · exact checkStreams_ready rest _ h q hq

/-- The first pass changes streams under its keys, and nothing else. -/
theorem checkStreams_changed {k : Bytes} : ∀ (pairs : List (RespValue × RespValue))
    (held : Bytes → Option Obj), (checkStreams R a pairs held).held k ≠ held k →
    (held k).isSome = true ∧ k ∈ pairKeys pairs
  | [], _, h => absurd rfl h
  | p :: rest, held, h => by
    rcases checkStreams_cons held p rest with hstop | hstep
    · rw [hstop] at h
      exact absurd rfl h
    obtain ⟨step⟩ := hstep
    have hkeys : pairKeys (p :: rest) = step.key :: pairKeys rest :=
      List.filterMap_cons_some step.keyArg
    rw [hkeys]
    by_cases hk : k = step.key
    · exact ⟨by rw [hk, step.held_eq]; rfl, by rw [hk]; exact List.mem_cons_self⟩
    rw [step.run_eq] at h
    have hrest := checkStreams_changed rest _ (fun heq => h (by
      rw [heq, update_of_ne hk]))
    rw [update_of_ne hk] at hrest
    exact ⟨hrest.1, List.mem_cons_of_mem _ hrest.2⟩

/-- What the second pass has done to the databases: what it changes is marked, and where
every group is there so are all its keys. -/
structure Delivered (now i : Nat) (e e' : Exec) (held : Bytes → Option Obj) (keys : List Bytes)
    (ready : Prop) : Prop where
  walk : ∃ marked, Walk i e e' 0 marked ∧ (∀ k, held k ≠ heldAt now (e.dbs i) k → marked k) ∧
    (ready → ∀ k ∈ keys, marked k)
  shown : ∀ k, shownAt now (e'.dbs i) k = (held k).map bareObj

theorem Delivered.stop {i : Nat} {e : Exec} {m : Bytes → Prop} (hwalk : Walk i e e' 0 m)
    (hheld : heldAt now (e'.dbs i) = heldAt now (e.dbs i)) (hready : ¬ ready) :
    Delivered now i e e' (heldAt now (e.dbs i)) keys ready where
  walk := ⟨m, hwalk, fun _ h => absurd rfl h, fun h => absurd h hready⟩
  shown := fun k => by rw [shownAt, hheld]

theorem Delivered.step {i : Nat} {e e₁ : Exec} {ready' : Prop} (hledger : LedgerAt i k e e₁ 0 m)
    (hsame : ¬ m → heldAt now (e₁.dbs i) = heldAt now (e.dbs i)) (hready : ready' → m ∧ ready)
    (h : Delivered now i e₁ e' held keys ready) : Delivered now i e e' held (k :: keys) ready' := by
  obtain ⟨marked, hwalk, hchanged, hkeys⟩ := h.walk
  refine ⟨⟨_, hledger.walk.trans hwalk, fun k' hne => ?_, fun hr k' hk' => ?_⟩, h.shown⟩
  · by_cases hk : k' = k ∧ m
    · exact .inl hk
    refine .inr (hchanged k' fun heq => hne (heq.trans ?_))
    by_cases hm : m
    · have hconf := hledger.here.confined
      exact heldAt_congr now (tier_of_confined hconf) (hconf.frame k' fun h => hk ⟨h, hm⟩)
    · rw [hsame hm]
  · obtain ⟨hm, hr'⟩ := hready hr
    rcases List.mem_cons.mp hk' with rfl | hk'
    · exact .inl ⟨rfl, hm⟩
    · exact .inr (hkeys hr' k' hk')

theorem readGroupPlan_reported (now : Nat) (idv : Bytes) (s : StreamObj) (g : Group) :
    ∃ s' ps, readGroupPlan a now idv s g = .reported s s' ps := ⟨_, _, rfl⟩

/-- The second pass does to the databases what `deliverStreams` does to what they hold. -/
theorem readGroupLoop_delivered (c : Ctx) : ∀ pairs e,
    ColdOk (e.dbs c.dbIndex) →
    Delivered c.now c.dbIndex e (runCmd c.now (readGroupLoop R c a pairs) e).2
      (deliverStreams R a c.now pairs (heldAt c.now (e.dbs c.dbIndex))) (pairKeys pairs)
      (GroupsReady a (heldAt c.now (e.dbs c.dbIndex)) pairs)
  | [], e, _ => ⟨⟨_, .refl c.dbIndex e, fun _ h => absurd rfl h, nofun⟩,
      fun _ => rfl⟩
  | (kv, vv) :: rest, e, hcold => by
    unfold readGroupLoop deliverStreams
    cases hkey : argStr kv with
    | none =>
      refine .stop (.refl c.dbIndex e) rfl fun hready => ?_
      obtain ⟨key, _, hk, -⟩ := hready (kv, vv) List.mem_cons_self
      rw [hkey] at hk
      cases hk
    | some key =>
      cases hidv : argStr vv with
      | none =>
        refine .stop (.refl c.dbIndex e) rfl fun hready => ?_
        obtain ⟨_, idv, -, hv, -⟩ := hready (kv, vv) List.mem_cons_self
        rw [hidv] at hv
        cases hv
      | some idv =>
        have hhead (hready : GroupsReady a (heldAt c.now (e.dbs c.dbIndex))
            ((kv, vv) :: rest)) : HasGroup a (heldAt c.now (e.dbs c.dbIndex)) key := by
          obtain ⟨key', _, hk, -, hgroup⟩ := hready (kv, vv) List.mem_cons_self
          rw [hkey] at hk
          cases hk
          exact hgroup
        have hkeys : pairKeys ((kv, vv) :: rest) = key :: pairKeys rest :=
          List.filterMap_cons_some hkey
        have hopened := getContainer_opened (R := R) (K := streamKind) c.now c key false hcold
        rw [hkeys]
        rw [runCmd_bind]
        rcases hrun : runCmd c.now (getContainer R streamKind c key false) e
          with ⟨err | _ | s, e₁⟩
        · -- a value of another type ends the pass
          rw [hrun] at hopened
          obtain ⟨hshut, hsome⟩ := hopened
          obtain ⟨w, hw⟩ := Option.isSome_iff_exists.mp (hsome rfl)
          have hof := hshut.held
          rw [hw, Option.bind_some] at hof
          simp only [hw, hof]
          obtain ⟨marked, hledger, -⟩ := hshut.ledger
          refine .stop hledger.walk hshut.same fun hready => ?_
          obtain ⟨s, mem, g, hs, -⟩ := hhead hready
          rw [hw] at hs
          cases hs
          cases hof
        · -- a key that is gone is passed over
          rw [hrun] at hopened
          obtain ⟨hshut, hnone⟩ := hopened
          simp only [hnone]
          obtain ⟨marked, hledger, -⟩ := hshut.ledger
          have hrest := readGroupLoop_delivered c rest e₁ hshut.cold
          rw [hshut.same] at hrest
          rw [runCmd_bind]
          refine hrest.step hledger (fun _ => hshut.same) fun hready => ?_
          obtain ⟨s, mem, g, hs, -⟩ := hhead hready
          rw [hnone] at hs
          cases hs
        rw [hrun] at hopened
        obtain ⟨t, hlive⟩ := Opened.live hopened
        obtain ⟨hheld, hledger⟩ := Opened.there hopened
        have hof : streamKind.ofObj (.boxed (streamKind.wrap s.1) s.2) = some s :=
          Kind.ofObj_eq_some.mpr rfl
        simp only [hheld, hof]
        cases hgroup : s.1.groups.get? a.group with
        | none =>
          have hlanded := landed hcold hledger.here.confined hlive rfl
          refine .stop hledger.walk (hlanded.held_same hheld) fun hready => ?_
          obtain ⟨s', mem, g, hs, hg⟩ := hhead hready
          rw [hheld] at hs
          cases hs
          rw [hgroup] at hg
          cases hg
        | some g =>
          obtain ⟨s', ps, hplan⟩ := readGroupPlan_reported c.now idv s.1 g
          obtain ⟨hplanned, -⟩ := runPlan_ledger
            (readGroupPlan a c.now idv s.1 g) hlive
          have hlive' := runPlan_live (R := R)
            (p := readGroupPlan a c.now idv s.1 g) hlive (by rw [hplan]; rfl)
          have hmarks : (readGroupPlan a c.now idv s.1 g).marks := by
            exact .inl rfl
          have howed : 0 + (readGroupPlan a c.now idv s.1 g).owed R streamKind s = 0 := by
            rw [hplan, Plan.owed_reported, add_zero]
          have hboth := (hledger.trans hplanned).congr howed
            (iff_of_true (.inr hmarks) trivial)
          have hlanded := landed hcold hboth.here.confined hlive' rfl
          have hrest := readGroupLoop_delivered c rest _ hlanded.cold
          rw [hlanded.held] at hrest
          rw [runCmd_bind, runCmd_bind]
          refine hrest.step hboth (fun h => absurd trivial h) fun hready => ?_
          refine ⟨trivial, fun q hq => ?_⟩
          obtain ⟨key', idv', hk, hv, hg⟩ := hready q (List.mem_cons_of_mem _ hq)
          exact ⟨key', idv', hk, hv, hg.update (readGroupPlan_group hgroup)⟩

/-- The condition on the arguments and the database under which XREADGROUP keeps its
books: the consumers it makes weigh nothing, and where streams change somebody watches and
the first pass gets through (or the key was cold). -/
def ReadGroupKeeps (R : Runtime) (argv : List RespValue) (now : Nat) (d : Db) : Prop :=
  match readGroupArgs argv with
  | .error _ => True
  | .ok a =>
    let w := checkStreams R a a.pairs (heldAt now d)
    let left := if w.passed then deliverStreams R a now a.pairs w.held else w.held
    w.owed = 0 ∧ ∀ k, (left k).map bareObj ≠ shownAt now d k →
      (w.passed = true ∨ isCold d k = true) ∧ 0 < d.watchRefs

theorem xreadgroupCommand_booked_iff (c : Ctx) (hcold : ColdOk (e.dbs c.dbIndex)) :
    (∀ n, Booked c.now (e.dbs n) ((runCmd c.now (xreadgroupCommand R c) e).2.dbs n)) ↔
      ReadGroupKeeps R c.argv c.now (e.dbs c.dbIndex) := by
  unfold xreadgroupCommand ReadGroupKeeps
  cases readGroupArgs c.argv with
  | error err => exact ⟨fun _ => trivial, fun _ n => .refl c.now _⟩
  | ok a =>
    obtain ⟨hchecked, hpassed⟩ := readGroupCheck_checked c.now c a.pairs e hcold
    obtain ⟨marked, hwalk, honly, hmarks⟩ := hchecked.walk
    dsimp only
    rw [runCmd_bind]
    have hchanged (k : Bytes) (hne : ((checkStreams R a a.pairs
        (heldAt c.now (e.dbs c.dbIndex))).held k).map bareObj
          ≠ shownAt c.now (e.dbs c.dbIndex) k) :=
      checkStreams_changed a.pairs _ fun heq => hne (by rw [heq, shownAt])
    rcases hcheck : runCmd c.now (readGroupCheck R c a a.pairs) e with ⟨_ | err, e₁⟩
    · rw [hcheck] at hchecked hpassed hwalk
      obtain ⟨hheld, hcold₁⟩ := hchecked.passed hpassed.symm
      have hdelivered := readGroupLoop_delivered (R := R) (a := a) c a.pairs e₁ hcold₁
      obtain ⟨marked₂, hwalk₂, hmoved, hkeys⟩ := hdelivered.walk
      have hshown := hdelivered.shown
      rw [hheld] at hmoved hkeys hshown
      have hready := hkeys (checkStreams_ready _ _ hpassed.symm)
      rw [← hpassed, runCmd_bind]
      refine (hwalk.trans hwalk₂).booked_iff.trans ?_
      refine and_congr (by rw [add_zero]) (forall_congr' fun k => ?_)
      rw [hshown k]
      refine imp_congr_right fun hne => and_congr_left fun _ => ?_
      refine iff_of_true (.inr ?_) (.inl rfl)
      by_cases hsame : deliverStreams R a c.now a.pairs
          (checkStreams R a a.pairs (heldAt c.now (e.dbs c.dbIndex))).held k
            = (checkStreams R a a.pairs (heldAt c.now (e.dbs c.dbIndex))).held k
      · rw [hsame] at hne
        exact hready k (hchanged k hne).2
      · exact hmoved k hsame
    · -- the consumers made so far stay
      rw [hcheck] at hchecked hpassed hwalk
      rw [← hpassed]
      refine hwalk.booked_iff.trans (and_congr_right fun _ => forall_congr' fun k => ?_)
      rw [hchecked.shown k]
      refine imp_congr_right fun hne => and_congr_left fun _ => ?_
      obtain ⟨hsome, -⟩ := hchanged k hne
      simp only [Option.isNone_some, Bool.false_eq_true, false_or]
      exact ⟨honly k hsome, hmarks k fun heq => hne (by rw [heq, shownAt])⟩

end Passes

/-! ## The commands -/

/-- The commands that edit a hash, a sorted set or streams through the object pointer. -/
inductive EditCommand
  | hsetex | hgetex | hexpire | hpexpire | hexpireat | hpexpireat | ttl (cmd : TtlCommand)
  | zadd | xgroup | xdel | xack | xclaim | xreadgroup

namespace EditCommand

def run (R : Runtime) (S : HashScan) (c : Ctx) : EditCommand → Cmd Unit
  | .hsetex => do let _ ← inPlace R hashKind c (hsetexRequest S c.argv c.now)
  | .hgetex => do let _ ← inPlace R hashKind c (hgetexRequest S c.argv c.now)
  | .hexpire => do let _ ← inPlace R hashKind c (Server.hexpire S c.argv c.now)
  | .hpexpire => do let _ ← inPlace R hashKind c (Server.hpexpire S c.argv c.now)
  | .hexpireat => do let _ ← inPlace R hashKind c (Server.hexpireat S c.argv c.now)
  | .hpexpireat => do let _ ← inPlace R hashKind c (Server.hpexpireat S c.argv c.now)
  | .ttl cmd => do let _ ← inPlace R hashKind c (httlRequest S cmd c.argv c.now)
  | .zadd => do let _ ← zaddCommand R c
  | .xgroup => do let _ ← inPlace R streamKind c ((xgroupRequest c.argv).mapError piecesOf)
  | .xdel => do let _ ← inPlace R streamKind c ((xdelRequest c.argv).mapError piecesOf)
  | .xack => do let _ ← inPlace R streamKind c ((xackRequest c.argv).mapError piecesOf)
  | .xclaim => do let _ ← inPlace R streamKind c ((xclaimRequest c.argv c.now).mapError piecesOf)
  | .xreadgroup => do let _ ← xreadgroupCommand R c

def Keeps (R : Runtime) (S : HashScan) (argv : List RespValue) (now : Nat) (d : Db) :
    EditCommand → Prop
  | .hsetex => KeepsBooks R hashKind now d (hsetexRequest S argv now)
  | .hgetex => KeepsBooks R hashKind now d (hgetexRequest S argv now)
  | .hexpire => KeepsBooks R hashKind now d (Server.hexpire S argv now)
  | .hpexpire => KeepsBooks R hashKind now d (Server.hpexpire S argv now)
  | .hexpireat => KeepsBooks R hashKind now d (Server.hexpireat S argv now)
  | .hpexpireat => KeepsBooks R hashKind now d (Server.hpexpireat S argv now)
  | .ttl cmd => KeepsBooks R hashKind now d (httlRequest S cmd argv now)
  | .zadd => KeepsBooks R zsetKind now d (zaddRequest R argv)
  | .xgroup => KeepsBooks R streamKind now d (xgroupRequest argv)
  | .xdel => KeepsBooks R streamKind now d (xdelRequest argv)
  | .xack => KeepsBooks R streamKind now d (xackRequest argv)
  | .xclaim => KeepsBooks R streamKind now d (xclaimRequest argv now)
  | .xreadgroup => ReadGroupKeeps R argv now d

end EditCommand

theorem runCmd_discard {α : Type} (now : Nat) (p : Cmd α) (e : Exec) :
    (runCmd now (do let _ ← p) e).2 = (runCmd now p e).2 := by
  rw [runCmd_bind]
  rfl

theorem KeepsBooks_mapError {α : Type} [DecidableEq α] {R : Runtime} {K : Kind α} {now : Nat}
    {d : Db} (r : Except RespValue (Request α)) :
    KeepsBooks R K now d (r.mapError piecesOf) ↔ KeepsBooks R K now d r := by
  cases r <;> rfl

def noScan : HashScan where
  lim := ⟨128, 64⟩
  visit := fun _ _ => []
  expired := fun _ _ _ h => by cases h

def dbWithStream (s : StreamObj) : Db :=
  { dbSetKv dbInit (text "s") (.boxed (.stream s) 0) false with watchRefs := 1 }

def groupStream : StreamObj := setGroup objStreamNew ⟨text "g", 0, 0, 0, Unique.empty _⟩

end Ddup.Server
