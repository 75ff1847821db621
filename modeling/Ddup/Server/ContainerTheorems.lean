/-
Ddup.Server.ContainerTheorems — what a ZADD or XADD that replies with an error has
done.

Both commands fetch the object first and create it where it is missing, then read
the rest of their arguments: an error found there comes too late. The conditions
`ZaddSpoils` and `XaddSpoils` say which arguments meet which databases that way.
-/
import Ddup.Server.Containers
import Ddup.Server.Loop
import Ddup.Server.ReadTheorems

namespace Ddup.Server

open Ddup.Lib Ddup.Resp Ddup.Command Ddup.Store

variable {α : Type} {R : Runtime} {s m : RespValue}
variable {a : XaddArgs} {argv : List RespValue} {err : RespValue} {p : UInt64 × Bytes} {v : Obj}

/-! ## Fetching a container -/

/-- What `get_zset` and `get_stream` answer and leave: every read as before, or a new
object under a key no read showed. -/
inductive Fetched {α : Type} (R : Runtime) (K : Kind α) (now i : Nat) (k : Bytes) (create : Bool)
    (dbs dbs' : Nat → Db) : Except RespValue (Option (α × UInt64)) → Prop
  | refused (same : SameData now dbs dbs') (shown : readDb (dbs i) now k ≠ none)
      (kind : ∀ a t, readDb (dbs i) now k ≠ some (.boxed (K.wrap a) 0, t)) :
      Fetched R K now i k create dbs dbs' (.error wrongType)
  | missing (same : SameData now dbs dbs') (shown : readDb (dbs i) now k = none)
      (asked : create = false) : Fetched R K now i k create dbs dbs' (.ok none)
  | old (a : α) (mem : UInt64) (t : Option Nat) (same : SameData now dbs dbs')
      (shown : readDb (dbs i) now k = some (.boxed (K.wrap a) 0, t))
      (live : (dbs' i).live now k = some (.boxed (K.wrap a) mem, t)) :
      Fetched R K now i k create dbs dbs' (.ok (some (a, mem)))
  | made (shown : readDb (dbs i) now k = none) (asked : create = true)
      (live : (dbs' i).live now k = some (K.freshObj R, none)) :
      Fetched R K now i k create dbs dbs' (.ok (some (K.fresh, R.newMem (K.wrap K.fresh))))

theorem Kind.ofObj_eq_some {K : Kind α} {a : α × UInt64} :
    K.ofObj v = some a ↔ v = .boxed (K.wrap a.1) a.2 := by
  cases v with
  | boxed x mem =>
    obtain ⟨a, m⟩ := a
    simp only [Kind.ofObj, Option.map_eq_some_iff, K.unwrap_eq, Prod.mk.injEq, Obj.boxed.injEq]
    constructor
    · rintro ⟨b, rfl, rfl, rfl⟩
      exact ⟨rfl, rfl⟩
    · rintro ⟨rfl, rfl⟩
      exact ⟨a, rfl, rfl, rfl⟩
  | _ => simp [Kind.ofObj]

theorem Kind.wrap_injective (K : Kind α) {a b : α} (h : K.wrap a = K.wrap b) : a = b :=
  Option.some.inj (((K.unwrap_eq (K.wrap a) a).mpr rfl).symm.trans
    ((K.unwrap_eq (K.wrap a) b).mpr h))

theorem bareObj_eq_boxed {x : Container} (h : bareObj v = .boxed x 0) :
    ∃ mem, v = .boxed x mem := by
  cases v with
  | boxed y mem =>
    cases h
    exact ⟨mem, rfl⟩
  | _ => cases h

theorem getContainer_fetched (R : Runtime) (K : Kind α) (c : Ctx) {k : Bytes} (create : Bool)
    {e : Exec} (hcold : ColdOk (e.dbs c.dbIndex)) (hk : k.length ≤ uint32Max) (now : Nat) :
    Fetched R K now c.dbIndex k create e.dbs (runCmd now (getContainer R K c k create) e).2.dbs
      (runCmd now (getContainer R K c k create) e).1 := by
  obtain ⟨hsame, hfound⟩ := dbGet_read hcold k now
  have hconf := dbGet_confined (e.dbs c.dbIndex) k now
  have hsame' : SameData now e.dbs
      (e.commit now c.dbIndex k (dbGet (e.dbs c.dbIndex) k now).1).dbs :=
    sameData_commit hconf (hsame k)
  unfold getContainer
  rw [runCmd_bind, runCmd_get]
  cases hget : (dbGet (e.dbs c.dbIndex) k now).2 with
  | some v =>
    rw [hget] at hfound
    obtain ⟨hhot, t, hlive, hshown⟩ := hfound
    dsimp only
    cases hof : K.ofObj v with
    | some a =>
      obtain rfl := Kind.ofObj_eq_some.mp hof
      refine .old a.1 a.2 t hsame' hshown ?_
      show (Function.update e.dbs c.dbIndex _ c.dbIndex).live now k = _
      rw [Function.update_self]
      exact hlive
    | none =>
      refine .refused hsame' (by rw [hshown]; simp) fun a t' hshown' => ?_
      rw [hshown] at hshown'
      obtain ⟨mem, rfl⟩ := bareObj_eq_boxed (congrArg Prod.fst (Option.some.inj hshown'))
      rw [Kind.ofObj_eq_some (a := (a, mem)).mpr rfl] at hof
      cases hof
  | none =>
    rw [hget] at hfound
    cases create with
    | false => exact .missing hsame' hfound rfl
    | true =>
      have hfits : storable k (K.freshObj R) = true := by
        simp only [storable, Kind.freshObj, Obj.vlen, Bool.and_eq_true, decide_eq_true_eq]
        exact ⟨hk, by simp [uint32Max]⟩
      rw [if_neg (by simp), runCmd_bind, runCmd_setKv, hfits]
      refine .made hfound rfl ?_
      show (Function.update (Function.update e.dbs _ _) c.dbIndex _ c.dbIndex).live now k = _
      rw [Function.update_self, live_of_entry (dbSetKv_entry _ false hfits)]
      rfl

/-! ## ZADD -/

def goodPairs (R : Runtime) : List RespValue → List (UInt64 × Bytes)
  | s :: m :: rest =>
    match zaddPair R s m with
    | .ok p => p :: goodPairs R rest
    | .error _ => []
  | _ => []

def hasBadPair (R : Runtime) : List RespValue → Bool
  | s :: m :: rest =>
    match zaddPair R s m with
    | .ok _ => hasBadPair R rest
    | .error _ => true
  | _ => false

def applyPair (f : ZaddFlags) (z : ZsetObj) (p : UInt64 × Bytes) : ZsetObj :=
  if f.skips (zsetScore z p.2) p.1 then z else (objZsetAdd z p.2 p.1).getD z

def isErrorReply : RespValue → Bool
  | .error _ => true
  | _ => false

theorem zaddPair_error (h : zaddPair R s m = .error err) : isErrorReply err = true := by
  unfold zaddPair at h
  split at h
  · split at h
    · cases h; rfl
    split at h
    · cases h; rfl
    · cases h
  · cases h; rfl

theorem zaddPair_length (h : zaddPair R s m = .ok p) : p.2.length ≤ uint32Max := by
  unfold zaddPair at h
  split at h
  · split at h
    · cases h
    split at h
    · cases h
    rename_i hlen
    cases h
    exact Nat.le_of_not_lt hlen
  · cases h

theorem zaddPair_notNan (h : zaddPair R s m = .ok p) : isNan p.1 = false := by
  unfold zaddPair at h
  split at h
  · split at h
    · cases h
    rename_i score hparse
    split at h
    · cases h
    cases h
    unfold parseDouble at hparse
    split at hparse
    · cases hparse
    · simpa using (Option.filter_eq_some_iff.mp hparse).2
  · cases h

theorem objZsetAdd_isSome {z : ZsetObj} {m : Bytes} (h : m.length ≤ uint32Max) (score : UInt64) :
    ∃ z', objZsetAdd z m score = some z' := by
  unfold objZsetAdd
  rw [if_neg (Nat.not_lt.mpr h)]
  split
  · exact ⟨z, rfl⟩
  · exact ⟨_, rfl⟩

/-- How many of the pairs, applied one after the other, are not skipped and meet an old score
and a new one with `p`. -/
def countPairs (f : ZaddFlags) (p : Option UInt64 → UInt64 → Bool) :
    List (UInt64 × Bytes) → ZsetObj → Nat
  | [], _ => 0
  | (s, m) :: ps, z =>
    (!f.skips (zsetScore z m) s && p (zsetScore z m) s).toNat
      + countPairs f p ps (applyPair f z (s, m))

inductive LoopEnd (n : Nat × Nat) : Bool → Except RespValue (Nat × Nat) → Prop
  | failed (err : RespValue) (h : isErrorReply err = true) : LoopEnd n true (.error err)
  | finished : LoopEnd n false (.ok n)

/-- The pair loop applies the pairs in front of the first bad one, and reports that or counts. -/
theorem zaddLoop_spec (R : Runtime) (f : ZaddFlags) :
    ∀ rest z added changed,
      (zaddLoop R f rest z added changed).1 = (goodPairs R rest).foldl (applyPair f) z ∧
        LoopEnd (added + countPairs f (fun old _ => old.isNone) (goodPairs R rest) z,
            changed + countPairs f (fun _ _ => true) (goodPairs R rest) z)
          (hasBadPair R rest) (zaddLoop R f rest z added changed).2
  | s :: m :: rest, z, added, changed => by
    unfold zaddLoop goodPairs hasBadPair
    cases hpair : zaddPair R s m with
    | error err => exact ⟨rfl, .failed err (zaddPair_error hpair)⟩
    | ok p =>
      obtain ⟨score, mv⟩ := p
      dsimp only
      rw [List.foldl_cons]
      obtain ⟨z', hz'⟩ := objZsetAdd_isSome (zaddPair_length hpair) score
      by_cases hskip : f.skips (zsetScore z mv) score = true
      · have happly : applyPair f z (score, mv) = z := if_pos hskip
        rw [countPairs, countPairs, happly, hskip]
        simpa using zaddLoop_spec R f rest z added changed
      have happly : applyPair f z (score, mv) = z' := by
        rw [applyPair, if_neg hskip, hz', Option.getD_some]
      rw [countPairs, countPairs, happly, hz', Bool.eq_false_iff.mpr hskip]
      simpa [Nat.add_assoc] using
        zaddLoop_spec R f rest z' (added + (zsetScore z mv).isNone.toNat) (changed + 1)
  | [], z, _, _ => ⟨rfl, .finished⟩
  | [_], z, _, _ => ⟨rfl, .finished⟩

def zaddOn (R : Runtime) (f : ZaddFlags) (rest : List RespValue) (z : ZsetObj) :
    ZsetObj × Except RespValue Nat :=
  let r := zaddLoop R f rest z 0 0
  (r.1, r.2.map fun n => if f.ch then n.2 else n.1)

def sameScore (old : Option UInt64) (score : UInt64) : Bool := old.any (scoreEq · score)

theorem countPairs_split (f : ZaddFlags) (p : Option UInt64 → UInt64 → Bool)
    (ps : List (UInt64 × Bytes)) (z : ZsetObj) : countPairs f (fun _ _ => true) ps z
      = countPairs f (fun o s => !p o s) ps z + countPairs f p ps z := by
  induction ps generalizing z with
  | nil => rfl
  | cons x ps ih =>
    simp only [countPairs, ih]
    cases f.skips (zsetScore z x.2) x.1 <;> cases p (zsetScore z x.2) x.1 <;> simp <;> omega

def zeroRuntime : Runtime :=
  ⟨fun _ => some 0, fun a _ => a, fun _ => [], fun _ => 0, fun _ _ _ => 0⟩

theorem zaddArgs_length {k : Bytes} {f : ZaddFlags}
    {rest : List RespValue} (h : zaddArgs argv = .ok (k, f, rest)) :
    k.length ≤ uint32Max ∧ (f.incr = true → rest.length = 2) := by
  unfold zaddArgs at h
  split at h
  · cases h
  split at h
  · cases h
  split at h
  · cases h
  rename_i hlen
  split at h
  · cases h
  split at h
  · split at h
    · cases h
    rename_i hrest
    cases h
    exact ⟨Nat.le_of_not_lt hlen, fun _ => not_not.mp hrest⟩
  · split at h
    · cases h
    rename_i hincr _
    cases h
    exact ⟨Nat.le_of_not_lt hlen, fun hi => absurd hi hincr⟩

/-- ZADD without INCR finds a bad pair after it has created its sorted set, or after
earlier pairs have changed it. -/
def ZaddSpoils (R : Runtime) (argv : List RespValue) (now : Nat) (d : Db) : Prop :=
  ∃ k f rest, zaddArgs argv = .ok (k, f, rest) ∧ f.incr = false ∧ hasBadPair R rest = true ∧
    ((f.xx = false ∧ readDb d now k = none) ∨
      ∃ z t, readDb d now k = some (.boxed (.zset z) 0, t) ∧
        (goodPairs R rest).foldl (applyPair f) z ≠ z)

/-! ## Editing a container -/

section Editing

variable {α : Type} [DecidableEq α] {R : Runtime} {K : Kind α} {c : Ctx} {k : Bytes} {now : Nat}
  {dbs : Nat → Db} {e : Exec} {w : Obj} {t : Option Nat}

theorem editContainer_read (old : α × UInt64) (new : α) (synced : Bool)
    (hlive : (e.dbs c.dbIndex).live now k = some (w, t)) :
    readDb ((runCmd now (editContainer R K c k old new synced) e).2.dbs c.dbIndex) now k
      = some (.boxed (K.wrap new) 0, t) := by
  rw [editContainer, runCmd_edit, commit_read_self]
  exact keyStep_edit_read synced hlive rfl

theorem editContainer_same_iff (mem : UInt64) (a new : α) (synced : Bool)
    (hsame : SameData now dbs e.dbs)
    (hshown : readDb (dbs c.dbIndex) now k = some (.boxed (K.wrap a) 0, t))
    (hlive : (e.dbs c.dbIndex).live now k = some (.boxed (K.wrap a) mem, t)) :
    SameData now dbs (runCmd now (editContainer R K c k (a, mem) new synced) e).2.dbs
      ↔ new = a := by
  have hread := editContainer_read (R := R) (K := K) (a, mem) new synced hlive
  constructor
  · intro h
    have hkey := h c.dbIndex k
    rw [hread, hshown] at hkey
    simp only [Option.some.injEq, Prod.mk.injEq, Obj.boxed.injEq, and_true] at hkey
    exact K.wrap_injective hkey
  · rintro rfl
    refine hsame.trans ?_
    refine sameData_commit (keyStep_confined now k _ (e.dbs c.dbIndex)) ?_
    rw [editContainer, runCmd_edit, commit_read_self] at hread
    exact hread.trans (hshown.symm.trans (hsame c.dbIndex k).symm)

theorem editContainer_not_same (old : α × UInt64) (new : α) (synced : Bool)
    (hshown : readDb (dbs c.dbIndex) now k = none)
    (hlive : (e.dbs c.dbIndex).live now k = some (w, t)) :
    ¬ SameData now dbs (runCmd now (editContainer R K c k old new synced) e).2.dbs := by
  intro h
  have hkey := h c.dbIndex k
  rw [editContainer_read old new synced hlive, hshown] at hkey
  cases hkey

end Editing

def FailsClean (now : Nat) (p : Cmd Outcome) (e : Exec) : Prop :=
  (runCmd now p e).1.replies.any isErrorReply = true → SameData now e.dbs (runCmd now p e).2.dbs

theorem failsClean_reply (now : Nat) (v : RespValue) (e : Exec) : FailsClean now (reply v) e :=
  fun _ _ _ => rfl

theorem zaddPairs_failsClean_iff (R : Runtime) (c : Ctx) {k : Bytes} (f : ZaddFlags)
    (rest : List RespValue) {e : Exec} (hcold : ColdOk (e.dbs c.dbIndex))
    (hk : k.length ≤ uint32Max) (now : Nat) :
    FailsClean now (zaddPairs R c k f rest) e ↔
      ¬ (hasBadPair R rest = true ∧ ((f.xx = false ∧ readDb (e.dbs c.dbIndex) now k = none) ∨
        ∃ z t, readDb (e.dbs c.dbIndex) now k = some (.boxed (.zset z) 0, t) ∧
          (goodPairs R rest).foldl (applyPair f) z ≠ z)) := by
  have hfetch := getContainer_fetched R zsetKind c (!f.xx) hcold hk now
  unfold FailsClean zaddPairs
  rw [runCmd_bind]
  generalize runCmd now (getContainer R zsetKind c k !f.xx) e = r at hfetch ⊢
  obtain ⟨ans, e₁⟩ := r
  cases hfetch with
  | refused same shown kind =>
    refine iff_of_true (fun _ => same) ?_
    rintro ⟨-, ⟨-, hnone⟩ | ⟨z, t, hz, -⟩⟩
    · exact shown hnone
    · exact kind z t hz
  | missing same shown asked =>
    refine iff_of_true nofun ?_
    rintro ⟨-, ⟨hxx, -⟩ | ⟨z, t, hz, -⟩⟩
    · rw [hxx] at asked
      cases asked
    · rw [shown] at hz
      cases hz
  | old a mem t same shown live =>
    obtain ⟨hz, hend⟩ := zaddLoop_spec R f rest a 0 0
    dsimp only
    generalize zaddLoop R f rest a 0 0 = l at hz hend ⊢
    obtain ⟨z', res⟩ := l
    generalize hasBadPair R rest = bad at hend ⊢
    have hz' : (goodPairs R rest).foldl (applyPair f) a = z' := hz.symm
    cases hend with
    | failed err herr =>
      have hiff := editContainer_same_iff (R := R) mem a z' false same shown live
      rw [runCmd_bind, runCmd_reply]
      simp only [List.any_cons, herr, Bool.true_or, true_implies, hiff, shown]
      constructor
      · rintro rfl ⟨-, ⟨-, hnone⟩ | ⟨z, t', hshown, hne⟩⟩
        · cases hnone
        · cases hshown
          exact hne hz'
      · intro h
        by_contra hne
        exact h ⟨trivial, .inr ⟨a, t, rfl, fun heq => hne (hz'.symm.trans heq)⟩⟩
    | finished =>
      refine iff_of_true (fun herr => ?_) nofun
      cases herr
  | made shown asked live =>
    obtain ⟨-, hend⟩ := zaddLoop_spec R f rest zsetKind.fresh 0 0
    dsimp only
    generalize zaddLoop R f rest zsetKind.fresh 0 0 = l at hend ⊢
    obtain ⟨z', res⟩ := l
    generalize hasBadPair R rest = bad at hend ⊢
    cases hend with
    | failed err herr =>
      have hnot := editContainer_not_same (R := R) (K := zsetKind)
        (zsetKind.fresh, R.newMem (zsetKind.wrap zsetKind.fresh)) z' false shown live
      have hxx : f.xx = false := by simpa using asked
      refine iff_of_false (fun h => hnot (h ?_)) (fun h => h ⟨rfl, .inl ⟨hxx, shown⟩⟩)
      simp only [runCmd_bind, runCmd_reply, List.any_cons, herr, Bool.true_or]
    | finished =>
      refine iff_of_true (fun herr => ?_) nofun
      cases herr

/-- ZADD with INCR reads its pair before it fetches the key, and the sum of a new
member is the score itself. -/
theorem zaddIncr_failsClean (R : Runtime) (c : Ctx) {k : Bytes} (f : ZaddFlags) (s m : RespValue)
    {e : Exec} (hcold : ColdOk (e.dbs c.dbIndex)) (hk : k.length ≤ uint32Max) (now : Nat) :
    FailsClean now (zaddIncr R c k f s m) e := by
  unfold zaddIncr
  cases hpair : zaddPair R s m with
  | error err => exact failsClean_reply now err e
  | ok p =>
    obtain ⟨score, mv⟩ := p
    have hfetch := getContainer_fetched R zsetKind c (!f.xx) hcold hk now
    unfold FailsClean
    rw [runCmd_bind]
    generalize runCmd now (getContainer R zsetKind c k !f.xx) e = r at hfetch ⊢
    obtain ⟨ans, e₁⟩ := r
    cases hfetch with
    | refused same shown kind => exact fun _ => same
    | missing same shown asked => exact nofun
    | old a mem t same shown live =>
      obtain ⟨z', hz'⟩ := objZsetAdd_isSome (zaddPair_length hpair)
        (((zsetScore a mv).map fun o => R.fadd o score).getD score)
      dsimp only
      split
      · exact fun _ => same
      split
      · exact nofun
      · rw [hz']
        exact nofun
    | made shown asked live =>
      obtain ⟨z', hz'⟩ := objZsetAdd_isSome (zaddPair_length hpair) score
      have hold : zsetScore zsetKind.fresh mv = none := rfl
      dsimp only
      rw [hold]
      dsimp
      rw [if_neg (by rw [zaddPair_notNan hpair]; simp), hz']
      split
      · exact nofun
      · exact nofun

theorem zaddCommand_failsClean_iff (R : Runtime) (c : Ctx) {e : Exec}
    (hcold : ColdOk (e.dbs c.dbIndex)) (now : Nat) :
    FailsClean now (zaddCommand R c) e ↔ ¬ ZaddSpoils R c.argv now (e.dbs c.dbIndex) := by
  unfold zaddCommand
  cases hargs : zaddArgs c.argv with
  | error err =>
    refine iff_of_true (failsClean_reply now err e) ?_
    rintro ⟨k, f, rest, hok, -⟩
    rw [hargs] at hok
    cases hok
  | ok a =>
    obtain ⟨k, f, rest⟩ := a
    obtain ⟨hk, htwo⟩ := zaddArgs_length hargs
    have hspoils : ZaddSpoils R c.argv now (e.dbs c.dbIndex) ↔ f.incr = false ∧
        hasBadPair R rest = true ∧ ((f.xx = false ∧ readDb (e.dbs c.dbIndex) now k = none) ∨
          ∃ z t, readDb (e.dbs c.dbIndex) now k = some (.boxed (.zset z) 0, t) ∧
            (goodPairs R rest).foldl (applyPair f) z ≠ z) := by
      constructor
      · rintro ⟨k', f', rest', hok, h⟩
        cases hargs.symm.trans hok
        exact h
      · exact fun h => ⟨k, f, rest, hargs, h⟩
    rw [hspoils]
    dsimp only
    cases hincr : f.incr with
    | true =>
      obtain ⟨s, m, rfl⟩ := List.length_eq_two.mp (htwo hincr)
      exact iff_of_true (zaddIncr_failsClean R c f s m hcold hk now) nofun
    | false =>
      rw [zaddPairs_failsClean_iff R c f rest hcold hk now]
      simp

/-! ## XADD -/

/-- XADD creates its stream and then refuses the id or the fields. -/
def XaddSpoils (argv : List RespValue) (now : Nat) (d : Db) : Prop :=
  ∃ a, xaddArgs argv = .ok a ∧ a.nomkstream = false ∧ readDb d now a.key = none ∧
    ∃ err, xaddEntry a now objStreamNew = .error err

theorem xaddArgs_length (h : xaddArgs argv = .ok a) : a.key.length ≤ uint32Max := by
  unfold xaddArgs at h
  split at h
  · cases h
  split at h
  · cases h
  split at h
  · cases h
  rename_i hlen
  split at h
  · cases h
  · cases h
  split at h
  · cases h
  split at h
  · cases h
  · cases h
    exact Nat.le_of_not_lt hlen

theorem streamParseXaddId_error {s : StreamObj} {now : Nat} {id : Bytes}
    (h : streamParseXaddId s now id = .error err) : isErrorReply err = true := by
  unfold streamParseXaddId at h
  dsimp only at h
  split at h
  · cases h
  split at h
  · split at h
    · cases h; rfl
    split at h
    · cases h; rfl
    · cases h
  · split at h
    · cases h; rfl
    split at h
    · cases h
    · cases h; rfl

theorem xaddEntry_error {now : Nat} {s : StreamObj}
    (h : xaddEntry a now s = .error err) : isErrorReply err = true := by
  unfold xaddEntry at h
  split at h
  · rename_i hid
    cases h
    exact streamParseXaddId_error hid
  split at h
  · cases h; rfl
  split at h
  · cases h; rfl
  · cases h

theorem xaddCommand_failsClean_iff (R : Runtime) (c : Ctx) {e : Exec}
    (hcold : ColdOk (e.dbs c.dbIndex)) :
    FailsClean c.now (xaddCommand R c) e ↔ ¬ XaddSpoils c.argv c.now (e.dbs c.dbIndex) := by
  unfold xaddCommand
  cases hargs : xaddArgs c.argv with
  | error err =>
    refine iff_of_true (failsClean_reply c.now err e) ?_
    rintro ⟨a, hok, -⟩
    rw [hargs] at hok
    cases hok
  | ok a =>
    have hfetch := getContainer_fetched R streamKind c (!a.nomkstream) hcold
      (xaddArgs_length hargs) c.now
    have hspoils : XaddSpoils c.argv c.now (e.dbs c.dbIndex) ↔ a.nomkstream = false ∧
        readDb (e.dbs c.dbIndex) c.now a.key = none ∧
          ∃ err, xaddEntry a c.now objStreamNew = .error err := by
      constructor
      · rintro ⟨a', hok, h⟩
        cases hargs.symm.trans hok
        exact h
      · exact fun h => ⟨a, hargs, h⟩
    rw [hspoils]
    unfold FailsClean
    rw [runCmd_bind]
    generalize runCmd c.now (getContainer R streamKind c a.key !a.nomkstream) e = r at hfetch ⊢
    obtain ⟨ans, e₁⟩ := r
    cases hfetch with
    | refused same shown kind => exact iff_of_true (fun _ => same) (fun h => shown h.2.1)
    | missing same shown asked =>
      refine iff_of_true nofun (fun h => ?_)
      rw [h.1] at asked
      cases asked
    | old s mem t same shown live =>
      refine iff_of_true ?_ (fun h => by rw [h.2.1] at shown; cases shown)
      dsimp only
      -- a stream that was there is edited only once all is well
      cases xaddEntry a c.now s with
      | error err => exact fun _ => same
      | ok r => exact nofun
    | made shown asked live =>
      have hmk : a.nomkstream = false := by simpa using asked
      have hfresh : streamKind.fresh = objStreamNew := rfl
      dsimp only
      rw [hfresh]
      cases hentry : xaddEntry a c.now objStreamNew with
      | error err =>
        refine iff_of_false (fun h => ?_) (fun h => h ⟨hmk, shown, err, rfl⟩)
        have hsame := h (by simp [runCmd_reply, xaddEntry_error hentry]) c.dbIndex a.key
        rw [shown] at hsame
        cases (readEntry_hot live rfl).symm.trans hsame
      | ok r =>
        refine iff_of_true nofun ?_
        rintro ⟨-, -, err, herr⟩
        cases herr

/-! ## Both commands -/

inductive ContainerWrite
  | zadd | xadd

namespace ContainerWrite

def command (R : Runtime) : ContainerWrite → Ctx → Cmd Outcome
  | .zadd => zaddCommand R
  | .xadd => xaddCommand R

/-- The arguments are found wrong only after the database has changed. -/
def Spoils (R : Runtime) (argv : List RespValue) (now : Nat) (d : Db) : ContainerWrite → Prop
  | .zadd => ZaddSpoils R argv now d
  | .xadd => XaddSpoils argv now d

end ContainerWrite

def oneRuntime : Runtime where
  strtod := fun s => if s = text "1" then some 0x3FF0000000000000 else none
  fadd := fun a _ => a
  fmtScore := fun _ => text "1"
  newMem := fun _ => 0
  editMem := fun _ mem _ => mem

def execOn (d : Db) : Exec :=
  { bootState 1 (fun _ => openUser) fun _ _ => none with
    dbs := fun _ => d, s := sessionInit, others := [], origin := .top }

def ctxOf (argv : List RespValue) : Ctx := ⟨argv, 0, 0, 1, false⟩

def dbWithZset : Db :=
  dbSetKv dbInit (text "k") (.boxed (.zset ((Unique.empty _).put (text "a", 0x3FF0000000000000))) 0)
    false

end Ddup.Server
