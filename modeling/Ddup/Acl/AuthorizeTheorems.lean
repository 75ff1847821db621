/-
Ddup.Acl.AuthorizeTheorems — what an accepted request says about its keys.

`cmd_keys_accum` and `acl_authorize` each find the keys of a command by a case
analysis of their own. `unchecked` is where the two disagree: the key positions
of the first that the second does not hold against the user's patterns. The
commands behind the pairs of shapes it lists:

  * no key check at all: the keyless commands, the channel commands, PUBSUB,
    MEMORY, DEBUG, OBJECT and MIGRATE, whose first argument `cmd_keys_accum`
    reads as a key;
  * WATCH from the second key on, SUNIONCARD and SDIFFCARD, PFDEBUG's key,
    XINFO HELP, BITOP's operation word;
  * SINTERSTORE, SUNIONSTORE and SDIFFSTORE, read as if they had a `numkeys`;
  * GEOSEARCHSTORE's destination, accepted when some pattern does NOT match it;
  * SORT, GEORADIUS, XREAD and HIMPORT when the option word is not in upper
    case, or a lower-case one stands before an upper-case one.

On every other key position an accepted request is checked (`key_covered`).
-/
import Ddup.Acl.Authorize

namespace Ddup.Acl

open Ddup.Resp Ddup.Command
open Bool (and_eq_true)
open List (mem_range'_1 range')

variable {i : Nat} {n start : Nat}

/-! ## The two case analyses side by side -/

def compatible : KeyShape → AclShape → Bool
  | .first, .channels _ _ | .first, .pubsub | .first, .keyless | .first, .memory
  | .first, .debug | .first, .migrate | .first, .object | .first, .one => true
  | .second, .xinfo | .second, .xgroup | .second, .one => true
  | .numkeysStrict, .script => true
  | .numkeysStrict, .mpop n => n == 2
  | .streams, .streams | .himport, .himport | .msetex, .msetex => true
  | .firstTwo, .zrangestore | .firstTwo, .geosearchstore | .firstTwo, .two => true
  | .numkeysCut, .mpop n => n == 1
  | .numkeysCut, .card | .numkeysCut, .one => true
  | .sort a, .sort b => a == b
  | .all, .destNumkeys | .all, .all | .all, .one | .all, .bitop => true
  | .destNumkeys, .destNumkeys | .butLast, .butLast | .pairs, .pairs => true
  | .georadius _, .georadius => true
  | _, _ => false

theorem shapes_compatible (id : CmdId) : compatible (cmdKeyShape id) (aclShape id) = true := by
  cases id <;> decide

/-- Whether `acl_authorize` leaves key position `i` unchecked. -/
def unchecked (argv : List RespValue) : KeyShape → AclShape → Nat → Bool
  | .first, .one, _ => false
  | .first, .object, _ => 3 ≤ argv.length || argv[1]?.any (exactWord (text "HELP"))
  | .first, _, _ => true
  | .second, .one, _ => true
  | .second, .xinfo, _ => argv[1]?.any (exactWord (text "HELP"))
  | .himport, _, _ => !argv[1]?.any (exactWord (text "SET"))
  | .streams, _, _ =>
    findArg (isOption (text "STREAMS")) argv 1 argv.length
      != findArg (exactWord (text "STREAMS")) argv 1 argv.length
  | .firstTwo, .geosearchstore, i => i == 1
  | .numkeysCut, .one, _ => true
  | .sort _, _, i =>
    i != 1 && findArg (isOption (text "STORE")) argv 2 (argv.length - 1)
      != findArg (exactWord (text "STORE")) argv 2 (argv.length - 1)
  | .georadius start, _, i =>
    i != 1 && findArg (fun v => isOption (text "STORE") v || isOption (text "STOREDIST") v)
        argv start (argv.length - 1)
      != findArg (fun v => exactWord (text "STORE") v || exactWord (text "STOREDIST") v)
        argv 2 (argv.length - 1)
  | .all, .one, i => 2 ≤ i
  | .all, .bitop, i => i == 1
  | .all, .destNumkeys, i => i == 2 || ((aclNumkeys argv 2).any fun nk => 3 + nk ≤ (i : Int))
  | _, _, _ => false

def skippedKeys (argv : List RespValue) : List Bytes :=
  if (argAt argv 0).isNone ∨ argv.length < 2 then []
  else
    let ks := cmdKeyShape (argvCmd argv)
    ((keyPositions argv ks).filter (unchecked argv ks (aclShape (argvCmd argv)))).filterMap
      (argAt argv)

/-! ## Checked positions -/

/-- Position `i` holds no string, or one that matches a pattern. -/
def Covered (u : AclUser) (argv : List RespValue) (i : Nat) : Prop :=
  ∀ b, argAt argv i = some b → u.matchesKey b = true

theorem keysOk_covered {u : AclUser} {argv : List RespValue} {ps : List Nat}
    (h : u.keysOk argv ps = true) (hi : i ∈ ps) : Covered u argv i := by
  intro b hb
  have hok := List.all_eq_true.mp h i hi
  cases hv : argv[i]? with
  | none => simp [argAt, hv] at hb
  | some v =>
    rw [hv, Option.all_some, AclUser.keyOk, Option.any_eq_true] at hok
    obtain ⟨k, hk, hmatch⟩ := hok
    have hbk : argAt argv i = some k := by simp [argAt, hv, argStr_of_bulk? hk]
    rw [hbk] at hb
    cases hb
    exact hmatch

/-- The two readings of a `numkeys` argument agree where both accept it. -/
theorem numkeys_agree {argv : List RespValue} {nk : Int}
    (hacl : aclNumkeys argv i = some nk) (hpos : posNumkeys argv i = some n) : nk = n := by
  obtain ⟨b, hb, hparse⟩ := Option.bind_eq_some_iff.mp hacl
  obtain ⟨v, hv, hbulk⟩ := Option.bind_eq_some_iff.mp hb
  have harg : argAt argv i = some b := by simp [argAt, hv, argStr_of_bulk? hbulk]
  rw [posNumkeys, harg, Option.bind_some] at hpos
  obtain ⟨m, hm, hsel⟩ := Option.bind_eq_some_iff.mp hpos
  split at hsel
  · rename_i hmpos
    cases hsel
    -- both parsers split the sign the same way and fold the same digits
    simp only [parseI64, aclParseLl] at hm hparse
    split at hm
    · cases hm
    rename_i hne
    rw [if_neg hne] at hparse
    obtain ⟨x, hx, rfl⟩ := Option.map_eq_some_iff.mp hm
    obtain ⟨y, hy, hval⟩ := Option.bind_eq_some_iff.mp hparse
    have hxy := digitLoop_agree hx hy
    cases hneg : (splitSign b).1 with
    | true =>
      rw [hneg] at hmpos
      simp at hmpos
      omega
    | false =>
      simp only [hneg] at hval hmpos ⊢
      simp only [Bool.false_eq_true, if_false] at hval hmpos ⊢
      split at hval
      · cases hval; omega
      · cases hval
  · cases hsel

theorem mem_range'_mono {a m : Nat} (h : n ≤ m) (hi : i ∈ range' a n) : i ∈ range' a m := by
  rw [mem_range'_1] at hi ⊢
  omega

section Pairs

variable {u : AclUser} {argv : List RespValue} {i : Nat} {nk : Int}

/-- Commands with `numkeys` keys after the count: SINTERCARD, ZUNION, LMPOP and
their kin. -/
theorem numkeysCut_covered (hacl : aclNumkeys argv 1 = some nk)
    (hok : u.keysOk argv (range' 2 nk.toNat) = true) (hi : i ∈ keyPositions argv .numkeysCut)
    : Covered u argv i := by
  simp only [keyPositions] at hi
  cases hpos : posNumkeys argv 1 with
  | none => simp [hpos] at hi
  | some n =>
    have hn := numkeys_agree hacl hpos
    simp only [hpos] at hi
    split at hi
    · cases hi
    · exact keysOk_covered hok (mem_range'_mono (by omega) hi)

theorem numkeysStrict_covered (hacl : aclNumkeys argv 2 = some nk)
    (hok : 0 < nk → u.keysOk argv (range' 3 nk.toNat) = true)
    (hi : i ∈ keyPositions argv .numkeysStrict) : Covered u argv i := by
  simp only [keyPositions] at hi
  cases hpos : posNumkeys argv 2 with
  | none => simp [hpos] at hi
  | some n =>
    have hn := numkeys_agree hacl hpos
    simp only [hpos] at hi
    split at hi
    · cases hi
    by_cases h0 : 0 < nk
    · exact keysOk_covered (hok h0) (mem_range'_mono (by omega) hi)
    · rw [mem_range'_1] at hi
      omega

/-- MSETEX: the wrapped end of the C loop is never past the real one. -/
theorem msetex_covered (hacl : aclNumkeys argv 1 = some nk)
    (hok : u.keysOk argv (range' 2 nk.toNat 2) = true) (hi : i ∈ keyPositions argv .msetex)
    : Covered u argv i := by
  simp only [keyPositions] at hi
  cases hpos : posNumkeys argv 1 with
  | none => simp [hpos] at hi
  | some n =>
    have hn := numkeys_agree hacl hpos
    simp only [hpos] at hi
    split at hi
    · cases hi
    refine keysOk_covered hok ?_
    rw [List.mem_range'] at hi ⊢
    obtain ⟨j, hj, rfl⟩ := hi
    exact ⟨j, by omega, rfl⟩

theorem destNumkeys_covered (hacl : aclNumkeys argv 2 = some nk)
    (hok : u.keysOk argv (1 :: range' 3 nk.toNat) = true)
    (hi : i ∈ keyPositions argv .destNumkeys) : Covered u argv i := by
  simp only [keyPositions] at hi
  cases hpos : posNumkeys argv 2 with
  | none => simp [hpos] at hi
  | some n =>
    have hn := numkeys_agree hacl hpos
    simp only [hpos] at hi
    split at hi
    · cases hi
    refine keysOk_covered hok ?_
    rcases List.mem_cons.mp hi with rfl | hmem
    · exact List.mem_cons_self
    · exact List.mem_cons_of_mem _ (mem_range'_mono (by omega) hmem)

theorem setStore_covered (hacl : aclNumkeys argv 2 = some nk)
    (hok : u.keysOk argv (1 :: range' 3 nk.toNat) = true) (hi : i ∈ keyPositions argv .all)
    (hun : unchecked argv .all .destNumkeys i = false) : Covered u argv i := by
  simp [unchecked, hacl] at hun
  simp only [keyPositions, mem_range'_1] at hi
  refine keysOk_covered hok ?_
  by_cases h1 : i = 1
  · simp [h1]
  · refine List.mem_cons_of_mem _ (List.mem_range'_1.mpr ?_)
    omega

/-- A store destination is checked when both parsers find the same option word. -/
theorem store_covered {ci exact : RespValue → Bool} (hok : storeOk u exact argv = true)
    (hsame : findArg ci argv start (argv.length - 1) = findArg exact argv 2 (argv.length - 1))
    (hi : i ∈ ((findArg ci argv start (argv.length - 1)).map (· + 1)).toList) :
    Covered u argv i := by
  rw [hsame] at hi
  cases hf : findArg exact argv 2 (argv.length - 1) with
  | none => simp [hf] at hi
  | some j =>
    simp only [hf, Option.map_some, Option.toList_some] at hi
    simp only [storeOk, hf] at hok
    exact keysOk_covered hok (by simp [hi])

theorem sort_covered {store : Bool} (hone : u.keysOk argv [1] = true)
    (hstore : store = true → storeOk u (exactWord (text "STORE")) argv = true)
    (hi : i ∈ keyPositions argv (.sort store))
    (hun : unchecked argv (.sort store) (.sort store) i = false) : Covered u argv i := by
  simp only [keyPositions] at hi
  split at hi
  · cases hi
  rcases List.mem_cons.mp hi with rfl | hmem
  · exact keysOk_covered hone (by simp)
  split at hmem
  · rename_i hs
    by_cases h1 : i = 1
    · exact keysOk_covered hone (by simp [h1])
    · simp [unchecked, h1] at hun
      exact store_covered (hstore hs) hun hmem
  · cases hmem

theorem georadius_covered (hone : u.keysOk argv [1] = true)
    (hstore : storeOk u
      (fun v => exactWord (text "STORE") v || exactWord (text "STOREDIST") v) argv = true)
    (hi : i ∈ keyPositions argv (.georadius start))
    (hun : unchecked argv (.georadius start) .georadius i = false) : Covered u argv i := by
  rcases List.mem_cons.mp hi with rfl | hmem
  · exact keysOk_covered hone (by simp)
  by_cases h1 : i = 1
  · exact keysOk_covered hone (by simp [h1])
  · simp [unchecked, h1] at hun
    exact store_covered hstore hun hmem

/-- XREAD and XREADGROUP when both parsers find the same STREAMS word. -/
theorem streams_covered (hok : aclKeyCheck u argv .streams = true)
    (hi : i ∈ keyPositions argv .streams)
    (hun : unchecked argv .streams .streams i = false) : Covered u argv i := by
  simp [unchecked] at hun
  simp only [keyPositions, hun] at hi
  simp only [aclKeyCheck] at hok
  cases hf : findArg (exactWord (text "STREAMS")) argv 1 argv.length with
  | none => simp [hf] at hi
  | some s =>
    simp only [hf, and_eq_true] at hi hok
    split at hi
    · cases hi
    · exact keysOk_covered hok.2.2 hi

end Pairs

/-- A key position that is not listed as unchecked is checked by an accepted
request. -/
theorem key_covered {u : AclUser} {argv : List RespValue} {ks : KeyShape} {as : AclShape}
    (hc : compatible ks as = true) (hok : aclKeyCheck u argv as = true) {i : Nat}
    (hi : i ∈ keyPositions argv ks) (hun : unchecked argv ks as i = false) : Covered u argv i := by
  cases ks <;> cases as <;> try exact absurd hc Bool.false_ne_true
  case first.one | butLast.butLast | all.all =>
    simp only [aclKeyCheck, and_eq_true] at hok
    exact keysOk_covered hok.2 hi
  case first.object =>
    simp [unchecked] at hun
    simp only [aclKeyCheck, hun.2, Bool.false_or, and_eq_true] at hok
    have hpos : ¬ 3 ≤ argv.length := by omega
    rw [if_neg hpos] at hok
    exact keysOk_covered hok.2 hi
  case second.xgroup =>
    simp only [aclKeyCheck, and_eq_true] at hok
    simp only [keyPositions] at hi
    split at hi
    · cases hi
    · exact keysOk_covered hok.2 hi
  case second.xinfo =>
    simp [unchecked] at hun
    simp only [aclKeyCheck, hun, Bool.false_or, and_eq_true] at hok
    simp only [keyPositions] at hi
    split at hi
    · cases hi
    · rw [if_pos (by omega)] at hok
      exact keysOk_covered hok.2 hi
  case numkeysStrict.script =>
    simp only [aclKeyCheck] at hok
    cases hn : aclNumkeys argv 2 with
    | none => simp [hn] at hok
    | some nk =>
      simp only [hn] at hok
      split at hok
      · cases hok
      refine numkeysStrict_covered hn (fun hpos => ?_) hi
      simp only [Bool.or_eq_true, beq_iff_eq, and_eq_true] at hok
      rcases hok with h0 | h
      · omega
      · exact h.2
  case numkeysStrict.mpop idx =>
    have hidx : idx = 2 := by simpa [compatible] using hc
    subst hidx
    simp only [aclKeyCheck] at hok
    cases hn : aclNumkeys argv 2 with
    | none => simp [hn] at hok
    | some nk =>
      simp only [hn, and_eq_true] at hok
      exact numkeysStrict_covered hn (fun _ => hok.2) hi
  case streams.streams => exact streams_covered hok hi hun
  case himport.himport =>
    simp [unchecked] at hun
    simp only [aclKeyCheck, hun, Bool.not_true, Bool.false_or, and_eq_true] at hok
    simp only [keyPositions] at hi
    split at hi
    · exact keysOk_covered hok.2 hi
    · cases hi
  case msetex.msetex =>
    simp only [aclKeyCheck] at hok
    cases hn : aclNumkeys argv 1 with
    | none => simp [hn] at hok
    | some nk =>
      simp only [hn, and_eq_true] at hok
      exact msetex_covered hn hok.2 hi
  case firstTwo.zrangestore | firstTwo.two =>
    simp only [aclKeyCheck, and_eq_true] at hok
    simp only [keyPositions, mem_range'_1] at hi
    refine keysOk_covered hok.2 ?_
    have : i = 1 ∨ i = 2 := by omega
    simpa using this
  case firstTwo.geosearchstore =>
    simp [unchecked] at hun
    simp only [aclKeyCheck, and_eq_true] at hok
    simp only [keyPositions, mem_range'_1] at hi
    refine keysOk_covered hok.2 ?_
    have : i = 2 := by omega
    simpa using this
  case numkeysCut.mpop idx =>
    have hidx : idx = 1 := by simpa [compatible] using hc
    subst hidx
    simp only [aclKeyCheck] at hok
    cases hn : aclNumkeys argv 1 with
    | none => simp [hn] at hok
    | some nk =>
      simp only [hn, and_eq_true] at hok
      exact numkeysCut_covered hn hok.2 hi
  case numkeysCut.card =>
    simp only [aclKeyCheck] at hok
    cases hn : aclNumkeys argv 1 with
    | none => simp [hn] at hok
    | some nk =>
      simp only [hn, and_eq_true] at hok
      exact numkeysCut_covered hn hok.2 hi
  case sort.sort a b =>
    have hab : a = b := by simpa [compatible] using hc
    subst hab
    simp only [aclKeyCheck, and_eq_true, Bool.or_eq_true] at hok
    refine sort_covered hok.1.2 (fun hs => ?_) hi hun
    rcases hok.2 with h | h
    · rw [hs] at h; cases h
    · exact h
  case all.destNumkeys =>
    simp only [aclKeyCheck] at hok
    cases hn : aclNumkeys argv 2 with
    | none => simp [hn] at hok
    | some nk =>
      simp only [hn, and_eq_true] at hok
      exact setStore_covered hn hok.2 hi hun
  case all.one =>
    simp [unchecked] at hun
    simp only [aclKeyCheck, and_eq_true] at hok
    simp only [keyPositions, mem_range'_1] at hi
    refine keysOk_covered hok.2 ?_
    have : i = 1 := by omega
    simpa using this
  case all.bitop =>
    simp [unchecked] at hun
    simp only [aclKeyCheck, and_eq_true] at hok
    simp only [keyPositions, mem_range'_1] at hi
    refine keysOk_covered hok.2 (List.mem_range'_1.mpr ?_)
    omega
  case destNumkeys.destNumkeys =>
    simp only [aclKeyCheck] at hok
    cases hn : aclNumkeys argv 2 with
    | none => simp [hn] at hok
    | some nk =>
      simp only [hn, and_eq_true] at hok
      exact destNumkeys_covered hn hok.2 hi
  case pairs.pairs =>
    simp only [aclKeyCheck, and_eq_true] at hok
    exact keysOk_covered hok.2 hi
  case georadius.georadius start =>
    simp only [aclKeyCheck, and_eq_true] at hok
    exact georadius_covered hok.1.2 hok.2 hi hun
  -- the pairs without any check have every position listed
  all_goals simp [unchecked] at hun

/-- Among the requests `acl_authorize` accepts, every argument `cmd_keys_accum`
treats as a key matches one of the user's patterns if and only if the keys that
`acl_authorize` skips do. -/
theorem authorized_keys_match_iff (u : AclUser) (argv : List RespValue)
    (h : aclAuthorize u (argvCmd argv) argv = true) :
    (∀ k ∈ cmdKeys argv, u.matchesKey k = true) ↔
      ∀ k ∈ skippedKeys argv, u.matchesKey k = true := by
  unfold cmdKeys skippedKeys
  split
  · simp
  rename_i hargs
  have hlen : ¬ argv.length < 2 := fun hlt => hargs (.inr hlt)
  have hok : aclKeyCheck u argv (aclShape (argvCmd argv)) = true := by
    simp only [aclAuthorize, and_eq_true, Bool.or_eq_true, decide_eq_true_eq] at h
    rcases h.2 with hlt | hok
    · exact absurd hlt hlen
    · exact hok
  simp only [keysOf, List.mem_filterMap, List.mem_filter]
  constructor
  · rintro hall k ⟨i, ⟨hi, -⟩, hk⟩
    exact hall k ⟨i, hi, hk⟩
  rintro hskip k ⟨i, hi, hk⟩
  cases hun : unchecked argv (cmdKeyShape (argvCmd argv)) (aclShape (argvCmd argv)) i with
  | true => exact hskip k ⟨i, ⟨hi, hun⟩, hk⟩
  | false => exact key_covered (shapes_compatible _) hok hi hun k hk

/-- A user who may run every command on the keys under `app:`. -/
def appUser : AclUser where
  name := text "app"
  password := []
  patterns := [text "app:*"]
  allow := fun _ => false
  deny := fun _ => false
  enabled := true
  allCommands := true
  generation := 1
  channels := []
  allChannels := false
  noPassword := true

/-- `SORT app:list store secret`: SORT takes the option word in any case. -/
def sortStoreArgv : List RespValue :=
  [bulk (text "SORT"), bulk (text "app:list"), bulk (text "store"), bulk (text "secret")]

/-- The accepted SORT writes to a key no pattern of the user matches. -/
theorem sort_store_escapes :
    ¬ ∀ (u : AclUser) (argv : List RespValue), aclAuthorize u (argvCmd argv) argv = true →
      ∀ k ∈ cmdKeys argv, u.matchesKey k = true := by
  intro h
  have hacc : aclAuthorize appUser (argvCmd sortStoreArgv) sortStoreArgv = true := by decide
  have hkey : text "secret" ∈ cmdKeys sortStoreArgv := by decide
  have hno : appUser.matchesKey (text "secret") = false := by decide
  rw [h appUser sortStoreArgv hacc _ hkey] at hno
  cases hno

def sortExactArgv : List RespValue :=
  [bulk (text "SORT"), bulk (text "app:list"), bulk (text "STORE"), bulk (text "app:out")]

theorem sortExact_keys_match : (cmdKeys sortExactArgv).all appUser.matchesKey = true :=
  List.all_eq_true.mpr ((authorized_keys_match_iff appUser sortExactArgv (by decide)).mpr (by decide))

end Ddup.Acl
