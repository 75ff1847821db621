/-
Ddup.Acl.UsersTheorems — what a list of rules leaves of a user.

A user's commands are an `all` flag, an allow set and a deny set, and a positive
rule for one command does not take it out of the deny set: the last rule wins
unless it is such a rule behind a standing denial (`setuser_last_rule_iff`). A
new user's slot is taken before the rules are looked at, so a bad rule leaves it
behind (`setuser_error_iff`). A user without a credential keeps an empty password,
which the empty password equals (`authenticate_credential_iff`).
-/
import Ddup.Acl.Users
import Mathlib.Data.List.TakeWhile

namespace Ddup.Acl

open Ddup.Resp Ddup.Command

variable (u : AclUser) (cats : Categories) {r : AclRegistry} {name : Bytes} {t : Tracked}
variable {c : Credential} {rules : List RespValue} {r₁ : AclRegistry} {u' : AclUser}

/-! ## The last rule -/

/-- The command test of `acl_authorize`. -/
def AclUser.permits (u : AclUser) (id : CmdId) : Bool :=
  (u.allCommands || u.allow id) && !u.deny id

/-- What a rule means for a command: allowed, denied, or nothing if it does not
apply to it. -/
def CommandRule.verdict (id : CmdId) : CommandRule → Option Bool
  | .everything allow => some allow
  | .nocommands => some false
  | .commands allow ids => if ids id then some allow else none

/-- Whether a rule puts a command into the deny set or takes it out. -/
def CommandRule.denial (id : CmdId) : CommandRule → Option Bool
  | .everything true | .nocommands => some false
  | .commands false ids => if ids id then some true else none
  | _ => none

/-- What the last rule with an opinion says, and `before` if none has one. -/
def lastWord (f : CommandRule → Option Bool) (rules : List CommandRule) (before : Bool) : Bool :=
  (rules.reverse.findSome? f).getD before

@[simp] theorem lastWord_concat (f : CommandRule → Option Bool) (rules : List CommandRule)
    (rule : CommandRule) (before : Bool) :
    lastWord f (rules ++ [rule]) before = (f rule).getD (lastWord f rules before) := by
  cases h : f rule <;> simp [lastWord, h]

/-- The last rule that applies allows the command by itself or by a category, and
the command was in the deny set before that rule. -/
def Overruled (u : AclUser) (id : CmdId) (rules : List CommandRule) : Prop :=
  ∃ earlier ids later, rules = earlier ++ .commands true ids :: later ∧ ids id = true ∧
    (∀ rule ∈ later, rule.verdict id = none) ∧
    lastWord (·.denial id) earlier (u.deny id) = true

theorem overruled_concat (id : CmdId) (rules : List CommandRule) (rule : CommandRule) :
    Overruled u id (rules ++ [rule]) ↔
      rule.verdict id = none ∧ Overruled u id rules ∨
        ∃ ids, rule = .commands true ids ∧ ids id = true ∧
          lastWord (·.denial id) rules (u.deny id) = true := by
  constructor
  · rintro ⟨earlier, ids, later, heq, hid, hlater, hdeny⟩
    -- the positive rule is the last one, or the last one stands behind it
    rcases List.eq_nil_or_concat later with rfl | ⟨init, last, rfl⟩
    · obtain ⟨rfl, heq⟩ := List.append_inj' heq rfl
      exact .inr ⟨ids, by simpa using heq, hid, hdeny⟩
    rw [List.concat_eq_append, ← List.cons_append, ← List.append_assoc] at heq
    obtain ⟨rfl, heq⟩ := List.append_inj' heq rfl
    obtain rfl : rule = last := by simpa using heq
    exact .inl ⟨hlater _ (by simp), earlier, ids, init, rfl, hid,
      fun r hr => hlater r (by simp [hr]), hdeny⟩
  · rintro (⟨hnone, earlier, ids, later, rfl, hid, hlater, hdeny⟩ | ⟨ids, rfl, hid, hdeny⟩)
    · refine ⟨earlier, ids, later ++ [rule], by simp, hid, fun r hr => ?_, hdeny⟩
      rcases List.mem_append.mp hr with hr | hr
      · exact hlater r hr
      · rwa [List.mem_singleton.mp hr]
    · exact ⟨rules, ids, [], rfl, hid, by simp, hdeny⟩

theorem applyCommand_deny (rule : CommandRule) (id : CmdId) :
    (u.applyCommand rule).deny id = (rule.denial id).getD (u.deny id) := by
  rcases rule with (_ | _) | _ | ⟨_ | _, ids⟩ <;>
    simp [AclUser.applyCommand, CommandRule.denial]
  cases ids id <;> simp

theorem foldl_deny (id : CmdId) (rules : List CommandRule) :
    (rules.foldl AclUser.applyCommand u).deny id = lastWord (·.denial id) rules (u.deny id) := by
  induction rules using List.reverseRecOn with
  | nil => rfl
  | append_singleton rules rule ih => simp [applyCommand_deny, ih]

theorem foldl_permits_iff (id : CmdId) (rules : List CommandRule) :
    (rules.foldl AclUser.applyCommand u).permits id =
        lastWord (·.verdict id) rules (u.permits id) ↔ ¬ Overruled u id rules := by
  induction rules using List.reverseRecOn with
  | nil => simp [lastWord, Overruled]
  | append_singleton rules rule ih =>
    rw [overruled_concat, List.foldl_append, ← foldl_deny]
    rcases rule with (_ | _) | _ | ⟨allow, ids⟩
    · simp [AclUser.applyCommand, AclUser.permits, CommandRule.verdict]
    · simp [AclUser.applyCommand, AclUser.permits, CommandRule.verdict]
    · simp [AclUser.applyCommand, AclUser.permits, CommandRule.verdict]
    by_cases hid : ids id = true
    · cases allow <;> simp [AclUser.applyCommand, AclUser.permits, CommandRule.verdict, hid]
    · cases allow <;>
        simpa [AclUser.applyCommand, AclUser.permits, CommandRule.verdict, hid] using ih

theorem applyRules_commands {cats : Categories} {commands : List CommandRule}
    (h : List.Forall₂ (fun v c => aclRule cats v = some (.command c)) rules commands)
    (u : AclUser) : applyRules cats u rules = some (commands.foldl AclUser.applyCommand u) := by
  induction h generalizing u with
  | nil => rfl
  | cons hv _ ih =>
    simpa [applyRules, hv, AclUser.applyRule] using ih (u.applyCommand _)

/-- A call that succeeds: the record it found or made, and what the rules made of it. -/
theorem aclSetuser_ok {cats : Categories} {r' : AclRegistry}
    (h : aclSetuser cats r name rules = (r', true)) :
    ∃ r₁ i u u', aclSlot r name = some (r₁, i) ∧ r₁.users[i]? = some u ∧
      applyRules cats u rules = some u' ∧ r' = { r₁ with users := r₁.users.set i u' } := by
  unfold aclSetuser at h
  split at h
  · simp at h
  rename_i r₁ i hslot
  split at h
  · simp at h
  rename_i u' hrules
  obtain ⟨u, hu, hrules⟩ := Option.bind_eq_some_iff.mp hrules
  exact ⟨r₁, i, u, u', hslot, hu, hrules, by simpa using h.symm⟩

/-- The last rule that applies decides, unless it allows a command that the rules
before it, or the user's own record, deny. `u` is the record before the rules, a
zeroed one for a new user, and `u'` the one after them. -/
theorem setuser_last_rule_iff (r r' : AclRegistry) (name : Bytes) (rules : List RespValue)
    (commands : List CommandRule) (id : CmdId)
    (hrules : List.Forall₂ (fun v c => aclRule cats v = some (.command c)) rules commands)
    (hok : aclSetuser cats r name rules = (r', true)) :
    ∃ r₁ i u u', aclSlot r name = some (r₁, i) ∧ r₁.users[i]? = some u ∧
      r'.users[i]? = some u' ∧
      (u'.permits id = lastWord (·.verdict id) commands (u.permits id) ↔
        ¬ Overruled u id commands) := by
  obtain ⟨r₁, i, u, u', hslot, hu, hu', rfl⟩ := aclSetuser_ok hok
  rw [applyRules_commands hrules, Option.some.injEq] at hu'
  subst hu'
  have hi : i < r₁.users.length := (List.getElem?_eq_some_iff.mp hu).1
  exact ⟨r₁, i, u, _, hslot, hu, by simp [hi], foldl_permits_iff u id commands⟩

theorem setuser_last_rule_nocommands :
    ∃ r₁ i u u', aclSlot (aclInit []) (text "default") = some (r₁, i) ∧
      r₁.users[i]? = some u ∧
      (aclSetuser (fun _ _ => none) (aclInit []) (text "default")
        [bulk (text "nocommands")]).1.users[i]? = some u' ∧
      (u'.permits .get = lastWord (·.verdict .get) [.nocommands] (u.permits .get) ↔
        ¬ Overruled u .get [.nocommands]) :=
  setuser_last_rule_iff (fun _ _ => none) _ _ _ [bulk (text "nocommands")] _ _
    (.cons rfl .nil) rfl

/-- `-get +get` leaves GET denied to a user who had it. -/
theorem setuser_denied_get_stays_denied :
    ∃ rules commands,
      List.Forall₂ (fun v c => aclRule (fun _ _ => none) v = some (.command c)) rules commands ∧
      (aclSetuser (fun _ _ => none) (aclInit []) (text "default") rules).2 = true ∧
      (aclInit []).users.map (·.permits .get) = [true] ∧
      lastWord (·.verdict .get) commands true = true ∧
      (aclSetuser (fun _ _ => none) (aclInit []) (text "default") rules).1.users.map
        (·.permits .get) = [false] :=
  ⟨[bulk (text "-get"), bulk (text "+get")], _, .cons rfl (.cons rfl .nil), rfl, rfl, rfl, rfl⟩

/-! ## A rule that is refused -/

/-- `acl_setuser` has a record to make: the name is good, no user has it and there
is a free slot or room for another one. -/
def Makes (r : AclRegistry) (name : Bytes) : Prop :=
  name ≠ [] ∧ name.length < 64 ∧ aclFind r name = none ∧
    (r.users.length < 32 ∨ ∃ u ∈ r.users, u.name = [])

theorem aclSlot_none (h : aclSlot r name = none) : ¬ Makes r name := by
  rintro ⟨hne, hlen, hfind, hroom⟩
  have hname : ¬ (name = [] ∨ 64 ≤ name.length) := by
    rintro (hnil | hlong)
    · exact hne hnil
    · omega
  rw [aclSlot, if_neg hname] at h
  split at h
  · simp at h
  · simp at h
  rename_i hfree
  split_ifs at h with hfull
  rcases hroom with hroom | ⟨u, hu, hempty⟩
  · omega
  · simpa [hempty] using List.findIdx?_eq_none_iff.mp hfree u hu

/-- The slot is the user's own, or a zeroed record in a place of its own. -/
theorem aclSlot_some {i : Nat} (h : aclSlot r name = some (r₁, i)) :
    (aclFind r name = some i ∧ r₁ = r) ∨
      (Makes r name ∧ r₁.generationNext = r.tick ∧
        ∀ j, r₁.users[j]? = if j = i then some (.fresh name r.tick) else r.users[j]?) := by
  by_cases hname : name = [] ∨ 64 ≤ name.length
  · simp [aclSlot, hname] at h
  rw [aclSlot, if_neg hname] at h
  rw [not_or, not_le] at hname
  split at h
  · rename_i hfind
    simp only [Option.some.injEq, Prod.mk.injEq] at h
    exact .inl ⟨by rw [hfind, h.2], h.1.symm⟩
  · rename_i k hfind hfree
    simp only [Option.some.injEq, Prod.mk.injEq] at h
    obtain ⟨rfl, rfl⟩ := h
    obtain ⟨hk, hempty, -⟩ := List.findIdx?_eq_some_iff_getElem.mp hfree
    refine .inr ⟨⟨hname.1, hname.2, hfind,
      .inr ⟨_, List.getElem_mem hk, by simpa using hempty⟩⟩, rfl, fun j => ?_⟩
    by_cases hj : j = k
    · subst hj
      simp [hk]
    · simp [hj, List.getElem?_set_ne (Ne.symm hj)]
  · rename_i hfind hfree
    split_ifs at h with hfull
    obtain ⟨rfl, rfl⟩ := h
    refine .inr ⟨⟨hname.1, hname.2, hfind, .inl (by omega)⟩, rfl, fun j => ?_⟩
    split_ifs <;> grind

/-- A call that fails leaves the registry as it was unless it had a record to make. -/
theorem setuser_error_iff (r : AclRegistry) (name : Bytes) (rules : List RespValue)
    (herr : (aclSetuser cats r name rules).2 = false) :
    (aclSetuser cats r name rules).1 = r ↔ ¬ Makes r name := by
  cases hslot : aclSlot r name with
  | none => simp [aclSetuser, hslot, aclSlot_none hslot]
  | some slot =>
    obtain ⟨r₁, i⟩ := slot
    have hkept : (aclSetuser cats r name rules).1 = r₁ := by
      rw [aclSetuser, hslot] at herr ⊢
      dsimp only at herr ⊢
      split at herr <;> simp_all
    rw [hkept]
    rcases aclSlot_some hslot with ⟨hfind, rfl⟩ | ⟨hmakes, hgen, -⟩
    · simp [Makes, hfind]
    refine iff_of_false (fun h => ?_) (not_not.mpr hmakes)
    rw [h, AclRegistry.tick] at hgen
    omega

theorem setuser_error_of_default :
    (aclSetuser (fun _ _ => none) (aclInit []) (text "default") [bulk (text "o")]).1 =
        aclInit [] ↔ ¬ Makes (aclInit []) (text "default") :=
  setuser_error_iff _ _ _ _ rfl

/-- A bad rule for a new name leaves a user of that name. -/
theorem setuser_error_makes_user :
    (aclSetuser (fun _ _ => none) (aclInit []) (text "a") [bulk (text "o")]).2 = false ∧
      (aclInit []).users.length = 1 ∧
      (aclSetuser (fun _ _ => none) (aclInit []) (text "a") [bulk (text "o")]).1.users.map
        (·.name) = [text "default", text "a"] :=
  ⟨rfl, rfl, rfl⟩

/-! ## Credentials -/

inductive Credential
  | none
  | nopass
  | password (p : Bytes)

def Credential.after (c : Credential) : AclRule → Credential
  | .nopass => .nopass
  | .resetpass | .reset => .none
  | .password p => .password p
  | _ => c

def Credential.stored : Credential → Bytes
  | .password p => cstr p
  | _ => []

def Credential.Kept (c : Credential) (u : AclUser) : Prop :=
  u.password = c.stored ∧ (u.noPassword = true ↔ c = .nopass)

/-- A registry with the credential of each slot's user, kept beside it. -/
structure Tracked where
  registry : AclRegistry
  credentials : Nat → Credential

inductive AclCall
  | setuser (name : Bytes) (rules : List RespValue)
  | deluser (name : Bytes)

/-- One call. The rules of a call that succeeds count; a new user has none before them. -/
def Tracked.call (cats : Categories) (t : Tracked) : AclCall → Tracked
  | .setuser name rules =>
    let (r, ok) := aclSetuser cats t.registry name rules
    match aclSlot t.registry name with
    | none => ⟨r, t.credentials⟩
    | some (_, i) =>
      let before := if (aclFind t.registry name).isSome then t.credentials i else .none
      let given := if ok then rules.filterMap (aclRule cats) else []
      ⟨r, Function.update t.credentials i (given.foldl Credential.after before)⟩
  | .deluser name =>
    ⟨aclDeluser t.registry name,
      match aclDoomed t.registry name with
      | none => t.credentials
      | some i => Function.update t.credentials i .none⟩

/-- The registry of `acl_init`, whose password the default user has from the start. -/
def Tracked.init (requirepass : Bytes) : Tracked :=
  ⟨aclInit requirepass, fun _ =>
    if cstr requirepass = [] then .none else .password ((cstr requirepass).take 127)⟩

def Tracked.Sound (t : Tracked) : Prop :=
  ∀ i u, t.registry.users[i]? = some u → (t.credentials i).Kept u

theorem init_sound (requirepass : Bytes) : (Tracked.init requirepass).Sound := by
  have hcut : cstr ((cstr requirepass).take 127) = (cstr requirepass).take 127 :=
    List.takeWhile_eq_self_iff.mpr fun b hb =>
      List.mem_takeWhile_imp (l := requirepass) (List.mem_of_mem_take hb)
  intro i u hu
  cases i with
  | succ => simp [Tracked.init, aclInit] at hu
  | zero =>
    obtain rfl := Option.some.inj hu
    by_cases h : cstr requirepass = [] <;>
      simp [Tracked.init, Credential.Kept, Credential.stored, AclUser.fresh, h, hcut]

theorem applyRule_kept {rule : AclRule} {u : AclUser} (hc : c.Kept u)
    (h : u.applyRule rule = some u') : (c.after rule).Kept u' := by
  cases rule with
  | command rule =>
    obtain rfl := Option.some.inj h
    rcases rule with (_ | _) | _ | ⟨_ | _, ids⟩ <;> exact hc
  | pattern p | channel p =>
    simp only [AclUser.applyRule, Option.ite_none_left_eq_some, Option.some.injEq] at h
    exact h.2 ▸ hc
  | reset | nopass | resetpass | password p =>
    obtain rfl := Option.some.inj h
    simp [Credential.after, Credential.Kept, Credential.stored, AclUser.clearRules]
  | _ =>
    obtain rfl := Option.some.inj h
    exact hc

theorem applyRules_kept {cats : Categories} {u : AclUser} (hc : c.Kept u) (h : applyRules cats u rules = some u') :
    ((rules.filterMap (aclRule cats)).foldl Credential.after c).Kept u' := by
  induction rules generalizing u c with
  | nil => exact Option.some.inj h ▸ hc
  | cons v rules ih =>
    obtain ⟨u₁, h₁, h⟩ := Option.bind_eq_some_iff.mp h
    obtain ⟨rule, hv, h₁⟩ := Option.bind_eq_some_iff.mp h₁
    rw [List.filterMap_cons_some hv]
    exact ih (applyRule_kept hc h₁) h

theorem slot_sound (h : t.Sound) {k : Nat} (hslot : aclSlot t.registry name = some (r₁, k)) :
    (Tracked.mk r₁ (Function.update t.credentials k
      (if (aclFind t.registry name).isSome then t.credentials k else .none))).Sound := by
  intro i u hu
  rcases aclSlot_some hslot with ⟨hfind, rfl⟩ | ⟨hmakes, -, husers⟩
  · simpa [hfind] using h i u hu
  simp only [hmakes.2.2.1, husers i] at hu ⊢
  by_cases hi : i = k
  · obtain rfl : _ = u := by simpa [hi] using hu
    simp [hi, Credential.Kept, Credential.stored, AclUser.fresh]
  · simpa [hi] using h i u (by simpa [hi] using hu)

theorem call_sound (h : t.Sound) (call : AclCall) : (t.call cats call).Sound := by
  cases call with
  | deluser name =>
    intro i u hu
    simp only [Tracked.call, aclDeluser] at hu ⊢
    cases hdoomed : aclDoomed t.registry name with
    | none => exact h i u (by simpa [hdoomed] using hu)
    | some k =>
      rw [hdoomed] at hu
      by_cases hi : i = k
      · subst hi
        obtain ⟨v, -, rfl⟩ : ∃ v, t.registry.users[i]? = some v ∧ _ = u := by
          simpa using hu
        simp [Credential.Kept, Credential.stored, AclUser.clearRules]
      · simp only [Function.update_of_ne hi]
        exact h i u (by simpa [Ne.symm hi] using hu)
  | setuser name rules =>
    cases hslot : aclSlot t.registry name with
    | none => simpa [Tracked.call, aclSetuser, hslot] using h
    | some slot =>
      obtain ⟨r₁, k⟩ := slot
      have hsound := slot_sound h hslot
      intro i u hu
      simp only [Tracked.call, aclSetuser, hslot] at hu ⊢
      cases hrules : r₁.users[k]?.bind fun u => applyRules cats u rules with
      | none =>
        rw [hrules] at hu
        exact hsound i u hu
      | some u' =>
        rw [hrules] at hu
        obtain ⟨v, hv, hv'⟩ := Option.bind_eq_some_iff.mp hrules
        by_cases hi : i = k
        · subst hi
          obtain rfl : u' = u := by
            simpa [List.getElem?_set_self (List.getElem?_eq_some_iff.mp hv).1] using hu
          have hv := hsound i v hv
          simp only [Function.update_self] at hv ⊢
          exact applyRules_kept hv hv'
        · have hi' := hsound i u (by simpa [List.getElem?_set_ne (Ne.symm hi)] using hu)
          simpa only [Function.update_of_ne hi] using hi'

theorem run_sound (h : t.Sound) (calls : List AclCall) :
    (calls.foldl (Tracked.call cats) t).Sound := by
  induction calls generalizing t with
  | nil => exact h
  | cons call calls ih => exact ih (call_sound cats h call)

/-- Who authenticates, in terms of the credential rules. -/
theorem aclAuthenticate_iff (h : t.Sound) (name password : Bytes) (i : Nat) :
    aclAuthenticate t.registry name password = some i ↔
      aclFind t.registry name = some i ∧ t.registry.users[i]?.any (·.enabled) = true ∧
        (t.credentials i = .nopass ∨ (t.credentials i).stored = password) := by
  rw [aclAuthenticate, Option.filter_eq_some_iff]
  cases hu : t.registry.users[i]? with
  | none => simp
  | some u =>
    obtain ⟨hpass, hno⟩ := h i u hu
    simp [hpass, hno]

end Ddup.Acl
