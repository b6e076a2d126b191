import Xctools.Xcpmd.RuleLines
import Xctools.Xcpmd.Typing

/-! Rules that are refused. Their conditions listen to events while the rule is put together, and are taken
out again when it does not pass; a text that the parser stops at comes to less than that. What is wrong
with a rule is said in terms of its items and of what look-ups find. -/
namespace Xctools.Xcpmd
open Machine

section Variables
variable {parseArg : String → Option Arg} {vars vars' : VarStore} {name : String}

/-- The variables as they were, but for what came from the database into the cache. -/
structure Undisturbed (parseArg : String → Option Arg) (vars vars' : VarStore) : Prop where
  db : vars'.db = vars.db
  cached : ∀ m var, vars.cached m = some var → vars'.cached m = some var
  found : ∀ m, (lookupVar parseArg vars' m).1 = (lookupVar parseArg vars m).1

lemma Undisturbed.refl (vars : VarStore) : Undisturbed parseArg vars vars := ⟨rfl,fun _ _ h => h,fun _ => rfl⟩

lemma Undisturbed.lookupVar (h : Undisturbed parseArg vars vars') (name : String) :
    Undisturbed parseArg vars (lookupVar parseArg vars' name).2 where
  db := by
    rw [← h.db]
    rcases lookupVar_cases parseArg vars' name with ⟨v,-,hl⟩ | ⟨-,hl⟩ | ⟨value,-,-,-,hl⟩
    · rw [hl]
    · rw [hl]
    · rw [hl]
      rfl
  cached m var hvar := cached_lookupVar_of_cached (h.cached m var hvar)
  found m := (found_lookupVar m).trans (h.found m)

/-- What is new in the cache has no references. -/
lemma Undisturbed.refs (h : Undisturbed parseArg vars vars') (name : String) :
    vars'.refs name = vars.refs name := by
  unfold VarStore.refs
  cases hold : vars.cached name with
  | some var => rw [h.cached name var hold]
  | none =>
    cases hnew : vars'.cached name with
    | none => rfl
    | some var =>
      have hfound := h.found name
      rw [lookupVar_of_cached hnew] at hfound
      rcases lookupVar_cases parseArg vars name with ⟨v,hc,-⟩ | ⟨-,hl⟩ | ⟨value,-,-,-,hl⟩
      · rw [hold] at hc
        cases hc
      · rw [hl] at hfound
        cases hfound
      · rw [hl] at hfound
        rw [Option.some.inj hfound]
        rfl

end Variables

section Arguments
variable {parseArg : String → Option Arg} {vars : VarStore} {args : List Arg} {prototype : String}

/-- The type of an argument; of a variable, that of the value a look-up finds. -/
def VarStore.foundArg (parseArg : String → Option Arg) (vars : VarStore) : Arg → Option ArgType
  | .var name => vars.foundType parseArg name
  | arg => some arg.type

/-- What can be wrong with arguments: there is no such variable, or the types are not those that the
prototype asks for. -/
inductive Misfit (parseArg : String → Option Arg) (vars : VarStore) (prototype : String) (args : List Arg) : Prop
  | undefined (name : String) : name ∈ varNames args → (lookupVar parseArg vars name).1 = none →
    Misfit parseArg vars prototype args
  | mismatch (types : List ArgType) : args.map (vars.foundArg parseArg) = types.map some →
    prototype ≠ prototypeOf types → Misfit parseArg vars prototype args

lemma foundArg_lookupVar (name : String) :
    (lookupVar parseArg vars name).2.foundArg parseArg = vars.foundArg parseArg := by
  funext arg
  cases arg with
  | var m => exact congrFun (foundType_lookupVar name) m
  | int => rfl
  | bool => rfl
  | float => rfl
  | str => rfl
  | none => rfl

/-- The types are found one after the other. -/
lemma map_cons_fst {type : ArgType} {found : Except String (List ArgType)} {types : List ArgType} :
    found.map (type :: ·) = .ok types ↔ ∃ rest, found = .ok rest ∧ types = type :: rest := by
  cases found with
  | error name => simp [Except.map]
  | ok rest => simp [Except.map, eq_comm]

lemma cons_eq_map_some {type : ArgType} {l : List (Option ArgType)} {types : List ArgType} :
    some type :: l = types.map some ↔ ∃ rest, l = rest.map some ∧ types = type :: rest := by
  rw [eq_comm, List.map_eq_cons_iff]
  constructor
  · rintro ⟨t,rest,rfl,ht,rfl⟩
    exact ⟨rest,rfl,by rw [Option.some.inj ht]⟩
  · rintro ⟨rest,rfl,rfl⟩
    exact ⟨type,rest,rfl,rfl,rfl⟩

/-- `check_prototype` gets the types of the arguments, if all of them have one. -/
lemma resolveTypes_eq_ok {types : List ArgType} : (resolveTypes parseArg vars args).1 = .ok types ↔
    args.map (vars.foundArg parseArg) = types.map some := by
  induction args generalizing vars types with
  | nil =>
    rw [resolveTypes, List.map_nil, eq_comm (a := []), List.map_eq_nil_iff, Except.ok.injEq, eq_comm]
  | cons arg args ih =>
    have hstep : ∀ (vars₁ : VarStore) (type : ArgType),
        (resolveTypes parseArg vars₁ args).1.map (type :: ·) = .ok types ↔
          some type :: args.map (vars₁.foundArg parseArg) = types.map some := by
      intro vars₁ type
      rw [map_cons_fst, cons_eq_map_some]
      exact exists_congr fun rest => by rw [ih]
    cases arg with
    | var name =>
      have hargs := @foundArg_lookupVar parseArg vars name
      have htype : vars.foundArg parseArg (.var name) =
        (lookupVar parseArg vars name).1.map fun var => var.value.type := rfl
      rw [resolveTypes, List.map_cons, htype, ← hargs]
      rcases lookupVar parseArg vars name with ⟨_ | var,vars₁⟩
      · cases types with
        | nil => simp
        | cons type types => simp
      · exact hstep vars₁ var.value.type
    | int i => exact hstep vars .int
    | bool b => exact hstep vars .bool
    | float bits => exact hstep vars .float
    | str s => exact hstep vars .str
    | none => exact hstep vars .none

lemma map_cons_eq_error {type : ArgType} {found : Except String (List ArgType)} {name : String} :
    found.map (type :: ·) = .error name ↔ found = .error name := by
  cases found with
  | error name => simp [Except.map]
  | ok rest => simp [Except.map]

/-- It names a variable that there is not. -/
lemma resolveTypes_eq_error {name : String} (h : (resolveTypes parseArg vars args).1 = .error name) :
    name ∈ varNames args ∧ (lookupVar parseArg vars name).1 = none := by
  induction args generalizing vars with
  | nil => cases h
  | cons arg args ih =>
    cases arg with
    | var m =>
      have hfound := @found_lookupVar parseArg vars m name
      have hnames : varNames (.var m :: args) = m :: varNames args := rfl
      rw [hnames]
      rw [resolveTypes] at h
      cases hl : lookupVar parseArg vars m with
      | mk found vars₁ =>
        rw [hl] at h hfound
        cases found with
        | none =>
          obtain rfl : m = name := Except.error.inj h
          exact ⟨List.mem_cons_self,by rw [hl]⟩
        | some var =>
          obtain ⟨hmem,hnone⟩ := ih (map_cons_eq_error.mp h)
          exact ⟨List.mem_cons_of_mem _ hmem,hfound ▸ hnone⟩
    | int i => exact ih (map_cons_eq_error.mp h)
    | bool b => exact ih (map_cons_eq_error.mp h)
    | float bits => exact ih (map_cons_eq_error.mp h)
    | str s => exact ih (map_cons_eq_error.mp h)
    | none => exact ih (map_cons_eq_error.mp h)

/-- A prototype has something against every text but itself. -/
lemma prototypeError_eq_none {toCheck : String} : prototypeError prototype toCheck = none ↔ prototype = toCheck := by
  refine ⟨eq_of_prototypeError,?_⟩
  rintro rfl
  unfold prototypeError
  dsimp only
  rw [if_neg, if_neg, if_neg]
  · exact not_not.mpr rfl
  · rintro (hlt | ⟨hne,he⟩)
    · exact lt_irrefl _ hlt
    · exact hne he
  · rintro (hlt | ⟨he,hne⟩)
    · exact lt_irrefl _ hlt
    · exact hne he

/-- A list is accepted when its types can be found and the prototype is what the checker spells for them. -/
lemma checkPrototype_eq_none : (checkPrototype parseArg vars prototype args).1 = none ↔
    ∃ types, args.map (vars.foundArg parseArg) = types.map some ∧ prototype = prototypeOf types := by
  unfold checkPrototype
  cases hr : resolveTypes parseArg vars args with
  | mk found vars₁ =>
    have hfst : (resolveTypes parseArg vars args).1 = found := by rw [hr]
    have hfound : ∀ types, found = .ok types ↔ args.map (vars.foundArg parseArg) = types.map some :=
      fun types => by rw [← hfst, resolveTypes_eq_ok]
    cases found with
    | error name =>
      refine iff_of_false (Option.some_ne_none _) ?_
      rintro ⟨types,htypes,-⟩
      cases (hfound types).mpr htypes
    | ok types =>
      dsimp only
      rw [prototypeError_eq_none]
      constructor
      · exact fun h => ⟨types,(hfound types).mp rfl,h⟩
      · rintro ⟨types',htypes',h⟩
        rwa [Except.ok.inj ((hfound types').mpr htypes')]

/-- `check_prototype` refuses exactly the arguments with something wrong. -/
theorem checkPrototype_ne_none :
    (checkPrototype parseArg vars prototype args).1 ≠ none ↔ Misfit parseArg vars prototype args := by
  constructor
  · intro hrefused
    cases hfst : (resolveTypes parseArg vars args).1 with
    | error name =>
      obtain ⟨hmem,hnone⟩ := resolveTypes_eq_error hfst
      exact .undefined name hmem hnone
    | ok types =>
      have htypes := resolveTypes_eq_ok.mp hfst
      exact .mismatch types htypes fun h => hrefused (checkPrototype_eq_none.mpr ⟨types,htypes,h⟩)
  · intro hmisfit haccepted
    obtain ⟨types,htypes,h⟩ := checkPrototype_eq_none.mp haccepted
    rcases hmisfit with ⟨name,hmem,hnone⟩ | ⟨types',htypes',hne⟩
    · have hmem' := List.mem_map_of_mem (f := vars.foundArg parseArg) (mem_varNames.mp hmem)
      rw [htypes] at hmem'
      obtain ⟨type,-,htype⟩ := List.mem_map.mp hmem'
      rw [VarStore.foundArg, VarStore.foundType, hnone] at htype
      cases htype
    · obtain rfl := List.map_injective_iff.mpr (Option.some_injective _) (htypes.symm.trans htypes')
      exact hne h

/-- The calls of a rule are checked one by one, each as if it were the first. -/
lemma checkAll_ne_none {calls : List (String × List Arg × String)} : (checkAll parseArg vars calls).1 ≠ none ↔
    ∃ call ∈ calls, Misfit parseArg vars call.1 call.2.1 := by
  induction calls generalizing vars with
  | nil => simp [checkAll]
  | cons call calls ih =>
    obtain ⟨prototype,args,what⟩ := call
    have hhead := @checkPrototype_ne_none parseArg vars args prototype
    have hsame : (checkAll parseArg (checkPrototype parseArg vars prototype args).2 calls).1 =
      (checkAll parseArg vars calls).1 := checkAll_fst (foundType_checkPrototype prototype args) calls
    rw [List.exists_mem_cons_iff, ← hhead, ← ih, ← hsame, checkAll]
    rcases checkPrototype parseArg vars prototype args with ⟨_ | err,vars₁⟩
    · simp
    · simp

end Arguments

section Faults
variable {ε : Type} {reg : Registry ε} {s t : Engine ε} {parsed : ParsedRule} {rule : Rule ε}

/-- What can be wrong with a parsed rule. Items of unknown types do not count. -/
inductive Faulty (reg : Registry ε) (s : Engine ε) (parsed : ParsedRule) : Prop
  | noName : parsed.name = "" → Faulty reg s parsed
  | nameCollision (r : Rule ε) : r ∈ s.rules → r.id = parsed.name → Faulty reg s parsed
  | noConditions : (∀ fn ∈ parsed.conditions, lookupConditionType reg fn.name = none) → Faulty reg s parsed
  | noActions : (∀ fn ∈ parsed.actions ++ parsed.undos, lookupActionType reg fn.name = none) →
    Faulty reg s parsed
  | condition (fn : Fn) (type : ConditionType ε) : fn ∈ parsed.conditions →
    lookupConditionType reg fn.name = some type →
    Misfit reg.parseArg s.vars type.prototype (fn.args.map convFnArg) → Faulty reg s parsed
  | action (fn : Fn) (type : ActionType) : fn ∈ parsed.actions ++ parsed.undos →
    lookupActionType reg fn.name = some type →
    Misfit reg.parseArg s.vars type.prototype (fn.args.map convFnArg) → Faulty reg s parsed

/-- `validate_rule` refuses a rule for one of five reasons. -/
lemma validateRule_ne_valid : (validateRule reg t rule).1 ≠ ruleValid ↔
    rule.id = "" ∨ (∃ r ∈ t.rules, r.id = rule.id) ∨ rule.conditions = [] ∨
      (rule.actions = [] ∧ rule.undos = []) ∨
      ∃ call ∈ rule.calls, Misfit reg.parseArg t.vars call.1 call.2.1 := by
  rw [← checkAll_ne_none, validateRule]
  split_ifs with hid hname hconds hacts
  · simp [noName, ruleValid, hid]
  · simp [nameCollision, ruleValid, hname]
  · simp [noConditions, ruleValid, hconds]
  · simp [noActions, ruleValid, hacts]
  · simp only [hid, hname, hconds, hacts, false_or]
    rcases checkAll reg.parseArg t.vars rule.calls with ⟨_ | err,vars⟩
    · simp
    · simp [badProto, ruleValid]

lemma exists_mem_filterMap {α β : Type} {f : α → Option β} {l : List α} {P : β → Prop} :
    (∃ b ∈ l.filterMap f, P b) ↔ ∃ a ∈ l, ∃ b, f a = some b ∧ P b := by
  constructor
  · rintro ⟨b,hb,hP⟩
    obtain ⟨a,ha,hf⟩ := List.mem_filterMap.mp hb
    exact ⟨a,ha,b,hf,hP⟩
  · rintro ⟨a,ha,b,hf,hP⟩
    exact ⟨b,List.mem_filterMap.mpr ⟨a,ha,hf⟩,hP⟩

/-- The calls of a rule are the known items it was made of. -/
lemma exists_call_iff {P : String → List Arg → Prop} (h : rule.shape = parsed.shape reg) :
    (∃ call ∈ rule.calls, P call.1 call.2.1) ↔
      (∃ fn ∈ parsed.conditions, ∃ type, lookupConditionType reg fn.name = some type ∧
        P type.prototype (fn.args.map convFnArg)) ∨
      ∃ fn ∈ parsed.actions ++ parsed.undos, ∃ type, lookupActionType reg fn.name = some type ∧
        P type.prototype (fn.args.map convFnArg) := by
  obtain ⟨-,hconds,hactions,hundos⟩ := RuleShape.mk.inj h
  have hcalls : (∃ call ∈ rule.calls, P call.1 call.2.1) ↔
      (∃ c ∈ rule.conditions.map Condition.shape, P c.1.prototype c.2.2) ∨
        ∃ a ∈ rule.actions ++ rule.undos, P a.type.prototype a.args := by
    simp [Rule.calls, Condition.shape, or_and_right, exists_or]
  rw [hcalls, hconds, hactions, hundos, ← List.filterMap_append, exists_mem_filterMap, exists_mem_filterMap]
  simp [knownCondition, knownAction]

variable [DecidableEq ε]

/-- A rule is refused exactly when something is wrong with it. -/
theorem faulty_iff : Faulty reg s parsed ↔
    (validateRule reg (buildRule reg s parsed).engine (buildRule reg s parsed).rule).1 ≠ ruleValid := by
  have hb : Built reg s (buildRule reg s parsed) := built_buildRule s parsed
  have hshape : (buildRule reg s parsed).rule.shape = parsed.shape reg := shape_buildRule s parsed
  obtain ⟨hid,hconds,hactions,hundos⟩ := RuleShape.mk.inj hshape
  have hnoConds : (buildRule reg s parsed).rule.conditions = [] ↔
      ∀ fn ∈ parsed.conditions, lookupConditionType reg fn.name = none := by
    rw [← List.map_eq_nil_iff (f := Condition.shape), hconds, List.filterMap_eq_nil_iff]
    simp [knownCondition]
  have hnoActions : ((buildRule reg s parsed).rule.actions = [] ∧ (buildRule reg s parsed).rule.undos = []) ↔
      ∀ fn ∈ parsed.actions ++ parsed.undos, lookupActionType reg fn.name = none := by
    rw [hactions, hundos, List.filterMap_eq_nil_iff, List.filterMap_eq_nil_iff, ← List.forall_mem_append]
    simp [knownAction]
  rw [validateRule_ne_valid, hid, hb.rules, hb.vars, hnoConds, hnoActions, exists_call_iff hshape]
  constructor
  · rintro (hname | ⟨r,hr,hname⟩ | hnone | hnone | ⟨fn,type,hfn,htype,hbad⟩ | ⟨fn,type,hfn,htype,hbad⟩)
    · exact .inl hname
    · exact .inr (.inl ⟨r,hr,hname⟩)
    · exact .inr (.inr (.inl hnone))
    · exact .inr (.inr (.inr (.inl hnone)))
    · exact .inr (.inr (.inr (.inr (.inl ⟨fn,hfn,type,htype,hbad⟩))))
    · exact .inr (.inr (.inr (.inr (.inr ⟨fn,hfn,type,htype,hbad⟩))))
  · rintro (hname | ⟨r,hr,hname⟩ | hnone | hnone | ⟨fn,hfn,type,htype,hbad⟩ | ⟨fn,hfn,type,htype,hbad⟩)
    · exact .noName hname
    · exact .nameCollision r hr hname
    · exact .noConditions hnone
    · exact .noActions hnone
    · exact .condition fn type hfn htype hbad
    · exact .action fn type hfn htype hbad

end Faults

section Traces
variable {ε : Type} {libc : Libc} {reg : Registry ε} {s s' : Engine ε} {parsed : ParsedRule}

/-- Nothing of a rule stays behind: the rules, the listeners of every event and the counts of all
variables are what they were, and so is everything else that was there. -/
structure Untraced (reg : Registry ε) (s s' : Engine ε) : Prop where
  rules : s'.rules = s.rules
  listeners : s'.listeners = s.listeners
  refs : ∀ name, s'.vars.refs name = s.vars.refs name
  value : s'.value = s.value
  isTrue : ∀ c ∈ s.conditions, s'.isTrue c.addr = s.isTrue c.addr
  isActive : ∀ r ∈ s.rules, s'.isActive r.addr = s.isActive r.addr
  vars : Undisturbed reg.parseArg s.vars s'.vars

/-- Looking variables up leaves nothing of the kind. -/
lemma Undisturbed.untraced {vars : VarStore} (h : Undisturbed reg.parseArg s.vars vars) :
    Untraced reg s (s.withVars vars) :=
  ⟨rfl,rfl,h.refs,rfl,fun _ _ => rfl,fun _ _ => rfl,h⟩

/-- Nor does a rule that comes after that. -/
lemma Untraced.trans_withVars {vars : VarStore} (hvars : Undisturbed reg.parseArg s.vars vars)
    (h : Untraced reg (s.withVars vars) s') : Untraced reg s s' where
  rules := h.rules
  listeners := h.listeners
  refs name := (h.refs name).trans (hvars.refs name)
  value := h.value
  isTrue := h.isTrue
  isActive := h.isActive
  vars := ⟨h.vars.db.trans hvars.db,fun m var hvar => h.vars.cached m var (hvars.cached m var hvar),
    fun m => (h.vars.found m).trans (hvars.found m)⟩

/-- The texts of a rule are parsed with look-ups. -/
lemma undisturbed_parseTexts {varMap : VarMap} {vars : VarStore} {conditions actions undos : Option String}
    {d : ParseData} (hd : parseTexts libc reg.parseArg varMap vars conditions actions undos = .ok d) :
    Undisturbed reg.parseArg vars d.vars :=
  (parseTexts_keeps (P := Undisturbed reg.parseArg vars) (fun _ name hvars => hvars.lookupVar name)
    (.refl vars) hd).1

variable [DecidableEq ε]

/-- Only the conditions and the rule that are gone had the fields that changed. -/
lemma Built.untraced {b : Building ε} (h : Built reg s b) (hs : Linked reg s) {vars : VarStore}
    (hvars : Undisturbed reg.parseArg s.vars vars) : Untraced reg s (rejectedWith s b vars) where
  rules := h.rules
  listeners := rfl
  refs := hvars.refs
  value := h.value
  isTrue c hc := h.isTrue_old _ (hs.conditionAddr_lt c hc)
  isActive r hr := h.isActive _ (hs.ruleAddr_lt r hr)
  vars := hvars

/-- The code of a rule that was refused. -/
lemma ruleErr_rejected : ∀ n ∈ omissions, ∀ err ∈ [noName, noConditions, noActions, nameCollision, badProto],
    (noParseError ||| n ||| err) &&& 0x00F ≠ ruleValid := by decide

lemma ruleErr_loaded : ∀ n ∈ omissions, (parseErrOf n ||| n ||| ruleValid) &&& 0x00F = ruleValid := by decide

/-- Whatever `validate_rule` says to a rule, it only looks variables up. -/
lemma undisturbed_validateRule (reg : Registry ε) (s : Engine ε) (parsed : ParsedRule) : Undisturbed reg.parseArg s.vars
    (validateRule reg (buildRule reg s parsed).engine (buildRule reg s parsed).rule).2.2 := by
  have hb : Built reg s (buildRule reg s parsed) := built_buildRule s parsed
  apply validateRule_keeps (P := Undisturbed reg.parseArg s.vars) fun _ name hvars => hvars.lookupVar name
  rw [hb.vars]
  exact .refl _

/-- A faulty rule is refused, and nothing of it stays. -/
theorem Faulty.applyRule (hs : Linked reg s) (h : Faulty reg s parsed) : ∃ s' code err,
    applyRule reg s parsed = .ok (s', code, err) ∧ code &&& 0x00F ≠ ruleValid ∧ Untraced reg s s' := by
  have hb : Built reg s (buildRule reg s parsed) := built_buildRule s parsed
  have hvars := undisturbed_validateRule reg s parsed
  have hne := faulty_iff.mp h
  unfold Xcpmd.applyRule
  cases hv : validateRule reg (buildRule reg s parsed).engine (buildRule reg s parsed).rule with
  | mk ruleErr rest =>
    obtain ⟨text,vars⟩ := rest
    rw [hv] at hne hvars
    simp only [hv, if_neg hne, hb.deleteRule hs vars, ok_bind]
    refine ⟨_,_,_,rfl,?_,hb.untraced hs hvars⟩
    exact ruleErr_rejected _ (recoverable_buildRule s parsed) _ (validateRule_code hv hne)

/-- A rule that was not accepted is faulty, and nothing of it stays. -/
theorem untraced_applyRule (hs : Linked reg s) {code : ℕ} {err : String}
    (h : applyRule reg s parsed = .ok (s', code, err)) (hcode : code &&& 0x00F ≠ ruleValid) :
    Faulty reg s parsed ∧ Untraced reg s s' := by
  have hb : Built reg s (buildRule reg s parsed) := built_buildRule s parsed
  have hvars := undisturbed_validateRule reg s parsed
  rcases applyRule_spec hs h with ⟨-,-,vars',-,-,-,rfl⟩ | ⟨ruleErr,text,vars,hv,hne,rfl,-⟩
  · exact absurd (ruleErr_loaded _ (recoverable_buildRule s parsed)) hcode
  · rw [hv] at hvars
    exact ⟨faulty_iff.mpr (by rw [hv]; exact hne),hb.untraced hs hvars⟩

/-- A rule whose texts the parser stops at is not applied. -/
lemma parseRulePersistent_of_stopped {varMap : VarMap} {conditions actions undos : Option String}
    {d : ParseData} (hd : parseTexts libc reg.parseArg varMap s.vars conditions actions undos = .ok d)
    (hnone : d.applied = none) (name : Option String) :
    parseRulePersistent libc reg s varMap name conditions actions undos =
      .ok (s.withVars d.vars, d, ruleCodeNotSet) := by
  rw [parseRulePersistent, hd, ok_bind, hnone]
  rfl

/-- A rule that `parse_rule_persistent` does not report as loaded leaves nothing. -/
theorem untraced_parseRulePersistent (hs : Linked reg s) {varMap : VarMap}
    {name conditions actions undos : Option String} {d : ParseData} {code : ℕ}
    (h : parseRulePersistent libc reg s varMap name conditions actions undos = .ok (s', d, code))
    (hrep : ¬ d.Reported) : Untraced reg s s' := by
  obtain ⟨p,hp,⟨-,rfl,-⟩ | ⟨parsed,-,-,err,text,ht,hcode,hret⟩⟩ := parseRulePersistent_eq_ok h
  · exact (undisturbed_parseTexts hp).untraced
  · have hlinked : Linked reg (s.withVars p.vars) := hs.congr rfl rfl rfl
    apply Untraced.trans_withVars (undisturbed_parseTexts hp)
    rcases applyRule_spec hlinked ht with ⟨-,-,vars',-,-,-,rfl⟩ | ⟨ruleErr,why,vars,hv,hne,rfl,-⟩
    · -- a rule that passed is reported
      rw [ParseData.Reported, hcode, hret] at hrep
      refine absurd ((ruleVerdict_loaded _ (recoverable_buildRule _ parsed)).imp (fun hnone => ?_) id) hrep
      simp [hnone]
    · have hchecked := undisturbed_validateRule reg (s.withVars p.vars) parsed
      rw [hv] at hchecked
      exact (built_buildRule _ parsed).untraced hlinked hchecked

end Traces

section Calls
variable {ε : Type} [DecidableEq ε] (libc : Libc) (reg : Registry ε)

/-- What the requests and the events of the daemon are made of: a call on the engine, or one on the
variables. -/
inductive Call (ε : Type)
  | command (c : Command ε)
  | lookupVar (name : String)
  | addVar (name : String) (value : Arg)
  | deleteVar (name : String)
  | deleteVars

/-- The engine after one call. -/
def call (s : Engine ε) : Call ε → Outcome (Engine ε)
  | .command c => obey reg s c
  | .lookupVar name => .ok (s.withVars (lookupVar reg.parseArg s.vars name).2)
  | .addVar name value => .ok (s.withVars (addVar libc reg.parseArg s.vars name value).2.1)
  | .deleteVar name => .ok (s.withVars (deleteVar s.vars name).2)
  | .deleteVars => .ok (s.withVars (deleteVars s.vars))

variable {libc reg} {s t t' : Engine ε}

lemma Filed.withVars (hs : Filed reg s) (vars : VarStore) : Filed reg (s.withVars vars) :=
  { hs with linked := hs.linked.congr rfl rfl rfl }

lemma Filed.call (hs : Filed reg s) {c : Call ε} (h : call libc reg s c = .ok t) : Filed reg t := by
  cases c with
  | command c =>
    exact obey_invariant (fun _ => Filed.linked) (fun _ _ _ _ hu hi => hu.step hi)
      (fun _ q vars hu _ _ => hu.without q vars) hs h
  | lookupVar name =>
    obtain rfl := Except.ok.inj h
    exact hs.withVars _
  | addVar name value =>
    obtain rfl := Except.ok.inj h
    exact hs.withVars _
  | deleteVar name =>
    obtain rfl := Except.ok.inj h
    exact hs.withVars _
  | deleteVars =>
    obtain rfl := Except.ok.inj h
    exact hs.withVars _

lemma calls_filed {value : ε → Value} {vars : VarStore} {calls : List (Call ε)}
    (h : Machine.perform (call libc reg) (Engine.start value vars) calls = .ok s) : Filed reg s :=
  perform_invariant (fun _ _ _ ht hstep => ht.call hstep) (filed_start value vars) h

/-- An engine that calls lead to from another one. -/
structure Called (libc : Libc) (reg : Registry ε) (s t : Engine ε) : Prop where
  filed : Filed reg t
  calls : ∃ calls, Machine.perform (call libc reg) s calls = .ok t

/-- One more call leads further. -/
lemma Called.then (h : Called libc reg s t) {c : Call ε} (hc : call libc reg t c = .ok t') :
    Called libc reg s t' := by
  obtain ⟨calls,hcalls⟩ := h.calls
  refine ⟨h.filed.call hc,calls ++ [c],?_⟩
  rw [perform_append, hcalls, ok_bind, perform_cons, hc]
  rfl

/-- The parser is made of calls. -/
lemma called_kept (s : Engine ε) : PolicyKept libc reg (Called libc reg s) where
  lookupVar t name h := h.then (c := .lookupVar name) rfl
  addVar t name arg _ _ _ h := h.then (c := .addVar name (convFnArg arg)) rfl
  applyRule t parsed t' code err _ h happly := by
    apply h.then (c := .command (.input (.load parsed)))
    exact obey_eq_ok.mpr ⟨[],by rw [commandStep, engineStep, happly]; rfl⟩

/-- So is the deletion of a rule, which goes by its name. -/
lemma Called.without (h : Called libc reg s t) {r : Rule ε} {vars : VarStore} (hr : r ∈ t.rules)
    (hvars : r.varNames.foldlM (changeRef reg.parseArg (-1)) t.vars = .ok vars) :
    Called libc reg s (t.without r vars) := by
  have hlookup : lookupRule t r.id = some r := by
    have hsome : (lookupRule t r.id).isSome = true := List.find?_isSome.mpr ⟨r,hr,by simp⟩
    obtain ⟨q,hq⟩ := Option.isSome_iff_exists.mp hsome
    have hid : q.id = r.id := by simpa using List.find?_some hq
    rw [hq, List.inj_on_of_nodup_map h.filed.ids (List.mem_of_find?_eq_some hq) hr hid]
  apply h.then (c := .command (.deleteRule r.id))
  refine obey_eq_ok.mpr ⟨[],?_⟩
  rw [commandStep, removeRule, hlookup]
  dsimp only
  rw [h.filed.linked.deleteRule_eq hr, hvars]
  rfl

/-- Every request comes to some calls. -/
theorem calls_of_serve {d d' : Daemon ε} {rpc : Rpc} (hd : Filed reg d.engine)
    (h : serve libc reg d rpc = .ok d') : ∃ calls, Machine.perform (call libc reg) d.engine calls = .ok d'.engine := by
  have hstart : Called libc reg d.engine d.engine := ⟨hd,[],rfl⟩
  have hclear : ∀ t, Called libc reg d.engine t → Called libc reg d.engine (t.withVars (deleteVars t.vars)) :=
    fun t ht => ht.then (c := .deleteVars) rfl
  have hcalled := serve_keeps (called_kept d.engine) (fun _ ht => ht.filed.linked)
    (fun t q vars ht hq hvars => ht.without hq hvars) (fun t name ht => ht.then (c := .deleteVar name) rfl)
    (fun t ht _ => hclear t ht) hstart (fun _ => hclear _ hstart) h
  exact hcalled.calls

/-- In every run, a faulty rule is refused, a rule that `apply_rule` does not accept is faulty, and in
both cases it leaves nothing; so does a rule whose texts the parser stops at, and whatever
`parse_rule_persistent` does not report as loaded. -/
theorem refused_untraced {value : ε → Value} {vars : VarStore} {calls : List (Call ε)}
    (h : Machine.perform (call libc reg) (Engine.start value vars) calls = .ok s) :
    (∀ parsed, Faulty reg s parsed → ∃ s' code err, applyRule reg s parsed = .ok (s', code, err) ∧
      code &&& 0x00F ≠ ruleValid ∧ Untraced reg s s') ∧
    (∀ parsed s' code err, applyRule reg s parsed = .ok (s', code, err) → code &&& 0x00F ≠ ruleValid →
      Faulty reg s parsed ∧ Untraced reg s s') ∧
    (∀ varMap conditions actions undos d,
      parseTexts libc reg.parseArg varMap s.vars conditions actions undos = .ok d → d.applied = none →
      ∀ name, parseRulePersistent libc reg s varMap name conditions actions undos =
        .ok (s.withVars d.vars, d, ruleCodeNotSet) ∧ ¬ d.Reported ∧ Untraced reg s (s.withVars d.vars)) ∧
    ∀ varMap name conditions actions undos s' d code,
      parseRulePersistent libc reg s varMap name conditions actions undos = .ok (s', d, code) →
      ¬ d.Reported → Untraced reg s s' := by
  have hs := (calls_filed h).linked
  refine ⟨fun parsed hfaulty => hfaulty.applyRule hs,fun parsed s' code err => untraced_applyRule hs,?_,?_⟩
  · intro varMap conditions actions undos d hd hnone name
    refine ⟨parseRulePersistent_of_stopped hd hnone name,?_,(undisturbed_parseTexts hd).untraced⟩
    obtain ⟨hfatal,hret,-⟩ := parseTexts_verdict hd hnone
    rintro (htrue | hrec)
    · rw [hret] at htrue
      cases htrue
    · exact hfatal.2 hrec
  · exact fun varMap name conditions actions undos s' d code => untraced_parseRulePersistent hs

end Calls

/-- A rule on a variable that is nowhere. -/
def undefinedRule : ParsedRule where
  name := "low"
  conditions := [{ name := "whileOverallBattLessThan", args := [.var "low"] }]
  actions := [{ name := "doNothing", args := [] }]
  undos := []

/-- Beside the rule on the lid, it is refused and leaves nothing. -/
theorem refused_untraced_undefined :
    ∃ s s' code err r, Machine.perform (call zeroLibc bareRegistry) bareEngine
        [.command (.input (.load (lidRule true)))] = .ok s ∧ s.rules = [r] ∧
      applyRule bareRegistry s undefinedRule = .ok (s', code, err) ∧ code &&& 0x00F ≠ ruleValid ∧
      Untraced bareRegistry s s' := by
  have hrun : Machine.perform (call zeroLibc bareRegistry) bareEngine
      [.command (.input (.load (lidRule true)))] = .ok _ := rfl
  obtain ⟨s',code,err,happly,hcode,huntraced⟩ := (refused_untraced hrun).1 undefinedRule
    (.condition _ _ (.head _) rfl (.undefined "low" (.head _) rfl))
  exact ⟨_,s',code,err,_,hrun,rfl,happly,hcode,huntraced⟩

end Xctools.Xcpmd
