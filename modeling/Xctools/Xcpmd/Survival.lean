import Xctools.Xcpmd.RefCounts

/-! A rule survives the database. What is stored for a rule is parsed into its items, the items make a
rule of the same shape, and that rule passes the checks the first one passed. -/
namespace Xctools.Xcpmd
open Machine

section Found
variable {parseArg : String → Option Arg} {vars vars' : VarStore} {name : String}

/-- The type that a look-up finds. -/
def VarStore.foundType (parseArg : String → Option Arg) (vars : VarStore) (name : String) : Option ArgType :=
  (lookupVar parseArg vars name).1.map fun var => var.value.type

lemma foundType_eq (name : String) : vars.foundType parseArg name =
    match vars.cached name with
    | some var => some var.value.type
    | none => if (getDbVar parseArg vars name).type = .none then none
      else some (getDbVar parseArg vars name).type := by
  rw [VarStore.foundType, lookupVar_eq]
  cases vars.cached name with
  | some var => rfl
  | none =>
    dsimp only
    split_ifs
    · rfl
    · rfl

lemma foundType_congr {m : String} (hcached : (vars'.cached m).map (fun var => var.value.type) =
    (vars.cached m).map fun var => var.value.type) (hdb : vars'.db = vars.db) :
    vars'.foundType parseArg m = vars.foundType parseArg m := by
  have hget : getDbVar parseArg vars' m = getDbVar parseArg vars m := by rw [getDbVar, getDbVar, hdb]
  rw [foundType_eq, foundType_eq, hget]
  revert hcached
  cases vars'.cached m with
  | none =>
    cases vars.cached m with
    | none => exact fun _ => rfl
    | some var => exact fun h => by cases h
  | some var' =>
    cases vars.cached m with
    | none => exact fun h => by cases h
    | some var => exact fun h => h

lemma foundType_lookupVar (name : String) :
    (lookupVar parseArg vars name).2.foundType parseArg = vars.foundType parseArg := by
  funext m
  exact congrArg (Option.map _) (found_lookupVar m)

lemma foundType_changeRef {n : ℤ} (h : changeRef parseArg n vars name = .ok vars') :
    vars'.foundType parseArg = vars.foundType parseArg := by
  obtain ⟨-,rfl⟩ := changeRef_eq_ok h
  refine Eq.trans ?_ (@foundType_lookupVar parseArg vars name)
  funext m
  refine foundType_congr ?_ rfl
  rw [cached_addRefs]
  split_ifs with hm
  · rw [hm, Option.map_map]
    rfl
  · rfl

lemma foundType_changeRefs {n : ℤ} {l : List String} (h : l.foldlM (changeRef parseArg n) vars = .ok vars') :
    vars'.foundType parseArg = vars.foundType parseArg :=
  perform_invariant (I := fun v => v.foundType parseArg = vars.foundType parseArg)
    (fun _ _ _ hv hstep => (foundType_changeRef hstep).trans hv) rfl h

lemma foundType_readVar (arg : FnArg) :
    (readVar parseArg vars arg).foundType parseArg = vars.foundType parseArg := by
  cases arg with
  | var name => exact foundType_lookupVar name
  | int => rfl
  | float => rfl
  | str => rfl
  | bool => rfl
  | undetermined => rfl

lemma foundType_foldl_readVar (args : List FnArg) :
    (args.foldl (readVar parseArg) vars).foundType parseArg = vars.foundType parseArg := by
  induction args generalizing vars with
  | nil => rfl
  | cons arg args ih => rw [List.foldl_cons, ih, foundType_readVar]

/-- What is found decides what the checks say. -/
lemma resolveTypes_fst (h : vars'.foundType parseArg = vars.foundType parseArg) (args : List Arg) :
    (resolveTypes parseArg vars' args).1 = (resolveTypes parseArg vars args).1 := by
  induction args generalizing vars vars' with
  | nil => rfl
  | cons arg args ih =>
    cases arg with
    | var name =>
      have hnext := (foundType_lookupVar name).trans (h.trans (foundType_lookupVar name).symm)
      have hname := congrFun h name
      rw [resolveTypes, resolveTypes]
      unfold VarStore.foundType at hname
      revert hname hnext
      rcases lookupVar parseArg vars' name with ⟨found',v'⟩
      rcases lookupVar parseArg vars name with ⟨found,v⟩
      cases found' with
      | none =>
        cases found with
        | none => exact fun _ _ => rfl
        | some var => exact fun _ h => by cases h
      | some var' =>
        cases found with
        | none => exact fun _ h => by cases h
        | some var =>
          intro hnext hname
          have htype : var'.value.type = var.value.type := Option.some.inj hname
          simp only [htype, ih hnext]
    | int i => exact congrArg (Except.map _) (ih h)
    | bool b => exact congrArg (Except.map _) (ih h)
    | float bits => exact congrArg (Except.map _) (ih h)
    | str s => exact congrArg (Except.map _) (ih h)
    | none => exact congrArg (Except.map _) (ih h)

lemma checkPrototype_fst (h : vars'.foundType parseArg = vars.foundType parseArg) (prototype : String)
    (args : List Arg) :
    (checkPrototype parseArg vars' prototype args).1 = (checkPrototype parseArg vars prototype args).1 := by
  have htypes := resolveTypes_fst h args
  unfold checkPrototype
  revert htypes
  rcases resolveTypes parseArg vars' args with ⟨_ | types',v'⟩
  · rcases resolveTypes parseArg vars args with ⟨_ | types,v⟩
    · exact fun h => by rw [Except.error.inj h]
    · exact fun h => by cases h
  · rcases resolveTypes parseArg vars args with ⟨_ | types,v⟩
    · exact fun h => by cases h
    · exact fun h => by rw [Except.ok.inj h]

lemma foundType_checkPrototype (prototype : String) (args : List Arg) :
    (checkPrototype parseArg vars prototype args).2.foundType parseArg = vars.foundType parseArg :=
  checkPrototype_keeps (P := fun v => v.foundType parseArg = vars.foundType parseArg)
    (fun _ name hv => (foundType_lookupVar name).trans hv) rfl prototype args

lemma checkAll_fst (h : vars'.foundType parseArg = vars.foundType parseArg)
    (calls : List (String × List Arg × String)) :
    (checkAll parseArg vars' calls).1 = (checkAll parseArg vars calls).1 := by
  induction calls generalizing vars vars' with
  | nil => rfl
  | cons call calls ih =>
    obtain ⟨prototype,args,what⟩ := call
    have hverdict := checkPrototype_fst h prototype args
    have hnext := (@foundType_checkPrototype parseArg vars' prototype args).trans
      (h.trans (foundType_checkPrototype prototype args).symm)
    rw [checkAll, checkAll]
    revert hverdict hnext
    rcases checkPrototype parseArg vars' prototype args with ⟨err',v'⟩
    rcases checkPrototype parseArg vars prototype args with ⟨err,v⟩
    intro hverdict hnext
    obtain rfl : err' = err := hverdict
    cases err' with
    | some err => rfl
    | none => exact ih hnext

/-- Cached variables can be counted. -/
lemma changeRefs_of_cached {n : ℤ} {l : List String} (h : ∀ m ∈ l, (vars.cached m).isSome = true) :
    ∃ vars', l.foldlM (changeRef parseArg n) vars = .ok vars' := by
  have hfound : ∀ m ∈ l, (lookupVar parseArg vars m).1.isSome = true := by
    intro m hm
    obtain ⟨var,hvar⟩ := Option.isSome_iff_exists.mp (h m hm)
    rw [lookupVar_of_cached hvar]
    rfl
  obtain ⟨vars',hvars,-,-⟩ := changeRefs_found n hfound
  exact ⟨vars',hvars⟩

end Found

section Rebuilt
variable {ε : Type} {libc : Libc} {reg : Registry ε} {r r' : Rule ε}

/-- The types of a rule are those the registry has under their names. -/
structure Rule.Registered (reg : Registry ε) (r : Rule ε) : Prop where
  conditions : ∀ c ∈ r.conditions, lookupConditionType reg c.type.name = some c.type
  calls : ∀ a ∈ r.actions ++ r.undos, lookupActionType reg a.type.name = some a.type

/-- The rule as the parser hands it over. -/
def Rule.parsed (r : Rule ε) : ParsedRule where
  name := r.id
  conditions := r.conditions.map Condition.toFn
  actions := r.actions.map Action.toFn
  undos := r.undos.map fun a => { a.toFn with undo := false }

lemma calls_of_shape (h : r'.shape = r.shape) : r'.calls = r.calls := by
  obtain ⟨-,hconds,hactions,hundos⟩ := RuleShape.mk.inj h
  have hcalls : ∀ q : Rule ε, q.calls =
      (q.conditions.map Condition.shape).map
        (fun c => (c.1.prototype, c.2.2, " for condition " ++ c.1.name)) ++
      (q.actions ++ q.undos).map fun a => (a.type.prototype, a.args, " for action " ++ a.type.name) := by
    intro q
    rw [Rule.calls, List.map_map]
    rfl
  rw [hcalls, hcalls, hconds, hactions, hundos]

lemma map_convFnArg_toFnArg {args : List Arg} (h : ∀ arg ∈ args, arg.Printable) :
    (args.map Arg.toFnArg).map convFnArg = args := by
  rw [List.map_map]
  calc args.map (convFnArg ∘ Arg.toFnArg) = args.map id :=
        List.map_congr_left fun arg harg => convFnArg_toFnArg (h arg harg)
    _ = args := List.map_id args

lemma filterMap_map_eq {α β : Type} {f : α → Fn} {k : Fn → Option β} {g : α → β} {l : List α}
    (h : ∀ x ∈ l, k (f x) = some (g x)) : (l.map f).filterMap k = l.map g := by
  induction l with
  | nil => rfl
  | cons x l ih =>
    obtain ⟨hx,hl⟩ := List.forall_mem_cons.mp h
    rw [List.map_cons, List.filterMap_cons_some hx, ih hl, List.map_cons]

/-- The items of a rule stand for the rule. -/
lemma shape_parsed (hreg : r.Registered reg) (hwrite : r.Writable) : r.parsed.shape reg = r.shape := by
  obtain ⟨hactions,hundos⟩ := List.forall_mem_append.mp hreg.calls
  obtain ⟨hactions',hundos'⟩ := List.forall_mem_append.mp hwrite.calls
  have hconds : r.parsed.conditions.filterMap (knownCondition reg) = r.conditions.map Condition.shape := by
    apply filterMap_map_eq
    intro c hc
    rw [knownCondition, Condition.toFn, hreg.conditions c hc, Option.map_some, Bool.not_not,
      map_convFnArg_toFnArg (hwrite.conditions c hc).2]
    rfl
  have hacts : r.parsed.actions.filterMap (knownAction reg) = r.actions.map id := by
    apply filterMap_map_eq
    intro a ha
    rw [knownAction, Action.toFn, hactions a ha, Option.map_some, map_convFnArg_toFnArg (hactions' a ha).2]
    rfl
  have hunds : r.parsed.undos.filterMap (knownAction reg) = r.undos.map id := by
    apply filterMap_map_eq
    intro a ha
    rw [knownAction, Action.toFn, hundos a ha, Option.map_some, map_convFnArg_toFnArg (hundos' a ha).2]
    rfl
  rw [ParsedRule.shape, hconds, hacts, hunds, List.map_id, List.map_id]
  rfl

variable {s : Engine ε}

/-- Items of known types are no error. -/
lemma foldl_noError {f : Building ε → Fn → Building ε} {fns : List Fn}
    (hf : ∀ fn ∈ fns, ∀ b, (f b fn).recoverable = b.recoverable ∧ (f b fn).err = b.err) (b : Building ε) :
    (fns.foldl f b).recoverable = b.recoverable ∧ (fns.foldl f b).err = b.err := by
  induction fns generalizing b with
  | nil => exact ⟨rfl,rfl⟩
  | cons fn fns ih =>
    obtain ⟨hhead,htail⟩ := List.forall_mem_cons.mp hf
    obtain ⟨hr,he⟩ := ih htail (f b fn)
    rw [List.foldl_cons]
    exact ⟨hr.trans (hhead b).1,he.trans (hhead b).2⟩

/-- What `validate_rule` asks of a rule. -/
structure Rule.Acceptable (reg : Registry ε) (s : Engine ε) (r : Rule ε) : Prop where
  id : r.id ≠ ""
  fresh : ∀ q ∈ s.rules, q.id ≠ r.id
  conditions : r.conditions ≠ []
  calls : ¬ (r.actions = [] ∧ r.undos = [])
  checked : (checkAll reg.parseArg s.vars r.calls).1 = none

/-- A rule of the same shape passes where look-ups find the same types. -/
lemma Rule.Acceptable.validateRule {t : Engine ε} (h : r.Acceptable reg s) (hshape : r'.shape = r.shape)
    (hrules : t.rules = s.rules)
    (hfound : t.vars.foundType reg.parseArg = s.vars.foundType reg.parseArg) :
    ∃ vars, validateRule reg t r' = (ruleValid, "", vars) ∧ r'.Typed vars ∧
      vars.foundType reg.parseArg = s.vars.foundType reg.parseArg := by
  obtain ⟨hid,hconds,hactions,hundos⟩ := RuleShape.mk.inj hshape
  have hcalls := calls_of_shape hshape
  have hcheck : (checkAll reg.parseArg t.vars r'.calls).1 = none := by
    rw [hcalls, checkAll_fst hfound]
    exact h.checked
  have hvars := checkAll_keeps (P := fun v => v.foundType reg.parseArg = s.vars.foundType reg.parseArg)
    (fun _ name hv => (foundType_lookupVar name).trans hv) hfound r'.calls
  have hne : r'.conditions ≠ [] := by
    intro hnil
    rw [hnil] at hconds
    exact h.conditions (List.map_eq_nil_iff.mp hconds.symm)
  cases hc : checkAll reg.parseArg t.vars r'.calls with
  | mk err vars =>
    rw [hc] at hcheck hvars
    obtain rfl : err = none := hcheck
    refine ⟨vars,?_,fits_of_checkAll hc,hvars⟩
    rw [Xcpmd.validateRule, if_neg (by rw [hid]; exact h.id), if_neg, if_neg hne, if_neg, hc]
    · rw [hactions, hundos]
      exact h.calls
    · rintro ⟨q,hq,he⟩
      rw [hrules] at hq
      exact h.fresh q hq (he.trans hid)

/-- The variables of an acceptable rule can be found. -/
lemma Rule.Acceptable.resolved (h : r.Acceptable reg s) (varMap : VarMap) :
    ∀ fn ∈ r.fns, fn.Resolved reg.parseArg varMap s.vars := by
  obtain ⟨vars,-,htyped,hfound⟩ := h.validateRule rfl rfl rfl
  have hnames : ∀ m ∈ r.varNames, (lookupVar reg.parseArg s.vars m).1.isSome = true := by
    intro m hm
    obtain ⟨var,hvar⟩ := Option.isSome_iff_exists.mp (htyped.cached hm)
    have htype : s.vars.foundType reg.parseArg m = some var.value.type := by
      rw [← hfound, foundType_eq, hvar]
    rw [VarStore.foundType] at htype
    obtain ⟨v,hv,-⟩ := Option.map_eq_some_iff.mp htype
    rw [hv]
    rfl
  have hargs : ∀ args : List Arg, (∀ m ∈ Xcpmd.varNames args, m ∈ r.varNames) →
      ∀ arg ∈ args.map Arg.toFnArg, arg.Resolved reg.parseArg varMap s.vars := by
    intro args hsub arg harg
    obtain ⟨a,ha,rfl⟩ := List.mem_map.mp harg
    cases a with
    | var m => exact .inr (hnames m (hsub m (mem_varNames.mpr ha)))
    | int => trivial
    | bool => trivial
    | float => trivial
    | str => trivial
    | none => trivial
  have hcall : ∀ a ∈ r.actions ++ r.undos, ∀ m ∈ Xcpmd.varNames a.args, m ∈ r.varNames := by
    intro a ha m hm
    exact mem_rule_varNames.mpr ⟨_,List.mem_append_right _ (List.mem_map_of_mem ha),hm⟩
  obtain ⟨hactions,hundos⟩ := List.forall_mem_append.mp hcall
  unfold Rule.fns
  simp only [List.forall_mem_append, List.forall_mem_map]
  refine ⟨⟨fun c hc => ?_,fun a ha => hargs _ (hactions a ha)⟩,fun a ha => hargs _ (hundos a ha)⟩
  apply hargs
  intro m hm
  exact mem_rule_varNames.mpr ⟨_,List.mem_append_left _ (List.mem_map_of_mem hc),hm⟩

variable [DecidableEq ε]

lemma buildRule_noError (hreg : r.Registered reg) :
    (buildRule reg s r.parsed).recoverable = 0 ∧ (buildRule reg s r.parsed).err = "" := by
  obtain ⟨hactions,hundos⟩ := List.forall_mem_append.mp hreg.calls
  have hcall : ∀ {bad : ℕ} {add : Rule ε → Action → Rule ε} {fn : Fn} {type : ActionType},
      lookupActionType reg fn.name = some type → ∀ b : Building ε,
      (addCall reg bad add b fn).recoverable = b.recoverable ∧ (addCall reg bad add b fn).err = b.err := by
    intro bad add fn type htype b
    rw [addCall, htype]
    exact ⟨rfl,rfl⟩
  have hconds : ∀ fn ∈ r.parsed.conditions, ∀ b : Building ε,
      (addCondition reg b fn).recoverable = b.recoverable ∧ (addCondition reg b fn).err = b.err := by
    intro fn hfn b
    obtain ⟨c,hc,rfl⟩ := List.mem_map.mp hfn
    rw [addCondition, Condition.toFn, hreg.conditions c hc]
    exact ⟨rfl,rfl⟩
  have hacts : ∀ fn ∈ r.parsed.actions, ∀ b : Building ε,
      (addCall reg badAction addActionToRule b fn).recoverable = b.recoverable ∧
        (addCall reg badAction addActionToRule b fn).err = b.err := by
    intro fn hfn
    obtain ⟨a,ha,rfl⟩ := List.mem_map.mp hfn
    exact hcall (hactions a ha)
  have hunds : ∀ fn ∈ r.parsed.undos, ∀ b : Building ε,
      (addCall reg badUndo addUndoToRule b fn).recoverable = b.recoverable ∧
        (addCall reg badUndo addUndoToRule b fn).err = b.err := by
    intro fn hfn
    obtain ⟨a,ha,rfl⟩ := List.mem_map.mp hfn
    exact hcall (hundos a ha)
  obtain ⟨hr₁,he₁⟩ := foldl_noError hconds (newRule s r.parsed.name)
  obtain ⟨hr₂,he₂⟩ := foldl_noError hacts
    (r.parsed.conditions.foldl (addCondition reg) (newRule s r.parsed.name))
  obtain ⟨hr₃,he₃⟩ := foldl_noError hunds
    (r.parsed.actions.foldl (addCall reg badAction addActionToRule)
      (r.parsed.conditions.foldl (addCondition reg) (newRule s r.parsed.name)))
  exact ⟨hr₃.trans (hr₂.trans hr₁),he₃.trans (he₂.trans he₁)⟩

/-- The items of an acceptable rule are loaded as a rule of its shape. -/
theorem applyRule_parsed (hacc : r.Acceptable reg s) (hreg : r.Registered reg) (hwrite : r.Writable)
    {t : Engine ε} (hrules : t.rules = s.rules)
    (hfound : t.vars.foundType reg.parseArg = s.vars.foundType reg.parseArg) :
    ∃ t' r', applyRule reg t r.parsed = .ok (t', ruleValid, "") ∧ t'.rules = s.rules ++ [r'] ∧
      r'.shape = r.shape ∧ t'.vars.foundType reg.parseArg = s.vars.foundType reg.parseArg := by
  have hb : Built reg t (buildRule reg t r.parsed) := built_buildRule t r.parsed
  have hshape : (buildRule reg t r.parsed).rule.shape = r.shape :=
    (shape_buildRule t r.parsed).trans (shape_parsed hreg hwrite)
  obtain ⟨vars,hvalid,htyped,hvars⟩ := hacc.validateRule hshape (hb.rules.trans hrules)
    (by rw [hb.vars]; exact hfound)
  obtain ⟨vars',hcounts⟩ := @changeRefs_of_cached reg.parseArg vars 1
    (buildRule reg t r.parsed).rule.varNames fun m hm => htyped.cached hm
  obtain ⟨hrec,herr⟩ := @buildRule_noError ε reg r t _ hreg
  refine ⟨loadedWith (buildRule reg t r.parsed) vars',(buildRule reg t r.parsed).rule,?_,?_,hshape,?_⟩
  · unfold applyRule addRule
    simp only [hvalid, hrec, herr, Engine.withVars, hcounts, ok_bind, if_true]
    rfl
  · rw [loadedWith, hb.rules, hrules]
  · exact (foundType_changeRefs hcounts).trans hvars

/-- Texts that hand over the items of a rule have the rule built and loaded. -/
theorem parseRulePersistent_parsed (hacc : r.Acceptable reg s) (hreg : r.Registered reg) (hwrite : r.Writable)
    {varMap : VarMap} {conditions actions undos : Option String} {d : ParseData}
    (hparse : parseTexts libc reg.parseArg varMap s.vars conditions actions undos = .ok d)
    (happlied : d.applied = some (r.parsed.conditions, r.parsed.actions, r.parsed.undos))
    (hmessage : d.message = none) (hvars : d.vars = (r.fns.flatMap Fn.args).foldl (readVar reg.parseArg) s.vars) :
    ∃ s' d' r', parseRulePersistent libc reg s varMap (some r.id) conditions actions undos =
        .ok (s', d', ruleCodeNotSet) ∧
      d'.returned = some true ∧ s'.rules = s.rules ++ [r'] ∧ r'.shape = r.shape ∧
      s'.vars.foundType reg.parseArg = s.vars.foundType reg.parseArg := by
  have hfound : (s.withVars d.vars).vars.foundType reg.parseArg = s.vars.foundType reg.parseArg := by
    change d.vars.foundType reg.parseArg = _
    rw [hvars, foundType_foldl_readVar]
  obtain ⟨s',r',happly,hrules,hshape,hfound'⟩ :=
    applyRule_parsed hacc hreg hwrite (t := s.withVars d.vars) rfl hfound
  have hpersistent : parseRulePersistent libc reg s varMap (some r.id) conditions actions undos =
      .ok (s', { d with errorCode := noParseError, message := none, returned := some true },
        ruleCodeNotSet) := by
    rw [parseRulePersistent, hparse, ok_bind]
    simp only [happlied]
    change applyRule reg (s.withVars d.vars) r.parsed >>= _ = _
    rw [happly, ok_bind, hmessage]
    have hverdict : ruleVerdict ruleValid = (noParseError, ruleCodeNotSet) := by decide
    simp only [hverdict]
    rfl
  exact ⟨s',_,r',hpersistent,rfl,hrules,hshape,hfound'⟩

/-- What is stored for an acceptable rule is parsed and loaded as a rule of its shape. -/
theorem parseRulePersistent_ruleToJson (hacc : r.Acceptable reg s) (hreg : r.Registered reg)
    (hwrite : r.Writable) (varMap : VarMap) : ∃ conditions actions undos s' d r',
      jsonRuleToParseable (ruleToJson libc r) = some (conditions, actions, undos) ∧
      parseRulePersistent libc reg s varMap (some r.id) conditions actions undos =
        .ok (s', d, ruleCodeNotSet) ∧
      d.returned = some true ∧ s'.rules = s.rules ++ [r'] ∧ r'.shape = r.shape ∧
      s'.vars.foundType reg.parseArg = s.vars.foundType reg.parseArg := by
  obtain ⟨conditions,actions,undos,d,hjson,hparse,-,happlied,hmessage,hvars⟩ :=
    @parse_ruleToJson ε libc reg.parseArg r hwrite varMap s.vars (hacc.resolved varMap)
  obtain ⟨s',d',r',hpersistent⟩ := parseRulePersistent_parsed hacc hreg hwrite hparse happlied hmessage hvars
  exact ⟨conditions,actions,undos,s',d',r',hjson,hpersistent⟩

/-- A rule that `validate_rule` accepts, with integers, booleans, strings and variables that the parser
can read, comes back from the database: the texts made of what is stored for it are parsed without an
error, and the rule that is built from them has the same name, the same conditions with their types,
inversions and arguments, the same actions and the same undos, all in the same order. -/
theorem rule_survives {text : String} {vars : VarStore}
    (hvalid : validateRule reg s r = (ruleValid, text, vars)) (hreg : r.Registered reg)
    (hwrite : r.Writable) (varMap : VarMap) : ∃ conditions actions undos s' d r',
      jsonRuleToParseable (ruleToJson libc r) = some (conditions, actions, undos) ∧
      parseRulePersistent libc reg s varMap (some r.id) conditions actions undos =
        .ok (s', d, ruleCodeNotSet) ∧
      d.returned = some true ∧ s'.rules = s.rules ++ [r'] ∧ r'.id = r.id ∧
      r'.conditions.map (fun c => (c.type, c.isInverted, c.args)) =
        r.conditions.map (fun c => (c.type, c.isInverted, c.args)) ∧
      r'.actions = r.actions ∧ r'.undos = r.undos := by
  obtain ⟨hid,hfresh,hconds,hcalls,hcheck⟩ := validateRule_eq_valid hvalid
  have hacc : r.Acceptable reg s := ⟨hid,hfresh,hconds,hcalls,by rw [hcheck]⟩
  obtain ⟨conditions,actions,undos,s',d,r',hjson,hparse,hret,hrules,hshape,-⟩ :=
    parseRulePersistent_ruleToJson hacc hreg hwrite varMap
  obtain ⟨hid',hconds',hactions,hundos⟩ := RuleShape.mk.inj hshape
  exact ⟨conditions,actions,undos,s',d,r',hjson,hparse,hret,hrules,hid',hconds',hactions,hundos⟩

end Rebuilt

/-- The condition type of the low battery. -/
def lowType : ConditionType EventId :=
  ⟨"whileOverallBattLessThan", overallBatteryLessThan (parseArgOf zeroLibc), "i", .battStatus⟩

/-- A rule with an inverted condition on a variable and with undos, but without an action. -/
def lowRule : Rule EventId where
  addr := 0
  id := "low battery"
  conditions := [⟨1, lowType, 0, true, [.var "low"]⟩]
  actions := []
  undos := [⟨⟨"logString", "s"⟩, [.str "charged | (ok)"]⟩, ⟨⟨"doNothing", "n"⟩, []⟩]

/-- No rule, and the variable of the rule in the cache. -/
def lowEngine : Engine EventId := Engine.start EventId.resetValue ⟨[⟨"low", .int 10, 0⟩], fun _ => none⟩

lemma lowRule_registered : lowRule.Registered zeroRegistry := by
  refine ⟨?_,?_⟩
  · simp only [lowRule, List.forall_mem_singleton]
    rfl
  · simp only [lowRule, List.nil_append, List.forall_mem_cons, List.not_mem_nil, false_imp_iff,
      implies_true, and_true]
    exact ⟨rfl,rfl⟩

lemma lowRule_writable : lowRule.Writable := by
  refine ⟨?_,?_⟩
  · have hname : IsName lowType.name := by decide
    have hvar : IsName "low" := by decide
    simp only [lowRule, List.forall_mem_singleton]
    exact ⟨hname,hvar⟩
  · have hlog : IsName "logString" := by decide
    have htext : IsText "charged | (ok)" := by decide
    have hnothing : IsName "doNothing" := by decide
    simp only [lowRule, List.nil_append, List.forall_mem_cons, List.not_mem_nil, false_imp_iff,
      implies_true, and_true]
    exact ⟨⟨hlog,htext⟩,hnothing⟩

theorem rule_survives_low : ∃ conditions actions undos s' d r',
    jsonRuleToParseable (ruleToJson zeroLibc lowRule) = some (conditions, actions, undos) ∧
    parseRulePersistent zeroLibc zeroRegistry lowEngine [] (some "low battery") conditions actions undos =
      .ok (s', d, ruleCodeNotSet) ∧ s'.rules = [r'] ∧
    r'.conditions.map (fun c => (c.type, c.isInverted, c.args)) = [(lowType, true, [.var "low"])] ∧
    r'.undos = lowRule.undos := by
  have hvalid : validateRule zeroRegistry lowEngine lowRule = (ruleValid, "", lowEngine.vars) := rfl
  obtain ⟨conditions,actions,undos,s',d,r',hjson,hparse,-,hrules,-,hconds,-,hundos⟩ :=
    @rule_survives EventId zeroLibc zeroRegistry lowRule lowEngine _ "" lowEngine.vars hvalid
      lowRule_registered lowRule_writable []
  exact ⟨conditions,actions,undos,s',d,r',hjson,hparse,hrules,hconds,hundos⟩

end Xctools.Xcpmd
