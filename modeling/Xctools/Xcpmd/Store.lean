import Mathlib.Data.List.Nodup
import Xctools.Xcpmd.Rules

/-! How the rule store hangs together. Every condition of a loaded rule points back to its rule and
stands in the listener list of its event, and the listener lists hold nothing else: they are the
conditions of the loaded rules, in the order in which the rules came. -/
namespace Xctools.Xcpmd
open Machine

/-- The conditions of the loaded rules. -/
def Engine.conditions {ε : Type} (s : Engine ε) : List (Condition ε) :=
  s.rules.flatMap Rule.conditions

lemma mem_conditions {ε : Type} {s : Engine ε} {r : Rule ε} {c : Condition ε} (hr : r ∈ s.rules)
    (hc : c ∈ r.conditions) : c ∈ s.conditions :=
  List.mem_flatMap.mpr ⟨r,hr,hc⟩

lemma conditions_congr {ε : Type} {s s' : Engine ε} (h : s'.rules = s.rules) :
    s'.conditions = s.conditions :=
  congrArg (List.flatMap Rule.conditions) h

/-- Conditions that point back to their rules are selected by selecting the rules. -/
lemma filter_conditions {ε : Type} {l : List (Rule ε)}
    (hback : ∀ r ∈ l, ∀ c ∈ r.conditions, c.rule = r.addr) (p : ℕ → Bool) :
    (l.flatMap Rule.conditions).filter (fun c => p c.rule) =
      (l.filter fun r => p r.addr).flatMap Rule.conditions := by
  induction l with
  | nil => rfl
  | cons r l ih =>
    obtain ⟨hr,hl⟩ := List.forall_mem_cons.mp hback
    rw [List.flatMap_cons, List.filter_append, ih hl]
    cases hp : p r.addr with
    | false =>
      have hnone : r.conditions.filter (fun c => p c.rule) = [] :=
        List.filter_eq_nil_iff.mpr fun c hc => by simp [hr c hc, hp]
      rw [hnone, List.filter_cons_of_neg (by simp [hp]), List.nil_append]
    | true =>
      have hall : r.conditions.filter (fun c => p c.rule) = r.conditions :=
        List.filter_eq_self.mpr fun c hc => by simp [hr c hc, hp]
      rw [hall, List.filter_cons_of_pos (by simp [hp]), List.flatMap_cons]

/-- A rule that passes has a name of its own, conditions, and something to do. -/
lemma validateRule_eq_valid {ε : Type} {reg : Registry ε} {s : Engine ε} {rule : Rule ε} {text : String}
    {vars : VarStore} (h : validateRule reg s rule = (ruleValid, text, vars)) :
    rule.id ≠ "" ∧ (∀ r ∈ s.rules, r.id ≠ rule.id) ∧ rule.conditions ≠ [] ∧
      ¬ (rule.actions = [] ∧ rule.undos = []) ∧
      checkAll reg.parseArg s.vars rule.calls = (none, vars) := by
  unfold validateRule at h
  split_ifs at h with hid hname hconds hacts
  · cases (Prod.mk.inj h).1
  · cases (Prod.mk.inj h).1
  · cases (Prod.mk.inj h).1
  · cases (Prod.mk.inj h).1
  · refine ⟨hid,fun r hr he => hname ⟨r,hr,he⟩,hconds,hacts,?_⟩
    cases hc : checkAll reg.parseArg s.vars rule.calls with
    | mk err vars' =>
      rw [hc] at h
      cases err with
      | some err => cases (Prod.mk.inj h).1
      | none =>
        obtain ⟨-,h⟩ := Prod.mk.inj h
        rw [(Prod.mk.inj h).2]

/-- Addresses handed out later are new. -/
lemma nodup_map_append {α : Type} {f : α → ℕ} {l m : List α} {n : ℕ} (hl : (l.map f).Nodup)
    (hm : (m.map f).Nodup) (hlt : ∀ x ∈ l, f x < n) (hle : ∀ y ∈ m, n ≤ f y) :
    ((l ++ m).map f).Nodup := by
  rw [List.map_append, List.nodup_append]
  refine ⟨hl,hm,?_⟩
  intro a ha b hb he
  obtain ⟨x,hx,rfl⟩ := List.mem_map.mp ha
  obtain ⟨y,hy,rfl⟩ := List.mem_map.mp hb
  have hxn := hlt x hx
  have hny := hle y hy
  omega

section Linked
variable {ε : Type} [DecidableEq ε] (reg : Registry ε)

/-- The conditions of a list that depend on an event. -/
def listening (e : ε) (l : List (Condition ε)) : List (Condition ε) :=
  l.filter fun c => c.type.event = e

/-- The store is consistent. -/
structure Linked (s : Engine ε) : Prop where
  ruleAddrs : (s.rules.map Rule.addr).Nodup
  conditionAddrs : (s.conditions.map Condition.addr).Nodup
  ruleAddr_lt : ∀ r ∈ s.rules, r.addr < s.next
  conditionAddr_lt : ∀ c ∈ s.conditions, c.addr < s.next
  listeners : ∀ e, s.listeners e = listening e s.conditions
  backPointer : ∀ r ∈ s.rules, ∀ c ∈ r.conditions, c.rule = r.addr
  registered : ∀ c ∈ s.conditions, c.type ∈ reg.conditionTypes
  conditions_ne_nil : ∀ r ∈ s.rules, r.conditions ≠ []

variable {reg} {s : Engine ε}

lemma Linked.mem_listeners_iff (h : Linked reg s) {e : ε} {c : Condition ε} :
    c ∈ s.listeners e ↔ c ∈ s.conditions ∧ c.type.event = e := by
  rw [h.listeners, listening, List.mem_filter, decide_eq_true_eq]

lemma Linked.condition_ext (h : Linked reg s) {c d : Condition ε} (hc : c ∈ s.conditions)
    (hd : d ∈ s.conditions) (he : c.addr = d.addr) : c = d :=
  List.inj_on_of_nodup_map h.conditionAddrs hc hd he

lemma Linked.rule_ext (h : Linked reg s) {r q : Rule ε} (hr : r ∈ s.rules) (hq : q ∈ s.rules)
    (he : r.addr = q.addr) : r = q :=
  List.inj_on_of_nodup_map h.ruleAddrs hr hq he

/-- The rule a condition belongs to. -/
lemma Linked.exists_rule (h : Linked reg s) {c : Condition ε} (hc : c ∈ s.conditions) :
    ∃ r ∈ s.rules, c ∈ r.conditions ∧ c.rule = r.addr := by
  obtain ⟨r,hr,hcr⟩ := List.mem_flatMap.mp hc
  exact ⟨r,hr,hcr,h.backPointer r hr c hcr⟩

/-- An engine before any rule is loaded. -/
def Engine.start (value : ε → Value) (vars : VarStore) : Engine ε where
  rules := []
  listeners _ := []
  value := value
  isTrue _ := false
  isActive _ := false
  vars := vars
  next := 0

lemma linked_start (value : ε → Value) (vars : VarStore) : Linked reg (Engine.start value vars) where
  ruleAddrs := List.nodup_nil
  conditionAddrs := List.nodup_nil
  ruleAddr_lt := by simp [Engine.start]
  conditionAddr_lt := by simp [Engine.start, Engine.conditions]
  listeners _ := rfl
  backPointer := by simp [Engine.start]
  registered := by simp [Engine.start, Engine.conditions]
  conditions_ne_nil := by simp [Engine.start]

end Linked

section Shape
variable {ε : Type} (reg : Registry ε)

/-- What an item of a parsed rule stands for as a condition, if its type is known. -/
def knownCondition (fn : Fn) : Option (ConditionType ε × Bool × List Arg) :=
  (lookupConditionType reg fn.name).map fun type => (type, !fn.undo, fn.args.map convFnArg)

/-- What an item of a parsed rule stands for as an action, if its type is known. -/
def knownAction (fn : Fn) : Option Action :=
  (lookupActionType reg fn.name).map fun type => ⟨type, fn.args.map convFnArg⟩

/-- A rule without its place in the store: of each condition the type, the inversion and the
arguments. -/
structure RuleShape (ε : Type) where
  id : String
  conditions : List (ConditionType ε × Bool × List Arg)
  actions : List Action
  undos : List Action

def Condition.shape (c : Condition ε) : ConditionType ε × Bool × List Arg := (c.type, c.isInverted, c.args)

def Rule.shape (r : Rule ε) : RuleShape ε := ⟨r.id, r.conditions.map Condition.shape, r.actions, r.undos⟩

/-- The rule that the items of a parsed rule stand for. -/
def ParsedRule.shape (parsed : ParsedRule) : RuleShape ε where
  id := parsed.name
  conditions := parsed.conditions.filterMap (knownCondition reg)
  actions := parsed.actions.filterMap (knownAction reg)
  undos := parsed.undos.filterMap (knownAction reg)

variable {reg}

/-- A loop of `apply_rule` that adds to the shape what it makes of each item. -/
lemma foldl_shape {γ : Type} {f : Building ε → Fn → Building ε} {k : Fn → Option γ}
    {g : RuleShape ε → List γ → RuleShape ε} (hnil : ∀ q, g q [] = q)
    (happend : ∀ q l m, g (g q l) m = g q (l ++ m))
    (hf : ∀ b fn, (f b fn).rule.shape = g b.rule.shape (k fn).toList) (b : Building ε)
    (fns : List Fn) : (fns.foldl f b).rule.shape = g b.rule.shape (fns.filterMap k) := by
  induction fns generalizing b with
  | nil => rw [List.foldl_nil, List.filterMap_nil, hnil]
  | cons fn fns ih =>
    rw [List.foldl_cons, ih, hf, happend]
    cases hk : k fn <;> simp [hk]

lemma shape_addAction (b : Building ε) (fn : Fn) :
    (addCall reg badAction addActionToRule b fn).rule.shape =
      { b.rule.shape with actions := b.rule.shape.actions ++ (knownAction reg fn).toList } := by
  unfold addCall knownAction
  cases lookupActionType reg fn.name <;> simp [Rule.shape, addActionToRule]

lemma shape_addUndo (b : Building ε) (fn : Fn) :
    (addCall reg badUndo addUndoToRule b fn).rule.shape =
      { b.rule.shape with undos := b.rule.shape.undos ++ (knownAction reg fn).toList } := by
  unfold addCall knownAction
  cases lookupActionType reg fn.name <;> simp [Rule.shape, addUndoToRule]

variable [DecidableEq ε]

lemma shape_addCondition (b : Building ε) (fn : Fn) : (addCondition reg b fn).rule.shape =
    { b.rule.shape with
      conditions := b.rule.shape.conditions ++ (knownCondition reg fn).toList } := by
  unfold addCondition knownCondition
  cases lookupConditionType reg fn.name <;> simp [Rule.shape, Condition.shape]

/-- `apply_rule` builds the rule that the known items stand for, in their order. -/
theorem shape_buildRule (s : Engine ε) (parsed : ParsedRule) :
    (buildRule reg s parsed).rule.shape = parsed.shape reg := by
  unfold buildRule
  rw [foldl_shape (g := fun q l => { q with undos := q.undos ++ l }) (by simp) (by simp)
      shape_addUndo,
    foldl_shape (g := fun q l => { q with actions := q.actions ++ l }) (by simp) (by simp)
      shape_addAction,
    foldl_shape (g := fun q l => { q with conditions := q.conditions ++ l }) (by simp) (by simp)
      shape_addCondition]
  rfl

end Shape

section Building
variable {ε : Type} [DecidableEq ε] (reg : Registry ε)

/-- What is true of a rule under construction: only its own conditions are new, at addresses that
were free. -/
structure Built (s : Engine ε) (b : Building ε) : Prop where
  rules : b.engine.rules = s.rules
  value : b.engine.value = s.value
  vars : b.engine.vars = s.vars
  addr : b.rule.addr = s.next
  next_lt : s.next < b.engine.next
  conditionAddrs : (b.rule.conditions.map Condition.addr).Nodup
  fresh : ∀ c ∈ b.rule.conditions, s.next ≤ c.addr ∧ c.addr < b.engine.next
  listeners : ∀ e, b.engine.listeners e = s.listeners e ++ listening e b.rule.conditions
  backPointer : ∀ c ∈ b.rule.conditions, c.rule = s.next
  registered : ∀ c ∈ b.rule.conditions, c.type ∈ reg.conditionTypes
  isTrue_new : ∀ c ∈ b.rule.conditions, b.engine.isTrue c.addr = false
  isTrue_old : ∀ a < s.next, b.engine.isTrue a = s.isTrue a
  isActive : ∀ a < s.next, b.engine.isActive a = s.isActive a

variable {reg} {s : Engine ε}

lemma built_newRule (id : String) : Built reg s (newRule s id) where
  rules := rfl
  value := rfl
  vars := rfl
  addr := rfl
  next_lt := Nat.lt_succ_self _
  conditionAddrs := List.nodup_nil
  fresh := by simp [newRule]
  listeners e := (List.append_nil _).symm
  backPointer := by simp [newRule]
  registered := by simp [newRule]
  isTrue_new := by simp [newRule]
  isTrue_old _ _ := rfl
  isActive a ha := Function.update_of_ne (Nat.ne_of_lt ha) _ _

lemma Built.newCondition {b : Building ε} (h : Built reg s b) {c : Condition ε}
    (haddr : c.addr = b.engine.next) (hrule : c.rule = b.rule.addr)
    (htype : c.type ∈ reg.conditionTypes) :
    Built reg s { b with
      engine := newCondition b.engine c
      rule := { b.rule with conditions := b.rule.conditions ++ [c] } } where
  rules := h.rules
  value := h.value
  vars := h.vars
  addr := h.addr
  next_lt := Nat.lt_succ_of_lt h.next_lt
  conditionAddrs := nodup_map_append h.conditionAddrs (List.nodup_singleton _)
    (fun d hd => (h.fresh d hd).2) (by simp [haddr])
  fresh := by
    rw [List.forall_mem_append, List.forall_mem_singleton]
    refine ⟨fun d hd => ?_,haddr ▸ Nat.le_of_lt h.next_lt,haddr ▸ Nat.lt_succ_self _⟩
    exact ⟨(h.fresh d hd).1,Nat.lt_succ_of_lt (h.fresh d hd).2⟩
  listeners e := by
    by_cases he : e = c.type.event
    · subst he
      simp [Xcpmd.newCondition, h.listeners, listening]
    · simp [Xcpmd.newCondition, h.listeners, listening, he, Ne.symm he]
  backPointer := by
    rw [List.forall_mem_append, List.forall_mem_singleton]
    exact ⟨h.backPointer,hrule.trans h.addr⟩
  registered := by
    rw [List.forall_mem_append, List.forall_mem_singleton]
    exact ⟨h.registered,htype⟩
  isTrue_new := by
    rw [List.forall_mem_append, List.forall_mem_singleton]
    refine ⟨fun d hd => ?_,Function.update_self _ _ _⟩
    have hne : d.addr ≠ c.addr := haddr ▸ Nat.ne_of_lt (h.fresh d hd).2
    exact (Function.update_of_ne hne _ _).trans (h.isTrue_new d hd)
  isTrue_old a ha := by
    have hne : a ≠ c.addr := haddr ▸ Nat.ne_of_lt (Nat.lt_trans ha h.next_lt)
    exact (Function.update_of_ne hne _ _).trans (h.isTrue_old a ha)
  isActive := h.isActive

lemma Built.addCondition {b : Building ε} (h : Built reg s b) (fn : Fn) :
    Built reg s (addCondition reg b fn) := by
  unfold Xcpmd.addCondition
  cases ht : lookupConditionType reg fn.name with
  | none => exact { h with }
  | some type => exact h.newCondition rfl rfl (List.mem_of_find?_eq_some ht)

lemma Built.addCall {b : Building ε} (h : Built reg s b) (bad : ℕ)
    (add : Rule ε → Action → Rule ε) (haddr : ∀ r a, (add r a).addr = r.addr)
    (hconds : ∀ r a, (add r a).conditions = r.conditions) (fn : Fn) :
    Built reg s (addCall reg bad add b fn) := by
  unfold Xcpmd.addCall
  cases lookupActionType reg fn.name with
  | none => exact { h with }
  | some type =>
    exact { h with
      addr := (haddr _ _).trans h.addr
      conditionAddrs := by simpa only [hconds] using h.conditionAddrs
      fresh := by simpa only [hconds] using h.fresh
      listeners := by simpa only [hconds] using h.listeners
      backPointer := by simpa only [hconds] using h.backPointer
      registered := by simpa only [hconds] using h.registered
      isTrue_new := by simpa only [hconds] using h.isTrue_new }

lemma foldl_built {f : Building ε → Fn → Building ε}
    (hf : ∀ b fn, Built reg s b → Built reg s (f b fn)) {b : Building ε} (hb : Built reg s b)
    (fns : List Fn) : Built reg s (fns.foldl f b) := by
  induction fns generalizing b with
  | nil => exact hb
  | cons fn fns ih => exact ih (hf b fn hb)

lemma built_buildRule (s : Engine ε) (parsed : ParsedRule) : Built reg s (buildRule reg s parsed) := by
  have hnew : Built reg s (newRule s parsed.name) := built_newRule parsed.name
  have hconds := foldl_built (fun _ fn h => h.addCondition fn) hnew
    parsed.conditions
  have hactions := foldl_built (fun _ fn h =>
    h.addCall badAction addActionToRule (fun _ _ => rfl) (fun _ _ => rfl) fn) hconds parsed.actions
  exact foldl_built (fun _ fn h =>
    h.addCall badUndo addUndoToRule (fun _ _ => rfl) (fun _ _ => rfl) fn) hactions parsed.undos

/-- Taking the conditions of a rule out of the listener lists, when they stand at the end. -/
lemma foldl_deleteConditionFromListeners {l : List (Condition ε)} {old : ε → List (Condition ε)}
    {t : Engine ε} (hlisten : ∀ e, t.listeners e = old e ++ listening e l)
    (hnew : ∀ e, ∀ d ∈ old e, ∀ c ∈ l, d.addr ≠ c.addr) :
    l.foldl deleteConditionFromListeners t = { t with listeners := old } := by
  induction l generalizing t with
  | nil =>
    have hold : t.listeners = old := by
      funext e
      simpa [listening] using hlisten e
    rw [← hold]
    rfl
  | cons c l ih =>
    have hout : ∀ d ∈ old c.type.event, ¬ decide (d.addr = c.addr) = true := fun d hd => by
      simpa using hnew _ d hd c List.mem_cons_self
    have hhead : (t.listeners c.type.event).eraseP (fun node => node.addr = c.addr) =
        old c.type.event ++ listening c.type.event l := by
      rw [hlisten, List.eraseP_append_right _ hout, listening, List.filter_cons_of_pos (by simp),
        List.eraseP_cons_of_pos (by simp)]
      rfl
    have hrest : ∀ e, (deleteConditionFromListeners t c).listeners e = old e ++ listening e l := by
      intro e
      by_cases he : e = c.type.event
      · subst he
        exact (Function.update_self _ _ _).trans hhead
      · refine (Function.update_of_ne he _ _).trans ?_
        rw [hlisten, listening, List.filter_cons_of_neg (by simpa using Ne.symm he)]
        rfl
    rw [List.foldl_cons, ih hrest fun e d hd c' hc' => hnew e d hd c' (.tail _ hc')]
    rfl

/-- The engine after a rule that passed. -/
def loadedWith (b : Building ε) (vars : VarStore) : Engine ε :=
  { b.engine with
    rules := b.engine.rules ++ [b.rule]
    isActive := Function.update b.engine.isActive b.rule.addr false
    vars }

/-- The engine after a rule that was refused. -/
def rejectedWith (s : Engine ε) (b : Building ε) (vars : VarStore) : Engine ε :=
  { b.engine with listeners := s.listeners, vars }

lemma Built.deleteRule {b : Building ε} (h : Built reg s b) (hs : Linked reg s) (vars : VarStore) :
    deleteRule reg (b.engine.withVars vars) b.rule = .ok (rejectedWith s b vars) := by
  have hout : ∀ r ∈ s.rules, r.addr ≠ b.rule.addr := fun r hr => by
    rw [h.addr]
    exact Nat.ne_of_lt (hs.ruleAddr_lt r hr)
  have hvars : releaseVars reg (b.engine.withVars vars) b.rule = .ok vars := by
    apply if_neg
    rintro ⟨r,hr,he⟩
    exact hout r (h.rules ▸ hr) he
  have hrules : b.engine.rules.eraseP (fun r => r.addr = b.rule.addr) = b.engine.rules := by
    rw [h.rules]
    exact List.eraseP_of_forall_not fun r hr => by simpa using hout r hr
  have hnew : ∀ e, ∀ d ∈ s.listeners e, ∀ c ∈ b.rule.conditions, d.addr ≠ c.addr := by
    intro e d hd c hc
    have hlt := hs.conditionAddr_lt d (hs.mem_listeners_iff.mp hd).1
    exact Nat.ne_of_lt (Nat.lt_of_lt_of_le hlt (h.fresh c hc).1)
  rw [Xcpmd.deleteRule, hvars, ok_bind]
  simp only [Engine.withVars, hrules]
  exact congrArg Except.ok (foldl_deleteConditionFromListeners h.listeners hnew)

/-- Everything `apply_rule` can do: the rule passes, its variables are counted and it comes in with what
is new about it, or it is refused and nothing of it stays. -/
theorem applyRule_spec (hs : Linked reg s) {s' : Engine ε} {parsed : ParsedRule} {code : ℕ}
    {err : String} (h : applyRule reg s parsed = .ok (s', code, err)) :
    (∃ text vars vars', validateRule reg (buildRule reg s parsed).engine (buildRule reg s parsed).rule =
        (ruleValid, text, vars) ∧
      (buildRule reg s parsed).rule.varNames.foldlM (changeRef reg.parseArg 1) vars = .ok vars' ∧
      s' = loadedWith (buildRule reg s parsed) vars' ∧
      code = parseErrOf (buildRule reg s parsed).recoverable |||
        (buildRule reg s parsed).recoverable ||| ruleValid) ∨
    ∃ ruleErr text vars, validateRule reg (buildRule reg s parsed).engine
        (buildRule reg s parsed).rule = (ruleErr, text, vars) ∧ ruleErr ≠ ruleValid ∧
      s' = rejectedWith s (buildRule reg s parsed) vars ∧
      code = noParseError ||| (buildRule reg s parsed).recoverable ||| ruleErr := by
  have hb : Built reg s (buildRule reg s parsed) := built_buildRule s parsed
  unfold applyRule at h
  cases hv : validateRule reg (buildRule reg s parsed).engine (buildRule reg s parsed).rule with
  | mk ruleErr rest =>
    obtain ⟨text,vars⟩ := rest
    simp only [hv] at h
    split_ifs at h with hvalid
    · obtain ⟨t,ht,h⟩ := bind_eq_ok.mp h
      obtain ⟨vars',hrefs,ht⟩ := bind_eq_ok.mp ht
      obtain ⟨rfl,hcode⟩ := Prod.mk.inj (Except.ok.inj h)
      obtain rfl := Except.ok.inj ht
      subst hvalid
      exact .inl ⟨text,vars,vars',rfl,hrefs,rfl,(Prod.mk.inj hcode).1.symm⟩
    · rw [hb.deleteRule hs vars, ok_bind] at h
      obtain ⟨rfl,hcode⟩ := Prod.mk.inj (Except.ok.inj h)
      exact .inr ⟨ruleErr,text,vars,rfl,hvalid,rfl,(Prod.mk.inj hcode).1.symm⟩

/-- What that comes to for the store. -/
theorem applyRule_cases (hs : Linked reg s) {s' : Engine ε} {parsed : ParsedRule} {code : ℕ}
    {err : String} (h : applyRule reg s parsed = .ok (s', code, err)) :
    ∃ b vars, Built reg s b ∧
      (b.rule.conditions ≠ [] ∧ s' = loadedWith b vars ∨ s' = rejectedWith s b vars) := by
  have hb : Built reg s (buildRule reg s parsed) := built_buildRule s parsed
  rcases applyRule_spec hs h with ⟨text,vars,vars',hv,-,hs',-⟩ | ⟨ruleErr,text,vars,-,-,hs',-⟩
  · exact ⟨_,vars',hb,.inl ⟨(validateRule_eq_valid hv).2.2.1,hs'⟩⟩
  · exact ⟨_,vars,hb,.inr hs'⟩

lemma Built.linked_rejectedWith {b : Building ε} (h : Built reg s b) (hs : Linked reg s)
    (vars : VarStore) : Linked reg (rejectedWith s b vars) := by
  have hconds : (rejectedWith s b vars).conditions = s.conditions := by
    simp only [Engine.conditions, rejectedWith, h.rules]
  have hlt := Nat.le_of_lt h.next_lt
  exact {
    ruleAddrs := by simpa only [rejectedWith, h.rules] using hs.ruleAddrs
    conditionAddrs := by simpa only [hconds] using hs.conditionAddrs
    ruleAddr_lt := fun r hr =>
      Nat.lt_of_lt_of_le (hs.ruleAddr_lt r (h.rules ▸ hr)) hlt
    conditionAddr_lt := fun c hc =>
      Nat.lt_of_lt_of_le (hs.conditionAddr_lt c (hconds ▸ hc)) hlt
    listeners := fun e => hconds ▸ hs.listeners e
    backPointer := fun r hr => hs.backPointer r (h.rules ▸ hr)
    registered := by simpa only [hconds] using hs.registered
    conditions_ne_nil := fun r hr => hs.conditions_ne_nil r (h.rules ▸ hr) }

lemma Built.conditions_loadedWith {b : Building ε} (h : Built reg s b) (vars : VarStore) :
    (loadedWith b vars).conditions = s.conditions ++ b.rule.conditions := by
  simp [Engine.conditions, loadedWith, h.rules]

lemma Built.linked_loadedWith {b : Building ε} (h : Built reg s b) (hs : Linked reg s)
    (hne : b.rule.conditions ≠ []) (vars : VarStore) : Linked reg (loadedWith b vars) := by
  have hconds := h.conditions_loadedWith vars
  have hrules : (loadedWith b vars).rules = s.rules ++ [b.rule] := by rw [loadedWith, h.rules]
  have hlt := Nat.le_of_lt h.next_lt
  have hrule : ∀ {p : Rule ε → Prop}, (∀ r ∈ s.rules, p r) → p b.rule →
      ∀ r ∈ (loadedWith b vars).rules, p r := by
    intro p hold hnew
    rw [hrules, List.forall_mem_append, List.forall_mem_singleton]
    exact ⟨hold,hnew⟩
  have hcond : ∀ {p : Condition ε → Prop}, (∀ c ∈ s.conditions, p c) →
      (∀ c ∈ b.rule.conditions, p c) → ∀ c ∈ (loadedWith b vars).conditions, p c := by
    intro p hold hnew
    rw [hconds, List.forall_mem_append]
    exact ⟨hold,hnew⟩
  exact {
    ruleAddrs := by
      rw [hrules]
      exact nodup_map_append hs.ruleAddrs (List.nodup_singleton _) hs.ruleAddr_lt (by simp [h.addr])
    conditionAddrs := by
      rw [hconds]
      exact nodup_map_append hs.conditionAddrs h.conditionAddrs hs.conditionAddr_lt
        fun d hd => (h.fresh d hd).1
    ruleAddr_lt := hrule (fun r hr => Nat.lt_of_lt_of_le (hs.ruleAddr_lt r hr) hlt)
      (h.addr ▸ h.next_lt)
    conditionAddr_lt := hcond (fun c hc => Nat.lt_of_lt_of_le (hs.conditionAddr_lt c hc) hlt)
      fun c hc => (h.fresh c hc).2
    listeners := fun e => by
      rw [hconds, listening, List.filter_append]
      exact (h.listeners e).trans (by rw [hs.listeners]; rfl)
    backPointer := hrule hs.backPointer fun c hc => (h.backPointer c hc).trans h.addr.symm
    registered := hcond hs.registered h.registered
    conditions_ne_nil := hrule hs.conditions_ne_nil hne }

end Building

end Xctools.Xcpmd
