import Xctools.Xcpmd.Lifecycle

/-! Conditions that already hold. A new condition is marked false and keeps that mark until its event is
handled; only start-up evaluates everything. So the engine knows what stands as long as every rule that is
added later comes when none of its conditions holds yet, and none of them is inverted. -/
namespace Xctools.Xcpmd
open Machine

section Operations
variable {ε : Type} [DecidableEq ε] (reg : Registry ε)

/-- Start-up: the policy is loaded and evaluated. -/
def startUp (policy : List ParsedRule) (host : Host) (s : Engine ε) : Outcome (Engine ε) := do
  let t ← applyRules reg s policy
  return (← evaluatePolicy reg host t).1

/-- What happens after start-up: a module sets the value of an event and has it handled, or a rule is
added or removed. -/
inductive Operation (ε : Type)
  | event (e : ε) (value : Value) (host : Host)
  | addRule (parsed : ParsedRule)
  | removeRule (id : String)

def Operation.command {ε : Type} : Operation ε → Command ε
  | .event e value host => .input (.event e value host)
  | .addRule parsed => .input (.load parsed)
  | .removeRule id => .deleteRule id

/-- The engine after one operation. -/
def operate (s : Engine ε) (o : Operation ε) : Outcome (Engine ε) := obey reg s o.command

/-- All conditions of a rule are on stateful events. -/
def Rule.Stateful (r : Rule ε) : Prop := ∀ c ∈ r.conditions, reg.isStateless c.type.event = false

/-- The same of a rule that is to be loaded. -/
def ParsedRule.Stateful (parsed : ParsedRule) : Prop :=
  ∀ c ∈ (parsed.shape reg).conditions, reg.isStateless c.1.event = false

/-- None of the conditions a rule would have is true of the values the events have. -/
def ParsedRule.Unmet (s : Engine ε) (parsed : ParsedRule) : Prop :=
  ∀ c ∈ (parsed.shape reg).conditions, ∀ host, c.1.check host s.vars (s.value c.1.event) c.2.2 ≠ .ok true

/-- `validate_rule` accepts a rule. -/
def ParsedRule.Accepted (s : Engine ε) (parsed : ParsedRule) : Prop :=
  (validateRule reg (buildRule reg s parsed).engine (buildRule reg s parsed).rule).1 = ruleValid

/-- A rule that comes in at this moment has no inverted condition and none that holds already, if all are
on stateful events. -/
def Timely (s : Engine ε) : Operation ε → Prop
  | .addRule parsed => parsed.Accepted reg s → parsed.Stateful reg → parsed.Plain reg ∧ parsed.Unmet reg s
  | _ => True

/-- A rule on stateful events is active exactly when it holds of the values the events have. -/
def Standing (s : Engine ε) : Prop :=
  ∀ r ∈ s.rules, r.Stateful reg → ∀ host, s.isActive r.addr = true ↔ Holds s host r

end Operations

section Current
variable {ε : Type} {reg : Registry ε}

lemma Rule.stateful_iff_of_shape {r : Rule ε} {parsed : ParsedRule}
    (h : r.shape = parsed.shape reg) : r.Stateful reg ↔ parsed.Stateful reg := by
  rw [ParsedRule.Stateful, ← h]
  simp [Rule.Stateful, Rule.shape, Condition.shape]

variable [DecidableEq ε] {s s' : Engine ε} {effects : List (Effect ε)}

/-- The rules on stateful events have no inverted condition, and where one of their conditions holds, it
is marked. -/
structure Current (reg : Registry ε) (s : Engine ε) : Prop where
  quiescent : Quiescent reg s
  plain : ∀ r ∈ s.rules, r.Stateful reg → r.Plain
  marked : ∀ r ∈ s.rules, r.Stateful reg → ∀ c ∈ r.conditions, ∀ host,
    c.check s host c.type.event = .ok true → s.isTrue c.addr = true

lemma Current.standing (hs : Current reg s) : Standing reg s := by
  intro r hr hst host
  rw [hs.quiescent.active_iff hr, ← (hs.plain r hr hst).allChecked_iff]
  refine forall₂_congr fun c hc => ⟨fun hmark => ?_,fun hcheck => ?_⟩
  · exact (hs.quiescent.standing c (mem_conditions hr hc) hmark).2 host
  · exact hs.marked r hr hst c hc host hcheck

/-- Where the marks are what the checks say, nothing is missed. -/
lemma Current.of_settled (hs : Quiescent reg s) (hset : Settled reg s)
    (hplain : ∀ r ∈ s.rules, r.Stateful reg → r.Plain) : Current reg s where
  quiescent := hs
  plain := hplain
  marked r hr hst c hc host hcheck := by
    rw [hset c (mem_conditions hr hc) (hst c hc) host] at hcheck
    exact Except.ok.inj hcheck

lemma Current.without (hs : Current reg s) (r : Rule ε) (vars : VarStore) :
    Current reg (s.without r vars) where
  quiescent := hs.quiescent.without r vars
  plain q hq := hs.plain q (mem_rules_without hq).1
  marked q hq hst c hc host hcheck := by
    have hq' := (mem_rules_without hq).1
    have hvalue : (s.without r vars).value c.type.event = s.value c.type.event := rfl
    rw [hs.quiescent.linked.check_eq (mem_conditions hq' hc) (hst c hc) hvalue host host] at hcheck
    exact hs.marked q hq' hst c hc host hcheck

lemma Current.event (hs : Current reg s) {e : ε} {value : Value} {host : Host} {now : ℕ → Bool}
    (h : Pass reg host (s.given (.event e value host)) e now s' effects) : Current reg s' where
  quiescent := hs.quiescent.event h
  plain := h.rules ▸ hs.plain
  marked := by
    rw [h.rules]
    intro r hr hst c hc host' hcheck
    have hl := hs.quiescent.linked
    have hc' : c ∈ s.conditions := mem_conditions hr hc
    rw [h.isTrue_eq hc']
    by_cases he : c.type.event = e
    · have hst' : reg.isStateless e = false := he ▸ hst c hc
      have hvalue : s'.value c.type.event = (s.given (.event e value host)).value c.type.event := by
        rw [(h.stateful hst').1]
      rw [(hl.given _).check_eq hc' (hst c hc) hvalue host host', h.checked c hc' he] at hcheck
      rw [if_pos he, hst', Bool.not_false, Bool.true_and]
      exact Except.ok.inj hcheck
    · rw [hl.check_eq hc' (hst c hc) (h.value_of_ne he) host host'] at hcheck
      rw [if_neg he]
      exact hs.marked r hr hst c hc host hcheck

/-- The rules of a policy without inverted conditions have none when they are loaded. -/
lemma plain_load {parsed : ParsedRule} {code : ℕ} {err : String} (hl : Linked reg s)
    (hs : ∀ r ∈ s.rules, r.Stateful reg → r.Plain)
    (hparsed : parsed.Accepted reg s → parsed.Stateful reg → parsed.Plain reg)
    (h : applyRule reg s parsed = .ok (s', code, err)) :
    ∀ r ∈ s'.rules, r.Stateful reg → r.Plain := by
  have hb : Built reg s (buildRule reg s parsed) := built_buildRule s parsed
  have hshape : (buildRule reg s parsed).rule.shape = parsed.shape reg := shape_buildRule s parsed
  rcases applyRule_spec hl h with ⟨text,vars,vars',hv,-,rfl,-⟩ | ⟨ruleErr,text,vars,-,-,rfl,-⟩
  · simp only [loadedWith, hb.rules, List.forall_mem_append, List.forall_mem_singleton]
    refine ⟨hs,fun hst => (Rule.plain_iff_of_shape hshape).mpr (hparsed ?_ ?_)⟩
    · rw [ParsedRule.Accepted, hv]
    · exact (Rule.stateful_iff_of_shape hshape).mp hst
  · simp only [rejectedWith, hb.rules]
    exact hs

lemma Current.load (hs : Current reg s) {parsed : ParsedRule} {code : ℕ} {err : String}
    (htimely : Timely reg s (.addRule parsed))
    (h : applyRule reg s parsed = .ok (s', code, err)) : Current reg s' := by
  have hb : Built reg s (buildRule reg s parsed) := built_buildRule s parsed
  have hshape : (buildRule reg s parsed).rule.shape = parsed.shape reg := shape_buildRule s parsed
  have hl := hs.quiescent.linked
  have hq := hs.quiescent.load h
  refine ⟨hq,plain_load hl hs.plain (fun ha hst => (htimely ha hst).1) h,?_⟩
  -- a rule that was there before is found as it was
  have hold : ∀ (t : Engine ε), t.value = s.value → (∀ a < s.next, t.isTrue a = s.isTrue a) →
      ∀ r ∈ s.rules, r.Stateful reg → ∀ c ∈ r.conditions, ∀ host,
        c.check t host c.type.event = .ok true → t.isTrue c.addr = true := by
    intro t hvalue htrue r hr hst c hc host hcheck
    have hc' := mem_conditions hr hc
    rw [hl.check_eq hc' (hst c hc) (congrFun hvalue _) host host] at hcheck
    rw [htrue _ (hl.conditionAddr_lt c hc')]
    exact hs.marked r hr hst c hc host hcheck
  rcases applyRule_spec hl h with ⟨text,vars,vars',hv,-,rfl,-⟩ | ⟨ruleErr,text,vars,-,-,rfl,-⟩
  · have hrules : (loadedWith (buildRule reg s parsed) vars').rules =
        s.rules ++ [(buildRule reg s parsed).rule] := by rw [loadedWith, hb.rules]
    rw [hrules, List.forall_mem_append, List.forall_mem_singleton]
    refine ⟨hold _ hb.value hb.isTrue_old,?_⟩
    -- no condition of the new rule holds
    intro hst c hc host hcheck
    have hunmet := (htimely (by rw [ParsedRule.Accepted, hv])
      ((Rule.stateful_iff_of_shape hshape).mp hst)).2
    have hmem : c.shape ∈ (parsed.shape reg).conditions := by
      rw [← hshape]
      exact List.mem_map_of_mem hc
    refine absurd ?_ (hunmet _ hmem host)
    rw [← hcheck]
    unfold Condition.check
    rw [loadedWith, hb.value]
    exact reg.check_stateful c.type (hb.registered c hc) (hst c hc) _ _ _ _ _ _
  · simp only [rejectedWith, hb.rules]
    exact hold _ hb.value hb.isTrue_old

lemma Current.operate (hs : Current reg s) {o : Operation ε} (htimely : Timely reg s o)
    (h : operate reg s o = .ok s') : Current reg s' := by
  obtain ⟨effects,h⟩ := obey_eq_ok.mp h
  cases o with
  | event e value host =>
    obtain ⟨now,hpass⟩ := handleEvents_pass (hs.quiescent.linked.given _) h
    exact hs.event hpass
  | addRule parsed =>
    obtain ⟨⟨t,code,err⟩,ht,h⟩ := bind_eq_ok.mp h
    obtain ⟨rfl,-⟩ := Prod.mk.inj (Except.ok.inj h)
    exact hs.load htimely ht
  | removeRule id =>
    obtain ⟨t,ht,h⟩ := bind_eq_ok.mp h
    obtain ⟨rfl,-⟩ := Prod.mk.inj (Except.ok.inj h)
    rcases removeRule_cases hs.quiescent.linked ht with rfl | ⟨r,-,-,vars,-,rfl⟩
    · exact hs
    · exact hs.without r vars

/-- After start-up on a policy without inverted conditions the engine knows what stands. -/
lemma current_startUp {policy : List ParsedRule} {host : Host} {value : ε → Value} {vars : VarStore}
    (hpolicy : ∀ parsed ∈ policy, parsed.Stateful reg → parsed.Plain reg)
    (h : startUp reg policy host (Engine.start value vars) = .ok s) : Current reg s := by
  obtain ⟨t,ht,h⟩ := bind_eq_ok.mp h
  obtain ⟨⟨u,effects⟩,hu,h⟩ := bind_eq_ok.mp h
  obtain rfl := Except.ok.inj h
  obtain ⟨hq,hplain⟩ := (Meets.of_forall hpolicy (Engine.start value vars)).invariant
    (I := fun t => Quiescent reg t ∧ ∀ r ∈ t.rules, r.Stateful reg → r.Plain)
    (fun v parsed v' hv hparsed hstep => by
      obtain ⟨⟨w,code,err⟩,hw,hstep⟩ := bind_eq_ok.mp hstep
      obtain rfl := Except.ok.inj hstep
      exact ⟨hv.1.load hw,plain_load hv.1.linked hv.2 (fun _ => hparsed) hw⟩)
    ⟨quiescent_start value vars,by simp [Engine.start]⟩ ht
  have heval := evaluatePolicy_evaluated hq.linked hu
  exact .of_settled (hq.evaluate heval) (heval.settled hq.linked) (heval.rules ▸ hplain)

/-- In every run after start-up in which the rules on stateful events have no inverted condition and come
in when none of their conditions holds, such a rule is active exactly when it holds of the values the
events have. -/
theorem standing_of_timely {policy : List ParsedRule} {host : Host} {value : ε → Value}
    {vars : VarStore} {operations : List (Operation ε)} {t : Engine ε}
    (hpolicy : ∀ parsed ∈ policy, parsed.Stateful reg → parsed.Plain reg)
    (hstart : startUp reg policy host (Engine.start value vars) = .ok t)
    (htimely : Meets (operate reg) (Timely reg) t operations)
    (hrun : perform (operate reg) t operations = .ok s) :
    ∀ r ∈ s.rules, r.Stateful reg → ∀ host, s.isActive r.addr = true ↔ Holds s host r := by
  have hcurrent : Current reg s := htimely.invariant (fun _ _ _ hu ho hstep => hu.operate ho hstep)
    (current_startUp hpolicy hstart) hrun
  exact hcurrent.standing

end Current

/-- The lid is closed, as an operation. -/
def lidCloses : Operation EventId := .event .lid (.word lidStateClosed) bareHost

/-- The rule on the lid comes in while the lid is open, and is active when it is closed. -/
theorem standing_of_timely_lid :
    ∃ t s r, startUp bareRegistry [] bareHost bareEngine = .ok t ∧
      perform (operate bareRegistry) t [.addRule (lidRule true), lidCloses] = .ok s ∧
      s.rules = [r] ∧ (s.isActive r.addr = true ↔ Holds s bareHost r) := by
  have hstart : startUp bareRegistry [] bareHost bareEngine = .ok _ := rfl
  refine ⟨_,_,_,hstart,rfl,rfl,@standing_of_timely _ bareRegistry _ _ _ _ _ _
    [.addRule (lidRule true), lidCloses] _ (by simp) hstart ?_ rfl _ (.head _) ?_ bareHost⟩
  · refine ⟨fun _ _ => ⟨?_,?_⟩,fun t ht => ⟨trivial,fun _ _ => trivial⟩⟩
    · intro c hc
      obtain rfl := List.mem_singleton.mp hc
      rfl
    · intro c hc host
      obtain rfl := List.mem_singleton.mp hc
      change (.ok false : Outcome Bool) ≠ .ok true
      decide
  · intro c hc
    obtain rfl := List.mem_singleton.mp hc
    rfl

/-- The rule comes in while the lid is closed: it holds and is not active. -/
theorem standing_rule_missed :
    ∃ t s r, startUp bareRegistry [] bareHost bareEngine = .ok t ∧
      perform (operate bareRegistry) t [lidCloses, .addRule (lidRule true)] = .ok s ∧
      r ∈ s.rules ∧ r.Stateful bareRegistry ∧ Holds s bareHost r ∧ s.isActive r.addr = false := by
  refine ⟨_,_,_,rfl,rfl,.head _,?_,?_,rfl⟩
  · intro c hc
    obtain rfl := List.mem_singleton.mp hc
    rfl
  · intro c hc
    obtain rfl := List.mem_singleton.mp hc
    exact ⟨true,rfl,by decide⟩

end Xctools.Xcpmd
