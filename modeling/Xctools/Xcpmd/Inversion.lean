import Xctools.Xcpmd.Modules
import Xctools.Xcpmd.Quiescence

/-! Inverted conditions. The mark of a condition is the result of its check, and nothing looks at
`is_inverted` when a rule is evaluated. So the engine sets off a rule when the checks of all its
conditions are true: that is what the rule asks for exactly when none of them is inverted. -/
namespace Xctools.Xcpmd
open Machine

section Holds
variable {ε : Type} {s : Engine ε} {host : Host} {r : Rule ε}

/-- The rule has no inverted condition. -/
def Rule.Plain (r : Rule ε) : Prop := ∀ c ∈ r.conditions, c.isInverted = false

/-- None of the conditions a rule would have is inverted. -/
def ParsedRule.Plain (reg : Registry ε) (parsed : ParsedRule) : Prop :=
  ∀ c ∈ (parsed.shape reg).conditions, c.2.1 = false

lemma Rule.plain_iff_of_shape {reg : Registry ε} {parsed : ParsedRule} (h : r.shape = parsed.shape reg) :
    r.Plain ↔ parsed.Plain reg := by
  rw [ParsedRule.Plain, ← h]
  simp [Rule.Plain, Rule.shape, Condition.shape]

/-- What a rule asks for: the check of a plain condition is true, that of an inverted one false. -/
def Holds (s : Engine ε) (host : Host) (r : Rule ε) : Prop :=
  ∀ c ∈ r.conditions, ∃ b, c.check s host c.type.event = .ok b ∧ b ≠ c.isInverted

/-- The checks of a rule's conditions are all true. -/
def AllChecked (s : Engine ε) (host : Host) (r : Rule ε) : Prop :=
  ∀ c ∈ r.conditions, c.check s host c.type.event = .ok true

lemma AllChecked.holds_iff (h : AllChecked s host r) : Holds s host r ↔ r.Plain := by
  refine forall₂_congr fun c hc => ?_
  rw [h c hc]
  constructor
  · rintro ⟨b,hb,hne⟩
    rw [← Except.ok.inj hb] at hne
    exact (Bool.not_eq_true _).mp (Ne.symm hne)
  · intro hplain
    exact ⟨true,rfl,by simp [hplain]⟩

lemma Rule.Plain.allChecked_iff (hr : r.Plain) : AllChecked s host r ↔ Holds s host r := by
  constructor
  · exact fun h => h.holds_iff.mpr hr
  · intro h c hc
    obtain ⟨b,hb,hne⟩ := h c hc
    rw [hr c hc, ne_eq, Bool.not_eq_false] at hne
    rw [hb, hne]

/-- A rule does not hold when one of its checks comes to what the condition must not be. -/
lemma not_holds_of_check {c : Condition ε} (hc : c ∈ r.conditions)
    (hcheck : c.check s host c.type.event = .ok c.isInverted) : ¬ Holds s host r := by
  intro h
  obtain ⟨b,hb,hne⟩ := h c hc
  rw [hcheck] at hb
  exact hne (Except.ok.inj hb).symm

/-- A rule is active when all its checks are true. That is when it holds, unless one of its conditions is inverted and
what the others come to does not decide against it either way. -/
lemma allChecked_iff_holds_iff : (AllChecked s host r ↔ Holds s host r) ↔
    r.Plain ∨ ¬ Holds s host r ∧ ¬ AllChecked s host r := by
  constructor
  · intro h
    by_cases hall : AllChecked s host r
    · exact .inl (hall.holds_iff.mp (h.mp hall))
    · exact .inr ⟨fun hholds => hall (h.mpr hholds),hall⟩
  · rintro (hplain | ⟨hnot,hall⟩)
    · exact hplain.allChecked_iff
    · exact iff_of_false hall hnot

/-- Of a single inverted condition the check is true exactly when the rule does not hold. -/
lemma allChecked_iff_not_holds {c : Condition ε} (hr : r.conditions = [c]) (hc : c.isInverted = true) {b : Bool}
    (hcheck : c.check s host c.type.event = .ok b) : AllChecked s host r ↔ ¬ Holds s host r := by
  rw [AllChecked, Holds, hr]
  simp only [List.mem_singleton, forall_eq, hcheck, Except.ok.injEq, exists_eq_left', hc]
  cases b <;> simp

end Holds

section Inversion
variable {ε : Type} [DecidableEq ε] {reg : Registry ε} {s s' : Engine ε} {effects : List (Effect ε)}
  {host : Host}

/-- Actions are set off when all checks are true. -/
lemma Quiescent.actions_checked (hs : Quiescent reg s) {i : Input ε}
    (h : engineStep reg s i = .ok (s', effects)) (hi : i.host = some host) {r : Rule ε}
    (hr : .actions r ∈ effects) : AllChecked (s.given i) host r := by
  intro c hc
  cases i with
  | load parsed => cases hi
  | event e value host' =>
    obtain rfl := Option.some.inj hi
    obtain ⟨now,hpass⟩ := handleEvents_pass (hs.linked.given _) h
    obtain ⟨⟨hr',-⟩,hnow,-⟩ := (hpass.actions r).mp hr
    have hc' : c ∈ s.conditions := mem_conditions hr' hc
    have hmark := evaluateRule_eq_true_iff.mp hnow c hc
    by_cases he : c.type.event = e
    · rw [hpass.checked c hc' he, hmark]
    · rw [hpass.kept c hc' he] at hmark
      obtain ⟨hst,hcheck⟩ := hs.standing c hc' hmark
      rw [hs.linked.check_eq hc' hst (value_given_of_ne he value host') host' host']
      exact hcheck host'
  | evaluate host' =>
    obtain rfl := Option.some.inj hi
    have heval := evaluatePolicy_evaluated hs.linked h
    obtain ⟨hr',hnow⟩ := (heval.actions r).mp hr
    have hc' : c ∈ s.conditions := mem_conditions hr' hc
    have hmark := evaluateRule_eq_true_iff.mp hnow c hc
    cases hst : reg.isStateless c.type.event with
    | true =>
      rw [heval.kept c hc' hst] at hmark
      exact absurd (hs.standing c hc' hmark).1 (by simp [hst])
    | false => exact (heval.checked c hc' hst).trans (by rw [hmark])

/-- Undos are set off when the rule was active and one of its checks is false. -/
lemma Quiescent.undos_checked (hs : Quiescent reg s) {i : Input ε}
    (h : engineStep reg s i = .ok (s', effects)) (hi : i.host = some host) {r : Rule ε}
    (hr : .undos r ∈ effects) :
    s.isActive r.addr = true ∧
      ∃ c ∈ r.conditions, c.check (s.given i) host c.type.event = .ok false := by
  have hfalse : ∀ {now : ℕ → Bool}, evaluateRule now r = false →
      ∃ c ∈ r.conditions, now c.addr = false := by
    intro now hnow
    by_contra hno
    push Not at hno
    rw [evaluateRule_eq_true_iff.mpr fun c hc => by simpa using hno c hc] at hnow
    cases hnow
  cases i with
  | load parsed => cases hi
  | event e value host' =>
    obtain rfl := Option.some.inj hi
    obtain ⟨now,hpass⟩ := handleEvents_pass (hs.linked.given _) h
    obtain ⟨⟨hr',-⟩,hactive,hnow⟩ := (hpass.undos r).mp hr
    obtain ⟨c,hc,hmark⟩ := hfalse hnow
    have hc' : c ∈ s.conditions := mem_conditions hr' hc
    refine ⟨hactive,c,hc,?_⟩
    -- the rule was active, so only the event at hand can have taken the mark away
    have he : c.type.event = e := by
      by_contra he
      have hold := (hs.active_iff hr').mp hactive c hc
      rw [hpass.kept c hc' he] at hmark
      exact absurd (hold.symm.trans hmark) (by decide)
    rw [hpass.checked c hc' he, hmark]
  | evaluate host' =>
    obtain rfl := Option.some.inj hi
    have heval := evaluatePolicy_evaluated hs.linked h
    obtain ⟨hr',hactive,hnow⟩ := (heval.undos r).mp hr
    obtain ⟨c,hc,hmark⟩ := hfalse hnow
    have hc' : c ∈ s.conditions := mem_conditions hr' hc
    have hst := (hs.standing c hc' ((hs.active_iff hr').mp hactive c hc)).1
    exact ⟨hactive,c,hc,(heval.checked c hc' hst).trans (by rw [hmark])⟩

/-- What is set off belongs to a rule that was loaded. -/
lemma Quiescent.triggered_mem (hs : Quiescent reg s) {i : Input ε} (h : engineStep reg s i = .ok (s', effects))
    {r : Rule ε} (hr : .actions r ∈ effects ∨ .undos r ∈ effects) : r ∈ s.rules := by
  cases i with
  | load parsed =>
    obtain ⟨_,_,h⟩ := bind_eq_ok.mp h
    obtain ⟨-,rfl⟩ := Prod.mk.inj (Except.ok.inj h)
    simp at hr
  | event e value host =>
    obtain ⟨now,hpass⟩ := handleEvents_pass (hs.linked.given _) h
    rcases hr with hr | hr
    · exact ((hpass.actions r).mp hr).1.1
    · exact ((hpass.undos r).mp hr).1.1
  | evaluate host =>
    have heval := evaluatePolicy_evaluated hs.linked h
    rcases hr with hr | hr
    · exact ((heval.actions r).mp hr).1
    · exact ((heval.undos r).mp hr).1

/-- In a settled engine, a rule on stateful events is active exactly when its checks are all true. -/
lemma Quiescent.active_iff_allChecked (hs : Quiescent reg s) (hset : Settled reg s) {r : Rule ε}
    (hr : r ∈ s.rules) (hst : ∀ c ∈ r.conditions, reg.isStateless c.type.event = false)
    (host : Host) : s.isActive r.addr = true ↔ AllChecked s host r := by
  rw [hs.active_iff hr]
  refine forall₂_congr fun c hc => ?_
  rw [hset c (mem_conditions hr hc) (hst c hc) host, Except.ok.injEq]

/-- A rule's actions are set off only when it holds, and its undos only when it was active and holds no longer. -/
def Honoured (reg : Registry ε) (s : Engine ε) : Prop :=
  ∀ i host s' effects, engineStep reg s i = .ok (s', effects) → i.host = some host → ∀ r : Rule ε,
    (.actions r ∈ effects → Holds (s.given i) host r) ∧
    (.undos r ∈ effects → s.isActive r.addr = true ∧ ¬ Holds (s.given i) host r)

/-- What was loaded without inverted conditions has none. -/
lemma plain_of_loads {value : ε → Value} {vars : VarStore} {inputs : List (Input ε)}
    (hrun : perform (advance reg) (Engine.start value vars) inputs = .ok s)
    (hloads : ∀ parsed, .load parsed ∈ inputs → parsed.Plain reg) : ∀ r ∈ s.rules, r.Plain := by
  have hinputs : ∀ i ∈ inputs, ∀ parsed, i = .load parsed → parsed.Plain reg :=
    fun i hi parsed he => hloads parsed (he ▸ hi)
  have hmeets : Meets (advance reg) (fun _ i => ∀ parsed, i = .load parsed → parsed.Plain reg) (Engine.start value vars)
      inputs := Meets.of_forall hinputs _
  have hinv := hmeets.invariant (I := fun t => Quiescent reg t ∧ ∀ r ∈ t.rules, r.Plain) ?_
    ⟨quiescent_start value vars,by simp [Engine.start]⟩ hrun
  · exact hinv.2
  · rintro t i t' ⟨ht,hplain⟩ hi hstep
    obtain ⟨effects,hstep⟩ := advance_eq_ok hstep
    refine ⟨ht.step hstep,?_⟩
    cases i with
    | load parsed =>
      obtain ⟨⟨u,code,err⟩,hu,h⟩ := bind_eq_ok.mp hstep
      obtain ⟨rfl,-⟩ := Prod.mk.inj (Except.ok.inj h)
      have hrules : (buildRule reg t parsed).engine.rules = t.rules := (built_buildRule t parsed).rules
      rcases applyRule_spec ht.linked hu with ⟨_,_,_,-,-,rfl,-⟩ | ⟨_,_,_,-,-,rfl,-⟩
      · simp only [loadedWith, hrules]
        rw [List.forall_mem_append, List.forall_mem_singleton]
        exact ⟨hplain,(Rule.plain_iff_of_shape (shape_buildRule t parsed)).mpr (hi parsed rfl)⟩
      · simp only [rejectedWith, hrules]
        exact hplain
    | event e value host =>
      obtain ⟨now,hpass⟩ := handleEvents_pass (ht.linked.given _) hstep
      rw [hpass.rules]
      exact hplain
    | evaluate host =>
      rw [(evaluatePolicy_evaluated ht.linked hstep).rules]
      exact hplain

/-- In every run whose rules were loaded without inverted conditions, actions are set off only when the rule holds,
undos only when it was active and holds no longer, and once the policy was evaluated, a rule on stateful events is
active exactly when it holds. In any run, a rule whose actions are set off holds only if it has no inverted condition,
and one on stateful events is active exactly when it holds only then, or where it neither holds nor has all checks
true; of a single inverted condition it is active exactly when it does not hold. -/
theorem honoured_iff_plain {value : ε → Value} {vars : VarStore} {inputs : List (Input ε)}
    (hrun : perform (advance reg) (Engine.start value vars) inputs = .ok s) :
    ((∀ parsed, .load parsed ∈ inputs → parsed.Plain reg) → Honoured reg s ∧
      ∀ before host after, inputs = before ++ .evaluate host :: after → (∀ i ∈ after, i.host.isSome) →
        ∀ r ∈ s.rules, (∀ c ∈ r.conditions, reg.isStateless c.type.event = false) →
        ∀ host', s.isActive r.addr = true ↔ Holds s host' r) ∧
    (∀ i host s' effects, engineStep reg s i = .ok (s', effects) → i.host = some host → ∀ r : Rule ε,
      (.actions r ∈ effects → (Holds (s.given i) host r ↔ r.Plain)) ∧
      (.undos r ∈ effects → s.isActive r.addr = true ∧ (r.Plain → ¬ Holds (s.given i) host r))) ∧
    (∀ before host after, inputs = before ++ .evaluate host :: after → (∀ i ∈ after, i.host.isSome) →
      ∀ r ∈ s.rules, (∀ c ∈ r.conditions, reg.isStateless c.type.event = false) → ∀ host',
      ((s.isActive r.addr = true ↔ Holds s host' r) ↔ r.Plain ∨ ¬ Holds s host' r ∧ ¬ AllChecked s host' r) ∧
      ∀ c, r.conditions = [c] → c.isInverted = true → (s.isActive r.addr = true ↔ ¬ Holds s host' r)) := by
  have hs := run_quiescent hrun
  have htriggers : ∀ i host s' effects, engineStep reg s i = .ok (s', effects) → i.host = some host → ∀ r : Rule ε,
      (.actions r ∈ effects → (Holds (s.given i) host r ↔ r.Plain)) ∧
      (.undos r ∈ effects → s.isActive r.addr = true ∧ (r.Plain → ¬ Holds (s.given i) host r)) := by
    refine fun i host s' effects hstep hi r => ⟨fun hr => ?_,fun hr => ?_⟩
    · exact (hs.actions_checked hstep hi hr).holds_iff
    · obtain ⟨hactive,c,hc,hcheck⟩ := hs.undos_checked hstep hi hr
      exact ⟨hactive,fun hplain => not_holds_of_check hc (by rw [hcheck, hplain c hc])⟩
  refine ⟨fun hloads => ⟨fun i host s' effects hstep hi r => ?_,?_⟩,htriggers,?_⟩
  · have hplain := plain_of_loads hrun hloads
    obtain ⟨hactions,hundos⟩ := htriggers i host s' effects hstep hi r
    refine ⟨fun hr => (hactions hr).mpr (hplain r (hs.triggered_mem hstep (.inl hr))),fun hr => ?_⟩
    exact ⟨(hundos hr).1,(hundos hr).2 (hplain r (hs.triggered_mem hstep (.inr hr)))⟩
  · rintro before host after rfl hafter r hr hst host'
    rw [hs.active_iff_allChecked (run_settled hrun hafter) hr hst host']
    exact (plain_of_loads hrun hloads r hr).allChecked_iff
  · rintro before host after rfl hafter r hr hst host'
    have hset := run_settled hrun hafter
    rw [hs.active_iff_allChecked hset hr hst host']
    refine ⟨allChecked_iff_holds_iff,fun c hc hinverted => ?_⟩
    have hmem : c ∈ r.conditions := hc ▸ List.mem_singleton_self c
    exact allChecked_iff_not_holds hc hinverted (hset c (mem_conditions hr hmem) (hst c hmem) host')

end Inversion

/-- A rule on the lid, written with or without an exclamation mark. -/
def lidRule (plain : Bool) : ParsedRule where
  name := "lid"
  conditions := [{ name := "whileLidClosed", args := [], undo := plain }]
  actions := [{ name := "doNothing", args := [] }]
  undos := []

/-- A machine without batteries and VMs. -/
def bareHost : Host where
  batteryPercentage _ := 0
  overallBatteryPercentage := 0
  batteryIsPresent _ := false
  vmPathByUuid _ := none
  vmPathByName _ := none

/-- The registry of a machine whose database holds no variables. -/
def bareRegistry : Registry EventId := xcpmdRegistry fun _ => none

def bareEngine : Engine EventId := Engine.start EventId.resetValue ⟨[], fun _ => none⟩

/-- The lid is closed. -/
def closeLid : Input EventId := .event .lid (.word lidStateClosed) bareHost

/-- Loaded without the mark, the rule acts on the closed lid and holds then. -/
theorem honoured_iff_plain_sample :
    ∃ s s' r, perform (advance bareRegistry) bareEngine [.load (lidRule true), .evaluate bareHost] =
        .ok s ∧
      engineStep bareRegistry s closeLid = .ok (s', [.actions r]) ∧ r.Plain ∧
      Holds (s.given closeLid) bareHost r ∧ Honoured bareRegistry s := by
  have hplain : ∀ r : Rule EventId, (∃ c, r.conditions = [c] ∧ c.isInverted = false) → r.Plain := by
    rintro r ⟨c,hc,hi⟩ d hd
    rw [hc, List.mem_singleton] at hd
    rw [hd, hi]
  have hrun : perform (advance bareRegistry) bareEngine [.load (lidRule true), .evaluate bareHost] =
      .ok _ := rfl
  have hload : (lidRule true).Plain bareRegistry := by
    have hshape : ((lidRule true).shape bareRegistry).conditions.map (fun c => c.2.1) = [false] := rfl
    intro c hc
    have hmem := List.mem_map_of_mem (f := fun c => c.2.1) hc
    rw [hshape] at hmem
    exact List.mem_singleton.mp hmem
  have hloads : ∀ parsed, (.load parsed : Input EventId) ∈ [.load (lidRule true), .evaluate bareHost] →
      parsed.Plain bareRegistry := by
    intro parsed hmem
    obtain rfl : parsed = lidRule true := by simpa using hmem
    exact hload
  obtain ⟨hhonoured,htriggers,-⟩ := honoured_iff_plain hrun
  refine ⟨_,_,_,hrun,rfl,hplain _ ⟨_,rfl,rfl⟩,?_,(hhonoured hloads).1⟩
  exact ((htriggers closeLid bareHost _ _ rfl rfl _).1 (.head _)).mpr (hplain _ ⟨_,rfl,rfl⟩)

/-- The rule loaded from `!whileLidClosed()` acts when the lid is closed and is active then; while the lid is open, it
is not. -/
theorem inverted_rule_acts :
    (∃ s s' r, perform (advance bareRegistry) bareEngine [.load (lidRule false)] = .ok s ∧
      engineStep bareRegistry s closeLid = .ok (s', [.actions r]) ∧
      ¬ Holds (s.given closeLid) bareHost r ∧ s'.isActive r.addr = true ∧
      ¬ Holds s' bareHost r) ∧
    ∃ s r, perform (advance bareRegistry) bareEngine [.load (lidRule false), .evaluate bareHost] = .ok s ∧
      s.rules = [r] ∧ s.isActive r.addr = false ∧ Holds s bareHost r := by
  refine ⟨⟨_,_,_,rfl,rfl,not_holds_of_check (.head _) rfl,rfl,not_holds_of_check (.head _) rfl⟩,
    _,_,rfl,rfl,rfl,fun c hc => ⟨false,?_,?_⟩⟩
  · obtain rfl := List.mem_singleton.mp hc
    rfl
  · obtain rfl := List.mem_singleton.mp hc
    decide

end Xctools.Xcpmd
