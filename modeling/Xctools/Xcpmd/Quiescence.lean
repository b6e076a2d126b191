import Xctools.Xcpmd.Engine

/-! The engine between two steps. A rule is active exactly when all its conditions are marked true,
and a condition marked true stands: it is on a stateful event and its check is true of the value
the event has. Once the policy was evaluated, the marks of all conditions on stateful events are
what their checks say, until another rule is loaded. -/
namespace Xctools.Xcpmd
open Machine

section Quiescence
variable {ε : Type} [DecidableEq ε] {reg : Registry ε} {s s' : Engine ε} {effects : List (Effect ε)}

lemma Linked.congr (hs : Linked reg s) (hrules : s'.rules = s.rules)
    (hlisteners : s'.listeners = s.listeners) (hnext : s'.next = s.next) : Linked reg s' := by
  have hconds := conditions_congr hrules
  exact {
    ruleAddrs := hrules ▸ hs.ruleAddrs
    conditionAddrs := hconds ▸ hs.conditionAddrs
    ruleAddr_lt := by rw [hrules, hnext]; exact hs.ruleAddr_lt
    conditionAddr_lt := by rw [hconds, hnext]; exact hs.conditionAddr_lt
    listeners := by rw [hlisteners, hconds]; exact hs.listeners
    backPointer := by rw [hrules]; exact hs.backPointer
    registered := by rw [hconds]; exact hs.registered
    conditions_ne_nil := by rw [hrules]; exact hs.conditions_ne_nil }

/-- A check on a stateful event depends on nothing but the value of the event. -/
lemma Linked.check_eq (hs : Linked reg s) {c : Condition ε} (hc : c ∈ s.conditions)
    (hst : reg.isStateless c.type.event = false)
    (hv : s'.value c.type.event = s.value c.type.event) (host host' : Host) :
    c.check s' host' c.type.event = c.check s host c.type.event := by
  unfold Condition.check
  rw [hv]
  exact reg.check_stateful c.type (hs.registered c hc) hst _ _ _ _ _ _

/-- What holds between two steps. -/
structure Quiescent (reg : Registry ε) (s : Engine ε) : Prop where
  linked : Linked reg s
  active : ∀ r ∈ s.rules, s.isActive r.addr = evaluateRule s.isTrue r
  standing : ∀ c ∈ s.conditions, s.isTrue c.addr = true →
    reg.isStateless c.type.event = false ∧ ∀ host, c.check s host c.type.event = .ok true

/-- The marks of the conditions on stateful events are what their checks say. -/
def Settled (reg : Registry ε) (s : Engine ε) : Prop :=
  ∀ c ∈ s.conditions, reg.isStateless c.type.event = false →
    ∀ host, c.check s host c.type.event = .ok (s.isTrue c.addr)

lemma quiescent_start (value : ε → Value) (vars : VarStore) :
    Quiescent reg (Engine.start value vars) where
  linked := linked_start value vars
  active := by simp [Engine.start]
  standing := by simp [Engine.start, Engine.conditions]

lemma Quiescent.active_iff (hs : Quiescent reg s) {r : Rule ε} (hr : r ∈ s.rules) :
    s.isActive r.addr = true ↔ ∀ c ∈ r.conditions, s.isTrue c.addr = true := by
  rw [hs.active r hr, evaluateRule_eq_true_iff]

/-- Old rules and conditions are left as they were by a rule that comes in. -/
lemma Quiescent.of_agree (hs : Quiescent reg s) (hlinked : Linked reg s')
    (hvalue : s'.value = s.value) (htrue : ∀ a < s.next, s'.isTrue a = s.isTrue a)
    (hactive : ∀ a < s.next, s'.isActive a = s.isActive a)
    (hrules : ∀ r ∈ s'.rules, r ∈ s.rules ∨ s'.isActive r.addr = false ∧
      ∀ c ∈ r.conditions, s'.isTrue c.addr = false) : Quiescent reg s' where
  linked := hlinked
  active := by
    intro r hr
    rcases hrules r hr with hr' | ⟨hoff,hfalse⟩
    · rw [hactive _ (hs.linked.ruleAddr_lt r hr'), hs.active r hr']
      exact (evaluateRule_congr fun c hc =>
        htrue _ (hs.linked.conditionAddr_lt c (mem_conditions hr' hc))).symm
    · obtain ⟨c,hc⟩ := List.exists_mem_of_ne_nil _ (hlinked.conditions_ne_nil r hr)
      have hno : ¬ evaluateRule s'.isTrue r = true := fun h => by
        have := evaluateRule_eq_true_iff.mp h c hc
        rw [hfalse c hc] at this
        cases this
      rw [hoff, Bool.eq_false_iff.mpr hno]
  standing := by
    intro c hc hmark
    obtain ⟨r,hr,hcr⟩ := List.mem_flatMap.mp hc
    rcases hrules r hr with hr' | ⟨-,hfalse⟩
    · have hc' := mem_conditions hr' hcr
      rw [htrue _ (hs.linked.conditionAddr_lt c hc')] at hmark
      obtain ⟨hst,hcheck⟩ := hs.standing c hc' hmark
      refine ⟨hst,fun host => ?_⟩
      rw [hs.linked.check_eq hc' hst (by rw [hvalue]) host host]
      exact hcheck host
    · rw [hfalse c hcr] at hmark
      cases hmark

lemma Quiescent.load (hs : Quiescent reg s) {parsed : ParsedRule} {code : ℕ} {err : String}
    (h : applyRule reg s parsed = .ok (s', code, err)) : Quiescent reg s' := by
  obtain ⟨b,vars,hb,⟨hne,rfl⟩ | rfl⟩ := applyRule_cases hs.linked h
  · refine hs.of_agree (hb.linked_loadedWith hs.linked hne vars) hb.value hb.isTrue_old ?_ ?_
    · intro a ha
      have hne : a ≠ b.rule.addr := hb.addr ▸ Nat.ne_of_lt ha
      exact (Function.update_of_ne hne _ _).trans (hb.isActive a ha)
    · intro r hr
      rcases List.mem_append.mp hr with hr | hr
      · exact .inl (hb.rules ▸ hr)
      · obtain rfl := List.mem_singleton.mp hr
        exact .inr ⟨Function.update_self _ _ _,hb.isTrue_new⟩
  · exact hs.of_agree (hb.linked_rejectedWith hs.linked vars) hb.value hb.isTrue_old hb.isActive
      fun r hr => .inl (hb.rules ▸ hr)

lemma Linked.given (hs : Linked reg s) (i : Input ε) : Linked reg (s.given i) := by
  cases i <;> exact hs.congr rfl rfl rfl

/-- Setting the value of one event is nothing to the conditions on another. -/
lemma value_given_of_ne {e d : ε} (h : d ≠ e) (value : Value) (host : Host) :
    (s.given (.event e value host)).value d = s.value d :=
  Function.update_of_ne h _ _

section Event
variable {e : ε} {value : Value} {host : Host} {now : ℕ → Bool}

/-- The value of another event is the same before and after the event was handled. -/
lemma Pass.value_of_ne (h : Pass reg host (s.given (.event e value host)) e now s' effects) {d : ε}
    (hd : d ≠ e) : s'.value d = s.value d := by
  cases hst : reg.isStateless e with
  | true =>
    rw [(h.stateless hst).1, Function.update_of_ne hd]
    exact value_given_of_ne hd value host
  | false =>
    rw [(h.stateful hst).1]
    exact value_given_of_ne hd value host

/-- The marks after the event: those of conditions on the event are what the check found, or reset. -/
lemma Pass.isTrue_eq (h : Pass reg host (s.given (.event e value host)) e now s' effects)
    {c : Condition ε} (hc : c ∈ s.conditions) :
    s'.isTrue c.addr = if c.type.event = e then (!reg.isStateless e && now c.addr)
      else s.isTrue c.addr := by
  cases hst : reg.isStateless e with
  | true =>
    rw [(h.stateless hst).2.2 c hc, Bool.not_true, Bool.false_and]
    rfl
  | false =>
    rw [(h.stateful hst).2.1]
    by_cases he : c.type.event = e
    · simp [he]
    · rw [if_neg he]
      exact h.kept c hc he

lemma Quiescent.event (hs : Quiescent reg s)
    (h : Pass reg host (s.given (.event e value host)) e now s' effects) : Quiescent reg s' where
  linked := hs.linked.congr h.rules h.listeners h.next
  active := by
    rw [h.rules]
    intro r hr
    cases hst : reg.isStateless e with
    | true =>
      rw [(h.stateless hst).2.1]
      refine (hs.active r hr).trans (evaluateRule_congr fun c hc => ?_)
      have hc' := mem_conditions hr hc
      rw [h.isTrue_eq hc']
      by_cases he : c.type.event = e
      · -- no condition on a stateless event is marked between two steps
        rw [if_pos he, hst, Bool.not_true, Bool.false_and, Bool.eq_false_iff]
        intro hmark
        have hst' := (hs.standing c hc' hmark).1
        rw [he, hst] at hst'
        cases hst'
      · rw [if_neg he]
    | false =>
      obtain ⟨-,hmarks,htouched,hothers⟩ := h.stateful hst
      rw [hmarks]
      by_cases ht : Touched (s.given (.event e value host)) now r
      · exact htouched r ht
      · rw [hothers r hr ht, evaluateRule_of_not_touched hr ht]
        exact hs.active r hr
  standing := by
    intro c hc hmark
    have hc' : c ∈ s.conditions := conditions_congr h.rules ▸ hc
    rw [h.isTrue_eq hc'] at hmark
    by_cases he : c.type.event = e
    · rw [if_pos he, Bool.and_eq_true, Bool.not_eq_true'] at hmark
      have hst : reg.isStateless c.type.event = false := he ▸ hmark.1
      refine ⟨hst,fun host' => ?_⟩
      rw [← hmark.2, ← h.checked c hc' he]
      exact (hs.linked.given _).check_eq hc' hst (by rw [(h.stateful hmark.1).1]) host host'
    · rw [if_neg he] at hmark
      obtain ⟨hst,hcheck⟩ := hs.standing c hc' hmark
      refine ⟨hst,fun host' => ?_⟩
      rw [hs.linked.check_eq hc' hst (h.value_of_ne he) host host']
      exact hcheck host

lemma Settled.event (hs : Settled reg s) (hl : Linked reg s)
    (h : Pass reg host (s.given (.event e value host)) e now s' effects) : Settled reg s' := by
  intro c hc hst host'
  have hc' : c ∈ s.conditions := conditions_congr h.rules ▸ hc
  rw [h.isTrue_eq hc']
  by_cases he : c.type.event = e
  · have hst' : reg.isStateless e = false := he ▸ hst
    rw [if_pos he, hst', Bool.not_false, Bool.true_and, ← h.checked c hc' he]
    exact (hl.given _).check_eq hc' hst (by rw [(h.stateful hst').1]) host host'
  · rw [if_neg he, hl.check_eq hc' hst (h.value_of_ne he) host host']
    exact hs c hc' hst host

end Event

section Evaluate
variable {host : Host}

lemma Evaluated.settled (h : Evaluated reg host s s' effects) (hl : Linked reg s) :
    Settled reg s' := by
  intro c hc hst host'
  have hc' : c ∈ s.conditions := conditions_congr h.rules ▸ hc
  rw [hl.check_eq hc' hst (by rw [h.value]) host host']
  exact h.checked c hc' hst

lemma Quiescent.evaluate (hs : Quiescent reg s) (h : Evaluated reg host s s' effects) :
    Quiescent reg s' where
  linked := hs.linked.congr h.rules h.listeners h.next
  active := by
    rw [h.rules]
    exact h.isActive
  standing := by
    intro c hc hmark
    have hc' : c ∈ s.conditions := conditions_congr h.rules ▸ hc
    cases hst : reg.isStateless c.type.event with
    | true =>
      rw [h.kept c hc' hst] at hmark
      exact absurd (hs.standing c hc' hmark).1 (by simp [hst])
    | false =>
      refine ⟨rfl,fun host' => ?_⟩
      rw [h.settled hs.linked c hc hst host', hmark]

end Evaluate

/-- Every step keeps the engine quiescent. -/
theorem Quiescent.step (hs : Quiescent reg s) {i : Input ε}
    (h : engineStep reg s i = .ok (s', effects)) : Quiescent reg s' := by
  cases i with
  | load parsed =>
    obtain ⟨⟨t,code,err⟩,ht,h⟩ := bind_eq_ok.mp h
    obtain ⟨rfl,-⟩ := Prod.mk.inj (Except.ok.inj h)
    exact hs.load ht
  | event e value host =>
    obtain ⟨now,hpass⟩ := handleEvents_pass (hs.linked.given _) h
    exact hs.event hpass
  | evaluate host => exact hs.evaluate (evaluatePolicy_evaluated hs.linked h)

/-- What is settled stays so while events are handled and the policy is evaluated. -/
lemma Settled.step (hset : Settled reg s) (hs : Quiescent reg s) {i : Input ε}
    (hi : i.host.isSome) (h : engineStep reg s i = .ok (s', effects)) : Settled reg s' := by
  cases i with
  | load parsed => cases hi
  | event e value host =>
    obtain ⟨now,hpass⟩ := handleEvents_pass (hs.linked.given _) h
    exact hset.event hs.linked hpass
  | evaluate host => exact (evaluatePolicy_evaluated hs.linked h).settled hs.linked

lemma advance_eq_ok {i : Input ε} (h : advance reg s i = .ok s') :
    ∃ effects, engineStep reg s i = .ok (s', effects) := by
  unfold advance at h
  cases hs : engineStep reg s i with
  | error e =>
    rw [hs] at h
    cases h
  | ok r =>
    rw [hs] at h
    obtain rfl := Except.ok.inj h
    exact ⟨r.2,rfl⟩

/-- In every run of loads, events and evaluations the engine is quiescent between two steps. -/
theorem run_quiescent {value : ε → Value} {vars : VarStore} {inputs : List (Input ε)}
    (h : perform (advance reg) (Engine.start value vars) inputs = .ok s) : Quiescent reg s := by
  refine perform_invariant (fun t i t' ht hstep => ?_) (quiescent_start value vars) h
  obtain ⟨_,hstep⟩ := advance_eq_ok hstep
  exact ht.step hstep

/-- Once the policy was evaluated, the engine is settled until a rule is loaded. -/
theorem run_settled {value : ε → Value} {vars : VarStore} {before after : List (Input ε)} {host : Host}
    (h : perform (advance reg) (Engine.start value vars) (before ++ .evaluate host :: after) = .ok s)
    (hafter : ∀ i ∈ after, i.host.isSome) : Settled reg s := by
  rw [perform_append] at h
  obtain ⟨t,hbefore,h⟩ := bind_eq_ok.mp h
  obtain ⟨t',heval,h⟩ := (perform_cons_eq_ok _).mp h
  obtain ⟨_,heval⟩ := advance_eq_ok heval
  have ht := run_quiescent hbefore
  have heval' := evaluatePolicy_evaluated ht.linked heval
  have hinv := (Meets.of_forall hafter t').invariant (I := fun t => Quiescent reg t ∧ Settled reg t)
    (fun u i u' hu hi hstep => by
      obtain ⟨_,hstep⟩ := advance_eq_ok hstep
      exact ⟨hu.1.step hstep,hu.2.step hu.1 hi hstep⟩)
    ⟨ht.evaluate heval',heval'.settled ht.linked⟩ h
  exact hinv.2

end Quiescence

end Xctools.Xcpmd
