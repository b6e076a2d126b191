import Xctools.Xcpmd.Lifecycle

/-! Rules with a condition on a stateless event. All conditions on the batteries and on VMs are of this kind, whatever
their names say. Such a rule lasts no longer than the event is handled. -/
namespace Xctools.Xcpmd
open Machine

section Momentary
variable {ε : Type} [DecidableEq ε] {reg : Registry ε} {s s' : Engine ε} {effects : List (Effect ε)} {r : Rule ε}
  {c : Condition ε} {e : ε} {value : Value} {host : Host} {command : Command ε}

/-- The checks of the conditions on the event say yes, and the others are on stateful events and marked. -/
def Rule.Fires (reg : Registry ε) (r : Rule ε) (s : Engine ε) (host : Host) (e : ε) : Prop :=
  ∀ d ∈ r.conditions, if d.type.event = e then d.check s host e = .ok true
    else reg.isStateless d.type.event = false ∧ s.isTrue d.addr = true

lemma Quiescent.fires_iff (hs : Quiescent reg s)
    (h : engineStep reg s (.event e value host) = .ok (s',effects)) (hr : r ∈ s.rules) (hc : c ∈ r.conditions)
    (hst : reg.isStateless c.type.event = true) : .actions r ∈ effects ↔
      c.type.event = e ∧ r.Fires reg (s.given (.event e value host)) host e := by
  have hmark := hs.isTrue_stateless (mem_conditions hr hc) hst
  obtain ⟨now,hpass⟩ := handleEvents_pass (hs.linked.given _) h
  constructor
  · intro hmem
    obtain ⟨-,hnow,-⟩ := (hpass.actions r).mp hmem
    have htrue := evaluateRule_eq_true_iff.mp hnow
    refine ⟨?_,fun d hd => ?_⟩
    · by_contra he
      have hkept := hpass.kept c (mem_conditions hr hc) he
      rw [htrue c hc] at hkept
      exact absurd (hkept.trans hmark) (by decide)
    · split_ifs with he
      · rw [← htrue d hd, ← hpass.checked d (mem_conditions hr hd) he, he]
      · have hstands : s.isTrue d.addr = true := (hpass.kept d (mem_conditions hr hd) he).symm.trans (htrue d hd)
        exact ⟨(hs.standing d (mem_conditions hr hd) hstands).1,hstands⟩
  · rintro ⟨rfl,hfires⟩
    refine hs.stateless_acts hst h hr hc rfl fun d hd => ?_
    have hfire := hfires d hd
    unfold Condition.updated
    split_ifs at hfire ⊢ with he
    · exact hfire
    · rw [hfire.2]

/-- Nothing is set off but by an event or an evaluation. -/
lemma commandStep_cases (h : commandStep reg s command = .ok (s',effects)) : effects = [] ∨
    (∃ e value host, command = .input (.event e value host)) ∨ ∃ host, command = .input (.evaluate host) := by
  cases command with
  | input i =>
    cases i with
    | load parsed =>
      obtain ⟨_,-,h⟩ := bind_eq_ok.mp h
      exact .inl (Prod.mk.inj (Except.ok.inj h)).2.symm
    | event e value host => exact .inr (.inl ⟨e,value,host,rfl⟩)
    | evaluate host => exact .inr (.inr ⟨host,rfl⟩)
  | deleteRule id =>
    obtain ⟨_,-,h⟩ := bind_eq_ok.mp h
    exact .inl (Prod.mk.inj (Except.ok.inj h)).2.symm
  | deleteRules =>
    obtain ⟨_,-,h⟩ := bind_eq_ok.mp h
    exact .inl (Prod.mk.inj (Except.ok.inj h)).2.symm
  | reload policy =>
    obtain ⟨_,-,h⟩ := bind_eq_ok.mp h
    obtain ⟨_,-,h⟩ := bind_eq_ok.mp h
    exact .inl (Prod.mk.inj (Except.ok.inj h)).2.symm

/-- In every run, a rule with a condition on a stateless event never executes its undos. It executes its actions exactly
when that event is handled, all its conditions on the event are true then, and the others are on stateful events and
stand; so with conditions on two stateless events it never does. -/
theorem momentary_rules {start : ε → Value} {vars : VarStore} {commands : List (Command ε)}
    (hrun : perform (obey reg) (Engine.start start vars) commands = .ok s)
    (h : commandStep reg s command = .ok (s',effects)) (hr : r ∈ s.rules) (hc : c ∈ r.conditions)
    (hst : reg.isStateless c.type.event = true) : .undos r ∉ effects ∧
      (.actions r ∈ effects ↔ ∃ value host, command = .input (.event c.type.event value host) ∧
        r.Fires reg (s.given (.event c.type.event value host)) host c.type.event) := by
  have hs := commands_quiescent hrun
  have hmark := hs.isTrue_stateless (mem_conditions hr hc) hst
  have hactive := hs.isActive_stateless hr hc hst
  rcases commandStep_cases h with rfl | ⟨e,value,host,rfl⟩ | ⟨host,rfl⟩
  · refine ⟨List.not_mem_nil,iff_of_false List.not_mem_nil ?_⟩
    rintro ⟨value,host,rfl,hfires⟩
    apply List.not_mem_nil (a := Effect.actions r)
    exact (hs.fires_iff h hr hc hst).mpr ⟨rfl,hfires⟩
  · obtain ⟨now,hpass⟩ := handleEvents_pass (hs.linked.given _) h
    refine ⟨fun hmem => ?_,?_⟩
    · exact absurd (hactive.symm.trans ((hpass.undos r).mp hmem).2.1) (by decide)
    · rw [hs.fires_iff h hr hc hst]
      constructor
      · rintro ⟨rfl,hfires⟩
        exact ⟨value,host,rfl,hfires⟩
      · rintro ⟨_,_,heq,hfires⟩
        cases heq
        exact ⟨rfl,hfires⟩
  · have heval := evaluatePolicy_evaluated hs.linked h
    refine ⟨fun hmem => ?_,⟨fun hmem => ?_,?_⟩⟩
    · exact absurd (hactive.symm.trans ((heval.undos r).mp hmem).2.1) (by decide)
    · have htrue := evaluateRule_eq_true_iff.mp ((heval.actions r).mp hmem).2 c hc
      rw [heval.kept c (mem_conditions hr hc) hst, hmark] at htrue
      cases htrue
    · rintro ⟨_,_,heq,-⟩
      cases heq

end Momentary

/-- A rule that is meant to hold while the batteries are low. -/
def drainedRule : ParsedRule where
  name := "drained"
  conditions := [{ name := "whileOverallBattLessThan", args := [.int 20] }]
  actions := [{ name := "doNothing", args := [] }]
  undos := [{ name := "doNothing", args := [] }]

/-- It acts whenever the status of a battery changes while they are low. -/
theorem momentary_rules_drained : ∃ s s' r effects,
    perform (obey bareRegistry) bareEngine [.input (.load drainedRule),.input (.event .battStatus (.word 0) bareHost)] = .ok s ∧
      commandStep bareRegistry s (.input (.event .battStatus (.word 0) bareHost)) = .ok (s',effects) ∧
      .actions r ∈ effects ∧ .undos r ∉ effects := by
  have hrun : perform (obey bareRegistry) bareEngine [.input (.load drainedRule),
      .input (.event .battStatus (.word 0) bareHost)] = .ok _ := rfl
  have hrules := momentary_rules hrun
    (show commandStep bareRegistry _ (.input (.event .battStatus (.word 0) bareHost)) = .ok (_,_) from rfl)
    (.head _) (.head _) rfl
  refine ⟨_,_,_,_,hrun,rfl,hrules.2.mpr ⟨_,_,rfl,?_⟩,hrules.1⟩
  intro d hd
  obtain rfl := List.mem_singleton.mp hd
  rfl

end Xctools.Xcpmd
