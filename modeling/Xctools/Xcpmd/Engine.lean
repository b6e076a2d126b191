import Xctools.Machine.Refresh
import Xctools.Machine.Run
import Xctools.Xcpmd.Store

/-! The policy engine of `modules.c`. An event makes the conditions that listen to it be checked, and
the rules of those that changed be evaluated: the undos of the rules that ended, then the actions
of the rules that began. -/
namespace Xctools.Xcpmd
open Machine

/-- What the engine sets off: all actions of a rule in their order, or all its undos. -/
inductive Effect (ε : Type)
  | actions (rule : Rule ε)
  | undos (rule : Rule ε)

section Evaluation
variable {ε : Type}

/-- `evaluate_rule`. -/
def evaluateRule (isTrue : ℕ → Bool) (r : Rule ε) : Bool :=
  r.conditions.all fun c => isTrue c.addr

/-- Following a pointer to a rule. -/
def Engine.ruleAt (s : Engine ε) (addr : ℕ) : Outcome (Rule ε) :=
  match s.rules.find? fun r => r.addr = addr with
  | none => .error .wild
  | some r => .ok r

/-- The check function of a condition, called with an event. -/
def Condition.check (c : Condition ε) (s : Engine ε) (host : Host) (e : ε) : Outcome Bool :=
  c.type.check host s.vars (s.value e) c.args

/-- A rule some condition of which is not what it was. -/
def Touched (s : Engine ε) (now : ℕ → Bool) (r : Rule ε) : Prop :=
  r ∈ s.rules ∧ ∃ c ∈ r.conditions, s.isTrue c.addr ≠ now c.addr

lemma evaluateRule_eq_true_iff {now : ℕ → Bool} {r : Rule ε} :
    evaluateRule now r = true ↔ ∀ c ∈ r.conditions, now c.addr = true :=
  List.all_eq_true

lemma evaluateRule_congr {now old : ℕ → Bool} {r : Rule ε}
    (h : ∀ c ∈ r.conditions, now c.addr = old c.addr) : evaluateRule now r = evaluateRule old r := by
  rw [Bool.eq_iff_iff, evaluateRule_eq_true_iff, evaluateRule_eq_true_iff]
  exact forall₂_congr fun c hc => by rw [h c hc]

/-- A rule that was not touched evaluates to what it did. -/
lemma evaluateRule_of_not_touched {s : Engine ε} {now : ℕ → Bool} {r : Rule ε} (hr : r ∈ s.rules)
    (h : ¬ Touched s now r) : evaluateRule now r = evaluateRule s.isTrue r :=
  evaluateRule_congr fun c hc => by
    by_contra hne
    exact h ⟨hr,c,hc,Ne.symm hne⟩

variable [DecidableEq ε] (reg : Registry ε)

/-- `handle_events`. -/
def handleEvents (host : Host) (s : Engine ε) (e : ε) : Outcome (Engine ε × List (Effect ε)) := do
  let (now, changed) ← refresh Condition.addr (fun c => c.check s host e) s.isTrue (s.listeners e)
  let checklist ← changed.mapM fun c => s.ruleAt c.rule
  let ended := checklist.filter fun r => s.isActive r.addr && !evaluateRule now r
  let begun := checklist.filter fun r => evaluateRule now r && !s.isActive r.addr
  let effects := ended.map .undos ++ begun.map .actions
  if reg.isStateless e then
    return ({ s with
      value := Function.update s.value e (reg.resetValue e)
      isTrue := storeAll Condition.addr (fun _ => false) now (s.listeners e) }, effects)
  else
    return ({ s with
      isTrue := now
      isActive := storeAll Rule.addr (evaluateRule now) s.isActive checklist }, effects)

/-- The conditions `evaluate_policy` checks, each with the event it is found at. -/
def watched (s : Engine ε) : List (ε × Condition ε) :=
  (reg.events.filter fun e => !reg.isStateless e).flatMap fun e => (s.listeners e).map fun c => (e, c)

/-- `evaluate_policy`. -/
def evaluatePolicy (host : Host) (s : Engine ε) : Outcome (Engine ε × List (Effect ε)) := do
  let (now, _) ← refresh (fun p => p.2.addr) (fun p => p.2.check s host p.1) s.isTrue (watched reg s)
  let off := s.rules.filter fun r => !evaluateRule now r
  let on := s.rules.filter (evaluateRule now)
  let effects := (off.filter fun r => s.isActive r.addr).map .undos ++ on.map .actions
  let isActive := storeAll Rule.addr (fun _ => false) s.isActive off
  return ({ s with
    isTrue := now
    isActive := storeAll Rule.addr (fun _ => true) isActive on }, effects)

/-- What happens to the engine: a parsed rule is applied, a module sets the value of an event and has
it handled, or the policy is evaluated. -/
inductive Input (ε : Type)
  | load (parsed : ParsedRule)
  | event (e : ε) (value : Value) (host : Host)
  | evaluate (host : Host)

/-- The machine as an input finds it. Loading a rule checks nothing. -/
def Input.host {ε : Type} : Input ε → Option Host
  | .load _ => none
  | .event _ _ host => some host
  | .evaluate host => some host

/-- The engine while an input is dealt with: a module has set the value of its event. -/
def Engine.given (s : Engine ε) : Input ε → Engine ε
  | .event e value _ => { s with value := Function.update s.value e value }
  | _ => s

/-- One step: the engine afterwards and what was set off. -/
def engineStep (s : Engine ε) (i : Input ε) : Outcome (Engine ε × List (Effect ε)) :=
  match i with
  | .load parsed => do return ((← applyRule reg s parsed).1, [])
  | .event e value host => handleEvents reg host (s.given (.event e value host)) e
  | .evaluate host => evaluatePolicy reg host s

/-- The engine after one step. -/
def advance (s : Engine ε) (i : Input ε) : Outcome (Engine ε) :=
  (engineStep reg s i).map Prod.fst

end Evaluation

section Pass
variable {ε : Type} [DecidableEq ε] {reg : Registry ε} {s s' : Engine ε} {host : Host}
  {effects : List (Effect ε)}

lemma Linked.ruleAt_eq_ok_iff (h : Linked reg s) {addr : ℕ} {r : Rule ε} :
    s.ruleAt addr = .ok r ↔ r ∈ s.rules ∧ r.addr = addr := by
  unfold Engine.ruleAt
  cases hf : s.rules.find? fun r => r.addr = addr with
  | none =>
    have hno := List.find?_eq_none.mp hf
    simp only [reduceCtorEq, false_iff]
    rintro ⟨hr,he⟩
    exact hno r hr (by simpa using he)
  | some q =>
    have hq := List.mem_of_find?_eq_some hf
    have haddr : q.addr = addr := by simpa using List.find?_some hf
    constructor
    · intro he
      obtain rfl := Except.ok.inj he
      exact ⟨hq,haddr⟩
    · rintro ⟨hr,he⟩
      rw [h.rule_ext hq hr (haddr.trans he.symm)]

lemma Linked.listeners_injOn (h : Linked reg s) (e : ε) :
    Set.InjOn Condition.addr {c | c ∈ s.listeners e} :=
  fun _ hc _ hd => h.condition_ext (h.mem_listeners_iff.mp hc).1 (h.mem_listeners_iff.mp hd).1

lemma Linked.listeners_nodup (h : Linked reg s) (e : ε) :
    ((s.listeners e).map Condition.addr).Nodup := by
  rw [h.listeners]
  exact h.conditionAddrs.sublist (List.filter_sublist.map _)

lemma Linked.listener_addr_ne (h : Linked reg s) {e : ε} {c : Condition ε} (hc : c ∈ s.conditions)
    (he : c.type.event ≠ e) : ∀ d ∈ s.listeners e, d.addr ≠ c.addr := by
  intro d hd heq
  obtain ⟨hd,hde⟩ := h.mem_listeners_iff.mp hd
  exact he (h.condition_ext hd hc heq ▸ hde)

/-- The rules on the checklist of `handle_events` are those that were touched. -/
lemma Linked.mem_checklist_iff (h : Linked reg s) {e : ε} {now : ℕ → Bool}
    {changed : List (Condition ε)} {checklist : List (Rule ε)}
    (hr : refresh Condition.addr (fun c => c.check s host e) s.isTrue (s.listeners e) =
      .ok (now, changed))
    (hm : changed.mapM (fun c => s.ruleAt c.rule) = .ok checklist) {r : Rule ε} :
    r ∈ checklist ↔ Touched s now r := by
  have hkey := h.listeners_injOn e
  have hnodup := (h.listeners_nodup e).of_map
  rw [mem_mapM_iff hm]
  constructor
  · rintro ⟨c,hc,hrule⟩
    obtain ⟨hc,hne⟩ := (mem_changed_iff hkey hnodup hr).mp hc
    obtain ⟨q,hq,hcq,hqa⟩ := h.exists_rule (h.mem_listeners_iff.mp hc).1
    obtain ⟨hr',ha⟩ := h.ruleAt_eq_ok_iff.mp hrule
    obtain rfl := h.rule_ext hq hr' (hqa.symm.trans ha.symm)
    exact ⟨hq,c,hcq,hne⟩
  · rintro ⟨hr',c,hc,hne⟩
    have hcs := mem_conditions hr' hc
    -- a condition on another event is what it was
    have he : c.type.event = e := by
      by_contra he
      exact hne (refresh_frame hr (h.listener_addr_ne hcs he)).symm
    exact ⟨c,(mem_changed_iff hkey hnodup hr).mpr ⟨h.mem_listeners_iff.mpr ⟨hcs,he⟩,hne⟩,
      h.ruleAt_eq_ok_iff.mpr ⟨hr',(h.backPointer r hr' c hc).symm⟩⟩

/-- What handling an event comes to: the conditions on the event are what their checks say and the
others what they were, and the rules that were touched end or begin. -/
structure Pass (reg : Registry ε) (host : Host) (s : Engine ε) (e : ε) (now : ℕ → Bool)
    (s' : Engine ε) (effects : List (Effect ε)) : Prop where
  rules : s'.rules = s.rules
  listeners : s'.listeners = s.listeners
  vars : s'.vars = s.vars
  next : s'.next = s.next
  checked : ∀ c ∈ s.conditions, c.type.event = e →
    c.check s host c.type.event = .ok (now c.addr)
  kept : ∀ c ∈ s.conditions, c.type.event ≠ e → now c.addr = s.isTrue c.addr
  undos : ∀ r, .undos r ∈ effects ↔
    Touched s now r ∧ s.isActive r.addr = true ∧ evaluateRule now r = false
  actions : ∀ r, .actions r ∈ effects ↔
    Touched s now r ∧ evaluateRule now r = true ∧ s.isActive r.addr = false
  stateless : reg.isStateless e = true →
    s'.value = Function.update s.value e (reg.resetValue e) ∧ s'.isActive = s.isActive ∧
    ∀ c ∈ s.conditions, s'.isTrue c.addr = if c.type.event = e then false else s.isTrue c.addr
  stateful : reg.isStateless e = false →
    s'.value = s.value ∧ s'.isTrue = now ∧
    (∀ r, Touched s now r → s'.isActive r.addr = evaluateRule now r) ∧
    ∀ r ∈ s.rules, ¬ Touched s now r → s'.isActive r.addr = s.isActive r.addr

/-- What `handle_events` sets off, entry by entry of its checklist. -/
def effectsOf (s : Engine ε) (now : ℕ → Bool) (checklist : List (Rule ε)) : List (Effect ε) :=
  (checklist.filter fun r => s.isActive r.addr && !evaluateRule now r).map .undos ++
    (checklist.filter fun r => evaluateRule now r && !s.isActive r.addr).map .actions

theorem handleEvents_spec (hs : Linked reg s) {e : ε}
    (h : handleEvents reg host s e = .ok (s', effects)) :
    ∃ now changed checklist,
      refresh Condition.addr (fun c => c.check s host e) s.isTrue (s.listeners e) = .ok (now, changed) ∧
      changed.mapM (fun c => s.ruleAt c.rule) = .ok checklist ∧
      effects = effectsOf s now checklist ∧ Pass reg host s e now s' effects := by
  obtain ⟨⟨now,changed⟩,hr,h⟩ := bind_eq_ok.mp h
  dsimp only at h
  obtain ⟨checklist,hm,h⟩ := bind_eq_ok.mp h
  have hkey := hs.listeners_injOn e
  have hchecked : ∀ c ∈ s.conditions, c.type.event = e →
      c.check s host c.type.event = .ok (now c.addr) := by
    rintro c hc rfl
    exact refresh_entry hkey hr (hs.mem_listeners_iff.mpr ⟨hc,rfl⟩)
  have hkept : ∀ c ∈ s.conditions, c.type.event ≠ e → now c.addr = s.isTrue c.addr :=
    fun c hc he => refresh_frame hr (hs.listener_addr_ne hc he)
  have hlist : ∀ r, r ∈ checklist ↔ Touched s now r := fun r => hs.mem_checklist_iff hr hm
  have hrules : Set.InjOn Rule.addr {r | r ∈ checklist} :=
    fun r hr' q hq => hs.rule_ext ((hlist r).mp hr').1 ((hlist q).mp hq).1
  refine ⟨now,changed,checklist,hr,hm,?_⟩
  cases hst : reg.isStateless e with
  | true =>
    rw [if_pos hst] at h
    obtain ⟨rfl,rfl⟩ := Prod.mk.inj (Except.ok.inj h)
    refine ⟨rfl,rfl,rfl,rfl,rfl,hchecked,hkept,fun r => by simp [hlist],fun r => by simp [hlist],
      fun _ => ⟨rfl,rfl,?_⟩,?_⟩
    · intro c hc
      by_cases he : c.type.event = e
      · rw [if_pos he]
        exact storeAll_entry hkey (hs.mem_listeners_iff.mpr ⟨hc,he⟩)
      · rw [if_neg he, ← hkept c hc he]
        exact storeAll_frame (hs.listener_addr_ne hc he)
    · intro hf
      rw [hst] at hf
      cases hf
  | false =>
    rw [if_neg (by simp [hst])] at h
    obtain ⟨rfl,rfl⟩ := Prod.mk.inj (Except.ok.inj h)
    refine ⟨rfl,rfl,rfl,rfl,rfl,hchecked,hkept,fun r => by simp [hlist],fun r => by simp [hlist],?_,
      fun _ => ⟨rfl,rfl,?_,?_⟩⟩
    · intro hf
      rw [hst] at hf
      cases hf
    · intro r ht
      exact storeAll_entry hrules ((hlist r).mpr ht)
    · intro r hr' hnt
      apply storeAll_frame
      intro q hq he
      apply hnt
      rw [← hs.rule_ext ((hlist q).mp hq).1 hr' he]
      exact (hlist q).mp hq

theorem handleEvents_pass (hs : Linked reg s) {e : ε}
    (h : handleEvents reg host s e = .ok (s', effects)) :
    ∃ now, Pass reg host s e now s' effects := by
  obtain ⟨now,_,_,-,-,-,hpass⟩ := handleEvents_spec hs h
  exact ⟨now,hpass⟩

lemma Linked.mem_watched_iff (hs : Linked reg s) {e : ε} {c : Condition ε} :
    (e, c) ∈ watched reg s ↔ c ∈ s.conditions ∧ c.type.event = e ∧ reg.isStateless e = false := by
  simp only [watched, List.mem_flatMap, List.mem_filter, List.mem_map, Prod.mk.injEq]
  constructor
  · rintro ⟨e',⟨-,hst⟩,c',hc,rfl,rfl⟩
    obtain ⟨hc,he⟩ := hs.mem_listeners_iff.mp hc
    exact ⟨hc,he,by simpa using hst⟩
  · rintro ⟨hc,he,hst⟩
    exact ⟨e,⟨reg.mem_events e,by simpa using hst⟩,c,hs.mem_listeners_iff.mpr ⟨hc,he⟩,rfl,rfl⟩

/-- What evaluating the policy comes to: every condition on a stateful event is what its check says,
and every rule is active exactly when it evaluates to true. -/
structure Evaluated (reg : Registry ε) (host : Host) (s s' : Engine ε) (effects : List (Effect ε)) :
    Prop where
  rules : s'.rules = s.rules
  listeners : s'.listeners = s.listeners
  vars : s'.vars = s.vars
  next : s'.next = s.next
  value : s'.value = s.value
  checked : ∀ c ∈ s.conditions, reg.isStateless c.type.event = false →
    c.check s host c.type.event = .ok (s'.isTrue c.addr)
  kept : ∀ c ∈ s.conditions, reg.isStateless c.type.event = true → s'.isTrue c.addr = s.isTrue c.addr
  isActive : ∀ r ∈ s.rules, s'.isActive r.addr = evaluateRule s'.isTrue r
  undos : ∀ r, .undos r ∈ effects ↔
    r ∈ s.rules ∧ s.isActive r.addr = true ∧ evaluateRule s'.isTrue r = false
  actions : ∀ r, .actions r ∈ effects ↔ r ∈ s.rules ∧ evaluateRule s'.isTrue r = true

theorem evaluatePolicy_evaluated (hs : Linked reg s)
    (h : evaluatePolicy reg host s = .ok (s', effects)) : Evaluated reg host s s' effects := by
  obtain ⟨⟨now,changed⟩,hr,h⟩ := bind_eq_ok.mp h
  obtain ⟨rfl,rfl⟩ := Prod.mk.inj (Except.ok.inj h)
  have hkey : Set.InjOn (fun p : ε × Condition ε => p.2.addr) {p | p ∈ watched reg s} := by
    rintro ⟨e,c⟩ hp ⟨e',d⟩ hq he
    obtain ⟨hc,rfl,-⟩ := hs.mem_watched_iff.mp hp
    obtain ⟨hd,rfl,-⟩ := hs.mem_watched_iff.mp hq
    obtain rfl := hs.condition_ext hc hd he
    rfl
  have hrules : ∀ p : Rule ε → Bool, Set.InjOn Rule.addr {r | r ∈ s.rules.filter p} :=
    fun p r hr' q hq => hs.rule_ext (List.mem_filter.mp hr').1 (List.mem_filter.mp hq).1
  have hout : ∀ (p : Rule ε → Bool), ∀ r ∈ s.rules, p r = false →
      ∀ q ∈ s.rules.filter p, q.addr ≠ r.addr := by
    intro p r hr' hp q hq he
    obtain ⟨hq,hpq⟩ := List.mem_filter.mp hq
    rw [hs.rule_ext hq hr' he, hp] at hpq
    cases hpq
  exact {
    rules := rfl
    listeners := rfl
    vars := rfl
    next := rfl
    value := rfl
    checked := fun c hc hst =>
      refresh_entry hkey hr (x := (c.type.event, c)) (hs.mem_watched_iff.mpr ⟨hc,rfl,hst⟩)
    kept := by
      intro c hc hst
      apply refresh_frame hr
      rintro ⟨e,d⟩ hp he
      obtain ⟨hd,rfl,hst'⟩ := hs.mem_watched_iff.mp hp
      have heq : d = c := hs.condition_ext hd hc he
      rw [heq, hst] at hst'
      cases hst'
    isActive := by
      intro r hr'
      cases hv : evaluateRule now r with
      | true => exact storeAll_entry (hrules _) (List.mem_filter.mpr ⟨hr',hv⟩)
      | false =>
        refine (storeAll_frame (hout _ r hr' hv)).trans ?_
        exact storeAll_entry (hrules _) (List.mem_filter.mpr ⟨hr',by simp [hv]⟩)
    undos := fun r => by simp [and_comm]
    actions := fun r => by simp }

end Pass

end Xctools.Xcpmd
