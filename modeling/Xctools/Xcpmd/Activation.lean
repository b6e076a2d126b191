import Xctools.Xcpmd.Lifecycle

/-! How often a rule acts. `handle_events` puts a rule on its checklist once for every condition of the
rule that changed, and goes through the whole checklist before it sets any flag. A rule that begins or
ends therefore acts as many times as it has changed conditions: once, exactly when there is one. -/
namespace Xctools.Xcpmd
open Machine

section Counts
variable {ε : Type}

/-- Whether an effect is the actions of the rule at an address. -/
def Effect.isActions (addr : ℕ) : Effect ε → Bool
  | .actions r => r.addr = addr
  | .undos _ => false

/-- Whether an effect is the undos of the rule at an address. -/
def Effect.isUndos (addr : ℕ) : Effect ε → Bool
  | .actions _ => false
  | .undos r => r.addr = addr

/-- How often the action list of a rule is executed. -/
def timesActed (effects : List (Effect ε)) (r : Rule ε) : ℕ := effects.countP (Effect.isActions r.addr)

/-- How often the undo list of a rule is executed. -/
def timesUndone (effects : List (Effect ε)) (r : Rule ε) : ℕ := effects.countP (Effect.isUndos r.addr)

lemma timesActed_append (undone acted : List (Rule ε)) (r : Rule ε) :
    timesActed (undone.map .undos ++ acted.map .actions) r = (acted.map Rule.addr).count r.addr := by
  have hundone : (undone.map .undos).countP (Effect.isActions r.addr) = 0 := by
    rw [List.countP_map]
    exact List.countP_eq_zero.mpr fun q _ => by simp [Effect.isActions]
  rw [timesActed, List.countP_append, hundone, Nat.zero_add, List.countP_map, List.count,
    List.countP_map]
  exact List.countP_congr fun q _ => by simp [Effect.isActions]

lemma timesUndone_append (undone acted : List (Rule ε)) (r : Rule ε) :
    timesUndone (undone.map .undos ++ acted.map .actions) r = (undone.map Rule.addr).count r.addr := by
  have hacted : (acted.map .actions).countP (Effect.isUndos r.addr) = 0 := by
    rw [List.countP_map]
    exact List.countP_eq_zero.mpr fun q _ => by simp [Effect.isUndos]
  rw [timesUndone, List.countP_append, hacted, Nat.add_zero, List.countP_map, List.count,
    List.countP_map]
  exact List.countP_congr fun q _ => by simp [Effect.isUndos]

/-- Of the entries of a list that meet `p`, those with the key of `x` are there if `x` meets it. -/
lemma count_map_filter {α : Type} {f : α → ℕ} {p : α → Bool} {l : List α} {x : α}
    (h : ∀ y ∈ l, f y = f x → y = x) :
    ((l.filter p).map f).count (f x) = if p x then (l.map f).count (f x) else 0 := by
  induction l with
  | nil => simp
  | cons y l ih =>
    obtain ⟨hy,hl⟩ := List.forall_mem_cons.mp h
    by_cases hyx : f y = f x
    · obtain rfl := hy hyx
      cases hp : p y <;> simp [hp, ih hl]
    · cases hp : p y <;> simp [hp, ih hl, List.count_cons_of_ne hyx]

end Counts

section Changed
variable {ε : Type} [DecidableEq ε] {reg : Registry ε} {s s' : Engine ε} {host : Host} {e : ε}
  {effects : List (Effect ε)} {r : Rule ε}

/-- The conditions of a rule that listen to the event and whose check is not what they are marked. -/
def changedOn (s : Engine ε) (host : Host) (e : ε) (r : Rule ε) : List (Condition ε) :=
  r.conditions.filter fun c => c.type.event = e ∧ c.check s host e ≠ .ok (s.isTrue c.addr)

/-- The conditions that point back to a loaded rule are its own. -/
lemma Linked.filter_rule (hs : Linked reg s) (hr : r ∈ s.rules) :
    s.conditions.filter (fun c => c.rule = r.addr) = r.conditions := by
  have hone : s.rules.filter (fun q => decide (q.addr = r.addr)) = [r] := by
    have hsplit := hs.ruleAddrs
    obtain ⟨before,after,hl⟩ := List.append_of_mem hr
    rw [hl, List.map_append, List.map_cons, List.nodup_middle, List.nodup_cons,
      ← List.map_append] at hsplit
    have hout : ∀ q ∈ before ++ after, ¬ decide (q.addr = r.addr) = true := fun q hq => by
      simpa using fun he => hsplit.1 (List.mem_map.mpr ⟨q,hq,he⟩)
    obtain ⟨hbefore,hafter⟩ := List.forall_mem_append.mp hout
    rw [hl, List.filter_append, List.filter_cons_of_pos (by simp),
      List.filter_eq_nil_iff.mpr hbefore, List.filter_eq_nil_iff.mpr hafter, List.nil_append]
  rw [Engine.conditions, filter_conditions hs.backPointer fun a => a = r.addr, hone]
  simp

/-- A rule stands on the checklist once for each of its changed conditions. -/
lemma Linked.count_checklist (hs : Linked reg s) {now : ℕ → Bool} {changed : List (Condition ε)}
    {checklist : List (Rule ε)}
    (hr : refresh Condition.addr (fun c => c.check s host e) s.isTrue (s.listeners e) =
      .ok (now, changed))
    (hm : changed.mapM (fun c => s.ruleAt c.rule) = .ok checklist) (hrule : r ∈ s.rules) :
    (checklist.map Rule.addr).count r.addr = (changedOn s host e r).length := by
  have hkey := hs.listeners_injOn e
  have haddrs : checklist.map Rule.addr = changed.map Condition.rule :=
    map_mapM_eq (fun c q hq => (hs.ruleAt_eq_ok_iff.mp hq).2) hm
  have hchanged := changed_eq_filter hkey (hs.listeners_nodup e).of_map hr
  have hcount : (changed.map Condition.rule).count r.addr =
      (changed.filter fun c => c.rule = r.addr).length := by
    rw [List.count, List.countP_map, List.countP_eq_length_filter]
    rfl
  rw [haddrs, hcount, hchanged, hs.listeners, listening, List.filter_comm, List.filter_comm _ _ s.conditions,
    hs.filter_rule hrule, changedOn, List.filter_filter]
  refine congrArg List.length (List.filter_congr fun c hc => ?_)
  have hcs := mem_conditions hrule hc
  by_cases he : c.type.event = e
  · have hcheck := refresh_entry hkey hr (hs.mem_listeners_iff.mpr ⟨hcs,he⟩)
    simp [he, hcheck, eq_comm]
  · simp [he]

instance (r : Rule ε) (s : Engine ε) (host : Host) (e : ε) : Decidable (r.TrueAfter s host e) :=
  inferInstanceAs (Decidable (∀ c ∈ r.conditions, c.updated s host e = .ok true))

/-- The rule begins or ends with the event: it is inactive and becomes true, or active and is no longer
true. -/
def Rule.Switches (r : Rule ε) (s : Engine ε) (host : Host) (e : ε) : Prop :=
  ¬ (s.isActive r.addr = true ↔ r.TrueAfter s host e)

lemma Linked.timesActed_eq (hs : Linked reg s) (h : handleEvents reg host s e = .ok (s', effects))
    (hr : r ∈ s.rules) : timesActed effects r =
      if s.isActive r.addr = false ∧ r.TrueAfter s host e then (changedOn s host e r).length else 0 := by
  obtain ⟨now,changed,checklist,hrefresh,hm,rfl,hpass⟩ := handleEvents_spec hs h
  have hsame : ∀ q ∈ checklist, q.addr = r.addr → q = r := fun q hq =>
    hs.rule_ext ((hs.mem_checklist_iff hrefresh hm).mp hq).1 hr
  rw [effectsOf, timesActed_append, count_map_filter hsame, hs.count_checklist hrefresh hm hr]
  simp [hpass.trueAfter_iff hr, and_comm]

lemma Linked.timesUndone_eq (hs : Linked reg s) (h : handleEvents reg host s e = .ok (s', effects))
    (hr : r ∈ s.rules) : timesUndone effects r =
      if s.isActive r.addr = true ∧ ¬ r.TrueAfter s host e then (changedOn s host e r).length else 0 := by
  obtain ⟨now,changed,checklist,hrefresh,hm,rfl,hpass⟩ := handleEvents_spec hs h
  have hsame : ∀ q ∈ checklist, q.addr = r.addr → q = r := fun q hq =>
    hs.rule_ext ((hs.mem_checklist_iff hrefresh hm).mp hq).1 hr
  rw [effectsOf, timesUndone_append, count_map_filter hsame, hs.count_checklist hrefresh hm hr]
  simp [hpass.trueAfter_iff hr]

/-- A rule that switches has a condition that changed, if its flag is what its conditions say. -/
lemma changedOn_ne_nil (hactive : s.isActive r.addr = evaluateRule s.isTrue r)
    (hswitch : r.Switches s host e) : changedOn s host e r ≠ [] := by
  -- some condition is not found as it is marked, and only those on the event are looked at
  have hex : ∃ c ∈ r.conditions, c.updated s host e ≠ .ok (s.isTrue c.addr) := by
    by_contra hno
    push Not at hno
    apply hswitch
    rw [hactive, evaluateRule_eq_true_iff]
    refine forall₂_congr fun c hc => ?_
    rw [hno c hc, Except.ok.injEq]
  obtain ⟨c,hc,hne⟩ := hex
  apply List.ne_nil_of_mem
  refine List.mem_filter.mpr ⟨hc,?_⟩
  unfold Condition.updated at hne
  split_ifs at hne with he
  · simpa [he] using hne
  · exact absurd rfl hne

end Changed

section ActsOnce
variable {ε : Type} [DecidableEq ε] {reg : Registry ε} {s s' : Engine ε} {host : Host} {e : ε}
  {effects : List (Effect ε)}

/-- Every rule that begins with the event executes its actions once and every rule that ends its undos,
no rule does anything else, and all undos come before all actions. -/
structure ActsOnce (s : Engine ε) (host : Host) (e : ε) (effects : List (Effect ε)) : Prop where
  actions : ∀ r ∈ s.rules, timesActed effects r =
    if s.isActive r.addr = false ∧ r.TrueAfter s host e then 1 else 0
  undos : ∀ r ∈ s.rules, timesUndone effects r =
    if s.isActive r.addr = true ∧ ¬ r.TrueAfter s host e then 1 else 0
  ordered : ∃ undone acted : List (Rule ε), effects = undone.map .undos ++ acted.map .actions

/-- In every run, a call of `handle_events` makes each rule act once exactly when no rule that begins or
ends with the event has more than one condition that changes. -/
theorem acts_once_iff {value : ε → Value} {vars : VarStore} {commands : List (Command ε)}
    (hrun : perform (obey reg) (Engine.start value vars) commands = .ok s) {v : Value}
    (hstep : handleEvents reg host (s.given (.event e v host)) e = .ok (s', effects)) :
    ActsOnce (s.given (.event e v host)) host e effects ↔
      ∀ r ∈ s.rules, r.Switches (s.given (.event e v host)) host e →
        (changedOn (s.given (.event e v host)) host e r).length ≤ 1 := by
  have hs := commands_quiescent hrun
  have hl := hs.linked.given (.event e v host)
  have hpos : ∀ r ∈ s.rules, r.Switches (s.given (.event e v host)) host e →
      0 < (changedOn (s.given (.event e v host)) host e r).length := fun r hr hswitch =>
    List.length_pos_iff.mpr (changedOn_ne_nil (hs.active r hr) hswitch)
  constructor
  · intro h r hr hswitch
    have hacted := (hl.timesActed_eq hstep hr).symm.trans (h.actions r hr)
    have hundone := (hl.timesUndone_eq hstep hr).symm.trans (h.undos r hr)
    cases hactive : (s.given (.event e v host)).isActive r.addr with
    | false =>
      have htrue : r.TrueAfter (s.given (.event e v host)) host e := by
        by_contra hno
        exact hswitch (by simp [hactive, hno])
      rw [if_pos ⟨hactive,htrue⟩, if_pos ⟨hactive,htrue⟩] at hacted
      exact hacted.le
    | true =>
      have hfalse : ¬ r.TrueAfter (s.given (.event e v host)) host e := fun htrue =>
        hswitch (by simp [hactive, htrue])
      rw [if_pos ⟨hactive,hfalse⟩, if_pos ⟨hactive,hfalse⟩] at hundone
      exact hundone.le
  · intro h
    have hone : ∀ r ∈ s.rules, r.Switches (s.given (.event e v host)) host e →
        (changedOn (s.given (.event e v host)) host e r).length = 1 := fun r hr hswitch =>
      Nat.le_antisymm (h r hr hswitch) (hpos r hr hswitch)
    refine ⟨fun r hr => ?_,fun r hr => ?_,?_⟩
    · rw [hl.timesActed_eq hstep hr]
      split_ifs with hc
      · exact hone r hr fun hiff => by simp [hc.1, hc.2] at hiff
      · rfl
    · rw [hl.timesUndone_eq hstep hr]
      split_ifs with hc
      · exact hone r hr fun hiff => hc.2 (hiff.mp hc.1)
      · rfl
    · obtain ⟨now,changed,checklist,-,-,rfl,-⟩ := handleEvents_spec hl hstep
      exact ⟨_,_,rfl⟩

end ActsOnce

/-- A check that the value of the event has come to a level. -/
def valueAtLeast (n : ℤ) (_ : Host) (_ : VarStore) (value : Value) (_ : List Arg) : Outcome Bool := do
  return n ≤ (← value.i)

/-- A registry of one event and two levels. -/
def levelRegistry : Registry Unit where
  parseArg _ := none
  events := [()]
  isStateless _ := false
  resetValue _ := .word 0
  conditionTypes := [⟨"whileLow",valueAtLeast 1,"n",()⟩, ⟨"whileHigh",valueAtLeast 2,"n",()⟩]
  actionTypes := [⟨"doNothing","n"⟩]
  mem_events _ := List.mem_singleton_self _
  check_stateful := by simp [valueAtLeast]

def levelRule : ParsedRule where
  name := "level"
  conditions := [{ name := "whileLow", args := [] }, { name := "whileHigh", args := [] }]
  actions := [{ name := "doNothing", args := [] }]
  undos := []

/-- The level rises. -/
def levelEvent (n : ℤ) : Input Unit := .event () (.word n) bareHost

/-- The first level has been there when the second one comes: of the two conditions on the event one changes. -/
theorem acts_once_iff_level :
    ∃ s s' r effects, perform (obey levelRegistry) (Engine.start levelRegistry.resetValue ⟨[],fun _ => none⟩)
        [.input (.load levelRule), .input (levelEvent 1)] = .ok s ∧
      handleEvents levelRegistry bareHost (s.given (levelEvent 2)) () = .ok (s', effects) ∧
      r ∈ s.rules ∧ r.conditions.length = 2 ∧ (changedOn (s.given (levelEvent 2)) bareHost () r).length = 1 ∧
      timesActed effects r = 1 ∧ ActsOnce (s.given (levelEvent 2)) bareHost () effects := by
  have hrun : perform (obey levelRegistry) (Engine.start levelRegistry.resetValue ⟨[],fun _ => none⟩)
      [.input (.load levelRule), .input (levelEvent 1)] = .ok _ := rfl
  refine ⟨_,_,_,_,hrun,rfl,.head _,rfl,rfl,rfl,(acts_once_iff hrun rfl).mpr ?_⟩
  intro r hr _
  obtain rfl := List.mem_singleton.mp hr
  decide

/-- A rule that asks twice for a closed lid. -/
def twiceRule : ParsedRule where
  name := "twice"
  conditions := [{ name := "whileLidClosed", args := [] }, { name := "whileLidClosed", args := [] }]
  actions := [{ name := "doNothing", args := [] }]
  undos := []

/-- When the lid is closed, its actions are executed twice. -/
theorem twice_rule_acts_twice :
    ∃ s s' r effects, perform (obey bareRegistry) bareEngine [.input (.load twiceRule)] = .ok s ∧
      handleEvents bareRegistry bareHost (s.given closeLid) .lid = .ok (s', effects) ∧
      r ∈ s.rules ∧ timesActed effects r = 2 ∧ ¬ ActsOnce (s.given closeLid) bareHost .lid effects := by
  refine ⟨_,_,_,_,rfl,rfl,.head _,rfl,?_⟩
  intro h
  have htwo := h.actions _ (.head _)
  revert htwo
  decide

end Xctools.Xcpmd
