import Xctools.Xcpmd.Inversion

/-! The rule store over its whole life. Rules come in through `apply_rule` and leave through
`delete_rule`; a reload deletes all of them and applies those of the new policy. Whatever the order,
the rules, their conditions and the listener lists stay in step, and between two steps the engine is
quiescent. -/
namespace Xctools.Xcpmd
open Machine

/-- `lookup_rule`. -/
def lookupRule {ε : Type} (s : Engine ε) (id : String) : Option (Rule ε) :=
  s.rules.find? fun r => r.id = id

/-- The engine without one of its rules. -/
def Engine.without {ε : Type} (s : Engine ε) (r : Rule ε) (vars : VarStore) : Engine ε :=
  { s with
    rules := s.rules.filter fun q => q.addr ≠ r.addr
    listeners e := (s.listeners e).filter fun d => d.rule ≠ r.addr
    vars }

lemma mem_rules_without {ε : Type} {s : Engine ε} {r q : Rule ε} {vars : VarStore}
    (h : q ∈ (s.without r vars).rules) : q ∈ s.rules ∧ q.addr ≠ r.addr := by
  simpa using List.mem_filter.mp h

/-- When keys are distinct, taking out the first entry of a key takes out all of them. -/
lemma eraseP_eq_filter {α : Type} {f : α → ℕ} {l : List α} (h : (l.map f).Nodup) (a : ℕ) :
    l.eraseP (fun x => f x = a) = l.filter fun x => f x ≠ a := by
  induction l with
  | nil => rfl
  | cons x l ih =>
    rw [List.map_cons, List.nodup_cons] at h
    by_cases hx : f x = a
    · have hout : ∀ y ∈ l, decide (f y ≠ a) = true := fun y hy => by
        have hne : f y ≠ a := fun he => h.1 (List.mem_map.mpr ⟨y,hy,he.trans hx.symm⟩)
        simpa using hne
      rw [List.eraseP_cons_of_pos (by simpa using hx), List.filter_cons_of_neg (by simpa using hx),
        List.filter_eq_self.mpr hout]
    · rw [List.eraseP_cons_of_neg (by simpa using hx), List.filter_cons_of_pos (by simpa using hx),
        ih h.2]

section Delete
variable {ε : Type} [DecidableEq ε] (reg : Registry ε)

/-- `delete_rules`. -/
def deleteRules (s : Engine ε) : Outcome (Engine ε) := s.rules.foldlM (deleteRule reg) s

/-- Taking the conditions of a rule out of the listener lists, wherever they stand. -/
lemma foldl_deleteConditionFromListeners_filter {l : List (Condition ε)} {t : Engine ε}
    (hnodup : ∀ e, ((t.listeners e).map Condition.addr).Nodup)
    (hevent : ∀ c ∈ l, ∀ e, e ≠ c.type.event → ∀ d ∈ t.listeners e, d.addr ≠ c.addr) :
    l.foldl deleteConditionFromListeners t =
      { t with listeners := fun e => (t.listeners e).filter fun d => ∀ c ∈ l, d.addr ≠ c.addr } := by
  induction l generalizing t with
  | nil => simp
  | cons c l ih =>
    have hlisten : ∀ e, (deleteConditionFromListeners t c).listeners e =
        (t.listeners e).filter fun d => d.addr ≠ c.addr := by
      intro e
      by_cases he : e = c.type.event
      · subst he
        exact (Function.update_self _ _ _).trans (eraseP_eq_filter (hnodup _) _)
      · refine (Function.update_of_ne he _ _).trans (List.filter_eq_self.mpr fun d hd => ?_).symm
        simpa using hevent c List.mem_cons_self e he d hd
    have hnodup' : ∀ e, (((deleteConditionFromListeners t c).listeners e).map
        Condition.addr).Nodup := by
      intro e
      rw [hlisten]
      exact (hnodup e).sublist (List.filter_sublist.map _)
    rw [List.foldl_cons, ih hnodup']
    · simp only [deleteConditionFromListeners] at hlisten ⊢
      congr 1
      funext e
      rw [hlisten, List.filter_filter]
      refine List.filter_congr fun d _ => ?_
      simp [Bool.and_comm]
    · intro c' hc' e he d hd
      rw [hlisten] at hd
      exact hevent c' (.tail _ hc') e he d (List.mem_filter.mp hd).1

variable {reg} {s s' : Engine ε} {r : Rule ε}

/-- A listener is a condition of the rule it points back to. -/
lemma Linked.mem_conditions_iff_rule (hs : Linked reg s) (hr : r ∈ s.rules) {d : Condition ε}
    (hd : d ∈ s.conditions) : d ∈ r.conditions ↔ d.rule = r.addr := by
  obtain ⟨q,hq,hdq,hqa⟩ := hs.exists_rule hd
  constructor
  · exact fun h => hs.backPointer r hr d h
  · intro h
    rwa [← hs.rule_ext hq hr (hqa.symm.trans h)]

/-- Deleting a loaded rule releases its variables and leaves the engine without it. -/
theorem Linked.deleteRule_eq (hs : Linked reg s) (hr : r ∈ s.rules) :
    deleteRule reg s r =
      r.varNames.foldlM (changeRef reg.parseArg (-1)) s.vars >>= fun vars => .ok (s.without r vars) := by
  have hvars : releaseVars reg s r = r.varNames.foldlM (changeRef reg.parseArg (-1)) s.vars :=
    if_pos ⟨r,hr,rfl⟩
  unfold deleteRule
  rw [hvars]
  congr 1
  funext vars
  rw [pure_eq_ok, foldl_deleteConditionFromListeners_filter]
  · simp only [Engine.without, eraseP_eq_filter hs.ruleAddrs]
    congr 2
    funext e
    refine List.filter_congr fun d hd => ?_
    have hd' := (hs.mem_listeners_iff.mp hd).1
    rw [decide_eq_decide, ← not_iff_not, ne_eq, not_not, ← hs.mem_conditions_iff_rule hr hd']
    constructor
    · intro h
      obtain ⟨c,hc,he⟩ : ∃ c ∈ r.conditions, d.addr = c.addr := by simpa using h
      rwa [hs.condition_ext hd' (mem_conditions hr hc) he]
    · exact fun h hall => hall d h rfl
  · exact hs.listeners_nodup
  · intro c hc e he
    exact hs.listener_addr_ne (mem_conditions hr hc) (Ne.symm he)

/-- The conditions that are left are those of the other rules. -/
lemma Linked.conditions_without (hs : Linked reg s) (r : Rule ε) (vars : VarStore) :
    (s.without r vars).conditions = s.conditions.filter fun d => d.rule ≠ r.addr :=
  (filter_conditions hs.backPointer fun a => a ≠ r.addr).symm

lemma Linked.mem_conditions_without (hs : Linked reg s) {vars : VarStore} {c : Condition ε}
    (hc : c ∈ (s.without r vars).conditions) : c ∈ s.conditions := by
  rw [hs.conditions_without] at hc
  exact List.mem_of_mem_filter hc

lemma Linked.without (hs : Linked reg s) (r : Rule ε) (vars : VarStore) :
    Linked reg (s.without r vars) where
  ruleAddrs := hs.ruleAddrs.sublist (List.filter_sublist.map _)
  conditionAddrs := by
    rw [hs.conditions_without]
    exact hs.conditionAddrs.sublist (List.filter_sublist.map _)
  ruleAddr_lt q hq := hs.ruleAddr_lt q (mem_rules_without hq).1
  conditionAddr_lt c hc := hs.conditionAddr_lt c (hs.mem_conditions_without hc)
  listeners e := by
    rw [hs.conditions_without, listening, List.filter_comm]
    exact congrArg _ (hs.listeners e)
  backPointer q hq := hs.backPointer q (mem_rules_without hq).1
  registered c hc := hs.registered c (hs.mem_conditions_without hc)
  conditions_ne_nil q hq := hs.conditions_ne_nil q (mem_rules_without hq).1

lemma Quiescent.without (hs : Quiescent reg s) (r : Rule ε) (vars : VarStore) :
    Quiescent reg (s.without r vars) where
  linked := hs.linked.without r vars
  active q hq := hs.active q (mem_rules_without hq).1
  standing c hc hmark := by
    have hc' := hs.linked.mem_conditions_without hc
    obtain ⟨hst,hcheck⟩ := hs.standing c hc' hmark
    have hvalue : (s.without r vars).value c.type.event = s.value c.type.event := rfl
    exact ⟨hst,fun host => (hs.linked.check_eq hc' hst hvalue host host).trans (hcheck host)⟩

/-- What deleting one rule preserves, deleting all of them preserves, and no rule is left. -/
theorem deleteRules_invariant {P : Engine ε → Prop} (hlinked : ∀ t, P t → Linked reg t)
    (hstep : ∀ t q vars, P t → q ∈ t.rules →
      q.varNames.foldlM (changeRef reg.parseArg (-1)) t.vars = .ok vars → P (t.without q vars))
    (hs : P s) (h : deleteRules reg s = .ok s') : P s' ∧ s'.rules = [] := by
  have hloop : ∀ (l : List (Rule ε)) (t : Engine ε), P t → (∀ q ∈ l, q ∈ t.rules) →
      (l.map Rule.addr).Nodup → l.foldlM (deleteRule reg) t = .ok s' →
      P s' ∧ ∀ q ∈ s'.rules, q ∈ t.rules ∧ q ∉ l := by
    intro l
    induction l with
    | nil =>
      rintro t ht - - h
      obtain rfl := Except.ok.inj h
      exact ⟨ht,fun q hq => ⟨hq,List.not_mem_nil⟩⟩
    | cons r l ih =>
      intro t ht hl hnodup h
      obtain ⟨hr,hl⟩ := List.forall_mem_cons.mp hl
      rw [List.map_cons, List.nodup_cons] at hnodup
      rw [List.foldlM_cons, (hlinked t ht).deleteRule_eq hr] at h
      obtain ⟨t',ht',h⟩ := bind_eq_ok.mp h
      obtain ⟨vars,hvars,ht'⟩ := bind_eq_ok.mp ht'
      obtain rfl := Except.ok.inj ht'
      -- the rules still to be deleted are other rules than this one
      have hrest : ∀ q ∈ l, q ∈ (t.without r vars).rules := by
        intro q hq
        have hne : q.addr ≠ r.addr := fun he => hnodup.1 (List.mem_map.mpr ⟨q,hq,he⟩)
        exact List.mem_filter.mpr ⟨hl q hq,by simpa using hne⟩
      obtain ⟨hP,hleft⟩ := ih _ (hstep t r vars ht hr hvars) hrest hnodup.2 h
      refine ⟨hP,fun q hq => ?_⟩
      obtain ⟨hq',hql⟩ := hleft q hq
      obtain ⟨hqt,hne⟩ := mem_rules_without hq'
      refine ⟨hqt,fun hmem => ?_⟩
      rcases List.mem_cons.mp hmem with rfl | hmem
      · exact hne rfl
      · exact hql hmem
  obtain ⟨hP,hleft⟩ := hloop s.rules s hs (fun _ hq => hq) (hlinked s hs).ruleAddrs h
  refine ⟨hP,List.eq_nil_iff_forall_not_mem.mpr fun q hq => ?_⟩
  exact (hleft q hq).2 (hleft q hq).1

end Delete

section Command
variable {ε : Type} [DecidableEq ε] (reg : Registry ε)

/-- `delete_rule` on the rule of a name, if there is one. -/
def removeRule (s : Engine ε) (id : String) : Outcome (Engine ε) :=
  match lookupRule s id with
  | none => .ok s
  | some r => deleteRule reg s r

/-- `apply_rule` on one rule after the other, whatever becomes of each. -/
def applyRules (s : Engine ε) (policy : List ParsedRule) : Outcome (Engine ε) :=
  perform (fun t parsed => do return (← applyRule reg t parsed).1) s policy

/-- What the daemon asks of the engine: an input, the deletion of a rule or of all rules, or another
policy in place of the loaded one. -/
inductive Command (ε : Type)
  | input (i : Input ε)
  | deleteRule (id : String)
  | deleteRules
  | reload (policy : List ParsedRule)

/-- One command: the engine afterwards and what was set off. -/
def commandStep (s : Engine ε) (c : Command ε) : Outcome (Engine ε × List (Effect ε)) :=
  match c with
  | .input i => engineStep reg s i
  | .deleteRule id => do return (← removeRule reg s id, [])
  | .deleteRules => do return (← deleteRules reg s, [])
  | .reload policy => do return (← applyRules reg (← deleteRules reg s) policy, [])

/-- The engine after one command. -/
def obey (s : Engine ε) (c : Command ε) : Outcome (Engine ε) :=
  (commandStep reg s c).map Prod.fst

variable {reg} {s s' : Engine ε}

lemma obey_eq_ok {c : Command ε} :
    obey reg s c = .ok s' ↔ ∃ effects, commandStep reg s c = .ok (s', effects) := by
  unfold obey
  cases commandStep reg s c with
  | error e => simp [Except.map]
  | ok r => simp [Except.map, Prod.ext_iff]

/-- Removing a rule by its name leaves everything as it is, or the engine without that rule. -/
lemma removeRule_cases (hs : Linked reg s) {id : String} (h : removeRule reg s id = .ok s') :
    s' = s ∨ ∃ r ∈ s.rules, r.id = id ∧ ∃ vars,
      r.varNames.foldlM (changeRef reg.parseArg (-1)) s.vars = .ok vars ∧ s' = s.without r vars := by
  unfold removeRule at h
  cases hid : lookupRule s id with
  | none =>
    rw [hid] at h
    exact .inl (Except.ok.inj h).symm
  | some r =>
    have hr : r ∈ s.rules := List.mem_of_find?_eq_some hid
    simp only [hid, hs.deleteRule_eq hr] at h
    obtain ⟨vars,hvars,h⟩ := bind_eq_ok.mp h
    exact .inr ⟨r,hr,by simpa using List.find?_some hid,vars,hvars,(Except.ok.inj h).symm⟩

/-- What one input and the deletion of one rule preserve, every command preserves. -/
theorem obey_invariant {P : Engine ε → Prop} (hlinked : ∀ t, P t → Linked reg t)
    (hinput : ∀ t i t' effects, P t → engineStep reg t i = .ok (t', effects) → P t')
    (hdelete : ∀ t q vars, P t → q ∈ t.rules →
      q.varNames.foldlM (changeRef reg.parseArg (-1)) t.vars = .ok vars → P (t.without q vars))
    {c : Command ε} (hs : P s) (h : obey reg s c = .ok s') : P s' := by
  obtain ⟨effects,h⟩ := obey_eq_ok.mp h
  cases c with
  | input i => exact hinput s i s' effects hs h
  | deleteRule id =>
    obtain ⟨t,ht,h⟩ := bind_eq_ok.mp h
    obtain ⟨rfl,-⟩ := Prod.mk.inj (Except.ok.inj h)
    rcases removeRule_cases (hlinked s hs) ht with rfl | ⟨r,hr,-,vars,hvars,rfl⟩
    · exact hs
    · exact hdelete s r vars hs hr hvars
  | deleteRules =>
    obtain ⟨t,ht,h⟩ := bind_eq_ok.mp h
    obtain ⟨rfl,-⟩ := Prod.mk.inj (Except.ok.inj h)
    exact (deleteRules_invariant hlinked hdelete hs ht).1
  | reload policy =>
    obtain ⟨t,ht,h⟩ := bind_eq_ok.mp h
    obtain ⟨u,hu,h⟩ := bind_eq_ok.mp h
    obtain ⟨rfl,-⟩ := Prod.mk.inj (Except.ok.inj h)
    have hempty := (deleteRules_invariant hlinked hdelete hs ht).1
    refine perform_invariant (fun t parsed t' hP hstep => ?_) hempty hu
    obtain ⟨r,hr,hstep⟩ := bind_eq_ok.mp hstep
    obtain rfl := Except.ok.inj hstep
    refine hinput t (.load parsed) r.1 [] hP ?_
    rw [engineStep, hr]
    rfl

/-- In every run of commands the engine is quiescent between two of them. -/
theorem commands_quiescent {value : ε → Value} {vars : VarStore} {commands : List (Command ε)}
    (h : perform (obey reg) (Engine.start value vars) commands = .ok s) : Quiescent reg s :=
  perform_invariant (fun _ _ _ ht hstep => obey_invariant (fun _ => Quiescent.linked)
    (fun _ _ _ _ hu hi => hu.step hi) (fun _ q vars hu _ _ => hu.without q vars) ht hstep)
    (quiescent_start value vars) h

end Command

section Filed
variable {ε : Type} [DecidableEq ε] {reg : Registry ε} {s s' : Engine ε}

/-- A consistent store whose rules have names of their own and something to do. -/
structure Filed (reg : Registry ε) (s : Engine ε) : Prop where
  linked : Linked reg s
  ids : (s.rules.map Rule.id).Nodup
  id_ne_empty : ∀ r ∈ s.rules, r.id ≠ ""
  calls : ∀ r ∈ s.rules, r.actions ≠ [] ∨ r.undos ≠ []

lemma filed_start (value : ε → Value) (vars : VarStore) : Filed reg (Engine.start value vars) where
  linked := linked_start value vars
  ids := List.nodup_nil
  id_ne_empty := by simp [Engine.start]
  calls := by simp [Engine.start]

lemma Filed.congr (hs : Filed reg s) (hlinked : Linked reg s') (hrules : s'.rules = s.rules) :
    Filed reg s' where
  linked := hlinked
  ids := hrules ▸ hs.ids
  id_ne_empty := hrules ▸ hs.id_ne_empty
  calls := hrules ▸ hs.calls

lemma Filed.without (hs : Filed reg s) (r : Rule ε) (vars : VarStore) :
    Filed reg (s.without r vars) where
  linked := hs.linked.without r vars
  ids := hs.ids.sublist (List.filter_sublist.map _)
  id_ne_empty q hq := hs.id_ne_empty q (mem_rules_without hq).1
  calls q hq := hs.calls q (mem_rules_without hq).1

lemma Filed.load (hs : Filed reg s) {parsed : ParsedRule} {code : ℕ} {err : String}
    (h : applyRule reg s parsed = .ok (s', code, err)) : Filed reg s' := by
  have hb : Built reg s (buildRule reg s parsed) := built_buildRule s parsed
  rcases applyRule_spec hs.linked h with ⟨text,vars,vars',hv,-,rfl,-⟩ | ⟨ruleErr,text,vars,-,-,rfl,-⟩
  · obtain ⟨hid,hname,hconds,hcalls,-⟩ := validateRule_eq_valid hv
    rw [hb.rules] at hname
    have hrules : (loadedWith (buildRule reg s parsed) vars').rules =
        s.rules ++ [(buildRule reg s parsed).rule] := by rw [loadedWith, hb.rules]
    refine ⟨hb.linked_loadedWith hs.linked hconds vars',?_,?_,?_⟩
    · rw [hrules, List.map_append, List.nodup_append]
      refine ⟨hs.ids,List.nodup_singleton _,?_⟩
      intro a ha b hb'
      obtain ⟨q,hq,rfl⟩ := List.mem_map.mp ha
      rw [List.map_singleton, List.mem_singleton] at hb'
      rw [hb']
      exact hname q hq
    · rw [hrules, List.forall_mem_append, List.forall_mem_singleton]
      exact ⟨hs.id_ne_empty,hid⟩
    · rw [hrules, List.forall_mem_append, List.forall_mem_singleton]
      exact ⟨hs.calls,not_and_or.mp hcalls⟩
  · exact hs.congr (hb.linked_rejectedWith hs.linked vars) hb.rules

lemma Filed.step (hs : Filed reg s) {i : Input ε} {effects : List (Effect ε)}
    (h : engineStep reg s i = .ok (s', effects)) : Filed reg s' := by
  cases i with
  | load parsed =>
    obtain ⟨⟨t,code,err⟩,ht,h⟩ := bind_eq_ok.mp h
    obtain ⟨rfl,-⟩ := Prod.mk.inj (Except.ok.inj h)
    exact hs.load ht
  | event e value host =>
    obtain ⟨now,hpass⟩ := handleEvents_pass (hs.linked.given _) h
    exact hs.congr (hs.linked.congr hpass.rules hpass.listeners hpass.next) hpass.rules
  | evaluate host =>
    have heval := evaluatePolicy_evaluated hs.linked h
    exact hs.congr (hs.linked.congr heval.rules heval.listeners heval.next) heval.rules

lemma commands_filed {value : ε → Value} {vars : VarStore} {commands : List (Command ε)}
    (h : perform (obey reg) (Engine.start value vars) commands = .ok s) : Filed reg s :=
  perform_invariant (fun _ _ _ ht hstep => obey_invariant (fun _ => Filed.linked)
    (fun _ _ _ _ hu hi => hu.step hi) (fun _ q vars hu _ _ => hu.without q vars) ht hstep)
    (filed_start value vars) h

/-- In every run, the rules have distinct names that are not empty, at least one condition and
something to do; each of their conditions stands once in the listener list of its event and in no other
list, and whatever stands in such a list is a condition of the loaded rule it points back to. -/
theorem store_consistent {value : ε → Value} {vars : VarStore} {commands : List (Command ε)}
    (h : perform (obey reg) (Engine.start value vars) commands = .ok s) :
    (s.rules.map Rule.id).Nodup ∧
    (∀ r ∈ s.rules, r.id ≠ "" ∧ r.conditions ≠ [] ∧ (r.actions ≠ [] ∨ r.undos ≠ [])) ∧
    (∀ r ∈ s.rules, ∀ c ∈ r.conditions, c ∈ s.listeners c.type.event ∧
      ∀ e, ((s.listeners e).map Condition.addr).count c.addr = if e = c.type.event then 1 else 0) ∧
    (∀ e, ∀ c ∈ s.listeners e, ∃ r ∈ s.rules, c ∈ r.conditions ∧ c.rule = r.addr) := by
  have hs := commands_filed h
  have hl := hs.linked
  refine ⟨hs.ids,?_,?_,?_⟩
  · intro r hr
    exact ⟨hs.id_ne_empty r hr,hl.conditions_ne_nil r hr,hs.calls r hr⟩
  · intro r hr c hc
    have hmem : c ∈ s.listeners c.type.event := hl.mem_listeners_iff.mpr ⟨mem_conditions hr hc,rfl⟩
    refine ⟨hmem,fun e => ?_⟩
    split_ifs with he
    · subst he
      exact List.count_eq_one_of_mem (hl.listeners_nodup _) (List.mem_map_of_mem hmem)
    · apply List.count_eq_zero_of_not_mem
      intro hin
      obtain ⟨d,hd,ha⟩ := List.mem_map.mp hin
      exact hl.listener_addr_ne (mem_conditions hr hc) (Ne.symm he) d hd ha
  · intro e c hc
    exact hl.exists_rule (hl.mem_listeners_iff.mp hc).1

end Filed

/-- A rule is deleted, and the policy is loaded again after that: its one condition is registered. -/
theorem store_consistent_reload :
    ∃ s r, perform (obey bareRegistry) bareEngine [.input (.load (lidRule true)), .deleteRule "lid",
        .reload [lidRule true]] = .ok s ∧ s.rules = [r] ∧ r.id ≠ "" ∧
      ∀ c ∈ r.conditions, c ∈ s.listeners c.type.event := by
  have hrun : perform (obey bareRegistry) bareEngine [.input (.load (lidRule true)),
      .deleteRule "lid", .reload [lidRule true]] = .ok _ := rfl
  have h := store_consistent hrun
  exact ⟨_,_,hrun,rfl,(h.2.1 _ (.head _)).1,fun c hc => (h.2.2.1 _ (.head _) c hc).1⟩

section Between
variable {ε : Type} [DecidableEq ε] {reg : Registry ε} {s s' : Engine ε} {effects : List (Effect ε)}

/-- What `handle_events` finds for a condition: its check if it listens to the event, its mark if it
does not. -/
def Condition.updated (c : Condition ε) (s : Engine ε) (host : Host) (e : ε) : Outcome Bool :=
  if c.type.event = e then c.check s host e else .ok (s.isTrue c.addr)

/-- All conditions of a rule are true once those on the event are updated. -/
def Rule.TrueAfter (r : Rule ε) (s : Engine ε) (host : Host) (e : ε) : Prop :=
  ∀ c ∈ r.conditions, c.updated s host e = .ok true

section Pass
variable {host : Host} {e : ε} {now : ℕ → Bool} {r : Rule ε}

lemma Pass.updated_eq (h : Pass reg host s e now s' effects) {c : Condition ε}
    (hc : c ∈ s.conditions) : c.updated s host e = .ok (now c.addr) := by
  unfold Condition.updated
  split_ifs with he
  · subst he
    exact h.checked c hc rfl
  · rw [h.kept c hc he]

lemma Pass.trueAfter_iff (h : Pass reg host s e now s' effects) (hr : r ∈ s.rules) :
    r.TrueAfter s host e ↔ evaluateRule now r = true := by
  rw [evaluateRule_eq_true_iff]
  refine forall₂_congr fun c hc => ?_
  rw [h.updated_eq (mem_conditions hr hc), Except.ok.injEq]

end Pass

/-- Between two steps no condition on a stateless event is marked. -/
lemma Quiescent.isTrue_stateless (hs : Quiescent reg s) {c : Condition ε} (hc : c ∈ s.conditions)
    (hst : reg.isStateless c.type.event = true) : s.isTrue c.addr = false := by
  rw [Bool.eq_false_iff]
  intro hmark
  have hst' := (hs.standing c hc hmark).1
  rw [hst] at hst'
  cases hst'

/-- A rule with a condition on a stateless event is not active between two steps. -/
lemma Quiescent.isActive_stateless (hs : Quiescent reg s) {r : Rule ε} (hr : r ∈ s.rules)
    {c : Condition ε} (hc : c ∈ r.conditions) (hst : reg.isStateless c.type.event = true) :
    s.isActive r.addr = false := by
  rw [Bool.eq_false_iff]
  intro hactive
  have hmark := (hs.active_iff hr).mp hactive c hc
  rw [hs.isTrue_stateless (mem_conditions hr hc) hst] at hmark
  cases hmark

/-- A stateless event sets off every rule it makes true, however often it came before. -/
lemma Quiescent.stateless_acts (hs : Quiescent reg s) {e : ε} {value : Value} {host : Host}
    (hst : reg.isStateless e = true)
    (h : engineStep reg s (.event e value host) = .ok (s', effects)) {r : Rule ε} (hr : r ∈ s.rules)
    {c : Condition ε} (hc : c ∈ r.conditions) (he : c.type.event = e)
    (htrue : r.TrueAfter (s.given (.event e value host)) host e) : .actions r ∈ effects := by
  obtain ⟨now,hpass⟩ := handleEvents_pass (hs.linked.given _) h
  have hnow := (hpass.trueAfter_iff hr).mp htrue
  have hst' : reg.isStateless c.type.event = true := he ▸ hst
  have hmark := hs.isTrue_stateless (mem_conditions hr hc) hst'
  refine (hpass.actions r).mpr ⟨⟨hr,c,hc,?_⟩,hnow,hs.isActive_stateless hr hc hst'⟩
  rw [evaluateRule_eq_true_iff.mp hnow c hc]
  exact fun h => absurd (hmark.symm.trans h) (by decide)

/-- Whatever is done, a stateless event at its reset value stays there. -/
lemma obey_resetValue {e : ε} (hst : reg.isStateless e = true) {c : Command ε}
    (hs : Quiescent reg s ∧ s.value e = reg.resetValue e) (h : obey reg s c = .ok s') :
    Quiescent reg s' ∧ s'.value e = reg.resetValue e := by
  refine obey_invariant (P := fun u => Quiescent reg u ∧ u.value e = reg.resetValue e)
    (fun _ ht => ht.1.linked) (fun t i t' effects ht hi => ?_)
    (fun t q vars ht _ _ => ⟨ht.1.without q vars,ht.2⟩) hs h
  refine ⟨ht.1.step hi,?_⟩
  cases i with
  | load parsed =>
    obtain ⟨⟨u,code,err⟩,hu,hi⟩ := bind_eq_ok.mp hi
    obtain ⟨rfl,-⟩ := Prod.mk.inj (Except.ok.inj hi)
    obtain ⟨b,vars,hb,⟨-,rfl⟩ | rfl⟩ := applyRule_cases ht.1.linked hu
    · exact (congrFun hb.value e).trans ht.2
    · exact (congrFun hb.value e).trans ht.2
  | event d value host =>
    obtain ⟨now,hpass⟩ := handleEvents_pass (ht.1.linked.given _) hi
    by_cases hd : e = d
    · subst hd
      rw [(hpass.stateless hst).1, Function.update_self]
    · rw [hpass.value_of_ne hd]
      exact ht.2
  | evaluate host =>
    rw [(evaluatePolicy_evaluated ht.1.linked hi).value]
    exact ht.2

/-- A stateless event that was handled holds its reset value from then on. -/
theorem handled_resetValue {value : ε → Value} {vars : VarStore} {commands : List (Command ε)}
    (h : perform (obey reg) (Engine.start value vars) commands = .ok s) {e : ε}
    (hst : reg.isStateless e = true) {v : Value} {host : Host}
    (he : .input (.event e v host) ∈ commands) : s.value e = reg.resetValue e := by
  obtain ⟨before,after,rfl⟩ := List.append_of_mem he
  rw [perform_append] at h
  obtain ⟨t,hbefore,h⟩ := bind_eq_ok.mp h
  obtain ⟨t',hstep,h⟩ := (perform_cons_eq_ok _).mp h
  have ht := commands_quiescent hbefore
  obtain ⟨_,hstep⟩ := obey_eq_ok.mp hstep
  obtain ⟨now,hpass⟩ := handleEvents_pass (ht.linked.given _) hstep
  have hreset : t'.value e = reg.resetValue e := by
    rw [(hpass.stateless hst).1, Function.update_self]
  have hq : Quiescent reg t' := ht.step (i := .event e v host) hstep
  have hkept := perform_invariant (I := fun u => Quiescent reg u ∧ u.value e = reg.resetValue e)
    (fun _ _ _ hu hc => obey_resetValue hst hu hc) ⟨hq,hreset⟩ h
  exact hkept.2

/-- In every run, between two steps every rule is active exactly when all its conditions are marked
true, no condition on a stateless event is marked, and a stateless event that was handled holds its reset
value. So no rule with such a condition is left active, and a stateless event sets off every rule that
listens to it and that it makes true. -/
theorem engine_at_rest {value : ε → Value} {vars : VarStore} {commands : List (Command ε)}
    (h : perform (obey reg) (Engine.start value vars) commands = .ok s) :
    (∀ r ∈ s.rules, s.isActive r.addr = r.conditions.all fun c => s.isTrue c.addr) ∧
    (∀ r ∈ s.rules, ∀ c ∈ r.conditions, reg.isStateless c.type.event = true →
      s.isTrue c.addr = false ∧ s.isActive r.addr = false) ∧
    (∀ e v host, reg.isStateless e = true → .input (.event e v host) ∈ commands →
      s.value e = reg.resetValue e) ∧
    (∀ e v host s' effects, reg.isStateless e = true →
      commandStep reg s (.input (.event e v host)) = .ok (s', effects) →
      ∀ r ∈ s.rules, (∃ c ∈ r.conditions, c.type.event = e) →
      r.TrueAfter (s.given (.event e v host)) host e → .actions r ∈ effects) := by
  have hs := commands_quiescent h
  refine ⟨hs.active,?_,?_,?_⟩
  · intro r hr c hc hst
    exact ⟨hs.isTrue_stateless (mem_conditions hr hc) hst,hs.isActive_stateless hr hc hst⟩
  · intro e v host hst he
    exact handled_resetValue h hst he
  · rintro e v host s' effects hst hstep r hr ⟨c,hc,he⟩ htrue
    exact hs.stateless_acts hst hstep hr hc he htrue

end Between

/-- A rule on the power button. -/
def buttonRule : ParsedRule where
  name := "button"
  conditions := [{ name := "onPowerBtn", args := [] }]
  actions := [{ name := "doNothing", args := [] }]
  undos := []

/-- The button is pressed. -/
def pressButton : Input EventId := .event .pwrBtn (.word 1) bareHost

/-- The button was pressed: the rule is at rest again, and so is the event. -/
theorem engine_at_rest_button :
    ∃ s r, perform (obey bareRegistry) bareEngine [.input (.load buttonRule), .input pressButton] =
        .ok s ∧ s.rules = [r] ∧ s.value .pwrBtn = .word 0 ∧ s.isActive r.addr = false := by
  have hrun : perform (obey bareRegistry) bareEngine [.input (.load buttonRule),
      .input pressButton] = .ok _ := rfl
  obtain ⟨-,hfalse,hreset,-⟩ := engine_at_rest hrun
  exact ⟨_,_,hrun,rfl,hreset .pwrBtn _ _ rfl (.tail _ (.head _)),
    (hfalse _ (.head _) _ (.head _) rfl).2⟩

end Xctools.Xcpmd
