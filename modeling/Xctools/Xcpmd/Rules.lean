import Mathlib.Logic.Function.Basic
import Xctools.Xcpmd.Vars

/-! The rule store of `rules.c` and the part of `parser.c` that fills it. The registry holds what the
modules registered at start-up; the engine holds the rules that are loaded, the conditions that
listen to each event, and the fields that change while events come in. -/
namespace Xctools.Xcpmd
open Machine

/-- `union arg_u` as the value of an event: a word, or a string. -/
inductive Value
  | word (i : ℤ)
  | str (s : String)
  deriving DecidableEq, Repr

/-- What the check functions ask the machine for: the charge of a battery and of all of them, whether
a battery is there, and the paths of the VMs. -/
structure Host where
  batteryPercentage : ℤ → ℤ
  overallBatteryPercentage : ℤ
  batteryIsPresent : ℤ → Bool
  vmPathByUuid : String → Option String
  vmPathByName : String → Option String

/-- `struct condition_type`. -/
structure ConditionType (ε : Type) where
  name : String
  check : Host → VarStore → Value → List Arg → Outcome Bool
  prototype : String
  event : ε

/-- `struct action_type`. -/
structure ActionType where
  name : String
  prototype : String
  deriving DecidableEq, Repr

/-- The events, condition types and action types of the modules. A check on a stateful event looks
at the value of the event only. -/
structure Registry (ε : Type) where
  parseArg : String → Option Arg
  events : List ε
  isStateless : ε → Bool
  resetValue : ε → Value
  conditionTypes : List (ConditionType ε)
  actionTypes : List ActionType
  mem_events : ∀ e, e ∈ events
  check_stateful : ∀ type ∈ conditionTypes, isStateless type.event = false →
    ∀ host vars host' vars' value args,
      type.check host vars value args = type.check host' vars' value args

/-- `struct condition`, less the field that changes, at its address. -/
structure Condition (ε : Type) where
  addr : ℕ
  type : ConditionType ε
  rule : ℕ
  isInverted : Bool
  args : List Arg

/-- `struct action`. -/
structure Action where
  type : ActionType
  args : List Arg
  deriving DecidableEq, Repr

/-- `struct rule`, less the field that changes, at its address. -/
structure Rule (ε : Type) where
  addr : ℕ
  id : String
  conditions : List (Condition ε)
  actions : List Action
  undos : List Action

/-- The rules that are loaded, the listeners and the value of every event, the fields `is_true` of the
conditions and `is_active` of the rules by address, the variables, and the next free address. -/
structure Engine (ε : Type) where
  rules : List (Rule ε)
  listeners : ε → List (Condition ε)
  value : ε → Value
  isTrue : ℕ → Bool
  isActive : ℕ → Bool
  vars : VarStore
  next : ℕ

def Engine.withVars {ε : Type} (s : Engine ε) (vars : VarStore) : Engine ε := { s with vars }

/-- `struct fn_arg`. -/
inductive FnArg
  | int (i : ℤ)
  | float (bits : UInt32)
  | str (s : String)
  | bool (b : Bool)
  | var (name : String)
  | undetermined
  deriving DecidableEq, Repr

/-- `conv_fn_arg`. A long is cut to an int. -/
def convFnArg : FnArg → Arg
  | .int i => .int (Int32.ofInt i).toInt
  | .float bits => .float bits
  | .str s => .str s
  | .bool b => .bool b
  | .var name => .var name
  | .undetermined => .none

/-- `struct fn`: `undo` is true unless the item began with an exclamation mark. -/
structure Fn where
  name : String
  args : List FnArg
  undo : Bool := true
  deriving DecidableEq, Repr

/-- A rule as the parser hands it over. -/
structure ParsedRule where
  name : String
  conditions : List Fn
  actions : List Fn
  undos : List Fn
  deriving DecidableEq, Repr

/-! Error codes. -/
def ruleValid : ℕ := 0x001
def noName : ℕ := 0x002
def noConditions : ℕ := 0x003
def noActions : ℕ := 0x004
def nameCollision : ℕ := 0x005
def badProto : ℕ := 0x006
def badCondition : ℕ := 0x010
def badAction : ℕ := 0x020
def badUndo : ℕ := 0x040
def noParseError : ℕ := 0x000
def recoverableError : ℕ := 0x700

section Store
variable {ε : Type} [DecidableEq ε] (reg : Registry ε)

/-- `lookup_condition_type`. -/
def lookupConditionType (type : String) : Option (ConditionType ε) :=
  reg.conditionTypes.find? fun t => t.name = type

/-- `lookup_action_type`. -/
def lookupActionType (type : String) : Option ActionType :=
  reg.actionTypes.find? fun t => t.name = type

/-- The variables a rule names, in the order in which they are counted. -/
def Rule.varNames (r : Rule ε) : List String :=
  r.conditions.flatMap (fun c => Xcpmd.varNames c.args) ++
    r.actions.flatMap (fun a => Xcpmd.varNames a.args) ++
    r.undos.flatMap (fun a => Xcpmd.varNames a.args)

/-- A rule on its way into the store, with what `apply_rule` has to say about it so far. -/
structure Building (ε : Type) where
  engine : Engine ε
  rule : Rule ε
  recoverable : ℕ
  err : String

/-- `new_rule`, at a fresh address and inactive. -/
def newRule (s : Engine ε) (id : String) : Building ε where
  engine := { s with isActive := Function.update s.isActive s.next false, next := s.next + 1 }
  rule := ⟨s.next, id, [], [], []⟩
  recoverable := 0
  err := ""

/-- `new_condition`: a listener of its type's event, not true yet. -/
def newCondition (s : Engine ε) (c : Condition ε) : Engine ε :=
  { s with
    listeners := Function.update s.listeners c.type.event (s.listeners c.type.event ++ [c])
    isTrue := Function.update s.isTrue c.addr false
    next := s.next + 1 }

/-- The first loop of `apply_rule`. -/
def addCondition (b : Building ε) (fn : Fn) : Building ε :=
  match lookupConditionType reg fn.name with
  | none =>
    { b with
      recoverable := b.recoverable ||| badCondition
      err := b.err ++ ("recoverable error: no condition type named " ++ fn.name ++ ".\n") }
  | some type =>
    let condition : Condition ε :=
      { addr := b.engine.next, type, rule := b.rule.addr, isInverted := !fn.undo,
        args := fn.args.map convFnArg }
    { b with
      engine := newCondition b.engine condition
      rule := { b.rule with conditions := b.rule.conditions ++ [condition] } }

/-- The other two loops of `apply_rule`: `bad` is the flag of the loop, and `add` puts the action
where it belongs. -/
def addCall (bad : ℕ) (add : Rule ε → Action → Rule ε) (b : Building ε) (fn : Fn) : Building ε :=
  match lookupActionType reg fn.name with
  | none =>
    { b with
      recoverable := b.recoverable ||| bad
      err := b.err ++ ("recoverable error: no action type named " ++ fn.name ++ ".\n") }
  | some type => { b with rule := add b.rule ⟨type, fn.args.map convFnArg⟩ }

/-- `add_action_to_rule`. -/
def addActionToRule (r : Rule ε) (action : Action) : Rule ε :=
  { r with actions := r.actions ++ [action] }

/-- `add_undo_to_rule`. -/
def addUndoToRule (r : Rule ε) (action : Action) : Rule ε :=
  { r with undos := r.undos ++ [action] }

/-- The rule `apply_rule` puts together, before it is checked. -/
def buildRule (s : Engine ε) (parsed : ParsedRule) : Building ε :=
  let b := parsed.conditions.foldl (addCondition reg) (newRule s parsed.name)
  let b := parsed.actions.foldl (addCall reg badAction addActionToRule) b
  parsed.undos.foldl (addCall reg badUndo addUndoToRule) b

/-- The argument lists of a rule with their prototypes, as `validate_rule` goes through them with
`check_condition` and `check_action`. -/
def Rule.calls (r : Rule ε) : List (String × List Arg × String) :=
  r.conditions.map (fun c => (c.type.prototype, c.args, " for condition " ++ c.type.name)) ++
    (r.actions ++ r.undos).map fun a => (a.type.prototype, a.args, " for action " ++ a.type.name)

/-- `validate_rule`: the code, the text for the message, and the variables afterwards. -/
def validateRule (s : Engine ε) (rule : Rule ε) : ℕ × String × VarStore :=
  if rule.id = "" then (noName, "", s.vars)
  else if ∃ r ∈ s.rules, r.id = rule.id then (nameCollision, "", s.vars)
  else if rule.conditions = [] then (noConditions, "", s.vars)
  else if rule.actions = [] ∧ rule.undos = [] then (noActions, "", s.vars)
  else match checkAll reg.parseArg s.vars rule.calls with
    | (some err, vars) => (badProto, err, vars)
    | (none, vars) => (ruleValid, "", vars)

/-- `add_rule`. -/
def addRule (s : Engine ε) (rule : Rule ε) : Outcome (Engine ε) := do
  let vars ← rule.varNames.foldlM (changeRef reg.parseArg 1) s.vars
  return { s with
    rules := s.rules ++ [rule]
    isActive := Function.update s.isActive rule.addr false
    vars }

/-- `delete_condition_from_listeners`. -/
def deleteConditionFromListeners (s : Engine ε) (c : Condition ε) : Engine ε :=
  { s with
    listeners := Function.update s.listeners c.type.event
      ((s.listeners c.type.event).eraseP fun node => node.addr = c.addr) }

/-- The variables after a rule that is in the list has left it. -/
def releaseVars (s : Engine ε) (rule : Rule ε) : Outcome VarStore :=
  if ∃ r ∈ s.rules, r.addr = rule.addr then
    rule.varNames.foldlM (changeRef reg.parseArg (-1)) s.vars
  else .ok s.vars

/-- `delete_rule`, of a rule in the list or of one that never came there. -/
def deleteRule (s : Engine ε) (rule : Rule ε) : Outcome (Engine ε) := do
  let vars ← releaseVars reg s rule
  let s' := { s with rules := s.rules.eraseP fun r => r.addr = rule.addr, vars }
  return rule.conditions.foldl deleteConditionFromListeners s'

/-- The class of error `apply_rule` returns with a rule that passed. -/
def parseErrOf (recoverable : ℕ) : ℕ :=
  if recoverable ≠ 0 then recoverableError else noParseError

/-- `apply_rule`: the engine, the code and the message. -/
def applyRule (s : Engine ε) (parsed : ParsedRule) : Outcome (Engine ε × ℕ × String) := do
  let b := buildRule reg s parsed
  let (ruleErr, text, vars) := validateRule reg b.engine b.rule
  if ruleErr = ruleValid then
    let s' ← addRule reg (b.engine.withVars vars) b.rule
    return (s', parseErrOf b.recoverable ||| b.recoverable ||| ruleErr, b.err ++ text)
  else
    let s' ← deleteRule reg (b.engine.withVars vars) b.rule
    return (s', noParseError ||| b.recoverable ||| ruleErr, b.err ++ text)

end Store

end Xctools.Xcpmd
