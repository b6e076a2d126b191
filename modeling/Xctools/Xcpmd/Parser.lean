import Mathlib.Algebra.Ring.Nat
import Xctools.Machine.Loop
import Xctools.Xcpmd.VarCache
import Xctools.Xcpmd.Rules

/-! The state machine of `parser.c`. A text is a list of bytes, each written as a character. One round
of the main loop follows one edge: it reads a character, performs the edge's action, and goes on in
another state or with another text, until the machine is finished or no edge fits. -/
namespace Xctools.Xcpmd
open Machine

/-! Parse errors. -/
def ruleInvalid : ℕ := 0x100
def fsmError : ℕ := 0x200
def boolError : ℕ := 0x300
def varMissing : ℕ := 0x400
def invalidVarType : ℕ := 0x500
def overlappingVars : ℕ := 0x600

/-- The size of the accumulators. -/
def accumSz : ℕ := 256

/-! The conditions of the edges. -/
def isAlphanumeric_ (c : Char) : Bool :=
  c = '_' || ('A' ≤ c && c ≤ 'Z') || ('a' ≤ c && c ≤ 'z') || ('0' ≤ c && c ≤ '9')
def isDblQuote (c : Char) : Bool := c = '"'
def isDblQuoteOrNull (c : Char) : Bool := c = '"' || c = '\x00'
def isNotDblQuoteOrNull (c : Char) : Bool := c ≠ '"' && c ≠ '\x00'
def isPeriod (c : Char) : Bool := c = '.'
def isDigit (c : Char) : Bool := '0' ≤ c && c ≤ '9'
def isDigitOrMinus (c : Char) : Bool := isDigit c || c = '-'
def isSpace (c : Char) : Bool := c = ' '
def isExclaimation (c : Char) : Bool := c = '!'
def isOpenParen (c : Char) : Bool := c = '('
def isClosedParen (c : Char) : Bool := c = ')'
def isDollarSign (c : Char) : Bool := c = '$'
def isTrue (c : Char) : Bool := c = 't' || c = 'T' || c = 'y' || c = 'Y'
def isFalse (c : Char) : Bool := c = 'f' || c = 'F' || c = 'n' || c = 'N'
def isNull (c : Char) : Bool := c = '\x00'
def isNewline (c : Char) : Bool := c = '\n'

/-- The states of the machine. -/
inductive ParseState
  | start
  | invertFn
  | accumName
  | beginAccumArg
  | accumVar
  | accumInt
  | beginAccumFloat
  | accumFloat
  | accumStr
  | endAccumStr
  | accumBool
  | acceptFn
  | acceptRule
  deriving DecidableEq, Repr

/-- The actions of the edges. -/
inductive ParseAction
  | accumName
  | invertFn
  | accumArg
  | beginAccumVar
  | beginAccumInt
  | beginAccumFloat
  | beginAccumStr
  | beginAccumTrue
  | beginAccumFalse
  | acceptArg
  | acceptFn
  | acceptFns
  deriving DecidableEq, Repr

/-- `struct state_transition`. -/
structure Transition where
  condition : Char → Bool
  action : Option ParseAction
  destination : ParseState

/-- `build_parse_state_list`. The edges stand as they are added; each one is put in front of those
before it. -/
def transitions : ParseState → List Transition
  | .start => List.reverse [
      ⟨isAlphanumeric_, some .accumName, .accumName⟩,
      ⟨isExclaimation, some .invertFn, .invertFn⟩,
      ⟨isSpace, none, .start⟩,
      ⟨isNull, some .acceptFns, .acceptRule⟩,
      ⟨isNewline, some .acceptFns, .acceptRule⟩]
  | .invertFn => List.reverse [⟨isAlphanumeric_, some .accumName, .accumName⟩]
  | .accumName => List.reverse [
      ⟨isAlphanumeric_, some .accumName, .accumName⟩,
      ⟨isOpenParen, none, .beginAccumArg⟩]
  | .beginAccumArg => List.reverse [
      ⟨isDollarSign, some .beginAccumVar, .accumVar⟩,
      ⟨isDigitOrMinus, some .beginAccumInt, .accumInt⟩,
      ⟨isDblQuote, some .beginAccumStr, .accumStr⟩,
      ⟨isTrue, some .beginAccumTrue, .accumBool⟩,
      ⟨isFalse, some .beginAccumFalse, .accumBool⟩,
      ⟨isClosedParen, some .acceptFn, .acceptFn⟩]
  | .accumVar => List.reverse [
      ⟨isAlphanumeric_, some .accumArg, .accumVar⟩,
      ⟨isSpace, some .acceptArg, .beginAccumArg⟩,
      ⟨isClosedParen, some .acceptFn, .acceptFn⟩]
  | .accumInt => List.reverse [
      ⟨isDigit, some .accumArg, .accumInt⟩,
      ⟨isPeriod, some .beginAccumFloat, .beginAccumFloat⟩,
      ⟨isSpace, some .acceptArg, .beginAccumArg⟩,
      ⟨isClosedParen, some .acceptFn, .acceptFn⟩]
  | .beginAccumFloat => List.reverse [
      ⟨isDigit, some .accumArg, .accumFloat⟩,
      ⟨isClosedParen, some .acceptFn, .acceptFn⟩]
  | .accumFloat => List.reverse [
      ⟨isDigit, some .accumArg, .accumFloat⟩,
      ⟨isSpace, some .acceptArg, .beginAccumArg⟩,
      ⟨isClosedParen, some .acceptFn, .acceptFn⟩]
  | .accumStr => List.reverse [
      ⟨isNotDblQuoteOrNull, some .accumArg, .accumStr⟩,
      ⟨isDblQuoteOrNull, none, .endAccumStr⟩]
  | .accumBool | .endAccumStr => List.reverse [
      ⟨isSpace, some .acceptArg, .beginAccumArg⟩,
      ⟨isClosedParen, some .acceptFn, .acceptFn⟩]
  | .acceptFn => List.reverse [
      ⟨isSpace, none, .start⟩,
      ⟨isNull, some .acceptFns, .acceptRule⟩,
      ⟨isNewline, some .acceptFns, .acceptRule⟩]
  | .acceptRule => []

/-- What the error action of a state asks for. -/
def expected : ParseState → String
  | .start => "an inverter [!], function name [A-Z a-z 0-9 _], or end of input [NUL]"
  | .invertFn | .accumName => "a function name [A-Z a-z 0-9 _]"
  | .beginAccumArg =>
    "an argument of some sort: int[0-9], bool[t/f], float[0-9], string[\"], or var[$]"
  | .accumVar => "a variable identifier [A-Z a-z 0-9 _"
  | .accumInt => "an integer [0-9]"
  | .beginAccumFloat => "a floating point value [0-9 .]"
  | .accumFloat => "a floating point value [0-9]"
  | .accumStr => "to not enter this error state, \"onStrArg\", for all possible characters are " ++
      "accounted for with transitions"
  | .endAccumStr | .accumBool => "a space delimiter or function closure [space or )]"
  | .acceptFn => "a space delimiter or end of input [space or NUL or newline]"
  | .acceptRule => "to not enter this error state, \"onAcceptRule\", for this is a final state"

/-- `parse_error`. -/
def parseError (s : String) (c : Char) : String :=
  let ascii := "(ASCII " ++ toString c.toNat ++ ")"
  "expected " ++ s ++ ", got " ++
    if c = '\x00' then "'\\0' " ++ ascii
    else if c = '\n' then "'\\n' " ++ ascii
    else if c = '\t' then "'\\t' " ++ ascii
    else if c = '\r' then "'\\r' " ++ ascii
    else if c < ' ' || '~' < c then "ASCII " ++ toString c.toNat
    else "'" ++ c.toString ++ "' " ++ ascii

/-- The types an argument can have while it is read. -/
inductive FnArgType
  | undetermined
  | int
  | float
  | str
  | bool
  | var
  deriving DecidableEq, Repr

/-- What is being parsed. -/
inductive ParsedType
  | undetermined
  | action
  | condition
  | undoAction
  | varMap
  | arg
  deriving DecidableEq, Repr

/-- `struct var_map`. -/
abbrev VarMap := List (String × FnArg)

/-- `get_var_from_map`, which has no values of other types to give. -/
def getVarFromMap (varMap : VarMap) (name : String) : Option FnArg :=
  match varMap.find? fun entry => entry.1 = name with
  | some (_, .var _) | some (_, .undetermined) | none => none
  | some (_, arg) => some arg

/-- `struct parse_data` with the variables: the accumulators as far as they are filled, what is left of
the current text, the lists that were handed to `apply_rule`, and what `parse` returned. -/
structure ParseData where
  state : ParseState := .start
  undo : Bool := true
  finished : Bool := false
  errorCode : ℕ := noParseError
  actionsStr : Option String := none
  undoActionsStr : Option String := none
  parsing : ParsedType
  argType : FnArgType := .undetermined
  rest : List Char := []
  accumName : List Char := []
  accumArg : List Char := []
  varMap : VarMap
  args : List FnArg := []
  conditions : List Fn := []
  actions : List Fn := []
  undoActions : List Fn := []
  parsedArg : Option Fn := none
  message : Option String := none
  vars : VarStore
  applied : Option (List Fn × List Fn × List Fn) := none
  returned : Option Bool := none

/-- A C string up to its end; NULL is read as the empty one. -/
def cstr (text : Option String) : List Char :=
  ((text.getD "").toList).takeWhile fun c => c ≠ '\x00'

/-- `load_parse_string`. -/
def loadParseString (d : ParseData) (text : Option String) : ParseData :=
  { d with rest := cstr text, accumName := [], accumArg := [] }

def ParseData.withVars (d : ParseData) (vars : VarStore) : ParseData := { d with vars }

/-- An error that ends the parse. -/
def ParseData.fail (d : ParseData) (code : ℕ) (message : String) : ParseData :=
  { d with errorCode := code, message := some message, finished := true }

/-- An argument at the end of the list. -/
def ParseData.pushArg (d : ParseData) (arg : FnArg) : ParseData :=
  { d with args := d.args ++ [arg], accumArg := [] }

/-- The end of `action_acceptFn`. -/
def ParseData.fnDone (d : ParseData) : ParseData :=
  { d with args := [], accumName := [], undo := true }

section Actions
variable (libc : Libc) (parseArg : String → Option Arg)

/-- `sscanf` with `%ld`: a number beyond the longs becomes the last of them, and a sign alone sets
nothing. -/
def scanLong (text : List Char) : ℤ :=
  match text with
  | ['-'] => libc.unset
  | '-' :: digits => max (-(Nat.ofDigitChars 10 digits 0 : ℤ)) (-9223372036854775808)
  | digits => min (Nat.ofDigitChars 10 digits 0 : ℤ) 9223372036854775807

/-- `action_accumName`. -/
def accumName (d : ParseData) (c : Char) : Outcome ParseData :=
  if d.accumName.length < accumSz then .ok { d with accumName := d.accumName ++ [c] }
  else .error .bounds

/-- `action_accumArg`. -/
def accumArg (d : ParseData) (c : Char) : Outcome ParseData :=
  if d.accumArg.length < accumSz then .ok { d with accumArg := d.accumArg ++ [c] }
  else .error .bounds

/-- `action_acceptArg`. -/
def acceptArg (d : ParseData) : Outcome ParseData :=
  let text := String.ofList d.accumArg
  if accumSz ≤ d.accumArg.length then .error .bounds
  else if d.accumArg = [] then .ok d
  else match d.argType with
    | .int => .ok (d.pushArg (.int (scanLong libc d.accumArg)))
    | .float => .ok (d.pushArg (.float (libc.scanFloat text)))
    | .str => .ok (d.pushArg (.str text))
    | .bool =>
      if d.accumArg.head? = some 't' then .ok (d.pushArg (.bool true))
      else if d.accumArg.head? = some 'f' then .ok (d.pushArg (.bool false))
      else .ok (d.fail boolError
        ("boolean type detected but argument accumulator has invalid data (" ++ text ++ ")"))
    | .var =>
      let (found, vars) := lookupVar parseArg d.vars text
      if (getVarFromMap d.varMap text).isNone ∧ found.isNone then
        .ok ((d.withVars vars).fail varMissing ("unable to resolve variable " ++ text))
      else .ok ((d.withVars vars).pushArg (.var text))
    | .undetermined => .ok (d.fail fsmError "invalid parsing mode: 0")

/-- What `error_append` and `safe_str_append` leave in a message. -/
def appendMessage (message : Option String) (text : String) : Option String :=
  if text = "" then message else some (message.getD "" ++ text)

/-- `add_to_var_map_as_arg`, whose codes come back as true or false: one for every failure. -/
def addToVarMapAsArg (d : ParseData) (name : String) (arg : FnArg) : ParseData :=
  if (getVarFromMap d.varMap name).isSome then { d with errorCode := 1 }
  else match addVar libc parseArg d.vars name (convFnArg arg) with
    | (false, vars, text) => { d with vars, errorCode := 1, message := appendMessage d.message text }
    | (true, vars, text) =>
      { d with vars, errorCode := noParseError, message := appendMessage d.message text,
               varMap := d.varMap ++ [(name, arg)] }

/-- `action_acceptFn`, once the last argument is accepted. -/
def storeFn (d : ParseData) : ParseData :=
  let name := String.ofList d.accumName
  match d.parsing with
  | .arg => ParseData.fnDone { d with parsedArg := some ⟨name, d.args, false⟩ }
  | .condition => ParseData.fnDone { d with conditions := d.conditions ++ [⟨name, d.args, d.undo⟩] }
  | .action => ParseData.fnDone { d with actions := d.actions ++ [⟨name, d.args, d.undo⟩] }
  | .undoAction => ParseData.fnDone { d with undoActions := d.undoActions ++ [⟨name, d.args, false⟩] }
  | .varMap =>
    match d.args with
    | [] => d.fail varMissing ("var map entry " ++ name ++ " has no value")
    | [.var _] | [.undetermined] =>
      d.fail invalidVarType "var map entry had value of incompatible type"
    | [arg] => (addToVarMapAsArg libc parseArg d name arg).fnDone
    | _ => d.fail overlappingVars ("var map entry " ++ name ++ " has multiple values")
  | .undetermined => d.fail fsmError "invalid parsing mode"

/-- `action_acceptFn`. -/
def acceptFn (d : ParseData) : Outcome ParseData := do
  let d ← acceptArg libc parseArg d
  if accumSz ≤ d.accumName.length then .error .bounds
  else if d.accumName = [] then .ok d
  else .ok (storeFn libc parseArg d)

/-- `action_acceptFns`. The call of `apply_rule` is left to those who asked for the rule. -/
def acceptFns (d : ParseData) : Outcome ParseData := do
  let d ← acceptFn libc parseArg d
  match d.parsing with
  | .arg | .varMap => .ok { d with parsing := .undetermined, finished := true }
  | .condition => .ok (loadParseString { d with parsing := .action } d.actionsStr)
  | .action => .ok (loadParseString { d with parsing := .undoAction } d.undoActionsStr)
  | .undoAction =>
    .ok { d with
      applied := some (d.conditions, d.actions, d.undoActions), parsing := .undetermined,
      finished := true, conditions := [], actions := [], undoActions := [] }
  | .undetermined =>
    .ok (d.fail fsmError "Parsing mode is unexpected type - this is likely a bug")

/-- The action of an edge on the character that was read. -/
def perform (action : Option ParseAction) (d : ParseData) (c : Char) : Outcome ParseData :=
  match action with
  | none => .ok d
  | some .accumName => accumName d c
  | some .invertFn => .ok { d with undo := false }
  | some .accumArg => accumArg d c
  | some .beginAccumVar => .ok { d with argType := .var }
  | some .beginAccumInt => accumArg { d with argType := .int } c
  | some .beginAccumFloat => accumArg { d with argType := .float } c
  | some .beginAccumStr => .ok { d with argType := .str }
  | some .beginAccumTrue => accumArg { d with argType := .bool } 't'
  | some .beginAccumFalse => accumArg { d with argType := .bool } 'f'
  | some .acceptArg => acceptArg libc parseArg d
  | some .acceptFn => acceptFn libc parseArg d
  | some .acceptFns => acceptFns libc parseArg d

/-- Where an edge leads: `parse` returns when the machine is finished, and after the final state it
starts again. -/
def follow (d : ParseData) (destination : ParseState) : ParseData :=
  if transitions destination = [] then
    { d with
      state := .start
      returned := if d.finished then some (d.errorCode = noParseError) else none }
  else { d with state := destination, returned := if d.finished then some false else none }

/-- The character under the pointer. -/
def ParseData.current (d : ParseData) : Char := d.rest.headD '\x00'

/-- The edge that is taken. -/
def edge (state : ParseState) (c : Char) : Option Transition :=
  (transitions state).find? fun t => t.condition c

/-- One round of the main loop of `parse`. The pointer stays at the end of the text. -/
def parseRound (d : ParseData) : Outcome ParseData :=
  match edge d.state d.current with
  | none =>
    .ok { d with
      message := some (parseError (expected d.state) d.current), errorCode := fsmError,
      returned := some false }
  | some t => do
    let d' ← perform libc parseArg t.action { d with rest := d.rest.tail } d.current
    return follow d' t.destination

/-- The texts that are still to come. -/
def ParseData.pending (d : ParseData) : List (List Char) :=
  match d.parsing with
  | .condition => [cstr d.actionsStr, cstr d.undoActionsStr]
  | .action => [cstr d.undoActionsStr]
  | _ => []

/-- A bound on the rounds that are left. -/
def ParseData.measure (d : ParseData) : ℕ :=
  if d.returned.isSome then 0
  else 2 * d.rest.length + (d.pending.map fun text => 2 * text.length + 2).sum +
    (if d.state = .accumStr then 1 else 0) + 1

/-- The main loop of `parse`. -/
def parseLoop (d : ParseData) : Outcome ParseData :=
  loop (parseRound libc parseArg) (fun d => d.returned.isSome) (d.measure + 1) d

/-- `parse`. -/
def parse (d : ParseData) (text : Option String) : Outcome ParseData :=
  parseLoop libc parseArg (loadParseString d text)

end Actions


/-- The value of `RULE_CODE_NOT_SET`. -/
def ruleCodeNotSet : ℕ := 0

/-- `extract_parse_error`. Where a message is asked for and there is none, its length is not either. -/
def extractParseError (errorCode ruleErrorCode : ℕ) (message : Option String) : Outcome String :=
  if errorCode = ruleInvalid then
    if ruleErrorCode = noName then .ok "no rule name supplied"
    else if ruleErrorCode = noConditions then .ok "no valid conditions supplied"
    else if ruleErrorCode = noActions then
      .ok "at least one valid action or undo action required"
    else if ruleErrorCode = nameCollision then .ok "a rule by that name already exists"
    else if ruleErrorCode = badProto then .ok (message.getD "(null)")
    else .ok "rule is invalid, but no reason given"
  else if errorCode = recoverableError then .ok (message.getD "(null)")
  else if errorCode = noParseError then .ok "parser returned false but gave no error code."
  else match message with
    | none => .error .null
    | some text => .ok (if text = "" then "no description provided" else text)

section Entry
variable (libc : Libc)

/-- `parse_var_persistent`. -/
def parseVarPersistent (parseArg : String → Option Arg) (varMap : VarMap) (vars : VarStore)
    (text : String) : Outcome ParseData :=
  parse libc parseArg { parsing := .varMap, varMap, vars } (some text)

/-- `parse_var`: whether the variable was set, the variables, and the message. -/
def parseVar (parseArg : String → Option Arg) (vars : VarStore) (text : String) :
    Outcome (Bool × VarStore × String) := do
  let d ← parseVarPersistent libc parseArg [] vars text
  if d.returned = some true then return (true, d.vars, "")
  else
    let why ← extractParseError d.errorCode ruleCodeNotSet d.message
    return (false, d.vars, "couldn't parse variable " ++ text ++ ": " ++ why)

/-- What `parse_db_vars` has read so far: whether every entry was set, the parse data's variables and
message, and the variables. -/
structure VarsLoad where
  success : Bool := true
  varMap : VarMap := []
  message : Option String := none
  vars : VarStore

/-- One entry of the dump in `parse_db_vars`. -/
def parseDbVar (parseArg : String → Option Arg) (l : VarsLoad) (entry : String × String) :
    Outcome VarsLoad := do
  let d ← parseVarPersistent libc parseArg l.varMap l.vars (entry.1 ++ "(" ++ entry.2 ++ ")")
  if d.returned = some true then
    return { l with varMap := d.varMap, message := d.message, vars := d.vars }
  else
    let _ ← extractParseError d.errorCode ruleCodeNotSet d.message
    return { success := false, varMap := d.varMap, message := d.message, vars := d.vars }

/-- `parse_db_vars` on fresh parse data and what the database answers: nothing, or the entries of the
node that are strings. -/
def parseDbVars (parseArg : String → Option Arg) (vars : VarStore)
    (dump : Option (List (String × String))) : Outcome VarsLoad :=
  match dump with
  | none => .ok { success := false, vars }
  | some entries => entries.foldlM (parseDbVar libc parseArg) { vars }

/-- The first argument of the last item, which `parse_arg` takes for granted. -/
def firstArg (parsedArg : Option Fn) : Outcome FnArg :=
  match parsedArg with
  | none => .error .null
  | some fn => fn.args.head?.elim (.error .null) .ok

/-- `parse_arg`. The values in the database are literals, so there are no variables to look up. -/
def parseArgText (text : String) : Outcome (Option Arg) := do
  let d ← parse libc (fun _ => none) { parsing := .arg, varMap := [], vars := ⟨[], fun _ => none⟩ }
    (some text)
  if d.returned = some true then
    let arg ← firstArg d.parsedArg
    return some (convFnArg arg)
  else return none

/-- What `get_db_var` makes of the text of an entry. -/
def parseArgOf (text : String) : Option Arg :=
  match parseArgText libc text with
  | .ok arg => arg
  | .error _ => none

/-- What `action_acceptFns` does with the code of `apply_rule`: the class of the error and the code that
goes with it. -/
def ruleVerdict (err : ℕ) : ℕ × ℕ :=
  let parseErr := err &&& 0xF00
  if err &&& 0x00F = ruleValid then
    if parseErr = recoverableError then (recoverableError, err &&& 0x0F0)
    else (parseErr, ruleCodeNotSet)
  else (ruleInvalid, err &&& 0x00F)

variable {ε : Type} [DecidableEq ε]

/-- The parse of the three texts of a rule. -/
def parseTexts (parseArg : String → Option Arg) (varMap : VarMap) (vars : VarStore)
    (conditions actions undos : Option String) : Outcome ParseData :=
  parse libc parseArg
    { parsing := .condition, varMap, vars, actionsStr := actions, undoActionsStr := undos } conditions

/-- `parse_rule_persistent`: the engine, what the parser has to say, and the code of the rule. A rule
without a name is cloned from NULL. -/
def parseRulePersistent (reg : Registry ε) (s : Engine ε) (varMap : VarMap)
    (name conditions actions undos : Option String) : Outcome (Engine ε × ParseData × ℕ) := do
  let d ← parseTexts libc reg.parseArg varMap s.vars conditions actions undos
  match d.applied, name with
  | none, _ => return (s.withVars d.vars, d, ruleCodeNotSet)
  | some _, none => .error .null
  | some (conditions, actions, undos), some name =>
    let (s', err, text) ← applyRule reg (s.withVars d.vars) ⟨name, conditions, actions, undos⟩
    let (errorCode, ruleErrorCode) := ruleVerdict err
    return (s', { d with
      errorCode, message := appendMessage d.message text,
      returned := some (errorCode = noParseError) }, ruleErrorCode)

end Entry

/-- The states in which an argument can end. -/
def EndsArg (q : ParseState) : Prop :=
  q = .accumVar ∨ q = .accumInt ∨ q = .accumFloat ∨ q = .accumBool ∨ q = .endAccumStr

/-- The edges by what they do: from a state with a character, by an action, to a state. -/
inductive Edge : ParseState → Char → Option ParseAction → ParseState → Prop
  | name {q c} : q = .start ∨ q = .invertFn ∨ q = .accumName → isAlphanumeric_ c = true →
    Edge q c (some .accumName) .accumName
  | invert : Edge .start '!' (some .invertFn) .invertFn
  | skip {q} : q = .start ∨ q = .acceptFn → Edge q ' ' none .start
  | openParen : Edge .accumName '(' none .beginAccumArg
  | dollar : Edge .beginAccumArg '$' (some .beginAccumVar) .accumVar
  | number {c} : isDigitOrMinus c = true → Edge .beginAccumArg c (some .beginAccumInt) .accumInt
  | quote : Edge .beginAccumArg '"' (some .beginAccumStr) .accumStr
  | yes {c} : isTrue c = true → Edge .beginAccumArg c (some .beginAccumTrue) .accumBool
  | no {c} : isFalse c = true → Edge .beginAccumArg c (some .beginAccumFalse) .accumBool
  | word {c} : isAlphanumeric_ c = true → Edge .accumVar c (some .accumArg) .accumVar
  | digit {c} : isDigit c = true → Edge .accumInt c (some .accumArg) .accumInt
  | period : Edge .accumInt '.' (some .beginAccumFloat) .beginAccumFloat
  | fraction {q c} : q = .beginAccumFloat ∨ q = .accumFloat → isDigit c = true →
    Edge q c (some .accumArg) .accumFloat
  | char {c} : isNotDblQuoteOrNull c = true → Edge .accumStr c (some .accumArg) .accumStr
  | unquote {c} : isDblQuoteOrNull c = true → Edge .accumStr c none .endAccumStr
  | nextArg {q} : EndsArg q → Edge q ' ' (some .acceptArg) .beginAccumArg
  | close {q} : q = .beginAccumArg ∨ q = .beginAccumFloat ∨ EndsArg q →
    Edge q ')' (some .acceptFn) .acceptFn
  | finish {q c} : q = .start ∨ q = .acceptFn → c = '\x00' ∨ c = '\n' →
    Edge q c (some .acceptFns) .acceptRule

section Edges
variable {q : ParseState} {c : Char}

/-- A character of a class is none outside it. -/
lemma ne_of_class {p : Char → Bool} {d : Char} (hc : p c = true) (hd : p d = false) : c ≠ d := by
  rintro rfl
  rw [hc] at hd
  cases hd

/-- The table holds no other edges. -/
lemma edge_sound {t : Transition} (h : edge q c = some t) : Edge q c t.action t.destination := by
  have hmem := List.mem_of_find?_eq_some h
  have hcond := List.find?_some h
  cases q <;>
    simp only [transitions, List.mem_reverse, List.mem_cons, List.not_mem_nil, or_false] at hmem
  case start =>
    rcases hmem with rfl | rfl | rfl | rfl | rfl
    · exact .name (.inl rfl) hcond
    · obtain rfl : c = '!' := of_decide_eq_true hcond
      exact .invert
    · obtain rfl : c = ' ' := of_decide_eq_true hcond
      exact .skip (.inl rfl)
    · exact .finish (.inl rfl) (.inl (of_decide_eq_true hcond))
    · exact .finish (.inl rfl) (.inr (of_decide_eq_true hcond))
  case invertFn =>
    subst hmem
    exact .name (.inr (.inl rfl)) hcond
  case accumName =>
    rcases hmem with rfl | rfl
    · exact .name (.inr (.inr rfl)) hcond
    · obtain rfl : c = '(' := of_decide_eq_true hcond
      exact .openParen
  case beginAccumArg =>
    rcases hmem with rfl | rfl | rfl | rfl | rfl | rfl
    · obtain rfl : c = '$' := of_decide_eq_true hcond
      exact .dollar
    · exact .number hcond
    · obtain rfl : c = '"' := of_decide_eq_true hcond
      exact .quote
    · exact .yes hcond
    · exact .no hcond
    · obtain rfl : c = ')' := of_decide_eq_true hcond
      exact .close (.inl rfl)
  case accumVar =>
    rcases hmem with rfl | rfl | rfl
    · exact .word hcond
    · obtain rfl : c = ' ' := of_decide_eq_true hcond
      exact .nextArg (.inl rfl)
    · obtain rfl : c = ')' := of_decide_eq_true hcond
      exact .close (.inr (.inr (.inl rfl)))
  case accumInt =>
    rcases hmem with rfl | rfl | rfl | rfl
    · exact .digit hcond
    · obtain rfl : c = '.' := of_decide_eq_true hcond
      exact .period
    · obtain rfl : c = ' ' := of_decide_eq_true hcond
      exact .nextArg (by simp [EndsArg])
    · obtain rfl : c = ')' := of_decide_eq_true hcond
      exact .close (by simp [EndsArg])
  case beginAccumFloat =>
    rcases hmem with rfl | rfl
    · exact .fraction (.inl rfl) hcond
    · obtain rfl : c = ')' := of_decide_eq_true hcond
      exact .close (.inr (.inl rfl))
  case accumFloat =>
    rcases hmem with rfl | rfl | rfl
    · exact .fraction (.inr rfl) hcond
    · obtain rfl : c = ' ' := of_decide_eq_true hcond
      exact .nextArg (by simp [EndsArg])
    · obtain rfl : c = ')' := of_decide_eq_true hcond
      exact .close (by simp [EndsArg])
  case accumStr =>
    rcases hmem with rfl | rfl
    · exact .char hcond
    · exact .unquote hcond
  case endAccumStr =>
    rcases hmem with rfl | rfl
    · obtain rfl : c = ' ' := of_decide_eq_true hcond
      exact .nextArg (by simp [EndsArg])
    · obtain rfl : c = ')' := of_decide_eq_true hcond
      exact .close (by simp [EndsArg])
  case accumBool =>
    rcases hmem with rfl | rfl
    · obtain rfl : c = ' ' := of_decide_eq_true hcond
      exact .nextArg (by simp [EndsArg])
    · obtain rfl : c = ')' := of_decide_eq_true hcond
      exact .close (by simp [EndsArg])
  case acceptFn =>
    rcases hmem with rfl | rfl | rfl
    · obtain rfl : c = ' ' := of_decide_eq_true hcond
      exact .skip (.inr rfl)
    · exact .finish (.inr rfl) (.inl (of_decide_eq_true hcond))
    · exact .finish (.inr rfl) (.inr (of_decide_eq_true hcond))

/-- Every edge is the first that fits: no two edges of a state fit the same character. -/
lemma edge_complete {a : Option ParseAction} {q' : ParseState} (h : Edge q c a q') :
    ∃ t, edge q c = some t ∧ t.action = a ∧ t.destination = q' := by
  cases h with
  | name hq hc =>
    have hne : ∀ d, isAlphanumeric_ d = false → c ≠ d := fun d hd => ne_of_class hc hd
    refine ⟨⟨isAlphanumeric_, some .accumName, .accumName⟩,?_,rfl,rfl⟩
    rcases hq with rfl | rfl | rfl
    · simp [edge, transitions, isNewline, isNull, isSpace, isExclaimation, hc, hne '\n' rfl,
        hne '\x00' rfl, hne ' ' rfl, hne '!' rfl]
    · simp [edge, transitions, hc]
    · simp [edge, transitions, isOpenParen, hc, hne '(' rfl]
  | invert => exact ⟨_,rfl,rfl,rfl⟩
  | skip hq => rcases hq with rfl | rfl <;> exact ⟨_,rfl,rfl,rfl⟩
  | openParen => exact ⟨_,rfl,rfl,rfl⟩
  | dollar => exact ⟨_,rfl,rfl,rfl⟩
  | number hc =>
    have hne : ∀ d, isDigitOrMinus d = false → c ≠ d := fun d hd => ne_of_class hc hd
    refine ⟨⟨isDigitOrMinus, some .beginAccumInt, .accumInt⟩,?_,rfl,rfl⟩
    have hfalse : isFalse c = false := by
      simp [isFalse, hne 'f' rfl, hne 'F' rfl, hne 'n' rfl, hne 'N' rfl]
    have htrue : isTrue c = false := by
      simp [isTrue, hne 't' rfl, hne 'T' rfl, hne 'y' rfl, hne 'Y' rfl]
    simp [edge, transitions, isClosedParen, isDblQuote, hc, hfalse, htrue, hne ')' rfl, hne '"' rfl]
  | quote => exact ⟨_,rfl,rfl,rfl⟩
  | yes hc =>
    simp only [isTrue, Bool.or_eq_true, decide_eq_true_eq, or_assoc] at hc
    rcases hc with rfl | rfl | rfl | rfl <;> exact ⟨_,rfl,rfl,rfl⟩
  | no hc =>
    simp only [isFalse, Bool.or_eq_true, decide_eq_true_eq, or_assoc] at hc
    rcases hc with rfl | rfl | rfl | rfl <;> exact ⟨_,rfl,rfl,rfl⟩
  | word hc =>
    have hne : ∀ d, isAlphanumeric_ d = false → c ≠ d := fun d hd => ne_of_class hc hd
    refine ⟨⟨isAlphanumeric_, some .accumArg, .accumVar⟩,?_,rfl,rfl⟩
    simp [edge, transitions, isClosedParen, isSpace, hc, hne ')' rfl, hne ' ' rfl]
  | digit hc =>
    have hne : ∀ d, isDigit d = false → c ≠ d := fun d hd => ne_of_class hc hd
    refine ⟨⟨isDigit, some .accumArg, .accumInt⟩,?_,rfl,rfl⟩
    simp [edge, transitions, isClosedParen, isSpace, isPeriod, hc, hne ')' rfl, hne ' ' rfl,
      hne '.' rfl]
  | period => exact ⟨_,rfl,rfl,rfl⟩
  | fraction hq hc =>
    have hne : ∀ d, isDigit d = false → c ≠ d := fun d hd => ne_of_class hc hd
    refine ⟨⟨isDigit, some .accumArg, .accumFloat⟩,?_,rfl,rfl⟩
    rcases hq with rfl | rfl
    · simp [edge, transitions, isClosedParen, hc, hne ')' rfl]
    · simp [edge, transitions, isClosedParen, isSpace, hc, hne ')' rfl, hne ' ' rfl]
  | char hc =>
    have hne : ∀ d, isNotDblQuoteOrNull d = false → c ≠ d := fun d hd => ne_of_class hc hd
    refine ⟨⟨isNotDblQuoteOrNull, some .accumArg, .accumStr⟩,?_,rfl,rfl⟩
    simp [edge, transitions, isDblQuoteOrNull, hc, hne '"' rfl, hne '\x00' rfl]
  | unquote hc => exact ⟨_,by simp [edge, transitions, hc]; rfl,rfl,rfl⟩
  | nextArg hq => rcases hq with rfl | rfl | rfl | rfl | rfl <;> exact ⟨_,rfl,rfl,rfl⟩
  | close hq =>
    rcases hq with rfl | rfl | rfl | rfl | rfl | rfl | rfl <;> exact ⟨_,rfl,rfl,rfl⟩
  | finish hq hc =>
    rcases hq with rfl | rfl <;> rcases hc with rfl | rfl <;> exact ⟨_,rfl,rfl,rfl⟩

lemma Edge.unique {a₁ a₂ : Option ParseAction} {q₁ q₂ : ParseState} (h₁ : Edge q c a₁ q₁)
    (h₂ : Edge q c a₂ q₂) : a₁ = a₂ ∧ q₁ = q₂ := by
  obtain ⟨t₁,ht₁,rfl,rfl⟩ := edge_complete h₁
  obtain ⟨t₂,ht₂,rfl,rfl⟩ := edge_complete h₂
  obtain rfl := Option.some.inj (ht₁.symm.trans ht₂)
  exact ⟨rfl,rfl⟩

end Edges

end Xctools.Xcpmd
