import Mathlib.Data.Int.Notation
import Xctools.Machine.Outcome

/-! Arguments of power rules and the variables they may name: the write-through cache of
`db-helper.c` over the entries of the database, and the prototypes of `rules.c` that argument lists
are held against. -/
namespace Xctools.Xcpmd
open Machine

/-- `enum arg_type`. -/
inductive ArgType
  | int
  | bool
  | char
  | float
  | str
  | voidptr
  | none
  | var
  deriving DecidableEq, Repr

/-- The character that stands for a type. -/
def ArgType.letter : ArgType → Char
  | .int => 'i'
  | .bool => 'b'
  | .char => 'c'
  | .float => 'f'
  | .str => 's'
  | .voidptr => 'p'
  | .none => 'n'
  | .var => 'v'

/-- `arg_type_to_string`. -/
def argTypeToString (type : Char) : String :=
  if type = 'i' then "int"
  else if type = 's' then "string"
  else if type = 'b' then "bool"
  else if type = 'n' then "void"
  else if type = 'c' then "char"
  else if type = 'f' then "float"
  else if type = 'p' then "void *"
  else if type = ' ' then " "
  else if type = 'v' then "var"
  else "unknown_type"

/-- `struct arg_node`. A float is known by its bits. -/
inductive Arg
  | int (i : ℤ)
  | bool (b : Bool)
  | float (bits : UInt32)
  | str (s : String)
  | var (name : String)
  | none
  deriving DecidableEq, Repr

def Arg.type : Arg → ArgType
  | .int _ => .int
  | .bool _ => .bool
  | .float _ => .float
  | .str _ => .str
  | .var _ => .var
  | .none => .none

/-- The variables an argument list names. -/
def varNames (args : List Arg) : List String :=
  args.filterMap fun
    | .var name => some name
    | _ => Option.none

/-- `struct db_var`. -/
structure DbVar where
  name : String
  value : Arg
  refCount : ℤ
  deriving DecidableEq, Repr

/-- The cache `db_vars`, and the texts the database holds below `DB_VAR_MAP_PATH`. -/
structure VarStore where
  cache : List DbVar
  db : String → Option String

section Vars
variable (parseArg : String → Option Arg)

/-- `get_db_var`. -/
def getDbVar (vars : VarStore) (name : String) : Arg :=
  match vars.db name with
  | none => .none
  | some text => if text = "" then .none else (parseArg (name ++ "(" ++ text ++ ")")).getD .none

/-- `cache_db_var`. -/
def cacheDbVar (vars : VarStore) (name : String) (value : Arg) : VarStore :=
  { vars with cache := vars.cache ++ [⟨name, value, 0⟩] }

/-- `lookup_var`. What is only in the database comes into the cache. -/
def lookupVar (vars : VarStore) (name : String) : Option DbVar × VarStore :=
  match vars.cache.find? fun var => var.name = name with
  | some var => (some var, vars)
  | none =>
    let value := getDbVar parseArg vars name
    if value.type = .none then (none, vars)
    else (some ⟨name, value, 0⟩, cacheDbVar vars name value)

/-- The cache with `n` added to the count of the first variable of a name. -/
def addRefs (n : ℤ) (name : String) : List DbVar → List DbVar
  | [] => []
  | var :: vars =>
    if var.name = name then { var with refCount := var.refCount + n } :: vars
    else var :: addRefs n name vars

/-- One count of `inc_variable_refs` or `dec_variable_refs`, which ask for the variable to be there. -/
def changeRef (n : ℤ) (vars : VarStore) (name : String) : Outcome VarStore :=
  match lookupVar parseArg vars name with
  | (none, _) => .error .null
  | (some _, vars') => .ok { vars' with cache := addRefs n name vars'.cache }

/-- `get_arg`: the argument at an index, a variable replaced by its value. Past the end of the list
stands its head, which was never set. -/
def getArg (vars : VarStore) (args : List Arg) (index : ℕ) : Outcome Arg :=
  match args[index]? with
  | none => .error .wild
  | some (.var name) =>
    match (lookupVar parseArg vars name).1 with
    | none => .error .null
    | some var => .ok var.value
  | some arg => .ok arg

/-- The types of an argument list, variables replaced by the types of their values, or the name of
the first variable that there is not. -/
def resolveTypes (vars : VarStore) : List Arg → Except String (List ArgType) × VarStore
  | [] => (.ok [], vars)
  | .var name :: args =>
    match lookupVar parseArg vars name with
    | (none, vars') => (.error name, vars')
    | (some var, vars') =>
      let (types, vars'') := resolveTypes vars' args
      (types.map (var.value.type :: ·), vars'')
  | arg :: args =>
    let (types, vars') := resolveTypes vars args
    (types.map (arg.type :: ·), vars')

/-- The text `check_prototype` holds against the prototype. -/
def prototypeOf (types : List ArgType) : String :=
  if types = [] then "n"
  else String.ofList ((types.map fun type => [type.letter]).intersperse [' ']).flatten

/-- `long_prototype`. -/
def longPrototype (shortPrototype : String) : String :=
  String.join (shortPrototype.toList.map argTypeToString)

/-- What `check_prototype` appends to the message, if it refuses the list. -/
def prototypeError (prototype toCheck : String) : Option String :=
  let tail := "; expected \"" ++ longPrototype prototype ++ "\", received \"" ++
    longPrototype toCheck ++ "\""
  let first := prototype.toList.headD '\x00'
  let received := toCheck.toList.headD '\x00'
  if prototype.length < toCheck.length ∨ (first = 'n' ∧ received ≠ 'n') then
    some ("too many args supplied" ++ tail)
  else if toCheck.length < prototype.length ∨ (first ≠ 'n' ∧ received = 'n') then
    some ("not enough args supplied" ++ tail)
  else if prototype ≠ toCheck then some ("invalid args supplied" ++ tail)
  else none

/-- `check_prototype`: nothing when the list is accepted, else the text of the refusal. -/
def checkPrototype (vars : VarStore) (prototype : String) (args : List Arg) :
    Option String × VarStore :=
  match resolveTypes parseArg vars args with
  | (.error name, vars') => (some ("undefined variable: " ++ name), vars')
  | (.ok types, vars') => (prototypeError prototype (prototypeOf types), vars')

/-- The lists `validate_rule` checks, each with its prototype and the end of its message: it stops
at the first one that is refused. -/
def checkAll (vars : VarStore) : List (String × List Arg × String) → Option String × VarStore
  | [] => (none, vars)
  | (prototype, args, what) :: rest =>
    match checkPrototype parseArg vars prototype args with
    | (some err, vars') => (some (err ++ what), vars')
    | (none, vars') => checkAll vars' rest

end Vars

end Xctools.Xcpmd
