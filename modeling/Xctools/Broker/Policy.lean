import Mathlib.Data.List.Basic
import Xctools.Machine.Outcome

/-! The policy of rpc-broker and how it is read: `policy.h` and `policy.c`. Rules come from the
policy file and, for every virtual machine, from the strings stored for it in the database. -/
namespace Xctools.Broker
open Machine

def maxRules : ℕ := 512
def maxDomains : ℕ := 128
def ruleMaxLength : ℕ := 512

/-- The buffer `TRANSFORM_UUID` writes to in `build_policy`. -/
def uuidBuffer : ℕ := 64

/-- `struct rule`. A rule that `calloc` has just cleared is `{}`. -/
structure Rule where
  all : Bool := false
  out : Bool := false
  policy : Bool := false
  stubdom : Bool := false
  ifBoolFlag : Bool := false
  destination : CStr := .null
  path : CStr := .null
  interface : CStr := .null
  member : CStr := .null
  ifBool : CStr := .null
  domtype : CStr := .null
  ruleString : CStr := .null
  deriving DecidableEq, Repr

/-- The strings a rule owns, in the order `free_rule` releases them. -/
def Rule.strings (r : Rule) : List CStr :=
  [r.destination, r.path, r.interface, r.member, r.ifBool, r.domtype, r.ruleString]

/-- No string of the rule dangles. -/
def Rule.Sound (r : Rule) : Prop := ∀ p ∈ r.strings, p.Sound

/-- `free_rule` takes the rule by value, so the slot it was copied from keeps its flags and is
left with dangling pointers. -/
def freeRule (r : Rule) : Outcome Rule := do
  let destination ← r.destination.free
  let path ← r.path.free
  let interface ← r.interface.free
  let member ← r.member.free
  let ifBool ← r.ifBool.free
  let domtype ← r.domtype.free
  let ruleString ← r.ruleString.free
  return { r with destination, path, interface, member, ifBool, domtype, ruleString }

/-- The words that successive calls of `strtok` with the delimiter " " hand out. -/
def strtok (s : String) : List String :=
  ((s.toList.splitOn ' ').filter (· ≠ [])).map String.ofList

/-- The `while (token)` loop of `create_rule`. The word after the keyword is taken whatever the
keyword is, so `stubdom` swallows one too. The flag is false where the source returns -1; what
was set before stays in the slot. -/
def criteria (current : Rule) : List String → Outcome (Bool × Rule)
  | [] => .ok (true, current)
  | [token] =>
    if token.toList.head? ≠ some 's' then .ok (false, current)
    else if token = "stubdom" then .ok (true, { current with stubdom := true })
    else do return (false, ← freeRule current)
  | token :: field :: rest =>
    if token = "destination" then criteria { current with destination := .live field } rest
    else if token = "dom-type" then criteria { current with domtype := .live field } rest
    else if token = "interface" then criteria { current with interface := .live field } rest
    else if token = "if-boolean" then
      match rest with
      | [] => .error .null
      | value :: rest' =>
        criteria { current with ifBool := .live field, ifBoolFlag := value = "true" } rest'
    else if token = "stubdom" then criteria { current with stubdom := true } rest
    else if token = "path" then criteria { current with path := .live field } rest
    else if token = "member" then criteria { current with member := .live field } rest
    else do return (false, ← freeRule current)

/-- `create_rule`: fill the slot `current` from the text of a rule. -/
def createRule (current : Rule) (rule : String) : Outcome (Bool × Rule) :=
  if rule = "" then .ok (false, current)
  else
    let current := { current with ruleString := .live rule }
    match strtok rule with
    | [] => .ok (false, current)
    | first :: words =>
      let current := { current with policy := first = "allow" }
      match words with
      -- strcmp(token, "all") with no second token
      | [] => .error .null
      | token :: _ =>
        if token = "all" then .ok (true, { current with all := true })
        else if token = "out-any" then .ok (true, { current with out := true })
        else criteria current words

/-- What `create_rule` makes of a text in a blank slot, when it accepts it. -/
def accepted (rule : String) : Option Rule :=
  match createRule {} rule with
  | .ok (true, r) => some r
  | _ => none

/-- The lines `getline` returns, newlines included. -/
def getlines : List Char → List (List Char)
  | [] => []
  | c :: cs =>
    if c = '\n' then ['\n'] :: getlines cs
    else match getlines cs with
      | [] => [[c]]
      | line :: lines => (c :: line) :: lines

/-- The text handed to `create_rule` for a line of the policy file, if any. The length check looks
at the size of the buffer `getline` allocated, and the last character goes whatever it is. -/
def ruleText (lineBuffer : ℕ → ℕ) (line : List Char) : Option String :=
  if lineBuffer line.length > ruleMaxLength - 1 then none
  else if (line.head?.map Char.isAlpha).getD false then
    some (String.ofList (line.takeWhile (· ≠ '\x00')).dropLast)
  else none

/-- The loop of `build_etc_policy`, with the number of slots left and the current slot. The slots
after the current one are still blank. A rejected line does not advance `rule_idx`, so the next
line is written over what `free_rule` left of it. -/
def etcLoop (lineBuffer : ℕ → ℕ) : ℕ → Rule → List (List Char) → Outcome (List Rule)
  | 0, _, _ => .ok []
  | _ + 1, _, [] => .ok []
  | n + 1, slot, line :: lines =>
    match ruleText lineBuffer line with
    | none => etcLoop lineBuffer (n + 1) slot lines
    | some text => do
      let (ok, r) ← createRule slot text
      if ok then return r :: (← etcLoop lineBuffer n {} lines)
      else etcLoop lineBuffer (n + 1) (← freeRule r) lines

/-- The identity of a virtual machine as the database spells it. -/
structure VmUuid where
  text : String
  plain : '_' ∉ text.toList
  deriving DecidableEq

/-- `TRANSFORM_UUID`. -/
def transformUuid (uuid : String) : String :=
  String.ofList (uuid.toList.map fun c => if c = '-' then '_' else c)

/-- What `build_policy` reads: the policy file, if it opens, the size of the buffer `getline`
allocates for a line of a given length, the database's list of virtual machines, if it answers,
and its string replies. -/
structure PolicySource where
  file : Option (List Char)
  lineBuffer : ℕ → ℕ
  vms : Option (List VmUuid)
  dbRead : String → Option String

/-- `db_query`: an empty reply counts as none. -/
def dbQuery (dbRead : String → Option String) (arg : String) : Option String :=
  (dbRead arg).filter (· ≠ "")

/-- `build_etc_policy`. -/
def buildEtcPolicy (src : PolicySource) : Outcome (List Rule) :=
  match src.file with
  | none => .ok []
  | some content => etcLoop src.lineBuffer maxRules {} (getlines content)

/-- `struct domain_policy`; `rules` is `rules[0..count)`. -/
structure DomainPolicy where
  uuid : String
  uuidDbFmt : String
  rules : List Rule
  deriving DecidableEq, Repr

/-- The loop of `get_rules`, with the number of slots left: slot `rule_idx` is filled from string
`rule_idx`, and `count` grows for the accepted ones only. -/
def rulesLoop (query : ℕ → Option String) : ℕ → ℕ → Outcome (List Rule × ℕ)
  | 0, _ => .ok ([], 0)
  | n + 1, idx =>
    match query idx with
    | none => .ok ([], 0)
    | some rulestring => do
      let (ok, r) ← createRule {} rulestring
      let slot ← if ok then pure r else freeRule r
      let (slots, count) ← rulesLoop query n (idx + 1)
      return (slot :: slots, if ok then count + 1 else count)

/-- The database path of a rule string. -/
def rulePath (uuid : String) (idx : ℕ) : String :=
  "/vm/" ++ uuid ++ "/rpc-firewall-rules/" ++ toString idx

/-- `get_rules`. -/
def getRules (src : PolicySource) (uuid : String) : Outcome (List Rule) := do
  let (slots, count) ← rulesLoop (fun idx => dbQuery src.dbRead (rulePath uuid idx)) maxRules 0
  return slots.take count

/-- The loop of `build_policy` over the listed machines, with the domain table's room left. -/
def domainsLoop (src : PolicySource) : ℕ → List VmUuid → Outcome (List DomainPolicy)
  | _, [] => .ok []
  | 0, _ :: _ => .error .bounds
  | n + 1, vm :: vms => do
    if uuidBuffer ≤ vm.text.length then .error .bounds
    else
      let rules ← getRules src vm.text
      let domains ← domainsLoop src n vms
      return ⟨vm.text, transformUuid vm.text, rules⟩ :: domains

/-- `struct policy`, without the request statistics that no function reads. -/
structure Policy where
  database : Bool
  etc : List Rule
  domains : List DomainPolicy
  deriving DecidableEq, Repr

/-- `build_policy`. -/
def buildPolicy (src : PolicySource) : Outcome Policy := do
  let etc ← buildEtcPolicy src
  match src.vms with
  | none => return ⟨false, etc, []⟩
  | some vms => return ⟨true, etc, ← domainsLoop src maxDomains vms⟩

/-- `free_policy`, which asks for a policy to be there. -/
def freePolicy (policy : Option Policy) : Outcome Unit :=
  match policy with
  | none => .error .null
  | some policy => do
    policy.domains.forM fun domain => domain.rules.forM fun r => do discard (freeRule r)
    policy.etc.forM fun r => do discard (freeRule r)

end Xctools.Broker
