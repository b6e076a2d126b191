import Mathlib.Data.List.DropRight
import Xctools.Xcpmd.Lifecycle
import Xctools.Xcpmd.RuleJson

/-! The requests of `xcpmd-dbus-server.c` that change the policy. The rules live in the engine and below
a node of the database, the variables in the cache and below another one; each handler updates them
one call at a time. What the database answers to a dump and what a policy file holds come with the
request. -/
namespace Xctools.Xcpmd
open Machine

section Lines

/-- The line buffer less its last byte. -/
def lineRoom : ℕ := 1023

/-- What one `fgets` after the other reads: a line, or as much of it as there is room for. -/
def fgetsLines (room : ℕ) (line : List Char) : List Char → List (List Char)
  | [] => if line = [] then [] else [line]
  | c :: rest =>
    if c = '\n' ∨ room ≤ 1 then (line ++ [c]) :: fgetsLines lineRoom [] rest
    else fgetsLines (room - 1) (line ++ [c]) rest

/-- The characters up to the blank. Bytes beyond ASCII are negative. -/
def isBlank (c : Char) : Bool := c ≤ ' ' || '\x7f' < c

/-- What is chomped from the end of a name. -/
def isGarbage (c : Char) : Bool := c < '!' || '~' < c

/-- The fields of a line: they end at a bar, at the end of the line and at the end of the text, unless a
quote is open. -/
def fields (inQuotes : Bool) (token : List Char) : List Char → List (List Char)
  | [] => if inQuotes then [] else [token]
  | c :: rest =>
    let inQuotes := if c = '"' then !inQuotes else inQuotes
    if (c = '|' ∨ c = '\n') ∧ inQuotes = false then token :: fields inQuotes [] rest
    else fields inQuotes (token ++ [c]) rest

/-- The name of a rule. One that is garbage all through is chomped beyond its start. -/
def chomp (token : List Char) : Outcome String :=
  if token.all isGarbage then .error .bounds
  else .ok (String.ofList (token.rdropWhile isGarbage))

end Lines

/-- What the database answers to a dump: an error, that there is nothing, or what there is. -/
inductive Dump
  | unavailable
  | absent
  | tree (t : DbTree)

section Config
variable {ε : Type} [DecidableEq ε] (libc : Libc) (reg : Registry ε)

/-- The loop of `parse_config_from_file`: the engine, the variables of the file, the section, and whether
the rest of a long line is being skipped. -/
structure FileLoad (ε : Type) where
  engine : Engine ε
  varMap : VarMap := []
  inVarSection : Bool := true
  skipping : Bool := false

/-- A line of the variables' section. -/
def parseVarLine (l : FileLoad ε) (line : List Char) : Outcome (FileLoad ε) := do
  let d ← parseVarPersistent libc reg.parseArg l.varMap l.engine.vars (String.ofList line)
  if d.returned ≠ some true then
    let _ ← extractParseError d.errorCode ruleCodeNotSet d.message
  return { l with engine := l.engine.withVars d.vars, varMap := d.varMap }

/-- `parse_rule_persistent` where a failure is only logged. -/
def parseRuleLogged (s : Engine ε) (varMap : VarMap) (name conditions actions undos : Option String) :
    Outcome (Engine ε) := do
  let (s', d, ruleErrorCode) ← parseRulePersistent libc reg s varMap name conditions actions undos
  if d.returned ≠ some true then
    let _ ← extractParseError d.errorCode ruleErrorCode d.message
  return s'

/-- The name in the first field of a line, if it ends. -/
def fieldName (tokens : List (List Char)) : Outcome (Option String) :=
  match tokens with
  | [] => .ok none
  | token :: _ => do return some (← chomp token)

/-- A line of the rules' section. -/
def parseRuleLine (l : FileLoad ε) (line : List Char) : Outcome (FileLoad ε) := do
  let tokens := fields false [] line
  let name ← fieldName tokens
  let engine ← parseRuleLogged libc reg l.engine l.varMap name (tokens[1]?.map String.ofList)
    (tokens[2]?.map String.ofList) (tokens[3]?.map String.ofList)
  return { l with engine }

/-- One round of the loop. -/
def parseLine (l : FileLoad ε) (chunk : List Char) : Outcome (FileLoad ε) :=
  let line := chunk.takeWhile fun c => c ≠ '\x00'
  if l.skipping then .ok { l with skipping := '\n' ∉ line }
  else if line.head? = some '#' then .ok l
  else if line.all isBlank then .ok l
  else if '\n' ∉ line then .ok { l with skipping := true }
  else if '=' ∈ line then .ok { l with inVarSection := false }
  else if l.inVarSection then parseVarLine libc reg l line
  else parseRuleLine libc reg l line

/-- `parse_config_from_file`: whether the file was read. A last line without an end is looked for
forever. -/
def parseConfigFromFile (s : Engine ε) (file : Option (List Char)) : Outcome (Bool × Engine ε) :=
  match file with
  | none => .ok (false, s)
  | some text => do
    let l ← (fgetsLines lineRoom [] text).foldlM (parseLine libc reg) { engine := s }
    if l.skipping then .error .loop else return (true, l.engine)

/-- One entry of the rules' node in `parse_db_rules`. -/
def parseDbRule (varMap : VarMap) (dump : String → Dump) (s : Engine ε) (entry : String × DbTree) :
    Outcome (Engine ε) :=
  match dump entry.1 with
  | .unavailable | .absent => .ok s
  | .tree json =>
    match jsonRuleToParseable json with
    | none => .ok s
    | some (conditions, actions, undos) =>
      parseRuleLogged libc reg s varMap (some entry.1) conditions actions undos

/-- `parse_db_rules`, with what the database answers for the rules' node and for the paths below it. -/
def parseDbRules (s : Engine ε) (varMap : VarMap) (node : Dump) (dump : String → Dump) :
    Outcome (Bool × Engine ε) :=
  match node with
  | .unavailable => .ok (false, s)
  | .absent => .ok (true, s)
  | .tree (.leaf _) => .ok (false, s)
  | .tree (.node rules) => do return (true, ← rules.foldlM (parseDbRule libc reg varMap dump) s)

/-- `parse_config_from_db`: whether variables and rules were read. -/
def parseConfigFromDb (s : Engine ε) (vars : Option (List (String × String))) (node : Dump)
    (dump : String → Dump) : Outcome (Bool × Engine ε) := do
  let l ← parseDbVars libc reg.parseArg s.vars vars
  let s' := s.withVars l.vars
  if l.success then parseDbRules libc reg s' l.varMap node dump else return (false, s')

end Config

/-- The engine, and what the database holds below `DB_RULE_PATH`. -/
structure Daemon (ε : Type) where
  engine : Engine ε
  rulesNode : DbTree

section Handlers
variable {ε : Type} [DecidableEq ε] (libc : Libc) (reg : Registry ε)

/-- The keys on the way to a rule of a name. -/
def rulePath (name : String) : List String := (name.toList.splitOn '/').map String.ofList

/-- `write_db_rule`. -/
def writeDbRule (t : DbTree) (r : Rule ε) : DbTree := Tree.inject (ruleToJson libc r) t (rulePath r.id)

/-- `write_db_rules`. -/
def writeDbRules (t : DbTree) (rules : List (Rule ε)) : DbTree := rules.foldl (writeDbRule libc) t

/-- `delete_db_rule`. -/
def deleteDbRule (t : DbTree) (name : String) : DbTree := t.rm (rulePath name)

/-- `delete_db_rules`. -/
def deleteDbRules (t : DbTree) : DbTree := t.rm []

/-- `write_db_rule` on what `get_rule_tail` finds. -/
def writeRuleTail (t : DbTree) (s : Engine ε) : Outcome DbTree :=
  match s.rules.getLast? with
  | none => .error .null
  | some r => .ok (writeDbRule libc t r)

/-- `parse_rule`: the state, and the error if there is one. -/
def parseRule (d : Daemon ε) (vars : Option (List (String × String)))
    (name conditions actions undos : String) : Outcome (Daemon ε × Option String) := do
  let l ← parseDbVars libc reg.parseArg d.engine.vars vars
  let s := d.engine.withVars l.vars
  if l.success then
    let (s', p, ruleErrorCode) ← parseRulePersistent libc reg s l.varMap (some name) (some conditions)
      (some actions) (some undos)
    if p.returned = some true then
      return (⟨s', ← writeRuleTail libc d.rulesNode s'⟩, none)
    else
      let why ← extractParseError p.errorCode ruleErrorCode p.message
      if p.errorCode &&& 0xF00 = recoverableError then
        return (⟨s', ← writeRuleTail libc d.rulesNode s'⟩, some why)
      else return (⟨s', d.rulesNode⟩, some ("couldn't parse rule " ++ name ++ ": " ++ why))
  else return (⟨s, d.rulesNode⟩, some ("couldn't parse varmap: " ++ l.message.getD "(null)"))

/-- `xcpmd_remove_rule`. -/
def xcpmdRemoveRule (d : Daemon ε) (name : String) : Outcome (Daemon ε × Option String) :=
  match lookupRule d.engine name with
  | none => .ok (d, some ("No rule named " ++ name))
  | some r => do return (⟨← deleteRule reg d.engine r, deleteDbRule d.rulesNode name⟩, none)

/-- `xcpmd_load_policy_from_file`. -/
def xcpmdLoadPolicyFromFile (d : Daemon ε) (file : Option (List Char)) :
    Outcome (Daemon ε × Option String) := do
  let (read, s) ← parseConfigFromFile libc reg d.engine file
  return (⟨s, writeDbRules libc d.rulesNode s.rules⟩,
    if read then none else some "Error parsing config file--check dom0 syslog")

/-- `xcpmd_load_policy_from_db`. -/
def xcpmdLoadPolicyFromDb (d : Daemon ε) (vars : Option (List (String × String))) (node : Dump)
    (dump : String → Dump) : Outcome (Daemon ε × Option String) := do
  let s ← deleteRules reg d.engine
  let (read, s') ← parseConfigFromDb libc reg s vars node dump
  return (⟨s', d.rulesNode⟩, if read then none else some "Error parsing DB policy--check dom0 syslog")

/-- `xcpmd_clear_policy`. -/
def xcpmdClearPolicy (d : Daemon ε) : Outcome (Daemon ε × Option String) := do
  let s ← deleteRules reg d.engine
  return (⟨s.withVars (deleteVars s.vars), deleteDbRules d.rulesNode⟩, none)

/-- `xcpmd_clear_rules`. -/
def xcpmdClearRules (d : Daemon ε) : Outcome (Daemon ε × Option String) := do
  return (⟨← deleteRules reg d.engine, deleteDbRules d.rulesNode⟩, none)

/-- `xcpmd_clear_vars`. -/
def xcpmdClearVars (d : Daemon ε) : Daemon ε × Option String :=
  (⟨d.engine.withVars (deleteVars d.engine.vars), d.rulesNode⟩, none)

/-- `xcpmd_add_var`. -/
def xcpmdAddVar (d : Daemon ε) (name value : String) : Outcome (Daemon ε × Option String) := do
  let (added, vars, why) ← parseVar libc reg.parseArg d.engine.vars (name ++ "(" ++ value ++ ")")
  return (⟨d.engine.withVars vars, d.rulesNode⟩, if added then none else some why)

/-- `xcpmd_remove_var`. -/
def xcpmdRemoveVar (d : Daemon ε) (name : String) : Daemon ε × Option String :=
  let (removed, vars) := deleteVar d.engine.vars name
  (⟨d.engine.withVars vars, d.rulesNode⟩,
    if removed then none else some "Variable still referenced by at least one rule")

/-- The requests, with what the database and the file system have to say to them. -/
inductive Rpc
  | addRule (vars : Option (List (String × String))) (name conditions actions undos : String)
  | removeRule (name : String)
  | addVar (name value : String)
  | removeVar (name : String)
  | clearRules
  | clearVars
  | clearPolicy
  | loadPolicyFromDb (vars : Option (List (String × String))) (node : Dump) (dump : String → Dump)
  | loadPolicyFromFile (file : Option (List Char))

/-- One request: the state afterwards, and the error the caller gets. -/
def handle (d : Daemon ε) : Rpc → Outcome (Daemon ε × Option String)
  | .addRule vars name conditions actions undos => parseRule libc reg d vars name conditions actions undos
  | .removeRule name => xcpmdRemoveRule reg d name
  | .addVar name value => xcpmdAddVar libc reg d name value
  | .removeVar name => .ok (xcpmdRemoveVar d name)
  | .clearRules => xcpmdClearRules reg d
  | .clearVars => .ok (xcpmdClearVars d)
  | .clearPolicy => xcpmdClearPolicy reg d
  | .loadPolicyFromDb vars node dump => xcpmdLoadPolicyFromDb libc reg d vars node dump
  | .loadPolicyFromFile file => xcpmdLoadPolicyFromFile libc reg d file

/-- The state after one request. -/
def serve (d : Daemon ε) (rpc : Rpc) : Outcome (Daemon ε) := (handle libc reg d rpc).map Prod.fst

/-- No policy, neither loaded nor stored. -/
def Daemon.start (value : ε → Value) : Daemon ε where
  engine := Engine.start value ⟨[], fun _ => none⟩
  rulesNode := .node []

end Handlers

section Keeping
variable {ε : Type} [DecidableEq ε] {libc : Libc} {reg : Registry ε} {I : Engine ε → Prop} {s s' : Engine ε}
  {varMap : VarMap}

/-- Every item of a rule is such as the parser reads. -/
structure ParsedRule.Formed (parsed : ParsedRule) : Prop where
  conditions : ∀ fn ∈ parsed.conditions, fn.Formed
  actions : ∀ fn ∈ parsed.actions, fn.Formed
  undos : ∀ fn ∈ parsed.undos, fn.Formed

/-- What the parser does to the engine, one call at a time, keeps a property. -/
structure PolicyKept (libc : Libc) (reg : Registry ε) (I : Engine ε → Prop) : Prop where
  lookupVar : ∀ s name, I s → I (s.withVars (lookupVar reg.parseArg s.vars name).2)
  addVar : ∀ s name arg, IsName name → arg.Formed → (∀ n, arg ≠ .var n) → I s →
    I (s.withVars (addVar libc reg.parseArg s.vars name (convFnArg arg)).2.1)
  applyRule : ∀ s parsed s' code err, parsed.Formed → I s →
    applyRule reg s parsed = .ok (s', code, err) → I s'

lemma PolicyKept.vars (hI : PolicyKept libc reg I) (s : Engine ε) (mode : ParsedType) :
    Kept libc reg.parseArg mode fun vars => I (s.withVars vars) where
  lookupVar vars name h := hI.lookupVar (s.withVars vars) name h
  addVar _ vars name arg hname harg hvar h := hI.addVar (s.withVars vars) name arg hname harg hvar h

lemma PolicyKept.parseRulePersistent (hI : PolicyKept libc reg I)
    {name conditions actions undos : Option String} {d : ParseData} {code : ℕ} (hs : I s)
    (h : parseRulePersistent libc reg s varMap name conditions actions undos = .ok (s', d, code)) :
    I s' := by
  obtain ⟨p,hp,h⟩ := parseRulePersistent_eq_ok h
  obtain ⟨hvars,hformed⟩ :=
    @parseTexts_keeps libc _ (fun vars => I (s.withVars vars)) _ _ _ _ _ _ (hI.vars s .condition).lookupVar hs hp
  rcases h with ⟨-,rfl,-⟩ | ⟨parsed,happ,-,err,text,ht,-⟩
  · exact hvars
  · obtain ⟨hconds,hacts,hundos⟩ := hformed _ happ
    exact hI.applyRule _ _ _ _ _ ⟨hconds,hacts,hundos⟩ hvars ht

lemma parseRuleLogged_eq_ok {name conditions actions undos : Option String}
    (h : parseRuleLogged libc reg s varMap name conditions actions undos = .ok s') :
    ∃ d code, parseRulePersistent libc reg s varMap name conditions actions undos = .ok (s', d, code) := by
  obtain ⟨⟨t,d,code⟩,ht,h⟩ := bind_eq_ok.mp h
  dsimp only at h
  split_ifs at h
  · obtain ⟨why,-,h⟩ := bind_eq_ok.mp h
    obtain rfl := Except.ok.inj h
    exact ⟨d,code,ht⟩
  · obtain rfl := Except.ok.inj h
    exact ⟨d,code,ht⟩

lemma PolicyKept.parseRuleLogged (hI : PolicyKept libc reg I)
    {name conditions actions undos : Option String} (hs : I s)
    (h : parseRuleLogged libc reg s varMap name conditions actions undos = .ok s') : I s' := by
  obtain ⟨d,code,ht⟩ := parseRuleLogged_eq_ok h
  exact hI.parseRulePersistent hs ht

/-- A line is passed over, or read as a variable or as a rule. -/
lemma parseLine_cases {l l' : FileLoad ε} {chunk : List Char} (h : parseLine libc reg l chunk = .ok l') :
    l'.engine = l.engine ∨ parseVarLine libc reg l (chunk.takeWhile fun c => c ≠ '\x00') = .ok l' ∨
      parseRuleLine libc reg l (chunk.takeWhile fun c => c ≠ '\x00') = .ok l' := by
  unfold parseLine at h
  dsimp only at h
  split_ifs at h
  · exact .inl (by rw [← Except.ok.inj h])
  · exact .inl (by rw [← Except.ok.inj h])
  · exact .inl (by rw [← Except.ok.inj h])
  · exact .inl (by rw [← Except.ok.inj h])
  · exact .inr (.inl h)
  · exact .inr (.inr h)
  · exact .inl (by rw [← Except.ok.inj h])

lemma PolicyKept.parseVarLine (hI : PolicyKept libc reg I) {l l' : FileLoad ε} {line : List Char}
    (hs : I l.engine) (h : parseVarLine libc reg l line = .ok l') : I l'.engine := by
  obtain ⟨d,hd,h⟩ := bind_eq_ok.mp h
  have hkept := parseVarPersistent_keeps (hI.vars l.engine .varMap) hs hd
  dsimp only at h
  split_ifs at h
  · obtain ⟨why,-,h⟩ := bind_eq_ok.mp h
    obtain rfl := Except.ok.inj h
    exact hkept
  · obtain rfl := Except.ok.inj h
    exact hkept

lemma PolicyKept.parseRuleLine (hI : PolicyKept libc reg I) {l l' : FileLoad ε} {line : List Char}
    (hs : I l.engine) (h : parseRuleLine libc reg l line = .ok l') : I l'.engine := by
  obtain ⟨name,-,h⟩ := bind_eq_ok.mp h
  obtain ⟨engine,hengine,h⟩ := bind_eq_ok.mp h
  obtain rfl := Except.ok.inj h
  exact hI.parseRuleLogged hs hengine

lemma PolicyKept.parseLine (hI : PolicyKept libc reg I) {l l' : FileLoad ε} {chunk : List Char}
    (hs : I l.engine) (h : parseLine libc reg l chunk = .ok l') : I l'.engine := by
  rcases parseLine_cases h with heq | hvar | hrule
  · rw [heq]
    exact hs
  · exact hI.parseVarLine hs hvar
  · exact hI.parseRuleLine hs hrule

lemma PolicyKept.parseConfigFromFile (hI : PolicyKept libc reg I) {file : Option (List Char)} {read : Bool}
    (hs : I s) (h : parseConfigFromFile libc reg s file = .ok (read, s')) : I s' := by
  cases file with
  | none =>
    obtain ⟨-,rfl⟩ := Prod.mk.inj (Except.ok.inj h)
    exact hs
  | some text =>
    obtain ⟨l,hl,h⟩ := bind_eq_ok.mp h
    have hkept : I l.engine := perform_invariant (I := fun l : FileLoad ε => I l.engine)
      (fun _ _ _ hl hstep => hI.parseLine hl hstep) hs hl
    split_ifs at h
    obtain ⟨-,rfl⟩ := Prod.mk.inj (Except.ok.inj h)
    exact hkept

lemma PolicyKept.parseDbRule (hI : PolicyKept libc reg I) {dump : String → Dump} {entry : String × DbTree}
    (hs : I s) (h : parseDbRule libc reg varMap dump s entry = .ok s') : I s' := by
  unfold Xcpmd.parseDbRule at h
  split at h
  · obtain rfl := Except.ok.inj h
    exact hs
  · obtain rfl := Except.ok.inj h
    exact hs
  · split at h
    · obtain rfl := Except.ok.inj h
      exact hs
    · exact hI.parseRuleLogged hs h

lemma PolicyKept.parseDbRules (hI : PolicyKept libc reg I) {node : Dump} {dump : String → Dump} {read : Bool}
    (hs : I s) (h : parseDbRules libc reg s varMap node dump = .ok (read, s')) : I s' := by
  unfold Xcpmd.parseDbRules at h
  split at h
  · obtain ⟨-,rfl⟩ := Prod.mk.inj (Except.ok.inj h)
    exact hs
  · obtain ⟨-,rfl⟩ := Prod.mk.inj (Except.ok.inj h)
    exact hs
  · obtain ⟨-,rfl⟩ := Prod.mk.inj (Except.ok.inj h)
    exact hs
  · obtain ⟨t,ht,h⟩ := bind_eq_ok.mp h
    obtain ⟨-,rfl⟩ := Prod.mk.inj (Except.ok.inj h)
    exact perform_invariant (fun _ _ _ ht hstep => hI.parseDbRule ht hstep) hs ht

lemma PolicyKept.parseConfigFromDb (hI : PolicyKept libc reg I) {vars : Option (List (String × String))}
    {node : Dump} {dump : String → Dump} {read : Bool} (hs : I s)
    (h : parseConfigFromDb libc reg s vars node dump = .ok (read, s')) : I s' := by
  obtain ⟨l,hl,h⟩ := bind_eq_ok.mp h
  have hkept := parseDbVars_keeps (hI.vars s .varMap) hs hl
  dsimp only at h
  split_ifs at h
  · exact hI.parseDbRules hkept h
  · obtain ⟨-,rfl⟩ := Prod.mk.inj (Except.ok.inj h)
    exact hkept

/-- What `parse_rule` comes to for the engine. -/
lemma PolicyKept.parseRule (hI : PolicyKept libc reg I) {d d' : Daemon ε}
    {vars : Option (List (String × String))} {name conditions actions undos : String} {err : Option String}
    (hs : I d.engine) (h : parseRule libc reg d vars name conditions actions undos = .ok (d', err)) :
    I d'.engine := by
  obtain ⟨l,hl,h⟩ := bind_eq_ok.mp h
  have hkept := parseDbVars_keeps (hI.vars d.engine .varMap) hs hl
  dsimp only at h
  split at h
  · obtain ⟨⟨t,p,code⟩,ht,h⟩ := bind_eq_ok.mp h
    have hrule := hI.parseRulePersistent hkept ht
    dsimp only at h
    split at h
    · obtain ⟨tree,-,h⟩ := bind_eq_ok.mp h
      obtain ⟨rfl,-⟩ := Prod.mk.inj (Except.ok.inj h)
      exact hrule
    · obtain ⟨why,-,h⟩ := bind_eq_ok.mp h
      split at h
      · obtain ⟨tree,-,h⟩ := bind_eq_ok.mp h
        obtain ⟨rfl,-⟩ := Prod.mk.inj (Except.ok.inj h)
        exact hrule
      · obtain ⟨rfl,-⟩ := Prod.mk.inj (Except.ok.inj h)
        exact hrule
  · obtain ⟨rfl,-⟩ := Prod.mk.inj (Except.ok.inj h)
    exact hkept

lemma serve_eq_ok {d d' : Daemon ε} {rpc : Rpc} :
    serve libc reg d rpc = .ok d' ↔ ∃ err, handle libc reg d rpc = .ok (d', err) := by
  unfold serve
  cases handle libc reg d rpc with
  | error e => simp [Except.map]
  | ok r => simp [Except.map, Prod.ext_iff]

/-- What the parser, the deletion of a rule and the removal of a variable keep, every request keeps, if
clearing the variables does where it is asked for. -/
theorem serve_keeps (hI : PolicyKept libc reg I) (hlinked : ∀ t, I t → Linked reg t)
    (hdelete : ∀ t q vars, I t → q ∈ t.rules →
      q.varNames.foldlM (changeRef reg.parseArg (-1)) t.vars = .ok vars → I (t.without q vars))
    (hremove : ∀ t name, I t → I (t.withVars (deleteVar t.vars name).2))
    (hclear : ∀ t, I t → t.rules = [] → I (t.withVars (deleteVars t.vars))) {d d' : Daemon ε} {rpc : Rpc}
    (hs : I d.engine) (hrpc : rpc = .clearVars → I (d.engine.withVars (deleteVars d.engine.vars)))
    (h : serve libc reg d rpc = .ok d') : I d'.engine := by
  obtain ⟨err,h⟩ := serve_eq_ok.mp h
  cases rpc with
  | addRule vars name conditions actions undos => exact hI.parseRule hs h
  | removeRule name =>
    simp only [handle, xcpmdRemoveRule] at h
    cases hr : lookupRule d.engine name with
    | none =>
      rw [hr] at h
      obtain ⟨rfl,-⟩ := Prod.mk.inj (Except.ok.inj h)
      exact hs
    | some r =>
      have hmem : r ∈ d.engine.rules := List.mem_of_find?_eq_some hr
      simp only [hr, (hlinked _ hs).deleteRule_eq hmem] at h
      obtain ⟨t,ht,h⟩ := bind_eq_ok.mp h
      obtain ⟨vars,hvars,ht⟩ := bind_eq_ok.mp ht
      obtain rfl := Except.ok.inj ht
      obtain ⟨rfl,-⟩ := Prod.mk.inj (Except.ok.inj h)
      exact hdelete _ r vars hs hmem hvars
  | addVar name value =>
    obtain ⟨⟨added,vars,why⟩,hv,h⟩ := bind_eq_ok.mp h
    obtain ⟨rfl,-⟩ := Prod.mk.inj (Except.ok.inj h)
    exact parseVar_keeps (hI.vars d.engine .varMap) hs hv
  | removeVar name =>
    obtain ⟨rfl,-⟩ := Prod.mk.inj (Except.ok.inj h)
    exact hremove _ name hs
  | clearRules =>
    obtain ⟨t,ht,h⟩ := bind_eq_ok.mp h
    obtain ⟨rfl,-⟩ := Prod.mk.inj (Except.ok.inj h)
    exact (deleteRules_invariant hlinked hdelete hs ht).1
  | clearVars =>
    obtain ⟨rfl,-⟩ := Prod.mk.inj (Except.ok.inj h)
    exact hrpc rfl
  | clearPolicy =>
    obtain ⟨t,ht,h⟩ := bind_eq_ok.mp h
    obtain ⟨rfl,-⟩ := Prod.mk.inj (Except.ok.inj h)
    obtain ⟨hempty,hnil⟩ := deleteRules_invariant hlinked hdelete hs ht
    exact hclear t hempty hnil
  | loadPolicyFromDb vars node dump =>
    obtain ⟨t,ht,h⟩ := bind_eq_ok.mp h
    obtain ⟨⟨read,u⟩,hu,h⟩ := bind_eq_ok.mp h
    obtain ⟨rfl,-⟩ := Prod.mk.inj (Except.ok.inj h)
    exact hI.parseConfigFromDb (deleteRules_invariant hlinked hdelete hs ht).1 hu
  | loadPolicyFromFile file =>
    obtain ⟨⟨read,u⟩,hu,h⟩ := bind_eq_ok.mp h
    obtain ⟨rfl,-⟩ := Prod.mk.inj (Except.ok.inj h)
    exact hI.parseConfigFromFile hs hu

end Keeping

end Xctools.Xcpmd
