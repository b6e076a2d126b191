import Xctools.Machine.Stream
import Xctools.Machine.Tree
import Xctools.Xcpmd.RuleTexts

/-! Rules in the database: `rule_to_json` and `json_rule_to_parseable`. The database holds trees of
strings, and JSON goes in and comes out as such a tree. -/
namespace Xctools.Xcpmd
open Machine

/-- What yajl and the database make of a JSON text: a string, or an object. -/
abbrev DbTree := Tree String String

section Encode
variable {ε : Type} (libc : Libc)

/-- An object whose keys are the indices of a list. -/
def indexed (l : List DbTree) : DbTree := .node (l.zipIdx.map fun entry => (toString entry.2, entry.1))

/-- The arguments of an item in `rule_to_json`. -/
def argsToJson (args : List Arg) : DbTree :=
  if args = [] then .leaf "" else indexed (args.map fun arg => .leaf (argToString libc arg))

def conditionToJson (c : Condition ε) : DbTree :=
  .node [("type", .leaf c.type.name), ("is_inverted", .leaf (if c.isInverted then "true" else "false")),
    ("args", argsToJson libc c.args)]

def actionToJson (a : Action) : DbTree :=
  .node [("type", .leaf a.type.name), ("args", argsToJson libc a.args)]

/-- `rule_to_json`. -/
def ruleToJson (r : Rule ε) : DbTree :=
  .node [("conditions", indexed (r.conditions.map (conditionToJson libc))),
    ("actions", indexed (r.actions.map (actionToJson libc))),
    ("undos", if r.undos = [] then .leaf "" else indexed (r.undos.map (actionToJson libc)))]

end Encode

section Decode

/-- `yajl_tree_get` for a string. -/
def getString (t : DbTree) (key : String) : Option String :=
  match t.child key with
  | some (.leaf text) => some text
  | _ => none

/-- The loop over the arguments of an item, each but the last with a blank behind it. -/
def argTexts : List (String × DbTree) → Option String
  | [] => some ""
  | (_, .node _) :: _ => none
  | (_, .leaf text) :: rest => do
    let tail ← argTexts rest
    return text ++ (if rest = [] then "" else " ") ++ tail

/-- The arguments of an item: none when there is an empty string, and malformed when there is another
one or nothing. -/
def argsText (item : DbTree) : Option String :=
  match item.child "args" with
  | some (.leaf text) => if text = "" then some "" else none
  | some (.node args) => argTexts args
  | none => none

/-- A condition up to its closing parenthesis. -/
def conditionText (item : DbTree) : Option String := do
  let inverted ← getString item "is_inverted"
  let type ← getString item "type"
  let args ← argsText item
  return (if inverted = "true" then "!" else "") ++ (type ++ "(" ++ args)

/-- An action or undo up to its closing parenthesis. -/
def actionText (item : DbTree) : Option String := do
  let type ← getString item "type"
  let args ← argsText item
  return type ++ "(" ++ args

/-- The loop over the items of a list. Entries that are not objects are passed over, and where nothing
was written the text is NULL. -/
def itemTexts (itemText : DbTree → Option String) : List (String × DbTree) → Option (Option String)
  | [] => some none
  | (_, .leaf _) :: rest => itemTexts itemText rest
  | (_, .node fields) :: rest => do
    let text ← itemText (.node fields)
    let tail ← itemTexts itemText rest
    return some (text ++ (if rest = [] then ")" else ") ") ++ tail.getD "")

/-- The texts of the conditions or the actions, which have to be an object. -/
def listText (itemText : DbTree → Option String) (t : Option DbTree) : Option (Option String) :=
  match t with
  | some (.node items) => itemTexts itemText items
  | _ => none

/-- The text of the undos, which may be an empty string. -/
def undosText (t : Option DbTree) : Option (Option String) :=
  match t with
  | some (.leaf text) => if text = "" then some none else none
  | t => listText actionText t

/-- `json_rule_to_parseable`: the texts of the conditions, the actions and the undos. -/
def jsonRuleToParseable (json : DbTree) : Option (Option String × Option String × Option String) := do
  let conditions ← listText conditionText (json.child "conditions")
  let actions ← listText actionText (json.child "actions")
  let undos ← undosText (json.child "undos")
  return (conditions, actions, undos)

end Decode

section Texts
variable {libc : Libc} {parseArg : String → Option Arg}

lemma children_indexed (l : List DbTree) : (indexed l).children.map Prod.snd = l := by
  have hsnd : Prod.snd ∘ (fun entry : DbTree × ℕ => (toString entry.2, entry.1)) = Prod.fst := rfl
  rw [indexed, Tree.children, List.map_map, hsnd, List.zipIdx_map_fst]

/-- Texts without a NUL have none when they are put together. -/
lemma null_notMem_intercalate {α : Type} {R : List Char → α → Prop} {texts : List (List Char)} {l : List α}
    (h : List.Forall₂ R texts l) (hR : ∀ t x, R t x → '\x00' ∉ t) : '\x00' ∉ [' '].intercalate texts := by
  apply notMem_intercalate (by decide)
  induction h with
  | nil => exact fun t ht => absurd ht List.not_mem_nil
  | cons hhead _ ih => exact List.forall_mem_cons.mpr ⟨hR _ _ hhead,ih⟩

lemma argTexts_eq {entries : List (String × DbTree)} {texts : List String}
    (h : entries.map Prod.snd = texts.map .leaf) : ∃ t, argTexts entries = some t ∧
      t.toList = [' '].intercalate (texts.map String.toList) := by
  induction texts generalizing entries with
  | nil =>
    rw [List.map_nil, List.map_eq_nil_iff] at h
    subst h
    exact ⟨"",rfl,rfl⟩
  | cons text texts ih =>
    obtain ⟨⟨key,_⟩,rest,rfl,rfl,hrest⟩ := List.map_eq_cons_iff.mp h
    obtain ⟨t,ht,htoList⟩ := ih hrest
    rw [argTexts, ht]
    refine ⟨_,rfl,?_⟩
    cases texts with
    | nil =>
      obtain rfl : rest = [] := by simpa using hrest
      obtain rfl : t = "" := by simpa using htoList
      simp
    | cons text' texts =>
      have hne : rest ≠ [] := by
        rintro rfl
        simp at hrest
      simp [hne, htoList, List.intercalate]

lemma argsText_eq {item : DbTree} {args : List Arg} (h : item.child "args" = some (argsToJson libc args)) :
    ∃ t, argsText item = some t ∧
      t.toList = [' '].intercalate (args.map fun arg => (argToString libc arg).toList) := by
  unfold argsText argsToJson at *
  by_cases hnil : args = []
  · subst hnil
    rw [h]
    exact ⟨"",rfl,rfl⟩
  · rw [if_neg hnil] at h
    rw [h]
    have hentries : (indexed (args.map fun arg => Tree.leaf (argToString libc arg))).children.map Prod.snd =
        (args.map (argToString libc)).map .leaf := by
      rw [children_indexed, List.map_map]
      rfl
    obtain ⟨t,ht,htoList⟩ := argTexts_eq hentries
    refine ⟨t,ht,?_⟩
    rw [htoList, List.map_map]
    rfl

/-- The item the parser makes of a condition. -/
def Condition.toFn {ε : Type} (c : Condition ε) : Fn := ⟨c.type.name, c.args.map Arg.toFnArg, !c.isInverted⟩

/-- The item the parser makes of an action. -/
def Action.toFn (a : Action) : Fn := ⟨a.type.name, a.args.map Arg.toFnArg, true⟩

lemma spoken_args {args : List Arg} (h : ∀ arg ∈ args, arg.Printable) :
    List.Forall₂ (Spoken libc parseArg) (args.map fun arg => (argToString libc arg).toList)
      (args.map Arg.toFnArg) := by
  rw [List.forall₂_map_left_iff, List.forall₂_map_right_iff, List.forall₂_same]
  exact fun arg harg => spoken_argToString (h arg harg)

/-- A condition in the database spells its item. -/
lemma conditionText_spells {ε : Type} {c : Condition ε} (hname : IsName c.type.name)
    (hargs : ∀ arg ∈ c.args, arg.Printable) : ∃ t, conditionText (conditionToJson libc c) = some t ∧
      Spells libc parseArg (t.toList ++ [')']) c.toFn := by
  have hchild : (conditionToJson libc c).child "args" = some (argsToJson libc c.args) := rfl
  obtain ⟨args,hargsText,htoList⟩ := argsText_eq hchild
  have hinverted : getString (conditionToJson libc c) "is_inverted" =
      some (if c.isInverted then "true" else "false") := rfl
  have htype : getString (conditionToJson libc c) "type" = some c.type.name := rfl
  refine ⟨_,by rw [conditionText, hinverted, htype, hargsText]; rfl,hname,_,spoken_args hargs,?_⟩
  rw [Condition.toFn, ← htoList]
  cases c.isInverted <;> simp

/-- An action or undo in the database spells its item. -/
lemma actionText_spells {a : Action} (hname : IsName a.type.name) (hargs : ∀ arg ∈ a.args, arg.Printable) :
    ∃ t, actionText (actionToJson libc a) = some t ∧ Spells libc parseArg (t.toList ++ [')']) a.toFn := by
  have hchild : (actionToJson libc a).child "args" = some (argsToJson libc a.args) := rfl
  obtain ⟨args,hargsText,htoList⟩ := argsText_eq hchild
  have htype : getString (actionToJson libc a) "type" = some a.type.name := rfl
  refine ⟨_,by rw [actionText, htype, hargsText]; rfl,hname,_,spoken_args hargs,?_⟩
  rw [Action.toFn, ← htoList]
  simp

/-- A list of items in the database spells its items. -/
lemma itemTexts_spells {itemText : DbTree → Option String} {entries : List (String × DbTree)} {fns : List Fn}
    (h : List.Forall₂ (fun item fn => (∃ fields, item = .node fields) ∧ ∃ t, itemText item = some t ∧
      Spells libc parseArg (t.toList ++ [')']) fn) (entries.map Prod.snd) fns) :
    ∃ t texts, itemTexts itemText entries = some t ∧ List.Forall₂ (Spells libc parseArg) texts fns ∧
      (t.getD "").toList = [' '].intercalate texts := by
  induction fns generalizing entries with
  | nil =>
    rw [List.forall₂_nil_right_iff, List.map_eq_nil_iff] at h
    subst h
    exact ⟨none,[],rfl,.nil,rfl⟩
  | cons fn fns ih =>
    obtain ⟨item,items,⟨⟨fields,hnode⟩,t,ht,hspells⟩,hrest,hentries⟩ := List.forall₂_cons_right_iff.mp h
    obtain ⟨⟨key,_⟩,rest,rfl,hitem,rfl⟩ := List.map_eq_cons_iff.mp hentries
    obtain rfl := hitem.trans hnode
    subst hnode
    obtain ⟨tail,texts,htail,hall,htoList⟩ := ih hrest
    rw [itemTexts, ht, htail]
    refine ⟨_,_ :: texts,rfl,.cons hspells hall,?_⟩
    cases hall with
    | nil =>
      obtain rfl : rest = [] := by simpa using hrest
      obtain rfl : tail = none := (Option.some.inj htail).symm
      simp
    | cons hhead hall =>
      have hne : rest ≠ [] := by
        rintro rfl
        cases hrest
      simp [hne, htoList, List.intercalate]

lemma Spoken.null {text : List Char} {arg : FnArg} (h : Spoken libc parseArg text arg) : '\x00' ∉ text := by
  obtain ⟨type,acc,hread,-⟩ := h
  exact hread.null

lemma Spells.null {text : List Char} {fn : Fn} (h : Spells libc parseArg text fn) : '\x00' ∉ text := by
  obtain ⟨hname,texts,hspoken,rfl⟩ := h
  have hargs := null_notMem_intercalate hspoken fun _ _ => Spoken.null
  have hmark : '\x00' ∉ if fn.undo then [] else ['!'] := by cases fn.undo <;> simp
  simp [hmark, hargs, null_notMem_of_class hname.word rfl]

lemma cstr_of_spells {t : Option String} {texts : List (List Char)} {fns : List Fn}
    (h : List.Forall₂ (Spells libc parseArg) texts fns) (ht : (t.getD "").toList = [' '].intercalate texts) :
    cstr t = [' '].intercalate texts := by
  have hnull := null_notMem_intercalate h fun _ _ => Spells.null
  rw [← ht] at hnull ⊢
  exact cstr_of_null hnull

end Texts

section Decoded
variable {ε : Type} {libc : Libc} {parseArg : String → Option Arg} {r : Rule ε}

/-- A rule whose names and arguments the parser can read. -/
structure Rule.Writable (r : Rule ε) : Prop where
  conditions : ∀ c ∈ r.conditions, IsName c.type.name ∧ ∀ arg ∈ c.args, arg.Printable
  calls : ∀ a ∈ r.actions ++ r.undos, IsName a.type.name ∧ ∀ arg ∈ a.args, arg.Printable

/-- The items of a rule, as they are spelled. -/
def Rule.fns (r : Rule ε) : List Fn :=
  r.conditions.map Condition.toFn ++ r.actions.map Action.toFn ++ r.undos.map Action.toFn

lemma listText_conditions (h : r.Writable) : ∃ t texts,
    listText conditionText (some (indexed (r.conditions.map (conditionToJson libc)))) = some t ∧
      List.Forall₂ (Spells libc parseArg) texts (r.conditions.map Condition.toFn) ∧
      cstr t = [' '].intercalate texts := by
  obtain ⟨t,texts,ht,hspells,htext⟩ := @itemTexts_spells libc parseArg conditionText
    (indexed (r.conditions.map (conditionToJson libc))).children (r.conditions.map Condition.toFn) (by
      rw [children_indexed, List.forall₂_map_left_iff, List.forall₂_map_right_iff, List.forall₂_same]
      intro c hc
      obtain ⟨hname,hargs⟩ := h.conditions c hc
      exact ⟨⟨_,rfl⟩,conditionText_spells hname hargs⟩)
  exact ⟨t,texts,ht,hspells,cstr_of_spells hspells htext⟩

lemma listText_actions {actions : List Action}
    (h : ∀ a ∈ actions, IsName a.type.name ∧ ∀ arg ∈ a.args, arg.Printable) : ∃ t texts,
    listText actionText (some (indexed (actions.map (actionToJson libc)))) = some t ∧
      List.Forall₂ (Spells libc parseArg) texts (actions.map Action.toFn) ∧
      cstr t = [' '].intercalate texts := by
  obtain ⟨t,texts,ht,hspells,htext⟩ := @itemTexts_spells libc parseArg actionText
    (indexed (actions.map (actionToJson libc))).children (actions.map Action.toFn) (by
      rw [children_indexed, List.forall₂_map_left_iff, List.forall₂_map_right_iff, List.forall₂_same]
      intro a ha
      obtain ⟨hname,hargs⟩ := h a ha
      exact ⟨⟨_,rfl⟩,actionText_spells hname hargs⟩)
  exact ⟨t,texts,ht,hspells,cstr_of_spells hspells htext⟩

/-- What is stored for a rule comes back as texts that hand over its items. -/
theorem parse_ruleToJson (h : r.Writable) {varMap : VarMap} {vars : VarStore}
    (hres : ∀ fn ∈ r.fns, fn.Resolved parseArg varMap vars) :
    ∃ conditions actions undos d,
      jsonRuleToParseable (ruleToJson libc r) = some (conditions, actions, undos) ∧
      parseTexts libc parseArg varMap vars conditions actions undos = .ok d ∧ d.returned = some true ∧
      d.applied = some (r.conditions.map Condition.toFn, r.actions.map Action.toFn,
        r.undos.map fun a => { a.toFn with undo := false }) ∧ d.message = none ∧
      d.vars = (r.fns.flatMap Fn.args).foldl (readVar parseArg) vars := by
  obtain ⟨hactions,hundos⟩ := List.forall_mem_append.mp h.calls
  obtain ⟨tc,cs,htc,hcs,hcstr⟩ := @listText_conditions ε libc parseArg r h
  obtain ⟨ta,as,hta,has,hastr⟩ := @listText_actions libc parseArg _ hactions
  obtain ⟨tu,us,htu,hus,hustr⟩ : ∃ t texts,
      undosText (some (if r.undos = [] then .leaf "" else indexed (r.undos.map (actionToJson libc)))) =
        some t ∧ List.Forall₂ (Spells libc parseArg) texts (r.undos.map Action.toFn) ∧
        cstr t = [' '].intercalate texts := by
    by_cases hnil : r.undos = []
    · rw [hnil]
      exact ⟨none,[],rfl,.nil,rfl⟩
    · rw [if_neg hnil]
      exact listText_actions hundos
  obtain ⟨d,hd,hret,happlied,hmessage,hvars⟩ := parseTexts_of_spells hcs has hus hcstr hastr hustr hres
  refine ⟨tc,ta,tu,d,?_,hd,hret,?_,hmessage,hvars⟩
  · have hc : (ruleToJson libc r).child "conditions" =
        some (indexed (r.conditions.map (conditionToJson libc))) := rfl
    have ha : (ruleToJson libc r).child "actions" =
        some (indexed (r.actions.map (actionToJson libc))) := rfl
    have hu : (ruleToJson libc r).child "undos" =
        some (if r.undos = [] then .leaf "" else indexed (r.undos.map (actionToJson libc))) := rfl
    rw [jsonRuleToParseable, hc, ha, hu, htc, hta, htu]
    rfl
  · rw [happlied, List.map_map]
    rfl

end Decoded

end Xctools.Xcpmd
