import Xctools.Xcpmd.Literals

/-! Whole rules in the parser. A list of items that are spelled out and separated by blanks is gathered
item by item; from the end of each text the machine goes on to the next one, and after the last it
hands over exactly the items that were spelled. -/
namespace Xctools.Xcpmd
open Machine

/-- A text that spells an item: an exclamation mark if it is inverted, its name, and its arguments. -/
def Spells (libc : Libc) (parseArg : String → Option Arg) (text : List Char) (fn : Fn) : Prop :=
  IsName fn.name ∧ ∃ texts, List.Forall₂ (Spoken libc parseArg) texts fn.args ∧
    text = (if fn.undo then [] else ['!']) ++ (fn.name.toList ++ '(' :: ([' '].intercalate texts ++ [')']))

/-- The lists of items a rule is gathered in. -/
abbrev FnLists := List Fn × List Fn × List Fn

def ParseData.lists (d : ParseData) : FnLists := (d.conditions, d.actions, d.undoActions)

/-- Where items go while a list is read. An undo is never inverted. -/
def addTo (mode : ParsedType) (lists : FnLists) (fns : List Fn) : FnLists :=
  match mode with
  | .condition => (lists.1 ++ fns, lists.2)
  | .action => (lists.1, lists.2.1 ++ fns, lists.2.2)
  | .undoAction => (lists.1, lists.2.1, lists.2.2 ++ fns.map fun fn => { fn with undo := false })
  | _ => lists

/-- The three lists of a rule. -/
def IsRuleMode (mode : ParsedType) : Prop := mode = .condition ∨ mode = .action ∨ mode = .undoAction

lemma addTo_nil (mode : ParsedType) (lists : FnLists) : addTo mode lists [] = lists := by
  cases mode <;> simp [addTo]

lemma addTo_addTo (mode : ParsedType) (lists : FnLists) (fns fns' : List Fn) :
    addTo mode (addTo mode lists fns) fns' = addTo mode lists (fns ++ fns') := by
  cases mode <;> simp [addTo]

section Gather
variable {libc : Libc} {parseArg : String → Option Arg} {d d' d'' : ParseData} {fn : Fn} {fns fns' : List Fn}

/-- Items were gathered: they are in their list, their variables were looked up, and the rest of the
machine is as it was. -/
structure Gathered (parseArg : String → Option Arg) (fns : List Fn) (d d' : ParseData) : Prop extends
    Fixed d d' where
  varMap : d'.varMap = d.varMap
  errorCode : d'.errorCode = d.errorCode
  message : d'.message = d.message
  vars : d'.vars = (fns.flatMap Fn.args).foldl (readVar parseArg) d.vars
  lists : d'.lists = addTo d.parsing d.lists fns

lemma gathered_nil (d : ParseData) : Gathered parseArg [] d d where
  toFixed := ⟨rfl,rfl,rfl,rfl⟩
  varMap := rfl
  errorCode := rfl
  message := rfl
  vars := rfl
  lists := (addTo_nil _ _).symm

lemma Gathered.trans (h : Gathered parseArg fns d d') (h' : Gathered parseArg fns' d' d'') :
    Gathered parseArg (fns ++ fns') d d'' where
  toFixed := h.toFixed.trans h'.toFixed
  varMap := h'.varMap.trans h.varMap
  errorCode := h'.errorCode.trans h.errorCode
  message := h'.message.trans h.message
  vars := by rw [h'.vars, h.vars, List.flatMap_append, List.foldl_append]
  lists := by rw [h'.lists, h.lists, h.parsing, addTo_addTo]

/-- The machine outside of an item. -/
structure Idle (d : ParseData) : Prop extends Live d where
  name : d.accumName = []
  arg : d.accumArg = []
  args : d.args = []
  undo : d.undo = true

lemma Between.idle (h : Between d) : Idle d := ⟨h.toLive,h.name,h.arg,h.args,h.undo⟩

/-- What the end of an item comes to while a rule is read. -/
lemma storeFn_idle (hmode : IsRuleMode d.parsing) (hd : Live d) (harg : d.accumArg = []) :
    Idle (storeFn libc parseArg d) ∧
      (storeFn libc parseArg d).lists =
        addTo d.parsing d.lists [⟨String.ofList d.accumName, d.args, d.undo⟩] ∧
      (storeFn libc parseArg d).varMap = d.varMap ∧ (storeFn libc parseArg d).errorCode = d.errorCode ∧
      (storeFn libc parseArg d).message = d.message ∧ (storeFn libc parseArg d).vars = d.vars := by
  unfold storeFn
  rcases hmode with hmode | hmode | hmode
  · simp only [hmode]
    exact ⟨⟨⟨hd.finished,hd.returned⟩,rfl,harg,rfl,rfl⟩,rfl,rfl,rfl,rfl,rfl⟩
  · simp only [hmode]
    exact ⟨⟨⟨hd.finished,hd.returned⟩,rfl,harg,rfl,rfl⟩,rfl,rfl,rfl,rfl,rfl⟩
  · simp only [hmode]
    exact ⟨⟨⟨hd.finished,hd.returned⟩,rfl,harg,rfl,rfl⟩,rfl,rfl,rfl,rfl,rfl⟩

/-- The variables of an item can be found. -/
def Fn.Resolved (parseArg : String → Option Arg) (varMap : VarMap) (vars : VarStore) (fn : Fn) : Prop :=
  ∀ arg ∈ fn.args, arg.Resolved parseArg varMap vars

lemma Fn.Resolved.foldl_readVar {varMap : VarMap} {vars : VarStore} (h : fn.Resolved parseArg varMap vars)
    (args : List FnArg) : fn.Resolved parseArg varMap (args.foldl (readVar parseArg) vars) := by
  induction args generalizing vars with
  | nil => exact h
  | cons arg args ih => exact ih fun a ha => (h a ha).readVar arg

/-- An item is gathered. -/
lemma gather_item {text tail : List Char} (hspells : Spells libc parseArg text fn)
    (hmode : IsRuleMode d.parsing) (hd : Between d) (hres : fn.Resolved parseArg d.varMap d.vars)
    (hrest : d.rest = text ++ tail) :
    ∃ d', ParseRounds libc parseArg d d' ∧ Idle d' ∧ d'.state = .acceptFn ∧ d'.rest = tail ∧
      Gathered parseArg [fn] d d' := by
  obtain ⟨hname,texts,hspoken,htext⟩ := hspells
  have hitem : d.rest = (if (!fn.undo) then ['!'] else []) ++
      (fn.name.toList ++ '(' :: ([' '].intercalate texts ++ ')' :: tail)) := by
    rw [hrest, htext]
    cases fn.undo <;> simp
  have hstore : ∀ q argType, _ := fun q argType => @storeFn_idle libc parseArg
    ({ d with undo := !(!fn.undo), accumName := fn.name.toList }.withArgs parseArg fn.args tail q argType)
    hmode ⟨hd.finished,hd.returned⟩ rfl
  obtain ⟨q,argType,hrounds⟩ := rounds_item (!fn.undo) (by simpa using hname.nonempty)
    (by rw [String.length_toList]; exact hname.length) hname.word hspoken hd hres hitem
    fun q argType => (hstore q argType).1.toLive
  obtain ⟨hidle,hlists,hvarMap,hcode,hmessage,hvars⟩ := hstore q argType
  have hframe := @storeFn_frame libc parseArg
    ({ d with undo := !(!fn.undo), accumName := fn.name.toList }.withArgs parseArg fn.args tail q argType)
  refine ⟨_,hrounds,{ hidle with },rfl,hframe.rest,?_⟩
  refine { hframe.toFixed with
    varMap := hvarMap
    errorCode := hcode
    message := hmessage
    vars := ?_
    lists := ?_ }
  · rw [List.flatMap_singleton]
    exact hvars
  · refine hlists.trans ?_
    have hargs : d.args ++ fn.args = fn.args := by rw [hd.args, List.nil_append]
    simp only [ParseData.withArgs, hargs, String.ofList_toList, Bool.not_not]
    rfl

/-- A blank outside of an item is passed over. -/
lemma Idle.skip {tail : List Char} (h : Idle d) (hstate : d.state = .start ∨ d.state = .acceptFn)
    (hrest : d.rest = ' ' :: tail) : ∃ d', ParseRounds libc parseArg d d' ∧ Between d' ∧ d'.rest = tail ∧
      Gathered parseArg [] d d' := by
  refine ⟨{ d with rest := tail, state := .start },?_,?_,rfl,{ gathered_nil d with }⟩
  · exact round_of_edge (.skip hstate) (by simp) h.toLive rfl hrest rfl ⟨h.finished,h.returned⟩
  · exact ⟨⟨h.finished,h.returned⟩,rfl,h.name,h.arg,h.args,h.undo⟩

lemma Gathered.resolved (h : Gathered parseArg fns d d') (hres : fn.Resolved parseArg d.varMap d.vars) :
    fn.Resolved parseArg d'.varMap d'.vars := by
  rw [h.varMap, h.vars]
  exact hres.foldl_readVar _

/-- An item is gathered, and the blank behind it is passed over. -/
lemma gather_item_blank {text tail : List Char} (hspells : Spells libc parseArg text fn)
    (hmode : IsRuleMode d.parsing) (hd : Between d) (hres : fn.Resolved parseArg d.varMap d.vars)
    (hrest : d.rest = text ++ ' ' :: tail) :
    ∃ d', ParseRounds libc parseArg d d' ∧ Between d' ∧ d'.rest = tail ∧ Gathered parseArg [fn] d d' := by
  obtain ⟨d₁,hrounds,hidle,hstate,hrest₁,hgathered⟩ := gather_item hspells hmode hd hres hrest
  obtain ⟨d₂,hskip,hd₂,hrest₂,hskipped⟩ := @Idle.skip libc parseArg d₁ _ hidle (.inr hstate) hrest₁
  exact ⟨d₂,hrounds.trans hskip,hd₂,hrest₂,hgathered.trans hskipped⟩

/-- The machine at the end of a text. -/
structure TextEnd (d : ParseData) : Prop extends Idle d where
  state : d.state = .start ∨ d.state = .acceptFn
  rest : d.rest = []

/-- All items of a text are gathered. -/
lemma gather_items {texts : List (List Char)} (hspells : List.Forall₂ (Spells libc parseArg) texts fns)
    (hmode : IsRuleMode d.parsing) (hd : Between d) (hres : ∀ fn ∈ fns, fn.Resolved parseArg d.varMap d.vars)
    (hrest : d.rest = [' '].intercalate texts) :
    ∃ d', ParseRounds libc parseArg d d' ∧ TextEnd d' ∧ Gathered parseArg fns d d' := by
  induction hspells generalizing d with
  | nil => exact ⟨d,.refl,⟨hd.idle,.inl hd.state,hrest⟩,gathered_nil d⟩
  | @cons text fn texts fns hhead htail ih =>
    obtain ⟨hres₁,hres'⟩ := List.forall_mem_cons.mp hres
    cases htail with
    | nil =>
      rw [List.intercalate_singleton] at hrest
      obtain ⟨d₁,hrounds,hidle,hstate,hrest₁,hgathered⟩ :=
        gather_item hhead hmode hd hres₁ (hrest.trans (List.append_nil text).symm)
      exact ⟨d₁,hrounds,⟨hidle,.inr hstate,hrest₁⟩,hgathered⟩
    | @cons text' fn' texts fns hhead' htail' =>
      have hsplit : d.rest = text ++ ' ' :: [' '].intercalate (text' :: texts) := by
        rw [hrest]
        simp [List.intercalate]
      obtain ⟨d₁,hrounds,hd₁,hrest₁,hgathered⟩ := gather_item_blank hhead hmode hd hres₁ hsplit
      obtain ⟨d',hrounds',hend,hgathered'⟩ := @ih d₁ (by rw [hgathered.parsing]; exact hmode) hd₁
        (fun f hf => hgathered.resolved (hres' f hf)) hrest₁
      exact ⟨d',hrounds.trans hrounds',hend,hgathered.trans hgathered'⟩

/-- From the end of a text the machine goes on to the next. -/
lemma TextEnd.next {text : Option String} {mode : ParsedType} (h : TextEnd d)
    (hnext : d.parsing = .condition ∧ mode = .action ∧ text = d.actionsStr ∨
      d.parsing = .action ∧ mode = .undoAction ∧ text = d.undoActionsStr) :
    ParseRounds libc parseArg d
      (loadParseString { d with state := .start, parsing := mode, returned := none } text) := by
  have hcur : d.current = '\x00' := by rw [ParseData.current, h.rest, List.headD_nil]
  refine .single ⟨by simp [h.returned],?_⟩
  rw [parseRound_of_edge (.finish h.state (.inl hcur)), perform, acceptFns,
    acceptFn_of_nil (by exact h.name) (by exact h.arg), ok_bind, h.rest]
  rcases hnext with ⟨hmode,rfl,rfl⟩ | ⟨hmode,rfl,rfl⟩
  · simp only [hmode, ok_bind]
    rw [follow_acceptRule (by exact h.finished)]
    rfl
  · simp only [hmode, ok_bind]
    rw [follow_acceptRule (by exact h.finished)]
    rfl

/-- From the end of the last text the machine hands over what was gathered. -/
lemma TextEnd.last (h : TextEnd d) (hmode : d.parsing = .undoAction) (hcode : d.errorCode = noParseError) :
    ∃ d', ParseRounds libc parseArg d d' ∧ d'.returned = some true ∧ d'.applied = some d.lists ∧
      d'.vars = d.vars ∧ d'.message = d.message ∧ d'.varMap = d.varMap := by
  have hcur : d.current = '\x00' := by rw [ParseData.current, h.rest, List.headD_nil]
  have hround : parseRound libc parseArg d = .ok { d with
      applied := some d.lists, parsing := .undetermined, finished := true, conditions := [], actions := [],
      undoActions := [], state := .start, returned := some true, rest := [] } := by
    rw [parseRound_of_edge (.finish h.state (.inl hcur)), perform, acceptFns,
      acceptFn_of_nil (by exact h.name) (by exact h.arg), ok_bind, h.rest]
    simp only [hmode, ok_bind]
    rw [follow, if_pos (show transitions .acceptRule = [] from rfl)]
    simp [ParseData.lists, hcode]
  exact ⟨_,.single ⟨by simp [h.returned],hround⟩,rfl,rfl,rfl,rfl,rfl⟩

/-- A text from which the machine gathers items on its way to the end of the text. -/
def Reads (libc : Libc) (parseArg : String → Option Arg) (text : List Char) (fns : List Fn) : Prop :=
  ∀ d : ParseData, IsRuleMode d.parsing → Between d →
    (∀ fn ∈ fns, fn.Resolved parseArg d.varMap d.vars) → d.rest = text →
    ∃ d', ParseRounds libc parseArg d d' ∧ TextEnd d' ∧ Gathered parseArg fns d d'

lemma reads_of_spells {texts : List (List Char)} (h : List.Forall₂ (Spells libc parseArg) texts fns) :
    Reads libc parseArg ([' '].intercalate texts) fns :=
  fun _ hmode hd hres hrest => gather_items h hmode hd hres hrest

lemma Reads.blank {text : List Char} (h : Reads libc parseArg text fns) :
    Reads libc parseArg (' ' :: text) fns := by
  intro d hmode hd hres hrest
  obtain ⟨d₁,hskip,hd₁,hrest₁,hskipped⟩ := @Idle.skip libc parseArg d _ hd.idle (.inl hd.state) hrest
  obtain ⟨d',hrounds,hend,hgathered⟩ := h d₁ (by rw [hskipped.parsing]; exact hmode) hd₁
    (fun f hf => hskipped.resolved (hres f hf)) hrest₁
  exact ⟨d',hskip.trans hrounds,hend,hskipped.trans hgathered⟩

/-- The same where every item is followed by a blank. -/
lemma reads_spaced {texts : List (List Char)} (h : List.Forall₂ (Spells libc parseArg) texts fns) :
    Reads libc parseArg (texts.flatMap fun text => text ++ [' ']) fns := by
  induction h with
  | nil => exact reads_of_spells .nil
  | @cons text fn texts fns hhead htail ih =>
    intro d hmode hd hres hrest
    obtain ⟨hres₁,hres'⟩ := List.forall_mem_cons.mp hres
    have hsplit : d.rest = text ++ ' ' :: texts.flatMap fun text => text ++ [' '] := by
      rw [hrest, List.flatMap_cons, List.append_assoc, List.singleton_append]
    obtain ⟨d₁,hrounds,hd₁,hrest₁,hgathered⟩ := gather_item_blank hhead hmode hd hres₁ hsplit
    obtain ⟨d',hrounds',hend,hgathered'⟩ := ih d₁ (by rw [hgathered.parsing]; exact hmode) hd₁
      (fun f hf => hgathered.resolved (hres' f hf)) hrest₁
    exact ⟨d',hrounds.trans hrounds',hend,hgathered.trans hgathered'⟩

/-- The texts of a rule hand over the items that are gathered from them. -/
theorem parseTexts_of_reads {varMap : VarMap} {vars : VarStore} {conditions actions undos : Option String}
    {cs as us : List Fn} (hcs : Reads libc parseArg (cstr conditions) cs)
    (has : Reads libc parseArg (cstr actions) as) (hus : Reads libc parseArg (cstr undos) us)
    (hres : ∀ fn ∈ cs ++ as ++ us, fn.Resolved parseArg varMap vars) :
    ∃ d, parseTexts libc parseArg varMap vars conditions actions undos = .ok d ∧ d.returned = some true ∧
      d.applied = some (cs, as, us.map fun fn => { fn with undo := false }) ∧ d.message = none ∧
      d.vars = ((cs ++ as ++ us).flatMap Fn.args).foldl (readVar parseArg) vars := by
  simp only [List.forall_mem_append] at hres
  -- the conditions
  obtain ⟨d₁,hr₁,he₁,hg₁⟩ := hcs (loadParseString
      { parsing := .condition, varMap, vars, actionsStr := actions, undoActionsStr := undos } conditions)
    (.inl rfl) ⟨⟨rfl,rfl⟩,rfl,rfl,rfl,rfl,rfl⟩ hres.1.1 rfl
  have hn₁ := @TextEnd.next libc parseArg _ _ _ he₁ (.inl ⟨hg₁.parsing,rfl,hg₁.actionsStr.symm⟩)
  have hvars₁ : d₁.vars = (cs.flatMap Fn.args).foldl (readVar parseArg) vars := hg₁.vars
  have hmap₁ : d₁.varMap = varMap := hg₁.varMap
  have hlists₁ : d₁.lists = (cs, [], []) := hg₁.lists
  -- the actions
  obtain ⟨d₂,hr₂,he₂,hg₂⟩ := has
    (loadParseString { d₁ with state := .start, parsing := .action, returned := none } actions)
    (.inr (.inl rfl)) ⟨⟨he₁.finished,rfl⟩,rfl,rfl,rfl,he₁.args,he₁.undo⟩
    (fun fn hfn => by
      change fn.Resolved parseArg d₁.varMap d₁.vars
      rw [hmap₁, hvars₁]
      exact (hres.1.2 fn hfn).foldl_readVar _) rfl
  have hn₂ := @TextEnd.next libc parseArg _ _ _ he₂
    (.inr ⟨hg₂.parsing,rfl,(hg₂.undoActionsStr.trans hg₁.undoActionsStr).symm⟩)
  have hvars₂ : d₂.vars = ((cs ++ as).flatMap Fn.args).foldl (readVar parseArg) vars := by
    rw [List.flatMap_append, List.foldl_append, ← hvars₁]
    exact hg₂.vars
  have hmap₂ : d₂.varMap = varMap := hg₂.varMap.trans hmap₁
  have hlists₂ : d₂.lists = (cs, as, []) := by
    refine hg₂.lists.trans ?_
    change addTo .action d₁.lists as = _
    rw [hlists₁]
    rfl
  -- the undos
  obtain ⟨d₃,hr₃,he₃,hg₃⟩ := hus
    (loadParseString { d₂ with state := .start, parsing := .undoAction, returned := none } undos)
    (.inr (.inr rfl)) ⟨⟨he₂.finished,rfl⟩,rfl,rfl,rfl,he₂.args,he₂.undo⟩
    (fun fn hfn => by
      change fn.Resolved parseArg d₂.varMap d₂.vars
      rw [hmap₂, hvars₂]
      exact (hres.2 fn hfn).foldl_readVar _) rfl
  have hlists₃ : d₃.lists = (cs, as, us.map fun fn => { fn with undo := false }) := by
    refine hg₃.lists.trans ?_
    change addTo .undoAction d₂.lists us = _
    rw [hlists₂]
    rfl
  have hvars₃ : d₃.vars = ((cs ++ as ++ us).flatMap Fn.args).foldl (readVar parseArg) vars := by
    rw [List.flatMap_append, List.foldl_append, ← hvars₂]
    exact hg₃.vars
  have hcode : d₃.errorCode = noParseError := hg₃.errorCode.trans (hg₂.errorCode.trans hg₁.errorCode)
  obtain ⟨d,hlast,hret,happlied,hvars,hmessage,-⟩ := @TextEnd.last libc parseArg _ he₃ hg₃.parsing hcode
  refine ⟨d,parse_of_rounds ?_ (by simp [hret]),hret,happlied.trans (congrArg some hlists₃),?_,
    hvars.trans hvars₃⟩
  · exact hr₁.trans (hn₁.trans (hr₂.trans (hn₂.trans (hr₃.trans hlast))))
  · exact hmessage.trans (hg₃.message.trans (hg₂.message.trans hg₁.message))

/-- The texts of a rule that spell items hand over just these items. -/
theorem parseTexts_of_spells {varMap : VarMap} {vars : VarStore} {conditions actions undos : Option String}
    {cs as us : List Fn} {tc ta tu : List (List Char)} (hcs : List.Forall₂ (Spells libc parseArg) tc cs)
    (has : List.Forall₂ (Spells libc parseArg) ta as) (hus : List.Forall₂ (Spells libc parseArg) tu us)
    (hconditions : cstr conditions = [' '].intercalate tc) (hactions : cstr actions = [' '].intercalate ta)
    (hundos : cstr undos = [' '].intercalate tu)
    (hres : ∀ fn ∈ cs ++ as ++ us, fn.Resolved parseArg varMap vars) :
    ∃ d, parseTexts libc parseArg varMap vars conditions actions undos = .ok d ∧ d.returned = some true ∧
      d.applied = some (cs, as, us.map fun fn => { fn with undo := false }) ∧ d.message = none ∧
      d.vars = ((cs ++ as ++ us).flatMap Fn.args).foldl (readVar parseArg) vars := by
  apply parseTexts_of_reads
  · rw [hconditions]
    exact reads_of_spells hcs
  · rw [hactions]
    exact reads_of_spells has
  · rw [hundos]
    exact reads_of_spells hus
  · exact hres

end Gather

end Xctools.Xcpmd
