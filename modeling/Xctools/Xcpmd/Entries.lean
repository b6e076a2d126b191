import Xctools.Xcpmd.Written

/-! What the items of a text come to while it is parsed: the variables that are looked up, and the entries of a
variable map. A text is read up to the first item that ends the parse. -/
namespace Xctools.Xcpmd
open Machine

section Settings

/-- What items change: the variable map, the variables, the error code and the message. -/
structure Settings where
  varMap : VarMap
  vars : VarStore
  errorCode : ℕ := noParseError
  message : Option String := none

def ParseData.settings (d : ParseData) : Settings := ⟨d.varMap, d.vars, d.errorCode, d.message⟩

variable (libc : Libc) (parseArg : String → Option Arg)

/-- An entry of a variable map. -/
def Settings.enter (s : Settings) (name : String) (arg : FnArg) : Settings :=
  if (getVarFromMap s.varMap name).isSome then { s with errorCode := 1 }
  else
    let added := addVar libc parseArg s.vars name (convFnArg arg)
    { varMap := if added.1 then s.varMap ++ [(name, arg)] else s.varMap
      vars := added.2.1
      errorCode := if added.1 then noParseError else 1
      message := appendMessage s.message added.2.2 }

/-- A variable is found in the map or in the cache or the database. -/
def Settings.finds (s : Settings) (name : String) : Bool :=
  (getVarFromMap s.varMap name).isSome || (lookupVar parseArg s.vars name).1.isSome

/-- An argument can be taken: the variable it names, if it names one, is found. -/
def WrittenArg.found (s : Settings) : WrittenArg → Bool
  | var name => name = [] || s.finds parseArg (String.ofList name)
  | _ => true

/-- What an item comes to, if the parse goes on behind it. In a variable map it is an entry with one value. -/
def Settings.afterItem (mode : ParsedType) (s : Settings) (w : WrittenItem) : Option Settings :=
  if mode = .varMap then
    match w.args.filterMap (WrittenArg.read libc) with
    | [.var _] | [.undetermined] => none
    | [arg] => some (s.enter libc parseArg (String.ofList w.name) arg)
    | _ => none
  else if w.args.all (WrittenArg.found parseArg s) then some s else none

/-- What items come to, if the parse goes on behind the last of them. -/
def Settings.after (mode : ParsedType) (s : Settings) (items : List WrittenItem) : Option Settings :=
  items.foldlM (Settings.afterItem libc parseArg mode) s

/-- The parse goes on behind what has been read. -/
def Draft.Passed (mode : ParsedType) (s : Settings) (D : Draft) : Prop :=
  ∃ s', s.after libc parseArg mode D.items = some s' ∧ ∀ a ∈ D.args, a.found parseArg s' = true

variable {libc parseArg} {s s' : Settings} {mode : ParsedType} {d d' : ParseData} {name : String} {arg : FnArg}

lemma Settings.after_append (items : List WrittenItem) (w : WrittenItem) : s.after libc parseArg mode (items ++ [w]) =
    (s.after libc parseArg mode items).bind fun s' => s'.afterItem libc parseArg mode w := by
  unfold Settings.after
  rw [List.foldlM_append]
  cases items.foldlM (Settings.afterItem libc parseArg mode) s with
  | none => rfl
  | some s' => simp

lemma settings_addToVarMapAsArg : (addToVarMapAsArg libc parseArg d name arg).settings =
    d.settings.enter libc parseArg name arg := by
  unfold addToVarMapAsArg Settings.enter ParseData.settings
  dsimp only
  split_ifs with hmap hadd
  · rfl
  · rcases h : addVar libc parseArg d.vars name (convFnArg arg) with ⟨_ | _,vars,text⟩ <;> simp_all
  · rcases h : addVar libc parseArg d.vars name (convFnArg arg) with ⟨_ | _,vars,text⟩ <;> simp_all

/-- What can be found does not change when a variable is looked up. -/
lemma isSome_lookupVar_lookupVar_eq {vars : VarStore} {m : String} :
    (lookupVar parseArg (lookupVar parseArg vars name).2 m).1.isSome = (lookupVar parseArg vars m).1.isSome := by
  rw [found_lookupVar]

end Settings

section Settled
variable (libc : Libc) (parseArg : String → Option Arg)

/-- The machine has these settings, but for what is in the cache. -/
structure HasSettings (s : Settings) (d : ParseData) : Prop where
  varMap : d.varMap = s.varMap
  errorCode : d.errorCode = s.errorCode
  message : d.message = s.message
  finds : ∀ name, (lookupVar parseArg d.vars name).1.isSome = (lookupVar parseArg s.vars name).1.isSome

/-- No variables are named. -/
def Plain (args : List WrittenArg) : Prop := ∀ a ∈ args, a.type ≠ .var ∨ a.stored = []

/-- The machine has the settings behind the items and has found the arguments it has read since. -/
structure UpToDate (mode : ParsedType) (s₀ : Settings) (D : Draft) (d : ParseData) : Prop where
  parsing : d.parsing = mode
  settings : ∃ s, s₀.after libc parseArg mode D.items = some s ∧ (∀ a ∈ D.args, a.found parseArg s = true) ∧
    HasSettings parseArg s d ∧ (mode = .varMap → Plain D.args → d.vars = s.vars)

variable {libc parseArg} {mode : ParsedType} {s s' s₀ : Settings} {D D' : Draft} {d d' : ParseData}
  {q q' : ParseState} {text : List Char} {c : Char} {a : Option ParseAction}

lemma UpToDate.passed (h : UpToDate libc parseArg mode s₀ D d) : D.Passed libc parseArg mode s₀ := by
  obtain ⟨s,hafter,hfound,-⟩ := h.settings
  exact ⟨s,hafter,hfound⟩

lemma UpToDate.congr (h : UpToDate libc parseArg mode s₀ D d) (hitems : D'.items = D.items) (hargs : D'.args = D.args)
    (hparsing : d'.parsing = d.parsing) (hset : d'.settings = d.settings) : UpToDate libc parseArg mode s₀ D' d' := by
  obtain ⟨s,hafter,hfound,hagree,hvars⟩ := h.settings
  have hv : d'.vars = d.vars := congrArg Settings.vars hset
  refine ⟨hparsing.trans h.parsing,s,hitems ▸ hafter,hargs ▸ hfound,?_,fun hmode hplain => ?_⟩
  · exact ⟨(congrArg Settings.varMap hset).trans hagree.varMap,(congrArg Settings.errorCode hset).trans hagree.errorCode,
      (congrArg Settings.message hset).trans hagree.message,fun name => by rw [hv]; exact hagree.finds name⟩
  · exact hv.trans (hvars hmode (hargs ▸ hplain))

/-- An argument is found by the machine as it is by the settings behind the items. -/
lemma HasSettings.found (h : HasSettings parseArg s d) (a : WrittenArg) : a.found parseArg d.settings = a.found parseArg s := by
  cases a with
  | var name => simp only [WrittenArg.found, Settings.finds, ParseData.settings, h.varMap, h.finds]
  | _ => rfl

/-- The parse has something to say. -/
def Told (d : ParseData) : Prop := ∃ m, d.message = some m ∧ m ≠ ""

/-- Without anything in the accumulator there is no argument. -/
lemma acceptArg_of_nil (h : d.accumArg = []) : acceptArg libc parseArg d = .ok d := by
  rw [acceptArg, if_neg (by simp [h, accumSz]), if_pos h]

/-- An argument in the accumulator that is found can be taken. -/
lemma Drawn.readable {arg : WrittenArg} (h : Drawn libc D d) (harg : D.arg = some arg)
    (hlen : (storedOf D.arg).length < accumSz) (hne : arg.stored ≠ []) (hfound : arg.found parseArg d.settings = true) :
    d.Readable parseArg := by
  have hacc : d.accumArg = arg.stored := by rw [h.arg, harg, storedOf]
  have htype := h.type arg harg
  refine ⟨by rw [h.arg]; exact hlen,by rw [hacc]; exact hne,?_,?_,?_⟩
  · rw [htype]
    cases arg <;> simp [WrittenArg.type]
  · rw [htype, hacc]
    cases arg with
    | bool letter => cases hl : isTrue letter <;> simp [WrittenArg.stored, hl]
    | _ => simp [WrittenArg.type]
  · rw [htype, hacc]
    cases arg with
    | var name =>
      have hname : name ≠ [] := hne
      simpa [WrittenArg.found, hname, Settings.finds, ParseData.settings, WrittenArg.stored, Resolvable] using fun _ => hfound
    | _ => simp [WrittenArg.type]

/-- The end of an argument that is found: it is taken, if it is not empty. -/
lemma acceptArg_found (h : Drawn libc D d) (hlen : (storedOf D.arg).length < accumSz)
    (hfound : ∀ a, D.arg = some a → a.found parseArg d.settings = true) : ∃ d', acceptArg libc parseArg d = .ok d' ∧
      d'.finished = d.finished ∧ (∀ s, HasSettings parseArg s d → HasSettings parseArg s d') ∧
      (Plain D.arg.toList → d'.vars = d.vars) := by
  by_cases hnil : d.accumArg = []
  · exact ⟨d,acceptArg_of_nil hnil,rfl,fun _ => id,fun _ => rfl⟩
  · have hacc := h.arg
    cases harg : D.arg with
    | none =>
      rw [harg] at hacc
      exact absurd hacc hnil
    | some a =>
      have hne : a.stored ≠ [] := by
        rw [hacc, harg] at hnil
        exact hnil
      refine ⟨_,acceptArg_of_readable (h.readable harg hlen hne (hfound a harg)),rfl,fun s hs => ?_,fun hplain => ?_⟩
      · refine ⟨hs.varMap,hs.errorCode,hs.message,fun name => ?_⟩
        rw [← hs.finds name]
        change (lookupVar parseArg (d.varsRead parseArg) name).1.isSome = _
        unfold ParseData.varsRead
        split_ifs
        · exact isSome_lookupVar_lookupVar_eq
        · rfl
      · have htype : d.argType ≠ .var := by
          rw [h.type a harg]
          exact (hplain a (by simp)).resolve_right hne
        exact varsRead_of_ne htype

/-- The end of an argument that is not found: the parse ends with a message. -/
lemma acceptArg_missing {arg : WrittenArg} (h : Drawn libc D d) (hlen : (storedOf D.arg).length < accumSz)
    (harg : D.arg = some arg) (hfound : arg.found parseArg d.settings = false) :
    ∃ d', acceptArg libc parseArg d = .ok d' ∧ d'.finished = true ∧ Told d' := by
  cases arg with
  | var name =>
    simp only [WrittenArg.found, Settings.finds, ParseData.settings, Bool.or_eq_false_iff, decide_eq_false_iff_not] at hfound
    obtain ⟨hne,hmap,hvars⟩ := hfound
    have hacc : d.accumArg = name := by rw [h.arg, harg, storedOf, WrittenArg.stored]
    have hnone : (getVarFromMap d.varMap (String.ofList name)).isNone = true ∧
        (lookupVar parseArg d.vars (String.ofList name)).1.isNone = true := by
      rw [← Option.not_isSome, ← Option.not_isSome, hmap, hvars]
      exact ⟨rfl,rfl⟩
    have hd : acceptArg libc parseArg d = .ok ((d.withVars (lookupVar parseArg d.vars (String.ofList name)).2).fail
        varMissing ("unable to resolve variable " ++ String.ofList name)) := by
      rw [acceptArg, if_neg (by rw [h.arg]; exact Nat.not_le_of_lt hlen), if_neg (by rw [hacc]; exact hne),
        h.type _ harg, hacc]
      simp only [WrittenArg.type]
      rw [if_pos hnone]
    exact ⟨_,hd,rfl,_,rfl,append_ne_empty (by decide)⟩
  | _ => simp [WrittenArg.found] at hfound

lemma Told.append {text : String} (h : Told d) (hd : d'.message = appendMessage d.message text) : Told d' := by
  obtain ⟨m,hm,hne⟩ := h
  unfold Told
  rw [hd, appendMessage, hm]
  split_ifs
  · exact ⟨m,rfl,hne⟩
  · exact ⟨_,rfl,append_ne_empty hne⟩

/-- A message that is there stays, or another one takes its place. -/
lemma Told.storeFn (h : Told d) : Told (storeFn libc parseArg d) := by
  have hmiss : ∀ s : String, "var map entry " ++ s ≠ "" := fun s => append_ne_empty (by decide)
  unfold Xcpmd.storeFn
  dsimp only
  split
  · exact h
  · exact h
  · exact h
  · exact h
  · split
    · exact ⟨_,rfl,append_ne_empty (append_ne_empty (by decide))⟩
    · exact ⟨_,rfl,by decide⟩
    · exact ⟨_,rfl,by decide⟩
    · unfold addToVarMapAsArg
      split_ifs
      · exact h
      · split
        · exact h.append rfl
        · exact h.append rfl
    · exact ⟨_,rfl,append_ne_empty (append_ne_empty (by decide))⟩
  · exact ⟨_,rfl,by decide⟩

/-- Arguments of which one value is read that is not a variable. -/
lemma plain_of_read {args : List WrittenArg} {arg : FnArg} (h : args.filterMap (WrittenArg.read libc) = [arg])
    (hvar : ∀ name, arg ≠ .var name) : Plain args := by
  intro a ha
  by_contra hnot
  push Not at hnot
  obtain ⟨htype,hne⟩ := hnot
  have hread : a.read libc = some (.var (String.ofList a.stored)) := by
    rw [WrittenArg.read, if_neg hne, htype]
    rfl
  have hmem : FnArg.var (String.ofList a.stored) ∈ args.filterMap (WrittenArg.read libc) :=
    List.mem_filterMap.mpr ⟨a,ha,hread⟩
  rw [h, List.mem_singleton] at hmem
  exact hvar _ hmem.symm

/-- What an item leaves, it leaves behind arguments that are found. -/
lemma found_of_afterItem {w : WrittenItem} (h : s.afterItem libc parseArg mode w = some s') :
    ∀ a ∈ w.args, a.found parseArg s = true := by
  unfold Settings.afterItem at h
  split_ifs at h with hmode hall
  · split at h
    · cases h
    · cases h
    · rename_i arg hvar _ hone
      intro a ha
      rcases plain_of_read hone hvar a ha with htype | hnil
      · cases a <;> first | rfl | exact absurd rfl htype
      · cases a <;> first | rfl | simp_all [WrittenArg.found, WrittenArg.stored]
    · cases h
  · exact List.all_eq_true.mp hall

/-- The parse went on all the way. -/
lemma Draft.Passed.of_take (h : (D.take c a).Passed libc parseArg mode s₀) : D.Passed libc parseArg mode s₀ := by
  obtain ⟨s',hafter,hfound⟩ := h
  match a with
  | some .acceptArg => exact ⟨s',hafter,fun b hb => hfound b (List.mem_append_left _ hb)⟩
  | some .acceptFn =>
    rw [Draft.take, Settings.after_append, Option.bind_eq_some_iff] at hafter
    obtain ⟨s,hs,hitem⟩ := hafter
    exact ⟨s,hs,fun b hb => found_of_afterItem hitem b (List.mem_append_left _ hb)⟩
  | none | some .acceptFns | some .accumName | some .invertFn | some .accumArg | some .beginAccumVar
  | some .beginAccumInt | some .beginAccumFloat | some .beginAccumStr | some .beginAccumTrue
  | some .beginAccumFalse => exact ⟨s',hafter,hfound⟩

/-- How an edge goes on that ends an argument or an item: the machine has the settings behind it, or the parse ends
here with a message. -/
def Goes (libc : Libc) (parseArg : String → Option Arg) (mode : ParsedType) (s₀ : Settings) (D : Draft)
    (d d' : ParseData) : Prop :=
  d'.finished = d.finished ∧ UpToDate libc parseArg mode s₀ D d' ∨
    d'.finished = true ∧ Told d' ∧ ¬ D.Passed libc parseArg mode s₀

lemma UpToDate.acceptArg (h : UpToDate libc parseArg mode s₀ D d) (hdrawn : Drawn libc D d)
    (hp : acceptArg libc parseArg d = .ok d') : Goes libc parseArg mode s₀ (D.take c (some .acceptArg)) d d' := by
  obtain ⟨s,hafter,hfound,hagree,hvars⟩ := h.settings
  have hlen : (storedOf D.arg).length < accumSz := hdrawn.arg ▸ (acceptArg_cases hp).1
  by_cases hfind : ∀ a, D.arg = some a → a.found parseArg d.settings = true
  · obtain ⟨d₁,hd₁,hfin,hagree₁,hvars₁⟩ := acceptArg_found hdrawn hlen hfind
    obtain rfl := Except.ok.inj (hd₁.symm.trans hp)
    refine .inl ⟨hfin,(acceptArg_frame hp).parsing.trans h.parsing,s,hafter,?_,hagree₁ s hagree,fun hmode hplain => ?_⟩
    · rw [Draft.take, List.forall_mem_append]
      exact ⟨hfound,fun a ha => (hagree.found a).symm.trans (hfind a (Option.mem_toList.mp ha))⟩
    · rw [Draft.take, Plain, List.forall_mem_append] at hplain
      exact (hvars₁ hplain.2).trans (hvars hmode hplain.1)
  · push Not at hfind
    obtain ⟨a,harg,hfalse⟩ := hfind
    obtain ⟨d₁,hd₁,hfin,htold⟩ := acceptArg_missing hdrawn hlen harg (by simpa using hfalse)
    obtain rfl := Except.ok.inj (hd₁.symm.trans hp)
    refine .inr ⟨hfin,htold,?_⟩
    rintro ⟨s',hafter',hfound'⟩
    obtain rfl := Option.some.inj (hafter.symm.trans hafter')
    rw [hagree.found] at hfalse
    exact hfalse (hfound' a (by simp [Draft.take, harg]))

/-- The settings behind an item. -/
lemma UpToDate.close (h : UpToDate libc parseArg mode s₀ D d) (harg : D.arg = none) (hparsing : d'.parsing = d.parsing)
    (hitem : ∀ s, s₀.after libc parseArg mode D.items = some s → HasSettings parseArg s d →
      (mode = .varMap → Plain D.args → d.vars = s.vars) → ∃ s', s.afterItem libc parseArg mode ⟨D.inverted, D.name, D.args⟩ = some s' ∧
        HasSettings parseArg s' d' ∧ (mode = .varMap → d'.vars = s'.vars)) :
    UpToDate libc parseArg mode s₀ (D.take c (some .acceptFn)) d' := by
  obtain ⟨s,hafter,-,hagree,hvars⟩ := h.settings
  obtain ⟨s',hs',hagree',hvars'⟩ := hitem s hafter hagree hvars
  refine ⟨hparsing.trans h.parsing,s',?_,by simp [Draft.take],hagree',fun hmode _ => hvars' hmode⟩
  rw [Draft.take, Settings.after_append, hafter, Option.bind_some, Draft.item, harg, Option.toList_none, List.append_nil]
  exact hs'

/-- An item the parse does not go on behind. -/
lemma UpToDate.not_passed (h : UpToDate libc parseArg mode s₀ D d) (harg : D.arg = none)
    (hitem : ∀ s : Settings, s.afterItem libc parseArg mode ⟨D.inverted, D.name, D.args⟩ = none) :
    ¬ (D.take c (some .acceptFn)).Passed libc parseArg mode s₀ := by
  rintro ⟨s',hafter',-⟩
  obtain ⟨s,hafter,-⟩ := h.settings
  rw [Draft.take, Settings.after_append, hafter, Option.bind_some, Draft.item, harg, Option.toList_none,
    List.append_nil, hitem] at hafter'
  cases hafter'

/-- Only a variable map looks at what an item says. -/
lemma afterItem_of_ne {w : WrittenItem} (hmode : mode ≠ .varMap) (hfound : ∀ a ∈ w.args, a.found parseArg s = true) :
    s.afterItem libc parseArg mode w = some s := by
  rw [Settings.afterItem, if_neg hmode, if_pos (List.all_eq_true.mpr hfound)]

lemma UpToDate.storeFn (h : UpToDate libc parseArg mode s₀ D d) (hdrawn : Drawn libc D d) (harg : D.arg = none)
    (hmode : mode ≠ .undetermined) :
    Goes libc parseArg mode s₀ (D.take c (some .acceptFn)) d (storeFn libc parseArg d) := by
  have hp := h.parsing
  unfold Xcpmd.storeFn
  dsimp only
  -- functions leave the settings alone
  have hother : ∀ {d' : ParseData}, mode ≠ .varMap → d'.finished = d.finished → d'.parsing = d.parsing →
      d'.varMap = d.varMap → d'.errorCode = d.errorCode → d'.message = d.message → d'.vars = d.vars →
      Goes libc parseArg mode s₀ (D.take c (some .acceptFn)) d d' := by
    intro d' hne hfin hparsing hmap hcode hmessage hvars
    refine .inl ⟨hfin,h.close harg hparsing fun s hafter hagree _ => ⟨s,afterItem_of_ne hne ?_,?_,fun h => absurd h hne⟩⟩
    · obtain ⟨s₁,hafter₁,hfound,-⟩ := h.settings
      obtain rfl := Option.some.inj (hafter.symm.trans hafter₁)
      exact hfound
    · exact ⟨hmap.trans hagree.varMap,hcode.trans hagree.errorCode,hmessage.trans hagree.message,hvars ▸ hagree.finds⟩
  cases mode with
  | undetermined => exact absurd rfl hmode
  | arg => rw [hp]; exact hother (by decide) rfl hp.symm rfl rfl rfl rfl
  | condition => rw [hp]; exact hother (by decide) rfl hp.symm rfl rfl rfl rfl
  | action => rw [hp]; exact hother (by decide) rfl hp.symm rfl rfl rfl rfl
  | undoAction => rw [hp]; exact hother (by decide) rfl hp.symm rfl rfl rfl rfl
  | varMap =>
    rw [hp]
    dsimp only
    have hargs : D.args.filterMap (WrittenArg.read libc) = d.args := hdrawn.args.symm
    split
    · rename_i hnil
      exact .inr ⟨rfl,⟨_,rfl,append_ne_empty (append_ne_empty (by decide))⟩,
        h.not_passed harg fun s => by simp [Settings.afterItem, hargs, hnil]⟩
    · rename_i hvar
      exact .inr ⟨rfl,⟨_,rfl,by decide⟩,h.not_passed harg fun s => by simp [Settings.afterItem, hargs, hvar]⟩
    · rename_i hundet
      exact .inr ⟨rfl,⟨_,rfl,by decide⟩,h.not_passed harg fun s => by simp [Settings.afterItem, hargs, hundet]⟩
    · rename_i arg hvar hundet hone
      have hone' := hargs.trans hone
      refine .inl ⟨?_,h.close harg (addToVarMapAsArg_frame _ _).parsing fun s _ hagree hvars => ?_⟩
      · unfold addToVarMapAsArg
        split_ifs
        · rfl
        · split <;> rfl
      · have hd : d.settings = s := by
          rw [ParseData.settings, hagree.varMap, hvars rfl (plain_of_read hone' hvar), hagree.errorCode, hagree.message]
        have hsettings := @settings_addToVarMapAsArg libc parseArg d (String.ofList D.name) arg
        rw [hd, ← hdrawn.name] at hsettings
        refine ⟨s.enter libc parseArg (String.ofList d.accumName) arg,?_,?_,fun _ => congrArg Settings.vars hsettings⟩
        · rw [Settings.afterItem, if_pos rfl]
          simp [hone', hdrawn.name]
        · rw [← hsettings]
          exact ⟨rfl,rfl,rfl,fun _ => rfl⟩
    · rename_i hone
      refine .inr ⟨rfl,⟨_,rfl,append_ne_empty (append_ne_empty (by decide))⟩,h.not_passed harg fun s => ?_⟩
      rw [Settings.afterItem, if_pos rfl, hargs]
      split
      · rfl
      · rfl
      · rename_i arg _ _ heq
        exact absurd heq (hone arg)
      · rfl

lemma UpToDate.acceptFn (h : UpToDate libc parseArg mode s₀ D d) (hdrawn : Drawn libc D d)
    (hp : acceptFn libc parseArg d = .ok d') (hne : D.name ≠ []) (hmode : mode ≠ .undetermined)
    (hfin : d.finished = false) : Goes libc parseArg mode s₀ (D.take c (some .acceptFn)) d d' := by
  obtain ⟨d₁,hd₁,-,⟨hnil,-⟩ | ⟨-,rfl⟩⟩ := acceptFn_cases hp
  · exact absurd (hdrawn.name.symm.trans ((acceptArg_name hd₁).symm.trans hnil)) hne
  have hclose : (D.take c (some .acceptArg)).take c (some .acceptFn) = D.take c (some .acceptFn) := by
    simp [Draft.take, Draft.item]
  rcases @UpToDate.acceptArg _ _ _ _ _ _ _ c h hdrawn hd₁ with ⟨hfin₁,h₁⟩ | ⟨hfin₁,htold,hnot⟩
  · have hgoes := @UpToDate.storeFn _ _ _ _ _ _ c h₁ (hdrawn.acceptArg hd₁ (hfin₁.trans hfin)) rfl hmode
    rw [hclose] at hgoes
    unfold Goes at hgoes ⊢
    rwa [← hfin₁]
  · -- the item is stored all the same, but the machine has ended
    refine .inr ⟨storeFn_keeps.2 hfin₁,htold.storeFn,fun hpassed => hnot ?_⟩
    rw [← hclose] at hpassed
    exact hpassed.of_take

/-- Behind every edge but the last the machine has the settings of what it has read, or the parse ends with a
message. -/
theorem UpToDate.take (h : UpToDate libc parseArg mode s₀ D d) (hdrawn : Drawn libc D d) (hpos : Position q D text)
    (he : Edge q c a q') (ha : a ≠ some .acceptFns) (hp : perform libc parseArg a d c = .ok d')
    (hmode : mode ≠ .undetermined) (hfin : d.finished = false) :
    Goes libc parseArg mode s₀ (D.take c a) d d' := by
  have hkeep : ∀ {D' : Draft} {d' : ParseData}, D'.items = D.items → D'.args = D.args → d'.finished = d.finished →
      d'.parsing = d.parsing → d'.settings = d.settings → Goes libc parseArg mode s₀ D' d d' := by
    exact fun hitems hargs hfin hparsing hset => .inl ⟨hfin,h.congr hitems hargs hparsing hset⟩
  cases he with
  | name =>
    obtain ⟨-,rfl⟩ := accumName_eq_ok.mp hp
    exact hkeep rfl rfl rfl rfl rfl
  | invert | skip | openParen | unquote | dollar | quote =>
    obtain rfl := Except.ok.inj hp
    exact hkeep rfl rfl rfl rfl rfl
  | number | yes | no | word | digit | period | fraction | char =>
    obtain ⟨-,rfl⟩ := accumArg_eq_ok.mp hp
    exact hkeep rfl rfl rfl rfl rfl
  | nextArg => exact h.acceptArg hdrawn hp
  | close hq => exact h.acceptFn hdrawn hp (hpos.name hq) hmode hfin
  | finish => exact absurd rfl ha

end Settled

end Xctools.Xcpmd
