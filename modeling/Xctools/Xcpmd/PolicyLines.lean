import Xctools.Xcpmd.Rejection
import Xctools.Xcpmd.VarStrings

/-! The lines that `parse_config_from_file` gives to the parser. A line of the variables' section stops the daemon
if it overruns an accumulator, or if it is refused and nothing is said; a line of the rules' section if its name
has no start, or no end, or if its texts overrun an accumulator. -/
namespace Xctools.Xcpmd
open Machine

section VarLine
variable {ε : Type} (libc : Libc) (reg : Registry ε)

/-- A line of the variables' section fits the accumulators, and where its last entry is refused, something was said
about one of them. -/
structure FitsVarLine (l : FileLoad ε) (line : List Char) : Prop where
  text : FitsText libc reg.parseArg .varMap { varMap := l.varMap, vars := l.engine.vars }
    (spelling (some (String.ofList line)))
  told : ∀ items, Spelled items (spelling (some (String.ofList line))) → (∀ w ∈ items, ∃ arg, w.Offers libc arg) →
    LastRefused libc reg.parseArg l.varMap l.engine.vars items → SomeTold libc reg.parseArg l.varMap l.engine.vars items

variable {libc reg} {l l' : FileLoad ε} {line : List Char} {parseArg : String → Option Arg} {s s₀ : Settings}
  {items : List WrittenItem}

/-- Entries leave no code but that of a refusal, and no message that is empty. -/
lemma after_report (h : s₀.after libc parseArg .varMap items = some s) (hcode : s₀.errorCode = noParseError)
    (hmessage : s₀.message = none) : (s.errorCode = noParseError ∨ s.errorCode = 1) ∧ (s.message = none ∨ s.Told) := by
  induction items using List.reverseRecOn generalizing s with
  | nil =>
    obtain rfl := Option.some.inj h
    exact ⟨.inl hcode,.inl hmessage⟩
  | append_singleton items w ih =>
    obtain ⟨s₁,arg,hs₁,hoffers,rfl⟩ := after_concat_iff.mp h
    obtain ⟨-,htold⟩ := ih hs₁
    by_cases hrep : s₁.Repeats w
    · rw [enter_of_repeats hrep]
      exact ⟨.inr rfl,htold⟩
    · rw [enter_of_not_repeats hrep]
      refine ⟨?_,?_⟩
      · dsimp only
        split_ifs <;> simp
      · by_cases htext : (s₁.adds libc parseArg w arg).2.2 = ""
        · simpa [appendMessage, htext, Settings.Told] using htold
        · have htells : s₁.Tells libc parseArg w := ⟨arg,hoffers,hrep,htext⟩
          have htold := (enter_told_iff hoffers).mpr (.inr htells)
          rw [enter_of_not_repeats hrep] at htold
          exact .inr htold

/-- A code of `add_var` is explained by the message, so there has to be one. -/
lemma returns_extractParseError_iff {code : ℕ} {message : Option String} :
    Returns (extractParseError 1 code message) ↔ message.isSome = true := by
  cases message with
  | none => exact iff_of_false (not_returns_error _) (by simp)
  | some text => exact iff_of_true ⟨_,rfl⟩ rfl

/-- A line of the variables' section comes to an end exactly if it fits. -/
theorem returns_parseVarLine_iff (hmap : StorableMap l.varMap) :
    Returns (parseVarLine libc reg l line) ↔ FitsVarLine libc reg l line := by
  have hreturns : Returns (parseVarLine libc reg l line) ↔
      ∃ d, parseVarPersistent libc reg.parseArg l.varMap l.engine.vars (String.ofList line) = .ok d ∧
        (d.returned ≠ some true → Returns (extractParseError d.errorCode ruleCodeNotSet d.message)) := by
    rw [parseVarLine, returns_bind_iff]
    refine exists_congr fun d => and_congr_right fun _ => ?_
    split_ifs with hret
    · rw [imp_iff_right hret]
      exact returns_bind_ok
    · simp [hret]
  rw [hreturns]
  constructor
  · rintro ⟨d,hd,hanswer⟩
    refine ⟨returns_parseVars_iff.mp ⟨d,hd⟩,fun items hitems hoffers hlast => ?_⟩
    obtain ⟨s,hs⟩ := Option.isSome_iff_exists.mp (isSome_after_iff.mpr hoffers)
    obtain ⟨hset,hret⟩ := stored_of_passes hd hitems hs
    have hcode := (after_errorCode_iff hs rfl).mpr ((lastRefused_iff hmap hoffers).mpr hlast)
    obtain ⟨hcodes,hmessage⟩ := after_report hs rfl rfl
    have hsaid := hanswer (by rw [hret, decide_eq_false hcode]; simp)
    have hone : d.errorCode = 1 := (congrArg Settings.errorCode hset).trans (hcodes.resolve_left hcode)
    rw [hone, returns_extractParseError_iff] at hsaid
    have htold : s.Told := hmessage.resolve_left fun hnone => by
      rw [show d.message = none from (congrArg Settings.message hset).trans hnone] at hsaid
      cases hsaid
    exact (someTold_iff hmap hoffers).mp ((after_told_iff hs rfl).mp htold)
  · rintro ⟨hfits,htells⟩
    obtain ⟨d,hd⟩ := returns_parseVars_iff.mpr hfits
    refine ⟨d,hd,fun hne => ?_⟩
    cases varsEnded_of_parse hd with
    | refused _ htold => exact htold.extractParseError _
    | @stored items s hitems hs hset hret =>
      have hcode : s.errorCode ≠ noParseError := fun hcode => hne (by rw [hret, decide_eq_true hcode])
      have hoffers := isSome_after_iff.mp (Option.isSome_iff_exists.mpr ⟨_,hs⟩)
      have hlast := (lastRefused_iff hmap hoffers).mp ((after_errorCode_iff hs rfl).mp hcode)
      have hsaid := (someTold_iff hmap hoffers).mpr (htells items hitems.spelled hoffers hlast)
      have htold : Told d := by
        obtain ⟨m,hm,hne⟩ := (after_told_iff hs rfl).mpr hsaid
        exact ⟨m,(congrArg Settings.message hset).trans hm,hne⟩
      exact htold.extractParseError _

/-- What a line of the variables' section leaves is as it was found. -/
lemma storableMap_parseVarLine (hmap : StorableMap l.varMap) (h : parseVarLine libc reg l line = .ok l') :
    StorableMap l'.varMap := by
  obtain ⟨d,hd,h⟩ := bind_eq_ok.mp h
  have hkept : StorableMap d.varMap := StorableMap.parse
    (d := { parsing := .varMap, varMap := l.varMap, vars := l.engine.vars }) hmap hd
  dsimp only at h
  split_ifs at h
  · obtain ⟨why,-,h⟩ := bind_eq_ok.mp h
    rw [← Except.ok.inj h]
    exact hkept
  · rw [← Except.ok.inj h]
    exact hkept

end VarLine

section Names
variable {line token : List Char} {q : Bool}

lemma chomp_returns (h : ∃ c ∈ token, isGarbage c = false) : ∃ name, chomp token = .ok name := by
  obtain ⟨c,hc,hgarbage⟩ := h
  refine ⟨_,if_neg fun hall => ?_⟩
  rw [List.all_eq_true.mp hall c hc] at hgarbage
  cases hgarbage

lemma fieldName_cons (token : List Char) (tokens : List (List Char)) :
    (∃ name, fieldName (token :: tokens) = .ok name) ↔ ∃ c ∈ token, isGarbage c = false := by
  constructor
  · rintro ⟨name,hname⟩
    obtain ⟨id,hid,-⟩ := bind_eq_ok.mp hname
    unfold chomp at hid
    split_ifs at hid with hall
    simpa using hall
  · intro h
    obtain ⟨id,hid⟩ := chomp_returns h
    exact ⟨some id,by rw [fieldName, hid]; rfl⟩

/-- A field that has something to keep can be chomped, wherever it ends. -/
lemma fieldName_fields_of_mem (h : ∃ c ∈ token, isGarbage c = false) : ∃ name, fieldName (fields q token line) = .ok name := by
  induction line generalizing q token with
  | nil =>
    cases q with
    | true => exact ⟨none,rfl⟩
    | false => exact (fieldName_cons token []).mpr h
  | cons c line ih =>
    rw [fields]
    split_ifs
    · exact (fieldName_cons token _).mpr h
    · obtain ⟨x,hx,hgarbage⟩ := h
      exact ih ⟨x,List.mem_append_left _ hx,hgarbage⟩
    · exact (fieldName_cons token _).mpr h
    · obtain ⟨x,hx,hgarbage⟩ := h
      exact ih ⟨x,List.mem_append_left _ hx,hgarbage⟩

/-- A quote is nothing that is chomped, so up to there the first field ends at the first bar. -/
lemma fieldName_fields_iff (hline : LineEnd line) (htoken : ∀ c ∈ token, isGarbage c = true) :
    (∃ name, fieldName (fields false token line) = .ok name) ↔
      ∃ c ∈ line.takeWhile (fun c => c ≠ '|'), isGarbage c = false := by
  have hnone : ¬ ∃ c ∈ token, isGarbage c = false := by
    rintro ⟨c,hc,hgarbage⟩
    rw [htoken c hc] at hgarbage
    cases hgarbage
  induction line generalizing token with
  | nil => rw [fields, if_neg Bool.false_ne_true, fieldName_cons]; simpa using hnone
  | cons c line ih =>
    by_cases hbar : c = '|'
    · subst hbar
      have hfields : fields false token ('|' :: line) = token :: fields false [] line := by simp [fields]
      rw [hfields, fieldName_cons]
      simpa using hnone
    · rw [List.takeWhile_cons_of_pos (by simpa using hbar)]
      by_cases hkeep : isGarbage c = false
      · have hmem : ∃ x ∈ token ++ [c], isGarbage x = false := ⟨c,by simp,hkeep⟩
        have hnew : c ≠ '\n' := by
          rintro rfl
          cases hkeep
        have hright : ∃ x ∈ c :: line.takeWhile (fun c => c ≠ '|'), isGarbage x = false :=
          ⟨c,List.mem_cons_self,hkeep⟩
        refine iff_of_true ?_ hright
        rw [fields]
        simpa [hbar, hnew] using fieldName_fields_of_mem hmem
      · rw [Bool.not_eq_false] at hkeep
        have hquote : c ≠ '"' := by
          rintro rfl
          cases hkeep
        have hcons : (∃ x ∈ c :: line.takeWhile (fun c => c ≠ '|'), isGarbage x = false) ↔
            ∃ x ∈ line.takeWhile (fun c => c ≠ '|'), isGarbage x = false := by simp [hkeep]
        rw [hcons]
        by_cases hnew : c = '\n'
        · subst hnew
          obtain rfl := hline [] line rfl
          have hfields : fields false token ['\n'] = [token,[]] := by simp [fields]
          rw [hfields, fieldName_cons]
          simpa using hnone
        · have hsnoc : ∀ x ∈ token ++ [c], isGarbage x = true :=
            List.forall_mem_append.mpr ⟨htoken,List.forall_mem_singleton.mpr hkeep⟩
          have hfields : fields false token (c :: line) = fields false (token ++ [c]) line := by
            simp [fields, hbar, hnew, hquote]
          rw [hfields]
          apply ih hline.tail hsnoc
          rintro ⟨x,hx,hgarbage⟩
          rw [hsnoc x hx] at hgarbage
          cases hgarbage

end Names

section RuleLine
variable {ε : Type} [DecidableEq ε] (libc : Libc) (reg : Registry ε)

/-- What is read of a file leaves the engine linked. -/
lemma linked_kept : PolicyKept libc reg (Linked reg) where
  lookupVar _ _ hs := hs.congr rfl rfl rfl
  addVar _ _ _ _ _ _ hs := hs.congr rfl rfl rfl
  applyRule s parsed _ _ _ _ hs h := by
    have hb : Built reg s (buildRule reg s parsed) := built_buildRule s parsed
    rcases applyRule_spec hs h with ⟨text,vars,vars',hv,-,rfl,-⟩ | ⟨ruleErr,text,vars,-,-,rfl,-⟩
    · obtain ⟨-,-,hconds,-⟩ := validateRule_eq_valid hv
      exact hb.linked_loadedWith hs hconds vars'
    · exact hb.linked_rejectedWith hs vars

/-- A line of the rules' section has a name that begins and ends, and its texts fit the accumulators. -/
structure FitsRuleLine (l : FileLoad ε) (line : List Char) : Prop where
  begins : ∃ c ∈ line.takeWhile (fun c => c ≠ '|'), isGarbage c = false
  ends : fields false [] line ≠ []
  texts : FitsRule libc reg.parseArg { varMap := l.varMap, vars := l.engine.vars }
    ((fields false [] line)[1]?.map String.ofList) ((fields false [] line)[2]?.map String.ofList)
    ((fields false [] line)[3]?.map String.ofList)

variable {libc reg} {s : Engine ε} {l l' : FileLoad ε} {line : List Char} {varMap : VarMap}

omit [DecidableEq ε] in
/-- The variables of a rule that passed are cached. -/
lemma cached_of_validated {r : Rule ε} {text : String} {vars : VarStore}
    (h : validateRule reg s r = (ruleValid, text, vars)) : ∀ m ∈ r.varNames, (vars.cached m).isSome = true := by
  obtain ⟨hid,hfresh,hconds,hcalls,hcheck⟩ := validateRule_eq_valid h
  have hacc : r.Acceptable reg s := ⟨hid,hfresh,hconds,hcalls,by rw [hcheck]⟩
  obtain ⟨vars',hvalid,htyped,-⟩ := hacc.validateRule rfl rfl rfl
  obtain ⟨-,rfl⟩ := Prod.mk.inj (Prod.mk.inj (h.symm.trans hvalid)).2
  exact fun m hm => htyped.cached hm

/-- The codes of rules that passed, and of rules that were refused. -/
lemma ruleVerdict_codes : ∀ n ∈ omissions,
    ((ruleVerdict (parseErrOf n ||| n ||| ruleValid)).1 = noParseError ∨
      (ruleVerdict (parseErrOf n ||| n ||| ruleValid)).1 = recoverableError) ∧
    ∀ err ∈ [noName, noConditions, noActions, nameCollision, badProto],
      (ruleVerdict (noParseError ||| n ||| err)).1 = ruleInvalid := by decide

/-- A rule is always loaded or refused, and there is something to say about either. -/
lemma applyRule_answers (hs : Linked reg s) (parsed : ParsedRule) : ∃ s' code text,
    applyRule reg s parsed = .ok (s', code, text) ∧
      ∀ ruleErr message, Returns (extractParseError (ruleVerdict code).1 ruleErr message) := by
  have hb : Built reg s (buildRule reg s parsed) := built_buildRule s parsed
  have hflags := @recoverable_buildRule _ reg _ s parsed
  have hanswers : ∀ {code}, code = noParseError ∨ code = recoverableError ∨ code = ruleInvalid →
      ∀ ruleErr message, Returns (extractParseError code ruleErr message) := by
    rintro code (rfl | rfl | rfl) ruleErr message
    · exact ⟨_,rfl⟩
    · exact ⟨_,rfl⟩
    · unfold extractParseError
      rw [if_pos rfl]
      split_ifs <;> exact ⟨_,rfl⟩
  unfold applyRule
  cases hv : validateRule reg (buildRule reg s parsed).engine (buildRule reg s parsed).rule with
  | mk ruleErr rest =>
    obtain ⟨text,vars⟩ := rest
    simp only [hv]
    by_cases hvalid : ruleErr = ruleValid
    · subst hvalid
      obtain ⟨vars',hcounts⟩ := @changeRefs_of_cached reg.parseArg vars 1 _ (cached_of_validated hv)
      simp only [if_true, addRule, Engine.withVars, hcounts, ok_bind]
      exact ⟨_,_,_,rfl,hanswers ((ruleVerdict_codes _ hflags).1.imp_right .inl)⟩
    · simp only [if_neg hvalid, hb.deleteRule hs vars, ok_bind]
      exact ⟨_,_,_,rfl,hanswers (.inr (.inr ((ruleVerdict_codes _ hflags).2 _ (validateRule_code hv hvalid))))⟩

/-- A rule with a name is answered if its texts fit. -/
lemma returns_parseRuleLogged_iff (hs : Linked reg s) {name : String} {conditions actions undos : Option String} :
    Returns (parseRuleLogged libc reg s varMap (some name) conditions actions undos) ↔
      FitsRule libc reg.parseArg { varMap, vars := s.vars } conditions actions undos := by
  rw [← returns_parseTexts_iff]
  constructor
  · rintro ⟨s',h⟩
    obtain ⟨d,code,h⟩ := parseRuleLogged_eq_ok h
    obtain ⟨p,hp,-⟩ := bind_eq_ok.mp h
    exact ⟨p,hp⟩
  · rintro ⟨p,hp⟩
    obtain ⟨s',d,code,hd,hanswers⟩ : ∃ s' d code,
        parseRulePersistent libc reg s varMap (some name) conditions actions undos = .ok (s', d, code) ∧
          Returns (extractParseError d.errorCode code d.message) := by
      cases happ : p.applied with
      | none =>
        obtain ⟨hfatal,-,hmessage⟩ := parseTexts_verdict hp happ
        refine ⟨_,p,_,parseRulePersistent_of_stopped hp happ _,?_⟩
        obtain ⟨m,hm⟩ := Option.isSome_iff_exists.mp hmessage
        rw [hm]
        unfold extractParseError
        split_ifs <;> exact ⟨_,rfl⟩
      | some lists =>
        obtain ⟨conds,acts,unds⟩ := lists
        obtain ⟨s',code,text,happly,hanswers⟩ := applyRule_answers
          (hs.congr rfl rfl rfl : Linked reg (s.withVars p.vars)) ⟨name,conds,acts,unds⟩
        rw [parseRulePersistent, hp, ok_bind]
        simp only [happ, happly, ok_bind]
        exact ⟨_,_,_,rfl,hanswers _ _⟩
    rw [parseRuleLogged, hd, ok_bind]
    dsimp only
    split_ifs
    · exact returns_bind_ok.mpr hanswers
    · exact ⟨_,rfl⟩

/-- Nothing to read is a rule without items, which has to have a name. -/
lemma not_returns_nameless : ¬ Returns (parseRuleLogged libc reg s varMap none none none none) := by
  rintro ⟨s',h⟩
  obtain ⟨d,code,h⟩ := parseRuleLogged_eq_ok h
  cases h

/-- A line of the rules' section comes to an end exactly if it fits. -/
theorem returns_parseRuleLine_iff (hs : Linked reg l.engine) (hline : LineEnd line) :
    Returns (parseRuleLine libc reg l line) ↔ FitsRuleLine libc reg l line := by
  have hname := fieldName_fields_iff hline (List.forall_mem_nil fun c => isGarbage c = true)
  have hreturns : Returns (parseRuleLine libc reg l line) ↔
      ∃ name, fieldName (fields false [] line) = .ok name ∧
        Returns (parseRuleLogged libc reg l.engine l.varMap name ((fields false [] line)[1]?.map String.ofList)
          ((fields false [] line)[2]?.map String.ofList) ((fields false [] line)[3]?.map String.ofList)) := by
    rw [parseRuleLine]
    simp only [returns_bind_iff]
    simp only [pure_eq_ok, returns_ok, and_true]
    rfl
  rw [hreturns]
  constructor
  · rintro ⟨name,hfield,hrule⟩
    have hne : fields false [] line ≠ [] := by
      intro hnil
      rw [hnil] at hfield hrule
      obtain rfl := Except.ok.inj hfield
      exact not_returns_nameless hrule
    obtain ⟨token,tokens,htokens⟩ := List.exists_cons_of_ne_nil hne
    refine ⟨hname.mp ⟨name,hfield⟩,hne,?_⟩
    rw [htokens] at hfield
    obtain ⟨id,-,hid⟩ := bind_eq_ok.mp hfield
    obtain rfl := Except.ok.inj hid
    exact (returns_parseRuleLogged_iff hs).mp hrule
  · rintro ⟨hbegins,hne,htexts⟩
    obtain ⟨token,tokens,htokens⟩ := List.exists_cons_of_ne_nil hne
    obtain ⟨name,hfield⟩ := hname.mpr hbegins
    have hsome : ∃ id, name = some id := by
      rw [htokens] at hfield
      obtain ⟨id,-,hid⟩ := bind_eq_ok.mp hfield
      exact ⟨id,(Except.ok.inj hid).symm⟩
    obtain ⟨id,rfl⟩ := hsome
    exact ⟨_,hfield,(returns_parseRuleLogged_iff hs).mpr htexts⟩

end RuleLine

end Xctools.Xcpmd
