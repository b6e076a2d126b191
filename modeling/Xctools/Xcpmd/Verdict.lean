import Xctools.Xcpmd.Quiescence
import Xctools.Xcpmd.Parsing

/-! What `parse_rule_persistent` reports against what it did. It returns true, or reports a recoverable
error, exactly when there is a new rule at the tail of the list. -/
namespace Xctools.Xcpmd
open Machine

section Parse
variable {libc : Libc} {parseArg : String → Option Arg} {d d' : ParseData} {c : Char}
  {a : Option ParseAction} {q q' : ParseState}

/-- The machine is in the middle of a rule that was not handed over. -/
structure Midway (d : ParseData) : Prop where
  finished : d.finished = false
  errorCode : d.errorCode = noParseError
  parsing : d.parsing = .condition ∨ d.parsing = .action ∨ d.parsing = .undoAction
  applied : d.applied = none

/-- An error has ended the parse, and something was said about it. -/
structure Failed (d : ParseData) : Prop where
  finished : d.finished = true
  errorCode : Fatal d.errorCode
  message : d.message.isSome = true

/-- The machine is finished: with a rule, or with an error that leaves none. -/
structure Ended (d : ParseData) : Prop where
  finished : d.finished = true
  verdict : d.applied = none → Failed d

lemma Midway.acceptArg (h : Midway d) (hd : acceptArg libc parseArg d = .ok d') :
    Midway d' ∨ Failed d' := by
  rcases (acceptArg_cases hd).2 with ⟨-,rfl⟩ | ⟨-,rfl⟩ | ⟨-,code,message,hcode,rfl⟩
  · exact .inl h
  · exact .inl { h with }
  · exact .inr ⟨rfl,hcode,rfl⟩

lemma Midway.storeFn (h : Midway d) : Midway (storeFn libc parseArg d) := by
  unfold Xcpmd.storeFn
  dsimp only
  rcases h.parsing with hp | hp | hp
  · rw [hp]
    exact ⟨h.finished,h.errorCode,.inl rfl,h.applied⟩
  · rw [hp]
    exact ⟨h.finished,h.errorCode,.inr (.inl rfl),h.applied⟩
  · rw [hp]
    exact ⟨h.finished,h.errorCode,.inr (.inr rfl),h.applied⟩

/-- An item that fails in its last argument is still put on a list. -/
lemma Failed.storeFn (hp : d.parsing = .condition ∨ d.parsing = .action ∨ d.parsing = .undoAction)
    (h : Failed d) : Failed (storeFn libc parseArg d) := by
  unfold Xcpmd.storeFn
  dsimp only
  rcases hp with hp | hp | hp
  · rw [hp]
    exact { h with }
  · rw [hp]
    exact { h with }
  · rw [hp]
    exact { h with }

lemma Midway.acceptFn (h : Midway d) (hd : acceptFn libc parseArg d = .ok d') : Midway d' ∨ Failed d' := by
  obtain ⟨d₁,hd₁,-,hd⟩ := acceptFn_cases hd
  have hmid := h.acceptArg hd₁
  rcases hd with ⟨-,rfl⟩ | ⟨-,rfl⟩
  · exact hmid
  · refine hmid.imp Midway.storeFn (Failed.storeFn ?_)
    rw [(acceptArg_frame hd₁).parsing]
    exact h.parsing

lemma Midway.acceptFns (h : Midway d) (hd : acceptFns libc parseArg d = .ok d') : Midway d' ∨ Ended d' := by
  obtain ⟨d₁,hd₁,hd⟩ := acceptFns_cases hd
  have hparsing : d₁.parsing = .condition ∨ d₁.parsing = .action ∨ d₁.parsing = .undoAction := by
    rw [(acceptFn_frame hd₁).parsing]
    exact h.parsing
  rcases hd with ⟨-,rfl⟩ | ⟨-,rfl⟩ | ⟨-,rfl⟩ | ⟨hp,-⟩ | ⟨hp,-⟩
  · rcases h.acceptFn hd₁ with hmid | hfailed
    · exact .inl ⟨hmid.finished,hmid.errorCode,.inr (.inl rfl),hmid.applied⟩
    · exact .inr ⟨hfailed.finished,fun _ => { hfailed with }⟩
  · rcases h.acceptFn hd₁ with hmid | hfailed
    · exact .inl ⟨hmid.finished,hmid.errorCode,.inr (.inr rfl),hmid.applied⟩
    · exact .inr ⟨hfailed.finished,fun _ => { hfailed with }⟩
  · exact .inr ⟨rfl,fun hnone => by cases hnone⟩
  · rcases hp with hp | hp
    · simp [hp] at hparsing
    · simp [hp] at hparsing
  · simp [hp] at hparsing

lemma Midway.perform (h : Midway d) (he : Edge q c a q') (hd : perform libc parseArg a d c = .ok d') :
    Midway d' ∨ Ended d' := by
  have hended : Failed d' → Ended d' := fun hfailed => ⟨hfailed.finished,fun _ => hfailed⟩
  cases he with
  | name =>
    obtain ⟨-,rfl⟩ := accumName_eq_ok.mp hd
    exact .inl { h with }
  | invert =>
    obtain rfl := Except.ok.inj hd
    exact .inl { h with }
  | skip =>
    obtain rfl := Except.ok.inj hd
    exact .inl h
  | openParen =>
    obtain rfl := Except.ok.inj hd
    exact .inl h
  | dollar =>
    obtain rfl := Except.ok.inj hd
    exact .inl { h with }
  | number =>
    obtain ⟨-,rfl⟩ := accumArg_eq_ok.mp hd
    exact .inl { h with }
  | quote =>
    obtain rfl := Except.ok.inj hd
    exact .inl { h with }
  | yes =>
    obtain ⟨-,rfl⟩ := accumArg_eq_ok.mp hd
    exact .inl { h with }
  | no =>
    obtain ⟨-,rfl⟩ := accumArg_eq_ok.mp hd
    exact .inl { h with }
  | word =>
    obtain ⟨-,rfl⟩ := accumArg_eq_ok.mp hd
    exact .inl { h with }
  | digit =>
    obtain ⟨-,rfl⟩ := accumArg_eq_ok.mp hd
    exact .inl { h with }
  | period =>
    obtain ⟨-,rfl⟩ := accumArg_eq_ok.mp hd
    exact .inl { h with }
  | fraction =>
    obtain ⟨-,rfl⟩ := accumArg_eq_ok.mp hd
    exact .inl { h with }
  | char =>
    obtain ⟨-,rfl⟩ := accumArg_eq_ok.mp hd
    exact .inl { h with }
  | unquote =>
    obtain rfl := Except.ok.inj hd
    exact .inl h
  | nextArg => exact (h.acceptArg hd).imp_right hended
  | close => exact (h.acceptFn hd).imp_right hended
  | finish => exact h.acceptFns hd

/-- The machine is in the middle of a rule, or has returned with a rule or an error. -/
structure Decided (d : ParseData) : Prop where
  midway : d.returned = none → Midway d
  verdict : d.returned.isSome = true → d.applied = none →
    Fatal d.errorCode ∧ d.returned = some false ∧ d.message.isSome = true

lemma Midway.follow (h : Midway d) (q : ParseState) : Decided (follow d q) := by
  have hret : (Xcpmd.follow d q).returned = none := by
    rw [Xcpmd.follow, h.finished]
    split
    · rfl
    · rfl
  refine ⟨fun _ => ?_,fun hsome => ?_⟩
  · unfold Xcpmd.follow
    split
    · exact { h with }
    · exact { h with }
  · rw [hret] at hsome
    cases hsome

lemma Ended.follow (h : Ended d) (q : ParseState) : Decided (follow d q) := by
  have hsome := follow_of_finished h.finished q
  refine ⟨fun hnone => ?_,fun _ hnone => ?_⟩
  · rw [hnone] at hsome
    cases hsome
  · revert hnone
    unfold Xcpmd.follow
    rw [h.finished]
    split
    · exact fun hnone => ⟨(h.verdict hnone).errorCode,by simp [(h.verdict hnone).errorCode.1],(h.verdict hnone).message⟩
    · exact fun hnone => ⟨(h.verdict hnone).errorCode,rfl,(h.verdict hnone).message⟩

lemma decided_stuck (d : ParseData) : Decided d.stuck := by
  refine ⟨fun hnone => ?_,fun _ _ => ⟨⟨?_,?_⟩,rfl,rfl⟩⟩
  · cases hnone
  · simp [ParseData.stuck, fsmError, noParseError]
  · simp [ParseData.stuck, fsmError, recoverableError]

lemma Decided.parseRound (h : Decided d) (hret : d.returned.isSome = false)
    (hd : parseRound libc parseArg d = .ok d') : Decided d' := by
  have hmid : Midway d := h.midway (by simpa using hret)
  rcases parseRound_cases hd with ⟨a,q,d₁,he,hp,rfl⟩ | ⟨-,rfl⟩
  · have hmid' : Midway { d with rest := d.rest.tail } := { hmid with }
    rcases hmid'.perform he hp with hmid₁ | hended
    · exact hmid₁.follow q
    · exact hended.follow q
  · exact decided_stuck d

/-- A parse that hands no rule over returns false, with an error that is not recoverable and a message. -/
theorem parseTexts_verdict {varMap : VarMap} {vars : VarStore} {conditions actions undos : Option String}
    (hd : parseTexts libc parseArg varMap vars conditions actions undos = .ok d)
    (hnone : d.applied = none) : Fatal d.errorCode ∧ d.returned = some false ∧ d.message.isSome = true := by
  have hstart : Decided (loadParseString
      { parsing := .condition, varMap, vars, actionsStr := actions, undoActionsStr := undos } conditions) :=
    ⟨fun _ => ⟨rfl,rfl,.inl rfl,rfl⟩,fun hret => by cases hret⟩
  obtain ⟨hrounds,hret⟩ := rounds_of_loop hd
  have hdecided := hrounds.invariant (fun _ _ ha hret hb => Decided.parseRound ha hret hb) hstart
  exact hdecided.verdict hret hnone

end Parse

section Report
variable {ε : Type} {libc : Libc} {reg : Registry ε} {s s' : Engine ε} {varMap : VarMap}

/-- The flags of items that were left out. -/
def omissions : List ℕ := [0x00, 0x10, 0x20, 0x30, 0x40, 0x50, 0x60, 0x70]

lemma foldl_omissions {f : Building ε → Fn → Building ε}
    (hf : ∀ b fn, b.recoverable ∈ omissions → (f b fn).recoverable ∈ omissions) (fns : List Fn)
    {b : Building ε} (h : b.recoverable ∈ omissions) : (fns.foldl f b).recoverable ∈ omissions := by
  induction fns generalizing b with
  | nil => exact h
  | cons fn fns ih => exact ih (hf b fn h)

lemma validateRule_code {rule : Rule ε} {err : ℕ} {text : String} {vars : VarStore}
    (h : validateRule reg s rule = (err, text, vars)) (hne : err ≠ ruleValid) :
    err ∈ [noName, noConditions, noActions, nameCollision, badProto] := by
  have hcode : (validateRule reg s rule).1 = err := by rw [h]
  rw [← hcode] at hne ⊢
  revert hne
  unfold validateRule
  split_ifs
  · simp
  · simp
  · simp
  · simp
  · split
    · simp
    · exact fun hne => absurd rfl hne

variable [DecidableEq ε]

lemma recoverable_buildRule (s : Engine ε) (parsed : ParsedRule) :
    (buildRule reg s parsed).recoverable ∈ omissions := by
  have hor : ∀ bad ∈ [badCondition, badAction, badUndo], ∀ n ∈ omissions, n ||| bad ∈ omissions := by decide
  have hcall : ∀ {bad : ℕ} {add : Rule ε → Action → Rule ε}, bad ∈ [badCondition, badAction, badUndo] →
      ∀ b fn, b.recoverable ∈ omissions → (addCall reg bad add b fn).recoverable ∈ omissions := by
    intro bad add hbad b fn h
    unfold addCall
    split
    · exact hor bad hbad _ h
    · exact h
  have hcond : ∀ b fn, b.recoverable ∈ omissions → (addCondition reg b fn).recoverable ∈ omissions := by
    intro b fn h
    unfold addCondition
    split
    · exact hor badCondition (by decide) _ h
    · exact h
  apply foldl_omissions (hcall (by decide))
  apply foldl_omissions (hcall (by decide))
  exact foldl_omissions hcond _ List.mem_cons_self

/-- The code of a rule that passed reports success, or a recoverable error. -/
lemma ruleVerdict_loaded : ∀ n ∈ omissions,
    (ruleVerdict (parseErrOf n ||| n ||| ruleValid)).1 = noParseError ∨
      (ruleVerdict (parseErrOf n ||| n ||| ruleValid)).1 &&& 0xF00 = recoverableError := by decide

/-- The code of a rule that was refused reports neither. -/
lemma ruleVerdict_rejected : ∀ n ∈ omissions,
    ∀ err ∈ [noName, noConditions, noActions, nameCollision, badProto],
      Fatal (ruleVerdict (noParseError ||| n ||| err)).1 := by
  unfold Fatal
  decide

/-- Success or a recoverable error is reported. -/
def ParseData.Reported (d : ParseData) : Prop :=
  d.returned = some true ∨ d.errorCode &&& 0xF00 = recoverableError

/-- Everything `parse_rule_persistent` can do: there is a new rule, which is at the tail and is reported,
or the rules are what they were and nothing is. -/
theorem parseRulePersistent_cases (hs : Linked reg s) {name conditions actions undos : Option String}
    {d : ParseData} {code : ℕ}
    (h : parseRulePersistent libc reg s varMap name conditions actions undos = .ok (s', d, code)) :
    (∃ r, s'.rules = s.rules ++ [r] ∧ name = some r.id ∧ d.Reported) ∨
      s'.rules = s.rules ∧ ¬ d.Reported := by
  obtain ⟨p,hp,⟨happ,rfl,rfl⟩ | ⟨parsed,-,rfl,err,text,ht,hcode,hret⟩⟩ := parseRulePersistent_eq_ok h
  · obtain ⟨hfatal,hret,-⟩ := parseTexts_verdict hp happ
    refine .inr ⟨rfl,fun hrep => ?_⟩
    rcases hrep with htrue | hrec
    · rw [hret] at htrue
      cases htrue
    · exact hfatal.2 hrec
  · have hlinked : Linked reg (s.withVars p.vars) := hs.congr rfl rfl rfl
    have hflags := @recoverable_buildRule ε reg _ (s.withVars p.vars) parsed
    have hb : Built reg (s.withVars p.vars) (buildRule reg (s.withVars p.vars) parsed) := built_buildRule _ _
    rw [ParseData.Reported, hcode, hret]
    rcases applyRule_spec hlinked ht with ⟨-,-,vars',-,-,rfl,rfl⟩ | ⟨ruleErr,why,vars,hv,hne,rfl,rfl⟩
    · have hid : (buildRule reg (s.withVars p.vars) parsed).rule.id = parsed.name :=
        congrArg RuleShape.id (shape_buildRule _ _)
      refine .inl ⟨_,by rw [loadedWith, hb.rules]; rfl,by rw [hid],?_⟩
      exact (ruleVerdict_loaded _ hflags).imp (fun hcode => by simp [hcode]) id
    · have hfatal := ruleVerdict_rejected _ hflags _ (validateRule_code hv hne)
      refine .inr ⟨by rw [rejectedWith, hb.rules]; rfl,fun hrep => ?_⟩
      rcases hrep with htrue | hrec
      · exact hfatal.1 (by simpa using htrue)
      · exact hfatal.2 hrec

end Report

end Xctools.Xcpmd
