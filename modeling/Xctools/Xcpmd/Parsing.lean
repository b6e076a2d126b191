import Mathlib.Data.List.TakeWhile
import Xctools.Xcpmd.Parser

/-! What the parser does, round by round. Every round either reads a character, or leaves a string that
was not closed, or goes on to the next text, so the machine always stops; and whatever the variables
keep when one of them is looked up or set, they keep while a text is parsed. -/
namespace Xctools.Xcpmd
open Machine

section Rounds
variable {libc : Libc} {parseArg : String → Option Arg} {d d' : ParseData} {c : Char}
  {a : Option ParseAction} {q q' : ParseState}

lemma parseRound_of_edge (h : Edge d.state d.current a q) : parseRound libc parseArg d =
    perform libc parseArg a { d with rest := d.rest.tail } d.current >>= fun d' => .ok (follow d' q) := by
  obtain ⟨t,ht,rfl,rfl⟩ := edge_complete h
  rw [parseRound, ht]
  rfl

/-- The machine where no edge fits. -/
def ParseData.stuck (d : ParseData) : ParseData :=
  { d with
    message := some (parseError (expected d.state) d.current), errorCode := fsmError,
    returned := some false }

lemma parseRound_of_stuck (h : ∀ a q, ¬ Edge d.state d.current a q) :
    parseRound libc parseArg d = .ok d.stuck := by
  unfold parseRound
  cases he : edge d.state d.current with
  | none => rfl
  | some t => exact absurd (edge_sound he) (h _ _)

/-- Everything a round can do: it follows an edge, or the machine is stuck. -/
lemma parseRound_cases (h : parseRound libc parseArg d = .ok d') :
    (∃ a q d₁, Edge d.state d.current a q ∧
      perform libc parseArg a { d with rest := d.rest.tail } d.current = .ok d₁ ∧ d' = follow d₁ q) ∨
    (∀ a q, ¬ Edge d.state d.current a q) ∧ d' = d.stuck := by
  by_cases he : ∃ a q, Edge d.state d.current a q
  · obtain ⟨a,q,he⟩ := he
    rw [parseRound_of_edge he] at h
    obtain ⟨d₁,hd,h⟩ := bind_eq_ok.mp h
    exact .inl ⟨a,q,d₁,he,hd,(Except.ok.inj h).symm⟩
  · push Not at he
    rw [parseRound_of_stuck he] at h
    exact .inr ⟨he,(Except.ok.inj h).symm⟩

/-- The argument an accumulator stands for. -/
def readArg (libc : Libc) : FnArgType → List Char → FnArg
  | .int, text => .int (scanLong libc text)
  | .float, text => .float (libc.scanFloat (String.ofList text))
  | .str, text => .str (String.ofList text)
  | .bool, text => .bool (text.head? = some 't')
  | .var, text => .var (String.ofList text)
  | .undetermined, _ => .undetermined

/-- The variables after the current argument was looked at. -/
def ParseData.varsRead (parseArg : String → Option Arg) (d : ParseData) : VarStore :=
  if d.argType = .var then (lookupVar parseArg d.vars (String.ofList d.accumArg)).2 else d.vars

lemma varsRead_of_ne (h : d.argType ≠ .var) : d.varsRead parseArg = d.vars := if_neg h

lemma varsRead_of_var (h : d.argType = .var) :
    d.varsRead parseArg = (lookupVar parseArg d.vars (String.ofList d.accumArg)).2 := if_pos h

/-- A code that ends a parse without a rule. -/
def Fatal (code : ℕ) : Prop := code ≠ noParseError ∧ code &&& 0xF00 ≠ recoverableError

/-- Everything `action_acceptArg` can do: there is no argument, there is one, or there is an error. -/
lemma acceptArg_cases (h : acceptArg libc parseArg d = .ok d') : d.accumArg.length < accumSz ∧
    (d.accumArg = [] ∧ d' = d ∨
      d.accumArg ≠ [] ∧ d' = (d.withVars (d.varsRead parseArg)).pushArg
        (readArg libc d.argType d.accumArg) ∨
      d.accumArg ≠ [] ∧ ∃ code message, Fatal code ∧
        d' = (d.withVars (d.varsRead parseArg)).fail code message) := by
  unfold acceptArg at h
  by_cases hsz : accumSz ≤ d.accumArg.length
  · rw [if_pos hsz] at h
    cases h
  refine ⟨Nat.lt_of_not_le hsz,?_⟩
  rw [if_neg hsz] at h
  by_cases hnil : d.accumArg = []
  · rw [if_pos hnil] at h
    exact .inl ⟨hnil,(Except.ok.inj h).symm⟩
  rw [if_neg hnil] at h
  cases ht : d.argType with
  | int =>
    rw [varsRead_of_ne (by simp [ht])]
    simp only [ht] at h
    exact .inr (.inl ⟨hnil,(Except.ok.inj h).symm⟩)
  | float =>
    rw [varsRead_of_ne (by simp [ht])]
    simp only [ht] at h
    exact .inr (.inl ⟨hnil,(Except.ok.inj h).symm⟩)
  | str =>
    rw [varsRead_of_ne (by simp [ht])]
    simp only [ht] at h
    exact .inr (.inl ⟨hnil,(Except.ok.inj h).symm⟩)
  | bool =>
    rw [varsRead_of_ne (by simp [ht])]
    simp only [ht] at h
    split_ifs at h with htrue hfalse
    · simp only [readArg, htrue, decide_true]
      exact .inr (.inl ⟨hnil,(Except.ok.inj h).symm⟩)
    · simp only [readArg, hfalse]
      exact .inr (.inl ⟨hnil,(Except.ok.inj h).symm⟩)
    · exact .inr (.inr ⟨hnil,boolError,_,⟨by decide,by decide⟩,(Except.ok.inj h).symm⟩)
  | var =>
    rw [varsRead_of_var ht]
    simp only [ht] at h
    split_ifs at h with hfound
    · exact .inr (.inr ⟨hnil,varMissing,_,⟨by decide,by decide⟩,(Except.ok.inj h).symm⟩)
    · exact .inr (.inl ⟨hnil,(Except.ok.inj h).symm⟩)
  | undetermined =>
    rw [varsRead_of_ne (by simp [ht])]
    simp only [ht] at h
    exact .inr (.inr ⟨hnil,fsmError,_,⟨by decide,by decide⟩,(Except.ok.inj h).symm⟩)

/-- A variable that `action_acceptArg` finds. -/
def Resolvable (parseArg : String → Option Arg) (varMap : VarMap) (vars : VarStore) (name : String) : Prop :=
  (getVarFromMap varMap name).isSome = true ∨ (lookupVar parseArg vars name).1.isSome = true

/-- An argument that `action_acceptArg` takes. -/
structure ParseData.Readable (parseArg : String → Option Arg) (d : ParseData) : Prop where
  length : d.accumArg.length < accumSz
  nonempty : d.accumArg ≠ []
  type : d.argType ≠ .undetermined
  bool : d.argType = .bool → d.accumArg.head? = some 't' ∨ d.accumArg.head? = some 'f'
  var : d.argType = .var → Resolvable parseArg d.varMap d.vars (String.ofList d.accumArg)

lemma acceptArg_of_readable (h : d.Readable parseArg) : acceptArg libc parseArg d =
    .ok ((d.withVars (d.varsRead parseArg)).pushArg (readArg libc d.argType d.accumArg)) := by
  unfold acceptArg
  rw [if_neg (Nat.not_le_of_lt h.length), if_neg h.nonempty]
  cases ht : d.argType with
  | int => rw [varsRead_of_ne (by simp [ht])]; rfl
  | float => rw [varsRead_of_ne (by simp [ht])]; rfl
  | str => rw [varsRead_of_ne (by simp [ht])]; rfl
  | bool =>
    rw [varsRead_of_ne (by simp [ht])]
    dsimp only [readArg]
    rcases h.bool ht with hb | hb
    · rw [hb, if_pos rfl]
      rfl
    · rw [hb, if_neg (by decide), if_pos rfl]
      rfl
  | var =>
    have hfound : ¬ ((getVarFromMap d.varMap (String.ofList d.accumArg)).isNone = true ∧
        (lookupVar parseArg d.vars (String.ofList d.accumArg)).1.isNone = true) := by
      rcases h.var ht with hr | hr
      · exact fun hn => by simp [Option.isNone_iff_eq_none.mp hn.1] at hr
      · exact fun hn => by simp [Option.isNone_iff_eq_none.mp hn.2] at hr
    rw [varsRead_of_var ht]
    dsimp only
    rw [if_neg hfound]
    rfl
  | undetermined => exact absurd ht h.type

/-- What every action but the last leaves alone. -/
structure Fixed (d d' : ParseData) : Prop where
  parsing : d'.parsing = d.parsing
  actionsStr : d'.actionsStr = d.actionsStr
  undoActionsStr : d'.undoActionsStr = d.undoActionsStr
  applied : d'.applied = d.applied

/-- What the actions leave alone, the text with it. -/
structure Frame (d d' : ParseData) : Prop extends Fixed d d' where
  rest : d'.rest = d.rest

lemma Fixed.trans {d₁ d₂ d₃ : ParseData} (h : Fixed d₁ d₂) (h' : Fixed d₂ d₃) : Fixed d₁ d₃ where
  parsing := h'.parsing.trans h.parsing
  actionsStr := h'.actionsStr.trans h.actionsStr
  undoActionsStr := h'.undoActionsStr.trans h.undoActionsStr
  applied := h'.applied.trans h.applied

lemma Fixed.pending (h : Fixed d d') : d'.pending = d.pending := by
  unfold ParseData.pending
  rw [h.parsing, h.actionsStr, h.undoActionsStr]

lemma Frame.trans {d₁ d₂ d₃ : ParseData} (h : Frame d₁ d₂) (h' : Frame d₂ d₃) : Frame d₁ d₃ :=
  ⟨h.toFixed.trans h'.toFixed,h'.rest.trans h.rest⟩

lemma acceptArg_frame (h : acceptArg libc parseArg d = .ok d') : Frame d d' := by
  rcases (acceptArg_cases h).2 with ⟨-,rfl⟩ | ⟨-,rfl⟩ | ⟨-,code,message,-,rfl⟩
  · exact ⟨⟨rfl,rfl,rfl,rfl⟩,rfl⟩
  · exact ⟨⟨rfl,rfl,rfl,rfl⟩,rfl⟩
  · exact ⟨⟨rfl,rfl,rfl,rfl⟩,rfl⟩

lemma addToVarMapAsArg_frame (name : String) (arg : FnArg) :
    Frame d (addToVarMapAsArg libc parseArg d name arg) := by
  unfold addToVarMapAsArg
  split
  · exact ⟨⟨rfl,rfl,rfl,rfl⟩,rfl⟩
  · split
    · exact ⟨⟨rfl,rfl,rfl,rfl⟩,rfl⟩
    · exact ⟨⟨rfl,rfl,rfl,rfl⟩,rfl⟩

lemma storeFn_frame : Frame d (storeFn libc parseArg d) := by
  have hfail : ∀ code message, Frame d (d.fail code message) := fun _ _ => ⟨⟨rfl,rfl,rfl,rfl⟩,rfl⟩
  have hadd : ∀ name arg, Frame d (addToVarMapAsArg libc parseArg d name arg).fnDone :=
    fun name arg => (addToVarMapAsArg_frame name arg).trans ⟨⟨rfl,rfl,rfl,rfl⟩,rfl⟩
  unfold storeFn
  dsimp only
  split
  · exact ⟨⟨rfl,rfl,rfl,rfl⟩,rfl⟩
  · exact ⟨⟨rfl,rfl,rfl,rfl⟩,rfl⟩
  · exact ⟨⟨rfl,rfl,rfl,rfl⟩,rfl⟩
  · exact ⟨⟨rfl,rfl,rfl,rfl⟩,rfl⟩
  · split
    · exact hfail _ _
    · exact hfail _ _
    · exact hfail _ _
    · exact hadd _ _
    · exact hfail _ _
  · exact hfail _ _

/-- Everything `action_acceptFn` can do after the argument. -/
lemma acceptFn_cases (h : acceptFn libc parseArg d = .ok d') : ∃ d₁, acceptArg libc parseArg d = .ok d₁ ∧
    d₁.accumName.length < accumSz ∧
    (d₁.accumName = [] ∧ d' = d₁ ∨ d₁.accumName ≠ [] ∧ d' = storeFn libc parseArg d₁) := by
  obtain ⟨d₁,hd,h⟩ := bind_eq_ok.mp h
  split_ifs at h with hsz hnil
  · exact ⟨d₁,hd,Nat.lt_of_not_le hsz,.inl ⟨hnil,(Except.ok.inj h).symm⟩⟩
  · exact ⟨d₁,hd,Nat.lt_of_not_le hsz,.inr ⟨hnil,(Except.ok.inj h).symm⟩⟩

lemma acceptFn_frame (h : acceptFn libc parseArg d = .ok d') : Frame d d' := by
  obtain ⟨d₁,hd,-,h⟩ := acceptFn_cases h
  rcases h with ⟨-,rfl⟩ | ⟨-,rfl⟩
  · exact acceptArg_frame hd
  · exact (acceptArg_frame hd).trans storeFn_frame

/-- With nothing in the accumulators, the end of a text is only the end of a text. -/
lemma acceptFn_of_nil (hname : d.accumName = []) (harg : d.accumArg = []) :
    acceptFn libc parseArg d = .ok d := by
  have hd : acceptArg libc parseArg d = .ok d := by
    rw [acceptArg, if_neg (by simp [harg, accumSz]), if_pos harg]
  rw [acceptFn, hd, ok_bind, if_neg (by simp [hname, accumSz]), if_pos hname]

lemma null_notMem_cstr (t : Option String) : '\x00' ∉ cstr t := by
  intro h
  have hc := List.mem_takeWhile_imp h
  simp at hc

lemma accumName_eq_ok : accumName d c = .ok d' ↔
    d.accumName.length < accumSz ∧ d' = { d with accumName := d.accumName ++ [c] } := by
  unfold accumName
  split_ifs with h
  · simp [h, eq_comm]
  · simp [h]

lemma accumArg_eq_ok : accumArg d c = .ok d' ↔
    d.accumArg.length < accumSz ∧ d' = { d with accumArg := d.accumArg ++ [c] } := by
  unfold accumArg
  split_ifs with h
  · simp [h, eq_comm]
  · simp [h]

lemma perform_frame (h : perform libc parseArg a d c = .ok d') (ha : a ≠ some .acceptFns) : Frame d d' := by
  unfold perform at h
  split at h
  · obtain rfl := Except.ok.inj h
    exact ⟨⟨rfl,rfl,rfl,rfl⟩,rfl⟩
  · obtain ⟨-,rfl⟩ := accumName_eq_ok.mp h
    exact ⟨⟨rfl,rfl,rfl,rfl⟩,rfl⟩
  · obtain rfl := Except.ok.inj h
    exact ⟨⟨rfl,rfl,rfl,rfl⟩,rfl⟩
  · obtain ⟨-,rfl⟩ := accumArg_eq_ok.mp h
    exact ⟨⟨rfl,rfl,rfl,rfl⟩,rfl⟩
  · obtain rfl := Except.ok.inj h
    exact ⟨⟨rfl,rfl,rfl,rfl⟩,rfl⟩
  · obtain ⟨-,rfl⟩ := accumArg_eq_ok.mp h
    exact ⟨⟨rfl,rfl,rfl,rfl⟩,rfl⟩
  · obtain ⟨-,rfl⟩ := accumArg_eq_ok.mp h
    exact ⟨⟨rfl,rfl,rfl,rfl⟩,rfl⟩
  · obtain rfl := Except.ok.inj h
    exact ⟨⟨rfl,rfl,rfl,rfl⟩,rfl⟩
  · obtain ⟨-,rfl⟩ := accumArg_eq_ok.mp h
    exact ⟨⟨rfl,rfl,rfl,rfl⟩,rfl⟩
  · obtain ⟨-,rfl⟩ := accumArg_eq_ok.mp h
    exact ⟨⟨rfl,rfl,rfl,rfl⟩,rfl⟩
  · exact acceptArg_frame h
  · exact acceptFn_frame h
  · exact absurd rfl ha

/-- Everything `action_acceptFns` can do: it goes on to the next text, or the machine is finished. -/
lemma acceptFns_cases (h : acceptFns libc parseArg d = .ok d') : ∃ d₁, acceptFn libc parseArg d = .ok d₁ ∧
    (d₁.parsing = .condition ∧ d' = loadParseString { d₁ with parsing := .action } d₁.actionsStr ∨
      d₁.parsing = .action ∧ d' = loadParseString { d₁ with parsing := .undoAction } d₁.undoActionsStr ∨
      d₁.parsing = .undoAction ∧ d' = { d₁ with
        applied := some (d₁.conditions, d₁.actions, d₁.undoActions), parsing := .undetermined,
        finished := true, conditions := [], actions := [], undoActions := [] } ∨
      (d₁.parsing = .arg ∨ d₁.parsing = .varMap) ∧
        d' = { d₁ with parsing := .undetermined, finished := true } ∨
      d₁.parsing = .undetermined ∧ ∃ message, d' = d₁.fail fsmError message) := by
  obtain ⟨d₁,hd,h⟩ := bind_eq_ok.mp h
  refine ⟨d₁,hd,?_⟩
  split at h
  · exact .inr (.inr (.inr (.inl ⟨.inl ‹_›,(Except.ok.inj h).symm⟩)))
  · exact .inr (.inr (.inr (.inl ⟨.inr ‹_›,(Except.ok.inj h).symm⟩)))
  · exact .inl ⟨‹_›,(Except.ok.inj h).symm⟩
  · exact .inr (.inl ⟨‹_›,(Except.ok.inj h).symm⟩)
  · exact .inr (.inr (.inl ⟨‹_›,(Except.ok.inj h).symm⟩))
  · exact .inr (.inr (.inr (.inr ⟨‹_›,_,(Except.ok.inj h).symm⟩)))

/-- The texts that are to come are taken in their order. -/
lemma acceptFns_pending (h : acceptFns libc parseArg d = .ok d') :
    d'.finished = true ∨ d.pending = d'.rest :: d'.pending := by
  obtain ⟨d₁,hd,h⟩ := acceptFns_cases h
  rw [← (acceptFn_frame hd).toFixed.pending]
  rcases h with ⟨hp,rfl⟩ | ⟨hp,rfl⟩ | ⟨hp,rfl⟩ | ⟨hp,rfl⟩ | ⟨hp,message,rfl⟩
  · exact .inr (by simp [ParseData.pending, loadParseString, hp])
  · exact .inr (by simp [ParseData.pending, loadParseString, hp])
  · exact .inl rfl
  · exact .inl rfl
  · exact .inl rfl

lemma follow_of_finished (h : d.finished = true) (q : ParseState) : (follow d q).returned.isSome = true := by
  unfold follow
  split_ifs <;> rfl

lemma follow_acceptRule (h : d.finished = false) :
    follow d .acceptRule = { d with state := .start, returned := none } := by
  rw [follow, if_pos (show transitions .acceptRule = [] from rfl), h]
  rfl

lemma follow_of_ne (h : d.finished = false) (hq : transitions q ≠ []) :
    follow d q = { d with state := q, returned := none } := by
  rw [follow, if_neg hq, h]
  rfl

/-- An edge that does not read a character leads away from a string, or to the end of a text. -/
lemma Edge.of_null (h : Edge q '\x00' a q') : a = some .acceptFns ∨
    q = .accumStr ∧ q' = .endAccumStr ∧ a = none := by
  cases h with
  | finish => exact .inl rfl
  | unquote => exact .inr ⟨rfl,rfl,rfl⟩
  | name _ hc => cases hc
  | number hc => cases hc
  | yes hc => cases hc
  | no hc => cases hc
  | word hc => cases hc
  | digit hc => cases hc
  | fraction _ hc => cases hc
  | char hc => cases hc

lemma Edge.of_acceptFns (h : Edge q c (some .acceptFns) q') :
    (q = .start ∨ q = .acceptFn) ∧ (c = '\x00' ∨ c = '\n') ∧ q' = .acceptRule := by
  cases h with
  | finish hq hc => exact ⟨hq,hc,rfl⟩

/-- Only the end of a text leads to the final state. -/
lemma Edge.destination_ne (h : Edge q c a q') (ha : a ≠ some .acceptFns) : transitions q' ≠ [] := by
  cases h <;> first | exact absurd rfl ha | exact List.cons_ne_nil _ _

lemma measure_of_returned (h : d.returned.isSome = true) : d.measure = 0 := if_pos h

lemma measure_of_not_returned (h : d.returned.isSome = false) : d.measure =
    2 * d.rest.length + (d.pending.map fun text => 2 * text.length + 2).sum +
      (if d.state = .accumStr then 1 else 0) + 1 := by
  unfold ParseData.measure
  rw [if_neg (by simp [h])]

/-- Every round brings the machine nearer to its end. -/
lemma measure_parseRound (hd : d.returned.isSome = false) (h : parseRound libc parseArg d = .ok d') :
    d'.measure < d.measure := by
  have hpos := measure_of_not_returned hd
  rcases parseRound_cases h with ⟨a,q,d₁,he,hp,rfl⟩ | ⟨-,rfl⟩
  · cases hfin : d₁.finished with
    | true =>
      rw [measure_of_returned (follow_of_finished hfin q)]
      omega
    | false =>
      by_cases ha : a = some .acceptFns
      · -- the end of a text: the next one is counted with a margin
        subst ha
        rcases acceptFns_pending hp with h | hpend
        · rw [hfin] at h
          cases h
        · have hpend' : d.pending = d₁.rest :: d₁.pending := hpend
          rw [he.of_acceptFns.2.2, follow_acceptRule hfin, measure_of_not_returned rfl, hpos, hpend', List.map_cons, List.sum_cons]
          simp only [reduceCtorEq, if_false]
          change _ + (d₁.pending.map fun text => 2 * text.length + 2).sum + _ + _ < _
          omega
      · have hframe := perform_frame hp ha
        have hrest : d₁.rest = d.rest.tail := hframe.rest
        have hpend : d₁.pending = d.pending := hframe.toFixed.pending
        rw [follow_of_ne hfin (he.destination_ne ha), measure_of_not_returned rfl, hpos]
        change 2 * d₁.rest.length + (d₁.pending.map fun text => 2 * text.length + 2).sum + _ + 1 < _
        rw [hrest, hpend]
        cases hr : d.rest with
        | nil =>
          have hnull : d.current = '\x00' := by rw [ParseData.current, hr, List.headD_nil]
          rw [hnull] at he
          obtain ⟨hstr,hend,-⟩ := he.of_null.resolve_left ha
          rw [hstr, hend]
          simp
        | cons c rest =>
          simp only [List.tail_cons, List.length_cons]
          split_ifs <;> omega
  · rw [measure_of_returned rfl]
    omega

lemma acceptArg_ne_loop : acceptArg libc parseArg d ≠ .error .loop := by
  unfold acceptArg
  by_cases hsz : accumSz ≤ d.accumArg.length
  · simp [hsz]
  · by_cases hnil : d.accumArg = []
    · simp [hnil, accumSz]
    · rw [if_neg hsz, if_neg hnil]
      cases d.argType <;> dsimp only <;> first | (split_ifs <;> simp) | simp

lemma acceptFn_ne_loop : acceptFn libc parseArg d ≠ .error .loop := by
  unfold acceptFn
  cases h : acceptArg libc parseArg d with
  | error e =>
    rw [error_bind, ← h]
    exact acceptArg_ne_loop
  | ok d₁ =>
    rw [ok_bind]
    split_ifs <;> simp

lemma perform_ne_loop : perform libc parseArg a d c ≠ .error .loop := by
  unfold perform accumName accumArg
  split
  case h_11 => exact acceptArg_ne_loop
  case h_12 => exact acceptFn_ne_loop
  case h_13 =>
    unfold acceptFns
    cases h : acceptFn libc parseArg d with
    | error e =>
      rw [error_bind, ← h]
      exact acceptFn_ne_loop
    | ok d₁ =>
      rw [ok_bind]
      split <;> simp
  all_goals first | (split_ifs <;> simp) | simp

lemma parseRound_ne_loop : parseRound libc parseArg d ≠ .error .loop := by
  unfold parseRound
  split
  · simp
  · rename_i t ht
    cases h : perform libc parseArg t.action { d with rest := d.rest.tail } d.current with
    | error e =>
      rw [error_bind, ← h]
      exact perform_ne_loop
    | ok d₁ => simp

/-- The machine always stops. -/
theorem parse_ne_loop (d : ParseData) (text : Option String) : parse libc parseArg d text ≠ .error .loop :=
  loop_ne_loop (fun _ _ => measure_parseRound) (fun _ => parseRound_ne_loop) (Nat.lt_succ_self _)

variable (libc parseArg) in
/-- Any number of rounds of the main loop. -/
abbrev ParseRounds : ParseData → ParseData → Prop :=
  Rounds (parseRound libc parseArg) fun d => d.returned.isSome

/-- What `parse` comes to is found by following the rounds. -/
theorem parse_of_rounds {text : Option String} (h : ParseRounds libc parseArg (loadParseString d text) d')
    (hret : d'.returned.isSome = true) : parse libc parseArg d text = .ok d' :=
  loop_of_rounds h hret (parse_ne_loop d text)

end Rounds

section Rule
variable {ε : Type} [DecidableEq ε] {libc : Libc} {reg : Registry ε} {s s' : Engine ε} {varMap : VarMap}
  {name conditions actions undos : Option String} {d : ParseData} {code : ℕ}

/-- Everything `parse_rule_persistent` can do: the parser stops before a rule is there, or the rule it read
is applied and its code reported. -/
lemma parseRulePersistent_eq_ok
    (h : parseRulePersistent libc reg s varMap name conditions actions undos = .ok (s', d, code)) :
    ∃ p, parseTexts libc reg.parseArg varMap s.vars conditions actions undos = .ok p ∧
      (p.applied = none ∧ s' = s.withVars p.vars ∧ d = p ∨
        ∃ parsed : ParsedRule, p.applied = some (parsed.conditions, parsed.actions, parsed.undos) ∧
          name = some parsed.name ∧ ∃ err text, applyRule reg (s.withVars p.vars) parsed = .ok (s', err, text) ∧
          d.errorCode = (ruleVerdict err).1 ∧ d.returned = some ((ruleVerdict err).1 = noParseError : Bool)) := by
  obtain ⟨p,hp,h⟩ := bind_eq_ok.mp h
  refine ⟨p,hp,?_⟩
  cases happ : p.applied with
  | none =>
    simp only [happ] at h
    obtain ⟨rfl,hd⟩ := Prod.mk.inj (Except.ok.inj h)
    exact .inl ⟨rfl,rfl,(Prod.mk.inj hd).1.symm⟩
  | some lists =>
    obtain ⟨conds,acts,unds⟩ := lists
    cases name with
    | none => simp [happ] at h
    | some name =>
      simp only [happ] at h
      obtain ⟨⟨t,err,text⟩,ht,h⟩ := bind_eq_ok.mp h
      obtain ⟨rfl,hd⟩ := Prod.mk.inj (Except.ok.inj h)
      obtain ⟨rfl,-⟩ := Prod.mk.inj hd
      exact .inr ⟨⟨name,conds,acts,unds⟩,rfl,rfl,err,text,ht,rfl,rfl⟩

end Rule

end Xctools.Xcpmd
