import Xctools.Machine.Run
import Xctools.Xcpmd.Parsing

/-! What the parser hands over. Names are words, strings hold neither quotes nor nothing, and all of them
fit the accumulators, whatever the text was; and the variables are only ever looked up, or set to such
values under such names. -/
namespace Xctools.Xcpmd
open Machine

/-- A name the parser can read. -/
structure IsName (name : String) : Prop where
  nonempty : name ≠ ""
  length : name.length < accumSz
  word : ∀ c ∈ name.toList, isAlphanumeric_ c = true

instance (name : String) : Decidable (IsName name) :=
  decidable_of_iff (name ≠ "" ∧ name.length < accumSz ∧ name.toList.all isAlphanumeric_ = true)
    ⟨fun ⟨hne,hlen,hword⟩ => ⟨hne,hlen,List.all_eq_true.mp hword⟩,
     fun h => ⟨h.nonempty,h.length,List.all_eq_true.mpr h.word⟩⟩

/-- A string the parser can read. -/
structure IsText (s : String) : Prop where
  nonempty : s ≠ ""
  length : s.length < accumSz
  unquoted : ∀ c ∈ s.toList, isNotDblQuoteOrNull c = true

instance (s : String) : Decidable (IsText s) :=
  decidable_of_iff (s ≠ "" ∧ s.length < accumSz ∧ s.toList.all isNotDblQuoteOrNull = true)
    ⟨fun ⟨hne,hlen,hunquoted⟩ => ⟨hne,hlen,List.all_eq_true.mp hunquoted⟩,
     fun h => ⟨h.nonempty,h.length,List.all_eq_true.mpr h.unquoted⟩⟩

/-- An argument the parser can read. -/
def FnArg.Formed : FnArg → Prop
  | .str s => IsText s
  | .var name => IsName name
  | .undetermined => False
  | _ => True

structure Fn.Formed (fn : Fn) : Prop where
  name : IsName fn.name
  args : ∀ arg ∈ fn.args, arg.Formed

section Invariant
variable {libc : Libc} {parseArg : String → Option Arg} {P : VarStore → Prop} {mode : ParsedType}
  {d d' : ParseData} {c : Char} {a : Option ParseAction} {q q' : ParseState}

/-- What is kept all along: the variables, and the form of what was read. -/
structure Sound (P : VarStore → Prop) (mode : ParsedType) (d : ParseData) : Prop where
  vars : P d.vars
  parsing : d.parsing = .varMap → mode = .varMap
  name : ∀ c ∈ d.accumName, isAlphanumeric_ c = true
  args : ∀ arg ∈ d.args, arg.Formed
  conditions : ∀ fn ∈ d.conditions, fn.Formed
  actions : ∀ fn ∈ d.actions, fn.Formed
  undoActions : ∀ fn ∈ d.undoActions, fn.Formed
  applied : ∀ lists ∈ d.applied, (∀ fn ∈ lists.1, fn.Formed) ∧ (∀ fn ∈ lists.2.1, fn.Formed) ∧
    ∀ fn ∈ lists.2.2, fn.Formed

/-- What an accumulator holds in a state. -/
def ArgShape (type : FnArgType) (text : List Char) : ParseState → Prop
  | .accumVar => type = .var ∧ ∀ c ∈ text, isAlphanumeric_ c = true
  | .accumInt => type = .int
  | .beginAccumFloat | .accumFloat => type = .float
  | .accumStr | .endAccumStr => type = .str ∧ ∀ c ∈ text, isNotDblQuoteOrNull c = true
  | .accumBool => type = .bool
  | _ => text = []

/-- What `lookup_var` keeps, and `add_var` on what the parser reads. -/
structure Kept (libc : Libc) (parseArg : String → Option Arg) (mode : ParsedType) (P : VarStore → Prop) :
    Prop where
  lookupVar : ∀ vars name, P vars → P (lookupVar parseArg vars name).2
  addVar : mode = .varMap → ∀ vars name arg, IsName name → arg.Formed → (∀ n, arg ≠ .var n) → P vars →
    P (addVar libc parseArg vars name (convFnArg arg)).2.1

lemma ofList_ne_empty {text : List Char} (h : text ≠ []) : String.ofList text ≠ "" := by
  intro he
  apply h
  simpa using congrArg String.toList he

lemma isName_ofList {text : List Char} (hne : text ≠ []) (hlen : text.length < accumSz)
    (hall : ∀ c ∈ text, isAlphanumeric_ c = true) : IsName (String.ofList text) :=
  ⟨ofList_ne_empty hne,by simpa using hlen,by simpa using hall⟩

lemma isText_ofList {text : List Char} (hne : text ≠ []) (hlen : text.length < accumSz)
    (hall : ∀ c ∈ text, isNotDblQuoteOrNull c = true) : IsText (String.ofList text) :=
  ⟨ofList_ne_empty hne,by simpa using hlen,by simpa using hall⟩

lemma ArgShape.formed {type : FnArgType} {text : List Char} (h : ArgShape type text q) (hne : text ≠ [])
    (hlen : text.length < accumSz) : (readArg libc type text).Formed := by
  cases q with
  | accumVar =>
    obtain ⟨rfl,hall⟩ := h
    exact isName_ofList hne hlen hall
  | accumInt =>
    obtain rfl : type = .int := h
    trivial
  | beginAccumFloat =>
    obtain rfl : type = .float := h
    trivial
  | accumFloat =>
    obtain rfl : type = .float := h
    trivial
  | accumStr =>
    obtain ⟨rfl,hall⟩ := h
    exact isText_ofList hne hlen hall
  | endAccumStr =>
    obtain ⟨rfl,hall⟩ := h
    exact isText_ofList hne hlen hall
  | accumBool =>
    obtain rfl : type = .bool := h
    trivial
  | start => exact absurd h hne
  | invertFn => exact absurd h hne
  | accumName => exact absurd h hne
  | beginAccumArg => exact absurd h hne
  | acceptFn => exact absurd h hne
  | acceptRule => exact absurd h hne

lemma Kept.varsRead (h : Kept libc parseArg mode P) (hv : P d.vars) : P (d.varsRead parseArg) := by
  unfold ParseData.varsRead
  split_ifs
  · exact h.lookupVar _ _ hv
  · exact hv

lemma Sound.acceptArg (h : Sound P mode d) (hP : Kept libc parseArg mode P)
    (hshape : ArgShape d.argType d.accumArg q) (hd : acceptArg libc parseArg d = .ok d') :
    Sound P mode d' ∧ (d'.finished = true ∨ d'.accumArg = []) := by
  obtain ⟨hlen,hd⟩ := acceptArg_cases hd
  rcases hd with ⟨hnil,rfl⟩ | ⟨hne,rfl⟩ | ⟨-,code,message,-,rfl⟩
  · exact ⟨h,.inr hnil⟩
  · refine ⟨{ h with vars := hP.varsRead h.vars, args := ?_ },.inr rfl⟩
    change ∀ arg ∈ d.args ++ [_], _
    rw [List.forall_mem_append, List.forall_mem_singleton]
    exact ⟨h.args,hshape.formed hne hlen⟩
  · exact ⟨{ h with vars := hP.varsRead h.vars },.inl rfl⟩

lemma Sound.fail (h : Sound P mode d) (code : ℕ) (message : String) : Sound P mode (d.fail code message) :=
  { h with }

lemma Sound.addToVarMapAsArg (h : Sound P mode d) (hP : Kept libc parseArg mode P)
    (hmode : d.parsing = .varMap) {name : String} {arg : FnArg} (hname : IsName name)
    (harg : arg.Formed) (hvar : ∀ n, arg ≠ .var n) :
    Sound P mode (addToVarMapAsArg libc parseArg d name arg) := by
  have hadd := hP.addVar (h.parsing hmode) d.vars name arg hname harg hvar h.vars
  unfold Xcpmd.addToVarMapAsArg
  split
  · exact { h with }
  · split
    · rename_i vars text heq
      rw [heq] at hadd
      exact { h with vars := hadd }
    · rename_i vars text heq
      rw [heq] at hadd
      exact { h with vars := hadd }

lemma Sound.fnDone (h : Sound P mode d) : Sound P mode d.fnDone :=
  { h with name := by simp [ParseData.fnDone], args := by simp [ParseData.fnDone] }

lemma forall_formed_append {l : List Fn} {fn : Fn} (hl : ∀ fn ∈ l, fn.Formed) (hfn : fn.Formed) :
    ∀ f ∈ l ++ [fn], f.Formed := by
  rw [List.forall_mem_append, List.forall_mem_singleton]
  exact ⟨hl,hfn⟩

lemma Sound.storeFn (h : Sound P mode d) (hP : Kept libc parseArg mode P) (hne : d.accumName ≠ [])
    (hlen : d.accumName.length < accumSz) : Sound P mode (storeFn libc parseArg d) := by
  have hname := isName_ofList hne hlen h.name
  unfold Xcpmd.storeFn
  dsimp only
  split
  · exact Sound.fnDone { h with }
  · exact Sound.fnDone { h with conditions := forall_formed_append h.conditions ⟨hname,h.args⟩ }
  · exact Sound.fnDone { h with actions := forall_formed_append h.actions ⟨hname,h.args⟩ }
  · exact Sound.fnDone { h with undoActions := forall_formed_append h.undoActions ⟨hname,h.args⟩ }
  · rename_i hmode
    split
    · exact h.fail _ _
    · exact h.fail _ _
    · exact h.fail _ _
    · rename_i arg hvar hundet hargs
      have harg : arg.Formed := h.args arg (by simp [hargs])
      exact (h.addToVarMapAsArg hP hmode hname harg fun n he => hvar n (by rw [← he])).fnDone
    · exact h.fail _ _
  · exact h.fail _ _

lemma addToVarMapAsArg_keeps (name : String) (arg : FnArg) :
    (addToVarMapAsArg libc parseArg d name arg).accumArg = d.accumArg ∧
      (d.finished = true → (addToVarMapAsArg libc parseArg d name arg).finished = true) := by
  unfold addToVarMapAsArg
  split
  · exact ⟨rfl,id⟩
  · split
    · exact ⟨rfl,id⟩
    · exact ⟨rfl,id⟩

lemma storeFn_keeps : (storeFn libc parseArg d).accumArg = d.accumArg ∧
    (d.finished = true → (storeFn libc parseArg d).finished = true) := by
  unfold storeFn
  dsimp only
  split
  · exact ⟨rfl,id⟩
  · exact ⟨rfl,id⟩
  · exact ⟨rfl,id⟩
  · exact ⟨rfl,id⟩
  · split
    · exact ⟨rfl,fun _ => rfl⟩
    · exact ⟨rfl,fun _ => rfl⟩
    · exact ⟨rfl,fun _ => rfl⟩
    · exact addToVarMapAsArg_keeps _ _
    · exact ⟨rfl,fun _ => rfl⟩
  · exact ⟨rfl,fun _ => rfl⟩

lemma Sound.acceptFn (h : Sound P mode d) (hP : Kept libc parseArg mode P)
    (hshape : ArgShape d.argType d.accumArg q) (hd : acceptFn libc parseArg d = .ok d') :
    Sound P mode d' ∧ (d'.finished = true ∨ d'.accumArg = []) := by
  obtain ⟨d₁,hd₁,hlen,hd⟩ := acceptFn_cases hd
  obtain ⟨hsound,hdone⟩ := h.acceptArg hP hshape hd₁
  rcases hd with ⟨-,rfl⟩ | ⟨hne,rfl⟩
  · exact ⟨hsound,hdone⟩
  · exact ⟨hsound.storeFn hP hne hlen,hdone.imp storeFn_keeps.2 storeFn_keeps.1.trans⟩

lemma Sound.acceptFns (h : Sound P mode d) (hP : Kept libc parseArg mode P)
    (hshape : ArgShape d.argType d.accumArg q) (hd : acceptFns libc parseArg d = .ok d') :
    Sound P mode d' ∧ (d'.finished = true ∨ d'.accumArg = []) := by
  obtain ⟨d₁,hd₁,hd⟩ := acceptFns_cases hd
  obtain ⟨hsound,hdone⟩ := h.acceptFn hP hshape hd₁
  rcases hd with ⟨-,rfl⟩ | ⟨-,rfl⟩ | ⟨-,rfl⟩ | ⟨-,rfl⟩ | ⟨-,message,rfl⟩
  · exact ⟨{ hsound with name := by simp [loadParseString], parsing := fun h => by cases h },.inr rfl⟩
  · exact ⟨{ hsound with name := by simp [loadParseString], parsing := fun h => by cases h },.inr rfl⟩
  · refine ⟨{ hsound with
      parsing := fun h => by cases h
      conditions := by simp
      actions := by simp
      undoActions := by simp
      applied := ?_ },.inl rfl⟩
    rintro _ ⟨⟩
    exact ⟨hsound.conditions,hsound.actions,hsound.undoActions⟩
  · exact ⟨{ hsound with parsing := fun h => by cases h },.inl rfl⟩
  · exact ⟨hsound.fail _ _,.inl rfl⟩

/-- What is read along an edge has the form the next state asks for. -/
lemma Sound.perform (h : Sound P mode d) (hP : Kept libc parseArg mode P)
    (hshape : ArgShape d.argType d.accumArg q) (he : Edge q c a q')
    (hd : perform libc parseArg a d c = .ok d') :
    Sound P mode d' ∧ (d'.finished = true ∨ ArgShape d'.argType d'.accumArg q') := by
  cases he with
  | name hq hc =>
    obtain ⟨-,rfl⟩ := accumName_eq_ok.mp hd
    refine ⟨{ h with name := ?_ },.inr ?_⟩
    · rw [List.forall_mem_append, List.forall_mem_singleton]
      exact ⟨h.name,hc⟩
    · rcases hq with rfl | rfl | rfl <;> exact hshape
  | invert =>
    obtain rfl := Except.ok.inj hd
    exact ⟨{ h with },.inr hshape⟩
  | skip hq =>
    obtain rfl := Except.ok.inj hd
    rcases hq with rfl | rfl <;> exact ⟨h,.inr hshape⟩
  | openParen =>
    obtain rfl := Except.ok.inj hd
    exact ⟨h,.inr hshape⟩
  | dollar =>
    obtain rfl := Except.ok.inj hd
    have hnil : d.accumArg = [] := hshape
    exact ⟨{ h with },.inr ⟨rfl,by simp [hnil]⟩⟩
  | number =>
    obtain ⟨-,rfl⟩ := accumArg_eq_ok.mp hd
    exact ⟨{ h with },.inr rfl⟩
  | quote =>
    obtain rfl := Except.ok.inj hd
    have hnil : d.accumArg = [] := hshape
    exact ⟨{ h with },.inr ⟨rfl,by simp [hnil]⟩⟩
  | yes =>
    obtain ⟨-,rfl⟩ := accumArg_eq_ok.mp hd
    exact ⟨{ h with },.inr rfl⟩
  | no =>
    obtain ⟨-,rfl⟩ := accumArg_eq_ok.mp hd
    exact ⟨{ h with },.inr rfl⟩
  | word hc =>
    obtain ⟨-,rfl⟩ := accumArg_eq_ok.mp hd
    refine ⟨{ h with },.inr ⟨hshape.1,?_⟩⟩
    rw [List.forall_mem_append, List.forall_mem_singleton]
    exact ⟨hshape.2,hc⟩
  | digit =>
    obtain ⟨-,rfl⟩ := accumArg_eq_ok.mp hd
    exact ⟨{ h with },.inr hshape⟩
  | period =>
    obtain ⟨-,rfl⟩ := accumArg_eq_ok.mp hd
    exact ⟨{ h with },.inr rfl⟩
  | fraction hq =>
    obtain ⟨-,rfl⟩ := accumArg_eq_ok.mp hd
    rcases hq with rfl | rfl <;> exact ⟨{ h with },.inr hshape⟩
  | char hc =>
    obtain ⟨-,rfl⟩ := accumArg_eq_ok.mp hd
    refine ⟨{ h with },.inr ⟨hshape.1,?_⟩⟩
    rw [List.forall_mem_append, List.forall_mem_singleton]
    exact ⟨hshape.2,hc⟩
  | unquote =>
    obtain rfl := Except.ok.inj hd
    exact ⟨h,.inr hshape⟩
  | nextArg => exact h.acceptArg hP hshape hd
  | close => exact h.acceptFn hP hshape hd
  | finish => exact h.acceptFns hP hshape hd

lemma Sound.follow (h : Sound P mode d) (q : ParseState) : Sound P mode (follow d q) := by
  unfold Xcpmd.follow
  split
  · exact { h with }
  · exact { h with }

lemma transitions_eq_nil : transitions q = [] ↔ q = .acceptRule := by
  cases q <;> simp [transitions]

/-- The invariant of the main loop. -/
structure Formed (P : VarStore → Prop) (mode : ParsedType) (d : ParseData) : Prop extends
    Sound P mode d where
  shape : d.returned = none → ArgShape d.argType d.accumArg d.state

lemma Formed.parseRound (h : Formed P mode d) (hP : Kept libc parseArg mode P)
    (hret : d.returned = none) (hd : parseRound libc parseArg d = .ok d') : Formed P mode d' := by
  rcases parseRound_cases hd with ⟨a,q,d₁,he,hp,rfl⟩ | ⟨-,rfl⟩
  · have hsound : Sound P mode { d with rest := d.rest.tail } := { h.toSound with }
    obtain ⟨hsound,hshape⟩ := hsound.perform hP (h.shape hret) he hp
    cases hfin : d₁.finished with
    | true =>
      refine { hsound.follow q with shape := fun hnone => ?_ }
      have hsome := follow_of_finished hfin q
      rw [hnone] at hsome
      cases hsome
    | false =>
      have hshape := hshape.resolve_left (by simp [hfin])
      by_cases hq : q = .acceptRule
      · subst hq
        rw [follow_acceptRule hfin]
        exact { hsound with shape := fun _ => hshape }
      · rw [follow_of_ne hfin (mt transitions_eq_nil.mp hq)]
        exact { hsound with shape := fun _ => hshape }
  · exact { h.toSound with shape := fun hnone => by cases hnone }

/-- What the variables keep when one is looked up or set, they keep along a parse; and what is handed to
`apply_rule` is well formed. -/
theorem Formed.parse {text : Option String} (h : Sound P mode d) (hP : Kept libc parseArg mode P)
    (hstate : d.state = .start) (hd : parse libc parseArg d text = .ok d') : Sound P mode d' := by
  have hstart : Formed P mode (loadParseString d text) := by
    refine { h with name := by simp [loadParseString], shape := fun _ => ?_ }
    change ArgShape d.argType [] d.state
    rw [hstate]
    rfl
  have hrounds := (rounds_of_loop hd).1
  have hstep : ∀ a b, Formed P mode a → a.returned.isSome = false →
      Xcpmd.parseRound libc parseArg a = .ok b → Formed P mode b := fun a b ha hret hb =>
    ha.parseRound hP (by simpa using hret) hb
  exact (hrounds.invariant hstep hstart).toSound

lemma parseVarPersistent_keeps {varMap : VarMap} {vars : VarStore} {text : String}
    (hP : Kept libc parseArg .varMap P) (hvars : P vars)
    (hd : parseVarPersistent libc parseArg varMap vars text = .ok d') : P d'.vars := by
  have h : Sound P .varMap { parsing := .varMap, varMap, vars } :=
    ⟨hvars,fun _ => rfl,by simp,by simp,by simp,by simp,by simp,by simp⟩
  exact (Formed.parse h hP rfl hd).vars

lemma parseVar_keeps {vars : VarStore} {text : String} {r : Bool × VarStore × String}
    (hP : Kept libc parseArg .varMap P) (hvars : P vars) (h : parseVar libc parseArg vars text = .ok r) :
    P r.2.1 := by
  obtain ⟨d,hd,h⟩ := bind_eq_ok.mp h
  have hkept := parseVarPersistent_keeps hP hvars hd
  split at h
  · obtain rfl := Except.ok.inj h
    exact hkept
  · obtain ⟨why,-,h⟩ := bind_eq_ok.mp h
    obtain rfl := Except.ok.inj h
    exact hkept

lemma parseDbVar_keeps {l l' : VarsLoad} {entry : String × String} (hP : Kept libc parseArg .varMap P)
    (hvars : P l.vars) (h : parseDbVar libc parseArg l entry = .ok l') : P l'.vars := by
  obtain ⟨d,hd,h⟩ := bind_eq_ok.mp h
  have hkept := parseVarPersistent_keeps hP hvars hd
  split at h
  · obtain rfl := Except.ok.inj h
    exact hkept
  · obtain ⟨why,-,h⟩ := bind_eq_ok.mp h
    obtain rfl := Except.ok.inj h
    exact hkept

/-- Loading the variables of the database sets variables one after another. -/
lemma parseDbVars_keeps {vars : VarStore} {dump : Option (List (String × String))} {l : VarsLoad}
    (hP : Kept libc parseArg .varMap P) (hvars : P vars)
    (h : parseDbVars libc parseArg vars dump = .ok l) : P l.vars := by
  cases dump with
  | none =>
    obtain rfl := Except.ok.inj h
    exact hvars
  | some entries =>
    exact perform_invariant (I := fun l : VarsLoad => P l.vars)
      (fun _ _ _ hl hstep => parseDbVar_keeps hP hl hstep) hvars h

/-- Parsing the texts of a rule only looks variables up. -/
lemma parseTexts_keeps {varMap : VarMap} {vars : VarStore} {conditions actions undos : Option String}
    (hP : ∀ vars name, P vars → P (lookupVar parseArg vars name).2) (hvars : P vars)
    (hd : parseTexts libc parseArg varMap vars conditions actions undos = .ok d') : P d'.vars ∧
      ∀ lists ∈ d'.applied, (∀ fn ∈ lists.1, fn.Formed) ∧ (∀ fn ∈ lists.2.1, fn.Formed) ∧
        ∀ fn ∈ lists.2.2, fn.Formed := by
  have h : Sound P .condition
      { parsing := .condition, varMap, vars, actionsStr := actions, undoActionsStr := undos } :=
    ⟨hvars,fun h => h,by simp,by simp,by simp,by simp,by simp,by simp⟩
  have hsound := Formed.parse h ⟨hP,fun h => by cases h⟩ rfl hd
  exact ⟨hsound.vars,hsound.applied⟩

end Invariant

end Xctools.Xcpmd
