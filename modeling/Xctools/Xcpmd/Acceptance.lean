import Mathlib.Algebra.Group.Even
import Mathlib.Algebra.Group.Nat.Even
import Xctools.Xcpmd.Grammar

/-! Which texts the parser accepts. As long as names and arguments fit the accumulators and variables can
be resolved, the machine goes through a text along the residual languages: it comes to the end of the
text if the text is in the grammar, and is stuck if it is not. -/
namespace Xctools.Xcpmd
open Machine Computability

/-- A text up to its first newline outside quotes. -/
def cut (quoted : Bool) : List Char → List Char
  | [] => []
  | c :: text =>
    if c = '\n' ∧ quoted = false then []
    else c :: cut (if c = '"' then !quoted else quoted) text

/-- The position after a text is outside quotes. -/
def Outside (text : List Char) : Prop := Even (text.count '"')

/-- The characters of numbers. -/
def isNumeric (c : Char) : Bool := isDigitOrMinus c || isPeriod c

/-- Names and numbers outside quotes and texts in quotes are shorter than the accumulators. -/
structure Short (text : List Char) : Prop where
  name : ∀ u v w, text = u ++ v ++ w → Outside u → (∀ c ∈ v, isAlphanumeric_ c = true) → v.length < accumSz
  number : ∀ u v w, text = u ++ v ++ w → Outside u → (∀ c ∈ v, isNumeric c = true) → v.length < accumSz
  quoted : ∀ u v w, text = u ++ '"' :: v ++ w → Outside u → '"' ∉ v → v.length < accumSz

/-- Every name behind a dollar sign outside quotes satisfies a predicate. -/
def Names (p : String → Prop) (text : List Char) : Prop :=
  ∀ u v w, text = u ++ '$' :: v ++ w → Outside u → v ≠ [] → (∀ c ∈ v, isAlphanumeric_ c = true) →
    (∀ c ∈ w.head?, isAlphanumeric_ c = false) → p (String.ofList v)

section Scan
variable {libc : Libc} {parseArg : String → Option Arg} {d d' : ParseData} {c : Char}
  {a : Option ParseAction} {q q' : ParseState} {text pre : List Char} {p : String → Prop}

/-- How far the name of an item is read. -/
def NameRead (pre name : List Char) : ParseState → Prop
  | .start | .invertFn | .acceptFn | .acceptRule => name = []
  | .accumName => (∀ c ∈ name, isAlphanumeric_ c = true) ∧ ∃ u, pre = u ++ name ∧ Outside u
  | _ => name.length < accumSz

/-- How far an argument is read. -/
def ArgRead (pre : List Char) (type : FnArgType) (arg : List Char) : ParseState → Prop
  | .accumVar => type = .var ∧ (∀ c ∈ arg, isAlphanumeric_ c = true) ∧ ∃ u, pre = u ++ '$' :: arg ∧ Outside u
  | .accumInt => type = .int ∧ (∀ c ∈ arg, isNumeric c = true) ∧ ∃ u, pre = u ++ arg ∧ Outside u
  | .beginAccumFloat | .accumFloat =>
    type = .float ∧ (∀ c ∈ arg, isNumeric c = true) ∧ ∃ u, pre = u ++ arg ∧ Outside u
  | .accumStr => type = .str ∧ '"' ∉ arg ∧ ∃ u, pre = u ++ '"' :: arg ∧ Outside u
  | .endAccumStr => type = .str ∧ arg.length < accumSz
  | .accumBool => type = .bool ∧ (arg = ['t'] ∨ arg = ['f'])
  | _ => arg = []

/-- The machine is running in the middle of a rule. -/
structure Running (parseArg : String → Option Arg) (p : String → Prop) (d : ParseData) : Prop where
  finished : d.finished = false
  errorCode : d.errorCode = noParseError
  returned : d.returned = none
  parsing : d.parsing = .condition ∨ d.parsing = .action ∨ d.parsing = .undoAction
  resolvable : ∀ name, p name → Resolvable parseArg d.varMap d.vars name

/-- The machine has read part of a text. -/
structure Scanning (parseArg : String → Option Arg) (p : String → Prop) (text pre : List Char)
    (d : ParseData) : Prop extends Running parseArg p d where
  split : text = pre ++ cut (d.state = .accumStr) d.rest
  null : '\x00' ∉ d.rest
  outside : Outside pre ↔ d.state ≠ .accumStr
  name : NameRead pre d.accumName d.state
  arg : ArgRead pre d.argType d.accumArg d.state

lemma Running.withVarsRead (h : Running parseArg p d) (arg : FnArg) :
    Running parseArg p ((d.withVars (d.varsRead parseArg)).pushArg arg) where
  finished := h.finished
  errorCode := h.errorCode
  returned := h.returned
  parsing := h.parsing
  resolvable name hname := by
    refine (h.resolvable name hname).imp id fun hfound => ?_
    change (lookupVar parseArg (d.varsRead parseArg) name).1.isSome = true
    unfold ParseData.varsRead
    split_ifs
    · exact isSome_lookupVar_lookupVar hfound
    · exact hfound

lemma Running.acceptArg (h : Running parseArg p d) (hread : d.accumArg = [] ∨ d.Readable parseArg) :
    ∃ d₁, acceptArg libc parseArg d = .ok d₁ ∧ Running parseArg p d₁ ∧ d₁.accumArg = [] ∧
      d₁.accumName = d.accumName := by
  rcases hread with hnil | hread
  · refine ⟨d,?_,h,hnil,rfl⟩
    rw [Xcpmd.acceptArg, if_neg (by simp [hnil, accumSz]), if_pos hnil]
  · exact ⟨_,acceptArg_of_readable hread,h.withVarsRead _,rfl,rfl⟩

lemma Running.storeFn (h : Running parseArg p d) : Running parseArg p (storeFn libc parseArg d) ∧
    (storeFn libc parseArg d).accumName = [] ∧ (storeFn libc parseArg d).accumArg = d.accumArg := by
  unfold Xcpmd.storeFn
  dsimp only
  rcases h.parsing with hp | hp | hp
  · rw [hp]
    exact ⟨⟨h.finished,h.errorCode,h.returned,.inl rfl,h.resolvable⟩,rfl,rfl⟩
  · rw [hp]
    exact ⟨⟨h.finished,h.errorCode,h.returned,.inr (.inl rfl),h.resolvable⟩,rfl,rfl⟩
  · rw [hp]
    exact ⟨⟨h.finished,h.errorCode,h.returned,.inr (.inr rfl),h.resolvable⟩,rfl,rfl⟩

lemma Running.acceptFn (h : Running parseArg p d) (hread : d.accumArg = [] ∨ d.Readable parseArg)
    (hname : d.accumName.length < accumSz) : ∃ d₁, acceptFn libc parseArg d = .ok d₁ ∧
      Running parseArg p d₁ ∧ d₁.accumArg = [] ∧ d₁.accumName = [] := by
  obtain ⟨d₁,hd,hrun,harg,hn⟩ := h.acceptArg  hread
  unfold Xcpmd.acceptFn
  rw [hd, ok_bind, hn, if_neg (Nat.not_le_of_lt hname)]
  by_cases hnil : d.accumName = []
  · exact ⟨d₁,by rw [if_pos hnil],hrun,harg,hn.trans hnil⟩
  · obtain ⟨hrun',hn',harg'⟩ := hrun.storeFn 
    exact ⟨_,by rw [if_neg hnil],hrun',harg'.trans harg,hn'⟩

lemma outside_append_singleton : Outside (pre ++ [c]) ↔ if c = '"' then ¬ Outside pre else Outside pre := by
  unfold Outside
  by_cases hc : c = '"'
  · subst hc
    simp [Nat.even_add_one]
  · simp [hc]

lemma Outside.append (h : Outside pre) (hc : c ≠ '"') : Outside (pre ++ [c]) := by
  rwa [outside_append_singleton, if_neg hc]

/-- An edge passes a quote exactly when it goes into a string or out of one. -/
lemma Edge.quoted (h : Edge q c a q') (hc : c ≠ '\x00') : decide (q' = .accumStr) =
    if c = '"' then !decide (q = .accumStr) else decide (q = .accumStr) := by
  cases h with
  | name hq hc => rcases hq with rfl | rfl | rfl <;> simp [ne_of_class (d := '"') hc rfl]
  | skip hq => rcases hq with rfl | rfl <;> rfl
  | number hc => simp [ne_of_class (d := '"') hc rfl]
  | yes hc => simp [ne_of_class (d := '"') hc rfl]
  | no hc => simp [ne_of_class (d := '"') hc rfl]
  | word hc => simp [ne_of_class (d := '"') hc rfl]
  | digit hc => simp [ne_of_class (d := '"') hc rfl]
  | fraction hq hc => rcases hq with rfl | rfl <;> simp [ne_of_class (d := '"') hc rfl]
  | char hc => simp [ne_of_class (d := '"') hc rfl]
  | unquote hq =>
    simp only [isDblQuoteOrNull, Bool.or_eq_true, decide_eq_true_eq] at hq
    simp [hq.resolve_right hc]
  | nextArg hq => rcases hq with rfl | rfl | rfl | rfl | rfl <;> rfl
  | close hq => rcases hq with rfl | rfl | rfl | rfl | rfl | rfl | rfl <;> rfl
  | finish hq hc' =>
    obtain rfl := hc'.resolve_left hc
    rcases hq with rfl | rfl <;> rfl
  | invert => rfl
  | openParen => rfl
  | dollar => rfl
  | quote => rfl
  | period => rfl

/-- An argument that ends here is one that can be taken. -/
lemma ArgRead.readable {tail : List Char} (h : ArgRead pre d.argType d.accumArg q)
    (hq : EndsArg q ∨ q = .beginAccumFloat) (hrun : Running parseArg p d) (hshort : Short text)
    (hnames : Names p text) (hsplit : text = pre ++ c :: tail) (hc : c = ' ' ∨ c = ')') :
    d.accumArg = [] ∨ d.Readable parseArg := by
  by_cases hnil : d.accumArg = []
  · exact .inl hnil
  have hnumber : (∀ c ∈ d.accumArg, isNumeric c = true) ∧ (∃ u, pre = u ++ d.accumArg ∧ Outside u) →
      d.accumArg.length < accumSz := by
    rintro ⟨hall,u,rfl,hu⟩
    exact hshort.number u _ (c :: tail) hsplit hu hall
  have hword : isAlphanumeric_ c = false := by rcases hc with rfl | rfl <;> rfl
  refine .inr ?_
  rcases hq with (rfl | rfl | rfl | rfl | rfl) | rfl
  · obtain ⟨ht,hall,u,rfl,hu⟩ := h
    refine ⟨?_,hnil,by simp [ht],by simp [ht],fun _ => hrun.resolvable _ ?_⟩
    · exact hshort.name (u ++ ['$']) _ (c :: tail) (by simp [hsplit]) (hu.append (by decide)) hall
    · exact hnames u _ (c :: tail) hsplit hu hnil hall (by simp [hword])
  · exact ⟨hnumber h.2,hnil,by simp [h.1],by simp [h.1],by simp [h.1]⟩
  · exact ⟨hnumber h.2,hnil,by simp [h.1],by simp [h.1],by simp [h.1]⟩
  · refine ⟨?_,hnil,by simp [h.1],fun _ => ?_,by simp [h.1]⟩
    · rcases h.2 with hb | hb <;> simp [hb, accumSz]
    · rcases h.2 with hb | hb <;> simp [hb]
  · exact ⟨h.2,hnil,by simp [h.1],by simp [h.1],by simp [h.1]⟩
  · exact ⟨hnumber h.2,hnil,by simp [h.1],by simp [h.1],by simp [h.1]⟩

/-- What an edge does to the accumulators, which are large enough for it. -/
lemma perform_scan {tail : List Char} (hshort : Short text) (hnames : Names p text)
    (hrun : Running parseArg p d) (hsplit : text = pre ++ c :: tail) (hc : c ≠ '\x00')
    (hout : Outside pre ↔ q ≠ .accumStr) (hname : NameRead pre d.accumName q)
    (harg : ArgRead pre d.argType d.accumArg q) (he : Edge q c a q') (ha : a ≠ some .acceptFns) :
    ∃ d₁, perform libc parseArg a d c = .ok d₁ ∧ Running parseArg p d₁ ∧
      NameRead (pre ++ [c]) d₁.accumName q' ∧ ArgRead (pre ++ [c]) d₁.argType d₁.accumArg q' := by
  have hkeep : ∀ undo type name arg,
      Running parseArg p { d with undo, argType := type, accumName := name, accumArg := arg } :=
    fun _ _ _ _ => ⟨hrun.finished,hrun.errorCode,hrun.returned,hrun.parsing,hrun.resolvable⟩
  cases he with
  | name hq hc =>
    obtain ⟨hall,u,hu,hout⟩ : (∀ c ∈ d.accumName, isAlphanumeric_ c = true) ∧
        ∃ u, pre = u ++ d.accumName ∧ Outside u := by
      rcases hq with rfl | rfl | rfl
      · exact ⟨by simp [show d.accumName = [] from hname],pre,
          by simp [show d.accumName = [] from hname],hout.mpr (by simp)⟩
      · exact ⟨by simp [show d.accumName = [] from hname],pre,
          by simp [show d.accumName = [] from hname],hout.mpr (by simp)⟩
      · exact hname
    have hlt : d.accumName.length < accumSz := hshort.name u _ (c :: tail) (hu ▸ hsplit) hout hall
    refine ⟨_,accumName_eq_ok.mpr ⟨hlt,rfl⟩,hkeep _ _ _ _,⟨?_,u,by simp [hu],hout⟩,?_⟩
    · rw [List.forall_mem_append, List.forall_mem_singleton]
      exact ⟨hall,hc⟩
    · rcases hq with rfl | rfl | rfl <;> exact harg
  | invert => exact ⟨_,rfl,hkeep _ _ _ _,hname,harg⟩
  | skip hq => rcases hq with rfl | rfl <;> exact ⟨_,rfl,hrun,hname,harg⟩
  | openParen =>
    obtain ⟨hall,u,hu,hout⟩ := hname
    exact ⟨_,rfl,hrun,hshort.name u _ ('(' :: tail) (hu ▸ hsplit) hout hall,harg⟩
  | dollar =>
    have hnil : d.accumArg = [] := harg
    exact ⟨_,rfl,hkeep _ _ _ _,hname,rfl,by simp [hnil],pre,by simp [hnil],hout.mpr (by simp)⟩
  | number hc =>
    have hnil : d.accumArg = [] := harg
    refine ⟨_,accumArg_eq_ok.mpr ⟨by simp [hnil, accumSz],rfl⟩,hkeep _ _ _ _,hname,rfl,?_,pre,?_,?_⟩
    · simp [hnil, isNumeric, hc]
    · simp [hnil]
    · exact hout.mpr (by simp)
  | quote =>
    have hnil : d.accumArg = [] := harg
    exact ⟨_,rfl,hkeep _ _ _ _,hname,rfl,by simp [hnil],pre,by simp [hnil],hout.mpr (by simp)⟩
  | yes =>
    have hnil : d.accumArg = [] := harg
    exact ⟨_,accumArg_eq_ok.mpr ⟨by simp [hnil, accumSz],rfl⟩,hkeep _ _ _ _,hname,rfl,by simp [hnil]⟩
  | no =>
    have hnil : d.accumArg = [] := harg
    exact ⟨_,accumArg_eq_ok.mpr ⟨by simp [hnil, accumSz],rfl⟩,hkeep _ _ _ _,hname,rfl,by simp [hnil]⟩
  | word hc =>
    obtain ⟨ht,hall,u,hu,hout⟩ := harg
    have hlt : d.accumArg.length < accumSz := by
      apply hshort.name (u ++ ['$']) _ (c :: tail) _ (hout.append (by decide)) hall
      simp [hsplit, hu]
    refine ⟨_,accumArg_eq_ok.mpr ⟨hlt,rfl⟩,hkeep _ _ _ _,hname,ht,?_,u,by simp [hu],hout⟩
    rw [List.forall_mem_append, List.forall_mem_singleton]
    exact ⟨hall,hc⟩
  | digit hc =>
    obtain ⟨ht,hall,u,hu,hout⟩ := harg
    have hlt : d.accumArg.length < accumSz := hshort.number u _ (c :: tail) (hu ▸ hsplit) hout hall
    refine ⟨_,accumArg_eq_ok.mpr ⟨hlt,rfl⟩,hkeep _ _ _ _,hname,ht,?_,u,by simp [hu],hout⟩
    rw [List.forall_mem_append, List.forall_mem_singleton]
    exact ⟨hall,by simp [isNumeric, isDigitOrMinus, hc]⟩
  | period =>
    obtain ⟨-,hall,u,hu,hout⟩ := harg
    have hlt : d.accumArg.length < accumSz := hshort.number u _ ('.' :: tail) (hu ▸ hsplit) hout hall
    refine ⟨_,accumArg_eq_ok.mpr ⟨hlt,rfl⟩,hkeep _ _ _ _,hname,rfl,?_,u,by simp [hu],hout⟩
    rw [List.forall_mem_append, List.forall_mem_singleton]
    exact ⟨hall,rfl⟩
  | fraction hq hc =>
    obtain ⟨ht,hall,u,hu,hout⟩ : d.argType = .float ∧ (∀ c ∈ d.accumArg, isNumeric c = true) ∧
        ∃ u, pre = u ++ d.accumArg ∧ Outside u := by
      rcases hq with rfl | rfl <;> exact harg
    have hlt : d.accumArg.length < accumSz := hshort.number u _ (c :: tail) (hu ▸ hsplit) hout hall
    refine ⟨_,accumArg_eq_ok.mpr ⟨hlt,rfl⟩,hkeep _ _ _ _,?_,ht,?_,u,by simp [hu],hout⟩
    · rcases hq with rfl | rfl <;> exact hname
    · rw [List.forall_mem_append, List.forall_mem_singleton]
      exact ⟨hall,by simp [isNumeric, isDigitOrMinus, hc]⟩
  | char hc =>
    obtain ⟨ht,hall,u,hu,hout⟩ := harg
    have hlt : d.accumArg.length < accumSz := hshort.quoted u _ (c :: tail) (hu ▸ hsplit) hout hall
    refine ⟨_,accumArg_eq_ok.mpr ⟨hlt,rfl⟩,hkeep _ _ _ _,hname,ht,?_,u,by simp [hu],hout⟩
    rw [List.mem_append, List.mem_singleton, not_or]
    exact ⟨hall,(ne_of_class hc rfl).symm⟩
  | unquote =>
    obtain ⟨ht,hall,u,hu,hout⟩ := harg
    exact ⟨_,rfl,hrun,hname,ht,hshort.quoted u _ (c :: tail) (hu ▸ hsplit) hout hall⟩
  | nextArg hq =>
    have hread := harg.readable (.inl hq) hrun hshort hnames hsplit (.inl rfl)
    obtain ⟨d₁,hd,hrun',harg',hname'⟩ := hrun.acceptArg hread
    refine ⟨d₁,hd,hrun',?_,harg'⟩
    rw [hname']
    rcases hq with rfl | rfl | rfl | rfl | rfl <;> exact hname
  | close hq =>
    have hread : d.accumArg = [] ∨ d.Readable parseArg := by
      rcases hq with rfl | hq | hq
      · exact .inl harg
      · exact harg.readable (.inr hq) hrun hshort hnames hsplit (.inr rfl)
      · exact harg.readable (.inl hq) hrun hshort hnames hsplit (.inr rfl)
    have hlt : d.accumName.length < accumSz := by
      rcases hq with rfl | rfl | rfl | rfl | rfl | rfl | rfl <;> exact hname
    obtain ⟨d₁,hd,hrun',harg',hname'⟩ := hrun.acceptFn hread hlt
    exact ⟨d₁,hd,hrun',hname',harg'⟩
  | finish => exact absurd rfl ha

/-- The machine is at the end of a text. -/
structure AtEnd (parseArg : String → Option Arg) (p : String → Prop) (d : ParseData) : Prop
    extends Running parseArg p d where
  state : d.state = .start ∨ d.state = .acceptFn
  current : d.current = '\x00' ∨ d.current = '\n'
  name : d.accumName = []
  arg : d.accumArg = []

/-- The machine has returned because no edge fits. -/
structure Refused (d d' : ParseData) : Prop where
  returned : d'.returned = some false
  errorCode : d'.errorCode = fsmError
  applied : d'.applied = d.applied

lemma Scanning.step {rest : List Char} (hshort : Short text) (hnames : Names p text)
    (h : Scanning parseArg p text pre d) (hrest : d.rest = c :: rest)
    (hcut : ¬ (c = '\n' ∧ decide (d.state = .accumStr) = false)) (he : Edge d.state c a q)
    (ha : a ≠ some .acceptFns) : ∃ d', Round (parseRound libc parseArg) (fun d => d.returned.isSome) d d' ∧
      Scanning parseArg p text (pre ++ [c]) d' ∧ Fixed d d' ∧ d'.state = q ∧ d'.rest = rest := by
  have hnull : '\x00' ∉ c :: rest := hrest ▸ h.null
  rw [List.mem_cons, not_or] at hnull
  have hc : c ≠ '\x00' := Ne.symm hnull.1
  have hsplit : text = pre ++ c :: cut (decide (q = .accumStr)) rest := by
    rw [h.split, hrest, cut, if_neg hcut, he.quoted hc]
  obtain ⟨d₁,hd,hrun,hname,harg⟩ := perform_scan (d := { d with rest := rest }) hshort
    hnames ⟨h.finished,h.errorCode,h.returned,h.parsing,h.resolvable⟩ hsplit hc h.outside h.name
    h.arg he ha
  have hframe := perform_frame hd ha
  have hround : parseRound libc parseArg d = .ok { d₁ with state := q, returned := none } := by
    have hcur : d.current = c := by rw [ParseData.current, hrest, List.headD_cons]
    rw [parseRound_of_edge (hcur.symm ▸ he), hcur, hrest, List.tail_cons, hd, ok_bind,
      follow_of_ne hrun.finished (he.destination_ne ha)]
  refine ⟨_,⟨by simp [h.returned],hround⟩,?_,?_,rfl,hframe.rest⟩
  · exact {
      finished := hrun.finished
      errorCode := hrun.errorCode
      returned := rfl
      parsing := hrun.parsing
      resolvable := hrun.resolvable
      split := by
        change text = pre ++ [c] ++ cut (decide (q = .accumStr)) d₁.rest
        rw [hframe.rest, hsplit, List.append_assoc, List.singleton_append]
      null := by
        change '\x00' ∉ d₁.rest
        rw [hframe.rest]
        exact hnull.2
      outside := by
        have hq := he.quoted hc
        rw [outside_append_singleton, h.outside]
        by_cases hquote : c = '"'
        · rw [if_pos hquote] at hq ⊢
          by_cases hs : d.state = .accumStr <;> simp_all
        · rw [if_neg hquote] at hq ⊢
          by_cases hs : d.state = .accumStr <;> simp_all
      name := hname
      arg := harg }
  · exact ⟨hframe.parsing,hframe.actionsStr,hframe.undoActionsStr,hframe.applied⟩

lemma refused_of_stuck (hret : d.returned = none) (h : ∀ a q, ¬ Edge d.state d.current a q) :
    ∃ d', ParseRounds libc parseArg d d' ∧ Refused d d' :=
  ⟨d.stuck,.single ⟨by simp [hret],parseRound_of_stuck h⟩,rfl,rfl,rfl⟩

/-- A newline ends a text outside quotes only. -/
lemma Edge.of_newline (h : Edge q '\n' a q') : q = .accumStr ∨ a = some .acceptFns := by
  cases h with
  | finish => exact .inr rfl
  | unquote => exact .inl rfl
  | char => exact .inl rfl
  | name _ hc => cases hc
  | number hc => cases hc
  | yes hc => cases hc
  | no hc => cases hc
  | word hc => cases hc
  | digit hc => cases hc
  | fraction _ hc => cases hc

/-- At the end of a text the machine is between items, or it refuses the text. -/
lemma Scanning.atEnd_or_refused (h : Scanning parseArg p text pre d)
    (hcur : d.rest = [] ∨ d.current = '\n' ∧ d.state ≠ .accumStr) :
    ((d.state = .start ∨ d.state = .acceptFn) → AtEnd parseArg p d) ∧
    (¬ (d.state = .start ∨ d.state = .acceptFn) →
      ∃ d', ParseRounds libc parseArg d d' ∧ Refused d d') := by
  have hnull : d.rest = [] → d.current = '\x00' := fun hr => by rw [ParseData.current, hr, List.headD_nil]
  constructor
  · intro hq
    have hname := h.name
    have harg := h.arg
    refine ⟨h.toRunning,hq,hcur.imp hnull And.left,?_,?_⟩
    · rcases hq with hq | hq <;> rw [hq] at hname <;> exact hname
    · rcases hq with hq | hq <;> rw [hq] at harg <;> exact harg
  · intro hq
    by_cases hstr : d.state = .accumStr
    · -- the string is not closed: the machine leaves it and is stuck behind it
      have hrest := hcur.resolve_right fun hn => hn.2 hstr
      have he : Edge d.state d.current none .endAccumStr := by
        rw [hstr, hnull hrest]
        exact .unquote rfl
      have hround : parseRound libc parseArg d =
          .ok { d with rest := [], state := .endAccumStr, returned := none } := by
        rw [parseRound_of_edge he, hrest]
        have hdest : transitions .endAccumStr ≠ [] := List.cons_ne_nil _ _
        exact congrArg Except.ok (follow_of_ne (d := { d with rest := [] }) h.finished hdest)
      obtain ⟨d',hd',href⟩ := @refused_of_stuck libc parseArg
        { d with rest := [], state := .endAccumStr, returned := none } rfl
        fun a q (he : Edge .endAccumStr '\x00' a q) => by
          rcases he.of_null with rfl | ⟨h,-⟩
          · simpa using he.of_acceptFns.1
          · cases h
      exact ⟨d',.head ⟨by simp [h.returned],hround⟩ hd',href.returned,href.errorCode,href.applied⟩
    · apply refused_of_stuck h.returned
      intro a q he
      have hend : a = some .acceptFns := by
        rcases hcur with hr | ⟨hn,-⟩
        · rw [hnull hr] at he
          exact he.of_null.resolve_right fun hn => hstr hn.1
        · rw [hn] at he
          exact he.of_newline.resolve_left hstr
      subst hend
      exact hq he.of_acceptFns.1

/-- The machine goes through a text along the residual languages. -/
theorem scan (hshort : Short text) (hnames : Names p text) {pre : List Char}
    (h : Scanning parseArg p text pre d) :
    (cut (d.state = .accumStr) d.rest ∈ Grammar.residual d.state →
      ∃ d', ParseRounds libc parseArg d d' ∧ AtEnd parseArg p d' ∧ Fixed d d') ∧
    (cut (d.state = .accumStr) d.rest ∉ Grammar.residual d.state →
      ∃ d', ParseRounds libc parseArg d d' ∧ Refused d d') := by
  -- induction on what is left of the text
  induction hrest : d.rest generalizing d pre with
  | nil =>
    rw [cut, Grammar.nil_mem_residual]
    have hend := @Scanning.atEnd_or_refused libc _ _ _ _ _ h (.inl hrest)
    exact ⟨fun hq => ⟨d,.refl,hend.1 hq,rfl,rfl,rfl,rfl⟩,hend.2⟩
  | cons c rest ih =>
    by_cases hcut : c = '\n' ∧ decide (d.state = .accumStr) = false
    · rw [cut, if_pos hcut, Grammar.nil_mem_residual]
      have hcur : d.current = '\n' := by rw [ParseData.current, hrest, List.headD_cons, hcut.1]
      have hend := @Scanning.atEnd_or_refused libc _ _ _ _ _ h (.inr ⟨hcur,of_decide_eq_false hcut.2⟩)
      exact ⟨fun hq => ⟨d,.refl,hend.1 hq,rfl,rfl,rfl,rfl⟩,hend.2⟩
    · have hc : c ≠ '\x00' := by
        rintro rfl
        exact h.null (hrest ▸ List.mem_cons_self)
      rw [cut, if_neg hcut, Grammar.cons_mem_residual hc]
      by_cases hedge : ∃ a q, Edge d.state c a q
      · obtain ⟨a,q,he⟩ := hedge
        have ha : a ≠ some .acceptFns := by
          rintro rfl
          obtain ⟨hq,hn,-⟩ := he.of_acceptFns
          exact hcut ⟨hn.resolve_left hc,by rcases hq with hq | hq <;> simp [hq]⟩
        obtain ⟨d₁,hround,hscan,hfix,hq,hr⟩ := @Scanning.step libc _ _ _ _ _ _ _ _ _ hshort hnames h hrest hcut he ha
        obtain ⟨hin,hnot⟩ := ih hscan hr
        rw [hq, he.quoted hc] at hin hnot
        constructor
        · rintro ⟨a',q',he',-,hw⟩
          rw [← (he.unique he').2] at hw
          obtain ⟨d',hd',hend,hfix'⟩ := hin hw
          exact ⟨d',.head hround hd',hend,hfix.trans hfix'⟩
        · intro hw
          obtain ⟨d',hd',href⟩ := hnot fun hmem => hw ⟨a,q,he,ha,hmem⟩
          exact ⟨d',.head hround hd',href.returned,href.errorCode,href.applied.trans hfix.applied⟩
      · constructor
        · rintro ⟨a,q,he,-⟩
          exact absurd ⟨a,q,he⟩ hedge
        · intro
          apply refused_of_stuck h.returned
          intro a q he
          rw [ParseData.current, hrest, List.headD_cons] at he
          exact hedge ⟨a,q,he⟩

/-- The machine at the start of a text. -/
structure AtStart (parseArg : String → Option Arg) (p : String → Prop) (d : ParseData) : Prop
    extends Running parseArg p d where
  state : d.state = .start
  null : '\x00' ∉ d.rest
  name : d.accumName = []
  arg : d.accumArg = []

lemma AtStart.scanning (h : AtStart parseArg p d) : Scanning parseArg p (cut false d.rest) [] d where
  toRunning := h.toRunning
  split := by simp [h.state]
  null := h.null
  outside := by simp [Outside, h.state]
  name := by
    rw [h.state]
    exact h.name
  arg := by
    rw [h.state]
    exact h.arg

lemma AtEnd.parseRound_eq (h : AtEnd parseArg p d) : parseRound libc parseArg d =
    acceptFns libc parseArg { d with rest := d.rest.tail } >>= fun d' => .ok (follow d' .acceptRule) :=
  parseRound_of_edge (.finish h.state h.current)

/-- From the end of a text the machine goes to the next one. -/
lemma AtEnd.next {texts : List (List Char)} (h : AtEnd parseArg p d) (hp : d.pending = text :: texts) :
    ∃ d', Round (parseRound libc parseArg) (fun d => d.returned.isSome) d d' ∧ AtStart parseArg p d' ∧
      d'.rest = text ∧ d'.pending = texts ∧ d'.applied = d.applied := by
  have hround := @AtEnd.parseRound_eq libc _ _ _ h
  rw [acceptFns, acceptFn_of_nil (by exact h.name) (by exact h.arg), ok_bind] at hround
  rcases h.parsing with hparse | hparse | hparse
  · simp only [ParseData.pending, hparse, List.cons.injEq] at hp
    simp only [hparse, ok_bind] at hround
    rw [follow_acceptRule (by exact h.finished)] at hround
    refine ⟨_,⟨by simp [h.returned],hround⟩,?_,hp.1,hp.2,rfl⟩
    exact ⟨⟨h.finished,h.errorCode,rfl,.inr (.inl rfl),h.resolvable⟩,rfl,null_notMem_cstr _,rfl,rfl⟩
  · simp only [ParseData.pending, hparse, List.cons.injEq] at hp
    simp only [hparse, ok_bind] at hround
    rw [follow_acceptRule (by exact h.finished)] at hround
    refine ⟨_,⟨by simp [h.returned],hround⟩,?_,hp.1,hp.2,rfl⟩
    exact ⟨⟨h.finished,h.errorCode,rfl,.inr (.inr rfl),h.resolvable⟩,rfl,null_notMem_cstr _,rfl,rfl⟩
  · simp [ParseData.pending, hparse] at hp

/-- From the end of the last text the machine goes to `apply_rule`. -/
lemma AtEnd.last (h : AtEnd parseArg p d) (hp : d.pending = []) :
    ∃ d', Round (parseRound libc parseArg) (fun d => d.returned.isSome) d d' ∧ d'.returned = some true ∧
      d'.applied.isSome = true ∧ d'.errorCode = noParseError := by
  have hround := @AtEnd.parseRound_eq libc _ _ _ h
  rw [acceptFns, acceptFn_of_nil (by exact h.name) (by exact h.arg), ok_bind] at hround
  rcases h.parsing with hparse | hparse | hparse
  · simp [ParseData.pending, hparse] at hp
  · simp [ParseData.pending, hparse] at hp
  · simp only [hparse, ok_bind] at hround
    refine ⟨_,⟨by simp [h.returned],hround⟩,?_⟩
    rw [follow, if_pos (show transitions .acceptRule = [] from rfl)]
    exact ⟨by simp [h.errorCode],rfl,h.errorCode⟩

/-- The machine comes to an end from the start of any text, and to `apply_rule` if the texts are in the
grammar. -/
theorem run_texts (h : AtStart parseArg p d) (happlied : d.applied = none)
    (hshort : ∀ t ∈ d.rest :: d.pending, Short (cut false t))
    (hnames : ∀ t ∈ d.rest :: d.pending, Names p (cut false t)) :
    ∃ d', ParseRounds libc parseArg d d' ∧ d'.returned.isSome = true ∧
      (d'.applied.isSome = true ∧ d'.errorCode ≠ fsmError ↔
        ∀ t ∈ d.rest :: d.pending, cut false t ∈ Grammar.items) := by
  -- induction on the texts that are to come
  induction hp : d.pending generalizing d with
  | nil =>
    have hscan := @scan libc _ _ _ _ (hshort _ List.mem_cons_self) (hnames _ List.mem_cons_self) _ h.scanning
    rw [h.state] at hscan
    simp only [List.mem_singleton, forall_eq]
    by_cases hin : cut false d.rest ∈ Grammar.items
    · obtain ⟨d₁,hd₁,hend,hfix⟩ := hscan.1 hin
      obtain ⟨d',hround,hret,happ,herr⟩ := hend.last (hfix.pending.trans hp)
      refine ⟨d',hd₁.tail hround,by simp [hret],fun _ => hin,fun _ => ⟨happ,?_⟩⟩
      rw [herr]
      decide
    · obtain ⟨d',hd',href⟩ := hscan.2 hin
      refine ⟨d',hd',by simp [href.returned],fun hacc => ?_,fun h => absurd h hin⟩
      exact absurd href.errorCode hacc.2
  | cons text texts ih =>
    have hscan := @scan libc _ _ _ _ (hshort _ List.mem_cons_self) (hnames _ List.mem_cons_self) _ h.scanning
    rw [h.state] at hscan
    by_cases hin : cut false d.rest ∈ Grammar.items
    · obtain ⟨d₁,hd₁,hend,hfix⟩ := hscan.1 hin
      obtain ⟨d₂,hround,hstart,hrest,hpend,happ⟩ := hend.next (hfix.pending.trans hp)
      have hsub : ∀ t ∈ d₂.rest :: d₂.pending, t ∈ d.rest :: d.pending := by
        rw [hrest, hpend, hp]
        exact fun t ht => List.mem_cons_of_mem _ ht
      obtain ⟨d',hd',hret,hiff⟩ := ih hstart (happ.trans (hfix.applied.trans happlied))
        (fun t ht => hshort t (hsub t ht)) (fun t ht => hnames t (hsub t ht)) hpend
      refine ⟨d',(hd₁.tail hround).trans hd',hret,?_⟩
      rw [hiff, hrest, List.forall_mem_cons (a := d.rest)]
      exact ⟨fun hall => ⟨hin,hall⟩,fun hall => hall.2⟩
    · obtain ⟨d',hd',href⟩ := hscan.2 hin
      refine ⟨d',hd',by simp [href.returned],fun hacc => ?_,fun h => absurd (h _ List.mem_cons_self) hin⟩
      exact absurd href.errorCode hacc.2

end Scan

/-- Parsing a rule always comes to an end, and to `apply_rule` without an error of the state machine
exactly when the three texts, each up to its end, are in the grammar. -/
theorem parse_accepts_iff (libc : Libc) (parseArg : String → Option Arg) (varMap : VarMap) (vars : VarStore)
    (conditions actions undos : Option String)
    (hshort : ∀ t ∈ [conditions, actions, undos], Short (cut false (cstr t)))
    (hnames : ∀ t ∈ [conditions, actions, undos],
      Names (Resolvable parseArg varMap vars) (cut false (cstr t))) :
    ∃ d, parseTexts libc parseArg varMap vars conditions actions undos = .ok d ∧
      (d.applied.isSome = true ∧ d.errorCode ≠ fsmError ↔
        ∀ t ∈ [conditions, actions, undos], cut false (cstr t) ∈ Grammar.items) := by
  have hstart : AtStart parseArg (Resolvable parseArg varMap vars) (loadParseString
      { parsing := .condition, varMap, vars, actionsStr := actions, undoActionsStr := undos } conditions) :=
    ⟨⟨rfl,rfl,rfl,.inl rfl,fun _ h => h⟩,rfl,null_notMem_cstr _,rfl,rfl⟩
  have hall : ∀ {P : List Char → Prop}, (∀ t ∈ [conditions, actions, undos], P (cstr t)) ↔
      ∀ t ∈ [cstr conditions, cstr actions, cstr undos], P t := by simp
  obtain ⟨d,hrounds,hret,hiff⟩ := @run_texts libc _ _ _ hstart rfl (hall.mp hshort) (hall.mp hnames)
  exact ⟨d,parse_of_rounds hrounds hret,hiff.trans hall.symm⟩

/-- Short texts have short names and arguments. -/
lemma short_of_length {text : List Char} (h : text.length < accumSz) : Short text where
  name u v w ht _ _ := by
    rw [ht] at h
    simp only [List.length_append] at h
    omega
  number u v w ht _ _ := by
    rw [ht] at h
    simp only [List.length_append] at h
    omega
  quoted u v w ht _ _ := by
    rw [ht] at h
    simp only [List.length_append, List.length_cons] at h
    omega

/-- A text without a dollar sign names no variable. -/
lemma names_of_notMem {p : String → Prop} {text : List Char} (h : '$' ∉ text) : Names p text := by
  intro u v w ht
  exact absurd (by simp [ht]) h

/-- A run that is not continued is the longest one. -/
lemma takeWhile_run {v w : List Char} (hall : ∀ c ∈ v, isAlphanumeric_ c = true)
    (hw : ∀ c ∈ w.head?, isAlphanumeric_ c = false) : (v ++ w).takeWhile isAlphanumeric_ = v := by
  rw [List.takeWhile_append_of_pos hall]
  cases w with
  | nil => simp
  | cons c w => simp [hw c rfl]

/-- A text with one dollar sign names the variable behind it. -/
lemma names_of_dollar {p : String → Prop} {u v w : List Char} (hu : '$' ∉ u) (hvw : '$' ∉ v ++ w)
    (hall : ∀ c ∈ v, isAlphanumeric_ c = true) (hw : ∀ c ∈ w.head?, isAlphanumeric_ c = false)
    (hp : p (String.ofList v)) : Names p (u ++ '$' :: (v ++ w)) := by
  intro u' v' w' ht _ _ hall' hw'
  rw [List.append_assoc, List.cons_append] at ht
  obtain ⟨-,-,hvw'⟩ := (List.append_cons_inj_of_notMem hu hvw).mp ht
  rwa [← takeWhile_run hall' hw', ← hvw', takeWhile_run hall hw]

/-- One variable in the cache. -/
def thresholdVars : VarStore := ⟨[⟨"low", .int 10, 0⟩], fun _ => none⟩

theorem parse_accepts_iff_threshold : ∃ d, parseTexts zeroLibc (parseArgOf zeroLibc) [] thresholdVars
      (some "less($low)") (some " log(\"a\nb\") \nrest") none = .ok d ∧ d.applied.isSome = true ∧
    ∀ t ∈ [some "less($low)", some " log(\"a\nb\") \nrest", none],
      cut false (cstr t) ∈ Grammar.items := by
  have hshort : ∀ t ∈ [some "less($low)", some " log(\"a\nb\") \nrest", none], Short (cut false (cstr t)) := by
    simp only [List.forall_mem_cons, List.not_mem_nil, false_imp_iff, implies_true, and_true]
    exact ⟨short_of_length (by decide),short_of_length (by decide),short_of_length (by decide)⟩
  have hlow : Names (Resolvable (parseArgOf zeroLibc) [] thresholdVars)
      ("less(".toList ++ '$' :: ("low".toList ++ [')'])) :=
    names_of_dollar (by decide) (by decide) (List.all_eq_true.mp rfl) (by simp [isAlphanumeric_])
      (.inr (by decide))
  have hnames : ∀ t ∈ [some "less($low)", some " log(\"a\nb\") \nrest", none],
      Names (Resolvable (parseArgOf zeroLibc) [] thresholdVars) (cut false (cstr t)) := by
    simp only [List.forall_mem_cons, List.not_mem_nil, false_imp_iff, implies_true, and_true]
    exact ⟨hlow,names_of_notMem (by decide),names_of_notMem (by decide)⟩
  obtain ⟨d,hd,hiff⟩ := parse_accepts_iff zeroLibc (parseArgOf zeroLibc) [] thresholdVars _ _ _ hshort hnames
  have hacc : (parseTexts zeroLibc (parseArgOf zeroLibc) [] thresholdVars (some "less($low)")
      (some " log(\"a\nb\") \nrest") none).toOption.all
        (fun d => d.applied.isSome && d.errorCode ≠ fsmError) = true := by decide
  rw [hd] at hacc
  simp only [Except.toOption, Option.all_some, Bool.and_eq_true, decide_eq_true_eq] at hacc
  exact ⟨d,hd,hacc.1,hiff.mp hacc⟩

end Xctools.Xcpmd
