import Xctools.Machine.Decimal
import Xctools.Xcpmd.Formed

/-! What is printed can be read. The text of an argument takes the machine from the start of an argument
to a state where it can end, with an accumulator that stands for the value; from there items and lists
of items are read one after another. -/
namespace Xctools.Xcpmd
open Machine

section Rounds
variable {libc : Libc} {parseArg : String → Option Arg} {d d₁ : ParseData} {c : Char}
  {a : Option ParseAction} {q q' : ParseState} {text tail : List Char}

/-- The machine has neither finished nor returned. -/
structure Live (d : ParseData) : Prop where
  finished : d.finished = false
  returned : d.returned = none

/-- One round along an edge. -/
lemma round_of_edge (he : Edge q c a q') (ha : a ≠ some .acceptFns) (hd : Live d) (hstate : d.state = q)
    (hrest : d.rest = c :: tail) (hp : perform libc parseArg a { d with rest := tail } c = .ok d₁)
    (hd₁ : Live d₁) : ParseRounds libc parseArg d { d₁ with state := q' } := by
  subst hstate
  have hcur : d.current = c := by rw [ParseData.current, hrest, List.headD_cons]
  refine .single ⟨by simp [hd.returned],?_⟩
  rw [parseRound_of_edge (hcur.symm ▸ he), hcur, hrest, List.tail_cons, hp, ok_bind,
    follow_of_ne hd₁.finished (he.destination_ne ha), ← hd₁.returned]

/-- A run of characters that stay in one state goes into the accumulator. -/
lemma rounds_accumArg (hd : Live d) (hq : ∀ c ∈ text, Edge d.state c (some .accumArg) d.state)
    (hlen : d.accumArg.length + text.length < accumSz) (hrest : d.rest = text ++ tail) :
    ParseRounds libc parseArg d { d with accumArg := d.accumArg ++ text, rest := tail } := by
  induction text generalizing d with
  | nil =>
    rw [List.append_nil, ← show d.rest = tail from hrest]
  | cons c text ih =>
    rw [List.length_cons] at hlen
    have hstep : ParseRounds libc parseArg d
        { d with accumArg := d.accumArg ++ [c], rest := text ++ tail } :=
      round_of_edge (hq c List.mem_cons_self) (by simp) hd rfl hrest
        (accumArg_eq_ok.mpr ⟨by dsimp only; omega,rfl⟩) ⟨hd.finished,hd.returned⟩
    refine hstep.trans ?_
    have hrun := @ih { d with accumArg := d.accumArg ++ [c], rest := text ++ tail }
      ⟨hd.finished,hd.returned⟩ (fun c hc => hq c (List.mem_cons_of_mem _ hc))
      (by simp only [List.length_append, List.length_singleton]; omega) rfl
    simpa only [List.append_assoc, List.singleton_append] using hrun

/-- The same for a name. -/
lemma rounds_accumName (hd : Live d) (hstate : d.state = .accumName)
    (hall : ∀ c ∈ text, isAlphanumeric_ c = true) (hlen : d.accumName.length + text.length < accumSz)
    (hrest : d.rest = text ++ tail) :
    ParseRounds libc parseArg d { d with accumName := d.accumName ++ text, rest := tail } := by
  induction text generalizing d with
  | nil =>
    rw [List.append_nil, ← show d.rest = tail from hrest]
  | cons c text ih =>
    rw [List.length_cons] at hlen
    have hstep : ParseRounds libc parseArg d
        { d with state := .accumName, accumName := d.accumName ++ [c], rest := text ++ tail } :=
      round_of_edge (.name (.inr (.inr rfl)) (hall c List.mem_cons_self)) (by simp) hd hstate hrest
        (accumName_eq_ok.mpr ⟨by dsimp only; omega,rfl⟩) ⟨hd.finished,hd.returned⟩
    refine hstep.trans ?_
    have hrun := @ih { d with state := .accumName, accumName := d.accumName ++ [c], rest := text ++ tail }
      ⟨hd.finished,hd.returned⟩ rfl (fun c hc => hall c (List.mem_cons_of_mem _ hc))
      (by simp only [List.length_append, List.length_singleton]; omega) rfl
    simpa only [List.append_assoc, List.singleton_append, ← hstate] using hrun

/-- A text that is read as an argument of a type, with what comes into the accumulator. -/
structure Reading (libc : Libc) (parseArg : String → Option Arg) (text : List Char) (type : FnArgType)
    (acc : List Char) : Prop where
  start : text ≠ []
  null : '\x00' ∉ text
  length : acc.length < accumSz
  nonempty : acc ≠ []
  type_ne : type ≠ .undetermined
  bool : type = .bool → acc.head? = some 't' ∨ acc.head? = some 'f'
  rounds : ∃ q, EndsArg q ∧ ∀ d tail, Live d → d.state = .beginAccumArg → d.accumArg = [] →
    d.rest = text ++ tail →
      ParseRounds libc parseArg d { d with state := q, argType := type, accumArg := acc, rest := tail }

lemma null_notMem_of_class {p : Char → Bool} (hall : ∀ c ∈ text, p c = true) (hp : p '\x00' = false) :
    '\x00' ∉ text := by
  intro h
  rw [hall _ h] at hp
  cases hp

lemma reading_var (hne : text ≠ []) (hlen : text.length < accumSz)
    (hall : ∀ c ∈ text, isAlphanumeric_ c = true) : Reading libc parseArg ('$' :: text) .var text := by
  refine ⟨by simp,by simpa using null_notMem_of_class hall rfl,hlen,hne,by simp,by simp,.accumVar,.inl rfl,?_⟩
  intro d tail hd hstate hnil hrest
  have hstep : ParseRounds libc parseArg d
      { d with state := .accumVar, argType := .var, rest := text ++ tail } :=
    round_of_edge .dollar (by simp) hd hstate hrest rfl ⟨hd.finished,hd.returned⟩
  refine hstep.trans ?_
  have hrun := @rounds_accumArg libc parseArg { d with state := .accumVar, argType := .var, rest := text ++ tail }
    text tail ⟨hd.finished,hd.returned⟩ (fun c hc => .word (hall c hc)) (by simpa [hnil] using hlen) rfl
  simpa only [hnil, List.nil_append] using hrun

lemma reading_int {digits : List Char} (hlen : (c :: digits).length < accumSz) (hc : isDigitOrMinus c = true)
    (hall : ∀ c ∈ digits, isDigit c = true) : Reading libc parseArg (c :: digits) .int (c :: digits) := by
  have hnull : '\x00' ∉ c :: digits := by
    rw [List.mem_cons, not_or]
    exact ⟨(ne_of_class hc rfl).symm,null_notMem_of_class hall rfl⟩
  refine ⟨by simp,hnull,hlen,by simp,by simp,by simp,.accumInt,.inr (.inl rfl),?_⟩
  intro d tail hd hstate hnil hrest
  have hstep : ParseRounds libc parseArg d
      { d with state := .accumInt, argType := .int, accumArg := d.accumArg ++ [c], rest := digits ++ tail } :=
    round_of_edge (.number hc) (by simp) hd hstate hrest
      (accumArg_eq_ok.mpr ⟨by simp [hnil, accumSz],rfl⟩) ⟨hd.finished,hd.returned⟩
  refine hstep.trans ?_
  have hrun := @rounds_accumArg libc parseArg
    { d with state := .accumInt, argType := .int, accumArg := d.accumArg ++ [c], rest := digits ++ tail }
    digits tail ⟨hd.finished,hd.returned⟩ (fun c hc => .digit (hall c hc))
    (by simpa [hnil, Nat.add_comm] using hlen) rfl
  simpa only [hnil, List.nil_append, List.singleton_append] using hrun

lemma reading_str (hne : text ≠ []) (hlen : text.length < accumSz)
    (hall : ∀ c ∈ text, isNotDblQuoteOrNull c = true) :
    Reading libc parseArg ('"' :: text ++ ['"']) .str text := by
  refine ⟨by simp,by simpa using null_notMem_of_class hall rfl,hlen,hne,by simp,by simp,.endAccumStr,
    by simp [EndsArg],?_⟩
  intro d tail hd hstate hnil hrest
  have hopen : ParseRounds libc parseArg d
      { d with state := .accumStr, argType := .str, rest := text ++ '"' :: tail } :=
    round_of_edge .quote (by simp) hd hstate (by simpa using hrest) rfl ⟨hd.finished,hd.returned⟩
  have hrun := @rounds_accumArg libc parseArg
    { d with state := .accumStr, argType := .str, rest := text ++ '"' :: tail } text ('"' :: tail)
    ⟨hd.finished,hd.returned⟩ (fun c hc => .char (hall c hc)) (by simpa [hnil] using hlen) rfl
  rw [show d.accumArg ++ text = text by rw [hnil, List.nil_append]] at hrun
  have hlive : Live { d with state := .accumStr, argType := .str, accumArg := text, rest := '"' :: tail } :=
    ⟨hd.finished,hd.returned⟩
  have hclose : ParseRounds libc parseArg
      { d with state := .accumStr, argType := .str, accumArg := text, rest := '"' :: tail }
      { d with state := .endAccumStr, argType := .str, accumArg := text, rest := tail } :=
    round_of_edge (.unquote rfl) (by simp) hlive rfl rfl rfl ⟨hd.finished,hd.returned⟩
  exact hopen.trans (hrun.trans hclose)

lemma reading_bool (b : Bool) : Reading libc parseArg [if b then 't' else 'f'] .bool
    [if b then 't' else 'f'] := by
  refine ⟨by simp,by cases b <;> simp,by simp [accumSz],by simp,by simp,fun _ => by cases b <;> simp,
    .accumBool,by simp [EndsArg],?_⟩
  intro d tail hd hstate hnil hrest
  have hstep : ParseRounds libc parseArg d { d with
      state := .accumBool, argType := .bool, accumArg := d.accumArg ++ [if b then 't' else 'f'],
      rest := tail } := by
    cases b with
    | true =>
      exact round_of_edge (.yes rfl) (by simp) hd hstate hrest
        (accumArg_eq_ok.mpr ⟨by simp [hnil, accumSz],rfl⟩) ⟨hd.finished,hd.returned⟩
    | false =>
      exact round_of_edge (.no rfl) (by simp) hd hstate hrest
        (accumArg_eq_ok.mpr ⟨by simp [hnil, accumSz],rfl⟩) ⟨hd.finished,hd.returned⟩
  simpa only [hnil, List.nil_append] using hstep

end Rounds

/-- The variables after an argument was read. -/
def readVar (parseArg : String → Option Arg) (vars : VarStore) : FnArg → VarStore
  | .var name => (lookupVar parseArg vars name).2
  | _ => vars

/-- An argument that does not name a variable, or names one that can be found. -/
def FnArg.Resolved (parseArg : String → Option Arg) (varMap : VarMap) (vars : VarStore) : FnArg → Prop
  | .var name => Resolvable parseArg varMap vars name
  | _ => True

/-- A text that is read as an argument. -/
def Spoken (libc : Libc) (parseArg : String → Option Arg) (text : List Char) (arg : FnArg) : Prop :=
  ∃ type acc, Reading libc parseArg text type acc ∧ readArg libc type acc = arg

section Items
variable {libc : Libc} {parseArg : String → Option Arg} {d : ParseData} {c : Char} {arg : FnArg}
  {text tail : List Char}

lemma FnArg.Resolved.readVar {varMap : VarMap} {vars : VarStore} (h : arg.Resolved parseArg varMap vars)
    (arg' : FnArg) : arg.Resolved parseArg varMap (readVar parseArg vars arg') := by
  cases arg with
  | var name =>
    refine Or.imp id (fun hfound => ?_) h
    cases arg' with
    | var name' => exact isSome_lookupVar_lookupVar hfound
    | int => exact hfound
    | float => exact hfound
    | str => exact hfound
    | bool => exact hfound
    | undetermined => exact hfound
  | int => trivial
  | float => trivial
  | str => trivial
  | bool => trivial
  | undetermined => trivial

/-- An argument at its end is taken as what it stands for. -/
lemma Reading.acceptArg {type : FnArgType} {acc : List Char} (h : Reading libc parseArg text type acc)
    (ht : d.argType = type) (hacc : d.accumArg = acc)
    (hres : (readArg libc type acc).Resolved parseArg d.varMap d.vars) : acceptArg libc parseArg d =
      .ok { d with
        vars := readVar parseArg d.vars (readArg libc type acc),
        args := d.args ++ [readArg libc type acc], accumArg := [] } := by
  subst ht hacc
  have hread : d.Readable parseArg := by
    refine ⟨h.length,h.nonempty,h.type_ne,h.bool,fun hvar => ?_⟩
    rw [hvar] at hres
    exact hres
  have hvars : d.varsRead parseArg = Xcpmd.readVar parseArg d.vars (readArg libc d.argType d.accumArg) := by
    unfold ParseData.varsRead
    cases d.argType <;> rfl
  rw [acceptArg_of_readable hread, hvars]
  rfl

/-- The machine in the middle of the arguments of an item. -/
structure InArgs (d : ParseData) : Prop extends Live d where
  state : d.state = .beginAccumArg
  arg : d.accumArg = []
  name : d.accumName ≠ []
  length : d.accumName.length < accumSz

/-- The end of an item. -/
lemma acceptFn_of_acceptArg {d₁ : ParseData} (hd : acceptArg libc parseArg d = .ok d₁)
    (hne : d₁.accumName ≠ []) (hlen : d₁.accumName.length < accumSz) :
    acceptFn libc parseArg d = .ok (storeFn libc parseArg d₁) := by
  rw [acceptFn, hd, ok_bind, if_neg (Nat.not_le_of_lt hlen), if_neg hne]

/-- The machine with arguments read up to the end of an item. -/
def ParseData.withArgs (parseArg : String → Option Arg) (d : ParseData) (args : List FnArg)
    (tail : List Char) (state : ParseState) (argType : FnArgType) : ParseData :=
  { d with
    state, argType, args := d.args ++ args, vars := args.foldl (readVar parseArg) d.vars, accumArg := [],
    rest := tail }

/-- The rest of an item from the start of an argument. -/
lemma rounds_args {texts : List (List Char)} {args : List FnArg}
    (hspoken : List.Forall₂ (Spoken libc parseArg) texts args) (hd : InArgs d)
    (hres : ∀ arg ∈ args, arg.Resolved parseArg d.varMap d.vars)
    (hrest : d.rest = [' '].intercalate texts ++ ')' :: tail)
    (hlive : ∀ q argType, Live (storeFn libc parseArg (d.withArgs parseArg args tail q argType))) :
    ∃ q argType, ParseRounds libc parseArg d
      { storeFn libc parseArg (d.withArgs parseArg args tail q argType) with state := .acceptFn } := by
  induction hspoken generalizing d with
  | nil =>
    have hargs : d.withArgs parseArg [] tail d.state d.argType = { d with rest := tail } := by
      simp only [ParseData.withArgs, List.append_nil, List.foldl_nil, ← hd.arg]
    have hnil : acceptArg libc parseArg { d with rest := tail } = .ok { d with rest := tail } := by
      rw [acceptArg, if_neg (by simp [hd.arg, accumSz]), if_pos hd.arg]
    have hlive := hlive d.state d.argType
    refine ⟨d.state,d.argType,?_⟩
    rw [hargs] at hlive ⊢
    exact round_of_edge (.close (.inl rfl)) (by simp) hd.toLive hd.state hrest
      (acceptFn_of_acceptArg hnil hd.name hd.length) hlive
  | @cons text arg texts args hhead htail ih =>
    obtain ⟨type,acc,hread,rfl⟩ := hhead
    obtain ⟨q,hq,hrounds⟩ := hread.rounds
    have hres₁ := hres _ List.mem_cons_self
    cases htail with
    | nil =>
      have hread₁ := hrounds d (')' :: tail) hd.toLive hd.state hd.arg (by simpa using hrest)
      have hlive₁ : Live { d with state := q, argType := type, accumArg := acc, rest := ')' :: tail } :=
        ⟨hd.finished,hd.returned⟩
      have hacc : acceptArg libc parseArg
          { d with state := q, argType := type, accumArg := acc, rest := tail } =
            .ok (d.withArgs parseArg [readArg libc type acc] tail q type) := hread.acceptArg rfl rfl hres₁
      refine ⟨q,type,hread₁.trans ?_⟩
      exact round_of_edge (.close (.inr (.inr hq))) (by simp) hlive₁ rfl rfl
        (acceptFn_of_acceptArg hacc hd.name hd.length) (hlive q type)
    | @cons text' arg' texts args hhead' htail' =>
      have hread₁ := hrounds d (' ' :: ([' '].intercalate (text' :: texts) ++ ')' :: tail)) hd.toLive hd.state
        hd.arg (by simpa using hrest)
      have hlive₁ : Live { d with
          state := q, argType := type, accumArg := acc,
          rest := ' ' :: ([' '].intercalate (text' :: texts) ++ ')' :: tail) } :=
        ⟨hd.finished,hd.returned⟩
      have hacc : acceptArg libc parseArg { d with
          state := q, argType := type, accumArg := acc,
          rest := [' '].intercalate (text' :: texts) ++ ')' :: tail } =
            .ok (d.withArgs parseArg [readArg libc type acc]
              ([' '].intercalate (text' :: texts) ++ ')' :: tail) q type) := hread.acceptArg rfl rfl hres₁
      have hnext := round_of_edge (.nextArg hq) (by simp) hlive₁ rfl rfl hacc ⟨hd.finished,hd.returned⟩
      obtain ⟨q',argType,hrest'⟩ := @ih (d.withArgs parseArg [readArg libc type acc]
          ([' '].intercalate (text' :: texts) ++ ')' :: tail) .beginAccumArg type)
        ⟨⟨hd.finished,hd.returned⟩,rfl,rfl,hd.name,hd.length⟩
        (fun arg harg => (hres arg (List.mem_cons_of_mem _ harg)).readVar _) rfl
        (fun q' argType => by simpa [ParseData.withArgs] using hlive q' argType)
      refine ⟨q',argType,hread₁.trans (hnext.trans ?_)⟩
      simpa [ParseData.withArgs] using hrest'

/-- The name of an item and the parenthesis behind it. -/
lemma rounds_name {name : List Char} (hd : Live d) (hstate : d.state = .start ∨ d.state = .invertFn)
    (hnil : d.accumName = []) (hne : name ≠ []) (hlen : name.length < accumSz)
    (hall : ∀ c ∈ name, isAlphanumeric_ c = true) (hrest : d.rest = name ++ '(' :: tail) :
    ParseRounds libc parseArg d { d with state := .beginAccumArg, accumName := name, rest := tail } := by
  obtain ⟨c,name,rfl⟩ : ∃ c name', name = c :: name' := List.exists_cons_of_ne_nil hne
  have hfirst : ParseRounds libc parseArg d
      { d with state := .accumName, accumName := [c], rest := name ++ '(' :: tail } := by
    have hname : accumName { d with rest := name ++ '(' :: tail } c =
        .ok { d with accumName := [c], rest := name ++ '(' :: tail } := by
      simp [accumName, hnil, accumSz]
    exact round_of_edge (.name (hstate.imp id .inl) (hall c List.mem_cons_self)) (by simp) hd rfl hrest
      hname ⟨hd.finished,hd.returned⟩
  have hrun := @rounds_accumName libc parseArg
    { d with state := .accumName, accumName := [c], rest := name ++ '(' :: tail } name ('(' :: tail)
    ⟨hd.finished,hd.returned⟩ rfl (fun c hc => hall c (List.mem_cons_of_mem _ hc))
    (by simpa [Nat.add_comm] using hlen) rfl
  have hlive : Live { d with state := .accumName, accumName := c :: name, rest := '(' :: tail } :=
    ⟨hd.finished,hd.returned⟩
  have hopen : ParseRounds libc parseArg
      { d with state := .accumName, accumName := c :: name, rest := '(' :: tail }
      { d with state := .beginAccumArg, accumName := c :: name, rest := tail } :=
    round_of_edge .openParen (by simp) hlive rfl rfl rfl ⟨hd.finished,hd.returned⟩
  exact hfirst.trans (hrun.trans hopen)

/-- The machine between two items. -/
structure Between (d : ParseData) : Prop extends Live d where
  state : d.state = .start
  name : d.accumName = []
  arg : d.accumArg = []
  args : d.args = []
  undo : d.undo = true

/-- An item, with or without an exclamation mark. -/
lemma rounds_item (inverted : Bool) {name : List Char} {texts : List (List Char)} {args : List FnArg}
    (hne : name ≠ []) (hlen : name.length < accumSz) (hall : ∀ c ∈ name, isAlphanumeric_ c = true)
    (hspoken : List.Forall₂ (Spoken libc parseArg) texts args) (hd : Between d)
    (hres : ∀ arg ∈ args, arg.Resolved parseArg d.varMap d.vars)
    (hrest : d.rest = (if inverted then ['!'] else []) ++
      (name ++ '(' :: ([' '].intercalate texts ++ ')' :: tail)))
    (hlive : ∀ q argType, Live (storeFn libc parseArg
      ({ d with undo := !inverted, accumName := name }.withArgs parseArg args tail q argType))) :
    ∃ q argType, ParseRounds libc parseArg d { storeFn libc parseArg
      ({ d with undo := !inverted, accumName := name }.withArgs parseArg args tail q argType) with
        state := .acceptFn } := by
  have hname : ParseRounds libc parseArg d { d with
      state := .beginAccumArg, undo := !inverted, accumName := name,
      rest := [' '].intercalate texts ++ ')' :: tail } := by
    cases inverted with
    | false =>
      have hrun := @rounds_name libc parseArg d _ name hd.toLive (.inl hd.state) hd.name hne hlen hall hrest
      rw [show (!false) = d.undo from hd.undo.symm]
      exact hrun
    | true =>
      have hmark : ParseRounds libc parseArg d { d with
          state := .invertFn, undo := false,
          rest := name ++ '(' :: ([' '].intercalate texts ++ ')' :: tail) } :=
        round_of_edge .invert (by simp) hd.toLive hd.state hrest rfl ⟨hd.finished,hd.returned⟩
      have hrun := @rounds_name libc parseArg { d with
          state := .invertFn, undo := false,
          rest := name ++ '(' :: ([' '].intercalate texts ++ ')' :: tail) } _ name
        ⟨hd.finished,hd.returned⟩ (.inr rfl) hd.name hne hlen hall rfl
      exact hmark.trans hrun
  obtain ⟨q,argType,hargs⟩ := @rounds_args libc parseArg { d with
      state := .beginAccumArg, undo := !inverted, accumName := name,
      rest := [' '].intercalate texts ++ ')' :: tail } tail texts args hspoken
    ⟨⟨hd.finished,hd.returned⟩,rfl,hd.arg,hne,hlen⟩ hres rfl hlive
  exact ⟨q,argType,hname.trans hargs⟩

end Items

section Values
variable {libc : Libc} {parseArg : String → Option Arg}

/-- The values that are printed so that they can be read back. -/
def Arg.Printable : Arg → Prop
  | .int i => -2147483648 ≤ i ∧ i ≤ 2147483647
  | .bool _ => True
  | .str s => IsText s
  | .var name => IsName name
  | .float _ | .none => False

/-- The argument the parser makes of a printed value. -/
def Arg.toFnArg : Arg → FnArg
  | .int i => .int i
  | .bool b => .bool b
  | .float bits => .float bits
  | .str s => .str s
  | .var name => .var name
  | .none => .undetermined

lemma convFnArg_toFnArg {arg : Arg} (h : arg.Printable) : convFnArg arg.toFnArg = arg := by
  cases arg with
  | int i => exact congrArg Arg.int (Int32.toInt_ofInt_of_le h.1 (Int.lt_of_le_of_lt h.2 (by decide)))
  | bool b => rfl
  | str s => rfl
  | var name => rfl
  | float bits => exact h.elim
  | none => exact h.elim

lemma isDigit_of_mem_toDigits {n : ℕ} {c : Char} (hc : c ∈ Nat.toDigits 10 n) : isDigit c = true := by
  have h := Nat.isDigit_of_mem_toDigits (by decide) (by decide) hc
  simpa [isDigit, Char.isDigit, Char.le_def] using h

lemma scanLong_toDigits {n : ℕ} (h : n ≤ 2147483648) : scanLong libc (Nat.toDigits 10 n) = n := by
  have hminus : '-' ∉ Nat.toDigits 10 n := fun hmem => by cases isDigit_of_mem_toDigits hmem
  have hvalue : scanLong libc (Nat.toDigits 10 n) =
      min (Nat.ofDigitChars 10 (Nat.toDigits 10 n) 0 : ℤ) 9223372036854775807 := by
    unfold scanLong
    split
    · rename_i heq
      exact absurd (heq ▸ List.mem_cons_self) hminus
    · rename_i heq
      exact absurd (heq ▸ List.mem_cons_self) hminus
    · rfl
  rw [hvalue, Nat.ofDigitChars_ten_toDigits]
  omega

lemma scanLong_neg_toDigits {n : ℕ} (h : n ≤ 2147483648) :
    scanLong libc ('-' :: Nat.toDigits 10 n) = -n := by
  have hvalue : scanLong libc ('-' :: Nat.toDigits 10 n) =
      max (-(Nat.ofDigitChars 10 (Nat.toDigits 10 n) 0 : ℤ)) (-9223372036854775808) := by
    obtain ⟨c,digits,hdigits⟩ := List.exists_cons_of_ne_nil (Nat.toDigits_ne_nil (n := n) (b := 10))
    rw [hdigits]
    rfl
  rw [hvalue, Nat.ofDigitChars_ten_toDigits]
  omega

lemma isDigitOrMinus_of_mem_toString {i : ℤ} {c : Char} (hc : c ∈ (toString i).toList) :
    isDigitOrMinus c = true := by
  cases i with
  | ofNat n =>
    rw [toList_toString_ofNat] at hc
    simp [isDigitOrMinus, isDigit_of_mem_toDigits hc]
  | negSucc n =>
    rw [toList_toString_negSucc] at hc
    rcases List.mem_cons.mp hc with rfl | hc
    · rfl
    · simp [isDigitOrMinus, isDigit_of_mem_toDigits hc]

lemma spoken_int {i : ℤ} (h : (Arg.int i).Printable) :
    Spoken libc parseArg (toString i).toList (.int i) := by
  cases i with
  | ofNat n =>
    have hn : n ≤ 2147483648 := by
      have hle : (n : ℤ) ≤ 2147483647 := h.2
      omega
    obtain ⟨c,digits,hdigits⟩ := List.exists_cons_of_ne_nil (Nat.toDigits_ne_nil (n := n) (b := 10))
    have hall : ∀ d ∈ c :: digits, isDigit d = true := fun d hd =>
      isDigit_of_mem_toDigits (n := n) (hdigits ▸ hd)
    have hlen := length_toDigits_lt hn
    have hscan := @scanLong_toDigits libc n hn
    rw [toList_toString_ofNat]
    rw [hdigits] at hlen hscan ⊢
    refine ⟨.int,c :: digits,reading_int ?_ ?_ ?_,congrArg FnArg.int hscan⟩
    · exact Nat.lt_of_le_of_lt hlen (by decide)
    · simp [isDigitOrMinus, hall c List.mem_cons_self]
    · exact fun d hd => hall d (List.mem_cons_of_mem _ hd)
  | negSucc n =>
    have hn : n + 1 ≤ 2147483648 := by
      have := h.1
      omega
    have hlen := length_toDigits_lt hn
    have hscan := @scanLong_neg_toDigits libc (n + 1) hn
    rw [toList_toString_negSucc]
    refine ⟨.int,_,reading_int ?_ rfl fun d hd => isDigit_of_mem_toDigits hd,?_⟩
    · exact Nat.lt_of_le_of_lt (Nat.succ_le_succ hlen) (by decide)
    · exact congrArg FnArg.int hscan

/-- What is printed can be read. -/
theorem spoken_argToString {arg : Arg} (h : arg.Printable) :
    Spoken libc parseArg (argToString libc arg).toList arg.toFnArg := by
  cases arg with
  | int i => exact spoken_int h
  | bool b =>
    have htext : (argToString libc (.bool b)).toList = [if b then 't' else 'f'] := by
      cases b <;> simp [argToString]
    rw [htext]
    refine ⟨.bool,_,reading_bool b,?_⟩
    cases b <;> rfl
  | str s =>
    have htext : (argToString libc (.str s)).toList = '"' :: s.toList ++ ['"'] := by simp [argToString]
    rw [htext]
    refine ⟨.str,s.toList,reading_str ?_ ?_ h.unquoted,?_⟩
    · simpa using h.nonempty
    · rw [String.length_toList]
      exact h.length
    · simp [readArg, Arg.toFnArg]
  | var name =>
    have htext : (argToString libc (.var name)).toList = '$' :: name.toList := by simp [argToString]
    rw [htext]
    refine ⟨.var,name.toList,reading_var ?_ ?_ h.word,?_⟩
    · simpa using h.nonempty
    · rw [String.length_toList]
      exact h.length
    · simp [readArg, Arg.toFnArg]
  | float bits => exact h.elim
  | none => exact h.elim

end Values

section Calls
variable {libc : Libc} {parseArg : String → Option Arg} {d : ParseData} {name text : String} {arg : FnArg}

lemma cstr_of_null (h : '\x00' ∉ text.toList) : cstr (some text) = text.toList := by
  apply List.takeWhile_eq_self_iff.mpr
  intro c hc
  simp only [ne_eq, decide_not, Bool.not_eq_true', decide_eq_false_iff_not]
  rintro rfl
  exact h hc

/-- The text of an item with one argument. -/
lemma cstr_call (hname : IsName name) (hnull : '\x00' ∉ text.toList) :
    cstr (some (name ++ "(" ++ text ++ ")")) = name.toList ++ '(' :: (text.toList ++ [')']) := by
  have htext : (name ++ "(" ++ text ++ ")").toList = name.toList ++ '(' :: (text.toList ++ [')']) := by simp
  rw [cstr_of_null, htext]
  rw [htext]
  simp [hnull, null_notMem_of_class hname.word rfl]

/-- The end of a text that is not part of a rule. -/
lemma rounds_end (hd : Live d) (hstate : d.state = .start ∨ d.state = .acceptFn) (hrest : d.rest = [])
    (hname : d.accumName = []) (harg : d.accumArg = []) (hp : d.parsing = .arg ∨ d.parsing = .varMap) :
    ParseRounds libc parseArg d { d with
      state := .start, parsing := .undetermined, finished := true,
      returned := some (d.errorCode = noParseError) } := by
  have hcur : d.current = '\x00' := by rw [ParseData.current, hrest, List.headD_nil]
  refine .single ⟨by simp [hd.returned],?_⟩
  rw [parseRound_of_edge (.finish hstate (.inl hcur)), perform, acceptFns,
    acceptFn_of_nil (by exact hname) (by exact harg), ok_bind, hrest]
  have hfollow : ∀ d : ParseData, d.finished = true → follow d .acceptRule =
      { d with state := .start, returned := some (d.errorCode = noParseError) } := by
    intro d hfin
    rw [follow, if_pos (show transitions .acceptRule = [] from rfl), hfin]
    rfl
  rcases hp with hp | hp
  · simp only [hp, ok_bind, List.tail_nil]
    rw [hfollow _ rfl]
  · simp only [hp, ok_bind, List.tail_nil]
    rw [hfollow _ rfl]

/-- What one setting does to the variables, as far as it is of use. -/
lemma addToVarMapAsArg_eq (name : String) (arg : FnArg) :
    (addToVarMapAsArg libc parseArg d name arg).finished = d.finished ∧
    (addToVarMapAsArg libc parseArg d name arg).returned = d.returned ∧
    ((getVarFromMap d.varMap name).isSome = true →
      (addToVarMapAsArg libc parseArg d name arg).vars = d.vars) ∧
    ((getVarFromMap d.varMap name).isSome = false →
      (addToVarMapAsArg libc parseArg d name arg).vars =
        (addVar libc parseArg d.vars name (convFnArg arg)).2.1 ∧
      ((addToVarMapAsArg libc parseArg d name arg).errorCode = noParseError ↔
        (addVar libc parseArg d.vars name (convFnArg arg)).1 = true) ∧
      (addToVarMapAsArg libc parseArg d name arg).varMap =
        if (addVar libc parseArg d.vars name (convFnArg arg)).1 then d.varMap ++ [(name, arg)]
        else d.varMap) := by
  unfold addToVarMapAsArg
  by_cases hmap : (getVarFromMap d.varMap name).isSome = true
  · simp [hmap]
  · rw [if_neg hmap]
    simp only [hmap]
    rcases hadd : addVar libc parseArg d.vars name (convFnArg arg) with ⟨_ | _,vars,text⟩
    · simp [noParseError]
    · simp

lemma parseArgOf_of_parse {fn : Fn} (h : parse libc (fun _ => none)
      { parsing := .arg, varMap := [], vars := ⟨[], fun _ => none⟩ } (some text) = .ok d)
    (hret : d.returned = some true) (hfn : d.parsedArg = some fn) (harg : fn.args.head? = some arg) :
    parseArgOf libc text = some (convFnArg arg) := by
  have htext : parseArgText libc text = .ok (some (convFnArg arg)) := by
    rw [parseArgText, h, ok_bind, if_pos hret, hfn, firstArg, harg]
    rfl
  unfold parseArgOf
  simp only [htext]

/-- `parse_arg` of an item with one literal. -/
theorem parseArgOf_call (hname : IsName name) (hspoken : Spoken libc (fun _ => none) text.toList arg)
    (hvar : ∀ n, arg ≠ .var n) : parseArgOf libc (name ++ "(" ++ text ++ ")") = some (convFnArg arg) := by
  have hnull : '\x00' ∉ text.toList := by
    obtain ⟨type,acc,hread,-⟩ := hspoken
    exact hread.null
  let d : ParseData := loadParseString { parsing := .arg, varMap := [], vars := ⟨[], fun _ => none⟩ }
    (some (name ++ "(" ++ text ++ ")"))
  have hd : Between d := ⟨⟨rfl,rfl⟩,rfl,rfl,rfl,rfl,rfl⟩
  have hrest : d.rest = name.toList ++ '(' :: ([' '].intercalate [text.toList] ++ [')']) := by
    rw [List.intercalate_singleton]
    exact cstr_call hname hnull
  have hres : ∀ a ∈ [arg], a.Resolved (fun _ => none) d.varMap d.vars := by
    simp only [List.mem_singleton, forall_eq]
    cases arg with
    | var n => exact absurd rfl (hvar n)
    | _ => trivial
  obtain ⟨q,argType,hitem⟩ := rounds_item false (by simpa using hname.nonempty)
    (by rw [String.length_toList]; exact hname.length) hname.word (.cons hspoken .nil) hd hres hrest
    fun _ _ => ⟨rfl,rfl⟩
  have hparse := parse_of_rounds
    (hitem.trans (rounds_end ⟨rfl,rfl⟩ (.inr rfl) rfl rfl rfl (.inl rfl))) rfl
  exact parseArgOf_of_parse hparse rfl rfl rfl

/-- `parse_var_persistent` of an item with one literal: what `add_var` makes of it. -/
theorem parseVarPersistent_call {varMap : VarMap} {vars : VarStore} (hname : IsName name)
    (hspoken : Spoken libc parseArg text.toList arg) (hvar : ∀ n, arg ≠ .var n)
    (hundet : arg ≠ .undetermined) (hmap : (getVarFromMap varMap name).isSome = false) :
    ∃ d, parseVarPersistent libc parseArg varMap vars (name ++ "(" ++ text ++ ")") = .ok d ∧
      d.vars = (addVar libc parseArg vars name (convFnArg arg)).2.1 ∧
      (d.returned = some true ↔ (addVar libc parseArg vars name (convFnArg arg)).1 = true) ∧
      d.varMap = if (addVar libc parseArg vars name (convFnArg arg)).1 then varMap ++ [(name, arg)]
        else varMap := by
  have hnull : '\x00' ∉ text.toList := by
    obtain ⟨type,acc,hread,-⟩ := hspoken
    exact hread.null
  let d : ParseData := loadParseString { parsing := .varMap, varMap, vars }
    (some (name ++ "(" ++ text ++ ")"))
  have hd : Between d := ⟨⟨rfl,rfl⟩,rfl,rfl,rfl,rfl,rfl⟩
  have hrest : d.rest = name.toList ++ '(' :: ([' '].intercalate [text.toList] ++ [')']) := by
    rw [List.intercalate_singleton]
    exact cstr_call hname hnull
  have hres : ∀ a ∈ [arg], a.Resolved parseArg d.varMap d.vars := by
    simp only [List.mem_singleton, forall_eq]
    cases arg with
    | var n => exact absurd rfl (hvar n)
    | _ => trivial
  have hvars : readVar parseArg vars arg = vars := by
    cases arg with
    | var n => exact absurd rfl (hvar n)
    | _ => rfl
  have hstore : ∀ q argType, storeFn libc parseArg
      ({ d with undo := !false, accumName := name.toList }.withArgs parseArg [arg] [] q argType) =
      (addToVarMapAsArg libc parseArg
        ({ d with undo := !false, accumName := name.toList }.withArgs parseArg [arg] [] q argType)
          name arg).fnDone := by
    intro q argType
    have hofList : String.ofList name.toList = name := String.ofList_toList
    cases arg with
    | var n => exact absurd rfl (hvar n)
    | undetermined => exact absurd rfl hundet
    | _ =>
      rw [storeFn]
      simp only [ParseData.withArgs, hofList]
      rfl
  obtain ⟨q,argType,hitem⟩ := rounds_item false (by simpa using hname.nonempty)
    (by rw [String.length_toList]; exact hname.length) hname.word (.cons hspoken .nil) hd hres hrest
    fun q argType => by
      rw [hstore]
      exact ⟨(addToVarMapAsArg_eq name arg).1,(addToVarMapAsArg_eq name arg).2.1⟩
  rw [hstore] at hitem
  have hframe := @addToVarMapAsArg_frame libc parseArg
    ({ d with undo := !false, accumName := name.toList }.withArgs parseArg [arg] [] q argType) name arg
  obtain ⟨hfin,hret,-,hset⟩ := @addToVarMapAsArg_eq libc parseArg
    ({ d with undo := !false, accumName := name.toList }.withArgs parseArg [arg] [] q argType) name arg
  obtain ⟨hvars',hcode,hmap'⟩ := hset hmap
  refine ⟨_,parse_of_rounds (hitem.trans (rounds_end ⟨hfin,hret⟩ (.inr rfl) hframe.rest rfl
    (addToVarMapAsArg_keeps name arg).1 (.inr hframe.parsing))) rfl,?_⟩
  have hvarsD : ({ d with undo := !false, accumName := name.toList }.withArgs parseArg [arg] [] q
      argType).vars = vars := hvars
  rw [hvarsD] at hvars' hcode hmap'
  exact ⟨hvars',by rw [← hcode]; simp [ParseData.fnDone],hmap'⟩

end Calls

end Xctools.Xcpmd
