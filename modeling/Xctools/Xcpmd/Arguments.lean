import Xctools.Machine.Decimal
import Xctools.Xcpmd.Written

/-! From what is written to what is handed over. Every item of an accepted text becomes a function, in order; an
argument that leaves nothing in the accumulator is dropped from it. -/
namespace Xctools.Xcpmd
open Machine

section Lists

/-- The lists items go to, with the last function of a text that is parsed for an argument. -/
structure Lists where
  conditions : List Fn := []
  actions : List Fn := []
  undoActions : List Fn := []
  parsedArg : Option Fn := none

def ParseData.filed (d : ParseData) : Lists := ⟨d.conditions, d.actions, d.undoActions, d.parsedArg⟩

/-- The lists with a function more. -/
def Lists.file (l : Lists) (fn : Fn) : ParsedType → Lists
  | .condition => { l with conditions := l.conditions ++ [fn] }
  | .action => { l with actions := l.actions ++ [fn] }
  | .undoAction => { l with undoActions := l.undoActions ++ [fn] }
  | .arg => { l with parsedArg := some fn }
  | _ => l

/-- The lists behind the items of a text. -/
def Lists.fill (libc : Libc) (l : Lists) (items : List WrittenItem) (mode : ParsedType) : Lists :=
  items.foldl (fun l w => l.file (w.fn libc mode) mode) l

lemma Lists.fill_append (libc : Libc) (l : Lists) (items : List WrittenItem) (w : WrittenItem) (mode : ParsedType) :
    l.fill libc (items ++ [w]) mode = (l.fill libc items mode).file (w.fn libc mode) mode := by
  rw [Lists.fill, List.foldl_append]
  rfl

section Modes
variable {libc : Libc} {l : Lists} {items : List WrittenItem}

lemma Lists.fill_condition : l.fill libc items .condition =
    { l with conditions := l.conditions ++ items.map fun w => w.fn libc .condition } := by
  induction items generalizing l with
  | nil => simp [Lists.fill]
  | cons w items ih => rw [Lists.fill, List.foldl_cons, ← Lists.fill, ih]; simp [Lists.file]

lemma Lists.fill_action : l.fill libc items .action =
    { l with actions := l.actions ++ items.map fun w => w.fn libc .action } := by
  induction items generalizing l with
  | nil => simp [Lists.fill]
  | cons w items ih => rw [Lists.fill, List.foldl_cons, ← Lists.fill, ih]; simp [Lists.file]

lemma Lists.fill_undoAction : l.fill libc items .undoAction =
    { l with undoActions := l.undoActions ++ items.map fun w => w.fn libc .undoAction } := by
  induction items generalizing l with
  | nil => simp [Lists.fill]
  | cons w items ih => rw [Lists.fill, List.foldl_cons, ← Lists.fill, ih]; simp [Lists.file]

end Modes

variable {libc : Libc} {parseArg : String → Option Arg} {D : Draft} {d d' : ParseData} {q q' : ParseState}
  {text : List Char} {c : Char} {a : Option ParseAction}

lemma acceptArg_lists (h : acceptArg libc parseArg d = .ok d') : d'.filed = d.filed := by
  rcases (acceptArg_cases h).2 with ⟨-,rfl⟩ | ⟨-,rfl⟩ | ⟨-,code,message,-,rfl⟩
  · rfl
  · rfl
  · rfl

lemma addToVarMapAsArg_lists (name : String) (arg : FnArg) :
    (addToVarMapAsArg libc parseArg d name arg).filed = d.filed := by
  unfold addToVarMapAsArg
  split
  · rfl
  · split
    · rfl
    · rfl

/-- An item goes to the list of what is parsed. -/
lemma storeFn_lists : (storeFn libc parseArg d).filed = d.filed.file
    ⟨String.ofList d.accumName, d.args, if d.parsing = .condition ∨ d.parsing = .action then d.undo else false⟩
    d.parsing := by
  unfold storeFn
  cases hp : d.parsing with
  | undetermined => rfl
  | action => rfl
  | condition => rfl
  | undoAction => rfl
  | arg => rfl
  | varMap =>
    dsimp only
    split
    · rfl
    · rfl
    · rfl
    · exact addToVarMapAsArg_lists _ _
    · rfl

/-- The end of an item files what the parser makes of it. -/
lemma Drawn.acceptFn_lists (h : Drawn libc D d) (hp : Xcpmd.acceptFn libc parseArg d = .ok d') (hne : D.name ≠ [])
    (hfin : d'.finished = false) : d'.filed = d.filed.file (D.item.fn libc d.parsing) d.parsing := by
  obtain ⟨d₁,hd,-,⟨hnil,-⟩ | ⟨-,rfl⟩⟩ := acceptFn_cases hp
  · exact absurd (h.name.symm.trans ((acceptArg_name hd).symm.trans hnil)) hne
  · have hfin₁ : d₁.finished = false := by
      by_contra hfin₁
      rw [storeFn_keeps.2 (by simpa using hfin₁)] at hfin
      cases hfin
    have hdrawn := h.acceptArg hd hfin₁
    rw [storeFn_lists, acceptArg_lists hd, (acceptArg_frame hd).parsing, hdrawn.name, hdrawn.args, hdrawn.undo]
    rfl

/-- What an edge but the last does to the lists: they stay, or an item is filed. -/
lemma Drawn.lists (h : Drawn libc D d) (hpos : Position q D text) (he : Edge q c a q') (ha : a ≠ some .acceptFns)
    (hp : perform libc parseArg a d c = .ok d') (hfin : d'.finished = false) {l : Lists}
    (hl : d.filed = l.fill libc D.items d.parsing) : d'.filed = l.fill libc (D.take c a).items d.parsing := by
  cases he with
  | name =>
    obtain ⟨-,rfl⟩ := accumName_eq_ok.mp hp
    exact hl
  | invert =>
    obtain rfl := Except.ok.inj hp
    exact hl
  | skip =>
    obtain rfl := Except.ok.inj hp
    exact hl
  | openParen =>
    obtain rfl := Except.ok.inj hp
    exact hl
  | unquote =>
    obtain rfl := Except.ok.inj hp
    exact hl
  | dollar =>
    obtain rfl := Except.ok.inj hp
    exact hl
  | quote =>
    obtain rfl := Except.ok.inj hp
    exact hl
  | number | yes | no | word | digit | period | fraction | char =>
    obtain ⟨-,rfl⟩ := accumArg_eq_ok.mp hp
    exact hl
  | nextArg => exact (acceptArg_lists hp).trans hl
  | close hq =>
    rw [h.acceptFn_lists hp (hpos.name hq) hfin, hl, ← Lists.fill_append]
    rfl
  | finish => exact absurd rfl ha

end Lists

section Values

/-- The number digits stand for, with or without a minus. -/
def decimal : List Char → Option ℤ
  | [] | ['-'] => none
  | '-' :: digits => some (-(Nat.ofDigitChars 10 digits 0))
  | digits => some (Nat.ofDigitChars 10 digits 0)

def IsInt32 (i : ℤ) : Prop := -2147483648 ≤ i ∧ i ≤ 2147483647

/-- The value an argument stands for, if it has one. -/
def WrittenArg.value (libc : Libc) : WrittenArg → Option FnArg
  | var name => if name = [] then none else some (.var (String.ofList name))
  | int digits => ((decimal digits).filter fun i => -2147483648 ≤ i ∧ i ≤ 2147483647).map .int
  | float digits => if digits.any isDigit then some (.float (libc.scanFloat (String.ofList digits))) else none
  | str text => some (.str (String.ofList text))
  | bool letter => some (.bool (isTrue letter))

/-- An argument that leaves something in the accumulator and has a value. -/
def WrittenArg.HasValue : WrittenArg → Prop
  | var name => name ≠ []
  | int digits => ∃ i, decimal digits = some i ∧ IsInt32 i
  | float digits => ∃ c ∈ digits, isDigit c = true
  | str text => text ≠ []
  | bool _ => True

/-- A function holds what is written in an item: every argument with its value, in order. -/
structure WrittenItem.Becomes (libc : Libc) (w : WrittenItem) (fn : Fn) : Prop where
  name : fn.name = String.ofList w.name
  args : w.args.map (WrittenArg.value libc) = fn.args.map some

lemma scanLong_eq {libc : Libc} {digits : List Char} {i : ℤ} (h : decimal digits = some i) (hi : IsInt32 i) :
    scanLong libc digits = i := by
  obtain ⟨hlo,hhi⟩ := hi
  unfold decimal at h
  split at h
  · cases h
  · cases h
  · rename_i digits' hne
    obtain rfl := Option.some.inj h
    have hne' : digits' ≠ [] := by
      rintro rfl
      exact hne rfl
    rw [scanLong]
    · exact Int.max_eq_left (by omega)
    · simpa using hne'
  · rename_i hnil hminus hneg
    obtain rfl := Option.some.inj h
    rw [scanLong]
    · exact Int.min_eq_left (by omega)
    · exact hminus
    · exact fun ds => hneg ds

/-- An argument arrives with its value exactly if it has one. -/
lemma WrittenArg.read_eq_value_iff (libc : Libc) (a : WrittenArg) :
    (a.read libc = a.value libc ∧ (a.value libc).isSome = true) ↔ a.HasValue := by
  cases a with
  | var name => by_cases hnil : name = [] <;> simp [WrittenArg.read, WrittenArg.value, WrittenArg.HasValue, stored, type, readArg, hnil]
  | int digits =>
    cases hdec : decimal digits with
    | none => simp [WrittenArg.value, WrittenArg.HasValue, hdec]
    | some i =>
      have hne : digits ≠ [] := by
        rintro rfl
        cases hdec
      by_cases hi : IsInt32 i
      · have hread : (int digits).read libc = some (.int i) := by
          rw [WrittenArg.read, if_neg (show (int digits).stored ≠ [] from hne), ← scanLong_eq hdec hi]
          rfl
        have hvalue : (int digits).value libc = some (.int i) := by
          rw [WrittenArg.value, hdec, Option.filter_some, if_pos (by simpa [IsInt32] using hi), Option.map_some]
        simp [hread, hvalue, WrittenArg.HasValue, hdec, hi]
      · have hvalue : (int digits).value libc = none := by
          rw [WrittenArg.value, hdec, Option.filter_some, if_neg (by simpa [IsInt32] using hi), Option.map_none]
        simp [hvalue, WrittenArg.HasValue, hdec, hi]
  | float digits =>
    have hany : (digits.any isDigit = true) ↔ ∃ c ∈ digits, isDigit c = true := List.any_eq_true
    by_cases hdigit : digits.any isDigit = true
    · have hne : digits ≠ [] := by
        rintro rfl
        cases hdigit
      simp only [WrittenArg.read, WrittenArg.value, WrittenArg.HasValue, if_pos hdigit, ← hany]
      rw [if_neg (show (float digits).stored ≠ [] from hne)]
      simp [stored, type, readArg, hdigit]
    · simp only [WrittenArg.value, WrittenArg.HasValue, if_neg hdigit, ← hany]
      simp [hdigit]
  | str text => by_cases hnil : text = [] <;> simp [WrittenArg.read, WrittenArg.value, WrittenArg.HasValue, stored, type, readArg, hnil]
  | bool letter => cases h : isTrue letter <;> simp [WrittenArg.read, WrittenArg.value, WrittenArg.HasValue, stored, type, readArg, h]

variable {libc : Libc} {mode : ParsedType}

lemma filterMap_read_eq_iff {args : List WrittenArg} :
    args.map (WrittenArg.value libc) = (args.filterMap (WrittenArg.read libc)).map some ↔ ∀ a ∈ args, a.HasValue := by
  constructor
  · intro h
    induction args with
    | nil => simp
    | cons a args ih =>
      cases hread : a.read libc with
      | none =>
        -- an argument is dropped, and the list is too short
        rw [List.filterMap_cons_none hread] at h
        have hlen := congrArg List.length h
        have hle := List.length_filterMap_le (WrittenArg.read libc) args
        simp only [List.length_map, List.length_cons] at hlen
        omega
      | some v =>
        rw [List.filterMap_cons_some hread, List.map_cons, List.map_cons, List.cons.injEq] at h
        have hvalue := (WrittenArg.read_eq_value_iff libc a).mp ⟨hread.trans h.1.symm,by rw [h.1]; rfl⟩
        exact List.forall_mem_cons.mpr ⟨hvalue,ih h.2⟩
  · intro h
    induction args with
    | nil => rfl
    | cons a args ih =>
      rw [List.forall_mem_cons] at h
      obtain ⟨heq,hsome⟩ := (WrittenArg.read_eq_value_iff libc a).mpr h.1
      obtain ⟨v,hv⟩ := Option.isSome_iff_exists.mp hsome
      rw [List.map_cons, List.filterMap_cons_some (heq.trans hv), List.map_cons, hv, ih h.2]

/-- An item arrives as it is written exactly if its arguments have values. -/
lemma becomes_fn_iff {w : WrittenItem} : w.Becomes libc (w.fn libc mode) ↔ ∀ a ∈ w.args, a.HasValue :=
  ⟨fun h => filterMap_read_eq_iff.mp h.args,fun h => ⟨rfl,filterMap_read_eq_iff.mpr h⟩⟩

/-- The functions are the items of a text, one for each, in order. -/
def Arrive (libc : Libc) (items : List WrittenItem) (fns : List Fn) : Prop :=
  List.Forall₂ (WrittenItem.Becomes libc) items fns

lemma arrive_map_iff {items : List WrittenItem} :
    Arrive libc items (items.map fun w => w.fn libc mode) ↔ ∀ w ∈ items, ∀ a ∈ w.args, a.HasValue := by
  rw [Arrive, List.forall₂_map_right_iff, List.forall₂_same]
  simp only [becomes_fn_iff]

end Values

section Accepted
variable {libc : Libc} {parseArg : String → Option Arg} {D : Draft} {d d' : ParseData} {text : List Char}
  {conditions actions undos : Option String}

/-- A text as far as the parser reads it. -/
def spelling (text : Option String) : List Char := cut false (cstr text)

/-- The machine has filed the items it has read behind what the lists held before. -/
structure Collecting (libc : Libc) (text : List Char) (l : Lists) (d : ParseData) : Prop where
  applied : d.applied = none
  tracking : ∃ pre D, Tracking libc text pre D d ∧ d.filed = l.fill libc D.items d.parsing

lemma Collecting.returned {l : Lists} (h : Collecting libc text l d) : d.returned = none := by
  obtain ⟨_,_,htrack,-⟩ := h.tracking
  exact htrack.returned

/-- Everything a round can do while items are filed: the parse ends without a rule, it goes on in the text, or
it comes to the end of it. -/
lemma Collecting.round {l : Lists} (h : Collecting libc text l d) (hd : parseRound libc parseArg d = .ok d') :
    (d'.returned = some false ∧ d'.applied = none) ∨ (Lost d' ∧ d'.returned = none ∧ d'.applied = none) ∨
    (Collecting libc text l d' ∧ Fixed d d') ∨
    ∃ items d₁, Taken items text ∧ d.filed = l.fill libc items d.parsing ∧ d.finished = false ∧ d.args = [] ∧
      d.undo = true ∧ d.accumName = [] ∧ d.accumArg = [] ∧
      acceptFns libc parseArg { d with rest := d.rest.tail } = .ok d₁ ∧ d' = follow d₁ .acceptRule := by
  obtain ⟨pre,D,htrack,hlists⟩ := h.tracking
  cases htrack.round hd with
  | stuck hstuck =>
    rw [hstuck]
    exact .inl ⟨rfl,h.applied⟩
  | failed he ha hp hfin heq =>
    rw [heq]
    exact .inl ⟨rfl,(perform_frame hp ha).applied.trans h.applied⟩
  | lost heq =>
    rw [heq]
    exact .inr (.inl ⟨⟨rfl,rfl⟩,rfl,h.applied⟩)
  | edge he ha hp heq htrack' =>
    have hfix := (perform_frame hp ha).toFixed
    have hfin := htrack'.finished
    subst heq
    have hlists' := htrack.drawn_tail.lists htrack.position he ha hp hfin hlists
    refine .inr (.inr (.inl ⟨⟨hfix.applied.trans h.applied,_,_,htrack',?_⟩,hfix.parsing,hfix.actionsStr,hfix.undoActionsStr,hfix.applied⟩))
    rw [hfix.parsing]
    exact hlists'
  | finish _ hD hitems _ hp heq =>
    have hdrawn := htrack.drawn
    rw [hD] at hdrawn hlists
    exact .inr (.inr (.inr ⟨_,_,hitems,hlists,htrack.finished,hdrawn.args,hdrawn.undo,hdrawn.name,hdrawn.arg,hp,heq⟩))

/-- The machine at the start of a text. -/
lemma tracking_start {t : Option String} (hfin : d.finished = false) (hargs : d.args = []) (hundo : d.undo = true) :
    Tracking libc (spelling t) [] {} { loadParseString d t with state := .start, returned := none } := by
  refine ⟨hfin,rfl,null_notMem_cstr t,⟨rfl,rfl,?_,hargs,hundo⟩,Draft.fits_start,.start .nil (.inl rfl),.refl _,rfl⟩
  rintro _ ⟨⟩

/-- How far the texts of a rule have been read. -/
inductive Stage (libc : Libc) (conditions actions undos : Option String) (d : ParseData) : Prop
  | conditions : d.parsing = .condition → d.actionsStr = actions → d.undoActionsStr = undos →
    Collecting libc (spelling conditions) {} d → Stage libc conditions actions undos d
  | actions {ws} : d.parsing = .action → d.undoActionsStr = undos → Taken ws (spelling conditions) →
    Collecting libc (spelling actions) (Lists.fill libc {} ws .condition) d → Stage libc conditions actions undos d
  | undos {ws ws'} : d.parsing = .undoAction → Taken ws (spelling conditions) → Taken ws' (spelling actions) →
    Collecting libc (spelling undos) ((Lists.fill libc {} ws .condition).fill libc ws' .action) d →
    Stage libc conditions actions undos d

/-- The lists of a rule are what its texts spell. -/
def HandedOver (libc : Libc) (conditions actions undos : Option String) (lists : List Fn × List Fn × List Fn) : Prop :=
  ∃ cs as us, Taken cs (spelling conditions) ∧ Taken as (spelling actions) ∧ Taken us (spelling undos) ∧
    lists = (cs.map fun w => w.fn libc .condition, as.map fun w => w.fn libc .action,
      us.map fun w => w.fn libc .undoAction)

/-- The invariant of the main loop while a rule is parsed. -/
inductive Delivering (libc : Libc) (conditions actions undos : Option String) (d : ParseData) : Prop
  | stage : Stage libc conditions actions undos d → Delivering libc conditions actions undos d
  | lost : Lost d → d.returned = none → d.applied = none → Delivering libc conditions actions undos d
  | refused : d.returned = some false → d.applied = none → Delivering libc conditions actions undos d
  | ended {lists} : d.returned.isSome = true → d.applied = some lists →
    HandedOver libc conditions actions undos lists → Delivering libc conditions actions undos d

lemma Stage.returned (h : Stage libc conditions actions undos d) : d.returned = none := by
  cases h with
  | conditions _ _ _ hcollect => exact hcollect.returned
  | actions _ _ _ hcollect => exact hcollect.returned
  | undos _ _ _ hcollect => exact hcollect.returned

lemma Stage.round (h : Stage libc conditions actions undos d) (hd : parseRound libc parseArg d = .ok d') :
    Delivering libc conditions actions undos d' := by
  cases h with
  | conditions hp ha hu hcollect =>
    obtain ⟨hret,happ⟩ | ⟨hlost,hnone,happ⟩ | ⟨hcollect',hfix⟩ | ⟨ws,d₁,hws,hl,hfin,hargs,hundo,hname,harg,hd₁,rfl⟩ := hcollect.round hd
    · exact .refused hret happ
    · exact .lost hlost hnone happ
    · exact .stage (.conditions (hfix.parsing.trans hp) (hfix.actionsStr.trans ha) (hfix.undoActionsStr.trans hu) hcollect')
    · rw [acceptFns, acceptFn_of_nil (by exact hname) (by exact harg), ok_bind] at hd₁
      simp only [hp] at hd₁
      obtain rfl := Except.ok.inj hd₁
      rw [follow_acceptRule (by exact hfin)]
      subst ha
      refine .stage (.actions rfl hu hws ⟨hcollect.applied,[],{},tracking_start hfin hargs hundo,?_⟩)
      rw [← hp]
      exact hl
  | actions hp hu hws hcollect =>
    obtain ⟨hret,happ⟩ | ⟨hlost,hnone,happ⟩ | ⟨hcollect',hfix⟩ | ⟨ws',d₁,hws',hl,hfin,hargs,hundo,hname,harg,hd₁,rfl⟩ := hcollect.round hd
    · exact .refused hret happ
    · exact .lost hlost hnone happ
    · exact .stage (.actions (hfix.parsing.trans hp) (hfix.undoActionsStr.trans hu) hws hcollect')
    · rw [acceptFns, acceptFn_of_nil (by exact hname) (by exact harg), ok_bind] at hd₁
      simp only [hp] at hd₁
      obtain rfl := Except.ok.inj hd₁
      rw [follow_acceptRule (by exact hfin)]
      subst hu
      refine .stage (.undos rfl hws hws' ⟨hcollect.applied,[],{},tracking_start hfin hargs hundo,?_⟩)
      rw [← hp]
      exact hl
  | undos hp hws hws' hcollect =>
    obtain ⟨hret,happ⟩ | ⟨hlost,hnone,happ⟩ | ⟨hcollect',hfix⟩ | ⟨ws'',d₁,hws'',hl,hfin,hargs,hundo,hname,harg,hd₁,rfl⟩ := hcollect.round hd
    · exact .refused hret happ
    · exact .lost hlost hnone happ
    · exact .stage (.undos (hfix.parsing.trans hp) hws hws' hcollect')
    · rw [acceptFns, acceptFn_of_nil (by exact hname) (by exact harg), ok_bind] at hd₁
      simp only [hp] at hd₁
      obtain rfl := Except.ok.inj hd₁
      rw [hp, Lists.fill_condition, Lists.fill_action, Lists.fill_undoAction] at hl
      simp only [ParseData.filed, List.nil_append, Lists.mk.injEq] at hl
      exact .ended (follow_of_finished rfl _) rfl ⟨_,_,_,hws,hws',hws'',by simp [hl]⟩

/-- The parse of a rule fails, or the items of the texts are handed over, with the arguments that left something in
the accumulator. -/
theorem handedOver_of_parse {varMap : VarMap} {vars : VarStore}
    (h : parseTexts libc parseArg varMap vars conditions actions undos = .ok d) :
    (d.returned = some false ∧ d.applied = none) ∨
      ∃ lists, d.applied = some lists ∧ HandedOver libc conditions actions undos lists := by
  obtain ⟨hrounds,hret⟩ := rounds_of_loop h
  have hstart : Delivering libc conditions actions undos (loadParseString
      { parsing := .condition, varMap, vars, actionsStr := actions, undoActionsStr := undos } conditions) :=
    .stage (.conditions rfl rfl rfl ⟨rfl,[],{},@tracking_start libc
      { parsing := .condition, varMap, vars, actionsStr := actions, undoActionsStr := undos } conditions rfl rfl rfl,rfl⟩)
  have hinv : Delivering libc conditions actions undos d := by
    refine Rounds.invariant (fun a b ha hdone hround => ?_) hrounds hstart
    cases ha with
    | stage hstage => exact hstage.round hround
    | lost hlost _ happ =>
      rw [hlost.round hround]
      exact .refused rfl happ
    | refused hret => simp [hret] at hdone
    | ended hret => simp [hret] at hdone
  cases hinv with
  | stage hstage =>
    rw [hstage.returned] at hret
    cases hret
  | lost _ hnone =>
    rw [hnone] at hret
    cases hret
  | refused hfalse happ => exact .inl ⟨hfalse,happ⟩
  | ended _ happ hlists => exact .inr ⟨_,happ,hlists⟩

/-- A text that is parsed for an argument leaves its last item. -/
lemma Lists.fill_arg {l : Lists} {items : List WrittenItem} : (l.fill libc items .arg).parsedArg =
    (items.getLast?.map fun w => w.fn libc .arg).or l.parsedArg := by
  induction items using List.reverseRecOn with
  | nil => rfl
  | append_singleton items w _ => simp [Lists.fill_append, Lists.file]

/-- The invariant of the main loop while a text is parsed for an argument. -/
inductive ReadingArg (libc : Libc) (text : Option String) (d : ParseData) : Prop
  | stage : d.parsing = .arg → Collecting libc (spelling text) {} d → ReadingArg libc text d
  | lost : Lost d → d.returned = none → ReadingArg libc text d
  | refused : d.returned = some false → ReadingArg libc text d
  | ended {items} : d.returned.isSome = true → Taken items (spelling text) →
    d.parsedArg = items.getLast?.map (fun w => w.fn libc .arg) → ReadingArg libc text d

lemma ReadingArg.round {text : Option String} (h : ReadingArg libc text d) (hret : d.returned.isSome = false)
    (hd : parseRound libc parseArg d = .ok d') : ReadingArg libc text d' := by
  cases h with
  | stage hp hcollect =>
    obtain ⟨hfalse,-⟩ | ⟨hlost,hnone,-⟩ | ⟨hcollect',hfix⟩ | ⟨ws,d₁,hws,hl,-,-,-,hname,harg,hd₁,rfl⟩ := hcollect.round hd
    · exact .refused hfalse
    · exact .lost hlost hnone
    · exact .stage (hfix.parsing.trans hp) hcollect'
    · rw [acceptFns, acceptFn_of_nil (by exact hname) (by exact harg), ok_bind] at hd₁
      simp only [hp] at hd₁
      obtain rfl := Except.ok.inj hd₁
      have hlast : d.parsedArg = ws.getLast?.map fun w => w.fn libc .arg := by
        have hl := congrArg Lists.parsedArg hl
        rwa [hp, Lists.fill_arg, Option.or_none] at hl
      exact .ended (follow_of_finished rfl _) hws hlast
  | lost hlost =>
    rw [hlost.round hd]
    exact .refused rfl
  | refused h => simp [h] at hret
  | ended h => simp [h] at hret

/-- What a text that is parsed for an argument leaves. -/
lemma parsedArg_of_parse {varMap : VarMap} {vars : VarStore} {text : Option String}
    (h : parse libc parseArg { parsing := .arg, varMap, vars } text = .ok d) (hret : d.returned = some true) :
    ∃ items, Taken items (spelling text) ∧ d.parsedArg = items.getLast?.map fun w => w.fn libc .arg := by
  obtain ⟨hrounds,-⟩ := rounds_of_loop h
  have hstart : ReadingArg libc text (loadParseString { parsing := .arg, varMap, vars } text) :=
    .stage rfl ⟨rfl,[],{},@tracking_start libc { parsing := .arg, varMap, vars } text rfl rfl rfl,rfl⟩
  have hinv : ReadingArg libc text d :=
    Rounds.invariant (fun a b ha hdone hround => ha.round hdone hround) hrounds hstart
  cases hinv with
  | stage _ hcollect =>
    rw [hcollect.returned] at hret
    cases hret
  | lost _ hnone =>
    rw [hnone] at hret
    cases hret
  | refused hfalse =>
    rw [hfalse] at hret
    cases hret
  | ended _ hitems hlast => exact ⟨_,hitems,hlast⟩

end Accepted

section Delivered
variable {libc : Libc} {parseArg : String → Option Arg} {d : ParseData} {conditions actions undos : Option String}

/-- The functions stand for the items of a text, of which there is one list; they hold what is written exactly if
every argument has a value. -/
def Delivered (libc : Libc) (text : List Char) (fns : List Fn) : Prop :=
  ∃ items, (∀ ws, Spelled ws text ↔ ws = items) ∧ (Arrive libc items fns ↔ ∀ w ∈ items, ∀ a ∈ w.args, a.HasValue)

lemma delivered_map {items : List WrittenItem} {text : List Char} {mode : ParsedType} (h : Spelled items text) :
    Delivered libc text (items.map fun w => w.fn libc mode) := by
  refine ⟨items,fun ws => ⟨fun hws => hws.unique h,?_⟩,arrive_map_iff⟩
  rintro rfl
  exact h

/-- The function that is left of a text that is parsed for an argument: there is one for its items only if there is
at most one item. -/
def DeliveredArg (libc : Libc) (text : List Char) (fn : Option Fn) : Prop :=
  ∃ items, (∀ ws, Spelled ws text ↔ ws = items) ∧
    (Arrive libc items fn.toList ↔ items.length ≤ 1 ∧ ∀ w ∈ items, ∀ a ∈ w.args, a.HasValue)

lemma deliveredArg_getLast {items : List WrittenItem} {text : List Char} {mode : ParsedType}
    (h : Spelled items text) : DeliveredArg libc text (items.getLast?.map fun w => w.fn libc mode) := by
  refine ⟨items,fun ws => ⟨fun hws => hws.unique h,?_⟩,?_⟩
  · rintro rfl
    exact h
  · rw [← @arrive_map_iff libc mode]
    match items with
    | [] => simp [Arrive]
    | [w] => simp [Arrive]
    | w :: w' :: items =>
      have hlen : ¬ (w :: w' :: items).length ≤ 1 := by simp
      simp only [hlen, false_and, iff_false]
      intro harrive
      have hlength := harrive.length_eq
      cases hlast : (w :: w' :: items).getLast? <;> simp [hlast] at hlength

/-- In a rule that is accepted, every item of every text is a function, in order, and its arguments are the written
ones exactly if all of them have values. Of a text that is accepted for an argument, the last item is left. What becomes
of the strings of variables is in `VarStrings`. -/
theorem arguments_arrive_iff (libc : Libc) (parseArg : String → Option Arg) (varMap : VarMap) (vars : VarStore)
    (conditions actions undos text : Option String) :
    (∀ d cs as us, parseTexts libc parseArg varMap vars conditions actions undos = .ok d →
      d.applied = some (cs, as, us) → Delivered libc (spelling conditions) cs ∧
        Delivered libc (spelling actions) as ∧ Delivered libc (spelling undos) us) ∧
    ∀ d, parse libc parseArg { parsing := .arg, varMap, vars } text = .ok d → d.returned = some true →
      DeliveredArg libc (spelling text) d.parsedArg := by
  constructor
  · intro d cs as us h happ
    obtain ⟨-,hnone⟩ | ⟨lists,hlists,cs',as',us',hcs,has,hus,rfl⟩ := handedOver_of_parse h
    · rw [happ] at hnone
      cases hnone
    rw [happ, Option.some.injEq, Prod.mk.injEq, Prod.mk.injEq] at hlists
    obtain ⟨rfl,rfl,rfl⟩ := hlists
    exact ⟨delivered_map hcs.spelled,delivered_map has.spelled,delivered_map hus.spelled⟩
  · intro d h hret
    obtain ⟨items,hitems,hlast⟩ := parsedArg_of_parse h hret
    rw [hlast]
    exact deliveredArg_getLast hitems.spelled

/-- A machine whose database holds no variables. -/
def noVars : VarStore := ⟨[], fun _ => none⟩

/-- An item with an empty string and a number. -/
def quotedItem : WrittenItem := ⟨false, ['f'], [.str [], .int ['2']]⟩

lemma quotedItem_spelled : Spelled [quotedItem] (spelling (some "f(\"\" 2)")) := by
  have hstr : ArgsSpelled [.str []] ['"', '"', ' '] := .arg .nil (by simp [WrittenArg.WellFormed])
  have hint : IsInt ['2'] := ⟨'2',[],rfl,rfl,by simp⟩
  exact .item (w := quotedItem) .nil (.inl rfl) ⟨by decide,List.forall_mem_singleton.mpr rfl⟩ (.last (a := .int ['2']) hstr hint)

/-- The applied lists of a parse that comes to an end. -/
lemma exists_of_applied {r : Outcome ParseData} {lists : List Fn × List Fn × List Fn}
    (h : r.toOption.bind ParseData.applied = some lists) : ∃ d, r = .ok d ∧ d.applied = some lists := by
  cases r with
  | error e => cases h
  | ok d => exact ⟨d,rfl,h⟩

/-- A rule of three texts: a condition, an action with an empty string, and two undos. -/
def parseTriple : Outcome ParseData :=
  parseTexts zeroLibc (fun _ => none) [] noVars (some "f(1 t)") (some "g(\"\" 2)") (some "u(-3) v(\"a b\")")

theorem arguments_arrive_sample : ∃ d f g u v, parseTriple = .ok d ∧ d.applied = some ([f], [g], [u, v]) ∧
    Delivered zeroLibc (spelling (some "f(1 t)")) [f] ∧ Delivered zeroLibc (spelling (some "g(\"\" 2)")) [g] ∧
    g.args = [.int 2] ∧ Delivered zeroLibc (spelling (some "u(-3) v(\"a b\")")) [u, v] ∧ v.args = [.str "a b"] := by
  obtain ⟨d,hd,happ⟩ := @exists_of_applied parseTriple ([⟨"f", [.int 1, .bool true], true⟩], [⟨"g", [.int 2], true⟩],
    [⟨"u", [.int (-3)], false⟩, ⟨"v", [.str "a b"], false⟩]) (by decide +kernel)
  obtain ⟨hf,hg,huv⟩ := (arguments_arrive_iff zeroLibc (fun _ => none) [] noVars (some "f(1 t)") (some "g(\"\" 2)")
    (some "u(-3) v(\"a b\")") none).1 d _ _ _ hd happ
  exact ⟨d,_,_,_,_,hd,happ,hf,hg,rfl,huv,rfl⟩

/-- An empty string does not arrive. -/
theorem empty_string_dropped : ∃ d fn,
    parseTexts zeroLibc (fun _ => none) [] noVars (some "f(\"\" 2)") none none = .ok d ∧
    d.applied = some ([fn], [], []) ∧ fn.args = [.int 2] ∧ Spelled [quotedItem] (spelling (some "f(\"\" 2)")) ∧
    ¬ Arrive zeroLibc [quotedItem] [fn] := by
  obtain ⟨d,hd,happ⟩ := @exists_of_applied
    (parseTexts zeroLibc (fun _ => none) [] noVars (some "f(\"\" 2)") none none)
    ([⟨"f", [.int 2], true⟩], [], []) (by decide)
  refine ⟨d,_,hd,happ,rfl,quotedItem_spelled,?_⟩
  rintro (_ | ⟨h,-⟩)
  cases congrArg List.length h.args

end Delivered

end Xctools.Xcpmd
