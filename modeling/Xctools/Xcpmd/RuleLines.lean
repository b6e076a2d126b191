import Xctools.Xcpmd.Agreement
import Xctools.Xcpmd.Verdict

/-! Rules on paper. `rule_to_string` prints a rule as a line of a policy file; the file's reader splits
the line at the bars outside of quotes and hands the parts to the parser. What is printed is loaded back,
unless the reader takes the line for something else: for a comment, for the separator of the sections, or
for the end of a name. -/
namespace Xctools.Xcpmd
open Machine

section Print
variable {ε : Type} (libc : Libc)

/-- An item as it is printed, with the blank behind it. -/
def printCall (name : String) (args : List Arg) : List Char :=
  name.toList ++ '(' :: ([' '].intercalate (args.map fun arg => (argToString libc arg).toList) ++ [')', ' '])

def printCondition (c : Condition ε) : List Char :=
  (if c.isInverted then ['!'] else []) ++ printCall libc c.type.name c.args

def printAction (a : Action) : List Char := printCall libc a.type.name a.args

/-- `rule_to_string`, which takes away the last blank. -/
def ruleToString (r : Rule ε) : String :=
  String.ofList (r.id.toList ++ [' ', '|', ' '] ++ r.conditions.flatMap (printCondition libc) ++
    ['|', ' '] ++ r.actions.flatMap (printAction libc) ++
    (if r.undos = [] then [] else ['|', ' '] ++ r.undos.flatMap (printAction libc))).dropLast

/-- A policy file with no variables and one rule. -/
def ruleFile (r : Rule ε) : List Char := ['=', '\n'] ++ ((ruleToString libc r).toList ++ ['\n'])

end Print

section Fields
variable {q q' q'' : Bool} {seg seg' : List Char}

/-- A part of a line that belongs to one field. -/
def Passes (q : Bool) (seg : List Char) (q' : Bool) : Prop :=
  ∀ token rest, fields q token (seg ++ rest) = fields q' (token ++ seg) rest

lemma passes_nil : Passes q [] q := by simp [Passes]

lemma Passes.append (h : Passes q seg q') (h' : Passes q' seg' q'') : Passes q (seg ++ seg') q'' := by
  intro token rest
  rw [List.append_assoc, h, h', List.append_assoc]

lemma passes_char {c : Char} (hquote : c ≠ '"') (hend : q = true ∨ c ≠ '|' ∧ c ≠ '\n') : Passes q [c] q := by
  intro token rest
  have hstay : ¬ ((c = '|' ∨ c = '\n') ∧ q = false) := by
    rintro ⟨hc,rfl⟩
    rcases hend with hq | ⟨hbar,hnew⟩
    · cases hq
    · exact hc.elim hbar hnew
  rw [List.singleton_append, fields]
  simp only [if_neg hquote, if_neg hstay]

lemma passes_quote (q : Bool) : Passes q ['"'] (!q) := by
  intro token rest
  rw [List.singleton_append, fields]
  simp

lemma passes_of_forall (h : ∀ c ∈ seg, c ≠ '"' ∧ (q = true ∨ c ≠ '|' ∧ c ≠ '\n')) : Passes q seg q := by
  induction seg with
  | nil => exact passes_nil
  | cons c seg ih =>
    obtain ⟨⟨hquote,hend⟩,hseg⟩ := List.forall_mem_cons.mp h
    exact (passes_char hquote hend).append (ih hseg)

/-- A field ends at a bar. -/
lemma Passes.fields_bar (h : Passes false seg false) (rest : List Char) :
    fields false [] (seg ++ '|' :: rest) = seg :: fields false [] rest := by
  rw [h, List.nil_append, fields]
  simp

/-- The last field ends with the line, and what is behind it is one more, which is empty. -/
lemma Passes.fields_newline (h : Passes false seg false) : fields false [] (seg ++ ['\n']) = [seg, []] := by
  rw [h, List.nil_append, fields]
  simp [fields]

lemma passes_intercalate {l : List (List Char)} (h : ∀ t ∈ l, Passes false t false) :
    Passes false ([' '].intercalate l) false := by
  induction l with
  | nil => exact passes_nil
  | cons t l ih =>
    obtain ⟨ht,hl⟩ := List.forall_mem_cons.mp h
    cases l with
    | nil => simpa using ht
    | cons t' l =>
      have hsplit : [' '].intercalate (t :: t' :: l) = t ++ ([' '] ++ [' '].intercalate (t' :: l)) := by
        simp [List.intercalate]
      rw [hsplit]
      exact ht.append ((passes_char (by decide) (.inr (by decide))).append (ih hl))

lemma passes_flatMap {α : Type} {f : α → List Char} {l : List α} (h : ∀ x ∈ l, Passes false (f x) false) :
    Passes false (l.flatMap f) false := by
  induction l with
  | nil => exact passes_nil
  | cons x l ih =>
    obtain ⟨hx,hl⟩ := List.forall_mem_cons.mp h
    exact hx.append (ih hl)

/-- Words have neither quotes nor ends of fields. -/
lemma passes_word {p : Char → Bool} (h : ∀ c ∈ seg, p c = true) (hquote : p '"' = false)
    (hbar : p '|' = false) (hnew : p '\n' = false) : Passes false seg false := by
  apply passes_of_forall
  intro c hc
  have hp := h c hc
  refine ⟨?_,.inr ⟨?_,?_⟩⟩
  · rintro rfl
    rw [hquote] at hp
    cases hp
  · rintro rfl
    rw [hbar] at hp
    cases hp
  · rintro rfl
    rw [hnew] at hp
    cases hp

end Fields

section Items
variable {ε : Type} {libc : Libc} {parseArg : String → Option Arg}

/-- An item as it is printed, without the blank behind it. -/
def itemText (libc : Libc) (name : String) (args : List Arg) : List Char :=
  name.toList ++ '(' :: ([' '].intercalate (args.map fun arg => (argToString libc arg).toList) ++ [')'])

def conditionItem (libc : Libc) (c : Condition ε) : List Char :=
  (if c.isInverted then ['!'] else []) ++ itemText libc c.type.name c.args

def actionItem (libc : Libc) (a : Action) : List Char := itemText libc a.type.name a.args

lemma printCondition_eq (c : Condition ε) : printCondition libc c = conditionItem libc c ++ [' '] := by
  simp [printCondition, conditionItem, printCall, itemText]

lemma printAction_eq (a : Action) : printAction libc a = actionItem libc a ++ [' '] := by
  simp [printAction, actionItem, printCall, itemText]

lemma spells_conditionItem {c : Condition ε} (hname : IsName c.type.name)
    (hargs : ∀ arg ∈ c.args, arg.Printable) : Spells libc parseArg (conditionItem libc c) c.toFn := by
  refine ⟨hname,_,spoken_args hargs,?_⟩
  rw [conditionItem, itemText, Condition.toFn]
  cases c.isInverted <;> rfl

lemma spells_actionItem {a : Action} (hname : IsName a.type.name) (hargs : ∀ arg ∈ a.args, arg.Printable) :
    Spells libc parseArg (actionItem libc a) a.toFn :=
  ⟨hname,_,spoken_args hargs,rfl⟩

/-- A printed value is one piece: what is special in it stands between quotes. -/
lemma passes_argToString {arg : Arg} (h : arg.Printable) :
    Passes false (argToString libc arg).toList false := by
  cases arg with
  | int i => exact passes_word (fun c hc => isDigitOrMinus_of_mem_toString hc) rfl rfl rfl
  | bool b =>
    have htext : (argToString libc (.bool b)).toList = [if b then 't' else 'f'] := by
      cases b <;> simp [argToString]
    rw [htext]
    cases b with
    | false => exact passes_char (by decide) (.inr (by decide))
    | true => exact passes_char (by decide) (.inr (by decide))
  | str s =>
    have htext : (argToString libc (.str s)).toList = ['"'] ++ (s.toList ++ ['"']) := by simp [argToString]
    have hinside : Passes true s.toList true := by
      apply passes_of_forall
      intro c hc
      refine ⟨?_,.inl rfl⟩
      rintro rfl
      cases h.unquoted _ hc
    rw [htext]
    exact (passes_quote false).append (hinside.append (passes_quote true))
  | var name =>
    have htext : (argToString libc (.var name)).toList = ['$'] ++ name.toList := by simp [argToString]
    rw [htext]
    exact (passes_char (by decide) (.inr (by decide))).append (passes_word h.word rfl rfl rfl)
  | float bits => exact h.elim
  | none => exact h.elim

lemma passes_itemText {name : String} {args : List Arg} (hname : IsName name)
    (hargs : ∀ arg ∈ args, arg.Printable) : Passes false (itemText libc name args) false := by
  have hsplit : itemText libc name args = name.toList ++ (['('] ++
      ([' '].intercalate (args.map fun arg => (argToString libc arg).toList) ++ [')'])) := rfl
  have hargs' : Passes false ([' '].intercalate (args.map fun arg => (argToString libc arg).toList)) false := by
    apply passes_intercalate
    rw [List.forall_mem_map]
    exact fun arg harg => passes_argToString (hargs arg harg)
  rw [hsplit]
  exact (passes_word hname.word rfl rfl rfl).append ((passes_char (by decide) (.inr (by decide))).append
    (hargs'.append (passes_char (by decide) (.inr (by decide)))))

lemma passes_conditionItem {c : Condition ε} (hname : IsName c.type.name)
    (hargs : ∀ arg ∈ c.args, arg.Printable) : Passes false (conditionItem libc c) false := by
  apply Passes.append _ (passes_itemText hname hargs)
  split_ifs
  · exact passes_char (by decide) (.inr (by decide))
  · exact passes_nil

/-- Without the blank behind the last one, the items are separated by blanks. -/
lemma dropLast_flatMap_blank {α : Type} (f : α → List Char) (l : List α) :
    (l.flatMap fun x => f x ++ [' ']).dropLast = [' '].intercalate (l.map f) := by
  induction l with
  | nil => rfl
  | cons x l ih =>
    cases l with
    | nil => simp
    | cons y l =>
      have hne : ((y :: l).flatMap fun x => f x ++ [' ']) ≠ [] := by simp
      rw [List.flatMap_cons, List.dropLast_append_of_ne_nil hne, ih]
      simp [List.intercalate]

end Items

section Line
variable {ε : Type} {libc : Libc} {parseArg : String → Option Arg} {r : Rule ε}

/-- The fields of a printed rule behind its name. -/
def conditionsField (libc : Libc) (r : Rule ε) : List Char :=
  ' ' :: r.conditions.flatMap fun c => conditionItem libc c ++ [' ']

def actionsField (libc : Libc) (r : Rule ε) : List Char :=
  ' ' :: if r.undos = [] then [' '].intercalate (r.actions.map (actionItem libc))
    else r.actions.flatMap fun a => actionItem libc a ++ [' ']

def undosField (libc : Libc) (r : Rule ε) : List Char :=
  if r.undos = [] then [] else ' ' :: [' '].intercalate (r.undos.map (actionItem libc))

/-- The line of a rule that does something, field by field. -/
lemma toList_ruleToString (hcalls : ¬ (r.actions = [] ∧ r.undos = [])) : (ruleToString libc r).toList =
    r.id.toList ++ [' '] ++ '|' :: (conditionsField libc r ++ '|' :: (actionsField libc r ++
      if r.undos = [] then [] else '|' :: undosField libc r)) := by
  have hconds : r.conditions.flatMap (printCondition libc) =
      r.conditions.flatMap fun c => conditionItem libc c ++ [' '] :=
    List.flatMap_congr fun c _ => printCondition_eq c
  have hacts : ∀ l : List Action, l.flatMap (printAction libc) = l.flatMap fun a => actionItem libc a ++ [' '] :=
    fun l => List.flatMap_congr fun a _ => printAction_eq a
  have hne : ∀ l : List Action, l ≠ [] → (l.flatMap fun a => actionItem libc a ++ [' ']) ≠ [] := by
    intro l hl
    obtain ⟨a,l,rfl⟩ := List.exists_cons_of_ne_nil hl
    simp
  rw [ruleToString, String.toList_ofList, hconds, hacts, hacts, conditionsField, actionsField, undosField]
  by_cases hundos : r.undos = []
  · have hactions : r.actions ≠ [] := fun h => hcalls ⟨h,hundos⟩
    simp only [if_pos hundos, List.append_nil]
    rw [List.dropLast_append_of_ne_nil (hne _ hactions), dropLast_flatMap_blank]
    simp
  · simp only [if_neg hundos]
    rw [List.dropLast_append_of_ne_nil (by simp), List.dropLast_append_of_ne_nil (hne _ hundos),
      dropLast_flatMap_blank]
    simp

lemma passes_blanked {α : Type} {f : α → List Char} {l : List α} (h : ∀ x ∈ l, Passes false (f x) false) :
    Passes false (l.flatMap fun x => f x ++ [' ']) false :=
  passes_flatMap fun x hx => (h x hx).append (passes_char (by decide) (.inr (by decide)))

/-- The reader takes the line apart as it was put together. -/
lemma fields_ruleToString (hwrite : r.Writable) (hcalls : ¬ (r.actions = [] ∧ r.undos = []))
    (hid : ∀ c ∈ r.id.toList, c ≠ '"' ∧ c ≠ '|' ∧ c ≠ '\n') :
    ∃ rest, fields false [] ((ruleToString libc r).toList ++ ['\n']) =
      (r.id.toList ++ [' ']) :: conditionsField libc r :: actionsField libc r :: undosField libc r :: rest := by
  have hblank : Passes false [' '] false := passes_char (by decide) (.inr (by decide))
  have hname : Passes false (r.id.toList ++ [' ']) false := by
    refine Passes.append (passes_of_forall fun c hc => ?_) hblank
    obtain ⟨hquote,hends⟩ := hid c hc
    exact ⟨hquote,.inr hends⟩
  obtain ⟨hactions,hundos⟩ := List.forall_mem_append.mp hwrite.calls
  have hitem : ∀ a : Action, (IsName a.type.name ∧ ∀ arg ∈ a.args, arg.Printable) →
      Passes false (actionItem libc a) false := fun a h => passes_itemText h.1 h.2
  have hcond : Passes false (conditionsField libc r) false := by
    apply hblank.append
    apply passes_blanked
    intro c hc
    obtain ⟨hn,hargs⟩ := hwrite.conditions c hc
    exact passes_conditionItem hn hargs
  have hjoined : ∀ l : List Action, (∀ a ∈ l, IsName a.type.name ∧ ∀ arg ∈ a.args, arg.Printable) →
      Passes false ([' '].intercalate (l.map (actionItem libc))) false := by
    intro l hl
    apply passes_intercalate
    rw [List.forall_mem_map]
    exact fun a ha => hitem a (hl a ha)
  have hact : Passes false (actionsField libc r) false := by
    unfold actionsField
    split_ifs
    · exact hblank.append (hjoined _ hactions)
    · exact hblank.append (passes_blanked fun a ha => hitem a (hactions a ha))
  have hline : (ruleToString libc r).toList ++ ['\n'] = (r.id.toList ++ [' ']) ++ '|' ::
      (conditionsField libc r ++ '|' :: (actionsField libc r ++
        ((if r.undos = [] then [] else '|' :: undosField libc r) ++ ['\n']))) := by
    rw [toList_ruleToString hcalls]
    simp only [List.append_assoc, List.cons_append, List.nil_append]
  rw [hline, hname.fields_bar, hcond.fields_bar]
  by_cases hnil : r.undos = []
  · rw [if_pos hnil, List.nil_append, hact.fields_newline, undosField, if_pos hnil]
    exact ⟨[],rfl⟩
  · have hund : Passes false (undosField libc r) false := by
      rw [undosField, if_neg hnil]
      exact hblank.append (hjoined _ hundos)
    rw [if_neg hnil, List.cons_append, hact.fields_bar, hund.fields_newline]
    exact ⟨[[]],rfl⟩

lemma reads_conditionsField (hwrite : r.Writable) :
    Reads libc parseArg (conditionsField libc r) (r.conditions.map Condition.toFn) := by
  have hspells : List.Forall₂ (Spells libc parseArg) (r.conditions.map (conditionItem libc))
      (r.conditions.map Condition.toFn) := by
    rw [List.forall₂_map_left_iff, List.forall₂_map_right_iff, List.forall₂_same]
    exact fun c hc => spells_conditionItem (hwrite.conditions c hc).1 (hwrite.conditions c hc).2
  have hreads := (reads_spaced hspells).blank
  rw [List.flatMap_map] at hreads
  exact hreads

lemma forall₂_spells_actions {l : List Action}
    (h : ∀ a ∈ l, IsName a.type.name ∧ ∀ arg ∈ a.args, arg.Printable) :
    List.Forall₂ (Spells libc parseArg) (l.map (actionItem libc)) (l.map Action.toFn) := by
  rw [List.forall₂_map_left_iff, List.forall₂_map_right_iff, List.forall₂_same]
  exact fun a ha => spells_actionItem (h a ha).1 (h a ha).2

lemma reads_actionsField (hwrite : r.Writable) :
    Reads libc parseArg (actionsField libc r) (r.actions.map Action.toFn) := by
  have hspells := @forall₂_spells_actions libc parseArg _ (List.forall_mem_append.mp hwrite.calls).1
  unfold actionsField
  split_ifs
  · exact (reads_of_spells hspells).blank
  · have hreads := (reads_spaced hspells).blank
    rw [List.flatMap_map] at hreads
    exact hreads

lemma reads_undosField (hwrite : r.Writable) :
    Reads libc parseArg (undosField libc r) (r.undos.map Action.toFn) := by
  have hspells := @forall₂_spells_actions libc parseArg _ (List.forall_mem_append.mp hwrite.calls).2
  rw [undosField]
  split_ifs with hnil
  · rw [hnil]
    exact reads_of_spells .nil
  · exact (reads_of_spells hspells).blank

end Line

section Chunks
variable {line rest : List Char} {room : ℕ}

/-- No piece goes beyond a newline. -/
lemma fgetsLines_newline (hnew : '\n' ∉ line) (acc : List Char) :
    fgetsLines room acc (line ++ '\n' :: rest) =
      fgetsLines room acc (line ++ ['\n']) ++ fgetsLines lineRoom [] rest := by
  induction line generalizing room acc with
  | nil => simp [fgetsLines]
  | cons c line ih =>
    have ih := fun room acc => @ih room (fun h => hnew (List.mem_cons_of_mem _ h)) acc
    rw [List.cons_append, List.cons_append, fgetsLines, fgetsLines]
    split_ifs
    · rw [ih, List.cons_append]
    · rw [ih]

/-- A line that is short enough is read in one piece. -/
lemma fgetsLines_short {acc : List Char} (hne : acc ≠ [] ∨ line ≠ []) (hnew : '\n' ∉ line.dropLast)
    (hlen : line.length ≤ room) : fgetsLines room acc line = [acc ++ line] := by
  induction line generalizing room acc with
  | nil => rw [fgetsLines, if_neg (by simpa using hne), List.append_nil]
  | cons c line ih =>
    rw [List.length_cons] at hlen
    rw [fgetsLines]
    rcases List.eq_nil_or_concat' line with rfl | ⟨rest,x,rfl⟩
    · split_ifs <;> simp [fgetsLines]
    · rw [List.dropLast_cons_of_ne_nil (by simp), List.mem_cons, not_or] at hnew
      rw [List.length_append, List.length_singleton] at hlen
      have hc : ¬ (c = '\n' ∨ room ≤ 1) := by
        rintro (rfl | hroom)
        · exact hnew.1 rfl
        · omega
      rw [if_neg hc, ih (.inl (by simp)) hnew.2 (by simp; omega)]
      simp

/-- And what is behind its newline is read anew. -/
lemma fgetsLines_line (hnew : '\n' ∉ line) (hlen : line.length < room) (acc rest : List Char) :
    fgetsLines room acc (line ++ '\n' :: rest) = (acc ++ line ++ ['\n']) :: fgetsLines lineRoom [] rest := by
  have hlen' : (line ++ ['\n']).length ≤ room := by rwa [List.length_append]
  have hwhole := @fgetsLines_short _ _ acc (.inr (by simp)) (by simpa using hnew) hlen'
  rw [fgetsLines_newline hnew, hwhole, List.append_assoc, List.singleton_append]

/-- A newline in a piece is its end. -/
def LineEnd (chunk : List Char) : Prop := ∀ a b, chunk = a ++ '\n' :: b → b = []

lemma LineEnd.of_prefix {chunk : List Char} (h : LineEnd chunk) (hp : line <+: chunk) : LineEnd line := by
  rintro a b rfl
  obtain ⟨rest,rfl⟩ := hp
  have hnil := h a (b ++ rest) (by rw [List.append_assoc, List.cons_append])
  exact (List.append_eq_nil_iff.mp hnil).1

lemma LineEnd.tail {c : Char} (h : LineEnd (c :: line)) : LineEnd line := by
  rintro a b rfl
  exact h (c :: a) b rfl

lemma lineEnd_concat (h : '\n' ∉ line) (c : Char) : LineEnd (line ++ [c]) := by
  intro a b hab
  rcases List.eq_nil_or_concat b with rfl | ⟨b,x,rfl⟩
  · rfl
  · have hsplit : line ++ [c] = (a ++ '\n' :: b) ++ [x] := by rw [hab]; simp
    obtain ⟨rfl,-⟩ := List.append_inj' hsplit rfl
    simp at h

lemma lineEnd_fgetsLines {room : ℕ} {acc text : List Char} (hacc : '\n' ∉ acc) :
    ∀ chunk ∈ fgetsLines room acc text, LineEnd chunk := by
  induction text generalizing room acc with
  | nil =>
    intro chunk hchunk a b hab
    rw [fgetsLines] at hchunk
    split_ifs at hchunk with hnil
    · cases hchunk
    · obtain rfl := List.mem_singleton.mp hchunk
      rw [hab] at hacc
      simp at hacc
  | cons c text ih =>
    rw [fgetsLines]
    split_ifs with hc
    · rw [List.forall_mem_cons]
      exact ⟨lineEnd_concat hacc c,ih (by simp)⟩
    · apply ih
      rw [List.mem_append, List.mem_singleton]
      rintro (hmem | rfl)
      · exact hacc hmem
      · exact hc (.inl rfl)

/-- So no field of a piece holds a newline. -/
lemma newline_notMem_fields {q : Bool} {token : List Char} (hline : LineEnd line) (htoken : '\n' ∉ token) :
    ∀ field ∈ fields q token line, '\n' ∉ field := by
  induction line generalizing q token with
  | nil =>
    rw [fields]
    cases q with
    | false => simpa using htoken
    | true => simp
  | cons c line ih =>
    rw [fields]
    generalize (if c = '"' then !q else q) = q'
    split_ifs with hc
    · rw [List.forall_mem_cons]
      exact ⟨htoken,ih hline.tail (by simp)⟩
    · by_cases hnew : c = '\n'
      · -- the quotes are open at the end of the piece
        subst hnew
        obtain rfl := hline [] line rfl
        have hopen : q' = true := by simpa using hc
        simp [fields, hopen]
      · apply ih hline.tail
        rw [List.mem_append, List.mem_singleton]
        rintro (hmem | rfl)
        · exact htoken hmem
        · exact hnew rfl

end Chunks

section Names
variable {ε : Type} [DecidableEq ε] {libc : Libc} {reg : Registry ε} {s : Engine ε} {l l' : FileLoad ε}

lemma filed_kept (libc : Libc) (reg : Registry ε) : PolicyKept libc reg (Filed reg) where
  lookupVar _ _ h := { h with linked := h.linked.congr rfl rfl rfl }
  addVar _ _ _ _ _ _ h := { h with linked := h.linked.congr rfl rfl rfl }
  applyRule _ _ _ _ _ _ h happly := h.load happly

/-- A name as the reader leaves it: on one line, with nothing to chomp. -/
structure Chomped (id : List Char) : Prop where
  newline : '\n' ∉ id
  last : ∀ c ∈ id.getLast?, isGarbage c = false

lemma chomped_rdropWhile {token : List Char} (h : '\n' ∉ token) : Chomped (token.rdropWhile isGarbage) where
  newline hmem := h ((List.rdropWhile_prefix isGarbage token).subset hmem)
  last c hc := by
    obtain ⟨hne,rfl⟩ := List.mem_getLast?_eq_getLast hc
    simpa using List.rdropWhile_last_not isGarbage token hne

/-- A line brings in at most one rule, under a name that was chomped. -/
lemma parseLine_rules {chunk : List Char} (hl : Linked reg l.engine) (hchunk : LineEnd chunk)
    (h : parseLine libc reg l chunk = .ok l') : l'.engine.rules = l.engine.rules ∨
      ∃ q, l'.engine.rules = l.engine.rules ++ [q] ∧ Chomped q.id.toList := by
  rcases parseLine_cases h with heq | hvar | hrule
  · exact .inl (by rw [heq])
  · obtain ⟨d,-,hvar⟩ := bind_eq_ok.mp hvar
    dsimp only at hvar
    split_ifs at hvar
    · obtain ⟨why,-,hvar⟩ := bind_eq_ok.mp hvar
      obtain rfl := Except.ok.inj hvar
      exact .inl rfl
    · obtain rfl := Except.ok.inj hvar
      exact .inl rfl
  · obtain ⟨name,hname,hrule⟩ := bind_eq_ok.mp hrule
    obtain ⟨engine,hengine,hrule⟩ := bind_eq_ok.mp hrule
    obtain rfl := Except.ok.inj hrule
    obtain ⟨d,code,ht⟩ := parseRuleLogged_eq_ok hengine
    refine (parseRulePersistent_cases hl ht).symm.imp And.left ?_
    rintro ⟨q,hq,rfl,-⟩
    refine ⟨q,hq,?_⟩
    have hfields := @newline_notMem_fields _ false []
      (hchunk.of_prefix (List.takeWhile_prefix fun c => c ≠ '\x00')) (by simp)
    unfold fieldName at hname
    split at hname
    · cases hname
    · rename_i token rest htokens
      rw [htokens] at hfields
      obtain ⟨id,hid,hname⟩ := bind_eq_ok.mp hname
      obtain rfl := Option.some.inj (Except.ok.inj hname)
      unfold chomp at hid
      split_ifs at hid
      rw [← Except.ok.inj hid, String.toList_ofList]
      exact chomped_rdropWhile (hfields token List.mem_cons_self)

/-- The rules a file brings in have names that were chomped. -/
lemma parseConfigFromFile_names {file : List Char} {s' : Engine ε} {read : Bool} (hs : Filed reg s)
    (h : parseConfigFromFile libc reg s (some file) = .ok (read, s')) :
    ∀ q ∈ s'.rules, q ∈ s.rules ∨ Chomped q.id.toList := by
  obtain ⟨l,hl,h⟩ := bind_eq_ok.mp h
  have hmeets : Meets (parseLine libc reg) (fun _ chunk => LineEnd chunk) { engine := s }
      (fgetsLines lineRoom [] file) := Meets.of_forall (lineEnd_fgetsLines (by simp)) _
  obtain ⟨-,hnames⟩ := hmeets.invariant
    (I := fun l : FileLoad ε => Filed reg l.engine ∧ ∀ q ∈ l.engine.rules, q ∈ s.rules ∨ Chomped q.id.toList)
    (by
      rintro l chunk l' ⟨hfiled,hnames⟩ hchunk hstep
      refine ⟨(filed_kept libc reg).parseLine hfiled hstep,?_⟩
      rcases parseLine_rules hfiled.linked hchunk hstep with heq | ⟨q,heq,hq⟩
      · rw [heq]
        exact hnames
      · rw [heq, List.forall_mem_append, List.forall_mem_singleton]
        exact ⟨hnames,.inr hq⟩)
    ⟨hs,fun q hq => .inl hq⟩ hl
  split_ifs at h
  obtain ⟨-,rfl⟩ := Prod.mk.inj (Except.ok.inj h)
  exact hnames

end Names

section Characters
variable {ε : Type} {libc : Libc} {r : Rule ε} {c : Char}

/-- What the printer puts around names and strings. -/
def isPunctuation (c : Char) : Bool := c ∈ [' ', '|', '(', ')', '!', '"', '$']

/-- A character of a printed value is punctuation, belongs to a word or a number, or to the string. -/
lemma notMem_argToString {arg : Arg} (h : arg.Printable) (hpunct : isPunctuation c = false)
    (hword : isAlphanumeric_ c = false) (hdigit : isDigitOrMinus c = false)
    (hstr : ∀ s, arg = .str s → c ∉ s.toList) : c ∉ (argToString libc arg).toList := by
  intro hc
  cases arg with
  | int i =>
    rw [isDigitOrMinus_of_mem_toString hc] at hdigit
    cases hdigit
  | bool b =>
    cases b with
    | false =>
      obtain rfl : c = 'f' := by simpa [argToString] using hc
      cases hword
    | true =>
      obtain rfl : c = 't' := by simpa [argToString] using hc
      cases hword
  | str s =>
    simp only [argToString, String.toList_append, List.mem_append] at hc
    rcases hc with (hc | hc) | hc
    · obtain rfl : c = '"' := by simpa using hc
      cases hpunct
    · exact hstr s rfl hc
    · obtain rfl : c = '"' := by simpa using hc
      cases hpunct
  | var name =>
    simp only [argToString, String.toList_append, List.mem_append] at hc
    rcases hc with hc | hc
    · obtain rfl : c = '$' := by simpa using hc
      cases hpunct
    · rw [h.word c hc] at hword
      cases hword
  | float bits => exact h
  | none => exact h

/-- A character the printer does not use itself is in a line only if a name or a string brings it in. -/
lemma notMem_ruleToString (hwrite : r.Writable) (hpunct : isPunctuation c = false)
    (hword : isAlphanumeric_ c = false) (hdigit : isDigitOrMinus c = false) (hid : c ∉ r.id.toList)
    (hstr : ∀ call ∈ r.calls, ∀ s, Arg.str s ∈ call.2.1 → c ∉ s.toList) :
    c ∉ (ruleToString libc r).toList := by
  obtain ⟨hconds,hcalls⟩ := List.forall_mem_append.mp hstr
  rw [List.forall_mem_map] at hconds hcalls
  have hmarks : ∀ m ∈ [' ', '|', '(', ')', '!'], c ≠ m := by
    rintro m hm rfl
    simp only [isPunctuation, decide_eq_false_iff_not] at hpunct
    exact hpunct (List.mem_append_left ['"', '$'] hm)
  simp only [List.forall_mem_cons] at hmarks
  obtain ⟨hblank,hbar,hopen,hclose,hnot,-⟩ := hmarks
  have hcall : ∀ (name : String) (args : List Arg), IsName name → (∀ arg ∈ args, arg.Printable) →
      (∀ s, Arg.str s ∈ args → c ∉ s.toList) → c ∉ printCall libc name args := by
    intro name args hname hargs hstrs
    have hin : c ∉ [' '].intercalate (args.map fun arg => (argToString libc arg).toList) := by
      apply notMem_intercalate (by simpa using hblank)
      rw [List.forall_mem_map]
      intro arg harg
      exact notMem_argToString (hargs arg harg) hpunct hword hdigit fun s he => hstrs s (he ▸ harg)
    have hname' : c ∉ name.toList := by
      intro hc
      rw [hname.word c hc] at hword
      cases hword
    simp [printCall, hname', hin, hopen, hclose, hblank]
  have hcondition : c ∉ r.conditions.flatMap (printCondition libc) := by
    rw [List.mem_flatMap]
    rintro ⟨q,hq,hc⟩
    obtain ⟨hname,hargs⟩ := hwrite.conditions q hq
    rcases List.mem_append.mp hc with hc | hc
    · split_ifs at hc
      · exact hnot (List.mem_singleton.mp hc)
      · cases hc
    · exact hcall _ _ hname hargs (hconds q hq) hc
  have haction : ∀ l : List Action, (∀ a ∈ l, a ∈ r.actions ++ r.undos) → c ∉ l.flatMap (printAction libc) := by
    intro l hl
    rw [List.mem_flatMap]
    rintro ⟨a,ha,hc⟩
    obtain ⟨hname,hargs⟩ := hwrite.calls a (hl a ha)
    exact hcall _ _ hname hargs (hcalls a (hl a ha)) hc
  rw [ruleToString, String.toList_ofList]
  intro hc
  have hmem := List.dropLast_subset _ hc
  simp only [List.mem_append, List.mem_cons, List.not_mem_nil, or_false] at hmem
  rcases hmem with ((((hmem | hmem) | hmem) | hmem) | hmem) | hmem
  · exact hid hmem
  · exact hmem.elim hblank fun h => h.elim hbar hblank
  · exact hcondition hmem
  · exact hmem.elim hbar hblank
  · exact haction r.actions (fun a ha => List.mem_append_left _ ha) hmem
  · split_ifs at hmem
    · cases hmem
    · simp only [List.mem_append, List.mem_cons, List.not_mem_nil, or_false] at hmem
      rcases hmem with hmem | hmem
      · exact hmem.elim hbar hblank
      · exact haction r.undos (fun a ha => List.mem_append_right _ ha) hmem

lemma mem_itemText {name : String} {args : List Arg} {text : String} (h : .str text ∈ args) (hc : c ∈ text.toList) :
    c ∈ itemText libc name args := by
  have harg : c ∈ (argToString libc (.str text)).toList := by simp [argToString, hc]
  have hargs : c ∈ [' '].intercalate (args.map fun arg => (argToString libc arg).toList) :=
    mem_intercalate [' '] (List.mem_map_of_mem h) harg
  simp [itemText, hargs]

/-- The name and the strings of a rule are in its line. -/
lemma mem_ruleToString (hcalls : ¬ (r.actions = [] ∧ r.undos = []))
    (h : c ∈ r.id.toList ∨ ∃ call ∈ r.calls, ∃ text, Arg.str text ∈ call.2.1 ∧ c ∈ text.toList) :
    c ∈ (ruleToString libc r).toList := by
  rw [toList_ruleToString hcalls]
  rcases h with hid | ⟨call,hcall,text,harg,hc⟩
  · simp [hid]
  have hspaced : ∀ (l : List Action), ∀ a ∈ l, Arg.str text ∈ a.args → c ∈ l.flatMap fun a => actionItem libc a ++ [' '] :=
    fun l a ha harg => List.mem_flatMap.mpr ⟨a,ha,List.mem_append_left _ (mem_itemText harg hc)⟩
  have hjoined : ∀ (l : List Action), ∀ a ∈ l, Arg.str text ∈ a.args → c ∈ [' '].intercalate (l.map (actionItem libc)) :=
    fun l a ha harg => mem_intercalate [' '] (List.mem_map_of_mem ha) (mem_itemText harg hc)
  rw [Rule.calls, List.mem_append, List.mem_map, List.mem_map] at hcall
  rcases hcall with ⟨q,hq,rfl⟩ | ⟨a,ha,rfl⟩
  · have hcond : c ∈ conditionsField libc r := by
      refine List.mem_cons_of_mem _ (List.mem_flatMap.mpr ⟨q,hq,List.mem_append_left _ ?_⟩)
      exact List.mem_append_right _ (mem_itemText harg hc)
    simp [hcond]
  · by_cases hundos : r.undos = []
    · have hact : c ∈ actionsField libc r := by
        rw [actionsField, if_pos hundos]
        exact List.mem_cons_of_mem _ (hjoined _ a (by simpa [hundos] using ha) harg)
      simp [hact]
    · rcases List.mem_append.mp ha with ha | ha
      · have hact : c ∈ actionsField libc r := by
          rw [actionsField, if_neg hundos]
          exact List.mem_cons_of_mem _ (hspaced _ a ha harg)
        simp [hact]
      · have hund : c ∈ undosField libc r := by
          rw [undosField, if_neg hundos]
          exact List.mem_cons_of_mem _ (hjoined _ a ha harg)
        simp [hundos, hund]

lemma null_notMem_strings (hwrite : r.Writable) :
    ∀ call ∈ r.calls, ∀ text, Arg.str text ∈ call.2.1 → '\x00' ∉ text.toList := by
  have hargs : ∀ call ∈ r.calls, ∀ arg ∈ call.2.1, arg.Printable := by
    rw [Rule.calls, List.forall_mem_append, List.forall_mem_map, List.forall_mem_map]
    exact ⟨fun c hc => (hwrite.conditions c hc).2,fun a ha => (hwrite.calls a ha).2⟩
  intro call hcall text htext hnull
  have hp : IsText text := hargs call hcall _ htext
  cases hp.unquoted _ hnull

end Characters

section Loading
variable {ε : Type} [DecidableEq ε] {libc : Libc} {reg : Registry ε} {s s' : Engine ε} {r : Rule ε}

/-- The rules of a daemon were read by the parser. -/
structure Read (reg : Registry ε) (s : Engine ε) : Prop where
  filed : Filed reg s
  sourced : ∀ r ∈ s.rules, r.Sourced reg

lemma Read.withVars (h : Read reg s) (vars : VarStore) : Read reg (s.withVars vars) where
  filed := h.filed.congr (h.filed.linked.congr rfl rfl rfl) rfl
  sourced := h.sourced

lemma read_kept (libc : Libc) (reg : Registry ε) : PolicyKept libc reg (Read reg) where
  lookupVar _ _ h := h.withVars _
  addVar _ _ _ _ _ _ h := h.withVars _
  applyRule s parsed s' code err hparsed h happly := by
    have hb : Built reg s (buildRule reg s parsed) := built_buildRule s parsed
    refine ⟨h.filed.load happly,?_⟩
    rcases applyRule_spec h.filed.linked happly with ⟨-,-,vars',-,-,rfl,-⟩ | ⟨-,-,vars,-,-,rfl,-⟩
    · rw [loadedWith, hb.rules, List.forall_mem_append, List.forall_mem_singleton]
      exact ⟨h.sourced,sourced_buildRule hparsed s⟩
    · rw [rejectedWith, hb.rules]
      exact h.sourced

lemma Read.serve {d d' : Daemon ε} {rpc : Rpc} (h : Read reg d.engine) (hstep : serve libc reg d rpc = .ok d') :
    Read reg d'.engine := by
  apply serve_keeps (read_kept libc reg) (fun _ ht => ht.filed.linked) _ _ _ h _ hstep
  · intro t q vars ht hq hvars
    exact ⟨ht.filed.without q vars,fun q' hq' => ht.sourced q' (mem_rules_without hq').1⟩
  · exact fun t name ht => ht.withVars _
  · exact fun t ht _ => ht.withVars _
  · exact fun _ => h.withVars _

lemma read_run {value : ε → Value} {rpcs : List Rpc} {d : Daemon ε}
    (h : Machine.perform (Xcpmd.serve libc reg) (Daemon.start value) rpcs = .ok d) : Read reg d.engine :=
  perform_invariant (I := fun d : Daemon ε => Read reg d.engine) (fun _ _ _ ht hstep => ht.serve hstep)
    ⟨filed_start value _,by simp [Daemon.start, Engine.start]⟩ h

/-- A rule that is put in has passed the check of its arguments. -/
lemma parseRulePersistent_checked (hs : Linked reg s) {varMap : VarMap}
    {name conditions actions undos : Option String} {d : ParseData} {code : ℕ} {q : Rule ε}
    (h : parseRulePersistent libc reg s varMap name conditions actions undos = .ok (s', d, code))
    (hq : s'.rules = s.rules ++ [q]) : (checkAll reg.parseArg s.vars q.calls).1 = none := by
  have hlist : s.rules ≠ s.rules ++ [q] := by simp
  obtain ⟨p,hp,⟨-,rfl,-⟩ | ⟨parsed,-,-,err,text,ht,-⟩⟩ := parseRulePersistent_eq_ok h
  · exact absurd hq hlist
  · have hfound : p.vars.foundType reg.parseArg = s.vars.foundType reg.parseArg :=
      (parseTexts_keeps (P := fun v => v.foundType reg.parseArg = s.vars.foundType reg.parseArg)
        (fun _ m hv => (foundType_lookupVar m).trans hv) rfl hp).1
    have hlinked : Linked reg (s.withVars p.vars) := hs.congr rfl rfl rfl
    have hb : Built reg (s.withVars p.vars) (buildRule reg (s.withVars p.vars) parsed) := built_buildRule _ _
    rcases applyRule_spec hlinked ht with ⟨why,vars,vars',hv,-,rfl,-⟩ | ⟨ruleErr,why,vars,-,-,rfl,-⟩
    · rw [loadedWith, hb.rules] at hq
      obtain rfl := List.singleton_injective (List.append_cancel_left hq)
      obtain ⟨-,-,-,-,hcheck⟩ := validateRule_eq_valid hv
      have hvars : (buildRule reg (s.withVars p.vars) parsed).engine.vars = p.vars := hb.vars
      rw [hvars] at hcheck
      rw [← checkAll_fst hfound, hcheck]
    · rw [rejectedWith, hb.rules] at hq
      exact absurd hq hlist

/-- What is asked of a rule that is printed: a name without bars and quotes, no floats, no newlines in its
strings, and a line that fits into the buffer. -/
structure Rule.Printed (libc : Libc) (r : Rule ε) : Prop where
  id : ∀ c ∈ r.id.toList, c ≠ '"' ∧ c ≠ '|' ∧ c ≠ '\x00'
  floatFree : r.FloatFree
  strings : ∀ call ∈ r.calls, ∀ text, Arg.str text ∈ call.2.1 → '\n' ∉ text.toList
  length : (ruleToString libc r).toList.length < lineRoom

/-- The reader takes the rule's line for one of a rule, with all of its name. -/
structure Rule.Legible (r : Rule ε) : Prop where
  comment : r.id.toList.head? ≠ some '#'
  separator : '=' ∉ r.id.toList ∧ ∀ call ∈ r.calls, ∀ text, Arg.str text ∈ call.2.1 → '=' ∉ text.toList
  name : Chomped r.id.toList

/-- The rule is read back: one of its shape is put behind the others. -/
def LoadsBack (libc : Libc) (reg : Registry ε) (s : Engine ε) (r : Rule ε) : Prop :=
  ∃ s' r', parseConfigFromFile libc reg s (some (ruleFile libc r)) = .ok (true, s') ∧
    s'.rules = s.rules ++ [r'] ∧ r'.shape = r.shape

/-- Behind the separator, what happens to the file is what happens to the line. -/
lemma parseConfigFromFile_ruleFile (hnew : '\n' ∉ (ruleToString libc r).toList)
    (hlen : (ruleToString libc r).toList.length < lineRoom) :
    parseConfigFromFile libc reg s (some (ruleFile libc r)) =
      parseLine libc reg { engine := s, inVarSection := false } ((ruleToString libc r).toList ++ ['\n']) >>=
        fun l => if l.skipping then .error .loop else .ok (true, l.engine) := by
  have hsep : parseLine libc reg { engine := s } ['=', '\n'] = .ok { engine := s, inVarSection := false } := by
    simp [parseLine, isBlank]
  have hchunks : fgetsLines lineRoom [] (ruleFile libc r) =
      [['=', '\n'], (ruleToString libc r).toList ++ ['\n']] := by
    have hfirst := @fgetsLines_line ['='] lineRoom (by simp) (by simp [lineRoom]) []
      ((ruleToString libc r).toList ++ ['\n'])
    rw [fgetsLines_line hnew hlen] at hfirst
    simpa [ruleFile, fgetsLines] using hfirst
  rw [parseConfigFromFile, hchunks, List.foldlM_cons, hsep, ok_bind, List.foldlM_cons]
  cases parseLine libc reg { engine := s, inVarSection := false } ((ruleToString libc r).toList ++ ['\n']) with
  | error e => rfl
  | ok l => rfl

/-- The line of a legible rule is one of the rules' section. -/
lemma parseLine_ruleToString (hcalls : ¬ (r.actions = [] ∧ r.undos = [])) (hid : r.id ≠ "")
    (hnull : '\x00' ∉ (ruleToString libc r).toList) :
    parseLine libc reg { engine := s, inVarSection := false } ((ruleToString libc r).toList ++ ['\n']) =
      if r.id.toList.head? = some '#' then .ok { engine := s, inVarSection := false }
      else if '=' ∈ (ruleToString libc r).toList then .ok { engine := s, inVarSection := false }
      else parseRuleLine libc reg { engine := s, inVarSection := false }
        ((ruleToString libc r).toList ++ ['\n']) := by
  have hcstr : ((ruleToString libc r).toList ++ ['\n']).takeWhile (fun c => c ≠ '\x00') =
      (ruleToString libc r).toList ++ ['\n'] := by
    rw [List.takeWhile_eq_self_iff]
    intro c hc
    rcases List.mem_append.mp hc with hc | hc
    · simpa using fun he : c = '\x00' => hnull (he ▸ hc)
    · rw [List.mem_singleton.mp hc]
      rfl
  have hline := @toList_ruleToString ε libc r hcalls
  have hhead : ((ruleToString libc r).toList ++ ['\n']).head? = r.id.toList.head? := by
    have hne : r.id.toList ≠ [] := by simpa using hid
    obtain ⟨c,cs,hcs⟩ := List.exists_cons_of_ne_nil hne
    rw [hline, hcs]
    rfl
  have hvisible : ((ruleToString libc r).toList ++ ['\n']).all isBlank = false := by
    rw [List.all_eq_false]
    refine ⟨'|',?_,by decide⟩
    rw [hline]
    simp
  unfold parseLine
  simp only [hcstr, hhead, hvisible]
  simp

lemma chomp_blank {id : String} (hid : id ≠ "") (hname : Chomped id.toList) : chomp (id.toList ++ [' ']) = .ok id := by
  have hne : id.toList ≠ [] := by simpa using hid
  have hlast : isGarbage (id.toList.getLast hne) = false :=
    hname.last _ (by rw [List.getLast?_eq_some_getLast hne]; rfl)
  have hall : ¬ (id.toList ++ [' ']).all isGarbage = true := by
    rw [List.all_eq_true]
    intro h
    have hmem := h _ (List.mem_append_left _ (List.getLast_mem hne))
    rw [hlast] at hmem
    cases hmem
  rw [chomp, if_neg hall, List.rdropWhile_concat_pos _ _ _ (by decide), List.rdropWhile_eq_self_iff.mpr,
    String.ofList_toList]
  intro _
  simp [hlast]

/-- A line of the rules' section is read as the rule that was printed. -/
lemma parseRuleLine_ruleToString {l : FileLoad ε} (hacc : r.Acceptable reg l.engine) (hreg : r.Registered reg)
    (hwrite : r.Writable) (hchars : ∀ c ∈ r.id.toList, c ≠ '"' ∧ c ≠ '|' ∧ c ≠ '\n')
    (hnull : '\x00' ∉ (ruleToString libc r).toList) (hname : Chomped r.id.toList) :
    ∃ s' r', parseRuleLine libc reg l ((ruleToString libc r).toList ++ ['\n']) = .ok { l with engine := s' } ∧
      s'.rules = l.engine.rules ++ [r'] ∧ r'.shape = r.shape := by
  obtain ⟨rest,hfields⟩ := @fields_ruleToString ε libc r hwrite hacc.calls hchars
  rw [toList_ruleToString hacc.calls] at hnull
  have hcstr : ∀ field : List Char, '\x00' ∉ field → cstr (some (String.ofList field)) = field := by
    intro field hfield
    rw [cstr, Option.getD_some, String.toList_ofList, List.takeWhile_eq_self_iff]
    intro c hc
    simpa using fun he : c = '\x00' => hfield (he ▸ hc)
  have hcond : '\x00' ∉ conditionsField libc r := fun h => hnull (by simp [h])
  have hact : '\x00' ∉ actionsField libc r := fun h => hnull (by simp [h])
  have hund : '\x00' ∉ undosField libc r := by
    intro h
    apply hnull
    by_cases hnil : r.undos = []
    · rw [undosField, if_pos hnil] at h
      cases h
    · simp [hnil, h]
  obtain ⟨d,hparse,-,happlied,hmessage,hvars⟩ := @parseTexts_of_reads libc reg.parseArg l.varMap l.engine.vars
    (some (String.ofList (conditionsField libc r))) (some (String.ofList (actionsField libc r)))
    (some (String.ofList (undosField libc r))) _ _ _
    (by rw [hcstr _ hcond]; exact reads_conditionsField hwrite)
    (by rw [hcstr _ hact]; exact reads_actionsField hwrite)
    (by rw [hcstr _ hund]; exact reads_undosField hwrite) (hacc.resolved l.varMap)
  obtain ⟨s',d',r',hpersistent,hret,hrules,hshape,-⟩ := parseRulePersistent_parsed hacc hreg hwrite hparse
    (by rw [happlied]; simp [Rule.parsed]) hmessage hvars
  refine ⟨s',r',?_,hrules,hshape⟩
  have hlogged : parseRuleLogged libc reg l.engine l.varMap (some r.id)
      (some (String.ofList (conditionsField libc r))) (some (String.ofList (actionsField libc r)))
      (some (String.ofList (undosField libc r))) = .ok s' := by
    rw [parseRuleLogged, hpersistent, ok_bind]
    simp [hret]
  rw [parseRuleLine, hfields]
  simp only [fieldName, chomp_blank hacc.id hname, ok_bind, pure_bind, List.getElem?_cons_succ,
    List.getElem?_cons_zero, Option.map_some, hlogged]
  rfl

/-- A loaded rule, printed as a line behind the separator of a policy file, is loaded back from there with
the same name, conditions, actions and undos if and only if its variables have values of the right types
there, its name does not start a comment and ends in what is not chomped, and neither its name nor one of
its strings holds the separator. -/
theorem printed_rule_loads_back {value₀ value : ε → Value} {rpcs₀ rpcs : List Rpc} {d₀ d : Daemon ε}
    (h₀ : Machine.perform (Xcpmd.serve libc reg) (Daemon.start value₀) rpcs₀ = .ok d₀)
    (hr : r ∈ d₀.engine.rules) (hprinted : r.Printed libc)
    (h : Machine.perform (Xcpmd.serve libc reg) (Daemon.start value) rpcs = .ok d)
    (hfresh : ∀ q ∈ d.engine.rules, q.id ≠ r.id) :
    LoadsBack libc reg d.engine r ↔
      r.Legible ∧ (checkAll reg.parseArg d.engine.vars r.calls).1 = none := by
  have hread := read_run h₀
  have hd := read_run h
  have hid := hread.filed.id_ne_empty r hr
  have hcalls : ¬ (r.actions = [] ∧ r.undos = []) := by
    rintro ⟨hactions,hundos⟩
    exact (hread.filed.calls r hr).elim (fun hne => hne hactions) fun hne => hne hundos
  have hsourced := hread.sourced r hr
  have hwrite := hsourced.writable hprinted.floatFree
  have hnull : '\x00' ∉ (ruleToString libc r).toList :=
    notMem_ruleToString hwrite rfl rfl rfl (fun hc => (hprinted.id _ hc).2.2 rfl) (null_notMem_strings hwrite)
  have hnew : Chomped r.id.toList → '\n' ∉ (ruleToString libc r).toList := fun hname =>
    notMem_ruleToString hwrite rfl rfl rfl hname.newline hprinted.strings
  constructor
  · rintro ⟨s',r',hload,hrules,hshape⟩
    have hid' : r'.id = r.id := congrArg RuleShape.id hshape
    have hmem : r' ∈ s'.rules := by simp [hrules]
    have hname : Chomped r.id.toList := by
      rw [← hid']
      exact (parseConfigFromFile_names hd.filed hload r' hmem).resolve_left fun hold => hfresh r' hold hid'
    rw [parseConfigFromFile_ruleFile (hnew hname) hprinted.length, parseLine_ruleToString hcalls hid hnull] at hload
    have hstay : ¬ d.engine.rules = d.engine.rules ++ [r'] := by simp
    split_ifs at hload with hcomment hsep
    · obtain ⟨-,rfl⟩ := Prod.mk.inj (Except.ok.inj hload)
      exact absurd hrules hstay
    · obtain ⟨-,rfl⟩ := Prod.mk.inj (Except.ok.inj hload)
      exact absurd hrules hstay
    · have hequals : '=' ∉ r.id.toList ∧ ∀ call ∈ r.calls, ∀ text, Arg.str text ∈ call.2.1 → '=' ∉ text.toList :=
        ⟨fun hc => hsep (mem_ruleToString hcalls (.inl hc)),
          fun call hcall text harg hc => hsep (mem_ruleToString hcalls (.inr ⟨call,hcall,text,harg,hc⟩))⟩
      refine ⟨⟨hcomment,hequals,hname⟩,?_⟩
      obtain ⟨l,hl,hload⟩ := bind_eq_ok.mp hload
      obtain ⟨token,-,hl⟩ := bind_eq_ok.mp hl
      obtain ⟨engine,hengine,hl⟩ := bind_eq_ok.mp hl
      obtain rfl := Except.ok.inj hl
      obtain ⟨-,rfl⟩ := Prod.mk.inj (Except.ok.inj hload)
      obtain ⟨p,code,ht⟩ := parseRuleLogged_eq_ok hengine
      rw [← calls_of_shape hshape]
      exact parseRulePersistent_checked hd.filed.linked ht hrules
  · rintro ⟨hlegible,hchecked⟩
    have hacc : r.Acceptable reg d.engine :=
      ⟨hid,hfresh,hread.filed.linked.conditions_ne_nil r hr,hcalls,hchecked⟩
    have hchars : ∀ c ∈ r.id.toList, c ≠ '"' ∧ c ≠ '|' ∧ c ≠ '\n' := by
      intro c hc
      obtain ⟨hquote,hbar,-⟩ := hprinted.id c hc
      refine ⟨hquote,hbar,?_⟩
      rintro rfl
      exact hlegible.name.newline hc
    obtain ⟨s',r',hline,hrules,hshape⟩ := parseRuleLine_ruleToString
      (l := { engine := d.engine, inVarSection := false }) hacc hsourced.toRegistered hwrite hchars hnull
      hlegible.name
    have hequals : '=' ∉ (ruleToString libc r).toList :=
      notMem_ruleToString hwrite rfl rfl rfl hlegible.separator.1 hlegible.separator.2
    refine ⟨s',r',?_,hrules,hshape⟩
    rw [parseConfigFromFile_ruleFile (hnew hlegible.name) hprinted.length, parseLine_ruleToString hcalls hid hnull,
      if_neg hlegible.comment, if_neg hequals, hline, ok_bind]
    rfl

end Loading

/-- What is seen of the rules of a daemon: the names, the items and the printed lines. -/
structure Printout where
  names : List String
  calls : List (String × List Arg × String)
  lines : List String
  deriving DecidableEq

def Daemon.printout (d : Daemon EventId) : Printout :=
  ⟨d.engine.rules.map Rule.id, d.engine.rules.flatMap Rule.calls, d.engine.rules.map (ruleToString zeroLibc)⟩

lemma Daemon.printout_singleton {d : Daemon EventId} {id line : String}
    {calls : List (String × List Arg × String)} (h : d.printout = ⟨[id], calls, [line]⟩) :
    ∃ r, d.engine.rules = [r] ∧ r.id = id ∧ r.calls = calls ∧ ruleToString zeroLibc r = line := by
  obtain ⟨hids,hcalls,hlines⟩ := Printout.mk.inj h
  obtain ⟨r,hrules,hid⟩ := List.map_eq_singleton_iff.mp hids
  rw [hrules] at hcalls hlines
  exact ⟨r,hrules,hid,by simpa using hcalls,by simpa using hlines⟩

/-- A rule on a variable is printed and loaded into a daemon that has the variable. -/
theorem printed_rule_loads_back_low : ∃ d₀ r d, zeroRun lowRpcs = .ok d₀ ∧ r ∈ d₀.engine.rules ∧
    zeroRun [.addVar "low" "10"] = .ok d ∧ LoadsBack zeroLibc zeroRegistry d.engine r := by
  have hrun₀ : (zeroRun lowRpcs).toOption.map Daemon.printout = some ⟨["r"],
      [("i", [.var "low"], " for condition whileOverallBattLessThan"), ("n", [], " for action doNothing")],
      ["r | whileOverallBattLessThan($low) | doNothing()"]⟩ := by decide +kernel
  have hrun : (zeroRun [.addVar "low" "10"]).toOption.map (fun d => (d.engine.rules.map Rule.id,
      (checkAll zeroRegistry.parseArg d.engine.vars
        [("i", [.var "low"], " for condition whileOverallBattLessThan"), ("n", [], " for action doNothing")]).1)) =
      some ([], none) := by decide +kernel
  obtain ⟨d₀,hd₀,hlines⟩ := map_toOption_eq_some.mp hrun₀
  obtain ⟨d,hd,hseen⟩ := map_toOption_eq_some.mp hrun
  obtain ⟨hnil,hcheck⟩ := Prod.mk.inj hseen
  obtain ⟨r,hrules,hid,hcalls,hline⟩ := Daemon.printout_singleton hlines
  have hmem : r ∈ d₀.engine.rules := by simp [hrules]
  have hprinted : r.Printed zeroLibc := by
    refine ⟨?_,?_,?_,?_⟩
    · simp [hid]
    · simp [Rule.FloatFree, hcalls, Arg.type]
    · simp [hcalls]
    · rw [hline]
      decide
  have hlegible : r.Legible := by
    refine ⟨?_,⟨?_,?_⟩,?_,?_⟩
    · simp [hid]
    · simp [hid]
    · simp [hcalls]
    · simp [hid]
    · simp [hid, isGarbage]
  have hiff := printed_rule_loads_back hd₀ hmem hprinted hd (by simp [List.map_eq_nil_iff.mp hnil])
  exact ⟨d₀,r,d,hd₀,hmem,hd,hiff.mpr ⟨hlegible,by rw [hcalls]; exact hcheck⟩⟩

/-- A rule with an equals sign in a string. -/
def equalsRpcs : List Rpc :=
  [.addRule (some []) "r" "whileOverallBattLessThan(10)" "logString(\"a=b\")" ""]

/-- Its line is taken for the separator of the sections, and no rule is loaded from it. -/
theorem printed_rule_is_separator : ∃ d₀ r d, zeroRun equalsRpcs = .ok d₀ ∧ r ∈ d₀.engine.rules ∧
    r.id = "r" ∧ r.Printed zeroLibc ∧ zeroRun [] = .ok d ∧ d.engine.rules = [] ∧
    ¬ LoadsBack zeroLibc zeroRegistry d.engine r := by
  have hrun₀ : (zeroRun equalsRpcs).toOption.map Daemon.printout = some ⟨["r"],
      [("i", [.int 10], " for condition whileOverallBattLessThan"), ("s", [.str "a=b"], " for action logString")],
      ["r | whileOverallBattLessThan(10) | logString(\"a=b\")"]⟩ := by decide +kernel
  have hload : (parseConfigFromFile zeroLibc zeroRegistry (Daemon.start EventId.resetValue).engine (some
      ("=\nr | whileOverallBattLessThan(10) | logString(\"a=b\")\n".toList))).toOption.map
        (fun p => p.2.rules.map Rule.id) = some [] := by decide +kernel
  obtain ⟨d₀,hd₀,hlines⟩ := map_toOption_eq_some.mp hrun₀
  obtain ⟨⟨read,s⟩,hs,hnil⟩ := map_toOption_eq_some.mp hload
  obtain ⟨r,hrules,hid,hcalls,hline⟩ := Daemon.printout_singleton hlines
  have hprinted : r.Printed zeroLibc := by
    refine ⟨?_,?_,?_,?_⟩
    · simp [hid]
    · simp [Rule.FloatFree, hcalls, Arg.type]
    · simp [hcalls]
    · rw [hline]
      decide
  have hstart : zeroRun [] = .ok (Daemon.start EventId.resetValue) := rfl
  have hempty : (Daemon.start EventId.resetValue).engine.rules = [] := rfl
  refine ⟨d₀,r,_,hd₀,by simp [hrules],hid,hprinted,hstart,hempty,?_⟩
  rintro ⟨s',r',hload',hrules',-⟩
  rw [ruleFile, hline] at hload'
  have hsame : s' = s := (Prod.mk.inj (Except.ok.inj (hload'.symm.trans hs))).2
  rw [hsame, List.map_eq_nil_iff.mp hnil] at hrules'
  simp at hrules'

end Xctools.Xcpmd
