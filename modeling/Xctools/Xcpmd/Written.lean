import Xctools.Xcpmd.Acceptance
import Xctools.Xcpmd.Formed

/-! What is written in a text. A text spells items with their arguments, and at every position the machine has
come to, the part of an item that has been read is spelled by what stands before it. The accumulators hold that
part as long as the machine runs. -/
namespace Xctools.Xcpmd
open Machine

section Texts

/-- An argument as it is written, without the dollar sign and the quotes. -/
inductive WrittenArg
  | var (name : List Char)
  | int (digits : List Char)
  | float (digits : List Char)
  | str (text : List Char)
  | bool (letter : Char)
  deriving DecidableEq, Repr

/-- An item as it is written. -/
structure WrittenItem where
  inverted : Bool := false
  name : List Char
  args : List WrittenArg
  deriving DecidableEq, Repr

/-- A digit or a minus, and digits behind it. -/
def IsInt (text : List Char) : Prop :=
  ∃ c digits, text = c :: digits ∧ isDigitOrMinus c = true ∧ ∀ c ∈ digits, isDigit c = true

/-- An integer, a point, and digits behind it. -/
def IsFloat (text : List Char) : Prop :=
  ∃ whole digits, text = whole ++ '.' :: digits ∧ IsInt whole ∧ digits ≠ [] ∧ ∀ c ∈ digits, isDigit c = true

def IsWord (text : List Char) : Prop := text ≠ [] ∧ ∀ c ∈ text, isAlphanumeric_ c = true

def WrittenArg.text : WrittenArg → List Char
  | var name => '$' :: name
  | int digits | float digits => digits
  | str text => '"' :: text ++ ['"']
  | bool letter => [letter]

def WrittenArg.WellFormed : WrittenArg → Prop
  | var name => ∀ c ∈ name, isAlphanumeric_ c = true
  | int digits => IsInt digits
  | float digits => IsFloat digits
  | str text => ∀ c ∈ text, isNotDblQuoteOrNull c = true
  | bool letter => isTrue letter = true ∨ isFalse letter = true

def bang (inverted : Bool) : List Char := if inverted then ['!'] else []

/-- Arguments, each with a space behind it. -/
inductive ArgsSpelled : List WrittenArg → List Char → Prop
  | nil : ArgsSpelled [] []
  | arg {args text a} : ArgsSpelled args text → a.WellFormed → ArgsSpelled (args ++ [a]) (text ++ (a.text ++ [' ']))

/-- What stands between parentheses. The last argument may do without the space, and as a float without digits
behind the point. -/
inductive BodySpelled : List WrittenArg → List Char → Prop
  | spaced {args text} : ArgsSpelled args text → BodySpelled args text
  | last {args text a} : ArgsSpelled args text → a.WellFormed → BodySpelled (args ++ [a]) (text ++ a.text)
  | point {args text whole} : ArgsSpelled args text → IsInt whole →
    BodySpelled (args ++ [.float (whole ++ ['.'])]) (text ++ (whole ++ ['.']))

/-- An item may stand behind a text. -/
def Ready (text : List Char) : Prop := text = [] ∨ ∃ t, text = t ++ [' ']

/-- Items with spaces between them, and spaces around. -/
inductive Spelled : List WrittenItem → List Char → Prop
  | nil : Spelled [] []
  | space {items text} : Spelled items text → Spelled items (text ++ [' '])
  | item {items text body} {w : WrittenItem} : Spelled items text → Ready text → IsWord w.name →
    BodySpelled w.args body →
    Spelled (items ++ [w]) (text ++ (bang w.inverted ++ (w.name ++ '(' :: (body ++ [')']))))

end Texts

section Positions

/-- What has been read: the items before, and of the next item the exclamation mark, the name, the arguments before,
and part of an argument. -/
structure Draft where
  items : List WrittenItem := []
  inverted : Bool := false
  name : List Char := []
  args : List WrittenArg := []
  arg : Option WrittenArg := none

/-- The item that ends here. -/
def Draft.item (D : Draft) : WrittenItem := ⟨D.inverted, D.name, D.args ++ D.arg.toList⟩

/-- An argument with a character more. -/
def WrittenArg.push (c : Char) : WrittenArg → WrittenArg
  | var name => .var (name ++ [c])
  | int digits => .int (digits ++ [c])
  | float digits => .float (digits ++ [c])
  | str text => .str (text ++ [c])
  | bool letter => .bool letter

/-- An integer read as the whole part of a float. -/
def WrittenArg.point : WrittenArg → WrittenArg
  | int digits => .float (digits ++ ['.'])
  | a => a

/-- What has been read when an edge was followed. -/
def Draft.take (D : Draft) (c : Char) : Option ParseAction → Draft
  | none | some .acceptFns => D
  | some .accumName => { D with name := D.name ++ [c] }
  | some .invertFn => { D with inverted := true }
  | some .accumArg => { D with arg := D.arg.map (WrittenArg.push c) }
  | some .beginAccumVar => { D with arg := some (.var []) }
  | some .beginAccumInt => { D with arg := some (.int [c]) }
  | some .beginAccumFloat => { D with arg := D.arg.map WrittenArg.point }
  | some .beginAccumStr => { D with arg := some (.str []) }
  | some .beginAccumTrue | some .beginAccumFalse => { D with arg := some (.bool c) }
  | some .acceptArg => { D with args := D.args ++ D.arg.toList, arg := none }
  | some .acceptFn => { items := D.items ++ [D.item] }

/-- A text up to an argument of an item, which may not have begun. -/
inductive Opened (D : Draft) : List Char → Prop
  | mk {text body} : Spelled D.items text → Ready text → IsWord D.name → ArgsSpelled D.args body →
    Opened D (text ++ (bang D.inverted ++ (D.name ++ '(' :: body)))

/-- The part of an argument that the machine has read in a state, and its text so far. -/
inductive Partial : ParseState → WrittenArg → List Char → Prop
  | var {name} : (∀ c ∈ name, isAlphanumeric_ c = true) → Partial .accumVar (.var name) ('$' :: name)
  | int {digits} : IsInt digits → Partial .accumInt (.int digits) digits
  | point {digits} : IsInt digits → Partial .beginAccumFloat (.float (digits ++ ['.'])) (digits ++ ['.'])
  | float {digits} : IsFloat digits → Partial .accumFloat (.float digits) digits
  | str {text} : (∀ c ∈ text, isNotDblQuoteOrNull c = true) → Partial .accumStr (.str text) ('"' :: text)
  | quoted {text} : (∀ c ∈ text, isNotDblQuoteOrNull c = true) → Partial .endAccumStr (.str text) ('"' :: text ++ ['"'])
  | bool {letter} : isTrue letter = true ∨ isFalse letter = true → Partial .accumBool (.bool letter) [letter]

/-- The state the machine is in when it has read a text. -/
inductive Position : ParseState → Draft → List Char → Prop
  | start {items text} : Spelled items text → Ready text → Position .start { items } text
  | acceptFn {items text} : Spelled items text → Position .acceptFn { items } text
  | invertFn {items text} : Spelled items text → Ready text →
    Position .invertFn { items, inverted := true } (text ++ ['!'])
  | accumName {items inverted name text} : Spelled items text → Ready text → IsWord name →
    Position .accumName { items, inverted, name } (text ++ (bang inverted ++ name))
  | beginAccumArg {D text} : Opened D text → D.arg = none → Position .beginAccumArg D text
  | inArg {q D text a t} : Opened D text → D.arg = some a → Partial q a t → Position q D (text ++ t)

variable {q q' : ParseState} {D : Draft} {text : List Char} {c : Char} {a : Option ParseAction}

/-- An argument that may end in a state is complete. -/
lemma Partial.wellFormed {a : WrittenArg} (h : Partial q a text) (hq : EndsArg q) :
    a.WellFormed ∧ text = a.text := by
  cases h with
  | var hall => exact ⟨hall,rfl⟩
  | int hint => exact ⟨hint,rfl⟩
  | point => simp [EndsArg] at hq
  | float hfloat => exact ⟨hfloat,rfl⟩
  | str => simp [EndsArg] at hq
  | quoted htext => exact ⟨htext,rfl⟩
  | bool hletter => exact ⟨hletter,rfl⟩

lemma forall_mem_concat {p : Char → Prop} {l : List Char} (hl : ∀ x ∈ l, p x) (hc : p c) :
    ∀ x ∈ l ++ [c], p x :=
  List.forall_mem_append.mpr ⟨hl,List.forall_mem_singleton.mpr hc⟩

lemma IsInt.digit {digits : List Char} (h : IsInt digits) (hc : isDigit c = true) : IsInt (digits ++ [c]) := by
  obtain ⟨b,ds,rfl,hb,hall⟩ := h
  exact ⟨b,ds ++ [c],rfl,hb,forall_mem_concat hall hc⟩

lemma IsFloat.digit {digits : List Char} (h : IsFloat digits) (hc : isDigit c = true) :
    IsFloat (digits ++ [c]) := by
  obtain ⟨whole,ds,rfl,hwhole,-,hall⟩ := h
  exact ⟨whole,ds ++ [c],by simp,hwhole,by simp,forall_mem_concat hall hc⟩

lemma Opened.withArg (h : Opened D text) (arg : Option WrittenArg) : Opened { D with arg } text := by
  cases h with
  | mk hitems hready hname hargs => exact .mk hitems hready hname hargs

/-- The next character of an argument. -/
lemma Opened.push {arg : WrittenArg} {t : List Char} (h : Opened D text) (hpart : Partial q' arg (t ++ [c])) :
    Position q' { D with arg := some arg } (text ++ t ++ [c]) := by
  rw [List.append_assoc]
  exact .inArg (h.withArg (some arg)) rfl hpart

/-- The first character of an argument. -/
lemma Opened.begin {arg : WrittenArg} (h : Opened D text) (hpart : Partial q' arg [c]) :
    Position q' { D with arg := some arg } (text ++ [c]) := .inArg (h.withArg (some arg)) rfl hpart

/-- The end of an argument. -/
lemma Opened.next {arg : WrittenArg} (h : Opened D text) (harg : arg.WellFormed) (hD : D.arg = some arg) :
    Opened { D with args := D.args ++ D.arg.toList, arg := none } (text ++ arg.text ++ [' ']) := by
  rw [hD]
  cases h with
  | mk hitems hready hname hargs =>
    have h := Opened.mk (D := { D with args := D.args ++ [arg], arg := none }) hitems hready hname (.arg hargs harg)
    simpa using h

/-- The end of an item. -/
lemma Opened.close {body : List Char} (h : Opened D text) (hbody : ∀ {t}, ArgsSpelled D.args t →
    BodySpelled (D.args ++ D.arg.toList) (t ++ body)) : Spelled (D.items ++ [D.item]) (text ++ body ++ [')']) := by
  cases h with
  | mk hitems hready hname hargs =>
    have h := Spelled.item (w := D.item) hitems hready hname (hbody hargs)
    simpa [Draft.item] using h

/-- Where an argument of an item can stand. -/
lemma Position.opened (h : Position q D text) (hq : q = .beginAccumArg ∨ q = .beginAccumFloat ∨ EndsArg q) :
    (q = .beginAccumArg ∧ Opened D text ∧ D.arg = none) ∨
      ∃ pre t a, Opened D pre ∧ D.arg = some a ∧ Partial q a t ∧ text = pre ++ t := by
  cases h with
  | start => simp [EndsArg] at hq
  | acceptFn => simp [EndsArg] at hq
  | invertFn => simp [EndsArg] at hq
  | accumName => simp [EndsArg] at hq
  | beginAccumArg hopen hnone => exact .inl ⟨rfl,hopen,hnone⟩
  | inArg hopen hsome hpart => exact .inr ⟨_,_,_,hopen,hsome,hpart,rfl⟩

lemma Position.begin {arg : WrittenArg} (h : Position .beginAccumArg D text) (hpart : Partial q' arg [c]) :
    Position q' { D with arg := some arg } (text ++ [c]) := by
  obtain ⟨-,hopen,-⟩ | ⟨_,_,_,-,-,hin,-⟩ := h.opened (.inl rfl)
  · exact hopen.begin hpart
  · cases hin

lemma Position.spelled (h : Position q D text) (hq : q = .start ∨ q = .acceptFn) :
    D = { items := D.items } ∧ Spelled D.items text := by
  cases h with
  | start hitems => exact ⟨rfl,hitems⟩
  | acceptFn hitems => exact ⟨rfl,hitems⟩
  | invertFn => simp at hq
  | accumName => simp at hq
  | beginAccumArg => simp at hq
  | inArg _ _ hpart => cases hpart <;> simp at hq

/-- The argument that is read in a state. -/
def ArgOf (arg : Option WrittenArg) : ParseState → Prop
  | .accumVar => ∃ name, arg = some (.var name)
  | .accumInt => ∃ digits, arg = some (.int digits)
  | .beginAccumFloat | .accumFloat => ∃ digits, arg = some (.float digits)
  | .accumStr | .endAccumStr => ∃ text, arg = some (.str text)
  | .accumBool => ∃ letter, arg = some (.bool letter)
  | _ => arg = none

lemma Position.arg (h : Position q D text) : ArgOf D.arg q := by
  cases h with
  | start => rfl
  | acceptFn => rfl
  | invertFn => rfl
  | accumName => rfl
  | beginAccumArg _ hnone => exact hnone
  | inArg _ hsome hpart => cases hpart <;> exact ⟨_,hsome⟩

/-- An item that can end has a name. -/
lemma Position.name (h : Position q D text) (hq : q = .beginAccumArg ∨ q = .beginAccumFloat ∨ EndsArg q) :
    D.name ≠ [] := by
  have hopen : ∀ {t}, Opened D t → D.name ≠ [] := by
    rintro _ ⟨-,-,hname,-⟩
    exact hname.1
  obtain ⟨-,h,-⟩ | ⟨_,_,_,h,-⟩ := h.opened hq
  · exact hopen h
  · exact hopen h

/-- Every edge but the last reads one character of what is written. -/
theorem Position.take (h : Position q D text) (he : Edge q c a q') (hc : c ≠ '\x00') (ha : a ≠ some .acceptFns) :
    Position q' (D.take c a) (text ++ [c]) := by
  cases he with
  | name hq hword =>
    have hsingle : IsWord [c] := ⟨by simp,by simpa using hword⟩
    cases h with
    | start hitems hready => exact @Position.accumName _ false _ _ hitems hready hsingle
    | acceptFn => simp at hq
    | invertFn hitems hready =>
      rw [List.append_assoc]
      exact @Position.accumName _ true _ _ hitems hready hsingle
    | accumName hitems hready hname =>
      rw [List.append_assoc, List.append_assoc]
      exact .accumName hitems hready ⟨by simp,forall_mem_concat hname.2 hword⟩
    | beginAccumArg => simp at hq
    | inArg _ _ hpart => cases hpart <;> simp at hq
  | invert =>
    cases h with
    | start hitems hready => exact .invertFn hitems hready
    | inArg _ _ hpart => cases hpart
  | skip hq =>
    obtain ⟨hD,hitems⟩ := h.spelled hq
    rw [hD]
    exact .start (.space hitems) (.inr ⟨_,rfl⟩)
  | openParen =>
    cases h with
    | accumName hitems hready hname =>
      rw [List.append_assoc, List.append_assoc]
      exact .beginAccumArg (@Opened.mk _ _ [] hitems hready hname .nil) rfl
    | inArg _ _ hpart => cases hpart
  | dollar => exact h.begin (.var (by simp))
  | number hdigit => exact h.begin (.int ⟨c,[],rfl,hdigit,by simp⟩)
  | quote => exact h.begin (.str (by simp))
  | yes htrue => exact h.begin (.bool (.inl htrue))
  | no hfalse => exact h.begin (.bool (.inr hfalse))
  | word hword =>
    cases h with
    | inArg hopen hsome hpart =>
      cases hpart with
      | var hall =>
        rw [Draft.take, hsome]
        exact hopen.push (.var (forall_mem_concat hall hword))
  | digit hdigit =>
    cases h with
    | inArg hopen hsome hpart =>
      cases hpart with
      | int hint =>
        rw [Draft.take, hsome]
        exact hopen.push (.int (hint.digit hdigit))
  | period =>
    cases h with
    | inArg hopen hsome hpart =>
      cases hpart with
      | int hint =>
        rw [Draft.take, hsome]
        exact hopen.push (.point hint)
  | fraction hq hdigit =>
    cases h with
    | start => simp at hq
    | acceptFn => simp at hq
    | invertFn => simp at hq
    | accumName => simp at hq
    | beginAccumArg => simp at hq
    | inArg hopen hsome hpart =>
      cases hpart with
      | point hint =>
        rw [Draft.take, hsome]
        refine hopen.push (.float ⟨_,[c],?_,hint,by simp,by simpa using hdigit⟩)
        rw [List.append_assoc, List.singleton_append]
      | float hfloat =>
        rw [Draft.take, hsome]
        exact hopen.push (.float (hfloat.digit hdigit))
      | _ => simp at hq
  | char hchar =>
    cases h with
    | inArg hopen hsome hpart =>
      cases hpart with
      | str htext =>
        rw [Draft.take, hsome]
        exact hopen.push (.str (forall_mem_concat htext hchar))
  | unquote hquote =>
    have hc : c = '"' := by simpa [isDblQuoteOrNull, hc] using hquote
    subst hc
    cases h with
    | inArg hopen hsome hpart =>
      cases hpart with
      | str htext =>
        rw [List.append_assoc]
        exact .inArg hopen hsome (.quoted htext)
  | nextArg hq =>
    obtain ⟨rfl,-⟩ | ⟨pre,t,arg,hopen,hsome,hpart,rfl⟩ := h.opened (.inr (.inr hq))
    · simp [EndsArg] at hq
    · obtain ⟨hwf,rfl⟩ := hpart.wellFormed hq
      exact .beginAccumArg (hopen.next hwf hsome) rfl
  | close hq =>
    refine .acceptFn ?_
    obtain ⟨-,hopen,hnone⟩ | ⟨pre,t,arg,hopen,hsome,hpart,rfl⟩ := h.opened hq
    · have h := @Opened.close _ _ [] hopen fun hargs => by simpa [hnone] using BodySpelled.spaced hargs
      simpa using h
    · rcases hq with rfl | rfl | hq
      · cases hpart
      · cases hpart with
        | point hint => exact hopen.close fun hargs => by simpa [hsome] using BodySpelled.point hargs hint
      · obtain ⟨hwf,rfl⟩ := hpart.wellFormed hq
        exact hopen.close fun hargs => by simpa [hsome] using BodySpelled.last hargs hwf
  | finish => exact absurd rfl ha

end Positions

section Unique

/-- One character read along the edges. -/
def readStep (s : ParseState × Draft) (c : Char) : Option (ParseState × Draft) :=
  (edge s.1 c).map fun t => (t.destination, s.2.take c t.action)

/-- The edges lead from one state to another along a text. -/
def Leads (s : ParseState × Draft) (text : List Char) (s' : ParseState × Draft) : Prop :=
  text.foldlM readStep s = some s'

variable {q q' : ParseState} {D : Draft} {s s' s'' : ParseState × Draft} {text text' : List Char} {c : Char}
  {a : Option ParseAction}

lemma Leads.refl (s : ParseState × Draft) : Leads s [] s := rfl

lemma Leads.append (h : Leads s text s') (h' : Leads s' text' s'') : Leads s (text ++ text') s'' := by
  unfold Leads at h h' ⊢
  rw [List.foldlM_append, h]
  exact h'

lemma Leads.edge (he : Edge q c a q') (h : Leads (q', D.take c a) text s) : Leads (q, D) (c :: text) s := by
  obtain ⟨t,ht,rfl,rfl⟩ := edge_complete he
  unfold Leads at h ⊢
  rw [List.foldlM_cons, readStep, ht]
  exact h

/-- A run of characters on one edge. -/
lemma leads_run (h : ∀ c ∈ text, Edge q c a q) : Leads (q, D) text (q, text.foldl (fun D c => D.take c a) D) := by
  induction text generalizing D with
  | nil => exact .refl _
  | cons c text ih =>
    rw [List.forall_mem_cons] at h
    exact .edge h.1 (ih h.2)

lemma foldl_take_name : text.foldl (fun D c => D.take c (some .accumName)) D = { D with name := D.name ++ text } := by
  induction text generalizing D with
  | nil => simp
  | cons c text ih => rw [List.foldl_cons, ih, Draft.take, List.append_assoc, List.singleton_append]

lemma foldl_take_arg {arg : WrittenArg} (h : D.arg = some arg) : text.foldl (fun D c => D.take c (some .accumArg)) D =
    { D with arg := some (text.foldl (fun a c => a.push c) arg) } := by
  induction text generalizing D arg with
  | nil => rw [List.foldl_nil, List.foldl_nil, ← h]
  | cons c text ih => rw [List.foldl_cons, @ih _ (arg.push c) (by rw [Draft.take, h]; rfl), Draft.take, List.foldl_cons]

/-- An argument that grows with its characters. -/
lemma foldl_push {f : List Char → WrittenArg} (hf : ∀ t c, (f t).push c = f (t ++ [c])) {t : List Char} :
    text.foldl (fun a c => a.push c) (f t) = f (t ++ text) := by
  induction text generalizing t with
  | nil => rw [List.foldl_nil, List.append_nil]
  | cons c text ih => rw [List.foldl_cons, hf, ih, List.append_assoc, List.singleton_append]

/-- The edges through an integer. -/
lemma leads_int (h : IsInt text) : Leads (.beginAccumArg, D) text (.accumInt, { D with arg := some (.int text) }) := by
  obtain ⟨c,digits,rfl,hc,hdigits⟩ := h
  have hrun := leads_run (D := D.take c (some .beginAccumInt)) (q := .accumInt) fun c hc => Edge.digit (hdigits c hc)
  rw [foldl_take_arg rfl, foldl_push (f := .int) fun _ _ => rfl] at hrun
  exact .edge (.number hc) hrun

/-- The edges through an integer and a point. -/
lemma leads_point (h : IsInt text) : Leads (.beginAccumArg, D) (text ++ ['.'])
    (.beginAccumFloat, { D with arg := some (.float (text ++ ['.'])) }) :=
  (leads_int h).append (.edge .period (.refl _))

/-- The edges through an argument. -/
lemma leads_arg {arg : WrittenArg} (h : arg.WellFormed) :
    ∃ q, EndsArg q ∧ Leads (.beginAccumArg, D) arg.text (q, { D with arg := some arg }) := by
  cases arg with
  | var name =>
    have hrun := leads_run (D := D.take '$' (some .beginAccumVar)) (q := .accumVar) fun c hc => Edge.word (h c hc)
    rw [foldl_take_arg rfl, foldl_push (f := .var) fun _ _ => rfl] at hrun
    exact ⟨.accumVar,by simp [EndsArg],.edge .dollar hrun⟩
  | int digits => exact ⟨.accumInt,by simp [EndsArg],leads_int h⟩
  | float digits =>
    obtain ⟨whole,digits,rfl,hwhole,hne,hdigits⟩ := h
    cases digits with
    | nil => exact absurd rfl hne
    | cons c digits =>
      rw [List.forall_mem_cons] at hdigits
      have hrun := leads_run (D := { D with arg := some (.float (whole ++ ['.'] ++ [c])) }) (q := .accumFloat)
        fun c hc => Edge.fraction (.inr rfl) (hdigits.2 c hc)
      rw [foldl_take_arg rfl, foldl_push (f := .float) fun _ _ => rfl] at hrun
      have h := (leads_point (D := D) hwhole).append (.edge (.fraction (.inl rfl) hdigits.1) hrun)
      exact ⟨.accumFloat,by simp [EndsArg],by simpa [WrittenArg.text] using h⟩
  | str str =>
    have hrun := leads_run (D := D.take '"' (some .beginAccumStr)) (q := .accumStr) fun c hc => Edge.char (h c hc)
    rw [foldl_take_arg rfl, foldl_push (f := .str) fun _ _ => rfl] at hrun
    exact ⟨.endAccumStr,by simp [EndsArg],.edge .quote (hrun.append (.edge (.unquote rfl) (.refl _)))⟩
  | bool letter =>
    rcases h with htrue | hfalse
    · exact ⟨.accumBool,by simp [EndsArg],.edge (.yes htrue) (.refl _)⟩
    · exact ⟨.accumBool,by simp [EndsArg],.edge (.no hfalse) (.refl _)⟩

lemma leads_args {args : List WrittenArg} (h : ArgsSpelled args text) (hD : D.arg = none) :
    Leads (.beginAccumArg, D) text (.beginAccumArg, { D with args := D.args ++ args }) := by
  induction h with
  | nil => simpa using Leads.refl (.beginAccumArg, D)
  | arg _ hwf ih =>
    obtain ⟨q,hq,harg⟩ := leads_arg (D := { D with args := D.args ++ _ }) hwf
    have h := ih.append (harg.append (.edge (.nextArg hq) (.refl _)))
    simpa [Draft.take, hD] using h

lemma leads_body {args : List WrittenArg} (h : BodySpelled args text) (hD : D.arg = none) :
    Leads (.beginAccumArg, D) (text ++ [')'])
      (.acceptFn, { items := D.items ++ [⟨D.inverted, D.name, D.args ++ args⟩] }) := by
  cases h with
  | spaced hargs =>
    have h := (leads_args hargs hD).append (.edge (.close (.inl rfl)) (.refl _))
    simpa [Draft.take, Draft.item, hD] using h
  | last hargs hwf =>
    obtain ⟨q,hq,harg⟩ := leads_arg (D := { D with args := D.args ++ _ }) hwf
    have h := (leads_args hargs hD).append (harg.append (.edge (.close (.inr (.inr hq))) (.refl _)))
    simpa [Draft.take, Draft.item] using h
  | point hargs hint =>
    have h := (leads_args hargs hD).append
      ((leads_point (D := { D with args := D.args ++ _ }) hint).append (.edge (.close (.inr (.inl rfl))) (.refl _)))
    simpa [Draft.take, Draft.item] using h

/-- The edges through an item. -/
lemma leads_item {items : List WrittenItem} {w : WrittenItem} (hname : IsWord w.name) (h : BodySpelled w.args text) :
    Leads (.start, { items }) (bang w.inverted ++ (w.name ++ '(' :: (text ++ [')'])))
      (.acceptFn, { items := items ++ [w] }) := by
  obtain ⟨inverted,name,args⟩ := w
  obtain ⟨hne,hall⟩ := hname
  cases name with
  | nil => exact absurd rfl hne
  | cons c name =>
    rw [List.forall_mem_cons] at hall
    have htail : ∀ q, q = .start ∨ q = .invertFn → Leads (q, { items, inverted }) (c :: name ++ '(' :: (text ++ [')']))
        (.acceptFn, { items := items ++ [⟨inverted, c :: name, args⟩] }) := by
      intro q hq
      have hrun := leads_run (D := { items, inverted, name := [c] }) (q := .accumName)
        fun c hc => Edge.name (.inr (.inr rfl)) (hall.2 c hc)
      rw [foldl_take_name] at hrun
      have hbody := leads_body (D := { items, inverted, name := c :: name }) h rfl
      exact .edge (.name (by tauto) hall.1) (hrun.append (.edge .openParen hbody))
    cases inverted with
    | false => exact htail .start (.inl rfl)
    | true => exact .edge .invert (htail .invertFn (.inr rfl))

lemma ready_append_singleton : Ready (text ++ [c]) ↔ c = ' ' := by
  simp [Ready]

/-- The edges through a text lead to the items it spells. -/
theorem Spelled.leads {items : List WrittenItem} (h : Spelled items text) :
    ∃ q, Leads (.start, {}) text (q, { items }) ∧ (q = .start ∨ q = .acceptFn) ∧ (Ready text → q = .start) := by
  induction h with
  | nil => exact ⟨.start,.refl _,.inl rfl,fun _ => rfl⟩
  | space _ ih =>
    obtain ⟨q,hlead,hq,-⟩ := ih
    exact ⟨.start,hlead.append (.edge (.skip hq) (.refl _)),.inl rfl,fun _ => rfl⟩
  | item _ hready hname hbody ih =>
    obtain ⟨q,hlead,-,hq⟩ := ih
    obtain rfl := hq hready
    refine ⟨.acceptFn,hlead.append (leads_item hname hbody),.inr rfl,fun h => ?_⟩
    rw [← List.append_assoc, ← List.append_assoc, ← List.cons_append, ← List.append_assoc, ready_append_singleton] at h
    cases h

/-- A text spells one list of items only. -/
theorem Spelled.unique {items items' : List WrittenItem} (h : Spelled items text) (h' : Spelled items' text) :
    items = items' := by
  obtain ⟨q,hlead,-⟩ := h.leads
  obtain ⟨q',hlead',-⟩ := h'.leads
  have heq := Option.some.inj (hlead.symm.trans hlead')
  exact congrArg Draft.items (Prod.mk.inj heq).2

end Unique

section Drafts

def WrittenArg.type : WrittenArg → FnArgType
  | var _ => .var
  | int _ => .int
  | float _ => .float
  | str _ => .str
  | bool _ => .bool

/-- What comes into the accumulator. -/
def WrittenArg.stored : WrittenArg → List Char
  | var text | int text | float text | str text => text
  | bool letter => [if isTrue letter then 't' else 'f']

/-- What the parser makes of an argument: nothing, if the accumulator is empty. -/
def WrittenArg.read (libc : Libc) (a : WrittenArg) : Option FnArg :=
  if a.stored = [] then none else some (readArg libc a.type a.stored)

/-- The accumulator while an argument is read, or none is. -/
def storedOf : Option WrittenArg → List Char
  | none => []
  | some a => a.stored

/-- What the parser makes of an item. Only conditions and actions have marks. -/
def WrittenItem.fn (libc : Libc) (mode : ParsedType) (w : WrittenItem) : Fn where
  name := String.ofList w.name
  args := w.args.filterMap (WrittenArg.read libc)
  undo := if mode = .condition ∨ mode = .action then !w.inverted else false

/-- The machine holds what has been read. -/
structure Drawn (libc : Libc) (D : Draft) (d : ParseData) : Prop where
  name : d.accumName = D.name
  arg : d.accumArg = storedOf D.arg
  type : ∀ a, D.arg = some a → d.argType = a.type
  args : d.args = D.args.filterMap (WrittenArg.read libc)
  undo : d.undo = !D.inverted

variable {libc : Libc} {parseArg : String → Option Arg} {D : Draft} {d d' : ParseData} {q q' : ParseState}
  {text : List Char} {c : Char} {a : Option ParseAction}

lemma isTrue_of_isFalse (h : isFalse c = true) : isTrue c = false := by
  simp only [isFalse, Bool.or_eq_true, decide_eq_true_eq] at h
  rcases h with ((rfl | rfl) | rfl) | rfl <;> rfl

/-- The accumulator after the first character of an argument. -/
lemma Drawn.begin {arg : WrittenArg} (h : Drawn libc D d) (harg : D.arg = none) (htype : d'.argType = arg.type)
    (hacc : d'.accumArg = d.accumArg ++ arg.stored) (hname : d'.accumName = d.accumName) (hargs : d'.args = d.args)
    (hundo : d'.undo = d.undo) : Drawn libc { D with arg := some arg } d' where
  name := hname.trans h.name
  arg := by rw [hacc, h.arg, harg, storedOf, storedOf, List.nil_append]
  type := by
    rintro _ ⟨⟩
    exact htype
  args := hargs.trans h.args
  undo := hundo.trans h.undo

/-- The accumulator after another character of an argument. -/
lemma Drawn.push {arg arg' : WrittenArg} (h : Drawn libc D d) (harg : D.arg = some arg)
    (hstored : arg'.stored = arg.stored ++ [c]) (htype : arg'.type = d'.argType) (hname : d'.accumName = d.accumName)
    (hacc : d'.accumArg = d.accumArg ++ [c]) (hargs : d'.args = d.args) (hundo : d'.undo = d.undo) :
    Drawn libc { D with arg := some arg' } d' where
  name := hname.trans h.name
  arg := by rw [hacc, h.arg, harg, storedOf, storedOf, hstored]
  type := by
    rintro _ ⟨⟩
    exact htype.symm
  args := hargs.trans h.args
  undo := hundo.trans h.undo

/-- The end of an argument: one that is not empty is added to the list. -/
lemma Drawn.acceptArg (h : Drawn libc D d) (hp : acceptArg libc parseArg d = .ok d') (hfin : d'.finished = false) :
    Drawn libc { D with args := D.args ++ D.arg.toList, arg := none } d' := by
  have hread : (D.args ++ D.arg.toList).filterMap (WrittenArg.read libc) =
      d.args ++ if d.accumArg = [] then [] else [readArg libc d.argType d.accumArg] := by
    rw [List.filterMap_append, h.args, h.arg]
    cases harg : D.arg with
    | none => rfl
    | some a =>
      rw [h.type a harg, storedOf, Option.toList_some]
      by_cases hnil : a.stored = []
      · simp [WrittenArg.read, hnil]
      · simp [WrittenArg.read, hnil]
  rcases (acceptArg_cases hp).2 with ⟨hnil,rfl⟩ | ⟨hne,rfl⟩ | ⟨-,code,message,-,rfl⟩
  · refine ⟨h.name,hnil,?_,?_,h.undo⟩
    · rintro _ ⟨⟩
    · rw [hread, if_pos hnil, List.append_nil]
  · refine ⟨h.name,rfl,?_,?_,h.undo⟩
    · rintro _ ⟨⟩
    · rw [hread, if_neg hne]
      rfl
  · cases hfin

lemma acceptArg_name (h : acceptArg libc parseArg d = .ok d') : d'.accumName = d.accumName := by
  rcases (acceptArg_cases h).2 with ⟨-,rfl⟩ | ⟨-,rfl⟩ | ⟨-,code,message,-,rfl⟩
  · rfl
  · rfl
  · rfl

/-- The machine after an item, if the parse goes on. -/
lemma storeFn_done (hfin : (storeFn libc parseArg d).finished = false) :
    (storeFn libc parseArg d).accumName = [] ∧ (storeFn libc parseArg d).args = [] ∧
      (storeFn libc parseArg d).undo = true := by
  unfold storeFn at hfin ⊢
  dsimp only at hfin ⊢
  split at hfin
  · exact ⟨rfl,rfl,rfl⟩
  · exact ⟨rfl,rfl,rfl⟩
  · exact ⟨rfl,rfl,rfl⟩
  · exact ⟨rfl,rfl,rfl⟩
  · split at hfin
    · cases hfin
    · cases hfin
    · cases hfin
    · exact ⟨rfl,rfl,rfl⟩
    · cases hfin
  · cases hfin

/-- The end of an item. -/
lemma Drawn.acceptFn (h : Drawn libc D d) (hp : acceptFn libc parseArg d = .ok d') (hne : D.name ≠ [])
    (hfin : d'.finished = false) : Drawn libc { items := D.items ++ [D.item] } d' := by
  obtain ⟨d₁,hd,-,⟨hnil,-⟩ | ⟨-,rfl⟩⟩ := acceptFn_cases hp
  · exact absurd (h.name.symm.trans ((acceptArg_name hd).symm.trans hnil)) hne
  · have hfin₁ : d₁.finished = false := by
      by_contra hfin₁
      rw [storeFn_keeps.2 (by simpa using hfin₁)] at hfin
      cases hfin
    obtain ⟨hname,hargs,hundo⟩ := storeFn_done hfin
    have harg := (h.acceptArg hd hfin₁).arg
    refine ⟨hname,storeFn_keeps.1.trans harg,?_,hargs,hundo⟩
    rintro _ ⟨⟩

/-- Along every edge but the last, the machine holds what has been read, if the parse goes on. -/
theorem Drawn.take (h : Drawn libc D d) (hpos : Position q D text) (he : Edge q c a q') (ha : a ≠ some .acceptFns)
    (hp : perform libc parseArg a d c = .ok d') (hfin : d'.finished = false) : Drawn libc (D.take c a) d' := by
  cases he with
  | name hq hc =>
    obtain ⟨-,rfl⟩ := accumName_eq_ok.mp hp
    exact { h with name := by rw [h.name]; rfl }
  | invert =>
    obtain rfl := Except.ok.inj hp
    exact { h with undo := rfl }
  | skip =>
    obtain rfl := Except.ok.inj hp
    exact h
  | openParen =>
    obtain rfl := Except.ok.inj hp
    exact h
  | unquote =>
    obtain rfl := Except.ok.inj hp
    exact h
  | dollar =>
    obtain rfl := Except.ok.inj hp
    exact h.begin hpos.arg rfl (List.append_nil _).symm rfl rfl rfl
  | number =>
    obtain ⟨-,rfl⟩ := accumArg_eq_ok.mp hp
    exact h.begin hpos.arg rfl rfl rfl rfl rfl
  | quote =>
    obtain rfl := Except.ok.inj hp
    exact h.begin hpos.arg rfl (List.append_nil _).symm rfl rfl rfl
  | yes hc =>
    obtain ⟨-,rfl⟩ := accumArg_eq_ok.mp hp
    exact h.begin hpos.arg rfl (by simp [WrittenArg.stored, hc]) rfl rfl rfl
  | no hc =>
    obtain ⟨-,rfl⟩ := accumArg_eq_ok.mp hp
    exact h.begin hpos.arg rfl (by simp [WrittenArg.stored, isTrue_of_isFalse hc]) rfl rfl rfl
  | word =>
    obtain ⟨name,harg⟩ := hpos.arg
    obtain ⟨-,rfl⟩ := accumArg_eq_ok.mp hp
    rw [Draft.take, harg]
    exact h.push harg rfl (h.type _ harg).symm rfl rfl rfl rfl
  | digit =>
    obtain ⟨digits,harg⟩ := hpos.arg
    obtain ⟨-,rfl⟩ := accumArg_eq_ok.mp hp
    rw [Draft.take, harg]
    exact h.push harg rfl (h.type _ harg).symm rfl rfl rfl rfl
  | period =>
    obtain ⟨digits,harg⟩ := hpos.arg
    obtain ⟨-,rfl⟩ := accumArg_eq_ok.mp hp
    rw [Draft.take, harg]
    exact h.push harg rfl rfl rfl rfl rfl rfl
  | fraction hq =>
    obtain ⟨digits,harg⟩ : ∃ digits, D.arg = some (.float digits) := by
      have harg := hpos.arg
      rcases hq with rfl | rfl <;> exact harg
    obtain ⟨-,rfl⟩ := accumArg_eq_ok.mp hp
    rw [Draft.take, harg]
    exact h.push harg rfl (h.type _ harg).symm rfl rfl rfl rfl
  | char =>
    obtain ⟨str,harg⟩ := hpos.arg
    obtain ⟨-,rfl⟩ := accumArg_eq_ok.mp hp
    rw [Draft.take, harg]
    exact h.push harg rfl (h.type _ harg).symm rfl rfl rfl rfl
  | nextArg hq => exact h.acceptArg hp hfin
  | close hq => exact h.acceptFn hp (hpos.name hq) hfin
  | finish => exact absurd rfl ha

/-- An item whose name and arguments fit the accumulators, each with its terminator. -/
structure WrittenItem.Fits (w : WrittenItem) : Prop where
  name : w.name.length < accumSz
  args : ∀ a ∈ w.args, a.stored.length < accumSz

/-- What has been read fits the accumulators. A name or an argument that is not finished has no terminator yet. -/
structure Draft.Fits (D : Draft) : Prop where
  items : ∀ w ∈ D.items, w.Fits
  name : D.name.length ≤ accumSz
  args : ∀ a ∈ D.args, a.stored.length < accumSz
  arg : (storedOf D.arg).length ≤ accumSz

lemma Draft.fits_start : ({} : Draft).Fits := ⟨by simp,by simp,by simp,by simp [storedOf]⟩

lemma returns_accumName_iff : Returns (accumName d c) ↔ d.accumName.length < accumSz := by
  unfold accumName
  split_ifs with h <;> simp [h]

lemma returns_accumArg_iff : Returns (accumArg d c) ↔ d.accumArg.length < accumSz := by
  unfold accumArg
  split_ifs with h <;> simp [h]

lemma returns_acceptArg_iff : Returns (acceptArg libc parseArg d) ↔ d.accumArg.length < accumSz := by
  constructor
  · rintro ⟨d',hd⟩
    exact (acceptArg_cases hd).1
  · intro h
    unfold acceptArg
    rw [if_neg (Nat.not_le_of_lt h)]
    by_cases hnil : d.accumArg = []
    · simp [hnil]
    · rw [if_neg hnil]
      cases d.argType <;> dsimp only <;> first | (split_ifs <;> simp) | simp

lemma returns_acceptFn_iff : Returns (acceptFn libc parseArg d) ↔
    d.accumArg.length < accumSz ∧ d.accumName.length < accumSz := by
  constructor
  · rintro ⟨d',hd⟩
    obtain ⟨d₁,hd₁,hname,-⟩ := acceptFn_cases hd
    rw [acceptArg_name hd₁] at hname
    exact ⟨(acceptArg_cases hd₁).1,hname⟩
  · rintro ⟨harg,hname⟩
    obtain ⟨d₁,hd₁⟩ := (@returns_acceptArg_iff libc parseArg d).mpr harg
    rw [← acceptArg_name hd₁] at hname
    rw [acceptFn, hd₁, ok_bind, if_neg (Nat.not_le_of_lt hname)]
    split_ifs <;> simp

/-- An argument grows by a character, if there is room. -/
lemma Drawn.returns_push {arg arg' : WrittenArg} {type : FnArgType} (h : Drawn libc D d) (hfits : D.Fits)
    (harg : D.arg = some arg) (hstored : arg'.stored = arg.stored ++ [c]) :
    Returns (accumArg { d with argType := type } c) ↔ ({ D with arg := some arg' } : Draft).Fits := by
  rw [returns_accumArg_iff, show ({ d with argType := type } : ParseData).accumArg = d.accumArg from rfl, h.arg, harg,
    storedOf]
  constructor
  · intro hlt
    refine ⟨hfits.items,hfits.name,hfits.args,?_⟩
    rw [storedOf, hstored, List.length_append]
    exact hlt
  · intro h
    have hle := h.arg
    rw [storedOf, hstored, List.length_append] at hle
    exact hle

/-- The first character of an argument has room. -/
lemma Drawn.returns_begin {arg : WrittenArg} {type : FnArgType} (h : Drawn libc D d) (hfits : D.Fits)
    (harg : D.arg = none) (hone : arg.stored.length = 1) :
    Returns (accumArg { d with argType := type } c) ↔ ({ D with arg := some arg } : Draft).Fits := by
  have hroom : (0 : ℕ) < accumSz := by decide
  rw [returns_accumArg_iff, show ({ d with argType := type } : ParseData).accumArg = d.accumArg from rfl, h.arg, harg]
  exact iff_of_true hroom ⟨hfits.items,hfits.name,hfits.args,by rw [storedOf, hone]; exact hroom⟩

/-- An argument ends, if there is room for its terminator. -/
lemma fits_accepted_iff (h : D.Fits) :
    ({ D with args := D.args ++ D.arg.toList, arg := none } : Draft).Fits ↔ (storedOf D.arg).length < accumSz := by
  have hroom : (0 : ℕ) < accumSz := by decide
  constructor
  · intro h
    cases harg : D.arg with
    | none => exact hroom
    | some a =>
      have hargs := h.args
      rw [harg] at hargs
      exact hargs a (by simp)
  · refine fun hlt => ⟨h.items,h.name,?_,Nat.zero_le _⟩
    rw [List.forall_mem_append]
    refine ⟨h.args,fun a ha => ?_⟩
    rw [Option.mem_toList.mp ha] at hlt
    exact hlt

/-- An item ends, if there is room for the terminators of its name and its last argument. -/
lemma fits_closed_iff (h : D.Fits) : ({ items := D.items ++ [D.item] } : Draft).Fits ↔
    (storedOf D.arg).length < accumSz ∧ D.name.length < accumSz := by
  rw [← fits_accepted_iff h]
  constructor
  · intro hclosed
    have hitem := hclosed.items D.item (by simp)
    exact ⟨⟨h.items,h.name,hitem.args,Nat.zero_le _⟩,hitem.name⟩
  · rintro ⟨haccepted,hname⟩
    refine ⟨?_,Nat.zero_le _,by simp,Nat.zero_le _⟩
    rw [List.forall_mem_append, List.forall_mem_singleton]
    exact ⟨h.items,hname,haccepted.args⟩

/-- An edge but the last can be followed exactly if there is room for what it writes. -/
theorem Drawn.returns_iff (h : Drawn libc D d) (hpos : Position q D text) (hfits : D.Fits) (he : Edge q c a q')
    (ha : a ≠ some .acceptFns) : Returns (perform libc parseArg a d c) ↔ (D.take c a).Fits := by
  have hkeep : ∀ {D' : Draft}, D'.items = D.items → D'.name = D.name → D'.args = D.args →
      storedOf D'.arg = storedOf D.arg → D'.Fits := by
    intro D' hitems hname hargs harg
    exact ⟨hitems ▸ hfits.items,hname ▸ hfits.name,hargs ▸ hfits.args,harg ▸ hfits.arg⟩
  cases he with
  | name =>
    rw [perform, returns_accumName_iff, h.name]
    constructor
    · intro hlt
      exact ⟨hfits.items,by rw [Draft.take, List.length_append]; exact hlt,hfits.args,hfits.arg⟩
    · intro h
      have hle := h.name
      rw [Draft.take, List.length_append] at hle
      exact hle
  | invert | skip | openParen | unquote => exact iff_of_true (returns_ok _) (hkeep rfl rfl rfl rfl)
  | dollar | quote =>
    refine iff_of_true (returns_ok _) (hkeep rfl rfl rfl ?_)
    rw [show D.arg = none from hpos.arg]
    rfl
  | number | yes | no => exact h.returns_begin hfits hpos.arg rfl
  | word =>
    obtain ⟨name,harg⟩ := hpos.arg
    rw [Draft.take, harg]
    exact h.returns_push hfits harg rfl
  | digit =>
    obtain ⟨digits,harg⟩ := hpos.arg
    rw [Draft.take, harg]
    exact h.returns_push hfits harg rfl
  | period =>
    obtain ⟨digits,harg⟩ := hpos.arg
    rw [Draft.take, harg]
    exact h.returns_push hfits harg rfl
  | fraction hq =>
    obtain ⟨digits,harg⟩ : ∃ digits, D.arg = some (.float digits) := by
      have harg := hpos.arg
      rcases hq with rfl | rfl <;> exact harg
    rw [Draft.take, harg]
    exact h.returns_push hfits harg rfl
  | char =>
    obtain ⟨str,harg⟩ := hpos.arg
    rw [Draft.take, harg]
    exact h.returns_push hfits harg rfl
  | nextArg =>
    rw [perform, returns_acceptArg_iff, h.arg]
    exact (fits_accepted_iff hfits).symm
  | close =>
    rw [perform, returns_acceptFn_iff, h.arg, h.name]
    exact (fits_closed_iff hfits).symm
  | finish => exact absurd rfl ha

end Drafts

section Tracking

/-- The machine is running at a position of a text, behind what it has read, and holds that. -/
structure Tracking (libc : Libc) (text pre : List Char) (D : Draft) (d : ParseData) : Prop where
  finished : d.finished = false
  returned : d.returned = none
  null : '\x00' ∉ d.rest
  drawn : Drawn libc D d
  fits : D.Fits
  position : Position d.state D pre
  leads : Leads (.start, {}) pre (d.state, D)
  split : text = pre ++ cut (d.state = .accumStr) d.rest

/-- The machine is behind a string that was not closed. -/
structure Lost (d : ParseData) : Prop where
  state : d.state = .endAccumStr
  rest : d.rest = []

variable {libc : Libc} {parseArg : String → Option Arg} {D : Draft} {d d' : ParseData} {text pre : List Char}

/-- The items of a text, which have gone through the accumulators. -/
structure Taken (items : List WrittenItem) (text : List Char) : Prop where
  spelled : Spelled items text
  fits : ∀ w ∈ items, w.Fits

/-- Everything a round can do at a position of a text. -/
inductive Turn (libc : Libc) (parseArg : String → Option Arg) (text pre : List Char) (D : Draft) (d d' : ParseData) : Prop
  | stuck : d' = d.stuck → Turn libc parseArg text pre D d d'
  | failed {c a q d₁} : Edge d.state c a q → a ≠ some .acceptFns →
    perform libc parseArg a { d with rest := d.rest.tail } c = .ok d₁ → d₁.finished = true →
    d' = { d₁ with state := q, returned := some false } → Turn libc parseArg text pre D d d'
  | lost : d' = { d with rest := [], state := .endAccumStr, returned := none } → Turn libc parseArg text pre D d d'
  | edge {c a q d₁} : Edge d.state c a q → a ≠ some .acceptFns →
    perform libc parseArg a { d with rest := d.rest.tail } c = .ok d₁ → d' = { d₁ with state := q, returned := none } →
    Tracking libc text (pre ++ [c]) (D.take c a) d' → Turn libc parseArg text pre D d d'
  | finish {d₁} : d.state = .start ∨ d.state = .acceptFn → D = { items := D.items } → Taken D.items text → text = pre →
    acceptFns libc parseArg { d with rest := d.rest.tail } = .ok d₁ → d' = follow d₁ .acceptRule →
    Turn libc parseArg text pre D d d'

lemma Lost.parseRound_eq (h : Lost d) : parseRound libc parseArg d = .ok d.stuck := by
  have hcur : d.current = '\x00' := by rw [ParseData.current, h.rest, List.headD_nil]
  apply parseRound_of_stuck
  intro a q he
  rw [h.state, hcur] at he
  obtain rfl | ⟨hq,-⟩ := he.of_null
  · simpa using he.of_acceptFns.1
  · cases hq

lemma Lost.round (h : Lost d) (hd : parseRound libc parseArg d = .ok d') : d' = d.stuck :=
  Except.ok.inj (hd.symm.trans h.parseRound_eq)

variable {d₁ : ParseData} {rest : List Char} {c : Char} {a : Option ParseAction} {q : ParseState}

lemma Tracking.drawn_tail (h : Tracking libc text pre D d) : Drawn libc D { d with rest := d.rest.tail } :=
  ⟨h.drawn.name,h.drawn.arg,h.drawn.type,h.drawn.args,h.drawn.undo⟩

/-- Behind an edge that the machine has followed. -/
lemma Tracking.edge (h : Tracking libc text pre D d) (hrest : d.rest = c :: rest) (he : Edge d.state c a q)
    (ha : a ≠ some .acceptFns) (hp : perform libc parseArg a { d with rest := d.rest.tail } c = .ok d₁)
    (hfin : d₁.finished = false) :
    Tracking libc text (pre ++ [c]) (D.take c a) { d₁ with state := q, returned := none } := by
  have hnull := h.null
  rw [hrest, List.mem_cons, not_or] at hnull
  have hc : c ≠ '\x00' := Ne.symm hnull.1
  have hrest₁ : d₁.rest = rest := by rw [(perform_frame hp ha).rest, hrest]; rfl
  have hdrawn := h.drawn_tail.take h.position he ha hp hfin
  refine ⟨hfin,rfl,?_,?_,(h.drawn_tail.returns_iff h.position h.fits he ha).mp ⟨d₁,hp⟩,h.position.take he hc ha,
    h.leads.append (.edge he (.refl _)),?_⟩
  · rw [show ({ d₁ with state := q, returned := none } : ParseData).rest = rest from hrest₁]
    exact hnull.2
  · exact ⟨hdrawn.name,hdrawn.arg,hdrawn.type,hdrawn.args,hdrawn.undo⟩
  · have hcut : ¬ (c = '\n' ∧ decide (d.state = .accumStr) = false) := by
      rintro ⟨rfl,hquoted⟩
      exact of_decide_eq_false hquoted (he.of_newline.resolve_right ha)
    rw [h.split, hrest, cut, if_neg hcut, ← he.quoted hc, List.append_assoc, List.singleton_append]
    exact congrArg (fun r => pre ++ c :: cut (decide (q = .accumStr)) r) hrest₁.symm

theorem Tracking.round (h : Tracking libc text pre D d) (hd : parseRound libc parseArg d = .ok d') :
    Turn libc parseArg text pre D d d' := by
  rcases parseRound_cases hd with ⟨a,q,d₁,he,hp,rfl⟩ | ⟨-,rfl⟩
  · by_cases ha : a = some .acceptFns
    · subst ha
      obtain ⟨hq,hcur,rfl⟩ := he.of_acceptFns
      obtain ⟨hD,hitems⟩ := h.position.spelled hq
      have hquoted : decide (d.state = .accumStr) = false := by rcases hq with hq | hq <;> simp [hq]
      have hcut : cut (d.state = .accumStr) d.rest = [] := by
        rw [hquoted]
        cases hrest : d.rest with
        | nil => rfl
        | cons c rest =>
          rw [ParseData.current, hrest, List.headD_cons] at hcur
          rcases hcur with rfl | rfl
          · exact absurd (hrest ▸ List.mem_cons_self) h.null
          · rw [cut, if_pos ⟨rfl,rfl⟩]
      have htext := h.split
      rw [hcut, List.append_nil] at htext
      exact .finish hq hD ⟨htext ▸ hitems,h.fits.items⟩ htext hp rfl
    · cases hfin : d₁.finished with
      | true =>
        refine .failed he ha hp hfin ?_
        rw [follow, if_neg (he.destination_ne ha), hfin]
        rfl
      | false =>
        rw [follow_of_ne hfin (he.destination_ne ha)]
        cases hrest : d.rest with
        | nil =>
          have hcur : d.current = '\x00' := by rw [ParseData.current, hrest, List.headD_nil]
          rw [hcur] at he hp
          obtain ⟨-,rfl,rfl⟩ := he.of_null.resolve_left ha
          obtain rfl := Except.ok.inj hp
          exact .lost (by rw [hrest]; rfl)
        | cons c rest =>
          have hcur : d.current = c := by rw [ParseData.current, hrest, List.headD_cons]
          rw [hcur] at he hp
          exact .edge he ha hp rfl (h.edge hrest he ha hp hfin)
  · exact .stuck rfl

end Tracking

end Xctools.Xcpmd
