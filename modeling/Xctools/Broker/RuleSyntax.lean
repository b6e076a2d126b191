import Xctools.Broker.PolicyLoad

/-! The syntax of rules, and what `create_rule` makes of it. A rule is written as a policy and criteria of one
to three words; the loop takes the words in pairs and does not look at the value of an `if-boolean`. So a text
is read as another one, which only sometimes states the same. -/
namespace Xctools.Broker
open Machine

section Syntax

/-- The fields of a rule that a keyword with one value sets. -/
inductive RuleField
  | destination
  | domType
  | interface
  | path
  | member
  deriving DecidableEq, Repr

def RuleField.keyword : RuleField → String
  | destination => "destination"
  | domType => "dom-type"
  | interface => "interface"
  | path => "path"
  | member => "member"

/-- A criterion as the syntax has it. -/
inductive Criterion
  | stubdom
  | names (field : RuleField) (value : String)
  | ifBoolean (attr : String) (value : Bool)
  deriving DecidableEq, Repr

/-- How a criterion is written. -/
def Criterion.words : Criterion → List String
  | stubdom => ["stubdom"]
  | names field value => [field.keyword, value]
  | ifBoolean attr value => ["if-boolean", attr, if value then "true" else "false"]

/-- The rule with a value in one of its fields. -/
def Rule.setField (r : Rule) (value : String) : RuleField → Rule
  | .destination => { r with destination := .live value }
  | .domType => { r with domtype := .live value }
  | .interface => { r with interface := .live value }
  | .path => { r with path := .live value }
  | .member => { r with member := .live value }

/-- The rule with what a criterion states. -/
def Rule.state (r : Rule) : Criterion → Rule
  | .stubdom => { r with stubdom := true }
  | .names field value => r.setField value field
  | .ifBoolean attr value => { r with ifBool := .live attr, ifBoolFlag := value }

def policyWord (policy : Bool) : String := if policy then "allow" else "deny"

/-- The words after the policy state this of a rule: everything, everything that comes from the bus, or some
criteria, the later ones over the earlier. -/
def Follows (r : Rule) (words : List String) (r' : Rule) : Prop :=
  (words.head? = some "all" ∧ r' = { r with all := true }) ∨
  (words.head? = some "out-any" ∧ r' = { r with out := true }) ∨
  ∃ cs : List Criterion, cs ≠ [] ∧ words = cs.flatMap Criterion.words ∧ r' = cs.foldl Rule.state r

/-- The words are those of a rule, and `r` is what they state. -/
def States (text : String) (words : List String) (r : Rule) : Prop :=
  ∃ policy rest, words = policyWord policy :: rest ∧ Follows { policy, ruleString := .live text } rest r

/-- `create_rule` is true to the syntax on a text: it comes back, it accepts the text if and only if it is a
rule, and then every field holds what is written for it. -/
def MeetsSyntax (text : String) : Prop :=
  ∃ ok r, createRule {} text = .ok (ok, r) ∧ (ok = true ↔ ∃ r', States text (strtok text) r') ∧
    (ok = true → States text (strtok text) r)

end Syntax

section Reading

/-- The keywords that take one word, whether they have a value or not. -/
def pairKeywords : List String := ["destination", "dom-type", "interface", "stubdom", "path", "member"]

/-- No `if-boolean` that is reached in pairs is left with one word behind it. -/
def Complete : List String → Prop
  | token :: _ :: rest =>
    if token = "if-boolean" then
      match rest with
      | [] => False
      | _ :: rest' => Complete rest'
    else token ∈ pairKeywords → Complete rest
  | _ => True

/-- The criteria as they are read: without the word behind a `stubdom`, and with a value of an `if-boolean`
that is not `true` for `false`. -/
def pairedReading : List String → List String
  | token :: field :: rest =>
    if token = "if-boolean" then
      match rest with
      | [] => [token, field]
      | value :: rest' => token :: field :: (if value = "true" then value else "false") :: pairedReading rest'
    else if token = "stubdom" then token :: pairedReading rest
    else token :: field :: pairedReading rest
  | words => words

/-- A text as it is read: what is not `allow` is `deny`. -/
def readAs : List String → List String
  | [] => []
  | first :: words => policyWord (first = "allow") :: pairedReading words

end Reading

section Criteria

lemma RuleField.keyword_injective {f g : RuleField} (h : f.keyword = g.keyword) : f = g := by
  cases f <;> cases g <;> first | rfl | exact absurd h (by decide)

lemma RuleField.keyword_ne (f : RuleField) : f.keyword ≠ "if-boolean" ∧ f.keyword ≠ "stubdom" ∧
    f.keyword ≠ "all" ∧ f.keyword ≠ "out-any" := by
  cases f <;> decide

lemma Criterion.words_ne_nil (c : Criterion) : c.words ≠ [] := by
  cases c <;> simp [words]

/-- A criterion is known by the words it is written with, whatever comes after it. -/
lemma Criterion.words_append_inj {c d : Criterion} {rest rest' : List String}
    (h : c.words ++ rest = d.words ++ rest') : c = d ∧ rest = rest' := by
  simp only [words] at h
  cases c with
  | stubdom =>
    cases d with
    | stubdom => exact ⟨rfl,by simpa [words] using h⟩
    | names g w => exact absurd (List.cons.inj h).1.symm g.keyword_ne.2.1
    | ifBoolean b w => exact absurd (List.cons.inj h).1 (by decide)
  | names f v =>
    cases d with
    | stubdom => exact absurd (List.cons.inj h).1 f.keyword_ne.2.1
    | names g w =>
      obtain ⟨hkey,htail⟩ := List.cons.inj h
      obtain ⟨hvalue,hrest⟩ := List.cons.inj htail
      rw [RuleField.keyword_injective hkey, hvalue]
      exact ⟨rfl,hrest⟩
    | ifBoolean b w => exact absurd (List.cons.inj h).1 f.keyword_ne.1
  | ifBoolean a v =>
    cases d with
    | stubdom => exact absurd (List.cons.inj h).1 (by decide)
    | names g w => exact absurd (List.cons.inj h).1.symm g.keyword_ne.1
    | ifBoolean b w =>
      obtain ⟨-,htail⟩ := List.cons.inj h
      obtain ⟨hattr,htail⟩ := List.cons.inj htail
      obtain ⟨hvalue,hrest⟩ := List.cons.inj htail
      refine ⟨?_,hrest⟩
      rw [hattr]
      cases v <;> cases w <;> first | rfl | exact absurd hvalue (by decide)

/-- Criteria can be read off their words. -/
lemma flatMap_words_injective {cs ds : List Criterion}
    (h : cs.flatMap Criterion.words = ds.flatMap Criterion.words) : cs = ds := by
  induction cs generalizing ds with
  | nil =>
    cases ds with
    | nil => rfl
    | cons d ds =>
      have hnil := (List.append_eq_nil_iff.mp h.symm).1
      exact absurd hnil d.words_ne_nil
  | cons c cs ih =>
    cases ds with
    | nil =>
      have hnil := (List.append_eq_nil_iff.mp h).1
      exact absurd hnil c.words_ne_nil
    | cons d ds =>
      obtain ⟨rfl,hrest⟩ := Criterion.words_append_inj h
      rw [ih hrest]

/-- Criteria that begin with a criterion. -/
lemma exists_flatMap_words_cons {c : Criterion} {rest : List String} {r r' : Rule} :
    (∃ cs : List Criterion, c.words ++ rest = cs.flatMap Criterion.words ∧ r' = cs.foldl Rule.state r) ↔
      ∃ cs : List Criterion, rest = cs.flatMap Criterion.words ∧ r' = cs.foldl Rule.state (r.state c) := by
  constructor
  · rintro ⟨cs,hcs,rfl⟩
    cases cs with
    | nil => exact absurd (List.append_eq_nil_iff.mp hcs).1 c.words_ne_nil
    | cons d cs =>
      obtain ⟨rfl,hrest⟩ := Criterion.words_append_inj hcs
      exact ⟨cs,hrest,rfl⟩
  · rintro ⟨cs,rfl,rfl⟩
    exact ⟨c :: cs,rfl,rfl⟩

lemma pairedReading_other {token : String} (hbool : token ≠ "if-boolean") (hstub : token ≠ "stubdom")
    (value : String) (rest : List String) :
    pairedReading (token :: value :: rest) = token :: value :: pairedReading rest := by
  cases rest <;> simp [pairedReading, hbool, hstub]

lemma pairedReading_names (f : RuleField) (value : String) (rest : List String) :
    pairedReading (f.keyword :: value :: rest) = (Criterion.names f value).words ++ pairedReading rest := by
  obtain ⟨hbool,hstub,-⟩ := f.keyword_ne
  rw [pairedReading_other hbool hstub]
  rfl

lemma pairedReading_stubdom (word : String) (rest : List String) :
    pairedReading ("stubdom" :: word :: rest) = Criterion.stubdom.words ++ pairedReading rest := by
  cases rest <;> simp [pairedReading, Criterion.words]

lemma pairedReading_ifBoolean (attr value : String) (rest : List String) :
    pairedReading ("if-boolean" :: attr :: value :: rest) =
      (Criterion.ifBoolean attr (value = "true")).words ++ pairedReading rest := by
  by_cases h : value = "true" <;> simp [pairedReading, Criterion.words, h]

/-- No criterion begins with such a word. -/
lemma not_flatMap_words {token : String} {rest : List String} (hfield : ∀ f : RuleField, token ≠ f.keyword)
    (hstub : token ≠ "stubdom") (hbool : token ≠ "if-boolean") (cs : List Criterion) :
    token :: rest ≠ cs.flatMap Criterion.words := by
  intro h
  cases cs with
  | nil => cases h
  | cons c cs =>
    cases c with
    | stubdom => exact hstub (List.cons.inj h).1
    | names f value => exact hfield f (List.cons.inj h).1
    | ifBoolean attr value => exact hbool (List.cons.inj h).1

/-- The only criterion of one word. -/
lemma singleton_eq_flatMap_words {token : String} {cs : List Criterion} :
    [token] = cs.flatMap Criterion.words ↔ token = "stubdom" ∧ cs = [.stubdom] := by
  constructor
  · intro h
    cases cs with
    | nil => cases h
    | cons c cs =>
      cases c with
      | stubdom =>
        obtain ⟨htoken,hnil⟩ := List.cons.inj h
        obtain rfl : cs = [] := @flatMap_words_injective cs [] hnil.symm
        exact ⟨htoken,rfl⟩
      | names f value => cases (List.cons.inj h).2
      | ifBoolean attr value => cases (List.cons.inj h).2
  · rintro ⟨rfl,rfl⟩
    rfl

/-- An `if-boolean` without a value is no criterion. -/
lemma ifBoolean_ne_flatMap_words (attr : String) (cs : List Criterion) :
    ["if-boolean", attr] ≠ cs.flatMap Criterion.words := by
  intro h
  cases cs with
  | nil => cases h
  | cons c cs =>
    cases c with
    | stubdom => exact absurd (List.cons.inj h).1 (by decide)
    | names f value => exact f.keyword_ne.1 (List.cons.inj h).1.symm
    | ifBoolean attr value => cases (List.cons.inj (List.cons.inj h).2).2

/-- The criterion in front is written to the rule before the others. -/
lemma exists_criteria_cons {c : Criterion} {words rest : List String} {current r : Rule}
    (h : pairedReading words = c.words ++ pairedReading rest) :
    (∃ cs : List Criterion, pairedReading rest = cs.flatMap Criterion.words ∧
        r = cs.foldl Rule.state (current.state c)) ↔
      ∃ cs : List Criterion, pairedReading words = cs.flatMap Criterion.words ∧ r = cs.foldl Rule.state current := by
  rw [h, exists_flatMap_words_cons]

/-- The loop accepts what the words, as they are read, state. -/
lemma criteria_eq_true_iff {current r : Rule} {words : List String} :
    criteria current words = .ok (true, r) ↔
      ∃ cs : List Criterion, pairedReading words = cs.flatMap Criterion.words ∧ r = cs.foldl Rule.state current := by
  fun_induction criteria current words with
  | case1 current =>
    constructor
    · intro h
      obtain ⟨-,rfl⟩ := Prod.mk.inj (Except.ok.inj h)
      exact ⟨[],rfl,rfl⟩
    · rintro ⟨cs,hcs,rfl⟩
      obtain rfl : cs = [] := @flatMap_words_injective cs [] hcs.symm
      rfl
  | case2 current token hs =>
    constructor
    · intro h
      cases (Prod.mk.inj (Except.ok.inj h)).1
    · rintro ⟨cs,hcs,-⟩
      obtain ⟨rfl,-⟩ := singleton_eq_flatMap_words.mp hcs
      exact absurd rfl hs
  | case3 current hs =>
    constructor
    · intro h
      obtain ⟨-,rfl⟩ := Prod.mk.inj (Except.ok.inj h)
      exact ⟨[.stubdom],rfl,rfl⟩
    · rintro ⟨cs,hcs,rfl⟩
      obtain ⟨-,rfl⟩ := singleton_eq_flatMap_words.mp hcs
      rfl
  | case4 current token hs hne =>
    constructor
    · intro h
      obtain ⟨r',-,h⟩ := bind_eq_ok.mp h
      cases (Prod.mk.inj (Except.ok.inj h)).1
    · rintro ⟨cs,hcs,-⟩
      exact absurd (singleton_eq_flatMap_words.mp hcs).1 hne
  | case8 current field =>
    constructor
    · intro h
      cases h
    · rintro ⟨cs,hcs,-⟩
      exact absurd hcs (ifBoolean_ne_flatMap_words field cs)
  | case13 current token field rest h₁ h₂ h₃ h₄ h₅ h₆ h₇ =>
    constructor
    · intro h
      obtain ⟨r',-,h⟩ := bind_eq_ok.mp h
      cases (Prod.mk.inj (Except.ok.inj h)).1
    · rintro ⟨cs,hcs,-⟩
      rw [pairedReading_other h₄ h₅] at hcs
      refine absurd hcs (not_flatMap_words ?_ h₅ h₄ cs)
      rintro (_ | _ | _ | _ | _)
      · exact h₁
      · exact h₂
      · exact h₃
      · exact h₆
      · exact h₇
  | case9 current field value rest _ _ _ ih => exact ih.trans (exists_criteria_cons (pairedReading_ifBoolean field value rest))
  | case10 current field rest _ _ _ _ ih => exact ih.trans (exists_criteria_cons (pairedReading_stubdom field rest))
  | case5 current field rest ih => exact ih.trans (exists_criteria_cons (pairedReading_names .destination field rest))
  | case6 current field rest _ ih => exact ih.trans (exists_criteria_cons (pairedReading_names .domType field rest))
  | case7 current field rest _ _ ih => exact ih.trans (exists_criteria_cons (pairedReading_names .interface field rest))
  | case11 current field rest _ _ _ _ _ ih =>
    exact ih.trans (exists_criteria_cons (pairedReading_names .path field rest))
  | case12 current field rest _ _ _ _ _ _ ih =>
    exact ih.trans (exists_criteria_cons (pairedReading_names .member field rest))

lemma Rule.Sound.state {r : Rule} (h : r.Sound) (c : Criterion) : (r.state c).Sound := by
  rw [Rule.sound_iff] at h ⊢
  cases c with
  | stubdom => exact h
  | ifBoolean attr value => simp [Rule.state, h]
  | names field value => cases field <;> simp [Rule.state, Rule.setField, h]

lemma complete_other {token : String} (hbool : token ≠ "if-boolean") (value : String) (rest : List String) :
    Complete (token :: value :: rest) ↔ (token ∈ pairKeywords → Complete rest) := by
  cases rest <;> simp [Complete, hbool]

lemma complete_pair {token : String} (hbool : token ≠ "if-boolean") (h : token ∈ pairKeywords) (value : String)
    (rest : List String) : Complete (token :: value :: rest) ↔ Complete rest := by
  rw [complete_other hbool]
  exact ⟨fun hrest => hrest h,fun hrest _ => hrest⟩

/-- The loop comes back exactly when no word is missing behind an `if-boolean`. -/
lemma returns_criteria_iff {current : Rule} (hs : current.Sound) (words : List String) :
    Returns (criteria current words) ↔ Complete words := by
  fun_induction criteria current words with
  | case1 current => simp [Complete]
  | case2 current token hs' => simp [Complete]
  | case3 current hs' => simp [Complete]
  | case4 current token hs' hne => simp [Complete, freeRule_of_sound hs]
  | case8 current field => simp [Complete]
  | case13 current token field rest h₁ h₂ h₃ h₄ h₅ h₆ h₇ =>
    simp [complete_other h₄, freeRule_of_sound hs, pairKeywords, h₁, h₂, h₃, h₅, h₆, h₇]
  | case9 current field value rest _ _ _ ih => exact ih (hs.state (.ifBoolean field (value = "true")))
  | case5 current field rest ih =>
    rw [complete_pair (by decide) (by decide)]
    exact ih (hs.state (.names .destination field))
  | case6 current field rest _ ih =>
    rw [complete_pair (by decide) (by decide)]
    exact ih (hs.state (.names .domType field))
  | case7 current field rest _ _ ih =>
    rw [complete_pair (by decide) (by decide)]
    exact ih (hs.state (.names .interface field))
  | case10 current field rest _ _ _ _ ih =>
    rw [complete_pair (by decide) (by decide)]
    exact ih (hs.state .stubdom)
  | case11 current field rest _ _ _ _ _ ih =>
    rw [complete_pair (by decide) (by decide)]
    exact ih (hs.state (.names .path field))
  | case12 current field rest _ _ _ _ _ _ ih =>
    rw [complete_pair (by decide) (by decide)]
    exact ih (hs.state (.names .member field))

end Criteria

section Texts
variable {text : String}

/-- Neither `all` nor `out-any` begins a criterion. -/
lemma head?_flatMap_words (cs : List Criterion) : (cs.flatMap Criterion.words).head? ≠ some "all" ∧
    (cs.flatMap Criterion.words).head? ≠ some "out-any" := by
  cases cs with
  | nil => simp
  | cons c cs =>
    cases c with
    | stubdom => simp [Criterion.words]
    | names f value => simp [Criterion.words, f.keyword_ne]
    | ifBoolean attr value => simp [Criterion.words]

/-- What is stated does not depend on how it is taken apart. -/
lemma Follows.unique {r r₁ r₂ : Rule} {words : List String} (h₁ : Follows r words r₁) (h₂ : Follows r words r₂) :
    r₁ = r₂ := by
  rcases h₁ with ⟨hhead,rfl⟩ | ⟨hhead,rfl⟩ | ⟨cs,-,rfl,rfl⟩
  · rcases h₂ with ⟨-,rfl⟩ | ⟨hhead',-⟩ | ⟨ds,-,rfl,-⟩
    · rfl
    · rw [hhead] at hhead'
      exact absurd (Option.some.inj hhead') (by decide)
    · exact absurd hhead (head?_flatMap_words ds).1
  · rcases h₂ with ⟨hhead',-⟩ | ⟨-,rfl⟩ | ⟨ds,-,rfl,-⟩
    · rw [hhead] at hhead'
      exact absurd (Option.some.inj hhead') (by decide)
    · rfl
    · exact absurd hhead (head?_flatMap_words ds).2
  · rcases h₂ with ⟨hhead,-⟩ | ⟨hhead,-⟩ | ⟨ds,-,heq,rfl⟩
    · exact absurd hhead (head?_flatMap_words cs).1
    · exact absurd hhead (head?_flatMap_words cs).2
    · rw [flatMap_words_injective heq]

lemma policyWord_injective {p q : Bool} (h : policyWord p = policyWord q) : p = q := by
  cases p <;> cases q <;> first | rfl | exact absurd h (by decide)

lemma states_cons_iff {policy : Bool} {words : List String} {r : Rule} :
    States text (policyWord policy :: words) r ↔ Follows { policy, ruleString := .live text } words r := by
  constructor
  · rintro ⟨p,rest,heq,h⟩
    obtain ⟨hp,rfl⟩ := List.cons.inj heq
    rw [policyWord_injective hp]
    exact h
  · intro h
    exact ⟨policy,words,rfl,h⟩

lemma States.unique {words : List String} {r₁ r₂ : Rule} (h₁ : States text words r₁) (h₂ : States text words r₂) :
    r₁ = r₂ := by
  obtain ⟨policy,rest,rfl,hfollows⟩ := h₁
  exact hfollows.unique (states_cons_iff.mp h₂)

/-- No word is missing: there is one after the policy, and one behind every `if-boolean`. -/
def NoneMissing (words : List String) : Prop := words.length ≠ 1 ∧ Complete words.tail

lemma complete_of_notMem {token : String} {rest : List String} (hbool : token ≠ "if-boolean")
    (h : token ∉ pairKeywords) : Complete (token :: rest) := by
  cases rest with
  | nil => trivial
  | cons value rest => exact (complete_other hbool value rest).mpr fun hmem => absurd hmem h

lemma returns_createRule_iff : Returns (createRule {} text) ↔ NoneMissing (strtok text) := by
  unfold createRule NoneMissing
  split_ifs with hempty
  · subst hempty
    exact ⟨fun _ => ⟨by decide,trivial⟩,fun _ => ⟨_,rfl⟩⟩
  · cases strtok text with
    | nil => exact ⟨fun _ => ⟨by decide,trivial⟩,fun _ => ⟨_,rfl⟩⟩
    | cons first words =>
      cases words with
      | nil => simp
      | cons token rest =>
        have hlength : (first :: token :: rest).length ≠ 1 := by simp
        simp only [hlength, List.tail_cons, ne_eq, not_false_eq_true, true_and]
        split_ifs with hall hout
        · subst hall
          exact ⟨fun _ => complete_of_notMem (by decide) (by decide),fun _ => ⟨_,rfl⟩⟩
        · subst hout
          exact ⟨fun _ => complete_of_notMem (by decide) (by decide),fun _ => ⟨_,rfl⟩⟩
        · apply returns_criteria_iff
          simp [Rule.sound_iff]

lemma head?_pairedReading (words : List String) : (pairedReading words).head? = words.head? := by
  fun_cases pairedReading words <;> rfl

/-- A text is accepted for what it states as it is read. -/
lemma createRule_eq_true_iff {r : Rule} : createRule {} text = .ok (true, r) ↔ States text (readAs (strtok text)) r := by
  have hblank : ∀ r', ¬ States text (readAs []) r' := by
    rintro r' ⟨policy,rest,heq,-⟩
    cases heq
  unfold createRule
  split_ifs with hempty
  · subst hempty
    refine ⟨fun h => ?_,fun h => absurd h (hblank r)⟩
    cases (Prod.mk.inj (Except.ok.inj h)).1
  · cases strtok text with
    | nil =>
      refine ⟨fun h => ?_,fun h => absurd h (hblank r)⟩
      cases (Prod.mk.inj (Except.ok.inj h)).1
    | cons first words =>
      rw [readAs, states_cons_iff]
      cases words with
      | nil =>
        constructor
        · intro h
          cases h
        · rintro (⟨hhead,-⟩ | ⟨hhead,-⟩ | ⟨cs,hne,hcs,-⟩)
          · cases hhead
          · cases hhead
          · exact absurd (@flatMap_words_injective cs [] hcs.symm) hne
      | cons token rest =>
        have hhead := head?_pairedReading (token :: rest)
        have hcriteria : ∀ cs : List Criterion, pairedReading (token :: rest) = cs.flatMap Criterion.words →
            token ≠ "all" ∧ token ≠ "out-any" := by
          intro cs hcs
          rw [hcs] at hhead
          obtain ⟨hall,hout⟩ := head?_flatMap_words cs
          rw [hhead] at hall hout
          exact ⟨fun h => hall (congrArg some h),fun h => hout (congrArg some h)⟩
        simp only [Follows, hhead, List.head?_cons, Option.some.injEq]
        split_ifs with hall hout
        · subst hall
          constructor
          · intro h
            exact .inl ⟨rfl,(Prod.mk.inj (Except.ok.inj h)).2.symm⟩
          · rintro (⟨-,rfl⟩ | ⟨h,-⟩ | ⟨cs,-,hcs,-⟩)
            · rfl
            · exact absurd h (by decide)
            · exact absurd rfl (hcriteria cs hcs).1
        · subst hout
          constructor
          · intro h
            exact .inr (.inl ⟨rfl,(Prod.mk.inj (Except.ok.inj h)).2.symm⟩)
          · rintro (⟨h,-⟩ | ⟨-,rfl⟩ | ⟨cs,-,hcs,-⟩)
            · exact absurd h (by decide)
            · rfl
            · exact absurd rfl (hcriteria cs hcs).2
        · rw [criteria_eq_true_iff]
          constructor
          · rintro ⟨cs,hcs,rfl⟩
            refine .inr (.inr ⟨cs,?_,hcs,rfl⟩)
            rintro rfl
            rw [hcs] at hhead
            cases hhead
          · rintro (⟨h,-⟩ | ⟨h,-⟩ | ⟨cs,-,hcs,rfl⟩)
            · exact absurd h hall
            · exact absurd h hout
            · exact ⟨cs,hcs,rfl⟩

/-- `create_rule` is true to the syntax exactly on the texts that have no word missing and that state the same
as they are read: with the word behind a `stubdom` left out, `false` for what is not `true` behind an
`if-boolean`, and `deny` for what is not `allow`. -/
theorem createRule_meetsSyntax_iff : MeetsSyntax text ↔ NoneMissing (strtok text) ∧
    ∀ r, States text (strtok text) r ↔ States text (readAs (strtok text)) r := by
  rw [← returns_createRule_iff]
  constructor
  · rintro ⟨ok,r,hcreate,hiff,hstates⟩
    refine ⟨⟨_,hcreate⟩,fun r' => ?_⟩
    cases ok with
    | true =>
      have hread := createRule_eq_true_iff.mp hcreate
      constructor
      · intro h
        rw [h.unique (hstates rfl)]
        exact hread
      · intro h
        rw [h.unique hread]
        exact hstates rfl
    | false =>
      constructor
      · intro h
        cases hiff.mpr ⟨r',h⟩
      · intro h
        have htrue := createRule_eq_true_iff.mpr h
        rw [hcreate] at htrue
        cases htrue
  · rintro ⟨⟨⟨ok,r⟩,hcreate⟩,hsame⟩
    refine ⟨ok,r,hcreate,?_,?_⟩
    · constructor
      · rintro rfl
        exact ⟨r,(hsame r).mpr (createRule_eq_true_iff.mp hcreate)⟩
      · rintro ⟨r',h⟩
        have htrue := createRule_eq_true_iff.mpr ((hsame r').mp h)
        rw [hcreate] at htrue
        exact (Prod.mk.inj (Except.ok.inj htrue)).1
    · rintro rfl
      exact (hsame r).mpr (createRule_eq_true_iff.mp hcreate)

end Texts

/-- The word behind `stubdom` is taken for its value, and the rule is rejected. -/
theorem stubdom_swallows_keyword : ¬ MeetsSyntax "allow stubdom destination org.a" := by
  have hwords : strtok "allow stubdom destination org.a" =
      policyWord true :: [Criterion.stubdom, .names .destination "org.a"].flatMap Criterion.words := by decide +kernel
  have hcreate : (createRule {} "allow stubdom destination org.a").toOption.map Prod.fst = some false := by decide +kernel
  rintro ⟨ok,r,hok,hiff,-⟩
  have htrue : ok = true := by
    rw [hiff, hwords]
    exact ⟨_,states_cons_iff.mpr (.inr (.inr ⟨_,by decide,rfl,rfl⟩))⟩
  rw [hok, htrue] at hcreate
  cases hcreate

end Xctools.Broker
