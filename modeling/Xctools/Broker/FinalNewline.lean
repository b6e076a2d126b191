import Mathlib.Data.List.DropRight
import Xctools.Broker.PolicyLoad

/-! The last line of a policy file that does not end in a newline. `build_etc_policy` takes the last character
of every line for its newline, so the rule of that line is read without its last character. -/
namespace Xctools.Broker
open Machine

section LastLine

/-- What comes before the last line, and the last line. -/
def linesBefore (content : List Char) : List Char := content.rdropWhile (· ≠ '\n')
def lastLine (content : List Char) : List Char := content.rtakeWhile (· ≠ '\n')

lemma getlines_append_line {l : List Char} (hl : '\n' ∉ l) : getlines (l ++ ['\n']) = [l ++ ['\n']] := by
  induction l with
  | nil => rfl
  | cons c l ih =>
    obtain ⟨hc,hl⟩ := not_or.mp (mt List.mem_cons.mpr hl)
    rw [List.cons_append, getlines, if_neg (Ne.symm hc), ih hl]

lemma getlines_line {l : List Char} (hl : '\n' ∉ l) (hne : l ≠ []) : getlines l = [l] := by
  induction l with
  | nil => exact absurd rfl hne
  | cons c l ih =>
    obtain ⟨hc,hl⟩ := not_or.mp (mt List.mem_cons.mpr hl)
    rw [getlines, if_neg (Ne.symm hc)]
    by_cases hnil : l = []
    · rw [hnil]
      rfl
    · rw [ih hl hnil]

lemma getlines_ne_nil {l : List Char} (h : l ≠ []) : getlines l ≠ [] := by
  cases l with
  | nil => exact absurd rfl h
  | cons c l =>
    rw [getlines]
    split_ifs
    · exact List.cons_ne_nil _ _
    · split <;> exact List.cons_ne_nil _ _

/-- Behind a newline a new line begins. -/
lemma getlines_newline (a b : List Char) : getlines (a ++ '\n' :: b) = getlines (a ++ ['\n']) ++ getlines b := by
  induction a with
  | nil => rfl
  | cons c a ih =>
    rw [List.cons_append, List.cons_append, getlines, getlines, ih]
    split_ifs
    · rfl
    · cases hlines : getlines (a ++ ['\n']) with
      | nil => exact absurd hlines (getlines_ne_nil (by simp))
      | cons line lines => rfl

lemma getlines_append_of_getLast {a : List Char} (ha : ∀ c ∈ a.getLast?, c = '\n') (b : List Char) :
    getlines (a ++ b) = getlines a ++ getlines b := by
  rcases List.eq_nil_or_concat a with rfl | ⟨a,c,rfl⟩
  · rfl
  · obtain rfl : c = '\n' := ha c (by simp)
    simpa using getlines_newline a b

lemma newline_notMem_lastLine (content : List Char) : '\n' ∉ lastLine content := by
  intro h
  have hne := List.mem_rtakeWhile_imp h
  simp at hne

lemma linesBefore_append_lastLine (content : List Char) : linesBefore content ++ lastLine content = content :=
  List.rdropWhile_append_rtakeWhile

lemma getLast?_linesBefore (content : List Char) : ∀ c ∈ (linesBefore content).getLast?, c = '\n' := by
  intro c hc
  by_cases hne : linesBefore content = []
  · rw [hne] at hc
    cases hc
  · rw [List.getLast?_eq_some_getLast hne] at hc
    obtain rfl := Option.some.inj hc
    have hlast := List.rdropWhile_last_not (fun c => decide (c ≠ '\n')) content hne
    rw [decide_eq_true_eq, not_not] at hlast
    exact hlast

/-- The lines of a file, with the last one as it stands and with its newline. -/
lemma getlines_eq_append (content : List Char) (h : lastLine content ≠ []) :
    getlines content = getlines (linesBefore content) ++ [lastLine content] := by
  have hsplit := getlines_append_of_getLast (getLast?_linesBefore content) (lastLine content)
  rw [linesBefore_append_lastLine, getlines_line (newline_notMem_lastLine content) h] at hsplit
  exact hsplit

lemma getlines_newline_eq_append (content : List Char) :
    getlines (content ++ ['\n']) = getlines (linesBefore content) ++ [lastLine content ++ ['\n']] := by
  have hsplit := getlines_append_of_getLast (getLast?_linesBefore content) (lastLine content ++ ['\n'])
  rw [getlines_append_line (newline_notMem_lastLine content), ← List.append_assoc,
    linesBefore_append_lastLine] at hsplit
  exact hsplit

end LastLine

section Runs
variable {lineBuffer : ℕ → ℕ} {slot : Rule}

/-- The loop of `build_etc_policy` in front of further lines: the rules so far, the number of slots left and
what is left in the current one. -/
def etcRun (lineBuffer : ℕ → ℕ) : ℕ → Rule → List (List Char) → Outcome (List Rule × ℕ × Rule)
  | 0, slot, _ => .ok ([], 0, slot)
  | n + 1, slot, [] => .ok ([], n + 1, slot)
  | n + 1, slot, line :: lines =>
    match ruleText lineBuffer line with
    | none => etcRun lineBuffer (n + 1) slot lines
    | some text => do
      let (ok, r) ← createRule slot text
      if ok then
        let (rules, state) ← etcRun lineBuffer n {} lines
        return (r :: rules, state)
      else etcRun lineBuffer (n + 1) (← freeRule r) lines

lemma etcLoop_append (n : ℕ) (slot : Rule) (lines more : List (List Char)) :
    etcLoop lineBuffer n slot (lines ++ more) = etcRun lineBuffer n slot lines >>= fun s =>
      etcLoop lineBuffer s.2.1 s.2.2 more >>= fun rules => .ok (s.1 ++ rules) := by
  induction lines generalizing n slot with
  | nil =>
    cases n with
    | zero => simp [etcRun, etcLoop]
    | succ n =>
      simp only [etcRun, ok_bind, List.nil_append]
      cases etcLoop lineBuffer (n + 1) slot more <;> rfl
  | cons line lines ih =>
    cases n with
    | zero => simp [etcRun, etcLoop]
    | succ n =>
      rw [List.cons_append, etcLoop, etcRun]
      cases ruleText lineBuffer line with
      | none => exact ih (n + 1) slot
      | some text =>
        simp only
        cases createRule slot text with
        | error e => rfl
        | ok created =>
          obtain ⟨ok,r⟩ := created
          simp only [ok_bind]
          cases ok with
          | true =>
            simp only [if_true, ih n {}]
            cases etcRun lineBuffer n {} lines with
            | error e => rfl
            | ok s =>
              simp only [ok_bind, pure_eq_ok]
              cases etcLoop lineBuffer s.2.1 s.2.2 more <;> rfl
          | false =>
            simp only [Bool.false_eq_true, if_false]
            cases freeRule r with
            | error e => rfl
            | ok r' => exact ih (n + 1) r'

/-- The text of a line, if it has one, does not stop the process in this slot. -/
def Outlasts (slot : Rule) (text : Option String) : Prop :=
  ∀ t ∈ text, ∃ ok r, createRule slot t = .ok (ok, r) ∧ (ok = false → r.Sound)

/-- No rule is made of the text of a line. -/
def NoRule (text : Option String) : Prop := ∀ t ∈ text, accepted t = none

/-- The newline of the line makes no difference in this slot: the line reads the same with it and without it,
or it makes no rule either way and stops the process in both cases or in none. -/
def EndsAlike (lineBuffer : ℕ → ℕ) (slot : Rule) (line : List Char) : Prop :=
  ruleText lineBuffer line = ruleText lineBuffer (line ++ ['\n']) ∨
    NoRule (ruleText lineBuffer line) ∧ NoRule (ruleText lineBuffer (line ++ ['\n'])) ∧
      (Outlasts slot (ruleText lineBuffer line) ↔ Outlasts slot (ruleText lineBuffer (line ++ ['\n'])))

/-- Whether a text is a rule does not depend on the slot, and the rule keeps the text. -/
lemma createRule_eq_ok {t : String} {ok : Bool} {r : Rule} (h : createRule slot t = .ok (ok, r)) :
    (accepted t).isSome = ok ∧ (ok = true → r.ruleString = .live t) := by
  rcases fills_or_fatal t with ⟨ok',r',hf⟩ | hf
  · obtain ⟨p,hp,-⟩ := hf.slot slot
    obtain ⟨rfl,rfl⟩ := Prod.mk.inj (Except.ok.inj (hp.symm.trans h))
    refine ⟨?_,?_⟩
    · rw [hf.accepted]
      cases ok' <;> rfl
    · rintro rfl
      have hne : t ≠ "" := by
        rintro rfl
        cases (Prod.mk.inj (Except.ok.inj h)).1
      have hstring := hf.string
      rw [keptText, if_neg hne] at hstring
      simp only [Rule.overlay, hstring, Ptr.overlaid]
  · obtain ⟨rfl,-⟩ := hf slot ok r h
    refine ⟨?_,fun hok => absurd hok Bool.false_ne_true⟩
    unfold accepted
    split
    · rename_i hblank
      exact absurd (hf {} true _ hblank).1 (by decide)
    · rfl

/-- A rule is one for every slot. -/
lemma createRule_of_accepted {t : String} {r : Rule} (h : accepted t = some r) (slot : Rule) :
    ∃ r', createRule slot t = .ok (true, r') := by
  rcases fills_or_fatal t with ⟨ok,r',hf⟩ | hf
  · obtain ⟨p,hp,-⟩ := hf.slot slot
    have hok := (createRule_eq_ok hp).1
    rw [h] at hok
    exact ⟨_,hok ▸ hp⟩
  · unfold accepted at h
    split at h
    · rename_i hblank
      exact absurd (hf {} true _ hblank).1 (by decide)
    · cases h

/-- What the text of the last line adds to the rules. -/
def Adds (slot : Rule) (text : Option String) (rules : List Rule) : Prop :=
  (∃ t ∈ text, ∃ r, createRule slot t = .ok (true, r) ∧ [r] = rules) ∨ (NoRule text ∧ Outlasts slot text ∧ [] = rules)

lemma etcLoop_singleton_iff {n : ℕ} {line : List Char} {rules : List Rule} :
    etcLoop lineBuffer (n + 1) slot [line] = .ok rules ↔ Adds slot (ruleText lineBuffer line) rules := by
  have hnil : ∀ m slot, etcLoop lineBuffer m slot [] = .ok [] := by
    intro m slot
    cases m <;> rfl
  rw [etcLoop, Adds]
  cases ruleText lineBuffer line with
  | none => simp [hnil, NoRule, Outlasts]
  | some t =>
    simp only [Option.mem_some_iff, exists_eq_left', NoRule, Outlasts, forall_eq', hnil]
    cases hcreate : createRule slot t with
    | error e => simp
    | ok created =>
      obtain ⟨ok,r⟩ := created
      have hrule := (createRule_eq_ok hcreate).1
      cases ok with
      | true =>
        have hsome : accepted t ≠ none := Option.isSome_iff_ne_none.mp hrule
        simp [hsome]
      | false =>
        have hnone : accepted t = none := by simpa using hrule
        by_cases hs : r.Sound
        · simp [hnone, freeRule_of_sound hs, hs]
        · have hfree : ∀ r', freeRule r ≠ .ok r' := fun r' hr' => hs (freeRule_eq_ok hr').1
          simp [hnone, bind_eq_ok, hfree, hs]

lemma adds_of_noRule {text : Option String} (h : NoRule text) (rules : List Rule) :
    Adds slot text rules ↔ Outlasts slot text ∧ [] = rules := by
  constructor
  · rintro (⟨t,ht,r,hr,-⟩ | ⟨-,houtlasts,hrules⟩)
    · have hok := (createRule_eq_ok hr).1
      rw [h t ht] at hok
      cases hok
    · exact ⟨houtlasts,hrules⟩
  · rintro ⟨houtlasts,hrules⟩
    exact .inr ⟨h,houtlasts,hrules⟩

/-- A text that makes a rule is seen in the rule. -/
lemma eq_or_noRule {a b : Option String} (h : ∀ rules, Adds slot a rules → Adds slot b rules) : a = b ∨ NoRule a := by
  by_contra hne
  obtain ⟨hab,hrule⟩ := not_or.mp hne
  apply hrule
  intro t ht
  by_contra hnone
  obtain ⟨r,hr⟩ := Option.ne_none_iff_exists'.mp hnone
  obtain ⟨r',hr'⟩ := createRule_of_accepted hr slot
  rcases h [r'] (.inl ⟨t,ht,r',hr',rfl⟩) with ⟨t',ht',r'',hr'',heq⟩ | ⟨-,-,heq⟩
  · obtain rfl : r'' = r' := List.singleton_inj.mp heq
    have hstring := (createRule_eq_ok hr').2 rfl
    rw [(createRule_eq_ok hr'').2 rfl] at hstring
    rw [Ptr.live.inj hstring] at ht'
    exact hab (ht.trans ht'.symm)
  · cases heq

/-- Two texts add the same only if they are the same or no rule is made of them. -/
lemma adds_iff_adds {a b : Option String} : (∀ rules, Adds slot a rules ↔ Adds slot b rules) ↔
    a = b ∨ NoRule a ∧ NoRule b ∧ (Outlasts slot a ↔ Outlasts slot b) := by
  constructor
  · intro h
    rcases eq_or_noRule fun rules => (h rules).mp with hab | ha
    · exact .inl hab
    rcases eq_or_noRule fun rules => (h rules).mpr with hab | hb
    · exact .inl hab.symm
    refine .inr ⟨ha,hb,?_⟩
    have hnil := h []
    rw [adds_of_noRule ha, adds_of_noRule hb] at hnil
    simpa using hnil
  · rintro (rfl | ⟨ha,hb,hiff⟩) rules
    · exact Iff.rfl
    · rw [adds_of_noRule ha, adds_of_noRule hb, hiff]

end Runs

section Law
variable (src : PolicySource) (content : List Char)

/-- The rules of a file with this content. -/
def etcRules : Outcome (List Rule) := buildEtcPolicy { src with file := some content }

/-- A line without characters adds nothing. -/
lemma etcLoop_append_nil (n : ℕ) (slot : Rule) (lines : List (List Char)) :
    etcLoop src.lineBuffer n slot (lines ++ [[]]) = etcLoop src.lineBuffer n slot lines := by
  have hblank : ∀ m slot, etcLoop src.lineBuffer m slot [[]] = etcLoop src.lineBuffer m slot [] := by
    intro m slot
    cases m with
    | zero => rfl
    | succ m => simp [etcLoop, ruleText]
  have hlines := @etcLoop_append src.lineBuffer n slot lines []
  rw [List.append_nil] at hlines
  rw [etcLoop_append, hlines]
  simp only [hblank]

lemma etcRules_eq : etcRules src content =
    etcLoop src.lineBuffer maxRules {} (getlines (linesBefore content) ++ [lastLine content]) := by
  by_cases hnil : lastLine content = []
  · have hcontent := linesBefore_append_lastLine content
    rw [hnil, List.append_nil] at hcontent
    rw [hnil, etcLoop_append_nil, hcontent]
    rfl
  · rw [← getlines_eq_append content hnil]
    rfl

/-- The rules are the same with a newline at the end of the file, exactly if that newline makes no difference
to the last line in the slot that is left for it, or if there is no slot left. -/
theorem final_newline_iff :
    (∀ rules, etcRules src content = .ok rules ↔ etcRules src (content ++ ['\n']) = .ok rules) ↔
      ∀ rules room slot, etcRun src.lineBuffer maxRules {} (getlines (linesBefore content)) = .ok (rules, room, slot) →
        room = 0 ∨ EndsAlike src.lineBuffer slot (lastLine content) := by
  have hwith : etcRules src (content ++ ['\n']) =
      etcLoop src.lineBuffer maxRules {} (getlines (linesBefore content) ++ [lastLine content ++ ['\n']]) := by
    rw [← getlines_newline_eq_append]
    rfl
  rw [hwith, etcRules_eq, etcLoop_append, etcLoop_append]
  cases hrun : etcRun src.lineBuffer maxRules {} (getlines (linesBefore content)) with
  | error e => simp
  | ok state =>
    obtain ⟨before,room,slot⟩ := state
    -- what was read before is the same, so only what the last line adds counts
    have hstep : (∀ rules,
        (etcLoop src.lineBuffer room slot [lastLine content] >>= fun added => .ok (before ++ added)) = .ok rules ↔
        (etcLoop src.lineBuffer room slot [lastLine content ++ ['\n']] >>= fun added => .ok (before ++ added)) =
          .ok rules) ↔ room = 0 ∨ EndsAlike src.lineBuffer slot (lastLine content) := by
      cases room with
      | zero => simp [etcLoop]
      | succ n =>
        rw [EndsAlike, ← adds_iff_adds]
        simp only [bind_eq_ok, Except.ok.injEq, etcLoop_singleton_iff, Nat.add_one_ne_zero, false_or]
        constructor
        · intro h rules
          simpa using h (before ++ rules)
        · intro h rules
          simp only [h]
    refine hstep.trans ⟨?_,fun h => h before room slot rfl⟩
    rintro h _ _ _ ⟨⟩
    exact h

end Law

/-- A source of short lines only. -/
def shortSource : PolicySource := ⟨none, fun _ => 120, none, fun _ => none⟩

/-- Without its newline the last rule is read as another text, and is gone. -/
theorem final_newline_missed :
    etcRules shortSource "deny all\nallow all".toList = .ok [{ all := true, ruleString := .live "deny all" }] ∧
    etcRules shortSource ("deny all\nallow all".toList ++ ['\n']) = .ok [{ all := true, ruleString := .live "deny all" },
      { all := true, policy := true, ruleString := .live "allow all" }] ∧
    ¬ ∀ rules, etcRules shortSource "deny all\nallow all".toList = .ok rules ↔
      etcRules shortSource ("deny all\nallow all".toList ++ ['\n']) = .ok rules := by
  have hwithout : etcRules shortSource "deny all\nallow all".toList =
      .ok [{ all := true, ruleString := .live "deny all" }] := by decide +kernel
  have hwith : etcRules shortSource ("deny all\nallow all".toList ++ ['\n']) =
      .ok [{ all := true, ruleString := .live "deny all" },
        { all := true, policy := true, ruleString := .live "allow all" }] := by decide +kernel
  refine ⟨hwithout,hwith,fun h => ?_⟩
  have hlonger := (h _).mpr hwith
  rw [hwithout] at hlonger
  exact absurd (congrArg List.length (Except.ok.inj hlonger)) (by decide)

end Xctools.Broker
