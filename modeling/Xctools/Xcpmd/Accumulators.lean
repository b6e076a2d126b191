import Xctools.Xcpmd.Arguments
import Xctools.Xcpmd.Entries

/-! The accumulators. A text goes through them as far as the parse goes on, and there is room for all of it
exactly if every name and argument that is finished on the way leaves a character for its terminator. -/
namespace Xctools.Xcpmd
open Machine

section Reading
variable (libc : Libc) (parseArg : String → Option Arg)

/-- What is read of a text fits the accumulators, as far as the parse goes on. -/
def FitsText (mode : ParsedType) (s₀ : Settings) (text : List Char) : Prop :=
  ∀ pre c rest q D, text = pre ++ c :: rest → Leads (.start, {}) pre (q, D) → D.Passed libc parseArg mode s₀ →
    ∀ q' D', readStep (q, D) c = some (q', D') → D'.Fits

/-- The machine is in the middle of a text, with the settings of what it has read. -/
structure InText (mode : ParsedType) (s₀ : Settings) (base : ParseData) (text pre : List Char) (D : Draft)
    (d : ParseData) : Prop where
  tracking : Tracking libc text pre D d
  settled : UpToDate libc parseArg mode s₀ D d
  fixed : Fixed base d

variable {libc parseArg} {mode : ParsedType} {s₀ : Settings} {base d d' : ParseData} {text pre rest : List Char}
  {D D' : Draft} {c : Char} {a : Option ParseAction} {q q' : ParseState}

lemma Leads.concat (h : Leads (.start, {}) (pre ++ [c]) (q', D')) :
    ∃ q D, Leads (.start, {}) pre (q, D) ∧ readStep (q, D) c = some (q', D') := by
  unfold Leads at h
  rw [List.foldlM_append] at h
  obtain ⟨⟨q,D⟩,hpre,hlast⟩ := Option.bind_eq_some_iff.mp h
  refine ⟨q,D,hpre,?_⟩
  rw [List.foldlM_cons] at hlast
  obtain ⟨s,hs,hnil⟩ := Option.bind_eq_some_iff.mp hlast
  rw [hs]
  exact hnil

lemma readStep_eq_some_iff : readStep (q, D) c = some (q', D') ↔ ∃ a, Edge q c a q' ∧ D' = D.take c a := by
  constructor
  · intro h
    obtain ⟨t,ht,heq⟩ := Option.map_eq_some_iff.mp h
    obtain ⟨rfl,rfl⟩ := Prod.mk.inj heq
    exact ⟨t.action,edge_sound ht,rfl⟩
  · rintro ⟨a,he,rfl⟩
    obtain ⟨t,ht,rfl,rfl⟩ := edge_complete he
    rw [readStep, ht]
    rfl

/-- The character that comes next in a text is the one under the pointer. -/
lemma Tracking.next (h : Tracking libc text pre D d) (htext : text = pre ++ c :: rest) :
    ∃ r, d.rest = c :: r ∧ ∀ a q, Edge d.state c a q → a ≠ some .acceptFns := by
  have hcut : cut (d.state = .accumStr) d.rest = c :: rest := List.append_cancel_left (h.split.symm.trans htext)
  cases hrest : d.rest with
  | nil =>
    rw [hrest] at hcut
    cases hcut
  | cons x r =>
    have hnull := h.null
    rw [hrest, List.mem_cons, not_or] at hnull
    have hline : ¬ (x = '\n' ∧ decide (d.state = .accumStr) = false) := by
      intro hline
      rw [hrest, cut, if_pos hline] at hcut
      cases hcut
    rw [hrest, cut, if_neg hline] at hcut
    obtain ⟨rfl,-⟩ := List.cons.inj hcut
    refine ⟨r,rfl,?_⟩
    rintro a q he rfl
    obtain ⟨hq,hc,-⟩ := he.of_acceptFns
    have hc' := hc.resolve_left (Ne.symm hnull.1)
    exact hline ⟨hc',by rcases hq with hq | hq <;> simp [hq]⟩

lemma InText.running (h : InText libc parseArg mode s₀ base text pre D d) : d.returned.isSome = false := by
  rw [h.tracking.returned]
  rfl

/-- How a round goes that reads a character of the text. -/
lemma InText.edge (h : InText libc parseArg mode s₀ base text pre D d) (hmode : mode ≠ .undetermined)
    (htext : text = pre ++ c :: rest) (he : Edge d.state c a q) :
    (Returns (parseRound libc parseArg d) ↔ (D.take c a).Fits) ∧ ∀ d', parseRound libc parseArg d = .ok d' →
      (d'.state = q ∧ InText libc parseArg mode s₀ base text (pre ++ [c]) (D.take c a) d') ∨
      (d'.returned = some false ∧ Told d' ∧ ¬ (D.take c a).Passed libc parseArg mode s₀) := by
  obtain ⟨r,hrest,ha⟩ := h.tracking.next htext
  have ha := ha a q he
  have hcur : d.current = c := by rw [ParseData.current, hrest, List.headD_cons]
  have hround := @parseRound_of_edge libc parseArg d a q (by rw [hcur]; exact he)
  have hdrawn := h.tracking.drawn_tail
  rw [hcur] at hround
  rw [hround]
  constructor
  · rw [returns_bind_ok]
    exact hdrawn.returns_iff h.tracking.position h.tracking.fits he ha
  · intro d' hd
    obtain ⟨d₁,hp,hd⟩ := bind_eq_ok.mp hd
    obtain rfl := Except.ok.inj hd
    have hset : UpToDate libc parseArg mode s₀ D { d with rest := d.rest.tail } := h.settled.congr rfl rfl rfl rfl
    rcases hset.take hdrawn h.tracking.position he ha hp hmode h.tracking.finished with ⟨hfin,hset'⟩ | ⟨hfin,htold,hnot⟩
    · have hfin₁ := hfin.trans h.tracking.finished
      have hfix := (perform_frame hp ha).toFixed
      rw [follow_of_ne hfin₁ (he.destination_ne ha)]
      exact .inl ⟨rfl,h.tracking.edge hrest he ha hp hfin₁,hset'.congr rfl rfl rfl rfl,h.fixed.trans
        ⟨hfix.parsing,hfix.actionsStr,hfix.undoActionsStr,hfix.applied⟩⟩
    · rw [follow, if_neg (he.destination_ne ha), hfin]
      exact .inr ⟨rfl,htold,hnot⟩

/-- Behind a part of the text that the parse goes on behind, the machine comes to. -/
lemma InText.reach (h : InText libc parseArg mode s₀ base text [] {} base) (hstart : base.state = .start)
    (hmode : mode ≠ .undetermined) (hgo : Unfailing (parseRound libc parseArg) (fun d => d.returned.isSome) base)
    (htext : text = pre ++ rest) (hlead : Leads (.start, {}) pre (q, D)) (hpass : D.Passed libc parseArg mode s₀) :
    ∃ d, ParseRounds libc parseArg base d ∧ InText libc parseArg mode s₀ base text pre D d ∧ d.state = q := by
  -- induction on the part, from its end
  induction pre using List.reverseRecOn generalizing rest q D with
  | nil =>
    obtain ⟨rfl,rfl⟩ := Prod.mk.inj (Option.some.inj hlead)
    exact ⟨base,.refl,h,hstart⟩
  | append_singleton pre c ih =>
    obtain ⟨q₁,D₁,hlead₁,hlast⟩ := hlead.concat
    obtain ⟨a,he,rfl⟩ := readStep_eq_some_iff.mp hlast
    rw [List.append_assoc] at htext
    obtain ⟨d₁,hrounds,hread,rfl⟩ := ih htext hlead₁ hpass.of_take
    obtain ⟨d,hd⟩ := hgo d₁ hrounds hread.running
    rcases (hread.edge hmode htext he).2 d hd with ⟨hq,hread'⟩ | ⟨-,-,hnot⟩
    · exact ⟨d,hrounds.tail ⟨hread.running,hd⟩,hread',hq⟩
    · exact absurd hpass hnot

/-- At the end of a text the machine goes to what comes behind it. -/
lemma InText.round_end (h : InText libc parseArg mode s₀ base text text D d)
    (hq : d.state = .start ∨ d.state = .acceptFn) : parseRound libc parseArg d =
      (match mode with
        | .arg | .varMap => .ok { d with rest := d.rest.tail, parsing := .undetermined, finished := true }
        | .condition => .ok (loadParseString { d with rest := d.rest.tail, parsing := .action } d.actionsStr)
        | .action => .ok (loadParseString { d with rest := d.rest.tail, parsing := .undoAction } d.undoActionsStr)
        | .undoAction => .ok { d with
            rest := d.rest.tail, applied := some (d.conditions, d.actions, d.undoActions), parsing := .undetermined,
            finished := true, conditions := [], actions := [], undoActions := [] }
        | .undetermined => .ok ({ d with rest := d.rest.tail }.fail fsmError
            "Parsing mode is unexpected type - this is likely a bug")) >>= fun d' => .ok (follow d' .acceptRule) := by
  have hcut : cut (d.state = .accumStr) d.rest = [] :=
    List.self_eq_append_right.mp h.tracking.split
  have hcur : d.current = '\x00' ∨ d.current = '\n' := by
    cases hrest : d.rest with
    | nil => exact .inl (by rw [ParseData.current, hrest, List.headD_nil])
    | cons c r =>
      by_cases hline : c = '\n' ∧ decide (d.state = .accumStr) = false
      · exact .inr (by rw [ParseData.current, hrest, List.headD_cons, hline.1])
      · rw [hrest, cut, if_neg hline] at hcut
        cases hcut
  have hdrawn := h.tracking.drawn_tail
  rw [(h.tracking.position.spelled hq).1] at hdrawn
  rw [parseRound_of_edge (.finish hq hcur)]
  unfold perform acceptFns
  dsimp only
  rw [acceptFn_of_nil hdrawn.name hdrawn.arg, ok_bind]
  dsimp only
  have hparsing := h.settled.parsing
  cases mode <;> simp only [hparsing]

/-- A round can be made wherever there is room for what the text says next. -/
lemma InText.progress (h : InText libc parseArg mode s₀ base text pre D d) (hmode : mode ≠ .undetermined)
    (hfits : FitsText libc parseArg mode s₀ text) : Returns (parseRound libc parseArg d) := by
  by_cases hedge : ∃ a q, Edge d.state d.current a q
  · obtain ⟨a,q,he⟩ := hedge
    by_cases ha : a = some .acceptFns
    · subst ha
      obtain ⟨hq,hcur,-⟩ := he.of_acceptFns
      have hcut : cut (d.state = .accumStr) d.rest = [] := by
        rw [show decide (d.state = .accumStr) = false by rcases hq with hq | hq <;> simp [hq]]
        cases hrest : d.rest with
        | nil => rfl
        | cons c rest =>
          rw [ParseData.current, hrest, List.headD_cons] at hcur
          have hc := hcur.resolve_left fun hc => h.tracking.null (by rw [hrest, hc]; exact List.mem_cons_self)
          rw [cut, if_pos ⟨hc,rfl⟩]
      have htext := h.tracking.split
      rw [hcut, List.append_nil] at htext
      subst htext
      rw [h.round_end hq]
      cases mode <;> exact ⟨_,rfl⟩
    · cases hrest : d.rest with
      | nil =>
        have hcur : d.current = '\x00' := by rw [ParseData.current, hrest, List.headD_nil]
        rw [hcur] at he
        obtain ⟨-,-,rfl⟩ := he.of_null.resolve_left ha
        rw [parseRound_of_edge (by rw [hcur]; exact he)]
        exact ⟨_,rfl⟩
      | cons c r =>
        have hcur : d.current = c := by rw [ParseData.current, hrest, List.headD_cons]
        rw [hcur] at he
        have hline : ¬ (c = '\n' ∧ decide (d.state = .accumStr) = false) := by
          rintro ⟨rfl,hquoted⟩
          exact of_decide_eq_false hquoted (he.of_newline.resolve_right ha)
        have htext := h.tracking.split
        rw [hrest, cut, if_neg hline] at htext
        refine (h.edge hmode htext he).1.mpr (hfits pre c _ d.state D htext h.tracking.leads h.settled.passed q _ ?_)
        exact readStep_eq_some_iff.mpr ⟨a,he,rfl⟩
  · push Not at hedge
    rw [parseRound_of_stuck hedge]
    exact ⟨_,rfl⟩

lemma told_stuck : Told d.stuck := by
  refine ⟨_,rfl,?_⟩
  rw [parseError, String.append_assoc, String.append_assoc]
  exact append_ne_empty (by decide)

/-- Everything a round can do in the middle of a text: the parse ends with a message, the machine leaves a string
that was not closed, it goes on, or it is at the end of the text. -/
lemma InText.round (h : InText libc parseArg mode s₀ base text pre D d) (hmode : mode ≠ .undetermined)
    (hd : parseRound libc parseArg d = .ok d') :
    (d'.returned = some false ∧ Told d') ∨ (Lost d' ∧ d'.returned = none) ∨
      (∃ pre' D', InText libc parseArg mode s₀ base text pre' D' d') ∨
      (text = pre ∧ D = { items := D.items } ∧ Taken D.items text ∧ (d.state = .start ∨ d.state = .acceptFn)) := by
  cases h.tracking.round hd with
  | stuck heq =>
    rw [heq]
    exact .inl ⟨rfl,told_stuck⟩
  | failed he ha hp hfin heq =>
    have hset : UpToDate libc parseArg mode s₀ D { d with rest := d.rest.tail } := h.settled.congr rfl rfl rfl rfl
    rcases hset.take h.tracking.drawn_tail h.tracking.position he ha hp hmode h.tracking.finished with ⟨hfin',-⟩ | ⟨-,htold,-⟩
    · rw [hfin', show ({ d with rest := d.rest.tail } : ParseData).finished = false from h.tracking.finished] at hfin
      cases hfin
    · rw [heq]
      exact .inl ⟨rfl,htold⟩
  | lost heq =>
    rw [heq]
    exact .inr (.inl ⟨⟨rfl,rfl⟩,rfl⟩)
  | edge he ha hp heq htrack =>
    have htext := htrack.split
    rw [List.append_assoc, List.singleton_append] at htext
    rcases (h.edge hmode htext he).2 d' hd with ⟨-,hread⟩ | ⟨hret,-,-⟩
    · exact .inr (.inr (.inl ⟨_,_,hread⟩))
    · rw [htrack.returned] at hret
      cases hret
  | finish hq hD hitems htext => exact .inr (.inr (.inr ⟨htext,hD,hitems,hq⟩))

end Reading

section Overflow
variable (libc : Libc) (parseArg : String → Option Arg)

/-- The parse goes on behind the whole of a text. -/
def GoesThrough (mode : ParsedType) (s₀ : Settings) (text : List Char) : Prop :=
  ∃ items, Spelled items text ∧ (s₀.after libc parseArg mode items).isSome = true

/-- No round of the parse writes beyond an accumulator. -/
abbrev Holding (d : ParseData) : Prop := Unfailing (parseRound libc parseArg) (fun d => d.returned.isSome) d

variable {libc parseArg} {mode : ParsedType} {s₀ : Settings} {base d d' : ParseData} {text : List Char} {R : Prop}

lemma returns_parse_iff {t : Option String} :
    Returns (parse libc parseArg d t) ↔ Holding libc parseArg (loadParseString d t) :=
  returns_loop_iff (fun _ _ => measure_parseRound) (Nat.le_succ _)

/-- The machine comes to the end of a text that the parse goes on behind. -/
lemma InText.arrive (h : InText libc parseArg mode s₀ base text [] {} base) (hstart : base.state = .start)
    (hmode : mode ≠ .undetermined) (hgo : Holding libc parseArg base) {items : List WrittenItem}
    (hitems : Spelled items text) (hpass : (s₀.after libc parseArg mode items).isSome = true) :
    ∃ d, ParseRounds libc parseArg base d ∧ InText libc parseArg mode s₀ base text text { items } d ∧
      (d.state = .start ∨ d.state = .acceptFn) := by
  obtain ⟨q,hlead,hq,-⟩ := hitems.leads
  obtain ⟨s,hs⟩ := Option.isSome_iff_exists.mp hpass
  obtain ⟨d,hrounds,hread,rfl⟩ := h.reach hstart hmode hgo (List.append_nil _).symm hlead ⟨s,hs,by simp⟩
  exact ⟨d,hrounds,hread,hq⟩

/-- The accumulators hold a text exactly if it fits them and they hold what comes behind it. -/
theorem InText.holding_iff (h : InText libc parseArg mode s₀ base text [] {} base) (hstart : base.state = .start)
    (hmode : mode ≠ .undetermined) (hnext : ∀ items d, InText libc parseArg mode s₀ base text text { items } d →
      (d.state = .start ∨ d.state = .acceptFn) → ∃ b, parseRound libc parseArg d = .ok b ∧ (Holding libc parseArg b ↔ R)) :
    Holding libc parseArg base ↔ FitsText libc parseArg mode s₀ text ∧ (GoesThrough libc parseArg mode s₀ text → R) := by
  constructor
  · intro hgo
    refine ⟨fun pre c rest q D htext hlead hpass q' D' hstep => ?_,fun ⟨items,hitems,hpass⟩ => ?_⟩
    · obtain ⟨d,hrounds,hread,rfl⟩ := h.reach hstart hmode hgo htext hlead hpass
      obtain ⟨a,he,rfl⟩ := readStep_eq_some_iff.mp hstep
      exact (hread.edge hmode htext he).1.mp (hgo d hrounds (hread.running))
    · obtain ⟨d,hrounds,hread,hq⟩ := h.arrive hstart hmode hgo hitems hpass
      obtain ⟨b,hb,hR⟩ := hnext items d hread hq
      exact hR.mp (hgo.rounds (hrounds.tail ⟨hread.running,hb⟩))
  · rintro ⟨hfits,hR⟩
    refine unfailing_of_invariant (P := fun d => (∃ pre D, InText libc parseArg mode s₀ base text pre D d) ∨ Lost d ∨
      Holding libc parseArg d) ?_ ?_ (.inl ⟨_,_,h⟩)
    · rintro d (⟨pre,D,hread⟩ | hlost | hgo) hdone
      · exact hread.progress hmode hfits
      · exact ⟨_,hlost.parseRound_eq⟩
      · exact hgo d .refl hdone
    · rintro d b (⟨pre,D,hread⟩ | hlost | hgo) hdone hb
      · rcases hread.round hmode hb with ⟨hret,-⟩ | ⟨hlost,-⟩ | hread' | ⟨rfl,hD,hitems,hq⟩
        · exact .inr (.inr (unfailing_of_done (by rw [hret]; rfl)))
        · exact .inr (.inl hlost)
        · exact .inl hread'
        · rw [hD] at hread
          obtain ⟨b',hb',hiff⟩ := hnext _ d hread hq
          obtain rfl := Except.ok.inj (hb'.symm.trans hb)
          obtain ⟨s,hs,-⟩ := hread.settled.passed
          exact .inr (.inr (hiff.mpr (hR ⟨_,hitems.spelled,Option.isSome_iff_exists.mpr ⟨s,hs⟩⟩)))
      · rw [hlost.round hb]
        exact .inr (.inr (unfailing_of_done rfl))
      · exact .inr (.inr (hgo.rounds (.single ⟨hdone,hb⟩)))

/-- The machine at the start of a text. -/
lemma inText_start {t : Option String} (hp : d.parsing = mode) (hfin : d.finished = false) (hargs : d.args = [])
    (hundo : d.undo = true) (hagree : HasSettings parseArg s₀ d) (hvars : mode = .varMap → d.vars = s₀.vars) :
    InText libc parseArg mode s₀ { loadParseString d t with state := .start, returned := none } (spelling t) [] {}
      { loadParseString d t with state := .start, returned := none } where
  tracking := tracking_start hfin hargs hundo
  settled := ⟨hp,s₀,rfl,by simp,⟨hagree.varMap,hagree.errorCode,hagree.message,hagree.finds⟩,fun hmode _ => hvars hmode⟩
  fixed := ⟨rfl,rfl,rfl,rfl⟩

lemma inText_vars {varMap : VarMap} {vars : VarStore} {t : Option String} :
    InText libc parseArg .varMap { varMap, vars } (loadParseString { parsing := .varMap, varMap, vars } t) (spelling t)
      [] {} (loadParseString { parsing := .varMap, varMap, vars } t) :=
  @inText_start libc parseArg .varMap { varMap, vars } { parsing := .varMap, varMap, vars } t rfl rfl rfl rfl
    ⟨rfl,rfl,rfl,fun _ => rfl⟩ fun _ => rfl

lemma after_of_ne {items : List WrittenItem} {s : Settings} (hmode : mode ≠ .varMap)
    (h : s₀.after libc parseArg mode items = some s) : s = s₀ := by
  induction items using List.reverseRecOn generalizing s with
  | nil => exact (Option.some.inj h).symm
  | append_singleton items w ih =>
    rw [Settings.after_append] at h
    obtain ⟨s₁,h₁,hw⟩ := Option.bind_eq_some_iff.mp h
    obtain rfl := ih h₁
    rw [Settings.afterItem, if_neg hmode] at hw
    split_ifs at hw
    exact (Option.some.inj hw).symm

/-- From the end of the conditions or the actions the machine goes to the start of what is next. -/
lemma InText.next {items : List WrittenItem} {next : ParsedType} {t : Option String}
    (h : InText libc parseArg mode s₀ base text text { items } d) (hq : d.state = .start ∨ d.state = .acceptFn)
    (hmode : mode = .condition ∧ next = .action ∧ t = base.actionsStr ∨
      mode = .action ∧ next = .undoAction ∧ t = base.undoActionsStr) :
    ∃ b, parseRound libc parseArg d = .ok b ∧ InText libc parseArg next s₀ b (spelling t) [] {} b ∧ b.state = .start ∧
      b.undoActionsStr = base.undoActionsStr := by
  obtain ⟨s,hs,-,hagree,-⟩ := h.settled.settings
  have hdrawn := h.tracking.drawn
  have hround := h.round_end hq
  have hstart : next ≠ .varMap → s = s₀ → InText libc parseArg next s₀
      { loadParseString { d with rest := d.rest.tail, parsing := next } t with state := .start, returned := none }
      (spelling t) [] {}
      { loadParseString { d with rest := d.rest.tail, parsing := next } t with state := .start, returned := none } := by
    rintro hne rfl
    exact inText_start rfl h.tracking.finished hdrawn.args hdrawn.undo
      ⟨hagree.varMap,hagree.errorCode,hagree.message,hagree.finds⟩ fun heq => absurd heq hne
  rcases hmode with ⟨rfl,rfl,rfl⟩ | ⟨rfl,rfl,rfl⟩
  · rw [← h.fixed.actionsStr] at hstart ⊢
    rw [ok_bind, follow_acceptRule (by exact h.tracking.finished)] at hround
    exact ⟨_,hround,hstart (by decide) (after_of_ne (by decide) hs),rfl,h.fixed.undoActionsStr⟩
  · rw [← h.fixed.undoActionsStr] at hstart ⊢
    rw [ok_bind, follow_acceptRule (by exact h.tracking.finished)] at hround
    exact ⟨_,hround,hstart (by decide) (after_of_ne (by decide) hs),rfl,rfl⟩

variable (libc parseArg) in
/-- The texts of a rule fit the accumulators, as far as the parse goes on. -/
def FitsRule (s₀ : Settings) (conditions actions undos : Option String) : Prop :=
  FitsText libc parseArg .condition s₀ (spelling conditions) ∧
    (GoesThrough libc parseArg .condition s₀ (spelling conditions) →
      FitsText libc parseArg .action s₀ (spelling actions) ∧
        (GoesThrough libc parseArg .action s₀ (spelling actions) → FitsText libc parseArg .undoAction s₀ (spelling undos)))

/-- The accumulators hold the texts of a rule exactly if these fit. -/
lemma returns_parseTexts_iff {varMap : VarMap} {vars : VarStore} {conditions actions undos : Option String} :
    Returns (parseTexts libc parseArg varMap vars conditions actions undos) ↔
      FitsRule libc parseArg { varMap, vars } conditions actions undos := by
  have hstart := @inText_start libc parseArg .condition { varMap, vars }
    { parsing := .condition, varMap, vars, actionsStr := actions, undoActionsStr := undos } conditions rfl rfl rfl rfl
    ⟨rfl,rfl,rfl,fun _ => rfl⟩ fun _ => rfl
  refine returns_parse_iff.trans (hstart.holding_iff rfl (by decide) fun items d h hq => ?_)
  obtain ⟨b,hb,hread,hbstart,hundos⟩ := h.next hq (.inl ⟨rfl,rfl,rfl⟩)
  refine ⟨b,hb,hread.holding_iff hbstart (by decide) fun items d h hq => ?_⟩
  have hundos : b.undoActionsStr = undos := hundos
  obtain ⟨b',hb',hread',hbstart',-⟩ := h.next hq (.inr ⟨rfl,rfl,hundos.symm⟩)
  refine ⟨b',hb',(hread'.holding_iff (R := True) hbstart' (by decide) fun items d h hq => ?_).trans
    (and_iff_left fun _ => trivial)⟩
  exact ⟨_,h.round_end hq,iff_true_intro (unfailing_of_done (follow_of_finished rfl _))⟩

/-- What the parse of a variable string comes to. -/
inductive VarsEnded (libc : Libc) (parseArg : String → Option Arg) (s₀ : Settings) (text : List Char) (d : ParseData) : Prop
  | refused : d.returned = some false → Told d → VarsEnded libc parseArg s₀ text d
  | stored {items s} : Taken items text → s₀.after libc parseArg .varMap items = some s → d.settings = s →
    d.returned = some (decide (s.errorCode = noParseError)) → VarsEnded libc parseArg s₀ text d

/-- The end of a variable string. -/
lemma InText.stored {items : List WrittenItem} (h : InText libc parseArg .varMap s₀ base text text { items } d)
    (hq : d.state = .start ∨ d.state = .acceptFn) (hd : parseRound libc parseArg d = .ok d') :
    ∃ s, s₀.after libc parseArg .varMap items = some s ∧ d'.settings = s ∧
      d'.returned = some (decide (s.errorCode = noParseError)) := by
  obtain ⟨s,hs,-,hagree,hvars⟩ := h.settled.settings
  obtain rfl := Except.ok.inj ((h.round_end hq).symm.trans hd)
  have hset : d.settings = s := by
    rw [ParseData.settings, hagree.varMap, hvars rfl (by simp [Plain]), hagree.errorCode, hagree.message]
  refine ⟨s,hs,hset,?_⟩
  rw [← hagree.errorCode]
  rfl

lemma varsEnded_of_parse {varMap : VarMap} {vars : VarStore} {t : Option String}
    (h : parse libc parseArg { parsing := .varMap, varMap, vars } t = .ok d) :
    VarsEnded libc parseArg { varMap, vars } (spelling t) d := by
  obtain ⟨hrounds,hret⟩ := rounds_of_loop h
  have hinv := hrounds.invariant (P := fun d =>
    (∃ base pre D, InText libc parseArg .varMap { varMap, vars } base (spelling t) pre D d) ∨
    (Lost d ∧ d.returned = none) ∨ VarsEnded libc parseArg { varMap, vars } (spelling t) d) ?_ (.inl ⟨_,_,_,inText_vars⟩)
  · rcases hinv with ⟨base,pre,D,hread⟩ | ⟨-,hnone⟩ | hended
    · rw [hread.running] at hret
      cases hret
    · rw [hnone] at hret
      cases hret
    · exact hended
  · rintro a b (⟨base,pre,D,hread⟩ | ⟨hlost,-⟩ | hended) hdone hb
    · rcases hread.round (by decide) hb with ⟨hfalse,htold⟩ | hlost | ⟨pre',D',hread'⟩ | ⟨rfl,hD,hitems,hq⟩
      · exact .inr (.inr (.refused hfalse htold))
      · exact .inr (.inl hlost)
      · exact .inl ⟨_,_,_,hread'⟩
      · rw [hD] at hread
        obtain ⟨s,hs,hset,hret⟩ := hread.stored hq hb
        exact .inr (.inr (.stored hitems hs hset hret))
    · rw [hlost.round hb]
      exact .inr (.inr (.refused rfl told_stuck))
    · cases hended with
      | refused hfalse => simp [hfalse] at hdone
      | stored _ _ _ hret => simp [hret] at hdone

/-- A variable string that the parse goes on behind is stored. -/
lemma stored_of_passes {varMap : VarMap} {vars : VarStore} {t : Option String} {items : List WrittenItem} {s : Settings}
    (h : parse libc parseArg { parsing := .varMap, varMap, vars } t = .ok d) (hitems : Spelled items (spelling t))
    (hs : Settings.after libc parseArg .varMap { varMap, vars } items = some s) :
    d.settings = s ∧ d.returned = some (decide (s.errorCode = noParseError)) := by
  have hgo := returns_parse_iff.mp ⟨d,h⟩
  obtain ⟨d₁,hrounds,hread,hq⟩ := inText_vars.arrive rfl (by decide) hgo hitems (by rw [hs]; rfl)
  obtain ⟨b,hb⟩ := hgo d₁ hrounds hread.running
  obtain ⟨s',hs',hset,hret⟩ := hread.stored hq hb
  obtain rfl := Option.some.inj (hs.symm.trans hs')
  have hparse := parse_of_rounds (hrounds.tail ⟨hread.running,hb⟩) (by rw [hret]; rfl)
  obtain rfl := Except.ok.inj (hparse.symm.trans h)
  exact ⟨hset,hret⟩

/-- The accumulators hold a variable string exactly if it fits them. -/
lemma returns_parseVars_iff {varMap : VarMap} {vars : VarStore} {t : Option String} :
    Returns (parse libc parseArg { parsing := .varMap, varMap, vars } t) ↔
      FitsText libc parseArg .varMap { varMap, vars } (spelling t) := by
  refine returns_parse_iff.trans ((inText_vars.holding_iff (R := True) rfl (by decide) fun items d h hq => ?_).trans
    (and_iff_left fun _ => trivial))
  exact ⟨_,h.round_end hq,iff_true_intro (unfailing_of_done (follow_of_finished rfl _))⟩

/-- An item whose name or one of whose arguments does not fit is not taken from a text. -/
lemma Taken.fits_of_spelled {items items' : List WrittenItem} (h : Taken items text) (h' : Spelled items' text) :
    ∀ w ∈ items', w.Fits := by
  rw [h'.unique h.spelled]
  exact h.fits

/-- A name of letters. -/
def letters (n : ℕ) : String := String.ofList (List.replicate n 'a')

lemma cut_replicate (n : ℕ) : cut false (List.replicate n 'a') = List.replicate n 'a' := by
  induction n with
  | zero => rfl
  | succ n ih => rw [List.replicate_succ, cut, if_neg (by decide), if_neg (by decide), ih]

lemma spelling_letters (n : ℕ) : spelling (some (letters n)) = List.replicate n 'a' := by
  have hcstr : cstr (some (letters n)) = List.replicate n 'a' := by
    rw [cstr, Option.getD_some, letters, String.toList_ofList]
    apply List.takeWhile_eq_self_iff.mpr
    intro c hc
    simp [List.eq_of_mem_replicate hc]
  rw [spelling, hcstr, cut_replicate]

/-- A name with more letters than the accumulator has characters does not fit. -/
lemma not_fits_letters {n : ℕ} (hn : accumSz ≤ n + 1) :
    ¬ FitsText libc parseArg mode s₀ (spelling (some (letters (n + 2)))) := by
  intro h
  have hletter : isAlphanumeric_ 'a' = true := by decide
  have hrun : Leads (.accumName, { name := ['a'] }) (List.replicate n 'a')
      (.accumName, { name := 'a' :: List.replicate n 'a' }) := by
    have hedges : ∀ c ∈ List.replicate n 'a', Edge .accumName c (some .accumName) .accumName :=
      fun c hc => .name (.inr (.inr rfl)) (by rwa [List.eq_of_mem_replicate hc])
    have hrun := @leads_run _ { name := ['a'] } _ _ hedges
    rwa [foldl_take_name] at hrun
  have hlead : Leads (.start, {}) (List.replicate (n + 1) 'a') (.accumName, { name := 'a' :: List.replicate n 'a' }) :=
    .edge (.name (.inl rfl) hletter) hrun
  have hstep : readStep (.accumName, { name := 'a' :: List.replicate n 'a' }) 'a' =
      some (.accumName, { name := 'a' :: List.replicate n 'a' ++ ['a'] }) :=
    readStep_eq_some_iff.mpr ⟨_,.name (.inr (.inr rfl)) hletter,rfl⟩
  have hfits := h _ 'a' [] _ _ ((spelling_letters _).trans List.replicate_succ') hlead ⟨s₀,rfl,by simp⟩ _ _ hstep
  have hlen := hfits.name
  rw [List.length_append, List.length_cons, List.length_replicate, List.length_singleton] at hlen
  omega

end Overflow

end Xctools.Xcpmd
