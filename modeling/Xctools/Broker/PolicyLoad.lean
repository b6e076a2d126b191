import Xctools.Broker.Policy

/-! Which policies arrive as they were written. Both loaders of `policy.c` fill a slot in place and
release a copy of it when the text is rejected. The file loader then writes the next line over the
remains, and the database loader leaves the remains inside `rules[0..count)`. The condition under
which neither shows is exact. -/
namespace Xctools.Broker
open Machine

namespace Rule

/-- What `free_rule` leaves of a slot. -/
def released (r : Rule) : Rule :=
  { r with
    destination := r.destination.released, path := r.path.released
    interface := r.interface.released, member := r.member.released
    ifBool := r.ifBool.released, domtype := r.domtype.released
    ruleString := r.ruleString.released }

/-- A slot that held `left`, filled with what a blank slot would have become `r`. -/
def overlay (r left : Rule) : Rule where
  all := left.all || r.all
  out := left.out || r.out
  policy := r.policy
  stubdom := left.stubdom || r.stubdom
  ifBoolFlag := if r.ifBool.IsSet then r.ifBoolFlag else left.ifBoolFlag
  destination := left.destination.overlaid r.destination
  path := left.path.overlaid r.path
  interface := left.interface.overlaid r.interface
  member := left.member.overlaid r.member
  ifBool := left.ifBool.overlaid r.ifBool
  domtype := left.domtype.overlaid r.domtype
  ruleString := left.ruleString.overlaid r.ruleString

/-- Every string set in `left` is set in `r` as well. -/
def Covers (r left : Rule) : Prop :=
  List.Forall₂ (fun p q : CStr => p.IsSet → q.IsSet) left.strings r.strings

lemma sound_iff (r : Rule) : r.Sound ↔ r.destination.Sound ∧ r.path.Sound ∧ r.interface.Sound ∧
    r.member.Sound ∧ r.ifBool.Sound ∧ r.domtype.Sound ∧ r.ruleString.Sound := by
  simp [Sound, strings]

lemma covers_iff (r left : Rule) : r.Covers left ↔
    (left.destination.IsSet → r.destination.IsSet) ∧ (left.path.IsSet → r.path.IsSet) ∧
    (left.interface.IsSet → r.interface.IsSet) ∧ (left.member.IsSet → r.member.IsSet) ∧
    (left.ifBool.IsSet → r.ifBool.IsSet) ∧ (left.domtype.IsSet → r.domtype.IsSet) ∧
    (left.ruleString.IsSet → r.ruleString.IsSet) := by
  simp [Covers, strings]

/-- A rule as it comes out of a blank slot: nothing dangles, and the flag of `if-boolean` is up
only together with its attribute. -/
structure Fresh (r : Rule) : Prop where
  sound : r.Sound
  flag : ¬ r.ifBool.IsSet → r.ifBoolFlag = false

end Rule

theorem freeRule_of_sound {r : Rule} (h : r.Sound) : freeRule r = .ok r.released := by
  obtain ⟨h₁,h₂,h₃,h₄,h₅,h₆,h₇⟩ := r.sound_iff.mp h
  simp only [freeRule, Ptr.free_of_sound h₁, Ptr.free_of_sound h₂, Ptr.free_of_sound h₃,
    Ptr.free_of_sound h₄, Ptr.free_of_sound h₅, Ptr.free_of_sound h₆, Ptr.free_of_sound h₇, ok_bind]
  rfl

theorem freeRule_eq_ok {r r' : Rule} (h : freeRule r = .ok r') : r.Sound ∧ r' = r.released := by
  have hs : r.Sound := by
    rw [Rule.sound_iff]
    simp only [freeRule, bind_eq_ok] at h
    obtain ⟨_,h₁,_,h₂,_,h₃,_,h₄,_,h₅,_,h₆,_,h₇,-⟩ := h
    refine ⟨?_,?_,?_,?_,?_,?_,?_⟩ <;> intro hw <;> simp_all
  rw [freeRule_of_sound hs] at h
  cases h
  exact ⟨hs,rfl⟩

/-- A way of filling a slot that does not look at what the slot held before: it writes the same
strings and flags over it, it gives up after releasing the slot itself, or it stops. Only the
policy bit of a text that is rejected at once may be the slot's old one. -/
inductive FillsBlindly (fill : Rule → Outcome (Bool × Rule)) (text : CStr) : Prop
  | writes (ok : Bool) (r : Rule) (fresh : r.Fresh) (string : r.ruleString = text)
      (quiet : ok = false → r.all = false ∧ r.out = false)
      (eq : ∀ left, ∃ p, fill left = .ok (ok, { r.overlay left with policy := p }) ∧
        (ok → p = r.policy))
  | releases (r : Rule) (string : r.ruleString.IsSet)
      (eq : ∀ left, fill left = do return (false, ← freeRule (r.overlay left)))
  | stops (e : Stop) (eq : ∀ left, fill left = .error e)

theorem FillsBlindly.congr {fill fill' : Rule → Outcome (Bool × Rule)} {text : CStr}
    (h : FillsBlindly fill text) (he : ∀ left, fill' left = fill left) : FillsBlindly fill' text := by
  rwa [show fill' = fill from funext he]

/-- One turn of the loop on a keyword and its word. -/
theorem criteria_pair (r : Rule) (token field : String) (rest : List String) :
    criteria r (token :: field :: rest) =
      if token = "destination" then criteria { r with destination := .live field } rest
      else if token = "dom-type" then criteria { r with domtype := .live field } rest
      else if token = "interface" then criteria { r with interface := .live field } rest
      else if token = "if-boolean" then
        match rest with
        | [] => .error .null
        | value :: rest' =>
          criteria { r with ifBool := .live field, ifBoolFlag := value = "true" } rest'
      else if token = "stubdom" then criteria { r with stubdom := true } rest
      else if token = "path" then criteria { r with path := .live field } rest
      else if token = "member" then criteria { r with member := .live field } rest
      else do return (false, ← freeRule r) := by
  cases rest <;> rfl

theorem criteria_fillsBlindly (r : Rule) (words : List String) (hr : r.Fresh)
    (hq : r.all = false ∧ r.out = false) (ht : r.ruleString.IsSet) :
    FillsBlindly (fun left => criteria (r.overlay left) words) r.ruleString := by
  fun_induction criteria r words with
  | case1 r => exact .writes true r hr rfl (by simp) (fun _ => ⟨r.policy,rfl,fun _ => rfl⟩)
  | case2 r token h =>
    exact .writes false r hr rfl (fun _ => hq)
      (fun _ => ⟨r.policy,by simp [criteria, h]; rfl,fun _ => rfl⟩)
  | case3 r h =>
    exact .writes true { r with stubdom := true } ⟨hr.sound,hr.flag⟩ rfl (by simp)
      (fun _ => ⟨r.policy,by simp [criteria, Rule.overlay],fun _ => rfl⟩)
  | case4 r token h hs => exact .releases r ht (fun _ => by simp [criteria, h, hs])
  | case8 r field => exact .stops .null (fun _ => by simp [criteria_pair])
  | case13 r token field rest h₁ h₂ h₃ h₄ h₅ h₆ h₇ =>
    exact .releases r ht (fun _ => by simp [criteria_pair, h₁, h₂, h₃, h₄, h₅, h₆, h₇])
  | case10 r field rest _ _ _ _ ih =>
    refine (ih ⟨hr.sound,hr.flag⟩ hq ht).congr (fun left => ?_)
    simp [criteria_pair, Rule.overlay]
  | case9 r field value rest _ _ _ ih =>
    have hs := r.sound_iff.mp hr.sound
    refine (ih ⟨(Rule.sound_iff _).mpr (by simp [hs]),by simp⟩ hq ht).congr (fun left => ?_)
    rw [criteria_pair]
    rfl
  | case5 r field rest ih
  | case6 r field rest _ ih
  | case7 r field rest _ _ ih
  | case11 r field rest _ _ _ _ _ ih
  | case12 r field rest _ _ _ _ _ _ ih =>
    have hs := r.sound_iff.mp hr.sound
    refine (ih ⟨(Rule.sound_iff _).mpr (by simp [hs]),hr.flag⟩ hq ht).congr (fun left => ?_)
    rw [criteria_pair]
    rfl

/-- The text a slot keeps of the string it was filled from. -/
def keptText (t : String) : CStr := if t = "" then .null else .live t

theorem createRule_fillsBlindly (t : String) :
    FillsBlindly (fun left => createRule left t) (keptText t) := by
  by_cases ht : t = ""
  · refine .writes false {} ⟨by simp [Rule.sound_iff],fun _ => rfl⟩ (by simp [keptText, ht])
      (fun _ => ⟨rfl,rfl⟩) (fun left => ?_)
    exact ⟨left.policy,by simp [createRule, ht, Rule.overlay, Ptr.overlaid],by simp⟩
  · have hk : keptText t = .live t := by simp [keptText, ht]
    cases hw : strtok t with
    | nil =>
      refine .writes false { ruleString := .live t } ⟨by simp [Rule.sound_iff],fun _ => rfl⟩ hk.symm
        (fun _ => ⟨rfl,rfl⟩) (fun left => ?_)
      exact ⟨left.policy,by simp [createRule, ht, hw, Rule.overlay, Ptr.overlaid],by simp⟩
    | cons first words =>
      cases words with
      | nil => exact .stops .null (fun left => by simp [createRule, ht, hw])
      | cons token rest =>
        by_cases ha : token = "all"
        · refine .writes true { ruleString := .live t, policy := first = "allow", all := true }
            ⟨by simp [Rule.sound_iff],fun _ => rfl⟩ hk.symm (by simp) (fun left => ⟨_,?_,fun _ => rfl⟩)
          simp [createRule, ht, hw, ha, Rule.overlay, Ptr.overlaid]
        by_cases ho : token = "out-any"
        · refine .writes true { ruleString := .live t, policy := first = "allow", out := true }
            ⟨by simp [Rule.sound_iff],fun _ => rfl⟩ hk.symm (by simp) (fun left => ⟨_,?_,fun _ => rfl⟩)
          simp [createRule, ht, hw, ho, Rule.overlay, Ptr.overlaid]
        have hc := criteria_fillsBlindly { ruleString := .live t, policy := first = "allow" }
          (token :: rest) ⟨by simp [Rule.sound_iff],fun _ => rfl⟩ ⟨rfl,rfl⟩ (Ptr.isSet_live t)
        rw [hk]
        refine hc.congr (fun left => ?_)
        simp [createRule, ht, hw, ha, ho, Rule.overlay, Ptr.overlaid]

/-- What a rejected line may leave in the slot of the file loader. -/
structure Leftover (slot : Rule) : Prop where
  all : slot.all = false
  out : slot.out = false
  strings : ∀ p ∈ slot.strings, p = .null ∨ p = .wild
  flag : ¬ slot.ifBool.IsSet → slot.ifBoolFlag = false

lemma leftover_blank : Leftover {} := ⟨rfl,rfl,by simp [Rule.strings],fun _ => rfl⟩

namespace Rule

/-- Two slots in which the same strings are set and the same domains are meant. -/
def SameMarks (a b : Rule) : Prop :=
  List.Forall₂ (fun p q : CStr => p.IsSet ↔ q.IsSet) a.strings b.strings ∧ a.stubdom = b.stubdom

lemma SameMarks.covers_iff {a b : Rule} (h : SameMarks a b) (r : Rule) :
    r.Covers a ↔ r.Covers b := by
  obtain ⟨h,-⟩ := h
  simp only [strings, List.forall₂_cons, List.Forall₂.nil, and_true] at h
  obtain ⟨h₁,h₂,h₃,h₄,h₅,h₆,h₇⟩ := h
  simp only [Rule.covers_iff, h₁, h₂, h₃, h₄, h₅, h₆, h₇]

/-- A rule written over leftovers is the rule that was meant exactly when it sets again every
string that was left, and the stub domain flag if that was left. -/
lemma overlay_eq_self_iff {left r : Rule} (hl : Leftover left) (hr : r.Fresh) :
    r.overlay left = r ↔ r.Covers left ∧ (left.stubdom → r.stubdom) := by
  simp only [Rule.covers_iff, ← Ptr.overlaid_eq_right_iff]
  constructor
  · intro h
    have hb : (left.stubdom || r.stubdom) = r.stubdom := congrArg Rule.stubdom h
    refine ⟨⟨congrArg destination h,congrArg path h,congrArg interface h,congrArg member h,
      congrArg ifBool h,congrArg domtype h,congrArg ruleString h⟩,fun hs => ?_⟩
    rwa [hs, Bool.true_or, eq_comm] at hb
  · rintro ⟨⟨h₁,h₂,h₃,h₄,h₅,h₆,h₇⟩,hs⟩
    -- the flag is the only field whose old value can survive unseen
    have hf : (if r.ifBool.IsSet then r.ifBoolFlag else left.ifBoolFlag) = r.ifBoolFlag := by
      split_ifs with hi
      · rfl
      · have hn : ¬ left.ifBool.IsSet := fun hc => hi ((Ptr.overlaid_eq_right_iff _ _).mp h₅ hc)
        rw [hl.flag hn, hr.flag hi]
    have hb : (left.stubdom || r.stubdom) = r.stubdom := by
      cases hd : left.stubdom
      · rfl
      · simp [hs hd]
    simp only [overlay, hl.all, hl.out, hf, hb, h₁, h₂, h₃, h₄, h₅, h₆, h₇, Bool.false_or]

lemma overlay_sound_iff {left r : Rule} (hl : Leftover left) (hr : r.Sound) :
    (r.overlay left).Sound ↔ r.Covers left := by
  have hs := hl.strings
  simp only [strings, List.mem_cons, List.not_mem_nil, or_false, forall_eq_or_imp, forall_eq] at hs
  rw [sound_iff] at hr
  rw [sound_iff, Rule.covers_iff]
  simp only [overlay, Ptr.sound_overlaid_iff, hs, hr]

/-- The slot after a rejected line that covered what it was written over. -/
lemma leftover_released {left r : Rule} (hl : Leftover left)
    (hq : r.all = false ∧ r.out = false) (hc : r.Covers left) (p : Bool) :
    Leftover (released { r.overlay left with policy := p }) where
  all := by simp [released, overlay, hl.all, hq.1]
  out := by simp [released, overlay, hl.out, hq.2]
  strings := by simp [released, strings, Ptr.released_null_or_wild]
  flag := by
    intro hi
    simp only [released, overlay, Ptr.isSet_released] at hi ⊢
    have he : left.ifBool.overlaid r.ifBool = r.ifBool :=
      (Ptr.overlaid_eq_right_iff _ _).mpr (((covers_iff _ _).mp hc).2.2.2.2.1)
    rw [he] at hi
    have hn : ¬ left.ifBool.IsSet := fun hs => hi (((covers_iff _ _).mp hc).2.2.2.2.1 hs)
    rw [if_neg hi, hl.flag hn]

lemma sameMarks_released {left r : Rule} (hc : r.Covers left) (p : Bool) :
    SameMarks { r with stubdom := left.stubdom || r.stubdom }
      (released { r.overlay left with policy := p }) := by
  simp only [Rule.covers_iff, ← Ptr.overlaid_eq_right_iff] at hc
  obtain ⟨h₁,h₂,h₃,h₄,h₅,h₆,h₇⟩ := hc
  simp [SameMarks, strings, released, overlay, h₁, h₂, h₃, h₄, h₅, h₆, h₇]

end Rule

/-- A text that no slot survives: `create_rule` stops, or it gives up on an unknown keyword and
its caller releases the same strings a second time. -/
def Fatal (t : String) : Prop :=
  ∀ left ok r, createRule left t = .ok (ok, r) → ok = false ∧ ¬ r.Sound

/-- A text that fills every slot in the same way, as `r` does a blank one. -/
structure Fills (t : String) (ok : Bool) (r : Rule) : Prop where
  blank : createRule {} t = .ok (ok, r)
  fresh : r.Fresh
  string : r.ruleString = keptText t
  quiet : ok = false → r.all = false ∧ r.out = false
  slot : ∀ left, ∃ p, createRule left t = .ok (ok, { r.overlay left with policy := p }) ∧
    (ok → p = r.policy)

/-- Every text is of one of the two kinds. -/
theorem fills_or_fatal (t : String) : (∃ ok r, Fills t ok r) ∨ Fatal t := by
  cases createRule_fillsBlindly t with
  | writes ok r fresh string quiet eq =>
    left
    obtain ⟨p,hp,hp'⟩ := eq {}
    have hb : r.overlay {} = r := (Rule.overlay_eq_self_iff leftover_blank fresh).mpr
      ⟨by simp [Rule.covers_iff],nofun⟩
    rw [hb] at hp
    refine ⟨ok,{ r with policy := p },hp,⟨fresh.sound,fresh.flag⟩,string,quiet,fun left => ?_⟩
    obtain ⟨q,hq,hq'⟩ := eq left
    exact ⟨q,hq,fun h => (hq' h).trans (hp' h).symm⟩
  | releases r string eq =>
    right
    intro left ok r' h
    rw [eq, bind_eq_ok] at h
    obtain ⟨q,hq,hr⟩ := h
    cases hr
    obtain ⟨-,rfl⟩ := freeRule_eq_ok hq
    refine ⟨rfl,fun hs => ?_⟩
    have hw := ((Rule.sound_iff _).mp hs).2.2.2.2.2.2
    cases hr : r.ruleString <;> simp_all [Rule.released, Rule.overlay, Ptr.overlaid, Ptr.released]
  | stops e eq =>
    right
    intro left ok r' h
    rw [eq] at h
    cases h

/-- The texts of a policy file arrive as they were written: while slots are left, each text is
neither fatal nor holds an unknown keyword, and it sets again every string set by the rejected
text just before it; the next accepted text after one that set `stubdom` sets it too. `left` is
what the rejected texts since the last accepted one have set. -/
def Tidy : ℕ → Rule → List String → Prop
  | 0, _, _ => True
  | _ + 1, _, [] => True
  | n + 1, left, t :: ts => ∃ ok r, createRule {} t = .ok (ok, r) ∧ r.Sound ∧ r.Covers left ∧
      if ok then (left.stubdom → r.stubdom) ∧ Tidy n {} ts
      else Tidy (n + 1) { r with stubdom := left.stubdom || r.stubdom } ts

lemma Fills.accepted {t : String} {ok : Bool} {r : Rule} (h : Fills t ok r) :
    accepted t = if ok then some r else none := by
  cases ok <;> simp [Broker.accepted, h.blank]

lemma Fatal.not_tidy {t : String} (h : Fatal t) (n : ℕ) (left : Rule) (ts : List String) :
    ¬ Tidy (n + 1) left (t :: ts) := by
  rintro ⟨ok,r,hr,hs,-⟩
  exact (h {} ok r hr).2 hs

lemma Fills.tidy_iff {t : String} {ok : Bool} {r : Rule} (h : Fills t ok r) (n : ℕ) (left : Rule)
    (ts : List String) : Tidy (n + 1) left (t :: ts) ↔ r.Covers left ∧
      if ok then (left.stubdom → r.stubdom) ∧ Tidy n {} ts
      else Tidy (n + 1) { r with stubdom := left.stubdom || r.stubdom } ts := by
  constructor
  · rintro ⟨ok',r',hr,-,hc⟩
    rw [h.blank] at hr
    cases hr
    exact hc
  · exact fun hc => ⟨ok,r,h.blank,h.fresh.sound,hc⟩

section EtcStep
variable {lineBuffer : ℕ → ℕ} {line : List Char} {lines : List (List Char)} {t : String} {r slot : Rule}

/-- An accepted text goes over what is left in the slot, and the next slot is blank. -/
lemma etcLoop_accept (ht : ruleText lineBuffer line = some t) (hf : Fills t true r) (n : ℕ) :
    etcLoop lineBuffer (n + 1) slot (line :: lines) =
      (etcLoop lineBuffer n {} lines).map (r.overlay slot :: ·) := by
  obtain ⟨p,hp,hp'⟩ := hf.slot slot
  have hs : ({ r.overlay slot with policy := p } : Rule) = r.overlay slot := by
    rw [hp' rfl]
    rfl
  rw [hs] at hp
  simp only [etcLoop, ht, hp, ok_bind, if_true]
  cases etcLoop lineBuffer n {} lines <;> rfl

/-- A rejected text that sets again what is left in the slot is released once. -/
lemma etcLoop_reject (ht : ruleText lineBuffer line = some t) (hf : Fills t false r)
    (hl : Leftover slot) (hc : r.Covers slot) (n : ℕ) :
    ∃ p, etcLoop lineBuffer (n + 1) slot (line :: lines) =
      etcLoop lineBuffer (n + 1) (Rule.released { r.overlay slot with policy := p }) lines := by
  obtain ⟨p,hp,-⟩ := hf.slot slot
  have hs : ({ r.overlay slot with policy := p } : Rule).Sound :=
    (Rule.overlay_sound_iff hl hf.fresh.sound).mpr hc
  refine ⟨p,?_⟩
  rw [etcLoop, ht]
  simp only [hp, ok_bind, Bool.false_eq_true, if_false, freeRule_of_sound hs]

/-- Releasing a slot that dangles stops the broker. -/
lemma etcLoop_stops (ht : ruleText lineBuffer line = some t)
    (h : ∀ ok r, createRule slot t = .ok (ok, r) → ok = false ∧ ¬ r.Sound) (n : ℕ)
    (rules : List Rule) : etcLoop lineBuffer (n + 1) slot (line :: lines) ≠ .ok rules := by
  intro he
  simp only [etcLoop, ht, bind_eq_ok] at he
  obtain ⟨⟨ok,r⟩,hr,he⟩ := he
  obtain ⟨rfl,hs⟩ := h ok r hr
  simp only [Bool.false_eq_true, if_false, bind_eq_ok] at he
  obtain ⟨s,hs',-⟩ := he
  exact hs (freeRule_eq_ok hs').1

/-- A rejected text that leaves some older string in the slot leaves it dangling. -/
lemma Fills.not_sound (hf : Fills t false r) (hl : Leftover slot) (hc : ¬ r.Covers slot) :
    ∀ ok r', createRule slot t = .ok (ok, r') → ok = false ∧ ¬ r'.Sound := by
  obtain ⟨p,hp,-⟩ := hf.slot slot
  intro ok r' hr
  rw [hp] at hr
  cases hr
  exact ⟨rfl,fun hs => hc ((Rule.overlay_sound_iff hl hf.fresh.sound).mp hs)⟩

end EtcStep

/-- The file loader keeps exactly the accepted texts, as a blank slot would hold them, if and
only if the texts are tidy. The induction carries the slot with what is left in it. -/
theorem etcLoop_eq_iff (lineBuffer : ℕ → ℕ) (lines : List (List Char)) (n : ℕ) (left slot : Rule)
    (hl : Leftover slot) (hm : Rule.SameMarks left slot) :
    etcLoop lineBuffer n slot lines =
        .ok (((lines.filterMap (ruleText lineBuffer)).filterMap accepted).take n) ↔
      Tidy n left (lines.filterMap (ruleText lineBuffer)) := by
  induction lines generalizing n left slot with
  | nil => cases n <;> simp [etcLoop, Tidy]
  | cons line lines ih =>
    cases n with
    | zero => simp [etcLoop, Tidy]
    | succ n =>
      cases ht : ruleText lineBuffer line with
      | none => simpa [etcLoop, ht] using ih (n + 1) left slot hl hm
      | some t =>
        rw [List.filterMap_cons_some ht]
        rcases fills_or_fatal t with ⟨ok,r,hf⟩ | hf
        · have hstub : left.stubdom = slot.stubdom := hm.2
          rw [hf.tidy_iff, hm.covers_iff, hstub]
          cases ok with
          | true =>
            have hn := ih n {} {} leftover_blank (by simp [Rule.SameMarks, Rule.strings])
            rw [List.filterMap_cons_some (by simpa using hf.accepted), etcLoop_accept ht hf,
              List.take_succ_cons]
            simp only [if_true, ← hn, ← and_assoc, ← Rule.overlay_eq_self_iff hl hf.fresh]
            cases etcLoop lineBuffer n {} lines <;> simp [Except.map]
          | false =>
            rw [List.filterMap_cons_none (by simpa using hf.accepted)]
            by_cases hc : r.Covers slot
            · obtain ⟨p,hp⟩ := etcLoop_reject ht hf hl hc n
              rw [hp, ih (n + 1) _ _ (Rule.leftover_released hl (hf.quiet rfl) hc p)
                (Rule.sameMarks_released hc p)]
              simp [hc]
            · exact iff_of_false (etcLoop_stops ht (hf.not_sound hl hc) n _) fun h => hc h.1
        · exact iff_of_false (etcLoop_stops ht (hf slot) n _) (hf.not_tidy n left _)

/-- The strings `get_rules` reads for a domain. -/
def ruleStrings (query : ℕ → Option String) : ℕ → ℕ → List String
  | 0, _ => []
  | n + 1, idx =>
    match query idx with
    | none => []
    | some s => s :: ruleStrings query n (idx + 1)

/-- `create_rule` returns on this text and has not released the slot itself. -/
def Survives (t : String) : Prop := ∃ ok r, createRule {} t = .ok (ok, r) ∧ r.Sound

lemma survives_iff (t : String) : Survives t ↔ ∃ ok r, Fills t ok r := by
  constructor
  · rintro ⟨ok,r,hr,hs⟩
    rcases fills_or_fatal t with h | h
    · exact h
    · exact absurd hs (h {} ok r hr).2
  · rintro ⟨ok,r,h⟩
    exact ⟨ok,r,h.blank,h.fresh.sound⟩

/-- The slot of a database string after `get_rules` has dealt with it. -/
def slotOf (t : String) : Rule :=
  match createRule {} t with
  | .ok (true, r) => r
  | .ok (false, r) => r.released
  | .error _ => {}

lemma Fills.slotOf {t : String} {ok : Bool} {r : Rule} (h : Fills t ok r) :
    slotOf t = if ok then r else r.released := by
  cases ok <;> simp [Broker.slotOf, h.blank]

/-- The database loader returns exactly when every string it reads survives. -/
theorem rulesLoop_eq_ok_iff (query : ℕ → Option String) (n idx : ℕ) (res : List Rule × ℕ) :
    rulesLoop query n idx = .ok res ↔ (∀ s ∈ ruleStrings query n idx, Survives s) ∧
      res = ((ruleStrings query n idx).map slotOf,
        ((ruleStrings query n idx).filterMap accepted).length) := by
  induction n generalizing idx res with
  | zero => simp [rulesLoop, ruleStrings, eq_comm]
  | succ n ih =>
    cases hq : query idx with
    | none => simp [rulesLoop, ruleStrings, hq, eq_comm]
    | some s =>
      simp only [rulesLoop, ruleStrings, hq, List.forall_mem_cons, survives_iff s]
      rcases fills_or_fatal s with ⟨ok,r,hf⟩ | hf
      · have hs : ∃ ok r, Fills s ok r := ⟨ok,r,hf⟩
        have hsl := hf.slotOf
        have hac := hf.accepted
        cases ok
        all_goals
          simp only [if_true, Bool.false_eq_true, if_false] at hsl hac
          simp only [hf.blank, ok_bind, Bool.false_eq_true, if_true, if_false, pure_eq_ok,
            freeRule_of_sound hf.fresh.sound, bind_eq_ok, ih, hs, true_and, List.map_cons, hsl,
            List.filterMap_cons, hac, List.length_cons]
          constructor
          · rintro ⟨_,⟨hall,rfl⟩,h⟩
            cases h
            exact ⟨hall,rfl⟩
          · rintro ⟨hall,rfl⟩
            exact ⟨_,⟨hall,rfl⟩,rfl⟩
      · have hs : ¬ ∃ ok r, Fills s ok r := fun h => by
          obtain ⟨ok,r,hr,hso⟩ := (survives_iff s).mpr h
          exact (hf {} ok r hr).2 hso
        simp only [hs, false_and, iff_false, bind_eq_ok]
        rintro ⟨⟨ok,r⟩,hr,h⟩
        obtain ⟨rfl,hso⟩ := hf {} ok r hr
        simp only [Bool.false_eq_true, if_false, bind_eq_ok] at h
        obtain ⟨slot,hslot,-⟩ := h
        exact hso (freeRule_eq_ok hslot).1

/-- In the order of the strings, no accepted one comes after a rejected one. -/
def AcceptedFirst (ss : List String) : Prop :=
  ss.Pairwise fun s t => (accepted t).isSome → (accepted s).isSome

/-- The first `count` slots are the accepted rules exactly when the accepted strings come first.
A rejected string's slot shows by its dangling text. -/
theorem take_slots_eq_iff (ss : List String) (hs : ∀ s ∈ ss, Survives s) (hn : ∀ s ∈ ss, s ≠ "") :
    (ss.map slotOf).take (ss.filterMap accepted).length = ss.filterMap accepted ↔
      AcceptedFirst ss := by
  induction ss with
  | nil => simp [AcceptedFirst]
  | cons s ss ih =>
    obtain ⟨ok,r,hf⟩ := (survives_iff s).mp (hs s (by simp))
    have hih := ih (fun t ht => hs t (by simp [ht])) (fun t ht => hn t (by simp [ht]))
    cases ok with
    | true =>
      have ha : accepted s = some r := by simpa using hf.accepted
      have hsl : slotOf s = r := by simpa using hf.slotOf
      simp [AcceptedFirst, ha, hsl, hih]
    | false =>
      have ha : accepted s = none := by simpa using hf.accepted
      have hsl : slotOf s = r.released := by simpa using hf.slotOf
      have hw : (slotOf s).ruleString = .wild := by
        simp [hsl, Rule.released, hf.string, keptText, hn s (by simp), Ptr.released]
      rw [List.filterMap_cons_none ha]
      cases hm : ss.filterMap accepted with
      | nil =>
        have hno : ∀ t ∈ ss, accepted t = none := List.filterMap_eq_nil_iff.mp hm
        simp only [List.length_nil, List.take_zero, true_iff, AcceptedFirst]
        apply List.pairwise_of_forall_mem_list
        intro t _ u hu hsome
        rcases List.mem_cons.mp hu with rfl | hu
        · simp [ha] at hsome
        · simp [hno u hu] at hsome
      | cons q qs =>
        have hq : q ∈ ss.filterMap accepted := by simp [hm]
        obtain ⟨t,ht,hq⟩ := List.mem_filterMap.mp hq
        constructor
        · intro h
          -- the slot in front dangles, the rule it should equal does not
          simp only [List.map_cons, List.length_cons, List.take_succ_cons, List.cons.injEq] at h
          obtain ⟨ok,r',hf'⟩ := (survives_iff t).mp (hs t (by simp [ht]))
          cases ok with
          | false => simp [hf'.accepted] at hq
          | true =>
            have hqr : q = r' := by simpa [hf'.accepted, eq_comm] using hq
            have hst := hf'.string
            rw [← hqr, ← h.1, hw] at hst
            simp [keptText, hn t (by simp [ht])] at hst
        · intro h
          have := (List.pairwise_cons.mp h).1 t ht (by simp [hq])
          simp [ha] at this

/-- The texts the policy file hands to `create_rule`. -/
def etcTexts (src : PolicySource) : List String :=
  ((src.file.map getlines).getD []).filterMap (ruleText src.lineBuffer)

/-- The strings the database holds for a machine. -/
def vmStrings (src : PolicySource) (vm : VmUuid) : List String :=
  ruleStrings (fun idx => dbQuery src.dbRead (rulePath vm.text idx)) maxRules 0

/-- The policy as it was written: the accepted texts in order, each as a blank slot holds it. -/
def declaredPolicy (src : PolicySource) : Policy where
  database := src.vms.isSome
  etc := ((etcTexts src).filterMap accepted).take maxRules
  domains := (src.vms.getD []).map fun vm =>
    ⟨vm.text, transformUuid vm.text, (vmStrings src vm).filterMap accepted⟩

/-- Both loaders leave no trace of what they reject. -/
structure Arrives (src : PolicySource) : Prop where
  tidy : Tidy maxRules {} (etcTexts src)
  room : (src.vms.getD []).length ≤ maxDomains
  uuid : ∀ vm ∈ src.vms.getD [], vm.text.length < uuidBuffer
  survive : ∀ vm ∈ src.vms.getD [], ∀ s ∈ vmStrings src vm, Survives s
  order : ∀ vm ∈ src.vms.getD [], AcceptedFirst (vmStrings src vm)

lemma buildEtcPolicy_eq_iff (src : PolicySource) :
    buildEtcPolicy src = .ok (((etcTexts src).filterMap accepted).take maxRules) ↔
      Tidy maxRules {} (etcTexts src) := by
  cases hf : src.file with
  | none => simp [buildEtcPolicy, etcTexts, hf, maxRules, Tidy]
  | some content =>
    simpa [buildEtcPolicy, etcTexts, hf] using etcLoop_eq_iff src.lineBuffer (getlines content)
      maxRules {} {} leftover_blank (by simp [Rule.SameMarks, Rule.strings])

lemma ruleStrings_ne_empty (dbRead : String → Option String) (path : ℕ → String) (n idx : ℕ) :
    ∀ s ∈ ruleStrings (fun i => dbQuery dbRead (path i)) n idx, s ≠ "" := by
  induction n generalizing idx with
  | zero => simp [ruleStrings]
  | succ n ih =>
    cases hq : dbQuery dbRead (path idx) with
    | none => simp [ruleStrings, hq]
    | some s =>
      have hs : s ≠ "" := by simpa using (Option.filter_eq_some_iff.mp hq).2
      simpa [ruleStrings, hq, hs] using ih (idx + 1)

lemma getRules_eq_iff (src : PolicySource) (vm : VmUuid) :
    getRules src vm.text = .ok ((vmStrings src vm).filterMap accepted) ↔
      (∀ s ∈ vmStrings src vm, Survives s) ∧ AcceptedFirst (vmStrings src vm) := by
  have hn : ∀ s ∈ vmStrings src vm, s ≠ "" := ruleStrings_ne_empty _ _ _ _
  simp only [getRules, bind_eq_ok, rulesLoop_eq_ok_iff]
  constructor
  · rintro ⟨_,⟨hs,rfl⟩,h⟩
    exact ⟨hs,(take_slots_eq_iff _ hs hn).mp (Except.ok.inj h)⟩
  · rintro ⟨hs,ha⟩
    exact ⟨_,⟨hs,rfl⟩,congrArg Except.ok ((take_slots_eq_iff _ hs hn).mpr ha)⟩

lemma domainsLoop_eq_iff (src : PolicySource) (n : ℕ) (vms : List VmUuid) :
    domainsLoop src n vms = .ok (vms.map fun vm =>
        ⟨vm.text, transformUuid vm.text, (vmStrings src vm).filterMap accepted⟩) ↔
      vms.length ≤ n ∧ ∀ vm ∈ vms, vm.text.length < uuidBuffer ∧
        (∀ s ∈ vmStrings src vm, Survives s) ∧ AcceptedFirst (vmStrings src vm) := by
  induction vms generalizing n with
  | nil => simp [domainsLoop]
  | cons vm vms ih =>
    cases n with
    | zero => simp [domainsLoop]
    | succ n =>
      simp only [domainsLoop, List.map_cons, List.length_cons, Nat.add_le_add_iff_right,
        List.forall_mem_cons, ← getRules_eq_iff src vm]
      split_ifs with hu
      · simp [Nat.not_lt.mpr hu]
      · rw [and_left_comm, ← ih]
        cases getRules src vm.text <;> cases domainsLoop src n vms <;>
          simp [Nat.not_le.mp hu]

/-- `build_policy` puts the written policy in force, no more and no less, exactly when the
loaders leave no trace of what they reject. -/
theorem buildPolicy_eq_declared_iff (src : PolicySource) :
    buildPolicy src = .ok (declaredPolicy src) ↔ Arrives src := by
  have he := buildEtcPolicy_eq_iff src
  have hd := domainsLoop_eq_iff src maxDomains (src.vms.getD [])
  have hb : buildPolicy src = .ok (declaredPolicy src) ↔
      buildEtcPolicy src = .ok (declaredPolicy src).etc ∧
        domainsLoop src maxDomains (src.vms.getD []) = .ok (declaredPolicy src).domains := by
    cases hv : src.vms with
    | none =>
      cases hc : buildEtcPolicy src <;> simp [buildPolicy, declaredPolicy, hv, hc, domainsLoop]
    | some vms =>
      cases hc : buildEtcPolicy src <;> cases hl : domainsLoop src maxDomains vms <;>
        simp [buildPolicy, declaredPolicy, hv, hc, hl]
  rw [hb]
  constructor
  · rintro ⟨h₁,h₂⟩
    obtain ⟨hroom,hvm⟩ := hd.mp h₂
    exact ⟨he.mp h₁,hroom,fun vm h => (hvm vm h).1,fun vm h => (hvm vm h).2.1,
      fun vm h => (hvm vm h).2.2⟩
  · intro h
    exact ⟨he.mpr h.tidy,hd.mpr ⟨h.room,fun vm hm => ⟨h.uuid vm hm,h.survive vm hm,h.order vm hm⟩⟩⟩

/-- A line without its last word, then a rule: the destination of the first stays, dangling, in
the slot of the second. -/
def brokenFileSource : PolicySource where
  file := some "allow destination a path\nallow interface b\n".toList
  lineBuffer _ := 120
  vms := none
  dbRead _ := none

theorem brokenFileSource_not_declared :
    buildPolicy brokenFileSource ≠ .ok (declaredPolicy brokenFileSource) := by decide +kernel

end Xctools.Broker
