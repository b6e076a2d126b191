import Xctools.Machine.Outcome

/-! Runs of an event-driven machine. A step takes a state and an event to the next state or
fails; a run performs a list of events. The rules below lift what one step preserves to what
every run preserves, under a condition on the steps that may look at the state before each. -/
namespace Xctools.Machine

section Run
universe u v
variable {κ : Type u} {σ : Type v} {ε : Type*} (step : σ → ε → Except κ σ)

/-- Perform the events in order. -/
def perform (s : σ) (es : List ε) : Except κ σ := es.foldlM step s

@[simp] theorem perform_nil (s : σ) : perform step s [] = .ok s := rfl

@[simp] theorem perform_cons (s : σ) (e : ε) (es : List ε) :
    perform step s (e :: es) = step s e >>= fun s' => perform step s' es := by
  simp [perform]

theorem perform_append (s : σ) (es fs : List ε) :
    perform step s (es ++ fs) = perform step s es >>= fun s' => perform step s' fs := by
  simp [perform]

theorem perform_cons_eq_ok {s t : σ} {e : ε} {es : List ε} :
    perform step s (e :: es) = .ok t ↔ ∃ s', step s e = .ok s' ∧ perform step s' es = .ok t := by
  rw [perform_cons, bind_eq_ok]

/-- Every event of the run meets `C` in the state it is taken in. -/
def Meets (C : σ → ε → Prop) : σ → List ε → Prop
  | _, [] => True
  | s, e :: es => C s e ∧ ∀ s', step s e = .ok s' → Meets C s' es

/-- A condition that can be tested can be tested along a run. -/
def Meets.decide (C : σ → ε → Prop) [∀ s e, Decidable (C s e)] : (s : σ) → (es : List ε) → Decidable (Meets step C s es)
  | _, [] => isTrue trivial
  | s, e :: es =>
    match h : step s e with
    | .error _ => decidable_of_iff (C s e) ⟨fun hc => ⟨hc,fun s' hs => by rw [h] at hs; cases hs⟩,And.left⟩
    | .ok t =>
      haveI := Meets.decide C t es
      decidable_of_iff (C s e ∧ Meets step C t es)
        ⟨fun hc => ⟨hc.1,fun s' hs => by rw [h] at hs; rw [← Except.ok.inj hs]; exact hc.2⟩,
          fun hc => ⟨hc.1,hc.2 t h⟩⟩

instance (C : σ → ε → Prop) [∀ s e, Decidable (C s e)] (s : σ) (es : List ε) : Decidable (Meets step C s es) :=
  Meets.decide step C s es

variable {step} {C : σ → ε → Prop} {I : σ → Prop}

/-- A condition on the events alone. -/
theorem Meets.of_forall {D : ε → Prop} {es : List ε} (h : ∀ e ∈ es, D e) (s : σ) :
    Meets step (fun _ e => D e) s es := by
  induction es generalizing s with
  | nil => trivial
  | cons e es ih =>
    obtain ⟨he,hes⟩ := List.forall_mem_cons.mp h
    exact ⟨he,fun s' _ => ih hes s'⟩

/-- A run in two parts. -/
theorem Meets.append {s t : σ} {es fs : List ε} (h : Meets step C s (es ++ fs)) (hr : perform step s es = .ok t) :
    Meets step C s es ∧ Meets step C t fs := by
  induction es generalizing s with
  | nil =>
    obtain rfl := Except.ok.inj hr
    exact ⟨trivial,h⟩
  | cons e es ih =>
    obtain ⟨hc,ht⟩ := h
    obtain ⟨u,hu,hr⟩ := (perform_cons_eq_ok step).mp hr
    refine ⟨⟨hc,fun s' hs' => ?_⟩,(ih (ht u hu) hr).2⟩
    obtain rfl := Except.ok.inj (hu.symm.trans hs')
    exact (ih (ht u hu) hr).1

/-- What every step meeting the condition preserves holds at the end of every such run. -/
theorem Meets.invariant (hstep : ∀ s e s', I s → C s e → step s e = .ok s' → I s')
    {s t : σ} {es : List ε} (h : Meets step C s es) (hs : I s) (hr : perform step s es = .ok t) :
    I t := by
  induction es generalizing s with
  | nil =>
    rw [perform_nil] at hr
    cases hr
    exact hs
  | cons e es ih =>
    obtain ⟨hc,ht⟩ := h
    obtain ⟨s',he,hr'⟩ := (perform_cons_eq_ok step).mp hr
    exact ih (ht s' he) (hstep s e s' hs hc he) hr'

/-- Where an invariant tells which steps return, the runs that come to their end are those whose steps do. -/
theorem returns_perform_iff {s : σ} {es : List ε} (hkeep : ∀ s e s', I s → step s e = .ok s' → I s')
    (hiff : ∀ s, I s → ∀ e ∈ es, (Returns (step s e) ↔ C s e)) (hs : I s) :
    Returns (perform step s es) ↔ Meets step C s es := by
  induction es generalizing s with
  | nil => exact iff_of_true ⟨s,rfl⟩ trivial
  | cons e es ih =>
    have hrest := fun s (hs : I s) e' he => hiff s hs e' (List.mem_cons_of_mem _ he)
    rw [perform_cons, returns_bind_iff]
    constructor
    · rintro ⟨s',he,hr⟩
      refine ⟨(hiff s hs e List.mem_cons_self).mp ⟨s',he⟩,fun t ht => ?_⟩
      obtain rfl := Except.ok.inj (he.symm.trans ht)
      exact (ih hrest (hkeep s e s' hs he)).mp hr
    · rintro ⟨hc,ht⟩
      obtain ⟨s',he⟩ := (hiff s hs e List.mem_cons_self).mpr hc
      exact ⟨s',he,(ih hrest (hkeep s e s' hs he)).mpr (ht s' he)⟩

/-- When no such step fails either, the run comes to its end. -/
theorem Meets.progress (hstep : ∀ s e, I s → C s e → ∃ s', step s e = .ok s' ∧ I s')
    {s : σ} {es : List ε} (h : Meets step C s es) (hs : I s) :
    ∃ t, perform step s es = .ok t ∧ I t := by
  induction es generalizing s with
  | nil => exact ⟨s,rfl,hs⟩
  | cons e es ih =>
    obtain ⟨hc,ht⟩ := h
    obtain ⟨s',he,hs'⟩ := hstep s e hs hc
    obtain ⟨t,hr,hI⟩ := ih (ht s' he) hs'
    exact ⟨t,(perform_cons_eq_ok step).mpr ⟨s',he,hr⟩,hI⟩

/-- A machine that can follow every step of another one can follow its runs. -/
theorem Meets.simulation {τ : Type v} {step' : τ → ε → Except κ τ} {R : σ → τ → Prop}
    (hstep : ∀ s t e s', R s t → C s e → step s e = .ok s' → ∃ t', step' t e = .ok t' ∧ R s' t')
    {s s' : σ} {t : τ} {es : List ε} (h : Meets step C s es) (hR : R s t) (hr : perform step s es = .ok s') :
    ∃ t', perform step' t es = .ok t' ∧ R s' t' := by
  induction es generalizing s t with
  | nil =>
    obtain rfl := Except.ok.inj hr
    exact ⟨t,rfl,hR⟩
  | cons e es ih =>
    obtain ⟨hc,hmeets⟩ := h
    obtain ⟨u,he,hr⟩ := (perform_cons_eq_ok step).mp hr
    obtain ⟨u',he',hu⟩ := hstep s t e u hR hc he
    obtain ⟨t',ht',hR'⟩ := ih (hmeets u he) hu hr
    exact ⟨t',(perform_cons_eq_ok step').mpr ⟨u',he',ht'⟩,hR'⟩

/-- A record that every step appends to holds at the end what the events have put there. -/
theorem perform_filterMap {β : Type*} (record : σ → List β) {f : ε → Option β}
    (hstep : ∀ s e s', step s e = .ok s' → record s' = record s ++ (f e).toList)
    {s t : σ} {es : List ε} (hr : perform step s es = .ok t) : record t = record s ++ es.filterMap f := by
  induction es generalizing s with
  | nil =>
    obtain rfl := Except.ok.inj hr
    exact (List.append_nil _).symm
  | cons e es ih =>
    obtain ⟨s',he,hr⟩ := (perform_cons_eq_ok step).mp hr
    rw [ih hr, hstep s e s' he, List.append_assoc, List.filterMap_cons]
    cases f e <;> rfl

variable (step) in
/-- In every state the run comes to, `P` holds. -/
def Throughout (P : σ → Prop) : σ → List ε → Prop
  | s, [] => P s
  | s, e :: es => P s ∧ ∀ s', step s e = .ok s' → Throughout P s' es

theorem Throughout.first {P : σ → Prop} {s : σ} {es : List ε} (h : Throughout step P s es) : P s := by
  cases es with
  | nil => exact h
  | cons e es => exact h.1

theorem Throughout.last {P : σ → Prop} {s t : σ} {es : List ε} (h : Throughout step P s es)
    (hr : perform step s es = .ok t) : P t := by
  induction es generalizing s with
  | nil =>
    obtain rfl := Except.ok.inj hr
    exact h
  | cons e es ih =>
    obtain ⟨s',he,hr⟩ := (perform_cons_eq_ok step).mp hr
    exact ih (h.2 s' he) hr

/-- Where an invariant makes two properties one, and holds as long as they do, the runs that have the one
throughout are those that have the other. -/
theorem Meets.throughout_iff {P Q : σ → Prop} (hiff : ∀ s, I s → (P s ↔ Q s))
    (hstep : ∀ s e s', I s → Q s → C s e → step s e = .ok s' → I s') {s : σ} {es : List ε}
    (h : Meets step C s es) (hs : I s) : Throughout step P s es ↔ Throughout step Q s es := by
  induction es generalizing s with
  | nil => exact hiff s hs
  | cons e es ih =>
    obtain ⟨hc,ht⟩ := h
    constructor
    · rintro ⟨hP,hrest⟩
      have hQ := (hiff s hs).mp hP
      exact ⟨hQ,fun s' he => (ih (ht s' he) (hstep s e s' hs hQ hc he)).mp (hrest s' he)⟩
    · rintro ⟨hQ,hrest⟩
      exact ⟨(hiff s hs).mpr hQ,fun s' he => (ih (ht s' he) (hstep s e s' hs hQ hc he)).mpr (hrest s' he)⟩

/-- Where the steps that meet a condition keep an invariant, and any other step leads out of a property that the
invariant ensures, the runs that have the property throughout are those that meet the condition. -/
theorem Meets.throughout_iff_meets {P : σ → Prop} {D : σ → ε → Prop} (hholds : ∀ s, I s → P s)
    (hkeep : ∀ s e s', I s → C s e → D s e → step s e = .ok s' → I s')
    (hbreak : ∀ s e, I s → C s e → ¬ D s e → ∃ s', step s e = .ok s' ∧ ¬ P s') {s : σ} {es : List ε}
    (h : Meets step C s es) (hs : I s) : Throughout step P s es ↔ Meets step D s es := by
  induction es generalizing s with
  | nil => exact iff_of_true (hholds s hs) trivial
  | cons e es ih =>
    obtain ⟨hc,ht⟩ := h
    constructor
    · rintro ⟨-,hrest⟩
      have hd : D s e := by
        by_contra hd
        obtain ⟨s',he,hnot⟩ := hbreak s e hs hc hd
        exact hnot (hrest s' he).first
      exact ⟨hd,fun s' he => (ih (ht s' he) (hkeep s e s' hs hc hd he)).mp (hrest s' he)⟩
    · rintro ⟨hd,hrest⟩
      exact ⟨hholds s hs,fun s' he => (ih (ht s' he) (hkeep s e s' hs hc hd he)).mpr (hrest s' he)⟩

/-- Unconditional form: every step preserves the invariant. -/
theorem perform_invariant (hstep : ∀ s e s', I s → step s e = .ok s' → I s')
    {s t : σ} {es : List ε} (hs : I s) (hr : perform step s es = .ok t) : I t := by
  have hmeets : Meets step (fun _ _ => True) s es := Meets.of_forall (fun _ _ => trivial) s
  exact hmeets.invariant (fun s e s' h _ he => hstep s e s' h he) hs hr

/-- A run with enough events of the kind that lowers a measure comes to where it is headed, whatever the other events
are. -/
theorem Meets.reaches [DecidableEq ε] {D : σ → Prop} {tick : ε} (μ : σ → ℕ)
    (hkeep : ∀ s e s', D s → step s e = .ok s' → D s')
    (hstep : ∀ s e s', I s → C s e → step s e = .ok s' → D s' ∨ I s' ∧ μ s' + (if e = tick then 1 else 0) ≤ μ s)
    {s t : σ} {es : List ε} (h : Meets step C s es) (hs : I s) (hcount : μ s < es.count tick)
    (hr : perform step s es = .ok t) : D t := by
  induction es generalizing s with
  | nil => exact absurd hcount (Nat.not_lt_zero _)
  | cons e es ih =>
    obtain ⟨hc,ht⟩ := h
    obtain ⟨s',he,hr'⟩ := (perform_cons_eq_ok step).mp hr
    rcases hstep s e s' hs hc he with hD | ⟨hs',hless⟩
    · exact perform_invariant hkeep hD hr'
    · refine ih (ht s' he) hs' ?_ hr'
      rw [List.count_cons] at hcount
      simp only [beq_iff_eq] at hcount
      omega

/-- So does a machine that is left alone with such events. -/
theorem perform_replicate_reaches {D : σ → Prop} {tick : ε} (μ : σ → ℕ)
    (hstep : ∀ s, I s → ∃ s', step s tick = .ok s' ∧ (D s' ∨ I s' ∧ μ s' < μ s)) {s : σ} (hs : I s) :
    ∃ k t, perform step s (List.replicate k tick) = .ok t ∧ D t := by
  induction hn : μ s using Nat.strongRecOn generalizing s with
  | ind n ih =>
    obtain ⟨s',he,hD | ⟨hs',hless⟩⟩ := hstep s hs
    · exact ⟨1,s',(perform_cons_eq_ok step).mpr ⟨s',he,rfl⟩,hD⟩
    · obtain ⟨k,t,hr,hD⟩ := ih (μ s') (hn ▸ hless) hs' rfl
      exact ⟨k + 1,t,(perform_cons_eq_ok step).mpr ⟨s',he,hr⟩,hD⟩

end Run

end Xctools.Machine
