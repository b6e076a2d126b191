import Mathlib.Logic.Relation
import Xctools.Machine.Outcome

/-! Loops that run until a flag is set. A loop is given a number of rounds and says so when they do not
suffice; what it comes to is described by the rounds it makes, and a measure that falls in every round
tells how many are enough. -/
namespace Xctools.Machine

section Loop
universe u
variable {σ : Type u} (step : σ → Outcome σ) (done : σ → Bool)

/-- At most `n` rounds, none once the flag is set. -/
def loop : ℕ → σ → Outcome σ
  | 0, s => if done s then .ok s else .error .loop
  | n + 1, s => if done s then .ok s else step s >>= loop n

/-- One round. -/
def Round (s t : σ) : Prop := done s = false ∧ step s = .ok t

/-- Any number of rounds. -/
abbrev Rounds : σ → σ → Prop := Relation.ReflTransGen (Round step done)

variable {step done} {s t : σ} {n : ℕ}

theorem loop_of_done (h : done s = true) (n : ℕ) : loop step done n s = .ok s := by
  cases n <;> rw [loop, if_pos h]

theorem loop_succ_of_not_done (h : done s = false) :
    loop step done (n + 1) s = step s >>= loop step done n := by
  rw [loop, if_neg (by simp [h])]

/-- What a loop comes to is reached by rounds, and the flag is set there. -/
theorem rounds_of_loop (h : loop step done n s = .ok t) : Rounds step done s t ∧ done t = true := by
  induction n generalizing s with
  | zero =>
    unfold loop at h
    split_ifs at h with hd
    obtain rfl := Except.ok.inj h
    exact ⟨.refl,hd⟩
  | succ n ih =>
    cases hd : done s with
    | true =>
      rw [loop_of_done hd] at h
      obtain rfl := Except.ok.inj h
      exact ⟨.refl,hd⟩
    | false =>
      rw [loop_succ_of_not_done hd] at h
      obtain ⟨s',hs,h⟩ := bind_eq_ok.mp h
      obtain ⟨hr,ht⟩ := ih h
      exact ⟨.head ⟨hd,hs⟩ hr,ht⟩

/-- Rounds that lead to where the flag is set are the ones a loop makes, if it has enough of them. -/
theorem loop_of_rounds (h : Rounds step done s t) (ht : done t = true)
    (hn : loop step done n s ≠ .error .loop) : loop step done n s = .ok t := by
  induction h using Relation.ReflTransGen.head_induction_on generalizing n with
  | refl => exact loop_of_done ht n
  | head hround _ ih =>
    obtain ⟨hd,hs⟩ := hround
    cases n with
    | zero =>
      refine absurd ?_ hn
      rw [loop, if_neg (by simp [hd])]
    | succ n =>
      rw [loop_succ_of_not_done hd, hs, ok_bind] at hn ⊢
      exact ih hn

/-- A loop that comes to an end can go on from wherever its rounds lead before that. -/
theorem step_of_loop {a : σ} (h : loop step done n s = .ok t) (hr : Rounds step done s a) (ha : done a = false) :
    ∃ b, step a = .ok b := by
  induction hr using Relation.ReflTransGen.head_induction_on generalizing n with
  | refl =>
    cases n with
    | zero =>
      rw [loop, if_neg (by simp [ha])] at h
      cases h
    | succ n =>
      rw [loop_succ_of_not_done ha] at h
      obtain ⟨b,hb,-⟩ := bind_eq_ok.mp h
      exact ⟨b,hb⟩
  | head hround _ ih =>
    cases n with
    | zero =>
      rw [loop, if_neg (by simp [hround.1])] at h
      cases h
    | succ n =>
      rw [loop_succ_of_not_done hround.1, hround.2, ok_bind] at h
      exact ih h

/-- What every round preserves, any number of rounds preserves. -/
theorem Rounds.invariant {P : σ → Prop} (hstep : ∀ a b, P a → done a = false → step a = .ok b → P b)
    (h : Rounds step done s t) (hs : P s) : P t := by
  induction h with
  | refl => exact hs
  | tail _ hround ih => exact hstep _ _ ih hround.1 hround.2

/-- A measure that falls in every round bounds their number. -/
theorem loop_ne_loop {μ : σ → ℕ} (hμ : ∀ a b, done a = false → step a = .ok b → μ b < μ a)
    (hstep : ∀ a, step a ≠ .error .loop) (hn : μ s < n) : loop step done n s ≠ .error .loop := by
  induction n generalizing s with
  | zero => omega
  | succ n ih =>
    cases hd : done s with
    | true =>
      rw [loop_of_done hd]
      simp
    | false =>
      rw [loop_succ_of_not_done hd]
      cases hs : step s with
      | error e =>
        rw [error_bind, ← hs]
        exact hstep s
      | ok s' =>
        rw [ok_bind]
        exact ih (Nat.lt_of_lt_of_le (hμ s s' hd hs) (Nat.lt_succ_iff.mp hn))

/-- A loop whose rounds keep a property and lower a measure comes to an end, with the property. -/
theorem loop_total {P : σ → Prop} {μ : σ → ℕ}
    (hstep : ∀ a, P a → done a = false → ∃ b, step a = .ok b ∧ P b ∧ μ b < μ a) (hs : P s) (hn : μ s ≤ n) :
    ∃ t, loop step done n s = .ok t ∧ P t ∧ done t = true := by
  induction n generalizing s with
  | zero =>
    cases hd : done s with
    | true => exact ⟨s,loop_of_done hd 0,hs,hd⟩
    | false =>
      obtain ⟨b,-,-,hlt⟩ := hstep s hs hd
      omega
  | succ n ih =>
    cases hd : done s with
    | true => exact ⟨s,loop_of_done hd _,hs,hd⟩
    | false =>
      obtain ⟨b,hb,hP,hlt⟩ := hstep s hs hd
      obtain ⟨t,ht,hPt,hdone⟩ := ih hP (by omega)
      exact ⟨t,by rw [loop_succ_of_not_done hd, hb, ok_bind, ht],hPt,hdone⟩

/-- A loop that can follow every round of another one, with its flag set where that one's is, can follow it to its
end. -/
theorem loop_simulation {τ : Type u} {step' : τ → Outcome τ} {done' : τ → Bool} {R : σ → τ → Prop} {a : τ}
    (hdone : ∀ s a, R s a → done' a = done s)
    (hstep : ∀ s a t, R s a → done s = false → step s = .ok t → ∃ b, step' a = .ok b ∧ R t b) (hR : R s a)
    (h : loop step done n s = .ok t) : ∃ b, loop step' done' n a = .ok b ∧ R t b := by
  induction n generalizing s a with
  | zero =>
    unfold loop at h
    split_ifs at h with hd
    obtain rfl := Except.ok.inj h
    exact ⟨a,loop_of_done ((hdone s a hR).trans hd) 0,hR⟩
  | succ n ih =>
    cases hd : done s with
    | true =>
      rw [loop_of_done hd] at h
      obtain rfl := Except.ok.inj h
      exact ⟨a,loop_of_done ((hdone s a hR).trans hd) _,hR⟩
    | false =>
      rw [loop_succ_of_not_done hd] at h
      obtain ⟨s',hs,h⟩ := bind_eq_ok.mp h
      obtain ⟨a',ha,hR'⟩ := hstep s a s' hR hd hs
      obtain ⟨b,hb,hRb⟩ := ih hR' h
      exact ⟨b,by rw [loop_succ_of_not_done ((hdone s a hR).trans hd),ha,ok_bind,hb],hRb⟩

variable (step done) in
/-- Every round that rounds lead to can be made. -/
def Unfailing (s : σ) : Prop := ∀ a, Rounds step done s a → done a = false → Returns (step a)

lemma Unfailing.rounds (h : Unfailing step done s) (hr : Rounds step done s t) : Unfailing step done t :=
  fun a ha hd => h a (hr.trans ha) hd

/-- Behind the last round there are no others. -/
lemma unfailing_of_done (h : done s = true) : Unfailing step done s := by
  intro a ha hd
  obtain rfl | ⟨b,hround,-⟩ := ha.cases_head
  · exact absurd hd (by simp [h])
  · exact absurd hround.1 (by simp [h])

/-- What holds between rounds, and lets each of them be made, makes the loop unfailing. -/
lemma unfailing_of_invariant {P : σ → Prop} (hgo : ∀ a, P a → done a = false → Returns (step a))
    (hstep : ∀ a b, P a → done a = false → step a = .ok b → P b) (hs : P s) : Unfailing step done s :=
  fun a ha hd => hgo a (ha.invariant hstep hs) hd

/-- With enough rounds, a loop comes to an end exactly if every round can be made. -/
theorem returns_loop_iff {μ : σ → ℕ} (hμ : ∀ a b, done a = false → step a = .ok b → μ b < μ a) (hn : μ s ≤ n) :
    Returns (loop step done n s) ↔ Unfailing step done s := by
  constructor
  · rintro ⟨t,ht⟩ a ha hd
    exact step_of_loop ht ha hd
  · intro h
    have hstep : ∀ a, Unfailing step done a → done a = false → ∃ b, step a = .ok b ∧ Unfailing step done b ∧ μ b < μ a := by
      intro a ha hd
      obtain ⟨b,hb⟩ := ha a .refl hd
      exact ⟨b,hb,ha.rounds (.single ⟨hd,hb⟩),hμ a b hd hb⟩
    obtain ⟨t,ht,-⟩ := loop_total hstep h hn
    exact ⟨t,ht⟩

end Loop

end Xctools.Machine
