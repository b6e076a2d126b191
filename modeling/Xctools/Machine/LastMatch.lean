import Xctools.Machine.Outcome

/-! Last-match lists. Each entry of a list either has a verdict, has none, or fails to answer.
Walking the list with one accumulator leaves the verdict of the last entry that has one, or the
default when none has. -/
namespace Xctools.Machine

section LastMatch
universe u v
variable {κ : Type u} {β : Type v} {α : Type*} (f : α → Except κ (Option β))

/-- The accumulator loop: an entry without a verdict leaves the accumulator as it was. -/
def judge (d : β) (l : List α) : Except κ β :=
  l.foldlM (fun acc x => do return (← f x).getD acc) d

/-- Every entry answers. -/
def Answered (l : List α) : Prop := ∀ x ∈ l, ∃ v, f x = .ok v

/-- The last entry with a verdict says `b`. -/
def LastMatch (l : List α) (b : β) : Prop :=
  ∃ before x after, l = before ++ x :: after ∧ f x = .ok (some b) ∧ ∀ y ∈ after, f y = .ok none

/-- No entry has a verdict. -/
def Unmatched (l : List α) : Prop := ∀ x ∈ l, f x = .ok none

@[simp] theorem judge_nil (d : β) : judge f d [] = .ok d := rfl

@[simp] theorem judge_cons (d : β) (x : α) (l : List α) :
    judge f d (x :: l) = f x >>= fun v => judge f (v.getD d) l := by
  simp only [judge, List.foldlM_cons]
  cases f x <;> rfl

theorem judge_append (d : β) (l m : List α) :
    judge f d (l ++ m) = judge f d l >>= fun v => judge f v m := by
  simp [judge]

variable {f}

theorem not_lastMatch_nil (b : β) : ¬ LastMatch f [] b := by
  rintro ⟨p,x,q,h,-⟩
  simp at h

/-- An entry in front has the last word exactly when none after it has a verdict. -/
theorem lastMatch_cons_iff {x : α} {l : List α} {b : β} :
    LastMatch f (x :: l) b ↔ LastMatch f l b ∨ f x = .ok (some b) ∧ Unmatched f l := by
  constructor
  · rintro ⟨p,y,q,he,hy,hq⟩
    cases p with
    | nil =>
      obtain ⟨rfl,rfl⟩ := List.cons.inj he
      exact .inr ⟨hy,hq⟩
    | cons z p => exact .inl ⟨p,y,q,(List.cons.inj he).2,hy,hq⟩
  · rintro (⟨p,y,q,rfl,hy,hq⟩ | ⟨hx,hl⟩)
    · exact ⟨x :: p,y,q,rfl,hy,hq⟩
    · exact ⟨[],x,l,rfl,hx,hl⟩

theorem LastMatch.not_unmatched {l : List α} {b : β} (h : LastMatch f l b) :
    ¬ Unmatched f l := by
  obtain ⟨p,x,q,rfl,hx,-⟩ := h
  intro hu
  have := hu x (by simp)
  rw [this] at hx
  simp at hx

theorem LastMatch.unique {l : List α} {b c : β} (hb : LastMatch f l b) (hc : LastMatch f l c) :
    b = c := by
  induction l with
  | nil => exact absurd hb (not_lastMatch_nil b)
  | cons x l ih =>
    rcases lastMatch_cons_iff.mp hb with hb | ⟨hb,hu⟩
    · rcases lastMatch_cons_iff.mp hc with hc | ⟨-,hu⟩
      · exact ih hb hc
      · exact absurd hu hb.not_unmatched
    · rcases lastMatch_cons_iff.mp hc with hc | ⟨hc,-⟩
      · exact absurd hu hc.not_unmatched
      · rw [hb] at hc
        simpa using hc

/-- The loop returns exactly when every entry answers, and then with the last verdict. -/
theorem judge_eq_ok_iff (d b : β) (l : List α) :
    judge f d l = .ok b ↔ Answered f l ∧ (LastMatch f l b ∨ Unmatched f l ∧ b = d) := by
  induction l generalizing d with
  | nil => simp [Answered, Unmatched, not_lastMatch_nil, eq_comm]
  | cons x l ih =>
    rw [judge_cons]
    cases hx : f x with
    | error e =>
      have hn : ¬ Answered f (x :: l) := by
        intro h
        obtain ⟨v,hv⟩ := h x (by simp)
        rw [hx] at hv
        cases hv
      simp [hn]
    | ok v =>
      have ha : Answered f (x :: l) ↔ Answered f l := by simp [Answered, hx]
      rw [ok_bind, ih, ha, lastMatch_cons_iff]
      apply and_congr_right
      intro _
      cases v with
      | none =>
        have hu : Unmatched f (x :: l) ↔ Unmatched f l := by simp [Unmatched, hx]
        simp [hx, hu]
      | some c =>
        -- the accumulator of the rest starts from the verdict of the entry in front
        have hu : ¬ Unmatched f (x :: l) := fun h => by simpa [hx] using h x (by simp)
        simp [hx, hu, and_comm, eq_comm]

theorem Answered.judge {l : List α} (h : Answered f l) (d : β) : ∃ b, judge f d l = .ok b := by
  induction l generalizing d with
  | nil => exact ⟨d,rfl⟩
  | cons x l ih =>
    obtain ⟨v,hv⟩ := h x (by simp)
    obtain ⟨b,hb⟩ := ih (fun y hy => h y (by simp [hy])) (v.getD d)
    exact ⟨b,by rw [judge_cons, hv, ok_bind, hb]⟩

theorem returns_judge_iff {d : β} {l : List α} : Returns (judge f d l) ↔ Answered f l := by
  constructor
  · rintro ⟨v,hv⟩
    exact ((judge_eq_ok_iff d v l).mp hv).1
  · exact fun h => h.judge d

/-- Any result but the default is the last verdict. -/
theorem lastMatch_of_judge {d v b : β} {l : List α} (h : judge f d l = .ok v) (hb : b ≠ d) :
    v = b ↔ LastMatch f l b := by
  obtain ⟨-,hl⟩ := (judge_eq_ok_iff d v l).mp h
  constructor
  · rintro rfl
    rcases hl with hl | ⟨-,hv⟩
    · exact hl
    · exact absurd hv hb
  · intro ht
    rcases hl with hl | ⟨hu,-⟩
    · exact hl.unique ht
    · exact absurd hu ht.not_unmatched

end LastMatch

end Xctools.Machine
