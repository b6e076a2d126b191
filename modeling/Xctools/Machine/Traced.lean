import Mathlib.Data.List.Basic

/-! Machines whose steps leave a trace. A step takes a state and an event to the next state and to what it does; the
trace of a run is what its steps do, in order. -/
namespace Xctools.Machine

section Traced
universe u v w
variable {σ : Type u} {ε : Type v} {τ : Type w} (step : σ → ε → σ × List τ)

/-- The end of a run, and its trace. -/
def traced : σ → List ε → σ × List τ
  | s, [] => (s,[])
  | s, e :: es => ((traced (step s e).1 es).1,(step s e).2 ++ (traced (step s e).1 es).2)

variable {step} {I : σ → Prop} {P : τ → Prop}

theorem traced_append (s : σ) (es fs : List ε) : traced step s (es ++ fs) =
    ((traced step (traced step s es).1 fs).1,(traced step s es).2 ++ (traced step (traced step s es).1 fs).2) := by
  induction es generalizing s with
  | nil => rfl
  | cons e es ih => rw [List.cons_append, traced, ih, traced, List.append_assoc]

theorem forall_traced_iff {s : σ} {e : ε} {es : List ε} : (∀ x ∈ (traced step s (e :: es)).2, P x) ↔
    (∀ x ∈ (step s e).2, P x) ∧ ∀ x ∈ (traced step (step s e).1 es).2, P x := by
  rw [traced, List.forall_mem_append]

/-- What every step does under an invariant is all that a run does. -/
theorem forall_traced (hstep : ∀ s e, I s → I (step s e).1) (heffect : ∀ s e, I s → ∀ x ∈ (step s e).2, P x)
    {s : σ} (h : I s) (es : List ε) : ∀ x ∈ (traced step s es).2, P x := by
  induction es generalizing s with
  | nil => exact List.forall_mem_nil P
  | cons e es ih => exact forall_traced_iff.mpr ⟨heffect s e h,ih (hstep s e h)⟩

end Traced

end Xctools.Machine
