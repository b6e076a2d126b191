import Mathlib.Computability.Language

/-! Languages written by their first letters. A language that is a sum of products, each of which begins
with a class of letters, is left by a letter for the factors behind the classes the letter is in. -/
namespace Xctools.Machine
open Computability

section Residual
variable {α : Type*} {p : α → Bool} {l m : Language α} {c : α} {w : List α}

/-- The words of one letter of a class. -/
def oneOf (p : α → Bool) : Language α := {w | ∃ c, p c = true ∧ w = [c]}

lemma mem_oneOf_mul : w ∈ oneOf p * l ↔ ∃ c v, p c = true ∧ v ∈ l ∧ w = c :: v := by
  rw [Language.mem_mul]
  constructor
  · rintro ⟨_,⟨c,hc,rfl⟩,v,hv,rfl⟩
    exact ⟨c,v,hc,hv,rfl⟩
  · rintro ⟨c,v,hc,hv,rfl⟩
    exact ⟨[c],⟨c,hc,rfl⟩,v,hv,rfl⟩

@[simp] theorem nil_mem_oneOf_mul : [] ∈ oneOf p * l ↔ False := by
  simp [mem_oneOf_mul]

@[simp] theorem cons_mem_oneOf_mul : c :: w ∈ oneOf p * l ↔ p c = true ∧ w ∈ l := by
  rw [mem_oneOf_mul]
  constructor
  · rintro ⟨_,_,hc,hv,h⟩
    obtain ⟨rfl,rfl⟩ := List.cons.inj h
    exact ⟨hc,hv⟩
  · rintro ⟨hc,hw⟩
    exact ⟨c,w,hc,hw,rfl⟩

@[simp] theorem cons_mem_one : c :: w ∈ (1 : Language α) ↔ False := by
  simp [Language.mem_one]

/-- A repetition followed by something begins with either. -/
theorem kstar_mul (l m : Language α) : l∗ * m = m + l * (l∗ * m) := by
  conv_lhs => rw [← Language.one_add_self_mul_kstar_eq_kstar]
  rw [add_mul, one_mul, mul_assoc]

end Residual

end Xctools.Machine
