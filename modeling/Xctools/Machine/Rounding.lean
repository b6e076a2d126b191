import Mathlib.Data.Int.Order.Basic
import Mathlib.Tactic.Ring

/-! Quotients rounded to the nearest integer, halves away from zero, and the conversion of a number from one scale
to another and back. -/
namespace Xctools.Machine

section Rounding
variable {a b k m n p : ℤ}

/-- `round` of a quotient with a positive divisor. -/
def roundDiv (a b : ℤ) : ℤ := if 0 ≤ a then (2 * a + b) / (2 * b) else -((2 * -a + b) / (2 * b))

theorem le_roundDiv_iff (ha : 0 ≤ a) (hb : 0 < b) : k ≤ roundDiv a b ↔ k * (2 * b) ≤ 2 * a + b := by
  rw [roundDiv, if_pos ha, Int.le_ediv_iff_mul_le (by omega)]

theorem roundDiv_lt_iff (ha : 0 ≤ a) (hb : 0 < b) : roundDiv a b < k ↔ 2 * a + b < k * (2 * b) := by
  rw [roundDiv, if_pos ha, Int.ediv_lt_iff_lt_mul (by omega)]

theorem roundDiv_nonneg (ha : 0 ≤ a) (hb : 0 < b) : 0 ≤ roundDiv a b := by
  rw [le_roundDiv_iff ha hb]
  omega

theorem roundDiv_eq_iff (ha : 0 ≤ a) (hb : 0 < b) :
    roundDiv a b = k ↔ k * (2 * b) ≤ 2 * a + b ∧ 2 * a + b < (k + 1) * (2 * b) := by
  rw [← le_roundDiv_iff ha hb, ← roundDiv_lt_iff ha hb]
  omega

/-- A multiple is not rounded. -/
theorem roundDiv_mul_cancel (hk : 0 ≤ k) (hb : 0 < b) : roundDiv (b * k) b = k := by
  rw [roundDiv_eq_iff (Int.mul_nonneg hb.le hk) hb]
  have hleft : k * (2 * b) = 2 * (b * k) := by ring
  have hright : (k + 1) * (2 * b) = 2 * (b * k) + 2 * b := by ring
  omega

/-- A number that goes to a scale that is not coarser comes back as it was. -/
theorem roundDiv_rescale (hm : 0 < m) (hmn : m ≤ n) (hp : 0 ≤ p) : roundDiv (m * roundDiv (n * p) m) n = p := by
  have hn : 0 < n := Int.lt_of_lt_of_le hm hmn
  have hnp : 0 ≤ n * p := Int.mul_nonneg hn.le hp
  rcases Int.lt_or_eq_of_le hmn with hlt | rfl
  · obtain ⟨hlow,hhigh⟩ := (roundDiv_eq_iff hnp hm).mp (rfl : roundDiv (n * p) m = roundDiv (n * p) m)
    rw [roundDiv_eq_iff (Int.mul_nonneg hm.le (roundDiv_nonneg hnp hm)) hn]
    generalize roundDiv (n * p) m = level at *
    -- the error of the first quotient is at most half of `m`, and so less than half of `n`
    have hlevel : level * (2 * m) = 2 * (m * level) := by ring
    have hlevel' : (level + 1) * (2 * m) = 2 * (m * level) + 2 * m := by ring
    have hp' : p * (2 * n) = 2 * (n * p) := by ring
    have hp'' : (p + 1) * (2 * n) = 2 * (n * p) + 2 * n := by ring
    omega
  · rw [roundDiv_mul_cancel hp hm, roundDiv_mul_cancel hp hm]

end Rounding

end Xctools.Machine
