import Mathlib.Data.List.Basic
import Mathlib.Data.Nat.ModEq

/-! Ring buffers with indices that run on freely and wrap at the width of a machine word. A position of the
stream has its cell at the position modulo the size, as long as the stream is not a whole size ahead. -/
namespace Xctools.Machine

section Wrap
variable {w a b : ℕ}

/-- Subtraction of machine words. -/
def wrapSub (w a b : ℕ) : ℕ := (a + w - b) % w

/-- The distance of two counters is that of their words, while it is less than the width. -/
theorem wrapSub_mod (hle : b ≤ a) (hlt : a - b < w) : wrapSub w (a % w) (b % w) = a - b := by
  have hw : 0 < w := by omega
  have hb : b % w < w := Nat.mod_lt b hw
  have hsum : a % w + w - b % w + b % w = a % w + w := by omega
  have hmod : a % w + w - b % w ≡ a - b [MOD w] := by
    apply Nat.ModEq.add_right_cancel' (b % w)
    calc a % w + w - b % w + b % w = a % w + w := hsum
      _ ≡ a % w [MOD w] := Nat.add_modEq_right
      _ ≡ a [MOD w] := Nat.mod_modEq a w
      _ = a - b + b := by omega
      _ ≡ a - b + b % w [MOD w] := (Nat.mod_modEq b w).symm.add_left _
  rw [wrapSub, hmod, Nat.mod_eq_of_lt hlt]

/-- Counters that are less than the width apart are equal if their words are. -/
theorem eq_of_mod_eq (hle : b ≤ a) (hlt : a - b < w) (h : b % w = a % w) : b = a := by
  have hzero := wrapSub_mod hle hlt
  rw [h, wrapSub, Nat.add_sub_cancel_left, Nat.mod_self] at hzero
  omega

end Wrap

section Cells
universe u
variable {α : Type u} {size lo : ℕ} {cell : ℕ → α} {l : List α}

/-- The cells hold the stream from a position on. -/
def Holds (size : ℕ) (cell : ℕ → α) (lo : ℕ) (l : List α) : Prop :=
  ∀ k, lo ≤ k → ∀ x, l[k]? = some x → cell (k % size) = x

/-- One more is written where the cell is free. -/
theorem Holds.push (h : Holds size cell lo l) (hroom : l.length < lo + size) (x : α) :
    Holds size (Function.update cell (l.length % size) x) lo (l ++ [x]) := by
  intro k hk y hy
  by_cases hlast : k = l.length
  · subst hlast
    rw [List.getElem?_concat_length] at hy
    rw [Function.update_self, Option.some.inj hy]
  · have hlt : k < l.length := by
      have := (List.getElem?_eq_some_iff.mp hy).1
      rw [List.length_append, List.length_singleton] at this
      omega
    rw [List.getElem?_append_left hlt] at hy
    have hcell : k % size ≠ l.length % size := by
      intro he
      exact hlast (eq_of_mod_eq (Nat.le_of_lt hlt) (by omega) he)
    rw [Function.update_of_ne hcell]
    exact h k hk y hy

theorem Holds.mono (h : Holds size cell lo l) {lo' : ℕ} (hle : lo ≤ lo') : Holds size cell lo' l :=
  fun k hk => h k (hle.trans hk)

end Cells

end Xctools.Machine
