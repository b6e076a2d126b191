import Mathlib.Algebra.BigOperators.Fin
import Mathlib.Data.List.Basic
import Mathlib.Data.Int.Order.Basic

/-! Records in memory. A field is so many bytes at an offset, the least significant of them first; what is behind
the end of the memory is not read. -/
namespace Xctools.Machine

section Layout
variable {size offset : ℕ} {mem : List UInt8}

/-- The number in a field. -/
def numberAt (size offset : ℕ) (mem : List UInt8) : ℕ :=
  ((mem.drop offset).take size).foldr (fun b n => b.toNat + 256 * n) 0

/-- `uint32_t`, `uint64_t` and `int32_t` fields. -/
abbrev uint32At : ℕ → List UInt8 → ℕ := numberAt 4
abbrev uint64At : ℕ → List UInt8 → ℕ := numberAt 8
def int32At (offset : ℕ) (mem : List UInt8) : ℤ := Int.bmod (uint32At offset mem) (2 ^ 32)

theorem int32At_lt (offset : ℕ) (mem : List UInt8) : int32At offset mem < 2 ^ 31 :=
  Int.bmod_lt (by decide)

/-- A field is in a part of the memory that it does not leave. -/
theorem numberAt_append_of_le (h : offset + size ≤ mem.length) (rest : List UInt8) :
    numberAt size offset (mem ++ rest) = numberAt size offset mem := by
  rw [numberAt, List.drop_append_of_le_length (by omega), List.take_append_of_le_length (by simp; omega)]
  rfl

/-- `memcpy` to the beginning of a buffer that holds something older. -/
def overlay (old new : List UInt8) : List UInt8 := new ++ old.drop new.length

theorem int32At_overlay_of_le (h : offset + 4 ≤ mem.length) (old : List UInt8) :
    int32At offset (overlay old mem) = int32At offset mem := by
  have hnumber : uint32At offset (overlay old mem) = uint32At offset mem := numberAt_append_of_le h _
  unfold int32At
  rw [hnumber]

end Layout

end Xctools.Machine
