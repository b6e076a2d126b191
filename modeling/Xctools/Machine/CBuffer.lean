import Mathlib.Data.List.TakeWhile

/-! Character buffers of C. A string in a buffer ends with a null byte; `snprintf`, `strncat` and `strncpy` write
into it, at a place and with a bound. A buffer of null bytes that is written from left to right holds what was
written, one behind the other. -/
namespace Xctools.Machine

section Buffers
variable {buffer written text : List Char} {off size bound n : ℕ}

/-- The string at the start of a buffer. -/
def cString (buffer : List Char) : List Char := buffer.takeWhile fun c => c ≠ '\x00'

/-- The buffer with a text written at a place. -/
def overwrite (buffer : List Char) (off : ℕ) (text : List Char) : List Char :=
  buffer.take off ++ text ++ buffer.drop (off + text.length)

/-- `snprintf` at a place, with the size it is given. -/
def snprintf (buffer : List Char) (off bound : ℕ) (text : List Char) : List Char :=
  overwrite buffer off (text.take (bound - 1) ++ ['\x00'])

/-- `strncat` to the string at a place. -/
def strncat (buffer : List Char) (off : ℕ) (text : List Char) (n : ℕ) : List Char :=
  overwrite buffer (off + (cString (buffer.drop off)).length) (text.take n ++ ['\x00'])

/-- `strncpy` into an array: `n` characters are written, null bytes behind the text. -/
def strncpy {size : ℕ} (dst : Vector Char size) (text : List Char) (n : ℕ) : Vector Char size :=
  Vector.ofFn fun i => if i.val < n then text[i.val]?.getD '\x00' else dst[i.val]

/-- A buffer of null bytes with a text at its start. -/
def filled (written : List Char) (size : ℕ) : List Char :=
  written ++ List.replicate (size - written.length) '\x00'

theorem cString_append_nul (h : '\x00' ∉ text) (rest : List Char) : cString (text ++ '\x00' :: rest) = text := by
  have hall : ∀ c ∈ text, decide (c ≠ '\x00') = true := fun _ hc => decide_eq_true fun heq => h (heq ▸ hc)
  rw [cString, List.takeWhile_append_of_pos hall, List.takeWhile_cons_of_neg (by simp), List.append_nil]

theorem cString_append (h : '\x00' ∉ text) (rest : List Char) : cString (text ++ rest) = text ++ cString rest :=
  List.takeWhile_append_of_pos fun _ hc => decide_eq_true fun heq => h (heq ▸ hc)

theorem nul_not_mem_cString (buffer : List Char) : '\x00' ∉ cString buffer := fun h => by
  simpa using List.mem_takeWhile_imp h

theorem cString_filled (h : '\x00' ∉ written) (hsize : written.length < size) :
    cString (filled written size) = written := by
  obtain ⟨k,hk⟩ := Nat.exists_eq_add_of_lt hsize
  have hleft : size - written.length = k + 1 := by omega
  rw [filled, hleft, List.replicate_succ]
  exact cString_append_nul h _

/-- What is written behind the text of a buffer comes behind it. -/
theorem overwrite_filled (h : written.length + text.length < size) :
    overwrite (filled written size) written.length (text ++ ['\x00']) = filled (written ++ text) size := by
  obtain ⟨k,rfl⟩ := Nat.exists_eq_add_of_lt h
  have hleft : written.length + text.length + k + 1 - written.length = (text.length + 1) + k := by omega
  have hbehind : written.length + text.length + k + 1 - (written ++ text).length = k + 1 := by
    rw [List.length_append]
    omega
  rw [overwrite, filled, filled, hleft, hbehind, List.take_left, List.length_append, List.length_singleton,
    ← List.drop_drop, List.drop_left, List.drop_replicate, Nat.add_sub_cancel_left,
    List.replicate_succ]
  simp

theorem snprintf_filled (h : written.length + (text.take (bound - 1)).length < size) :
    snprintf (filled written size) written.length bound text = filled (written ++ text.take (bound - 1)) size :=
  overwrite_filled h

/-- A place inside the text of a buffer is as good as its end for `strncat`. -/
theorem strncat_filled (hoff : off ≤ written.length) (hnul : '\x00' ∉ written.drop off)
    (h : written.length + (text.take n).length < size) :
    strncat (filled written size) off text n = filled (written ++ text.take n) size := by
  have hend : off + (cString ((filled written size).drop off)).length = written.length := by
    have hrest : (filled written size).drop off = filled (written.drop off) (size - off) := by
      rw [filled, filled, List.drop_append_of_le_length hoff, List.length_drop]
      congr 2
      omega
    rw [hrest, cString_filled hnul (by rw [List.length_drop]; omega), List.length_drop]
    omega
  rw [strncat, hend]
  exact overwrite_filled h

variable {dst : Vector Char size}

/-- A text that leaves room for a null byte is the string of the array. -/
theorem cString_strncpy_of_lt (hnul : '\x00' ∉ text) (hlen : text.length < size) (rest : List Char) :
    cString ((strncpy dst text size).toList ++ rest) = text := by
  have hcopy : (strncpy dst text size).toList = text ++ '\x00' :: List.replicate (size - text.length - 1) '\x00' := by
    apply List.ext_getElem?
    intro i
    rw [strncpy, Vector.toList_ofFn, List.getElem?_ofFn, List.getElem?_append]
    split_ifs with hi htext htext
    · simp [htext]
    · rw [List.getElem?_eq_none (Nat.le_of_not_lt htext), ← List.replicate_succ, List.getElem?_replicate,
        if_pos (by omega)]
      simp
    · omega
    · rw [← List.replicate_succ, List.getElem?_replicate, if_neg (by omega)]
  rw [hcopy, List.append_assoc, List.cons_append]
  exact cString_append_nul hnul _

/-- A text that fills the array runs into what is behind it. -/
theorem cString_strncpy_of_le (hnul : '\x00' ∉ text) (hlen : size ≤ text.length) (rest : List Char) :
    cString ((strncpy dst text size).toList ++ rest) = text.take size ++ cString rest := by
  have hcopy : (strncpy dst text size).toList = text.take size := by
    apply List.ext_getElem?
    intro i
    rw [strncpy, Vector.toList_ofFn, List.getElem?_ofFn, List.getElem?_take]
    split_ifs with hi
    · simp [Nat.lt_of_lt_of_le hi hlen]
    · rfl
  rw [hcopy]
  exact cString_append (fun h => hnul (List.mem_of_mem_take h)) rest

end Buffers

end Xctools.Machine
