import Mathlib.Data.List.Basic
import Mathlib.Data.Int.Init

/-! Integers in decimal, as `%d` prints them: digits behind at most one minus sign. What is put together from
them with a separator that is neither a digit nor a minus sign can be taken apart again. -/
namespace Xctools.Machine

section Digits

lemma length_toDigits_lt {n : ℕ} (h : n ≤ 2147483648) : (Nat.toDigits 10 n).length ≤ 10 :=
  (Nat.length_toDigits_le_iff (by decide) (by decide)).mpr (Nat.lt_of_le_of_lt h (by decide))

lemma toList_toString_ofNat (n : ℕ) : (toString (Int.ofNat n)).toList = Nat.toDigits 10 n := by
  rw [Int.toString_eq_repr]
  exact Nat.toList_repr

lemma toList_toString_negSucc (n : ℕ) :
    (toString (Int.negSucc n)).toList = '-' :: Nat.toDigits 10 (n + 1) := by
  rw [Int.toString_eq_repr]
  change ("-" ++ Nat.repr (n + 1)).toList = _
  simp [Nat.toList_repr]

lemma mem_toString {i : ℤ} {c : Char} (hc : c ∈ (toString i).toList) : c = '-' ∨ c.isDigit = true := by
  cases i with
  | ofNat n =>
    rw [toList_toString_ofNat] at hc
    exact .inr (Nat.isDigit_of_mem_toDigits (by decide) (by decide) hc)
  | negSucc n =>
    rw [toList_toString_negSucc] at hc
    rcases List.mem_cons.mp hc with rfl | hc
    · exact .inl rfl
    · exact .inr (Nat.isDigit_of_mem_toDigits (by decide) (by decide) hc)

/-- An int takes at most eleven characters. -/
lemma length_toString_le {i : ℤ} (hlo : -2147483648 ≤ i) (hhi : i ≤ 2147483647) :
    (toString i).toList.length ≤ 11 := by
  cases i with
  | ofNat n =>
    have hn : n ≤ 2147483648 := by
      rw [Int.ofNat_eq_natCast] at hhi
      omega
    rw [toList_toString_ofNat]
    exact Nat.le_trans (length_toDigits_lt hn) (by decide)
  | negSucc n =>
    have hn : n + 1 ≤ 2147483648 := by
      rw [Int.negSucc_eq] at hlo
      omega
    rw [toList_toString_negSucc, List.length_cons]
    exact Nat.succ_le_succ (length_toDigits_lt hn)

lemma toDigits_injective {m n : ℕ} (h : Nat.toDigits 10 m = Nat.toDigits 10 n) : m = n := by
  have hvalue := congrArg (fun digits => Nat.ofDigitChars 10 digits 0) h
  simpa only [Nat.ofDigitChars_ten_toDigits] using hvalue

lemma toString_injective {i j : ℤ} (h : (toString i).toList = (toString j).toList) : i = j := by
  have hminus : ∀ n, '-' ∉ Nat.toDigits 10 n := fun n hmem => by
    cases Nat.isDigit_of_mem_toDigits (by decide) (by decide) hmem
  cases i with
  | ofNat m =>
    cases j with
    | ofNat n =>
      rw [toList_toString_ofNat, toList_toString_ofNat] at h
      rw [toDigits_injective h]
    | negSucc n =>
      rw [toList_toString_ofNat, toList_toString_negSucc] at h
      exact absurd (h ▸ List.mem_cons_self) (hminus m)
  | negSucc m =>
    cases j with
    | ofNat n =>
      rw [toList_toString_negSucc, toList_toString_ofNat] at h
      exact absurd (h ▸ List.mem_cons_self) (hminus n)
    | negSucc n =>
      rw [toList_toString_negSucc, toList_toString_negSucc] at h
      rw [Nat.succ.inj (toDigits_injective (List.cons.inj h).2)]

end Digits

section Lists
variable {sep : Char} {l l' : List ℤ}

/-- Integers with a separator between them. -/
def decimals (sep : Char) (l : List ℤ) : List Char := [sep].intercalate (l.map fun i => (toString i).toList)

/-- The integers can be told from the text. -/
theorem decimals_injective (hminus : sep ≠ '-') (hdigit : sep.isDigit = false) (hl : l ≠ []) (hl' : l' ≠ [])
    (h : decimals sep l = decimals sep l') : l = l' := by
  have hsep : ∀ k : List ℤ, ∀ t ∈ k.map fun i => (toString i).toList, sep ∉ t := by
    intro k t ht hmem
    obtain ⟨i,-,rfl⟩ := List.mem_map.mp ht
    rcases mem_toString hmem with he | he
    · exact hminus he
    · rw [hdigit] at he
      cases he
  have hsplit : ∀ k : List ℤ, k ≠ [] → (decimals sep k).splitOn sep = k.map fun i => (toString i).toList := by
    intro k hk
    exact List.splitOn_intercalate sep (hsep k) (by simpa using hk)
  have hmap := congrArg (List.splitOn sep) h
  rw [hsplit l hl, hsplit l' hl'] at hmap
  exact List.map_injective_iff.mpr (fun _ _ => toString_injective) hmap

end Lists

end Xctools.Machine
