import Mathlib.Data.List.Basic
import Mathlib.Data.Nat.Digits.Defs
import Mathlib.Tactic.IntervalCases

/-! Records of hexadecimal digits: bytes, numbers of four bytes with the least significant one first, and texts
with their length in front. A reader takes its field off the front of a text and leaves the rest. -/
namespace Xctools.Machine

section Fields

/-- `%02x`. -/
def hexByte (n : ℕ) : List Char :=
  let digits := Nat.toDigits 16 n
  if digits.length < 2 then '0' :: digits else digits

/-- The four bytes of a number. -/
def hexWord (n : ℕ) : List Char :=
  hexByte (n % 256) ++ hexByte (n / 256 % 256) ++ hexByte (n / 65536 % 256) ++ hexByte (n / 16777216 % 256)

/-- A text behind its length. -/
def hexText (text : List Char) : List Char := hexByte text.length ++ text

lemma mem_toDigits {n : ℕ} {c : Char} (h : c ∈ Nat.toDigits 16 n) : ∃ d < 16, c = Nat.digitChar d := by
  induction n using Nat.strong_induction_on with
  | _ n ih =>
    by_cases hn : n < 16
    · rw [Nat.toDigits_of_lt_base hn, List.mem_singleton] at h
      exact ⟨n,hn,h⟩
    · rw [Nat.toDigits_of_base_le (by decide) (Nat.le_of_not_lt hn), List.mem_append, List.mem_singleton] at h
      rcases h with h | h
      · exact ih (n / 16) (by omega) h
      · exact ⟨n % 16,Nat.mod_lt _ (by decide),h⟩

theorem nul_not_mem_hexByte (n : ℕ) : '\x00' ∉ hexByte n := by
  have hdigits : '\x00' ∉ Nat.toDigits 16 n := fun h => by
    obtain ⟨d,hd,heq⟩ := mem_toDigits h
    interval_cases d <;> cases heq
  rw [hexByte]
  split_ifs
  · rw [List.mem_cons, not_or]
    exact ⟨by decide,hdigits⟩
  · exact hdigits

theorem two_le_length_hexByte (n : ℕ) : 2 ≤ (hexByte n).length := by
  have hpos : 0 < (Nat.toDigits 16 n).length := Nat.length_toDigits_pos
  rw [hexByte]
  split_ifs with h
  · rw [List.length_cons]
    omega
  · exact Nat.le_of_not_lt h

theorem hexByte_of_lt {n : ℕ} (h : n < 256) : hexByte n = [Nat.digitChar (n / 16), Nat.digitChar (n % 16)] := by
  by_cases hn : n < 16
  · have hdigits : Nat.toDigits 16 n = [Nat.digitChar n] := Nat.toDigits_of_lt_base hn
    rw [hexByte, hdigits, Nat.div_eq_of_lt hn, Nat.mod_eq_of_lt hn]
    rfl
  · have hdigits : Nat.toDigits 16 n = [Nat.digitChar (n / 16), Nat.digitChar (n % 16)] := by
      rw [Nat.toDigits_of_base_le (by decide) (Nat.le_of_not_lt hn), Nat.toDigits_of_lt_base (by omega)]
      rfl
    rw [hexByte, hdigits]
    rfl

theorem length_hexByte_of_lt {n : ℕ} (h : n < 256) : (hexByte n).length = 2 := by rw [hexByte_of_lt h]; rfl

theorem length_hexWord (n : ℕ) : (hexWord n).length = 8 := by
  have hbyte : ∀ m, (hexByte (m % 256)).length = 2 := fun m => length_hexByte_of_lt (Nat.mod_lt m (by decide))
  rw [hexWord, List.length_append, List.length_append, List.length_append, hbyte, hbyte, hbyte, hbyte]

theorem nul_not_mem_hexWord (n : ℕ) : '\x00' ∉ hexWord n := by
  rw [hexWord, List.mem_append, List.mem_append, List.mem_append, not_or, not_or, not_or]
  exact ⟨⟨⟨nul_not_mem_hexByte _,nul_not_mem_hexByte _⟩,nul_not_mem_hexByte _⟩,nul_not_mem_hexByte _⟩

end Fields

section Readers
universe u
variable {α : Type u}

/-- The value of a hexadecimal digit in lower case. -/
def hexValue (c : Char) : Option ℕ :=
  if c.isDigit then some (c.toNat - '0'.toNat)
  else if 'a' ≤ c ∧ c ≤ 'f' then some (c.toNat - 'a'.toNat + 10)
  else none

def readHexByte : List Char → Option (ℕ × List Char)
  | a :: b :: rest => (hexValue a).bind fun high => (hexValue b).map fun low => (16 * high + low,rest)
  | _ => none

/-- A reader, so many times. -/
def readMany (read : List Char → Option (α × List Char)) : ℕ → List Char → Option (List α × List Char)
  | 0, text => some ([],text)
  | n + 1, text => (read text).bind fun first => (readMany read n first.2).map fun rest => (first.1 :: rest.1,rest.2)

def readHexWord (text : List Char) : Option (ℕ × List Char) :=
  (readMany readHexByte 4 text).map fun bytes => (Nat.ofDigits 256 bytes.1,bytes.2)

def readHexText (text : List Char) : Option (List Char × List Char) :=
  (readHexByte text).bind fun len =>
    if len.1 ≤ len.2.length then some (len.2.take len.1,len.2.drop len.1) else none

variable {read : List Char → Option (α × List Char)} {text rest more : List Char} {x : α}

/-- What a reader takes does not depend on what is behind it. -/
def Stable (read : List Char → Option (α × List Char)) : Prop :=
  ∀ text x rest, read text = some (x,rest) → ∀ more, read (text ++ more) = some (x,rest ++ more)

lemma hexValue_digitChar {d : ℕ} (h : d < 16) : hexValue (Nat.digitChar d) = some d := by
  interval_cases d <;> rfl

theorem readHexByte_hexByte {n : ℕ} (h : n < 256) (rest : List Char) :
    readHexByte (hexByte n ++ rest) = some (n,rest) := by
  rw [hexByte_of_lt h, List.cons_append, List.cons_append, List.nil_append, readHexByte,
    hexValue_digitChar (by omega), hexValue_digitChar (Nat.mod_lt n (by decide)), Option.bind_some, Option.map_some,
    Nat.div_add_mod]

theorem rest_of_readHexByte {a b : Char} {byte : ℕ × List Char} (h : readHexByte (a :: b :: rest) = some byte) :
    byte.2 = rest := by
  obtain ⟨high,_,hrest⟩ := Option.bind_eq_some_iff.mp h
  obtain ⟨low,_,rfl⟩ := Option.map_eq_some_iff.mp hrest
  rfl

theorem readMany_flatMap {β : Type*} {write : β → List Char} {value : β → α} {l : List β}
    (h : ∀ b ∈ l, ∀ rest, read (write b ++ rest) = some (value b,rest)) (rest : List Char) :
    readMany read l.length (l.flatMap write ++ rest) = some (l.map value,rest) := by
  induction l with
  | nil => rfl
  | cons b l ih =>
    obtain ⟨hb,hl⟩ := List.forall_mem_cons.mp h
    rw [List.flatMap_cons, List.append_assoc, List.length_cons, readMany, hb, Option.bind_some, ih hl]
    rfl

theorem readHexWord_hexWord (n : ℕ) (rest : List Char) : readHexWord (hexWord n ++ rest) = some (n % 2 ^ 32,rest) := by
  have hbytes := @readMany_flatMap ℕ readHexByte ℕ hexByte id
    [n % 256, n / 256 % 256, n / 65536 % 256, n / 16777216 % 256] (by
      intro b hb rest
      apply readHexByte_hexByte
      simp only [List.mem_cons, List.not_mem_nil, or_false] at hb
      omega) rest
  have hword : hexWord n =
      [n % 256, n / 256 % 256, n / 65536 % 256, n / 16777216 % 256].flatMap hexByte := by simp [hexWord]
  rw [readHexWord, hword]
  rw [List.map_id] at hbytes
  simp only [List.length_cons, List.length_nil, Nat.zero_add, Nat.reduceAdd] at hbytes
  rw [hbytes, Option.map_some]
  congr 2
  simp only [Nat.ofDigits_cons, Nat.ofDigits_nil]
  omega

theorem readHexText_hexText (h : text.length < 256) (rest : List Char) :
    readHexText (hexText text ++ rest) = some (text,rest) := by
  rw [readHexText, hexText, List.append_assoc, readHexByte_hexByte h, Option.bind_some,
    if_pos (by rw [List.length_append]; exact Nat.le_add_right _ _), List.take_left, List.drop_left]

theorem stable_readHexByte : Stable readHexByte := by
  intro text x rest h more
  match text, h with
  | a :: b :: text, h =>
    rw [readHexByte, Option.bind_eq_some_iff] at h
    obtain ⟨high,hhigh,h⟩ := h
    obtain ⟨low,hlow,heq⟩ := Option.map_eq_some_iff.mp h
    obtain ⟨rfl,rfl⟩ := Prod.mk.inj heq
    rw [List.cons_append, List.cons_append, readHexByte, hhigh, hlow]
    rfl

theorem stable_readMany (hread : Stable read) (n : ℕ) : Stable (readMany read n) := by
  induction n with
  | zero =>
    intro text x rest h more
    obtain ⟨rfl,rfl⟩ := Prod.mk.inj (Option.some.inj h)
    rfl
  | succ n ih =>
    intro text x rest h more
    rw [readMany, Option.bind_eq_some_iff] at h
    obtain ⟨first,hfirst,h⟩ := h
    obtain ⟨others,hothers,heq⟩ := Option.map_eq_some_iff.mp h
    obtain ⟨rfl,rfl⟩ := Prod.mk.inj heq
    rw [readMany, hread _ _ _ hfirst more, Option.bind_some, ih _ _ _ hothers more]
    rfl

theorem stable_readHexText : Stable readHexText := by
  intro text x rest h more
  rw [readHexText, Option.bind_eq_some_iff] at h
  obtain ⟨len,hlen,h⟩ := h
  split_ifs at h with hle
  obtain ⟨rfl,rfl⟩ := Prod.mk.inj (Option.some.inj h)
  rw [readHexText, stable_readHexByte _ _ _ hlen more, Option.bind_some,
    if_pos (by rw [List.length_append]; exact Nat.le_add_right_of_le hle), List.take_append_of_le_length hle,
    List.drop_append_of_le_length hle]

end Readers

end Xctools.Machine
