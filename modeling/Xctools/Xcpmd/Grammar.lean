import Mathlib.Tactic.Abel
import Xctools.Machine.Residual
import Xctools.Xcpmd.Parsing

/-! The language of the parser. The grammar is written down as a regular language; each state of the
machine stands for the texts that may still follow, and these languages leave one another by the edges
of the machine. -/
namespace Xctools.Xcpmd
open Machine Computability

namespace Grammar

def letter (c : Char) : Language Char := oneOf fun d => d = c
def word : Language Char := oneOf isAlphanumeric_
def digit : Language Char := oneOf isDigit
def sign : Language Char := oneOf isDigitOrMinus

/-- `$` and a name, an integer, a float, a text in double quotes, or one of the letters for true and
false. -/
def arg : Language Char :=
  letter '$' * word∗ + sign * digit∗ + sign * digit∗ * letter '.' * (digit * digit∗) +
    letter '"' * (oneOf fun c => c ≠ '"')∗ * letter '"' + oneOf fun c => isTrue c || isFalse c

/-- A float without digits after the point, which stands before the parenthesis only. -/
def openFloat : Language Char := sign * digit∗ * letter '.'

/-- Arguments separated by single spaces, the last of which may be followed by one. -/
def args : Language Char := (arg * letter ' ')∗ * (1 + arg + openFloat)

def item : Language Char := (1 + letter '!') * (word * word∗) * letter '(' * args * letter ')'

def spaces : Language Char := (letter ' ')∗

/-- Items separated by spaces, with spaces around them, or no item. -/
def items : Language Char := spaces * (1 + item * (letter ' ' * spaces * item)∗ * spaces)

/-- What may follow an item. -/
def afterItem : Language Char := (letter ' ' * spaces * item)∗ * spaces

/-- What may follow an opening parenthesis, or an argument and a space. -/
def atArg : Language Char := args * letter ')' * afterItem

/-- What may follow an argument. -/
def afterArg : Language Char := letter ' ' * atArg + letter ')' * afterItem

/-- What may follow a point. -/
def afterPoint : Language Char := digit * (digit∗ * afterArg) + letter ')' * afterItem

/-- What may follow part of a name. -/
def inName : Language Char := word∗ * (letter '(' * atArg)

/-- What may follow part of an integer. -/
def inInt : Language Char := digit∗ * (afterArg + letter '.' * afterPoint)

/-- The texts that may still come in a state. -/
def residual : ParseState → Language Char
  | .start => items
  | .invertFn => word * inName
  | .accumName => inName
  | .beginAccumArg => atArg
  | .accumVar => word∗ * afterArg
  | .accumInt => inInt
  | .beginAccumFloat => afterPoint
  | .accumFloat => digit∗ * afterArg
  | .accumStr => (oneOf fun c => c ≠ '"')∗ * (letter '"' * afterArg)
  | .endAccumStr | .accumBool => afterArg
  | .acceptFn => afterItem
  | .acceptRule => 0

lemma items_eq : items = 1 + letter ' ' * items + word * inName + letter '!' * (word * inName) := by
  have hitem : item * (letter ' ' * spaces * item)∗ * spaces =
      word * inName + letter '!' * (word * inName) := by
    simp only [item, inName, atArg, afterItem, mul_assoc, add_mul, one_mul]
  calc items = spaces * (1 + (word * inName + letter '!' * (word * inName))) := by rw [items, hitem]
    _ = 1 + (word * inName + letter '!' * (word * inName)) + letter ' ' * items := by
      rw [items, hitem]
      exact kstar_mul _ _
    _ = _ := by abel

lemma afterItem_eq : afterItem = 1 + letter ' ' * items := by
  have hspaces : spaces = 1 + letter ' ' * spaces := (Language.one_add_self_mul_kstar_eq_kstar _).symm
  calc afterItem = spaces + letter ' ' * spaces * item * afterItem := kstar_mul _ _
    _ = 1 + letter ' ' * spaces + letter ' ' * spaces * item * afterItem := by
      conv_lhs => rw [hspaces]
      rw [← hspaces]
    _ = 1 + letter ' ' * items := by
      simp only [items, afterItem, mul_add, mul_one, mul_assoc, add_assoc]

lemma atArg_eq : atArg = letter ')' * afterItem + letter '$' * (word∗ * afterArg) + sign * inInt +
    letter '"' * ((oneOf fun c => c ≠ '"')∗ * (letter '"' * afterArg)) +
    (oneOf fun c => isTrue c || isFalse c) * afterArg := by
  have hargs : atArg = (1 + arg + openFloat) * letter ')' * afterItem + arg * letter ' ' * atArg := by
    conv_lhs => rw [atArg, args, mul_assoc, mul_assoc, kstar_mul]
    simp only [atArg, args, mul_assoc]
  rw [hargs]
  simp only [arg, openFloat, inInt, afterPoint, afterArg, add_mul, mul_add, mul_assoc, one_mul]
  abel

section Residual
variable {c d : Char} {w : List Char} {q : ParseState}

@[simp] lemma cons_mem_letter_mul {l : Language Char} : c :: w ∈ letter d * l ↔ c = d ∧ w ∈ l := by
  rw [letter, cons_mem_oneOf_mul, decide_eq_true_eq]

@[simp] lemma nil_mem_letter_mul {l : Language Char} : [] ∈ letter d * l ↔ False := nil_mem_oneOf_mul

lemma cons_mem_items : c :: w ∈ items ↔ c = ' ' ∧ w ∈ items ∨ isAlphanumeric_ c = true ∧ w ∈ inName ∨
    c = '!' ∧ w ∈ word * inName := by
  conv_lhs => rw [items_eq]
  simp only [word, Language.mem_add, cons_mem_one, cons_mem_letter_mul, cons_mem_oneOf_mul, false_or, or_assoc]

lemma cons_mem_afterItem : c :: w ∈ afterItem ↔ c = ' ' ∧ w ∈ items := by
  simp only [afterItem_eq, Language.mem_add, cons_mem_one, cons_mem_letter_mul, false_or]

lemma cons_mem_afterArg : c :: w ∈ afterArg ↔ c = ' ' ∧ w ∈ atArg ∨ c = ')' ∧ w ∈ afterItem := by
  simp only [afterArg, Language.mem_add, cons_mem_letter_mul]

lemma cons_mem_afterPoint : c :: w ∈ afterPoint ↔
    isDigit c = true ∧ w ∈ digit∗ * afterArg ∨ c = ')' ∧ w ∈ afterItem := by
  simp only [afterPoint, digit, Language.mem_add, cons_mem_letter_mul, cons_mem_oneOf_mul]

lemma cons_mem_inName : c :: w ∈ inName ↔ isAlphanumeric_ c = true ∧ w ∈ inName ∨ c = '(' ∧ w ∈ atArg := by
  conv_lhs => rw [inName, kstar_mul, ← inName]
  rw [word, Language.mem_add, cons_mem_letter_mul, cons_mem_oneOf_mul, or_comm]

lemma cons_mem_inInt : c :: w ∈ inInt ↔ isDigit c = true ∧ w ∈ inInt ∨ c = '.' ∧ w ∈ afterPoint ∨
    c :: w ∈ afterArg := by
  conv_lhs => rw [inInt, kstar_mul, ← inInt]
  rw [digit, Language.mem_add, Language.mem_add, cons_mem_letter_mul, cons_mem_oneOf_mul]
  tauto

/-- A repetition before the end of an argument. -/
lemma cons_mem_kstar_afterArg {p : Char → Bool} : c :: w ∈ (oneOf p)∗ * afterArg ↔
    p c = true ∧ w ∈ (oneOf p)∗ * afterArg ∨ c :: w ∈ afterArg := by
  conv_lhs => rw [kstar_mul]
  rw [Language.mem_add, cons_mem_oneOf_mul, or_comm]

lemma cons_mem_inStr : c :: w ∈ (oneOf fun c => c ≠ '"')∗ * (letter '"' * afterArg) ↔
    c ≠ '"' ∧ w ∈ (oneOf fun c => c ≠ '"')∗ * (letter '"' * afterArg) ∨ c = '"' ∧ w ∈ afterArg := by
  conv_lhs => rw [kstar_mul]
  rw [Language.mem_add, cons_mem_oneOf_mul, cons_mem_letter_mul, decide_eq_true_eq, or_comm]

lemma cons_mem_atArg : c :: w ∈ atArg ↔ c = ')' ∧ w ∈ afterItem ∨ c = '$' ∧ w ∈ word∗ * afterArg ∨
    isDigitOrMinus c = true ∧ w ∈ inInt ∨
    c = '"' ∧ w ∈ (oneOf fun c => c ≠ '"')∗ * (letter '"' * afterArg) ∨
    (isTrue c = true ∨ isFalse c = true) ∧ w ∈ afterArg := by
  rw [atArg_eq, sign]
  simp only [Language.mem_add, cons_mem_letter_mul, cons_mem_oneOf_mul, Bool.or_eq_true, or_assoc]

/-- A repetition may be left out. -/
lemma nil_mem_kstar_mul {p : Char → Bool} {l : Language Char} : [] ∈ (oneOf p)∗ * l ↔ [] ∈ l := by
  rw [kstar_mul, Language.mem_add, nil_mem_oneOf_mul, or_false]

lemma nil_notMem_afterArg : [] ∉ afterArg := by
  simp only [afterArg, Language.mem_add, nil_mem_letter_mul, or_self, not_false_eq_true]

/-- A text may end before an item and after one. -/
lemma nil_mem_residual : [] ∈ residual q ↔ q = .start ∨ q = .acceptFn := by
  cases q with
  | start =>
    rw [residual, items_eq]
    simp only [Language.mem_add, Language.mem_one, true_or]
  | invertFn => simp [residual, word]
  | accumName => simp [residual, inName, word, nil_mem_kstar_mul]
  | beginAccumArg =>
    simp only [residual, atArg_eq, sign, Language.mem_add, nil_mem_letter_mul, nil_mem_oneOf_mul, or_self,
      reduceCtorEq]
  | accumVar => simp [residual, word, nil_mem_kstar_mul, nil_notMem_afterArg]
  | accumInt =>
    simp only [residual, inInt, digit, nil_mem_kstar_mul, Language.mem_add, nil_notMem_afterArg,
      nil_mem_letter_mul, or_self, reduceCtorEq]
  | beginAccumFloat =>
    simp only [residual, afterPoint, digit, Language.mem_add, nil_mem_letter_mul, nil_mem_oneOf_mul,
      or_self, reduceCtorEq]
  | accumFloat => simp [residual, digit, nil_mem_kstar_mul, nil_notMem_afterArg]
  | accumStr => simp [residual, nil_mem_kstar_mul]
  | endAccumStr => simp [residual, nil_notMem_afterArg]
  | accumBool => simp [residual, nil_notMem_afterArg]
  | acceptFn => simp only [residual, afterItem_eq, Language.mem_add, Language.mem_one, true_or, or_true]
  | acceptRule => simp [residual]

/-- A letter is left over by the edges that it fits. -/
lemma cons_mem_residual (hc : c ≠ '\x00') : c :: w ∈ residual q ↔
    ∃ a q', Edge q c a q' ∧ a ≠ some .acceptFns ∧ w ∈ residual q' := by
  have hafter : ∀ {q}, EndsArg q → c :: w ∈ afterArg →
      ∃ a q', Edge q c a q' ∧ a ≠ some .acceptFns ∧ w ∈ residual q' := by
    intro q hq h
    rcases cons_mem_afterArg.mp h with ⟨rfl,hw⟩ | ⟨rfl,hw⟩
    · exact ⟨_,_,.nextArg hq,by simp,hw⟩
    · exact ⟨_,_,.close (.inr (.inr hq)),by simp,hw⟩
  constructor
  · intro h
    cases q with
    | start =>
      rcases cons_mem_items.mp h with ⟨rfl,hw⟩ | ⟨hc,hw⟩ | ⟨rfl,hw⟩
      · exact ⟨_,_,.skip (.inl rfl),by simp,hw⟩
      · exact ⟨_,_,.name (.inl rfl) hc,by simp,hw⟩
      · exact ⟨_,_,.invert,by simp,hw⟩
    | invertFn =>
      obtain ⟨hc,hw⟩ := cons_mem_oneOf_mul.mp h
      exact ⟨_,_,.name (.inr (.inl rfl)) hc,by simp,hw⟩
    | accumName =>
      rcases cons_mem_inName.mp h with ⟨hc,hw⟩ | ⟨rfl,hw⟩
      · exact ⟨_,_,.name (.inr (.inr rfl)) hc,by simp,hw⟩
      · exact ⟨_,_,.openParen,by simp,hw⟩
    | beginAccumArg =>
      rcases cons_mem_atArg.mp h with ⟨rfl,hw⟩ | ⟨rfl,hw⟩ | ⟨hc,hw⟩ | ⟨rfl,hw⟩ | ⟨hc | hc,hw⟩
      · exact ⟨_,_,.close (.inl rfl),by simp,hw⟩
      · exact ⟨_,_,.dollar,by simp,hw⟩
      · exact ⟨_,_,.number hc,by simp,hw⟩
      · exact ⟨_,_,.quote,by simp,hw⟩
      · exact ⟨_,_,.yes hc,by simp,hw⟩
      · exact ⟨_,_,.no hc,by simp,hw⟩
    | accumVar =>
      rcases cons_mem_kstar_afterArg.mp h with ⟨hc,hw⟩ | hw
      · exact ⟨_,_,.word hc,by simp,hw⟩
      · exact hafter (.inl rfl) hw
    | accumInt =>
      rcases cons_mem_inInt.mp h with ⟨hc,hw⟩ | ⟨rfl,hw⟩ | hw
      · exact ⟨_,_,.digit hc,by simp,hw⟩
      · exact ⟨_,_,.period,by simp,hw⟩
      · exact hafter (by simp [EndsArg]) hw
    | beginAccumFloat =>
      rcases cons_mem_afterPoint.mp h with ⟨hc,hw⟩ | ⟨rfl,hw⟩
      · exact ⟨_,_,.fraction (.inl rfl) hc,by simp,hw⟩
      · exact ⟨_,_,.close (.inr (.inl rfl)),by simp,hw⟩
    | accumFloat =>
      rcases cons_mem_kstar_afterArg.mp h with ⟨hc,hw⟩ | hw
      · exact ⟨_,_,.fraction (.inr rfl) hc,by simp,hw⟩
      · exact hafter (by simp [EndsArg]) hw
    | accumStr =>
      rcases cons_mem_inStr.mp h with ⟨hq,hw⟩ | ⟨rfl,hw⟩
      · exact ⟨_,_,.char (by simp [isNotDblQuoteOrNull, hq, hc]),by simp,hw⟩
      · exact ⟨_,_,.unquote rfl,by simp,hw⟩
    | endAccumStr => exact hafter (by simp [EndsArg]) h
    | accumBool => exact hafter (by simp [EndsArg]) h
    | acceptFn =>
      obtain ⟨rfl,hw⟩ := cons_mem_afterItem.mp h
      exact ⟨_,_,.skip (.inr rfl),by simp,hw⟩
    | acceptRule => exact absurd h (Language.notMem_zero _)
  · rintro ⟨a,q',he,ha,hw⟩
    cases he with
    | name hq hc =>
      rcases hq with rfl | rfl | rfl
      · exact cons_mem_items.mpr (.inr (.inl ⟨hc,hw⟩))
      · exact cons_mem_oneOf_mul.mpr ⟨hc,hw⟩
      · exact cons_mem_inName.mpr (.inl ⟨hc,hw⟩)
    | invert => exact cons_mem_items.mpr (.inr (.inr ⟨rfl,hw⟩))
    | skip hq =>
      rcases hq with rfl | rfl
      · exact cons_mem_items.mpr (.inl ⟨rfl,hw⟩)
      · exact cons_mem_afterItem.mpr ⟨rfl,hw⟩
    | openParen => exact cons_mem_inName.mpr (.inr ⟨rfl,hw⟩)
    | dollar => exact cons_mem_atArg.mpr (.inr (.inl ⟨rfl,hw⟩))
    | number hc => exact cons_mem_atArg.mpr (.inr (.inr (.inl ⟨hc,hw⟩)))
    | quote => exact cons_mem_atArg.mpr (.inr (.inr (.inr (.inl ⟨rfl,hw⟩))))
    | yes hc => exact cons_mem_atArg.mpr (.inr (.inr (.inr (.inr ⟨.inl hc,hw⟩))))
    | no hc => exact cons_mem_atArg.mpr (.inr (.inr (.inr (.inr ⟨.inr hc,hw⟩))))
    | word hc => exact cons_mem_kstar_afterArg.mpr (.inl ⟨hc,hw⟩)
    | digit hc => exact cons_mem_inInt.mpr (.inl ⟨hc,hw⟩)
    | period => exact cons_mem_inInt.mpr (.inr (.inl ⟨rfl,hw⟩))
    | fraction hq hc =>
      rcases hq with rfl | rfl
      · exact cons_mem_afterPoint.mpr (.inl ⟨hc,hw⟩)
      · exact cons_mem_kstar_afterArg.mpr (.inl ⟨hc,hw⟩)
    | char hc => exact cons_mem_inStr.mpr (.inl ⟨ne_of_class hc rfl,hw⟩)
    | unquote hq =>
      simp only [isDblQuoteOrNull, Bool.or_eq_true, decide_eq_true_eq] at hq
      exact cons_mem_inStr.mpr (.inr ⟨hq.resolve_right hc,hw⟩)
    | nextArg hq =>
      have h : ' ' :: w ∈ afterArg := cons_mem_afterArg.mpr (.inl ⟨rfl,hw⟩)
      rcases hq with rfl | rfl | rfl | rfl | rfl
      · exact cons_mem_kstar_afterArg.mpr (.inr h)
      · exact cons_mem_inInt.mpr (.inr (.inr h))
      · exact cons_mem_kstar_afterArg.mpr (.inr h)
      · exact h
      · exact h
    | close hq =>
      have h : ')' :: w ∈ afterArg := cons_mem_afterArg.mpr (.inr ⟨rfl,hw⟩)
      rcases hq with rfl | rfl | rfl | rfl | rfl | rfl | rfl
      · exact cons_mem_atArg.mpr (.inl ⟨rfl,hw⟩)
      · exact cons_mem_afterPoint.mpr (.inr ⟨rfl,hw⟩)
      · exact cons_mem_kstar_afterArg.mpr (.inr h)
      · exact cons_mem_inInt.mpr (.inr (.inr h))
      · exact cons_mem_kstar_afterArg.mpr (.inr h)
      · exact h
      · exact h
    | finish => exact absurd rfl ha

end Residual

end Grammar

end Xctools.Xcpmd
