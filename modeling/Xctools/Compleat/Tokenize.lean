import Xctools.Compleat.Recursion

/-! The words of a command line, as a shell would split it, and what is offered for a line. -/
namespace Xctools.Compleat
open Machine

section Tokenizer

/-- `isSpace` of Haskell. -/
def isSpace (c : Char) : Bool :=
  c.toNat ∈ [32,0xa0,0x1680,0x202f,0x205f,0x3000] || 9 ≤ c.toNat && c.toNat ≤ 13 || 0x2000 ≤ c.toNat && c.toNat ≤ 0x200a

/-- What an escaped character stands for. -/
def unescape (c : Char) : Char :=
  if c = 't' then '\t' else if c = 'n' then '\n' else if c = 'r' then '\r' else c

/-- `quoted`, behind the quote that opens. The end of the line closes as well; a backslash in front of it is an
error. -/
def quotedRest (q : Char) : Word → Option (Word × Word)
  | [] => some ([],[])
  | c :: s =>
    if c = q then some ([],s)
    else if c = '\\' then
      match s with
      | [] => none
      | d :: s => (quotedRest q s).map fun r => (unescape d :: r.1,r.2)
    else (quotedRest q s).map fun r => (c :: r.1,r.2)

/-- The characters that `unquoted` takes. -/
def unquotedRest : Word → Option (Word × Word)
  | [] => some ([],[])
  | c :: s =>
    if c = '\\' then
      match s with
      | [] => none
      | d :: s => (unquotedRest s).map fun r => (unescape d :: r.1,r.2)
    else if isSpace c then some ([],c :: s)
    else (unquotedRest s).map fun r => (c :: r.1,r.2)

@[simp] lemma quotedRest_close (q : Char) (s : Word) : quotedRest q (q :: s) = some ([],s) := by
  cases s <;> simp [quotedRest]

lemma quotedRest_plain {q c : Char} (hq : c ≠ q) (hc : c ≠ '\\') (s : Word) :
    quotedRest q (c :: s) = (quotedRest q s).map fun r => (c :: r.1,r.2) := by
  cases s <;> simp [quotedRest,hq,hc]

lemma quotedRest_escaped {q : Char} (hq : '\\' ≠ q) (d : Char) (s : Word) :
    quotedRest q ('\\' :: d :: s) = (quotedRest q s).map fun r => (unescape d :: r.1,r.2) := by
  simp [quotedRest,hq]

lemma unquotedRest_space {c : Char} (hc : isSpace c) (s : Word) : unquotedRest (c :: s) = some ([],c :: s) := by
  have hslash : c ≠ '\\' := by rintro rfl; exact absurd hc (by decide)
  cases s <;> simp [unquotedRest,hslash,hc]

lemma unquotedRest_plain {c : Char} (hspace : isSpace c = false) (hc : c ≠ '\\') (s : Word) :
    unquotedRest (c :: s) = (unquotedRest s).map fun r => (c :: r.1,r.2) := by
  cases s <;> simp [unquotedRest,hspace,hc]

lemma unquotedRest_escaped (d : Char) (s : Word) :
    unquotedRest ('\\' :: d :: s) = (unquotedRest s).map fun r => (unescape d :: r.1,r.2) := by
  simp [unquotedRest]

/-- `token`, with what is left of the line. Behind the spaces, an alternative that has taken a character is not given
up for the next one. -/
def token (s : Word) : Option (Word × Word) :=
  match s.dropWhile isSpace with
  | [] => none
  | c :: s => if c = '"' ∨ c = '\x27' then quotedRest c s else unquotedRest (c :: s)

/-- `many (try token)`, at most so many. -/
def tokenLoop : ℕ → Word → List Word × Word
  | 0, s => ([],s)
  | n + 1, s =>
    match token s with
    | none => ([],s)
    | some (t,s') => (t :: (tokenLoop n s').1,(tokenLoop n s').2)

/-- `tokenize`. A space behind the last token begins another one. -/
def tokenize (s : Word) : List Word :=
  (tokenLoop s.length s).1 ++ if (tokenLoop s.length s).2.head?.any isSpace then [[]] else []

end Tokenizer

section Spelling

/-- The spelling of a word: its characters, those that would stop it left out, or escaped ones. -/
inductive Written (stop : Char → Bool) : Word → Word → Prop
  | nil : Written stop [] []
  | plain {c : Char} {s w : Word} (hc : c ≠ '\\') (hstop : stop c = false) (h : Written stop s w) :
      Written stop (c :: s) (c :: w)
  | escaped (d : Char) {s w : Word} (h : Written stop s w) : Written stop ('\\' :: d :: s) (unescape d :: w)

/-- A quote. -/
def IsQuote (c : Char) : Prop := c = '"' ∨ c = '\x27'

instance (c : Char) : Decidable (IsQuote c) := inferInstanceAs (Decidable (c = '"' ∨ c = '\x27'))

/-- A complete word, in quotes or without. -/
inductive SpelledWord : Word → Word → Prop
  | quoted {q : Char} {s w : Word} (hq : IsQuote q) (h : Written (· == q) s w) : SpelledWord (q :: s ++ [q]) w
  | unquoted {c : Char} {s w : Word} (hc : ¬ IsQuote c) (h : Written isSpace (c :: s) w) : SpelledWord (c :: s) w

/-- Blanks. -/
def Blank (b : Word) : Prop := ∀ c ∈ b, isSpace c

/-- Complete words, each with blanks behind it. -/
inductive Spelled : Word → List Word → Prop
  | nil : Spelled [] []
  | cons {s w b l : Word} {ws : List Word} (hs : SpelledWord s w) (hb : Blank b) (hne : b ≠ []) (h : Spelled l ws) :
      Spelled (s ++ b ++ l) (w :: ws)

/-- The word at the end of the line, which may not have been begun, or be in a quote that is still open. -/
inductive Begun : Word → Word → Prop
  | nothing : Begun [] []
  | word {s w : Word} (h : SpelledWord s w) : Begun s w
  | quoted {q : Char} {s w : Word} (hq : IsQuote q) (h : Written (· == q) s w) : Begun (q :: s) w

variable {q : Char} {s w b l t : Word} {ws : List Word} {n m : ℕ}

lemma IsQuote.ne_slash (hq : IsQuote q) : '\\' ≠ q := by
  rintro rfl
  exact absurd hq (by decide)

lemma IsQuote.not_space (hq : IsQuote q) : isSpace q = false := by
  rcases hq with rfl | rfl <;> decide

lemma quotedRest_written (hq : IsQuote q) (h : Written (· == q) s w) (l : Word) :
    quotedRest q (s ++ q :: l) = some (w,l) := by
  induction h with
  | nil => exact quotedRest_close q l
  | plain hc hstop _ ih => simp [quotedRest_plain (ne_of_beq_false hstop) hc,ih]
  | escaped d _ ih => simp [quotedRest_escaped hq.ne_slash,ih]

lemma quotedRest_open (hq : IsQuote q) (h : Written (· == q) s w) : quotedRest q s = some (w,[]) := by
  induction h with
  | nil => rfl
  | plain hc hstop _ ih => simp [quotedRest_plain (ne_of_beq_false hstop) hc,ih]
  | escaped d _ ih => simp [quotedRest_escaped hq.ne_slash,ih]

lemma unquotedRest_written (h : Written isSpace s w) (hl : ∀ c ∈ l.head?, isSpace c) :
    unquotedRest (s ++ l) = some (w,l) := by
  induction h with
  | nil =>
    cases l with
    | nil => rfl
    | cons c l => exact unquotedRest_space (hl c rfl) l
  | plain hc hstop _ ih => simp [unquotedRest_plain hstop hc,ih]
  | escaped d _ ih => simp [unquotedRest_escaped,ih]

/-- A word without quotes begins with what is no space. -/
lemma Written.head_not_space {c : Char} (h : Written isSpace (c :: s) w) : isSpace c = false := by
  cases h with
  | plain _ hstop _ => exact hstop
  | escaped _ _ => decide

/-- Blanks in front of a word are passed over. -/
lemma token_blank (hb : Blank b) (l : Word) : token (b ++ l) = token l := by
  unfold token
  rw [List.dropWhile_append_of_pos hb]

lemma token_quote (hq : IsQuote q) (s : Word) : token (q :: s) = quotedRest q s := by
  have hq' : q = '"' ∨ q = '\x27' := hq
  simp [token,hq.not_space,hq']

lemma token_unquoted {c : Char} (hc : ¬ IsQuote c) (hspace : isSpace c = false) (s : Word) :
    token (c :: s) = unquotedRest (c :: s) := by
  have hc' : ¬ (c = '"' ∨ c = '\x27') := hc
  simp [token,hspace,hc']

/-- A complete word is read, up to the blank behind it. -/
lemma token_spelledWord (hs : SpelledWord s w) (hl : ∀ c ∈ l.head?, isSpace c) : token (s ++ l) = some (w,l) := by
  cases hs with
  | quoted hq h =>
    rw [List.cons_append,List.cons_append,token_quote hq,List.append_assoc]
    exact quotedRest_written hq h l
  | unquoted hc h =>
    rw [List.cons_append,token_unquoted hc h.head_not_space]
    exact unquotedRest_written h hl

lemma SpelledWord.ne_nil (hs : SpelledWord s w) : s ≠ [] := by
  cases hs <;> simp

lemma SpelledWord.head_not_space (hs : SpelledWord s w) : ∀ c ∈ s.head?, isSpace c = false := by
  cases hs with
  | quoted hq h => simpa using hq.not_space
  | unquoted hc h => simpa using h.head_not_space

/-- Nothing but blanks is no token. -/
lemma token_of_blank (hb : Blank b) : token b = none := by
  have := token_blank hb []
  rwa [List.append_nil] at this

lemma tokenLoop_of_blank (hb : Blank b) (n : ℕ) : tokenLoop n b = ([],b) := by
  cases n with
  | zero => rfl
  | succ n => simp [tokenLoop,token_of_blank hb]

/-- The word that the line ends with is read to the end of the line. -/
lemma token_begun (h : Begun s w) (hne : s ≠ []) : token s = some (w,[]) := by
  cases h with
  | nothing => exact absurd rfl hne
  | word h =>
    have := token_spelledWord (l := []) h (by simp)
    rwa [List.append_nil] at this
  | quoted hq h => rw [token_quote hq,quotedRest_open hq h]

lemma Begun.head_not_space (h : Begun s w) : ∀ c ∈ s.head?, isSpace c = false := by
  cases h with
  | nothing => simp
  | word h => exact h.head_not_space
  | quoted hq h => simpa using hq.not_space

lemma begun_ne_nil (h : Begun s w) (hw : w ≠ []) : s ≠ [] := by
  cases h with
  | nothing => exact absurd rfl hw
  | word h => exact h.ne_nil
  | quoted hq h => simp

lemma Blank.head (hb : Blank b) (hne : b ≠ []) (l : Word) : ∀ c ∈ (b ++ l).head?, isSpace c := by
  obtain ⟨c,b,rfl⟩ := List.exists_cons_of_ne_nil hne
  simpa using hb c (by simp)

/-- The complete words of a line are read one after the other; the blanks behind the last one are not. -/
lemma tokenLoop_spelled (hs : Spelled s ws) (hb : Blank b) : ∃ b', Blank b' ∧ (b ++ s ≠ [] → b' ≠ []) ∧
    ∀ n l, tokenLoop (ws.length + n) (b ++ s ++ l) =
      (ws ++ (tokenLoop n (b' ++ l)).1,(tokenLoop n (b' ++ l)).2) := by
  induction hs generalizing b with
  | nil => exact ⟨b,hb,by simp,fun n l => by simp⟩
  | @cons s w b₁ l₁ ws hword hb₁ hne _ ih =>
    obtain ⟨b',hb',hne',hloop⟩ := ih hb₁
    refine ⟨b',hb',fun _ => hne' (by simp [hne]),fun n l => ?_⟩
    have htoken : token (b ++ (s ++ (b₁ ++ l₁ ++ l))) = some (w,b₁ ++ l₁ ++ l) := by
      rw [token_blank hb]
      refine token_spelledWord hword ?_
      rw [List.append_assoc]
      exact hb₁.head hne _
    have hlen : (w :: ws).length + n = (ws.length + n) + 1 := by rw [List.length_cons]; omega
    have hline : b ++ (s ++ b₁ ++ l₁) ++ l = b ++ (s ++ (b₁ ++ l₁ ++ l)) := by simp
    rw [hlen, hline, tokenLoop, htoken]
    simp only [hloop n l, List.cons_append]

lemma Spelled.length_le (hs : Spelled s ws) : ws.length ≤ s.length := by
  induction hs with
  | nil => rfl
  | cons hword _ _ _ ih =>
    have := List.length_pos_of_ne_nil hword.ne_nil
    simp only [List.length_cons, List.length_append]
    omega

/-- The words of a line are those that are spelled there. The last of them is the one that is being completed; behind a
blank it has no characters yet. -/
lemma tokenize_spelled (hb : Blank b) (hs : Spelled s ws) {p : Word} (hp : Begun p t) (hne : b ++ s ++ p ≠ []) :
    tokenize (b ++ s ++ p) = ws ++ [t] := by
  obtain ⟨b',hb',hne',hloop⟩ := tokenLoop_spelled hs hb
  have hle := hs.length_le
  unfold tokenize
  by_cases hnil : p = []
  · subst hnil
    have hempty : t = [] := by
      by_contra ht
      exact begun_ne_nil hp ht rfl
    have hhead := hb'.head (hne' (by simpa using hne)) []
    obtain ⟨m,hm⟩ : ∃ m, (b ++ s ++ []).length = ws.length + m :=
      ⟨(b ++ s ++ []).length - ws.length,by simp only [List.length_append]; omega⟩
    obtain ⟨c,b',rfl⟩ := List.exists_cons_of_ne_nil (hne' (by simpa using hne))
    have hc : isSpace c := hb' c (by simp)
    rw [hm, hloop, List.append_nil, tokenLoop_of_blank hb']
    simp [hc, hempty]
  · obtain ⟨m,hm⟩ : ∃ m, (b ++ s ++ p).length = ws.length + (m + 1) := by
      have := List.length_pos_of_ne_nil hnil
      exact ⟨(b ++ s ++ p).length - ws.length - 1,by simp only [List.length_append]; omega⟩
    have htoken : token (b' ++ p) = some (t,[]) := by rw [token_blank hb',token_begun hp hnil]
    have hrest : tokenLoop m [] = ([],[]) := tokenLoop_of_blank (by simp [Blank]) m
    rw [hm, hloop]
    simp [tokenLoop, htoken, hrest]

end Spelling

end Xctools.Compleat
