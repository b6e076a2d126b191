import Xctools.Compleat.Tokenize

/-! Completion of a command line, from the characters up to the cursor to what is offered, and what becomes of an
offered word when the line that it was put into is completed in its turn. -/
namespace Xctools.Compleat
open Machine

section Offers

/-- `getInput`: what stands in front of the cursor. -/
def getInput (line : Word) (point : ℕ) : Word := line.take point

/-- `completeLine`, with what it prints. -/
def completeLine (shell : Word → Word → List Word) (env : Environment) (n : ℕ) (command line : Word) (point : ℕ) :
    Outcome (List Word) :=
  run (lookupCommand shell env n command) (tokenize (getInput line point))

/-- What a usage offers for the word `t` behind the words `ts`. -/
def Offers (shell : Word → Word → List Word) (env : Environment) (u : Usage) (ts : List Word) (t y : Word) : Prop :=
  ∃ w σ, Allows env u w (some σ) ∧ List.Forall₂ Slot.Admits w ts ∧ ∃ x, σ.suggest shell t = some x ∧ y ∈ x

variable {shell : Word → Word → List Word} {env : Environment} {command line : Word} {ts us : List Word} {w : List Slot}
  {u : Usage} {t y : Word} {n m : ℕ}

/-- All the words but the last go through slots. -/
lemma fits_last : Fits w (ts ++ [t]) [t] ↔ List.Forall₂ Slot.Admits w ts := by
  induction w generalizing ts with
  | nil =>
    cases ts with
    | nil => simp [Fits]
    | cons t' ts =>
      refine iff_of_false (fun h => ?_) (fun h => by cases h)
      have hlength := congrArg List.length h
      simp at hlength
  | cons σ w ih =>
    cases ts with
    | nil =>
      refine iff_of_false (fun h => ?_) (fun h => by cases h)
      have hlength := h.length
      simp at hlength
    | cons t' ts => simp [Fits, Slot.Takes, ih]

lemma Fits.suffix (h : Fits w ts us) : ∃ ts', ts' ++ us = ts := by
  induction w generalizing ts with
  | nil => exact ⟨[],h⟩
  | cons σ w ih =>
    cases ts with
    | nil => exact h.elim
    | cons t ts =>
      obtain ⟨ts',hts'⟩ := ih h.2
      exact ⟨t :: ts',by rw [List.cons_append,hts']⟩

lemma offers_iff : Offers shell env u ts t y ↔ ∃ x, Comes env shell u (ts ++ [t]) (.inr x) ∧ y ∈ x := by
  constructor
  · rintro ⟨w,σ,hallows,hwords,x,hx,hy⟩
    exact ⟨x,⟨w,some σ,hallows,t,fits_last.mpr hwords,x,hx,rfl⟩,hy⟩
  · rintro ⟨x,⟨w,r,hallows,hleads⟩,hy⟩
    cases r with
    | none =>
      obtain ⟨_,_,heq⟩ := hleads
      cases heq
    | some σ =>
      obtain ⟨t',hfits,x',hx,heq⟩ := hleads
      obtain rfl := Sum.inr.inj heq
      obtain rfl : t' = t := by
        obtain ⟨us,hus⟩ := hfits.suffix
        simpa using (List.append_inj' hus rfl).2
      exact ⟨w,σ,hallows,fits_last.mp hfits,x,hx,hy⟩

/-- `run` prints what the branches offer. -/
lemma mem_run {c : Completer} {out : List Word} (h : run c ts = .ok out) :
    y ∈ out ↔ ∃ x, c.Yields ts (.inr x) ∧ y ∈ x := by
  obtain ⟨rs,hrs,hout⟩ := bind_eq_ok.mp h
  obtain rfl := Except.ok.inj hout
  simp only [List.mem_flatten, List.mem_filterMap, Branching.Yields]
  constructor
  · rintro ⟨x,⟨r,hr,hget⟩,hy⟩
    cases r with
    | inl => cases hget
    | inr x' =>
      obtain rfl := Option.some.inj hget
      exact ⟨_,⟨rs,hrs,hr⟩,hy⟩
  · rintro ⟨x,⟨rs',hrs',hr⟩,hy⟩
    obtain rfl := Except.ok.inj (hrs.symm.trans hrs')
    exact ⟨x,⟨_,hr,rfl⟩,hy⟩

/-- A branch has a word to complete, the last one. -/
lemma comes_inr_iff : (∃ x, Comes env shell u us (.inr x) ∧ y ∈ x) ↔
    ∃ ts t, us = ts ++ [t] ∧ Offers shell env u ts t y := by
  constructor
  · rintro ⟨x,hcomes,hy⟩
    obtain ⟨ts,t,rfl⟩ : ∃ ts t, us = ts ++ [t] := by
      obtain ⟨w,r,-,hleads⟩ := hcomes
      cases r with
      | none =>
        obtain ⟨_,_,heq⟩ := hleads
        cases heq
      | some σ =>
        obtain ⟨t,hfits,-⟩ := hleads
        obtain ⟨ts,hts⟩ := hfits.suffix
        exact ⟨ts,t,hts.symm⟩
    exact ⟨ts,t,rfl,offers_iff.mpr ⟨x,hcomes,hy⟩⟩
  · rintro ⟨ts,t,rfl,hoffers⟩
    exact offers_iff.mp hoffers

/-- One slot behind another. -/
lemma completes_slots {x y : Usage} {σ σ' : Slot} (hx : env.slot x = some σ) (hy : env.slot y = some σ') (ts : List Word) :
    Completes env shell (.sequence x [y]) ts := by
  refine completes_iff_calls.mpr fun w v us hcalls _ => ?_
  cases hcalls with
  | sequence => exact completes_slot hx us
  | sequenceRest _ =>
    refine completes_iff_calls.mpr fun w v us hcalls _ => ?_
    cases hcalls with
    | sequence => exact completes_slot hy us

end Offers

section Offered

/-- What can be read back: a space ends a word, and a backslash is only taken for itself in front of a colon, which is
escaped. -/
inductive Readable : Word → Prop
  | nil : Readable []
  | plain {c : Char} {x : Word} (hc : c ≠ '\\') (hspace : isSpace c = false) (h : Readable x) : Readable (c :: x)
  | slash {x : Word} (h : Readable x) : Readable ('\\' :: ':' :: x)

variable {x y r s : Word} {q c : Char}

@[simp] lemma escape_nil : escape [] = [] := rfl

@[simp] lemma escape_colon (x : Word) : escape (':' :: x) = '\\' :: ':' :: escape x := rfl

lemma escape_cons (hc : c ≠ ':') (x : Word) : escape (c :: x) = c :: escape x := by simp [escape,hc]

lemma escape_slash (x : Word) : escape ('\\' :: x) = '\\' :: escape x := escape_cons (by decide) x

/-- A colon is escaped, and a backslash in front of it comes to be escaped by another one. -/
lemma written_escape (h : Readable x) : Written isSpace (escape x) x := by
  induction h with
  | nil => exact .nil
  | @plain c x hc hspace _ ih =>
    by_cases hcolon : c = ':'
    · subst hcolon
      exact .escaped ':' ih
    · rw [escape_cons hcolon]
      exact .plain hc hspace ih
  | slash _ ih =>
    rw [escape_slash, escape_colon]
    exact .escaped '\\' (.plain (by decide) (by decide) ih)

lemma map_cons_eq_some {o : Option (Word × Word)} {d : Char} :
    (o.map fun p => (d :: p.1,p.2)) = some (y,r) ↔ ∃ y', o = some (y',r) ∧ y = d :: y' := by
  rw [Option.map_eq_some_iff]
  constructor
  · rintro ⟨⟨y',r'⟩,ho,heq⟩
    obtain ⟨rfl,rfl⟩ := Prod.mk.inj heq
    exact ⟨y',ho,rfl⟩
  · rintro ⟨y',ho,rfl⟩
    exact ⟨_,ho,rfl⟩

lemma IsQuote.ne_colon (hq : IsQuote q) : ':' ≠ q := by
  rintro rfl
  exact absurd hq (by decide)

/-- Behind a backslash, a colon is read for itself, and another character in the place of the two. -/
lemma unquotedRest_slash {d : Char} (h : unquotedRest (escape ('\\' :: d :: x) ++ r) = some (y,s)) :
    ∃ y', unquotedRest (escape x ++ r) = some (y',s) ∧ y = if d = ':' then '\\' :: ':' :: y' else unescape d :: y' := by
  by_cases hd : d = ':'
  · subst hd
    rw [escape_slash, escape_colon, List.cons_append, List.cons_append, List.cons_append, unquotedRest_escaped,
      unquotedRest_plain (by decide) (by decide)] at h
    obtain ⟨y₁,h₁,rfl⟩ := map_cons_eq_some.mp h
    obtain ⟨y',h',rfl⟩ := map_cons_eq_some.mp h₁
    exact ⟨y',h',rfl⟩
  · rw [escape_slash, escape_cons hd, List.cons_append, List.cons_append, unquotedRest_escaped] at h
    obtain ⟨y',h',rfl⟩ := map_cons_eq_some.mp h
    exact ⟨y',h',(if_neg hd).symm⟩

/-- Any other character that is no space is read for itself. -/
lemma unquotedRest_self (hc : c ≠ '\\') (hspace : isSpace c = false)
    (h : unquotedRest (escape (c :: x) ++ r) = some (y,s)) : ∃ y', unquotedRest (escape x ++ r) = some (y',s) ∧ y = c :: y' := by
  by_cases hcolon : c = ':'
  · subst hcolon
    rw [escape_colon, List.cons_append, List.cons_append, unquotedRest_escaped] at h
    exact map_cons_eq_some.mp h
  · rw [escape_cons hcolon, List.cons_append, unquotedRest_plain hspace hc] at h
    exact map_cons_eq_some.mp h

/-- What is read has no more characters than the word, and is another word if that has a character that cannot be read
back. -/
lemma readable_of_unquotedRest (h : unquotedRest (escape x ++ [' ']) = some (y,s)) :
    y.length ≤ x.length ∧ (y = x → Readable x) := by
  induction hlen : x.length using Nat.strong_induction_on generalizing x y with
  | _ n ih =>
    match x with
    | [] =>
      obtain ⟨rfl,-⟩ : y = [] ∧ _ := by simpa [unquotedRest_space (show isSpace ' ' by decide),eq_comm] using h
      exact ⟨by simp,fun _ => .nil⟩
    | c :: x =>
      rw [List.length_cons] at hlen
      by_cases hc : c = '\\'
      · subst hc
        cases x with
        | nil =>
          obtain ⟨rfl,-⟩ : y = [' '] ∧ _ := by
            simpa [escape_slash,unquotedRest_escaped,unquotedRest,unescape,eq_comm] using h
          exact ⟨by simp [← hlen],fun heq => absurd heq (by decide)⟩
        | cons d x =>
          obtain ⟨y',h',rfl⟩ := unquotedRest_slash h
          rw [List.length_cons] at hlen
          obtain ⟨hle,hread⟩ := ih x.length (by omega) h' rfl
          split_ifs with hd
          · subst hd
            refine ⟨by simp only [List.length_cons]; omega,fun heq => .slash (hread ?_)⟩
            exact (List.cons.inj (List.cons.inj heq).2).2
          · refine ⟨by simp only [List.length_cons]; omega,fun heq => ?_⟩
            have := congrArg List.length heq
            simp only [List.length_cons] at this
            omega
      · cases hspace : isSpace c with
        | true =>
          have hcolon : c ≠ ':' := by rintro rfl; exact absurd hspace (by decide)
          rw [escape_cons hcolon, List.cons_append, unquotedRest_space hspace] at h
          obtain ⟨rfl,-⟩ := Prod.mk.inj (Option.some.inj h)
          exact ⟨by simp,fun heq => absurd heq (by simp)⟩
        | false =>
          obtain ⟨y',h',rfl⟩ := unquotedRest_self hc hspace h
          obtain ⟨hle,hread⟩ := ih x.length (by omega) h' rfl
          refine ⟨by simp only [List.length_cons]; omega,fun heq => .plain hc hspace (hread ?_)⟩
          exact (List.cons.inj heq).2

lemma quotedRest_slash (hq : IsQuote q) {d : Char} (h : quotedRest q (escape ('\\' :: d :: x) ++ r) = some (y,s)) :
    ∃ y', quotedRest q (escape x ++ r) = some (y',s) ∧ y = if d = ':' then '\\' :: ':' :: y' else unescape d :: y' := by
  by_cases hd : d = ':'
  · subst hd
    rw [escape_slash, escape_colon, List.cons_append, List.cons_append, List.cons_append,
      quotedRest_escaped hq.ne_slash, quotedRest_plain hq.ne_colon (by decide)] at h
    obtain ⟨y₁,h₁,rfl⟩ := map_cons_eq_some.mp h
    obtain ⟨y',h',rfl⟩ := map_cons_eq_some.mp h₁
    exact ⟨y',h',rfl⟩
  · rw [escape_slash, escape_cons hd, List.cons_append, List.cons_append, quotedRest_escaped hq.ne_slash] at h
    obtain ⟨y',h',rfl⟩ := map_cons_eq_some.mp h
    exact ⟨y',h',(if_neg hd).symm⟩

lemma quotedRest_self (hq : IsQuote q) (hc : c ≠ '\\') (hne : c ≠ q)
    (h : quotedRest q (escape (c :: x) ++ r) = some (y,s)) : ∃ y', quotedRest q (escape x ++ r) = some (y',s) ∧ y = c :: y' := by
  by_cases hcolon : c = ':'
  · subst hcolon
    rw [escape_colon, List.cons_append, List.cons_append, quotedRest_escaped hq.ne_slash] at h
    exact map_cons_eq_some.mp h
  · rw [escape_cons hcolon, List.cons_append, quotedRest_plain hne hc] at h
    exact map_cons_eq_some.mp h

/-- Behind a quote, only a word that takes in the space as well can be as long. -/
lemma quotedRest_escape (hq : IsQuote q) (h : quotedRest q (escape x ++ [' ']) = some (y,s)) :
    y.length ≤ x.length ∨ y = x ++ [' '] := by
  induction hlen : x.length using Nat.strong_induction_on generalizing x y with
  | _ n ih =>
    match x with
    | [] =>
      have hspace : ' ' ≠ q := by rintro rfl; exact absurd hq (by decide)
      obtain ⟨rfl,-⟩ : y = [' '] ∧ _ := by simpa [quotedRest_plain hspace,quotedRest,eq_comm] using h
      exact .inr rfl
    | c :: x =>
      rw [List.length_cons] at hlen
      by_cases hclose : c = q
      · subst hclose
        rw [escape_cons hq.ne_colon.symm, List.cons_append, quotedRest_close] at h
        obtain ⟨rfl,-⟩ := Prod.mk.inj (Option.some.inj h)
        exact .inl (by simp)
      by_cases hc : c = '\\'
      · subst hc
        cases x with
        | nil =>
          obtain ⟨rfl,-⟩ : y = [' '] ∧ _ := by
            simpa [escape_slash,quotedRest_escaped hq.ne_slash,quotedRest,unescape,eq_comm] using h
          exact .inl (by simp [← hlen])
        | cons d x =>
          obtain ⟨y',h',rfl⟩ := quotedRest_slash hq h
          rw [List.length_cons] at hlen
          obtain hle | rfl := ih x.length (by omega) h' rfl
          · left
            split_ifs <;> simp only [List.length_cons] <;> omega
          · split_ifs with hd
            · exact .inr (by rw [hd]; rfl)
            · left
              simp only [List.length_cons, List.length_append, List.length_nil]
              omega
      · obtain ⟨y',h',rfl⟩ := quotedRest_self hq hc hclose h
        obtain hle | rfl := ih x.length (by omega) h' rfl
        · left
          simp only [List.length_cons]
          omega
        · exact .inr rfl

/-- A token is no longer than the word, and another word if the word cannot be read back or begins with a quote. -/
lemma readable_of_token (h : token (escape x ++ [' ']) = some (y,s)) :
    y.length ≤ x.length ∧ (y = x → Readable x ∧ ∀ c ∈ x.head?, ¬ IsQuote c) := by
  induction x generalizing y with
  | nil => simp [token,isSpace] at h
  | cons c x ih =>
    cases hspace : isSpace c with
    | true =>
      have hcolon : c ≠ ':' := by rintro rfl; exact absurd hspace (by decide)
      have hblank : Blank [c] := by simpa [Blank] using hspace
      rw [escape_cons hcolon, List.cons_append, ← List.singleton_append, token_blank hblank] at h
      have hle := (ih h).1
      refine ⟨by rw [List.length_cons]; omega,?_⟩
      rintro rfl
      rw [List.length_cons] at hle
      omega
    | false =>
      by_cases hq : IsQuote c
      · rw [escape_cons hq.ne_colon.symm, List.cons_append, token_quote hq] at h
        have hlast : c :: x ≠ x ++ [' '] := by
          intro heq
          have hne : c ≠ ' ' := by rintro rfl; exact absurd hspace (by decide)
          have hcount := congrArg (List.count ' ') heq
          simp [List.count_cons_of_ne hne] at hcount
        obtain hle | rfl := quotedRest_escape hq h
        · refine ⟨by rw [List.length_cons]; omega,?_⟩
          rintro rfl
          rw [List.length_cons] at hle
          omega
        · exact ⟨by simp,fun heq => absurd heq.symm hlast⟩
      · have htoken : token (escape (c :: x) ++ [' ']) = unquotedRest (escape (c :: x) ++ [' ']) := by
          by_cases hcolon : c = ':'
          · subst hcolon
            exact token_unquoted (by decide) (by decide) _
          · rw [escape_cons hcolon]
            exact token_unquoted hq hspace _
        rw [htoken] at h
        obtain ⟨hle,hread⟩ := readable_of_unquotedRest h
        exact ⟨hle,fun heq => ⟨hread heq,by simpa using hq⟩⟩

lemma Spelled.append {s' : Word} {ws ws' : List Word} (h : Spelled s ws) (h' : Spelled s' ws') :
    Spelled (s ++ s') (ws ++ ws') := by
  induction h with
  | nil => exact h'
  | cons hword hb hne _ ih =>
    rw [List.append_assoc]
    exact .cons hword hb hne ih

/-- A word that was offered and put into the line is read back as that word, complete, if and only if it has
characters, none of which is a space, or a backslash that has no colon behind it, and the first of which is no quote. -/
theorem tokenize_offered {b : Word} {ws : List Word} (hb : Blank b) (hs : Spelled s ws) :
    tokenize (b ++ s ++ (escape x ++ [' '])) = ws ++ [x,[]] ↔
      x ≠ [] ∧ Readable x ∧ ∀ c ∈ x.head?, ¬ IsQuote c := by
  constructor
  · intro h
    obtain ⟨b',hb',-,hloop⟩ := tokenLoop_spelled hs hb
    obtain ⟨m,hm⟩ : ∃ m, (b ++ s ++ (escape x ++ [' '])).length = ws.length + (m + 1) := by
      have := hs.length_le
      refine ⟨(b ++ s ++ (escape x ++ [' '])).length - ws.length - 1,?_⟩
      simp only [List.length_append, List.length_singleton]
      omega
    rw [tokenize, hm, hloop, List.append_assoc, List.append_cancel_left_eq, tokenLoop, token_blank hb'] at h
    cases htoken : token (escape x ++ [' ']) with
    | none =>
      have hlength := congrArg List.length h
      rw [htoken] at hlength
      split_ifs at hlength <;> simp at hlength
    | some r =>
      rw [htoken] at h
      have heq : r.1 = x := (List.cons.inj h).1
      obtain ⟨-,hread⟩ := readable_of_token htoken
      refine ⟨?_,hread heq⟩
      rintro rfl
      simp [token,isSpace] at htoken
  · rintro ⟨hne,hread,hquote⟩
    obtain ⟨c,x,rfl⟩ := List.exists_cons_of_ne_nil hne
    have hword : SpelledWord (escape (c :: x)) (c :: x) := by
      have hwritten := written_escape hread
      by_cases hcolon : c = ':'
      · subst hcolon
        exact .unquoted (by decide) hwritten
      · rw [escape_cons hcolon] at hwritten ⊢
        exact .unquoted (hquote c rfl) hwritten
    have hspace : Blank [' '] := by simp [Blank,isSpace]
    have hline : Spelled (s ++ (escape (c :: x) ++ [' '] ++ [])) (ws ++ [c :: x]) :=
      hs.append (.cons hword hspace (by simp) .nil)
    have htokens := tokenize_spelled hb hline .nothing (by simp)
    simpa using htokens

/-- With a colon, `a:b` is read back; with a space, `a b` is not. -/
theorem tokenize_offered_colon :
    tokenize (['g','o',' '] ++ (escape ['a',':','b'] ++ [' '])) = [['g','o'],['a',':','b'],[]] ∧
      tokenize (['g','o',' '] ++ (escape ['a',' ','b'] ++ [' '])) ≠ [['g','o'],['a',' ','b'],[]] := by
  have hgo : Spelled ['g','o',' '] [['g','o']] :=
    .cons (b := [' ']) (.unquoted (by decide) (.plain (by decide) (by decide) (.plain (by decide) (by decide) .nil)))
      (by simp [Blank,isSpace]) (by simp) .nil
  have hblank : Blank [] := by simp [Blank]
  refine ⟨(tokenize_offered hblank hgo).mpr ⟨by simp,?_,by simp [IsQuote]⟩,fun h => ?_⟩
  · exact .plain (by decide) (by decide) (.plain (by decide) (by decide) (.plain (by decide) (by decide) .nil))
  · obtain ⟨-,hread,-⟩ := (tokenize_offered hblank hgo).mp h
    cases hread with
    | plain _ _ h =>
      cases h with
      | plain _ hspace _ => exact absurd hspace (by decide)

end Offered

end Xctools.Compleat
