import Xctools.Machine.CBuffer
import Xctools.Machine.Outcome
import Xctools.Xcpmd.AcpiEvents

/-! `strsplit` of `utils.c` on memory. Between two calls it keeps two pointers into a buffer that it cuts up itself:
where it found the last delimiter, and the end of the string. What it returns is what `strsplit` on texts does. -/
namespace Xctools.Xcpmd
open Machine

section Memory

/-- The memory from an address on, searched for a character up to the null byte. -/
def scanChar (c : Char) : ℕ → List Char → Outcome (Option ℕ)
  | _, [] => .error .bounds
  | p, x :: rest => if x = c then .ok (some p) else if x = '\x00' then .ok none else scanChar c (p + 1) rest

/-- `strchr`. -/
def strchr (mem : List Char) (p : ℕ) (c : Char) : Outcome (Option ℕ) := scanChar c p (mem.drop p)

/-- The memory, and the pointers `last_found` and `str_end`, which are NULL at first. -/
structure SplitState where
  mem : List Char
  lastFound : Option ℕ := none
  strEnd : Option ℕ := none

/-- Where a call starts to search, and the end of the string. There is nothing behind the end. -/
def SplitState.start (st : SplitState) : Option ℕ → Outcome (Option (ℕ × Option ℕ))
  | some str => do return some (str, ← strchr st.mem str '\x00')
  | none =>
    if st.lastFound = st.strEnd then .ok none
    else match st.lastFound with
      | none => .error .null
      | some found => .ok (some (found + 1, st.strEnd))

/-- The delimiter that is found is replaced by a null byte. -/
def SplitState.cut (st : SplitState) (search : ℕ) (strEnd : Option ℕ) (delim : Char) :
    Outcome (Option ℕ × SplitState) := do
  match ← strchr st.mem search delim with
  | none => return (some search, ⟨st.mem, strEnd, strEnd⟩)
  | some found => return (some search, ⟨st.mem.set found '\x00', some found, strEnd⟩)

/-- `strsplit`. -/
def SplitState.strsplit (st : SplitState) (str : Option ℕ) (delim : Char) : Outcome (Option ℕ × SplitState) := do
  match ← st.start str with
  | none => return (none, st)
  | some (search, strEnd) => st.cut search strEnd delim

/-- The calls for one string, until NULL is returned: the tokens as they are read then, and the state. -/
def SplitState.tokens (delim : Char) : ℕ → Option ℕ → SplitState → Outcome (List (List Char) × SplitState)
  | 0, _, _ => .error .loop
  | n + 1, str, st => do
    let (token, st) ← st.strsplit str delim
    match token with
    | none => return ([], st)
    | some p =>
      let (rest, st') ← SplitState.tokens delim n none st
      return (cString (st.mem.drop p) :: rest, st')

end Memory

section Calls
variable {delim : Char} {text f rest before behind : List Char} {st : SplitState} {last : Option (List Char)}

lemma scanChar_of_notMem {p : ℕ} (hd : delim ≠ '\x00') (hnul : '\x00' ∉ text) (h : delim ∉ text) (behind : List Char) :
    scanChar delim p (text ++ '\x00' :: behind) = .ok none := by
  induction text generalizing p with
  | nil => rw [List.nil_append, scanChar, if_neg (Ne.symm hd), if_pos rfl]
  | cons x text ih =>
    obtain ⟨hx,hnul⟩ := not_or.mp (List.mem_cons.not.mp hnul)
    obtain ⟨hxd,h⟩ := not_or.mp (List.mem_cons.not.mp h)
    rw [List.cons_append, scanChar, if_neg (Ne.symm hxd), if_neg (Ne.symm hx)]
    exact ih hnul h

lemma scanChar_found {p : ℕ} {c : Char} (hnul : '\x00' ∉ f) (h : c ∉ f) (rest : List Char) :
    scanChar c p (f ++ c :: rest) = .ok (some (p + f.length)) := by
  induction f generalizing p with
  | nil => rw [List.nil_append, scanChar, if_pos rfl, List.length_nil, Nat.add_zero]
  | cons x f ih =>
    obtain ⟨hx,hnul⟩ := not_or.mp (List.mem_cons.not.mp hnul)
    obtain ⟨hxc,h⟩ := not_or.mp (List.mem_cons.not.mp h)
    rw [List.cons_append, scanChar, if_neg (Ne.symm hxc), if_neg (Ne.symm hx), ih hnul h, List.length_cons]
    congr 2
    omega

/-- Behind the delimiter that was found last there is so much of the string, up to its end; or it was found there. -/
def SplitState.Left (st : SplitState) : Option (List Char) → Prop
  | none => st.lastFound = st.strEnd
  | some text => ∃ before behind, st.mem = before ++ text ++ '\x00' :: behind ∧ '\x00' ∉ text ∧
      before ≠ [] ∧ st.lastFound = some (before.length - 1) ∧ st.strEnd = some (before.length + text.length)

/-- A search takes a token off, and leaves what is behind it. -/
lemma cut_takes (hd : delim ≠ '\x00') (hnul : '\x00' ∉ text) (hmem : st.mem = before ++ text ++ '\x00' :: behind) :
    ∃ st', st.cut before.length (some (before.length + text.length)) delim = .ok (some before.length, st') ∧
      some (cString (st'.mem.drop before.length)) = (strsplit none delim (some text)).1 ∧
      st'.Left (strsplit none delim (some text)).2 := by
  have hdrop : st.mem.drop before.length = text ++ '\x00' :: behind := by
    rw [hmem, List.append_assoc, List.drop_left]
  by_cases hfound : delim ∈ text
  · obtain ⟨f,rest,rfl,hf⟩ := List.eq_append_cons_of_mem hfound
    obtain ⟨hnulf,hnulrest⟩ := not_or.mp (List.mem_append.not.mp hnul)
    have hsearch : strchr st.mem before.length delim = .ok (some (before.length + f.length)) := by
      rw [strchr, hdrop, List.append_assoc, List.cons_append, scanChar_found hnulf hf]
    have hset : st.mem.set (before.length + f.length) '\x00' =
        (before ++ f ++ ['\x00']) ++ rest ++ '\x00' :: behind := by
      rw [hmem, List.append_assoc, List.set_append_right _ _ (by omega), Nat.add_sub_cancel_left, List.append_assoc,
        List.set_append_right _ _ (by omega), Nat.sub_self]
      simp
    refine ⟨⟨st.mem.set (before.length + f.length) '\x00', some (before.length + f.length),
      some (before.length + (f ++ delim :: rest).length)⟩,?_,?_,?_⟩
    · rw [SplitState.cut, hsearch]
      rfl
    · rw [strsplit_delim hf, hset, List.append_assoc, List.append_assoc, List.append_assoc, List.drop_left,
        List.singleton_append, cString_append_nul hnulf]
    · rw [strsplit_delim hf]
      refine ⟨before ++ f ++ ['\x00'],behind,hset,fun h => hnulrest (List.mem_cons_of_mem _ h),by simp,?_,?_⟩
      · simp
      · simp only [List.length_append, List.length_cons, List.length_nil, Option.some.injEq]
        omega
  · have hsearch : strchr st.mem before.length delim = .ok none := by
      rw [strchr, hdrop, scanChar_of_notMem hd hnul hfound]
    refine ⟨⟨st.mem, some (before.length + text.length), some (before.length + text.length)⟩,?_,?_,?_⟩
    · rw [SplitState.cut, hsearch]
      rfl
    · rw [strsplit_last hfound, hdrop, cString_append_nul hnul]
    · rw [strsplit_last hfound]
      rfl

/-- A call without a string does on memory what it does on texts. -/
lemma strsplit_next (hd : delim ≠ '\x00') (h : st.Left last) : ∃ token st',
    st.strsplit none delim = .ok (token, st') ∧
      token.map (fun p => cString (st'.mem.drop p)) = (strsplit none delim last).1 ∧
      st'.Left (strsplit none delim last).2 := by
  cases last with
  | none =>
    have hend : st.lastFound = st.strEnd := h
    refine ⟨none,st,?_,rfl,h⟩
    rw [SplitState.strsplit, SplitState.start, if_pos hend]
    rfl
  | some text =>
    obtain ⟨before,behind,hmem,hnul,hne,hfound,hend⟩ := h
    obtain ⟨st',hcut,htoken,hleft⟩ := cut_takes hd hnul hmem
    have hpos : 0 < before.length := List.length_pos_iff.mpr hne
    have hdiffer : ¬ st.lastFound = st.strEnd := by
      rw [hfound, hend, Option.some.injEq]
      omega
    refine ⟨some before.length,st',?_,htoken,hleft⟩
    rw [SplitState.strsplit, SplitState.start, if_neg hdiffer, hfound, hend]
    simp only [ok_bind, Nat.sub_add_cancel hpos]
    exact hcut

/-- A call with a string does too, whatever the calls before have left. -/
lemma strsplit_first (hd : delim ≠ '\x00') (hnul : '\x00' ∉ text) (hmem : st.mem = before ++ text ++ '\x00' :: behind) :
    ∃ token st', st.strsplit (some before.length) delim = .ok (token, st') ∧
      token.map (fun p => cString (st'.mem.drop p)) = (strsplit (some text) delim none).1 ∧
      st'.Left (strsplit (some text) delim none).2 := by
  obtain ⟨st',hcut,htoken,hleft⟩ := cut_takes hd hnul hmem
  have hend : strchr st.mem before.length '\x00' = .ok (some (before.length + text.length)) := by
    rw [strchr, hmem, List.append_assoc, List.drop_left, scanChar_found hnul hnul]
  refine ⟨some before.length,st',?_,htoken,hleft⟩
  rw [SplitState.strsplit, SplitState.start, hend]
  exact hcut

/-- A call that returns a token is followed by the others. -/
lemma tokens_of_call {str : Option ℕ} {p n : ℕ} {st' st'' : SplitState} {tokens : List (List Char)}
    (hcall : st.strsplit str delim = .ok (some p, st')) (hrest : st'.tokens delim n none = .ok (tokens, st'')) :
    st.tokens delim (n + 1) str = .ok (cString (st'.mem.drop p) :: tokens, st'') := by
  rw [SplitState.tokens, hcall, ok_bind]
  simp only [hrest, ok_bind]
  rfl

/-- The tokens are taken off one by one, until the end is found. -/
lemma tokens_of_left (hd : delim ≠ '\x00') {fields : List (List Char)} (hfields : ∀ f ∈ fields, delim ∉ f) {n : ℕ}
    (hn : fields.length < n) (h : st.Left (joined delim fields)) :
    ∃ st', st.tokens delim n none = .ok (fields, st') ∧ st'.Left none := by
  induction fields generalizing n st with
  | nil =>
    obtain ⟨k,rfl⟩ := Nat.exists_eq_succ_of_ne_zero (Nat.ne_zero_of_lt hn)
    have hend : st.lastFound = st.strEnd := h
    refine ⟨st,?_,h⟩
    rw [SplitState.tokens, SplitState.strsplit, SplitState.start, if_pos hend]
    rfl
  | cons f fields ih =>
    obtain ⟨k,rfl⟩ := Nat.exists_eq_succ_of_ne_zero (Nat.ne_zero_of_lt hn)
    obtain ⟨token,st',hcall,htoken,hleft⟩ := strsplit_next hd h
    rw [strsplit_joined hfields] at htoken hleft
    obtain ⟨p,rfl,htext⟩ := Option.map_eq_some_iff.mp htoken
    obtain ⟨st'',hrest,hend⟩ := ih (List.forall_mem_cons.mp hfields).2 (Nat.lt_of_succ_lt_succ hn) hleft
    refine ⟨st'',?_,hend⟩
    rw [tokens_of_call hcall hrest, htext]

end Calls

section Splitting
variable {delim : Char}

/-- There is one part more than there are delimiters. -/
lemma length_splitOn (s : List Char) : (s.splitOn delim).length = s.count delim + 1 := by
  induction s with
  | nil => rfl
  | cons c s ih =>
    rw [List.splitOn_cons_eq_if_modifyHead, List.count_cons]
    split_ifs with hc
    · rw [List.length_cons, ih]
    · rw [List.length_modifyHead, ih, Nat.add_zero]

/-- No part holds a delimiter. -/
lemma notMem_of_mem_splitOn (s : List Char) : ∀ part ∈ s.splitOn delim, delim ∉ part := by
  induction s with
  | nil => simp
  | cons c s ih =>
    rw [List.splitOn_cons_eq_if_modifyHead]
    split_ifs with hc
    · exact List.forall_mem_cons.mpr ⟨List.not_mem_nil,ih⟩
    · obtain ⟨part,parts,hparts⟩ := List.exists_cons_of_ne_nil (List.splitOn_ne_nil delim s)
      rw [hparts] at ih ⊢
      obtain ⟨hpart,hrest⟩ := List.forall_mem_cons.mp ih
      rw [List.modifyHead_cons, List.forall_mem_cons]
      refine ⟨fun hmem => ?_,hrest⟩
      rcases List.mem_cons.mp hmem with rfl | hmem
      · exact hc (beq_self_eq_true _)
      · exact hpart hmem

/-- For every string in memory, whatever is around it and whatever earlier calls have left: the calls of `strsplit`
return one token more than there are delimiters, without delimiters; joined, they are the string; and after them
every call returns NULL. -/
theorem strsplit_splits {s : List Char} (hs : '\x00' ∉ s) (hd : delim ≠ '\x00') (before behind : List Char)
    (lastFound strEnd : Option ℕ) : ∃ tokens st,
    SplitState.tokens delim (s.length + 2) (some before.length) ⟨before ++ s ++ '\x00' :: behind, lastFound, strEnd⟩ =
        .ok (tokens, st) ∧
      tokens.length = s.count delim + 1 ∧ (∀ token ∈ tokens, delim ∉ token) ∧ [delim].intercalate tokens = s ∧
      ∀ d, st.strsplit none d = .ok (none, st) := by
  have hparts := @notMem_of_mem_splitOn delim s
  have hlen := @length_splitOn delim s
  have hjoin := @List.intercalate_splitOn _ s _ _ delim
  have hcount : s.count delim ≤ s.length := List.count_le_length
  cases hsplit : s.splitOn delim with
  | nil => exact absurd hsplit (List.splitOn_ne_nil delim s)
  | cons f fields =>
    rw [hsplit] at hparts hlen hjoin
    have hjoined : strsplit (some s) delim none = (some f,joined delim fields) := by
      rw [strsplit_some, ← hjoin]
      exact strsplit_joined hparts
    obtain ⟨token,st,hcall,htoken,hleft⟩ := @strsplit_first delim s before behind
      ⟨before ++ s ++ '\x00' :: behind, lastFound, strEnd⟩ hd hs rfl
    rw [hjoined] at htoken hleft
    obtain ⟨p,rfl,htext⟩ := Option.map_eq_some_iff.mp htoken
    have hfuel : fields.length < s.length + 1 := by
      rw [List.length_cons] at hlen
      omega
    obtain ⟨st',hrest,hend⟩ := tokens_of_left hd (List.forall_mem_cons.mp hparts).2 hfuel hleft
    refine ⟨f :: fields,st',?_,hlen,hparts,hjoin,fun d => ?_⟩
    · rw [tokens_of_call hcall hrest, htext]
    · have heq : st'.lastFound = st'.strEnd := hend
      rw [SplitState.strsplit, SplitState.start, if_pos heq]
      rfl

/-- Empty tokens, and one behind the last delimiter. -/
theorem strsplit_splits_blanks : ∃ tokens st,
    SplitState.tokens ' ' 7 (some 0) ⟨"a  b ".toList ++ ['\x00'], none, none⟩ = .ok (tokens, st) ∧
      tokens.length = 4 ∧ (∀ token ∈ tokens, ' ' ∉ token) ∧ [' '].intercalate tokens = "a  b ".toList ∧
      ∀ d, st.strsplit none d = .ok (none, st) :=
  @strsplit_splits ' ' "a  b ".toList (by decide) (by decide) [] [] none none

end Splitting

end Xctools.Xcpmd
