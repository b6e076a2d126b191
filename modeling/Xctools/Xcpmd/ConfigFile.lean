import Xctools.Machine.Stream
import Xctools.Xcpmd.PolicyLines

/-! The lines of a policy file as `parse_config_from_file` meets them. `fgets` cuts a line into pieces, and the
loop looks at each piece for itself: what becomes of a line depends on how the lines before it end. -/
namespace Xctools.Xcpmd
open Machine

section Pieces
variable {line rest : List Char} {room : ℕ}

/-- The lines of a file, with their newlines. The last one may have none. -/
def fileLines (line : List Char) : List Char → List (List Char)
  | [] => if line = [] then [] else [line]
  | c :: rest => if c = '\n' then (line ++ [c]) :: fileLines [] rest else fileLines (line ++ [c]) rest

/-- The characters of a line without its newline. -/
def lineLength (line : List Char) : ℕ := (line.takeWhile fun c => c ≠ '\n').length

/-- What one `fgets` after the other reads of a line. -/
def pieces (line : List Char) : List (List Char) := fgetsLines lineRoom [] line

/-- All pieces of a line but the last. -/
def leadingPieces (line : List Char) : List (List Char) := (pieces line).dropLast

/-- The piece a line ends in. -/
def lastPiece (line : List Char) : List Char := (pieces line).getLastD []

/-- A piece as a C string. -/
def cText (piece : List Char) : List Char := piece.takeWhile fun c => c ≠ '\x00'

/-- The piece is neither a comment nor blank. -/
def Counts (piece : List Char) : Prop := (cText piece).head? ≠ some '#' ∧ ¬ (cText piece).all isBlank = true

/-- The newline of the piece is seen. -/
def Ends (piece : List Char) : Prop := '\n' ∈ cText piece

instance (piece : List Char) : Decidable (Counts piece) := inferInstanceAs (Decidable (_ ∧ _))
instance (piece : List Char) : Decidable (Ends piece) := inferInstanceAs (Decidable (_ ∈ _))

/-- A file is a last line, or a line and the rest of the file. -/
theorem lines_induction {P : List Char → Prop} (last : ∀ line, '\n' ∉ line → P line)
    (more : ∀ line rest, '\n' ∉ line → P rest → P (line ++ '\n' :: rest)) (text : List Char) : P text := by
  induction hlen : text.length using Nat.strong_induction_on generalizing text with
  | _ n ih =>
    by_cases hnew : '\n' ∈ text
    · obtain ⟨line,rest,rfl,hline⟩ := List.eq_append_cons_of_mem hnew
      apply more line rest hline
      apply ih rest.length _ rest rfl
      rw [← hlen, List.length_append, List.length_cons]
      omega
    · exact last text hnew

lemma fileLines_newline (hnew : '\n' ∉ line) (acc : List Char) :
    fileLines acc (line ++ '\n' :: rest) = (acc ++ line ++ ['\n']) :: fileLines [] rest := by
  induction line generalizing acc with
  | nil => simp [fileLines]
  | cons c line ih =>
    obtain ⟨hc,hnew⟩ := not_or.mp (List.mem_cons.not.mp hnew)
    rw [List.cons_append, fileLines, if_neg (Ne.symm hc), ih hnew]
    simp

lemma fileLines_last (hnew : '\n' ∉ line) (acc : List Char) :
    fileLines acc line = if acc ++ line = [] then [] else [acc ++ line] := by
  induction line generalizing acc with
  | nil => rw [fileLines, List.append_nil]
  | cons c line ih =>
    obtain ⟨hc,hnew⟩ := not_or.mp (List.mem_cons.not.mp hnew)
    rw [fileLines, if_neg (Ne.symm hc), ih hnew]
    simp

/-- `fgets` reads the file line by line, as no piece goes beyond a newline. -/
lemma fgetsLines_eq_pieces (text : List Char) : fgetsLines lineRoom [] text = (fileLines [] text).flatMap pieces := by
  induction text using lines_induction with
  | last line hnew =>
    rw [fileLines_last hnew, List.nil_append]
    split_ifs with hnil
    · rw [hnil]
      rfl
    · rw [List.flatMap_singleton, pieces]
  | more line rest hnew ih =>
    rw [fileLines_newline hnew, fgetsLines_newline hnew, List.flatMap_cons, List.nil_append, ← ih, pieces]

/-- A line is not empty, and a newline in it is its last character. -/
def IsLine (line : List Char) : Prop := line ≠ [] ∧ '\n' ∉ line.dropLast

lemma isLine_fileLines (text : List Char) : ∀ line ∈ fileLines [] text, IsLine line := by
  induction text using lines_induction with
  | last line hnew =>
    rw [fileLines_last hnew, List.nil_append]
    split_ifs with hnil
    · simp
    · rw [List.forall_mem_singleton]
      exact ⟨hnil,fun h => hnew (List.dropLast_subset line h)⟩
  | more line rest hnew ih =>
    rw [fileLines_newline hnew, List.forall_mem_cons, List.nil_append]
    exact ⟨⟨by simp,by simpa using hnew⟩,ih⟩

/-- There is no newline in a piece before the last. -/
lemma fgetsLines_isLine {acc : List Char} (hacc : '\n' ∉ acc) (hne : acc ≠ [] ∨ line ≠ []) (hnew : '\n' ∉ line.dropLast) :
    ∃ full last, fgetsLines room acc line = full ++ [last] ∧ ∀ p ∈ full, '\n' ∉ p := by
  induction line generalizing room acc with
  | nil => exact ⟨[],acc,by rw [fgetsLines, if_neg (by simpa using hne)]; rfl,by simp⟩
  | cons c line ih =>
    rcases List.eq_nil_or_concat' line with rfl | ⟨rest,x,rfl⟩
    · rw [fgetsLines]
      split_ifs
      · exact ⟨[],acc ++ [c],rfl,by simp⟩
      · exact ⟨[],acc ++ [c],by simp [fgetsLines],by simp⟩
    · rw [List.dropLast_cons_of_ne_nil (by simp), List.mem_cons, not_or] at hnew
      have hsnoc : '\n' ∉ acc ++ [c] := by
        rw [List.mem_append, List.mem_singleton]
        exact not_or.mpr ⟨hacc,hnew.1⟩
      rw [fgetsLines]
      split_ifs
      · obtain ⟨full,last,heq,hfull⟩ := @ih lineRoom [] (by simp) (.inr (by simp)) hnew.2
        exact ⟨(acc ++ [c]) :: full,last,by rw [heq]; rfl,List.forall_mem_cons.mpr ⟨hsnoc,hfull⟩⟩
      · exact ih hsnoc (.inl (by simp)) hnew.2

lemma pieces_eq (h : IsLine line) : pieces line = leadingPieces line ++ [lastPiece line] := by
  obtain ⟨full,last,heq,-⟩ := @fgetsLines_isLine line lineRoom [] (by simp) (.inr h.1) h.2
  simp [leadingPieces, lastPiece, pieces, heq]

lemma newline_notMem_leadingPieces (h : IsLine line) : ∀ p ∈ leadingPieces line, '\n' ∉ p := by
  obtain ⟨full,last,heq,hfull⟩ := @fgetsLines_isLine line lineRoom [] (by simp) (.inr h.1) h.2
  simpa [leadingPieces, pieces, heq] using hfull

/-- A line that has its newline in sight is a C string. -/
lemma cText_eq_self (h : LineEnd line) (hends : Ends line) : cText line = line := by
  obtain ⟨rest,hrest⟩ := List.takeWhile_prefix (l := line) fun c => c ≠ '\x00'
  obtain ⟨a,b,hab⟩ := List.append_of_mem hends
  have hsplit : line = a ++ '\n' :: (b ++ rest) := by
    rw [← List.cons_append, ← List.append_assoc, ← hab]
    exact hrest.symm
  obtain ⟨-,rfl⟩ := List.append_eq_nil_iff.mp (h a (b ++ rest) hsplit)
  rwa [List.append_nil] at hrest

lemma IsLine.lineEnd (h : IsLine line) : LineEnd line := by
  rintro a b rfl
  by_contra hb
  exact h.2 (by rw [List.dropLast_append_of_ne_nil (by simp), List.dropLast_cons_of_ne_nil hb]; simp)

lemma IsLine.length_le (h : IsLine line) : line.length ≤ lineLength line + 1 := by
  obtain ⟨rest,x,rfl⟩ := (List.eq_nil_or_concat' line).resolve_left h.1
  have hnew : '\n' ∉ rest := by simpa using h.2
  have hrest : rest.takeWhile (fun c => c ≠ '\n') = rest := by
    rw [List.takeWhile_eq_self_iff]
    intro c hc
    simpa using fun he : c = '\n' => hnew (he ▸ hc)
  rw [lineLength, List.takeWhile_append, hrest]
  simp

lemma pieces_short (h : IsLine line) (hlen : lineLength line < lineRoom) : pieces line = [line] :=
  fgetsLines_short (.inr h.1) h.2 (h.length_le.trans hlen)

end Pieces

section Run

/-- The pieces of a line, one after the other: what the loop takes of them, and whether it is skipping then. -/
def takenPieces (skipping : Bool) : List (List Char) → List (List Char) × Bool
  | [] => ([],skipping)
  | p :: ps =>
    let r := takenPieces (decide ((skipping = true ∨ Counts p) ∧ ¬ Ends p)) ps
    (if skipping = false ∧ Counts p ∧ Ends p then cText p :: r.1 else r.1,r.2)

/-- The lines of a file, one after the other. -/
def takenLines (skipping : Bool) : List (List Char) → List (List (List Char)) × Bool
  | [] => ([],skipping)
  | line :: lines =>
    let r := takenPieces skipping (pieces line)
    let rs := takenLines r.2 lines
    (r.1 :: rs.1,rs.2)

/-- The lines of the variables' section, which ends with the first equals sign. -/
def varLines (lines : List (List Char)) : List (List Char) := lines.takeWhile fun line => '=' ∉ line

/-- The lines of the rules' section. -/
def ruleLines (lines : List (List Char)) : List (List Char) :=
  (lines.dropWhile fun line => '=' ∉ line).filter fun line => '=' ∉ line

lemma takenPieces_append (skipping : Bool) (ps qs : List (List Char)) :
    takenPieces skipping (ps ++ qs) =
      let r := takenPieces skipping ps
      let r' := takenPieces r.2 qs
      (r.1 ++ r'.1,r'.2) := by
  induction ps generalizing skipping with
  | nil => rfl
  | cons p ps ih =>
    simp only [List.cons_append, takenPieces, ih]
    split_ifs <;> rfl

/-- Of a line its last piece is taken, if nothing before it has made the loop look for an end. -/
lemma takenPieces_line {full : List (List Char)} {last : List Char} (hfull : ∀ p ∈ full, ¬ Ends p) (skipping : Bool) :
    takenPieces skipping (full ++ [last]) =
      (if (skipping = false ∧ ∀ p ∈ full, ¬ Counts p) ∧ Counts last ∧ Ends last then [cText last] else [],
        decide ((skipping = true ∨ ∃ p ∈ full ++ [last], Counts p) ∧ ¬ Ends last)) := by
  induction full generalizing skipping with
  | nil => simp [takenPieces]
  | cons p full ih =>
    obtain ⟨hp,hfull⟩ := List.forall_mem_cons.mp hfull
    rw [List.cons_append, takenPieces, ih hfull]
    by_cases hcounts : Counts p <;> cases skipping <;> simp [hp, hcounts]

end Run

section Config
variable {ε : Type} [DecidableEq ε] (libc : Libc) (reg : Registry ε)

/-- What the loop does with a line that it takes. -/
def takeLine (l : FileLoad ε) (line : List Char) : Outcome (FileLoad ε) :=
  if '=' ∈ line then .ok { l with inVarSection := false }
  else if l.inVarSection then parseVarLine libc reg l line
  else parseRuleLine libc reg l line

variable {libc reg} {l l' : FileLoad ε} {p line : List Char}

lemma takeLine_skipping (h : takeLine libc reg l line = .ok l') : l'.skipping = l.skipping := by
  unfold takeLine at h
  split_ifs at h
  · rw [← Except.ok.inj h]
  · obtain ⟨d,-,h⟩ := bind_eq_ok.mp h
    dsimp only at h
    split_ifs at h
    · obtain ⟨why,-,h⟩ := bind_eq_ok.mp h
      rw [← Except.ok.inj h]
    · rw [← Except.ok.inj h]
  · obtain ⟨name,-,h⟩ := bind_eq_ok.mp h
    obtain ⟨engine,-,h⟩ := bind_eq_ok.mp h
    rw [← Except.ok.inj h]

/-- A piece is taken, or all that comes of it is whether the loop skips. -/
lemma parseLine_eq : parseLine libc reg l p = if l.skipping = false ∧ Counts p ∧ Ends p then takeLine libc reg l (cText p)
    else .ok { l with skipping := decide ((l.skipping = true ∨ Counts p) ∧ ¬ Ends p) } := by
  unfold parseLine
  dsimp only
  rw [← cText]
  rcases l with ⟨engine,varMap,section_,skipping⟩
  cases skipping with
  | true => simp [Ends]
  | false =>
    by_cases hcomment : (cText p).head? = some '#'
    · simp [Counts, hcomment]
    · by_cases hblank : (cText p).all isBlank = true
      · simp [Counts, hblank]
      · by_cases hends : '\n' ∈ cText p <;> simp [Counts, Ends, hcomment, hblank, hends, takeLine]

/-- The loop over the pieces is one over what it takes of them. -/
lemma foldlM_parseLine (ps : List (List Char)) :
    ps.foldlM (parseLine libc reg) l = (takenPieces l.skipping ps).1.foldlM (takeLine libc reg)
      { l with skipping := false } >>= fun l' => .ok { l' with skipping := (takenPieces l.skipping ps).2 } := by
  induction ps generalizing l with
  | nil => rfl
  | cons p ps ih =>
    rw [List.foldlM_cons, parseLine_eq, takenPieces]
    split_ifs with htakes
    · have hl : { l with skipping := false } = l := by rw [← htakes.1]
      rw [List.foldlM_cons, hl]
      cases htake : takeLine libc reg l (cText p) with
      | error e => rfl
      | ok l' =>
        have hskip : l'.skipping = false := (takeLine_skipping htake).trans htakes.1
        have hl' : { l' with skipping := false } = l' := by rw [← hskip]
        rw [ok_bind, ok_bind, ih, hskip, hl']
        simp [htakes.2.2]
    · rw [ok_bind, ih]

lemma foldlM_takeLine_rules (lines : List (List Char)) (h : l.inVarSection = false) :
    lines.foldlM (takeLine libc reg) l = (lines.filter fun line => '=' ∉ line).foldlM (parseRuleLine libc reg) l := by
  induction lines generalizing l with
  | nil => rfl
  | cons line lines ih =>
    rw [List.foldlM_cons, takeLine]
    by_cases heq : '=' ∈ line
    · have hl : { l with inVarSection := false } = l := by rw [← h]
      rw [if_pos heq, ok_bind, hl, ih h, List.filter_cons_of_neg (by simpa using heq)]
    · rw [if_neg heq, h, List.filter_cons_of_pos (by simpa using heq), List.foldlM_cons, if_neg Bool.false_ne_true]
      cases hrule : parseRuleLine libc reg l line with
      | error e => rfl
      | ok l' =>
        obtain ⟨name,-,hrule⟩ := bind_eq_ok.mp hrule
        obtain ⟨engine,-,hrule⟩ := bind_eq_ok.mp hrule
        have hl' : l'.inVarSection = false := by rw [← Except.ok.inj hrule]; exact h
        rw [ok_bind, ok_bind, ih hl']

/-- First the variables, then the rules. -/
lemma foldlM_takeLine (lines : List (List Char)) (h : l.inVarSection = true) :
    (lines.foldlM (takeLine libc reg) l >>= fun l => .ok l.engine) =
      (varLines lines).foldlM (parseVarLine libc reg) l >>= fun l =>
        (ruleLines lines).foldlM (parseRuleLine libc reg) { l with inVarSection := false } >>= fun l => .ok l.engine := by
  induction lines generalizing l with
  | nil => rfl
  | cons line lines ih =>
    rw [List.foldlM_cons, takeLine]
    by_cases heq : '=' ∈ line
    · have hvars : varLines (line :: lines) = [] := by simp [varLines, heq]
      have hrules : ruleLines (line :: lines) = lines.filter fun line => '=' ∉ line := by simp [ruleLines, heq]
      rw [if_pos heq, ok_bind, foldlM_takeLine_rules lines rfl, hvars, hrules]
      rfl
    · have hvars : varLines (line :: lines) = line :: varLines lines := by simp [varLines, heq]
      have hrules : ruleLines (line :: lines) = ruleLines lines := by simp [ruleLines, heq]
      rw [if_neg heq, if_pos h, hvars, hrules, List.foldlM_cons]
      cases hvar : parseVarLine libc reg l line with
      | error e => rfl
      | ok l' =>
        have hl' : l'.inVarSection = true := by
          obtain ⟨d,-,hvar⟩ := bind_eq_ok.mp hvar
          dsimp only at hvar
          split_ifs at hvar
          · obtain ⟨why,-,hvar⟩ := bind_eq_ok.mp hvar
            rw [← Except.ok.inj hvar]
            exact h
          · rw [← Except.ok.inj hvar]
            exact h
        rw [ok_bind, ok_bind, ih hl']

lemma takenPieces_flatMap (skipping : Bool) (lines : List (List Char)) :
    takenPieces skipping (lines.flatMap pieces) =
      ((takenLines skipping lines).1.flatten,(takenLines skipping lines).2) := by
  induction lines generalizing skipping with
  | nil => rfl
  | cons line lines ih =>
    rw [List.flatMap_cons, takenPieces_append]
    simp only [ih, takenLines, List.flatten_cons]

/-- The run of `parse_config_from_file`: the lines it takes go to the parser in their order, and the file is left
unless an end is still looked for. -/
theorem parseConfigFromFile_eq (s : Engine ε) (text : List Char) :
    parseConfigFromFile libc reg s (some text) = do
      let r := takenLines false (fileLines [] text)
      let l ← (varLines r.1.flatten).foldlM (parseVarLine libc reg) { engine := s }
      let l ← (ruleLines r.1.flatten).foldlM (parseRuleLine libc reg) { l with inVarSection := false }
      if r.2 then .error .loop else return (true, l.engine) := by
  have hvars := @foldlM_takeLine ε _ libc reg { engine := s } (takenLines false (fileLines [] text)).1.flatten rfl
  rw [parseConfigFromFile, fgetsLines_eq_pieces, foldlM_parseLine, takenPieces_flatMap]
  dsimp only
  generalize (takenLines false (fileLines [] text)).2 = skipping
  generalize (takenLines false (fileLines [] text)).1.flatten = taken at *
  have hengine := congrArg (· >>= fun engine => if skipping = true then .error .loop else .ok (true,engine)) hvars
  simpa only [bind_assoc, ok_bind, pure_eq_ok] using hengine

end Config

section Lines
variable {line : List Char} {before lines : List (List Char)}

/-- What should be taken of a line: all of it, unless it is long, a comment, or blank. -/
def wanted (line : List Char) : List (List Char) :=
  if lineLength line < lineRoom ∧ Counts line then [line] else []

/-- The end of one of the lines is looked for in what comes after them: a piece of it counts, and neither its last
piece nor that of any line behind it shows where it ends. -/
def Overrun (lines : List (List Char)) : Prop :=
  ∃ before line after, lines = before ++ line :: after ∧ (∃ p ∈ pieces line, Counts p) ∧
    ∀ v ∈ line :: after, ¬ Ends (lastPiece v)

lemma overrun_cons : Overrun (line :: lines) ↔
    ((∃ p ∈ pieces line, Counts p) ∧ ∀ v ∈ line :: lines, ¬ Ends (lastPiece v)) ∨ Overrun lines := by
  constructor
  · rintro ⟨before,v,after,heq,hv⟩
    rcases List.cons_eq_append_iff.mp heq with ⟨rfl,hcons⟩ | ⟨before,rfl,rfl⟩
    · obtain ⟨rfl,rfl⟩ := List.cons.inj hcons
      exact .inl hv
    · exact .inr ⟨before,v,after,rfl,hv⟩
  · rintro (hline | ⟨before,v,after,rfl,hv⟩)
    · exact ⟨[],line,lines,rfl,hline⟩
    · exact ⟨line :: before,v,after,rfl,hv⟩

/-- The lines behind which the loop is skipping. -/
lemma takenLines_skipping (h : ∀ line ∈ lines, IsLine line) (skipping : Bool) : (takenLines skipping lines).2 = true ↔
    (skipping = true ∧ ∀ v ∈ lines, ¬ Ends (lastPiece v)) ∨ Overrun lines := by
  induction lines generalizing skipping with
  | nil => simp [takenLines, Overrun]
  | cons line lines ih =>
    obtain ⟨hline,h⟩ := List.forall_mem_cons.mp h
    have hfull : ∀ p ∈ leadingPieces line, ¬ Ends p := fun p hp hends =>
      newline_notMem_leadingPieces hline p hp ((List.takeWhile_prefix _).subset hends)
    rw [takenLines, ih h, overrun_cons, pieces_eq hline, takenPieces_line hfull, ← pieces_eq hline]
    simp only [decide_eq_true_eq, List.forall_mem_cons]
    rw [and_assoc, or_and_right, or_assoc]

/-- Nothing keeps the loop from taking what it should of a line, given the lines before it. -/
structure ReadsLine (before : List (List Char)) (line : List Char) : Prop where
  short : lineLength line < lineRoom → Counts line → Ends line ∧ ¬ Overrun before
  long : lineRoom ≤ lineLength line → ¬ Overrun before → (∀ p ∈ leadingPieces line, ¬ Counts p) →
    Counts (lastPiece line) → ¬ Ends (lastPiece line)

lemma takenPieces_eq_wanted_iff (hline : IsLine line) {skipping : Bool} (hskip : skipping = true ↔ Overrun before) :
    (takenPieces skipping (pieces line)).1 = wanted line ↔ ReadsLine before line := by
  have hfull : ∀ p ∈ leadingPieces line, ¬ Ends p := fun p hp hends =>
    newline_notMem_leadingPieces hline p hp ((List.takeWhile_prefix _).subset hends)
  have hfree : skipping = false ↔ ¬ Overrun before := by rw [← hskip, Bool.not_eq_true]
  rcases lt_or_ge (lineLength line) lineRoom with hshort | hlong
  · have hpieces := pieces_short hline hshort
    have hlead : leadingPieces line = [] := by rw [leadingPieces, hpieces]; rfl
    have hlast : lastPiece line = line := by rw [lastPiece, hpieces]; rfl
    have hread : ReadsLine before line ↔ (Counts line → Ends line ∧ ¬ Overrun before) :=
      ⟨fun h => h.short hshort,fun h => ⟨fun _ => h,fun h' => absurd hshort (not_lt.mpr h')⟩⟩
    rw [pieces_eq hline, takenPieces_line hfull, hlead, hlast, wanted, hread, ← hfree]
    by_cases hcounts : Counts line
    · by_cases htakes : Ends line ∧ skipping = false
      · simp [hshort, hcounts, htakes.1, htakes.2, cText_eq_self hline.lineEnd htakes.1]
      · have hnot : ¬ (skipping = false ∧ Ends line) := fun h => htakes ⟨h.2,h.1⟩
        simp [hshort, hcounts, htakes, hnot]
    · simp [hcounts]
  · have hread : ReadsLine before line ↔ (¬ Overrun before → (∀ p ∈ leadingPieces line, ¬ Counts p) →
        Counts (lastPiece line) → ¬ Ends (lastPiece line)) :=
      ⟨fun h => h.long hlong,fun h => ⟨fun h' => absurd h' (not_lt.mpr hlong),fun _ => h⟩⟩
    have hwanted : wanted line = [] := if_neg fun h => absurd h.1 (not_lt.mpr hlong)
    rw [pieces_eq hline, takenPieces_line hfull, hwanted, hread, ite_eq_right_iff, ← hfree]
    simp

lemma takenLines_eq_iff (skipping : Bool) (f : List Char → List (List Char)) : (takenLines skipping lines).1 = lines.map f ↔
    ∀ before line after, lines = before ++ line :: after →
      (takenPieces (takenLines skipping before).2 (pieces line)).1 = f line := by
  induction lines generalizing skipping with
  | nil => simp [takenLines]
  | cons line lines ih =>
    have hcons : (takenLines skipping (line :: lines)).1 = (takenPieces skipping (pieces line)).1 ::
      (takenLines (takenPieces skipping (pieces line)).2 lines).1 := rfl
    rw [forall_split_cons, hcons, List.map_cons, List.cons.injEq, ih]
    rfl

lemma takenLines_eq_wanted_iff (h : ∀ line ∈ lines, IsLine line) :
    (takenLines false lines).1 = lines.map wanted ↔
      ∀ before line after, lines = before ++ line :: after → ReadsLine before line := by
  rw [takenLines_eq_iff]
  refine forall_congr' fun before => forall_congr' fun line => forall_congr' fun after => imp_congr_right ?_
  rintro rfl
  rw [List.forall_mem_append, List.forall_mem_cons] at h
  apply takenPieces_eq_wanted_iff h.2.1
  rw [takenLines_skipping h.1]
  simp

end Lines

section Whole
variable {ε : Type} [DecidableEq ε] (libc : Libc) (reg : Registry ε) (s : Engine ε) {text : List Char}

/-- The lines that are neither long nor comments nor blank. -/
def shortLines (text : List Char) : List (List Char) :=
  (fileLines [] text).filter fun line => lineLength line < lineRoom ∧ Counts line

/-- A file is read as it should be: the lines that count go to the parser whole, and no other, and the end of the file
ends it. -/
structure ReadsOnce (text : List Char) : Prop where
  taken : (takenLines false (fileLines [] text)).1 = (fileLines [] text).map wanted
  returns : ∃ s', parseConfigFromFile libc reg s (some text) = .ok (true, s')

/-- Each line that counts shows its newline and no end is looked for in it; no long line has an end that passes
for a line; in the end nothing is looked for; and the lines of both sections fit, each with what those before it
have left. -/
structure Readable (text : List Char) : Prop where
  lines : ∀ before line after, fileLines [] text = before ++ line :: after → ReadsLine before line
  last : ¬ Overrun (fileLines [] text)
  vars : Meets (parseVarLine libc reg) (FitsVarLine libc reg) { engine := s } (varLines (shortLines text))
  rules : ∀ l, Machine.perform (parseVarLine libc reg) { engine := s } (varLines (shortLines text)) = .ok l →
    Meets (parseRuleLine libc reg) (FitsRuleLine libc reg) { l with inVarSection := false } (ruleLines (shortLines text))

lemma flatten_map_wanted (lines : List (List Char)) : (lines.map wanted).flatten =
    lines.filter fun line => lineLength line < lineRoom ∧ Counts line := by
  induction lines with
  | nil => rfl
  | cons line lines ih =>
    rw [List.map_cons, List.flatten_cons, ih, wanted]
    split_ifs with h
    · rw [List.filter_cons_of_pos (by simpa using h)]
      rfl
    · rw [List.filter_cons_of_neg (by simpa using h)]
      rfl

lemma ruleLines_subset (lines : List (List Char)) : ruleLines lines ⊆ lines := fun _ h =>
  (List.dropWhile_sublist _).subset (List.mem_of_mem_filter h)

variable {libc reg}

omit [DecidableEq ε] in
/-- The lines of the variables' section that come to an end. -/
lemma returns_varLines_iff (lines : List (List Char)) :
    Returns (Machine.perform (parseVarLine libc reg) { engine := s } lines) ↔
      Meets (parseVarLine libc reg) (FitsVarLine libc reg) { engine := s } lines := by
  have hstart : StorableMap ({ engine := s } : FileLoad ε).varMap := by simp [StorableMap]
  exact returns_perform_iff (I := fun l => StorableMap l.varMap) (fun _ _ _ hl h => storableMap_parseVarLine hl h)
    (fun _ hl _ _ => returns_parseVarLine_iff hl) hstart

/-- The lines of the rules' section that do. -/
lemma returns_ruleLines_iff {l : FileLoad ε} (hl : Linked reg l.engine) {lines : List (List Char)}
    (hlines : ∀ line ∈ lines, IsLine line) : Returns (Machine.perform (parseRuleLine libc reg) l lines) ↔
      Meets (parseRuleLine libc reg) (FitsRuleLine libc reg) l lines :=
  returns_perform_iff (I := fun l : FileLoad ε => Linked reg l.engine)
    (fun _ _ _ hl h => (linked_kept libc reg).parseRuleLine hl h)
    (fun _ hl line hline => returns_parseRuleLine_iff hl (hlines line hline).lineEnd) hl

/-- Where the lines that count are taken, the run over the file is one over them. -/
lemma returns_parseConfigFromFile_iff
    (htake : (takenLines false (fileLines [] text)).1 = (fileLines [] text).map wanted) :
    (∃ s', parseConfigFromFile libc reg s (some text) = .ok (true, s')) ↔
      (takenLines false (fileLines [] text)).2 = false ∧
        ∃ l, Machine.perform (parseVarLine libc reg) { engine := s } (varLines (shortLines text)) = .ok l ∧
          Returns (Machine.perform (parseRuleLine libc reg) { l with inVarSection := false }
            (ruleLines (shortLines text))) := by
  rw [parseConfigFromFile_eq]
  dsimp only
  rw [htake, flatten_map_wanted, ← shortLines]
  constructor
  · rintro ⟨s',h⟩
    obtain ⟨l,hl,h⟩ := bind_eq_ok.mp h
    obtain ⟨l',hl',h⟩ := bind_eq_ok.mp h
    split_ifs at h with hskip
    exact ⟨by simpa using hskip,l,hl,l',hl'⟩
  · rintro ⟨hskip,l,hl,l',hl'⟩
    refine ⟨l'.engine,bind_eq_ok.mpr ⟨l,hl,bind_eq_ok.mpr ⟨l',hl',?_⟩⟩⟩
    rw [hskip, if_neg Bool.false_ne_true]
    rfl

/-- A variable that is set twice. -/
def twiceSet : List Char := ['a', '(', '1', ')', '\n', 'a', '(', '2', ')', '\n']

end Whole

end Xctools.Xcpmd
