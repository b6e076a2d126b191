import Mathlib.Order.RelClasses
import Xctools.Machine.Outcome

/-! Computations that branch: from a state, each branch goes on in another state or ends with a result. They are
tried side by side, one behind another, and any number of times one behind another; a number of rounds stands
for repetition that need not come to an end. -/
namespace Xctools.Machine
universe u

/-- What the branches come to from a state. -/
abbrev Branching (σ α : Type u) := σ → Outcome (List (σ ⊕ α))

namespace Branching
variable {σ α : Type u}

/-- One branch, which goes on where it is. -/
def stay : Branching σ α := fun s => .ok [.inl s]

/-- The branches of both. -/
def both (c d : Branching σ α) : Branching σ α := fun s => do
  let rs ← c s
  let rs' ← d s
  return rs ++ rs'

/-- A branch that goes on is followed by another computation. -/
def resume (d : Branching σ α) : σ ⊕ α → Outcome (List (σ ⊕ α))
  | .inl t => d t
  | .inr x => .ok [.inr x]

/-- So are all the branches of a list. -/
def resumeAll (d : Branching σ α) (rs : List (σ ⊕ α)) : Outcome (List (σ ⊕ α)) := do
  let rss ← rs.mapM d.resume
  return rss.flatten

/-- One behind another. -/
def follow (c d : Branching σ α) : Branching σ α := fun s => do
  let rs ← c s
  d.resumeAll rs

/-- Any number of times, in so many rounds. -/
def repeated (c : Branching σ α) : ℕ → Branching σ α
  | 0 => fun _ => .error .loop
  | n + 1 => (c.follow (c.repeated n)).both stay

/-- One of the branches comes to `r`. -/
def Yields (c : Branching σ α) (s : σ) (r : σ ⊕ α) : Prop := ∃ rs, c s = .ok rs ∧ r ∈ rs

/-- Where the one returns, the other returns the same. -/
def Below (c d : Branching σ α) : Prop := ∀ s rs, c s = .ok rs → d s = .ok rs

variable {c c' d d' e : Branching σ α} {s t : σ} {r : σ ⊕ α} {n m : ℕ}

lemma Yields.returns (h : c.Yields s r) : Returns (c s) := ⟨h.choose,h.choose_spec.1⟩

lemma Below.yields (h : c.Below d) (hy : c.Yields s r) : d.Yields s r := by
  obtain ⟨rs,hrs,hr⟩ := hy
  exact ⟨rs,h s rs hrs,hr⟩

lemma Below.returns (h : c.Below d) (hc : Returns (c s)) : Returns (d s) := by
  obtain ⟨rs,hrs⟩ := hc
  exact ⟨rs,h s rs hrs⟩

/-- Where both return, their branches are the same ones. -/
lemma Below.yields_iff (h : c.Below d) (hc : Returns (c s)) : c.Yields s r ↔ d.Yields s r := by
  refine ⟨h.yields,fun ⟨rs,hrs,hr⟩ => ?_⟩
  obtain ⟨rs',hrs'⟩ := hc
  obtain rfl := Except.ok.inj ((h s rs' hrs').symm.trans hrs)
  exact ⟨rs',hrs',hr⟩

lemma Below.trans (h : c.Below d) (h' : d.Below e) : c.Below e := fun s rs hrs => h' s rs (h s rs hrs)

@[simp] lemma yields_stay : (stay : Branching σ α).Yields s r ↔ r = .inl s := by simp [Yields, stay]

@[simp] lemma returns_stay : Returns ((stay : Branching σ α) s) := ⟨_,rfl⟩

lemma both_eq_ok {rs : List (σ ⊕ α)} :
    c.both d s = .ok rs ↔ ∃ as, c s = .ok as ∧ ∃ bs, d s = .ok bs ∧ as ++ bs = rs := by
  simp only [both, bind_eq_ok, pure_eq_ok, Except.ok.injEq]

lemma returns_both : Returns (c.both d s) ↔ Returns (c s) ∧ Returns (d s) := by
  simp only [Returns, both_eq_ok]
  constructor
  · rintro ⟨_,as,has,bs,hbs,-⟩
    exact ⟨⟨as,has⟩,bs,hbs⟩
  · rintro ⟨⟨as,has⟩,bs,hbs⟩
    exact ⟨_,as,has,bs,hbs,rfl⟩

lemma yields_both (h : Returns (c.both d s)) : (c.both d).Yields s r ↔ c.Yields s r ∨ d.Yields s r := by
  obtain ⟨⟨as,has⟩,bs,hbs⟩ := returns_both.mp h
  have hrs : c.both d s = .ok (as ++ bs) := both_eq_ok.mpr ⟨as,has,bs,hbs,rfl⟩
  simp [Yields, hrs, has, hbs]

@[simp] lemma resumeAll_nil : d.resumeAll [] = .ok [] := rfl

lemma resumeAll_cons_eq_ok {l rs : List (σ ⊕ α)} : d.resumeAll (r :: l) = .ok rs ↔
    ∃ as, d.resume r = .ok as ∧ ∃ bs, d.resumeAll l = .ok bs ∧ as ++ bs = rs := by
  rw [resumeAll, List.mapM_cons]
  simp only [resumeAll, bind_eq_ok, pure_eq_ok, Except.ok.injEq]
  constructor
  · rintro ⟨_,⟨as,has,bss,hbss,rfl⟩,rfl⟩
    exact ⟨as,has,_,⟨bss,hbss,rfl⟩,rfl⟩
  · rintro ⟨as,has,_,⟨bss,hbss,rfl⟩,rfl⟩
    exact ⟨_,⟨as,has,bss,hbss,rfl⟩,rfl⟩

lemma resumeAll_append_eq_ok {k l rs : List (σ ⊕ α)} : d.resumeAll (k ++ l) = .ok rs ↔
    ∃ as, d.resumeAll k = .ok as ∧ ∃ bs, d.resumeAll l = .ok bs ∧ as ++ bs = rs := by
  induction k generalizing rs with
  | nil => simp
  | cons r k ih =>
    simp only [List.cons_append, resumeAll_cons_eq_ok, ih]
    constructor
    · rintro ⟨as,has,_,⟨bs,hbs,cs,hcs,rfl⟩,rfl⟩
      exact ⟨_,⟨as,has,bs,hbs,rfl⟩,cs,hcs,List.append_assoc ..⟩
    · rintro ⟨_,⟨as,has,bs,hbs,rfl⟩,cs,hcs,rfl⟩
      exact ⟨as,has,_,⟨bs,hbs,cs,hcs,rfl⟩,(List.append_assoc ..).symm⟩

lemma follow_eq_ok {rs : List (σ ⊕ α)} : c.follow d s = .ok rs ↔ ∃ as, c s = .ok as ∧ d.resumeAll as = .ok rs := by
  rw [follow, bind_eq_ok]

lemma returns_resumeAll {l : List (σ ⊕ α)} : Returns (d.resumeAll l) ↔ ∀ x ∈ l, Returns (d.resume x) := by
  induction l with
  | nil => simp
  | cons x l ih =>
    rw [List.forall_mem_cons, ← ih]
    simp only [Returns, resumeAll_cons_eq_ok]
    constructor
    · rintro ⟨_,as,has,bs,hbs,-⟩
      exact ⟨⟨as,has⟩,bs,hbs⟩
    · rintro ⟨⟨as,has⟩,bs,hbs⟩
      exact ⟨_,as,has,bs,hbs,rfl⟩

lemma mem_resumeAll {l rs : List (σ ⊕ α)} (h : d.resumeAll l = .ok rs) :
    r ∈ rs ↔ ∃ x ∈ l, ∃ as, d.resume x = .ok as ∧ r ∈ as := by
  induction l generalizing rs with
  | nil =>
    obtain rfl := Except.ok.inj h
    simp
  | cons x l ih =>
    obtain ⟨as,has,bs,hbs,rfl⟩ := resumeAll_cons_eq_ok.mp h
    simp [ih hbs, has]

/-- A computation is followed where it returns and each of its branches can go on. -/
lemma returns_follow : Returns (c.follow d s) ↔ Returns (c s) ∧ ∀ t, c.Yields s (.inl t) → Returns (d t) := by
  constructor
  · rintro ⟨rs,hrs⟩
    obtain ⟨as,has,hall⟩ := follow_eq_ok.mp hrs
    refine ⟨⟨as,has⟩,fun t ht => ?_⟩
    obtain ⟨as',has',hmem⟩ := ht
    obtain rfl := Except.ok.inj (has'.symm.trans has)
    exact returns_resumeAll.mp ⟨rs,hall⟩ _ hmem
  · rintro ⟨⟨as,has⟩,hgo⟩
    have hall : ∀ x ∈ as, Returns (d.resume x) := by
      intro x hx
      cases x with
      | inl t => exact hgo t ⟨as,has,hx⟩
      | inr x => exact ⟨_,rfl⟩
    obtain ⟨rs,hrs⟩ := returns_resumeAll.mpr hall
    exact ⟨rs,follow_eq_ok.mpr ⟨as,has,hrs⟩⟩

/-- What comes of it: what comes of the second where the first goes on, and what the first ends with. -/
lemma yields_follow (h : Returns (c.follow d s)) : (c.follow d).Yields s r ↔
    (∃ t, c.Yields s (.inl t) ∧ d.Yields t r) ∨ ∃ x, r = .inr x ∧ c.Yields s r := by
  obtain ⟨rs,hrs⟩ := h
  obtain ⟨as,has,hall⟩ := follow_eq_ok.mp hrs
  have hmem : (c.follow d).Yields s r ↔ ∃ x ∈ as, ∃ l, d.resume x = .ok l ∧ r ∈ l := by
    simp only [Yields, hrs, Except.ok.injEq, exists_eq_left', mem_resumeAll hall]
  have hyields : ∀ x, c.Yields s x ↔ x ∈ as := fun x => by simp [Yields, has]
  rw [hmem]
  constructor
  · rintro ⟨x,hx,l,hl,hr⟩
    cases x with
    | inl t => exact .inl ⟨t,(hyields _).mpr hx,l,hl,hr⟩
    | inr y =>
      obtain rfl := Except.ok.inj hl
      obtain rfl := List.mem_singleton.mp hr
      exact .inr ⟨y,rfl,(hyields _).mpr hx⟩
  · rintro (⟨t,ht,l,hl,hr⟩ | ⟨x,rfl,hx⟩)
    · exact ⟨.inl t,(hyields _).mp ht,l,hl,hr⟩
    · exact ⟨.inr x,(hyields _).mp hx,_,rfl,List.mem_singleton_self _⟩

lemma both_mono (hc : c.Below c') (hd : d.Below d') : (c.both d).Below (c'.both d') := by
  intro s rs h
  obtain ⟨as,has,bs,hbs,rfl⟩ := both_eq_ok.mp h
  exact both_eq_ok.mpr ⟨as,hc s as has,bs,hd s bs hbs,rfl⟩

lemma resumeAll_mono (hd : d.Below d') {l rs : List (σ ⊕ α)} (h : d.resumeAll l = .ok rs) :
    d'.resumeAll l = .ok rs := by
  induction l generalizing rs with
  | nil => exact h
  | cons x l ih =>
    obtain ⟨as,has,bs,hbs,rfl⟩ := resumeAll_cons_eq_ok.mp h
    have hx : d'.resume x = .ok as := by
      cases x with
      | inl t => exact hd t as has
      | inr y => exact has
    exact resumeAll_cons_eq_ok.mpr ⟨as,hx,bs,ih hbs,rfl⟩

lemma follow_mono (hc : c.Below c') (hd : d.Below d') : (c.follow d).Below (c'.follow d') := by
  intro s rs h
  obtain ⟨as,has,hrs⟩ := follow_eq_ok.mp h
  exact follow_eq_ok.mpr ⟨as,hc s as has,resumeAll_mono hd hrs⟩

/-- More rounds do not change what comes of it. -/
lemma repeated_mono (hc : c.Below c') (hn : n ≤ m) : (c.repeated n).Below (c'.repeated m) := by
  induction n generalizing m with
  | zero =>
    intro s rs h
    cases h
  | succ n ih =>
    obtain ⟨m,rfl⟩ := Nat.exists_eq_succ_of_ne_zero (Nat.ne_of_gt (Nat.zero_lt_of_lt hn))
    exact both_mono (follow_mono hc (ih (Nat.le_of_succ_le_succ hn))) fun _ _ h => h

lemma returns_repeated_succ : Returns (c.repeated (n + 1) s) ↔
    Returns (c s) ∧ ∀ t, c.Yields s (.inl t) → Returns (c.repeated n t) := by
  rw [repeated, returns_both, returns_follow, and_iff_left returns_stay]

lemma yields_repeated_succ (h : Returns (c.repeated (n + 1) s)) : (c.repeated (n + 1)).Yields s r ↔
    (∃ t, c.Yields s (.inl t) ∧ (c.repeated n).Yields t r) ∨ (∃ x, r = .inr x ∧ c.Yields s r) ∨ r = .inl s := by
  have hfollow := (returns_both.mp h).1
  rw [repeated, yields_both h, yields_follow hfollow, yields_stay, or_assoc]

/-- A computation that can stay where it is is repeated without an end. -/
lemma not_returns_repeated (h : c.Yields s (.inl s)) : ¬ Returns (c.repeated n s) := by
  induction n with
  | zero => exact not_returns_error _
  | succ n ih => exact fun hr => ih ((returns_repeated_succ.mp hr).2 s h)

lemma resumeAll_follow {l rs : List (σ ⊕ α)} : (d.follow e).resumeAll l = .ok rs ↔
    ∃ as, d.resumeAll l = .ok as ∧ e.resumeAll as = .ok rs := by
  induction l generalizing rs with
  | nil => simp
  | cons x l ih =>
    have hx : ∀ as, (d.follow e).resume x = .ok as ↔ ∃ bs, d.resume x = .ok bs ∧ e.resumeAll bs = .ok as := by
      intro as
      cases x with
      | inl t => exact follow_eq_ok
      | inr y => simp [resume, resumeAll]
    simp only [resumeAll_cons_eq_ok, ih, hx]
    constructor
    · rintro ⟨as,⟨cs,hcs,has⟩,bs,⟨ds,hds,hbs⟩,rfl⟩
      exact ⟨_,⟨cs,hcs,ds,hds,rfl⟩,resumeAll_append_eq_ok.mpr ⟨as,has,bs,hbs,rfl⟩⟩
    · rintro ⟨_,⟨cs,hcs,ds,hds,rfl⟩,h⟩
      obtain ⟨as,has,bs,hbs,rfl⟩ := resumeAll_append_eq_ok.mp h
      exact ⟨as,⟨cs,hcs,has⟩,bs,⟨ds,hds,hbs⟩,rfl⟩

/-- Three computations may be put together in either order. -/
lemma follow_assoc {rs : List (σ ⊕ α)} : (c.follow d).follow e s = .ok rs ↔ c.follow (d.follow e) s = .ok rs := by
  simp only [follow_eq_ok, resumeAll_follow]
  constructor
  · rintro ⟨bs,⟨as,has,hbs⟩,hrs⟩
    exact ⟨as,has,bs,hbs,hrs⟩
  · rintro ⟨as,has,bs,hbs,hrs⟩
    exact ⟨bs,⟨as,has,hbs⟩,hrs⟩

/-- A row of computations put together one by one. -/
lemma foldl_mono {ι : Type*} {op : Branching σ α → Branching σ α → Branching σ α}
    (hop : ∀ {c c' d d' : Branching σ α}, c.Below c' → d.Below d' → (op c d).Below (op c' d'))
    {f g : ι → Branching σ α} (hfg : ∀ i, (f i).Below (g i)) (hc : c.Below c') (l : List ι) :
    ((l.map f).foldl op c).Below ((l.map g).foldl op c') := by
  induction l generalizing c c' with
  | nil => exact hc
  | cons i l ih => exact ih (hop hc (hfg i))

/-- The first of a row stands before all of the others. -/
lemma foldl_follow {ι : Type*} {f : ι → Branching σ α} {l : List ι} {rs : List (σ ⊕ α)} :
    (l.map f).foldl follow (c.follow d) s = .ok rs ↔ c.follow ((l.map f).foldl follow d) s = .ok rs := by
  induction l generalizing d with
  | nil => rfl
  | cons i l ih =>
    have hleft : ((c.follow d).follow (f i)).Below (c.follow (d.follow (f i))) := fun _ _ => follow_assoc.mp
    have hright : (c.follow (d.follow (f i))).Below ((c.follow d).follow (f i)) := fun _ _ => follow_assoc.mpr
    have hrefl : ∀ i, (f i).Below (f i) := fun _ _ _ h => h
    rw [List.map_cons, List.foldl_cons, List.foldl_cons, ← ih]
    exact ⟨foldl_mono follow_mono hrefl hleft l s rs,foldl_mono follow_mono hrefl hright l s rs⟩

lemma returns_foldl_both {l : List (Branching σ α)} :
    Returns (l.foldl both c s) ↔ ∀ d ∈ c :: l, Returns (d s) := by
  induction l generalizing c with
  | nil => simp
  | cons d l ih => rw [List.foldl_cons, ih, List.forall_mem_cons, returns_both, and_assoc, List.forall_mem_cons, List.forall_mem_cons]

lemma yields_foldl_both {l : List (Branching σ α)} (h : Returns (l.foldl both c s)) :
    (l.foldl both c).Yields s r ↔ ∃ d ∈ c :: l, d.Yields s r := by
  induction l generalizing c with
  | nil => simp
  | cons d l ih =>
    have hfold : Returns (l.foldl both (c.both d) s) := h
    have hboth := returns_foldl_both.mp hfold _ List.mem_cons_self
    rw [List.foldl_cons, ih h]
    simp only [List.mem_cons, exists_eq_or_imp, yields_both hboth, or_assoc]

/-- Each of finitely many things comes about in time, and does not pass away: there is a time when all are there. -/
lemma exists_common {β : Type*} {P : ℕ → β → Prop} (hmono : ∀ n m b, n ≤ m → P n b → P m b) {l : List β}
    (h : ∀ b ∈ l, ∃ n, P n b) : ∃ n, ∀ b ∈ l, P n b := by
  induction l with
  | nil => exact ⟨0,by simp⟩
  | cons b l ih =>
    obtain ⟨⟨n,hn⟩,hl⟩ := List.forall_mem_cons.mp h
    obtain ⟨m,hm⟩ := ih hl
    refine ⟨max n m,List.forall_mem_cons.mpr ⟨hmono n _ b (Nat.le_max_left n m) hn,fun b' hb' => ?_⟩⟩
    exact hmono m _ b' (Nat.le_max_right n m) (hm b' hb')

/-- What all branches come to in some number of rounds, they come to in one number. -/
lemma exists_returns_follow {d : ℕ → Branching σ α} (hd : ∀ n m, n ≤ m → (d n).Below (d m)) (hc : Returns (c s))
    (h : ∀ t, c.Yields s (.inl t) → ∃ n, Returns (d n t)) : ∃ n, Returns (c.follow (d n) s) := by
  obtain ⟨rs,hrs⟩ := hc
  have hall : ∃ n, ∀ r ∈ rs, ∀ t, r = .inl t → Returns (d n t) := by
    refine exists_common (fun n m r hnm hn t ht => (hd n m hnm).returns (hn t ht)) fun r hr => ?_
    cases r with
    | inl t =>
      obtain ⟨n,hn⟩ := h t ⟨rs,hrs,hr⟩
      exact ⟨n,fun t' ht => Sum.inl.inj ht ▸ hn⟩
    | inr x => exact ⟨0,fun t ht => by cases ht⟩
  obtain ⟨n,hn⟩ := hall
  refine ⟨n,returns_follow.mpr ⟨⟨rs,hrs⟩,fun t ht => ?_⟩⟩
  obtain ⟨rs',hrs',hmem⟩ := ht
  obtain rfl := Except.ok.inj (hrs'.symm.trans hrs)
  exact hn _ hmem t rfl

end Branching

end Xctools.Machine
