import Xctools.Compleat.Completer

/-! What a usage means: the sequences of slots that it allows, and which slot may come next. Completers are compared
with it: the words of a line go through slots, and what is offered for the last word is what the slots that may
come next have to offer. -/
namespace Xctools.Compleat
open Machine

section Slots

/-- What stands at a place of a usage: a word, something that a shell command prints, or anything. -/
inductive Slot
  | word (s : Word)
  | shell (command : Word)
  | any
  deriving DecidableEq, Repr

/-- The words that may stand there. What a shell command prints is not compared with words that are complete. -/
def Slot.Admits : Slot → Word → Prop
  | word s, t => t = s
  | _, _ => True

/-- A word goes through a slot, with others behind it: a word is complete if there is another one. -/
def Slot.Takes (σ : Slot) (t : Word) (ts : List Word) : Prop := σ.Admits t ∧ (σ = any ∨ ts ≠ [])

variable (shell : Word → Word → List Word)

/-- What is offered for the last word. -/
def Slot.suggest : Slot → Word → Option (List Word)
  | word s, t => some (matchesFrom [s] t)
  | .shell command, t => some (matchesFrom (shell command t) t)
  | any, _ => none

/-- The completer of a slot. -/
def Slot.completer : Slot → Completer
  | word s => str s
  | .shell command => shellCommand shell command
  | any => skip

/-- The words up to `ts'` go through the slots. -/
def Fits : List Slot → List Word → List Word → Prop
  | [], ts, ts' => ts' = ts
  | _ :: _, [], _ => False
  | σ :: w, t :: ts, ts' => σ.Takes t ts ∧ Fits w ts ts'

/-- Through the slots `w`, the line leads to its other words, or, if only the last one is left, to what is offered for
it in the slot `r`. -/
def Leads (w : List Slot) (r : Option Slot) (ts : List Word) (res : List Word ⊕ List Word) : Prop :=
  match r with
  | none => ∃ ts', Fits w ts ts' ∧ res = .inl ts'
  | some σ => ∃ t, Fits w ts [t] ∧ ∃ x, σ.suggest shell t = some x ∧ res = .inr x

variable {shell} {w w' : List Slot} {r : Option Slot} {σ : Slot} {ts ts' : List Word} {res : List Word ⊕ List Word}

lemma fits_append : Fits (w ++ w') ts ts' ↔ ∃ us, Fits w ts us ∧ Fits w' us ts' := by
  induction w generalizing ts with
  | nil => simp [Fits]
  | cons σ w ih =>
    cases ts with
    | nil => simp [Fits]
    | cons t ts => simp [Fits, ih, and_assoc]

lemma leads_append : Leads shell (w ++ w') r ts res ↔ ∃ us, Fits w ts us ∧ Leads shell w' r us res := by
  cases r with
  | none =>
    simp only [Leads, fits_append]
    constructor
    · rintro ⟨ts',⟨us,hus,hts⟩,rfl⟩
      exact ⟨us,hus,ts',hts,rfl⟩
    · rintro ⟨us,hus,ts',hts,rfl⟩
      exact ⟨ts',⟨us,hus,hts⟩,rfl⟩
  | some σ =>
    simp only [Leads, fits_append]
    constructor
    · rintro ⟨t,⟨us,hus,ht⟩,hx⟩
      exact ⟨us,hus,t,ht,hx⟩
    · rintro ⟨us,hus,t,ht,hx⟩
      exact ⟨t,⟨us,hus,ht⟩,hx⟩

lemma leads_nil : Leads shell [] none ts res ↔ res = .inl ts := by simp [Leads, Fits]

lemma fits_singleton : Fits [σ] ts ts' ↔ ∃ t, ts = t :: ts' ∧ σ.Takes t ts' := by
  cases ts with
  | nil => simp [Fits]
  | cons t ts =>
    simp only [Fits, List.cons.injEq]
    constructor
    · rintro ⟨htakes,rfl⟩
      exact ⟨t,⟨rfl,rfl⟩,htakes⟩
    · rintro ⟨_,⟨rfl,rfl⟩,htakes⟩
      exact ⟨htakes,rfl⟩

@[simp] lemma returns_matchToken (p : Word → Bool) (suggest : Word → List Word) (ts : List Word) :
    Returns (matchToken p suggest ts) := by
  match ts with
  | [] => exact ⟨_,rfl⟩
  | [_] => exact ⟨_,rfl⟩
  | t :: _ :: _ => cases h : p t <;> simp [matchToken, continueOn, h]

/-- A word goes through if there are others behind it, and is completed otherwise. -/
lemma yields_matchToken {p : Word → Bool} {suggest : Word → List Word} : (matchToken p suggest).Yields ts res ↔
    (∃ t ts', ts = t :: ts' ∧ p t ∧ ts' ≠ [] ∧ res = .inl ts') ∨ ∃ t, ts = [t] ∧ res = .inr (suggest t) := by
  match ts with
  | [] => simp [Branching.Yields, matchToken]
  | [t] => simp [Branching.Yields, matchToken]
  | t :: t' :: ts => cases h : p t <;> simp [Branching.Yields, matchToken, continueOn, Branching.stay, h]

@[simp] lemma returns_slot (σ : Slot) (ts : List Word) : Returns (σ.completer shell ts) := by
  cases σ with
  | word s => exact returns_matchToken _ _ ts
  | shell command => exact returns_matchToken _ _ ts
  | any => cases ts <;> exact ⟨_,rfl⟩

/-- A slot takes a word, or offers what it may be. -/
lemma yields_slot : (σ.completer shell).Yields ts res ↔ Leads shell [σ] none ts res ∨ Leads shell [] (some σ) ts res := by
  have hnext : Leads shell [] (some σ) ts res ↔ ∃ t, ts = [t] ∧ ∃ x, σ.suggest shell t = some x ∧ res = .inr x := by
    simp only [Leads, Fits, eq_comm]
  have htake : Leads shell [σ] none ts res ↔ ∃ t ts', ts = t :: ts' ∧ σ.Takes t ts' ∧ res = .inl ts' := by
    simp only [Leads, fits_singleton]
    constructor
    · rintro ⟨ts',⟨t,rfl,htakes⟩,rfl⟩
      exact ⟨t,ts',rfl,htakes,rfl⟩
    · rintro ⟨t,ts',rfl,htakes,rfl⟩
      exact ⟨ts',⟨t,rfl,htakes⟩,rfl⟩
  rw [hnext, htake]
  cases σ with
  | word s =>
    rw [Slot.completer, str, yields_matchToken]
    simp [Slot.Takes, Slot.Admits, Slot.suggest, and_assoc, @eq_comm _ s]
  | shell command =>
    rw [Slot.completer, shellCommand, yields_matchToken]
    simp [Slot.Takes, Slot.Admits, Slot.suggest]
  | any => cases ts <;> simp [Slot.completer, skip, Branching.Yields, Slot.Takes, Slot.Admits, Slot.suggest, eq_comm]

end Slots

section Usages

/-- The slot of a primitive completer. -/
def Primitive.slot : Primitive → Slot
  | str s => .word s
  | skip => .any

variable (env : Environment)

/-- A usage that is one slot. A variable that is not defined stands for anything. -/
def Environment.slot : Usage → Option Slot
  | .primitive p => some p.slot
  | .shellCommand s => some (.shell s)
  | .var s => if (env.lookup (.varName s)).isNone then some .any else none
  | _ => none

/-- After the slots `w` the usage may end, or have the slot `r` next. -/
inductive Allows : Usage → List Slot → Option Slot → Prop
  | slot {u : Usage} {σ : Slot} (h : env.slot u = some σ) : Allows u [σ] none
  | slotNext {u : Usage} {σ : Slot} (h : env.slot u = some σ) : Allows u [] (some σ)
  | var {s : Word} {u : Usage} {w : List Slot} {r : Option Slot} (h : env.lookup (.varName s) = some u)
      (hu : Allows u w r) : Allows (.var s) w r
  | choice {x u : Usage} {xs : List Usage} {w : List Slot} {r : Option Slot} (h : u ∈ x :: xs) (hu : Allows u w r) :
      Allows (.choice x xs) w r
  | sequenceNext {x : Usage} {xs : List Usage} {w : List Slot} {σ : Slot} (hx : Allows x w (some σ)) :
      Allows (.sequence x xs) w (some σ)
  | sequenceEnd {x : Usage} {w : List Slot} (hx : Allows x w none) : Allows (.sequence x []) w none
  | sequence {x y : Usage} {ys : List Usage} {w w' : List Slot} {r : Option Slot} (hx : Allows x w none)
      (hys : Allows (.sequence y ys) w' r) : Allows (.sequence x (y :: ys)) (w ++ w') r
  | manyEnd {x : Usage} : Allows (.many x) [] none
  | manyNext {x : Usage} {w : List Slot} {σ : Slot} (hx : Allows x w (some σ)) : Allows (.many x) w (some σ)
  | many {x : Usage} {w w' : List Slot} {r : Option Slot} (hx : Allows x w none) (hxs : Allows (.many x) w' r) :
      Allows (.many x) (w ++ w') r
  | many1Next {x : Usage} {w : List Slot} {σ : Slot} (hx : Allows x w (some σ)) : Allows (.many1 x) w (some σ)
  | many1 {x : Usage} {w w' : List Slot} {r : Option Slot} (hx : Allows x w none) (hxs : Allows (.many x) w' r) :
      Allows (.many1 x) (w ++ w') r
  | optionalEnd {x : Usage} : Allows (.optional x) [] none
  | optional {x : Usage} {w : List Slot} {r : Option Slot} (hx : Allows x w r) : Allows (.optional x) w r

variable (shell : Word → Word → List Word)

/-- What a line comes to by the usage. -/
def Comes (u : Usage) (ts : List Word) (res : List Word ⊕ List Word) : Prop :=
  ∃ w r, Allows env u w r ∧ Leads shell w r ts res

variable {env shell} {u x y : Usage} {xs ys : List Usage} {ts : List Word} {res : List Word ⊕ List Word} {s : Word} {σ : Slot}

lemma comes_slot (h : env.slot u = some σ) : Comes env shell u ts res ↔ (σ.completer shell).Yields ts res := by
  rw [yields_slot]
  constructor
  · rintro ⟨w,r,hallows,hleads⟩
    cases hallows with
    | slot h' =>
      obtain rfl := Option.some.inj (h'.symm.trans h)
      exact .inl hleads
    | slotNext h' =>
      obtain rfl := Option.some.inj (h'.symm.trans h)
      exact .inr hleads
    | var h' => simp [Environment.slot, h'] at h
    | _ => cases h
  · rintro (hleads | hleads)
    · exact ⟨_,_,.slot h,hleads⟩
    · exact ⟨_,_,.slotNext h,hleads⟩

lemma comes_var (h : env.lookup (.varName s) = some u) : Comes env shell (.var s) ts res ↔ Comes env shell u ts res := by
  constructor
  · rintro ⟨w,r,hallows,hleads⟩
    cases hallows with
    | slot h' => simp [Environment.slot, h] at h'
    | slotNext h' => simp [Environment.slot, h] at h'
    | var h' hu =>
      obtain rfl := Option.some.inj (h'.symm.trans h)
      exact ⟨w,r,hu,hleads⟩
  · rintro ⟨w,r,hallows,hleads⟩
    exact ⟨w,r,.var h hallows,hleads⟩

lemma comes_choice : Comes env shell (.choice x xs) ts res ↔ ∃ u ∈ x :: xs, Comes env shell u ts res := by
  constructor
  · rintro ⟨w,r,hallows,hleads⟩
    cases hallows with
    | slot h => cases h
    | slotNext h => cases h
    | choice hmem hu => exact ⟨_,hmem,w,r,hu,hleads⟩
  · rintro ⟨u,hmem,w,r,hu,hleads⟩
    exact ⟨w,r,.choice hmem hu,hleads⟩

lemma comes_optional : Comes env shell (.optional x) ts res ↔ Comes env shell x ts res ∨ res = .inl ts := by
  constructor
  · rintro ⟨w,r,hallows,hleads⟩
    cases hallows with
    | slot h => cases h
    | slotNext h => cases h
    | optionalEnd => exact .inr (leads_nil.mp hleads)
    | optional hx => exact .inl ⟨w,r,hx,hleads⟩
  · rintro (⟨w,r,hx,hleads⟩ | rfl)
    · exact ⟨w,r,.optional hx,hleads⟩
    · exact ⟨[],none,.optionalEnd,leads_nil.mpr rfl⟩

/-- One usage behind another: what the first comes to, where that is offered, and what the second comes to behind it. -/
lemma comes_behind {z : Usage} : (∃ w r, ((∃ σ, r = some σ ∧ Allows env x w r) ∨
      ∃ w₁ w₂, w = w₁ ++ w₂ ∧ Allows env x w₁ none ∧ Allows env z w₂ r) ∧ Leads shell w r ts res) ↔
    (∃ us, Comes env shell x ts (.inl us) ∧ Comes env shell z us res) ∨ ∃ l, res = .inr l ∧ Comes env shell x ts res := by
  constructor
  · rintro ⟨w,r,⟨σ,rfl,hx⟩ | ⟨w₁,w₂,rfl,hx,hz⟩,hleads⟩
    · obtain ⟨t,hfits,l,hl,rfl⟩ := hleads
      exact .inr ⟨l,rfl,w,_,hx,t,hfits,l,hl,rfl⟩
    · obtain ⟨us,hus,hleads⟩ := leads_append.mp hleads
      exact .inl ⟨us,⟨w₁,none,hx,us,hus,rfl⟩,w₂,r,hz,hleads⟩
  · rintro (⟨us,⟨w₁,r₁,hx,hleads₁⟩,w₂,r,hz,hleads⟩ | ⟨l,rfl,w,r,hx,hleads⟩)
    · cases r₁ with
      | none =>
        obtain ⟨us',hfits,heq⟩ := hleads₁
        obtain rfl := Sum.inl.inj heq
        exact ⟨w₁ ++ w₂,r,.inr ⟨w₁,w₂,rfl,hx,hz⟩,leads_append.mpr ⟨us,hfits,hleads⟩⟩
      | some σ =>
        obtain ⟨_,_,_,_,heq⟩ := hleads₁
        cases heq
    · cases r with
      | none =>
        obtain ⟨_,_,heq⟩ := hleads
        cases heq
      | some σ => exact ⟨w,some σ,.inl ⟨σ,rfl,hx⟩,hleads⟩

lemma comes_sequence_nil : Comes env shell (.sequence x []) ts res ↔ Comes env shell x ts res := by
  constructor
  · rintro ⟨w,r,hallows,hleads⟩
    cases hallows with
    | slot h => cases h
    | slotNext h => cases h
    | sequenceNext hx => exact ⟨w,_,hx,hleads⟩
    | sequenceEnd hx => exact ⟨w,_,hx,hleads⟩
  · rintro ⟨w,r,hx,hleads⟩
    cases r with
    | none => exact ⟨w,none,.sequenceEnd hx,hleads⟩
    | some σ => exact ⟨w,some σ,.sequenceNext hx,hleads⟩

lemma comes_sequence_cons : Comes env shell (.sequence x (y :: ys)) ts res ↔
    (∃ us, Comes env shell x ts (.inl us) ∧ Comes env shell (.sequence y ys) us res) ∨
      ∃ l, res = .inr l ∧ Comes env shell x ts res := by
  rw [← comes_behind, Comes]
  refine exists_congr fun w => exists_congr fun r => and_congr_left fun _ => ⟨fun hallows => ?_,?_⟩
  · cases hallows with
    | slot h => cases h
    | slotNext h => cases h
    | sequenceNext hx => exact .inl ⟨_,rfl,hx⟩
    | sequence hx hys => exact .inr ⟨_,_,rfl,hx,hys⟩
  · rintro (⟨σ,rfl,hx⟩ | ⟨w₁,w₂,rfl,hx,hys⟩)
    · exact .sequenceNext hx
    · exact .sequence hx hys

lemma comes_many1 : Comes env shell (.many1 x) ts res ↔
    (∃ us, Comes env shell x ts (.inl us) ∧ Comes env shell (.many x) us res) ∨
      ∃ l, res = .inr l ∧ Comes env shell x ts res := by
  rw [← comes_behind, Comes]
  refine exists_congr fun w => exists_congr fun r => and_congr_left fun _ => ⟨fun hallows => ?_,?_⟩
  · cases hallows with
    | slot h => cases h
    | slotNext h => cases h
    | many1Next hx => exact .inl ⟨_,rfl,hx⟩
    | many1 hx hxs => exact .inr ⟨_,_,rfl,hx,hxs⟩
  · rintro (⟨σ,rfl,hx⟩ | ⟨w₁,w₂,rfl,hx,hxs⟩)
    · exact .many1Next hx
    · exact .many1 hx hxs

lemma comes_many : Comes env shell (.many x) ts res ↔ Comes env shell (.many1 x) ts res ∨ res = .inl ts := by
  constructor
  · rintro ⟨w,r,hallows,hleads⟩
    cases hallows with
    | slot h => cases h
    | slotNext h => cases h
    | manyEnd => exact .inr (leads_nil.mp hleads)
    | manyNext hx => exact .inl ⟨w,_,.many1Next hx,hleads⟩
    | many hx hxs => exact .inl ⟨_,r,.many1 hx hxs,hleads⟩
  · rintro (⟨w,r,hallows,hleads⟩ | rfl)
    · cases hallows with
      | slot h => cases h
      | slotNext h => cases h
      | many1Next hx => exact ⟨w,_,.manyNext hx,hleads⟩
      | many1 hx hxs => exact ⟨_,r,.many hx hxs,hleads⟩
    · exact ⟨[],none,.manyEnd,leads_nil.mpr rfl⟩

end Usages

section Evaluation
variable {env : Environment} {shell : Word → Word → List Word} {u x y : Usage} {xs ys : List Usage} {ts : List Word}
  {res : List Word ⊕ List Word} {n m : ℕ}

lemma eval_slot {σ : Slot} (h : env.slot u = some σ) (n : ℕ) : eval shell env (n + 1) u = σ.completer shell := by
  cases u with
  | primitive p =>
    obtain rfl := Option.some.inj h
    cases p <;> rfl
  | shellCommand s =>
    obtain rfl := Option.some.inj h
    rfl
  | var s =>
    simp only [Environment.slot] at h
    split_ifs at h with hnone
    obtain rfl := Option.some.inj h
    rw [eval, Option.isNone_iff_eq_none.mp hnone]
    rfl
  | _ => cases h

/-- A sequence is its first part, followed by the others. -/
lemma eval_sequence_cons {rs : List (List Word ⊕ List Word)} : eval shell env (n + 1) (.sequence x (y :: ys)) ts = .ok rs ↔
    (eval shell env n x).follow (eval shell env (n + 1) (.sequence y ys)) ts = .ok rs := by
  rw [eval, eval, foldl1, foldl1, List.map_cons, List.foldl_cons, Branching.foldl_follow]

lemma eval_sequence_nil (n : ℕ) (x : Usage) : eval shell env (n + 1) (.sequence x []) = eval shell env n x := rfl

/-- More levels do not change what a usage comes to. -/
lemma eval_mono (h : n ≤ m) : (eval shell env n u).Below (eval shell env m u) := by
  induction n generalizing m u with
  | zero =>
    intro s rs hrs
    cases hrs
  | succ n ih =>
    obtain ⟨m,rfl⟩ := Nat.exists_eq_succ_of_ne_zero (Nat.ne_of_gt (Nat.zero_lt_of_lt h))
    have hle : n ≤ m := Nat.le_of_succ_le_succ h
    have hrefl : ∀ c : Completer, c.Below c := fun _ _ _ h => h
    cases u with
    | primitive p => exact hrefl _
    | shellCommand s => exact hrefl _
    | choice x xs => exact Branching.foldl_mono Branching.both_mono (fun _ => ih hle) (ih hle) xs
    | sequence x xs => exact Branching.foldl_mono Branching.follow_mono (fun _ => ih hle) (ih hle) xs
    | many x => exact Branching.repeated_mono (ih hle) hle
    | many1 x => exact Branching.follow_mono (ih hle) (Branching.repeated_mono (ih hle) hle)
    | optional x => exact Branching.both_mono (ih hle) (hrefl _)
    | var s =>
      simp only [eval]
      cases env.lookup (.varName s) with
      | none => exact hrefl _
      | some u => exact ih hle

/-- A part that is repeated, in so many rounds. -/
lemma yields_many (hx : ∀ ts res, Returns (eval shell env n x ts) →
      ((eval shell env n x).Yields ts res ↔ Comes env shell x ts res))
    (h : Returns (many m (eval shell env n x) ts)) :
    (many m (eval shell env n x)).Yields ts res ↔ Comes env shell (.many x) ts res := by
  induction m generalizing ts res with
  | zero => exact absurd h (not_returns_error _)
  | succ m ih =>
    obtain ⟨hfirst,hrest⟩ := Branching.returns_repeated_succ.mp h
    have hmore : (∃ us, (eval shell env n x).Yields ts (.inl us) ∧ (many m (eval shell env n x)).Yields us res) ↔
        ∃ us, Comes env shell x ts (.inl us) ∧ Comes env shell (.many x) us res := by
      refine exists_congr fun us => ?_
      rw [← hx ts _ hfirst]
      exact and_congr_right fun hus => ih (hrest us hus)
    rw [many, Branching.yields_repeated_succ h, ← many, hmore, hx ts res hfirst, comes_many, comes_many1, or_assoc]

/-- The parts of a sequence. -/
lemma yields_sequence (hx : ∀ u ts res, Returns (eval shell env n u ts) →
      ((eval shell env n u).Yields ts res ↔ Comes env shell u ts res))
    (h : Returns (eval shell env (n + 1) (.sequence x xs) ts)) :
    (eval shell env (n + 1) (.sequence x xs)).Yields ts res ↔ Comes env shell (.sequence x xs) ts res := by
  induction xs generalizing x ts res with
  | nil =>
    rw [eval_sequence_nil] at h ⊢
    rw [hx x ts res h, comes_sequence_nil]
  | cons y ys ih =>
    have hbelow : (eval shell env (n + 1) (.sequence x (y :: ys))).Below
        ((eval shell env n x).follow (eval shell env (n + 1) (.sequence y ys))) := fun _ _ => eval_sequence_cons.mp
    have hfollow := hbelow.returns h
    obtain ⟨hfirst,hrest⟩ := Branching.returns_follow.mp hfollow
    rw [hbelow.yields_iff h, Branching.yields_follow hfollow, comes_sequence_cons, hx x ts res hfirst]
    refine or_congr_left (exists_congr fun us => ?_)
    rw [← hx x ts _ hfirst]
    exact and_congr_right fun hus => ih (hrest us hus)

/-- What a line comes to, if the evaluation of the usage comes to an end, is what the usage allows. -/
theorem yields_eval (h : Returns (eval shell env n u ts)) :
    (eval shell env n u).Yields ts res ↔ Comes env shell u ts res := by
  induction n generalizing u ts res with
  | zero => exact absurd h (not_returns_error _)
  | succ n ih =>
    cases hslot : env.slot u with
    | some σ => rw [eval_slot hslot, comes_slot hslot]
    | none =>
      cases u with
      | primitive p => cases hslot
      | shellCommand s => cases hslot
      | choice x xs =>
        have hall := Branching.returns_foldl_both.mp h
        rw [eval, foldl1, Branching.yields_foldl_both h, comes_choice, ← List.map_cons]
        rw [← List.map_cons] at hall
        simp only [List.mem_map, exists_exists_and_eq_and]
        refine exists_congr fun u => and_congr_right fun hu => ih (hall _ (List.mem_map_of_mem hu))
      | sequence x xs => exact yields_sequence (fun _ _ _ => ih) h
      | many x => exact yields_many (fun _ _ => ih) h
      | many1 x =>
        obtain ⟨hfirst,hrest⟩ := Branching.returns_follow.mp h
        rw [eval, many1, Branching.yields_follow h, comes_many1, ih hfirst]
        refine or_congr_left (exists_congr fun us => ?_)
        rw [← ih hfirst]
        exact and_congr_right fun hus => yields_many (fun _ _ => ih) (hrest us hus)
      | optional x =>
        obtain ⟨hfirst,-⟩ := Branching.returns_both.mp h
        rw [eval, optional, Branching.yields_both h, comes_optional, ih hfirst, continueOn, Branching.yields_stay]
      | var s =>
        cases hlookup : env.lookup (.varName s) with
        | none => simp [Environment.slot, hlookup] at hslot
        | some u =>
          rw [comes_var hlookup]
          simp only [eval, hlookup] at h ⊢
          exact ih h

end Evaluation

end Xctools.Compleat
