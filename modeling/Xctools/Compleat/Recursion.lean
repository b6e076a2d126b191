import Mathlib.Order.WellFounded
import Xctools.Compleat.Grammar

/-! When completion comes to an end. A usage may lead to itself, through variables and through repetition; that does
no harm as long as a word is taken on the way. -/
namespace Xctools.Compleat
open Machine

section Calls
variable (env : Environment)

/-- The evaluation of a usage calls that of another one, behind slots that were gone through. -/
inductive Calls : Usage → List Slot → Usage → Prop
  | var {s : Word} {u : Usage} (h : env.lookup (.varName s) = some u) : Calls (.var s) [] u
  | choice {x u : Usage} {xs : List Usage} (h : u ∈ x :: xs) : Calls (.choice x xs) [] u
  | sequence {x : Usage} {xs : List Usage} : Calls (.sequence x xs) [] x
  | sequenceRest {x y : Usage} {ys : List Usage} {w : List Slot} (hx : Allows env x w none) :
      Calls (.sequence x (y :: ys)) w (.sequence y ys)
  | many {x : Usage} : Calls (.many x) [] x
  | manyAgain {x : Usage} {w : List Slot} (hx : Allows env x w none) : Calls (.many x) w (.many x)
  | many1 {x : Usage} : Calls (.many1 x) [] x
  | many1Again {x : Usage} {w : List Slot} (hx : Allows env x w none) : Calls (.many1 x) w (.many x)
  | optional {x : Usage} : Calls (.optional x) [] x

/-- What the evaluation comes to, at one place of the line or another. -/
def Reaches : Usage → Usage → Prop := Relation.ReflTransGen fun u v => ∃ w, Calls env u w v

/-- Without a word taken in between, one call leads to another for ever. -/
def LeftRecursive (u : Usage) : Prop := ∃ f : ℕ → Usage, f 0 = u ∧ ∀ n, Calls env (f n) [] (f (n + 1))

variable (shell : Word → Word → List Word)

/-- With some number of levels, the evaluation comes to an end. -/
def Completes (u : Usage) (ts : List Word) : Prop := ∃ n, Returns (eval shell env n u ts)

variable {env shell} {u v x y : Usage} {xs ys : List Usage} {w : List Slot} {ts us : List Word} {n m : ℕ}

lemma not_leftRecursive_iff : ¬ LeftRecursive env u ↔ Acc (fun v u => Calls env u [] v) u := by
  rw [LeftRecursive, ← not_iff_not, not_not]
  exact (not_acc_iff_exists_descending_chain (r := fun v u => Calls env u [] v)).symm

lemma completes_choice : Completes env shell (.choice x xs) ts ↔ ∀ u ∈ x :: xs, Completes env shell u ts := by
  constructor
  · rintro ⟨n,hn⟩ u hu
    cases n with
    | zero => exact absurd hn (not_returns_error _)
    | succ n =>
      refine ⟨n,Branching.returns_foldl_both.mp hn _ ?_⟩
      rw [← List.map_cons]
      exact List.mem_map_of_mem hu
  · intro h
    obtain ⟨n,hn⟩ := Branching.exists_common (P := fun n u => Returns (eval shell env n u ts))
      (fun _ _ _ hle hr => (eval_mono hle).returns hr) h
    refine ⟨n + 1,Branching.returns_foldl_both.mpr fun d hd => ?_⟩
    rw [← List.map_cons] at hd
    obtain ⟨u,hu,rfl⟩ := List.mem_map.mp hd
    exact hn u hu

lemma comes_inl : Comes env shell u ts (.inl us) ↔ ∃ w, Allows env u w none ∧ Fits w ts us := by
  constructor
  · rintro ⟨w,r,hallows,hleads⟩
    cases r with
    | none =>
      obtain ⟨us',hfits,heq⟩ := hleads
      obtain rfl := Sum.inl.inj heq
      exact ⟨w,hallows,hfits⟩
    | some σ =>
      obtain ⟨_,_,_,_,heq⟩ := hleads
      cases heq
  · rintro ⟨w,hallows,hfits⟩
    exact ⟨w,none,hallows,us,hfits,rfl⟩

/-- A usage that is evaluated as one behind another comes to an end if the first does, and the second wherever the
first leads. -/
lemma completes_behind {z : Usage} (h : ∀ n rs, eval shell env (n + 1) u ts = .ok rs ↔
      (eval shell env n x).follow (eval shell env (n + 1) z) ts = .ok rs) :
    Completes env shell u ts ↔
      Completes env shell x ts ∧ ∀ w us, Allows env x w none → Fits w ts us → Completes env shell z us := by
  constructor
  · rintro ⟨n,hn⟩
    cases n with
    | zero => exact absurd hn (not_returns_error _)
    | succ n =>
      obtain ⟨rs,hrs⟩ := hn
      obtain ⟨hx,hz⟩ := Branching.returns_follow.mp ⟨rs,(h n rs).mp hrs⟩
      refine ⟨⟨n,hx⟩,fun w us hallows hfits => ⟨n + 1,hz us ?_⟩⟩
      exact (yields_eval hx).mpr (comes_inl.mpr ⟨w,hallows,hfits⟩)
  · rintro ⟨⟨n,hn⟩,hz⟩
    have hrest : ∀ us, (eval shell env n x).Yields ts (.inl us) → Completes env shell z us := by
      intro us hus
      obtain ⟨w,hallows,hfits⟩ := comes_inl.mp ((yields_eval hn).mp hus)
      exact hz w us hallows hfits
    obtain ⟨m,rs,hrs⟩ := Branching.exists_returns_follow (d := fun m => eval shell env m z)
      (fun _ _ hle => eval_mono hle) hn hrest
    have hx : (eval shell env n x).Below (eval shell env (max n m) x) := eval_mono (Nat.le_max_left n m)
    have hz : (eval shell env m z).Below (eval shell env (max n m + 1) z) :=
      eval_mono (Nat.le_succ_of_le (Nat.le_max_right n m))
    exact ⟨max n m + 1,rs,(h _ rs).mpr (Branching.follow_mono hx hz ts rs hrs)⟩

lemma completes_many : Completes env shell (.many x) ts ↔ Completes env shell (.many1 x) ts := by
  constructor
  · rintro ⟨n,hn⟩
    match n with
    | 0 => exact absurd hn (not_returns_error _)
    | 1 => exact absurd hn (not_returns_error _)
    | n + 2 =>
      have hfollow := (Branching.returns_both.mp hn).1
      exact ⟨n + 2,(Branching.follow_mono (fun _ _ h => h)
        (Branching.repeated_mono (fun _ _ h => h) (Nat.le_succ n))).returns hfollow⟩
  · rintro ⟨n,hn⟩
    cases n with
    | zero => exact absurd hn (not_returns_error _)
    | succ n =>
      have hle : (eval shell env n x).Below (eval shell env (n + 1) x) := eval_mono (Nat.le_succ n)
      have hfollow := (Branching.follow_mono hle (Branching.repeated_mono hle (Nat.le_refl n))).returns hn
      exact ⟨n + 2,Branching.returns_both.mpr ⟨hfollow,Branching.returns_stay⟩⟩

lemma completes_slot {σ : Slot} (h : env.slot u = some σ) (ts : List Word) : Completes env shell u ts := by
  refine ⟨1,?_⟩
  rw [eval_slot h]
  exact returns_slot σ ts

lemma completes_of_eval (h : ∀ n, Returns (eval shell env (n + 1) u ts) ↔ Returns (eval shell env n v ts)) :
    Completes env shell u ts ↔ Completes env shell v ts := by
  constructor
  · rintro ⟨n,hn⟩
    cases n with
    | zero => exact absurd hn (not_returns_error _)
    | succ n => exact ⟨n,(h n).mp hn⟩
  · rintro ⟨n,hn⟩
    exact ⟨n + 1,(h n).mpr hn⟩

/-- The evaluation of a usage comes to an end if those that it calls do. -/
theorem completes_iff_calls : Completes env shell u ts ↔
    ∀ w v us, Calls env u w v → Fits w ts us → Completes env shell v us := by
  cases hslot : env.slot u with
  | some σ =>
    refine iff_of_true (completes_slot hslot ts) fun w v us hcalls => ?_
    cases hcalls with
    | var h => simp [Environment.slot, h] at hslot
    | _ => cases hslot
  | none =>
    cases u with
    | primitive p => cases hslot
    | shellCommand s => cases hslot
    | var s =>
      cases hlookup : env.lookup (.varName s) with
      | none => simp [Environment.slot, hlookup] at hslot
      | some u =>
        rw [completes_of_eval (v := u) fun n => by simp only [eval, hlookup]]
        constructor
        · intro h w v us hcalls hfits
          cases hcalls with
          | var hv =>
            obtain rfl := Option.some.inj (hv.symm.trans hlookup)
            obtain rfl := hfits
            exact h
        · exact fun h => h [] u ts (.var hlookup) rfl
    | choice x xs =>
      rw [completes_choice]
      constructor
      · intro h w v us hcalls hfits
        cases hcalls with
        | choice hv =>
          obtain rfl := hfits
          exact h v hv
      · exact fun h v hv => h [] v ts (.choice hv) rfl
    | sequence x xs =>
      cases xs with
      | nil =>
        rw [completes_of_eval (v := x) fun n => by rw [eval_sequence_nil]]
        constructor
        · intro h w v us hcalls hfits
          cases hcalls with
          | sequence =>
            obtain rfl := hfits
            exact h
        · exact fun h => h [] x ts .sequence rfl
      | cons y ys =>
        rw [completes_behind (x := x) (z := .sequence y ys) fun n rs => eval_sequence_cons]
        constructor
        · rintro ⟨hx,hrest⟩ w v us hcalls hfits
          cases hcalls with
          | sequence =>
            obtain rfl := hfits
            exact hx
          | sequenceRest hw => exact hrest w us hw hfits
        · exact fun h => ⟨h [] x ts .sequence rfl,fun w us hw hfits => h w _ us (.sequenceRest hw) hfits⟩
    | many x =>
      rw [completes_many, completes_behind (x := x) (z := .many x) fun n rs => Iff.rfl]
      constructor
      · rintro ⟨hx,hrest⟩ w v us hcalls hfits
        cases hcalls with
        | many =>
          obtain rfl := hfits
          exact hx
        | manyAgain hw => exact hrest w us hw hfits
      · exact fun h => ⟨h [] x ts .many rfl,fun w us hw hfits => h w _ us (.manyAgain hw) hfits⟩
    | many1 x =>
      rw [completes_behind (x := x) (z := .many x) fun n rs => Iff.rfl]
      constructor
      · rintro ⟨hx,hrest⟩ w v us hcalls hfits
        cases hcalls with
        | many1 =>
          obtain rfl := hfits
          exact hx
        | many1Again hw => exact hrest w us hw hfits
      · exact fun h => ⟨h [] x ts .many1 rfl,fun w us hw hfits => h w _ us (.many1Again hw) hfits⟩
    | optional x =>
      rw [completes_of_eval (v := x) fun n => by simp [eval, optional, Branching.returns_both, continueOn]]
      constructor
      · intro h w v us hcalls hfits
        cases hcalls with
        | optional =>
          obtain rfl := hfits
          exact h
      · exact fun h => h [] x ts .optional rfl

end Calls

section Recursion
variable {env : Environment} {shell : Word → Word → List Word} {u v x : Usage} {xs : List Usage} {w : List Slot}
  {ts us : List Word} {n m : ℕ}

/-- Words that go through slots are taken from the line. -/
lemma Fits.length (h : Fits w ts us) : us.length + w.length = ts.length := by
  induction w generalizing ts with
  | nil =>
    obtain rfl := h
    rfl
  | cons σ w ih =>
    cases ts with
    | nil => exact h.elim
    | cons t ts =>
      have htail := ih h.2
      simp only [List.length_cons]
      omega

/-- A word that a slot admits. -/
def Slot.filler : Slot → Word
  | word s => s
  | _ => []

/-- In front of other words, slots can be filled. -/
lemma fits_filler (hts : ts ≠ []) (w : List Slot) : Fits w (w.map Slot.filler ++ ts) ts := by
  induction w with
  | nil => rfl
  | cons σ w ih =>
    have hne : w.map Slot.filler ++ ts ≠ [] := fun h => hts (List.append_eq_nil_iff.mp h).2
    exact ⟨⟨by cases σ <;> simp [Slot.Admits, Slot.filler],.inr hne⟩,ih⟩

/-- Where no usage is left recursive, every evaluation comes to an end: a call takes words, or there are only so many
of them in a row. -/
lemma completes_of_not_leftRecursive (h : ∀ v, Reaches env u v → ¬ LeftRecursive env v) (hv : Reaches env u v)
    (ts : List Word) : Completes env shell v ts := by
  induction hlen : ts.length using Nat.strong_induction_on generalizing v ts with
  | _ len ihlen =>
    have hacc := not_leftRecursive_iff.mp (h v hv)
    induction hacc generalizing ts with
    | intro v _ ihacc =>
      refine completes_iff_calls.mpr fun w v' us hcalls hfits => ?_
      have hreach : Reaches env u v' := hv.tail ⟨w,hcalls⟩
      have hlength := hfits.length
      cases w with
      | nil =>
        obtain rfl := hfits
        exact ihacc v' hcalls hreach us hlen
      | cons σ w =>
        rw [List.length_cons] at hlength
        exact ihlen us.length (by omega) hreach us rfl

/-- What a line of several words leads to is evaluated on other lines. -/
lemma completes_of_reaches (h : ∀ ts, Completes env shell u ts) (hv : Reaches env u v) (hts : ts ≠ []) :
    Completes env shell v ts := by
  induction hv generalizing ts with
  | refl => exact h ts
  | tail _ hcalls ih =>
    obtain ⟨w,hcalls⟩ := hcalls
    have hne : w.map Slot.filler ++ ts ≠ [] := fun h => hts (List.append_eq_nil_iff.mp h).2
    exact completes_iff_calls.mp (ih hne) w _ ts hcalls (fits_filler hts w)

/-- A part that is repeated takes a word each time. -/
lemma not_allows_nil (h : Returns (many m (eval shell env n x) ts)) (hx : Returns (eval shell env n x ts)) :
    ¬ Allows env x [] none := by
  intro hallows
  have hcomes : Comes env shell x ts (.inl ts) := comes_inl.mpr ⟨[],hallows,rfl⟩
  exact Branching.not_returns_repeated ((yields_eval hx).mpr hcomes) h

lemma acc_sequence (hx : ∀ u ts, Returns (eval shell env n u ts) → Acc (fun v u => Calls env u [] v) u)
    (h : Returns (eval shell env (n + 1) (.sequence x xs) ts)) : Acc (fun v u => Calls env u [] v) (.sequence x xs) := by
  induction xs generalizing x with
  | nil =>
    rw [eval_sequence_nil] at h
    refine ⟨_,fun v hcalls => ?_⟩
    cases hcalls with
    | sequence => exact hx _ ts h
  | cons y ys ih =>
    obtain ⟨rs,hrs⟩ := h
    obtain ⟨hfirst,hrest⟩ := Branching.returns_follow.mp ⟨rs,eval_sequence_cons.mp hrs⟩
    refine ⟨_,fun v hcalls => ?_⟩
    cases hcalls with
    | sequence => exact hx _ ts hfirst
    | sequenceRest hw => exact ih (hrest ts ((yields_eval hfirst).mpr (comes_inl.mpr ⟨[],hw,rfl⟩)))

/-- An evaluation that comes to an end is not left recursive. -/
lemma acc_of_returns (h : Returns (eval shell env n u ts)) : Acc (fun v u => Calls env u [] v) u := by
  induction n generalizing u ts with
  | zero => exact absurd h (not_returns_error _)
  | succ n ih =>
    cases u with
    | primitive p => exact ⟨_,fun v hcalls => by cases hcalls⟩
    | shellCommand s => exact ⟨_,fun v hcalls => by cases hcalls⟩
    | var s =>
      refine ⟨_,fun v hcalls => ?_⟩
      cases hcalls with
      | var hv =>
        simp only [eval, hv] at h
        exact ih h
    | choice x xs =>
      refine ⟨_,fun v hcalls => ?_⟩
      cases hcalls with
      | choice hv =>
        have hmem : eval shell env n v ∈ eval shell env n x :: xs.map (eval shell env n) := by
          rw [← List.map_cons]
          exact List.mem_map_of_mem hv
        exact ih (Branching.returns_foldl_both.mp h _ hmem)
    | sequence x xs => exact acc_sequence (fun _ _ => ih) h
    | many x =>
      cases n with
      | zero => exact absurd h (not_returns_error _)
      | succ n =>
        have hx : Returns (eval shell env (n + 1) x ts) := (Branching.returns_repeated_succ.mp h).1
        refine ⟨_,fun v hcalls => ?_⟩
        cases hcalls with
        | many => exact ih hx
        | manyAgain hw => exact absurd hw (not_allows_nil h hx)
    | many1 x =>
      obtain ⟨hx,hrest⟩ := Branching.returns_follow.mp h
      refine ⟨_,fun v hcalls => ?_⟩
      cases hcalls with
      | many1 => exact ih hx
      | many1Again hw =>
        have hyields := (yields_eval hx).mpr (comes_inl.mpr ⟨[],hw,rfl⟩)
        exact absurd hw (not_allows_nil (hrest ts hyields) hx)
    | optional x =>
      refine ⟨_,fun v hcalls => ?_⟩
      cases hcalls with
      | optional => exact ih (Branching.returns_both.mp h).1

/-- Completion by a usage comes to an end on every line if and only if no usage that it leads to is left recursive. -/
theorem completes_iff_not_leftRecursive :
    (∀ ts, Completes env shell u ts) ↔ ∀ v, Reaches env u v → ¬ LeftRecursive env v := by
  constructor
  · intro h v hv
    obtain ⟨n,hn⟩ := completes_of_reaches h hv (List.cons_ne_nil [] [])
    exact not_leftRecursive_iff.mpr (acc_of_returns hn)
  · exact fun h ts => completes_of_not_leftRecursive h .refl ts

end Recursion

end Xctools.Compleat
