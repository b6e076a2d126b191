import Mathlib.Logic.Basic
import Mathlib.Data.List.Basic

/-! Outcomes of C code. A function of the source either returns a value or stops the process:
it reads NULL, it reads or frees a pointer that no longer owns memory, it leaves a fixed-size
table, it calls exit, or it never comes back. -/
namespace Xctools.Machine
universe u v

/-- Why a C function did not return. -/
inductive Stop
  | null
  | wild
  | bounds
  | exit
  | loop
  deriving DecidableEq, Repr

/-- A C function's result, or the reason why there is none. -/
abbrev Outcome (α : Type*) := Except Stop α

/-- A C pointer to a value: NULL, owning memory, or dangling (freed, or never set). -/
inductive Ptr (α : Type*)
  | null
  | live (value : α)
  | wild
  deriving DecidableEq, Repr

/-- A C string. -/
abbrev CStr := Ptr String

namespace Ptr
variable {α : Type*}

/-- Reading through a pointer. -/
def read : Ptr α → Outcome α
  | null => .error .null
  | live a => .ok a
  | wild => .error .wild

/-- `free`: releasing NULL does nothing, releasing twice stops the process. Every copy of the
pointer dangles afterwards. -/
def free : Ptr α → Outcome (Ptr α)
  | null => .ok null
  | live _ => .ok wild
  | wild => .error .wild

/-- What is left of a pointer after `free`. -/
def released : Ptr α → Ptr α
  | live _ => wild
  | p => p

/-- The pointer that stands in a slot filled with `q` over an older `p`. -/
def overlaid : Ptr α → Ptr α → Ptr α
  | p, null => p
  | _, q => q

/-- The test `if (p)`. -/
def IsSet (p : Ptr α) : Prop := p ≠ null

instance (p : Ptr α) : Decidable p.IsSet :=
  match p with
  | null => .isFalse (fun h => h rfl)
  | live _ => .isTrue (fun h => nomatch h)
  | wild => .isTrue (fun h => nomatch h)

/-- NULL and owning pointers may be passed to `free`. -/
def Sound (p : Ptr α) : Prop := p ≠ wild

theorem free_of_sound {p : Ptr α} (h : p.Sound) : p.free = .ok p.released := by
  cases p with
  | null => rfl
  | live a => rfl
  | wild => exact absurd rfl h

@[simp] theorem free_wild : (wild : Ptr α).free = .error .wild := rfl

@[simp] theorem read_live (a : α) : (live a).read = .ok a := rfl
@[simp] theorem read_null : (null : Ptr α).read = .error .null := rfl
@[simp] theorem read_wild : (wild : Ptr α).read = .error .wild := rfl
@[simp] theorem not_isSet_null : ¬ (null : Ptr α).IsSet := fun h => h rfl
@[simp] theorem isSet_live (a : α) : (live a).IsSet := fun h => nomatch h
@[simp] theorem isSet_wild : (wild : Ptr α).IsSet := fun h => nomatch h
@[simp] theorem sound_null : (null : Ptr α).Sound := fun h => nomatch h
@[simp] theorem sound_live (a : α) : (live a).Sound := fun h => nomatch h
@[simp] theorem not_sound_wild : ¬ (wild : Ptr α).Sound := fun h => h rfl

@[simp] theorem isSet_released (p : Ptr α) : p.released.IsSet ↔ p.IsSet := by
  cases p <;> simp [released]

theorem released_null_or_wild (p : Ptr α) : p.released = null ∨ p.released = wild := by
  cases p <;> simp [released]

theorem overlaid_eq_right_iff (p q : Ptr α) : p.overlaid q = q ↔ (p.IsSet → q.IsSet) := by
  cases p <;> cases q <;> simp [overlaid]

theorem sound_overlaid_iff {p q : Ptr α} (hp : p = null ∨ p = wild) (hq : q.Sound) :
    (p.overlaid q).Sound ↔ (p.IsSet → q.IsSet) := by
  rcases hp with rfl | rfl <;> cases q <;> simp_all [overlaid]

end Ptr

/-- A sequence of two computations returns exactly when both do. -/
theorem bind_eq_ok {κ : Type u} {α β : Type v} {x : Except κ α} {f : α → Except κ β} {b : β} :
    (x >>= f) = .ok b ↔ ∃ a, x = .ok a ∧ f a = .ok b := by
  cases x <;> simp [bind, Except.bind]

@[simp] theorem ok_bind {κ : Type u} {α β : Type v} (a : α) (f : α → Except κ β) :
    ((Except.ok a : Except κ α) >>= f) = f a := rfl

@[simp] theorem error_bind {κ : Type u} {α β : Type v} (e : κ) (f : α → Except κ β) :
    ((Except.error e : Except κ α) >>= f) = .error e := rfl

@[simp] theorem pure_eq_ok {κ : Type u} {α : Type v} (a : α) : (pure a : Except κ α) = .ok a := rfl

/-- What was evaluated of a result is so of the result. -/
theorem map_toOption_eq_some {κ : Type u} {α β : Type v} {x : Except κ α} {f : α → β} {b : β} :
    x.toOption.map f = some b ↔ ∃ a, x = .ok a ∧ f a = b := by
  cases x <;> simp [Except.toOption]

/-- The computation comes to a result. -/
def Returns {κ : Type u} {α : Type v} (x : Except κ α) : Prop := ∃ a, x = .ok a

@[simp] theorem returns_ok {κ : Type u} {α : Type v} (a : α) : Returns (.ok a : Except κ α) := ⟨a,rfl⟩

@[simp] theorem not_returns_error {κ : Type u} {α : Type v} (e : κ) :
    ¬ Returns (.error e : Except κ α) := by
  rintro ⟨a,ha⟩
  cases ha

theorem returns_bind_iff {κ : Type u} {α β : Type v} {x : Except κ α} {f : α → Except κ β} :
    Returns (x >>= f) ↔ ∃ a, x = .ok a ∧ Returns (f a) := by
  cases x with
  | error e => simp
  | ok a => simp

@[simp] theorem returns_bind_ok {κ : Type u} {α β : Type v} {x : Except κ α} {g : α → β} :
    Returns (x >>= fun a => .ok (g a)) ↔ Returns x := by
  cases x <;> simp

theorem returns_mapM_iff {κ : Type u} {α : Type*} {β : Type v} {f : α → Except κ β} {l : List α} :
    Returns (l.mapM f) ↔ ∀ x ∈ l, Returns (f x) := by
  induction l with
  | nil => simp
  | cons x l ih =>
    rw [List.mapM_cons, returns_bind_iff, List.forall_mem_cons, ← ih]
    constructor
    · rintro ⟨a,ha,hl⟩
      exact ⟨⟨a,ha⟩,returns_bind_ok.mp hl⟩
    · rintro ⟨⟨a,ha⟩,hl⟩
      exact ⟨a,ha,returns_bind_ok.mpr hl⟩

/-- The results of a loop over a list, entry by entry. -/
theorem mem_mapM_iff {κ : Type u} {α : Type*} {β : Type v} {f : α → Except κ β} {l : List α}
    {l' : List β} (h : l.mapM f = .ok l') {y : β} : y ∈ l' ↔ ∃ x ∈ l, f x = .ok y := by
  induction l generalizing l' with
  | nil =>
    obtain rfl := Except.ok.inj h
    simp
  | cons x l ih =>
    rw [List.mapM_cons] at h
    obtain ⟨b,hb,h⟩ := bind_eq_ok.mp h
    obtain ⟨bs,hbs,h⟩ := bind_eq_ok.mp h
    obtain rfl := Except.ok.inj h
    rw [List.mem_cons, ih hbs]
    simp [hb, eq_comm]

/-- A loop over a list that returns from every entry. -/
theorem mapM_eq_ok {κ : Type u} {α : Type*} {β : Type v} {f : α → Except κ β} {g : α → β} {l : List α}
    (h : ∀ x ∈ l, f x = .ok (g x)) : l.mapM f = .ok (l.map g) := by
  induction l with
  | nil => rfl
  | cons x l ih =>
    obtain ⟨hx,hl⟩ := List.forall_mem_cons.mp h
    rw [List.mapM_cons, hx, ok_bind, ih hl]
    rfl

/-- What is known of each result is known of the list of them. -/
theorem map_mapM_eq {κ : Type u} {α γ : Type*} {β : Type v} {f : α → Except κ β} {g : β → γ} {k : α → γ}
    (hf : ∀ x y, f x = .ok y → g y = k x) {l : List α} {l' : List β} (h : l.mapM f = .ok l') :
    l'.map g = l.map k := by
  induction l generalizing l' with
  | nil =>
    obtain rfl := Except.ok.inj h
    rfl
  | cons x l ih =>
    rw [List.mapM_cons] at h
    obtain ⟨b,hb,h⟩ := bind_eq_ok.mp h
    obtain ⟨bs,hbs,h⟩ := bind_eq_ok.mp h
    obtain rfl := Except.ok.inj h
    rw [List.map_cons, List.map_cons, hf x b hb, ih hbs]

end Xctools.Machine
