import Mathlib.Data.List.Nodup

/-! Lists that are read by a key. The first entry of a key is the one that counts; it can be looked up,
changed in place and taken out, and new entries come at the end. -/
namespace Xctools.Machine

section Keyed
universe u v
variable {α : Type u} {κ : Type v} [DecidableEq κ] (key : α → κ)

/-- The first entry of a key. -/
def lookupKey (k : κ) (l : List α) : Option α := l.find? fun x => key x = k

/-- The list with the first entry of a key changed. -/
def updateFirst (k : κ) (f : α → α) : List α → List α
  | [] => []
  | x :: l => if key x = k then f x :: l else x :: updateFirst k f l

variable {key} {k : κ} {f : α → α} {l : List α}

@[simp] theorem lookupKey_nil : lookupKey key k [] = none := rfl

theorem lookupKey_cons (x : α) :
    lookupKey key k (x :: l) = if key x = k then some x else lookupKey key k l := by
  unfold lookupKey
  split_ifs with h
  · exact List.find?_cons_of_pos (by simpa using h)
  · exact List.find?_cons_of_neg (by simpa using h)

theorem key_of_lookupKey {x : α} (h : lookupKey key k l = some x) : key x = k := by
  simpa using List.find?_some h

theorem mem_of_lookupKey {x : α} (h : lookupKey key k l = some x) : x ∈ l :=
  List.mem_of_find?_eq_some h

theorem lookupKey_eq_none_iff : lookupKey key k l = none ↔ k ∉ l.map key := by
  simp [lookupKey]

/-- Entries of distinct keys are all found. -/
theorem lookupKey_of_mem (h : (l.map key).Nodup) {x : α} (hx : x ∈ l) :
    lookupKey key (key x) l = some x := by
  cases hl : lookupKey key (key x) l with
  | none => exact absurd (List.mem_map_of_mem hx) (lookupKey_eq_none_iff.mp hl)
  | some y => rw [List.inj_on_of_nodup_map h (mem_of_lookupKey hl) hx (key_of_lookupKey hl)]

/-- A new entry is found under its key if there was none before. -/
theorem lookupKey_append_singleton (x : α) :
    lookupKey key k (l ++ [x]) = (lookupKey key k l).or (if key x = k then some x else none) := by
  rw [lookupKey, List.find?_append]
  congr 1
  exact (lookupKey_cons (l := []) x)

theorem lookupKey_updateFirst (hf : ∀ x, key (f x) = key x) (k' : κ) :
    lookupKey key k' (updateFirst key k f l) =
      if k' = k then (lookupKey key k l).map f else lookupKey key k' l := by
  induction l with
  | nil => simp [updateFirst]
  | cons x l ih =>
    unfold updateFirst
    by_cases hx : key x = k
    · by_cases hk : k' = k
      · simp [hx, hk, lookupKey_cons, hf]
      · have hx' : key x ≠ k' := fun h => hk (h.symm.trans hx)
        simp [hx, hk, lookupKey_cons, hf, Ne.symm hk]
    · rw [if_neg hx, lookupKey_cons, ih]
      by_cases hk : k' = k
      · rw [if_pos hk, if_pos hk, hk, if_neg hx, lookupKey_cons, if_neg hx]
      · rw [if_neg hk, if_neg hk, lookupKey_cons]

theorem map_key_updateFirst (hf : ∀ x, key (f x) = key x) :
    (updateFirst key k f l).map key = l.map key := by
  induction l with
  | nil => rfl
  | cons x l ih =>
    unfold updateFirst
    split_ifs with hx
    · rw [List.map_cons, List.map_cons, hf]
    · rw [List.map_cons, List.map_cons, ih]

/-- Taking out the entry of a key, when keys are distinct. -/
theorem lookupKey_eraseP (h : (l.map key).Nodup) (k' : κ) :
    lookupKey key k' (l.eraseP fun x => key x = k) =
      if k' = k then none else lookupKey key k' l := by
  induction l with
  | nil => simp
  | cons x l ih =>
    rw [List.map_cons, List.nodup_cons] at h
    by_cases hx : key x = k
    · rw [List.eraseP_cons_of_pos (by simpa using hx)]
      split_ifs with hk
      · rw [lookupKey_eq_none_iff, hk, ← hx]
        exact h.1
      · rw [lookupKey_cons, if_neg fun he => hk (he.symm.trans hx)]
    · rw [List.eraseP_cons_of_neg (by simpa using hx), lookupKey_cons, ih h.2, lookupKey_cons]
      by_cases hk : k' = k
      · rw [if_pos hk, if_pos hk, hk, if_neg hx]
      · rw [if_neg hk, if_neg hk]

theorem nodup_map_append_singleton (h : (l.map key).Nodup) {x : α} (hx : lookupKey key (key x) l = none) :
    ((l ++ [x]).map key).Nodup := by
  rw [List.map_append, List.map_singleton]
  exact List.Nodup.append h (List.nodup_singleton _) (by simpa using lookupKey_eq_none_iff.mp hx)

/-- What is folded over entries of distinct keys and touched by the entries of one key only is made by the entry
of that key. -/
theorem get_foldl_of_nodup {σ β : Type*} {step : σ → α → σ} {get : σ → β} {set : α → β → β}
    (hself : ∀ s x, key x = k → get (step s x) = set x (get s))
    (hother : ∀ s x, key x ≠ k → get (step s x) = get s) (hnodup : (l.map key).Nodup) (s : σ) :
    get (l.foldl step s) = ((lookupKey key k l).map fun x => set x (get s)).getD (get s) := by
  induction l generalizing s with
  | nil => rfl
  | cons x l ih =>
    obtain ⟨hx,hl⟩ := List.nodup_cons.mp hnodup
    rw [List.foldl_cons, ih hl, lookupKey_cons]
    split_ifs with hkey
    · rw [lookupKey_eq_none_iff.mpr (hkey ▸ hx), hself s x hkey]
      rfl
    · rw [hother s x hkey]

end Keyed

end Xctools.Machine
