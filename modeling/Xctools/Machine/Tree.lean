import Xctools.Machine.Keyed

/-! Trees that are read and written by paths: a subtree can be put in the place of what stands at a path,
taken out, and read. -/
namespace Xctools.Machine

section Entries
universe u v
variable {κ : Type u} {α : Type v} [DecidableEq κ]

/-- The list with an entry for a key: in the place of the one it has, or at the end. -/
def setKey (k : κ) (a : α) (l : List (κ × α)) : List (κ × α) :=
  if (lookupKey Prod.fst k l).isSome then updateFirst Prod.fst k (fun _ => (k, a)) l else l ++ [(k, a)]

variable {k k' : κ} {a : α} {l : List (κ × α)}

theorem setKey_of_notMem (h : k ∉ l.map Prod.fst) : setKey k a l = l ++ [(k, a)] := by
  rw [setKey, lookupKey_eq_none_iff.mpr h]
  rfl

/-- Writing what is there changes nothing. -/
theorem setKey_of_mem (hl : (l.map Prod.fst).Nodup) (h : (k, a) ∈ l) : setKey k a l = l := by
  have hfound : lookupKey Prod.fst k l = some (k, a) := lookupKey_of_mem hl h
  rw [setKey, hfound, Option.isSome_some, if_pos rfl]
  clear hfound
  induction l with
  | nil => cases h
  | cons x l ih =>
    rw [List.map_cons, List.nodup_cons] at hl
    rcases List.mem_cons.mp h with rfl | h
    · rw [updateFirst, if_pos rfl]
    · have hx : x.1 ≠ k := fun he => hl.1 (he ▸ List.mem_map_of_mem h)
      rw [updateFirst, if_neg hx, ih hl.2 h]

/-- The only key that can be new is the one that is written. -/
theorem mem_keys_setKey (h : k' ∈ (setKey k a l).map Prod.fst) : k' = k ∨ k' ∈ l.map Prod.fst := by
  unfold setKey at h
  split_ifs at h with hfound
  · obtain ⟨entry,hentry,rfl⟩ := List.mem_map.mp h
    clear h hfound
    induction l with
    | nil => cases hentry
    | cons x l ih =>
      unfold updateFirst at hentry
      split_ifs at hentry with hx
      · rcases List.mem_cons.mp hentry with rfl | hentry
        · exact .inl rfl
        · exact .inr (List.mem_map_of_mem (List.mem_cons_of_mem _ hentry))
      · rcases List.mem_cons.mp hentry with rfl | hentry
        · exact .inr (List.mem_map_of_mem List.mem_cons_self)
        · exact (ih hentry).imp_right (List.mem_cons_of_mem _)
  · rw [List.map_append, List.mem_append] at h
    exact h.symm.imp_left List.mem_singleton.mp

end Entries

/-- A tree with keys on its branches and values at its leaves. -/
inductive Tree (κ τ : Type)
  | leaf (value : τ)
  | node (children : List (κ × Tree κ τ))

namespace Tree
variable {κ τ : Type} [DecidableEq κ]

/-- The branches of a tree. -/
def children : Tree κ τ → List (κ × Tree κ τ)
  | leaf _ => []
  | node children => children

/-- The subtree below a key. -/
def child (t : Tree κ τ) (k : κ) : Option (Tree κ τ) := (lookupKey Prod.fst k t.children).map Prod.snd

/-- What stands at a path. -/
def get : Tree κ τ → List κ → Option (Tree κ τ)
  | t, [] => some t
  | t, k :: path => (t.child k).bind fun s => s.get path

/-- A tree with another subtree at a path. -/
def inject (value : Tree κ τ) : Tree κ τ → List κ → Tree κ τ
  | _, [] => value
  | t, k :: path => node (setKey k (inject value ((t.child k).getD (node [])) path) t.children)

/-- A tree without what stands at a path. -/
def rm : Tree κ τ → List κ → Tree κ τ
  | _, [] => node []
  | t, k :: path =>
    match t.child k with
    | none => t
    | some s =>
      if path = [] then node (t.children.eraseP fun entry => entry.1 = k)
      else node (setKey k (s.rm path) t.children)

variable {t value : Tree κ τ} {k k' : κ} {path : List κ}

theorem child_of_mem {s : Tree κ τ} (h : (t.children.map Prod.fst).Nodup) (hmem : (k, s) ∈ t.children) :
    t.child k = some s := by
  have hfound : lookupKey Prod.fst k t.children = some (k, s) := lookupKey_of_mem h hmem
  rw [child, hfound, Option.map_some]

theorem get_singleton : t.get [k] = t.child k := by
  rw [get]
  cases t.child k with
  | none => rfl
  | some s => rw [Option.bind_some, get]

theorem children_inject_singleton : (inject value t [k]).children = setKey k value t.children := by
  rw [inject, inject]
  rfl

theorem children_rm_singleton : (t.rm [k]).children = t.children.eraseP fun entry => entry.1 = k := by
  unfold rm child
  cases h : lookupKey Prod.fst k t.children with
  | none =>
    refine (List.eraseP_of_forall_not fun entry hentry => ?_).symm
    have hne : entry.1 ≠ k := fun he => lookupKey_eq_none_iff.mp h (he ▸ List.mem_map_of_mem hentry)
    simpa using hne
  | some entry => rfl

theorem children_rm_nil : (t.rm []).children = [] := by
  rw [rm]
  rfl

/-- What is written below a path adds at most the first key of it. -/
theorem mem_keys_inject (h : k' ∈ (inject value t (k :: path)).children.map Prod.fst) :
    k' = k ∨ k' ∈ t.children.map Prod.fst := by
  rw [inject] at h
  exact mem_keys_setKey h

/-- What is removed adds none. -/
theorem mem_keys_rm (h : k' ∈ (t.rm path).children.map Prod.fst) : k' ∈ t.children.map Prod.fst := by
  cases path with
  | nil =>
    rw [children_rm_nil] at h
    cases h
  | cons k path =>
    unfold rm child at h
    cases hfound : lookupKey Prod.fst k t.children with
    | none =>
      simp only [hfound, Option.map_none] at h
      exact h
    | some entry =>
      simp only [hfound, Option.map_some] at h
      split_ifs at h
      · exact (List.eraseP_sublist.map Prod.fst).mem h
      · rcases mem_keys_setKey h with rfl | hmem
        · exact List.mem_map.mpr ⟨entry,mem_of_lookupKey hfound,key_of_lookupKey hfound⟩
        · exact hmem

end Tree

end Xctools.Machine
