import Xctools.Xcpmd.ShutdownTargets

/-! `gather_dependencies` with its static counter. That a VM is the root is seen by the counter alone, and the list
is appended to while the calls that are open go through their dependencies; what is gathered is what the search of
`Xctools.Xcpmd.VmActions` gathers. -/
namespace Xctools.Xcpmd
open Machine

section Counted
variable (vms : List VmDeps)

/-- The flat list, and the static counter. It counts the calls that are open, which the stack bounds far below 2^32. -/
@[ext] structure Gathering where
  flat : List String
  depth : ℕ
  deriving DecidableEq, Repr

/-- One dependency: what is not in the list is appended to it and followed, one call deeper. -/
def followDep (follow : String → Gathering → Outcome Gathering) (g : Gathering) (dep : String) : Outcome Gathering :=
  if dep ∈ g.flat then .ok g
  else do
    let g ← follow dep ⟨g.flat ++ [dep], g.depth + 1⟩
    return ⟨g.flat, g.depth - 1⟩

/-- The loop over the master list. -/
def gatherEntries (follow : String → Gathering → Outcome Gathering) (vm : String) :
    List VmDeps → Gathering → Outcome Gathering
  | [], g => .ok g
  | entry :: rest, g =>
    if entry.path = vm then
      if 0 < g.depth && entry.down then .ok g
      else do gatherEntries follow vm rest (← entry.deps.foldlM (followDep follow) g)
    else gatherEntries follow vm rest g

/-- `gather_dependencies`, at most `n` calls deep. -/
def gatherCounted : ℕ → String → Gathering → Outcome Gathering
  | 0, _, _ => .error .loop
  | n + 1, vm, g => gatherEntries (gatherCounted n) vm vms g

/-- What is reached from the root by one dependency step or more. A VM that is stepped from is up, but for the root
at the first step. -/
inductive Reached (root : String) : String → Prop
  | first (vm : VmDeps) (d : String) : vm ∈ vms → vm.path = root → d ∈ vm.deps → Reached root d
  | next (vm : VmDeps) (d : String) : Reached root vm.path → vm ∈ vms → vm.down = false → d ∈ vm.deps → Reached root d

end Counted

section Refined
variable {vms : List VmDeps} {follow : String → Gathering → Outcome Gathering} {depth : ℕ}
  {search : String → List String → Outcome (List String)}

/-- Following a dependency, the counter is what it was before. -/
lemma foldlM_followDep (h : ∀ vm flat, follow vm ⟨flat, depth + 1⟩ = (search vm flat).map (⟨·, depth + 1⟩))
    (deps flat : List String) :
    deps.foldlM (followDep follow) ⟨flat, depth⟩ = (gatherDeps search deps flat).map (⟨·, depth⟩) := by
  induction deps generalizing flat with
  | nil => rfl
  | cons dep deps ih =>
    rw [gatherDeps, List.foldlM_cons, List.foldlM_cons, followDep]
    dsimp only
    split_ifs
    · exact ih flat
    · rw [h]
      cases search dep (flat ++ [dep]) with
      | error e => rfl
      | ok flat => exact ih flat

lemma gatherEntries_eq (h : ∀ vm flat, follow vm ⟨flat, depth + 1⟩ = (search vm flat).map (⟨·, depth + 1⟩))
    (vm : String) (l : List VmDeps) (flat : List String) :
    gatherEntries follow vm l ⟨flat, depth⟩ = (gatherLoop search (0 < depth) vm l flat).map (⟨·, depth⟩) := by
  induction l generalizing flat with
  | nil => rfl
  | cons entry rest ih =>
    rw [gatherEntries, gatherLoop]
    dsimp only
    split_ifs
    · rfl
    · rw [foldlM_followDep h]
      cases gatherDeps search entry.deps flat with
      | error e => rfl
      | ok flat => exact ih flat
    · exact ih flat

/-- The counter tells the root from the others, and is left as it was found. -/
lemma gatherCounted_eq (n : ℕ) (vm : String) (flat : List String) (depth : ℕ) :
    gatherCounted vms n vm ⟨flat, depth⟩ =
      (gatherDependencies vms n (0 < depth) vm flat).map (⟨·, depth⟩) := by
  induction n generalizing vm flat depth with
  | zero => rfl
  | succ n ih =>
    rw [gatherCounted, gatherDependencies]
    apply gatherEntries_eq
    intro vm flat
    rw [ih, decide_eq_true (Nat.succ_pos depth)]

end Refined

section Search
variable {root a d p : String}

lemma mem_depsOf (table : VmTable) : d ∈ depsOf table.vms a ↔ ∃ vm ∈ table.vms, vm.path = a ∧ d ∈ vm.deps := by
  constructor
  · intro h
    unfold depsOf at h
    cases hl : lookupKey VmDeps.path a table.vms with
    | none => simp [hl] at h
    | some vm =>
      rw [hl] at h
      exact ⟨vm,mem_of_lookupKey hl,key_of_lookupKey hl,h⟩
  · rintro ⟨vm,hvm,rfl,hd⟩
    rw [depsOf, lookupKey_of_mem table.paths hvm]
    exact hd

lemma mem_followed (table : VmTable) :
    d ∈ followed table.vms a ↔ ∃ vm ∈ table.vms, vm.path = a ∧ vm.down = false ∧ d ∈ vm.deps := by
  constructor
  · intro h
    unfold followed at h
    cases hl : lookupKey VmDeps.path a table.vms with
    | none => simp [hl] at h
    | some vm =>
      cases hdown : vm.down with
      | true => simp [hl, Option.filter, hdown] at h
      | false => exact ⟨vm,mem_of_lookupKey hl,key_of_lookupKey hl,hdown,by simpa [hl, Option.filter, hdown] using h⟩
  · rintro ⟨vm,hvm,rfl,hup,hd⟩
    rw [followed, lookupKey_of_mem table.paths hvm]
    simpa [Option.filter, hup] using hd

/-- The steps are those of the search. -/
lemma reached_iff_dependency (table : VmTable) : Reached table.vms root p ↔ Dependency table.vms root p := by
  constructor
  · intro h
    induction h with
    | first vm d hvm hroot hd => exact ⟨d,(mem_depsOf table).mpr ⟨vm,hvm,hroot,hd⟩,.refl⟩
    | next vm d _ hvm hup hd ih =>
      obtain ⟨start,hstart,hpath⟩ := ih
      exact ⟨start,hstart,hpath.tail ((mem_followed table).mpr ⟨vm,hvm,rfl,hup,hd⟩)⟩
  · rintro ⟨start,hstart,hpath⟩
    induction hpath with
    | refl =>
      obtain ⟨vm,hvm,hroot,hd⟩ := (mem_depsOf table).mp hstart
      exact .first vm start hvm hroot hd
    | tail _ hstep ih =>
      obtain ⟨vm,hvm,rfl,hup,hd⟩ := (mem_followed table).mp hstep
      exact .next vm _ ih hvm hup hd

/-- For every master list with distinct paths, whatever depends on what and in whatever state: the call for the root
comes to its end, with the paths that are reached from the root in the list, once each, and the counter at zero. -/
theorem gather_dependencies_collects (table : VmTable) (root : String) : ∃ gathered,
    gatherCounted table.vms (gatherDepth table.vms) root ⟨[], 0⟩ = .ok ⟨gathered, 0⟩ ∧ gathered.Nodup ∧
      ∀ p, p ∈ gathered ↔ Reached table.vms root p := by
  obtain ⟨gathered,hg,hnodup,hmem⟩ := gatherDependencies_ok table root
  refine ⟨gathered,?_,hnodup,fun p => ?_⟩
  · have hroot : decide (0 < 0) = false := rfl
    rw [gatherCounted_eq, hroot, hg]
    rfl
  · rw [hmem, reached_iff_dependency]
    rfl

/-- A cycle through the root, a VM that depends on itself, an entry that is repeated, one that is not listed, and one
behind a VM that is stopped. -/
def tangledTable : VmTable where
  vms := [⟨"r", "stopped", "svm", ["a", "a", "x"]⟩, ⟨"a", "running", "svm", ["a", "r", "b"]⟩,
    ⟨"b", "stopped", "svm", ["c"]⟩]
  paths := by decide

theorem gather_dependencies_collects_tangled :
    gatherCounted tangledTable.vms (gatherDepth tangledTable.vms) "r" ⟨[], 0⟩ = .ok ⟨["a", "r", "b", "x"], 0⟩ ∧
      Reached tangledTable.vms "r" "b" ∧ ¬ Reached tangledTable.vms "r" "c" := by
  have hrun : gatherCounted tangledTable.vms (gatherDepth tangledTable.vms) "r" ⟨[], 0⟩ =
      .ok ⟨["a", "r", "b", "x"], 0⟩ := by decide +kernel
  obtain ⟨gathered,hg,-,hmem⟩ := gather_dependencies_collects tangledTable "r"
  obtain rfl : gathered = ["a", "r", "b", "x"] := congrArg Gathering.flat (Except.ok.inj (hg.symm.trans hrun))
  exact ⟨hrun,(hmem "b").mp (by decide),fun hc => absurd ((hmem "c").mpr hc) (by decide)⟩

end Search

end Xctools.Xcpmd
