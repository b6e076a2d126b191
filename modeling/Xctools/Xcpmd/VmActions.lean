import Xctools.Machine.Keyed
import Xctools.Machine.Loop
import Xctools.Machine.Reach

/-! Shutting down the dependencies of a VM, `vm-actions-module.c`. The dependencies of the VM are put in
jeopardy; VMs that stay up are safe, and what a safe VM depends on is moved out of jeopardy, until nothing
in jeopardy is needed by a VM that is safe. -/
namespace Xctools.Xcpmd
open Machine

/-- `struct vm_deps`: what is known of a VM. -/
structure VmDeps where
  path : String
  state : String
  type : String
  deps : List String

/-- Stopping or stopped. -/
def VmDeps.down (vm : VmDeps) : Bool := vm.state = "stopping" || vm.state = "stopped"

/-- The master list. A VM is listed once. -/
structure VmTable where
  vms : List VmDeps
  paths : (vms.map VmDeps.path).Nodup

section Gather
variable (vms : List VmDeps)

/-- The loop over the dependencies of a VM: each one that is not in the list is added and followed. -/
def gatherDeps (follow : String → List String → Outcome (List String)) (deps flat : List String) :
    Outcome (List String) :=
  deps.foldlM (fun flat dep => if dep ∈ flat then .ok flat else follow dep (flat ++ [dep])) flat

/-- The loop over the master list. `nested` says that the VM is not the root. -/
def gatherLoop (follow : String → List String → Outcome (List String)) (nested : Bool) (vm : String) :
    List VmDeps → List String → Outcome (List String)
  | [], flat => .ok flat
  | entry :: rest, flat =>
    if entry.path = vm then
      if nested && entry.down then .ok flat
      else do gatherLoop follow nested vm rest (← gatherDeps follow entry.deps flat)
    else gatherLoop follow nested vm rest flat

/-- `gather_dependencies`, at most `n` calls deep. -/
def gatherDependencies : ℕ → Bool → String → List String → Outcome (List String)
  | 0, _, _, _ => .error .loop
  | n + 1, nested, vm, flat => gatherLoop (gatherDependencies n true) nested vm vms flat

/-- Deep enough for any list: one call for each dependency that is listed, and the first one. -/
def gatherDepth : ℕ := (vms.flatMap VmDeps.deps).length + 1

end Gather

section Shutdown
variable (vms : List VmDeps)

/-- The type of a VM is not the one that is asked for. -/
def otherType (vmType : Option String) (vm : VmDeps) : Bool := vmType.any fun type => vm.type ≠ type

/-- One VM of the master list: a VM that is up and not in jeopardy is safe, and one of another type does not
belong in jeopardy. The lists are the safe one and the jeopardy one. -/
def sortVm (root : String) (vmType : Option String) (lists : List String × List String) (vm : VmDeps) :
    List String × List String :=
  if vm.path = root then lists
  else if vm.down then lists
  else if vm.path ∈ lists.2 then
    if otherType vmType vm then (lists.1 ++ [vm.path], lists.2.erase vm.path) else lists
  else (lists.1 ++ [vm.path], lists.2)

/-- The loop over the safe list: what of the list is still ahead, the jeopardy list, the dependencies that
were looked up last, and whether there were none. -/
structure Protecting where
  ahead : List String
  jeopardy : List String
  deps : Option (List String) := none
  aborted : Bool := false

/-- The next safe VM. For one that is not in the master list, the dependencies are still those of the VM
before it. -/
def protectNext (p : Protecting) : Outcome Protecting :=
  match p.ahead with
  | [] => .ok p
  | vm :: ahead =>
    match ((lookupKey VmDeps.path vm vms).map VmDeps.deps).or p.deps with
    | none => .ok { p with aborted := true }
    | some deps =>
      let lists := rescue deps ahead p.jeopardy
      .ok { p with ahead := lists.1, jeopardy := lists.2, deps := some deps }

def Protecting.done (p : Protecting) : Bool := p.ahead.isEmpty || p.aborted

/-- `shutdown_dependencies_of_vm`: the VMs that are asked to shut down. -/
def shutdownDependenciesOfVm (vmPath : Option String) (vmType : Option String) : Outcome (List String) :=
  match vmPath with
  | none => .ok []
  | some root => do
    let gathered ← gatherDependencies vms (gatherDepth vms) false root []
    if gathered = [] then return []
    let lists := vms.foldl (sortVm root vmType) ([], gathered)
    let p ← loop (protectNext vms) Protecting.done (lists.1.length + lists.2.length)
      { ahead := lists.1, jeopardy := lists.2 }
    return if p.aborted then [] else p.jeopardy

end Shutdown

section Gathered
variable {vms : List VmDeps} {follow : String → List String → Outcome (List String)} {nested : Bool} {vm : String}

/-- The dependencies of a VM, none where it is not listed. -/
def depsOf (vms : List VmDeps) (vm : String) : List String :=
  ((lookupKey VmDeps.path vm vms).map VmDeps.deps).getD []

/-- What is followed from a VM: nothing behind one that is down. -/
def followed (vms : List VmDeps) (vm : String) : List String :=
  (((lookupKey VmDeps.path vm vms).filter fun entry => !entry.down).map VmDeps.deps).getD []

lemma gatherLoop_of_notMem {l : List VmDeps} (h : vm ∉ l.map VmDeps.path) (flat : List String) :
    gatherLoop follow nested vm l flat = .ok flat := by
  induction l with
  | nil => rfl
  | cons entry rest ih =>
    rw [List.map_cons, List.mem_cons, not_or] at h
    rw [gatherLoop, if_neg (Ne.symm h.1), ih h.2]

/-- A VM is listed once, so that the loop comes across it once. -/
lemma gatherLoop_eq (h : (vms.map VmDeps.path).Nodup) (flat : List String) :
    gatherLoop follow nested vm vms flat =
      gatherDeps follow (if nested then followed vms vm else depsOf vms vm) flat := by
  induction vms with
  | nil => cases nested <;> rfl
  | cons entry rest ih =>
    obtain ⟨hentry,hrest⟩ := List.nodup_cons.mp h
    rw [gatherLoop, followed, depsOf, lookupKey_cons]
    by_cases hpath : entry.path = vm
    · subst hpath
      simp only [if_true, gatherLoop_of_notMem hentry]
      cases hnested : nested with
      | false =>
        simp only [Bool.false_and, Bool.false_eq_true, if_false, Option.map_some, Option.getD_some]
        cases gatherDeps follow entry.deps flat <;> rfl
      | true =>
        cases hdown : entry.down with
        | true =>
          simp only [Option.filter, hdown, Bool.not_true, Bool.false_eq_true, if_false, Bool.and_self, if_true,
            Option.map_none, Option.getD_none]
          rfl
        | false =>
          simp only [Option.filter, hdown, Bool.not_false, if_true, Bool.and_false, Bool.false_eq_true,
            if_false, Option.map_some, Option.getD_some]
          cases gatherDeps follow entry.deps flat <;> rfl
    · rw [if_neg hpath, if_neg hpath]
      exact ih hrest

/-- The recursion is the search behind the VMs that are up. -/
lemma gatherDependencies_eq (h : (vms.map VmDeps.path).Nodup) (n : ℕ) (nested : Bool) (vm : String)
    (flat : List String) : gatherDependencies vms n nested vm flat =
      collect (followed vms) n (if nested then followed vms vm else depsOf vms vm) flat := by
  induction n generalizing nested vm flat with
  | zero => rfl
  | succ n ih =>
    rw [gatherDependencies, gatherLoop_eq h, gatherDeps, collect]
    have hfollow : gatherDependencies vms n true = fun d => collect (followed vms) n (followed vms d) := by
      funext d flat
      rw [ih]
      rfl
    rw [hfollow]

lemma mem_deps_of_depsOf {d : String} (h : d ∈ depsOf vms vm) : d ∈ vms.flatMap VmDeps.deps := by
  unfold depsOf at h
  cases hl : lookupKey VmDeps.path vm vms with
  | none => simp [hl] at h
  | some entry =>
    rw [hl] at h
    exact List.mem_flatMap.mpr ⟨entry,mem_of_lookupKey hl,h⟩

lemma depsOf_of_followed {d : String} (h : d ∈ followed vms vm) : d ∈ depsOf vms vm := by
  unfold followed at h
  unfold depsOf
  cases hl : lookupKey VmDeps.path vm vms with
  | none => simp [hl] at h
  | some entry =>
    cases hdown : entry.down with
    | true => simp [hl, Option.filter, hdown] at h
    | false => simpa [hl, Option.filter, hdown] using h

/-- The search comes to an end, whatever depends on what. It finds, once each, what the VM depends on and
what can be reached from there through VMs that are up. -/
theorem gatherDependencies_ok (table : VmTable) (root : String) : ∃ gathered,
    gatherDependencies table.vms (gatherDepth table.vms) false root [] = .ok gathered ∧ gathered.Nodup ∧
    ∀ p, p ∈ gathered ↔ ∃ d ∈ depsOf table.vms root,
      Relation.ReflTransGen (fun a b => b ∈ followed table.vms a) d p := by
  have hdepth : unseen (table.vms.flatMap VmDeps.deps) [] < gatherDepth table.vms :=
    Nat.lt_succ_of_le List.countP_le_length
  obtain ⟨gathered,hg⟩ : ∃ out, collect (followed table.vms) (gatherDepth table.vms) (depsOf table.vms root) [] =
      .ok out := collect_ok (fun _ _ hd => mem_deps_of_depsOf (depsOf_of_followed hd)) (fun _ hd => mem_deps_of_depsOf hd) hdepth
  refine ⟨gathered,?_,(collected_of_collect hg).nodup List.nodup_nil,fun p => mem_collect_iff hg⟩
  rw [gatherDependencies_eq table.paths]
  exact hg

end Gathered

section Sorted
variable {root : String} {vmType : Option String}

/-- A VM other than the root that is up. -/
def VmDeps.standing (root : String) (vm : VmDeps) : Bool := vm.path ≠ root && !vm.down

/-- The VMs in jeopardy: those that were gathered, less those that stand and are of another type. -/
def jeopardyOf (vms : List VmDeps) (root : String) (vmType : Option String) (gathered : List String) :
    List String :=
  gathered.filter fun p => !vms.any fun vm => vm.path = p && vm.standing root && otherType vmType vm

/-- The VMs that stand and are not in jeopardy. -/
def safeOf (vms : List VmDeps) (root : String) (jeopardy : List String) : List String :=
  (vms.filter fun vm => vm.standing root && vm.path ∉ jeopardy).map VmDeps.path

lemma mem_jeopardyOf {vms : List VmDeps} {gathered : List String} {p : String} :
    p ∈ jeopardyOf vms root vmType gathered ↔ p ∈ gathered ∧
      ∀ vm ∈ vms, vm.path = p → vm.standing root = true → otherType vmType vm = false := by
  simp [jeopardyOf]

lemma mem_safeOf {vms : List VmDeps} {jeopardy : List String} {p : String} :
    p ∈ safeOf vms root jeopardy ↔ ∃ vm ∈ vms, vm.path = p ∧ vm.standing root = true ∧ p ∉ jeopardy := by
  simp only [safeOf, List.mem_map, List.mem_filter, Bool.and_eq_true, decide_eq_true_eq]
  constructor
  · rintro ⟨vm,⟨hvm,hstand,hn⟩,rfl⟩
    exact ⟨vm,hvm,rfl,hstand,hn⟩
  · rintro ⟨vm,hvm,rfl,hstand,hn⟩
    exact ⟨vm,⟨hvm,hstand,hn⟩,rfl⟩

lemma sortVm_of_not_standing {vm : VmDeps} {lists : List String × List String}
    (h : vm.standing root = false) : sortVm root vmType lists vm = lists := by
  unfold sortVm
  split_ifs with hroot hdown
  · rfl
  · rfl
  · simp [VmDeps.standing, hroot, hdown] at h
  · rfl
  · simp [VmDeps.standing, hroot, hdown] at h

lemma sortVm_of_standing {vm : VmDeps} {lists : List String × List String} (h : vm.standing root = true) :
    sortVm root vmType lists vm = if vm.path ∈ lists.2 ∧ otherType vmType vm = false then lists
      else (lists.1 ++ [vm.path], lists.2.erase vm.path) := by
  simp only [VmDeps.standing, Bool.and_eq_true, decide_eq_true_eq, Bool.not_eq_true'] at h
  rw [sortVm, if_neg h.1, if_neg (by simp [h.2])]
  by_cases hmem : vm.path ∈ lists.2
  · cases hother : otherType vmType vm with
    | true => simp [hmem]
    | false => simp [hmem]
  · simp [hmem, List.erase_of_not_mem hmem]

/-- What one VM after the other does to the two lists. -/
lemma foldl_sortVm {vms : List VmDeps} (h : (vms.map VmDeps.path).Nodup) (safe : List String)
    {jeopardy : List String} (hj : jeopardy.Nodup) :
    (vms.foldl (sortVm root vmType) (safe, jeopardy)).2.Nodup ∧
    (∀ p, p ∈ (vms.foldl (sortVm root vmType) (safe, jeopardy)).2 ↔ p ∈ jeopardyOf vms root vmType jeopardy) ∧
    ∀ p, p ∈ (vms.foldl (sortVm root vmType) (safe, jeopardy)).1 ↔
      p ∈ safe ∨ p ∈ safeOf vms root (jeopardyOf vms root vmType jeopardy) := by
  induction vms generalizing safe jeopardy with
  | nil => exact ⟨hj,by simp [jeopardyOf],by simp [safeOf]⟩
  | cons vm vms ih =>
    obtain ⟨hvm,hvms⟩ := List.nodup_cons.mp h
    have hother : ∀ w ∈ vms, w.path ≠ vm.path := fun w hw he => hvm (he ▸ List.mem_map_of_mem hw)
    rw [List.foldl_cons]
    cases hstand : vm.standing root with
    | false =>
      rw [sortVm_of_not_standing hstand]
      obtain ⟨hnodup,hrisk,hsafe⟩ := ih hvms safe hj
      have hsame : ∀ p, p ∈ jeopardyOf (vm :: vms) root vmType jeopardy ↔ p ∈ jeopardyOf vms root vmType jeopardy := by
        intro p
        simp [mem_jeopardyOf, hstand]
      refine ⟨hnodup,fun p => (hrisk p).trans (hsame p).symm,fun p => (hsafe p).trans ?_⟩
      simp only [mem_safeOf, hsame, List.exists_mem_cons_iff, hstand]
      simp
    | true =>
      rw [sortVm_of_standing hstand]
      split_ifs with hkeep
      · obtain ⟨hnodup,hrisk,hsafe⟩ := ih hvms safe hj
        have hsame : ∀ p, p ∈ jeopardyOf (vm :: vms) root vmType jeopardy ↔
            p ∈ jeopardyOf vms root vmType jeopardy := by
          intro p
          simp [mem_jeopardyOf, hkeep.2]
        have hin : vm.path ∈ jeopardyOf vms root vmType jeopardy :=
          mem_jeopardyOf.mpr ⟨hkeep.1,fun w hw he => absurd he (hother w hw)⟩
        refine ⟨hnodup,fun p => (hrisk p).trans (hsame p).symm,fun p => (hsafe p).trans ?_⟩
        simp only [mem_safeOf, hsame, List.exists_mem_cons_iff]
        constructor
        · exact fun hp => hp.imp id .inr
        · rintro (hp | ⟨rfl,-,hn⟩ | hp)
          · exact .inl hp
          · exact absurd hin hn
          · exact .inr hp
      · obtain ⟨hnodup,hrisk,hsafe⟩ := ih hvms (safe ++ [vm.path]) (hj.erase vm.path)
        have hsame : ∀ p, p ∈ jeopardyOf (vm :: vms) root vmType jeopardy ↔
            p ∈ jeopardyOf vms root vmType (jeopardy.erase vm.path) := by
          intro p
          simp only [mem_jeopardyOf, List.forall_mem_cons, hj.mem_erase_iff]
          constructor
          · rintro ⟨hp,hhead,htail⟩
            refine ⟨⟨?_,hp⟩,htail⟩
            rintro rfl
            exact hkeep ⟨hp,hhead rfl hstand⟩
          · rintro ⟨⟨hne,hp⟩,htail⟩
            exact ⟨hp,fun he => absurd he.symm hne,htail⟩
        have hout : vm.path ∉ jeopardyOf vms root vmType (jeopardy.erase vm.path) := by
          rw [mem_jeopardyOf, hj.mem_erase_iff]
          exact fun hp => hp.1.1 rfl
        refine ⟨hnodup,fun p => (hrisk p).trans (hsame p).symm,fun p => (hsafe p).trans ?_⟩
        simp only [mem_safeOf, hsame, List.exists_mem_cons_iff, List.mem_append, List.mem_singleton]
        constructor
        · rintro ((hp | rfl) | hp)
          · exact .inl hp
          · exact .inr (.inl ⟨rfl,hstand,hout⟩)
          · exact .inr (.inr hp)
        · rintro (hp | ⟨rfl,-,-⟩ | hp)
          · exact .inl (.inl hp)
          · exact .inl (.inr rfl)
          · exact .inr hp

end Sorted

section Protected
variable {vms : List VmDeps} {start target : List String} {p : Protecting}

/-- The invariant of the loop over the safe list. What was looked up last names nothing in jeopardy any
more, and as long as nothing was looked up, the VMs ahead are listed. -/
structure Sweeping (vms : List VmDeps) (start target : List String) (p : Protecting) : Prop where
  sweep : Sweep (depsOf vms) start target p.ahead p.jeopardy
  stale : ∀ deps ∈ p.deps, ∀ d ∈ deps, d ∉ p.jeopardy
  listed : p.deps = none → ∀ vm ∈ p.ahead, vm ∈ vms.map VmDeps.path
  aborted : p.aborted = false

lemma Sweeping.next (h : Sweeping vms start target p) (hdone : p.done = false) :
    ∃ p', protectNext vms p = .ok p' ∧ Sweeping vms start target p' ∧
      p'.ahead.length + p'.jeopardy.length < p.ahead.length + p.jeopardy.length := by
  unfold protectNext
  cases hahead : p.ahead with
  | nil => simp [Protecting.done, hahead] at hdone
  | cons vm ahead =>
    have hsweep := h.sweep
    rw [hahead] at hsweep
    -- the list that is gone through names what the VM depends on, as far as it is in jeopardy
    obtain ⟨deps,hlookup,hdeps⟩ : ∃ deps, ((lookupKey VmDeps.path vm vms).map VmDeps.deps).or p.deps = some deps ∧
        ∀ d ∈ p.jeopardy, d ∈ deps ↔ d ∈ depsOf vms vm := by
      cases hl : lookupKey VmDeps.path vm vms with
      | some entry => exact ⟨entry.deps,rfl,fun d _ => by simp [depsOf, hl]⟩
      | none =>
        cases hp : p.deps with
        | none =>
          have hmem := h.listed hp vm (by simp [hahead])
          exact absurd hmem (lookupKey_eq_none_iff.mp hl)
        | some deps =>
          refine ⟨deps,rfl,fun d hd => ?_⟩
          have hstale := h.stale deps hp d
          simp only [depsOf, hl, Option.map_none, Option.getD_none, List.not_mem_nil, iff_false]
          exact fun hmem => hstale hmem hd
    have hr := rescued_rescue deps ahead h.sweep.nodup
    simp only [hlookup]
    refine ⟨_,rfl,⟨hsweep.round hdeps,?_,by simp,h.aborted⟩,?_⟩
    · rintro _ ⟨⟩ d hd hmem
      exact ((hr.mem_risk d).mp hmem).2 hd
    · simp only [List.length_cons]
      have hlen := hr.length
      omega

lemma sweeping_start {safe jeopardy : List String} (hnodup : jeopardy.Nodup)
    (hlisted : ∀ vm ∈ safe, vm ∈ vms.map VmDeps.path) :
    Sweeping vms safe jeopardy { ahead := safe, jeopardy := jeopardy } where
  sweep := sweep_start hnodup
  stale := by simp
  listed _ := hlisted
  aborted := rfl

end Protected

/-- The chains that matter depend on the members of the lists only. -/
lemma reached_congr {α : Type} {succ : α → List α} {start start' target target' : List α}
    (hstart : ∀ x, x ∈ start ↔ x ∈ start') (htarget : ∀ x, x ∈ target ↔ x ∈ target') (x : α) :
    Reached succ start target x ↔ Reached succ start' target' x := by
  simp only [Reached, hstart, htarget]

/-- `shutdown_dependencies_of_vm` comes to an end, and what is left in jeopardy is what the sweep that starts
from the safe VMs leaves there. -/
lemma shutdown_sweeps (table : VmTable) (root : String) (vmType : Option String) : ∃ gathered safe jeopardy shut,
    gatherDependencies table.vms (gatherDepth table.vms) false root [] = .ok gathered ∧
    (∀ p, p ∈ gathered ↔ ∃ d ∈ depsOf table.vms root,
      Relation.ReflTransGen (fun a b => b ∈ followed table.vms a) d p) ∧
    (∀ p, p ∈ jeopardy ↔ p ∈ jeopardyOf table.vms root vmType gathered) ∧
    (∀ p, p ∈ safe ↔ p ∈ safeOf table.vms root (jeopardyOf table.vms root vmType gathered)) ∧
    shutdownDependenciesOfVm table.vms (some root) vmType = .ok shut ∧
    Sweep (depsOf table.vms) safe jeopardy [] shut := by
  obtain ⟨gathered,hgather,hnodup,hmem⟩ := gatherDependencies_ok table root
  have hlists := @foldl_sortVm root vmType _ table.paths [] _ hnodup
  generalize hl : table.vms.foldl (sortVm root vmType) ([], gathered) = lists at hlists
  obtain ⟨hrisk,hjeopardy,hsafe⟩ := hlists
  replace hsafe : ∀ p, p ∈ lists.1 ↔ p ∈ safeOf table.vms root (jeopardyOf table.vms root vmType gathered) :=
    fun p => (hsafe p).trans (by simp)
  have hlisted : ∀ vm ∈ lists.1, vm ∈ table.vms.map VmDeps.path := by
    intro vm hvm
    obtain ⟨entry,hentry,rfl,-⟩ := mem_safeOf.mp ((hsafe vm).mp hvm)
    exact List.mem_map_of_mem hentry
  obtain ⟨q,hq,hsweeping,hdone⟩ := loop_total (μ := fun p : Protecting => p.ahead.length + p.jeopardy.length)
    (fun _ h hd => h.next hd) (@sweeping_start table.vms _ _ hrisk hlisted) (Nat.le_refl _)
  have hahead : q.ahead = [] := by simpa [Protecting.done, hsweeping.aborted] using hdone
  have hsweep := hsweeping.sweep
  rw [hahead] at hsweep
  refine ⟨gathered,lists.1,lists.2,q.jeopardy,hgather,hmem,hjeopardy,hsafe,?_,hsweep⟩
  rw [shutdownDependenciesOfVm]
  simp only [hgather, ok_bind, hl]
  split_ifs with hnil
  · -- nothing was gathered, so there is nothing in jeopardy
    have hempty : q.jeopardy = [] := by
      apply List.eq_nil_iff_forall_not_mem.mpr
      intro p hp
      have hin := (hjeopardy p).mp (hsweep.subset p hp)
      rw [mem_jeopardyOf, hnil] at hin
      exact List.not_mem_nil hin.1
    rw [hempty]
    rfl
  · rw [hq, ok_bind, hsweeping.aborted]
    rfl

/-- What is left in jeopardy is what no safe VM needs. -/
lemma mem_shut_iff {table : VmTable} {root : String} {vmType : Option String} {gathered safe jeopardy shut : List String}
    (hjeopardy : ∀ p, p ∈ jeopardy ↔ p ∈ jeopardyOf table.vms root vmType gathered)
    (hsafe : ∀ p, p ∈ safe ↔ p ∈ safeOf table.vms root (jeopardyOf table.vms root vmType gathered))
    (hsweep : Sweep (depsOf table.vms) safe jeopardy [] shut) (p : String) :
    p ∈ shut ↔ p ∈ jeopardyOf table.vms root vmType gathered ∧
      ¬ ∃ s ∈ safeOf table.vms root (jeopardyOf table.vms root vmType gathered),
        Relation.ReflTransGen (fun a b => b ∈ depsOf table.vms a ∧
          b ∈ jeopardyOf table.vms root vmType gathered) s p := by
  have hdisjoint : ∀ s ∈ safe, s ∉ jeopardy := by
    intro s hs
    obtain ⟨-,-,-,-,hn⟩ := mem_safeOf.mp ((hsafe s).mp hs)
    rw [hjeopardy]
    exact hn
  rw [hsweep.mem_risk_iff hdisjoint, hjeopardy, reached_congr hsafe hjeopardy]
  rfl

/-- A cycle through the root, and a VM behind it that another one needs. -/
def cycleTable : VmTable where
  vms := [⟨"r", "stopped", "svm", ["a"]⟩, ⟨"a", "running", "vpnvm", ["b", "r"]⟩, ⟨"b", "running", "ndvm", []⟩,
    ⟨"s", "running", "svm", ["b"]⟩]
  paths := by decide

end Xctools.Xcpmd
