import Xctools.Xcpmd.VmActions

/-! Which VMs `shutdown_dependencies_of_vm` asks to shut down. The state of a VM is looked at before its own
dependencies are followed, and its type when the master list is gone through; neither keeps a VM that is not
running, or not listed, from being gathered as a dependency of another one. -/
namespace Xctools.Xcpmd

section Targets
variable (vms : List VmDeps) (root : String) (vmType : Option String)

/-- What the root depends on, directly or through VMs that are up. -/
def Dependency (p : String) : Prop :=
  ∃ d ∈ depsOf vms root, Relation.ReflTransGen (fun a b => b ∈ followed vms a) d p

/-- Such a dependency, and not a VM that stands and is of another type. -/
def AtRisk (p : String) : Prop :=
  Dependency vms root p ∧ ∀ vm ∈ vms, vm.path = p → vm.standing root = true → otherType vmType vm = false

/-- A VM that stands and is not at risk needs it, through VMs that are at risk. -/
def Needed (p : String) : Prop :=
  ∃ s, (∃ vm ∈ vms, vm.path = s ∧ vm.standing root = true ∧ ¬ AtRisk vms root vmType s) ∧
    Relation.ReflTransGen (fun a b => b ∈ depsOf vms a ∧ AtRisk vms root vmType b) s p

/-- A VM that may be asked to shut down: it is listed, up, and of the type that is asked for. -/
def MayShutDown (p : String) : Prop := ∃ vm ∈ vms, vm.path = p ∧ vm.down = false ∧ otherType vmType vm = false

/-- No such VM, or one that is stopping or stopped, or the root itself, of another type. -/
inductive Misplaced (p : String) : Prop
  | unlisted : p ∉ vms.map VmDeps.path → Misplaced p
  | down (vm : VmDeps) : vm ∈ vms → vm.path = p → vm.down = true → Misplaced p
  | root (vm : VmDeps) : vm ∈ vms → vm.path = p → p = root → otherType vmType vm = true → Misplaced p

variable {vms root vmType} {p : String}

lemma mem_jeopardyOf_iff_atRisk {gathered : List String} (h : ∀ p, p ∈ gathered ↔ Dependency vms root p) :
    p ∈ jeopardyOf vms root vmType gathered ↔ AtRisk vms root vmType p := by
  rw [mem_jeopardyOf, h, AtRisk]

/-- Nothing takes a misplaced VM from those that were gathered. -/
lemma Misplaced.atRisk (table : VmTable) (h : Misplaced table.vms root vmType p) (hp : Dependency table.vms root p) :
    AtRisk table.vms root vmType p := by
  refine ⟨hp,fun vm hvm hpath hstand => ?_⟩
  simp only [VmDeps.standing, Bool.and_eq_true, decide_eq_true_eq, Bool.not_eq_true'] at hstand
  cases h with
  | unlisted hout => exact absurd (hpath ▸ List.mem_map_of_mem hvm) hout
  | down vm' hvm' hpath' hdown =>
    -- a VM is listed once
    have hsame : vm = vm' := List.inj_on_of_nodup_map table.paths hvm hvm' (hpath.trans hpath'.symm)
    rw [hsame, hdown] at hstand
    cases hstand.2
  | root vm' _ _ hroot _ => exact absurd (hpath.trans hroot) hstand.1

/-- Of the VMs at risk, the misplaced ones are those that may not be asked. -/
lemma AtRisk.misplaced_iff (table : VmTable) (h : AtRisk table.vms root vmType p) :
    Misplaced table.vms root vmType p ↔ ¬ MayShutDown table.vms vmType p := by
  constructor
  · rintro hmis ⟨vm,hvm,hpath,hup,htype⟩
    have hunique : ∀ vm' ∈ table.vms, vm'.path = p → vm' = vm := fun vm' hvm' hpath' =>
      List.inj_on_of_nodup_map table.paths hvm' hvm (hpath'.trans hpath.symm)
    cases hmis with
    | unlisted hout => exact hout (hpath ▸ List.mem_map_of_mem hvm)
    | down vm' hvm' hpath' hdown =>
      rw [hunique vm' hvm' hpath', hup] at hdown
      cases hdown
    | root vm' hvm' hpath' _ hother =>
      rw [hunique vm' hvm' hpath', htype] at hother
      cases hother
  · intro hnot
    by_contra hwell
    obtain ⟨vm,hvm,hpath⟩ := List.mem_map.mp (not_not.mp fun hout => hwell (.unlisted hout))
    have hup : vm.down = false := Bool.not_eq_true _ ▸ fun hdown => hwell (.down vm hvm hpath hdown)
    refine hnot ⟨vm,hvm,hpath,hup,?_⟩
    by_cases hroot : p = root
    · exact Bool.not_eq_true _ ▸ fun hother => hwell (.root vm hvm hpath hroot hother)
    · exact h.2 vm hvm hpath (by simp [VmDeps.standing, hup, hpath, hroot])

/-- Of two dependencies one is stopped, and a VM that stays up needs it. -/
def neededTable : VmTable where
  vms := [⟨"r", "running", "svm", ["d", "c"]⟩, ⟨"d", "stopped", "vpnvm", []⟩, ⟨"c", "running", "vpnvm", []⟩,
    ⟨"s", "running", "svm", ["d"]⟩]
  paths := by decide

end Targets

end Xctools.Xcpmd
