import Xctools.Xcpmd.Rules

/-! What the modules of `_module_list` register: the events and conditions of `acpi-module.c` and
`vm-events-module.c`, and the actions of `vm-actions-module.c` and `default-actions-module.c`. -/
namespace Xctools.Xcpmd
open Machine

/-- The events of the two event tables. -/
inductive EventId
  | pwrBtn
  | slpBtn
  | suspBtn
  | bcl
  | lid
  | onAc
  | tabletMode
  | battStatus
  | battInfo
  | vmCreating
  | vmStopping
  | vmRebooting
  | vmRunning
  | vmStopped
  | vmPaused
  deriving DecidableEq, Repr

/-- The event lists, in the order in which the modules add them. -/
def eventIds : List EventId :=
  [.pwrBtn, .slpBtn, .suspBtn, .bcl, .lid, .onAc, .tabletMode, .battStatus, .battInfo,
    .vmCreating, .vmStopping, .vmRebooting, .vmRunning, .vmStopped, .vmPaused]

/-- The column `is_stateless` of the two tables. -/
def EventId.isStateless : EventId → Bool
  | .lid | .onAc | .tabletMode => false
  | _ => true

/-- The column `reset_value`: false, zero and the first constant of each enumeration are one word. -/
def EventId.resetValue : EventId → Value
  | .vmCreating | .vmStopping | .vmRebooting | .vmRunning | .vmStopped | .vmPaused => .str ""
  | _ => .word 0

/-! Constants of `xcpmd.h`. -/
def bclUp : ℤ := 1
def bclDown : ℤ := 2
def acOnAc : ℤ := 0
def acOnBatt : ℤ := 1
def lidStateOpen : ℤ := 0
def lidStateClosed : ℤ := 1
def normalMode : ℤ := 0
def tabletModeOn : ℤ := 1

section Checks

/-- The member `i` of a value. -/
def Value.i : Value → Outcome ℤ
  | .word i => .ok i
  | .str _ => .error .wild

/-- The member `b` of a value: its lowest byte. -/
def Value.b (v : Value) : Outcome Bool := do return (← v.i) % 256 ≠ 0

/-- The member `str` of a value. -/
def Value.text : Value → Outcome String
  | .str s => .ok s
  | .word _ => .error .wild

/-- The member `i` of an argument. -/
def Arg.i : Arg → Outcome ℤ
  | .int i => .ok i
  | .bool b => .ok (if b then 1 else 0)
  | _ => .error .wild

/-- The member `str` of an argument. -/
def Arg.text : Arg → Outcome String
  | .str s => .ok s
  | _ => .error .wild

/-- A check that compares the value of the event with a constant. -/
def valueIs (n : ℤ) (_ : Host) (_ : VarStore) (value : Value) (_ : List Arg) : Outcome Bool := do
  return (← value.i) = n

/-- A check that takes the value of the event as it is. -/
def valueSet (_ : Host) (_ : VarStore) (value : Value) (_ : List Arg) : Outcome Bool := value.b

def bclUpPressed := valueIs bclUp
def bclDownPressed := valueIs bclDown
def pbtnPressed := valueSet
def sbtnPressed := valueSet
def suspPressed := valueSet
def onAc := valueIs acOnAc
def onBattery := valueIs acOnBatt
def lidOpen := valueIs lidStateOpen
def lidClosed := valueIs lidStateClosed
def tabletMode := valueIs tabletModeOn
def nonTabletMode := valueIs normalMode

variable (parseArg : String → Option Arg)

/-- `battery_present`. -/
def batteryPresent (host : Host) (vars : VarStore) (_ : Value) (args : List Arg) : Outcome Bool := do
  let index ← (← getArg parseArg vars args 0).i
  return host.batteryIsPresent index

/-- A check that compares the charge of the battery named by the event with its first argument. -/
def batteryCompares (compare : ℤ → ℤ → Bool) (host : Host) (vars : VarStore) (value : Value)
    (args : List Arg) : Outcome Bool := do
  let percentage ← (← getArg parseArg vars args 0).i
  return compare (host.batteryPercentage (← value.i)) percentage

def batteryGreaterThan := batteryCompares parseArg fun charge percentage => charge > percentage
def batteryLessThan := batteryCompares parseArg fun charge percentage => charge < percentage
def batteryEqualTo := batteryCompares parseArg fun charge percentage => charge = percentage

/-- The same for the charge of all batteries. -/
def overallBatteryCompares (compare : ℤ → ℤ → Bool) (host : Host) (vars : VarStore) (_ : Value)
    (args : List Arg) : Outcome Bool := do
  let percentage ← (← getArg parseArg vars args 0).i
  return compare host.overallBatteryPercentage percentage

def overallBatteryGreaterThan :=
  overallBatteryCompares parseArg fun charge percentage => charge > percentage
def overallBatteryLessThan :=
  overallBatteryCompares parseArg fun charge percentage => charge < percentage
def overallBatteryEqualTo :=
  overallBatteryCompares parseArg fun charge percentage => charge = percentage

/-- `any_vm_creating` and the five like it, which are the same function. -/
def anyVm (_ : Host) (_ : VarStore) (_ : Value) (_ : List Arg) : Outcome Bool := .ok true

/-- A check that the VM an argument stands for is the one of the event. -/
def vmIs (path : Host → String → Option String) (host : Host) (vars : VarStore) (value : Value)
    (args : List Arg) : Outcome Bool := do
  let name ← (← getArg parseArg vars args 0).text
  match path host name with
  | none => return false
  | some path => return (← value.text) = path

/-- `vm_with_uuid_creating` and the five like it. -/
def vmWithUuid := vmIs parseArg Host.vmPathByUuid

/-- `vm_with_name_creating` and the five like it. -/
def vmWithName := vmIs parseArg Host.vmPathByName

end Checks

section Tables
variable (parseArg : String → Option Arg)

/-- The table `condition_data` of `acpi-module.c`. -/
def acpiConditions : List (ConditionType EventId) :=
  [⟨"onBacklightUpBtn", bclUpPressed, "n", .bcl⟩,
    ⟨"onBacklightDownBtn", bclDownPressed, "n", .bcl⟩,
    ⟨"onPowerBtn", pbtnPressed, "n", .pwrBtn⟩,
    ⟨"onSleepBtn", sbtnPressed, "n", .slpBtn⟩,
    ⟨"onSuspendBtn", suspPressed, "n", .suspBtn⟩,
    ⟨"whileLidClosed", lidClosed, "n", .lid⟩,
    ⟨"whileLidOpen", lidOpen, "n", .lid⟩,
    ⟨"whileUsingAc", onAc, "n", .onAc⟩,
    ⟨"whileUsingBatt", onBattery, "n", .onAc⟩,
    ⟨"whileInTabletMode", tabletMode, "n", .tabletMode⟩,
    ⟨"whileNotInTabletMode", nonTabletMode, "n", .tabletMode⟩,
    ⟨"whileBattGreaterThan", batteryGreaterThan parseArg, "i, i", .battStatus⟩,
    ⟨"whileBattLessThan", batteryLessThan parseArg, "i, i", .battStatus⟩,
    ⟨"whileBattEqualTo", batteryEqualTo parseArg, "i, i", .battStatus⟩,
    ⟨"whileBattPresent", batteryPresent parseArg, "i", .battInfo⟩,
    ⟨"whileOverallBattGreaterThan", overallBatteryGreaterThan parseArg, "i", .battStatus⟩,
    ⟨"whileOverallBattLessThan", overallBatteryLessThan parseArg, "i", .battStatus⟩,
    ⟨"whileOverallBattEqualTo", overallBatteryEqualTo parseArg, "i", .battStatus⟩]

/-- The table `condition_data` of `vm-events-module.c`. -/
def vmConditions : List (ConditionType EventId) :=
  [⟨"whenAnyVmCreating", anyVm, "n", .vmCreating⟩,
    ⟨"whenAnyVmStopping", anyVm, "n", .vmStopping⟩,
    ⟨"whenAnyVmRebooting", anyVm, "n", .vmRebooting⟩,
    ⟨"whenAnyVmRunning", anyVm, "n", .vmRunning⟩,
    ⟨"whenAnyVmStopped", anyVm, "n", .vmStopped⟩,
    ⟨"whenAnyVmPaused", anyVm, "n", .vmPaused⟩,
    ⟨"whenVmUuidCreating", vmWithUuid parseArg, "s", .vmCreating⟩,
    ⟨"whenVmUuidStopping", vmWithUuid parseArg, "s", .vmStopping⟩,
    ⟨"whenVmUuidRebooting", vmWithUuid parseArg, "s", .vmRebooting⟩,
    ⟨"whenVmUuidRunning", vmWithUuid parseArg, "s", .vmRunning⟩,
    ⟨"whenVmUuidStopped", vmWithUuid parseArg, "s", .vmStopped⟩,
    ⟨"whenVmUuidPaused", vmWithUuid parseArg, "s", .vmPaused⟩,
    ⟨"whenVmCreating", vmWithName parseArg, "s", .vmCreating⟩,
    ⟨"whenVmStopping", vmWithName parseArg, "s", .vmStopping⟩,
    ⟨"whenVmRebooting", vmWithName parseArg, "s", .vmRebooting⟩,
    ⟨"whenVmRunning", vmWithName parseArg, "s", .vmRunning⟩,
    ⟨"whenVmStopped", vmWithName parseArg, "s", .vmStopped⟩,
    ⟨"whenVmPaused", vmWithName parseArg, "s", .vmPaused⟩]

/-- The tables `action_table` of `vm-actions-module.c` and `default-actions-module.c`. -/
def actionTable : List ActionType :=
  [⟨"sleepVm", "s"⟩, ⟨"resumeVm", "s"⟩, ⟨"pauseVm", "s"⟩, ⟨"unpauseVm", "s"⟩, ⟨"rebootVm", "s"⟩,
    ⟨"shutdownVm", "s"⟩, ⟨"startVm", "s"⟩, ⟨"suspendVmToFile", "s s"⟩, ⟨"resumeVmFromFile", "s s"⟩,
    ⟨"sleepVmUuid", "s"⟩, ⟨"resumeVmUuid", "s"⟩, ⟨"pauseVmUuid", "s"⟩, ⟨"unpauseVmUuid", "s"⟩,
    ⟨"rebootVmUuid", "s"⟩, ⟨"shutdownVmUuid", "s"⟩, ⟨"startVmUuid", "s"⟩,
    ⟨"suspendVmUuidToFile", "s s"⟩, ⟨"resumeVmUuidFromFile", "s s"⟩, ⟨"shutdownUnusedVpnvms", "n"⟩,
    ⟨"shutdownDepsOfVm", "s"⟩, ⟨"shutdownDepsOfVmUuid", "s"⟩, ⟨"shutdownVpnvmsForVm", "s"⟩,
    ⟨"shutdownVpnvmsForVmUuid", "s"⟩, ⟨"doNothing", "n"⟩, ⟨"printString", "s"⟩, ⟨"logString", "s"⟩,
    ⟨"runScript", "s"⟩]

/-- The condition types on stateful events compare the value of their event with a constant. -/
lemma stateful_conditions {type : ConditionType EventId}
    (h : type ∈ acpiConditions parseArg ++ vmConditions parseArg)
    (hst : type.event.isStateless = false) : ∃ n, type.check = valueIs n := by
  simp only [acpiConditions, vmConditions, List.cons_append, List.nil_append, List.mem_cons,
    List.not_mem_nil, or_false] at h
  rcases h with rfl | rfl | rfl | rfl | rfl | rfl | rfl | rfl | rfl | rfl | rfl | rfl | rfl | rfl |
    rfl | rfl | rfl | rfl | rfl | rfl | rfl | rfl | rfl | rfl | rfl | rfl | rfl | rfl | rfl | rfl |
    rfl | rfl | rfl | rfl | rfl | rfl
  all_goals first | exact ⟨_,rfl⟩ | cases hst

/-- What xcpmd registers at start-up. -/
def xcpmdRegistry : Registry EventId where
  parseArg := parseArg
  events := eventIds
  isStateless := EventId.isStateless
  resetValue := EventId.resetValue
  conditionTypes := acpiConditions parseArg ++ vmConditions parseArg
  actionTypes := actionTable
  mem_events e := by cases e <;> decide
  check_stateful type h hst host vars host' vars' value args := by
    obtain ⟨n,hn⟩ := stateful_conditions parseArg h hst
    rw [hn]
    rfl

end Tables

end Xctools.Xcpmd
