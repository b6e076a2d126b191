import Mathlib.Data.List.Infix
import Xctools.Machine.CBuffer
import Xctools.Machine.Keyed
import Xctools.Xcpmd.AcpiEvents

/-! The records that `battery.c` keeps of the batteries, and how they are read from the files of sysfs. -/
namespace Xctools.Xcpmd
open Machine

section Texts

/-- `fgets` with room for so many characters: a line with its newline, or as much of it. -/
def fgets : ℕ → List Char → List Char
  | 0, _ => []
  | _ + 1, [] => []
  | room + 1, c :: text => if c = '\n' then [c] else c :: fgets room text

def strstr (text needle : List Char) : Bool := decide (needle <:+: text)

/-- `strtoull` of decimal digits: a value that is too large becomes the largest one, and a minus sign is taken
modulo 2^64. -/
def strtoull (text : List Char) : UInt64 :=
  let (negative, rest) := takeSign (text.dropWhile isSpaceChar)
  let value := (rest.takeWhile Char.isDigit).foldl (fun n d => 10 * n + (d.toNat - '0'.toNat)) 0
  if value < 2 ^ 64 then (if negative then -UInt64.ofNat value else UInt64.ofNat value)
  else UInt64.ofNat (2 ^ 64 - 1)

/-- What is read from a file into `data[128]`, without the leading spaces. -/
def attribValue (content : List Char) : List Char := (cString (fgets 127 content)).dropWhile fun c => c = ' '

end Texts

section Records

/-- `enum BATTERY_UNIT`. -/
inductive BatteryUnit
  | mW
  | mA
  deriving DecidableEq, Repr

/-- `enum BATTERY_TECHNOLOGY`. -/
inductive BatteryTechnology
  | nonRechargeable
  | rechargeable
  deriving DecidableEq, Repr

/-- The number an enumerator stands for. -/
def BatteryUnit.value : BatteryUnit → UInt64
  | mW => 0
  | mA => 1

def BatteryTechnology.value : BatteryTechnology → UInt64
  | nonRechargeable => 0
  | rechargeable => 1

/-- `struct battery_info`, with null bytes at first. -/
structure BatteryInfo where
  present : Bool := false
  chargeFullDesign : UInt64 := 0
  chargeFull : UInt64 := 0
  energyFullDesign : UInt64 := 0
  energyFull : UInt64 := 0
  powerUnit : BatteryUnit := .mW
  designCapacity : UInt64 := 0
  lastFullCapacity : UInt64 := 0
  batteryTechnology : BatteryTechnology := .nonRechargeable
  designVoltage : UInt64 := 0
  designCapacityWarning : UInt64 := 0
  designCapacityLow : UInt64 := 0
  capacityGranularity1 : UInt64 := 0
  capacityGranularity2 : UInt64 := 0
  modelNumber : Vector Char 32 := Vector.replicate 32 '\x00'
  serialNumber : Vector Char 32 := Vector.replicate 32 '\x00'
  batteryType : Vector Char 32 := Vector.replicate 32 '\x00'
  oemInfo : Vector Char 32 := Vector.replicate 32 '\x00'
  deriving DecidableEq

/-- `struct battery_status`. The bits of `state` are 1 for discharging, 2 for charging and 4 for critical. -/
structure BatteryStatus where
  present : Bool := false
  currentNow : UInt64 := 0
  chargeNow : UInt64 := 0
  powerNow : UInt64 := 0
  energyNow : UInt64 := 0
  state : UInt64 := 0
  presentRate : UInt64 := 0
  remainingCapacity : UInt64 := 0
  presentVoltage : UInt64 := 0
  deriving DecidableEq

/-- `BATTERY_WARNING_PERCENT`, `BATTERY_LOW_PERCENT` and `BATTERY_CRITICAL_PERCENT`. -/
def batteryWarningPercent : UInt64 := 8
def batteryLowPercent : UInt64 := 4
def batteryCriticalPercent : UInt64 := 2

/-- `set_battery_status_attribute`. -/
def setBatteryStatusAttribute (name : String) (value : List Char) (status : BatteryStatus) : BatteryStatus :=
  if name = "status" then
    if strstr value "Discharging".toList then { status with state := status.state ||| 1 }
    else if strstr value "Charging".toList then { status with state := status.state ||| 2 }
    else status
  else if name = "capacity_level" then
    if strstr value "critical".toList then { status with state := status.state ||| 4 } else status
  else if name = "current_now" then { status with currentNow := strtoull value / 1000 }
  else if name = "charge_now" then { status with chargeNow := strtoull value / 1000 }
  else if name = "power_now" then { status with powerNow := strtoull value / 1000 }
  else if name = "energy_now" then { status with energyNow := strtoull value / 1000 }
  else if name = "voltage_now" then { status with presentVoltage := strtoull value / 1000 }
  else if name = "present" then
    if strstr value ['1'] then { status with present := true } else status
  else status

/-- `set_battery_info_attribute`. -/
def setBatteryInfoAttribute (name : String) (value : List Char) (info : BatteryInfo) : BatteryInfo :=
  if name = "present" then
    if strstr value ['1'] then { info with present := true } else info
  else if name = "charge_full_design" then { info with chargeFullDesign := strtoull value / 1000 }
  else if name = "charge_full" then { info with chargeFull := strtoull value / 1000 }
  else if name = "energy_full_design" then { info with energyFullDesign := strtoull value / 1000 }
  else if name = "energy_full" then { info with energyFull := strtoull value / 1000 }
  else if name = "voltage_min_design" then { info with designVoltage := strtoull value / 1000 }
  else if name = "model_name" then { info with modelNumber := strncpy info.modelNumber value 32 }
  else if name = "serial_number" then { info with serialNumber := strncpy info.serialNumber value 32 }
  else if name = "technology" then
    { info with
      batteryType :=
        if strstr value "Li-ion".toList then strncpy info.batteryType "LION\n".toList 6
        else if strstr value "Li-poly".toList then strncpy info.batteryType "LiP\n".toList 6
        else strncpy info.batteryType value 32
      batteryTechnology := .rechargeable }
  else if name = "manufacturer" then { info with oemInfo := strncpy info.oemInfo value 32 }
  else info

end Records

section Slots

/-- A directory `BAT<i>`: the regular files that can be opened, in the order of the directory, with their names
and contents. -/
structure Slot where
  files : List (String × List Char)
  names_nodup : (files.map Prod.fst).Nodup

/-- The record `update_battery_status` fills in for a slot. -/
def readBatteryStatus (slot : Slot) : BatteryStatus :=
  let status := slot.files.foldl
    (fun status file => setBatteryStatusAttribute file.1 (attribValue file.2) status) {}
  if status.chargeNow ≠ 0 ∨ status.currentNow ≠ 0 then
    { status with presentRate := status.currentNow, remainingCapacity := status.chargeNow }
  else { status with presentRate := status.powerNow, remainingCapacity := status.energyNow }

/-- What the files of a slot say, before the units are settled. -/
def readInfoAttributes (slot : Slot) : BatteryInfo :=
  slot.files.foldl (fun info file => setBatteryInfoAttribute file.1 (attribValue file.2) info) {}

/-- The capacities in the unit the battery reports in. -/
def settleUnit (info : BatteryInfo) : BatteryInfo :=
  if info.chargeFullDesign ≠ 0 then
    { info with
      powerUnit := .mA, designCapacity := info.chargeFullDesign, lastFullCapacity := info.chargeFull }
  else
    { info with
      powerUnit := .mW, designCapacity := info.energyFullDesign, lastFullCapacity := info.energyFull }

/-- The record `update_battery_info` fills in for a slot. -/
def readBatteryInfo (slot : Slot) : BatteryInfo :=
  let info := settleUnit (readInfoAttributes slot)
  { info with
    designCapacityWarning := info.lastFullCapacity * (batteryWarningPercent / 100)
    designCapacityLow := info.lastFullCapacity * (batteryLowPercent / 100)
    capacityGranularity1 := 1
    capacityGranularity2 := 1 }

/-- `/sys/class/power_supply`: its entries in the order of the directory, and whether the AC adapter is on. -/
structure PowerSupply where
  dirs : List (String × Slot)
  onAc : Bool

/-- `get_terminal_number`. `sscanf` takes the number through a long. -/
def getTerminalNumber (name : List Char) : ℤ :=
  let digits := (name.reverse.takeWhile Char.isDigit).reverse
  if digits = [] then -1
  else
    let value : ℕ := digits.foldl (fun n d => 10 * n + (d.toNat - '0'.toNat)) 0
    let long : ℕ := if value < 2 ^ 63 then value else 2 ^ 63 - 1
    Int.bmod long (2 ^ 32)

/-- The entries whose names start with BAT. -/
def PowerSupply.batteryDirs (supply : PowerSupply) : List (String × Slot) :=
  supply.dirs.filter fun dir => ['B', 'A', 'T'].isPrefixOf dir.1.toList

/-- `get_max_battery_index`. -/
def getMaxBatteryIndex (supply : PowerSupply) : ℤ :=
  supply.batteryDirs.foldl (fun maxIndex dir =>
    let index := getTerminalNumber dir.1.toList
    if -1 < index ∧ maxIndex < index then index else maxIndex) (-1)

/-- The slot of an index. `battery_slot_exists` asks whether there is one. -/
def PowerSupply.slot (supply : PowerSupply) (i : ℕ) : Option Slot :=
  (lookupKey Prod.fst ("BAT" ++ toString i) supply.dirs).map Prod.snd

/-- `get_num_batteries_present`. A file that is empty leaves in the buffer what is there. -/
def getNumBatteriesPresent (supply : PowerSupply) (stack : List Char) : ℕ :=
  (supply.batteryDirs.foldl (fun (data, count) dir =>
    match lookupKey Prod.fst "present" dir.2.files with
    | none => (data, count)
    | some file =>
      let data := if file.2 = [] then data else fgets 127 file.2
      (data, if strstr (cString data) ['1'] then count + 1 else count)) (stack, 0)).2

end Slots

section Arrays

/-- `last_info` and `last_status`, of the size `num_battery_structs_allocd`, and whether the pointers are left from
arrays that were freed, of which nothing can be read. -/
@[ext] structure Batteries where
  lastInfo : List BatteryInfo
  lastStatus : List BatteryStatus
  freed : Bool
  sameSize : lastInfo.length = lastStatus.length
  gone : freed = true → lastStatus = []

/-- `num_battery_structs_allocd`. -/
def Batteries.allocd (b : Batteries) : ℕ := b.lastStatus.length

variable (b : Batteries)

def Batteries.status (i : Fin b.allocd) : BatteryStatus := b.lastStatus.get i
def Batteries.info (i : Fin b.allocd) : BatteryInfo := b.lastInfo.get (i.cast b.sameSize.symm)

/-- The capacity of a full battery, or the one it was designed with. -/
def fullCapacity (info : BatteryInfo) : UInt64 :=
  if info.lastFullCapacity ≠ 0 then info.lastFullCapacity else info.designCapacity

/-- A sum over the batteries that are present. -/
def totalOver (f : Fin b.allocd → UInt64) : UInt64 :=
  (List.finRange b.allocd).foldl (fun total i => if (b.status i).present then total + f i else total) 0

/-- `get_total_charge`. -/
def getTotalCharge : UInt64 := totalOver b fun i => (b.status i).remainingCapacity

/-- `get_total_max_charge`. -/
def getTotalMaxCharge : UInt64 := totalOver b fun i => fullCapacity (b.info i)

/-- `get_overall_battery_percentage`. -/
def getOverallBatteryPercentage : UInt32 :=
  let total := getTotalMaxCharge b
  if total = 0 then 0 else min (100 * getTotalCharge b / total).toUInt32 100

/-- `enum BATTERY_LEVEL`. -/
inductive BatteryLevel
  | normal
  | warning
  | low
  | critical
  deriving DecidableEq, Repr

/-- `get_current_battery_level`. -/
def getCurrentBatteryLevel : BatteryLevel :=
  let percentage := getOverallBatteryPercentage b
  if percentage ≤ batteryCriticalPercent.toUInt32 then .critical
  else if percentage ≤ batteryLowPercent.toUInt32 then .low
  else if percentage ≤ batteryWarningPercent.toUInt32 then .warning
  else .normal

end Arrays

end Xctools.Xcpmd
