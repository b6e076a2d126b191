import Xctools.Machine.Outcome
import Xctools.Machine.Traced
import Xctools.Xcpmd.BifRecord

/-! `update_batteries`. The arrays of the records are resized to the slots that are there, filled anew and compared
with their copies; each element that is touched on the way is kept in the trace, beside what is written and sent. -/
namespace Xctools.Xcpmd
open Machine

section Effects

/-- The arrays of the last update, and the copies of the ones before. -/
inductive StructArray
  | lastInfo
  | lastStatus
  | oldInfo
  | oldStatus
  deriving DecidableEq, Repr

/-- A use of an array: of an element, with the size that the array has then, or of the array as a whole. -/
inductive Access
  | element (array : StructArray) (index size : ℕ) (freed : Bool)
  | whole (array : StructArray) (freed : Bool)
  deriving DecidableEq, Repr

/-- The element is inside the array, and the array has not been freed. -/
def Access.Valid : Access → Prop
  | element _ index size freed => index < size ∧ freed = false
  | whole _ freed => freed = false

/-- The paths of xenstore that `battery.c` uses, those of a battery with its index. -/
inductive XsPath
  | battery (i : ℕ)
  | bif (i : ℕ)
  | bst (i : ℕ)
  | present (i : ℕ)
  | infoEvent (i : ℕ)
  | statusEvent (i : ℕ)
  | batteryPresent
  | bifFirst
  | bifSecond
  | bstFirst
  | bstSecond
  | currentBatteryLevel
  | batteryStatusChange
  deriving DecidableEq, Repr

/-- The signals on the bus. -/
inductive Signal
  | batteryInfoChanged
  | batteryStatusChanged
  | numBatteriesChanged
  | batteryLevelNotification
  deriving DecidableEq, Repr

inductive BatteryEffect
  | access (a : Access)
  | mkdir (path : XsPath)
  | write (path : XsPath) (value : List Char)
  | rm (path : XsPath)
  | notify (signal : Signal)
  deriving DecidableEq, Repr

/-- What one call of `update_batteries` meets: the slots, and what is read behind the arrays and on the stack. -/
structure Poll where
  supply : PowerSupply
  strayStatus : ℕ → BatteryStatus
  strayOld : ℕ → BatteryStatus
  behind : ℕ → List Char
  stack : List Char

/-- The array size for the slots that are there. -/
def Poll.size (poll : Poll) : ℕ := (getMaxBatteryIndex poll.supply + 1).toNat

/-- The record of an index; one without a slot has a record of zeros. -/
def Poll.statusAt (poll : Poll) (i : ℕ) : BatteryStatus := ((poll.supply.slot i).map readBatteryStatus).getD {}

def Poll.infoAt (poll : Poll) (i : ℕ) : BatteryInfo := ((poll.supply.slot i).map readBatteryInfo).getD {}

end Effects

section Records
variable (poll : Poll) (b : Batteries)

def readStatus (i : ℕ) : BatteryEffect := .access (.element .lastStatus i b.allocd b.freed)
def readInfo (i : ℕ) : BatteryEffect := .access (.element .lastInfo i b.allocd b.freed)

/-- The arrays with so many elements: the old ones are released or reallocated, and cleared. Released arrays leave
their pointers behind, and `realloc` does not come back from those. -/
def resize (n : ℕ) : Outcome Batteries × List BatteryEffect :=
  if n = b.allocd then (.ok b,[])
  else if n = 0 then
    (.ok ⟨[],[],true,rfl,fun _ => rfl⟩,[.access (.whole .lastInfo b.freed), .access (.whole .lastStatus b.freed)])
  else if b.freed then (.error .wild,[.access (.whole .lastInfo true)])
  else
    (.ok ⟨List.replicate n {},List.replicate n {},false,by rw [List.length_replicate, List.length_replicate],
        fun h => by cases h⟩,
      [.access (.whole .lastInfo false), .access (.whole .lastStatus false)])

/-- `update_battery_status`. -/
def updateBatteryStatus (i : ℕ) : Batteries × List BatteryEffect :=
  if b.allocd ≤ i then (b,[])
  else
    (⟨b.lastInfo,b.lastStatus.set i (poll.statusAt i),b.freed,by rw [List.length_set]; exact b.sameSize,
        fun h => by rw [b.gone h, List.set_nil]⟩,
      [readStatus b i])

/-- `update_battery_info`. -/
def updateBatteryInfo (i : ℕ) : Batteries × List BatteryEffect :=
  if b.allocd ≤ i then (b,[])
  else
    (⟨b.lastInfo.set i (poll.infoAt i),b.lastStatus,b.freed,by rw [List.length_set]; exact b.sameSize,b.gone⟩,
      [readInfo b i])

/-- A round of the loop that updates the records. -/
def updateRecords (i : ℕ) : Batteries × List BatteryEffect :=
  let status := updateBatteryStatus poll b i
  let info := updateBatteryInfo poll status.1 i
  (info.1,status.2 ++ info.2)

end Records

section Xenstore
variable (poll : Poll) (b : Batteries) (i : ℕ)

/-- Whether xenstore is told that there is a battery. -/
def writeBatteryPresent : BatteryEffect :=
  .write .batteryPresent (if getNumBatteriesPresent poll.supply poll.stack = 0 then ['0'] else ['1'])

/-- `cleanup_removed_battery`. -/
def cleanupRemovedBattery : List BatteryEffect :=
  [ .rm (.battery i), .rm (if 0 < i then .bstSecond else .bstFirst), .rm (if 0 < i then .bifSecond else .bifFirst),
    writeBatteryPresent poll ]

/-- The elements that the overall percentage is computed from. -/
def readTotals : List BatteryEffect :=
  (List.finRange b.allocd).map (fun j => readStatus b j.val) ++
    (List.finRange b.allocd).flatMap fun j =>
      readStatus b j.val :: if (b.status j).present then [readInfo b j.val] else []

/-- The number an enumerator of the battery levels stands for. -/
def BatteryLevel.text : BatteryLevel → List Char
  | normal => ['0']
  | warning => ['1']
  | low => ['2']
  | critical => ['3']

def buildBst (status : BatteryStatus) : List Char :=
  let bst := snprintf (List.replicate 35 '\x00') 0 3 (hexByte 16)
  cString ([(2, status.state), (10, status.presentRate), (18, status.remainingCapacity),
    (26, status.presentVoltage)].foldl (fun buffer field => writeUlongLsbFirst buffer field.1 field.2) bst)

/-- What is read at an index of `last_status`; behind the array this may be anything. -/
def statusRead : BatteryStatus := b.lastStatus[i]?.getD (poll.strayStatus i)

/-- `write_battery_status_to_xenstore`. -/
def writeBatteryStatusToXenstore : List BatteryEffect :=
  (if b.allocd ≤ i then cleanupRemovedBattery poll i else []) ++
  (writeBatteryPresent poll ::
    if getNumBatteriesPresent poll.supply poll.stack = 0 then []
    else readStatus b i ::
      if (statusRead poll b i).present then
        [ .mkdir (.battery i), .write (.bst i) (buildBst (statusRead poll b i)), .write (.present i) ['1'],
          .write (if i = 0 then .bstFirst else .bstSecond) (buildBst (statusRead poll b i)) ] ++ readTotals b ++
        if getCurrentBatteryLevel b = .normal ∨ poll.supply.onAc then [.rm .currentBatteryLevel]
        else [.write .currentBatteryLevel (getCurrentBatteryLevel b).text, .notify .batteryLevelNotification]
      else [.rm (.bst i), .write (.present i) ['0']])

/-- `write_battery_info_to_xenstore`. -/
def writeBatteryInfoToXenstore : List BatteryEffect :=
  if poll.supply.slot i = none then cleanupRemovedBattery poll i
  else
    match b.lastInfo[i]? with
    | none => cleanupRemovedBattery poll i
    | some info =>
      [ readInfo b i, .mkdir (.battery i), .write (.bif i) (buildBif info (poll.behind i)),
        .write (if i = 0 then .bifFirst else .bifSecond) (buildBif info (poll.behind i)) ]

end Xenstore

section Update
variable (poll : Poll) (old b : Batteries) (i : ℕ)

def readOldStatus : BatteryEffect := .access (.element .oldStatus i old.allocd false)
def readOldInfo : BatteryEffect := .access (.element .oldInfo i old.allocd false)

/-- What is read at an index of `old_status`. -/
def oldStatusRead : BatteryStatus := old.lastStatus[i]?.getD (poll.strayOld i)

/-- The first part of a round: the records are written if there is a battery, or was one. -/
def syncBattery : List BatteryEffect :=
  let writes := writeBatteryStatusToXenstore poll b i ++ writeBatteryInfoToXenstore poll b i
  readStatus b i ::
    if (statusRead poll b i).present then writes
    else readOldStatus old i :: if (oldStatusRead poll old i).present then writes else []

/-- The second part of a round: the events of a battery whose records are not what they were. -/
def compareBattery : List BatteryEffect :=
  if i < old.allocd ∧ i < b.allocd then
    [readOldInfo old i, readInfo b i] ++
    (if old.lastInfo[i]? ≠ b.lastInfo[i]? then [BatteryEffect.write (.infoEvent i) ['1']] else []) ++
    [readOldStatus old i, readStatus b i] ++
    (if old.lastStatus[i]? ≠ b.lastStatus[i]? then [BatteryEffect.write (.statusEvent i) ['1']] else []) ++
    [readOldStatus old i, readStatus b i]
  else if old.allocd < b.allocd then
    [BatteryEffect.write (.infoEvent i) ['1'], BatteryEffect.write (.statusEvent i) ['1'], readStatus b i] ++
    (if i < old.allocd then [readOldStatus old i, readStatus b i] else [readStatus b i])
  else if b.allocd < old.allocd then
    [BatteryEffect.write (.infoEvent i) ['1'], BatteryEffect.write (.statusEvent i) ['1'], readOldStatus old i] ++
    (if i < b.allocd then [readOldStatus old i, readStatus b i] else [readOldStatus old i])
  else []

/-- Whether a round sets `present_batteries_changed`. -/
def presenceChanged : Bool :=
  if i < old.allocd ∧ i < b.allocd then (oldStatusRead poll old i).present != (statusRead poll b i).present
  else if old.allocd < b.allocd then
    if i < old.allocd then (oldStatusRead poll old i).present != (statusRead poll b i).present
    else (statusRead poll b i).present
  else if b.allocd < old.allocd then
    if i < b.allocd then (oldStatusRead poll old i).present != (statusRead poll b i).present
    else (oldStatusRead poll old i).present
  else false

/-- The signals at the end: whole arrays are compared if they are of one size. -/
def notifyChanges : List BatteryEffect :=
  (if old.allocd = b.allocd then
    [BatteryEffect.access (.whole .oldInfo false), BatteryEffect.access (.whole .lastInfo b.freed)] else []) ++
  (if old.allocd ≠ b.allocd ∨ old.lastInfo ≠ b.lastInfo then [BatteryEffect.notify .batteryInfoChanged] else []) ++
  (if old.allocd = b.allocd then
    [BatteryEffect.access (.whole .oldStatus false), BatteryEffect.access (.whole .lastStatus b.freed)] else []) ++
  (if old.allocd ≠ b.allocd ∨ old.lastStatus ≠ b.lastStatus then
    [BatteryEffect.write .batteryStatusChange ['1'], BatteryEffect.notify .batteryStatusChanged] else []) ++
  if (List.range (max b.allocd old.allocd)).any (presenceChanged poll old b) then
    [BatteryEffect.notify .numBatteriesChanged] else []

/-- The arrays after the first loop, and what is touched to get there. -/
def refreshRecords : Outcome Batteries × List BatteryEffect :=
  let copied := [BatteryEffect.access (.whole .lastStatus old.freed), BatteryEffect.access (.whole .lastInfo old.freed)]
  match resize old poll.size with
  | (.error e,touched) => (.error e,copied ++ touched)
  | (.ok resized,touched) =>
    let filled := traced (updateRecords poll) resized (List.range (max resized.allocd old.allocd))
    (.ok filled.1,copied ++ touched ++ filled.2)

/-- `update_batteries`, on a platform that may be known to have no batteries. -/
def updateBatteries (noBatteries : Bool) (old : Batteries) (poll : Poll) : Outcome Batteries × List BatteryEffect :=
  if noBatteries then (.ok old,[])
  else
    match refreshRecords poll old with
    | (.error e,touched) => (.error e,touched)
    | (.ok fresh,touched) =>
      (.ok fresh,touched ++
        ((List.range (max fresh.allocd old.allocd)).flatMap fun i =>
          syncBattery poll old fresh i ++ compareBattery old fresh i) ++
        notifyChanges poll old fresh)

/-- The next update, where the process still runs. -/
def nextUpdate (noBatteries : Bool) (s : Outcome Batteries) (poll : Poll) : Outcome Batteries × List BatteryEffect :=
  match s with
  | .ok old => updateBatteries noBatteries old poll
  | .error e => (.error e,[])

/-- The arrays before the first update: none, and null pointers. -/
def noBatteriesYet : Batteries := ⟨[],[],false,rfl,fun _ => rfl⟩

end Update

section Refreshed
variable (poll : Poll) (b old : Batteries)

/-- What a use of an array does is right where the use is valid; what goes out is no use. -/
def BatteryEffect.Safe : BatteryEffect → Prop
  | access a => a.Valid
  | _ => True

/-- The effects by which an update announces that a battery has changed, or their number. -/
def BatteryEffect.announces : BatteryEffect → Bool
  | write (.infoEvent _) _ => true
  | write (.statusEvent _) _ => true
  | notify .numBatteriesChanged => true
  | _ => false

/-- What goes out without announcing such a change. -/
def BatteryEffect.plain : BatteryEffect → Bool
  | access _ => false
  | x => !x.announces

@[simp] lemma safe_write (path : XsPath) (value : List Char) : (BatteryEffect.write path value).Safe := trivial
@[simp] lemma safe_notify (signal : Signal) : (BatteryEffect.notify signal).Safe := trivial

lemma safe_of_plain {x : BatteryEffect} (h : x.plain = true) : x.Safe := by
  cases x with
  | access a => cases h
  | _ => trivial

lemma announces_of_plain {x : BatteryEffect} (h : x.plain = true) : x.announces = false := by
  cases x with
  | access a => cases h
  | mkdir path => rfl
  | write path value => exact (Bool.not_eq_true' _).mp h
  | rm path => rfl
  | notify signal => exact (Bool.not_eq_true' _).mp h

/-- Pointers are left behind only where there is nothing to be read. -/
lemma not_freed_of_pos (hpos : 0 < b.allocd) : b.freed = false := by
  cases hfreed : b.freed with
  | false => rfl
  | true =>
    rw [Batteries.allocd, b.gone hfreed] at hpos
    exact absurd hpos (Nat.lt_irrefl 0)

variable {b} in
lemma safe_readStatus {i : ℕ} (hi : i < b.allocd) : (readStatus b i).Safe :=
  ⟨hi,not_freed_of_pos b (Nat.zero_lt_of_lt hi)⟩

variable {b} in
lemma safe_readInfo {i : ℕ} (hi : i < b.allocd) : (readInfo b i).Safe :=
  ⟨hi,not_freed_of_pos b (Nat.zero_lt_of_lt hi)⟩

/-- An index behind the arrays changes nothing. -/
lemma updateBatteryStatus_fst (i : ℕ) : (updateBatteryStatus poll b i).1 =
    ⟨b.lastInfo,b.lastStatus.set i (poll.statusAt i),b.freed,by rw [List.length_set]; exact b.sameSize,
      fun h => by rw [b.gone h, List.set_nil]⟩ := by
  unfold updateBatteryStatus
  split_ifs with h
  · exact Batteries.ext rfl (List.set_eq_of_length_le h).symm rfl
  · rfl

lemma updateBatteryInfo_fst (i : ℕ) : (updateBatteryInfo poll b i).1 =
    ⟨b.lastInfo.set i (poll.infoAt i),b.lastStatus,b.freed,by rw [List.length_set]; exact b.sameSize,b.gone⟩ := by
  unfold updateBatteryInfo
  split_ifs with h
  · have hlength : b.lastInfo.length ≤ i := b.sameSize.trans_le h
    exact Batteries.ext (List.set_eq_of_length_le hlength).symm rfl rfl
  · rfl

lemma updateRecords_fst (i : ℕ) : (updateRecords poll b i).1 =
    ⟨b.lastInfo.set i (poll.infoAt i),b.lastStatus.set i (poll.statusAt i),b.freed,
      by rw [List.length_set, List.length_set]; exact b.sameSize,fun h => by rw [b.gone h, List.set_nil]⟩ := by
  simp only [updateRecords, updateBatteryInfo_fst, updateBatteryStatus_fst]

lemma safe_updateBatteryStatus (i : ℕ) : ∀ x ∈ (updateBatteryStatus poll b i).2, x.Safe := by
  unfold updateBatteryStatus
  split_ifs with hi
  · exact List.forall_mem_nil _
  · exact List.forall_mem_singleton.mpr (safe_readStatus (Nat.lt_of_not_le hi))

lemma safe_updateBatteryInfo (i : ℕ) : ∀ x ∈ (updateBatteryInfo poll b i).2, x.Safe := by
  unfold updateBatteryInfo
  split_ifs with hi
  · exact List.forall_mem_nil _
  · exact List.forall_mem_singleton.mpr (safe_readInfo (Nat.lt_of_not_le hi))

lemma safe_updateRecords (i : ℕ) : ∀ x ∈ (updateRecords poll b i).2, x.Safe :=
  List.forall_mem_append.mpr ⟨safe_updateBatteryStatus poll b i,safe_updateBatteryInfo poll _ i⟩

lemma quiet_updateRecords (i : ℕ) : ∀ x ∈ (updateRecords poll b i).2, x.announces = false := by
  have hstatus : ∀ x ∈ (updateBatteryStatus poll b i).2, x.announces = false := by
    unfold updateBatteryStatus
    split_ifs <;> simp [BatteryEffect.announces, readStatus]
  have hinfo : ∀ c, ∀ x ∈ (updateBatteryInfo poll c i).2, x.announces = false := fun c => by
    unfold updateBatteryInfo
    split_ifs <;> simp [BatteryEffect.announces, readInfo]
  exact List.forall_mem_append.mpr ⟨hstatus,hinfo _⟩

/-- One more element of an array is set. -/
lemma getElem?_set_next {α : Type} {l l' : List α} {f : ℕ → α} {n : ℕ}
    (h : ∀ i, l'[i]? = l[i]?.map fun x => if i < n then f i else x) (i : ℕ) :
    (l'.set n (f n))[i]? = l[i]?.map fun x => if i < n + 1 then f i else x := by
  by_cases hi : n = i
  · subst hi
    rw [List.getElem?_set_self', h]
    cases l[n]? <;> simp
  · have hlt : i < n ↔ i < n + 1 := by omega
    rw [List.getElem?_set_ne hi, h]
    simp only [hlt]

/-- The records up to an index are those of the slots. -/
lemma getElem_traced_updateRecords (n : ℕ) :
    (∀ i, (traced (updateRecords poll) b (List.range n)).1.lastStatus[i]? =
      b.lastStatus[i]?.map fun status => if i < n then poll.statusAt i else status) ∧
    (∀ i, (traced (updateRecords poll) b (List.range n)).1.lastInfo[i]? =
      b.lastInfo[i]?.map fun info => if i < n then poll.infoAt i else info) ∧
    (traced (updateRecords poll) b (List.range n)).1.freed = b.freed := by
  induction n with
  | zero => simp [traced]
  | succ n ih =>
    obtain ⟨hstatus,hinfo,hfreed⟩ := ih
    rw [List.range_succ, traced_append]
    simp only [traced, updateRecords_fst]
    refine ⟨fun i => ?_,fun i => ?_,hfreed⟩
    · exact getElem?_set_next hstatus i
    · exact getElem?_set_next hinfo i

/-- The arrays can be resized unless they were freed and are needed again. -/
lemma resize_ok {n : ℕ} (h : old.freed = true → n = 0) : ∃ resized touched, resize old n = (.ok resized,touched) ∧
    resized.allocd = n ∧ (old.freed = false → resized.freed = decide (n = 0 ∧ old.allocd ≠ 0)) ∧
    (∀ x ∈ touched, x = .access (.whole .lastInfo old.freed) ∨ x = .access (.whole .lastStatus old.freed)) := by
  unfold resize
  split_ifs with hsame hzero hfreed
  · refine ⟨old,[],rfl,hsame.symm,fun hold => ?_,List.forall_mem_nil _⟩
    rw [hold, eq_comm, decide_eq_false_iff_not, hsame]
    exact fun hand => hand.2 hand.1
  · refine ⟨_,_,rfl,hzero.symm,fun _ => ?_,by simp⟩
    rw [eq_comm, decide_eq_true_iff]
    exact ⟨hzero,fun hold => hsame (hzero.trans hold.symm)⟩
  · exact absurd (h hfreed) hzero
  · refine ⟨_,_,rfl,List.length_replicate,fun _ => ?_,by simp [Bool.eq_false_iff.mpr hfreed]⟩
    rw [eq_comm, decide_eq_false_iff_not]
    exact fun hand => hzero hand.1

lemma resize_error {n : ℕ} (h : old.freed = true) (hn : n ≠ 0) : resize old n = (.error .wild,[.access (.whole .lastInfo true)]) := by
  have hallocd : old.allocd = 0 := by rw [Batteries.allocd, old.gone h, List.length_nil]
  unfold resize
  rw [if_neg (by rwa [hallocd]), if_neg hn, if_pos h]

/-- What is in an array of some size is what is at its indices. -/
lemma eq_map_range {α : Type} {l l' : List α} {f : ℕ → α} {n : ℕ} (hn : l.length ≤ n)
    (h : ∀ i, l'[i]? = l[i]?.map fun x => if i < n then f i else x) : l' = (List.range l.length).map f := by
  apply List.ext_getElem?
  intro i
  rw [h, List.getElem?_map]
  by_cases hi : i < l.length
  · rw [List.getElem?_eq_getElem hi, List.getElem?_range hi, Option.map_some, Option.map_some,
      if_pos (Nat.lt_of_lt_of_le hi hn)]
  · rw [List.getElem?_eq_none (Nat.le_of_not_lt hi), List.getElem?_eq_none (by simpa using hi)]
    rfl

/-- The arrays of a poll: the records of its slots. -/
structure RecordsOf (b : Batteries) : Prop where
  status : b.lastStatus = (List.range poll.size).map poll.statusAt
  info : b.lastInfo = (List.range poll.size).map poll.infoAt

variable {poll} {b old}

lemma RecordsOf.allocd (h : RecordsOf poll b) : b.allocd = poll.size := by
  rw [Batteries.allocd, h.status, List.length_map, List.length_range]

/-- After the first loop the arrays hold the records of the slots, and the loop itself stays inside the arrays. -/
theorem refreshRecords_ok (h : old.freed = true → poll.size = 0) : ∃ b touched, refreshRecords poll old = (.ok b,touched) ∧
    RecordsOf poll b ∧ (old.freed = false → b.freed = decide (poll.size = 0 ∧ old.allocd ≠ 0) ∧ ∀ x ∈ touched, x.Safe) ∧
    ∀ x ∈ touched, x.announces = false := by
  obtain ⟨resized,touched,hresize,hsize,hfreed,htouched⟩ := resize_ok old h
  obtain ⟨hstatus,hinfo,hsame⟩ := getElem_traced_updateRecords poll resized (max resized.allocd old.allocd)
  have hle : resized.lastStatus.length ≤ max resized.allocd old.allocd := Nat.le_max_left _ _
  have hinfos := eq_map_range (resized.sameSize.trans_le hle) hinfo
  rw [resized.sameSize] at hinfos
  refine ⟨_,_,by simp only [refreshRecords, hresize]; rfl,⟨?_,?_⟩,fun hold => ⟨?_,?_⟩,?_⟩
  · rw [eq_map_range hle hstatus, ← hsize]
    rfl
  · rw [hinfos, ← hsize]
    rfl
  · rw [hsame, hfreed hold]
  · rw [hold] at htouched
    rw [List.forall_mem_append, List.forall_mem_append]
    refine ⟨⟨by simp [BatteryEffect.Safe, Access.Valid, hold],fun x hx => ?_⟩,?_⟩
    · rcases htouched x hx with rfl | rfl <;> exact rfl
    · exact forall_traced (I := fun _ => True) (fun _ _ _ => trivial) (fun b i _ => safe_updateRecords poll b i) trivial _
  · rw [List.forall_mem_append, List.forall_mem_append]
    refine ⟨⟨by simp [BatteryEffect.announces],fun x hx => ?_⟩,?_⟩
    · rcases htouched x hx with rfl | rfl <;> rfl
    · exact forall_traced (I := fun _ => True) (fun _ _ _ => trivial) (fun b i _ => quiet_updateRecords poll b i) trivial _

end Refreshed

section Rounds
variable {poll : Poll} {old b : Batteries} {i : ℕ}

/-- What the functions that write to xenstore do: they announce nothing, and read the status they are about, or
elements of the arrays. -/
inductive Routine (b : Batteries) (i : ℕ) : BatteryEffect → Prop
  | out (x : BatteryEffect) : x.plain = true → Routine b i x
  | own : Routine b i (readStatus b i)
  | status (j : ℕ) : j < b.allocd → Routine b i (readStatus b j)
  | info (j : ℕ) : j < b.allocd → Routine b i (readInfo b j)

lemma Routine.safe {x : BatteryEffect} (h : Routine b i x) (hi : i < b.allocd) : x.Safe := by
  cases h with
  | out x hplain => exact safe_of_plain hplain
  | own => exact safe_readStatus hi
  | status j hj => exact safe_readStatus hj
  | info j hj => exact safe_readInfo hj

lemma Routine.quiet {x : BatteryEffect} (h : Routine b i x) : x.announces = false := by
  cases h with
  | out x hplain => exact announces_of_plain hplain
  | own => rfl
  | status j _ => rfl
  | info j _ => rfl

lemma routine_of_plain {effects : List BatteryEffect} (h : ∀ x ∈ effects, x.plain = true) :
    ∀ x ∈ effects, Routine b i x := fun x hx => .out x (h x hx)

lemma routine_cleanupRemovedBattery : ∀ x ∈ cleanupRemovedBattery poll i, Routine b i x :=
  routine_of_plain (by simp [cleanupRemovedBattery, writeBatteryPresent, BatteryEffect.plain, BatteryEffect.announces])

lemma routine_readTotals : ∀ x ∈ readTotals b, Routine b i x := by
  unfold readTotals
  rw [List.forall_mem_append, List.forall_mem_map, List.forall_mem_flatMap]
  refine ⟨fun j _ => .status j j.isLt,fun j _ => List.forall_mem_cons.mpr ⟨.status j j.isLt,?_⟩⟩
  split_ifs
  · exact List.forall_mem_singleton.mpr (.info j j.isLt)
  · exact List.forall_mem_nil _

lemma routine_writeBatteryStatusToXenstore : ∀ x ∈ writeBatteryStatusToXenstore poll b i, Routine b i x := by
  have htotals : ∀ x ∈ readTotals b, Routine b i x := routine_readTotals
  unfold writeBatteryStatusToXenstore
  rw [List.forall_mem_append, List.forall_mem_cons]
  refine ⟨?_,.out _ rfl,?_⟩
  · split_ifs
    · exact routine_cleanupRemovedBattery
    · exact List.forall_mem_nil _
  · by_cases hnum : getNumBatteriesPresent poll.supply poll.stack = 0
    · rw [if_pos hnum]
      exact List.forall_mem_nil _
    · rw [if_neg hnum, List.forall_mem_cons]
      refine ⟨.own,?_⟩
      by_cases hpresent : (statusRead poll b i).present = true
      · rw [if_pos hpresent, List.forall_mem_append, List.forall_mem_append]
        refine ⟨⟨?_,htotals⟩,?_⟩
        · split_ifs <;> exact routine_of_plain (by simp [BatteryEffect.plain, BatteryEffect.announces])
        · split_ifs <;> exact routine_of_plain (by simp [BatteryEffect.plain, BatteryEffect.announces])
      · rw [if_neg hpresent]
        exact routine_of_plain (by simp [BatteryEffect.plain, BatteryEffect.announces])

lemma routine_writeBatteryInfoToXenstore : ∀ x ∈ writeBatteryInfoToXenstore poll b i, Routine b i x := by
  unfold writeBatteryInfoToXenstore
  by_cases hslot : poll.supply.slot i = none
  · rw [if_pos hslot]
    exact routine_cleanupRemovedBattery
  · rw [if_neg hslot]
    cases hinfo : b.lastInfo[i]? with
    | none => exact routine_cleanupRemovedBattery
    | some info =>
      have hi : i < b.allocd := (List.getElem?_eq_some_iff.mp hinfo).1.trans_eq b.sameSize
      refine List.forall_mem_cons.mpr ⟨.info i hi,?_⟩
      split_ifs <;> exact routine_of_plain (by simp [BatteryEffect.plain, BatteryEffect.announces])

lemma routine_writes (poll : Poll) (b : Batteries) (i : ℕ) :
    ∀ x ∈ writeBatteryStatusToXenstore poll b i ++ writeBatteryInfoToXenstore poll b i, Routine b i x :=
  List.forall_mem_append.mpr ⟨routine_writeBatteryStatusToXenstore,routine_writeBatteryInfoToXenstore⟩

/-- A round is right exactly if its index is in the new array, and in the old one unless there is a battery now. -/
lemma safe_syncBattery_iff : (∀ x ∈ syncBattery poll old b i, x.Safe) ↔
    i < b.allocd ∧ (i < old.allocd ∨ (statusRead poll b i).present = true) := by
  unfold syncBattery
  rw [List.forall_mem_cons]
  constructor
  · rintro ⟨hread,hrest⟩
    refine ⟨hread.1,?_⟩
    by_cases hpresent : (statusRead poll b i).present = true
    · exact .inr hpresent
    · rw [if_neg hpresent, List.forall_mem_cons] at hrest
      exact .inl hrest.1.1
  · rintro ⟨hi,hold⟩
    have hwrites : ∀ x ∈ writeBatteryStatusToXenstore poll b i ++ writeBatteryInfoToXenstore poll b i, x.Safe :=
      fun x hx => (routine_writes poll b i x hx).safe hi
    refine ⟨safe_readStatus hi,?_⟩
    split_ifs with hpresent hwas
    · exact hwrites
    · exact List.forall_mem_cons.mpr ⟨⟨hold.resolve_right hpresent,rfl⟩,hwrites⟩
    · exact List.forall_mem_singleton.mpr ⟨hold.resolve_right hpresent,rfl⟩

/-- The comparison of a round looks at the arrays only where the index is inside. -/
lemma safe_compareBattery (hi : i < b.allocd) : ∀ x ∈ compareBattery old b i, x.Safe := by
  have hstatus : (readStatus b i).Safe := safe_readStatus hi
  have hinfo : (readInfo b i).Safe := safe_readInfo hi
  have holdStatus : i < old.allocd → (readOldStatus old i).Safe := fun hlt => ⟨hlt,rfl⟩
  have holdInfo : i < old.allocd → (readOldInfo old i).Safe := fun hlt => ⟨hlt,rfl⟩
  unfold compareBattery
  by_cases hlt : i < old.allocd
  · rw [if_pos ⟨hlt,hi⟩]
    split_ifs <;> simp [hstatus, hinfo, holdStatus hlt, holdInfo hlt]
  · rw [if_neg fun hboth => hlt hboth.1, if_pos (by omega), if_neg hlt]
    simp [hstatus]

lemma safe_round_iff : (∀ x ∈ syncBattery poll old b i ++ compareBattery old b i, x.Safe) ↔
    i < b.allocd ∧ (i < old.allocd ∨ (statusRead poll b i).present = true) := by
  rw [List.forall_mem_append, safe_syncBattery_iff, and_iff_left_iff_imp]
  exact fun hround => safe_compareBattery hround.1

end Rounds

section Runs
variable {poll : Poll} {old b : Batteries}

lemma RecordsOf.statusRead (h : RecordsOf poll b) {i : ℕ} (hi : i < poll.size) : statusRead poll b i = poll.statusAt i := by
  rw [Xcpmd.statusRead, h.status, List.getElem?_map, List.getElem?_range hi]
  rfl

lemma safe_notifyChanges (h : b.allocd = old.allocd → b.freed = false) :
    ∀ x ∈ notifyChanges poll old b, x.Safe := by
  have hwhole : ∀ array, (BatteryEffect.access (.whole array false)).Safe := fun array => rfl
  unfold notifyChanges
  by_cases hsame : old.allocd = b.allocd
  · rw [if_pos hsame, if_pos hsame, h hsame.symm]
    split_ifs <;> simp [hwhole]
  · rw [if_neg hsame, if_neg hsame]
    split_ifs <;> simp

/-- An update of arrays that were not freed comes to its end. -/
lemma updateBatteries_ok {touched : List BatteryEffect} (h : refreshRecords poll old = (.ok b,touched)) :
    updateBatteries false old poll = (.ok b,touched ++
      ((List.range (max b.allocd old.allocd)).flatMap fun i => syncBattery poll old b i ++ compareBattery old b i) ++
      notifyChanges poll old b) := by
  simp only [updateBatteries, h, Bool.false_eq_true, if_false]

/-- An update stays inside the arrays exactly if these do not shrink, and have batteries at all new indices. -/
lemma safe_updateBatteries_iff (h : old.freed = false) : (∀ x ∈ (updateBatteries false old poll).2, x.Safe) ↔
    old.allocd ≤ poll.size ∧ ∀ i, old.allocd ≤ i → i < poll.size → (poll.statusAt i).present = true := by
  obtain ⟨b,touched,hrefresh,hrecords,hsafe,-⟩ :=
    @refreshRecords_ok poll old fun hfreed => absurd (h.symm.trans hfreed) Bool.false_ne_true
  obtain ⟨hfreed,htouched⟩ := hsafe h
  have hsize := hrecords.allocd
  have hnotify : ∀ x ∈ notifyChanges poll old b, x.Safe := by
    apply safe_notifyChanges
    intro hsame
    rw [hsize] at hsame
    rw [hfreed, decide_eq_false_iff_not, hsame]
    exact fun hand => hand.2 hand.1
  have hupdate : (∀ x ∈ (updateBatteries false old poll).2, x.Safe) ↔ ∀ i < max poll.size old.allocd,
      i < poll.size ∧ (i < old.allocd ∨ (statusRead poll b i).present = true) := by
    rw [updateBatteries_ok hrefresh]
    rw [List.forall_mem_append, List.forall_mem_append, and_iff_left hnotify, and_iff_right htouched,
      List.forall_mem_flatMap]
    simp only [List.mem_range, hsize, safe_round_iff]
  rw [hupdate]
  constructor
  · intro hrounds
    constructor
    · by_contra hshrunk
      have hlast := (hrounds poll.size (by omega)).1
      omega
    · intro i hi hlt
      obtain ⟨-,hpresent⟩ := hrounds i (by omega)
      rw [hrecords.statusRead hlt] at hpresent
      exact hpresent.resolve_left (Nat.not_lt_of_le hi)
  · rintro ⟨hle,hnew⟩ i hi
    have hlt : i < poll.size := by omega
    refine ⟨hlt,?_⟩
    rw [hrecords.statusRead hlt]
    by_cases hold : i < old.allocd
    · exact .inl hold
    · exact .inr (hnew i (Nat.le_of_not_lt hold) hlt)

/-- From update to update the arrays do not shrink, and where they grow there is a battery at each new index. -/
def GrowsByBatteries : ℕ → List Poll → Prop
  | _, [] => True
  | n, poll :: polls => n ≤ poll.size ∧ (∀ i, n ≤ i → i < poll.size → (poll.statusAt i).present = true) ∧
    GrowsByBatteries poll.size polls

/-- Arrays that do not shrink are never freed. -/
lemma safe_updates_iff (h : old.freed = false) (polls : List Poll) :
    (∀ x ∈ (traced (nextUpdate false) (.ok old) polls).2, x.Safe) ↔ GrowsByBatteries old.allocd polls := by
  induction polls generalizing old with
  | nil => exact iff_of_true (List.forall_mem_nil _) trivial
  | cons poll polls ih =>
    rw [forall_traced_iff, nextUpdate, safe_updateBatteries_iff h, GrowsByBatteries, and_assoc]
    refine and_congr_right fun hle => and_congr_right fun _ => ?_
    obtain ⟨b,touched,hrefresh,hrecords,hsafe,-⟩ :=
      @refreshRecords_ok poll old fun hfreed => absurd (h.symm.trans hfreed) Bool.false_ne_true
    have hfreed : b.freed = false := by
      rw [(hsafe h).1, decide_eq_false_iff_not]
      rintro ⟨hzero,hold⟩
      exact hold (Nat.le_zero.mp (hzero ▸ hle))
    rw [updateBatteries_ok hrefresh, ih hfreed, hrecords.allocd]

/-- For every platform and every sequence of updates, with any slots at each: all elements that are touched are inside
their arrays, and no array is used after it was freed, exactly if the platform is known to have no batteries, or the
arrays never shrink and grow by batteries only. -/
theorem update_batteries_inside_iff (noBatteries : Bool) (polls : List Poll) :
    (∀ x ∈ (traced (nextUpdate noBatteries) (.ok noBatteriesYet) polls).2, x.Safe) ↔
      noBatteries = true ∨ GrowsByBatteries 0 polls := by
  cases noBatteries with
  | true =>
    have hnothing := @forall_traced (Outcome Batteries) Poll BatteryEffect (nextUpdate true) (fun s => ∃ old, s = .ok old)
      BatteryEffect.Safe (by rintro _ _ ⟨old,rfl⟩; exact ⟨old,rfl⟩) (by rintro _ _ ⟨old,rfl⟩; exact List.forall_mem_nil _)
      (.ok noBatteriesYet) ⟨_,rfl⟩ polls
    exact iff_of_true hnothing (.inl rfl)
  | false =>
    rw [or_iff_right Bool.false_ne_true]
    exact safe_updates_iff rfl polls

/-- A slot with a battery that says no more of itself. -/
def presentSlot : Slot := ⟨[("present", ['1', '\n'])],by decide⟩

/-- A battery in the slot 0. -/
def oneBattery : Poll where
  supply := ⟨[("BAT0", presentSlot)],true⟩
  strayStatus _ := {}
  strayOld _ := {}
  behind _ := []
  stack := []

/-- The battery is removed with its slot. -/
def noSlots : Poll := { oneBattery with supply := ⟨[],true⟩ }

/-- The second update reads the first element of an array that it has freed, of size 0. -/
theorem removal_reads_freed : .access (.element .lastStatus 0 0 true) ∈
      (traced (nextUpdate false) (.ok noBatteriesYet) [oneBattery, noSlots]).2 ∧
    ¬ ∀ x ∈ (traced (nextUpdate false) (.ok noBatteriesYet) [oneBattery, noSlots]).2, x.Safe := by
  have hread : .access (.element .lastStatus 0 0 true) ∈
      (traced (nextUpdate false) (.ok noBatteriesYet) [oneBattery, noSlots]).2 := by decide +kernel
  refine ⟨hread,fun h => ?_⟩
  exact absurd (h _ hread).1 (Nat.lt_irrefl 0)

end Runs

end Xctools.Xcpmd
