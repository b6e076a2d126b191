import Mathlib.Algebra.BigOperators.Fin
import Mathlib.Data.Int.ModEq
import Xctools.Xcpmd.Battery

/-! How long the batteries take to charge: `time_to_full` over all of them in 64 bits, and `xcpmd_battery_time_to_full`
for one of them in ints. -/
namespace Xctools.Xcpmd
open Machine

section Estimates
variable (supply : PowerSupply) (b : Batteries)

/-- `enum BATTERY_STATE`. -/
inductive ChargeState
  | unknown
  | charging
  | discharging
  | empty
  | full
  | pendingCharge
  | pendingDischarge
  deriving DecidableEq, Repr

/-- `get_battery_percentage` of an index inside the arrays. -/
def getBatteryPercentage (i : Fin b.allocd) : UInt32 :=
  if supply.slot i = none ∨ (b.status i).present = false then 0
  else
    let capacity := fullCapacity (b.info i)
    let percentage := if capacity = 0 then 0 else ((b.status i).remainingCapacity * 100 / capacity).toUInt32
    min percentage 100

/-- `get_battery_charge_state` of an index inside the arrays. -/
def getBatteryChargeState (i : Fin b.allocd) : ChargeState :=
  if (b.status i).state &&& 1 ≠ 0 then .discharging
  else if (b.status i).state &&& 2 ≠ 0 then
    -- some machines report a full battery as charging
    if (b.status i).chargeNow = (b.info i).designCapacity then .full else .charging
  else
    let percent := getBatteryPercentage supply b i
    if 90 < percent then .full
    else if percent < 10 then .empty
    else
      match (List.finRange b.allocd).find? fun j => decide (j ≠ i) && (b.status j).present &&
        decide ((b.status j).state &&& 1 ≠ 0 ∨ (b.status j).state &&& 2 ≠ 0) with
      | none => .unknown
      | some j => if (b.status j).state &&& 2 ≠ 0 then .pendingCharge else .pendingDischarge

/-- An unsigned long as a long, and as an int. -/
def toLong (n : UInt64) : ℤ := Int.bmod n.toNat (2 ^ 64)
def toInt (n : UInt64) : ℤ := Int.bmod n.toNat (2 ^ 32)

def labs (n : UInt64) : UInt64 := if toLong n < 0 then -n else n

/-- What a battery that is present adds to the rate. -/
def addChargeRate (total : UInt64) (i : Fin b.allocd) : UInt64 :=
  if (b.status i).present then
    let rate := labs (b.status i).presentRate
    match getBatteryChargeState supply b i with
    | .charging => total + rate
    | .discharging => total - rate
    | _ => total
  else total

/-- `get_total_charge_rate`, a long. -/
def getTotalChargeRate : UInt64 := (List.finRange b.allocd).foldl (addChargeRate supply b) 0

/-- `time_to_full`. The quotient is narrowed to an int before its sign is looked at. -/
def timeToFull : ℕ :=
  let chargeRate := getTotalChargeRate supply b
  if toLong chargeRate ≤ 0 then 0
  else
    let chargeTime := toInt ((getTotalMaxCharge b - getTotalCharge b) * 3600 / chargeRate)
    if chargeTime < 0 then 0 else chargeTime.toNat

/-- Why there is no estimate for a battery: an index that has no slot, or an int that overflows, which C leaves
undefined. -/
inductive NoEstimate
  | noSuchSlot (i : ℕ)
  | overflow
  deriving DecidableEq, Repr

/-- The result of an operation on ints. -/
def checkedInt (n : ℤ) : Except NoEstimate ℤ := if -2 ^ 31 ≤ n ∧ n < 2 ^ 31 then .ok n else .error .overflow

/-- `juice_when_full`: the last full capacity as an int, which may be 0 where the capacity is not. -/
def juiceWhenFull (info : BatteryInfo) : ℤ :=
  if toInt info.lastFullCapacity = 0 then toInt info.designCapacity else toInt info.lastFullCapacity

/-- `xcpmd_battery_time_to_full`. -/
def batteryTimeToFull (n : ℕ) : Except NoEstimate ℕ :=
  if h : n < b.allocd then
    let status := b.status ⟨n,h⟩
    let info := b.info ⟨n,h⟩
    if status.present = false ∨ status.state &&& 2 = 0 then .ok 0
    else
      let juiceLeft := toInt status.remainingCapacity
      let hourlyChargeRate := toInt status.presentRate
      if hourlyChargeRate = 0 then .ok 0
      else do
        let missing ← checkedInt (juiceWhenFull info - juiceLeft)
        let missingSeconds ← checkedInt (missing * 3600)
        let seconds ← checkedInt (missingSeconds.tdiv hourlyChargeRate)
        .ok (seconds % 2 ^ 32).toNat
  else .error (.noSuchSlot n)

end Estimates

section Totals
variable (supply : PowerSupply) (b : Batteries)

/-- A sum over the batteries that are present, in integers. -/
def sumOver (f : Fin b.allocd → ℤ) : ℤ :=
  ((List.finRange b.allocd).map fun i => if (b.status i).present then f i else 0).sum

/-- The total remaining charge. -/
def totalCharge : ℤ := sumOver b fun i => (b.status i).remainingCapacity.toNat

/-- The total full charge. -/
def totalFull : ℤ := sumOver b fun i => (fullCapacity (b.info i)).toNat

/-- The net charge rate. -/
def netRate : ℤ := sumOver b fun i =>
  match getBatteryChargeState supply b i with
  | .charging => (b.status i).presentRate.toNat
  | .discharging => -(b.status i).presentRate.toNat
  | _ => 0

/-- Readings below 2^40. -/
def Moderate : Prop := ∀ i, (b.status i).remainingCapacity.toNat < 2 ^ 40 ∧ (b.status i).presentRate.toNat < 2 ^ 40 ∧
  (b.info i).lastFullCapacity.toNat < 2 ^ 40 ∧ (b.info i).designCapacity.toNat < 2 ^ 40

variable {b} {supply}

/-- Steps that are additions in 64 bits make up the sum, modulo 2^64. -/
lemma foldl_modEq {ι : Type} {step : UInt64 → ι → UInt64} {w : ι → ℤ}
    (hstep : ∀ total i, ((step total i).toNat : ℤ) ≡ total.toNat + w i [ZMOD 2 ^ 64]) (l : List ι) (total : UInt64) :
    ((l.foldl step total).toNat : ℤ) ≡ total.toNat + (l.map w).sum [ZMOD 2 ^ 64] := by
  induction l generalizing total with
  | nil => rw [List.foldl_nil, List.map_nil, List.sum_nil, add_zero]
  | cons i l ih =>
    rw [List.foldl_cons, List.map_cons, List.sum_cons, ← add_assoc]
    exact (ih (step total i)).trans ((hstep total i).add_right _)

lemma add_modEq (m n : UInt64) : ((m + n).toNat : ℤ) ≡ m.toNat + n.toNat [ZMOD 2 ^ 64] := by
  rw [UInt64.toNat_add]
  push_cast
  exact Int.mod_modEq _ _

lemma sub_modEq (m n : UInt64) : ((m - n).toNat : ℤ) ≡ m.toNat - n.toNat [ZMOD 2 ^ 64] := by
  have hn := n.toNat_lt
  rw [UInt64.toNat_sub, Int.ModEq]
  omega

lemma mul_modEq (m n : UInt64) : ((m * n).toNat : ℤ) ≡ m.toNat * n.toNat [ZMOD 2 ^ 64] := by
  rw [UInt64.toNat_mul]
  push_cast
  exact Int.mod_modEq _ _

lemma totalOver_modEq (f : Fin b.allocd → UInt64) :
    ((totalOver b f).toNat : ℤ) ≡ sumOver b (fun i => (f i).toNat) [ZMOD 2 ^ 64] := by
  have h := @foldl_modEq (Fin b.allocd) (fun total i => if (b.status i).present then total + f i else total)
    (fun i => if (b.status i).present then ((f i).toNat : ℤ) else 0) (fun total i => by
      split_ifs
      · exact add_modEq _ _
      · rw [add_zero]) (List.finRange b.allocd) 0
  rw [UInt64.toNat_zero, Nat.cast_zero, zero_add] at h
  exact h

lemma labs_of_lt {n : UInt64} (h : n.toNat < 2 ^ 40) : labs n = n := by
  have hlong : toLong n = n.toNat := Int.bmod_eq_of_le (by omega) (by omega)
  rw [labs, if_neg (by omega)]

lemma getTotalChargeRate_modEq (h : Moderate b) :
    ((getTotalChargeRate supply b).toNat : ℤ) ≡ netRate supply b [ZMOD 2 ^ 64] := by
  have hsum := @foldl_modEq (Fin b.allocd) (addChargeRate supply b)
    (fun i => if (b.status i).present then
      match getBatteryChargeState supply b i with
      | .charging => ((b.status i).presentRate.toNat : ℤ)
      | .discharging => -(b.status i).presentRate.toNat
      | _ => 0
    else 0) (fun total i => by
      unfold addChargeRate
      rw [labs_of_lt (h i).2.1]
      split_ifs
      · cases getBatteryChargeState supply b i with
        | charging => exact add_modEq _ _
        | discharging => exact (sub_modEq _ _).trans (by rw [sub_eq_add_neg])
        | _ => rw [add_zero]
      · rw [add_zero]) (List.finRange b.allocd) 0
  rw [UInt64.toNat_zero, Nat.cast_zero, zero_add] at hsum
  exact hsum

/-- What 64-bit arithmetic and the narrowing make of the charge that is missing and the rate. -/
def secondsToFull (missing rate : ℤ) : ℤ :=
  if rate ≤ 0 then 0 else max 0 (Int.bmod (3600 * missing % 2 ^ 64 / rate) (2 ^ 32))

lemma bmod_congr {m n : ℤ} {k : ℕ} (h : m ≡ n [ZMOD k]) : Int.bmod m k = Int.bmod n k := by
  rw [← Int.emod_bmod m, ← Int.emod_bmod n, h]

lemma toNat_eq_of_modEq {x : UInt64} {n : ℤ} (h : (x.toNat : ℤ) ≡ n [ZMOD 2 ^ 64]) : (x.toNat : ℤ) = n % 2 ^ 64 := by
  have hlt := x.toNat_lt
  rw [← h, Int.emod_eq_of_lt (by omega) (by omega)]

/-- A long that is positive is the unsigned long. -/
lemma toNat_eq_toLong {n : UInt64} (h : 0 < toLong n) : (n.toNat : ℤ) = toLong n := by
  have hlt := n.toNat_lt
  unfold toLong at h ⊢
  rw [Int.bmod_def] at h ⊢
  split_ifs at h ⊢ <;> omega

/-- `time_to_full` in terms of the sums, which may wrap. -/
lemma timeToFull_eq (h : Moderate b) : (timeToFull supply b : ℤ) =
    secondsToFull (totalFull b - totalCharge b) (Int.bmod (netRate supply b) (2 ^ 64)) := by
  have hrate : toLong (getTotalChargeRate supply b) = Int.bmod (netRate supply b) (2 ^ 64) :=
    bmod_congr (getTotalChargeRate_modEq h)
  have hmissing : (((getTotalMaxCharge b - getTotalCharge b) * 3600).toNat : ℤ) =
      3600 * (totalFull b - totalCharge b) % 2 ^ 64 := by
    apply toNat_eq_of_modEq
    have hsub := (sub_modEq (getTotalMaxCharge b) (getTotalCharge b)).trans
      ((totalOver_modEq _).sub (totalOver_modEq _))
    exact ((mul_modEq _ _).trans (hsub.mul_right _)).trans (by rw [mul_comm]; rfl)
  unfold timeToFull secondsToFull
  dsimp only
  rw [← hrate]
  by_cases hpos : toLong (getTotalChargeRate supply b) ≤ 0
  · rw [if_pos hpos, if_pos hpos, Nat.cast_zero]
  · have hdiv : (((getTotalMaxCharge b - getTotalCharge b) * 3600 / getTotalChargeRate supply b).toNat : ℤ) =
        3600 * (totalFull b - totalCharge b) % 2 ^ 64 / toLong (getTotalChargeRate supply b) := by
      rw [UInt64.toNat_div, Int.natCast_ediv, hmissing, toNat_eq_toLong (Int.not_le.mp hpos)]
    have hquotient : toInt ((getTotalMaxCharge b - getTotalCharge b) * 3600 / getTotalChargeRate supply b) =
        Int.bmod (3600 * (totalFull b - totalCharge b) % 2 ^ 64 / toLong (getTotalChargeRate supply b)) (2 ^ 32) :=
      congrArg (fun n => Int.bmod n (2 ^ 32)) hdiv
    rw [if_neg hpos, if_neg hpos, hquotient]
    split_ifs with hneg
    · rw [max_eq_left (Int.le_of_lt hneg), Nat.cast_zero]
    · rw [max_eq_right (Int.not_lt.mp hneg), Int.toNat_of_nonneg (Int.not_lt.mp hneg)]

end Totals

section Together
variable (supply : PowerSupply) (b : Batteries)

/-- The estimate over all batteries is the missing charge over the rate, in seconds, if this is an int; there is
nothing left to charge if the charge is beyond the full one. -/
def EstimateRight : Prop := 0 < netRate supply b →
  (totalCharge b ≤ totalFull b → 3600 * (totalFull b - totalCharge b) / netRate supply b < 2 ^ 31 →
    (timeToFull supply b : ℤ) = 3600 * (totalFull b - totalCharge b) / netRate supply b) ∧
  (totalFull b < totalCharge b → timeToFull supply b = 0)

/-- The totals are such that 64 bits are enough: the seconds do not wrap, and where the batteries are overfull what the
subtraction wraps to gives an int that is not positive. From 2^63 on, which takes 2^23 batteries, the rate wraps too: to
one that is not positive, where there must not be a second to go, or to a smaller one, which must give the same int. -/
def TotalsFit (missing rate : ℤ) : Prop :=
  if rate < 2 ^ 63 then
    (0 ≤ missing → 3600 * missing / rate < 2 ^ 31 → 3600 * missing < 2 ^ 64) ∧
    (missing < 0 → Int.bmod (3600 * missing % 2 ^ 64 / rate) (2 ^ 32) ≤ 0)
  else if rate % 2 ^ 64 = 0 ∨ 2 ^ 63 ≤ rate % 2 ^ 64 then
    0 ≤ missing → 3600 * missing / rate < 2 ^ 31 → 3600 * missing < rate
  else
    (0 ≤ missing → 3600 * missing / rate < 2 ^ 31 →
      max 0 (Int.bmod (3600 * missing % 2 ^ 64 / (rate % 2 ^ 64)) (2 ^ 32)) = 3600 * missing / rate) ∧
    (missing < 0 → Int.bmod (3600 * missing % 2 ^ 64 / (rate % 2 ^ 64)) (2 ^ 32) ≤ 0)

variable {supply b} {missing rate : ℤ}

lemma bmod_of_lt {n : ℤ} (h : 0 ≤ n) (hlt : n < 2 ^ 31) : Int.bmod n (2 ^ 32) = n :=
  Int.bmod_eq_of_le (by omega) (by omega)

/-- A quotient that is an int is right exactly if the product does not wrap: less is missing after it has. -/
lemma secondsToFull_eq_iff (hrate : 0 < rate) (hsmall : rate < 2 ^ 63) (hmissing : 0 ≤ missing)
    (hint : 3600 * missing / rate < 2 ^ 31) :
    secondsToFull missing rate = 3600 * missing / rate ↔ 3600 * missing < 2 ^ 64 := by
  have hpos : 0 ≤ 3600 * missing % 2 ^ 64 / rate := Int.ediv_nonneg (Int.emod_nonneg _ (by decide)) (Int.le_of_lt hrate)
  constructor
  · intro heq
    by_contra hwrap
    have hless : 3600 * missing % 2 ^ 64 + 1 * rate ≤ 3600 * missing := by omega
    have hquotient := Int.ediv_le_ediv hrate hless
    rw [Int.add_mul_ediv_right _ _ (Int.ne_of_gt hrate)] at hquotient
    rw [secondsToFull, if_neg (Int.not_le.mpr hrate), bmod_of_lt hpos (by omega), max_eq_right hpos] at heq
    omega
  · intro hfit
    have hmod : 3600 * missing % 2 ^ 64 = 3600 * missing := Int.emod_eq_of_lt (by omega) hfit
    rw [hmod] at hpos
    rw [secondsToFull, if_neg (Int.not_le.mpr hrate), hmod, bmod_of_lt hpos hint, max_eq_right hpos]

lemma estimateRight_iff (h : Moderate b) :
    EstimateRight supply b ↔ (0 < netRate supply b → TotalsFit (totalFull b - totalCharge b) (netRate supply b)) := by
  have hzero : timeToFull supply b = 0 ↔ (timeToFull supply b : ℤ) = 0 := Int.natCast_eq_zero.symm
  unfold EstimateRight TotalsFit
  apply imp_congr_right
  intro hrate
  rw [hzero, timeToFull_eq h, ← sub_nonneg, ← sub_neg (a := totalFull b)]
  split_ifs with hsmall hnone
  · have hbmod : Int.bmod (netRate supply b) (2 ^ 64) = netRate supply b := Int.bmod_eq_of_le (by omega) (by omega)
    rw [hbmod]
    apply and_congr
    · exact forall_congr' fun hmissing => forall_congr' fun hint => secondsToFull_eq_iff hrate hsmall hmissing hint
    · rw [secondsToFull, if_neg (Int.not_le.mpr hrate), max_eq_left_iff]
  · have hbmod : Int.bmod (netRate supply b) (2 ^ 64) ≤ 0 := by
      rw [Int.bmod_def]
      split_ifs <;> omega
    rw [secondsToFull, if_pos hbmod, and_iff_left fun _ => rfl]
    refine forall_congr' fun hmissing => forall_congr' fun _ => ?_
    rw [eq_comm, Int.ediv_eq_iff_of_pos hrate]
    omega
  · have hbmod : Int.bmod (netRate supply b) (2 ^ 64) = netRate supply b % 2 ^ 64 := by
      rw [Int.bmod_def, if_pos (by omega)]
      rfl
    rw [hbmod, secondsToFull, if_neg (by omega), max_eq_left_iff]

end Together

section Single
variable (supply : PowerSupply) (b : Batteries) (i : Fin b.allocd)

/-- The only battery that is present, charging with a positive rate and below its full charge. -/
structure Alone : Prop where
  present : (b.status i).present = true
  others : ∀ j, j ≠ i → (b.status j).present = false
  notDischarging : (b.status i).state &&& 1 = 0
  charging : (b.status i).state &&& 2 ≠ 0
  rate : 0 < (b.status i).presentRate.toNat
  below : (b.status i).remainingCapacity.toNat < (fullCapacity (b.info i)).toNat

def FitsInt (n : ℤ) : Prop := -2 ^ 31 ≤ n ∧ n < 2 ^ 31

/-- The seconds to full of a battery, cut to an int that is not negative; a battery whose charge is the capacity it was
designed with counts as full. -/
def cutSeconds : ℤ :=
  if (b.status i).chargeNow = (b.info i).designCapacity then 0
  else max 0 (Int.bmod (3600 * ((fullCapacity (b.info i)).toNat - (b.status i).remainingCapacity.toNat) /
    (b.status i).presentRate.toNat) (2 ^ 32))

/-- Ints are enough for a battery. With readings below 2^31 the seconds are below 2^31 before the division, and the
battery does not count as full (or has less than a second to go). With larger ones the readings are cut first: what is
missing between the low words has a product with 3600 that is an int, unless that of the rate is zero, and the quotient
of the low words, zero for that rate, is the cut quotient of the readings. -/
def IntsFit : Prop :=
  if (fullCapacity (b.info i)).toNat < 2 ^ 31 ∧ (b.status i).presentRate.toNat < 2 ^ 31 then
    let seconds : ℤ := 3600 * ((fullCapacity (b.info i)).toNat - (b.status i).remainingCapacity.toNat)
    seconds < 2 ^ 31 ∧
      ((b.status i).chargeNow = (b.info i).designCapacity → seconds < (b.status i).presentRate.toNat)
  else
    let missing := juiceWhenFull (b.info i) - toInt (b.status i).remainingCapacity
    let rate := toInt (b.status i).presentRate
    (rate = 0 ∨ -596523 ≤ missing ∧ missing ≤ 596523) ∧ (missing * 3600).tdiv rate = cutSeconds b i

variable {supply b i}

lemma sumOver_alone (h : Alone b i) (f : Fin b.allocd → ℤ) : sumOver b f = f i := by
  rw [sumOver, ← Fin.sum_univ_def, Finset.sum_eq_single i]
  · rw [if_pos h.present]
  · intro j _ hj
    rw [if_neg (by rw [h.others j hj]; decide)]
  · exact fun hi => absurd (Finset.mem_univ i) hi

lemma getBatteryChargeState_alone (h : Alone b i) : getBatteryChargeState supply b i =
    if (b.status i).chargeNow = (b.info i).designCapacity then .full else .charging := by
  rw [getBatteryChargeState, if_neg (not_not.mpr h.notDischarging), if_pos h.charging]

lemma cutSeconds_bounds : 0 ≤ cutSeconds b i ∧ cutSeconds b i < 2 ^ 31 := by
  unfold cutSeconds
  split_ifs
  · decide
  · exact ⟨le_max_left _ _,max_lt (by decide) (Int.bmod_lt (by decide))⟩

lemma fullCapacity_lt (hb : Moderate b) (i : Fin b.allocd) : (fullCapacity (b.info i)).toNat < 2 ^ 40 := by
  unfold fullCapacity
  split_ifs
  · exact (hb i).2.2.1
  · exact (hb i).2.2.2

/-- With one battery the sums are its readings. -/
lemma timeToFull_alone (hb : Moderate b) (h : Alone b i) : (timeToFull supply b : ℤ) = cutSeconds b i := by
  have hrate := (hb i).2.1
  have hpos := h.rate
  have hbelow := h.below
  have hfull := fullCapacity_lt hb i
  rw [timeToFull_eq hb, totalFull, totalCharge, netRate, sumOver_alone h, sumOver_alone h, sumOver_alone h,
    getBatteryChargeState_alone h, cutSeconds]
  split_ifs
  · rfl
  · dsimp only
    rw [Int.bmod_eq_of_le (by omega) (by omega), secondsToFull, if_neg (by omega), Int.emod_eq_of_lt (by omega) (by omega)]

lemma checkedInt_bind_eq_ok {α : Type} {m : ℤ} {f : ℤ → Except NoEstimate α} {x : α} :
    checkedInt m >>= f = .ok x ↔ FitsInt m ∧ f m = .ok x := by
  unfold checkedInt FitsInt
  split_ifs with hfits
  · exact (and_iff_right hfits).symm
  · exact iff_of_false (fun h => by cases h) fun h => hfits h.1

/-- With one battery, ints give an estimate if no operation overflows. -/
lemma batteryTimeToFull_alone (h : Alone b i) (n : ℕ) : batteryTimeToFull b i = .ok n ↔
    if toInt (b.status i).presentRate = 0 then n = 0
    else
      FitsInt (juiceWhenFull (b.info i) - toInt (b.status i).remainingCapacity) ∧
      FitsInt ((juiceWhenFull (b.info i) - toInt (b.status i).remainingCapacity) * 3600) ∧
      FitsInt (((juiceWhenFull (b.info i) - toInt (b.status i).remainingCapacity) * 3600).tdiv
        (toInt (b.status i).presentRate)) ∧
      ((juiceWhenFull (b.info i) - toInt (b.status i).remainingCapacity) * 3600).tdiv
        (toInt (b.status i).presentRate) % 2 ^ 32 = n := by
  have hbusy : ¬ ((b.status i).present = false ∨ (b.status i).state &&& 2 = 0) := by
    rw [h.present]
    exact fun hor => hor.elim (fun hfalse => Bool.noConfusion hfalse) h.charging
  unfold batteryTimeToFull
  rw [dif_pos i.isLt]
  dsimp only
  rw [Fin.eta, if_neg hbusy]
  split_ifs with hzero
  · rw [Except.ok.injEq, eq_comm]
  · have hnonneg : ∀ seconds : ℤ, 0 ≤ seconds % 2 ^ 32 := fun seconds => Int.emod_nonneg _ (by decide)
    have hguint : ∀ seconds : ℤ, (seconds % 2 ^ 32).toNat = n ↔ seconds % 2 ^ 32 = n := fun seconds => by
      rw [← Int.toNat_of_nonneg (hnonneg seconds), Nat.cast_inj, Int.toNat_natCast]
    rw [checkedInt_bind_eq_ok, checkedInt_bind_eq_ok, checkedInt_bind_eq_ok, Except.ok.injEq, hguint]

lemma toInt_of_lt {n : UInt64} (h : n.toNat < 2 ^ 31) : toInt n = n.toNat := by
  have hlt : (n.toNat : ℤ) < 2 ^ 31 := by omega
  unfold toInt
  exact bmod_of_lt (Int.natCast_nonneg _) hlt

lemma juiceWhenFull_of_lt {info : BatteryInfo} (h : (fullCapacity info).toNat < 2 ^ 31) :
    juiceWhenFull info = (fullCapacity info).toNat := by
  unfold juiceWhenFull
  unfold fullCapacity at h ⊢
  by_cases hnone : info.lastFullCapacity = 0
  · rw [if_neg (not_not.mpr hnone)] at h ⊢
    rw [if_pos (by rw [hnone]; decide), toInt_of_lt h]
  · rw [if_pos hnone] at h ⊢
    have hne : info.lastFullCapacity.toNat ≠ 0 := fun hzero => hnone (UInt64.toNat_inj.mp hzero)
    rw [toInt_of_lt h, if_neg (Int.natCast_ne_zero.mpr hne)]

/-- With readings below 2^31 only the product can overflow. -/
lemma cutSeconds_iff {rate left full : ℕ} (hrate : (b.status i).presentRate.toNat = rate)
    (hleft : (b.status i).remainingCapacity.toNat = left) (hfull : (fullCapacity (b.info i)).toNat = full)
    (hpos : 0 < rate) (hbelow : left < full) (hrateInt : rate < 2 ^ 31) :
    (FitsInt ((full : ℤ) - left) ∧ FitsInt (((full : ℤ) - left) * 3600) ∧
        FitsInt ((((full : ℤ) - left) * 3600).tdiv rate) ∧
        (((full : ℤ) - left) * 3600).tdiv rate % 2 ^ 32 = cutSeconds b i) ↔
      3600 * ((full : ℤ) - left) < 2 ^ 31 ∧
        ((b.status i).chargeNow = (b.info i).designCapacity → 3600 * ((full : ℤ) - left) < rate) := by
  have hmissing : 0 < (full : ℤ) - left := by omega
  have hratePos : 0 < (rate : ℤ) := by omega
  have hdiv : (((full : ℤ) - left) * 3600).tdiv rate = 3600 * ((full : ℤ) - left) / rate := by
    rw [Int.tdiv_eq_ediv_of_nonneg (by omega), mul_comm]
  have hnonneg : 0 ≤ 3600 * ((full : ℤ) - left) / rate := Int.ediv_nonneg (by omega) (by omega)
  have hle : 3600 * ((full : ℤ) - left) / rate ≤ 3600 * ((full : ℤ) - left) := Int.ediv_le_self _ (by omega)
  rw [hdiv, cutSeconds, hrate, hleft, hfull]
  unfold FitsInt
  constructor
  · rintro ⟨-,⟨-,hproduct⟩,⟨-,hint⟩,heq⟩
    refine ⟨by omega,fun hquirk => ?_⟩
    rw [if_pos hquirk, Int.emod_eq_of_lt hnonneg (by omega), Int.ediv_eq_iff_of_pos hratePos] at heq
    omega
  · rintro ⟨hproduct,hquirk⟩
    have hmod : 3600 * ((full : ℤ) - left) / rate % 2 ^ 32 = 3600 * ((full : ℤ) - left) / rate :=
      Int.emod_eq_of_lt hnonneg (by omega)
    refine ⟨by omega,by omega,by omega,?_⟩
    rw [hmod]
    split_ifs with hfullNow
    · exact Int.ediv_eq_zero_of_lt (by omega) (hquirk hfullNow)
    · rw [bmod_of_lt hnonneg (by omega), max_eq_right hnonneg]

/-- A product with 3600 that is an int leaves a quotient that is one, and no negative one is cut to what is not. -/
lemma quotient_iff {missing rate n : ℤ} (hn : 0 ≤ n) (hint : n < 2 ^ 31) :
    (FitsInt missing ∧ FitsInt (missing * 3600) ∧ FitsInt ((missing * 3600).tdiv rate) ∧
        (missing * 3600).tdiv rate % 2 ^ 32 = n) ↔
      (-596523 ≤ missing ∧ missing ≤ 596523) ∧ (missing * 3600).tdiv rate = n := by
  have hle : ((missing * 3600).tdiv rate).natAbs ≤ (missing * 3600).natAbs := Int.natAbs_tdiv_le_natAbs _ _
  unfold FitsInt
  omega

/-- The two estimates for the only battery are the same number exactly if ints are enough. -/
lemma batteryTimeToFull_eq_iff (hb : Moderate b) (h : Alone b i) :
    batteryTimeToFull b i = .ok (timeToFull supply b) ↔ IntsFit b i := by
  rw [batteryTimeToFull_alone h, IntsFit, ← Int.natCast_eq_zero, timeToFull_alone hb h]
  split_ifs with hzero hsmall hsmall
  · rw [toInt_of_lt hsmall.2, Int.natCast_eq_zero] at hzero
    exact absurd hzero (Nat.ne_of_gt h.rate)
  · dsimp only
    rw [hzero, Int.tdiv_zero, and_iff_right (.inl rfl), eq_comm]
  · have hbelow := h.below
    have hpos := h.rate
    rw [juiceWhenFull_of_lt hsmall.1, toInt_of_lt hsmall.2, toInt_of_lt (hbelow.trans hsmall.1)]
    exact cutSeconds_iff rfl rfl rfl hpos hbelow hsmall.2
  · obtain ⟨hnonneg,hint⟩ := @cutSeconds_bounds b i
    dsimp only
    rw [quotient_iff hnonneg hint, or_iff_right hzero]

/-- The estimate for the only battery, while it charges, is the one over all batteries. -/
def EstimatesAgree (supply : PowerSupply) (b : Batteries) : Prop :=
  ∀ i, Alone b i → batteryTimeToFull b i = .ok (timeToFull supply b)

/-- For every set of batteries with readings below 2^40: the estimate over all of them is the missing charge over the
rate where this is an int, and 0 where the batteries are overfull, and the estimate for an only battery is the same
number, exactly if the totals fit 64 bits and the readings of an only battery fit ints. -/
theorem charge_times_iff (supply : PowerSupply) (b : Batteries) (hb : Moderate b) :
    (EstimateRight supply b ∧ EstimatesAgree supply b) ↔
      (0 < netRate supply b → TotalsFit (totalFull b - totalCharge b) (netRate supply b)) ∧
      ∀ i, Alone b i → IntsFit b i := by
  rw [estimateRight_iff hb]
  exact and_congr_right fun _ => forall_congr' fun i => imp_congr_right fun h => batteryTimeToFull_eq_iff hb h

/-- One battery that charges at a rate of 3, full at 50000. -/
def chargingBattery (left : UInt64) : Batteries where
  lastInfo := [{ present := true, lastFullCapacity := 50000, designCapacity := 60000 }]
  lastStatus := [{ present := true, state := 2, presentRate := 3, remainingCapacity := left }]
  freed := false
  sameSize := rfl
  gone h := by cases h

theorem charge_times_half_full :
    EstimateRight ⟨[],true⟩ (chargingBattery 25000) ∧ EstimatesAgree ⟨[],true⟩ (chargingBattery 25000) := by
  have hmoderate : Moderate (chargingBattery 25000) := by
    intro i
    obtain rfl : i = ⟨0,by decide⟩ := Fin.ext (Nat.lt_one_iff.mp i.isLt)
    decide
  have hrate : netRate ⟨[],true⟩ (chargingBattery 25000) = 3 := by decide
  have hmissing : totalFull (chargingBattery 25000) - totalCharge (chargingBattery 25000) = 25000 := by decide
  apply (charge_times_iff ⟨[],true⟩ (chargingBattery 25000) hmoderate).mpr
  constructor
  · intro _
    rw [hrate, hmissing, TotalsFit, if_pos (by decide)]
    decide
  · intro i _
    obtain rfl : i = ⟨0,by decide⟩ := Fin.ext (Nat.lt_one_iff.mp i.isLt)
    rw [IntsFit, if_pos (by decide)]
    decide

/-- One unit beyond its full charge, a battery is said to need 45 years to be full. -/
theorem overfull_charges_on : timeToFull ⟨[],true⟩ (chargingBattery 50001) = 1431654565 ∧
    ¬ EstimateRight ⟨[],true⟩ (chargingBattery 50001) := by
  have htime : timeToFull ⟨[],true⟩ (chargingBattery 50001) = 1431654565 := by decide +kernel
  refine ⟨htime,fun h => ?_⟩
  have hzero := (h (by decide)).2 (by decide)
  rw [htime] at hzero
  cases hzero

end Single

end Xctools.Xcpmd
