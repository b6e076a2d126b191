import Mathlib.Algebra.Order.BigOperators.Group.List
import Xctools.Machine.HexField
import Xctools.Xcpmd.Battery

/-! The BIF record, `write_battery_info_to_xenstore`: nine numbers and four texts in hexadecimal, behind their total
length. Whether it can be taken apart again, for every content of the files of a battery. -/
namespace Xctools.Xcpmd
open Machine

section Writing

/-- `write_ulong_lsb_first`. -/
def writeUlongLsbFirst (buffer : List Char) (off : ℕ) (val : UInt64) : List Char :=
  snprintf buffer off 9 (hexByte (val.toUInt32 &&& 0xff).toNat ++ hexByte ((val &&& 0xff00).toUInt32 >>> 8).toNat ++
    hexByte ((val &&& 0xff0000).toUInt32 >>> 16).toNat ++ hexByte ((val &&& 0xff000000).toUInt32 >>> 24).toNat)

/-- The strings of the four arrays, which stand one behind the other, and the memory behind them. A string goes on
until there is a null byte. -/
def BatteryInfo.strings (info : BatteryInfo) (behind : List Char) : List (List Char) :=
  [ cString (info.modelNumber.toList ++
      (info.serialNumber.toList ++ (info.batteryType.toList ++ (info.oemInfo.toList ++ behind)))),
    cString (info.serialNumber.toList ++ (info.batteryType.toList ++ (info.oemInfo.toList ++ behind))),
    cString (info.batteryType.toList ++ (info.oemInfo.toList ++ behind)),
    cString (info.oemInfo.toList ++ behind) ]

/-- The numbers of the record with their places. -/
def BatteryInfo.fields (info : BatteryInfo) : List (ℕ × UInt64) :=
  [(2, info.powerUnit.value), (10, info.designCapacity), (18, info.lastFullCapacity),
    (26, info.batteryTechnology.value), (34, info.designVoltage), (42, info.designCapacityWarning),
    (50, info.designCapacityLow), (58, info.capacityGranularity1), (66, info.capacityGranularity2)]

/-- The string `bif` that is written for a battery. -/
def buildBif (info : BatteryInfo) (behind : List Char) : List Char :=
  let strings := info.strings behind
  let start := snprintf (List.replicate 1024 '\x00') 0 3 (hexByte (9 * 4 + (strings.map List.length).sum + 4))
  let numbers := info.fields.foldl (fun buffer field => writeUlongLsbFirst buffer field.1 field.2) start
  let stringInfo := cString (snprintf (List.replicate 256 '\x00') 0 256 (strings.flatMap hexText))
  cString (strncat numbers 73 stringInfo (1024 - 73 - 1))

/-- The four bytes of a number are cut out by masks and shifts. -/
lemma writeUlongLsbFirst_eq (buffer : List Char) (off : ℕ) (val : UInt64) :
    writeUlongLsbFirst buffer off val = snprintf buffer off 9 (hexWord val.toNat) := by
  have hlow : (val.toUInt32 &&& 0xff).toNat = val.toNat % 256 := by
    rw [UInt32.toNat_and, UInt64.toNat_toUInt32]
    have hmask := Nat.and_two_pow_sub_one_eq_mod (val.toNat % 2 ^ 32) 8
    exact hmask.trans (Nat.mod_mod_of_dvd _ (by decide))
  have hpart : ∀ (n : ℕ) (k : ℕ), (n &&& 255 <<< k) >>> k = n / 2 ^ k % 256 := fun n k => by
    have hmask := Nat.and_two_pow_sub_one_eq_mod (n >>> k) 8
    rw [Nat.shiftRight_and_distrib, Nat.shiftLeft_shiftRight, ← Nat.shiftRight_eq_div_pow]
    exact hmask
  have hcut : ∀ mask : ℕ, mask < 2 ^ 32 → (val.toNat &&& mask) % 2 ^ 32 = val.toNat &&& mask := fun mask h =>
    Nat.mod_eq_of_lt (Nat.lt_of_le_of_lt Nat.and_le_right h)
  have hsecond : ((val &&& 0xff00).toUInt32 >>> 8).toNat = val.toNat / 256 % 256 := by
    rw [UInt32.toNat_shiftRight, UInt64.toNat_toUInt32, UInt64.toNat_and]
    exact (congrArg (· >>> 8) (hcut 0xff00 (by decide))).trans (hpart val.toNat 8)
  have hthird : ((val &&& 0xff0000).toUInt32 >>> 16).toNat = val.toNat / 65536 % 256 := by
    rw [UInt32.toNat_shiftRight, UInt64.toNat_toUInt32, UInt64.toNat_and]
    exact (congrArg (· >>> 16) (hcut 0xff0000 (by decide))).trans (hpart val.toNat 16)
  have hfourth : ((val &&& 0xff000000).toUInt32 >>> 24).toNat = val.toNat / 16777216 % 256 := by
    rw [UInt32.toNat_shiftRight, UInt64.toNat_toUInt32, UInt64.toNat_and]
    exact (congrArg (· >>> 24) (hcut 0xff000000 (by decide))).trans (hpart val.toNat 24)
  rw [writeUlongLsbFirst, hlow, hsecond, hthird, hfourth]
  rfl

/-- Numbers whose places are eight apart are written one behind the other. -/
lemma foldl_writeUlongLsbFirst {fields : List (ℕ × UInt64)} {written : List Char}
    (hoff : ∀ i (hi : i < fields.length), (fields.get ⟨i,hi⟩).1 = written.length + 8 * i)
    (hroom : written.length + 8 * fields.length < 1024) :
    fields.foldl (fun buffer field => writeUlongLsbFirst buffer field.1 field.2) (filled written 1024) =
      filled (written ++ fields.flatMap fun field => hexWord field.2.toNat) 1024 := by
  induction fields generalizing written with
  | nil => rw [List.foldl_nil, List.flatMap_nil, List.append_nil]
  | cons field fields ih =>
    have hfirst : field.1 = written.length := hoff 0 (by simp)
    have hword : (hexWord field.2.toNat).take (9 - 1) = hexWord field.2.toNat :=
      List.take_of_length_le (Nat.le_of_eq (length_hexWord _))
    have hlength : (written ++ hexWord field.2.toNat).length = written.length + 8 := by
      rw [List.length_append, length_hexWord]
    rw [List.length_cons] at hroom
    rw [List.foldl_cons, writeUlongLsbFirst_eq, hfirst, snprintf_filled (by rw [hword, length_hexWord]; omega), hword,
      ih, List.flatMap_cons, List.append_assoc]
    · intro i hi
      have hnext : (fields.get ⟨i,hi⟩).1 = written.length + 8 * (i + 1) :=
        hoff (i + 1) (by rw [List.length_cons]; omega)
      rw [hnext, hlength]
      omega
    · rw [hlength]
      omega

variable (info : BatteryInfo) (behind : List Char) (total : ℕ)

lemma nul_not_mem_strings : '\x00' ∉ (info.strings behind).flatMap hexText := by
  intro h
  obtain ⟨text,htext,hmem⟩ := List.mem_flatMap.mp h
  rcases List.mem_append.mp hmem with h | h
  · exact nul_not_mem_hexByte _ h
  · simp only [BatteryInfo.strings, List.mem_cons, List.not_mem_nil, or_false] at htext
    rcases htext with rfl | rfl | rfl | rfl <;> exact nul_not_mem_cString _ h

/-- As much of the texts as there is room for in `string_info`. -/
lemma stringInfo_eq : cString (snprintf (List.replicate 256 '\x00') 0 256 ((info.strings behind).flatMap hexText)) =
    ((info.strings behind).flatMap hexText).take 255 := by
  have hlt : (((info.strings behind).flatMap hexText).take 255).length < 256 := by
    rw [List.length_take]
    omega
  have hwrite := @snprintf_filled [] ((info.strings behind).flatMap hexText) 256 256 (by simp)
  exact (congrArg cString hwrite).trans
    (cString_filled (fun h => nul_not_mem_strings info behind (List.mem_of_mem_take h)) hlt)

lemma length_total : ((hexByte total).take 2).length = 2 := by
  have htwo := two_le_length_hexByte total
  rw [List.length_take]
  omega

lemma length_numbers : (info.fields.flatMap fun field => hexWord field.2.toNat).length = 72 := by
  simp [BatteryInfo.fields, length_hexWord]

/-- The total length, cut to two digits, and the numbers behind it. -/
lemma numbers_eq : info.fields.foldl (fun buffer field => writeUlongLsbFirst buffer field.1 field.2)
      (snprintf (List.replicate 1024 '\x00') 0 3 (hexByte total)) =
    filled ((hexByte total).take 2 ++ info.fields.flatMap fun field => hexWord field.2.toNat) 1024 := by
  have hstart : snprintf (List.replicate 1024 '\x00') 0 3 (hexByte total) = filled ((hexByte total).take 2) 1024 := by
    apply @snprintf_filled [] (hexByte total) 1024 3
    have htwo : ((hexByte total).take (3 - 1)).length = 2 := length_total total
    rw [htwo]
    decide
  have hsize : info.fields.length = 9 := rfl
  rw [hstart]
  apply foldl_writeUlongLsbFirst
  · intro i hi
    rw [length_total]
    rw [hsize] at hi
    interval_cases i <;> rfl
  · rw [length_total, hsize]
    decide

/-- The string that is written. -/
lemma buildBif_eq : buildBif info behind =
    (hexByte (9 * 4 + ((info.strings behind).map List.length).sum + 4)).take 2 ++
      ((info.fields.flatMap fun field => hexWord field.2.toNat) ++
        ((info.strings behind).flatMap hexText).take 255) := by
  rw [buildBif, numbers_eq, stringInfo_eq, ← List.append_assoc]
  generalize hwritten : (hexByte (9 * 4 + ((info.strings behind).map List.length).sum + 4)).take 2 ++
    (info.fields.flatMap fun field => hexWord field.2.toNat) = written
  have hlength : written.length = 74 := by
    rw [← hwritten, List.length_append, length_total, length_numbers]
  have hnul : '\x00' ∉ written := by
    rw [← hwritten, List.mem_append, not_or, List.mem_flatMap]
    exact ⟨fun h => nul_not_mem_hexByte _ (List.mem_of_mem_take h),fun ⟨_,_,h⟩ => nul_not_mem_hexWord _ h⟩
  have htexts : (((info.strings behind).flatMap hexText).take 255).length ≤ 255 := List.length_take_le _ _
  have hfit : (((info.strings behind).flatMap hexText).take 255).take (1024 - 73 - 1) =
      ((info.strings behind).flatMap hexText).take 255 := List.take_of_length_le (Nat.le_trans htexts (by decide))
  rw [strncat_filled (by omega) (fun h => hnul (List.mem_of_mem_drop h)) (by rw [hfit]; omega), hfit]
  apply cString_filled
  · rw [List.mem_append, not_or]
    exact ⟨hnul,fun h => nul_not_mem_strings info behind (List.mem_of_mem_take h)⟩
  · rw [List.length_append]
    omega

end Writing

section Files
variable {slot : Slot}

/-- The value of a file of the slot. -/
def Slot.value (slot : Slot) (name : String) : List Char :=
  ((lookupKey Prod.fst name slot.files).map fun file => attribValue file.2).getD []

/-- The value of a file as a number of thousands. -/
def Slot.amount (slot : Slot) (name : String) : UInt64 := strtoull (slot.value name) / 1000

/-- The text that stands for a technology. -/
def typeText (technology : List Char) : List Char :=
  if strstr technology "Li-ion".toList then "LION\n".toList
  else if strstr technology "Li-poly".toList then "LiP\n".toList
  else technology

/-- Model, serial number, type and manufacturer. -/
def Slot.texts (slot : Slot) : List (List Char) :=
  [slot.value "model_name", slot.value "serial_number", typeText (slot.value "technology"), slot.value "manufacturer"]

/-- The last full capacity, from the files of the unit the battery reports in. -/
def Slot.lastFull (slot : Slot) : UInt64 :=
  if slot.amount "charge_full_design" ≠ 0 then slot.amount "charge_full" else slot.amount "energy_full"

/-- The copy of the text for a technology. -/
def copyType (technology : List Char) (dst : Vector Char 32) : Vector Char 32 :=
  if strstr technology "Li-ion".toList then strncpy dst "LION\n".toList 6
  else if strstr technology "Li-poly".toList then strncpy dst "LiP\n".toList 6
  else strncpy dst technology 32

/-- Each file sets its own attributes, and no other. -/
lemma setBatteryInfoAttribute_eq (name : String) (value : List Char) (info : BatteryInfo) :
    setBatteryInfoAttribute name value info =
      { info with
        present := if name = "present" then strstr value ['1'] || info.present else info.present
        chargeFullDesign := if name = "charge_full_design" then strtoull value / 1000 else info.chargeFullDesign
        chargeFull := if name = "charge_full" then strtoull value / 1000 else info.chargeFull
        energyFullDesign := if name = "energy_full_design" then strtoull value / 1000 else info.energyFullDesign
        energyFull := if name = "energy_full" then strtoull value / 1000 else info.energyFull
        batteryTechnology := if name = "technology" then .rechargeable else info.batteryTechnology
        designVoltage := if name = "voltage_min_design" then strtoull value / 1000 else info.designVoltage
        modelNumber := if name = "model_name" then strncpy info.modelNumber value 32 else info.modelNumber
        serialNumber := if name = "serial_number" then strncpy info.serialNumber value 32 else info.serialNumber
        batteryType := if name = "technology" then copyType value info.batteryType else info.batteryType
        oemInfo := if name = "manufacturer" then strncpy info.oemInfo value 32 else info.oemInfo } := by
  by_cases hpresent : name = "present"
  · subst hpresent
    cases hone : strstr value ['1'] with
    | true => simp [setBatteryInfoAttribute, hone]
    | false => simp [setBatteryInfoAttribute, hone]
  by_cases hChargeFullDesign : name = "charge_full_design"
  · subst hChargeFullDesign
    rfl
  by_cases hChargeFull : name = "charge_full"
  · subst hChargeFull
    rfl
  by_cases hEnergyFullDesign : name = "energy_full_design"
  · subst hEnergyFullDesign
    rfl
  by_cases hEnergyFull : name = "energy_full"
  · subst hEnergyFull
    rfl
  by_cases hVoltageMinDesign : name = "voltage_min_design"
  · subst hVoltageMinDesign
    rfl
  by_cases hModelName : name = "model_name"
  · subst hModelName
    rfl
  by_cases hSerialNumber : name = "serial_number"
  · subst hSerialNumber
    rfl
  by_cases hTechnology : name = "technology"
  · subst hTechnology
    rfl
  by_cases hManufacturer : name = "manufacturer"
  · subst hManufacturer
    rfl
  simp only [setBatteryInfoAttribute, hpresent, hChargeFullDesign, hChargeFull, hEnergyFullDesign, hEnergyFull,
    hVoltageMinDesign, hModelName, hSerialNumber, hTechnology, hManufacturer, if_false]

/-- An attribute that one file sets is what this file makes of its first value. -/
lemma attribute_of_file {β : Type} {get : BatteryInfo → β} {name : String} {set : List Char → β → β}
    (hget : ∀ other value info, get (setBatteryInfoAttribute other value info) =
      if other = name then set value (get info) else get info) :
    get (readInfoAttributes slot) =
      ((lookupKey Prod.fst name slot.files).map fun file => set (attribValue file.2) (get {})).getD (get {}) := by
  apply get_foldl_of_nodup _ _ slot.names_nodup
  · intro info file h
    rw [hget, if_pos h]
  · intro info file h
    rw [hget, if_neg h]

/-- A file that is missing is as good as an empty one. -/
lemma attribute_of_value {β : Type} {get : BatteryInfo → β} {name : String} {set : List Char → β → β}
    (hget : ∀ other value info, get (setBatteryInfoAttribute other value info) =
      if other = name then set value (get info) else get info)
    (hnone : set [] (get {}) = get {}) : get (readInfoAttributes slot) = set (slot.value name) (get {}) := by
  rw [attribute_of_file hget, Slot.value]
  cases lookupKey Prod.fst name slot.files with
  | none => exact hnone.symm
  | some file => rfl

lemma amount_of_file {get : BatteryInfo → UInt64} {name : String}
    (hget : ∀ other value info, get (setBatteryInfoAttribute other value info) =
      if other = name then strtoull value / 1000 else get info)
    (hzero : get {} = 0) : get (readInfoAttributes slot) = slot.amount name :=
  @attribute_of_value slot UInt64 get name (fun value _ => strtoull value / 1000) hget (by rw [hzero]; decide)

lemma text_of_file {get : BatteryInfo → Vector Char 32} {name : String}
    (hget : ∀ other value info, get (setBatteryInfoAttribute other value info) =
      if other = name then strncpy (get info) value 32 else get info)
    (hnul : get {} = Vector.replicate 32 '\x00') :
    get (readInfoAttributes slot) = strncpy (Vector.replicate 32 '\x00') (slot.value name) 32 := by
  have h := @attribute_of_value slot _ get name (fun value dst => strncpy dst value 32) hget (by rw [hnul]; decide)
  rw [h, hnul]

lemma copyType_eq (technology : List Char) : copyType technology (Vector.replicate 32 '\x00') =
    strncpy (Vector.replicate 32 '\x00') (typeText technology) 32 := by
  rw [copyType, typeText]
  split_ifs
  · decide
  · decide
  · rfl

/-- What the files say of a battery. -/
structure FromFiles (slot : Slot) (info : BatteryInfo) : Prop where
  chargeFullDesign : info.chargeFullDesign = slot.amount "charge_full_design"
  chargeFull : info.chargeFull = slot.amount "charge_full"
  energyFullDesign : info.energyFullDesign = slot.amount "energy_full_design"
  energyFull : info.energyFull = slot.amount "energy_full"
  designVoltage : info.designVoltage = slot.amount "voltage_min_design"
  batteryTechnology : info.batteryTechnology =
    if (lookupKey Prod.fst "technology" slot.files).isSome then .rechargeable else .nonRechargeable
  modelNumber : info.modelNumber = strncpy (Vector.replicate 32 '\x00') (slot.value "model_name") 32
  serialNumber : info.serialNumber = strncpy (Vector.replicate 32 '\x00') (slot.value "serial_number") 32
  batteryType : info.batteryType = strncpy (Vector.replicate 32 '\x00') (typeText (slot.value "technology")) 32
  oemInfo : info.oemInfo = strncpy (Vector.replicate 32 '\x00') (slot.value "manufacturer") 32

lemma fromFiles_readInfoAttributes : FromFiles slot (readInfoAttributes slot) where
  chargeFullDesign := amount_of_file (fun _ _ _ => by rw [setBatteryInfoAttribute_eq]) rfl
  chargeFull := amount_of_file (fun _ _ _ => by rw [setBatteryInfoAttribute_eq]) rfl
  energyFullDesign := amount_of_file (fun _ _ _ => by rw [setBatteryInfoAttribute_eq]) rfl
  energyFull := amount_of_file (fun _ _ _ => by rw [setBatteryInfoAttribute_eq]) rfl
  designVoltage := amount_of_file (fun _ _ _ => by rw [setBatteryInfoAttribute_eq]) rfl
  batteryTechnology := by
    have h := @attribute_of_file slot _ BatteryInfo.batteryTechnology "technology" (fun _ _ => .rechargeable)
      (fun _ _ _ => by rw [setBatteryInfoAttribute_eq])
    rw [h]
    cases lookupKey Prod.fst "technology" slot.files with
    | none => rfl
    | some file => rfl
  modelNumber := text_of_file (fun _ _ _ => by rw [setBatteryInfoAttribute_eq]) rfl
  serialNumber := text_of_file (fun _ _ _ => by rw [setBatteryInfoAttribute_eq]) rfl
  batteryType := by
    have h := @attribute_of_value slot _ BatteryInfo.batteryType "technology" copyType
      (fun _ _ _ => by rw [setBatteryInfoAttribute_eq]) (by decide)
    rw [h]
    exact copyType_eq _
  oemInfo := text_of_file (fun _ _ _ => by rw [setBatteryInfoAttribute_eq]) rfl

end Files

section Decoding

/-- What a BIF record says. -/
structure BifRecord where
  total : ℕ
  numbers : List ℕ
  texts : List (List Char)
  deriving DecidableEq

/-- A BIF record taken apart by its own length fields. -/
def decodeBif (text : List Char) : Option BifRecord :=
  (readHexByte text).bind fun total =>
    (readMany readHexWord 9 total.2).bind fun numbers =>
      (readMany readHexText 4 numbers.2).bind fun texts =>
        if texts.2 = [] then some ⟨total.1,numbers.1,texts.1⟩ else none

/-- The numbers of a record, cut to 32 bits. -/
def BatteryInfo.words (info : BatteryInfo) : List ℕ := info.fields.map fun field => field.2.toNat % 2 ^ 32

variable {info : BatteryInfo} {behind : List Char} {record : BifRecord}

lemma readMany_fields (rest : List Char) :
    readMany readHexWord 9 ((info.fields.flatMap fun field => hexWord field.2.toNat) ++ rest) =
      some (info.words,rest) :=
  @readMany_flatMap ℕ readHexWord (ℕ × UInt64) (fun field => hexWord field.2.toNat)
    (fun field => field.2.toNat % 2 ^ 32) info.fields (fun field _ rest => readHexWord_hexWord field.2.toNat rest) rest

lemma readMany_strings (h : ∀ text ∈ info.strings behind, text.length < 256) :
    readMany readHexText 4 ((info.strings behind).flatMap hexText) = some (info.strings behind,[]) := by
  have hread := @readMany_flatMap (List Char) readHexText (List Char) hexText id (info.strings behind)
    (fun text htext rest => readHexText_hexText (h text htext) rest) []
  rw [List.append_nil, List.map_id] at hread
  exact hread

/-- Where the strings leave a null byte in each array, the record is taken apart. -/
lemma decodeBif_of_short (h : ∀ text ∈ info.strings behind, text.length ≤ 31) : decodeBif (buildBif info behind) =
    some ⟨9 * 4 + ((info.strings behind).map List.length).sum + 4,info.words,info.strings behind⟩ := by
  have hsum : ((info.strings behind).map List.length).sum ≤ 124 :=
    List.sum_le_card_nsmul _ 31 (List.forall_mem_map.mpr h)
  have htotal := length_hexByte_of_lt (show 9 * 4 + ((info.strings behind).map List.length).sum + 4 < 256 by omega)
  have htexts : ((info.strings behind).flatMap hexText).length ≤ 255 := by
    rw [List.length_flatMap]
    refine (List.sum_le_card_nsmul _ 33 (List.forall_mem_map.mpr fun text htext => ?_)).trans
      (show 4 • 33 ≤ 255 by decide)
    rw [hexText, List.length_append, length_hexByte_of_lt (Nat.lt_of_le_of_lt (h text htext) (by decide))]
    have hle := h text htext
    omega
  rw [buildBif_eq, List.take_of_length_le htexts, List.take_of_length_le (Nat.le_of_eq htotal), decodeBif,
    readHexByte_hexByte (by omega), Option.bind_some, readMany_fields, Option.bind_some,
    readMany_strings fun text htext => Nat.lt_of_le_of_lt (h text htext) (by decide), Option.bind_some, if_pos rfl]

/-- What a record is taken apart into are its numbers and its strings, also where it is cut off. -/
lemma words_of_decodeBif (h : ∀ text ∈ info.strings behind, text.length < 256)
    (hdecode : decodeBif (buildBif info behind) = some record) :
    record.numbers = info.words ∧ record.texts = info.strings behind := by
  obtain ⟨a,b,hstart⟩ := List.length_eq_two.mp
    (length_total (9 * 4 + ((info.strings behind).map List.length).sum + 4))
  rw [buildBif_eq, hstart, List.cons_append, List.cons_append, List.nil_append, decodeBif,
    Option.bind_eq_some_iff] at hdecode
  obtain ⟨total,htotal,hdecode⟩ := hdecode
  rw [rest_of_readHexByte htotal, readMany_fields, Option.bind_some, Option.bind_eq_some_iff] at hdecode
  obtain ⟨texts,htexts,hrecord⟩ := hdecode
  split_ifs at hrecord with hend
  obtain rfl := Option.some.inj hrecord
  -- behind the place where the texts are cut off the reader would have gone on in the same way
  have hall := stable_readMany stable_readHexText 4 _ texts.1 texts.2 htexts
    (((info.strings behind).flatMap hexText).drop 255)
  rw [List.take_append_drop, readMany_strings h, Option.some_inj, Prod.mk.injEq] at hall
  exact ⟨rfl,hall.1.symm⟩

end Decoding

section Battery
variable (slot : Slot)

/-- The numbers that the files of a slot make up: the warning level is 8 percent of the last full capacity, and the
low level 4 percent. -/
def Slot.numbers : List ℕ :=
  [ if slot.amount "charge_full_design" ≠ 0 then 1 else 0,
    (if slot.amount "charge_full_design" ≠ 0 then slot.amount "charge_full_design"
      else slot.amount "energy_full_design").toNat,
    slot.lastFull.toNat,
    if (lookupKey Prod.fst "technology" slot.files).isSome then 1 else 0,
    (slot.amount "voltage_min_design").toNat,
    8 * slot.lastFull.toNat / 100,
    4 * slot.lastFull.toNat / 100,
    1,
    1 ]

/-- The BIF record of a slot. -/
def Slot.bifRecord : BifRecord :=
  let texts := slot.texts.map fun text => text.take 31
  ⟨36 + (texts.map List.length).sum + 4,slot.numbers.map fun n => n % 2 ^ 32,texts⟩

/-- What is written for a slot is taken apart into the record of its files, whatever memory is behind. -/
def DecodesBif : Prop := ∀ behind, decodeBif (buildBif (readBatteryInfo slot) behind) = some slot.bifRecord

/-- The capacities are taken from the files of the unit the battery reports in. -/
lemma capacities_readBatteryInfo : (readBatteryInfo slot).lastFullCapacity = slot.lastFull ∧
    (readBatteryInfo slot).powerUnit.value.toNat = (if slot.amount "charge_full_design" ≠ 0 then 1 else 0) ∧
    (readBatteryInfo slot).designCapacity = (if slot.amount "charge_full_design" ≠ 0 then
      slot.amount "charge_full_design" else slot.amount "energy_full_design") := by
  have h := @fromFiles_readInfoAttributes slot
  unfold readBatteryInfo settleUnit Slot.lastFull
  rw [← h.chargeFullDesign, ← h.chargeFull, ← h.energyFull, ← h.energyFullDesign]
  split_ifs
  · exact ⟨rfl,rfl,rfl⟩
  · exact ⟨rfl,rfl,rfl⟩

/-- The other attributes are kept as they were read. -/
lemma others_readBatteryInfo : (readBatteryInfo slot).batteryTechnology = (readInfoAttributes slot).batteryTechnology ∧
    (readBatteryInfo slot).designVoltage = (readInfoAttributes slot).designVoltage ∧
    ∀ behind, (readBatteryInfo slot).strings behind = (readInfoAttributes slot).strings behind := by
  unfold readBatteryInfo settleUnit
  split_ifs
  · exact ⟨rfl,rfl,fun _ => rfl⟩
  · exact ⟨rfl,rfl,fun _ => rfl⟩

/-- The record says 0 for the two levels: the percentage is an integer division. -/
lemma levels_readBatteryInfo : (readBatteryInfo slot).designCapacityWarning = 0 ∧
    (readBatteryInfo slot).designCapacityLow = 0 := ⟨UInt64.mul_zero,UInt64.mul_zero⟩

lemma words_readBatteryInfo :
    (readBatteryInfo slot).words = ((slot.numbers.set 5 0).set 6 0).map fun n => n % 2 ^ 32 := by
  obtain ⟨hfull,hunit,hdesign⟩ := capacities_readBatteryInfo slot
  obtain ⟨htechnology,hvoltage,-⟩ := others_readBatteryInfo slot
  obtain ⟨hwarning,hlow⟩ := levels_readBatteryInfo slot
  have hvalue : (readInfoAttributes slot).batteryTechnology.value.toNat =
      if (lookupKey Prod.fst "technology" slot.files).isSome then 1 else 0 := by
    rw [fromFiles_readInfoAttributes.batteryTechnology]
    split_ifs <;> rfl
  simp only [BatteryInfo.words, BatteryInfo.fields, List.map_cons, List.map_nil, hfull, hunit, hdesign, htechnology,
    hvoltage, hwarning, hlow, hvalue, fromFiles_readInfoAttributes.designVoltage, Slot.numbers]
  rfl

lemma nul_not_mem_value (name : String) : '\x00' ∉ slot.value name := by
  unfold Slot.value
  cases lookupKey Prod.fst name slot.files with
  | none => simp
  | some file => exact fun h => nul_not_mem_cString _ (List.dropWhile_subset _ h)

lemma nul_not_mem_typeText {technology : List Char} (h : '\x00' ∉ technology) : '\x00' ∉ typeText technology := by
  unfold typeText
  split_ifs
  · decide
  · decide
  · exact h

/-- The strings of a record are the texts of the files where these leave room for a null byte. -/
lemma strings_of_short (hshort : ∀ text ∈ slot.texts, text.length ≤ 31) (behind : List Char) :
    (readBatteryInfo slot).strings behind = slot.texts := by
  have h := @fromFiles_readInfoAttributes slot
  have hlt : ∀ text ∈ slot.texts, text.length < 32 := fun text htext => Nat.lt_succ_of_le (hshort text htext)
  simp only [Slot.texts, List.forall_mem_cons, List.not_mem_nil, false_imp_iff, implies_true, and_true] at hlt
  obtain ⟨hmodel,hserial,htype,hoem⟩ := hlt
  rw [(others_readBatteryInfo slot).2.2, BatteryInfo.strings, h.modelNumber, h.serialNumber, h.batteryType, h.oemInfo,
    cString_strncpy_of_lt (nul_not_mem_value slot _) hmodel, cString_strncpy_of_lt (nul_not_mem_value slot _) hserial,
    cString_strncpy_of_lt (nul_not_mem_typeText (nul_not_mem_value slot _)) htype,
    cString_strncpy_of_lt (nul_not_mem_value slot _) hoem]
  rfl

/-- A text that fills its array gives a longer string. -/
lemma length_le_of_string {dst : Vector Char 32} {text rest : List Char} (hnul : '\x00' ∉ text)
    (h : cString ((strncpy dst text 32).toList ++ rest) = text.take 31) : text.length ≤ 31 := by
  by_contra hlong
  rw [cString_strncpy_of_le hnul (by omega)] at h
  have hlength := congrArg List.length h
  rw [List.length_append, List.length_take, List.length_take] at hlength
  omega

lemma short_of_strings {behind : List Char}
    (h : (readBatteryInfo slot).strings behind = slot.texts.map fun text => text.take 31) :
    ∀ text ∈ slot.texts, text.length ≤ 31 := by
  have hfiles := @fromFiles_readInfoAttributes slot
  rw [(others_readBatteryInfo slot).2.2, BatteryInfo.strings, hfiles.modelNumber, hfiles.serialNumber,
    hfiles.batteryType, hfiles.oemInfo] at h
  simp only [Slot.texts, List.map_cons, List.map_nil, List.cons.injEq, and_true] at h
  obtain ⟨hmodel,hserial,htype,hoem⟩ := h
  simp only [Slot.texts, List.forall_mem_cons, List.not_mem_nil, false_imp_iff, implies_true, and_true]
  exact ⟨length_le_of_string (nul_not_mem_value slot _) hmodel,
    length_le_of_string (nul_not_mem_value slot _) hserial,
    length_le_of_string (nul_not_mem_typeText (nul_not_mem_value slot _)) htype,
    length_le_of_string (nul_not_mem_value slot _) hoem⟩

/-- No string is longer than the arrays together, and the memory behind them. -/
lemma length_strings_le (info : BatteryInfo) (behind : List Char) :
    ∀ text ∈ info.strings behind, text.length ≤ 128 + behind.length := by
  have hle : ∀ buffer : List Char, (cString buffer).length ≤ buffer.length := fun buffer =>
    (List.takeWhile_prefix _).length_le
  simp only [BatteryInfo.strings, List.forall_mem_cons, List.not_mem_nil, false_imp_iff, implies_true, and_true]
  refine ⟨(hle _).trans ?_,(hle _).trans ?_,(hle _).trans ?_,(hle _).trans ?_⟩ <;>
  · simp only [List.length_append, Vector.length_toList]
    omega

/-- The levels that are written as 0 are right. -/
lemma words_eq_numbers_iff : (readBatteryInfo slot).words = (slot.numbers.map fun n => n % 2 ^ 32) ↔
    8 * slot.lastFull.toNat / 100 % 2 ^ 32 = 0 ∧ 4 * slot.lastFull.toNat / 100 % 2 ^ 32 = 0 := by
  rw [words_readBatteryInfo]
  simp only [Slot.numbers, List.set_cons_succ, List.set_cons_zero, List.map_cons, List.map_nil, List.cons.injEq,
    true_and, and_true, Nat.zero_mod]
  exact and_congr eq_comm eq_comm

/-- For every content of the files of a battery: the record is taken apart into the numbers and the texts of the files
exactly if each text leaves room for a null byte in its array, and the two levels are multiples of 2^32 (as 0 is).
-/
theorem buildBif_decodes_iff : DecodesBif slot ↔ (∀ text ∈ slot.texts, text.length ≤ 31) ∧
    8 * slot.lastFull.toNat / 100 % 2 ^ 32 = 0 ∧ 4 * slot.lastFull.toNat / 100 % 2 ^ 32 = 0 := by
  constructor
  · intro h
    have hlength : ∀ text ∈ (readBatteryInfo slot).strings ['\x00'], text.length < 256 := fun text htext =>
      Nat.lt_of_le_of_lt (length_strings_le _ _ text htext) (by decide)
    obtain ⟨hwords,hstrings⟩ := words_of_decodeBif hlength (h ['\x00'])
    exact ⟨short_of_strings slot hstrings.symm,(words_eq_numbers_iff slot).mp hwords.symm⟩
  · rintro ⟨hshort,hlevels⟩ behind
    have hstrings := strings_of_short slot hshort behind
    have hcut : (slot.texts.map fun text => text.take 31) = slot.texts := by
      rw [List.map_congr_left fun text htext => List.take_of_length_le (hshort text htext), List.map_id']
    rw [decodeBif_of_short (by rw [hstrings]; exact hshort), hstrings, (words_eq_numbers_iff slot).mpr hlevels,
      Slot.bifRecord, hcut]

/-- A battery that says how much it holds when it is full. -/
def fullSlot : Slot := ⟨[("energy_full", "40000000\n".toList)],by decide⟩

/-- Eight percent of 40000 are 3200, and the record says 0. -/
theorem fullSlot_levels_zero :
    decodeBif (buildBif (readBatteryInfo fullSlot) ['\x00']) =
      some ⟨40,[0, 0, 40000, 0, 0, 0, 0, 1, 1],[[], [], [], []]⟩ ∧
    fullSlot.bifRecord = ⟨40,[0, 0, 40000, 0, 0, 3200, 1600, 1, 1],[[], [], [], []]⟩ ∧ ¬ DecodesBif fullSlot := by
  have hdecode : decodeBif (buildBif (readBatteryInfo fullSlot) ['\x00']) =
      some ⟨40,[0, 0, 40000, 0, 0, 0, 0, 1, 1],[[], [], [], []]⟩ := by decide +kernel
  have hrecord : fullSlot.bifRecord = ⟨40,[0, 0, 40000, 0, 0, 3200, 1600, 1, 1],[[], [], [], []]⟩ := by decide +kernel
  refine ⟨hdecode,hrecord,fun h => ?_⟩
  have heq := hdecode.symm.trans (h ['\x00'])
  rw [hrecord] at heq
  exact absurd heq (by decide)

end Battery

end Xctools.Xcpmd
