import Xctools.Xcpmd.BatteryUpdates

/-! What `update_batteries` announces. An update compares the arrays of the records with their copies from before; an
index may be in one of the two only, and batteries need not be contiguous. -/
namespace Xctools.Xcpmd
open Machine

section Announcements
variable {poll : Poll} {old b : Batteries} {i j : ℕ}

/-- Whether there is a battery at an index; behind the array there is none. -/
def Batteries.presentAt (b : Batteries) (i : ℕ) : Bool := (b.lastStatus[i]?.map BatteryStatus.present).getD false

lemma quiet_syncBattery : ∀ x ∈ syncBattery poll old b i, x.announces = false := by
  have hwrites : ∀ x ∈ writeBatteryStatusToXenstore poll b i ++ writeBatteryInfoToXenstore poll b i,
      x.announces = false := fun x hx => (routine_writes poll b i x hx).quiet
  unfold syncBattery
  refine List.forall_mem_cons.mpr ⟨rfl,?_⟩
  split_ifs
  · exact hwrites
  · exact List.forall_mem_cons.mpr ⟨rfl,hwrites⟩
  · exact List.forall_mem_singleton.mpr rfl

/-- What is announced comes from the comparisons and from the end. -/
lemma mem_updateBatteries_iff {touched : List BatteryEffect} (hb : refreshRecords poll old = (.ok b,touched))
    (hquiet : ∀ x ∈ touched, x.announces = false) {x : BatteryEffect} (hx : x.announces = true) :
    x ∈ (updateBatteries false old poll).2 ↔
      (∃ j < max b.allocd old.allocd, x ∈ compareBattery old b j) ∨ x ∈ notifyChanges poll old b := by
  have hnot : ∀ {effects : List BatteryEffect}, (∀ y ∈ effects, y.announces = false) → x ∉ effects := by
    intro effects hquiet hmem
    rw [hquiet x hmem] at hx
    cases hx
  rw [updateBatteries_ok hb]
  rw [List.mem_append, List.mem_append, or_iff_right (hnot hquiet), List.mem_flatMap]
  simp only [List.mem_range, List.mem_append, hnot quiet_syncBattery, false_or]

/-- An index that is below only one of two sizes. -/
lemma getElem?_ne_of_lt_max {α : Type} {l l' : List α} (hj : j < max l'.length l.length)
    (hone : ¬ (j < l.length ∧ j < l'.length)) : l[j]? ≠ l'[j]? := by
  intro h
  have hnone : l[j]? = none ↔ l'[j]? = none := by rw [h]
  rw [List.getElem?_eq_none_iff, List.getElem?_eq_none_iff] at hnone
  omega

/-- Below only one of the two sizes a round announces both changes. -/
lemma compareBattery_of_one (hj : j < max b.allocd old.allocd) (hone : ¬ (j < old.allocd ∧ j < b.allocd)) :
    ∃ reads, (∀ x ∈ reads, x.announces = false) ∧
      compareBattery old b j = [.write (.infoEvent j) ['1'], .write (.statusEvent j) ['1']] ++ reads := by
  unfold compareBattery
  rw [if_neg hone]
  by_cases hgrown : old.allocd < b.allocd
  · rw [if_pos hgrown, if_neg (by omega)]
    exact ⟨[readStatus b j, readStatus b j],by simp [readStatus, BatteryEffect.announces],rfl⟩
  · rw [if_neg hgrown, if_pos (by omega), if_neg (by omega)]
    exact ⟨[readOldStatus old j, readOldStatus old j],by simp [readOldStatus, BatteryEffect.announces],rfl⟩

lemma event_mem_of_one {reads : List BatteryEffect} (hquiet : ∀ x ∈ reads, x.announces = false) {x : BatteryEffect}
    (hx : x.announces = true) : x ∈ [.write (.infoEvent j) ['1'], .write (.statusEvent j) ['1']] ++ reads ↔
      x = .write (.infoEvent j) ['1'] ∨ x = .write (.statusEvent j) ['1'] := by
  have hnot : x ∉ reads := fun hmem => by
    rw [hquiet x hmem] at hx
    cases hx
  simp [hnot]

lemma infoEvent_mem_compareBattery (hj : j < max b.allocd old.allocd) :
    .write (.infoEvent i) ['1'] ∈ compareBattery old b j ↔ j = i ∧ old.lastInfo[j]? ≠ b.lastInfo[j]? := by
  by_cases hboth : j < old.allocd ∧ j < b.allocd
  · unfold compareBattery
    rw [if_pos hboth]
    split_ifs with hinfo hstatus hstatus <;> simp [readOldInfo, readInfo, readOldStatus, readStatus, hinfo, eq_comm]
  · have hdiffer : old.lastInfo[j]? ≠ b.lastInfo[j]? := by
      apply getElem?_ne_of_lt_max
      · rw [old.sameSize, b.sameSize]
        exact hj
      · rw [old.sameSize, b.sameSize]
        exact hboth
    obtain ⟨reads,hquiet,heq⟩ := compareBattery_of_one hj hboth
    rw [heq, event_mem_of_one hquiet rfl]
    simp [hdiffer, eq_comm]

lemma statusEvent_mem_compareBattery (hj : j < max b.allocd old.allocd) :
    .write (.statusEvent i) ['1'] ∈ compareBattery old b j ↔ j = i ∧ old.lastStatus[j]? ≠ b.lastStatus[j]? := by
  by_cases hboth : j < old.allocd ∧ j < b.allocd
  · unfold compareBattery
    rw [if_pos hboth]
    split_ifs with hinfo hstatus hstatus <;> simp [readOldInfo, readInfo, readOldStatus, readStatus, hstatus, eq_comm]
  · have hdiffer : old.lastStatus[j]? ≠ b.lastStatus[j]? := getElem?_ne_of_lt_max hj hboth
    obtain ⟨reads,hquiet,heq⟩ := compareBattery_of_one hj hboth
    rw [heq, event_mem_of_one hquiet rfl]
    simp [hdiffer, eq_comm]

lemma numBatteriesChanged_not_mem_compareBattery (hj : j < max b.allocd old.allocd) :
    .notify .numBatteriesChanged ∉ compareBattery old b j := by
  by_cases hboth : j < old.allocd ∧ j < b.allocd
  · unfold compareBattery
    rw [if_pos hboth]
    split_ifs <;> simp [readOldInfo, readInfo, readOldStatus, readStatus]
  · obtain ⟨reads,hquiet,heq⟩ := compareBattery_of_one hj hboth
    rw [heq, event_mem_of_one hquiet rfl]
    simp

lemma present_statusRead (hj : j < b.allocd) : (statusRead poll b j).present = b.presentAt j := by
  rw [statusRead, Batteries.presentAt, List.getElem?_eq_getElem hj]
  rfl

lemma present_oldStatusRead (hj : j < old.allocd) : (oldStatusRead poll old j).present = old.presentAt j := by
  rw [oldStatusRead, Batteries.presentAt, List.getElem?_eq_getElem hj]
  rfl

lemma presentAt_of_le (hj : b.allocd ≤ j) : b.presentAt j = false := by
  rw [Batteries.presentAt, List.getElem?_eq_none hj]
  rfl

/-- A round sets the flag if there is a battery at its index before or after, and not both. -/
lemma presenceChanged_eq (hj : j < max b.allocd old.allocd) :
    presenceChanged poll old b j = (old.presentAt j != b.presentAt j) := by
  unfold presenceChanged
  by_cases hold : j < old.allocd
  · by_cases hnew : j < b.allocd
    · rw [if_pos ⟨hold,hnew⟩, present_oldStatusRead hold, present_statusRead hnew]
    · rw [if_neg fun hboth => hnew hboth.2, if_neg (by omega), if_pos (by omega), if_neg hnew,
        present_oldStatusRead hold, presentAt_of_le (Nat.le_of_not_lt hnew), Bool.bne_false]
  · rw [if_neg fun hboth => hold hboth.1, if_pos (by omega), if_neg hold, present_statusRead (by omega),
      presentAt_of_le (Nat.le_of_not_lt hold), Bool.false_bne]

/-- At the end the number of batteries is announced, if the flag was set, and nothing else. -/
lemma mem_notifyChanges_iff {x : BatteryEffect} (hx : x.announces = true) : x ∈ notifyChanges poll old b ↔
    (List.range (max b.allocd old.allocd)).any (presenceChanged poll old b) = true ∧ x = .notify .numBatteriesChanged := by
  have hnot : ∀ {c : Prop} [Decidable c] {effects : List BatteryEffect}, (∀ y ∈ effects, y.announces = false) →
      x ∉ if c then effects else [] := by
    intro c _ effects hquiet hmem
    split_ifs at hmem
    · rw [hquiet x hmem] at hx
      cases hx
    · cases hmem
  have hinfo : ∀ y ∈ [BatteryEffect.access (.whole .oldInfo false), .access (.whole .lastInfo b.freed)],
      y.announces = false := by simp [BatteryEffect.announces]
  have hstatus : ∀ y ∈ [BatteryEffect.access (.whole .oldStatus false), .access (.whole .lastStatus b.freed)],
      y.announces = false := by simp [BatteryEffect.announces]
  have hinfoSignal : ∀ y ∈ [BatteryEffect.notify .batteryInfoChanged], y.announces = false := by
    simp [BatteryEffect.announces]
  have hstatusSignal : ∀ y ∈ [BatteryEffect.write .batteryStatusChange ['1'], .notify .batteryStatusChanged],
      y.announces = false := by simp [BatteryEffect.announces]
  unfold notifyChanges
  rw [List.mem_append, or_iff_right]
  rotate_left
  · rw [List.mem_append, List.mem_append, List.mem_append, not_or, not_or, not_or]
    exact ⟨⟨⟨hnot hinfo,hnot hinfoSignal⟩,hnot hstatus⟩,hnot hstatusSignal⟩
  split_ifs with hflag
  · rw [List.mem_singleton, and_iff_right hflag]
  · exact iff_of_false List.not_mem_nil fun h => hflag h.1

/-- Where the rounds write an event of an index exactly if two arrays differ there, so does the update. -/
lemma event_mem_iff {touched : List BatteryEffect} (hb : refreshRecords poll old = (.ok b,touched))
    (hquiet : ∀ x ∈ touched, x.announces = false) {α : Type} {l l' : List α} {path : ℕ → XsPath}
    (hl : l.length = old.allocd) (hl' : l'.length = b.allocd)
    (hannounces : ∀ i, (BatteryEffect.write (path i) ['1']).announces = true)
    (hrounds : ∀ i j, j < max b.allocd old.allocd →
      (.write (path i) ['1'] ∈ compareBattery old b j ↔ j = i ∧ l[j]? ≠ l'[j]?)) (i : ℕ) :
    .write (path i) ['1'] ∈ (updateBatteries false old poll).2 ↔ l[i]? ≠ l'[i]? := by
  have hend : .write (path i) ['1'] ∉ notifyChanges poll old b := fun h => by
    cases ((mem_notifyChanges_iff (hannounces i)).mp h).2
  rw [mem_updateBatteries_iff hb hquiet (hannounces i), or_iff_left hend]
  constructor
  · rintro ⟨j,hj,hmem⟩
    obtain ⟨rfl,hne⟩ := (hrounds i j hj).mp hmem
    exact hne
  · intro hne
    have hi : i < max b.allocd old.allocd := by
      by_contra hge
      apply hne
      rw [List.getElem?_eq_none (by omega), List.getElem?_eq_none (by omega)]
    exact ⟨i,hi,(hrounds i i hi).mpr ⟨rfl,hne⟩⟩

lemma numBatteriesChanged_mem_iff {touched : List BatteryEffect} (hb : refreshRecords poll old = (.ok b,touched))
    (hquiet : ∀ x ∈ touched, x.announces = false) : .notify .numBatteriesChanged ∈ (updateBatteries false old poll).2 ↔
      ∃ i, old.presentAt i ≠ b.presentAt i := by
  have hrounds : ¬ ∃ j < max b.allocd old.allocd, .notify .numBatteriesChanged ∈ compareBattery old b j :=
    fun ⟨_,hj,hmem⟩ => numBatteriesChanged_not_mem_compareBattery hj hmem
  rw [mem_updateBatteries_iff hb hquiet rfl, or_iff_right hrounds, mem_notifyChanges_iff rfl, and_iff_left rfl,
    List.any_eq_true]
  constructor
  · rintro ⟨j,hj,hchanged⟩
    rw [presenceChanged_eq (List.mem_range.mp hj), bne_iff_ne] at hchanged
    exact ⟨j,hchanged⟩
  · rintro ⟨i,hne⟩
    have hi : i < max b.allocd old.allocd := by
      by_contra hge
      exact hne ((presentAt_of_le (by omega)).trans (presentAt_of_le (by omega)).symm)
    exact ⟨i,List.mem_range.mpr hi,by rw [presenceChanged_eq hi, bne_iff_ne]; exact hne⟩

/-- What an update says of two arrays: the number of batteries is announced exactly if there is an index with a battery
before and none after, or the other way round; the event of an index is written exactly if its record is not what it
was, where one of the two arrays may not have one. -/
structure Announces (effects : List BatteryEffect) (old b : Batteries) : Prop where
  number : .notify .numBatteriesChanged ∈ effects ↔ ∃ i, old.presentAt i ≠ b.presentAt i
  status : ∀ i, .write (.statusEvent i) ['1'] ∈ effects ↔ old.lastStatus[i]? ≠ b.lastStatus[i]?
  info : ∀ i, .write (.infoEvent i) ['1'] ∈ effects ↔ old.lastInfo[i]? ≠ b.lastInfo[i]?

/-- For every platform, every previous and new state of the slots, and any arrays before the update: it leaves the
records of the slots that are there now, and announces exactly what has changed, if and only if it does not need the
arrays that an earlier update has freed. On a platform without batteries it leaves everything as it is. -/
theorem update_announces_iff (noBatteries : Bool) (old : Batteries) (poll : Poll) :
    (∃ b effects, updateBatteries noBatteries old poll = (.ok b,effects) ∧ Announces effects old b ∧
      if noBatteries then b = old
      else b.lastStatus = (List.range poll.size).map poll.statusAt ∧ b.lastInfo = (List.range poll.size).map poll.infoAt) ↔
    (old.freed = true → noBatteries = true ∨ poll.size = 0) := by
  cases noBatteries with
  | true =>
    refine iff_of_true ⟨old,[],rfl,⟨?_,?_,?_⟩,rfl⟩ fun _ => .inl rfl
    · simp
    · simp
    · simp
  | false =>
    constructor
    · rintro ⟨b,effects,hrun,-,-⟩ hfreed
      refine .inr ?_
      by_contra hsize
      simp [updateBatteries, refreshRecords, resize_error old hfreed hsize] at hrun
    · intro h
      obtain ⟨b,touched,hrefresh,hrecords,-,hquiet⟩ :=
        @refreshRecords_ok poll old fun hfreed => (h hfreed).resolve_left Bool.false_ne_true
      refine ⟨b,(updateBatteries false old poll).2,?_,⟨?_,?_,?_⟩,hrecords.status,hrecords.info⟩
      · rw [updateBatteries_ok hrefresh]
      · exact numBatteriesChanged_mem_iff hrefresh hquiet
      · exact event_mem_iff hrefresh hquiet rfl rfl (fun _ => rfl) fun i j hj => statusEvent_mem_compareBattery hj
      · exact event_mem_iff hrefresh hquiet old.sameSize b.sameSize (fun _ => rfl)
          fun i j hj => infoEvent_mem_compareBattery hj

/-- The battery is back, and there is a second one. -/
def twoBatteries : Poll := { oneBattery with supply := ⟨[("BAT0", presentSlot), ("BAT1", presentSlot)],true⟩ }

/-- What is left when the last battery has gone. -/
def emptied : Batteries := { noBatteriesYet with freed := true, gone := fun _ => rfl }

/-- Batteries that come after that are not announced: the arrays that were freed are reallocated. -/
theorem reinsertion_reallocs_freed :
    (traced (nextUpdate false) (.ok noBatteriesYet) [oneBattery, noSlots]).1 = .ok emptied ∧
    ¬ ∃ b effects, updateBatteries false emptied twoBatteries = (.ok b,effects) ∧ Announces effects emptied b ∧
      b.lastStatus = (List.range twoBatteries.size).map twoBatteries.statusAt := by
  refine ⟨rfl,?_⟩
  rintro ⟨b,effects,hrun,-,-⟩
  have hsize : twoBatteries.size ≠ 0 := by decide +kernel
  simp [updateBatteries, refreshRecords, resize_error emptied rfl hsize] at hrun

end Announcements

end Xctools.Xcpmd
