import Xctools.Atapi.Helper

/-! One drive, one owner. A helper that goes on after a packet has slots that were filled as a whole, because
the first command that fails ends it; such a slot has the descriptor of the lock file that goes with its path,
and different paths have different lock files. -/
namespace Xctools.Atapi
open Machine

section Names

/-- The values of an int. -/
def IsInt (i : ℤ) : Prop := -2147483648 ≤ i ∧ i ≤ 2147483647

lemma isInt_of_mem_scanInts {n : ℕ} {text : List Char} {i : ℤ} (h : i ∈ scanInts n text) : IsInt i := by
  have hcut : ∀ text rest (j : ℤ), scanInt text = some (j, rest) → IsInt j := by
    intro text rest j hj
    obtain ⟨-,hj⟩ := Option.ite_none_left_eq_some.mp hj
    obtain ⟨rfl,-⟩ := Prod.mk.inj (Option.some.inj hj)
    exact ⟨Int32.le_toInt _,Int.le_of_lt_add_one (Int32.toInt_lt _)⟩
  induction n generalizing text with
  | zero => cases h
  | succ n ih =>
    unfold scanInts at h
    split at h
    · cases h
    · rename_i hj
      rcases List.mem_cons.mp h with rfl | h
      · exact hcut _ _ _ hj
      · exact ih h
    · rename_i hj
      rw [List.mem_singleton.mp h]
      exact hcut _ _ _ hj

lemma length_decimals_le {sep : Char} {addr : List ℤ} (h : ∀ i ∈ addr, IsInt i) :
    (decimals sep addr).length ≤ 12 * addr.length := by
  have hjoin : ∀ texts : List (List Char), (∀ t ∈ texts, t.length ≤ 11) →
      ([sep].intercalate texts).length ≤ 12 * texts.length := by
    intro texts ht
    induction texts with
    | nil => exact Nat.le_refl 0
    | cons t texts ih =>
      obtain ⟨ht,htexts⟩ := List.forall_mem_cons.mp ht
      have ih := ih htexts
      cases texts with
      | nil =>
        rw [List.intercalate_singleton, List.length_singleton]
        omega
      | cons t' texts =>
        rw [List.intercalate_cons_cons, List.length_append, List.length_append, List.length_singleton,
          List.length_cons]
        omega
  have hlength := hjoin (addr.map fun i => (toString i).toList) (by
    rw [List.forall_mem_map]
    exact fun i hi => length_toString_le (h i hi).1 (h i hi).2)
  rwa [List.length_map] at hlength

/-- The arrays are long enough. -/
lemma snprintf_decimals {start : List Char} {sep : Char} {addr : List ℤ} (hstart : start.length ≤ 28)
    (h : ∀ i ∈ addr, IsInt i) (hlen : addr.length = 4) :
    snprintf 256 (start ++ decimals sep addr) = start ++ decimals sep addr := by
  have hdecimals := @length_decimals_le sep addr h
  apply List.take_of_length_le
  rw [List.length_append]
  omega

/-- A path of a device and its lock file. -/
def Names (path lockFile : List Char) : Prop :=
  ∃ addr : List ℤ, addr.length = 4 ∧ path = devicePathText addr ∧ lockFile = lockFileText addr

/-- The lock file is that of one path only, and the path has only one. -/
lemma Names.lockFile_eq_iff {path path' lockFile lockFile' : List Char} (h : Names path lockFile)
    (h' : Names path' lockFile') : lockFile = lockFile' ↔ path = path' := by
  obtain ⟨addr,hlen,rfl,rfl⟩ := h
  obtain ⟨addr',hlen',rfl,rfl⟩ := h'
  have hne : addr ≠ [] := by
    rintro rfl
    cases hlen
  have hne' : addr' ≠ [] := by
    rintro rfl
    cases hlen'
  constructor
  · intro h
    rw [decimals_injective (by decide) (by decide) hne hne' (List.append_cancel_left h)]
  · intro h
    rw [decimals_injective (by decide) (by decide) hne hne' (List.append_cancel_left h)]

lemma Names.path_ne_nil {path lockFile : List Char} (h : Names path lockFile) : path ≠ [] := by
  obtain ⟨addr,-,rfl,-⟩ := h
  exact List.append_ne_nil_of_left_ne_nil (by decide) _

end Names

section Descriptors
variable {files : List (Option (List Char))} {path : List Char}

/-- The file that is opened is added to those that are open. -/
lemma openPath_true : 0 ≤ (openPath true files path).1 ∧
    fdFile (openPath true files path).2 (openPath true files path).1 = some path ∧
    ∀ fd file, fdFile files fd = some file → fdFile (openPath true files path).2 fd = some file := by
  have hjoin : ∀ (l : List (Option (List Char))) (fd : ℤ), fdFile l fd = if fd < 0 then none else l[fd.toNat]?.join :=
    fun l fd => rfl
  have hfd : (openPath true files path).1 = (files.findIdx (· = none) : ℕ) := rfl
  have hfiles : (openPath true files path).2 = if files.findIdx (· = none) < files.length then
      files.set (files.findIdx (· = none)) (some path) else files ++ [some path] := rfl
  rw [hfd, hfiles]
  refine ⟨Int.natCast_nonneg _,?_,?_⟩
  · rw [hjoin, if_neg (Int.not_lt.mpr (Int.natCast_nonneg _)), Int.toNat_natCast]
    split_ifs with hlt
    · rw [List.getElem?_set_self hlt]
      rfl
    · have hend : files.findIdx (· = none) = files.length := Nat.le_antisymm List.findIdx_le_length (Nat.le_of_not_lt hlt)
      rw [hend, List.getElem?_concat_length]
      rfl
  · intro fd file h
    rw [hjoin] at h ⊢
    obtain ⟨hneg,h⟩ := Option.ite_none_left_eq_some.mp h
    rw [if_neg hneg]
    obtain ⟨hlt,hget⟩ := List.getElem?_eq_some_iff.mp (Option.join_eq_some_iff.mp h)
    split_ifs with hfree
    · -- the descriptor that is taken was free
      have hne : files.findIdx (· = none) ≠ fd.toNat := by
        intro he
        have hnone := List.findIdx_getElem (w := hfree)
        simp only [he, hget] at hnone
        cases hnone
      rw [List.getElem?_set_ne hne]
      exact h
    · rw [List.getElem?_append_left hlt]
      exact h

end Descriptors

section Slots
variable {env : Env} {pid : ℕ} {s s' : Session} {i j : Fin maxDevices} {path : List Char}

/-- A slot whose fields were all set. -/
structure Filled (pid : ℕ) (files : List (Option (List Char))) (locks : Locks (List Char) ℕ) (i : Fin maxDevices)
    (ds : DeviceState) : Prop where
  id : ds.deviceId = i
  names : Names ds.devicePath ds.lockFilePath
  opened : fdFile files ds.lockFd = some ds.lockFilePath
  held : ds.lockState = .lockedByMe → locks ds.lockFilePath = some pid

/-- The slots of a helper that goes on: those in front are filled, with different paths, and the others are
as they were in the beginning. -/
structure Sound (pid : ℕ) (s : Session) : Prop where
  slots : ∀ i, s.helper.devices i = {} ∨ Filled pid s.helper.files s.locks i (s.helper.devices i)
  packed : ∀ i j, i ≤ j → s.helper.devices i = {} → s.helper.devices j = {}
  apart : ∀ i j, s.helper.devices i ≠ {} → (s.helper.devices i).devicePath = (s.helper.devices j).devicePath → i = j

lemma sound_start (pid : ℕ) (files : List (Option (List Char))) (locks : Locks (List Char) ℕ) :
    Sound pid ⟨{ files }, locks⟩ where
  slots _ := .inl rfl
  packed _ _ _ _ := rfl
  apart _ _ h := absurd rfl h

/-- A slot is free if its path is empty. -/
lemma Sound.filled (h : Sound pid s) (hpath : (s.helper.devices i).devicePath ≠ []) :
    Filled pid s.helper.files s.locks i (s.helper.devices i) := by
  rcases h.slots i with hfree | hfilled
  · rw [hfree] at hpath
    exact absurd rfl hpath
  · exact hfilled

lemma Sound.free (h : Sound pid s) (hpath : (s.helper.devices i).devicePath = []) : s.helper.devices i = {} := by
  rcases h.slots i with hfree | hfilled
  · exact hfree
  · exact absurd hpath hfilled.names.path_ne_nil

/-- What the other processes do to the locks does not concern a helper. -/
lemma Sound.mono (h : Sound pid s) {locks : Locks (List Char) ℕ}
    (hlocks : ∀ file, s.locks file = some pid → locks file = some pid) : Sound pid { s with locks } where
  slots i := (h.slots i).imp id fun hf => ⟨hf.id,hf.names,hf.opened,fun hme => hlocks _ (hf.held hme)⟩
  packed := h.packed
  apart := h.apart

/-- What a slot has got when it has been filled without a failure. -/
structure Fills (pid : ℕ) (s : Session) (i : Fin maxDevices) (path : List Char) (ds : DeviceState) (s' : Session) :
    Prop where
  devices : s'.helper.devices = Function.update s.helper.devices i ds
  files : ∀ fd file, fdFile s.helper.files fd = some file → fdFile s'.helper.files fd = some file
  locks : s'.locks = s.locks
  path : ds.devicePath = path
  filled : Filled pid s'.helper.files s'.locks i ds

lemma openPath_nonneg {opens : Bool} {files : List (Option (List Char))}
    (h : ¬ (openPath opens files path).1 < 0) : opens = true := by
  cases opens with
  | true => rfl
  | false => exact absurd (Int.negSucc_lt_zero 0) h

/-- All four numbers are assigned. -/
lemma addr_scanAddr {ds : DeviceState} {addr : List ℤ} (h : addr.length = 4) : (ds.scanAddr addr).addr = addr := by
  obtain ⟨a,b,c,d,rfl⟩ : ∃ a b c d, addr = [a, b, c, d] := List.length_eq_four.mp h
  rfl

lemma isInt_of_mem_scanDevicePath {i : ℤ} (h : i ∈ scanDevicePath path) : IsInt i := by
  unfold scanDevicePath at h
  split_ifs at h
  · exact isInt_of_mem_scanInts h
  · cases h

lemma fillSlot_eq_some (h : fillSlot env pid s i path = (s', some j)) : j = i ∧ ∃ ds, Fills pid s i path ds s' := by
  unfold fillSlot at h
  simp only at h
  split_ifs at h with hscan hpath hdevice hlock
  · cases (Prod.mk.inj h).2
  · cases (Prod.mk.inj h).2
  · cases (Prod.mk.inj h).2
  · cases (Prod.mk.inj h).2
  · have hlen : (scanDevicePath path).length = 4 := not_not.mp hscan
    have haddr : ((s.helper.devices i).scanAddr (scanDevicePath path)).addr = scanDevicePath path := addr_scanAddr hlen
    have hint : ∀ k ∈ scanDevicePath path, IsInt k := fun k hk => isInt_of_mem_scanDevicePath hk
    have hname := not_not.mp hpath
    obtain ⟨hs,hj⟩ := Prod.mk.inj h
    rw [openPath_nonneg hdevice, openPath_nonneg hlock] at hs
    subst hs
    refine ⟨(Option.some.inj hj).symm,_,rfl,fun fd file hfile => ?_,rfl,hname.symm,rfl,?_,?_,?_⟩
    · exact openPath_true.2.2 fd file (openPath_true.2.2 fd file hfile)
    · refine ⟨scanDevicePath path,hlen,?_,?_⟩
      · change snprintf 256 (devicePathText ((s.helper.devices i).scanAddr (scanDevicePath path)).addr) = _
        rw [haddr]
        exact snprintf_decimals (by decide) hint hlen
      · change snprintf 256 (lockFileText ((s.helper.devices i).scanAddr (scanDevicePath path)).addr) = _
        rw [haddr]
        exact snprintf_decimals (by decide) hint hlen
    · exact openPath_true.2.1
    · intro hme
      cases hme

lemma findSlot_eq_some {hs : Helper} (h : findSlot hs path = some i) :
    ((hs.devices i).devicePath = [] ∨ (hs.devices i).devicePath = path) ∧
      ∀ k < i, (hs.devices k).devicePath ≠ [] ∧ (hs.devices k).devicePath ≠ path := by
  obtain ⟨hi,n,hn,rfl,hbefore⟩ := List.find?_eq_some_iff_getElem.mp h
  refine ⟨by simpa using hi,fun k hk => ?_⟩
  rw [List.getElem_finRange] at hk
  have hlt : k.val < n := hk
  simpa using hbefore k.val hlt

/-- A slot that was filled as a whole joins those in front of it. -/
lemma Fills.sound {ds : DeviceState} (hf : Fills pid s i path ds s') (h : Sound pid s)
    (hfind : findSlot s.helper path = some i) (hfree : (s.helper.devices i).devicePath = []) : Sound pid s' := by
  obtain ⟨-,hbefore⟩ := findSlot_eq_some hfind
  have hempty : s.helper.devices i = {} := h.free hfree
  have hself : s'.helper.devices i = ds := by rw [hf.devices, Function.update_self]
  have hother : ∀ k, k ≠ i → s'.helper.devices k = s.helper.devices k := fun k hk => by
    rw [hf.devices, Function.update_of_ne hk]
  have hds : ds ≠ {} := by
    rintro rfl
    exact hf.filled.names.path_ne_nil rfl
  -- the path is in none of the other slots
  have hnew : ∀ k, k ≠ i → (s.helper.devices k).devicePath ≠ ds.devicePath := by
    intro k hk
    rcases lt_or_gt_of_ne hk with hlt | hgt
    · rw [hf.path]
      exact (hbefore k hlt).2
    · rw [h.packed i k (le_of_lt hgt) hempty]
      exact hf.filled.names.path_ne_nil.symm
  refine ⟨fun k => ?_,fun k l hkl hk => ?_,fun k l hk hpath => ?_⟩
  · by_cases hki : k = i
    · subst hki
      rw [hself]
      exact .inr hf.filled
    · rw [hother k hki, hf.locks]
      exact (h.slots k).imp id fun hk => ⟨hk.id,hk.names,hf.files _ _ hk.opened,hk.held⟩
  · have hki : k ≠ i := by
      rintro rfl
      exact hds (hself.symm.trans hk)
    rw [hother k hki] at hk
    have hik : i < k := by
      rcases lt_or_gt_of_ne hki with hlt | hgt
      · exact absurd (congrArg DeviceState.devicePath hk) (hbefore k hlt).1
      · exact hgt
    rw [hother l (ne_of_gt (lt_of_lt_of_le hik hkl))]
    exact h.packed k l hkl hk
  · by_cases hki : k = i
    · subst hki
      by_contra hlk
      rw [hself, hother l (Ne.symm hlk)] at hpath
      exact hnew l (Ne.symm hlk) hpath.symm
    · rw [hother k hki] at hk hpath
      by_cases hli : l = i
      · subst hli
        rw [hself] at hpath
        exact absurd hpath (hnew k hki)
      · rw [hother l hli] at hpath
        exact h.apart k l hk hpath

/-- The state of one lock is set. -/
lemma Sound.relock (h : Sound pid s) (hpath : (s.helper.devices i).devicePath ≠ []) {locks : Locks (List Char) ℕ}
    {state : LockState} (hkeep : ∀ file, file ≠ (s.helper.devices i).lockFilePath → s.locks file = some pid →
      locks file = some pid)
    (hstate : state = .lockedByMe → locks (s.helper.devices i).lockFilePath = some pid) :
    Sound pid ({ s with locks }.setDevice i { s.helper.devices i with lockState := state }) := by
  have hfilled := h.filled hpath
  set s' := { s with locks }.setDevice i { s.helper.devices i with lockState := state } with hs'
  have hself : s'.helper.devices i = { s.helper.devices i with lockState := state } :=
    Function.update_self i _ s.helper.devices
  have hother : ∀ k, k ≠ i → s'.helper.devices k = s.helper.devices k :=
    fun k hk => Function.update_of_ne hk _ s.helper.devices
  have hpaths : ∀ k, (s'.helper.devices k).devicePath = (s.helper.devices k).devicePath := by
    intro k
    by_cases hki : k = i
    · subst hki
      rw [hself]
    · rw [hother k hki]
  have hfree : ∀ k, s'.helper.devices k = {} ↔ s.helper.devices k = {} := by
    intro k
    by_cases hki : k = i
    · subst hki
      constructor
      · intro hk
        exact absurd ((hpaths k).symm.trans (congrArg DeviceState.devicePath hk)) hpath
      · intro hk
        exact absurd (congrArg DeviceState.devicePath hk) hpath
    · rw [hother k hki]
  refine ⟨fun k => ?_,fun k l hkl hk => ?_,fun k l hk hkl => ?_⟩
  · by_cases hki : k = i
    · subst hki
      rw [hself]
      exact .inr ⟨hfilled.id,hfilled.names,hfilled.opened,hstate⟩
    · rw [hother k hki]
      refine (h.slots k).imp id fun hk => ⟨hk.id,hk.names,hk.opened,fun hme => hkeep _ ?_ (hk.held hme)⟩
      -- another slot has another lock file
      intro he
      apply hki
      apply h.apart k i _ ((hk.names.lockFile_eq_iff hfilled.names).mp he)
      intro hempty
      rw [hempty] at hk
      exact hk.names.path_ne_nil rfl
  · rw [hfree] at hk ⊢
    exact h.packed k l hkl hk
  · rw [hpaths, hpaths] at hkl
    exact h.apart k l (fun he => hk ((hfree k).mpr he)) hkl

end Slots

section Packets
variable {env : Env} {pid : ℕ} {s s' : Session} {i : Fin maxDevices} {path : List Char} {deviceId : UInt8}

/-- The locks of the other processes are left alone. -/
def Spares (pid : ℕ) (locks locks' : Locks (List Char) ℕ) : Prop :=
  ∀ q, q ≠ pid → ∀ file, locks file = some q → locks' file = some q

lemma spares_refl (pid : ℕ) (locks : Locks (List Char) ℕ) : Spares pid locks locks := fun _ _ _ h => h

lemma acquireGlobalLock_spares : Spares pid s.locks (acquireGlobalLock env pid s i).locks := by
  intro q hq file hfile
  simp only [acquireGlobalLock]
  split_ifs
  · exact hfile
  · cases hlock : fcntlLock env pid s (s.helper.devices i).lockFd with
    | none => exact hfile
    | some locks =>
      unfold fcntlLock at hlock
      split_ifs at hlock
      obtain ⟨f,-,hgrab⟩ := Option.bind_eq_some_iff.mp hlock
      exact Locks.grab_keeps hgrab hfile

lemma Sound.acquireGlobalLock (h : Sound pid s) (hpath : (s.helper.devices i).devicePath ≠ []) :
    Sound pid (acquireGlobalLock env pid s i) := by
  simp only [Atapi.acquireGlobalLock]
  split_ifs
  · exact h
  · cases hlock : fcntlLock env pid s (s.helper.devices i).lockFd with
    | none => exact h.relock hpath (fun _ _ hfile => hfile) fun hme => by cases hme
    | some locks =>
      unfold fcntlLock at hlock
      split_ifs at hlock
      rw [(h.filled hpath).opened] at hlock
      exact h.relock hpath (fun _ _ hfile => Locks.grab_keeps hlock hfile) fun _ => Locks.grab_self hlock

lemma close_spares {fd : ℤ} : Spares pid s.locks (s.close pid fd).locks := by
  intro q hq file hfile
  cases hfd : fdFile s.helper.files fd with
  | none =>
    simp only [Session.close, hfd]
    exact hfile
  | some f =>
    simp only [Session.close, hfd]
    exact Locks.drop_keeps (.inl hq) hfile

lemma releaseGlobalLock_spares : Spares pid s.locks (releaseGlobalLock env pid s i).locks := by
  intro q hq file hfile
  simp only [releaseGlobalLock]
  split_ifs
  · exact hfile
  · change fcntlUnlock env pid s (s.helper.devices i).lockFd file = some q
    cases hfd : fdFile s.helper.files (s.helper.devices i).lockFd with
    | none =>
      simp only [fcntlUnlock, hfd, ite_self]
      exact hfile
    | some f =>
      simp only [fcntlUnlock, hfd]
      split_ifs
      · exact Locks.drop_keeps (.inl hq) hfile
      · exact hfile

lemma Sound.releaseGlobalLock (h : Sound pid s) (hpath : (s.helper.devices i).devicePath ≠ []) :
    Sound pid (releaseGlobalLock env pid s i) := by
  simp only [Atapi.releaseGlobalLock]
  split_ifs
  · exact h
  · refine h.relock hpath (fun file hne hfile => ?_) fun hme => by cases hme
    unfold fcntlUnlock
    rw [(h.filled hpath).opened]
    split_ifs
    · exact Locks.drop_keeps (.inr hne) hfile
    · exact hfile

lemma fillSlot_spares : Spares pid s.locks (fillSlot env pid s i path).1.locks := by
  intro q hq file hfile
  unfold fillSlot
  simp only
  split_ifs
  · exact hfile
  · exact hfile
  · exact hfile
  · exact close_spares q hq file hfile
  · exact hfile

lemma initDeviceState_spares : Spares pid s.locks (initDeviceState env pid s path).1.locks := by
  unfold initDeviceState
  split
  · exact spares_refl _ _
  · split_ifs
    · exact fillSlot_spares
    · exact spares_refl _ _

/-- A device that was opened is in its slot. -/
lemma Sound.initDeviceState (h : Sound pid s) (hinit : initDeviceState env pid s path = (s', some i)) :
    Sound pid s' ∧ (s'.helper.devices i).devicePath = path ∧ path ≠ [] := by
  unfold Atapi.initDeviceState at hinit
  split at hinit
  · cases (Prod.mk.inj hinit).2
  · rename_i k hfind
    split_ifs at hinit with hfree
    · obtain ⟨rfl,ds,hfills⟩ := fillSlot_eq_some hinit
      refine ⟨hfills.sound h hfind hfree,?_,?_⟩
      · rw [hfills.devices, Function.update_self, hfills.path]
      · rw [← hfills.path]
        exact hfills.filled.names.path_ne_nil
    · obtain ⟨rfl,hk⟩ := Prod.mk.inj hinit
      obtain rfl := Option.some.inj hk
      have hpath := (findSlot_eq_some hfind).1.resolve_left hfree
      exact ⟨h,hpath,hpath ▸ hfree⟩

lemma deviceIdToDeviceState_eq_some {hs : Helper} (h : deviceIdToDeviceState hs deviceId = some i) :
    deviceId.toNat = i ∧ (hs.devices i).devicePath ≠ [] := by
  unfold deviceIdToDeviceState at h
  split_ifs at h with hlt hpath
  obtain rfl := Option.some.inj h
  exact ⟨rfl,hpath⟩

/-- The number of a slot goes through a byte. -/
lemma Filled.toNat_id {files : List (Option (List Char))} {locks : Locks (List Char) ℕ} {ds : DeviceState}
    (h : Filled pid files locks i ds) : (UInt8.ofInt ds.deviceId).toNat = i := by
  have hlt : i.val < 2 ^ 8 := lt_trans i.isLt (by decide)
  have hint : ((i.val : ℤ) % 2 ^ 8).toNat = i.val := by omega
  rw [h.id, UInt8.ofInt, hint]
  exact UInt8.toNat_ofNat_of_lt hlt

/-- What a response has to say: the number of the slot that was asked for by its path or by its number, and the
state the lock is in. -/
def Reports (hs : Helper) (response : Response) : Packet → Prop
  | .open path => ∃ i : Fin maxDevices, (hs.devices i).devicePath = path ∧ response.deviceId.toNat = i
  | .acquireLock deviceId => response.deviceId = deviceId ∧
      ∃ i : Fin maxDevices, deviceId.toNat = i ∧ response.lockState = some (hs.devices i).lockState
  | .sg _ deviceId => response.deviceId = deviceId
  | _ => False

/-- How a command may end. -/
structure Ends (pid : ℕ) (s : Session) (packet : Packet) (done : Handled) : Prop where
  spares : Spares pid s.locks done.session.locks
  sound : done.failed = false → Sound pid done.session
  reports : ∀ r, done.response = some r → done.failed = false ∧ Reports done.session.helper r packet

lemma ends_failed {packet : Packet} (h : Spares pid s.locks s'.locks) :
    Ends pid s packet { session := s', failed := true } where
  spares := h
  sound hf := by cases hf
  reports r hr := by cases hr

lemma ends_sendResponse {packet : Packet} {cmd : Cmd} {lockState : Option LockState}
    (hspares : Spares pid s.locks s'.locks) (hsound : Sound pid s')
    (hreports : Reports s'.helper ⟨cmd, UInt8.ofInt (s'.helper.devices i).deviceId, lockState⟩ packet) :
    Ends pid s packet (sendResponse env s' cmd i lockState) := by
  unfold sendResponse
  split_ifs
  · refine ⟨hspares,fun _ => hsound,fun r hr => ⟨rfl,?_⟩⟩
    obtain rfl := Option.some.inj hr
    exact hreports
  · exact ends_failed hspares

lemma acquireGlobalLock_devicePath {k : Fin maxDevices} :
    ((acquireGlobalLock env pid s i).helper.devices k).devicePath = (s.helper.devices k).devicePath := by
  have hupdate : ∀ state, (Function.update s.helper.devices i { s.helper.devices i with lockState := state } k).devicePath =
      (s.helper.devices k).devicePath := by
    intro state
    by_cases hk : k = i
    · subst hk
      rw [Function.update_self]
    · rw [Function.update_of_ne hk]
  simp only [acquireGlobalLock]
  split_ifs
  · rfl
  · cases fcntlLock env pid s (s.helper.devices i).lockFd with
    | none => exact hupdate _
    | some locks => exact hupdate _

lemma Sound.handlePacket (h : Sound pid s) (packet : Packet) : Ends pid s packet (handlePacket env pid s packet) := by
  cases packet with
  | «open» path =>
    simp only [Atapi.handlePacket, atapiPtargoOpen]
    have hspares := @initDeviceState_spares env pid s path
    cases hinit : Atapi.initDeviceState env pid s path with
    | mk s' slot =>
      rw [hinit] at hspares
      cases slot with
      | none => exact ends_failed hspares
      | some i =>
        obtain ⟨hsound,hpath,hne⟩ := h.initDeviceState hinit
        rw [← hpath] at hne
        exact ends_sendResponse hspares hsound ⟨i,hpath,(hsound.filled hne).toNat_id⟩
  | acquireLock deviceId =>
    simp only [Atapi.handlePacket, atapiPtargoAcquireLock]
    cases hslot : deviceIdToDeviceState s.helper deviceId with
    | none => exact ends_failed (spares_refl _ _)
    | some i =>
      obtain ⟨hid,hpath⟩ := deviceIdToDeviceState_eq_some hslot
      have hsound := @Sound.acquireGlobalLock env pid s i h hpath
      have hfilled := hsound.filled (i := i) (by rw [acquireGlobalLock_devicePath]; exact hpath)
      refine ends_sendResponse acquireGlobalLock_spares hsound ⟨?_,i,hid,rfl⟩
      exact UInt8.toNat_inj.mp (hfilled.toNat_id.trans hid.symm)
  | releaseLock deviceId =>
    simp only [Atapi.handlePacket, atapiPtargoReleaseLock]
    cases hslot : deviceIdToDeviceState s.helper deviceId with
    | none => exact ends_failed (spares_refl _ _)
    | some i =>
      refine ⟨releaseGlobalLock_spares,fun _ => ?_,fun r hr => by cases hr⟩
      exact h.releaseGlobalLock (deviceIdToDeviceState_eq_some hslot).2
  | sg cmd deviceId =>
    simp only [Atapi.handlePacket, atapiPtargoSg]
    cases hslot : deviceIdToDeviceState s.helper deviceId with
    | none => exact ends_failed (spares_refl _ _)
    | some i =>
      obtain ⟨hid,hpath⟩ := deviceIdToDeviceState_eq_some hslot
      split_ifs
      · refine ends_sendResponse (spares_refl _ _) h ?_
        exact UInt8.toNat_inj.mp ((h.filled hpath).toNat_id.trans hid.symm)
      · exact ends_failed (spares_refl _ _)
  | bad => exact ends_failed (spares_refl _ _)

end Packets

section Runs
variable {w w' : World} {p q : ℕ} {h h' : Helper}

/-- All helpers that are running. -/
def World.Sound (w : World) : Prop := ∀ p h, w.helpers p = some h → Atapi.Sound p ⟨h, w.locks⟩

/-- A helper exits, whatever it had in its slots. -/
lemma World.sound_exit (hw : ∀ q h, q ≠ p → w.helpers q = some h → Atapi.Sound q ⟨h, w.locks⟩) : (w.exit p).Sound := by
  intro q h hq
  change Function.update w.helpers p none q = some h at hq
  by_cases hqp : q = p
  · subst hqp
    rw [Function.update_self] at hq
    cases hq
  · rw [Function.update_of_ne hqp] at hq
    exact (hw q h hqp hq).mono fun file hfile => Locks.leave_keeps hqp hfile

/-- A packet does not concern the other helpers. -/
lemma World.Sound.others (hw : w.Sound) {s : Session} (hspares : Spares p w.locks s.locks) (hqp : q ≠ p)
    (hq : Function.update w.helpers p (some s.helper) q = some h) : Atapi.Sound q ⟨h, s.locks⟩ := by
  rw [Function.update_of_ne hqp] at hq
  exact (hw q h hq).mono fun file hfile => hspares q hqp file hfile

/-- A helper is started or goes on, and the locks of the others are left alone. -/
lemma World.Sound.update (hw : w.Sound) {s : Session} (hs : Atapi.Sound p s) (hspares : Spares p w.locks s.locks) :
    World.Sound ⟨Function.update w.helpers p (some s.helper), s.locks⟩ := by
  intro q h hq
  by_cases hqp : q = p
  · subst hqp
    obtain rfl := Option.some.inj ((Function.update_self q (some s.helper) w.helpers).symm.trans hq)
    exact hs
  · exact hw.others hspares hqp hq

lemma World.Sound.step (hw : w.Sound) (e : Event) : (w.step e).1.Sound := by
  cases e with
  | start p files =>
    cases hp : w.helpers p with
    | some h =>
      simp only [World.step, hp]
      exact hw
    | none =>
      simp only [World.step, hp]
      exact hw.update (sound_start p files w.locks) (spares_refl p w.locks)
  | packet p buf env =>
    cases hp : w.helpers p with
    | none =>
      simp only [World.step, hp]
      exact hw
    | some h =>
      have hends := @Sound.handlePacket env p _ (hw p h hp) (decodePacket buf)
      simp only [World.step, hp]
      split_ifs with hfailed
      · exact World.sound_exit fun q h' hqp hq => hw.others hends.spares hqp hq
      · exact hw.update (hends.sound (by simpa using hfailed)) hends.spares
  | exit p => exact World.sound_exit fun q h _ hq => hw q h hq

/-- What every event keeps, every run keeps. -/
lemma World.invariant_run {P : World → Prop} (hstart : P {}) (hstep : ∀ w e, P w → P (w.step e).1)
    (events : List Event) : P (World.run events) := by
  have hfold : ∀ w : World, P w → P (events.foldl (fun w e => (w.step e).1) w) := by
    intro w hw
    induction events generalizing w with
    | nil => exact hw
    | cons e events ih => exact ih _ (hstep w e hw)
  exact hfold {} hstart

lemma World.sound_run (events : List Event) : (World.run events).Sound :=
  World.invariant_run (fun p h hp => by cases hp) (fun _ e hw => hw.step e) events

/-- A slot that says that its lock is held is that of a drive, and its helper has the lock of the drive. -/
lemma World.Sound.held (hw : w.Sound) (hp : w.helpers p = some h) {i : Fin maxDevices}
    (hme : (h.devices i).lockState = .lockedByMe) :
    Filled p h.files w.locks i (h.devices i) ∧ w.locks (h.devices i).lockFilePath = some p := by
  rcases (hw p h hp).slots i with hfree | hfilled
  · change h.devices i = {} at hfree
    rw [hfree] at hme
    cases hme
  · exact ⟨hfilled,hfilled.held hme⟩

/-- What is sent names the slot that was asked for. -/
lemma World.Sound.reports (hw : w.Sound) {buf : List UInt8} {env : Env} {r : Response}
    (hstep : w.step (.packet p buf env) = (w', some r)) :
    ∃ h, w'.helpers p = some h ∧ Reports h r (decodePacket buf) := by
  cases hp : w.helpers p with
  | none =>
    simp only [World.step, hp] at hstep
    cases (Prod.mk.inj hstep).2
  | some h =>
    simp only [World.step, hp] at hstep
    obtain ⟨hw',hr⟩ := Prod.mk.inj hstep
    obtain ⟨hfailed,hreports⟩ := (@Sound.handlePacket env p _ (hw p h hp) (decodePacket buf)).reports r hr
    rw [hfailed] at hw'
    subst hw'
    exact ⟨_,Function.update_self _ _ _,hreports⟩

/-- However many helpers there are, whatever they are asked and whichever of their calls fail: a drive has at
most one slot that says that its lock is held, the helper of that slot has the lock of the drive's own lock
file by an open descriptor, and a response has the number of the slot that was asked for. -/
theorem one_drive_one_owner (events : List Event) :
    (∀ p q h h' i j, (World.run events).helpers p = some h → (World.run events).helpers q = some h' →
      (h.devices i).lockState = .lockedByMe → (h'.devices j).lockState = .lockedByMe →
      (h.devices i).devicePath = (h'.devices j).devicePath → p = q ∧ i = j) ∧
    (∀ p h i, (World.run events).helpers p = some h → (h.devices i).lockState = .lockedByMe →
      Names (h.devices i).devicePath (h.devices i).lockFilePath ∧
      fdFile h.files (h.devices i).lockFd = some (h.devices i).lockFilePath ∧
      (World.run events).locks (h.devices i).lockFilePath = some p) ∧
    ∀ p buf env w r, (World.run events).step (.packet p buf env) = (w, some r) →
      ∃ h, w.helpers p = some h ∧ Reports h r (decodePacket buf) := by
  have hw := World.sound_run events
  refine ⟨fun p q h h' i j hp hq hi hj hpath => ?_,fun p h i hp hi => ?_,fun p buf env w r hstep => hw.reports hstep⟩
  · obtain ⟨hfilled,hheld⟩ := hw.held hp hi
    obtain ⟨hfilled',hheld'⟩ := hw.held hq hj
    rw [(hfilled.names.lockFile_eq_iff hfilled'.names).mpr hpath, hheld'] at hheld
    obtain rfl := Option.some.inj hheld
    obtain rfl := Option.some.inj (hp.symm.trans hq)
    refine ⟨rfl,(hw q h hp).apart i j ?_ hpath⟩
    intro hfree
    change h.devices i = {} at hfree
    rw [hfree] at hi
    cases hi
  · obtain ⟨hfilled,hheld⟩ := hw.held hp hi
    exact ⟨hfilled.names,hfilled.opened,hheld⟩

end Runs

end Xctools.Atapi
