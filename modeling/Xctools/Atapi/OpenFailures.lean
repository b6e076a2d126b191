import Xctools.Atapi.Ownership

/-! What a request to open a device leaves in the table of a helper. The slot is written field by field while the
path and the files are still being tried, and a path is all that makes a slot one in use. -/
namespace Xctools.Atapi
open Machine

section Slots
variable {env : Env} {pid : ℕ} {s s' : Session} {i j : Fin maxDevices} {path : List Char}

/-- The slot is in use. -/
def DeviceState.Occupied (ds : DeviceState) : Prop := ds.devicePath ≠ []

/-- The same slots are in use, with the same fields. -/
structure Unchanged (hs hs' : Helper) : Prop where
  occupied : ∀ i, (hs'.devices i).Occupied ↔ (hs.devices i).Occupied
  fields : ∀ i, (hs.devices i).Occupied → hs'.devices i = hs.devices i

/-- The slot is that of a path: its descriptors are those of the device and of the lock file, and it has its own
number. -/
structure Holds (hs : Helper) (i : Fin maxDevices) (path : List Char) : Prop where
  ofPath : (hs.devices i).devicePath = path
  device : fdFile hs.files (hs.devices i).deviceFd = some path
  lock : fdFile hs.files (hs.devices i).lockFd = some (hs.devices i).lockFilePath
  names : Names path (hs.devices i).lockFilePath
  id : (hs.devices i).deviceId = i

/-- The slots in use have their devices open. -/
def Helper.Opened (hs : Helper) : Prop :=
  ∀ i, (hs.devices i).Occupied → fdFile hs.files (hs.devices i).deviceFd = some (hs.devices i).devicePath

/-- A path that gets past the scan, but not to the end: it is written in another way, or a file does not open. -/
def Spoils (env : Env) (path : List Char) : Prop :=
  (scanDevicePath path).length = 4 ∧
    (path ≠ devicePathText (scanDevicePath path) ∨ env.deviceOpens = false ∨ env.lockOpens = false)

instance (env : Env) (path : List Char) : Decidable (Spoils env path) := inferInstanceAs (Decidable (_ ∧ _))

lemma unchanged_refl (hs : Helper) : Unchanged hs hs := ⟨fun _ => Iff.rfl,fun _ _ => rfl⟩

@[simp] lemma devices_setDevice_self (s : Session) (i : Fin maxDevices) (ds : DeviceState) :
    (s.setDevice i ds).helper.devices i = ds := Function.update_self ..

lemma devices_setDevice_of_ne {ds : DeviceState} (h : j ≠ i) :
    (s.setDevice i ds).helper.devices j = s.helper.devices j := Function.update_of_ne h ..

lemma openPath_lt {opens : Bool} {files : List (Option (List Char))} :
    (openPath opens files path).1 < 0 ↔ opens = false := by
  constructor
  · intro h
    cases opens with
    | true => exact absurd h (Int.not_lt.mpr openPath_true.1)
    | false => rfl
  · rintro rfl
    exact Int.negSucc_lt_zero 0

/-- The path that is compared with the one that was asked for. -/
lemma snprintf_scan (ds : DeviceState) (h : (scanDevicePath path).length = 4) :
    snprintf 256 (devicePathText (ds.scanAddr (scanDevicePath path)).addr) = devicePathText (scanDevicePath path) := by
  rw [addr_scanAddr h]
  exact snprintf_decimals (by decide) (fun k hk => isInt_of_mem_scanDevicePath hk) h

/-- A path that is not one of a device leaves the slot free. -/
lemma fillSlot_of_length (h : (scanDevicePath path).length ≠ 4) : fillSlot env pid s i path =
    (s.setDevice i ((s.helper.devices i).scanAddr (scanDevicePath path)),none) := if_pos h

/-- What is spoilt has got a path before the call fails. -/
lemma fillSlot_of_spoils (h : Spoils env path) : (fillSlot env pid s i path).2 = none ∧
    ((fillSlot env pid s i path).1.helper.devices i).devicePath = devicePathText (scanDevicePath path) := by
  obtain ⟨hlen,hspoils⟩ := h
  have htext := snprintf_scan (s.helper.devices i) hlen
  unfold fillSlot
  rw [if_neg (not_not.mpr hlen)]
  dsimp only
  rw [htext]
  split_ifs with hpath hdevice hlock
  · simp
  · simp
  · simp
  · rw [openPath_lt, Bool.not_eq_false] at hdevice hlock
    rcases hspoils with hspoils | hspoils | hspoils
    · exact absurd hspoils hpath
    · rw [hdevice] at hspoils
      cases hspoils
    · rw [hlock] at hspoils
      cases hspoils

/-- Otherwise the slot is filled, and the device is opened. -/
lemma fillSlot_of_not_spoils (hlen : (scanDevicePath path).length = 4) (h : ¬ Spoils env path) :
    (fillSlot env pid s i path).2 = some i ∧
      fdFile (fillSlot env pid s i path).1.helper.files ((fillSlot env pid s i path).1.helper.devices i).deviceFd =
        some path := by
  have hgood := not_and.mp h hlen
  simp only [not_or, not_not, Bool.not_eq_false] at hgood
  obtain ⟨hpath,hdevice,hlock⟩ := hgood
  have htext := snprintf_scan (s.helper.devices i) hlen
  unfold fillSlot
  rw [if_neg (not_not.mpr hlen)]
  dsimp only
  rw [htext, if_neg (not_not.mpr hpath), hdevice, hlock, if_neg (by simp [openPath_lt]), if_neg (by simp [openPath_lt])]
  refine ⟨rfl,?_⟩
  rw [devices_setDevice_self]
  exact openPath_true.2.2 _ _ openPath_true.2.1

lemma findSlot_eq_none {hs : Helper} (h : findSlot hs path = none) :
    ∀ i, (hs.devices i).Occupied ∧ (hs.devices i).devicePath ≠ path := by
  intro i
  have hi := List.find?_eq_none.mp h i (List.mem_finRange i)
  simpa [DeviceState.Occupied] using hi

/-- What the scan writes to a free slot does not make it one in use. -/
lemma unchanged_scan (hfree : (s.helper.devices i).devicePath = []) (addr : List ℤ) :
    Unchanged s.helper (s.setDevice i ((s.helper.devices i).scanAddr addr)).helper := by
  refine ⟨fun k => ?_,fun k hk => ?_⟩
  · by_cases hki : k = i
    · subst hki
      rw [devices_setDevice_self]
      exact Iff.rfl
    · rw [devices_setDevice_of_ne hki]
  · apply devices_setDevice_of_ne
    rintro rfl
    exact hk hfree

/-- A slot that was filled is that of the path. -/
lemma holds_fillSlot (hlen : (scanDevicePath path).length = 4) (h : ¬ Spoils env path) :
    Holds (fillSlot env pid s i path).1.helper i path := by
  obtain ⟨hsome,hdevice⟩ := @fillSlot_of_not_spoils env pid s i path hlen h
  obtain ⟨-,ds,hfills⟩ := fillSlot_eq_some (Prod.ext rfl hsome : fillSlot env pid s i path = (_,some i))
  have hself : (fillSlot env pid s i path).1.helper.devices i = ds := by
    rw [hfills.devices, Function.update_self]
  have hnames := hfills.filled.names
  rw [hfills.path] at hnames
  have hfilled := hfills.filled
  rw [← hself] at hfilled hnames
  exact ⟨by rw [hself, hfills.path],hdevice,hfilled.opened,hnames,hfilled.id⟩

lemma initDeviceState_free (hfind : findSlot s.helper path = some i) (hfree : (s.helper.devices i).devicePath = []) :
    initDeviceState env pid s path = fillSlot env pid s i path := by
  rw [initDeviceState, hfind]
  exact if_pos hfree

lemma initDeviceState_used (hfind : findSlot s.helper path = some i) (hused : (s.helper.devices i).Occupied) :
    initDeviceState env pid s path = (s,some i) := by
  rw [initDeviceState, hfind]
  exact if_neg hused

/-- A device that was opened is open. -/
lemma Helper.Opened.initDeviceState (h : s.helper.Opened) (hinit : initDeviceState env pid s path = (s',some i)) :
    s'.helper.Opened := by
  unfold Atapi.initDeviceState at hinit
  split at hinit
  · cases (Prod.mk.inj hinit).2
  · rename_i k hfind
    split_ifs at hinit with hfree
    · obtain ⟨rfl,ds,hfills⟩ := fillSlot_eq_some hinit
      have hopen : fdFile s'.helper.files (s'.helper.devices i).deviceFd = some path := by
        by_cases hlen : (scanDevicePath path).length = 4
        · by_cases hspoils : Spoils env path
          · have hnone := (@fillSlot_of_spoils env pid s i path hspoils).1
            rw [hinit] at hnone
            cases hnone
          · have hfd := (@fillSlot_of_not_spoils env pid s i path hlen hspoils).2
            rwa [hinit] at hfd
        · rw [fillSlot_of_length hlen] at hinit
          cases (Prod.mk.inj hinit).2
      intro k hk
      by_cases hki : k = i
      · subst hki
        rw [hopen, hfills.devices, Function.update_self, hfills.path]
      · rw [hfills.devices, Function.update_of_ne hki] at hk ⊢
        exact hfills.files _ _ (h k hk)
    · obtain ⟨rfl,-⟩ := Prod.mk.inj hinit
      exact h

/-- The state of the lock has nothing to do with it. -/
lemma Helper.Opened.relock (h : s.helper.Opened) (state : LockState) :
    (s.setDevice i { s.helper.devices i with lockState := state }).helper.Opened := by
  intro k hk
  change (Function.update s.helper.devices i _ k).Occupied at hk
  change fdFile s.helper.files (Function.update s.helper.devices i _ k).deviceFd =
    some (Function.update s.helper.devices i _ k).devicePath
  by_cases hki : k = i
  · subst hki
    rw [Function.update_self] at hk ⊢
    exact h k hk
  · rw [Function.update_of_ne hki] at hk ⊢
    exact h k hk

lemma Helper.Opened.acquireGlobalLock (h : s.helper.Opened) : (acquireGlobalLock env pid s i).helper.Opened := by
  simp only [Atapi.acquireGlobalLock]
  split_ifs
  · exact h
  · cases fcntlLock env pid s (s.helper.devices i).lockFd with
    | none => exact h.relock .lockedByOther
    | some locks => exact Helper.Opened.relock (s := { s with locks }) h .lockedByMe

lemma Helper.Opened.releaseGlobalLock (h : s.helper.Opened) : (releaseGlobalLock env pid s i).helper.Opened := by
  simp only [Atapi.releaseGlobalLock]
  split_ifs
  · exact h
  · exact Helper.Opened.relock (s := { s with locks := fcntlUnlock env pid s (s.helper.devices i).lockFd }) h .unlocked

lemma session_sendResponse {cmd : Cmd} {lockState : Option LockState} :
    (sendResponse env s cmd i lockState).session = s := by
  unfold sendResponse
  split_ifs <;> rfl

/-- A helper that goes on after a packet has its devices open. -/
lemma Helper.Opened.handlePacket (h : s.helper.Opened) (packet : Packet)
    (hgo : (handlePacket env pid s packet).failed = false) : (handlePacket env pid s packet).session.helper.Opened := by
  cases packet with
  | «open» path =>
    simp only [Atapi.handlePacket, atapiPtargoOpen] at hgo ⊢
    cases hinit : Atapi.initDeviceState env pid s path with
    | mk s' slot =>
      rw [hinit] at hgo
      cases slot with
      | none => cases hgo
      | some i =>
        simp only [session_sendResponse]
        exact h.initDeviceState hinit
  | acquireLock deviceId =>
    simp only [Atapi.handlePacket, atapiPtargoAcquireLock]
    cases deviceIdToDeviceState s.helper deviceId with
    | none => exact h
    | some i =>
      simp only [session_sendResponse]
      exact h.acquireGlobalLock
  | releaseLock deviceId =>
    simp only [Atapi.handlePacket, atapiPtargoReleaseLock]
    cases deviceIdToDeviceState s.helper deviceId with
    | none => exact h
    | some i => exact h.releaseGlobalLock
  | sg cmd deviceId =>
    simp only [Atapi.handlePacket, atapiPtargoSg]
    cases deviceIdToDeviceState s.helper deviceId with
    | none => exact h
    | some i =>
      dsimp only
      split_ifs
      · simp only [session_sendResponse]
        exact h
      · exact h
  | bad => exact h

end Slots

section Runs
variable {w : World} {p : ℕ} {h : Helper}

/-- The helpers that are running. -/
def World.Opened (w : World) : Prop := ∀ p h, w.helpers p = some h → h.Opened

/-- What becomes of one helper does not concern the others. -/
lemma World.Opened.update (hw : w.Opened) {helper : Option Helper} {locks : Locks (List Char) ℕ}
    (hhelper : ∀ h, helper = some h → h.Opened) : World.Opened ⟨Function.update w.helpers p helper, locks⟩ := by
  intro q h hq
  change Function.update w.helpers p helper q = some h at hq
  by_cases hqp : q = p
  · subst hqp
    rw [Function.update_self] at hq
    exact hhelper h hq
  · rw [Function.update_of_ne hqp] at hq
    exact hw q h hq

lemma World.Opened.step (hw : w.Opened) (e : Event) : (w.step e).1.Opened := by
  cases e with
  | start p files =>
    cases hp : w.helpers p with
    | some h =>
      simp only [World.step, hp]
      exact hw
    | none =>
      simp only [World.step, hp]
      refine hw.update fun h hh i hi => ?_
      obtain rfl := Option.some.inj hh
      exact absurd rfl hi
  | packet p buf env =>
    cases hp : w.helpers p with
    | none =>
      simp only [World.step, hp]
      exact hw
    | some h =>
      have hopened : h.Opened := hw p h hp
      simp only [World.step, hp]
      split_ifs with hfailed
      · unfold World.exit
        rw [Function.update_idem]
        exact hw.update fun _ hnone => by cases hnone
      · refine hw.update fun h' hh' => ?_
        obtain rfl := Option.some.inj hh'
        exact Helper.Opened.handlePacket (s := ⟨h, w.locks⟩) hopened _ (by simpa using hfailed)
  | exit p => exact hw.update fun _ hnone => by cases hnone

lemma World.opened_run (events : List Event) : (World.run events).Opened :=
  World.invariant_run (fun p h hp => by cases hp) (fun _ e hw => hw.step e) events

/-- A slot in use is that of its path. -/
lemma World.Opened.holds (hw : w.Opened) (hsound : w.Sound) (hp : w.helpers p = some h) {i : Fin maxDevices}
    (hi : (h.devices i).Occupied) : Holds h i (h.devices i).devicePath := by
  have hfilled := (hsound p h hp).filled (i := i) hi
  exact ⟨rfl,hw p h hp i hi,hfilled.opened,hfilled.names,hfilled.id⟩

/-- What a request to open a device promises: a failure leaves the slots in use as they were, and the slot that
is found or filled is that of the path. -/
structure OpenPromise (env : Env) (p : ℕ) (s : Session) (path : List Char) : Prop where
  failed : (initDeviceState env p s path).2 = none → Unchanged s.helper (initDeviceState env p s path).1.helper
  opened : ∀ i, (initDeviceState env p s path).2 = some i → Holds (initDeviceState env p s path).1.helper i path

/-- The path takes a slot that is free, and a later check fails. -/
structure SpoilsSlot (env : Env) (h : Helper) (path : List Char) : Prop where
  fresh : ∀ i, (h.devices i).devicePath ≠ path
  free : ∃ i, ¬ (h.devices i).Occupied
  spoils : Spoils env path

/-- A free slot is the first one that is found, if the path is in none. -/
lemma Sound.findSlot_free {s : Session} {path : List Char} (hs : Sound p s) {i : Fin maxDevices}
    (hfind : findSlot s.helper path = some i) (hfree : (s.helper.devices i).devicePath = []) (hne : path ≠ []) :
    ∀ k, (s.helper.devices k).devicePath ≠ path := by
  intro k hk
  rcases lt_or_ge k i with hlt | hge
  · exact ((findSlot_eq_some hfind).2 k hlt).2 hk
  · rw [hs.packed i k hge (hs.free hfree)] at hk
    exact hne hk.symm

section Promise
variable {env : Env} {s : Session} {path : List Char} {i : Fin maxDevices}

/-- Without a slot for the path there is nothing to be spoiled. -/
lemma openPromise_full (hfind : findSlot s.helper path = none) :
    OpenPromise env p s path ↔ ¬ SpoilsSlot env s.helper path := by
  have hinit : initDeviceState env p s path = (s,none) := by rw [initDeviceState, hfind]
  have hnot : ¬ SpoilsSlot env s.helper path := fun hspoils => by
    obtain ⟨i,hi⟩ := hspoils.free
    exact hi (findSlot_eq_none hfind i).1
  refine iff_of_true ⟨fun _ => ?_,fun i hi => ?_⟩ hnot
  · rw [hinit]
    exact unchanged_refl s.helper
  · rw [hinit] at hi
    cases hi

/-- A slot that is in use is found as it is. -/
lemma openPromise_used (hfind : findSlot s.helper path = some i) (hused : (s.helper.devices i).Occupied)
    (hholds : Holds s.helper i (s.helper.devices i).devicePath) :
    OpenPromise env p s path ↔ ¬ SpoilsSlot env s.helper path := by
  have hinit : initDeviceState env p s path = (s,some i) := initDeviceState_used hfind hused
  have hpath := (findSlot_eq_some hfind).1.resolve_left hused
  refine iff_of_true ⟨fun hnone => ?_,fun k hk => ?_⟩ fun hspoils => hspoils.fresh i hpath
  · rw [hinit] at hnone
    cases hnone
  · rw [hinit] at hk ⊢
    obtain rfl := Option.some.inj hk
    rwa [← hpath]

/-- A free slot keeps the path of a request that fails after the scan. -/
lemma openPromise_free (hs : Sound p s) (hfind : findSlot s.helper path = some i)
    (hfree : (s.helper.devices i).devicePath = []) :
    OpenPromise env p s path ↔ ¬ SpoilsSlot env s.helper path := by
  have hinit : initDeviceState env p s path = fillSlot env p s i path := initDeviceState_free hfind hfree
  by_cases hlen : (scanDevicePath path).length = 4
  · by_cases hspoils : Spoils env path
    · obtain ⟨hnone,hpath⟩ := @fillSlot_of_spoils env p s i path hspoils
      rw [← hinit] at hnone hpath
      refine iff_of_false (fun hpromise => ?_) (not_not.mpr ⟨?_,⟨i,not_not.mpr hfree⟩,hspoils⟩)
      · -- the slot that was free has a path now
        apply ((hpromise.failed hnone).occupied i).mp _ hfree
        rw [DeviceState.Occupied, hpath]
        exact List.append_ne_nil_of_left_ne_nil (by decide) _
      · apply hs.findSlot_free hfind hfree
        rintro rfl
        cases hlen
    · have hsome := (@fillSlot_of_not_spoils env p s i path hlen hspoils).1
      refine iff_of_true ⟨fun hnone => ?_,fun k hk => ?_⟩ fun h => hspoils h.spoils
      · rw [hinit, hsome] at hnone
        cases hnone
      · rw [hinit, hsome] at hk
        obtain rfl := Option.some.inj hk
        rw [hinit]
        exact holds_fillSlot hlen hspoils
  · have hfill := hinit.trans (fillSlot_of_length hlen)
    refine iff_of_true ⟨fun _ => ?_,fun k hk => ?_⟩ fun h => hlen h.spoils.1
    · rw [hfill]
      exact unchanged_scan hfree _
    · rw [hfill] at hk
      cases hk

end Promise

/-- A request to open a device keeps its promise in every state that any run of the helpers leads to, unless the
path is new, a slot is free, and the path gets past the scan but is written in another way or one of the two
files does not open. -/
theorem open_keeps_table_iff (events : List Event) (env : Env) (path : List Char)
    (hp : (World.run events).helpers p = some h) :
    OpenPromise env p ⟨h, (World.run events).locks⟩ path ↔ ¬ SpoilsSlot env h path := by
  have hw := World.opened_run events
  have hsound := World.sound_run events
  cases hfind : findSlot h path with
  | none => exact openPromise_full hfind
  | some i =>
    by_cases hfree : (h.devices i).devicePath = []
    · exact openPromise_free (hsound p h hp) hfind hfree
    · exact openPromise_used hfind hfree (hw.holds hsound hp hfree)

/-- A helper that has just been started, a path in its canonical form, and the same one written in another way. -/
theorem open_keeps_table_padded :
    OpenPromise {} 1 ⟨{ files := [] }, (World.run [.start 1 []]).locks⟩ "/dev/bsg/1:0:0:0".toList ∧
      ¬ OpenPromise {} 1 ⟨{ files := [] }, (World.run [.start 1 []]).locks⟩ "/dev/bsg/01:0:0:0".toList := by
  have hright : ¬ Spoils {} "/dev/bsg/1:0:0:0".toList := by decide +kernel
  have hspoils : Spoils {} "/dev/bsg/01:0:0:0".toList := by decide +kernel
  have hempty : ∀ i, (({ files := [] } : Helper).devices i).devicePath = [] := fun _ => rfl
  refine ⟨(open_keeps_table_iff [.start 1 []] {} _ rfl).mpr fun h => hright h.spoils,fun h => ?_⟩
  refine (open_keeps_table_iff [.start 1 []] {} _ rfl).mp h ⟨fun i hi => ?_,⟨⟨0,by decide⟩,not_not.mpr (hempty _)⟩,hspoils⟩
  rw [hempty] at hi
  exact absurd hi (by decide)

/-- The path is refused, and its canonical form stands in the first slot from then on; a device that does not open
leaves its slot with the path as well. -/
theorem failed_open_takes_slot :
    (World.run [.start 1 []]).helpers 1 = some { files := [] } ∧
    (initDeviceState {} 1 ⟨{ files := [] }, fun _ => none⟩ "/dev/bsg/01:0:0:0".toList).2 = none ∧
    ((initDeviceState {} 1 ⟨{ files := [] }, fun _ => none⟩ "/dev/bsg/01:0:0:0".toList).1.helper.devices
      ⟨0, by decide⟩).devicePath = "/dev/bsg/1:0:0:0".toList ∧
    ¬ OpenPromise { deviceOpens := false } 1 ⟨{ files := [] }, fun _ => none⟩ "/dev/bsg/1:0:0:0".toList := by
  refine ⟨rfl,by decide +kernel,by decide +kernel,fun hpromise => ?_⟩
  have hnone : (initDeviceState { deviceOpens := false } 1 ⟨{ files := [] }, fun _ => none⟩
    "/dev/bsg/1:0:0:0".toList).2 = none := by decide +kernel
  have hpath : ((initDeviceState { deviceOpens := false } 1 ⟨{ files := [] }, fun _ => none⟩
    "/dev/bsg/1:0:0:0".toList).1.helper.devices ⟨0, by decide⟩).devicePath ≠ [] := by decide +kernel
  exact ((hpromise.failed hnone).occupied ⟨0, by decide⟩).mp hpath rfl

end Runs

end Xctools.Atapi
