import Xctools.Machine.Decimal
import Xctools.Machine.FileLocks
import Mathlib.Data.Fin.Basic
import Mathlib.Data.List.FinRange

/-! The helpers for passed-through drives, `atapi_pt_helper.c`. There is one process for each stub domain. It
has six slots for devices; a slot is filled field by field when a device is opened, and is found again by the
path. What the drive is guarded by is the lock of a file that all helpers name in the same way. -/
namespace Xctools.Atapi
open Machine

section Paths

/-- `isspace`. -/
def isSpace (c : Char) : Bool := c = ' ' || ('\t' ≤ c && c ≤ '\r')

/-- `%d` of `sscanf`, with what is left of the text. A number beyond the longs becomes the last of them, and a
long is cut to an int. -/
def scanInt (text : List Char) : Option (ℤ × List Char) :=
  let text := text.dropWhile isSpace
  let negative := text.head? = some '-'
  let text := if negative ∨ text.head? = some '+' then text.tail else text
  let digits := text.takeWhile Char.isDigit
  if digits = [] then none
  else
    let value : ℤ := Nat.ofDigitChars 10 digits 0
    let long := if negative then max (-value) (-9223372036854775808) else min value 9223372036854775807
    some ((Int32.ofInt long).toInt, text.dropWhile Char.isDigit)

/-- So many `%d` with colons between them: what is converted before the text differs. -/
def scanInts : ℕ → List Char → List ℤ
  | 0, _ => []
  | n + 1, text =>
    match scanInt text with
    | none => []
    | some (i, ':' :: rest) => i :: scanInts n rest
    | some (i, _) => [i]

/-- `sscanf` with `/dev/bsg/%d:%d:%d:%d`. -/
def scanDevicePath (path : List Char) : List ℤ :=
  if "/dev/bsg/".toList <+: path then scanInts 4 (path.drop "/dev/bsg/".length) else []

/-- `snprintf` into an array of this size. -/
def snprintf (size : ℕ) (text : List Char) : List Char := text.take (size - 1)

/-- `/dev/bsg/%d:%d:%d:%d`. -/
def devicePathText (addr : List ℤ) : List Char := "/dev/bsg/".toList ++ decimals ':' addr

/-- `/var/lock/xen-atapi-pt-lock-%d_%d_%d_%d`. -/
def lockFileText (addr : List ℤ) : List Char := "/var/lock/xen-atapi-pt-lock-".toList ++ decimals '_' addr

end Paths

section State

/-- `atapi_pt_lock_state_t`. -/
inductive LockState
  | unlocked
  | lockedByMe
  | lockedByOther
  deriving DecidableEq, Repr

/-- `ATAPIPTDeviceState`, as `memset` leaves it. -/
structure DeviceState where
  deviceId : ℤ := 0
  deviceFd : ℤ := 0
  devicePath : List Char := []
  deviceAddrA : ℤ := 0
  deviceAddrB : ℤ := 0
  deviceAddrC : ℤ := 0
  deviceAddrD : ℤ := 0
  lockFilePath : List Char := []
  lockFd : ℤ := 0
  lockState : LockState := .unlocked
  deriving DecidableEq, Repr

def DeviceState.addr (ds : DeviceState) : List ℤ :=
  [ds.deviceAddrA, ds.deviceAddrB, ds.deviceAddrC, ds.deviceAddrD]

/-- `MAX_ATAPI_PT_DEVICES`. -/
def maxDevices : ℕ := 6

/-- A process: its slots, and for each descriptor the path under which the file was opened. -/
structure Helper where
  devices : Fin maxDevices → DeviceState := fun _ => {}
  files : List (Option (List Char))

/-- The file of a descriptor. -/
def fdFile (files : List (Option (List Char))) (fd : ℤ) : Option (List Char) :=
  if fd < 0 then none else files[fd.toNat]?.join

/-- `open`. It takes the first descriptor that is free, or fails. -/
def openPath (opens : Bool) (files : List (Option (List Char))) (path : List Char) :
    ℤ × List (Option (List Char)) :=
  if opens then
    let fd := files.findIdx (· = none)
    (fd, if fd < files.length then files.set fd (some path) else files ++ [some path])
  else (-1, files)

/-- A helper that handles a packet, and the locks of all processes. -/
structure Session where
  helper : Helper
  locks : Locks (List Char) ℕ

def Session.setDevice (s : Session) (i : Fin maxDevices) (ds : DeviceState) : Session :=
  { s with helper := { s.helper with devices := Function.update s.helper.devices i ds } }

def Session.setFiles (s : Session) (files : List (Option (List Char))) : Session :=
  { s with helper := { s.helper with files } }

/-- `close`. The process gives up the lock of the file. -/
def Session.close (s : Session) (pid : ℕ) (fd : ℤ) : Session where
  helper := { s.helper with files := s.helper.files.set fd.toNat none }
  locks := match fdFile s.helper.files fd with
    | some file => s.locks.drop pid file
    | none => s.locks

end State

section Commands

/-- What the system makes of the calls for one packet. -/
structure Env where
  deviceOpens : Bool := true
  lockOpens : Bool := true
  fcntlWorks : Bool := true
  ioctlWorks : Bool := true
  sends : Bool := true
  deriving DecidableEq, Repr

variable (env : Env) (pid : ℕ)

/-- `fcntl` with `F_WRLCK`. It fails when another process has the lock, and may fail otherwise. -/
def fcntlLock (s : Session) (fd : ℤ) : Option (Locks (List Char) ℕ) :=
  if env.fcntlWorks then (fdFile s.helper.files fd).bind (s.locks.grab pid) else none

/-- `fcntl` with `F_UNLCK`. -/
def fcntlUnlock (s : Session) (fd : ℤ) : Locks (List Char) ℕ :=
  if env.fcntlWorks then
    match fdFile s.helper.files fd with
    | some file => s.locks.drop pid file
    | none => s.locks
  else s.locks

/-- `acquire_global_lock`. -/
def acquireGlobalLock (s : Session) (i : Fin maxDevices) : Session :=
  let ds := s.helper.devices i
  if ds.lockState = .lockedByMe then s
  else match fcntlLock env pid s ds.lockFd with
    | some locks => { s with locks }.setDevice i { ds with lockState := .lockedByMe }
    | none => s.setDevice i { ds with lockState := .lockedByOther }

/-- `release_global_lock`. -/
def releaseGlobalLock (s : Session) (i : Fin maxDevices) : Session :=
  let ds := s.helper.devices i
  if ds.lockState ≠ .lockedByMe then s
  else { s with locks := fcntlUnlock env pid s ds.lockFd }.setDevice i { ds with lockState := .unlocked }

/-- The numbers that `sscanf` has converted are assigned, also when the path is refused. -/
def DeviceState.scanAddr (ds : DeviceState) (addr : List ℤ) : DeviceState :=
  { ds with
    deviceAddrA := addr[0]?.getD ds.deviceAddrA
    deviceAddrB := addr[1]?.getD ds.deviceAddrB
    deviceAddrC := addr[2]?.getD ds.deviceAddrC
    deviceAddrD := addr[3]?.getD ds.deviceAddrD }

/-- `init_device_state` from the scan of the path on. What was written to the slot stays there when a call
fails. -/
def fillSlot (s : Session) (i : Fin maxDevices) (path : List Char) : Session × Option (Fin maxDevices) :=
  let addr := scanDevicePath path
  let ds := (s.helper.devices i).scanAddr addr
  if addr.length ≠ 4 then (s.setDevice i ds, none)
  else
    let ds := { ds with devicePath := snprintf 256 (devicePathText ds.addr) }
    if path ≠ ds.devicePath then (s.setDevice i ds, none)
    else
      let (deviceFd, files) := openPath env.deviceOpens s.helper.files path
      let ds := { ds with deviceFd }
      if deviceFd < 0 then ((s.setFiles files).setDevice i ds, none)
      else
        let ds := { ds with deviceId := i, lockFilePath := snprintf 256 (lockFileText ds.addr) }
        let (lockFd, files) := openPath env.lockOpens files ds.lockFilePath
        let ds := { ds with lockFd }
        if lockFd < 0 then
          (((s.setFiles files).close pid deviceFd).setDevice i { ds with deviceFd := -1 }, none)
        else ((s.setFiles files).setDevice i { ds with lockState := .unlocked }, some i)

/-- The search of `init_device_state`: it ends at the first slot that is free or has the path. -/
def findSlot (hs : Helper) (path : List Char) : Option (Fin maxDevices) :=
  (List.finRange maxDevices).find? fun i =>
    (hs.devices i).devicePath = [] || (hs.devices i).devicePath = path

/-- `init_device_state`. -/
def initDeviceState (s : Session) (path : List Char) : Session × Option (Fin maxDevices) :=
  match findSlot s.helper path with
  | none => (s, none)
  | some i => if (s.helper.devices i).devicePath = [] then fillSlot env pid s i path else (s, some i)

/-- `device_id_to_device_state`. -/
def deviceIdToDeviceState (hs : Helper) (deviceId : UInt8) : Option (Fin maxDevices) :=
  if h : deviceId.toNat < maxDevices then
    if (hs.devices ⟨deviceId.toNat,h⟩).devicePath = [] then none else some ⟨deviceId.toNat,h⟩
  else none

/-- `atapi_ptargo_cmd_t`. -/
inductive Cmd
  | open
  | sgIo
  | sgGetReservedSize
  | acquireLock
  | releaseLock
  deriving DecidableEq, Repr

/-- What all responses have, and the state of the lock. -/
structure Response where
  cmd : Cmd
  deviceId : UInt8
  lockState : Option LockState := none
  deriving DecidableEq, Repr

/-- A packet by its first byte. The others are those that are refused before a slot is looked at. -/
inductive Packet
  | open (path : List Char)
  | acquireLock (deviceId : UInt8)
  | releaseLock (deviceId : UInt8)
  | sg (cmd : Cmd) (deviceId : UInt8)
  | bad
  deriving DecidableEq, Repr

/-- The buffer was cleared before, so that a path without an end is followed by zeros. -/
def decodePacket (buf : List UInt8) : Packet :=
  let deviceId := buf[1]?.getD 0
  match (buf[0]?.getD 0).toNat with
  | 0 => if buf.length = 258 then .open (((buf.drop 2).takeWhile (· ≠ 0)).map Char.ofUInt8) else .bad
  | 1 => .sg .sgIo deviceId
  | 2 => if buf.length = 2 then .sg .sgGetReservedSize deviceId else .bad
  | 3 => if buf.length = 2 then .acquireLock deviceId else .bad
  | 4 => if buf.length = 2 then .releaseLock deviceId else .bad
  | _ => .bad

/-- How a command ends: what was sent, and whether it has failed. -/
structure Handled where
  session : Session
  response : Option Response := none
  failed : Bool := false

/-- `pt_argo_send_message` with the slot's number. -/
def sendResponse (s : Session) (cmd : Cmd) (i : Fin maxDevices) (lockState : Option LockState) : Handled :=
  if env.sends then { session := s, response := some ⟨cmd, UInt8.ofInt (s.helper.devices i).deviceId, lockState⟩ }
  else { session := s, failed := true }

/-- `atapi_ptargo_open`. -/
def atapiPtargoOpen (s : Session) (path : List Char) : Handled :=
  match initDeviceState env pid s path with
  | (s, none) => { session := s, failed := true }
  | (s, some i) => sendResponse env s .open i none

/-- `atapi_ptargo_acquire_lock`. -/
def atapiPtargoAcquireLock (s : Session) (deviceId : UInt8) : Handled :=
  match deviceIdToDeviceState s.helper deviceId with
  | none => { session := s, failed := true }
  | some i =>
    let s := acquireGlobalLock env pid s i
    sendResponse env s .acquireLock i (some (s.helper.devices i).lockState)

/-- `atapi_ptargo_release_lock`. -/
def atapiPtargoReleaseLock (s : Session) (deviceId : UInt8) : Handled :=
  match deviceIdToDeviceState s.helper deviceId with
  | none => { session := s, failed := true }
  | some i => { session := releaseGlobalLock env pid s i }

/-- `atapi_ptargo_sg_get_reserved_size` and `atapi_ptargo_sg_io`, with their checks of the sizes as a part of
what the system makes of the `ioctl`. -/
def atapiPtargoSg (s : Session) (cmd : Cmd) (deviceId : UInt8) : Handled :=
  match deviceIdToDeviceState s.helper deviceId with
  | none => { session := s, failed := true }
  | some i => if env.ioctlWorks then sendResponse env s cmd i none else { session := s, failed := true }

/-- The switch of `main`. -/
def handlePacket (s : Session) : Packet → Handled
  | .open path => atapiPtargoOpen env pid s path
  | .acquireLock deviceId => atapiPtargoAcquireLock env pid s deviceId
  | .releaseLock deviceId => atapiPtargoReleaseLock env pid s deviceId
  | .sg cmd deviceId => atapiPtargoSg env s cmd deviceId
  | .bad => { session := s, failed := true }

end Commands

section World

/-- The helpers that are running, by their pids, and the locks. -/
structure World where
  helpers : ℕ → Option Helper := fun _ => none
  locks : Locks (List Char) ℕ := fun _ => none

/-- A helper is started, with the descriptors it has then, gets a packet, or exits. -/
inductive Event
  | start (pid : ℕ) (files : List (Option (List Char)))
  | packet (pid : ℕ) (buf : List UInt8) (env : Env)
  | exit (pid : ℕ)

/-- `exit_cleanup`. -/
def World.exit (w : World) (pid : ℕ) : World where
  helpers := Function.update w.helpers pid none
  locks := w.locks.leave pid

/-- One event, and what is sent. The loop of `main` ends with the first command that fails. -/
def World.step (w : World) : Event → World × Option Response
  | .start pid files =>
    match w.helpers pid with
    | none => ({ w with helpers := Function.update w.helpers pid (some { files }) }, none)
    | some _ => (w, none)
  | .packet pid buf env =>
    match w.helpers pid with
    | none => (w, none)
    | some helper =>
      let done := handlePacket env pid ⟨helper, w.locks⟩ (decodePacket buf)
      let w : World := ⟨Function.update w.helpers pid (some done.session.helper), done.session.locks⟩
      (if done.failed then w.exit pid else w, done.response)
  | .exit pid => (w.exit pid, none)

/-- A run of all helpers. -/
def World.run (events : List Event) : World := events.foldl (fun w e => (w.step e).1) {}

end World

end Xctools.Atapi
