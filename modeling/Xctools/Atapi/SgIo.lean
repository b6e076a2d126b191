import Xctools.Atapi.Helper
import Xctools.Machine.Layout

/-! The commands that are passed on to a drive, `atapi_ptargo_sg_io`. A packet carries the arguments of the `ioctl`
with the lengths the stub domain has put there; the helper sets the pointers to areas of the packet and of the
response, and checks some of the lengths. -/
namespace Xctools.Atapi
open Machine

section Code

/-- `MAX_ARGO_MSG_SIZE`: 64 pages less the header of the ring, 64 bytes, and a slot, in slots of 16 bytes. -/
def maxArgoMsgSize : ℕ := (4096 * 64 - 64 - 16 + 15) / 16 * 16

/-- The fields of `pt_argocmd_sg_io_request_t`, a header of 178 bytes with the data behind it. -/
def requestSize : ℕ := 178
def requestDataAt : ℕ := 162
def doutDataAt : ℕ := 178
def requestDeviceId (buf : List UInt8) : UInt8 := buf[1]?.getD 0
def doutDataLen (buf : List UInt8) : ℕ := uint32At 174 buf

/-- The areas of `pt_argocmd_sg_io_response_t`, a header of 230 bytes. -/
def responseSize : ℕ := 230
def senseDataAt : ℕ := 162
def senseDataSize : ℕ := 64
def dinDataAt : ℕ := 230

/-- `sizeof(response)`: it is a pointer. -/
def pointerSize : ℕ := 8

/-- What a pointer in the arguments leads to: an area of the packet or of `buf_out`, or whatever the number is the
address of. -/
inductive SgPointer
  | packet (offset : ℕ)
  | bufOut (offset : ℕ)
  | address (n : ℕ)
  deriving DecidableEq, Repr

/-- `struct sg_io_v4`, as far as `atapi_ptargo_sg_io` looks at it. -/
structure SgIoV4 where
  requestLen : ℕ
  request : SgPointer
  maxResponseLen : ℕ
  response : SgPointer
  doutXferLen : ℕ
  dinXferLen : ℕ
  doutXferp : SgPointer
  dinXferp : SgPointer
  deriving DecidableEq, Repr

/-- `request->sgio`, which is at byte 2. -/
def sgIoOf (buf : List UInt8) : SgIoV4 where
  requestLen := uint32At (2 + 12) buf
  request := .address (uint64At (2 + 16) buf)
  maxResponseLen := uint32At (2 + 44) buf
  response := .address (uint64At (2 + 48) buf)
  doutXferLen := uint32At (2 + 60) buf
  dinXferLen := uint32At (2 + 68) buf
  doutXferp := .address (uint64At (2 + 72) buf)
  dinXferp := .address (uint64At (2 + 80) buf)

/-- The pointers are set. -/
def SgIoV4.setPointers (cmd : SgIoV4) : SgIoV4 :=
  let cmd := { cmd with request := .packet requestDataAt, response := .bufOut senseDataAt }
  if cmd.doutXferLen > 0 then { cmd with doutXferp := .packet doutDataAt, dinXferp := .address 0 }
  else { cmd with doutXferp := .address 0, dinXferp := .bufOut dinDataAt }

/-- They are taken out before the arguments are sent back. -/
def SgIoV4.scrub (cmd : SgIoV4) : SgIoV4 :=
  { cmd with request := .address 0, response := .address 0, doutXferp := .address 0, dinXferp := .address 0 }

/-- What is sent back besides what the drive has put into the areas: the first `size` bytes of `buf_out`. -/
structure SgIoResponse where
  deviceId : ℤ
  sgio : SgIoV4
  dinDataLen : ℕ
  size : ℕ
  deriving DecidableEq, Repr

/-- How `atapi_ptargo_sg_io` ends: the arguments of the `ioctl`, if it came to it, with the descriptor, and what was
sent. It has failed unless something was. -/
structure SgIoDone where
  issued : Option (ℤ × SgIoV4) := none
  sent : Option SgIoResponse := none
  deriving DecidableEq, Repr

/-- `atapi_ptargo_sg_io`. The `ioctl` leaves the lengths as they are. -/
def atapiPtargoSgIo (env : Env) (hs : Helper) (buf : List UInt8) : SgIoDone :=
  if buf.length < requestSize then {}
  else if buf.length ≠ requestSize + doutDataLen buf then {}
  else match deviceIdToDeviceState hs (requestDeviceId buf) with
    | none => {}
    | some i =>
      let cmd := (sgIoOf buf).setPointers
      if cmd.maxResponseLen > senseDataSize then {}
      else if maxArgoMsgSize < pointerSize + cmd.dinXferLen then {}
      else
        let issued := some ((hs.devices i).deviceFd, cmd)
        if env.ioctlWorks then
          let response : SgIoResponse :=
            { deviceId := (hs.devices i).deviceId, sgio := cmd.scrub, dinDataLen := cmd.dinXferLen,
              size := responseSize + cmd.dinXferLen }
          if env.sends then { issued, sent := some response } else { issued }
        else { issued }

/-- The areas of a command are inside the packet and `buf_out`. -/
structure Inside (buf : List UInt8) (cmd : SgIoV4) : Prop where
  request : requestDataAt + cmd.requestLen ≤ buf.length
  dout : doutDataAt + cmd.doutXferLen ≤ buf.length
  sense : senseDataAt + cmd.maxResponseLen ≤ maxArgoMsgSize
  din : dinDataAt + cmd.dinXferLen ≤ maxArgoMsgSize

end Code

section Areas
variable {env : Env} {hs : Helper} {buf : List UInt8} {fd : ℤ} {cmd : SgIoV4}

/-- The checks that a packet has passed when the `ioctl` is made, besides that of the device. -/
structure Checked (buf : List UInt8) : Prop where
  length : buf.length = requestSize + doutDataLen buf
  sense : (sgIoOf buf).maxResponseLen ≤ senseDataSize
  din : pointerSize + (sgIoOf buf).dinXferLen ≤ maxArgoMsgSize

instance (buf : List UInt8) : Decidable (Checked buf) :=
  decidable_of_iff (buf.length = requestSize + doutDataLen buf ∧ (sgIoOf buf).maxResponseLen ≤ senseDataSize ∧
    pointerSize + (sgIoOf buf).dinXferLen ≤ maxArgoMsgSize)
    ⟨fun h => ⟨h.1,h.2.1,h.2.2⟩,fun h => ⟨h.length,h.sense,h.din⟩⟩

/-- Setting the pointers leaves the lengths alone. -/
lemma setPointers_lengths (cmd : SgIoV4) : cmd.setPointers.requestLen = cmd.requestLen ∧
    cmd.setPointers.maxResponseLen = cmd.maxResponseLen ∧ cmd.setPointers.doutXferLen = cmd.doutXferLen ∧
    cmd.setPointers.dinXferLen = cmd.dinXferLen := by
  rw [SgIoV4.setPointers]
  split_ifs <;> exact ⟨rfl,rfl,rfl,rfl⟩

/-- The `ioctl` is made for the packets that are checked and name a device; what is sent is as long as the lengths
say. -/
lemma atapiPtargoSgIo_eq (env : Env) (hs : Helper) (buf : List UInt8) : atapiPtargoSgIo env hs buf =
    match deviceIdToDeviceState hs (requestDeviceId buf) with
    | none => {}
    | some i =>
      if Checked buf then
        { issued := some ((hs.devices i).deviceFd,(sgIoOf buf).setPointers)
          sent := if env.ioctlWorks && env.sends then
            some ⟨(hs.devices i).deviceId,(sgIoOf buf).setPointers.scrub,(sgIoOf buf).dinXferLen,
              responseSize + (sgIoOf buf).dinXferLen⟩ else none }
      else {} := by
  obtain ⟨-,hsense,-,hdin⟩ := setPointers_lengths (sgIoOf buf)
  rw [atapiPtargoSgIo]
  cases deviceIdToDeviceState hs (requestDeviceId buf) with
  | none => split_ifs <;> rfl
  | some i =>
    dsimp only
    rw [hsense, hdin]
    by_cases hchecked : Checked buf
    · rw [if_neg (by rw [hchecked.length]; omega), if_neg (not_not_intro hchecked.length),
        if_neg (Nat.not_lt.mpr hchecked.sense), if_neg (Nat.not_lt.mpr hchecked.din), if_pos hchecked]
      cases env.ioctlWorks <;> cases env.sends <;> rfl
    · rw [if_neg hchecked]
      split_ifs with hshort hlength hsense hdin
      all_goals first | rfl | exact absurd ⟨not_not.mp hlength,Nat.le_of_not_lt hsense,Nat.le_of_not_lt hdin⟩ hchecked

/-- What is known of a command that is issued. -/
lemma of_issued (h : (atapiPtargoSgIo env hs buf).issued = some (fd,cmd)) :
    Checked buf ∧ cmd = (sgIoOf buf).setPointers ∧
      ∀ response, (atapiPtargoSgIo env hs buf).sent = some response →
        response.size = responseSize + cmd.dinXferLen := by
  rw [atapiPtargoSgIo_eq] at h ⊢
  cases hdevice : deviceIdToDeviceState hs (requestDeviceId buf) with
  | none =>
    rw [hdevice] at h
    cases h
  | some i =>
    rw [hdevice] at h
    dsimp only at h ⊢
    split_ifs at h ⊢ with hchecked hworks
    · obtain ⟨rfl,rfl⟩ := Prod.mk.inj (Option.some.inj h)
      refine ⟨hchecked,rfl,fun response hresponse => ?_⟩
      obtain rfl := Option.some.inj hresponse
      rw [(setPointers_lengths (sgIoOf buf)).2.2.2]
    · obtain ⟨rfl,rfl⟩ := Prod.mk.inj (Option.some.inj h)
      exact ⟨hchecked,rfl,nofun⟩

/-- Whenever the `ioctl` is made, all areas and the response are inside their buffers exactly if the command and the
output data do not go beyond the data of the packet, and the input data not beyond the response. -/
theorem sgIo_inside_iff (h : (atapiPtargoSgIo env hs buf).issued = some (fd,cmd)) :
    (Inside buf cmd ∧ ∀ response, (atapiPtargoSgIo env hs buf).sent = some response →
      response.size ≤ maxArgoMsgSize) ↔
      (sgIoOf buf).requestLen ≤ 16 + doutDataLen buf ∧ (sgIoOf buf).doutXferLen ≤ doutDataLen buf ∧
        responseSize + (sgIoOf buf).dinXferLen ≤ maxArgoMsgSize := by
  obtain ⟨hchecked,rfl,hsize⟩ := of_issued h
  obtain ⟨hrequest,hsense,hdout,hdin⟩ := setPointers_lengths (sgIoOf buf)
  have hlength := hchecked.length
  constructor
  · rintro ⟨⟨hcommand,hout,-,hin⟩,-⟩
    rw [hrequest] at hcommand
    rw [hdout] at hout
    rw [hdin] at hin
    unfold requestDataAt requestSize doutDataAt dinDataAt responseSize at *
    omega
  · rintro ⟨hcommand,hout,hin⟩
    refine ⟨⟨?_,?_,?_,?_⟩,fun response hresponse => ?_⟩
    · rw [hrequest, hlength]
      unfold requestDataAt requestSize
      omega
    · rw [hdout, hlength]
      unfold doutDataAt requestSize
      omega
    · rw [hsense]
      exact Nat.le_trans (Nat.add_le_add_left hchecked.sense _) (by decide)
    · rw [hdin]
      exact hin
    · rw [hsize response hresponse, hdin]
      exact hin

/-- A device is open in the first slot. -/
def sampleHelper : Helper where
  devices i := if i.val = 0 then { devicePath := ['x'], deviceFd := 3 } else {}
  files := []

/-- A command for the first slot without output data, with these lengths. -/
def samplePacket (requestLen dinXferLen : List UInt8) : List UInt8 :=
  [1, 0] ++ List.replicate 12 0 ++ requestLen ++ List.replicate 52 0 ++ dinXferLen ++ List.replicate 104 0

/-- A command of 12 bytes that asks for a block of 2048 bytes. -/
theorem sgIo_inside_iff_read :
    Inside (samplePacket [12, 0, 0, 0] [0, 8, 0, 0]) (sgIoOf (samplePacket [12, 0, 0, 0] [0, 8, 0, 0])).setPointers ∧
      (atapiPtargoSgIo {} sampleHelper (samplePacket [12, 0, 0, 0] [0, 8, 0, 0])).sent.map SgIoResponse.size =
        some 2278 := by
  have hissued : (atapiPtargoSgIo {} sampleHelper (samplePacket [12, 0, 0, 0] [0, 8, 0, 0])).issued =
      some (3,(sgIoOf (samplePacket [12, 0, 0, 0] [0, 8, 0, 0])).setPointers) := by decide +kernel
  exact ⟨((sgIo_inside_iff hissued).mpr (by decide +kernel)).1,by decide +kernel⟩

/-- One that asks for 262050 bytes is issued, and the response is longer than `buf_out`. -/
theorem sgIo_outside :
    ∃ cmd response,
      (atapiPtargoSgIo {} sampleHelper (samplePacket [12, 0, 0, 0] [0xa2, 0xff, 3, 0])).issued = some (3,cmd) ∧
      (atapiPtargoSgIo {} sampleHelper (samplePacket [12, 0, 0, 0] [0xa2, 0xff, 3, 0])).sent = some response ∧
      ¬ Inside (samplePacket [12, 0, 0, 0] [0xa2, 0xff, 3, 0]) cmd ∧ ¬ response.size ≤ maxArgoMsgSize := by
  have hissued : (atapiPtargoSgIo {} sampleHelper (samplePacket [12, 0, 0, 0] [0xa2, 0xff, 3, 0])).issued =
      some (3,(sgIoOf (samplePacket [12, 0, 0, 0] [0xa2, 0xff, 3, 0])).setPointers) := by decide +kernel
  have hsent : (atapiPtargoSgIo {} sampleHelper (samplePacket [12, 0, 0, 0] [0xa2, 0xff, 3, 0])).sent =
      some ⟨0,(sgIoOf (samplePacket [12, 0, 0, 0] [0xa2, 0xff, 3, 0])).setPointers.scrub,262050,262280⟩ := by
    decide +kernel
  have hlong : ¬ dinDataAt + (sgIoOf (samplePacket [12, 0, 0, 0] [0xa2, 0xff, 3, 0])).setPointers.dinXferLen ≤
      maxArgoMsgSize := by decide +kernel
  exact ⟨_,_,hissued,hsent,fun h => hlong h.din,by decide⟩

/-- The helper as a whole takes the checks of the sizes for a part of the `ioctl`. -/
theorem handlePacket_sgIo {s : Session} {pid : ℕ} (hcmd : buf[0]? = some 1) :
    handlePacket { env with ioctlWorks := env.ioctlWorks && decide (Checked buf) } pid s (decodePacket buf) =
      { session := s
        response := (atapiPtargoSgIo env s.helper buf).sent.map fun r => ⟨.sgIo,UInt8.ofInt r.deviceId,none⟩
        failed := (atapiPtargoSgIo env s.helper buf).sent.isNone } := by
  have hdecode : decodePacket buf = .sg .sgIo (requestDeviceId buf) := by
    rw [decodePacket, hcmd]
    rfl
  rw [hdecode, handlePacket, atapiPtargoSg, atapiPtargoSgIo_eq]
  cases deviceIdToDeviceState s.helper (requestDeviceId buf) with
  | none => rfl
  | some i =>
    by_cases hchecked : Checked buf
    · cases env.ioctlWorks <;> cases hsends : env.sends <;> simp [hchecked, sendResponse]
    · simp [hchecked]

end Areas

end Xctools.Atapi
