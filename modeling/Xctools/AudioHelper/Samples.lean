import Xctools.Machine.Layout
import Xctools.Machine.Outcome

/-! The samples that the audio helper takes from its stub domain and hands to it, `openxtvmaudio.c`. A packet is
received into the same memory as the one before; how many samples it is about stands in its body, and is compared
with the size of the sample buffer after a multiplication of ints. -/
namespace Xctools.AudioHelper
open Machine

section Code

/-- Error numbers. -/
def eio : ℤ := 5
def eagain : ℤ := 11
def enodev : ℤ := 19
def einval : ℤ := 22
def epipe : ℤ := 32
def eoverflow : ℤ := 75

/-- `MAX_PCM_BUFFER_SIZE`, `ARGO_MAX_PACKET_BODY_SIZE`, and what `openxt_vmaudio` sets `sample_size` to. -/
def maxPcmBufferSize : ℤ := 4096
def argoMaxPacketBodySize : ℤ := 4096 * 2
def sampleSize : ℤ := 4

/-- `openxt_process_playback` or `openxt_process_capture`. -/
inductive Direction
  | playback
  | capture
  deriving DecidableEq, Repr

/-- `OPENXT_PLAYBACK` and `OPENXT_CAPTURE`. -/
def Direction.opcode : Direction → ℤ
  | .playback => 50
  | .capture => 51

/-- What `snd_pcm_writei` or `snd_pcm_readi` returns, and `snd_pcm_prepare` if it comes to that. -/
structure PcmAnswer where
  ret : ℤ
  prepare : ℤ := 0
  deriving DecidableEq, Repr

/-- The loop around the call. After an underrun it is tried again. -/
def transfer : List PcmAnswer → Outcome ℤ
  | [] => .error .loop
  | answer :: answers =>
    if answer.ret < 0 then
      if answer.ret = -epipe then if answer.prepare = 0 then transfer answers else .ok answer.prepare
      else if answer.ret = -eagain then .ok 0
      else .ok answer.ret
    else .ok answer.ret

/-- `openxt_alsa_writei` and `openxt_alsa_readi`: how many samples the call is made for, if it is, and the result. -/
def openxtAlsaIo (opened : Bool) (num size : ℤ) (answers : List PcmAnswer) : Option ℤ × Outcome ℤ :=
  if opened = false then (none, .ok (-einval))
  else if ¬ Int.bmod (sampleSize * num) (2 ^ 32) ≤ size then (none, .ok (-einval))
  else if num ≤ 0 then (none, .ok 0)
  else (some num, transfer answers)

def openxtAlsaWritei := openxtAlsaIo
def openxtAlsaReadi := openxtAlsaIo

/-- Which PCMs are open, the connection, and the memory of `rcv_packet`. -/
structure VmAudio where
  opened : Direction → Bool
  connected : Bool := true
  rcvPacket : List UInt8

/-- The fields of the header, and of the body of both packets. -/
def VmAudio.opcode (s : VmAudio) : ℤ := int32At 0 s.rcvPacket
def VmAudio.length (s : VmAudio) : ℤ := int32At 4 s.rcvPacket
def VmAudio.numSamples (s : VmAudio) : ℤ := int32At 8 s.rcvPacket
def samplesAt : ℤ := 12

/-- What `argo_recvfrom` gives: up to as many bytes as an `ArgoPacket` has, or none, with an error number that is
only set if there was an error. -/
structure Received where
  bytes : List UInt8
  errno : ℤ := 0
  bounded : bytes.length ≤ 8 + 4096 * 2
  deriving DecidableEq, Repr

/-- `openxt_argo_recv`. -/
def openxtArgoRecv (s : VmAudio) (r : Received) : ℤ × VmAudio :=
  if s.connected = false then (-enodev, s)
  else if r.bytes = [] then (-r.errno, { s with connected := false })
  else
    let s := { s with rcvPacket := overlay s.rcvPacket r.bytes }
    if s.length ≠ (r.bytes.length : ℤ) then (-eio, { s with connected := false })
    else (r.bytes.length - 8, s)

/-- An `OPENXT_CAPTURE_ACK`. -/
structure CaptureAck where
  length : ℤ
  numSamples : ℤ
  deriving DecidableEq, Repr

/-- What becomes of a packet: the samples that were asked of ALSA, what was sent, and the result. -/
structure Processed where
  call : Option ℤ := none
  ack : Option CaptureAck := none
  ret : Outcome ℤ

/-- `openxt_process_playback`. -/
def openxtProcessPlayback (s : VmAudio) (answers : List PcmAnswer) : Processed :=
  let (call, ret) := openxtAlsaWritei (s.opened .playback) s.numSamples maxPcmBufferSize answers
  { call, ret := do return if (← ret) = s.numSamples then 0 else -epipe }

/-- `CAPTURE_ACK_PACKET_LENGTH`. -/
def captureAckPacketLength (nread : ℤ) : ℤ := 4 + 4 * nread

/-- `openxt_process_capture`; `sent` is what `openxt_argo_send` returns. -/
def openxtProcessCapture (s : VmAudio) (answers : List PcmAnswer) (sent : ℤ) : Processed :=
  let (call, ret) := openxtAlsaReadi (s.opened .capture) s.numSamples maxPcmBufferSize answers
  match ret with
  | .error e => { call, ret := .error e }
  | .ok nread =>
    if nread < 0 then { call, ret := .ok nread }
    else if Int.bmod (captureAckPacketLength nread) (2 ^ 32) > argoMaxPacketBodySize then
      { call, ret := .ok (-eoverflow) }
    else
      { call, ack := some ⟨Int.bmod (captureAckPacketLength nread) (2 ^ 32),nread⟩
        ret := .ok (if sent = captureAckPacketLength nread then 0 else sent) }

/-- Which way the packet in memory moves samples, if it is one of the two that do. -/
def VmAudio.direction (s : VmAudio) : Option Direction :=
  if s.opcode = Direction.playback.opcode then some .playback
  else if s.opcode = Direction.capture.opcode then some .capture
  else none

/-- A round of the loop of `openxt_vmaudio`, up to the packets that move no samples. -/
def VmAudio.process (s : VmAudio) (r : Received) (answers : List PcmAnswer) (sent : ℤ) : Option Processed :=
  let (ret, s) := openxtArgoRecv s r
  if ret < 0 then some { ret := .ok ret }
  else s.direction.map fun d => match d with
    | .playback => openxtProcessPlayback s answers
    | .capture => openxtProcessCapture s answers sent

/-- How many samples the round asks of ALSA, if it does. -/
def VmAudio.asked (s : VmAudio) (r : Received) (answers : List PcmAnswer) (sent : ℤ) : Option ℤ :=
  (s.process r answers sent).bind Processed.call

/-- The samples of a call fit the buffer, and are among the bytes that were received. -/
structure Fits (d : Direction) (received : ℕ) (num : ℤ) : Prop where
  positive : 0 < 4 * num
  buffer : 4 * num ≤ maxPcmBufferSize
  inPacket : d = .playback → samplesAt + 4 * num ≤ received

end Code

section Counts
variable {s : VmAudio} {d : Direction} {r : Received} {answers : List PcmAnswer} {num size sent : ℤ}

/-- What was received is in memory, whether the length is right or not. -/
lemma openxtArgoRecv_eq (hconnected : s.connected = true) (hsome : r.bytes ≠ []) :
    ∃ ret connected, openxtArgoRecv s r = (ret,⟨s.opened,connected,overlay s.rcvPacket r.bytes⟩) := by
  rw [openxtArgoRecv, if_neg (by simp [hconnected]), if_neg hsome]
  by_cases h : VmAudio.length ⟨s.opened,s.connected,overlay s.rcvPacket r.bytes⟩ ≠ (r.bytes.length : ℤ)
  · exact ⟨_,_,if_pos h⟩
  · exact ⟨_,_,if_neg h⟩

/-- In a packet that is long enough for a count, the count is that of the packet. -/
theorem numSamples_openxtArgoRecv (hconnected : s.connected = true) (h : 12 ≤ r.bytes.length) :
    (openxtArgoRecv s r).2.numSamples = int32At 8 r.bytes := by
  have hsome : r.bytes ≠ [] := by
    rintro hnil
    rw [hnil] at h
    exact absurd h (by decide)
  obtain ⟨ret,connected,hrecv⟩ := openxtArgoRecv_eq hconnected hsome
  rw [hrecv, VmAudio.numSamples, int32At_overlay_of_le h]

/-- The call is made for the count of the packet if this is positive and its product, wrapped, is small enough. -/
lemma openxtAlsaIo_call (opened : Bool) (num size : ℤ) (answers : List PcmAnswer) :
    (openxtAlsaIo opened num size answers).1 =
      if opened = true ∧ 0 < num ∧ Int.bmod (sampleSize * num) (2 ^ 32) ≤ size then some num else none := by
  rw [openxtAlsaIo]
  generalize Int.bmod (sampleSize * num) (2 ^ 32) = product
  cases opened with
  | false => rfl
  | true =>
    rw [if_neg (by decide)]
    by_cases hguard : product ≤ size
    · rw [if_neg (not_not_intro hguard)]
      by_cases hnum : num ≤ 0
      · rw [if_pos hnum, if_neg fun h => absurd h.2.1 (Int.not_lt.mpr hnum)]
      · rw [if_neg hnum, if_pos ⟨rfl,Int.not_le.mp hnum,hguard⟩]
    · rw [if_pos hguard, if_neg fun h => hguard h.2.2]

/-- Both directions go by the count in memory. -/
lemma asked_eq (s : VmAudio) (r : Received) (answers : List PcmAnswer) (sent : ℤ) :
    s.asked r answers sent =
      if 0 ≤ (openxtArgoRecv s r).1 then
        (openxtArgoRecv s r).2.direction.bind fun d =>
          (openxtAlsaIo ((openxtArgoRecv s r).2.opened d) (openxtArgoRecv s r).2.numSamples maxPcmBufferSize answers).1
      else none := by
  rw [VmAudio.asked, VmAudio.process]
  dsimp only
  by_cases hret : (openxtArgoRecv s r).1 < 0
  · rw [if_pos hret, if_neg (Int.not_le.mpr hret)]
    rfl
  rw [if_neg hret, if_pos (Int.not_lt.mp hret), Option.bind_map]
  congr 1
  funext d
  cases d with
  | playback => rfl
  | capture =>
    dsimp only [Function.comp]
    rw [openxtProcessCapture, openxtAlsaReadi]
    dsimp only
    split
    · rfl
    · split_ifs <;> rfl

/-- Counts whose product does not wrap, or wraps to something that is still big. -/
def Unambiguous (num : ℤ) : Prop := num < 2 ^ 29 ∨ 2 ^ 30 + 1024 < num ∧ num < 2 ^ 30 + 2 ^ 29

/-- A count passes the guard if it is small or misread. -/
lemma guard_iff (hnum : 0 < num) (hlt : num < 2 ^ 31) :
    Int.bmod (sampleSize * num) (2 ^ 32) ≤ maxPcmBufferSize ↔ num ≤ 1024 ∨ ¬ Unambiguous num := by
  have hbmod : Int.bmod (sampleSize * num) (2 ^ 32) =
      if 4 * num % 2 ^ 32 < 2 ^ 31 then 4 * num % 2 ^ 32 else 4 * num % 2 ^ 32 - 2 ^ 32 := rfl
  rw [hbmod]
  unfold maxPcmBufferSize Unambiguous
  split_ifs with hsmall
  · omega
  · omega

/-- When a call is made. -/
lemma asked_eq_some_iff (hd : (openxtArgoRecv s r).2.direction = some d) : s.asked r answers sent = some num ↔
    0 ≤ (openxtArgoRecv s r).1 ∧ (openxtArgoRecv s r).2.opened d = true ∧ 0 < num ∧
      (num ≤ 1024 ∨ ¬ Unambiguous num) ∧ (openxtArgoRecv s r).2.numSamples = num := by
  have hlt : (openxtArgoRecv s r).2.numSamples < 2 ^ 31 := int32At_lt 8 _
  rw [asked_eq, hd, Option.bind_some, openxtAlsaIo_call]
  constructor
  · intro h
    split_ifs at h with hret hcall
    obtain rfl := Option.some.inj h
    exact ⟨hret,hcall.1,hcall.2.1,(guard_iff hcall.2.1 hlt).mp hcall.2.2,rfl⟩
  · rintro ⟨hret,hopened,hnum,hguard,rfl⟩
    rw [if_pos hret, if_pos ⟨hopened,hnum,(guard_iff hnum hlt).mpr hguard⟩]

/-- The samples that a packet of either kind has asked for fit exactly if, where it is processed with the PCM open, the
count is not misread, and a small one for playback not greater than the packet. -/
theorem sample_counts_fit_iff (s : VmAudio) (r : Received) (answers : List PcmAnswer) (sent : ℤ) :
    (∀ d num, (openxtArgoRecv s r).2.direction = some d → s.asked r answers sent = some num →
      Fits d r.bytes.length num) ↔
      (0 ≤ (openxtArgoRecv s r).1 → ∀ d, (openxtArgoRecv s r).2.direction = some d →
        (openxtArgoRecv s r).2.opened d = true → Unambiguous (openxtArgoRecv s r).2.numSamples ∧
        (d = .playback → 0 < (openxtArgoRecv s r).2.numSamples → (openxtArgoRecv s r).2.numSamples ≤ 1024 →
          samplesAt + 4 * (openxtArgoRecv s r).2.numSamples ≤ r.bytes.length)) := by
  constructor
  · intro h hret d hkind hopened
    constructor
    · by_contra hmisread
      have hnum : 2 ^ 29 ≤ (openxtArgoRecv s r).2.numSamples := Int.not_lt.mp fun hlt => hmisread (.inl hlt)
      have hfits := h d _ hkind ((asked_eq_some_iff hkind).mpr ⟨hret,hopened,by omega,.inr hmisread,rfl⟩)
      have hbuffer := hfits.buffer
      unfold maxPcmBufferSize at hbuffer
      omega
    · intro hd hnum hsmall
      exact (h d _ hkind ((asked_eq_some_iff hkind).mpr ⟨hret,hopened,hnum,.inl hsmall,rfl⟩)).inPacket hd
  · intro h d num hkind hcall
    obtain ⟨hret,hopened,hnum,hguard,rfl⟩ := (asked_eq_some_iff hkind).mp hcall
    obtain ⟨hright,hpacket⟩ := h hret d hkind hopened
    have hsmall := hguard.resolve_right (not_not_intro hright)
    refine ⟨by omega,?_,fun hd => hpacket hd hnum hsmall⟩
    unfold maxPcmBufferSize
    omega

/-- A packet of this kind and length with a count and so many zeros. -/
def samplePacket (opcode length : UInt8) (count : List UInt8) (zeros : ℕ) : List UInt8 :=
  [opcode, 0, 0, 0, length, 0, 0, 0] ++ count ++ List.replicate zeros 0

/-- A count of 2 ^ 30 in a playback packet of sixteen bytes. The call is made. -/
theorem sample_counts_unfit :
    ∃ num, (openxtArgoRecv ⟨fun _ => true,true,List.replicate 8200 0⟩
        ⟨samplePacket 50 16 [0, 0, 0, 64] 4,0,by decide⟩).2.direction = some .playback ∧
      VmAudio.asked ⟨fun _ => true,true,List.replicate 8200 0⟩
        ⟨samplePacket 50 16 [0, 0, 0, 64] 4,0,by decide⟩ [⟨1,0⟩] 0 = some num ∧
      ¬ Fits .playback (samplePacket 50 16 [0, 0, 0, 64] 4).length num := by
  refine ⟨2 ^ 30,by decide +kernel,by decide +kernel,fun h => absurd h.buffer (by decide)⟩

end Counts

end Xctools.AudioHelper
