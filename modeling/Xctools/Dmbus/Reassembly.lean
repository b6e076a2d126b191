import Mathlib.Algebra.Group.Int.Defs
import Xctools.Machine.Loop
import Xctools.Machine.Run
import Xctools.Machine.Stream

/-! The service's side of a dmbus connection, `dmbus.c`. What comes in goes into a buffer of fixed size; as
long as there is a complete message at its start, the message is handed to its handler and taken out. The
handlers are a parameter; they see the message and leave the buffer alone. -/
namespace Xctools.Dmbus
open Machine

section Messages

/-- `DMBUS_MAX_MSG_LEN`, the size of the buffer. -/
def maxMsgLen : ℕ := 512

/-- `sizeof (struct dmbus_msg_hdr)`: length, type and return value. -/
def hdrLen : ℕ := 12

/-- A word of a message, least significant byte first. -/
def word (bytes : List UInt8) (i : ℕ) : ℕ :=
  ((bytes.drop (4 * i)).take 4).foldr (fun b n => b.toNat + 256 * n) 0

/-- `hdr.msg_len`. -/
def msgLen (bytes : List UInt8) : ℕ := word bytes 0

/-- `hdr.msg_type`. -/
def msgType (bytes : List UInt8) : ℕ := word bytes 1

/-- The RPCs of a service. -/
inductive InRpc
  | displayResize
  | displayGetInfo
  | switcherAbs
  | switcherPvmDomid
  | switcherDomid
  | switcherLeds
  | switcherShutdown
  deriving DecidableEq, Repr

/-- The cases of the switch over the type of a message. -/
def inRpc : ℕ → Option InRpc
  | 0 => some .displayResize
  | 1 => some .displayGetInfo
  | 16 => some .switcherAbs
  | 17 => some .switcherPvmDomid
  | 18 => some .switcherDomid
  | 19 => some .switcherLeds
  | 20 => some .switcherShutdown
  | _ => none

/-- `MSGID_display_resize` and so on. -/
def InRpc.msgId : InRpc → ℕ
  | .displayResize => 0
  | .displayGetInfo => 1
  | .switcherAbs => 16
  | .switcherPvmDomid => 17
  | .switcherDomid => 18
  | .switcherLeds => 19
  | .switcherShutdown => 20

lemma inRpc_eq_some_iff {n : ℕ} {rpc : InRpc} : inRpc n = some rpc ↔ n = rpc.msgId := by
  constructor
  · intro h
    unfold inRpc at h
    split at h <;> cases h <;> rfl
  · rintro rfl
    cases rpc <;> rfl

/-- The type of the reply, for an RPC that has one: `display_info` or `empty_reply`. -/
def InRpc.reply : InRpc → Option ℕ
  | .displayResize => some 8
  | .displayGetInfo => some 2
  | _ => none

/-- The handlers of a service, `struct dmbus_rpc_ops`. One that is missing is NULL. -/
abbrev RpcOps := InRpc → Option (List UInt8 → ℤ)

/-- What is done with one message: the message with its length, the handler that is called with it, and the
type and the return value of the reply. -/
structure Dispatch where
  msg : List UInt8
  called : Option InRpc
  reply : Option (ℕ × ℕ)
  deriving DecidableEq, Repr

/-- `ret` as it is put into a reply, one word. Without a handler it is that of -1. -/
def RpcOps.ret (ops : RpcOps) (rpc : InRpc) (msg : List UInt8) : ℕ :=
  ((ops rpc).elim (-1) (fun handler => handler msg) % 2 ^ 32).toNat

/-- The body of the loop, generated by `rpcgen.m4`, on what is in the buffer. The switch is over the header, also where
the message is said to be shorter than that. -/
def dispatch (ops : RpcOps) (buff : List UInt8) : Dispatch where
  msg := buff.take (msgLen buff)
  called := (inRpc (msgType buff)).filter fun rpc => (ops rpc).isSome
  reply := (inRpc (msgType buff)).bind fun rpc => rpc.reply.map fun id =>
    (id, ops.ret rpc (buff.take (msgLen buff)))

/-- A message is handed to the handler of its type, if there is one, and to no other; if its type has a reply, that says
what the handler came back with. -/
structure Handled (ops : RpcOps) (d : Dispatch) : Prop where
  called : ∀ rpc, d.called = some rpc ↔ msgType d.msg = rpc.msgId ∧ ∃ handler, ops rpc = some handler
  reply : ∀ id ret, d.reply = some (id,ret) ↔
    ∃ rpc, msgType d.msg = rpc.msgId ∧ rpc.reply = some id ∧ ret = ops.ret rpc d.msg

end Messages

section Client

/-- `struct dmbus_client`: the buffer, all of it, and how much of it is in use. -/
structure Client where
  buff : List UInt8
  len : ℕ
  size : buff.length = maxMsgLen
  fits : len ≤ maxMsgLen

/-- What is in use of the buffer. -/
def Client.pending (c : Client) : List UInt8 := c.buff.take c.len

/-- What is offered to `argo_recv`. -/
def Client.room (c : Client) : ℕ := maxMsgLen - c.len

/-- `argo_recv` puts a chunk behind what is in use. -/
def Client.received (c : Client) (chunk : List UInt8) (h : chunk.length ≤ c.room) : Client where
  buff := c.buff.take c.len ++ chunk ++ c.buff.drop (c.len + chunk.length)
  len := c.len + chunk.length
  size := by
    have hsize := c.size
    have hfits := c.fits
    unfold Client.room at h
    simp only [List.length_append, List.length_take, List.length_drop]
    omega
  fits := by
    have hfits := c.fits
    unfold Client.room at h
    omega

/-- The test of the loop: a header, and as many bytes as it says. -/
def Client.complete (c : Client) : Bool := hdrLen ≤ c.len && msgLen c.buff ≤ c.len

/-- `pop_message`: the bytes behind the message are moved to the start. -/
def Client.popMessage (c : Client) : Client where
  buff := (c.buff.drop (msgLen c.buff)).take (c.len - msgLen c.buff) ++ c.buff.drop (c.len - msgLen c.buff)
  len := c.len - msgLen c.buff
  size := by
    have hsize := c.size
    have hfits := c.fits
    simp only [List.length_append, List.length_take, List.length_drop]
    omega
  fits := (Nat.sub_le _ _).trans c.fits

/-- A client and what was done with its messages. -/
structure Session where
  client : Client
  dispatched : List Dispatch

/-- One round of the loop. -/
def shipMessage (ops : RpcOps) (s : Session) : Outcome Session :=
  .ok ⟨s.client.popMessage, s.dispatched ++ [dispatch ops s.client.buff]⟩

/-- What `argo_recv` comes back with: the other side is gone, nothing is there, or some bytes. -/
inductive Recv
  | closed
  | again
  | data (chunk : List UInt8)

/-- `dmbus_handle_events`. A message that says it has no length is shipped forever. After a disconnect there
is no client. -/
def handleEvents (ops : RpcOps) (s : Option Session) (r : Recv) : Outcome (Option Session) :=
  match s, r with
  | none, _ => .error .wild
  | some _, .closed => .ok none
  | some s, .again => .ok (some s)
  | some s, .data chunk =>
    if h : chunk.length ≤ s.client.room then do
      let client := s.client.received chunk h
      return some (← loop (shipMessage ops) (fun s => !s.client.complete) client.len ⟨client, s.dispatched⟩)
    else .error .bounds

/-- A client that has just connected: the memory is zero. -/
def Session.start : Session where
  client := ⟨List.replicate maxMsgLen 0, 0, List.length_replicate, Nat.zero_le _⟩
  dispatched := []

end Client

section Drain
variable {ops : RpcOps} {c : Client} {s : Session} {ms : List (List UInt8)} {received : List UInt8} {k : ℕ}

/-- A message as a device model sends it. -/
structure Wellformed (m : List UInt8) : Prop where
  len : msgLen m = m.length
  hdr : hdrLen ≤ m.length
  max : m.length ≤ maxMsgLen

@[simp] lemma length_pending (c : Client) : c.pending.length = c.len := by
  have hsize := c.size
  have hfits := c.fits
  rw [Client.pending, List.length_take]
  omega

@[simp] lemma pending_received {chunk : List UInt8} (h : chunk.length ≤ c.room) :
    (c.received chunk h).pending = c.pending ++ chunk := by
  have hlen : c.len + chunk.length = (c.buff.take c.len ++ chunk).length := by
    rw [List.length_append, ← Client.pending, length_pending]
  change (c.buff.take c.len ++ chunk ++ _).take (c.len + chunk.length) = _
  rw [hlen, List.take_left]
  rfl

/-- A word of a message is in its first bytes. -/
lemma word_of_prefix {bytes bytes' : List UInt8} (h : bytes <+: bytes') {i : ℕ} (hlen : 4 * i + 4 ≤ bytes.length) :
    word bytes' i = word bytes i := by
  obtain ⟨rest,rfl⟩ := h
  unfold word
  rw [List.drop_append_of_le_length (by omega), List.take_append_of_le_length (by rw [List.length_drop]; omega)]

/-- The length of a message is in its first bytes. -/
lemma msgLen_of_prefix {bytes bytes' : List UInt8} (h : bytes <+: bytes') (hlen : 4 ≤ bytes.length) :
    msgLen bytes' = msgLen bytes := word_of_prefix h hlen

/-- What is dispatched is the message, whatever is behind it in the buffer. -/
lemma dispatch_of_leading {m buff : List UInt8} (hm : Wellformed m) (h : m <+: buff) : dispatch ops buff = dispatch ops m := by
  have hhdr := hm.hdr
  unfold hdrLen at hhdr
  have hlen : msgLen buff = msgLen m := msgLen_of_prefix h (by omega)
  have htype : msgType buff = msgType m := word_of_prefix h (by omega)
  have htake : buff.take (msgLen m) = m.take (msgLen m) := by
    rw [hm.len, List.take_length]
    exact (List.prefix_iff_eq_take.mp h).symm
  unfold dispatch
  rw [hlen, htype, htake]

lemma dispatch_msg {m : List UInt8} (hm : Wellformed m) : (dispatch ops m).msg = m := by
  rw [dispatch, hm.len, List.take_length]

lemma handled_dispatch {m : List UInt8} (hm : Wellformed m) : Handled ops (dispatch ops m) := by
  have hmsg : (dispatch ops m).msg = m := dispatch_msg hm
  refine ⟨fun rpc => ?_,fun id ret => ?_⟩
  · rw [hmsg, dispatch, Option.filter_eq_some_iff, inRpc_eq_some_iff, Option.isSome_iff_exists]
  · rw [hmsg, dispatch, Option.bind_eq_some_iff]
    simp only [inRpc_eq_some_iff, Option.map_eq_some_iff, Prod.mk.injEq, hm.len, List.take_length]
    constructor
    · rintro ⟨rpc,htype,_,hid,rfl,rfl⟩
      exact ⟨rpc,htype,hid,rfl⟩
    · rintro ⟨rpc,htype,hid,rfl⟩
      exact ⟨rpc,htype,id,hid,rfl,rfl⟩

/-- What a complete header says does not depend on what is behind the bytes in use. -/
lemma msgLen_pending (h : hdrLen ≤ c.len) : msgLen c.buff = msgLen c.pending := by
  apply msgLen_of_prefix (List.take_prefix _ _)
  rw [← Client.pending, length_pending]
  unfold hdrLen at h
  omega

lemma pending_popMessage (h : msgLen c.buff ≤ c.len) :
    c.popMessage.pending = c.pending.drop (msgLen c.buff) := by
  have hsize := c.size
  have hfits := c.fits
  have hlen : ((c.buff.drop (msgLen c.buff)).take (c.len - msgLen c.buff)).length = c.len - msgLen c.buff := by
    rw [List.length_take, List.length_drop]
    omega
  change ((c.buff.drop (msgLen c.buff)).take (c.len - msgLen c.buff) ++ _).take (c.len - msgLen c.buff) = _
  rw [List.take_left' hlen, Client.pending, List.drop_take]

/-- What holds of a session between two rounds: the messages that are complete have been dispatched so far
as `k` says, and the buffer holds what was received behind them. -/
structure Draining (ops : RpcOps) (ms : List (List UInt8)) (received : List UInt8) (s : Session) (k : ℕ) :
    Prop where
  stream : Reassembled ms received k s.client.pending
  dispatched : s.dispatched = (ms.take k).map (dispatch ops)

/-- The first message that is to come begins with what is pending. -/
lemma Draining.header (h : Draining ops ms received s k) (hms : ∀ m ∈ ms, Wellformed m)
    (hlen : hdrLen ≤ s.client.len) : ∃ m, ms[k]? = some m ∧ Wellformed m ∧ msgLen s.client.buff = m.length := by
  have hpending := length_pending s.client
  have hne : s.client.pending ≠ [] := by
    intro hnil
    rw [hnil] at hpending
    unfold hdrLen at hlen
    simp at hpending
    omega
  obtain ⟨m,hm,hahead⟩ := h.stream.exists_next hne
  have hwell := hms m (List.mem_of_getElem? hm)
  refine ⟨m,hm,hwell,?_⟩
  have hhdr := hwell.hdr
  unfold hdrLen at hlen hhdr
  -- both begin with the same four bytes
  have hfirst := msgLen_of_prefix hahead (by omega)
  have hsecond := msgLen_of_prefix (List.prefix_append m (ms.drop (k + 1)).flatten) (by omega)
  rw [msgLen_pending hlen, ← hfirst, hsecond, hwell.len]

lemma Draining.round (h : Draining ops ms received s k) (hms : ∀ m ∈ ms, Wellformed m)
    (hcomplete : s.client.complete = true) : ∃ s', shipMessage ops s = .ok s' ∧
      Draining ops ms received s' (k + 1) ∧ s'.client.len < s.client.len := by
  simp only [Client.complete, Bool.and_eq_true, decide_eq_true_eq] at hcomplete
  obtain ⟨m,hm,hwell,hmsg⟩ := h.header hms hcomplete.1
  rw [hmsg] at hcomplete
  have hhdr := hwell.hdr
  unfold hdrLen at hhdr
  obtain ⟨htake,hstream⟩ := h.stream.next hm (by rw [length_pending]; exact hcomplete.2)
  refine ⟨_,rfl,⟨?_,?_⟩,?_⟩
  · rw [pending_popMessage (by rw [hmsg]; exact hcomplete.2), hmsg]
    exact hstream
  · have hfirst : m <+: s.client.buff := by
      rw [Client.pending, List.take_take, Nat.min_eq_left hcomplete.2] at htake
      rw [← htake]
      exact List.take_prefix _ _
    rw [dispatch_of_leading hwell hfirst, h.dispatched, List.take_add_one, hm, List.map_append]
    rfl
  · change s.client.len - msgLen s.client.buff < s.client.len
    omega

/-- Nothing complete is left. -/
def Incomplete (ms : List (List UInt8)) (k : ℕ) (pending : List UInt8) : Prop :=
  match ms[k]? with
  | some m => pending.length < m.length
  | none => pending = []

lemma Draining.incomplete (h : Draining ops ms received s k) (hms : ∀ m ∈ ms, Wellformed m)
    (hcomplete : s.client.complete = false) : Incomplete ms k s.client.pending := by
  unfold Incomplete
  split
  · rename_i m hm
    have hhdr := (hms m (List.mem_of_getElem? hm)).hdr
    by_contra hle
    rw [length_pending, Nat.not_lt] at hle
    obtain ⟨m',hm',-,hmsg⟩ := h.header hms (hhdr.trans hle)
    obtain rfl := Option.some.inj (hm.symm.trans hm')
    simp only [Client.complete, hmsg, decide_eq_true (hhdr.trans hle), decide_eq_true hle] at hcomplete
    cases hcomplete
  · rename_i hm
    by_contra hne
    obtain ⟨m,hm',-⟩ := h.stream.exists_next hne
    rw [hm] at hm'
    cases hm'

end Drain

section Run
variable {ops : RpcOps} {s : Session} {ms : List (List UInt8)} {received : List UInt8} {events : List Recv}

/-- The bytes that come with an event. -/
def Recv.bytes : Recv → List UInt8
  | .data chunk => chunk
  | _ => []

/-- What was received in a run. -/
def streamOf (events : List Recv) : List UInt8 := events.flatMap Recv.bytes

/-- The other side stays, and `argo_recv` keeps to the buffer it is offered. -/
def Fitting (s : Option Session) (r : Recv) : Prop :=
  r ≠ .closed ∧ ∀ session ∈ s, r.bytes.length ≤ session.client.room

/-- What holds of a session between two calls. -/
structure Reassembling (ops : RpcOps) (ms : List (List UInt8)) (received : List UInt8) (s : Session) (k : ℕ) :
    Prop extends Draining ops ms received s k where
  incomplete : Incomplete ms k s.client.pending

lemma reassembling_start (ops : RpcOps) (hms : ∀ m ∈ ms, Wellformed m) :
    Reassembling ops ms [] Session.start 0 := by
  have h : Draining ops ms [] Session.start 0 := ⟨reassembled_nil ms,rfl⟩
  exact ⟨h,h.incomplete hms rfl⟩

/-- There is always room, since the first message to come fits into the buffer. -/
lemma Reassembling.room_pos {k : ℕ} (h : Reassembling ops ms received s k) (hms : ∀ m ∈ ms, Wellformed m) :
    0 < s.client.room := by
  have hincomplete := h.incomplete
  have hlen := length_pending s.client
  unfold Incomplete at hincomplete
  unfold Client.room
  split at hincomplete
  · rename_i m hm
    have hmax := (hms m (List.mem_of_getElem? hm)).max
    omega
  · rw [hincomplete] at hlen
    simp only [List.length_nil] at hlen
    unfold maxMsgLen
    omega

lemma Reassembling.handleEvents {k : ℕ} {r : Recv} (h : Reassembling ops ms received s k)
    (hms : ∀ m ∈ ms, Wellformed m) (hr : Fitting (some s) r) (hstream : received ++ r.bytes <+: ms.flatten) :
    ∃ s' k', handleEvents ops (some s) r = .ok (some s') ∧ Reassembling ops ms (received ++ r.bytes) s' k' := by
  cases r with
  | closed => exact absurd rfl hr.1
  | again =>
    have hnone : received ++ Recv.again.bytes = received := List.append_nil received
    exact ⟨s,k,rfl,hnone.symm ▸ h⟩
  | data chunk =>
    have hroom : chunk.length ≤ s.client.room := hr.2 s rfl
    have hstart : Draining ops ms (received ++ chunk) ⟨s.client.received chunk hroom, s.dispatched⟩ k := by
      refine ⟨?_,h.dispatched⟩
      rw [pending_received]
      exact h.stream.receive hstream
    -- each round dispatches one message and makes the buffer shorter
    obtain ⟨t,ht,⟨k',hdrain⟩,hdone⟩ : ∃ t, loop (shipMessage ops) (fun s => !s.client.complete)
        (s.client.received chunk hroom).len ⟨s.client.received chunk hroom, s.dispatched⟩ = .ok t ∧
        (∃ k, Draining ops ms (received ++ chunk) t k) ∧ (!t.client.complete) = true := loop_total
      (P := fun t => ∃ k, Draining ops ms (received ++ chunk) t k) (μ := fun t => t.client.len)
      (fun a ⟨k,ha⟩ hd => by
        obtain ⟨b,hb,hdrain,hlt⟩ := ha.round hms (by simpa using hd)
        exact ⟨b,hb,⟨k + 1,hdrain⟩,hlt⟩) ⟨k,hstart⟩ (Nat.le_refl _)
    refine ⟨t,k',?_,hdrain,hdrain.incomplete hms (by simpa using hdone)⟩
    unfold Dmbus.handleEvents
    simp only [dif_pos hroom]
    rw [ht, ok_bind]
    rfl

/-- What holds at one point of a run holds at every later one. -/
lemma Reassembling.run {k : ℕ} (h : Reassembling ops ms received s k) (hms : ∀ m ∈ ms, Wellformed m)
    (hmeets : Meets (Dmbus.handleEvents ops) Fitting (some s) events)
    (hstream : received ++ streamOf events <+: ms.flatten) :
    ∃ s' k', perform (Dmbus.handleEvents ops) (some s) events = .ok (some s') ∧
      Reassembling ops ms (received ++ streamOf events) s' k' := by
  induction events generalizing s received k with
  | nil =>
    refine ⟨s,k,rfl,?_⟩
    rw [streamOf, List.flatMap_nil, List.append_nil]
    exact h
  | cons r events ih =>
    obtain ⟨hr,hrest⟩ := hmeets
    rw [streamOf, List.flatMap_cons, ← List.append_assoc] at hstream ⊢
    obtain ⟨t,l,ht,hmid⟩ := h.handleEvents hms hr ((List.prefix_append _ _).trans hstream)
    obtain ⟨s',k',hs',hend⟩ := ih hmid (hrest _ ht) hstream
    exact ⟨s',k',(perform_cons_eq_ok _).mpr ⟨_,ht,hs'⟩,hend⟩

/-- What was dispatched are messages, each with its bytes, and each was handled. -/
lemma Draining.handled {k : ℕ} (h : Draining ops ms received s k) (hms : ∀ m ∈ ms, Wellformed m) :
    s.dispatched.map Dispatch.msg = ms.take k ∧ ∀ d ∈ s.dispatched, Handled ops d := by
  have hwell : ∀ m ∈ ms.take k, Wellformed m := fun m hm => hms m (List.mem_of_mem_take hm)
  rw [h.dispatched]
  constructor
  · rw [List.map_map]
    exact (List.map_congr_left fun m hm => dispatch_msg (hwell m hm)).trans (List.map_id _)
  · rw [List.forall_mem_map]
    exact fun m hm => handled_dispatch (hwell m hm)

/-- However a stream of messages is cut into chunks, what has been dispatched after any number of calls are
the messages that are complete, in order, once each and with their bytes, and each to the handler of its type; the
buffer holds what was received of the next one, and there is room for the next call to offer. -/
theorem messages_reassembled (hms : ∀ m ∈ ms, Wellformed m)
    (hmeets : Meets (Dmbus.handleEvents ops) Fitting (some Session.start) events)
    (hstream : streamOf events <+: ms.flatten) :
    ∃ s k, perform (Dmbus.handleEvents ops) (some Session.start) events = .ok (some s) ∧
      s.dispatched.map Dispatch.msg = ms.take k ∧ (∀ d ∈ s.dispatched, Handled ops d) ∧
      streamOf events = (ms.take k).flatten ++ s.client.pending ∧
      Incomplete ms k s.client.pending ∧ 0 < s.client.room := by
  obtain ⟨s,k,hs,h⟩ := (reassembling_start ops hms).run hms hmeets hstream
  obtain ⟨hmsgs,hhandled⟩ := h.handled hms
  exact ⟨s,k,hs,hmsgs,hhandled,h.stream.received,h.incomplete,h.room_pos hms⟩

end Run

/-- A `switcher_abs` message without its argument. -/
def absMsg : List UInt8 := [12, 0, 0, 0, 16, 0, 0, 0, 0, 0, 0, 0]

lemma wellformed_absMsg : Wellformed absMsg := ⟨by decide,by decide,by decide⟩

/-- Two messages, and a call that ends in the middle of the second one. -/
theorem messages_reassembled_abs : ∃ s k,
    perform (handleEvents fun _ => some fun _ => 0) (some Session.start)
      [.data (absMsg.take 5), .data (absMsg.drop 5 ++ absMsg.take 3)] = .ok (some s) ∧
    s.dispatched.map Dispatch.msg = [absMsg, absMsg].take k ∧ (∀ d ∈ s.dispatched, Handled (fun _ => some fun _ => 0) d) ∧
    absMsg ++ absMsg.take 3 = ([absMsg, absMsg].take k).flatten ++ s.client.pending ∧
    Incomplete [absMsg, absMsg] k s.client.pending ∧ 0 < s.client.room := by
  have hroom : ((handleEvents (fun _ => some fun _ => 0) (some Session.start) (.data (absMsg.take 5))).toOption.map
      fun s => s.map fun session => session.client.room) = some (some 507) := by decide +kernel
  apply messages_reassembled
  · simp [wellformed_absMsg]
  · refine ⟨⟨by simp,by decide⟩,fun s hs => ⟨⟨by simp,?_⟩,fun _ _ => trivial⟩⟩
    rw [hs] at hroom
    intro session hsession
    obtain rfl : s = some session := hsession
    obtain hlen : session.client.room = 507 := Option.some.inj (Option.some.inj hroom)
    rw [hlen]
    decide
  · decide

end Xctools.Dmbus
