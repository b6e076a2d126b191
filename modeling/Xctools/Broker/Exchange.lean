import Xctools.Machine.Run
import Xctools.Machine.Stream
import Xctools.Broker.Filter

/-! Raw mode: `convert_raw_dbus`, `exchange` and `service_rdconn_cb`. Bytes that come in on one
socket of a connection are looked at chunk by chunk, as `recv` cuts them, and sent on to the other
socket. -/
namespace Xctools.Broker
open Machine

def dbusMsgLen : ℕ := 8192
def dbusCommMin : ℕ := 28
def dbusMaxArgLen : ℕ := 16

/-- An argument of a message, as far as `convert_raw_dbus` tells them apart. -/
inductive RawArg
  | int32
  | string (value : String)
  | other

/-- A demarshalled `DBusMessage`. -/
structure RawMessage where
  type : ℤ
  destination : Option String
  path : Option String
  interface : Option String
  member : Option String
  args : List RawArg

/-- libdbus: `dbus_message_demarshal_bytes_needed`, `dbus_message_demarshal` where it sets no error, and whether
the strings of a message are still there when its last reference has been dropped, which it does not promise. -/
structure Libdbus where
  bytesNeeded : List UInt8 → ℤ
  demarshal : List UInt8 → Option RawMessage
  keeps : RawMessage → Bool

/-- A pointer into a message behind the `dbus_message_unref` of `convert_raw_dbus`. -/
def Libdbus.behindUnref (lib : Libdbus) (m : RawMessage) (p : CStr) : CStr := if lib.keeps m then p else .wild

/-- A field of the header behind it, or the text that stands in for it. -/
def Libdbus.header (lib : Libdbus) (m : RawMessage) (field : Option String) (missing : String) : CStr :=
  match field with
  | some s => lib.behindUnref m (.live s)
  | none => .live missing

/-- The argument loop of `convert_raw_dbus`, with the slots left. An `int32` is stored through a
pointer that was never set. -/
def convertArgs : ℕ → List RawArg → Outcome (List (Char × CStr))
  | _, [] => .ok []
  | n, .other :: args => convertArgs n args
  | _, .int32 :: _ => .error .wild
  | 0, .string _ :: _ => .error .bounds
  | n + 1, .string s :: args => do return ('s', .live s) :: (← convertArgs n args)

/-- `convert_raw_dbus`: the return value, which is the message's type, and the request. It is filled with pointers
into the message, which is given back at the end. -/
def convertRawDbus (lib : Libdbus) (msg : List UInt8) : Outcome (ℤ × Option DbusMessage) :=
  match lib.demarshal msg with
  | none => .ok (-1, none)
  | some m => do
    let args ← convertArgs dbusMaxArgLen m.args
    return (m.type, some
      { destination := lib.header m m.destination "NULL", path := lib.header m m.path "/",
        interface := lib.header m m.interface "NULL", member := lib.header m m.member "NULL",
        argNumber := args.length, argSig := args.map Prod.fst,
        args := args.map fun arg => lib.behindUnref m arg.2 })

/-- One successful `recv`: its bytes, what the filter's other parties say at that moment, and how
many of the bytes the peer's socket would take. -/
structure Arrival where
  bytes : List UInt8
  nonempty : bytes ≠ []
  fits : bytes.length ≤ dbusMsgLen
  world : World
  room : ℕ

/-- `struct raw_dbus_conn`, less its sockets. -/
structure RawDbusConn where
  isClient : Bool
  clientDomain : UInt16

section Connection
variable (lib : Libdbus) (conn : RawDbusConn)

/-- The look `exchange` takes at a chunk: nothing when it does not ask the filter, else whether the
chunk may pass. -/
def inspect (b : BrokerState) (a : Arrival) : Outcome (Option Bool × BrokerState) :=
  if dbusCommMin < a.bytes.length ∧ lib.bytesNeeded a.bytes = a.bytes.length then do
    let (ret, dmsg) ← convertRawDbus lib a.bytes
    match dmsg with
    | none => return (some false, b)
    | some dmsg =>
      if ret < 1 then return (some false, b)
      else
        let (allowed, b') ← isRequestAllowed a.world b dmsg conn.isClient conn.clientDomain.toNat
        return (some allowed, b')
  else .ok (none, b)

/-- A line of the connection's record: a chunk, the globals it met, and what `exchange` found. -/
structure Received where
  arrival : Arrival
  broker : BrokerState
  asked : Option Bool

/-- The chunk went on to the other socket. -/
def Received.forwarded (r : Received) : Bool := r.asked ≠ some false

/-- What a call of `exchange` leaves behind; `rest` is what `recv` has not yet returned. -/
structure Exchanged where
  ret : ℤ
  rest : List (Option Arrival)
  broker : BrokerState
  log : List Received

/-- `exchange`, from the total so far on. `none` in the supply is a `recv` that returns 0 or -1. -/
def exchange : ℤ → BrokerState → List (Option Arrival) → Outcome Exchanged
  | total, b, [] => .ok ⟨total, [], b, []⟩
  | total, b, none :: rest => .ok ⟨total, rest, b, []⟩
  | total, b, some a :: rest => do
    let (asked, b') ← inspect lib conn b a
    if asked = some false then return ⟨-1, rest, b', [⟨a, b, asked⟩]⟩
    else
      let out ← exchange (total + a.bytes.length) b' rest
      return { out with log := ⟨a, b, asked⟩ :: out.log }

/-- The `while` loop of `service_rdconn_cb`: its total, the globals and the record. -/
def exchangeLoop : ℕ → ℤ → BrokerState → List (Option Arrival) →
    Outcome (ℤ × BrokerState × List Received)
  | 0, _, _, _ => .error .loop
  | n + 1, total, b, supply => do
    let out ← exchange lib conn 0 b supply
    if out.ret = 0 then return (total, out.broker, out.log)
    else
      let (total', b', log) ← exchangeLoop n (total + out.ret) out.broker out.rest
      return (total', b', out.log ++ log)

/-- One direction of a raw connection inside the broker. -/
structure RawState where
  broker : BrokerState
  polled : Bool
  log : List Received

/-- What happens: anything elsewhere in the broker, such as a policy reload or requests of other
connections, or the socket becomes readable and `recv` then returns the supply, call by call. -/
inductive RawEvent
  | elsewhere (broker : BrokerState)
  | readable (supply : List (Option Arrival))

/-- The chunks an event has to offer. -/
def RawEvent.supply : RawEvent → List (Option Arrival)
  | elsewhere _ => []
  | readable supply => supply

/-- `service_rdconn_cb`; a closed handle gets no more callbacks. -/
def rawStep (s : RawState) : RawEvent → Outcome RawState
  | .elsewhere broker => .ok { s with broker }
  | .readable supply =>
    if s.polled then do
      let (total, broker, log) ← exchangeLoop lib conn (supply.length + 1) 0 s.broker supply
      return ⟨broker, 0 < total, s.log ++ log⟩
    else .ok s

/-- The chunk is one whole message, and longer than the 28 bytes `exchange` lets go unseen. -/
def Arrival.Alone (a : Arrival) : Prop :=
  dbusCommMin < a.bytes.length ∧ lib.bytesNeeded a.bytes = a.bytes.length

/-- The record is genuine: the filter, in the globals it met, said what is written down. -/
def Received.Judged (r : Received) : Prop :=
  ∃ b', inspect lib conn r.broker r.arrival = .ok (r.asked, b')

variable {lib conn}

/-- The three ways a chunk is looked at: not at all, as something that is no request, and as a
request. -/
lemma inspect_cases {b b' : BrokerState} {a : Arrival} {asked : Option Bool}
    (h : inspect lib conn b a = .ok (asked, b')) :
    (¬ a.Alone lib ∧ asked = none) ∨ (a.Alone lib ∧ asked = some false) ∨
      (a.Alone lib ∧ ∃ ret dmsg allowed, convertRawDbus lib a.bytes = .ok (ret, some dmsg) ∧ 1 ≤ ret ∧
        isRequestAllowed a.world b dmsg conn.isClient conn.clientDomain.toNat = .ok (allowed, b') ∧
        asked = some allowed) := by
  by_cases ha : a.Alone lib
  · rw [inspect, if_pos (by exact ha)] at h
    obtain ⟨⟨ret,dmsg⟩,hc,h⟩ := bind_eq_ok.mp h
    cases dmsg with
    | none =>
      cases h
      exact .inr (.inl ⟨ha,rfl⟩)
    | some dmsg =>
      by_cases hret : ret < 1
      · simp only [if_pos hret] at h
        cases h
        exact .inr (.inl ⟨ha,rfl⟩)
      · simp only [if_neg hret] at h
        obtain ⟨⟨allowed,b₁⟩,hq,h⟩ := bind_eq_ok.mp h
        cases h
        exact .inr (.inr ⟨ha,ret,dmsg,allowed,hc,Int.not_lt.mp hret,hq,rfl⟩)
  · rw [inspect, if_neg (by exact ha)] at h
    cases h
    exact .inl ⟨ha,rfl⟩

/-- What a call of `exchange` does: it records what it found of chunks from the supply, leaves an
end of the supply unread, and has read something unless it returns its starting total. -/
lemma exchange_spec {total : ℤ} {b : BrokerState} {supply : List (Option Arrival)} {out : Exchanged}
    (h : exchange lib conn total b supply = .ok out) :
    (∀ r ∈ out.log, r.Judged lib conn ∧ some r.arrival ∈ supply) ∧ out.rest <:+ supply ∧
      (out.ret ≠ total → out.rest.length < supply.length) := by
  induction supply generalizing total b out with
  | nil =>
    obtain rfl := Except.ok.inj h
    simp
  | cons x rest ih =>
    cases x with
    | none =>
      obtain rfl := Except.ok.inj h
      simp
    | some a =>
      obtain ⟨⟨asked,b'⟩,hi,h⟩ := bind_eq_ok.mp h
      dsimp only at h
      by_cases hd : asked = some false
      · rw [if_pos hd] at h
        obtain rfl := Except.ok.inj h
        simpa using ⟨b',hi⟩
      · rw [if_neg hd] at h
        obtain ⟨out',ho,h⟩ := bind_eq_ok.mp h
        obtain rfl := Except.ok.inj h
        obtain ⟨hlog,hsub,-⟩ := ih ho
        refine ⟨?_,hsub.trans (List.suffix_cons _ _),fun _ => Nat.lt_succ_of_le hsub.length_le⟩
        intro r hr
        rcases List.mem_cons.mp hr with rfl | hr
        · exact ⟨⟨b',hi⟩,by simp⟩
        · exact ⟨(hlog r hr).1,List.mem_cons_of_mem _ (hlog r hr).2⟩

lemma exchangeLoop_log {n : ℕ} {total total' : ℤ} {b b' : BrokerState}
    {supply : List (Option Arrival)} {log : List Received}
    (h : exchangeLoop lib conn n total b supply = .ok (total', b', log)) :
    ∀ r ∈ log, r.Judged lib conn ∧ some r.arrival ∈ supply := by
  induction n generalizing total b supply log with
  | zero => cases h
  | succ n ih =>
    obtain ⟨out,ho,h⟩ := bind_eq_ok.mp h
    obtain ⟨hlog,hrest,-⟩ := exchange_spec ho
    by_cases hz : out.ret = 0
    · rw [if_pos hz] at h
      cases h
      exact hlog
    · rw [if_neg hz] at h
      obtain ⟨⟨total₁,b₁,log₁⟩,hl,h⟩ := bind_eq_ok.mp h
      cases h
      intro r hr
      rcases List.mem_append.mp hr with hr | hr
      · exact hlog r hr
      · exact ⟨(ih hl r hr).1,hrest.subset (ih hl r hr).2⟩

lemma exchange_returns (total : ℤ) (b : BrokerState) {supply : List (Option Arrival)}
    (h : ∀ a, some a ∈ supply → ∀ b, ∃ r, inspect lib conn b a = .ok r) :
    ∃ out, exchange lib conn total b supply = .ok out := by
  induction supply generalizing total b with
  | nil => exact ⟨_,rfl⟩
  | cons x rest ih =>
    cases x with
    | none => exact ⟨_,rfl⟩
    | some a =>
      obtain ⟨⟨asked,b'⟩,hi⟩ := h a (by simp) b
      obtain ⟨out,ho⟩ := ih (total + a.bytes.length) b'
        fun a' ha => h a' (List.mem_cons_of_mem _ ha)
      rw [exchange, hi, ok_bind]
      dsimp only
      split_ifs
      · exact ⟨_,rfl⟩
      · exact ⟨_,by rw [ho, ok_bind]; rfl⟩

/-- The callback always comes to its end: its loop stops the broker only where the filter does. -/
theorem exchangeLoop_returns {n : ℕ} (total : ℤ) (b : BrokerState) {supply : List (Option Arrival)}
    (h : ∀ a, some a ∈ supply → ∀ b, ∃ r, inspect lib conn b a = .ok r) (hn : supply.length < n) :
    ∃ r, exchangeLoop lib conn n total b supply = .ok r := by
  induction n generalizing total b supply with
  | zero => omega
  | succ n ih =>
    obtain ⟨out,ho⟩ := exchange_returns 0 b h
    obtain ⟨-,hrest,hlen⟩ := exchange_spec ho
    rw [exchangeLoop, ho, ok_bind]
    by_cases hz : out.ret = 0
    · exact ⟨_,by rw [if_pos hz]; rfl⟩
    · obtain ⟨r,hr⟩ := ih (total + out.ret) out.broker
        (fun a ha => h a (hrest.subset ha)) (by have := hlen hz; omega)
      exact ⟨_,by rw [if_neg hz, hr, ok_bind]; rfl⟩

/-- Every line of the record of a run is genuine and about a chunk of the run's supplies. -/
lemma rawStep_log {s t : RawState} {e : RawEvent} (h : rawStep lib conn s e = .ok t) :
    ∃ log, t.log = s.log ++ log ∧ ∀ r ∈ log, r.Judged lib conn ∧ some r.arrival ∈ e.supply := by
  cases e with
  | elsewhere broker =>
    obtain rfl := Except.ok.inj h
    exact ⟨[],by simp,by simp⟩
  | readable supply =>
    by_cases hp : s.polled
    · rw [rawStep, if_pos hp] at h
      obtain ⟨⟨total,b,log⟩,hl,h⟩ := bind_eq_ok.mp h
      obtain rfl := Except.ok.inj h
      exact ⟨log,rfl,exchangeLoop_log hl⟩
    · rw [rawStep, if_neg hp] at h
      obtain rfl := Except.ok.inj h
      exact ⟨[],by simp,by simp⟩

end Connection

end Xctools.Broker
