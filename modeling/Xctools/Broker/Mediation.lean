import Xctools.Broker.Exchange

/-! Complete mediation and lossless forwarding of a raw connection. Both hold of some streams only:
the filter is asked about a chunk, not about a message, and the result of `send` is not looked
at. -/
namespace Xctools.Broker
open Machine

/-- The bytes of a chunk, each with the line of the record it came in by. -/
def Received.stamped (r : Received) : List (UInt8 × Received) := r.arrival.bytes.map fun x => (x, r)

/-- What came in, byte by byte. -/
def stream (log : List Received) : List (UInt8 × Received) := log.flatMap Received.stamped

/-- What was sent on. -/
def sentOn (log : List Received) : List UInt8 :=
  (log.filter Received.forwarded).flatMap fun r => r.arrival.bytes

section Mediation
variable (lib : Libdbus) (conn : RawDbusConn)

/-- The messages of what came in. -/
def arrivedMessages (log : List Received) : List (List (UInt8 × Received)) :=
  messages (fun l => lib.bytesNeeded (l.map Prod.fst)) (stream log)

/-- `convert_raw_dbus` and then `is_request_allowed`, under the policy in force, let the chunk
pass. -/
def Received.Passes (r : Received) : Prop :=
  ∃ ret dmsg b', convertRawDbus lib r.arrival.bytes = .ok (ret, some dmsg) ∧ 1 ≤ ret ∧
    isRequestAllowed r.arrival.world r.broker dmsg conn.isClient conn.clientDomain.toNat =
      .ok (true, b')

/-- Complete mediation: the filter was asked about every message all of whose bytes went on, about
these bytes and no others, and let it pass. -/
def Mediated (log : List Received) : Prop :=
  ∀ m ∈ arrivedMessages lib log, (∀ x ∈ m, x.2.forwarded) →
    ∃ r ∈ log, m = r.stamped ∧ r.asked = some true ∧ r.Passes lib conn

variable {lib conn}

/-- The filter is asked exactly about chunks that are alone. -/
lemma Received.Judged.asked_ne_none_iff {r : Received} (h : r.Judged lib conn) :
    r.asked ≠ none ↔ r.arrival.Alone lib := by
  obtain ⟨b',h⟩ := h
  rcases inspect_cases h with ⟨ha,hn⟩ | ⟨ha,hn⟩ | ⟨ha,_,_,_,_,_,_,hn⟩
  · simp [ha, hn]
  · simp [ha, hn]
  · simp [ha, hn]

lemma Received.Judged.passes {r : Received} (h : r.Judged lib conn) (hr : r.asked = some true) :
    r.Passes lib conn := by
  obtain ⟨b',h⟩ := h
  rcases inspect_cases h with ⟨_,hn⟩ | ⟨_,hn⟩ | ⟨_,ret,dmsg,allowed,hc,hret,hq,hn⟩
  · rw [hn] at hr
    cases hr
  · rw [hn] at hr
    cases hr
  · rw [hn] at hr
    cases hr
    exact ⟨ret,dmsg,b',hc,hret,hq⟩

/-- What holds of every chunk of a run's supplies holds of every chunk of its record. -/
lemma run_log {P : Arrival → Prop} {s t : RawState} {es : List RawEvent} (hs : s.log = [])
    (hP : ∀ e ∈ es, ∀ a, some a ∈ e.supply → P a)
    (hr : perform (rawStep lib conn) s es = .ok t) :
    ∀ r ∈ t.log, r.Judged lib conn ∧ P r.arrival := by
  have hmeets : Meets (rawStep lib conn) _ s es := Meets.of_forall hP s
  refine hmeets.invariant (I := fun s => ∀ r ∈ s.log, r.Judged lib conn ∧ P r.arrival) ?_
    (by simp [hs]) hr
  intro s e s' hI hC hstep r hrlog
  obtain ⟨log,hlog,hnew⟩ := rawStep_log hstep
  rw [hlog] at hrlog
  rcases List.mem_append.mp hrlog with h | h
  · exact hI r h
  · exact ⟨(hnew r h).1,hC _ (hnew r h).2⟩

/-- Every line of the record of a run is genuine. -/
lemma run_judged {s t : RawState} {es : List RawEvent} (hs : s.log = [])
    (hr : perform (rawStep lib conn) s es = .ok t) : ∀ r ∈ t.log, r.Judged lib conn :=
  fun r h => (run_log (P := fun _ => True) hs (fun _ _ _ _ => trivial) hr r h).1

/-- Mediation fails exactly by a message that went on without having been a chunk of its own. -/
lemma mediated_iff {log : List Received} (hj : ∀ r ∈ log, r.Judged lib conn) :
    Mediated lib conn log ↔ ∀ m ∈ arrivedMessages lib log, (∀ x ∈ m, x.2.forwarded) →
      ∃ r ∈ log, m = r.stamped ∧ r.arrival.Alone lib := by
  constructor
  · intro h m hm hf
    obtain ⟨r,hr,hmr,hask,-⟩ := h m hm hf
    exact ⟨r,hr,hmr,(hj r hr).asked_ne_none_iff.mp (by simp [hask])⟩
  · intro h m hm hf
    obtain ⟨r,hr,rfl,ha⟩ := h m hm hf
    obtain ⟨x,hx⟩ := List.exists_mem_of_ne_nil _ r.arrival.nonempty
    have hfwd : r.forwarded := hf (x, r) (List.mem_map.mpr ⟨x,hx,rfl⟩)
    have hask : r.asked = some true := by
      have hne := (hj r hr).asked_ne_none_iff.mpr ha
      cases hopt : r.asked with
      | none => exact absurd hopt hne
      | some v =>
        cases v with
        | true => rfl
        | false => simp [Received.forwarded, hopt] at hfwd
    exact ⟨r,hr,rfl,hask,(hj r hr).passes hask⟩

lemma arrivedMessages_of_alone (hf : Framing lib.bytesNeeded) {log : List Received}
    (ha : ∀ r ∈ log, r.arrival.Alone lib) : arrivedMessages lib log = log.map Received.stamped := by
  have hstream : stream log = (log.map Received.stamped).flatten := rfl
  rw [arrivedMessages, hstream]
  apply (hf.map Prod.fst).messages_flatten
  intro c hc
  obtain ⟨r,hr,rfl⟩ := List.mem_map.mp hc
  refine ⟨by simpa [Received.stamped] using r.arrival.nonempty,?_⟩
  simpa [Received.stamped, Function.comp_def] using (ha r hr).2

/-- When every chunk is alone, what is sent on is what the filter let pass. -/
lemma sentOn_of_alone {log : List Received} (hj : ∀ r ∈ log, r.Judged lib conn)
    (ha : ∀ r ∈ log, r.arrival.Alone lib) :
    sentOn log = (log.filter fun r => r.asked = some true).flatMap fun r => r.arrival.bytes := by
  rw [sentOn]
  congr 1
  apply List.filter_congr
  intro r hr
  have hne := (hj r hr).asked_ne_none_iff.mpr (ha r hr)
  cases hopt : r.asked with
  | none => exact absurd hopt hne
  | some v => cases v <;> simp [Received.forwarded, hopt]

/-- Mediation of a raw connection. In every run it is complete exactly when every message that went
on was a chunk of its own; and it is, whatever the policy does meanwhile, when `recv` cuts the
stream into its messages and none is shorter than the filter looks at. -/
theorem rawStep_mediated (hf : Framing lib.bytesNeeded) {s t : RawState} {es : List RawEvent}
    (hs : s.log = []) (hr : perform (rawStep lib conn) s es = .ok t) :
    (Mediated lib conn t.log ↔ ∀ m ∈ arrivedMessages lib t.log, (∀ x ∈ m, x.2.forwarded) →
      ∃ r ∈ t.log, m = r.stamped ∧ r.arrival.Alone lib) ∧
    ((∀ e ∈ es, ∀ a, some a ∈ e.supply → a.Alone lib) →
      Mediated lib conn t.log ∧ arrivedMessages lib t.log = t.log.map Received.stamped ∧
      sentOn t.log =
        (t.log.filter fun r => r.asked = some true).flatMap fun r => r.arrival.bytes) := by
  have hj := run_judged hs hr
  refine ⟨mediated_iff hj,fun hall => ?_⟩
  have ha : ∀ r ∈ t.log, r.arrival.Alone lib := fun r h => (run_log hs hall hr r h).2
  have hm := arrivedMessages_of_alone hf ha
  refine ⟨(mediated_iff hj).mpr ?_,hm,sentOn_of_alone hj ha⟩
  intro m hmem _
  rw [hm] at hmem
  obtain ⟨r,hr,rfl⟩ := List.mem_map.mp hmem
  exact ⟨r,hr,rfl,ha r hr⟩

end Mediation

section Forwarding

/-- The `send` of a chunk: the socket takes what it has room for, and nobody looks at how much that
was. -/
def Received.send (r : Received) : Send UInt8 :=
  ⟨r.arrival.bytes, min r.arrival.room r.arrival.bytes.length, Nat.min_le_right _ _⟩

/-- The sends of a record, one for each chunk that was let through. -/
def sends (log : List Received) : List (Send UInt8) :=
  (log.filter Received.forwarded).map Received.send

/-- Forwarding loses nothing: at all times the peer's socket has taken the beginning of what was
sent on, with no byte in the middle left out. -/
def Forwards (log : List Received) : Prop :=
  ∀ l, l <+: log → Lossless (sends l) ∧ taken (sends l) <+: sentOn l

/-- After a chunk that the peer's socket did not take whole, it takes nothing of any chunk. -/
def Drained (log : List Received) : Prop :=
  ∀ before r after, log = before ++ r :: after →
    r.forwarded → r.arrival.room < r.arrival.bytes.length →
      ∀ r' ∈ after, r'.forwarded → r'.arrival.room = 0

lemma offered_sends (log : List Received) : offered (sends log) = sentOn log := by
  simp [offered, sends, sentOn, Received.send, List.flatMap_map]

lemma drained_cons {r : Received} {log : List Received} : Drained (r :: log) ↔
    (r.forwarded → r.arrival.room < r.arrival.bytes.length →
      ∀ r' ∈ log, r'.forwarded → r'.arrival.room = 0) ∧ Drained log :=
  forall_split_cons

lemma send_taken_eq_zero_iff (r : Received) : r.send.taken = 0 ↔ r.arrival.room = 0 := by
  have hpos : 0 < r.arrival.bytes.length := List.length_pos_iff.mpr r.arrival.nonempty
  simp only [Received.send]
  omega

lemma quietAfterShort_sends_iff (log : List Received) :
    QuietAfterShort (sends log) ↔ Drained log := by
  induction log with
  | nil => simp [sends, QuietAfterShort, Drained]
  | cons r log ih =>
    rw [drained_cons, ← ih]
    by_cases hf : r.forwarded
    · have hcons : sends (r :: log) = r.send :: sends log := by simp [sends, hf]
      have hshort : r.send.taken < r.send.offered.length ↔
          r.arrival.room < r.arrival.bytes.length := by
        simp only [Received.send]
        omega
      have hzero : (∀ t ∈ sends log, t.taken = 0) ↔
          ∀ r' ∈ log, r'.forwarded → r'.arrival.room = 0 := by
        simp only [sends, List.forall_mem_map, List.mem_filter, send_taken_eq_zero_iff, and_imp]
      rw [hcons, quietAfterShort_cons, hshort, hzero]
      simp [hf]
    · have hcons : sends (r :: log) = sends log := by simp [sends, hf]
      simp [hcons, hf]

lemma Drained.of_prefix {l log : List Received} (h : Drained log) (hl : l <+: log) : Drained l := by
  obtain ⟨rest,rfl⟩ := hl
  rintro before r after rfl hf hshort r' hr'
  exact h before r (after ++ rest) (by simp) hf hshort r' (by simp [hr'])

lemma forwards_iff_drained (log : List Received) : Forwards log ↔ Drained log := by
  constructor
  · intro h
    exact (quietAfterShort_sends_iff log).mp ((lossless_iff _).mp (h log List.prefix_rfl).1)
  · intro h l hl
    have hq := (quietAfterShort_sends_iff l).mpr (h.of_prefix hl)
    exact ⟨(lossless_iff _).mpr hq,offered_sends l ▸ hq.taken_prefix⟩

/-- In every run of a raw connection, forwarding loses nothing exactly when the peer's socket takes
nothing more once it has left a rest. -/
theorem rawStep_forwards_iff {lib : Libdbus} {conn : RawDbusConn} {s t : RawState}
    {es : List RawEvent} (hs : s.log = []) (hr : perform (rawStep lib conn) s es = .ok t) :
    (∀ r ∈ t.log, r.Judged lib conn) ∧ (Forwards t.log ↔ Drained t.log) :=
  ⟨run_judged hs hr,forwards_iff_drained t.log⟩

end Forwarding

/-- A number in little-endian bytes. -/
def littleEndian (l : List UInt8) : ℕ := l.foldr (fun x n => x.toNat + 256 * n) 0

/-- The length of a little-endian message: a fixed part of 16 bytes, the header fields up to a
multiple of 8, and the body. -/
def headerNeeded (l : List UInt8) : ℤ :=
  if l.length < 16 then 0
  else ((16 + littleEndian ((l.drop 12).take 4) + 7) / 8 * 8 + littleEndian ((l.drop 4).take 4) : ℕ)

lemma headerNeeded_framing : Framing headerNeeded := by
  intro m rest hne hm
  have hpos : 0 < m.length := List.length_pos_iff.mpr hne
  have hlen : ¬ m.length < 16 := by
    intro h
    rw [headerNeeded, if_pos h] at hm
    omega
  have htake : ∀ k, k ≤ 12 → ((m ++ rest).drop k).take 4 = (m.drop k).take 4 := by
    intro k hk
    rw [List.drop_append_of_le_length (by omega), List.take_append_of_le_length (by simp; omega)]
  rw [headerNeeded, if_neg hlen] at hm
  rw [headerNeeded, if_neg (by simp; omega), htake 12 (by omega), htake 4 (by omega), hm]

/-- A call of the method `m` on the object `/`. -/
def sampleCall : List UInt8 :=
  [0x6c, 1, 0, 1, 0, 0, 0, 0, 1, 0, 0, 0, 26, 0, 0, 0,
    1, 1, 0x6f, 0, 1, 0, 0, 0, 0x2f, 0, 0, 0, 0, 0, 0, 0,
    3, 1, 0x73, 0, 1, 0, 0, 0, 0x6d, 0, 0, 0, 0, 0, 0, 0]

/-- A libdbus that knows this one message. -/
def sampleLibdbus : Libdbus where
  bytesNeeded := headerNeeded
  demarshal l := if l = sampleCall then some ⟨1, none, some "/", none, some "m", []⟩ else none
  keeps _ := false

def sampleArrival : Arrival := ⟨sampleCall, by decide, by decide, sampleWorld, 4096⟩

/-- Two calls that came in with one `recv`. -/
def pipelinedArrival : Arrival :=
  ⟨sampleCall ++ sampleCall, by decide, by decide, sampleWorld, 4096⟩

/-- A broker whose policy file allows everything or nothing, without a database. -/
def fileBroker (policy : Bool) : BrokerState := ⟨some ⟨false, [⟨true, false, policy, false, false,
  .null, .null, .null, .null, .null, .null, .null⟩], []⟩, fun _ => none⟩

/-- Two calls, a reload of the policy that denies all, and a third call, which closes the connection. -/
def reloadedEvents : List RawEvent :=
  [.readable [some sampleArrival, some sampleArrival], .elsewhere (fileBroker false), .readable [some sampleArrival]]

lemma perform_reloadedEvents :
    perform (rawStep sampleLibdbus ⟨true, 1⟩) ⟨fileBroker true, true, []⟩ reloadedEvents =
      .ok ⟨fileBroker false, false, [⟨sampleArrival, fileBroker true, some true⟩,
        ⟨sampleArrival, fileBroker true, some true⟩, ⟨sampleArrival, fileBroker false, some false⟩]⟩ := rfl

lemma perform_pipelinedArrival :
    perform (rawStep sampleLibdbus ⟨true, 1⟩) ⟨fileBroker false, true, []⟩
        [.readable [some pipelinedArrival]] =
      .ok ⟨fileBroker false, true, [⟨pipelinedArrival, fileBroker false, none⟩]⟩ := rfl

theorem rawStep_mediated_sample :
    ∃ t, perform (rawStep sampleLibdbus ⟨true, 1⟩) ⟨fileBroker true, true, []⟩ reloadedEvents = .ok t ∧
      Mediated sampleLibdbus ⟨true, 1⟩ t.log ∧ t.log.length = 3 ∧ sentOn t.log = sampleCall ++ sampleCall := by
  have halone : sampleArrival.Alone sampleLibdbus := by
    constructor
    · decide
    · decide
  have h := (rawStep_mediated headerNeeded_framing rfl perform_reloadedEvents).2
    (by simpa [reloadedEvents, RawEvent.supply] using halone)
  exact ⟨_,perform_reloadedEvents,h.1,rfl,rfl⟩

/-- Both calls of the pipelined chunk go on although the filter denies each of them. -/
theorem pipelined_not_mediated :
    ∃ t, perform (rawStep sampleLibdbus ⟨true, 1⟩) ⟨fileBroker false, true, []⟩
        [.readable [some pipelinedArrival]] = .ok t ∧
      ¬ Mediated sampleLibdbus ⟨true, 1⟩ t.log ∧ sentOn t.log = sampleCall ++ sampleCall ∧
      inspect sampleLibdbus ⟨true, 1⟩ (fileBroker false) sampleArrival =
        .ok (some false, fileBroker false) := by
  refine ⟨_,perform_pipelinedArrival,?_,rfl,rfl⟩
  intro h
  let r : Received := ⟨pipelinedArrival, fileBroker false, none⟩
  let call : List (UInt8 × Received) := sampleCall.map fun x => (x, r)
  have hcall : headerNeeded (call.map Prod.fst) = call.length := by
    simp only [call, List.map_map, Function.comp_def, List.map_id', List.length_map]
    decide
  have hmessages : arrivedMessages sampleLibdbus [r] = [call, call] := by
    have hstream : stream [r] = [call, call].flatten := by
      simp [stream, Received.stamped, r, call, pipelinedArrival]
    rw [arrivedMessages, hstream]
    apply (headerNeeded_framing.map Prod.fst).messages_flatten
    have hne : call ≠ [] := List.ne_nil_of_length_pos (by decide : 0 < 48)
    simpa using ⟨hne,hcall⟩
  have hfwd : ∀ x ∈ call, x.2.forwarded := by
    intro x hx
    obtain ⟨y,-,rfl⟩ := List.mem_map.mp hx
    rfl
  obtain ⟨r',hr',heq,-⟩ := h call (by simp [hmessages, r]) hfwd
  obtain rfl := List.mem_singleton.mp hr'
  have hlen : 48 = 96 := congrArg List.length heq
  cases hlen

/-- The same call, into a socket that has room for ten bytes. -/
def crampedArrival : Arrival := ⟨sampleCall, by decide, by decide, sampleWorld, 10⟩

/-- And into a full one. -/
def stuckArrival : Arrival := ⟨sampleCall, by decide, by decide, sampleWorld, 0⟩

/-- Nothing follows the ten bytes. -/
theorem rawStep_forwards_iff_sample :
    ∃ t, perform (rawStep sampleLibdbus ⟨true, 1⟩) ⟨fileBroker true, true, []⟩
        [.readable [some sampleArrival, some crampedArrival], .readable [some stuckArrival]] = .ok t ∧
      Forwards t.log ∧ taken (sends t.log) = sampleCall ++ sampleCall.take 10 := by
  have hr : perform (rawStep sampleLibdbus ⟨true, 1⟩) ⟨fileBroker true, true, []⟩
      [.readable [some sampleArrival, some crampedArrival], .readable [some stuckArrival]] =
        .ok ⟨fileBroker true, true, [⟨sampleArrival, fileBroker true, some true⟩,
          ⟨crampedArrival, fileBroker true, some true⟩, ⟨stuckArrival, fileBroker true, some true⟩]⟩ := rfl
  refine ⟨_,hr,(rawStep_forwards_iff rfl hr).2.mpr ?_,rfl⟩
  simp only [drained_cons]
  simp [Drained, sampleArrival, stuckArrival, sampleCall]

/-- The last 38 bytes of the first call are lost. -/
theorem cramped_not_forwards :
    ∃ t, perform (rawStep sampleLibdbus ⟨true, 1⟩) ⟨fileBroker true, true, []⟩
        [.readable [some crampedArrival, some sampleArrival]] = .ok t ∧ ¬ Forwards t.log := by
  refine ⟨⟨fileBroker true, true, [⟨crampedArrival, fileBroker true, some true⟩,
    ⟨sampleArrival, fileBroker true, some true⟩]⟩,rfl,?_⟩
  intro h
  have htaken := (h _ List.prefix_rfl).2
  revert htaken
  decide

end Xctools.Broker
