import Mathlib.Data.List.Nodup
import Xctools.Broker.Exchange

/-! The raw mode server, `service_rawdbus_server`, with the connections of all of its clients. The two directions of a
session know each other by the numbers of their sockets, and numbers that were closed are handed out again. -/
namespace Xctools.Broker
open Machine

section Code

/-- What the number of an open socket stands for: a client, or the connection to the bus that was made for it. -/
structure Peer where
  session : ℕ
  isClient : Bool
deriving DecidableEq

/-- The other end of the session. -/
def Peer.partner (p : Peer) : Peer := ⟨p.session,!p.isClient⟩

/-- `struct raw_dbus_conn`, whole. -/
structure RawHandle extends RawDbusConn where
  receiver : ℕ
  sender : ℕ

/-- A chunk on its way from whom it was received from to whom the number stands for that it was sent to. -/
structure Delivery where
  source : Option Peer
  target : Option Peer
  bytes : List UInt8

/-- The globals, the open sockets, the handles that are polled, the sockets that libuv has yet to close, and all the
chunks sent so far. -/
structure RawServer where
  broker : BrokerState
  sockets : ℕ → Option Peer
  polled : List RawHandle
  closing : List ℕ
  sessions : ℕ
  deliveries : List Delivery

inductive ServerEvent
  | elsewhere (broker : BrokerState)
  /-- A client is accepted, and the bus connected to. -/
  | connect (client server : ℕ) (domain : UInt16)
  | readable (fd : ℕ) (supply : List (Option Arrival))
  /-- libuv calls back for the handles that were closed. -/
  | closed

/-- What `exchange` has sent from `h.receiver` to `h.sender`. -/
def RawServer.sent (s : RawServer) (h : RawHandle) (log : List Received) : List Delivery :=
  (log.filter Received.forwarded).map fun r => ⟨s.sockets h.receiver,s.sockets h.sender,r.arrival.bytes⟩

variable (lib : Libdbus)

/-- `service_rdconn_cb`, on the socket `h.receiver`. -/
def RawServer.serviceRdconn (s : RawServer) (h : RawHandle) (supply : List (Option Arrival)) : Outcome RawServer := do
  let (total, broker, log) ← exchangeLoop lib h.toRawDbusConn (supply.length + 1) 0 s.broker supply
  let s := { s with broker, deliveries := s.deliveries ++ s.sent h log }
  if total ≤ 0 then
    return { s with
      polled := s.polled.filter fun h' => h'.receiver ≠ h.receiver, closing := h.receiver :: s.closing }
  else return s

/-- `service_rawdbus_server` with its two calls of `init_rawdbus_conn`, `service_rdconn_cb` for a socket that is
polled, and `close_client_rawdbus`, which closes the socket that was received from. -/
def RawServer.act (s : RawServer) : ServerEvent → Outcome RawServer
  | .elsewhere broker => .ok { s with broker }
  | .connect client server domain =>
    .ok { s with
      sockets := Function.update (Function.update s.sockets client (some ⟨s.sessions,true⟩)) server
        (some ⟨s.sessions,false⟩)
      polled := s.polled ++ [⟨⟨true,domain⟩,client,server⟩,⟨⟨false,domain⟩,server,client⟩]
      sessions := s.sessions + 1 }
  | .readable fd supply =>
    match s.polled.find? fun h => h.receiver = fd with
    | none => .ok s
    | some h => s.serviceRdconn lib h supply
  | .closed => .ok { s with sockets := fun n => if n ∈ s.closing then none else s.sockets n, closing := [] }

end Code

section Sessions

/-- Nothing that is sent to an open socket leaves its session. -/
def Delivery.Within (d : Delivery) : Prop := ∀ p, d.target = some p → d.source = some p.partner

/-- `accept` and the connection to the bus return numbers of sockets that are not open. -/
def Fresh (s : RawServer) : ServerEvent → Prop
  | .connect client server _ => client ≠ server ∧ s.sockets client = none ∧ s.sockets server = none
  | _ => True

/-- No socket of a new session takes a number that a handle from an older one still sends to. -/
def Unclaimed (s : RawServer) : ServerEvent → Prop
  | .connect client server _ => ∀ h ∈ s.polled, h.sender ≠ client ∧ h.sender ≠ server
  | _ => True

instance (s : RawServer) (e : ServerEvent) : Decidable (Fresh s e) :=
  match e with
  | .connect client server _ =>
    inferInstanceAs (Decidable (client ≠ server ∧ s.sockets client = none ∧ s.sockets server = none))
  | .elsewhere _ => isTrue trivial
  | .readable _ _ => isTrue trivial
  | .closed => isTrue trivial

instance (s : RawServer) (e : ServerEvent) : Decidable (Unclaimed s e) :=
  match e with
  | .connect client server _ =>
    inferInstanceAs (Decidable (∀ h ∈ s.polled, h.sender ≠ client ∧ h.sender ≠ server))
  | .elsewhere _ => isTrue trivial
  | .readable _ _ => isTrue trivial
  | .closed => isTrue trivial

/-- Whatever is received next, and wherever, is sent on within its session. -/
def RawServer.KeepsApart (lib : Libdbus) (s : RawServer) : Prop :=
  ∀ fd supply s', s.act lib (.readable fd supply) = .ok s' →
    ∃ sent, s'.deliveries = s.deliveries ++ sent ∧ ∀ d ∈ sent, d.Within

/-- How the handles and the sockets hang together as long as no number is claimed twice. -/
structure RawServer.Wired (s : RawServer) : Prop where
  distinct : (s.polled.map RawHandle.receiver).Nodup
  counted : ∀ n p, s.sockets n = some p → p.session < s.sessions
  receives : ∀ h ∈ s.polled, ∃ p, s.sockets h.receiver = some p ∧ h.receiver ∉ s.closing
  sends : ∀ h ∈ s.polled, ∀ p, s.sockets h.sender = some p → s.sockets h.receiver = some p.partner
  pending : ∀ n ∈ s.closing, ∃ p, s.sockets n = some p

/-- The server has started to listen. -/
def RawServer.start (broker : BrokerState) : RawServer := ⟨broker,fun _ => none,[],[],0,[]⟩

variable {lib : Libdbus} {s s' : RawServer} {e : ServerEvent} {h : RawHandle} {supply : List (Option Arrival)}
  {client server : ℕ} {domain : UInt16}

lemma RawServer.wired_start (broker : BrokerState) : (RawServer.start broker).Wired where
  distinct := List.nodup_nil
  counted := fun _ _ hp => by cases hp
  receives := fun _ hh => by cases hh
  sends := fun _ hh => by cases hh
  pending := fun _ hn => by cases hn

/-- All that `service_rdconn_cb` can do. -/
lemma serviceRdconn_spec (hok : s.serviceRdconn lib h supply = .ok s') :
    ∃ broker log, s'.deliveries = s.deliveries ++ s.sent h log ∧
      (s' = { s with broker, deliveries := s'.deliveries } ∨
        s' = { s with
          broker, deliveries := s'.deliveries
          polled := s.polled.filter fun h' => h'.receiver ≠ h.receiver, closing := h.receiver :: s.closing }) := by
  obtain ⟨⟨total,broker,log⟩,-,hok⟩ := bind_eq_ok.mp hok
  refine ⟨broker,log,?_⟩
  by_cases htotal : total ≤ 0
  · simp only [if_pos htotal] at hok
    obtain rfl := Except.ok.inj hok
    exact ⟨rfl,.inr rfl⟩
  · simp only [if_neg htotal] at hok
    obtain rfl := Except.ok.inj hok
    exact ⟨rfl,.inl rfl⟩

lemma RawServer.Wired.keepsApart (hs : s.Wired) : s.KeepsApart lib := by
  intro fd supply s' hok
  rw [RawServer.act] at hok
  split at hok
  case h_1 =>
    obtain rfl := Except.ok.inj hok
    exact ⟨[],by simp,by simp⟩
  case h_2 h hfind =>
    have hmem : h ∈ s.polled := List.mem_of_find?_eq_some hfind
    obtain ⟨-,log,hsent,-⟩ := serviceRdconn_spec hok
    refine ⟨_,hsent,fun d hd => ?_⟩
    obtain ⟨r,-,rfl⟩ := List.mem_map.mp hd
    exact hs.sends h hmem

/-- A handle that is closed is no longer polled, and its socket is closed later. -/
lemma RawServer.Wired.drop (hs : s.Wired) (hh : h ∈ s.polled) (broker : BrokerState) (deliveries : List Delivery) :
    RawServer.Wired { s with
      broker, deliveries
      polled := s.polled.filter fun h' => h'.receiver ≠ h.receiver, closing := h.receiver :: s.closing } where
  distinct := hs.distinct.sublist ((List.filter_sublist).map _)
  counted := hs.counted
  receives := by
    intro h' hh'
    obtain ⟨hh',hne⟩ := List.mem_filter.mp hh'
    obtain ⟨p,hp,hopen⟩ := hs.receives h' hh'
    refine ⟨p,hp,fun hmem => ?_⟩
    rcases List.mem_cons.mp hmem with heq | hmem
    · exact of_decide_eq_true hne heq
    · exact hopen hmem
  sends := fun h' hh' => hs.sends h' (List.mem_of_mem_filter hh')
  pending := by
    intro n hn
    rcases List.mem_cons.mp hn with rfl | hn
    · obtain ⟨p,hp,-⟩ := hs.receives h hh
      exact ⟨p,hp⟩
    · exact hs.pending n hn

lemma RawServer.Wired.closed (hs : s.Wired) :
    RawServer.Wired { s with sockets := fun n => if n ∈ s.closing then none else s.sockets n, closing := [] } where
  distinct := hs.distinct
  counted := by
    intro n p hp
    by_cases hn : n ∈ s.closing
    · simp [hn] at hp
    · exact hs.counted n p (by simpa [hn] using hp)
  receives := by
    intro h hh
    obtain ⟨p,hp,hopen⟩ := hs.receives h hh
    exact ⟨p,by simp [hopen,hp],by simp⟩
  sends := by
    intro h hh p hp
    obtain ⟨-,-,hopen⟩ := hs.receives h hh
    by_cases hn : h.sender ∈ s.closing
    · simp [hn] at hp
    · simpa [hopen] using hs.sends h hh p (by simpa [hn] using hp)
  pending := fun _ hn => by cases hn

lemma RawServer.Wired.connect (hs : s.Wired) (hfresh : Fresh s (.connect client server domain))
    (hfree : Unclaimed s (.connect client server domain))
    (hok : s.act lib (.connect client server domain) = .ok s') : s'.Wired := by
  obtain ⟨hne,hclient,hserver⟩ := hfresh
  obtain rfl := Except.ok.inj hok
  -- an older handle receives from a socket that is open, so from neither of the new ones
  have hother : ∀ n p, s.sockets n = some p → n ≠ client ∧ n ≠ server := by
    intro n p hp
    constructor
    · rintro rfl
      simp [hclient] at hp
    · rintro rfl
      simp [hserver] at hp
  have hold : ∀ n, n ≠ client → n ≠ server → Function.update (Function.update s.sockets client (some ⟨s.sessions,true⟩))
      server (some ⟨s.sessions,false⟩) n = s.sockets n := by
    intro n hc hsv
    rw [Function.update_of_ne hsv, Function.update_of_ne hc]
  have hpending : ∀ n ∈ s.closing, n ≠ client ∧ n ≠ server := by
    intro n hn
    obtain ⟨p,hp⟩ := hs.pending n hn
    exact hother n p hp
  refine ⟨?_,?_,?_,?_,?_⟩
  · rw [List.map_append, List.nodup_append]
    refine ⟨hs.distinct,by simpa using hne,fun n hn m hm => ?_⟩
    obtain ⟨h,hh,rfl⟩ := List.mem_map.mp hn
    obtain ⟨p,hp,-⟩ := hs.receives h hh
    obtain ⟨hc,hsv⟩ := hother _ p hp
    simp only [List.map_cons, List.map_nil, List.mem_cons, List.not_mem_nil, or_false] at hm
    rcases hm with rfl | rfl
    · exact hc
    · exact hsv
  · intro n p hp
    change p.session < s.sessions + 1
    by_cases hsv : n = server
    · subst hsv
      obtain rfl : (⟨s.sessions,false⟩ : Peer) = p := by simpa using hp
      exact Nat.lt_succ_self _
    by_cases hc : n = client
    · subst hc
      obtain rfl : (⟨s.sessions,true⟩ : Peer) = p := by simpa [hsv] using hp
      exact Nat.lt_succ_self _
    exact Nat.lt_succ_of_lt (hs.counted n p (by simpa [hsv,hc] using hp))
  · intro h hh
    rcases List.mem_append.mp hh with hh | hh
    · obtain ⟨p,hp,hopen⟩ := hs.receives h hh
      obtain ⟨hc,hsv⟩ := hother _ p hp
      exact ⟨p,(hold _ hc hsv).trans hp,hopen⟩
    · simp only [List.mem_cons, List.not_mem_nil, or_false] at hh
      rcases hh with rfl | rfl
      · exact ⟨⟨s.sessions,true⟩,by simp [hne],fun hn => (hpending _ hn).1 rfl⟩
      · exact ⟨⟨s.sessions,false⟩,by simp,fun hn => (hpending _ hn).2 rfl⟩
  · intro h hh p hp
    rcases List.mem_append.mp hh with hh | hh
    · obtain ⟨hsc,hss⟩ := hfree h hh
      obtain ⟨q,hq,-⟩ := hs.receives h hh
      obtain ⟨hc,hsv⟩ := hother _ q hq
      exact (hold _ hc hsv).trans (hs.sends h hh p ((hold _ hsc hss).symm.trans hp))
    · simp only [List.mem_cons, List.not_mem_nil, or_false] at hh
      rcases hh with rfl | rfl
      · obtain rfl : (⟨s.sessions,false⟩ : Peer) = p := by simpa using hp
        simp [hne,Peer.partner]
      · obtain rfl : (⟨s.sessions,true⟩ : Peer) = p := by simpa [hne] using hp
        simp [Peer.partner]
  · intro n hn
    obtain ⟨p,hp⟩ := hs.pending n hn
    obtain ⟨hc,hsv⟩ := hother n p hp
    exact ⟨p,(hold n hc hsv).trans hp⟩

lemma RawServer.Wired.act (hs : s.Wired) (hfresh : Fresh s e) (hfree : Unclaimed s e) (hok : s.act lib e = .ok s') :
    s'.Wired := by
  cases e with
  | elsewhere broker =>
    obtain rfl := Except.ok.inj hok
    exact ⟨hs.distinct,hs.counted,hs.receives,hs.sends,hs.pending⟩
  | connect client server domain => exact hs.connect hfresh hfree hok
  | readable fd supply =>
    rw [RawServer.act] at hok
    split at hok
    case h_1 =>
      obtain rfl := Except.ok.inj hok
      exact hs
    case h_2 h hfind =>
      obtain ⟨broker,-,-,heq | heq⟩ := serviceRdconn_spec hok
      · rw [heq]
        exact ⟨hs.distinct,hs.counted,hs.receives,hs.sends,hs.pending⟩
      · rw [heq]
        exact hs.drop (List.mem_of_find?_eq_some hfind) _ _
  | closed =>
    obtain rfl := Except.ok.inj hok
    exact hs.closed

/-- A byte that arrives by itself. -/
def lonelyByte (world : World) : Arrival := ⟨[0],by simp,by simp [dbusMsgLen],world,1⟩

/-- It is sent on without a look. -/
lemma serviceRdconn_lonelyByte (world : World) : s.serviceRdconn lib h [some (lonelyByte world)] =
    .ok { s with deliveries := s.deliveries ++ [⟨s.sockets h.receiver,s.sockets h.sender,[0]⟩] } := by
  have hlook : inspect lib h.toRawDbusConn s.broker (lonelyByte world) = .ok (none,s.broker) := by
    rw [inspect, if_neg (by simp [lonelyByte,dbusCommMin])]
  have hread : exchange lib h.toRawDbusConn 0 s.broker [some (lonelyByte world)] =
      .ok ⟨1,[],s.broker,[⟨lonelyByte world,s.broker,none⟩]⟩ := by
    rw [exchange, hlook]
    rfl
  have hloop : exchangeLoop lib h.toRawDbusConn 2 0 s.broker [some (lonelyByte world)] =
      .ok (1,s.broker,[⟨lonelyByte world,s.broker,none⟩]) := by
    rw [exchangeLoop, hread]
    rfl
  rw [RawServer.serviceRdconn, List.length_singleton, hloop]
  rfl

lemma RawServer.Wired.find_receiver (hs : s.Wired) (hh : h ∈ s.polled) :
    (s.polled.find? fun h' => h'.receiver = h.receiver) = some h := by
  cases hfind : s.polled.find? fun h' => h'.receiver = h.receiver with
  | none =>
    have hnot := List.find?_eq_none.mp hfind h hh
    simp at hnot
  | some h' =>
    have heq : h'.receiver = h.receiver := by simpa using List.find?_some hfind
    rw [List.inj_on_of_nodup_map hs.distinct (List.mem_of_find?_eq_some hfind) hh heq]

/-- A new session takes the number of a socket that an older handle sends to: what this one receives next leaves its
session. -/
lemma RawServer.Wired.crosses (hs : s.Wired) (hfresh : Fresh s e) (hclaimed : ¬ Unclaimed s e) :
    ∃ s', s.act lib e = .ok s' ∧ ¬ s'.KeepsApart lib := by
  cases e with
  | connect client server domain =>
    obtain ⟨hne,hclient,hserver⟩ := hfresh
    obtain ⟨h,hclaimed⟩ := not_forall.mp hclaimed
    obtain ⟨hh,hclaimed⟩ := Classical.not_imp.mp hclaimed
    refine ⟨_,rfl,fun hapart => ?_⟩
    obtain ⟨p,hp,-⟩ := hs.receives h hh
    have hold : p.session < s.sessions := hs.counted _ p hp
    have hreceiver : Function.update (Function.update s.sockets client (some ⟨s.sessions,true⟩))
        server (some ⟨s.sessions,false⟩) h.receiver = some p := by
      rw [Function.update_of_ne fun heq => ?_, Function.update_of_ne fun heq => ?_, hp]
      · simp [heq,hclient] at hp
      · simp [heq,hserver] at hp
    obtain ⟨q,hq,hnew⟩ : ∃ q : Peer, Function.update (Function.update s.sockets client (some ⟨s.sessions,true⟩))
        server (some ⟨s.sessions,false⟩) h.sender = some q ∧ q.session = s.sessions := by
      by_cases hsv : h.sender = server
      · exact ⟨_,by rw [hsv,Function.update_self],rfl⟩
      · have hc : h.sender = client := by
          by_contra hc
          exact hclaimed ⟨hc,hsv⟩
        exact ⟨_,by rw [Function.update_of_ne hsv,hc,Function.update_self],rfl⟩
    let world : World := ⟨false,false,fun _ => none,fun _ => none,fun _ => none⟩
    obtain ⟨sent,hsent,hwithin⟩ := hapart h.receiver [some (lonelyByte world)] _ (by
      rw [RawServer.act, List.find?_append, hs.find_receiver hh]
      exact serviceRdconn_lonelyByte world)
    have hdelivery := List.append_cancel_left hsent
    rw [← hdelivery] at hwithin
    obtain rfl := Option.some.inj (hreceiver.symm.trans (hwithin _ (List.mem_singleton_self _) q hq))
    exact absurd hnew (Nat.ne_of_lt hold)
  | elsewhere broker => exact absurd trivial hclaimed
  | readable fd supply => exact absurd trivial hclaimed
  | closed => exact absurd trivial hclaimed

/-- Nothing that is received ever leaves its session, in all that may happen with numbers that the system hands out, if
and only if no session is given the number of a socket that a handle left over from an earlier one sends to. -/
theorem rawServer_keepsApart_iff {broker : BrokerState} {es : List ServerEvent}
    (hfresh : Meets (RawServer.act lib) Fresh (RawServer.start broker) es) :
    Throughout (RawServer.act lib) (RawServer.KeepsApart lib) (RawServer.start broker) es ↔
      Meets (RawServer.act lib) Unclaimed (RawServer.start broker) es :=
  hfresh.throughout_iff_meets (fun _ => RawServer.Wired.keepsApart) (fun _ _ _ => RawServer.Wired.act)
    (fun _ _ => RawServer.Wired.crosses) (RawServer.wired_start broker)

end Sessions

/-- The client goes, its connection to the bus stays, and the next client gets its number. -/
theorem rawServer_keepsApart_reused : ¬ Throughout (RawServer.act ⟨fun _ => 0,fun _ => none,fun _ => false⟩)
    (RawServer.KeepsApart ⟨fun _ => 0,fun _ => none,fun _ => false⟩) (RawServer.start ⟨none,fun _ => none⟩)
    [.connect 5 6 1,.readable 5 [],.closed,.connect 5 7 2] := by
  rw [rawServer_keepsApart_iff (by decide)]
  decide

end Xctools.Broker
