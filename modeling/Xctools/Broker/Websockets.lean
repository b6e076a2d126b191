import Xctools.Machine.Run
import Xctools.Broker.Dlinks

/-! Websocket mode: the callback of `websockets.c`, the signal loop of `rpc-broker.c`, and what they
share. There is one ring of outgoing texts for all connections and one list of signal links. -/
namespace Xctools.Broker
open Machine

def maxSignals : ℕ := 16

/-- What `ws_request_handler` made of a request: it was rejected (-1), it was made and brought
nothing to send, or its reply goes to the ring and its member may be `AddMatch`. -/
inductive Handled
  | rejected
  | unanswered
  | replied (reply : String) (addMatch : Bool)
  deriving DecidableEq, Repr

/-- A text in the ring. The connection it is meant for is known here and nowhere in the source. -/
structure Element where
  text : String
  owner : ℕ
  deriving DecidableEq, Repr

/-- The globals of websocket mode. `queued` and `written` only keep a record: every element that
went into the ring, and every element written with the connection it was written to. -/
structure Server where
  links : Dlinks
  subscribers : ℕ
  ring : List Element
  writable : List ℕ
  queued : List Element
  written : List (ℕ × Element)

/-- The event loop's callbacks and its call of `service_ws_signals`, at which the links with these
addresses have a signal to pop. -/
inductive WsEvent
  | receive (wsi : ℕ) (handled : Handled)
  | writeable (wsi : ℕ)
  | signals (popped : ℕ → Option String)
  | closed (wsi : ℕ)

/-- `lws_callback_on_writable`. -/
def Server.callbackOnWritable (s : Server) (wsi : ℕ) : Server :=
  { s with writable := wsi :: s.writable }

/-- `lws_ring_insert`: a full ring takes nothing. -/
def Server.ringInsert (capacity : ℕ) (s : Server) (e : Element) : Server :=
  if s.ring.length < capacity then { s with ring := s.ring ++ [e], queued := s.queued ++ [e] } else s

/-- `add_ws_signal`. -/
def addWsSignal (s : Server) (wsi : ℕ) : Outcome Server := do
  let (_, links) ← addDbusSignal s.links (.client wsi)
  return { s with links, subscribers := s.subscribers + 1 }

/-- One round of `service_ws_signals`: `parse_client_signal` for a client link. A signal of the
server link asks for a policy reload and sends nothing. -/
def signalRound (capacity : ℕ) (popped : ℕ → Option String) (s : Server) (link : ℕ) :
    Outcome Server := do
  let node ← s.links.heap.read (some link)
  match node.data, popped link with
  | .client wsi, some reply => return (s.callbackOnWritable wsi).ringInsert capacity ⟨reply, wsi⟩
  | _, _ => return s

/-- `ws_server_callback` and `service_ws_signals`. A writeable callback comes only when one was
asked for. -/
def wsStep (capacity : ℕ) (s : Server) : WsEvent → Outcome Server
  | .receive _ .rejected => .ok s
  | .receive wsi .unanswered => .ok (s.callbackOnWritable wsi)
  | .receive wsi (.replied reply addMatch) => do
    let s := s.ringInsert capacity ⟨reply, wsi⟩
    let s ← if s.subscribers < maxSignals ∧ addMatch then addWsSignal s wsi else .ok s
    return s.callbackOnWritable wsi
  | .writeable wsi =>
    if wsi ∈ s.writable then
      let s := { s with writable := s.writable.filter (· ≠ wsi) }
      match s.ring with
      | [] => .ok s
      | rsp :: ring =>
        .ok ({ s with ring, written := s.written ++ [(wsi, rsp)] }.callbackOnWritable wsi)
    else .ok s
  | .signals popped => do
    let order ← visited s.links
    order.foldlM (signalRound capacity popped) s
  | .closed wsi => do
    let (links, _) ← freeDlinks s.links
    return { s with links, writable := s.writable.filter (· ≠ wsi) }

/-- `run_websockets` up to its loop: one link, for the signals of xenmgr. -/
def Server.start : Server where
  links := ⟨Heap.set (fun _ => none) 0 ⟨none, none, .server⟩, 1, some 0⟩
  subscribers := 0
  ring := []
  writable := []
  queued := []
  written := []

example : addDbusSignal ⟨fun _ => none, 0, none⟩ .server = .ok (0, Server.start.links) := rfl

section Replies
variable {capacity : ℕ}

/-- The ring is first in, first out: what was queued is what was written, and then what waits. -/
def Server.Fifo (s : Server) : Prop := s.queued = s.written.map Prod.snd ++ s.ring

/-- What a callback writes: the oldest text of the ring, to the connection that may write. -/
def writes (s : Server) : WsEvent → List (ℕ × Element)
  | .writeable wsi => if wsi ∈ s.writable then (s.ring.head?.map fun rsp => (wsi, rsp)).toList else []
  | _ => []

/-- What went on between two states as far as the ring goes: `out` was written, and what was queued
meanwhile stands behind what was waiting. -/
structure Recorded (s t : Server) (out : List (ℕ × Element)) : Prop where
  written : t.written = s.written ++ out
  ring : ∃ new, t.queued = s.queued ++ new ∧ s.ring ++ new = out.map Prod.snd ++ t.ring

lemma Recorded.refl (s : Server) : Recorded s s [] where
  written := (List.append_nil _).symm
  ring := ⟨[],(List.append_nil _).symm,List.append_nil _⟩

/-- The links and the requests for callbacks do not matter. -/
lemma Recorded.congr {s t u : Server} {out : List (ℕ × Element)} (h : Recorded s t out)
    (hw : u.written = t.written) (hq : u.queued = t.queued) (hr : u.ring = t.ring) :
    Recorded s u out := by
  refine ⟨hw.trans h.written,?_⟩
  rw [hq, hr]
  exact h.ring

lemma Recorded.trans {s t u : Server} (h : Recorded s t []) (h' : Recorded t u []) :
    Recorded s u [] := by
  obtain ⟨new,hq,hr⟩ := h.ring
  obtain ⟨new',hq',hr'⟩ := h'.ring
  refine ⟨by rw [h'.written, h.written, List.append_assoc, List.append_nil],new ++ new',?_,?_⟩
  · rw [hq', hq, List.append_assoc]
  · rw [← List.append_assoc, hr]
    exact hr'

lemma recorded_ringInsert (s : Server) (e : Element) : Recorded s (s.ringInsert capacity e) [] := by
  unfold Server.ringInsert
  split_ifs
  · exact ⟨(List.append_nil _).symm,[e],rfl,rfl⟩
  · exact .refl s

lemma recorded_addWsSignal {s t : Server} {wsi : ℕ} (ht : addWsSignal s wsi = .ok t) :
    Recorded s t [] := by
  obtain ⟨_,-,ht⟩ := bind_eq_ok.mp ht
  cases ht
  exact (Recorded.refl s).congr rfl rfl rfl

lemma recorded_signalRound {s t : Server} {popped : ℕ → Option String} {link : ℕ}
    (ht : signalRound capacity popped s link = .ok t) : Recorded s t [] := by
  obtain ⟨node,-,ht⟩ := bind_eq_ok.mp ht
  split at ht
  · rename_i wsi reply _ _
    cases ht
    have hw : Recorded s (s.callbackOnWritable wsi) [] := (Recorded.refl s).congr rfl rfl rfl
    exact hw.trans (recorded_ringInsert _ _)
  · cases ht
    exact .refl s

lemma wsStep_recorded {s t : Server} {e : WsEvent} (ht : wsStep capacity s e = .ok t) :
    Recorded s t (writes s e) := by
  cases e with
  | receive wsi handled =>
    cases handled with
    | rejected =>
      cases ht
      exact .refl s
    | unanswered =>
      cases ht
      exact (Recorded.refl s).congr rfl rfl rfl
    | replied reply addMatch =>
      have hi : Recorded s (s.ringInsert capacity ⟨reply, wsi⟩) [] := recorded_ringInsert s _
      rw [wsStep] at ht
      split_ifs at ht
      · obtain ⟨s₁,h₁,ht⟩ := bind_eq_ok.mp ht
        cases ht
        exact (hi.trans (recorded_addWsSignal h₁)).congr rfl rfl rfl
      · cases ht
        exact hi.congr rfl rfl rfl
  | writeable wsi =>
    rw [wsStep] at ht
    rw [writes]
    split_ifs at ht ⊢
    · cases hring : s.ring with
      | nil =>
        simp only [hring] at ht
        cases ht
        exact (Recorded.refl s).congr rfl rfl hring.symm
      | cons rsp ring =>
        simp only [hring] at ht
        cases ht
        exact ⟨rfl,[],(List.append_nil _).symm,by simp [hring, Server.callbackOnWritable]⟩
    · cases ht
      exact .refl s
  | signals popped =>
    obtain ⟨order,-,ht⟩ := bind_eq_ok.mp ht
    exact perform_invariant (I := fun u => Recorded s u [])
      (fun _ _ _ hs he => hs.trans (recorded_signalRound he)) (.refl s) ht
  | closed wsi =>
    obtain ⟨_,-,ht⟩ := bind_eq_ok.mp ht
    cases ht
    exact (Recorded.refl s).congr rfl rfl rfl

lemma Server.Fifo.step {s t : Server} {e : WsEvent} (h : s.Fifo) (ht : wsStep capacity s e = .ok t) :
    t.Fifo := by
  obtain ⟨hw,new,hq,hr⟩ := wsStep_recorded ht
  unfold Server.Fifo at h ⊢
  rw [hq, h, List.append_assoc, hr, hw, List.map_append, List.append_assoc]

/-- Every text was written to the connection it was meant for. -/
def Server.Delivered (s : Server) : Prop := ∀ p ∈ s.written, p.2.owner = p.1

lemma Server.Fifo.delivered_iff {s : Server} (h : s.Fifo) :
    s.Delivered ↔ s.written.map Prod.fst <+: s.queued.map Element.owner := by
  have hsame : s.Delivered ↔ s.written.map Prod.fst = s.written.map fun p => p.2.owner := by
    rw [List.map_inj_left]
    exact forall₂_congr fun p _ => eq_comm
  have howners : s.queued.map Element.owner =
      (s.written.map fun p => p.2.owner) ++ s.ring.map Element.owner := by
    rw [h, List.map_append, List.map_map]
    rfl
  rw [hsame, howners]
  constructor
  · intro heq
    rw [heq]
    exact List.prefix_append _ _
  · intro hp
    have htake := List.prefix_iff_eq_take.mp hp
    rwa [List.take_append_of_le_length (by simp), List.take_of_length_le (by simp)] at htake

/-- A callback that will write comes on the connection the oldest text of the ring is meant for. -/
def OwnTurn (s : Server) (e : WsEvent) : Prop :=
  ∀ wsi rsp, e = .writeable wsi → wsi ∈ s.writable → s.ring.head? = some rsp → rsp.owner = wsi

lemma ownTurn_iff (s : Server) (e : WsEvent) : OwnTurn s e ↔ ∀ p ∈ writes s e, p.2.owner = p.1 := by
  cases e with
  | writeable wsi =>
    unfold OwnTurn writes
    by_cases hw : wsi ∈ s.writable
    · cases s.ring.head? <;> simp [hw]
    · refine iff_of_true ?_ (by simp [hw])
      rintro _ rsp ⟨⟩ hw'
      exact absurd hw' hw
  | _ => simp [OwnTurn, writes]

lemma delivered_step_iff {s t : Server} {e : WsEvent} (ht : wsStep capacity s e = .ok t) :
    t.Delivered ↔ s.Delivered ∧ OwnTurn s e := by
  rw [Server.Delivered, (wsStep_recorded ht).written, List.forall_mem_append, ownTurn_iff]
  rfl

lemma delivered_run_iff {s t : Server} {es : List WsEvent}
    (hr : perform (wsStep capacity) s es = .ok t) :
    t.Delivered ↔ s.Delivered ∧ Meets (wsStep capacity) OwnTurn s es := by
  induction es generalizing s with
  | nil =>
    obtain rfl := Except.ok.inj hr
    simp [Meets]
  | cons e es ih =>
    obtain ⟨s',he,hr⟩ := (perform_cons_eq_ok _).mp hr
    rw [ih hr, delivered_step_iff he, and_assoc]
    refine and_congr_right fun _ => and_congr_right fun _ => ?_
    constructor
    · intro h s'' he'
      rw [he] at he'
      exact Except.ok.inj he' ▸ h
    · exact fun h => h s' he

/-- In every run of websocket mode, each reply and each signal reaches its own connection exactly
when every callback that writes comes on the connection whose text is the oldest in the ring: the
callbacks come in the order in which the texts were queued. -/
theorem wsStep_delivered_iff {es : List WsEvent} {t : Server}
    (hr : perform (wsStep capacity) Server.start es = .ok t) :
    (t.Delivered ↔ Meets (wsStep capacity) OwnTurn Server.start es) ∧
    (t.Delivered ↔ t.written.map Prod.fst <+: t.queued.map Element.owner) := by
  have hstart : Server.start.Fifo := rfl
  have hf : t.Fifo := perform_invariant (fun _ _ _ hs he => Server.Fifo.step hs he) hstart hr
  refine ⟨?_,hf.delivered_iff⟩
  rw [delivered_run_iff hr]
  exact and_iff_right fun p hp => nomatch hp

end Replies

/-- Connection 1 subscribes, both get a reply, and a signal comes while the second one waits. -/
def orderlyEvents : List WsEvent :=
  [.receive 1 (.replied "a" true), .receive 2 (.replied "b" false), .writeable 1,
    .signals fun link => if link = 1 then some "s" else none, .writeable 2, .writeable 1]

theorem wsStep_delivered_iff_sample :
    ∃ t, perform (wsStep 64) Server.start orderlyEvents = .ok t ∧
      t.written = [(1, ⟨"a", 1⟩), (2, ⟨"b", 2⟩), (1, ⟨"s", 1⟩)] ∧ t.Delivered := by
  have hr : perform (wsStep 64) Server.start orderlyEvents = .ok _ := rfl
  refine ⟨_,hr,rfl,(wsStep_delivered_iff hr).2.mpr ?_⟩
  exact List.prefix_rfl

/-- Connection 2 gets the reply to connection 1. -/
theorem crossed_replies_not_delivered :
    ∃ t, perform (wsStep 64) Server.start [.receive 1 (.replied "a" false),
        .receive 2 (.replied "b" false), .writeable 2] = .ok t ∧ ¬ t.Delivered := by
  refine ⟨_,rfl,fun h => ?_⟩
  have := h (2, ⟨"a", 1⟩) List.mem_cons_self
  cases this

section Subscriptions
variable {capacity : ℕ}

/-- What the links of the list are for, in the list's order. -/
def contents (s : Dlinks) : Outcome (List DbusLink) := do
  let order ← visited s
  order.mapM fun link => do return (← s.heap.read (some link)).data

def DbusLink.isClient : DbusLink → Bool
  | server => false
  | client _ => true

/-- `signal_subscribers` is the number of client links. -/
def Server.Counted (s : Server) : Prop :=
  ∃ l, contents s.links = .ok l ∧ s.subscribers = l.countP DbusLink.isClient

/-- What an event may do to the list: closing a connection takes out its client links and no
others, and a subscription is taken while there are fewer than 16 client links. -/
def Kept (s t : Server) : WsEvent → Prop
  | .closed wsi => ∀ l, contents s.links = .ok l →
      contents t.links = .ok (l.filter (· ≠ .client wsi))
  | .receive wsi (.replied _ true) => ∀ l, contents s.links = .ok l →
      l.countP DbusLink.isClient < maxSignals → contents t.links = .ok (l ++ [.client wsi])
  | _ => contents t.links = contents s.links

/-- All along a run no step stops the broker, each does to the list what it may, and the counter is
right. -/
def Subscribed (capacity : ℕ) : Server → List WsEvent → Prop
  | _, [] => True
  | s, e :: es => ∃ t, wsStep capacity s e = .ok t ∧ Kept s t e ∧ t.Counted ∧ Subscribed capacity t es

/-- The list is sound, still has the server link, and is counted right. -/
structure Server.Intact (s : Server) (l : List DbusLink) : Prop where
  holds : ∃ order, s.links.Holds order ∧ order.map s.links.heap.dataOf = l.map some
  server : DbusLink.server ∈ l
  counted : s.subscribers = l.countP DbusLink.isClient

lemma mapM_read {heap : Heap DbusLink} {order : List ℕ} {l : List DbusLink}
    (hl : order.map heap.dataOf = l.map some) :
    order.mapM (fun link => do return (← heap.read (some link)).data) = (.ok l : Outcome _) := by
  induction order generalizing l with
  | nil =>
    obtain rfl : l = [] := by simpa using hl.symm
    rfl
  | cons a order ih =>
    cases l with
    | nil => simp at hl
    | cons d l =>
      obtain ⟨ha,hrest⟩ := List.cons.inj hl
      obtain ⟨node,hn,rfl⟩ := Option.map_eq_some_iff.mp ha
      simp only [List.mapM_cons, Heap.read_some hn, ok_bind, ih hrest]
      rfl

lemma contents_of_holds {s : Dlinks} {order : List ℕ} {l : List DbusLink} (h : s.Holds order)
    (hl : order.map s.heap.dataOf = l.map some) : contents s = .ok l := by
  rw [contents, h.visited_eq, ok_bind]
  exact mapM_read hl

@[simp] lemma ringInsert_links (s : Server) (e : Element) :
    (s.ringInsert capacity e).links = s.links := by
  unfold Server.ringInsert
  split_ifs <;> rfl

@[simp] lemma ringInsert_subscribers (s : Server) (e : Element) :
    (s.ringInsert capacity e).subscribers = s.subscribers := by
  unfold Server.ringInsert
  split_ifs <;> rfl

namespace Server.Intact
variable {s t : Server} {l : List DbusLink}

lemma contents_eq (h : s.Intact l) : contents s.links = .ok l := by
  obtain ⟨order,ho,hl⟩ := h.holds
  exact contents_of_holds ho hl

lemma congr (h : s.Intact l) (hl : t.links = s.links) (hc : t.subscribers = s.subscribers) :
    t.Intact l where
  holds := hl ▸ h.holds
  server := h.server
  counted := hc ▸ h.counted

lemma addWsSignal (h : s.Intact l) (wsi : ℕ) :
    ∃ t, addWsSignal s wsi = .ok t ∧ t.Intact (l ++ [.client wsi]) := by
  obtain ⟨order,ho,hl⟩ := h.holds
  obtain ⟨links,hadd,hh,hnew,hold⟩ := ho.add (.client wsi)
  refine ⟨{ s with links, subscribers := s.subscribers + 1 },by simp [Broker.addWsSignal, hadd],
    ⟨order ++ [s.links.fresh],hh,?_⟩,by simp [h.server],?_⟩
  · have hsame : order.map links.heap.dataOf = order.map s.links.heap.dataOf :=
      List.map_congr_left hold
    simp [hsame, hl, hnew]
  · simp [h.counted, DbusLink.isClient]

/-- A round of signals leaves the list alone and does not stop. -/
lemma signals (h : s.Intact l) (popped : ℕ → Option String) :
    ∃ t, wsStep capacity s (.signals popped) = .ok t ∧ t.links = s.links ∧
      t.subscribers = s.subscribers := by
  obtain ⟨order,ho,-⟩ := h.holds
  have hround : ∀ (t : Server) (link : ℕ), t.links = s.links ∧ t.subscribers = s.subscribers →
      link ∈ order → ∃ t', signalRound capacity popped t link = .ok t' ∧
        t'.links = s.links ∧ t'.subscribers = s.subscribers := by
    rintro t link ⟨hlinks,hsub⟩ hlink
    obtain ⟨node,hn⟩ := ho.exists_node hlink
    rw [signalRound, hlinks, Heap.read_some hn, ok_bind]
    split
    · exact ⟨_,rfl,by simpa [Server.callbackOnWritable] using ⟨hlinks,hsub⟩⟩
    · exact ⟨t,rfl,hlinks,hsub⟩
  have hmeets : Meets (signalRound capacity popped) (fun _ link => link ∈ order) s order :=
    Meets.of_forall (fun _ ha => ha) s
  obtain ⟨t,ht,hlinks⟩ := hmeets.progress hround ⟨rfl,rfl⟩
  exact ⟨t,by rw [wsStep, ho.visited_eq]; exact ht,hlinks⟩

end Server.Intact

def WsEvent.isClosed : WsEvent → Bool
  | closed _ => true
  | _ => false

/-- Every event but a closing keeps the list as it should. -/
lemma Server.Intact.step {s : Server} {l : List DbusLink} (h : s.Intact l) {e : WsEvent}
    (he : e.isClosed = false) :
    ∃ t l', wsStep capacity s e = .ok t ∧ Kept s t e ∧ t.Intact l' := by
  cases e with
  | receive wsi handled =>
    cases handled with
    | rejected => exact ⟨s,l,rfl,rfl,h⟩
    | unanswered => exact ⟨_,l,rfl,rfl,h.congr rfl rfl⟩
    | replied reply addMatch =>
      have hi : (s.ringInsert capacity ⟨reply, wsi⟩).Intact l := h.congr (by simp) (by simp)
      cases addMatch with
      | false =>
        refine ⟨(s.ringInsert capacity ⟨reply, wsi⟩).callbackOnWritable wsi,l,?_,?_,hi.congr rfl rfl⟩
        · rw [wsStep, if_neg (by simp)]
          rfl
        · simp [Kept, Server.callbackOnWritable]
      | true =>
        by_cases hlim : s.subscribers < maxSignals
        · obtain ⟨t,ht,htl⟩ := hi.addWsSignal wsi
          refine ⟨t.callbackOnWritable wsi,_,?_,?_,htl.congr rfl rfl⟩
          · rw [wsStep, if_pos (by simpa using hlim), ht]
            rfl
          · intro m hm _
            rw [h.contents_eq] at hm
            cases hm
            exact htl.contents_eq
        · refine ⟨(s.ringInsert capacity ⟨reply, wsi⟩).callbackOnWritable wsi,l,?_,?_,
            hi.congr rfl rfl⟩
          · rw [wsStep, if_neg (by simpa using hlim)]
            rfl
          · intro m hm hcount
            rw [h.contents_eq] at hm
            cases hm
            exact absurd (h.counted ▸ hcount) hlim
  | writeable wsi =>
    rw [wsStep]
    split_ifs
    · cases hring : s.ring with
      | nil => exact ⟨_,l,rfl,rfl,h.congr rfl rfl⟩
      | cons rsp ring => exact ⟨_,l,rfl,rfl,h.congr rfl rfl⟩
    · exact ⟨s,l,rfl,rfl,h⟩
  | signals popped =>
    obtain ⟨t,ht,hlinks,hsub⟩ := h.signals popped
    exact ⟨t,l,ht,congrArg contents hlinks,h.congr hlinks hsub⟩
  | closed wsi => cases he

/-- Closing a connection empties the list or stops the broker. -/
lemma wsStep_closed {s t : Server} {wsi : ℕ} (h : wsStep capacity s (.closed wsi) = .ok t) :
    contents t.links = .ok [] := by
  obtain ⟨⟨links,freed⟩,hf,ht⟩ := bind_eq_ok.mp h
  cases ht
  have hhead : links.head = none := by
    cases hs : s.links.head with
    | none =>
      rw [freeDlinks, hs] at hf
      cases hf
      exact hs
    | some head =>
      rw [freeDlinks, hs] at hf
      obtain ⟨node,-,hf⟩ := bind_eq_ok.mp hf
      obtain ⟨_,-,hf⟩ := bind_eq_ok.mp hf
      obtain ⟨_,-,hf⟩ := bind_eq_ok.mp hf
      cases hf
      rfl
  simp [contents, visited, hhead]

lemma Server.Intact.subscribed_iff {s : Server} {l : List DbusLink} (h : s.Intact l)
    (es : List WsEvent) : Subscribed capacity s es ↔ ∀ e ∈ es, e.isClosed = false := by
  induction es generalizing s l with
  | nil => simp [Subscribed]
  | cons e es ih =>
    rw [List.forall_mem_cons]
    constructor
    · rintro ⟨t,ht,hkept,-,hrest⟩
      cases he : e.isClosed with
      | true =>
        -- the server link is gone, and it should have stayed
        cases e with
        | closed wsi =>
          have hgone := hkept l h.contents_eq
          rw [wsStep_closed ht] at hgone
          have hmem : DbusLink.server ∈ l.filter (· ≠ .client wsi) :=
            List.mem_filter.mpr ⟨h.server,by simp⟩
          rw [← Except.ok.inj hgone] at hmem
          cases hmem
        | receive _ _ => cases he
        | writeable _ => cases he
        | signals _ => cases he
      | false =>
        obtain ⟨t',l',ht',-,hi⟩ := h.step he
        rw [ht] at ht'
        obtain rfl := Except.ok.inj ht'
        exact ⟨rfl,(ih hi).mp hrest⟩
    · rintro ⟨he,hes⟩
      obtain ⟨t,l',ht,hk,hi⟩ := h.step he
      exact ⟨t,ht,hk,⟨l',hi.contents_eq,hi.counted⟩,(ih hi).mpr hes⟩

lemma Server.start_intact : Server.start.Intact [.server] where
  holds := by
    refine ⟨[0],⟨rfl,by simp,fun a => ?_,by simp [Server.start],.inr ⟨0,rfl,rfl,rfl⟩⟩,rfl⟩
    by_cases ha : a = 0 <;> simp [Server.start, Heap.set, ha]
  server := by simp
  counted := rfl

/-- In websocket mode the links and their counter stay as they should in exactly those runs in which
no connection is ever closed. -/
theorem subscribed_iff_never_closed (capacity : ℕ) (es : List WsEvent) :
    Subscribed capacity Server.start es ↔ ∀ e ∈ es, e.isClosed = false :=
  Server.start_intact.subscribed_iff es

/-- Two clients subscribe and one leaves. -/
theorem closing_not_subscribed :
    ¬ Subscribed 64 Server.start [.receive 1 (.replied "a" true), .receive 2 (.replied "b" true),
      .closed 1] := by
  rintro ⟨t₁,h₁,-,-,t₂,h₂,-,-,t₃,h₃,hkept,-,-⟩
  obtain rfl := Except.ok.inj h₁
  obtain rfl := Except.ok.inj h₂
  obtain rfl := Except.ok.inj h₃
  have hlist := hkept [.server, .client 1, .client 2] rfl
  revert hlist
  decide

end Subscriptions

end Xctools.Broker
