import Mathlib.Algebra.BigOperators.Fin
import Xctools.Machine.BackLinks
import Xctools.Machine.Loop
import Xctools.Machine.Run

/-! The clients of a dmbus service, `dmbus.c`. They are kept in a list whose nodes are the first fields of the
clients; a client that leaves takes itself out of it. What goes to all of them goes along the list. -/
namespace Xctools.Dmbus
open Machine

section Code

/-- `struct dmbus_client` behind its link, as far as the service sets it when a client connects. -/
structure ClientData where
  fd : ℤ := 0
  domain : ℤ := 0
  devType : ℤ := 0
  deriving DecidableEq, Repr

/-- `client_list`, and the clients in memory. -/
abbrev Service := Headed ClientData

/-- `client_list_insert`. -/
def clientListInsert (s : Service) (c : ℕ) : Outcome Service := do
  let s ← s.modify c fun link => { link with next := s.first }
  let s ← s.modify c fun link => { link with pprev := some .head }
  let s ← s.setBack s.first (some (.next c))
  return { s with first := some c }

/-- `client_list_remove`. -/
def clientListRemove (s : Service) (c : ℕ) : Outcome Service := do
  let link ← s.read c
  let s ← s.setBack link.next link.pprev
  let link ← s.read c
  s.store link.pprev link.next

/-- What the calls of `dmbus_handle_connect` come to: memory, a connection, what the other end says it is, and the
answer of the service, if it has a handler. -/
structure Connecting where
  memory : Option ℕ
  fd : Option ℤ := none
  prologue : Option (ℤ × ℤ) := none
  connect : Option ℤ := none
  deriving DecidableEq, Repr

/-- `dmbus_handle_connect`. -/
def dmbusHandleConnect (s : Service) (k : Connecting) : Outcome Service :=
  match k.memory with
  | none => .ok s
  | some c =>
    let s := s.put c (some { data := {} })
    match k.fd with
    | none => s.release c
    | some fd => do
      let s ← s.modify c fun client => { client with data := { client.data with fd } }
      match k.prologue with
      | none => s.release c
      | some (domain, devType) =>
        let s ← s.modify c fun client => { client with data := { client.data with domain, devType } }
        if k.connect.getD 0 ≠ 0 then s.release c else clientListInsert s c

/-- `dmbus_client_disconnect`. -/
def dmbusClientDisconnect (s : Service) (c : ℕ) : Outcome Service := do (← clientListRemove s c).release c

/-- The header of a message, `msg_len` and `msg_type`. -/
def setHeader (msgtype : ℕ) (data : List UInt8) : List UInt8 :=
  let word (n : ℕ) : List UInt8 := [n, n / 256, n / 65536, n / 16777216].map UInt8.ofNat
  word data.length ++ word msgtype ++ data.drop 8

/-- The loop of `send_msg`, with what each `argo_send` returns: what the other end gets. -/
def sendLoop : List ℤ → List UInt8 → Outcome (List UInt8)
  | _, [] => .ok []
  | [], _ => .error .loop
  | rc :: answers, data =>
    if rc = -1 then .ok [] else do return data.take rc.toNat ++ (← sendLoop answers (data.drop rc.toNat))

/-- `send_msg`. -/
def sendMsg (answers : List ℤ) (msgtype : ℕ) (data : List UInt8) : Outcome (List UInt8) :=
  sendLoop answers (setHeader msgtype data)

/-- The loop of `broadcast_msg`: where it is, and what was sent to which descriptor. -/
structure Broadcast where
  node : Option ℕ
  sent : List (ℤ × List UInt8) := []
  deriving DecidableEq, Repr

def Broadcast.round (s : Service) (answers : ℕ → List ℤ) (msgtype : ℕ) (data : List UInt8) (b : Broadcast) :
    Outcome Broadcast :=
  match b.node with
  | none => .ok b
  | some c => do
    let node ← s.read c
    let bytes ← sendMsg (answers c) msgtype data
    return ⟨node.next, b.sent ++ [(node.data.fd, bytes)]⟩

/-- `broadcast_msg`, with so many rounds at most. -/
def broadcastMsg (n : ℕ) (s : Service) (answers : ℕ → List ℤ) (msgtype : ℕ) (data : List UInt8) :
    Outcome (List (ℤ × List UInt8)) := do
  return (← loop (Broadcast.round s answers msgtype data) (fun b => b.node.isNone) n ⟨s.first,[]⟩).sent

/-- A client connects, or one that is connected leaves. -/
inductive ClientEvent
  | connect (k : Connecting)
  | disconnect (c : ℕ)
  deriving DecidableEq, Repr

def actClients (s : Service) : ClientEvent → Outcome Service
  | .connect k => dmbusHandleConnect s k
  | .disconnect c => dmbusClientDisconnect s c

end Code

section Purpose

/-- The clients that are connected, the last one first. -/
abbrev Clients := List (ℕ × ClientData)

/-- The client that comes of an attempt to connect. -/
def Connecting.client (k : Connecting) : Option (ℕ × ClientData) :=
  match k.memory, k.fd, k.prologue with
  | some c, some fd, some (domain, devType) =>
    if k.connect.getD 0 ≠ 0 then none else some (c, ⟨fd, domain, devType⟩)
  | _, _, _ => none

def connectedStep (l : Clients) : ClientEvent → Outcome Clients
  | .connect k => .ok (k.client.toList ++ l)
  | .disconnect c => .ok (l.eraseP fun x => x.1 = c)

/-- Memory is not in use when it is given out, and only connected clients leave. -/
def Orderly (l : Clients) : ClientEvent → Prop
  | .connect k => ∀ c ∈ k.memory, c ∉ l.map Prod.fst
  | .disconnect c => c ∈ l.map Prod.fst

instance (l : Clients) (e : ClientEvent) : Decidable (Orderly l e) :=
  match e with
  | .connect k => inferInstanceAs (Decidable (∀ c ∈ k.memory, c ∉ l.map Prod.fst))
  | .disconnect c => inferInstanceAs (Decidable (c ∈ l.map Prod.fst))

/-- The list of the service is that of the connected clients, and there is nothing else in memory. -/
structure Keeps (l : Clients) (s : Service) : Prop where
  lists : s.Lists l
  memory : ∀ c, (s.cells c).isSome ↔ c ∈ l.map Prod.fst

end Purpose

section Steps
variable {s s' : Service} {l l' : Clients} {c : ℕ} {d : ClientData} {x : Cell ClientData}

/-- A client in memory that is not in the list is put in front of it. -/
lemma clientListInsert_ok (h : Keeps l s) (hc : c ∉ l.map Prod.fst) (hx : x.data = d) :
    ∃ s', clientListInsert (s.put c (some x)) c = .ok s' ∧ Keeps ((c,d) :: l) s' := by
  obtain ⟨⟨hchain,hnodup⟩,hmemory⟩ := h
  let cells := Function.update (relinked s.cells s.first (.next c)) c (some ⟨s.first,some .head,d⟩)
  have hrelinked : ∀ y ∈ l, cells y.1 = relinked s.cells s.first (.next c) y.1 := by
    intro y hy
    refine Function.update_of_ne (fun heq => hc ?_) ..
    rw [← heq]
    exact List.mem_map_of_mem hy
  refine ⟨⟨some c,cells⟩,?_,⟨⟨?_,List.nodup_cons.mpr ⟨hc,hnodup⟩⟩,?_⟩⟩
  · rw [clientListInsert, Headed.modify_some (Headed.cells_put_self ..), ok_bind, Headed.put_put,
      Headed.modify_some (Headed.cells_put_self ..), ok_bind, Headed.put_put]
    have hfirst : s.first ≠ some c := by
      rw [hchain.front]
      exact fun heq => hc (List.mem_of_mem_head? heq)
    have hthere : ∀ x, ∀ a ∈ s.first, ((s.put c (some x)).cells a).isSome := by
      intro x a ha
      have hmem : a ∈ l.map Prod.fst := List.mem_of_mem_head? (hchain.front ▸ ha)
      have hne : a ≠ c := fun heq => hc (heq ▸ hmem)
      rw [Headed.cells_put_of_ne hne]
      exact (hmemory a).mpr hmem
    change ((s.put c (some ⟨s.first,some .head,x.data⟩)).setBack s.first (some (.next c)) >>= fun s =>
      pure { s with first := some c }) = _
    rw [Headed.setBack_eq (hthere _), ok_bind, Headed.put]
    dsimp only
    rw [relinked_update hfirst, hx]
    rfl
  · exact ⟨rfl,⟨s.first,some .head,d⟩,Function.update_self ..,rfl,rfl,(hchain.relinked hnodup _).congr hrelinked⟩
  · intro b
    by_cases hb : b = c
    · simp [cells, hb]
    · simp [cells, hb, isSome_relinked, hmemory]

/-- A client in the list is taken out of it. -/
lemma clientListRemove_ok {l₁ l₂ : Clients} (h : Keeps (l₁ ++ (c,d) :: l₂) s) :
    ∃ s', clientListRemove s c = .ok s' ∧ s'.Lists (l₁ ++ l₂) ∧
      ∀ b, (s'.cells b).isSome = (s.cells b).isSome := by
  obtain ⟨hother,hnodup⟩ := h.lists.parts
  obtain ⟨x,hx,-⟩ := h.lists.1.exists_cell (List.mem_append_right l₁ List.mem_cons_self)
  obtain ⟨⟨link,hlink,hhead,hbefore⟩,hbehind⟩ := h.lists.exists_back hx
  rw [List.map_append, List.mem_append, not_or] at hother
  have hself : x.next ≠ some c := fun heq => hother.2 (hbehind c heq)
  have hnext : ∀ a ∈ x.next, (s.cells a).isSome := by
    intro a ha
    rw [h.memory, List.map_append, List.map_cons]
    exact List.mem_append_right _ (List.mem_cons_of_mem _ (hbehind a ha))
  have hprev : ∀ a, link = .next a → (s.cells a).isSome := by
    intro a ha
    rw [h.memory, List.map_append]
    exact List.mem_append_left _ (hbefore a ha)
  refine ⟨⟨if link = .head then x.next else s.first,unlinked s.cells x⟩,?_,⟨?_,hnodup⟩,
    fun b => isSome_unlinked b⟩
  · have hread : (relinked s.cells x.next link) c = some x := by rw [relinked, if_neg hself, hx]
    rw [clientListRemove, Headed.read_some hx, ok_bind, hlink, Headed.setBack_eq hnext, ok_bind,
      Headed.read_some hread, ok_bind, hlink]
    exact Headed.store_relinked hlink hprev
  · rw [if_congr hhead rfl rfl]
    exact h.lists.1.unlinked hx h.lists.2 fun _ _ heq => Link.noConfusion heq

/-- A client connects, or does not and leaves nothing behind. -/
lemma dmbusHandleConnect_ok (h : Keeps l s) {k : Connecting} (hk : Orderly l (.connect k)) :
    ∃ s', dmbusHandleConnect s k = .ok s' ∧ Keeps (k.client.toList ++ l) s' := by
  obtain ⟨memory,fd,prologue,connect⟩ := k
  cases memory with
  | none => exact ⟨s,rfl,h⟩
  | some c =>
    have hc : c ∉ l.map Prod.fst := hk c rfl
    have hfresh : s.cells c = none := by
      rw [← Option.not_isSome_iff_eq_none, h.memory]
      exact hc
    have hgiven : ∀ x, (s.put c (some x)).release c = .ok s := by
      intro x
      rw [Headed.release_some (Headed.cells_put_self ..), Headed.put_put, Headed.put_none_of_fresh hfresh]
    cases fd with
    | none => exact ⟨s,hgiven _,h⟩
    | some fd =>
      rw [dmbusHandleConnect]
      dsimp only
      rw [Headed.modify_some (Headed.cells_put_self ..), ok_bind, Headed.put_put]
      cases prologue with
      | none => exact ⟨s,hgiven _,h⟩
      | some prologue =>
        obtain ⟨domain,devType⟩ := prologue
        dsimp only
        rw [Headed.modify_some (Headed.cells_put_self ..), ok_bind, Headed.put_put]
        by_cases hconnect : connect.getD 0 ≠ 0
        · rw [if_pos hconnect, Connecting.client]
          dsimp only
          rw [if_pos hconnect]
          exact ⟨s,hgiven _,h⟩
        · rw [if_neg hconnect, Connecting.client]
          dsimp only
          rw [if_neg hconnect]
          exact clientListInsert_ok h hc rfl

/-- A connected client leaves. -/
lemma dmbusClientDisconnect_ok (h : Keeps l s) (hc : c ∈ l.map Prod.fst) :
    ∃ s', dmbusClientDisconnect s c = .ok s' ∧ Keeps (l.eraseP fun x => x.1 = c) s' := by
  obtain ⟨y,hy,rfl⟩ := List.mem_map.mp hc
  obtain ⟨⟨c,d⟩,l₁,l₂,-,hfound,rfl,herase⟩ := List.exists_of_eraseP hy (p := fun x => x.1 = y.1) (by simp)
  obtain rfl : c = y.1 := of_decide_eq_true hfound
  obtain ⟨hother,hnodup⟩ := h.lists.parts
  obtain ⟨s₁,hremove,hlists,hsome⟩ := clientListRemove_ok h
  have hthere : (s₁.cells y.1).isSome := by
    rw [hsome, h.memory]
    exact hc
  obtain ⟨x,hx⟩ := Option.isSome_iff_exists.mp hthere
  refine ⟨s₁.put y.1 none,?_,?_⟩
  · rw [dmbusClientDisconnect, hremove, ok_bind, Headed.release_some hx]
  · rw [herase]
    refine ⟨⟨hlists.1.congr fun z hz => Headed.cells_put_of_ne (fun heq => hother ?_) none,hnodup⟩,fun b => ?_⟩
    · rw [← heq]
      exact List.mem_map_of_mem hz
    · by_cases hb : b = y.1
      · rw [hb, Headed.cells_put_self]
        exact iff_of_false nofun hother
      · rw [Headed.cells_put_of_ne hb, hsome, h.memory]
        simp [hb]

/-- What the service does is what its list is for. -/
lemma actClients_ok {e : ClientEvent} (h : Keeps l s) (he : Orderly l e) (hl : connectedStep l e = .ok l') :
    ∃ s', actClients s e = .ok s' ∧ Keeps l' s' := by
  cases e with
  | connect k =>
    obtain rfl := Except.ok.inj hl
    exact dmbusHandleConnect_ok h he
  | disconnect c =>
    obtain rfl := Except.ok.inj hl
    exact dmbusClientDisconnect_ok h he

/-- A broadcast goes from client to client. -/
lemma loop_broadcast {answers : ℕ → List ℤ} {msgtype : ℕ} {data : List UInt8} {link : Link} {p : Option ℕ}
    (h : Chain s.cells link p l) {n : ℕ} (hn : l.length ≤ n) (sent : List (ℤ × List UInt8)) :
    loop (Broadcast.round s answers msgtype data) (fun b => b.node.isNone) n ⟨p,sent⟩ =
      (l.mapM fun x => do return (x.2.fd,← sendMsg (answers x.1) msgtype data)) >>= fun xs =>
        .ok ⟨none,sent ++ xs⟩ := by
  induction l generalizing link p n sent with
  | nil =>
    obtain rfl : p = none := h
    rw [loop_of_done rfl]
    simp
  | cons x l ih =>
    obtain ⟨c,d⟩ := x
    obtain ⟨rfl,node,hnode,-,rfl,hrest⟩ := h
    cases n with
    | zero => exact absurd hn (Nat.not_succ_le_zero _)
    | succ n =>
      rw [loop_succ_of_not_done rfl, Broadcast.round]
      dsimp only
      rw [Headed.read_some hnode, ok_bind, List.mapM_cons]
      cases hsend : sendMsg (answers c) msgtype data with
      | error e => rfl
      | ok bytes =>
        simp only [ok_bind, pure_eq_ok]
        rw [ih hrest (Nat.le_of_succ_le_succ hn)]
        simp only [pure_eq_ok, bind_assoc, ok_bind, List.append_assoc, List.singleton_append]

end Steps

section Runs

/-- A message whose bytes are all taken is there once. -/
lemma sendLoop_whole (taken : List ℕ) {data : List UInt8} (h : taken.sum = data.length) :
    sendLoop (taken.map (fun k : ℕ => (k : ℤ))) data = .ok data := by
  induction taken generalizing data with
  | nil =>
    obtain rfl := List.length_eq_zero_iff.mp h.symm
    rfl
  | cons n taken ih =>
    cases data with
    | nil => rfl
    | cons b data =>
      have hrest : taken.sum = ((b :: data).drop n).length := by
        rw [List.length_drop, ← h, List.sum_cons, Nat.add_sub_cancel_left]
      have hnot : ¬ (n : ℤ) = -1 := nofun
      rw [List.map_cons, sendLoop, if_neg hnot, Int.toNat_natCast, ih hrest, ok_bind, List.take_append_drop]
      · rfl
      · exact nofun

/-- Whoever comes and goes, the list of the service is that of the connected clients, the last one first and each
once, every node points back to the link that leads to it, and a broadcast sends the message to each of them in
turn; whoever takes all the bytes has it once. -/
theorem clients_listed {es : List ClientEvent} (h : Meets connectedStep Orderly [] es) :
    ∃ l s, perform connectedStep [] es = .ok l ∧ perform actClients {} es = .ok s ∧ s.Lists l ∧
      (∀ c, (s.cells c).isSome ↔ c ∈ l.map Prod.fst) ∧
      (∀ x ∈ l, ∃ node, s.cells x.1 = some node ∧ node.data = x.2 ∧
        ∃ link, node.pprev = some link ∧ s.load link = some x.1) ∧
      ∀ n, l.length ≤ n → ∀ answers msgtype data,
        broadcastMsg n s answers msgtype data =
          (l.mapM fun x => do return (x.2.fd,← sendMsg (answers x.1) msgtype data)) ∧
        ((∀ x ∈ l, ∃ taken : List ℕ, answers x.1 = taken.map (fun k : ℕ => (k : ℤ)) ∧
          taken.sum = (setHeader msgtype data).length) →
          broadcastMsg n s answers msgtype data = .ok (l.map fun x => (x.2.fd,setHeader msgtype data))) := by
  have hempty : Keeps [] ({} : Service) := ⟨⟨rfl,List.nodup_nil⟩,fun c => by simp⟩
  have hreturns : ∃ l, perform connectedStep [] es = .ok l ∧ True := by
    refine h.progress (fun l e _ _ => ?_) trivial
    cases e with
    | connect k => exact ⟨_,rfl,trivial⟩
    | disconnect c => exact ⟨_,rfl,trivial⟩
  obtain ⟨l,hl,-⟩ := hreturns
  have hstep : ∀ l s e l', Keeps l s → Orderly l e → connectedStep l e = .ok l' →
      ∃ s', actClients s e = .ok s' ∧ Keeps l' s' := fun _ _ _ _ => actClients_ok
  obtain ⟨s,hs,hkeeps⟩ := h.simulation hstep hempty hl
  have hchain := hkeeps.lists.1
  refine ⟨l,s,hl,hs,hkeeps.lists,hkeeps.memory,fun x hx => Headed.exists_link hchain rfl hx,?_⟩
  intro n hn answers msgtype data
  have hsent : broadcastMsg n s answers msgtype data =
      l.mapM fun x => do return (x.2.fd,← sendMsg (answers x.1) msgtype data) := by
    rw [broadcastMsg, loop_broadcast hchain hn, bind_assoc]
    exact bind_pure _
  refine ⟨hsent,fun htaken => hsent.trans (mapM_eq_ok fun x hx => ?_)⟩
  obtain ⟨taken,hanswers,hsum⟩ := htaken x hx
  rw [sendMsg, hanswers, sendLoop_whole taken hsum]
  rfl

/-- Three clients connect, the second one leaves, and one that is refused and one that is not get its memory. -/
theorem clients_listed_five :
    ∃ s, perform actClients {} [.connect ⟨some 16,some 3,some (1,0),none⟩,
        .connect ⟨some 32,some 4,some (2,0),some 0⟩, .connect ⟨some 48,some 5,some (3,0),none⟩, .disconnect 32,
        .connect ⟨some 32,some 6,some (4,0),some (-1)⟩, .connect ⟨some 32,some 6,some (5,0),none⟩] = .ok s ∧
      s.Lists [(32,⟨6,5,0⟩), (48,⟨5,3,0⟩), (16,⟨3,1,0⟩)] := by
  obtain ⟨l,s,hl,hs,hlists,-⟩ := @clients_listed [.connect ⟨some 16,some 3,some (1,0),none⟩,
    .connect ⟨some 32,some 4,some (2,0),some 0⟩, .connect ⟨some 48,some 5,some (3,0),none⟩, .disconnect 32,
    .connect ⟨some 32,some 6,some (4,0),some (-1)⟩, .connect ⟨some 32,some 6,some (5,0),none⟩] (by decide)
  obtain rfl := Except.ok.inj hl
  exact ⟨s,hs,hlists⟩

end Runs

end Xctools.Dmbus
