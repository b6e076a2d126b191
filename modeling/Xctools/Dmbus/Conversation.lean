import Xctools.Dmbus.ClientList
import Xctools.Dmbus.Reassembly

/-! A whole conversation with a device model, `dmbus.c`: the prologue it connects with, its messages, and what it is
answered, through sockets that give and take the bytes as they like. -/
namespace Xctools.Dmbus
open Machine

section Code

/-- `sizeof (struct dmbus_conn_prologue)`. -/
def prologueLen : ℕ := 28

/-- The loop of `recv_prologue`. In each round `select` and `argo_recv` come back with some bytes, or one of them
fails, or the time is up. -/
def recvPrologue : List (Option (List UInt8)) → List UInt8 → Outcome (Option (List UInt8))
  | rs, p =>
    if p.length = prologueLen then .ok (some p)
    else match rs with
      | [] => .error .loop
      | none :: _ => .ok none
      | some chunk :: rs =>
        if chunk = [] then .ok none
        else if p.length + chunk.length ≤ prologueLen then recvPrologue rs (p ++ chunk)
        else .error .bounds

/-- A call of `send_msg`: what the memory of the message holds before, and what each `argo_send` returns. -/
structure Sending where
  memory : ℕ → UInt8
  answers : List ℤ

/-- A message of so many bytes, as it is in memory. -/
def Sending.message (w : Sending) (size : ℕ) : List UInt8 := (List.range size).map w.memory

/-- `sizeof` of the message that is a reply, `display_info` or `empty_reply`. -/
def replySize (id : ℕ) : ℕ := if id = 2 then 19 else 12

/-- `out.hdr.return_value = ret`. -/
def setReturn (ret : ℕ) (data : List UInt8) : List UInt8 :=
  data.take 8 ++ [ret, ret / 256, ret / 65536, ret / 16777216].map UInt8.ofNat ++ data.drop 12

/-- What a reply is before it is sent. -/
def Sending.reply (w : Sending) (r : ℕ × ℕ) : List UInt8 := setReturn r.2 (w.message (replySize r.1))

/-- What the other end gets of the reply to a message. -/
def sendReply (w : Sending) (d : Dispatch) : Outcome (List UInt8) :=
  match d.reply with
  | none => .ok []
  | some r => sendMsg w.answers r.1 (w.reply r)

/-- A client with all that was sent to it. -/
structure Conversation extends Session where
  domain : ℕ
  devType : ℕ
  sent : List UInt8

/-- `dmbus_handle_connect` from the prologue on, for a service whose `connect` comes back with `rc`. -/
def greet (rs : List (Option (List UInt8))) (rc : ℤ) (w : Sending) : Outcome (Option Conversation) := do
  match ← recvPrologue rs [] with
  | none => return none
  | some p =>
    if rc ≠ 0 then return none
    else return some ⟨Session.start,word p 0,word p 1,← sendMsg w.answers 23 (w.message hdrLen)⟩

variable (ops : RpcOps) (ws : ℕ → Sending)

/-- One round of the loop of `dmbus_handle_events`, with the reply. -/
def Conversation.ship (c : Conversation) : Outcome Conversation := do
  let sent ← sendReply (ws c.dispatched.length) (dispatch ops c.client.buff)
  return { c with toSession := ← shipMessage ops c.toSession, sent := c.sent ++ sent }

/-- `dmbus_handle_events`, with the replies. -/
def converse (c : Option Conversation) (r : Recv) : Outcome (Option Conversation) :=
  match c, r with
  | none, _ => .error .wild
  | some _, .closed => .ok none
  | some c, .again => .ok (some c)
  | some c, .data chunk =>
    if h : chunk.length ≤ c.client.room then do
      let client := c.client.received chunk h
      return some (← loop (Conversation.ship ops ws) (fun c => !c.client.complete) client.len
        { c with toSession := ⟨client,c.dispatched⟩ })
    else .error .bounds

end Code

section Sends
variable {answers : List ℤ} {data sent : List UInt8} {n id : ℕ} {w : Sending}

/-- The other end takes so many bytes, or goes. -/
def Settles (answers : List ℤ) (size : ℕ) : Prop := -1 ∈ answers ∨ size ≤ (answers.map Int.toNat).sum

/-- A message that was sent is there whole, or cut off where a send has failed. -/
def Arrives (sent : List UInt8) (m : List ℤ × List UInt8) : Prop := sent <+: m.2 ∧ (-1 ∉ m.1 → sent = m.2)

lemma sendLoop_ends (h : Settles answers data.length) :
    ∃ sent, sendLoop answers data = .ok sent ∧ Arrives sent (answers,data) := by
  induction answers generalizing data with
  | nil =>
    have hlen : data.length = 0 := by simpa [Settles] using h
    obtain rfl := List.length_eq_zero_iff.mp hlen
    exact ⟨[],rfl,List.nil_prefix,fun _ => rfl⟩
  | cons rc answers ih =>
    cases data with
    | nil => exact ⟨[],rfl,List.nil_prefix,fun _ => rfl⟩
    | cons b data =>
      by_cases hrc : rc = -1
      · refine ⟨[],by rw [sendLoop,if_pos hrc]; simp,List.nil_prefix,fun hnot => ?_⟩
        exact absurd (List.mem_cons.mpr (.inl hrc.symm)) hnot
      · have hrest : Settles answers ((b :: data).drop rc.toNat).length := by
          refine h.imp (fun hmem => ?_) fun hle => ?_
          · exact (List.mem_cons.mp hmem).resolve_left (Ne.symm hrc)
          · rw [List.map_cons, List.sum_cons] at hle
            rw [List.length_drop]
            omega
        obtain ⟨sent,hsent,hbegin,hwhole⟩ := ih hrest
        refine ⟨(b :: data).take rc.toNat ++ sent,?_,?_,fun hnot => ?_⟩
        · rw [sendLoop, if_neg hrc, hsent]
          · rfl
          · simp
        · conv_rhs => rw [← List.take_append_drop rc.toNat (b :: data)]
          exact (List.prefix_append_right_inj _).mpr hbegin
        · rw [hwhole fun hmem => hnot (List.mem_cons_of_mem _ hmem), List.take_append_drop]

lemma toNat_bytes (hn : n < 2 ^ 32) (rest : List UInt8) :
    (([n, n / 256, n / 65536, n / 16777216].map UInt8.ofNat ++ rest).take 4).foldr (fun b n => b.toNat + 256 * n) 0 = n := by
  simp only [List.map_cons, List.map_nil, List.cons_append, List.nil_append, List.take_succ_cons, List.take_zero,
    List.foldr_cons, List.foldr_nil, UInt8.toNat_ofNat']
  omega

@[simp] lemma length_setHeader (h : 8 ≤ data.length) : (setHeader id data).length = data.length := by
  simp only [setHeader, List.map_cons, List.map_nil, List.length_append, List.length_cons, List.length_nil,
    List.length_drop]
  omega

@[simp] lemma length_setReturn {ret : ℕ} (h : 12 ≤ data.length) : (setReturn ret data).length = data.length := by
  simp only [setReturn, List.map_cons, List.map_nil, List.length_append, List.length_cons, List.length_nil,
    List.length_drop, List.length_take]
  omega

@[simp] lemma length_message (size : ℕ) : (w.message size).length = size := by simp [Sending.message]

lemma length_reply (r : ℕ × ℕ) : (w.reply r).length = replySize r.1 := by
  have hsize : 12 ≤ replySize r.1 := by
    unfold replySize
    split <;> omega
  rw [Sending.reply, length_setReturn (by simpa using hsize), length_message]

/-- What `send_msg` sends says how long it is. -/
lemma wellformed_setHeader (hlow : hdrLen ≤ data.length) (hhigh : data.length ≤ maxMsgLen) : Wellformed (setHeader id data) := by
  have hlen : (setHeader id data).length = data.length := length_setHeader (by unfold hdrLen at hlow; omega)
  refine ⟨?_,by rwa [hlen],by rwa [hlen]⟩
  rw [hlen]
  unfold msgLen word setHeader
  rw [Nat.mul_zero, List.drop_zero, List.append_assoc]
  refine toNat_bytes ?_ _
  unfold maxMsgLen at hhigh
  omega

end Sends

section Answers
variable {ops : RpcOps} {ws : ℕ → Sending} {s s' : Session} {c : Conversation} {events : List Recv} {r : Recv}
  {ms : List (List UInt8)} {c₀ : Conversation} {w : Sending} {chunks : List (List UInt8)} {p : List UInt8}

/-- The replies to the messages that were dispatched, each with what its sends return. -/
def replies (ws : ℕ → Sending) (ds : List Dispatch) : List (List ℤ × List UInt8) :=
  ds.zipIdx.flatMap fun d => d.1.reply.toList.map fun r => ((ws d.2).answers,setHeader r.1 ((ws d.2).reply r))

lemma replies_append (ds : List Dispatch) (d : Dispatch) : replies ws (ds ++ [d]) =
    replies ws ds ++ d.reply.toList.map fun r => ((ws ds.length).answers,setHeader r.1 ((ws ds.length).reply r)) := by
  simp [replies, List.zipIdx_append]

/-- The service has answered to what it has dispatched since the conversation was `c₀`. -/
structure Answering (ws : ℕ → Sending) (c₀ : Conversation) (s : Session) (c : Conversation) : Prop where
  session : c.toSession = s
  peer : c.domain = c₀.domain ∧ c.devType = c₀.devType
  sent : ∃ pieces, c.sent = c₀.sent ++ pieces.flatten ∧ List.Forall₂ Arrives pieces (replies ws s.dispatched)

lemma sendReply_ends {d : Dispatch} (h : Settles w.answers 19) : ∃ pieces, sendReply w d = .ok pieces.flatten ∧
    List.Forall₂ Arrives pieces (d.reply.toList.map fun r => (w.answers,setHeader r.1 (w.reply r))) := by
  cases hd : d.reply with
  | none => exact ⟨[],by simp [sendReply,hd],.nil⟩
  | some r =>
    have hsize : replySize r.1 ≤ 19 := by
      unfold replySize
      split <;> omega
    have hlow : 8 ≤ replySize r.1 := by
      unfold replySize
      split <;> omega
    have hsettles : Settles w.answers (setHeader r.1 (w.reply r)).length := by
      rw [length_setHeader (by rwa [length_reply]), length_reply]
      exact h.imp_right hsize.trans
    obtain ⟨sent,hsent,harrives⟩ := sendLoop_ends hsettles
    exact ⟨[sent],by rw [sendReply, hd]; simpa [sendMsg] using hsent,.cons harrives .nil⟩

lemma Answering.ship (h : Answering ws c₀ s c) (hsends : ∀ n, Settles (ws n).answers 19)
    (hs : shipMessage ops s = .ok s') : ∃ c', c.ship ops ws = .ok c' ∧ Answering ws c₀ s' c' := by
  obtain ⟨rfl,hpeer,pieces,hsent,hpieces⟩ := h
  obtain ⟨more,hok,hmore⟩ := @sendReply_ends (ws c.dispatched.length)
    (dispatch ops c.client.buff) (hsends _)
  refine ⟨{ c with toSession := s', sent := c.sent ++ more.flatten },?_,rfl,hpeer,pieces ++ more,?_,?_⟩
  · rw [Conversation.ship, hok, ok_bind, hs, ok_bind]
    rfl
  · dsimp only
    rw [hsent, List.append_assoc, List.flatten_append]
  · obtain rfl := Except.ok.inj hs
    rw [replies_append]
    exact List.rel_append hpieces hmore

/-- The messages are dispatched as they are without replies. -/
lemma Answering.handleEvents {s s' : Option Session} {c : Option Conversation} (h : Option.Rel (Answering ws c₀) s c)
    (hsends : ∀ n, Settles (ws n).answers 19) (hs : handleEvents ops s r = .ok s') :
    ∃ c', converse ops ws c r = .ok c' ∧ Option.Rel (Answering ws c₀) s' c' := by
  cases h with
  | none => cases hs
  | @some s c h =>
    cases r with
    | closed =>
      obtain rfl := Except.ok.inj hs
      exact ⟨none,rfl,.none⟩
    | again =>
      obtain rfl := Except.ok.inj hs
      exact ⟨some c,rfl,.some h⟩
    | data chunk =>
      obtain ⟨rfl,hpeer,hsent⟩ := h
      simp only [Dmbus.handleEvents] at hs
      split_ifs at hs with hroom
      obtain ⟨t,ht,heq⟩ := bind_eq_ok.mp hs
      obtain rfl := Except.ok.inj heq
      have hstart : Answering ws c₀ ⟨c.client.received chunk hroom,c.dispatched⟩
          { c with toSession := ⟨c.client.received chunk hroom,c.dispatched⟩ } := ⟨rfl,hpeer,hsent⟩
      obtain ⟨c',hc',hanswer⟩ := loop_simulation (fun s c hR => by rw [← hR.session])
        (fun _ _ _ hR _ hs => hR.ship hsends hs) hstart ht
      refine ⟨some c',?_,.some hanswer⟩
      simp only [converse, dif_pos hroom, hc', ok_bind]
      rfl

/-- However the prologue comes in, it is read as far as it goes, and no further. -/
lemma recvPrologue_whole (hchunks : ∀ c ∈ chunks, c ≠ []) (hlen : p.length + chunks.flatten.length = prologueLen) :
    recvPrologue (chunks.map some) p = .ok (some (p ++ chunks.flatten)) := by
  induction chunks generalizing p with
  | nil =>
    rw [List.map_nil, recvPrologue, if_pos (by simpa using hlen), List.flatten_nil, List.append_nil]
  | cons c chunks ih =>
    obtain ⟨hc,hchunks⟩ := List.forall_mem_cons.mp hchunks
    have hpos := List.length_pos_iff.mpr hc
    rw [List.flatten_cons, List.length_append] at hlen
    have hnot : p.length ≠ prologueLen := by omega
    have hfits : p.length + c.length ≤ prologueLen := by omega
    rw [List.map_cons, recvPrologue, if_neg hnot, if_neg hc, if_pos hfits, ih hchunks (by rw [List.length_append]; omega), List.flatten_cons, List.append_assoc]

lemma wellformed_replies {ds : List Dispatch} {m : List ℤ × List UInt8} (hm : m ∈ replies ws ds) : Wellformed m.2 := by
  obtain ⟨d,-,hm⟩ := List.mem_flatMap.mp hm
  obtain ⟨r,-,rfl⟩ := List.mem_map.mp hm
  apply wellformed_setHeader
  · rw [length_reply]
    unfold hdrLen replySize
    split <;> omega
  · rw [length_reply]
    unfold maxMsgLen replySize
    split <;> omega

lemma word_eq {m : List UInt8} {i n : ℕ} {rest : List UInt8} (hn : n < 2 ^ 32)
    (h : m.drop (4 * i) = [n, n / 256, n / 65536, n / 16777216].map UInt8.ofNat ++ rest) : word m i = n := by
  rw [word, h, toNat_bytes hn]

/-- A reply says what it replies to, and what the handler came back with. -/
lemma reply_carries {r : ℕ × ℕ} (hid : r.1 < 2 ^ 32) (hret : r.2 < 2 ^ 32) :
    msgType (setHeader r.1 (w.reply r)) = r.1 ∧ word (setHeader r.1 (w.reply r)) 2 = r.2 := by
  have hsize : 8 ≤ (w.message (replySize r.1)).length := by
    rw [length_message]
    unfold replySize
    split <;> omega
  refine ⟨word_eq hid rfl,?_⟩
  have hbehind : (setHeader r.1 (w.reply r)).drop 8 = (w.reply r).drop 8 := rfl
  have hfront : ((w.message (replySize r.1)).take 8).length = 8 := by
    rw [List.length_take, Nat.min_eq_left hsize]
  apply word_eq hret
  rw [hbehind, Sending.reply, setReturn, List.append_assoc, List.drop_left' hfront]

lemma reply_bounds {m : List UInt8} {r : ℕ × ℕ} (h : (dispatch ops m).reply = some r) : r.1 < 2 ^ 32 ∧ r.2 < 2 ^ 32 := by
  obtain ⟨rpc,-,h⟩ := Option.bind_eq_some_iff.mp h
  obtain ⟨id,hid,rfl⟩ := Option.map_eq_some_iff.mp h
  unfold RpcOps.ret
  have hbound : id < 2 ^ 32 := by
    cases rpc <;> simp only [InRpc.reply, Option.some.injEq, reduceCtorEq] at hid <;> omega
  refine ⟨hbound,?_⟩
  dsimp only
  omega

lemma replies_say (ms : List (List UInt8)) : (replies ws (ms.map (dispatch ops))).map (fun m => (msgType m.2,word m.2 2)) =
    (ms.map (dispatch ops)).filterMap Dispatch.reply := by
  induction ms using List.reverseRecOn with
  | nil => rfl
  | append_singleton ms m ih =>
    rw [List.map_append, List.map_singleton, replies_append, List.map_append, ih, List.filterMap_append]
    cases hr : (dispatch ops m).reply with
    | none => simp [hr]
    | some r =>
      obtain ⟨hid,hret⟩ := reply_bounds hr
      obtain ⟨htype,hword⟩ := @reply_carries (ws ms.length) r hid hret
      simp [hr, htype, hword]

/-- A device model connects, and sends its prologue and its messages, which come in as they like. The service takes the
prologue for what it is and not a byte more, dispatches the messages that are complete, in order and once each and to
the handler of their type, and answers to each that has a reply with one message, in the same order: it says of which
kind it is, how long it is and what the handler came back with, and is there whole unless one of its own sends has
failed. -/
theorem conversation_answered (hchunks : ∀ c ∈ chunks, c ≠ []) (hlen : chunks.flatten.length = prologueLen)
    (hready : Settles w.answers hdrLen) (hsends : ∀ n, Settles (ws n).answers 19) (hms : ∀ m ∈ ms, Wellformed m)
    (hmeets : Meets (Dmbus.handleEvents ops) Fitting (some Session.start) events)
    (hstream : streamOf events <+: ms.flatten) :
    ∃ c k first pieces, (greet (chunks.map some) 0 w >>= fun c => perform (converse ops ws) c events) = .ok (some c) ∧
      c.domain = word chunks.flatten 0 ∧ c.devType = word chunks.flatten 1 ∧
      c.dispatched.map Dispatch.msg = ms.take k ∧ (∀ d ∈ c.dispatched, Handled ops d) ∧
      streamOf events = (ms.take k).flatten ++ c.client.pending ∧ Incomplete ms k c.client.pending ∧
      c.sent = first ++ pieces.flatten ∧ Arrives first (w.answers,setHeader 23 (w.message hdrLen)) ∧
      List.Forall₂ Arrives pieces (replies ws c.dispatched) ∧ (∀ m ∈ replies ws c.dispatched, Wellformed m.2) ∧
      (replies ws c.dispatched).map (fun m => (msgType m.2,word m.2 2)) = c.dispatched.filterMap Dispatch.reply := by
  have hsettles : Settles w.answers (setHeader 23 (w.message hdrLen)).length := by
    rwa [length_setHeader (by simp [hdrLen]), length_message]
  obtain ⟨first,hfirst,harrives⟩ := sendLoop_ends hsettles
  let c₀ : Conversation := ⟨Session.start,word chunks.flatten 0,word chunks.flatten 1,first⟩
  have hgreet : greet (chunks.map some) 0 w = .ok (some c₀) := by
    rw [greet, recvPrologue_whole hchunks (by simpa using hlen), ok_bind]
    simp only [ne_eq, not_true_eq_false, if_false, sendMsg, hfirst, ok_bind]
    rfl
  have hstart : Answering ws c₀ Session.start c₀ := ⟨rfl,⟨rfl,rfl⟩,[],by simp,.nil⟩
  obtain ⟨s,k,hs,hread⟩ := (reassembling_start ops hms).run hms hmeets hstream
  have hevery : Meets (Dmbus.handleEvents ops) (fun _ _ => True) (some Session.start) events :=
    Meets.of_forall (fun _ _ => trivial) _
  have hstep : ∀ (s : Option Session) (c : Option Conversation) r s', Option.Rel (Answering ws c₀) s c → True →
      Dmbus.handleEvents ops s r = .ok s' → ∃ c', converse ops ws c r = .ok c' ∧ Option.Rel (Answering ws c₀) s' c' :=
    fun _ _ _ _ hR _ hs => Answering.handleEvents hR hsends hs
  obtain ⟨c,hc,hrel⟩ := hevery.simulation hstep (.some hstart) hs
  cases hrel with
  | @some _ c h =>
    obtain ⟨rfl,⟨hdomain,hdevType⟩,pieces,hsent,hpieces⟩ := h
    obtain ⟨hmsgs,hhandled⟩ := hread.handled hms
    refine ⟨c,k,first,pieces,by rw [hgreet, ok_bind]; exact hc,hdomain,hdevType,hmsgs,hhandled,hread.stream.received,
      hread.incomplete,hsent,harrives,hpieces,fun _ => wellformed_replies,?_⟩
    rw [hread.dispatched, replies_say]

end Answers

/-- A device model that asks for the display, and is cut off within the answer. -/
theorem conversation_answered_display : ∃ c k first pieces,
    (greet ([List.replicate 20 0,List.replicate 8 1].map some) 0 ⟨fun _ => 0,[12]⟩ >>= fun c =>
      perform (converse (fun _ => none) fun _ => ⟨fun _ => 0,[7,-1]⟩) c [.data [12,0,0,0],.data [1,0,0,0,0,0,0,0]]) =
      .ok (some c) ∧ c.domain = 0 ∧ c.devType = 0 ∧
      c.dispatched.map Dispatch.msg = [[12,0,0,0,1,0,0,0,0,0,0,0]].take k ∧
      (∀ d ∈ c.dispatched, Handled (fun _ => none) d) ∧
      [12,0,0,0,1,0,0,0,0,0,0,0] = ([[12,0,0,0,1,0,0,0,0,0,0,0]].take k).flatten ++ c.client.pending ∧
      Incomplete [[12,0,0,0,1,0,0,0,0,0,0,0]] k c.client.pending ∧
      c.sent = first ++ pieces.flatten ∧
      Arrives first ([12],setHeader 23 ((⟨fun _ => 0,[12]⟩ : Sending).message hdrLen)) ∧
      List.Forall₂ Arrives pieces (replies (fun _ => ⟨fun _ => 0,[7,-1]⟩) c.dispatched) ∧
      (∀ m ∈ replies (fun _ => ⟨fun _ => 0,[7,-1]⟩) c.dispatched, Wellformed m.2) ∧
      (replies (fun _ => ⟨fun _ => 0,[7,-1]⟩) c.dispatched).map (fun m => (msgType m.2,word m.2 2)) =
        c.dispatched.filterMap Dispatch.reply := by
  have hroom : ((handleEvents (fun _ => none) (some Session.start) (.data [12,0,0,0])).toOption.map
      fun s => s.map fun session => session.client.room) = some (some 508) := by decide +kernel
  have hmeets : Meets (handleEvents fun _ => none) Fitting (some Session.start)
      [.data [12,0,0,0],.data [1,0,0,0,0,0,0,0]] := by
    refine ⟨⟨by simp,by decide⟩,fun s hs => ⟨⟨by simp,?_⟩,fun _ _ => trivial⟩⟩
    rw [hs] at hroom
    intro session hsession
    obtain rfl : s = some session := hsession
    obtain hlen : session.client.room = 508 := Option.some.inj (Option.some.inj hroom)
    rw [hlen]
    decide
  have hms : ∀ m ∈ [[12,0,0,0,1,0,0,0,0,0,0,(0 : UInt8)]], Wellformed m :=
    List.forall_mem_singleton.mpr ⟨by decide,by decide,by decide⟩
  refine conversation_answered (by decide) (by decide) (by simp [Settles,hdrLen]) (fun _ => by simp [Settles]) hms hmeets ?_
  decide

end Xctools.Dmbus
