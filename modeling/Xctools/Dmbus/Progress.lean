import Xctools.Dmbus.Reassembly

/-! Whether the dispatch loop of `dmbus_handle_events` comes to an end. Each round takes as many bytes out of the
buffer as the message at its start says it has, and the other side may say anything. -/
namespace Xctools.Dmbus
open Machine

section Stalls
variable {ops : RpcOps} {s t : Session} {chunk : List UInt8}

/-- Taken apart by the lengths the messages give, the bytes come to a header that gives none. -/
inductive Stalls : List UInt8 → Prop
  | zero (bytes : List UInt8) : hdrLen ≤ bytes.length → msgLen bytes = 0 → Stalls bytes
  | next (bytes : List UInt8) : hdrLen ≤ bytes.length → msgLen bytes ≤ bytes.length →
    Stalls (bytes.drop (msgLen bytes)) → Stalls bytes

/-- The rounds of the loop of `dmbus_handle_events`. -/
abbrev ships (ops : RpcOps) : Session → Session → Prop := Round (shipMessage ops) fun s => !s.client.complete

lemma complete_iff (c : Client) : c.complete = true ↔ hdrLen ≤ c.pending.length ∧ msgLen c.pending ≤ c.pending.length := by
  rw [Client.complete, Bool.and_eq_true, decide_eq_true_eq, decide_eq_true_eq, length_pending]
  exact and_congr_right fun h => by rw [msgLen_pending h]

/-- A round takes a message out, and leaves what is behind it. -/
lemma ships_iff : ships ops s t ↔ (hdrLen ≤ s.client.pending.length ∧ msgLen s.client.pending ≤ s.client.pending.length) ∧
    shipMessage ops s = .ok t := by
  rw [ships, Round, ← complete_iff, Bool.not_eq_false']

lemma pending_of_ships (h : ships ops s t) : t.client.pending = s.client.pending.drop (msgLen s.client.pending) := by
  obtain ⟨⟨hhdr,hlen⟩,hship⟩ := ships_iff.mp h
  obtain rfl := Except.ok.inj hship
  rw [length_pending] at hhdr hlen
  rw [← msgLen_pending hhdr] at hlen ⊢
  exact pending_popMessage hlen

lemma len_of_ships (h : ships ops s t) : t.client.len = s.client.len - msgLen s.client.pending := by
  rw [← length_pending, pending_of_ships h, List.length_drop, length_pending]

/-- Where no such header is ahead there is none after a round, and the round takes something out. -/
lemma ships_of_not_stalls (hs : ¬ Stalls s.client.pending) (h : ships ops s t) :
    ¬ Stalls t.client.pending ∧ t.client.len < s.client.len := by
  obtain ⟨⟨hhdr,hlen⟩,-⟩ := ships_iff.mp h
  have hpos : msgLen s.client.pending ≠ 0 := fun hzero => hs (.zero _ hhdr hzero)
  constructor
  · rw [pending_of_ships h]
    exact fun hnext => hs (.next _ hhdr hlen hnext)
  · rw [length_pending] at hhdr
    rw [len_of_ships h]
    unfold hdrLen at hhdr
    omega

/-- Where one is ahead, rounds lead to one that takes nothing out. -/
lemma exists_idle_round {bytes : List UInt8} (h : Stalls bytes) (hs : s.client.pending = bytes) :
    ∃ a b, Relation.ReflTransGen (ships ops) s a ∧ ships ops a b ∧ b.client.len = a.client.len := by
  induction h generalizing s with
  | zero bytes hhdr hzero =>
    subst hs
    have hship : ships ops s _ := ships_iff.mpr ⟨⟨hhdr,by rw [hzero]; exact Nat.zero_le _⟩,rfl⟩
    exact ⟨s,_,.refl,hship,by rw [len_of_ships hship, hzero, Nat.sub_zero]⟩
  | next bytes hhdr hlen _ ih =>
    subst hs
    have hship : ships ops s _ := ships_iff.mpr ⟨⟨hhdr,hlen⟩,rfl⟩
    obtain ⟨a,b,hr,hab,hsame⟩ := ih (pending_of_ships hship)
    exact ⟨a,b,.head hship hr,hab,hsame⟩

/-- However long the buffer gets, it fits. What is received is dispatched to its end, every round taking
something out of the buffer, exactly if the messages' own lengths lead to no header that says zero. -/
theorem handleEvents_ends_iff (ops : RpcOps) (s : Session) (chunk : List UInt8) (h : chunk.length ≤ s.client.room) :
    (∀ a, Rounds (shipMessage ops) (fun s => !s.client.complete) ⟨s.client.received chunk h, s.dispatched⟩ a →
      a.client.len ≤ maxMsgLen) ∧
    (((∃ t, handleEvents ops (some s) (.data chunk) = .ok (some t)) ∧
        ∀ a b, Rounds (shipMessage ops) (fun s => !s.client.complete) ⟨s.client.received chunk h, s.dispatched⟩ a →
          ships ops a b → b.client.len < a.client.len) ↔
      ¬ Stalls (s.client.pending ++ chunk)) := by
  refine ⟨fun a _ => a.client.fits,?_⟩
  rw [← pending_received h]
  constructor
  · rintro ⟨-,hprogress⟩ hstalls
    obtain ⟨a,b,hr,hab,hsame⟩ := @exists_idle_round ops ⟨s.client.received chunk h, s.dispatched⟩ _ hstalls rfl
    have hlt := hprogress a b hr hab
    omega
  · intro hfree
    refine ⟨?_,fun a b hr hab => ?_⟩
    · obtain ⟨t,ht,-⟩ := @loop_total Session (shipMessage ops) (fun s => !s.client.complete)
        ⟨s.client.received chunk h, s.dispatched⟩ _ (fun t => ¬ Stalls t.client.pending) (fun t => t.client.len)
        (fun a ha hd => ⟨_,rfl,ships_of_not_stalls ha ⟨hd,rfl⟩⟩) hfree (Nat.le_refl _)
      refine ⟨t,?_⟩
      unfold handleEvents
      simp only [dif_pos h]
      rw [ht]
      rfl
    · have hreached := Rounds.invariant (P := fun t : Session => ¬ Stalls t.client.pending)
        (fun a b ha hd hb => (ships_of_not_stalls ha ⟨hd,hb⟩).1) hr hfree
      exact (ships_of_not_stalls hreached hab).2

end Stalls

/-- A complete message. -/
theorem handleEvents_ends_abs :
    (∀ a, Rounds (shipMessage fun _ => none) (fun s => !s.client.complete)
        ⟨Session.start.client.received absMsg (by decide), []⟩ a → a.client.len ≤ maxMsgLen) ∧
    (((∃ t, handleEvents (fun _ => none) (some Session.start) (.data absMsg) = .ok (some t)) ∧
        ∀ a b, Rounds (shipMessage fun _ => none) (fun s => !s.client.complete)
          ⟨Session.start.client.received absMsg (by decide), []⟩ a →
          ships (fun _ => none) a b → b.client.len < a.client.len) ↔
      ¬ Stalls (Session.start.client.pending ++ absMsg)) :=
  handleEvents_ends_iff (fun _ => none) Session.start absMsg (by decide)

/-- A header that gives no length is shipped forever. -/
theorem zero_length_loops :
    handleEvents (fun _ => none) (some Session.start) (.data (List.replicate hdrLen 0)) = .error .loop ∧
    ∃ a b, Rounds (shipMessage fun _ => none) (fun s => !s.client.complete)
        ⟨Session.start.client.received (List.replicate hdrLen 0) (by decide), []⟩ a ∧
      ships (fun _ => none) a b ∧ b.client.len = a.client.len :=
  ⟨rfl,_,_,.refl,⟨rfl,rfl⟩,rfl⟩

end Xctools.Dmbus
