import Xctools.Audio.Ring
import Xctools.Machine.Stream

/-! The commands of the frontend, `xen_vsnd_event`. On an event the daemon reads records of a fixed length
from the request ring and passes them on, until a read does not give a whole one. A read that finds only the
first bytes of a record has taken them out of the ring when it gives up. -/
namespace Xctools.Audio
open Machine

section Backend

/-- `sizeof(struct fe_cmd)`: stream, command, data and time. -/
def cmdSize : ℕ := 16

/-- A record that is passed to `process_playback_cmd` or to `process_capture_cmd`. -/
structure Command where
  playback : Bool
  bytes : List UInt8
  deriving DecidableEq, Repr

/-- The first byte is the stream; that of playback is zero. -/
def toCommand (bytes : List UInt8) : Command := ⟨bytes.head? = some 0, bytes⟩

/-- The ring, whether `xen_vsnd_event` is running, and the commands that were passed on. -/
structure Vsnd where
  ring : Ring
  handling : Bool := false
  commands : List Command := []

/-- The frontend writes or hands over, an event comes in, or the daemon goes on. -/
inductive VsndEvent
  | write (byte : UInt8)
  | publish (n : ℕ)
  | notify
  | step
  deriving DecidableEq, Repr

/-- What `xen_vsnd_event` does when `ring_read` has returned: it passes a whole record on and reads the next
one, or it returns. -/
def Vsnd.afterRead (v : Vsnd) (ring : Ring) : Outcome Vsnd :=
  match ring.calls.getLast? with
  | none => .ok { v with ring, handling := false }
  | some c =>
    if c.result.rc = cmdSize then do
      return { v with ring := ← ring.act (.call cmdSize), commands := v.commands ++ [toCommand c.got] }
    else .ok { v with ring, handling := false }

/-- One access. An event that comes while another one is handled is left pending. -/
def Vsnd.act (v : Vsnd) : VsndEvent → Outcome Vsnd
  | .write byte => do return { v with ring := ← v.ring.act (.write byte) }
  | .publish n => do return { v with ring := ← v.ring.act (.publish n) }
  | .notify =>
    if v.handling then .ok v
    else do return { v with ring := ← v.ring.act (.call cmdSize), handling := true }
  | .step =>
    if v.handling then do
      let ring ← v.ring.advanceReader
      match ring.reader with
      | .idle => v.afterRead ring
      | _ => return { v with ring }
    else .ok v

/-- The frontend keeps to the free space. -/
def Within (v : Vsnd) : VsndEvent → Prop
  | .write byte => Contract v.ring (.write byte)
  | .publish n => Contract v.ring (.publish n)
  | _ => True

instance (v : Vsnd) (e : VsndEvent) : Decidable (Within v e) :=
  match e with
  | .write byte => inferInstanceAs (Decidable (Contract v.ring (.write byte)))
  | .publish n => inferInstanceAs (Decidable (Contract v.ring (.publish n)))
  | .notify => inferInstanceAs (Decidable True)
  | .step => inferInstanceAs (Decidable True)

/-- Besides, when `ring_read` finds the ring empty, what was handed over so far are whole records. -/
def Whole (v : Vsnd) (e : VsndEvent) : Prop :=
  Within v e ∧ (e = .step → v.ring.findsEmpty = true → v.ring.produced.length % cmdSize = 0)

instance (v : Vsnd) (e : VsndEvent) : Decidable (Whole v e) := inferInstanceAs (Decidable (_ ∧ _))

end Backend

section InStep
variable {v v' : Vsnd}

/-- The bytes of the commands are those that the calls of `ring_read` have got. -/
structure InStep (v : Vsnd) : Prop where
  synced : Synced v.ring
  calls : v.ring.calls.flatMap ReadCall.got = (v.commands.map Command.bytes).flatten
  records : ∀ c ∈ v.commands, c = toCommand c.bytes ∧ c.bytes.length = cmdSize
  asked : v.handling = true → v.ring.asked = cmdSize ∧ v.ring.reader ≠ .idle
  resting : v.handling = false → v.ring.reader = .idle

lemma inStep_start (req : ℕ → UInt8) : InStep { ring := ringInit req } where
  synced := synced_ringInit req
  calls := rfl
  records := by simp
  asked h := by cases h
  resting _ := rfl

/-- The bytes of the commands. -/
def Vsnd.passed (v : Vsnd) : List UInt8 := (v.commands.map Command.bytes).flatten

/-- What the call under way ends with is behind the commands in the stream. -/
lemma InStep.answer (h : InStep v) : v.passed ++ v.ring.answer.got <+: v.ring.produced ∧
    (v.ring.answer.result = .empty → v.passed ++ v.ring.answer.got = v.ring.produced) := by
  have hdelivered : v.ring.delivered ++ v.ring.ahead = v.ring.produced := by
    rw [Ring.ahead, h.synced.delivered_length, h.synced.delivered, List.take_append_drop]
  have hgot : v.passed ++ v.ring.answer.got =
      v.ring.delivered ++ v.ring.ahead.take (v.ring.asked - v.ring.got.length) := by
    rw [Vsnd.passed, ← h.calls, Ring.delivered, Ring.answer, List.append_assoc]
  rw [hgot, ← hdelivered]
  refine ⟨(List.prefix_append_right_inj _).mpr (List.take_prefix _ _),fun hempty => ?_⟩
  have hall : v.ring.ahead.length < v.ring.asked - v.ring.got.length := by
    by_contra hle
    rw [Ring.answer, if_pos (by omega)] at hempty
    cases hempty
  rw [List.take_of_length_le hall.le]

lemma InStep.passed_length (h : InStep v) : v.passed.length = v.commands.length * cmdSize := by
  rw [Vsnd.passed, length_flatten_blocks (List.forall_mem_map.mpr fun c hc => (h.records c hc).2), List.length_map]

/-- How many stages are left at most while the frontend is still: those of the call that is under way, and for each
record behind the commands those of another call. -/
def Vsnd.left (v : Vsnd) : ℕ := v.ring.reader.left + 6 * (v.ring.produced.length - v.passed.length)

/-- The handler goes on, or it returns and has passed on all that was handed over. -/
def Vsnd.Moves (v v' : Vsnd) : Prop :=
  v'.ring.produced = v.ring.produced ∧
    (v'.handling = true ∧ v'.left < v.left ∨ v'.handling = false ∧ v'.passed = v'.ring.produced)

lemma InStep.frontend (h : InStep v) {ring : Ring} (hsynced : Synced ring) (hcalls : ring.calls = v.ring.calls)
    (hasked : ring.asked = v.ring.asked) (hreader : ring.reader = v.ring.reader) : InStep { v with ring } where
  synced := hsynced
  calls := by
    change ring.calls.flatMap ReadCall.got = _
    rw [hcalls]
    exact h.calls
  records := h.records
  asked hhandling := by
    change ring.asked = cmdSize ∧ ring.reader ≠ .idle
    rw [hasked, hreader]
    exact h.asked hhandling
  resting hrest := by
    change ring.reader = .idle
    rw [hreader]
    exact h.resting hrest

/-- A stage of `ring_read` that is not its last. -/
lemma InStep.goesOn (h : InStep v) (hhandling : v.handling = true) {ring : Ring} (hproduced : ring.produced = v.ring.produced)
    (hgoes : GoesOn v.ring ring) : InStep { v with ring } ∧ v.Moves { v with ring } := by
  refine ⟨⟨hgoes.synced,?_,h.records,fun _ => ⟨hgoes.asked.trans (h.asked hhandling).1,hgoes.busy⟩,?_⟩,
    hproduced,.inl ⟨hhandling,?_⟩⟩
  · change ring.calls.flatMap ReadCall.got = _
    rw [hgoes.calls]
    exact h.calls
  · intro hrest
    rw [hhandling] at hrest
    cases hrest
  · have hleft := hgoes.left
    change ring.reader.left + 6 * (ring.produced.length - v.passed.length) <
      v.ring.reader.left + 6 * (v.ring.produced.length - v.passed.length)
    rw [hproduced]
    omega

/-- A whole record is passed on, and the next one is asked for. -/
lemma InStep.passOn (h : InStep v) (hhandling : v.handling = true) {ring : Ring} (hproduced : ring.produced = v.ring.produced)
    (hreturns : Returns v.ring ring) {len : ℕ} (hresult : v.ring.answer.result = .full len) :
    ∃ v', v.afterRead ring = .ok v' ∧ InStep v' ∧ v.Moves v' := by
  have hanswered : v.ring.answer.Answered := by
    apply hreturns.synced.calls
    rw [hreturns.calls]
    exact List.mem_append_right _ (List.mem_singleton_self _)
  rw [ReadCall.Answered, hresult] at hanswered
  obtain ⟨rfl,hlength⟩ := hanswered
  have hasked : v.ring.answer.asked = cmdSize := (h.asked hhandling).1
  rw [hasked] at hresult hlength
  obtain ⟨ring',hcall,hsynced⟩ := hreturns.synced.call cmdSize
  have hafter : v.afterRead ring =
      .ok { v with ring := ring', commands := v.commands ++ [toCommand v.ring.answer.got] } := by
    rw [Vsnd.afterRead, hreturns.calls, List.getLast?_concat]
    change (if v.ring.answer.result.rc = cmdSize then _ else _) = _
    rw [hresult, if_pos (by decide), hcall]
    rfl
  simp only [Ring.act, hreturns.reader] at hcall
  obtain rfl := Except.ok.inj hcall
  have hpassed : Vsnd.passed { v with
      ring := { ring with reader := .test cmdSize, asked := cmdSize, got := [] }
      commands := v.commands ++ [toCommand v.ring.answer.got] } = v.passed ++ v.ring.answer.got := by
    simp [Vsnd.passed, toCommand]
  refine ⟨_,hafter,⟨hsynced,?_,?_,fun _ => ⟨rfl,by simp⟩,?_⟩,hproduced,.inl ⟨hhandling,?_⟩⟩
  · change ring.calls.flatMap ReadCall.got = Vsnd.passed _
    rw [hpassed, hreturns.calls, List.flatMap_append, h.calls]
    simp [Vsnd.passed]
  · rw [List.forall_mem_append, List.forall_mem_singleton]
    exact ⟨h.records,rfl,hlength⟩
  · intro hrest
    change v.handling = false at hrest
    rw [hhandling] at hrest
    cases hrest
  · have hle := h.answer.1.length_le
    rw [List.length_append, hlength] at hle
    unfold Vsnd.left
    rw [hpassed, List.length_append, hlength]
    change 5 * cmdSize + 6 * (ring.produced.length - _) < _
    rw [hproduced]
    unfold cmdSize at *
    omega

/-- Where the ring is empty behind whole records, no part of a record is lost. -/
lemma InStep.rest (h : InStep v) (hhandling : v.handling = true) {ring : Ring} (hproduced : ring.produced = v.ring.produced)
    (hreturns : Returns v.ring ring) (hresult : v.ring.answer.result = .empty)
    (hwhole : v.ring.produced.length % cmdSize = 0) : ∃ v', v.afterRead ring = .ok v' ∧ InStep v' ∧ v.Moves v' := by
  have hanswered : v.ring.answer.Answered := by
    apply hreturns.synced.calls
    rw [hreturns.calls]
    exact List.mem_append_right _ (List.mem_singleton_self _)
  rw [ReadCall.Answered, hresult] at hanswered
  change v.ring.answer.got.length < v.ring.asked at hanswered
  rw [(h.asked hhandling).1] at hanswered
  have hall := h.answer.2 hresult
  have hnil : v.ring.answer.got = [] := by
    have hlength := congrArg List.length hall
    have hpassed := h.passed_length
    rw [List.length_append] at hlength
    apply List.eq_nil_of_length_eq_zero
    unfold cmdSize at *
    omega
  rw [hnil, List.append_nil] at hall
  have hafter : v.afterRead ring = .ok { v with ring, handling := false } := by
    rw [Vsnd.afterRead, hreturns.calls, List.getLast?_concat]
    change (if v.ring.answer.result.rc = cmdSize then _ else _) = _
    rw [hresult, if_neg (by decide)]
  refine ⟨_,hafter,⟨hreturns.synced,?_,h.records,?_,fun _ => hreturns.reader⟩,hproduced,.inr ⟨rfl,?_⟩⟩
  · change ring.calls.flatMap ReadCall.got = v.passed
    rw [hreturns.calls, List.flatMap_append, h.calls]
    simp [hnil, Vsnd.passed]
  · intro hfalse
    cases hfalse
  · exact hall.trans hproduced.symm

/-- A stage of the handler. -/
lemma InStep.handle (h : InStep v) (hhandling : v.handling = true) (hw : Whole v .step) :
    ∃ v', v.act .step = .ok v' ∧ InStep v' ∧ v.Moves v' := by
  obtain ⟨ring,hring,hgoes⟩ := h.synced.advanceReader (h.asked hhandling).2
  have hproduced := (advanceReader_frame hring).1
  have hact : v.act .step = match ring.reader with
      | .idle => v.afterRead ring
      | _ => .ok { v with ring } := by
    rw [Vsnd.act, hhandling, if_pos rfl, hring, ok_bind]
    rfl
  rw [hact]
  rcases hgoes with hgoes | hreturns
  · have hbusy := hgoes.busy
    refine ⟨_,?_,h.goesOn hhandling hproduced hgoes⟩
    split
    · contradiction
    · rfl
  · rw [hreturns.reader]
    cases hresult : v.ring.answer.result with
    | full len => exact h.passOn hhandling hproduced hreturns hresult
    | empty => exact h.rest hhandling hproduced hreturns hresult (hw.2 rfl (hreturns.empty hresult))
    | reset =>
      unfold Ring.answer at hresult
      dsimp only at hresult
      split_ifs at hresult

lemma InStep.notify (h : InStep v) : ∃ v', v.act .notify = .ok v' ∧ InStep v' ∧ v'.handling = true ∧
    v'.ring.produced = v.ring.produced := by
  cases hhandling : v.handling with
  | true => exact ⟨v,by rw [Vsnd.act, hhandling]; rfl,h,hhandling,rfl⟩
  | false =>
    have hidle := h.resting hhandling
    obtain ⟨ring,hring,hsynced⟩ := h.synced.call cmdSize
    have hact : v.act .notify = .ok { v with ring, handling := true } := by
      rw [Vsnd.act, hhandling, hring]
      rfl
    simp only [Ring.act, hidle] at hring
    obtain rfl := Except.ok.inj hring
    refine ⟨_,hact,⟨hsynced,h.calls,h.records,fun _ => ⟨rfl,by simp⟩,?_⟩,rfl,rfl⟩
    intro hfalse
    cases hfalse

lemma InStep.act (h : InStep v) {e : VsndEvent} (hw : Whole v e) : ∃ v', v.act e = .ok v' ∧ InStep v' := by
  cases e with
  | write byte => exact ⟨_,rfl,h.frontend (h.synced.write hw.1 rfl) rfl rfl rfl⟩
  | publish n => exact ⟨_,rfl,h.frontend (h.synced.publish hw.1 rfl) rfl rfl rfl⟩
  | notify =>
    obtain ⟨v',hv',h',-⟩ := h.notify
    exact ⟨v',hv',h'⟩
  | step =>
    cases hhandling : v.handling with
    | false => exact ⟨v,by rw [Vsnd.act, hhandling]; rfl,h⟩
    | true =>
      obtain ⟨v',hv',h',-⟩ := h.handle hhandling hw
      exact ⟨v',hv',h'⟩

/-- When whole records were handed over, an event that is left alone passes all of them on. -/
lemma InStep.passesAll (h : InStep v) (hwhole : v.ring.produced.length % cmdSize = 0) :
    ∃ k t, perform Vsnd.act v (.notify :: List.replicate k .step) = .ok t ∧ t.handling = false ∧ InStep t ∧
      t.passed = v.ring.produced ∧ t.ring.produced = v.ring.produced := by
  obtain ⟨u,hu,hin,hhandling,hproduced⟩ := h.notify
  have hrun : ∃ k t, perform Vsnd.act u (List.replicate k .step) = .ok t ∧ t.handling = false ∧ InStep t ∧
      t.passed = v.ring.produced ∧ t.ring.produced = v.ring.produced := by
    refine perform_replicate_reaches
      (I := fun s => InStep s ∧ s.handling = true ∧ s.ring.produced = v.ring.produced) Vsnd.left ?_ ⟨hin,hhandling,hproduced⟩
    rintro s ⟨hs,hshandling,hsproduced⟩
    obtain ⟨s',hs',hin',hsame,hmoves⟩ := hs.handle hshandling ⟨trivial,fun _ _ => by rwa [hsproduced]⟩
    rcases hmoves with ⟨hgoes,hless⟩ | ⟨hrest,hall⟩
    · exact ⟨s',hs',.inr ⟨⟨hin',hgoes,hsame.trans hsproduced⟩,hless⟩⟩
    · exact ⟨s',hs',.inl ⟨hrest,hin',hall.trans (hsame.trans hsproduced),hsame.trans hsproduced⟩⟩
  obtain ⟨k,t,ht,hend⟩ := hrun
  exact ⟨k,t,(perform_cons_eq_ok _).mpr ⟨u,hu,ht⟩,hend⟩

end InStep

section Stream
variable {v v' : Vsnd}

/-- What the frontend writes in a run. -/
def writtenBytes (events : List VsndEvent) : List UInt8 :=
  events.filterMap fun e => match e with
    | .write byte => some byte
    | _ => none

/-- The daemon leaves the side of the frontend alone. -/
lemma afterRead_frame {ring : Ring} (h : v.afterRead ring = .ok v') :
    v'.ring.produced = ring.produced ∧ v'.ring.staged = ring.staged := by
  unfold Vsnd.afterRead at h
  split at h
  · obtain rfl := Except.ok.inj h
    exact ⟨rfl,rfl⟩
  · split_ifs at h with hrc
    · obtain ⟨r,hr,h⟩ := bind_eq_ok.mp h
      obtain rfl := Except.ok.inj h
      obtain ⟨hproduced,hstaged,-⟩ := call_frame hr
      exact ⟨hproduced,hstaged⟩
    · obtain rfl := Except.ok.inj h
      exact ⟨rfl,rfl⟩

lemma step_frame (h : v.act .step = .ok v') :
    v'.ring.produced = v.ring.produced ∧ v'.ring.staged = v.ring.staged := by
  unfold Vsnd.act at h
  split_ifs at h with hhandling
  · obtain ⟨ring,hring,h⟩ := bind_eq_ok.mp h
    obtain ⟨hproduced,hstaged,-⟩ := advanceReader_frame hring
    rw [← hproduced, ← hstaged]
    split at h
    · exact afterRead_frame h
    · obtain rfl := Except.ok.inj h
      exact ⟨rfl,rfl⟩
  · obtain rfl := Except.ok.inj h
    exact ⟨rfl,rfl⟩

lemma notify_frame (h : v.act .notify = .ok v') :
    v'.ring.produced = v.ring.produced ∧ v'.ring.staged = v.ring.staged := by
  unfold Vsnd.act at h
  split_ifs at h with hhandling
  · obtain rfl := Except.ok.inj h
    exact ⟨rfl,rfl⟩
  · obtain ⟨ring,hring,h⟩ := bind_eq_ok.mp h
    obtain rfl := Except.ok.inj h
    obtain ⟨hproduced,hstaged,-⟩ := call_frame hring
    exact ⟨hproduced,hstaged⟩

lemma vsnd_act_written {e : VsndEvent} (h : v.act e = .ok v') :
    v'.ring.produced ++ v'.ring.staged = v.ring.produced ++ v.ring.staged ++ writtenBytes [e] := by
  cases e with
  | write byte =>
    obtain ⟨ring,hring,h⟩ := bind_eq_ok.mp h
    obtain rfl := Except.ok.inj h
    exact act_written hring
  | publish n =>
    obtain ⟨ring,hring,h⟩ := bind_eq_ok.mp h
    obtain rfl := Except.ok.inj h
    exact act_written hring
  | notify =>
    obtain ⟨hproduced,hstaged⟩ := notify_frame h
    rw [hproduced, hstaged]
    exact (List.append_nil _).symm
  | step =>
    obtain ⟨hproduced,hstaged⟩ := step_frame h
    rw [hproduced, hstaged]
    exact (List.append_nil _).symm

lemma vsnd_perform_written {events : List VsndEvent} (h : perform Vsnd.act v events = .ok v') :
    v'.ring.produced ++ v'.ring.staged = v.ring.produced ++ v.ring.staged ++ writtenBytes events := by
  refine perform_filterMap (fun v : Vsnd => v.ring.produced ++ v.ring.staged) (fun s e s' he => ?_) h
  rw [vsnd_act_written he]
  cases e <;> rfl

/-- The commands so far are the first of the records. -/
lemma InStep.prefix_records (h : InStep v) {rs : List (List UInt8)} (hrs : ∀ r ∈ rs, r.length = cmdSize)
    (hstream : v.ring.produced <+: rs.flatten) : v.commands <+: rs.map toCommand := by
  have hflat : (v.commands.map Command.bytes).flatten <+: rs.flatten :=
    (List.prefix_append _ _).trans (h.answer.1.trans hstream)
  have hbytes : v.commands.map Command.bytes <+: rs := by
    refine prefix_of_flatten_prefix (by decide) ?_ hrs hflat
    intro b hb
    obtain ⟨c,hc,rfl⟩ := List.mem_map.mp hb
    exact (h.records c hc).2
  have hcommands : (v.commands.map Command.bytes).map toCommand = v.commands := by
    rw [List.map_map]
    exact (List.map_congr_left fun c hc => ((h.records c hc).1).symm).trans (List.map_id _)
  rw [← hcommands]
  exact hbytes.map toCommand

/-- Between two events nothing is missing: what was not passed on is still in the ring. -/
lemma InStep.unread (h : InStep v) (hrest : v.handling = false) : v.passed ++ v.ring.unread = v.ring.produced := by
  have hgot := h.synced.reader
  have hdelivered := h.synced.delivered
  rw [h.resting hrest] at hgot hdelivered
  change v.ring.got = [] at hgot
  change v.ring.delivered = v.ring.produced.take (v.ring.consumed + 0) at hdelivered
  rw [Ring.delivered, hgot, List.append_nil, h.calls] at hdelivered
  rw [Vsnd.passed, hdelivered, h.synced.unread, Nat.add_zero, List.take_append_drop]

/-- As many commands as there are whole records in the stream. -/
lemma InStep.commands_eq (h : InStep v) {rs : List (List UInt8)} (hpre : v.commands <+: rs.map toCommand)
    (hall : v.passed = v.ring.produced) : v.commands = (rs.take (v.ring.produced.length / cmdSize)).map toCommand := by
  rw [List.map_take, ← hall, h.passed_length, Nat.mul_div_cancel _ (by decide)]
  exact List.prefix_iff_eq_take.mp hpre

/-- However the frontend writes its records and hands them over, and however it and `xen_vsnd_event` take
turns: as long as the ring is never found empty behind a part of a record, the commands that are passed on
are the records, in order, and between two events the ring holds all that was not passed on. When whole records were
handed over, an event comes to its end and has passed on as many as there are. -/
theorem commands_in_step {req : ℕ → UInt8} {events : List VsndEvent} {rs : List (List UInt8)}
    (hrs : ∀ r ∈ rs, r.length = cmdSize) (hstream : writtenBytes events <+: rs.flatten)
    (hmeets : Meets Vsnd.act Whole { ring := ringInit req } events) :
    ∃ v, perform Vsnd.act { ring := ringInit req } events = .ok v ∧ v.commands <+: rs.map toCommand ∧
      (v.handling = false → (v.commands.map Command.bytes).flatten ++ v.ring.unread = v.ring.produced) ∧
      (v.ring.produced.length % cmdSize = 0 →
        ∃ k t, perform Vsnd.act v (.notify :: List.replicate k .step) = .ok t ∧ t.handling = false ∧
          t.commands = (rs.take (v.ring.produced.length / cmdSize)).map toCommand) := by
  obtain ⟨v,hv,h⟩ := hmeets.progress (fun _ _ ht hc => ht.act hc) (inStep_start req)
  have hwritten : v.ring.produced ++ v.ring.staged = writtenBytes events := vsnd_perform_written hv
  have hproduced : v.ring.produced <+: rs.flatten := by
    refine List.IsPrefix.trans ?_ hstream
    rw [← hwritten]
    exact List.prefix_append _ _
  refine ⟨v,hv,h.prefix_records hrs hproduced,h.unread,fun hwhole => ?_⟩
  obtain ⟨k,t,ht,hrest,hin,hall,hsame⟩ := h.passesAll hwhole
  refine ⟨k,t,ht,hrest,?_⟩
  rw [← hsame] at hproduced hall ⊢
  exact hin.commands_eq (hin.prefix_records hrs hproduced) hall

end Stream

/-- A record without data and time. -/
def bareRecord (stream cmd : UInt8) : List UInt8 := stream :: cmd :: List.replicate 14 0

/-- The frontend opens playback, then capture, and hands the two records over in two steps. -/
def openBoth : List VsndEvent := (bareRecord 0 0).map VsndEvent.write ++ [VsndEvent.publish 16, .notify] ++
  List.replicate 10 VsndEvent.step ++ (bareRecord 1 0).map VsndEvent.write ++ [VsndEvent.publish 16] ++
  List.replicate 34 VsndEvent.step

/-- The first record is handed over in two steps, and the event comes between them. -/
def openSplit : List VsndEvent := ((bareRecord 0 0).take 8).map VsndEvent.write ++ [VsndEvent.publish 8, .notify] ++
  List.replicate 13 VsndEvent.step ++ ((bareRecord 0 0).drop 8 ++ bareRecord 1 0).map VsndEvent.write ++
  [VsndEvent.publish 24, .notify] ++ List.replicate 34 VsndEvent.step

/-- The second record comes while the first one is being read, and one event passes both on and returns. -/
theorem commands_in_step_both : ∃ v, perform Vsnd.act { ring := ringInit fun _ => 0 } openBoth = .ok v ∧
    v.handling = false ∧ v.commands = [bareRecord 0 0, bareRecord 1 0].map toCommand ∧
    (∃ k t, perform Vsnd.act v (.notify :: List.replicate k .step) = .ok t ∧ t.handling = false ∧
      t.commands = [bareRecord 0 0, bareRecord 1 0].map toCommand) := by
  have hstream : writtenBytes openBoth <+: [bareRecord 0 0, bareRecord 1 0].flatten := by decide +kernel
  have hmeets : Meets Vsnd.act Whole { ring := ringInit fun _ => 0 } openBoth := by decide +kernel
  obtain ⟨v,hv,-,-,hall⟩ := commands_in_step (by decide) hstream hmeets
  have hend : (perform Vsnd.act { ring := ringInit fun _ => 0 } openBoth).toOption.map
      (fun v => (v.handling,v.commands,v.ring.produced.length)) =
        some (false,[bareRecord 0 0, bareRecord 1 0].map toCommand,32) := by
    decide +kernel
  rw [hv] at hend
  obtain ⟨hrest,hcommands,hlength⟩ := by simpa [Except.toOption] using hend
  rw [hlength] at hall
  exact ⟨v,hv,hrest,hcommands,hall (by decide)⟩

/-- The eight bytes that were read are gone, and the command that is passed on is made of two halves. -/
theorem commands_out_of_step : Meets Vsnd.act Within { ring := ringInit fun _ => 0 } openSplit ∧
    writtenBytes openSplit = [bareRecord 0 0, bareRecord 1 0].flatten ∧
    (perform Vsnd.act { ring := ringInit fun _ => 0 } openSplit).toOption.map
        (fun v => (v.commands, v.ring.unread)) =
      some ([toCommand ((bareRecord 0 0).drop 8 ++ (bareRecord 1 0).take 8)], []) ∧
    ¬ [toCommand ((bareRecord 0 0).drop 8 ++ (bareRecord 1 0).take 8)] <+:
      [bareRecord 0 0, bareRecord 1 0].map toCommand := by
  decide +kernel

end Xctools.Audio
