import Xctools.Audio.Ring

/-! The response ring of the audio daemon, `ring_write` of `ring.c`. The daemon is the producer here; the frontend
takes bytes out at any time, also while they are being put in behind. -/
namespace Xctools.Audio
open Machine

section State

/-- Where `ring_write` stands, with what it has loaded. -/
inductive Writer
  | idle
  | load
  | copy (prod copied : ℕ)
  | advance
  deriving DecidableEq, Repr

/-- The array and the indices of the responses, and the call of `ring_write` that is under way. What the calls have
returned, and what the frontend has taken out, are nowhere in the code. -/
structure Responses where
  rsp : ℕ → UInt8
  cons : ℕ := 0
  prod : ℕ := 0
  writer : Writer := .idle
  data : List UInt8 := []
  answers : List (List UInt8 × Bool) := []
  taken : List UInt8 := []

/-- The bytes between the indices. -/
def Responses.used (r : Responses) : ℕ := wrapSub idxWidth r.prod r.cons

/-- The room that `ring_get_output_chunk` finds, up to the end of the array. -/
def outputChunk (cons prod : ℕ) : ℕ := min (ringSize - mask prod) (ringSize - wrapSub idxWidth prod cons)

/-- A call of `ring_write` returns 0, or -1. -/
def Responses.finish (r : Responses) (ok : Bool) : Responses :=
  { r with writer := .idle, data := [], answers := r.answers ++ [(r.data,ok)] }

/-- The next stage of `ring_write`. -/
def Responses.advanceWriter (r : Responses) : Outcome Responses :=
  match r.writer with
  | .idle => .ok r
  | .load =>
    if ringCheckIndexes r.cons r.prod then
      if outputChunk r.cons r.prod < r.data.length then .ok (r.finish false)
      else .ok { r with writer := .copy r.prod 0 }
    else .ok ({ r with cons := 0, prod := 0 }.finish false)
  | .copy prod copied =>
    match r.data[copied]? with
    | none => .ok { r with writer := .advance }
    | some byte =>
      if mask prod + copied < ringSize then
        .ok { r with rsp := Function.update r.rsp (mask prod + copied) byte, writer := .copy prod (copied + 1) }
      else .error .bounds
  -- nothing is left to be written then
  | .advance => .ok ({ r with prod := (r.prod + r.data.length) % idxWidth }.finish true)

/-- What the daemon and the frontend do. -/
inductive ResponseEvent
  | call (data : List UInt8)
  | step
  | take (n : ℕ)
  deriving DecidableEq, Repr

/-- One access. A call that comes while another one is under way has to wait. -/
def Responses.act (r : Responses) : ResponseEvent → Outcome Responses
  | .call data =>
    match r.writer with
    | .idle =>
      if r.used = ringSize then .ok ({ r with data }.finish false)
      else if data = [] then .ok ({ r with data }.finish true)
      else .ok { r with writer := .load, data }
    | _ => .ok r
  | .step => r.advanceWriter
  | .take n => .ok { r with
      cons := (r.cons + n) % idxWidth
      taken := r.taken ++ (List.range n).map fun i => r.rsp (mask ((r.cons + i) % idxWidth)) }

/-- The frontend takes what is there. -/
def Takes (r : Responses) : ResponseEvent → Prop
  | .take n => n ≤ r.used
  | _ => True

instance (r : Responses) (e : ResponseEvent) : Decidable (Takes r e) :=
  match e with
  | .take n => inferInstanceAs (Decidable (n ≤ r.used))
  | .call _ => inferInstanceAs (Decidable True)
  | .step => inferInstanceAs (Decidable True)

/-- The bytes of the calls that have returned 0. -/
def Responses.accepted (r : Responses) : List UInt8 := (r.answers.filter Prod.snd).flatMap Prod.fst

end State

section Invariant
variable {r r' : Responses} {e : ResponseEvent}

/-- What has been copied, but not handed over. -/
def Responses.staged (r : Responses) : List UInt8 :=
  match r.writer with
  | .copy _ copied => r.data.take copied
  | .advance => r.data
  | _ => []

/-- What a stage of `ring_write` relies on. -/
def Responses.Sound (r : Responses) : Prop :=
  match r.writer with
  | .copy prod copied => prod = r.prod ∧ copied ≤ r.data.length ∧ mask r.prod + r.data.length ≤ ringSize ∧
      r.accepted.length + r.data.length ≤ r.taken.length + ringSize
  | .advance => r.accepted.length + r.data.length ≤ r.taken.length + ringSize
  | _ => True

/-- The indices are the lengths of the two streams, the cells hold what is between them and what is staged, and what
was taken out are the first bytes that were handed over. -/
structure Responding (r : Responses) : Prop where
  cons : r.cons = r.taken.length % idxWidth
  prod : r.prod = r.accepted.length % idxWidth
  room : r.accepted.length ≤ r.taken.length + ringSize
  cells : Holds ringSize r.rsp r.taken.length (r.accepted ++ r.staged)
  taken : r.taken <+: r.accepted
  sound : r.Sound

lemma accepted_finish (r : Responses) (ok : Bool) :
    (r.finish ok).accepted = r.accepted ++ if ok then r.data else [] := by
  cases ok <;> simp [Responses.finish, Responses.accepted, List.filter_append]

lemma Responding.used (h : Responding r) : r.used = r.accepted.length - r.taken.length := by
  have hroom := h.room
  rw [Responses.used, h.cons, h.prod]
  apply wrapSub_mod h.taken.length_le
  unfold ringSize at hroom
  unfold idxWidth
  omega

/-- A call that returns without having written anything leaves the ring alone. -/
lemma Responding.finish (h : Responding r) (data : List UInt8) (hstaged : r.staged = []) {ok : Bool}
    (hdata : ok = true → data = []) : Responding ({ r with data }.finish ok) := by
  have haccepted : ({ r with data }.finish ok).accepted = r.accepted := by
    rw [accepted_finish]
    cases ok with
    | false => exact List.append_nil _
    | true =>
      rw [if_pos rfl, hdata rfl]
      exact List.append_nil _
  have hcells := h.cells
  rw [hstaged] at hcells
  refine ⟨h.cons,?_,?_,?_,?_,trivial⟩
  · rw [haccepted]
    exact h.prod
  · rw [haccepted]
    exact h.room
  · rw [haccepted]
    exact hcells
  · rw [haccepted]
    exact h.taken

lemma Responding.call (h : Responding r) (data : List UInt8) : ∃ r', r.act (.call data) = .ok r' ∧ Responding r' := by
  unfold Responses.act
  cases hw : r.writer with
  | idle =>
    have hstaged : r.staged = [] := by rw [Responses.staged, hw]
    by_cases hfull : r.used = ringSize
    · exact ⟨_,if_pos hfull,h.finish data hstaged fun h => absurd h (by decide)⟩
    by_cases hempty : data = []
    · refine ⟨_,(if_neg hfull).trans (if_pos hempty),h.finish data hstaged fun _ => hempty⟩
    · have hcells := h.cells
      rw [hstaged] at hcells
      exact ⟨_,(if_neg hfull).trans (if_neg hempty),h.cons,h.prod,h.room,hcells,h.taken,trivial⟩
  | load => exact ⟨r,rfl,h⟩
  | copy prod copied => exact ⟨r,rfl,h⟩
  | advance => exact ⟨r,rfl,h⟩

/-- The next stage of `ring_write` writes inside of the array, and where the frontend has been. -/
lemma Responding.advanceWriter (h : Responding r) : ∃ r', r.advanceWriter = .ok r' ∧ Responding r' := by
  have hused := h.used
  have hroom := h.room
  have hbehind := h.taken.length_le
  have hsound := h.sound
  have hcells := h.cells
  unfold Responses.advanceWriter
  unfold Responses.Sound at hsound
  cases hw : r.writer with
  | idle => exact ⟨r,rfl,h⟩
  | load =>
    have hstaged : r.staged = [] := by rw [Responses.staged, hw]
    have hcheck : ringCheckIndexes r.cons r.prod = true := decide_eq_true (show r.used ≤ ringSize by omega)
    have hchunk : outputChunk r.cons r.prod = min (ringSize - mask r.prod) (ringSize - r.used) := rfl
    have hmask : mask r.prod < ringSize := Nat.mod_lt _ (by decide)
    simp only [hcheck, if_true]
    by_cases hfits : outputChunk r.cons r.prod < r.data.length
    · exact ⟨_,if_pos hfits,h.finish r.data hstaged fun h => absurd h (by decide)⟩
    · rw [hstaged] at hcells
      refine ⟨_,if_neg hfits,h.cons,h.prod,h.room,hcells,h.taken,rfl,Nat.zero_le _,?_,?_⟩
      · change mask r.prod + r.data.length ≤ ringSize
        omega
      · change r.accepted.length + r.data.length ≤ r.taken.length + ringSize
        omega
  | copy prod copied =>
    rw [hw] at hsound
    obtain ⟨rfl,hle,hmask,hfree⟩ := hsound
    have hstaged : r.staged = r.data.take copied := by rw [Responses.staged, hw]
    rw [hstaged] at hcells
    cases hbyte : r.data[copied]? with
    | none =>
      have hall : r.data.take copied = r.data := List.take_of_length_le (List.getElem?_eq_none_iff.mp hbyte)
      rw [hall] at hcells
      simp only [hbyte]
      exact ⟨_,rfl,h.cons,h.prod,h.room,hcells,h.taken,hfree⟩
    | some byte =>
      obtain ⟨hlt,-⟩ := List.getElem?_eq_some_iff.mp hbyte
      have hin : mask r.prod + copied < ringSize := by omega
      have hlength : (r.accepted ++ r.data.take copied).length = r.accepted.length + copied := by
        rw [List.length_append, List.length_take, Nat.min_eq_left hle]
      have hcell : mask r.prod + copied = (r.accepted ++ r.data.take copied).length % ringSize := by
        rw [hlength]
        rw [h.prod, mask_idx] at hin ⊢
        unfold mask ringSize at *
        omega
      simp only [hbyte, if_pos hin]
      refine ⟨_,rfl,h.cons,h.prod,h.room,?_,h.taken,rfl,hlt,hmask,hfree⟩
      change Holds ringSize _ r.taken.length (r.accepted ++ r.data.take (copied + 1))
      rw [List.take_add_one, hbyte, ← List.append_assoc, hcell]
      exact hcells.push (by omega) byte
  | advance =>
    rw [hw] at hsound
    have hstaged : r.staged = r.data := by rw [Responses.staged, hw]
    rw [hstaged] at hcells
    have haccepted : ∀ writer, ({ r with prod := (r.prod + r.data.length) % idxWidth, writer }.finish true).accepted =
        r.accepted ++ r.data := fun _ => accepted_finish _ true
    refine ⟨_,rfl,h.cons,?_,?_,?_,?_,trivial⟩
    · rw [haccepted, List.length_append]
      change (r.prod + r.data.length) % idxWidth = _
      rw [h.prod, Nat.mod_add_mod]
    · rw [haccepted, List.length_append]
      exact hsound
    · rw [haccepted]
      change Holds ringSize r.rsp r.taken.length (r.accepted ++ r.data ++ [])
      rwa [List.append_nil]
    · rw [haccepted]
      exact h.taken.trans (List.prefix_append _ _)

/-- The bytes between the indices, from `cons` on. -/
def Responses.unread (r : Responses) : List UInt8 := (List.range r.used).map fun i => r.rsp (mask ((r.cons + i) % idxWidth))

/-- What the frontend finds are the next bytes that were handed over. -/
lemma Responding.read (h : Responding r) {n : ℕ} (hn : n ≤ r.used) :
    (List.range n).map (fun i => r.rsp (mask ((r.cons + i) % idxWidth))) = (r.accepted.drop r.taken.length).take n := by
  have hused := h.used
  refine List.ext_getElem ?_ fun i hi hi' => ?_
  · simp only [List.length_map, List.length_range, List.length_take, List.length_drop]
    omega
  · have hin : i < n := by simpa using hi
    have hlt : r.taken.length + i < r.accepted.length := by omega
    have hcell : mask ((r.cons + i) % idxWidth) = (r.taken.length + i) % ringSize := by
      rw [mask_idx, h.cons]
      unfold mask ringSize idxWidth
      omega
    have hget : (r.accepted ++ r.staged)[r.taken.length + i]? = some r.accepted[r.taken.length + i] := by
      rw [List.getElem?_append_left hlt, List.getElem?_eq_getElem hlt]
    rw [List.getElem_map, List.getElem_range, List.getElem_take, List.getElem_drop, hcell]
    exact h.cells _ (Nat.le_add_right _ _) _ hget

lemma Responding.take (h : Responding r) {n : ℕ} (hn : n ≤ r.used) : ∃ r', r.act (.take n) = .ok r' ∧ Responding r' := by
  have hused := h.used
  have hread := h.read hn
  have hlength : (r.taken ++ (r.accepted.drop r.taken.length).take n).length = r.taken.length + n := by
    rw [List.length_append, List.length_take, List.length_drop]
    omega
  have hpre : r.taken ++ (r.accepted.drop r.taken.length).take n <+: r.accepted := by
    obtain ⟨rest,hrest⟩ := h.taken
    rw [← hrest, List.drop_left, List.prefix_append_right_inj]
    exact List.take_prefix n rest
  refine ⟨_,rfl,?_,h.prod,?_,?_,?_,?_⟩
  · change (r.cons + n) % idxWidth = (r.taken ++ _).length % idxWidth
    rw [hread, hlength, h.cons, Nat.mod_add_mod]
  · change r.accepted.length ≤ (r.taken ++ _).length + ringSize
    have hroom := h.room
    rw [hread, hlength]
    omega
  · change Holds ringSize r.rsp (r.taken ++ _).length (r.accepted ++ r.staged)
    rw [hread, hlength]
    exact h.cells.mono (Nat.le_add_right _ _)
  · change r.taken ++ _ <+: r.accepted
    rwa [hread]
  · have hsound := h.sound
    have hmore : r.taken.length ≤ (r.taken ++ (List.range n).map fun i => r.rsp (mask ((r.cons + i) % idxWidth))).length := by
      rw [List.length_append]
      exact Nat.le_add_right _ _
    unfold Responses.Sound at hsound ⊢
    cases hw : r.writer with
    | idle => trivial
    | load => trivial
    | copy prod copied =>
      rw [hw] at hsound
      obtain ⟨hprod,hle,hmask,hfree⟩ := hsound
      exact ⟨hprod,hle,hmask,hfree.trans (Nat.add_le_add_right hmore _)⟩
    | advance =>
      rw [hw] at hsound
      exact Nat.le_trans hsound (Nat.add_le_add_right hmore _)

lemma Responding.act (h : Responding r) (he : Takes r e) : ∃ r', r.act e = .ok r' ∧ Responding r' := by
  cases e with
  | call data => exact h.call data
  | step => exact h.advanceWriter
  | take n => exact h.take he

/-- The ring behind `ring_init`, with whatever is in the array. -/
lemma responding_init (rsp : ℕ → UInt8) : Responding { rsp } where
  cons := rfl
  prod := rfl
  room := by simp [Responses.accepted, ringSize]
  cells := by intro k _ x hx; simp [Responses.accepted, Responses.staged] at hx
  taken := List.prefix_refl _
  sound := trivial

/-- The answers that were given stay. -/
lemma act_answers (h : r.act e = .ok r') : r.answers <+: r'.answers := by
  have hfinish := fun (data : List UInt8) ok => List.prefix_append r.answers [(data,ok)]
  have hrefl := List.prefix_refl r.answers
  cases e with
  | call data =>
    simp only [Responses.act] at h
    split at h
    · split_ifs at h
      · obtain rfl := Except.ok.inj h
        exact hfinish _ _
      · obtain rfl := Except.ok.inj h
        exact hfinish _ _
      · obtain rfl := Except.ok.inj h
        exact hrefl
    · obtain rfl := Except.ok.inj h
      exact hrefl
  | step =>
    simp only [Responses.act, Responses.advanceWriter] at h
    split at h
    · obtain rfl := Except.ok.inj h
      exact hrefl
    · split_ifs at h
      · obtain rfl := Except.ok.inj h
        exact hfinish _ _
      · obtain rfl := Except.ok.inj h
        exact hrefl
      · obtain rfl := Except.ok.inj h
        exact hfinish _ _
    · split at h
      · obtain rfl := Except.ok.inj h
        exact hrefl
      · split_ifs at h
        obtain rfl := Except.ok.inj h
        exact hrefl
    · obtain rfl := Except.ok.inj h
      exact hfinish _ _
  | take n =>
    obtain rfl := Except.ok.inj h
    exact hrefl

lemma answered_stays {answers : List (List UInt8 × Bool)} {s t : Responses} (hs : answers <+: s.answers)
    (he : s.act e = .ok t) : answers <+: t.answers := hs.trans (act_answers he)

/-- The frontend only moves `cons`. -/
lemma takes_frame {ns : List ℕ} (h : perform Responses.act r (ns.map .take) = .ok r') :
    r'.writer = r.writer ∧ r'.data = r.data ∧ r'.answers = r.answers := by
  induction ns generalizing r with
  | nil =>
    obtain rfl := Except.ok.inj h
    exact ⟨rfl,rfl,rfl⟩
  | cons n ns ih =>
    obtain ⟨s,hs,h⟩ := (perform_cons_eq_ok _).mp h
    obtain ⟨hwriter,hdata,hanswers⟩ := ih h
    obtain rfl := Except.ok.inj hs
    exact ⟨hwriter,hdata,hanswers⟩

/-- How many stages are left of a copy. -/
def Responses.left (r : Responses) : ℕ :=
  match r.writer with
  | .copy _ copied => r.data.length - copied + 1
  | _ => 0

/-- A call whose data are being copied. -/
structure Writing (data : List UInt8) (answers : List (List UInt8 × Bool)) (r : Responses) : Prop where
  writer : (∃ prod copied, r.writer = .copy prod copied) ∨ r.writer = .advance
  data : r.data = data
  answers : r.answers = answers

/-- It returns 0 at its last stage, and no event but its own stages leads there. -/
lemma Writing.act {data : List UInt8} {answers : List (List UInt8 × Bool)} (h : Writing data answers r)
    (hr : r.act e = .ok r') : answers ++ [(data,true)] <+: r'.answers ∨
      Writing data answers r' ∧ r'.left + (if e = .step then 1 else 0) ≤ r.left := by
  obtain ⟨hwriter,rfl,rfl⟩ := h
  cases e with
  | call data =>
    have hbusy : r.act (.call data) = .ok r := by
      rcases hwriter with ⟨prod,copied,hw⟩ | hw
      · rw [Responses.act, hw]
      · rw [Responses.act, hw]
    obtain rfl := Except.ok.inj (hbusy.symm.trans hr)
    exact .inr ⟨⟨hwriter,rfl,rfl⟩,by simp⟩
  | take n =>
    obtain rfl := Except.ok.inj hr
    exact .inr ⟨⟨hwriter,rfl,rfl⟩,by simp [Responses.left]⟩
  | step =>
    rcases hwriter with ⟨prod,copied,hw⟩ | hw
    · cases hbyte : r.data[copied]? with
      | none =>
        simp only [Responses.act, Responses.advanceWriter, hw, hbyte] at hr
        obtain rfl := Except.ok.inj hr
        exact .inr ⟨⟨.inr rfl,rfl,rfl⟩,by simp [Responses.left, hw]⟩
      | some byte =>
        obtain ⟨hlt,-⟩ := List.getElem?_eq_some_iff.mp hbyte
        simp only [Responses.act, Responses.advanceWriter, hw, hbyte] at hr
        split_ifs at hr
        obtain rfl := Except.ok.inj hr
        refine .inr ⟨⟨.inl ⟨prod,copied + 1,rfl⟩,rfl,rfl⟩,?_⟩
        simp only [Responses.left, hw, if_true]
        omega
    · simp only [Responses.act, Responses.advanceWriter, hw] at hr
      obtain rfl := Except.ok.inj hr
      exact .inl (List.prefix_refl _)

/-- What has been answered stays answered. -/
lemma answered_run {answers : List (List UInt8 × Bool)} {s t : Responses} {es : List ResponseEvent}
    (hs : answers <+: s.answers) (ht : perform Responses.act s es = .ok t) : answers <+: t.answers :=
  perform_invariant (fun _ _ _ => answered_stays) hs ht

/-- A call that looks at the indices again goes by what fits then. -/
lemma Responding.looks (h : Responding r) (hload : r.writer = .load) {more : List ResponseEvent}
    (hmeets : Meets Responses.act Takes r (.step :: more)) (hcount : r.data.length + 2 ≤ more.count .step)
    (hr : perform Responses.act r (.step :: more) = .ok r') :
    r.answers ++ [(r.data,decide (r.data.length ≤ outputChunk r.cons r.prod))] <+: r'.answers := by
  have hcheck : ringCheckIndexes r.cons r.prod = true := by
    have hused := h.used
    have hroom := h.room
    exact decide_eq_true (show r.used ≤ ringSize by omega)
  obtain ⟨s,hs,hrest⟩ := (perform_cons_eq_ok _).mp hr
  have hstep := hs
  simp only [Responses.act, Responses.advanceWriter, hload, hcheck, if_true] at hs
  split_ifs at hs with hroom
  · rw [decide_eq_false (Nat.not_le.mpr hroom)]
    obtain rfl := Except.ok.inj hs
    exact answered_run (List.prefix_refl _) hrest
  · rw [decide_eq_true (Nat.le_of_not_lt hroom)]
    have hwriting : Writing r.data r.answers { r with writer := .copy r.prod 0 } := ⟨.inl ⟨r.prod,0,rfl⟩,rfl,rfl⟩
    obtain rfl := Except.ok.inj hs
    refine (hmeets.2 _ hstep).reaches Responses.left (fun _ _ _ => answered_stays)
      (fun a e b ha _ he => ha.act he) hwriting ?_ hrest
    change r.data.length - 0 + 1 < _
    omega

/-- A call returns 0 if the ring is not full when it is made and its data fit when the indices are looked at again, and
-1 otherwise. -/
lemma Responding.answers (h : Responding r) (hw : r.writer = .idle) {data : List UInt8} {ns : List ℕ}
    {more : List ResponseEvent} (hmeets : Meets Responses.act Takes r ((.call data :: ns.map .take) ++ .step :: more))
    (hcount : data.length + 2 ≤ more.count .step) :
    ∃ s t, perform Responses.act r (.call data :: ns.map .take) = .ok s ∧
      perform Responses.act s (.step :: more) = .ok t ∧
      r.answers ++ [(data,decide (r.used < ringSize ∧ data.length ≤ outputChunk s.cons s.prod))] <+: t.answers := by
  obtain ⟨t,ht,-⟩ := hmeets.progress (fun _ _ ht hc => ht.act hc) h
  rw [perform_append] at ht
  obtain ⟨s,hs,ht⟩ := bind_eq_ok.mp ht
  refine ⟨s,t,hs,ht,?_⟩
  obtain ⟨hbefore,hafter⟩ := hmeets.append hs
  obtain ⟨s₀,hs₀,hresponding⟩ := hbefore.progress (fun _ _ ht hc => ht.act hc) h
  obtain rfl := Except.ok.inj (hs₀.symm.trans hs)
  obtain ⟨u,hu,htakes⟩ := (perform_cons_eq_ok _).mp hs
  have hle : r.used ≤ ringSize := by
    have hused := h.used
    have hroom := h.room
    omega
  simp only [Responses.act, hw] at hu
  split_ifs at hu with hfull hempty
  · obtain rfl := Except.ok.inj hu
    have hnot : ¬ (r.used < ringSize ∧ data.length ≤ outputChunk s₀.cons s₀.prod) := fun hfits => hfits.1.ne hfull
    rw [decide_eq_false hnot]
    exact answered_run ⟨[],(List.append_nil _).trans (takes_frame htakes).2.2.symm⟩ ht
  · obtain rfl := Except.ok.inj hu
    have hfits : r.used < ringSize ∧ data.length ≤ outputChunk s₀.cons s₀.prod :=
      ⟨Nat.lt_of_le_of_ne hle hfull,by rw [hempty]; exact Nat.zero_le _⟩
    rw [decide_eq_true hfits]
    exact answered_run ⟨[],(List.append_nil _).trans (takes_frame htakes).2.2.symm⟩ ht
  · obtain rfl := Except.ok.inj hu
    obtain ⟨hload,hdata,hanswers⟩ := takes_frame htakes
    have hlooks := hresponding.looks hload hafter (by rw [hdata]; exact hcount) ht
    rw [hdata, hanswers] at hlooks
    rwa [decide_eq_decide.mpr (and_iff_right (Nat.lt_of_le_of_ne hle hfull))]

/-- However the frontend and `ring_write` take turns, and however often the indices wrap: nothing is written outside of
the array, and the frontend finds the data of the calls that have returned 0, whole and in order, and those of no
other. A call returns after a number of stages that the length of its data bounds, whatever the frontend takes
meanwhile, and it returns 0 if and only if the ring is not full when it is made and its data fit, between the end of the
array and what the frontend has not taken out yet, when the indices are looked at again. -/
theorem responses_fifo {rsp : ℕ → UInt8} {events : List ResponseEvent} (hmeets : Meets Responses.act Takes { rsp } events) :
    ∃ r, perform Responses.act { rsp } events = .ok r ∧ r.used ≤ 1024 ∧ r.taken ++ r.unread = r.accepted ∧
      (r.writer = .idle → ∀ (data : List UInt8) (ns : List ℕ) (more : List ResponseEvent),
        Meets Responses.act Takes r ((.call data :: ns.map .take) ++ .step :: more) →
        data.length + 2 ≤ more.count .step →
        ∃ s t, perform Responses.act r (.call data :: ns.map .take) = .ok s ∧
          perform Responses.act s (.step :: more) = .ok t ∧
          r.answers ++ [(data,decide (r.used < 1024 ∧ data.length ≤ outputChunk s.cons s.prod))] <+: t.answers) := by
  obtain ⟨r,hr,h⟩ := hmeets.progress (fun _ _ ht hc => ht.act hc) (responding_init rsp)
  have hused := h.used
  have hroom := h.room
  refine ⟨r,hr,?_,?_,fun hw data ns more hmore hcount => h.answers hw hmore hcount⟩
  · unfold ringSize at hroom
    omega
  · obtain ⟨rest,hrest⟩ := h.taken
    have hall : (r.accepted.drop r.taken.length).take r.used = r.accepted.drop r.taken.length :=
      List.take_of_length_le (by rw [List.length_drop,hused])
    rw [Responses.unread, h.read (Nat.le_refl _), hall, ← hrest, List.drop_left]

end Invariant

/-- A first response of two bytes. -/
def firstResponse : List ResponseEvent := .call [1,2] :: List.replicate 5 .step

/-- The second one is begun, and the frontend takes a byte of the first while the call is about to look at the indices
again. -/
def secondCall : List ResponseEvent := [.call [3,4],.take 1]

/-- It takes another one while that call copies. -/
def secondCopy : List ResponseEvent := .step :: .take 1 :: List.replicate 4 .step

/-- Both calls return 0. -/
theorem responses_fifo_pair : ∃ r, perform Responses.act { rsp := fun _ => 0 } firstResponse = .ok r ∧
    r.taken ++ r.unread = r.accepted ∧
    ∃ s t, perform Responses.act r secondCall = .ok s ∧ perform Responses.act s (.step :: secondCopy) = .ok t ∧
      [([1,2],true),([3,4],true)] <+: t.answers := by
  have hmeets : Meets Responses.act Takes { rsp := fun _ => 0 } (firstResponse ++ (secondCall ++ .step :: secondCopy)) := by
    decide +kernel
  obtain ⟨r,hr,-,hbytes,hanswers⟩ := responses_fifo (show Meets Responses.act Takes { rsp := fun _ => 0 } firstResponse by
    decide +kernel)
  have hfirst : (perform Responses.act { rsp := fun _ => 0 } firstResponse).toOption.map
      (fun r => (r.writer,r.answers,r.used)) = some (.idle,[([1,2],true)],2) := by
    decide +kernel
  have hroom : (perform Responses.act { rsp := fun _ => 0 } (firstResponse ++ secondCall)).toOption.map
      (fun s => outputChunk s.cons s.prod) = some 1022 := by
    decide +kernel
  obtain ⟨s,t,hs,ht,hpre⟩ := hanswers (by rw [hr] at hfirst; exact congrArg Prod.fst (Option.some.inj hfirst)) [3,4] [1]
    secondCopy (hmeets.append hr).2 (by decide)
  rw [hr] at hfirst
  obtain ⟨-,hgiven,hused⟩ := by simpa [Except.toOption] using hfirst
  rw [perform_append, hr, ok_bind, show perform Responses.act r secondCall = .ok s from hs] at hroom
  have hchunk : outputChunk s.cons s.prod = 1022 := Option.some.inj hroom
  rw [hgiven, hused, hchunk] at hpre
  exact ⟨r,hr,hbytes,s,t,hs,ht,hpre⟩

end Xctools.Audio
