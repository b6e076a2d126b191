import Mathlib.Data.List.Basic
import Mathlib.Data.List.Range
import Mathlib.Data.List.Flatten

/-! Streams that carry messages one after the other, and what of a stream a writer gets through a
socket that may take less than it is offered. -/
namespace Xctools.Machine

section Framing
variable {α β : Type*} (need : List α → ℤ)

/-- Cut a stream into messages, at most `n` of them: `need` says how long the first one is. What is
left when the first message is not complete belongs to no message. -/
def frames : ℕ → List α → List (List α)
  | 0, _ => []
  | n + 1, l =>
    if 0 < need l ∧ need l ≤ l.length then
      l.take (need l).toNat :: frames n (l.drop (need l).toNat)
    else []

/-- The messages of a stream. -/
def messages (l : List α) : List (List α) := frames need l.length l

/-- A complete message is recognised whatever comes after it. -/
def Framing : Prop := ∀ m rest : List α, m ≠ [] → need m = m.length → need (m ++ rest) = m.length

variable {need}

theorem Framing.map (h : Framing need) (f : β → α) : Framing fun l => need (l.map f) := by
  intro m rest hm hn
  have := h (m.map f) (rest.map f) (by simpa using hm) (by simpa using hn)
  simpa using this

theorem Framing.frames_flatten (h : Framing need) {chunks : List (List α)}
    (hc : ∀ c ∈ chunks, c ≠ [] ∧ need c = c.length) {n : ℕ} (hn : chunks.length ≤ n) :
    frames need n chunks.flatten = chunks := by
  induction chunks generalizing n with
  | nil =>
    cases n with
    | zero => rfl
    | succ n =>
      have hk : ¬ (0 < need ([] : List α) ∧ need ([] : List α) ≤ 0) := by omega
      simp [frames, hk]
  | cons c chunks ih =>
    obtain ⟨⟨hne,hlen⟩,hrest⟩ := List.forall_mem_cons.mp hc
    cases n with
    | zero => simp at hn
    | succ n =>
      have hneed : need (c ++ chunks.flatten) = c.length := h c chunks.flatten hne hlen
      have hpos : 0 < c.length := List.length_pos_iff.mpr hne
      have hk : 0 < (c.length : ℤ) ∧ (c.length : ℤ) ≤ (c ++ chunks.flatten).length := by
        simp only [List.length_append]
        omega
      rw [List.flatten_cons, frames, hneed, if_pos hk, Int.toNat_natCast, List.take_left,
        List.drop_left, ih hrest (by simpa using hn)]

/-- A stream of whole messages is cut exactly where they were put together. -/
theorem Framing.messages_flatten (h : Framing need) {chunks : List (List α)}
    (hc : ∀ c ∈ chunks, c ≠ [] ∧ need c = c.length) : messages need chunks.flatten = chunks := by
  apply h.frames_flatten hc
  clear h
  induction chunks with
  | nil => simp
  | cons c chunks ih =>
    obtain ⟨⟨hne,-⟩,hrest⟩ := List.forall_mem_cons.mp hc
    have hpos : 0 < c.length := List.length_pos_iff.mpr hne
    have := ih hrest
    simp only [List.flatten_cons, List.length_append, List.length_cons]
    omega

end Framing

section Reassembly
variable {α : Type*} {ms : List (List α)} {m received pending : List α} {k : ℕ}

/-- What was received of a stream of messages: the first `k` of them, and the beginning of the rest. -/
structure Reassembled (ms : List (List α)) (received : List α) (k : ℕ) (pending : List α) : Prop where
  received : received = (ms.take k).flatten ++ pending
  ahead : pending <+: (ms.drop k).flatten

lemma reassembled_nil (ms : List (List α)) : Reassembled ms [] 0 [] := ⟨rfl,List.nil_prefix⟩

/-- More of the stream comes in. -/
lemma Reassembled.receive (h : Reassembled ms received k pending) {chunk : List α}
    (hchunk : received ++ chunk <+: ms.flatten) : Reassembled ms (received ++ chunk) k (pending ++ chunk) where
  received := by rw [h.received, List.append_assoc]
  ahead := by
    have hsplit : ms.flatten = (ms.take k).flatten ++ (ms.drop k).flatten := by
      rw [← List.flatten_append, List.take_append_drop]
    rwa [h.received, List.append_assoc, hsplit, List.prefix_append_right_inj] at hchunk

/-- The next message is complete. -/
lemma Reassembled.next (h : Reassembled ms received k pending) (hm : ms[k]? = some m)
    (hlen : m.length ≤ pending.length) : pending.take m.length = m ∧
      Reassembled ms received (k + 1) (pending.drop m.length) := by
  obtain ⟨hk,rfl⟩ := List.getElem?_eq_some_iff.mp hm
  have hahead := h.ahead
  rw [List.drop_eq_getElem_cons hk, List.flatten_cons] at hahead
  obtain ⟨rest,rfl⟩ : ms[k] <+: pending := List.prefix_of_prefix_length_le (List.prefix_append _ _) hahead hlen
  refine ⟨List.take_left,?_,?_⟩
  · have htake : ms.take (k + 1) = ms.take k ++ [ms[k]] := by
      rw [List.take_add_one, hm]
      rfl
    rw [h.received, List.drop_left, htake, List.flatten_append, List.flatten_singleton, List.append_assoc]
  · rw [List.drop_left]
    rwa [List.prefix_append_right_inj] at hahead

/-- Something is pending only where there is a message to come. -/
lemma Reassembled.exists_next (h : Reassembled ms received k pending) (hne : pending ≠ []) :
    ∃ m, ms[k]? = some m ∧ pending <+: m ++ (ms.drop (k + 1)).flatten := by
  have hahead := h.ahead
  by_cases hk : k < ms.length
  · rw [List.drop_eq_getElem_cons hk, List.flatten_cons] at hahead
    exact ⟨ms[k],List.getElem?_eq_getElem hk,hahead⟩
  · rw [List.drop_eq_nil_of_le (Nat.le_of_not_lt hk)] at hahead
    exact absurd (List.prefix_nil.mp hahead) hne

end Reassembly

/-- What is in a part is in the parts put together. -/
theorem mem_intercalate {α : Type*} {x : α} (sep : List α) {l : List (List α)} {t : List α} (ht : t ∈ l)
    (hx : x ∈ t) : x ∈ sep.intercalate l := by
  induction l with
  | nil => cases ht
  | cons t' l ih =>
    cases l with
    | nil =>
      obtain rfl := List.mem_singleton.mp ht
      rwa [List.intercalate_singleton]
    | cons t'' l =>
      rw [List.intercalate_cons_cons, List.mem_append, List.mem_append]
      rcases List.mem_cons.mp ht with rfl | ht
      · exact .inl (.inl hx)
      · exact .inr (ih ht)

/-- What is neither in a separator nor in a part is not in the parts put together. -/
theorem notMem_intercalate {α : Type*} {x : α} {sep : List α} {l : List (List α)} (hsep : x ∉ sep)
    (h : ∀ t ∈ l, x ∉ t) : x ∉ sep.intercalate l := by
  induction l with
  | nil => exact List.not_mem_nil
  | cons t l ih =>
    obtain ⟨ht,hl⟩ := List.forall_mem_cons.mp h
    cases l with
    | nil =>
      rw [List.intercalate_singleton]
      exact ht
    | cons t' l =>
      rw [List.intercalate_cons_cons, List.mem_append, List.mem_append]
      rintro ((hmem | hmem) | hmem)
      · exact ht hmem
      · exact hsep hmem
      · exact ih hl hmem

/-- Blocks of one length fill a multiple of it. -/
theorem length_flatten_blocks {α : Type*} {n : ℕ} {bs : List (List α)} (hb : ∀ b ∈ bs, b.length = n) :
    bs.flatten.length = bs.length * n := by
  induction bs with
  | nil => exact (Nat.zero_mul n).symm
  | cons b bs ih =>
    obtain ⟨hb,hbs⟩ := List.forall_mem_cons.mp hb
    rw [List.flatten_cons, List.length_append, hb, ih hbs, List.length_cons, Nat.succ_mul, Nat.add_comm]

/-- Blocks of one length stay together. -/
theorem prefix_of_flatten_prefix {α : Type*} {n : ℕ} (hn : 0 < n) {bs rs : List (List α)}
    (hb : ∀ b ∈ bs, b.length = n) (hr : ∀ r ∈ rs, r.length = n) (h : bs.flatten <+: rs.flatten) : bs <+: rs := by
  induction bs generalizing rs with
  | nil => exact List.nil_prefix
  | cons b bs ih =>
    obtain ⟨hb,hbs⟩ := List.forall_mem_cons.mp hb
    cases rs with
    | nil =>
      have hlen := h.length_le
      rw [List.flatten_cons, List.length_append, hb, List.flatten_nil, List.length_nil] at hlen
      omega
    | cons r rs =>
      obtain ⟨hr,hrs⟩ := List.forall_mem_cons.mp hr
      rw [List.flatten_cons, List.flatten_cons] at h
      have hhead : b = r := by
        have hbr : b <+: r := List.prefix_of_prefix_length_le ((List.prefix_append _ _).trans h)
          (List.prefix_append _ _) (Nat.le_of_eq (hb.trans hr.symm))
        exact hbr.eq_of_length (hb.trans hr.symm)
      subst hhead
      rw [List.prefix_append_right_inj] at h
      exact List.cons_prefix_cons.mpr ⟨rfl,ih hbs hrs h⟩

theorem length_flatMap_le {α β : Type*} {f g : α → List β} {l : List α}
    (h : ∀ x ∈ l, (f x).length ≤ (g x).length) : (l.flatMap f).length ≤ (l.flatMap g).length := by
  induction l with
  | nil => exact Nat.le_refl 0
  | cons x l ih =>
    obtain ⟨hx,hl⟩ := List.forall_mem_cons.mp h
    rw [List.flatMap_cons, List.flatMap_cons, List.length_append, List.length_append]
    exact Nat.add_le_add hx (ih hl)

/-- Two sequences of pieces come to the same only piece by piece, where none of the one is longer than that of
the other. -/
theorem flatMap_eq_flatMap_iff {α β : Type*} {f g : α → List β} {l : List α}
    (h : ∀ x ∈ l, (f x).length ≤ (g x).length) : l.flatMap f = l.flatMap g ↔ ∀ x ∈ l, f x = g x := by
  induction l with
  | nil => simp
  | cons x l ih =>
    obtain ⟨hx,hl⟩ := List.forall_mem_cons.mp h
    rw [List.flatMap_cons, List.flatMap_cons, List.forall_mem_cons, ← ih hl]
    constructor
    · intro heq
      have hlength := congrArg List.length heq
      rw [List.length_append, List.length_append] at hlength
      have hrest := length_flatMap_le hl
      exact List.append_inj heq (by omega)
    · rintro ⟨hhead,hrest⟩
      rw [hhead, hrest]

/-- A condition on each entry of a list, those before it and those after it, entry by entry. -/
theorem forall_split_cons {α : Type*} {P : List α → α → List α → Prop} {x : α} {l : List α} :
    (∀ before y after, x :: l = before ++ y :: after → P before y after) ↔
      P [] x l ∧ ∀ before y after, l = before ++ y :: after → P (x :: before) y after := by
  constructor
  · intro h
    exact ⟨h [] x l rfl,fun before y after hl => h (x :: before) y after (by rw [hl]; rfl)⟩
  · rintro ⟨hx,hl⟩ before y after he
    cases before with
    | nil =>
      obtain ⟨rfl,rfl⟩ := List.cons.inj he
      exact hx
    | cons u before =>
      obtain ⟨rfl,hrest⟩ := List.cons.inj he
      exact hl before y after hrest

section ShortWrites
variable {α : Type*}

/-- One `send`: what was offered and how much of it the socket took. -/
structure Send (α : Type*) where
  offered : List α
  taken : ℕ
  le : taken ≤ offered.length

/-- What the writer wanted to get through. -/
def offered (l : List (Send α)) : List α := l.flatMap Send.offered

/-- What got through. -/
def taken (l : List (Send α)) : List α := l.flatMap fun s => s.offered.take s.taken

/-- Which positions of the offered stream got through, from position `start` on. -/
def positions : ℕ → List (Send α) → List ℕ
  | _, [] => []
  | start, s :: l => List.range' start s.taken ++ positions (start + s.offered.length) l

/-- What got through is the beginning of the offered stream, position by position. -/
def Lossless (l : List (Send α)) : Prop := ∃ n, positions 0 l = List.range n

/-- After a send that was not taken whole, nothing more is taken. -/
def QuietAfterShort (l : List (Send α)) : Prop :=
  ∀ before s after, l = before ++ s :: after → s.taken < s.offered.length →
    ∀ t ∈ after, t.taken = 0

lemma positions_eq_nil {l : List (Send α)} (start : ℕ) (h : ∀ t ∈ l, t.taken = 0) :
    positions start l = [] := by
  induction l generalizing start with
  | nil => rfl
  | cons s l ih =>
    obtain ⟨hs,hl⟩ := List.forall_mem_cons.mp h
    simp [positions, hs, ih _ hl]

lemma le_of_mem_positions {l : List (Send α)} {start p : ℕ} (h : p ∈ positions start l) :
    start ≤ p := by
  induction l generalizing start with
  | nil => simp [positions] at h
  | cons s l ih =>
    rcases List.mem_append.mp h with h | h
    · exact (List.mem_range'_1.mp h).1
    · have := ih h
      omega

lemma taken_eq_zero_of_positions {l : List (Send α)} {start : ℕ} (h : positions start l = []) :
    ∀ t ∈ l, t.taken = 0 := by
  induction l generalizing start with
  | nil => simp
  | cons s l ih =>
    obtain ⟨hs,hl⟩ := List.append_eq_nil_iff.mp h
    refine List.forall_mem_cons.mpr ⟨?_,ih hl⟩
    simpa using hs

lemma quietAfterShort_cons {s : Send α} {l : List (Send α)} : QuietAfterShort (s :: l) ↔
    (s.taken < s.offered.length → ∀ t ∈ l, t.taken = 0) ∧ QuietAfterShort l :=
  forall_split_cons

lemma eq_range'_of_append {start k n : ℕ} {rest : List ℕ}
    (h : List.range' start k ++ rest = List.range' start n) :
    rest = List.range' (start + k) (n - k) := by
  have hlen := congrArg List.length h
  simp only [List.length_append, List.length_range'] at hlen
  have hn : n = k + (n - k) := by omega
  rw [hn, ← List.range'_append_1] at h
  exact List.append_cancel_left h

lemma positions_eq_range'_iff (l : List (Send α)) (start : ℕ) :
    (∃ n, positions start l = List.range' start n) ↔ QuietAfterShort l := by
  induction l generalizing start with
  | nil =>
    simp only [positions, QuietAfterShort]
    exact ⟨fun _ _ _ _ h => by simp at h,fun _ => ⟨0,rfl⟩⟩
  | cons s l ih =>
    rw [quietAfterShort_cons, ← ih (start + s.offered.length)]
    constructor
    · rintro ⟨n,hn⟩
      have hrest := eq_range'_of_append hn
      -- a short send leaves a gap that no later position can fill
      have hshort : s.taken < s.offered.length → n - s.taken = 0 := by
        intro hs
        by_contra hne
        have hmem : start + s.taken ∈ positions (start + s.offered.length) l := by
          rw [hrest, List.mem_range'_1]
          omega
        have := le_of_mem_positions hmem
        omega
      constructor
      · intro hs
        rw [hshort hs] at hrest
        exact taken_eq_zero_of_positions hrest
      · by_cases hs : s.taken < s.offered.length
        · exact ⟨0,by rw [hrest, hshort hs]; rfl⟩
        · have hle := s.le
          have hfull : s.taken = s.offered.length := by omega
          exact ⟨n - s.taken,by rw [hrest, hfull]⟩
    · rintro ⟨hq,n,hn⟩
      by_cases hs : s.taken < s.offered.length
      · exact ⟨s.taken,by rw [positions, positions_eq_nil _ (hq hs), List.append_nil]⟩
      · have hle := s.le
        have hfull : s.taken = s.offered.length := by omega
        exact ⟨s.offered.length + n,by rw [positions, hfull, hn, List.range'_append_1]⟩

/-- Nothing is lost in the middle exactly when a short send is the last to get anything through. -/
theorem lossless_iff (l : List (Send α)) : Lossless l ↔ QuietAfterShort l := by
  rw [← positions_eq_range'_iff l 0]
  simp [Lossless, List.range_eq_range']

lemma QuietAfterShort.taken_prefix {l : List (Send α)} (h : QuietAfterShort l) :
    taken l <+: offered l := by
  induction l with
  | nil => exact List.prefix_rfl
  | cons s l ih =>
    obtain ⟨hs,hl⟩ := quietAfterShort_cons.mp h
    simp only [taken, offered, List.flatMap_cons] at ih ⊢
    by_cases hshort : s.taken < s.offered.length
    · have hnil : (l.flatMap fun t => t.offered.take t.taken) = [] := by
        simp only [List.flatMap_eq_nil_iff]
        intro t ht
        simp [hs hshort t ht]
      rw [hnil, List.append_nil]
      exact (List.take_prefix _ _).trans (List.prefix_append _ _)
    · rw [List.take_of_length_le (Nat.not_lt.mp hshort)]
      exact (List.prefix_append_right_inj _).mpr (ih hl)

end ShortWrites

end Xctools.Machine
