import Xctools.Machine.RingBuffer
import Xctools.Machine.Run

/-! The request ring of the audio daemon, `ring.c`. The frontend writes bytes behind `req_prod` and moves it
on; `ring_read` takes them out, chunk by chunk, and moves `req_cons`. The two run side by side: a step is one
access of the frontend or one stage of `ring_read`, which copies byte by byte. -/
namespace Xctools.Audio
open Machine

section Indices

/-- `XC_RING_SIZE`. -/
def ringSize : ℕ := 1024

/-- The indices are 32 bits wide. -/
def idxWidth : ℕ := 2 ^ 32

/-- `MASK_XC_RING_IDX`. -/
def mask (idx : ℕ) : ℕ := idx % ringSize

/-- `ring_check_indexes`. -/
def ringCheckIndexes (cons prod : ℕ) : Bool := wrapSub idxWidth prod cons ≤ ringSize

/-- The length that `ring_get_input_chunk` finds: to the end of the array or to `prod`. -/
def inputChunk (cons prod : ℕ) : ℕ := min (ringSize - mask cons) (wrapSub idxWidth prod cons)

end Indices

section State

/-- Where `ring_read` is, with the length that is left: at the head of the loop, behind the test for data, in
the middle of the copy, and before `req_cons` is moved. -/
inductive Reader
  | idle
  | test (len : ℕ)
  | load (len : ℕ)
  | copy (len cons avail copied : ℕ)
  | advance (len avail : ℕ)
  deriving DecidableEq, Repr

/-- How a call of `ring_read` ends: it has copied all that was asked for, has found the ring empty, or has
found indices that cannot be and has set them to zero. -/
inductive ReadResult
  | full (len : ℕ)
  | empty
  | reset
  deriving DecidableEq, Repr

/-- The value that is returned. The length becomes an int. -/
def ReadResult.rc : ReadResult → ℤ
  | .full len => if len % 2 ^ 32 < 2 ^ 31 then len % 2 ^ 32 else len % 2 ^ 32 - 2 ^ 32
  | .empty => 0
  | .reset => -1

/-- A call of `ring_read` that has returned: what it was asked for, the bytes it has copied, and its end. -/
structure ReadCall where
  asked : ℕ
  got : List UInt8
  result : ReadResult
  deriving DecidableEq, Repr

/-- The ring and its two users. `staged` are the bytes that the frontend has written behind `prod`. For the
call of `ring_read` that is under way, `asked` is its length and `got` what it has copied; `calls` are those
before. Two things are kept to speak about: the bytes that were handed over by moving `prod`, and how far
`cons` has been moved in all. -/
structure Ring where
  req : ℕ → UInt8
  cons : ℕ
  prod : ℕ
  staged : List UInt8
  reader : Reader
  asked : ℕ
  got : List UInt8
  calls : List ReadCall
  produced : List UInt8
  consumed : ℕ

/-- `ring_init`, with whatever is in the array. -/
def ringInit (req : ℕ → UInt8) : Ring where
  req := req
  cons := 0
  prod := 0
  staged := []
  reader := .idle
  asked := 0
  got := []
  calls := []
  produced := []
  consumed := 0

/-- The bytes between the indices. -/
def Ring.used (r : Ring) : ℕ := wrapSub idxWidth r.prod r.cons

/-- `ring_data_to_read`. -/
def Ring.dataToRead (r : Ring) : Bool := r.cons ≠ r.prod

/-- A call of `ring_read` returns. -/
def Ring.finish (r : Ring) (result : ReadResult) : Ring :=
  { r with reader := .idle, got := [], calls := r.calls ++ [⟨r.asked,r.got,result⟩] }

/-- The next stage of `ring_read`. -/
def Ring.advanceReader (r : Ring) : Outcome Ring :=
  match r.reader with
  | .idle => .ok r
  | .test len =>
    if len = 0 then .ok (r.finish (.full r.asked))
    else if r.dataToRead then .ok { r with reader := .load len }
    else .ok (r.finish .empty)
  | .load len =>
    if ringCheckIndexes r.cons r.prod then
      let avail := inputChunk r.cons r.prod
      if avail = 0 then .ok { r with reader := .test len }
      else .ok { r with reader := .copy len r.cons (min avail len) 0 }
    else .ok ({ r with cons := 0, prod := 0 }.finish .reset)
  | .copy len cons avail copied =>
    if copied = avail then .ok { r with reader := .advance len avail }
    else if mask cons + copied < ringSize then
      let byte := r.req (mask cons + copied)
      .ok { r with reader := .copy len cons avail (copied + 1), got := r.got ++ [byte] }
    else .error .bounds
  | .advance len avail =>
    .ok { r with
      reader := .test (len - avail)
      cons := (r.cons + avail) % idxWidth
      consumed := r.consumed + avail }

/-- What the frontend and the daemon do. -/
inductive RingEvent
  | write (byte : UInt8)
  | publish (n : ℕ)
  | call (len : ℕ)
  | step
  deriving DecidableEq, Repr

/-- One access. A call that comes while another one is under way has to wait. -/
def Ring.act (r : Ring) : RingEvent → Outcome Ring
  | .write byte =>
    .ok { r with
      req := Function.update r.req (mask ((r.prod + r.staged.length) % idxWidth)) byte
      staged := r.staged ++ [byte] }
  | .publish n =>
    .ok { r with
      prod := (r.prod + n) % idxWidth
      staged := r.staged.drop n
      produced := r.produced ++ r.staged.take n }
  | .call len =>
    match r.reader with
    | .idle => .ok { r with reader := .test len, asked := len, got := [] }
    | _ => .ok r
  | .step => r.advanceReader

/-- The frontend keeps to the free space, and hands over what it has written. -/
def Contract (r : Ring) : RingEvent → Prop
  | .write _ => r.used + r.staged.length < ringSize
  | .publish n => n ≤ r.staged.length
  | _ => True

instance (r : Ring) (e : RingEvent) : Decidable (Contract r e) :=
  match e with
  | .write _ => inferInstanceAs (Decidable (r.used + r.staged.length < ringSize))
  | .publish n => inferInstanceAs (Decidable (n ≤ r.staged.length))
  | .call _ => inferInstanceAs (Decidable True)
  | .step => inferInstanceAs (Decidable True)

/-- All bytes that calls of `ring_read` have copied, those of the call under way at the end. -/
def Ring.delivered (r : Ring) : List UInt8 := r.calls.flatMap ReadCall.got ++ r.got

/-- The bytes between the indices, from `cons` on. -/
def Ring.unread (r : Ring) : List UInt8 := (List.range r.used).map fun i => r.req (mask ((r.cons + i) % idxWidth))

/-- What was handed over and has not been copied. -/
def Ring.ahead (r : Ring) : List UInt8 := r.produced.drop r.delivered.length

/-- What the call under way has to end with if the frontend hands over no more: the bytes it lacks, or all there
are. -/
def Ring.answer (r : Ring) : ReadCall where
  asked := r.asked
  got := r.got ++ r.ahead.take (r.asked - r.got.length)
  result := if r.asked - r.got.length ≤ r.ahead.length then .full r.asked else .empty

/-- A call returns its length and has copied so much, or it returns that the ring is empty and has copied less. -/
def ReadCall.Answered (c : ReadCall) : Prop :=
  match c.result with
  | .full len => len = c.asked ∧ c.got.length = c.asked
  | .empty => c.got.length < c.asked
  | .reset => False

/-- `ring_read` is about to find the ring empty. -/
def Ring.findsEmpty (r : Ring) : Bool :=
  match r.reader with
  | .test len => len ≠ 0 && !r.dataToRead
  | _ => false

end State

section Invariant
variable {r r' : Ring}

/-- What has been copied but not yet taken out. -/
def Reader.copied : Reader → ℕ
  | .copy _ _ _ copied => copied
  | .advance _ avail => avail
  | _ => 0

/-- How many stages are left at most. -/
def Reader.left : Reader → ℕ
  | .idle => 0
  | .test len => 5 * len
  | .load len => 5 * len - 1
  | .copy len _ avail copied => 5 * (len - avail) + (avail - copied) + 2
  | .advance len avail => 5 * (len - avail) + 1

/-- What a stage of `ring_read` relies on. -/
def Reader.Sound (r : Ring) : Reader → Prop
  | .idle => r.got = []
  | .test len => r.got.length + len = r.asked
  | .load len => r.got.length + len = r.asked ∧ 0 < len ∧ r.consumed < r.produced.length
  | .copy len cons avail copied => r.got.length + len = r.asked + copied ∧ cons = r.cons ∧ copied ≤ avail ∧
      avail ≤ len ∧ r.consumed + avail ≤ r.produced.length ∧ mask r.cons + avail ≤ ringSize
  | .advance len avail => r.got.length + len = r.asked + avail ∧ avail ≤ len ∧
      r.consumed + avail ≤ r.produced.length

/-- The frontend does not disturb a call. -/
lemma Reader.Sound.mono {reader : Reader} (h : reader.Sound r) (hgot : r'.got = r.got) (hasked : r'.asked = r.asked)
    (hcons : r'.cons = r.cons) (hconsumed : r'.consumed = r.consumed)
    (hproduced : r.produced.length ≤ r'.produced.length) : reader.Sound r' := by
  cases reader with
  | idle => exact hgot.trans h
  | test len =>
    change r'.got.length + len = r'.asked
    rw [hgot, hasked]
    exact h
  | load len =>
    obtain ⟨hsum,hlen,hmore⟩ := h
    refine ⟨?_,hlen,?_⟩
    · rw [hgot, hasked]
      exact hsum
    · rw [hconsumed]
      exact hmore.trans_le hproduced
  | copy len cons avail copied =>
    obtain ⟨hsum,hc,hle,hlen,havail,hmask⟩ := h
    refine ⟨?_,hc.trans hcons.symm,hle,hlen,?_,?_⟩
    · rw [hgot, hasked]
      exact hsum
    · rw [hconsumed]
      exact havail.trans hproduced
    · rw [hcons]
      exact hmask
  | advance len avail =>
    obtain ⟨hsum,hlen,havail⟩ := h
    refine ⟨?_,hlen,?_⟩
    · rw [hgot, hasked]
      exact hsum
    · rw [hconsumed]
      exact havail.trans hproduced

/-- The indices are the lengths of the two streams, the cells hold what is between them and what is staged,
and the bytes that were copied are those that were handed over. -/
structure Synced (r : Ring) : Prop where
  cons : r.cons = r.consumed % idxWidth
  prod : r.prod = r.produced.length % idxWidth
  behind : r.consumed ≤ r.produced.length
  room : r.produced.length + r.staged.length ≤ r.consumed + ringSize
  cells : Holds ringSize r.req r.consumed (r.produced ++ r.staged)
  delivered : r.delivered = r.produced.take (r.consumed + r.reader.copied)
  reader : r.reader.Sound r
  calls : ∀ c ∈ r.calls, c.Answered

lemma synced_ringInit (req : ℕ → UInt8) : Synced (ringInit req) where
  cons := rfl
  prod := rfl
  behind := Nat.le_refl 0
  room := by simp [ringInit, ringSize]
  cells := by intro k _ x hx; simp [ringInit] at hx
  delivered := rfl
  reader := rfl
  calls := by simp [ringInit]

/-- The distance of the indices is what is in the ring. -/
lemma Synced.used (h : Synced r) : r.used = r.produced.length - r.consumed := by
  have hroom := h.room
  have hbehind := h.behind
  rw [Ring.used, h.cons, h.prod]
  apply wrapSub_mod hbehind
  unfold ringSize at hroom
  unfold idxWidth
  omega

lemma Synced.used_le (h : Synced r) : r.used ≤ ringSize := by
  have hroom := h.room
  rw [h.used]
  omega

/-- The indices are equal when everything has been taken out. -/
lemma Synced.dataToRead (h : Synced r) : r.dataToRead = true ↔ r.consumed < r.produced.length := by
  have hroom := h.room
  have hbehind := h.behind
  rw [Ring.dataToRead, decide_eq_true_iff, h.cons, h.prod]
  constructor
  · intro hne
    refine Nat.lt_of_le_of_ne hbehind fun he => hne ?_
    rw [he]
  · intro hlt he
    refine Nat.ne_of_lt hlt (eq_of_mod_eq hbehind ?_ he)
    unfold ringSize at hroom
    unfold idxWidth
    omega

lemma mask_idx (n : ℕ) : mask (n % idxWidth) = mask n := by
  unfold mask ringSize idxWidth
  omega

lemma Synced.copied_le (h : Synced r) : r.consumed + r.reader.copied ≤ r.produced.length := by
  have hbehind := h.behind
  have hreader := h.reader
  cases hr : r.reader with
  | copy len cons avail copied =>
    rw [hr] at hreader
    obtain ⟨-,-,hle,-,havail,-⟩ := hreader
    change r.consumed + copied ≤ _
    omega
  | advance len avail =>
    rw [hr] at hreader
    exact hreader.2.2
  | idle => exact hbehind
  | test len => exact hbehind
  | load len => exact hbehind

lemma Synced.delivered_length (h : Synced r) : r.delivered.length = r.consumed + r.reader.copied := by
  rw [h.delivered, List.length_take, Nat.min_eq_left h.copied_le]

lemma Synced.write (h : Synced r) {byte : UInt8} (hc : Contract r (.write byte))
    (hr : r.act (.write byte) = .ok r') : Synced r' := by
  obtain rfl := Except.ok.inj hr
  have hused := h.used
  have hbehind := h.behind
  change r.used + r.staged.length < ringSize at hc
  have hcell : mask ((r.prod + r.staged.length) % idxWidth) = (r.produced ++ r.staged).length % ringSize := by
    rw [mask_idx, h.prod, List.length_append]
    unfold mask ringSize idxWidth
    omega
  refine ⟨h.cons,h.prod,h.behind,?_,?_,h.delivered,h.reader.mono rfl rfl rfl rfl (Nat.le_refl _),h.calls⟩
  · simp only [List.length_append, List.length_singleton]
    omega
  · rw [hcell, ← List.append_assoc]
    apply h.cells.push
    rw [List.length_append]
    omega

lemma Synced.publish (h : Synced r) {n : ℕ} (hc : Contract r (.publish n))
    (hr : r.act (.publish n) = .ok r') : Synced r' := by
  obtain rfl := Except.ok.inj hr
  have hcopied := h.copied_le
  have hbehind := h.behind
  have hroom := h.room
  change n ≤ r.staged.length at hc
  have hlen : (r.produced ++ r.staged.take n).length = r.produced.length + n := by
    rw [List.length_append, List.length_take, Nat.min_eq_left hc]
  refine ⟨h.cons,?_,?_,?_,?_,?_,?_,h.calls⟩
  · change (r.prod + n) % idxWidth = (r.produced ++ r.staged.take n).length % idxWidth
    rw [hlen, h.prod, Nat.mod_add_mod]
  · change r.consumed ≤ (r.produced ++ r.staged.take n).length
    omega
  · change (r.produced ++ r.staged.take n).length + (r.staged.drop n).length ≤ r.consumed + ringSize
    rw [hlen, List.length_drop]
    omega
  · change Holds ringSize r.req r.consumed (r.produced ++ r.staged.take n ++ r.staged.drop n)
    rw [List.append_assoc, List.take_append_drop]
    exact h.cells
  · change r.delivered = (r.produced ++ r.staged.take n).take (r.consumed + r.reader.copied)
    rw [List.take_append_of_le_length hcopied]
    exact h.delivered
  · refine Reader.Sound.mono h.reader rfl rfl rfl rfl ?_
    change r.produced.length ≤ (r.produced ++ r.staged.take n).length
    omega

/-- A byte of the chunk is the next one of the stream. -/
lemma Synced.byte (h : Synced r) {copied : ℕ} (hmask : mask r.cons + copied < ringSize)
    (hlt : r.consumed + copied < r.produced.length) :
    r.produced[r.consumed + copied]? = some (r.req (mask r.cons + copied)) := by
  have hcell : mask r.cons + copied = (r.consumed + copied) % ringSize := by
    rw [h.cons, mask_idx] at hmask ⊢
    unfold mask ringSize at *
    omega
  have hget : (r.produced ++ r.staged)[r.consumed + copied]? = some r.produced[r.consumed + copied] := by
    rw [List.getElem?_append_left hlt, List.getElem?_eq_getElem hlt]
  rw [List.getElem?_eq_getElem hlt, hcell, h.cells _ (Nat.le_add_right _ _) _ hget]

/-- A stage of `ring_read` that is not its last. -/
structure GoesOn (r r' : Ring) : Prop where
  synced : Synced r'
  busy : r'.reader ≠ .idle
  left : r'.reader.left < r.reader.left
  calls : r'.calls = r.calls
  asked : r'.asked = r.asked
  answer : r'.answer = r.answer

/-- The last stage: what has been copied is what the call had to end with. -/
structure Returns (r r' : Ring) : Prop where
  synced : Synced r'
  reader : r'.reader = .idle
  calls : r'.calls = r.calls ++ [r.answer]
  empty : r.answer.result = .empty → r.findsEmpty = true

lemma Synced.finish (h : Synced r) (hcopied : r.reader.copied = 0) {result : ReadResult}
    (hanswer : r.answer = ⟨r.asked,r.got,result⟩) (hc : r.answer.Answered)
    (hempty : result = .empty → r.findsEmpty = true) : Returns r (r.finish result) where
  synced := by
    have hdelivered : (r.finish result).delivered = r.delivered := by
      simp [Ring.finish, Ring.delivered]
    refine ⟨h.cons,h.prod,h.behind,h.room,h.cells,?_,rfl,?_⟩
    · rw [hdelivered, h.delivered, hcopied]
      rfl
    · rw [hanswer] at hc
      intro c hmem
      rcases List.mem_append.mp hmem with hmem | hmem
      · exact h.calls c hmem
      · rwa [List.mem_singleton.mp hmem]
  reader := rfl
  calls := by rw [hanswer]; rfl
  empty := by
    rw [hanswer]
    exact hempty

/-- What the stages of `ring_read` leave alone decides what it ends with. -/
lemma answer_congr (hasked : r'.asked = r.asked) (hgot : r'.got = r.got) (hcalls : r'.calls = r.calls)
    (hproduced : r'.produced = r.produced) : r'.answer = r.answer := by
  unfold Ring.answer Ring.ahead Ring.delivered
  rw [hasked, hgot, hcalls, hproduced]

/-- The head of the loop: nothing is left to be read, there are data, or the ring is empty. -/
lemma Synced.test (h : Synced r) {len : ℕ} (hr : r.reader = .test len) :
    ∃ r', r.advanceReader = .ok r' ∧ (GoesOn r r' ∨ Returns r r') := by
  have hsum := h.reader
  rw [hr] at hsum
  change r.got.length + len = r.asked at hsum
  have hcopied : r.reader.copied = 0 := by rw [hr]; rfl
  have hahead : r.ahead.length = r.produced.length - r.consumed := by
    rw [Ring.ahead, List.length_drop, h.delivered_length, hcopied, Nat.add_zero]
  unfold Ring.advanceReader
  simp only [hr]
  by_cases hlen : len = 0
  · have hrest : r.asked - r.got.length = 0 := by omega
    have hanswer : r.answer = ⟨r.asked,r.got,.full r.asked⟩ := by
      rw [Ring.answer, hrest, List.take_zero, List.append_nil, if_pos (Nat.zero_le _)]
    refine ⟨_,if_pos hlen,.inr (h.finish hcopied hanswer ?_ (by simp))⟩
    rw [hanswer]
    refine ⟨rfl,?_⟩
    change r.got.length = r.asked
    omega
  rw [if_neg hlen]
  by_cases hdata : r.dataToRead = true
  · have hmore := h.dataToRead.mp hdata
    refine ⟨_,if_pos hdata,.inl ⟨?_,by simp,?_,rfl,rfl,answer_congr rfl rfl rfl rfl⟩⟩
    · refine ⟨h.cons,h.prod,h.behind,h.room,h.cells,?_,⟨hsum,by omega,hmore⟩,h.calls⟩
      exact h.delivered.trans (by rw [hcopied]; rfl)
    · rw [hr]
      change 5 * len - 1 < 5 * len
      omega
  · have hnone : r.produced.length ≤ r.consumed := Nat.le_of_not_lt fun hlt => hdata (h.dataToRead.mpr hlt)
    have hempty : r.ahead = [] := List.eq_nil_of_length_eq_zero (by omega)
    have hanswer : r.answer = ⟨r.asked,r.got,.empty⟩ := by
      rw [Ring.answer, hempty, List.take_nil, List.append_nil, if_neg (by rw [List.length_nil]; omega)]
    refine ⟨_,if_neg hdata,.inr (h.finish hcopied hanswer ?_ fun _ => ?_)⟩
    swap
    · simp [Ring.findsEmpty, hr, hlen, hdata]
    rw [hanswer]
    change r.got.length < r.asked
    omega

/-- The indices are looked at again: the chunk ends at the end of the array and at `prod`. -/
lemma Synced.load (h : Synced r) {len : ℕ} (hr : r.reader = .load len) : ∃ r', r.advanceReader = .ok r' ∧ GoesOn r r' := by
  have hsound := h.reader
  rw [hr] at hsound
  obtain ⟨hsum,hlen,hmore⟩ := hsound
  have hcheck : ringCheckIndexes r.cons r.prod = true := decide_eq_true h.used_le
  have hchunk : inputChunk r.cons r.prod = min (ringSize - mask r.cons) r.used := rfl
  have hused := h.used
  have hmask : mask r.cons < ringSize := Nat.mod_lt _ (by decide)
  have havail : inputChunk r.cons r.prod ≠ 0 := by omega
  unfold Ring.advanceReader
  simp only [hr, hcheck, if_true]
  refine ⟨_,if_neg havail,?_,by simp,?_,rfl,rfl,answer_congr rfl rfl rfl rfl⟩
  · refine ⟨h.cons,h.prod,h.behind,h.room,h.cells,?_,⟨hsum,rfl,Nat.zero_le _,Nat.min_le_right _ _,?_,?_⟩,h.calls⟩
    · exact h.delivered.trans (by rw [hr]; rfl)
    · change r.consumed + min (inputChunk r.cons r.prod) len ≤ r.produced.length
      omega
    · change mask r.cons + min (inputChunk r.cons r.prod) len ≤ ringSize
      omega
  · rw [hr]
    change 5 * (len - min (inputChunk r.cons r.prod) len) + (min (inputChunk r.cons r.prod) len - 0) + 2 < 5 * len - 1
    omega

/-- One byte is copied inside of the array, or the chunk is complete. -/
lemma Synced.copy (h : Synced r) {len cons avail copied : ℕ} (hr : r.reader = .copy len cons avail copied) :
    ∃ r', r.advanceReader = .ok r' ∧ GoesOn r r' := by
  have hdelivered := h.delivered
  have hsound := h.reader
  rw [hr] at hdelivered hsound
  obtain ⟨hsum,rfl,hle,hlen,havail,hmask⟩ := hsound
  unfold Ring.advanceReader
  simp only [hr]
  by_cases hend : copied = avail
  · refine ⟨_,if_pos hend,?_,by simp,?_,rfl,rfl,answer_congr rfl rfl rfl rfl⟩
    · subst hend
      exact ⟨h.cons,h.prod,h.behind,h.room,h.cells,hdelivered,⟨hsum,hlen,havail⟩,h.calls⟩
    · rw [hr]
      change 5 * (len - avail) + 1 < 5 * (len - avail) + (avail - copied) + 2
      omega
  · have hin : mask r.cons + copied < ringSize := by omega
    have hbyte := h.byte hin (by omega)
    have hlength : r.delivered.length = r.consumed + copied := by rw [h.delivered_length, hr]; rfl
    simp only [if_neg hend, if_pos hin]
    refine ⟨_,rfl,?_,by simp,?_,rfl,rfl,?_⟩
    · refine ⟨h.cons,h.prod,h.behind,h.room,h.cells,?_,⟨?_,rfl,by omega,hlen,havail,hmask⟩,h.calls⟩
      · change r.calls.flatMap ReadCall.got ++ (r.got ++ [_]) = r.produced.take (r.consumed + (copied + 1))
        rw [← List.append_assoc, ← Nat.add_assoc, List.take_add_one, hbyte]
        exact congrArg (· ++ _) hdelivered
      · change (r.got ++ [_]).length + len = r.asked + (copied + 1)
        rw [List.length_append, List.length_singleton]
        omega
    · rw [hr]
      change 5 * (len - avail) + (avail - (copied + 1)) + 2 < 5 * (len - avail) + (avail - copied) + 2
      omega
    · -- the byte moves from what is ahead to what has been copied
      have hahead : r.ahead = r.req (mask r.cons + copied) :: r.produced.drop (r.consumed + copied + 1) := by
        obtain ⟨hlt,hget⟩ := List.getElem?_eq_some_iff.mp hbyte
        rw [Ring.ahead, hlength, List.drop_eq_getElem_cons hlt, hget]
      obtain ⟨n,hn⟩ : ∃ n, r.asked - r.got.length = n + 1 := ⟨r.asked - r.got.length - 1,by omega⟩
      have hn' : r.asked - (r.got ++ [r.req (mask r.cons + copied)]).length = n := by
        rw [List.length_append, List.length_singleton]
        omega
      have hahead' : Ring.ahead { r with
          reader := .copy len r.cons avail (copied + 1)
          got := r.got ++ [r.req (mask r.cons + copied)] } = r.produced.drop (r.consumed + copied + 1) := by
        unfold Ring.ahead
        congr 1
        change (r.calls.flatMap ReadCall.got ++ (r.got ++ [_])).length = _
        rw [← List.append_assoc, List.length_append, List.length_singleton]
        exact congrArg (· + 1) hlength
      unfold Ring.answer
      rw [hahead', hahead]
      simp only [hn', hn, List.take_succ_cons, List.length_cons, Nat.add_le_add_iff_right, List.append_assoc,
        List.singleton_append]

/-- `cons` is moved behind the chunk. -/
lemma Synced.moveCons (h : Synced r) {len avail : ℕ} (hr : r.reader = .advance len avail) :
    ∃ r', r.advanceReader = .ok r' ∧ GoesOn r r' := by
  have hdelivered := h.delivered
  have hsound := h.reader
  rw [hr] at hdelivered hsound
  obtain ⟨hsum,hlen,havail⟩ := hsound
  have hroom := h.room
  unfold Ring.advanceReader
  simp only [hr]
  refine ⟨_,rfl,?_,by simp,?_,rfl,rfl,answer_congr rfl rfl rfl rfl⟩
  · refine ⟨?_,h.prod,havail,?_,h.cells.mono (Nat.le_add_right _ _),hdelivered,?_,h.calls⟩
    · change (r.cons + avail) % idxWidth = (r.consumed + avail) % idxWidth
      rw [h.cons, Nat.mod_add_mod]
    · change r.produced.length + r.staged.length ≤ r.consumed + avail + ringSize
      omega
    · change r.got.length + (len - avail) = r.asked
      omega
  · rw [hr]
    change 5 * (len - avail) < 5 * (len - avail) + 1
    omega

/-- The next stage of `ring_read`. -/
lemma Synced.advanceReader (h : Synced r) (hbusy : r.reader ≠ .idle) :
    ∃ r', r.advanceReader = .ok r' ∧ (GoesOn r r' ∨ Returns r r') := by
  cases hr : r.reader with
  | idle => exact absurd hr hbusy
  | test len => exact h.test hr
  | load len =>
    obtain ⟨r',hr',hgoes⟩ := h.load hr
    exact ⟨r',hr',.inl hgoes⟩
  | copy len cons avail copied =>
    obtain ⟨r',hr',hgoes⟩ := h.copy hr
    exact ⟨r',hr',.inl hgoes⟩
  | advance len avail =>
    obtain ⟨r',hr',hgoes⟩ := h.moveCons hr
    exact ⟨r',hr',.inl hgoes⟩

lemma Synced.step (h : Synced r) : ∃ r', r.act .step = .ok r' ∧ Synced r' := by
  by_cases hbusy : r.reader = .idle
  · exact ⟨r,by rw [Ring.act, Ring.advanceReader, hbusy],h⟩
  · obtain ⟨r',hr',hgoes | hreturns⟩ := h.advanceReader hbusy
    · exact ⟨r',hr',hgoes.synced⟩
    · exact ⟨r',hr',hreturns.synced⟩

lemma Synced.call (h : Synced r) (len : ℕ) : ∃ r', r.act (.call len) = .ok r' ∧ Synced r' := by
  unfold Ring.act
  cases hr : r.reader with
  | idle =>
    have hgot := h.reader
    have hdelivered := h.delivered
    rw [hr] at hgot hdelivered
    change r.got = [] at hgot
    refine ⟨_,rfl,h.cons,h.prod,h.behind,h.room,h.cells,?_,Nat.zero_add _,h.calls⟩
    rw [Ring.delivered, hgot] at hdelivered
    exact hdelivered
  | test len => exact ⟨r,rfl,h⟩
  | load len => exact ⟨r,rfl,h⟩
  | copy len cons avail copied => exact ⟨r,rfl,h⟩
  | advance len avail => exact ⟨r,rfl,h⟩

/-- Whatever comes next, if the frontend keeps its contract. -/
lemma Synced.act (h : Synced r) {e : RingEvent} (hc : Contract r e) : ∃ r', r.act e = .ok r' ∧ Synced r' := by
  cases e with
  | write byte => exact ⟨_,rfl,h.write hc rfl⟩
  | publish n => exact ⟨_,rfl,h.publish hc rfl⟩
  | call len => exact h.call len
  | step => exact h.step

lemma Synced.unread (h : Synced r) : r.unread = r.produced.drop r.consumed := by
  have hbehind := h.behind
  apply List.ext_getElem?
  intro i
  rw [Ring.unread, List.getElem?_map, h.used, List.getElem?_drop]
  by_cases hi : r.consumed + i < r.produced.length
  · have hcell : mask ((r.cons + i) % idxWidth) = (r.consumed + i) % ringSize := by
      rw [mask_idx, h.cons]
      unfold mask ringSize idxWidth
      omega
    have hget : (r.produced ++ r.staged)[r.consumed + i]? = some r.produced[r.consumed + i] := by
      rw [List.getElem?_append_left hi, List.getElem?_eq_getElem hi]
    rw [List.getElem?_range (by omega), Option.map_some, hcell, h.cells _ (Nat.le_add_right _ _) _ hget,
      List.getElem?_eq_getElem hi]
  · rw [List.getElem?_eq_none (by rw [List.length_range]; omega), List.getElem?_eq_none (by omega)]
    rfl

end Invariant

section Calls
variable {r r' : Ring}

/-- The daemon leaves the side of the frontend and the calls that have returned alone. -/
lemma advanceReader_frame (h : r.advanceReader = .ok r') :
    r'.produced = r.produced ∧ r'.staged = r.staged ∧ r.calls <+: r'.calls := by
  have hframe : ∀ t : Ring, (.ok t : Outcome Ring) = .ok r' → t.produced = r.produced → t.staged = r.staged →
      r.calls <+: t.calls → r'.produced = r.produced ∧ r'.staged = r.staged ∧ r.calls <+: r'.calls := by
    intro t ht hproduced hstaged hcalls
    obtain rfl := Except.ok.inj ht
    exact ⟨hproduced,hstaged,hcalls⟩
  have hrefl := List.prefix_refl r.calls
  have hfinish := fun result => List.prefix_append r.calls [⟨r.asked,r.got,result⟩]
  unfold Ring.advanceReader at h
  cases hr : r.reader with
  | idle =>
    simp only [hr] at h
    exact hframe _ h rfl rfl hrefl
  | test len =>
    simp only [hr] at h
    split_ifs at h
    · exact hframe _ h rfl rfl (hfinish _)
    · exact hframe _ h rfl rfl hrefl
    · exact hframe _ h rfl rfl (hfinish _)
  | load len =>
    simp only [hr] at h
    split_ifs at h
    · exact hframe _ h rfl rfl hrefl
    · exact hframe _ h rfl rfl hrefl
    · exact hframe _ h rfl rfl (hfinish _)
  | copy len cons avail copied =>
    simp only [hr] at h
    split_ifs at h
    · exact hframe _ h rfl rfl hrefl
    · exact hframe _ h rfl rfl hrefl
  | advance len avail =>
    simp only [hr] at h
    exact hframe _ h rfl rfl hrefl

lemma call_frame {len : ℕ} (h : r.act (.call len) = .ok r') :
    r'.produced = r.produced ∧ r'.staged = r.staged ∧ r'.calls = r.calls := by
  simp only [Ring.act] at h
  split at h
  · obtain rfl := Except.ok.inj h
    exact ⟨rfl,rfl,rfl⟩
  · obtain rfl := Except.ok.inj h
    exact ⟨rfl,rfl,rfl⟩

/-- While the frontend is still, the call under way ends with what it has to. -/
lemma Synced.returns (h : Synced r) (hbusy : r.reader ≠ .idle) :
    ∃ k t, perform Ring.act r (List.replicate k .step) = .ok t ∧ t.reader = .idle ∧ t.calls = r.calls ++ [r.answer] := by
  refine perform_replicate_reaches (I := fun s => Synced s ∧ s.reader ≠ .idle ∧ s.calls = r.calls ∧ s.answer = r.answer)
    (fun s => s.reader.left) ?_ ⟨h,hbusy,rfl,rfl⟩
  rintro s ⟨hs,hsbusy,hcalls,hanswer⟩
  obtain ⟨s',hs',hgoes | hreturns⟩ := hs.advanceReader hsbusy
  · exact ⟨s',hs',.inr ⟨⟨hgoes.synced,hgoes.busy,hgoes.calls.trans hcalls,hgoes.answer.trans hanswer⟩,hgoes.left⟩⟩
  · exact ⟨s',hs',.inl ⟨hreturns.reader,by rw [hreturns.calls,hcalls,hanswer]⟩⟩

lemma call_eq_of_busy (hbusy : r.reader ≠ .idle) (len : ℕ) : r.act (.call len) = .ok r := by
  unfold Ring.act
  cases hr : r.reader with
  | idle => exact absurd hr hbusy
  | test len => rfl
  | load len => rfl
  | copy len cons avail copied => rfl
  | advance len avail => rfl

lemma act_calls {e : RingEvent} (h : r.act e = .ok r') : r.calls <+: r'.calls := by
  cases e with
  | write byte =>
    obtain rfl := Except.ok.inj h
    exact List.prefix_refl _
  | publish n =>
    obtain rfl := Except.ok.inj h
    exact List.prefix_refl _
  | call len =>
    exact ⟨[],(List.append_nil _).trans (call_frame h).2.2.symm⟩
  | step => exact (advanceReader_frame h).2.2

/-- How many stages are left is bounded by what was asked for. -/
lemma Synced.left_le (h : Synced r) : r.reader.left ≤ 5 * r.asked + 2 := by
  have hsound := h.reader
  cases hr : r.reader with
  | idle => exact Nat.zero_le _
  | test len =>
    rw [hr] at hsound
    change r.got.length + len = r.asked at hsound
    change 5 * len ≤ _
    omega
  | load len =>
    rw [hr] at hsound
    have hsum := hsound.1
    change 5 * len - 1 ≤ _
    omega
  | copy len cons avail copied =>
    rw [hr] at hsound
    obtain ⟨hsum,-,hle,hlen,-,-⟩ := hsound
    change 5 * (len - avail) + (avail - copied) + 2 ≤ _
    omega
  | advance len avail =>
    rw [hr] at hsound
    obtain ⟨hsum,hlen,-⟩ := hsound
    change 5 * (len - avail) + 1 ≤ _
    omega

/-- Whatever the frontend does meanwhile, a call returns after so many stages. -/
lemma Synced.returns_anyway (h : Synced r) (hbusy : r.reader ≠ .idle) {more : List RingEvent} {t : Ring}
    (hmeets : Meets Ring.act Contract r more) (hr : perform Ring.act r more = .ok t)
    (hcount : 5 * r.asked + 2 < more.count .step) : r.calls.length < t.calls.length := by
  refine hmeets.reaches (I := fun s => Synced s ∧ s.reader ≠ .idle ∧ s.calls = r.calls)
    (D := fun s => r.calls.length < s.calls.length) (fun s => s.reader.left)
    (fun s e s' hs he => hs.trans_le (act_calls he).length_le) ?_ ⟨h,hbusy,rfl⟩ (h.left_le.trans_lt hcount) hr
  rintro s e s' ⟨hs,hsbusy,hcalls⟩ hc he
  cases e with
  | write byte =>
    have hs' := hs.write hc he
    obtain rfl := Except.ok.inj he
    exact .inr ⟨⟨hs',hsbusy,hcalls⟩,by simp⟩
  | publish n =>
    have hs' := hs.publish hc he
    obtain rfl := Except.ok.inj he
    exact .inr ⟨⟨hs',hsbusy,hcalls⟩,by simp⟩
  | call len =>
    rw [call_eq_of_busy hsbusy] at he
    obtain rfl := Except.ok.inj he
    exact .inr ⟨⟨hs,hsbusy,hcalls⟩,by simp⟩
  | step =>
    obtain ⟨u,hu,hgoes⟩ := hs.advanceReader hsbusy
    obtain rfl := Except.ok.inj (hu.symm.trans he)
    rcases hgoes with hgoes | hreturns
    · exact .inr ⟨⟨hgoes.synced,hgoes.busy,hgoes.calls.trans hcalls⟩,by have := hgoes.left; simp; omega⟩
    · refine .inl ?_
      rw [hreturns.calls, hcalls, List.length_append]
      exact Nat.lt_succ_self _

/-- What the frontend writes in a run. -/
def written (events : List RingEvent) : List UInt8 :=
  events.filterMap fun e => match e with
    | .write byte => some byte
    | _ => none

lemma act_written {e : RingEvent} (h : r.act e = .ok r') :
    r'.produced ++ r'.staged = r.produced ++ r.staged ++ written [e] := by
  cases e with
  | write byte =>
    obtain rfl := Except.ok.inj h
    exact (List.append_assoc _ _ _).symm
  | publish n =>
    obtain rfl := Except.ok.inj h
    change r.produced ++ r.staged.take n ++ r.staged.drop n = r.produced ++ r.staged ++ []
    rw [List.append_assoc, List.take_append_drop, List.append_nil]
  | call len =>
    obtain ⟨hproduced,hstaged,-⟩ := call_frame h
    rw [hproduced, hstaged]
    exact (List.append_nil _).symm
  | step =>
    obtain ⟨hproduced,hstaged,-⟩ := advanceReader_frame h
    rw [hproduced, hstaged]
    exact (List.append_nil _).symm

lemma perform_written {events : List RingEvent} (h : perform Ring.act r events = .ok r') :
    r'.produced ++ r'.staged = r.produced ++ r.staged ++ written events := by
  refine perform_filterMap (fun r : Ring => r.produced ++ r.staged) (fun s e s' he => ?_) h
  rw [act_written he]
  cases e <;> rfl

/-- However the frontend and `ring_read` take turns, and however often the indices wrap: the distance of the
indices is at most the size of the ring, the indices are never reset, and nothing is read outside of the array. A call
that returns its length has copied so many bytes, one that returns 0 fewer. The bytes that the calls have copied, one
call after the other, are the first of those that were written and handed over; between two chunks the rest of them are
in the ring. A call that is under way returns after a number of stages that what it was asked for bounds, and with the
bytes it lacks, or with all there are, if nothing more is handed over. -/
theorem ring_fifo {req : ℕ → UInt8} {events : List RingEvent}
    (hmeets : Meets Ring.act Contract (ringInit req) events) :
    ∃ r, perform Ring.act (ringInit req) events = .ok r ∧ r.used ≤ ringSize ∧ (∀ c ∈ r.calls, c.Answered) ∧
      r.produced ++ r.staged = written events ∧ r.delivered <+: r.produced ∧
      (r.reader.copied = 0 → r.delivered ++ r.unread = r.produced) ∧
      (r.reader ≠ .idle →
        (∃ k t, perform Ring.act r (List.replicate k .step) = .ok t ∧ t.reader = .idle ∧
          t.calls = r.calls ++ [r.answer]) ∧
        ∀ more t, Meets Ring.act Contract r more → perform Ring.act r more = .ok t →
          5 * r.asked + 2 < more.count .step → r.calls.length < t.calls.length) := by
  obtain ⟨r,hr,h⟩ := hmeets.progress (fun _ _ ht hc => ht.act hc) (synced_ringInit req)
  refine ⟨r,hr,h.used_le,h.calls,perform_written hr,?_,fun hcopied => ?_,fun hbusy =>
    ⟨h.returns hbusy,fun more t hm ht hcount => h.returns_anyway hbusy hm ht hcount⟩⟩
  · rw [h.delivered]
    exact List.take_prefix _ _
  · rw [h.delivered, hcopied, h.unread, Nat.add_zero, List.take_append_drop]

end Calls

/-- The second byte is handed over while the first one is being read, and the next call finds too little. -/
def pairRun : List RingEvent := [RingEvent.write 7, .publish 1, .call 2, .step, .step, .write 8, .publish 1] ++
  List.replicate 9 RingEvent.step ++ [RingEvent.write 9, .publish 1, .call 5, .step]

theorem ring_fifo_pair : ∃ r, perform Ring.act (ringInit fun _ => 0) pairRun = .ok r ∧
    r.calls = [⟨2,[7,8],.full 2⟩] ∧ r.answer = ⟨5,[9],.empty⟩ ∧ r.produced ++ r.staged = [7,8,9] ∧
    (∃ k t, perform Ring.act r (List.replicate k .step) = .ok t ∧ t.calls = [⟨2,[7,8],.full 2⟩,⟨5,[9],.empty⟩]) := by
  obtain ⟨r,hr,-,-,hwritten,-,-,hcall⟩ :=
    ring_fifo (show Meets Ring.act Contract (ringInit fun _ => 0) pairRun by decide +kernel)
  have hend : (perform Ring.act (ringInit fun _ => 0) pairRun).toOption.map
      (fun r => (r.reader,r.calls,r.answer)) = some (.load 5,[⟨2,[7,8],.full 2⟩],⟨5,[9],.empty⟩) := by
    decide +kernel
  rw [hr] at hend
  obtain ⟨hreader,hcalls,hanswer⟩ := by simpa [Except.toOption] using hend
  obtain ⟨k,t,ht,-,hreturned⟩ := (hcall (by simp [hreader])).1
  rw [hcalls, hanswer] at hreturned
  exact ⟨r,hr,hcalls,hanswer,hwritten,k,t,ht,hreturned⟩

end Xctools.Audio
