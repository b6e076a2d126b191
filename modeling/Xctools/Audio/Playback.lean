import Mathlib.Algebra.BigOperators.Fin
import Mathlib.Data.Int.Order.Basic
import Mathlib.Data.List.Basic
import Xctools.Machine.Run

/-! The playback buffer of the audio daemon, `alsa.c`. The frontend has put eight pages at its disposal; samples are
taken out of them one by one, from page to page and round again, while the frontend writes behind. How far the
daemon is gets published in frames. -/
namespace Xctools.Audio
open Machine

section Code

/-- `XENVSND_PAGE_SIZE`, `N_AUD_BUFFER_PAGES` and `PERIOD_FRAMES`. -/
def pageSize : ℕ := 4096
def bufferPages : ℕ := 8
def periodFrames : ℕ := 1024

/-- What is in the pages of `dma_buffer`, by page and offset. -/
abbrev DmaBuffer := ℕ → ℕ → UInt8

/-- The 16-bit sample at a place of a page, least significant byte first. -/
def sampleAt (dma : DmaBuffer) (page offset : ℕ) : ℤ :=
  Int.bmod ((dma page offset).toNat + 256 * (dma page (offset + 1)).toNat) (2 ^ 16)

/-- `struct alsa_stream`, with `hw_ptr` of its `be_info`. The bytes that were processed are counted in 32 bits. -/
structure AlsaStream where
  hwPtr : ℕ := 0
  processed : Int32 := 0
  beHwPtr : ℤ := 0
  deriving DecidableEq

/-- The volume that `get_data_from_sg` goes by. -/
def volume : ℤ := if (100 : ℤ) < 1 then 1 else 100

/-- One sample. -/
def readSample (dma : DmaBuffer) (as : AlsaStream) : Outcome (ℤ × AlsaStream) :=
  let page := as.hwPtr / pageSize
  let offset := as.hwPtr % pageSize
  if page < bufferPages ∧ offset + 1 < pageSize then
    let hwPtr := as.hwPtr + 2
    .ok (Int.bmod ((sampleAt dma page offset * volume).tdiv 100) (2 ^ 16),
      { as with hwPtr := if hwPtr = pageSize * bufferPages then 0 else hwPtr, processed := as.processed + 2 })
  else .error .bounds

/-- The loop of `get_data_from_sg`, with what is in the buffer at each round. -/
def readSamples : ℕ → (ℕ → DmaBuffer) → AlsaStream → Outcome (List ℤ × AlsaStream)
  | 0, _, as => .ok ([], as)
  | n + 1, seen, as => do
    let (x, as) ← readSample (seen 0) as
    let (xs, as) ← readSamples n (fun i => seen (i + 1)) as
    return (x :: xs, as)

/-- `get_data_from_sg`. -/
def getDataFromSg (seen : ℕ → DmaBuffer) (size : ℕ) (as : AlsaStream) : Outcome (List ℤ × AlsaStream) :=
  readSamples (size / 2) seen as

/-- `alsa_refresh_be_playback_info`. -/
def alsaRefreshBePlaybackInfo (as : AlsaStream) (periods : ℤ) : AlsaStream :=
  let pointer : ℤ := (as.hwPtr / 4 : ℕ) - 1024 * periods
  let pointer := if pointer < 0 then pointer + bufferPages * 1024 else pointer
  { as with beHwPtr := pointer.tmod (bufferPages * 1024) }

end Code

section Circle
variable {as : AlsaStream} {dma : DmaBuffer} {k n : ℕ}

/-- The size of the buffer. -/
def bufferBytes : ℕ := pageSize * bufferPages

/-- The sample at a byte of the eight pages. -/
def storedAt (dma : DmaBuffer) (byte : ℕ) : ℤ := sampleAt dma (byte / pageSize) (byte % pageSize)

/-- At this volume a sample is what it was. -/
lemma scaled_eq (dma : DmaBuffer) (page offset : ℕ) :
    Int.bmod ((sampleAt dma page offset * volume).tdiv 100) (2 ^ 16) = sampleAt dma page offset := by
  have hvol : volume = 100 := by decide
  have hscale : ∀ x : ℤ, (x * 100).tdiv 100 = x := fun x => Int.mul_tdiv_cancel x (by decide)
  rw [hvol, hscale]
  unfold sampleAt
  exact Int.bmod_bmod

/-- The `k`-th sample is read where it should be. -/
lemma readSample_ok (h : as.hwPtr = 2 * k % bufferBytes) (dma : DmaBuffer) :
    readSample dma as = .ok (storedAt dma (2 * k % bufferBytes),
      { as with hwPtr := 2 * (k + 1) % bufferBytes, processed := as.processed + 2 }) := by
  have hpage : as.hwPtr / pageSize < bufferPages ∧ as.hwPtr % pageSize + 1 < pageSize := by
    unfold bufferBytes pageSize bufferPages at *
    omega
  have hnext : (if as.hwPtr + 2 = pageSize * bufferPages then 0 else as.hwPtr + 2) = 2 * (k + 1) % bufferBytes := by
    unfold bufferBytes pageSize bufferPages at *
    split_ifs <;> omega
  rw [readSample]
  dsimp only
  rw [if_pos hpage, scaled_eq, hnext, ← h]
  rfl

/-- So are those behind it. -/
lemma readSamples_ok (h : as.hwPtr = 2 * k % bufferBytes) (n : ℕ) (seen : ℕ → DmaBuffer) :
    readSamples n seen as = .ok ((List.range n).map fun i => storedAt (seen i) (2 * (k + i) % bufferBytes),
      { as with hwPtr := 2 * (k + n) % bufferBytes, processed := as.processed + Int32.ofNat (2 * n) }) := by
  induction n generalizing k seen as with
  | zero =>
    rw [readSamples, Nat.add_zero, ← h]
    simp
  | succ n ih =>
    rw [readSamples, readSample_ok h, ok_bind]
    dsimp only
    rw [@ih _ (k + 1) rfl, ok_bind, List.range_succ_eq_map, List.map_cons, List.map_map]
    have hplace : ∀ i, k + 1 + i = k + (i + 1) := fun i => by omega
    have hcount : (2 : Int32) + Int32.ofNat (2 * n) = Int32.ofNat (2 * (n + 1)) := by
      rw [Nat.mul_succ, Nat.add_comm, Int32.ofNat_add]
      rfl
    simp only [hplace, Int32.add_assoc, hcount, pure_eq_ok, Function.comp_def, Nat.add_zero]

end Circle

section Calls

/-- A call of `get_data_from_sg`: how many bytes it is asked for, and what it finds at each sample. -/
structure Fetch where
  size : ℕ
  seen : ℕ → DmaBuffer

/-- The stream, and the samples that were taken out of it. -/
structure Delivery where
  stream : AlsaStream
  samples : List ℤ := []

def Delivery.fetch (d : Delivery) (f : Fetch) : Outcome Delivery := do
  let (xs, stream) ← getDataFromSg f.seen f.size d.stream
  return ⟨stream,d.samples ++ xs⟩

/-- What is in the buffer at each sample of a call, and of a sequence of calls. -/
def Fetch.reads (f : Fetch) : List DmaBuffer := (List.range (f.size / 2)).map f.seen
def reads (fs : List Fetch) : List DmaBuffer := fs.flatMap Fetch.reads

/-- The bytes a sequence of calls has asked for. -/
def fetched (fs : List Fetch) : ℕ := (fs.map Fetch.size).sum

/-- The `k`-th of a row of samples, by what is in the buffer when it is read. -/
def samplesFrom (k : ℕ) (dmas : List DmaBuffer) : List ℤ :=
  dmas.mapIdx fun i dma => storedAt dma (2 * (k + i) % bufferBytes)

variable {d : Delivery} {f : Fetch} {fs : List Fetch}

lemma samplesFrom_append (k : ℕ) (xs ys : List DmaBuffer) :
    samplesFrom k (xs ++ ys) = samplesFrom k xs ++ samplesFrom (k + xs.length) ys := by
  have hplace : ∀ i, k + (i + xs.length) = k + xs.length + i := fun i => by omega
  simp only [samplesFrom, List.mapIdx_append, hplace]

lemma samplesFrom_map_range (k n : ℕ) (seen : ℕ → DmaBuffer) :
    samplesFrom k ((List.range n).map seen) =
      (List.range n).map fun i => storedAt (seen i) (2 * (k + i) % bufferBytes) := by
  refine List.mapIdx_eq_iff.mpr fun i => ?_
  rcases Nat.lt_or_ge i n with hi | hi
  · simp [hi]
  · simp [hi]

/-- One call takes up where the others have left off. -/
lemma fetch_ok (h : d.stream.hwPtr = 2 * d.samples.length % bufferBytes) (f : Fetch) :
    ∃ stream, d.fetch f = .ok ⟨stream,d.samples ++ samplesFrom d.samples.length f.reads⟩ ∧
      stream.hwPtr = 2 * (d.samples.length + f.reads.length) % bufferBytes := by
  refine ⟨{
    d.stream with
    hwPtr := 2 * (d.samples.length + f.size / 2) % bufferBytes
    processed := d.stream.processed + Int32.ofNat (2 * (f.size / 2)) },?_,?_⟩
  · rw [Delivery.fetch, getDataFromSg, readSamples_ok h, ok_bind, Fetch.reads, samplesFrom_map_range]
    rfl
  · simp [Fetch.reads]

/-- So does a sequence of them. -/
lemma perform_fetch (h : d.stream.hwPtr = 2 * d.samples.length % bufferBytes) (fs : List Fetch) :
    ∃ stream, perform Delivery.fetch d fs = .ok ⟨stream,d.samples ++ samplesFrom d.samples.length (reads fs)⟩ ∧
      stream.hwPtr = 2 * (d.samples.length + (reads fs).length) % bufferBytes := by
  induction fs generalizing d with
  | nil => exact ⟨d.stream,by simp [reads, samplesFrom],h⟩
  | cons f fs ih =>
    obtain ⟨stream,hfetch,hstream⟩ := fetch_ok h f
    have hlength : (d.samples ++ samplesFrom d.samples.length f.reads).length = d.samples.length + f.reads.length := by
      simp [samplesFrom]
    rw [← hlength] at hstream
    obtain ⟨last,hrun,hlast⟩ := @ih ⟨stream,d.samples ++ samplesFrom d.samples.length f.reads⟩ hstream
    rw [hlength] at hrun hlast
    have hreads : reads (f :: fs) = f.reads ++ reads fs := List.flatMap_cons
    refine ⟨last,?_,?_⟩
    · rw [perform_cons, hfetch, ok_bind, hrun, hreads, samplesFrom_append, List.append_assoc]
    · rw [hlast, hreads, List.length_append, Nat.add_assoc]

/-- Calls for even sizes read two bytes at a time, all of them. -/
lemma length_reads (heven : ∀ f ∈ fs, f.size % 2 = 0) : 2 * (reads fs).length = fetched fs := by
  induction fs with
  | nil => rfl
  | cons f fs ih =>
    obtain ⟨hf,hfs⟩ := List.forall_mem_cons.mp heven
    have hreads : (reads (f :: fs)).length = f.size / 2 + (reads fs).length := by
      simp [reads, Fetch.reads]
    have hfetched : fetched (f :: fs) = f.size + fetched fs := rfl
    rw [hreads, hfetched, ← ih hfs]
    omega

/-- What is published is a place in the buffer, a period behind. -/
lemma beHwPtr_refresh {as : AlsaStream} {n : ℕ} (h : as.hwPtr = n % bufferBytes) :
    (alsaRefreshBePlaybackInfo as 1).beHwPtr = ((n / 4 : ℕ) - 1024 : ℤ) % 8192 := by
  have hplace : as.hwPtr = n % 32768 := h
  unfold alsaRefreshBePlaybackInfo bufferPages
  dsimp only
  split_ifs with hneg
  · rw [Int.tmod_eq_emod_of_nonneg (by omega)]
    omega
  · rw [Int.tmod_eq_emod_of_nonneg (by omega)]
    omega

/-- The eight pages are one circle: whatever even sizes are asked for, the samples come out in the order of the
bytes, round and round, and what is published goes with them. -/
theorem playback_is_circular (as : AlsaStream) (hreset : as.hwPtr = 0) (fs : List Fetch)
    (heven : ∀ f ∈ fs, f.size % 2 = 0) :
    ∃ d, perform Delivery.fetch ⟨as,[]⟩ fs = .ok d ∧
      d.stream.hwPtr % 2 = 0 ∧ d.stream.hwPtr < 32768 ∧
      d.samples = (reads fs).mapIdx (fun k dma => storedAt dma (2 * k % 32768)) ∧
      2 * d.samples.length = fetched fs ∧
      0 ≤ (alsaRefreshBePlaybackInfo d.stream 1).beHwPtr ∧ (alsaRefreshBePlaybackInfo d.stream 1).beHwPtr < 8192 ∧
      (alsaRefreshBePlaybackInfo d.stream 1).beHwPtr = ((fetched fs / 4 : ℕ) - 1024 : ℤ) % 8192 := by
  obtain ⟨stream,hrun,hstream⟩ := @perform_fetch ⟨as,[]⟩ hreset fs
  have hbytes : stream.hwPtr = fetched fs % bufferBytes := by
    rw [hstream, ← length_reads heven, List.length_nil, Nat.zero_add]
  have hpointer := beHwPtr_refresh hbytes
  have hsamples : samplesFrom 0 (reads fs) = (reads fs).mapIdx fun k dma => storedAt dma (2 * k % 32768) := by
    simp only [samplesFrom, Nat.zero_add]
    rfl
  have hfetched := length_reads heven
  refine ⟨_,hrun,?_,?_,hsamples,?_,?_,?_,hpointer⟩
  · rw [hbytes]
    unfold bufferBytes pageSize bufferPages
    omega
  · rw [hbytes]
    unfold bufferBytes pageSize bufferPages
    omega
  · rw [← hfetched]
    simp [samplesFrom]
  · rw [hpointer]
    omega
  · rw [hpointer]
    omega

/-- Three periods and a half, then the rest of the circle and a bit of the next one. -/
theorem playback_is_circular_twoCalls :
    ∃ d, perform Delivery.fetch ⟨{},[]⟩ [⟨14336,fun _ _ _ => 1⟩, ⟨18436,fun _ _ _ => 2⟩] = .ok d ∧
      d.samples.length = 16386 ∧ (alsaRefreshBePlaybackInfo d.stream 1).beHwPtr = 7169 := by
  obtain ⟨d,hrun,-,-,-,hlength,-,-,hpointer⟩ := playback_is_circular {} rfl
    [⟨14336,fun _ _ _ => 1⟩, ⟨18436,fun _ _ _ => 2⟩] (by decide)
  have hfetched : fetched [⟨14336,fun _ _ _ => 1⟩, ⟨18436,fun _ _ _ => 2⟩] = 32772 := rfl
  rw [hfetched] at hlength hpointer
  refine ⟨d,hrun,?_,?_⟩
  · omega
  · rw [hpointer]
    rfl

end Calls

end Xctools.Audio
