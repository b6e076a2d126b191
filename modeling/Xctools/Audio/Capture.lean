import Xctools.Machine.RingBuffer
import Xctools.Audio.Backlog

/-! The capture buffer of the audio daemon, `alsa.c`. What the microphone has picked up, without echo, is put into
eight pages, sample by sample, from page to page and round again, while the frontend reads behind. -/
namespace Xctools.Audio
open Machine

section Code

/-- A 16-bit sample in memory, least significant byte first. -/
def storeSample (dma : DmaBuffer) (page offset : ℕ) (x : ℤ) : DmaBuffer := fun p o =>
  if p = page ∧ o = offset then UInt8.ofNat ((x % 2 ^ 16).toNat % 256)
  else if p = page ∧ o = offset + 1 then UInt8.ofNat ((x % 2 ^ 16).toNat / 256)
  else dma p o

/-- One sample of `put_data_to_sg`. -/
def writeSample (x : ℤ) (dma : DmaBuffer) (as : AlsaStream) : Outcome (DmaBuffer × AlsaStream) :=
  let page := as.hwPtr / pageSize
  let offset := as.hwPtr % pageSize
  if page < bufferPages ∧ offset + 1 < pageSize then
    let hwPtr := as.hwPtr + 2
    .ok (storeSample dma page offset ((x * volume).tdiv 100),
      { as with hwPtr := if hwPtr = pageSize * bufferPages then 0 else hwPtr, processed := as.processed + 2 })
  else .error .bounds

/-- The loop of `put_data_to_sg`. It takes as many samples as it is told to. -/
def writeSamples : ℕ → List ℤ → DmaBuffer → AlsaStream → Outcome (DmaBuffer × AlsaStream)
  | 0, _, dma, as => .ok (dma,as)
  | _ + 1, [], _, _ => .error .bounds
  | n + 1, x :: xs, dma, as => do
    let (dma, as) ← writeSample x dma as
    writeSamples n xs dma as

/-- `put_data_to_sg`. -/
def putDataToSg (src : List ℤ) (size : ℕ) (dma : DmaBuffer) (as : AlsaStream) : Outcome (DmaBuffer × AlsaStream) :=
  writeSamples (size / 2) src dma as

/-- `alsa_refresh_be_capture_info`. -/
def alsaRefreshBeCaptureInfo (as : AlsaStream) : AlsaStream := { as with beHwPtr := (as.hwPtr / 4 : ℕ) }

/-- `double_mono`. -/
def doubleMono (src : ℕ → Int16) : List ℤ := (List.range 1024).flatMap fun i => [(src i).toInt,(src i).toInt]

/-- The capture stream and its pages, and `capture_is_running`. The samples since the last PREPARE are nowhere in
the code. -/
structure Capture where
  stream : AlsaStream := {}
  dma : DmaBuffer
  running : ℕ := 0
  samples : List ℤ := []

/-- What `capture_callback` does for capture, once it has read so many frames. What the microphone has picked up is
`clean` when the echo is taken out of it. -/
def Capture.captureCallback (s : Capture) (read : ℕ) (clean : ℕ → Int16) : Outcome Capture :=
  if 1 < s.running then do
    let (dma, stream) ← putDataToSg (doubleMono clean) (read * 4) s.dma s.stream
    return { s with stream := alsaRefreshBeCaptureInfo stream, dma, samples := s.samples ++ (doubleMono clean).take (read * 2) }
  else if s.running = 1 then .ok { s with running := 2 }
  else .ok s

/-- `process_capture_cmd`. -/
def Capture.processCaptureCmd (s : Capture) : PcmCommand → Capture
  | .pcmOpen | .pcmClose => { s with running := 0 }
  | .pcmPrepare => { s with running := 0, stream := { s.stream with hwPtr := 0, processed := 0 }, samples := [] }
  | .triggerStart => { s with running := 1, stream := { s.stream with beHwPtr := 0 } }
  | .triggerStop => { s with running := 0, stream := { s.stream with beHwPtr := 0 } }

/-- The frontend gives a command, or the callback is made. If the device has failed, or has not a period yet, it
returns at once. -/
inductive CaptureEvent
  | command (cmd : PcmCommand)
  | callback (read : Option ℕ) (clean : ℕ → Int16)

def Capture.act (s : Capture) : CaptureEvent → Outcome Capture
  | .command cmd => .ok (s.processCaptureCmd cmd)
  | .callback none _ => .ok s
  | .callback (some read) clean => s.captureCallback read clean

/-- A period is asked for, and `snd_pcm_readi` never gives more. -/
def CaptureEvent.Bounded : CaptureEvent → Prop
  | .callback (some read) _ => read ≤ periodFrames
  | _ => True

end Code

section Store
variable {x : ℤ} {dma : DmaBuffer} {as : AlsaStream} {page offset k n : ℕ} {xs : List ℤ}

/-- Two bytes are a sample again. -/
lemma sampleAt_storeSample (hlow : -2 ^ 15 ≤ x) (hhigh : x < 2 ^ 15) : sampleAt (storeSample dma page offset x) page offset = x := by
  have hlo : storeSample dma page offset x page offset = UInt8.ofNat ((x % 2 ^ 16).toNat % 256) := if_pos ⟨rfl,rfl⟩
  have hhi : storeSample dma page offset x page (offset + 1) = UInt8.ofNat ((x % 2 ^ 16).toNat / 256) := by
    simp [storeSample]
  unfold sampleAt
  have hword : (((x % 2 ^ 16).toNat % 256 % 2 ^ 8 : ℕ) : ℤ) + 256 * (((x % 2 ^ 16).toNat / 256 % 2 ^ 8 : ℕ) : ℤ) =
      x % 2 ^ 16 := by omega
  rw [hlo, hhi, UInt8.toNat_ofNat', UInt8.toNat_ofNat', hword, Int.bmod_def]
  split_ifs <;> omega

/-- Samples at other places stay. -/
lemma sampleAt_storeSample_of_ne {page' offset' : ℕ} (h : page' = page → offset' ≠ offset ∧ offset' ≠ offset + 1 ∧
    offset' + 1 ≠ offset) : sampleAt (storeSample dma page offset x) page' offset' = sampleAt dma page' offset' := by
  have hbyte : ∀ o, (page' = page → o ≠ offset ∧ o ≠ offset + 1) → storeSample dma page offset x page' o = dma page' o := by
    intro o ho
    rw [storeSample, if_neg fun heq => (ho heq.1).1 heq.2, if_neg fun heq => (ho heq.1).2 heq.2]
  unfold sampleAt
  rw [hbyte offset' fun heq => ⟨(h heq).1,(h heq).2.1⟩, hbyte (offset' + 1) fun heq => ⟨(h heq).2.2,fun heq' => (h heq).1 (by omega)⟩]

/-- How many samples there are in the buffer. -/
def bufferSamples : ℕ := bufferBytes / 2

/-- The samples in the buffer, one after the other. -/
def cells (dma : DmaBuffer) (i : ℕ) : ℤ := storedAt dma (2 * i)

lemma cells_mod (dma : DmaBuffer) (k : ℕ) : cells dma (k % bufferSamples) = storedAt dma (2 * k % bufferBytes) := by
  have hplace : 2 * (k % bufferSamples) = 2 * k % bufferBytes := by
    unfold bufferSamples bufferBytes pageSize bufferPages
    omega
  rw [cells, hplace]

/-- The `k`-th sample goes to the `k`-th place, round and round. -/
lemma writeSample_ok (h : as.hwPtr = 2 * k % bufferBytes) (hlow : -2 ^ 15 ≤ x) (hhigh : x < 2 ^ 15) (dma : DmaBuffer) :
    ∃ dma', writeSample x dma as = .ok (dma',
        { as with hwPtr := 2 * (k + 1) % bufferBytes, processed := as.processed + 2 }) ∧
      cells dma' = Function.update (cells dma) (k % bufferSamples) x := by
  have hpage : as.hwPtr / pageSize < bufferPages ∧ as.hwPtr % pageSize + 1 < pageSize := by
    unfold bufferBytes pageSize bufferPages at *
    omega
  have hnext : (if as.hwPtr + 2 = pageSize * bufferPages then 0 else as.hwPtr + 2) = 2 * (k + 1) % bufferBytes := by
    unfold bufferBytes pageSize bufferPages at *
    split_ifs <;> omega
  have hvol : (x * volume).tdiv 100 = x := by
    have hvol : volume = 100 := by decide
    rw [hvol, Int.mul_tdiv_cancel x (by decide)]
  refine ⟨storeSample dma (as.hwPtr / pageSize) (as.hwPtr % pageSize) x,?_,funext fun i => ?_⟩
  · rw [writeSample]
    dsimp only
    rw [if_pos hpage, hvol, hnext]
  · rw [Function.update_apply, cells, storedAt]
    split_ifs with hi
    · have hplace : 2 * i = as.hwPtr := by
        rw [hi, h]
        unfold bufferSamples bufferBytes pageSize bufferPages
        omega
      rw [hplace]
      exact sampleAt_storeSample hlow hhigh
    · refine sampleAt_storeSample_of_ne fun heq => ?_
      unfold bufferSamples bufferBytes pageSize bufferPages at *
      omega

/-- So do those behind it. -/
lemma writeSamples_ok (h : as.hwPtr = 2 * k % bufferBytes) (hxs : ∀ x ∈ xs, -2 ^ 15 ≤ x ∧ x < 2 ^ 15) (hn : n ≤ xs.length)
    (l : List ℤ) (hl : l.length = k) (hcells : Holds bufferSamples (cells dma) (k - bufferSamples) l) :
    ∃ dma', writeSamples n xs dma as = .ok (dma',
        { as with hwPtr := 2 * (k + n) % bufferBytes, processed := as.processed + Int32.ofNat (2 * n) }) ∧
      Holds bufferSamples (cells dma') (k + n - bufferSamples) (l ++ xs.take n) := by
  induction n generalizing k as dma xs l with
  | zero =>
    refine ⟨dma,?_,by simpa using hcells⟩
    rw [writeSamples, Nat.add_zero, ← h]
    simp
  | succ n ih =>
    cases xs with
    | nil => cases hn
    | cons x xs =>
      obtain ⟨⟨hlow,hhigh⟩,hxs⟩ := List.forall_mem_cons.mp hxs
      obtain ⟨dma₁,hok₁,hcells₁⟩ := writeSample_ok h hlow hhigh dma
      have hheld : Holds bufferSamples (cells dma₁) (k + 1 - bufferSamples) (l ++ [x]) := by
        rw [hcells₁, ← hl]
        refine (hcells.mono (by omega)).push ?_ x
        have hpos : 0 < bufferSamples := by decide
        omega
      have hptr : ({ as with hwPtr := 2 * (k + 1) % bufferBytes, processed := as.processed + 2 } : AlsaStream).hwPtr =
          2 * (k + 1) % bufferBytes := rfl
      obtain ⟨dma₂,hok₂,hcells₂⟩ := ih hptr hxs (Nat.le_of_succ_le_succ hn) (l ++ [x]) (by simp [hl]) hheld
      have hplace : k + 1 + n = k + (n + 1) := by omega
      have hcount : (2 : Int32) + Int32.ofNat (2 * n) = Int32.ofNat (2 * (n + 1)) := by
        rw [Nat.mul_succ, Nat.add_comm, Int32.ofNat_add]
        rfl
      rw [hplace] at hok₂ hcells₂
      refine ⟨dma₂,?_,by simpa using hcells₂⟩
      rw [writeSamples, hok₁, ok_bind]
      dsimp only
      rw [hok₂]
      simp only [Int32.add_assoc, hcount]

end Store

section Runs

/-- The last samples are in the buffer, where the frontend looks for them, and left and right are the same. -/
structure Capture.Kept (s : Capture) : Prop where
  place : s.stream.hwPtr = 2 * s.samples.length % bufferBytes
  held : Holds bufferSamples (cells s.dma) (s.samples.length - bufferSamples) s.samples
  mono : ∃ m : List ℤ, s.samples = m.flatMap fun x => [x,x]

variable {s s' : Capture} {clean : ℕ → Int16} {read : ℕ} {e : CaptureEvent}

lemma length_doubleMono (src : ℕ → Int16) : (doubleMono src).length = 2048 := by
  simp only [doubleMono, List.length_flatMap, List.length_cons, List.length_nil, List.map_const', List.length_range,
    List.sum_replicate, smul_eq_mul]

lemma doubleMono_range (src : ℕ → Int16) : ∀ x ∈ doubleMono src, -2 ^ 15 ≤ x ∧ x < 2 ^ 15 := by
  intro x hx
  simp only [doubleMono, List.mem_flatMap, List.mem_range, List.mem_cons, List.not_mem_nil, or_false, or_self] at hx
  obtain ⟨i,-,rfl⟩ := hx
  exact ⟨Int16.le_toInt _,Int16.toInt_lt _⟩

/-- Whole frames of it have equal samples on both sides. -/
lemma take_doubleMono (src : ℕ → Int16) (read : ℕ) :
    (doubleMono src).take (read * 2) = ((List.range 1024).take read |>.map fun i => (src i).toInt).flatMap fun x => [x,x] := by
  unfold doubleMono
  generalize List.range 1024 = l
  induction read generalizing l with
  | zero => simp
  | succ n ih =>
    cases l with
    | nil => simp
    | cons i l =>
      rw [Nat.succ_mul, List.flatMap_cons, List.take_succ_cons, List.map_cons, List.flatMap_cons, ← ih]
      rfl

/-- A callback puts what it has read behind the rest, and publishes where the frontend will find the next. -/
lemma captureCallback_ok (h : s.Kept) (hread : read ≤ periodFrames) (hrunning : 1 < s.running) :
    ∃ s', s.captureCallback read clean = .ok s' ∧ s'.Kept ∧ s'.running = s.running ∧
      s'.samples = s.samples ++ (doubleMono clean).take (read * 2) ∧
      s'.stream.beHwPtr = (s'.samples.length / 2 % 8192 : ℕ) := by
  have hn : read * 4 / 2 ≤ (doubleMono clean).length := by
    rw [length_doubleMono]
    unfold periodFrames at hread
    omega
  have hhalf : read * 4 / 2 = read * 2 := by omega
  have hlength : (s.samples ++ (doubleMono clean).take (read * 2)).length = s.samples.length + read * 2 := by
    rw [List.length_append, List.length_take, Nat.min_eq_left (by rwa [← hhalf])]
  obtain ⟨dma,hok,hcells⟩ := writeSamples_ok h.place (doubleMono_range clean) hn s.samples rfl h.held
  rw [hhalf] at hok hcells
  refine ⟨{
    s with
    stream := alsaRefreshBeCaptureInfo {
      s.stream with
      hwPtr := 2 * (s.samples.length + read * 2) % bufferBytes
      processed := s.stream.processed + Int32.ofNat (2 * (read * 2)) }
    dma
    samples := s.samples ++ (doubleMono clean).take (read * 2) },?_,⟨?_,?_,?_⟩,rfl,rfl,?_⟩
  · rw [Capture.captureCallback, if_pos hrunning, putDataToSg, hhalf, hok]
    rfl
  · rw [hlength]
    rfl
  · rw [hlength]
    exact hcells
  · obtain ⟨m,hm⟩ := h.mono
    exact ⟨m ++ ((List.range 1024).take read |>.map fun i => (clean i).toInt),by
      rw [List.flatMap_append, ← take_doubleMono, hm]⟩
  · dsimp only [alsaRefreshBeCaptureInfo]
    rw [hlength]
    unfold bufferBytes pageSize bufferPages
    omega

lemma Capture.Kept.act (h : s.Kept) (he : e.Bounded) : ∃ s', s.act e = .ok s' ∧ s'.Kept := by
  cases e with
  | command cmd =>
    refine ⟨_,rfl,?_⟩
    cases cmd with
    | pcmPrepare => exact ⟨rfl,fun k _ x hx => by simp [Capture.processCaptureCmd] at hx,[],rfl⟩
    | _ => exact ⟨h.place,h.held,h.mono⟩
  | callback read clean =>
    cases read with
    | none => exact ⟨s,rfl,h⟩
    | some read =>
      by_cases hrunning : 1 < s.running
      · obtain ⟨s',hok,hkept,-⟩ := captureCallback_ok h he hrunning
        exact ⟨s',hok,hkept⟩
      · rw [Capture.act, Capture.captureCallback, if_neg hrunning]
        split_ifs
        · exact ⟨_,rfl,h.place,h.held,h.mono⟩
        · exact ⟨s,rfl,h⟩

/-- Callbacks one after the other. -/
lemma perform_callbacks (h : s.Kept) (hread : read ≤ periodFrames) (hrunning : 1 < s.running) (n : ℕ) :
    ∃ s', perform Capture.act s (List.replicate n (.callback (some read) clean)) = .ok s' ∧ s'.Kept ∧ 1 < s'.running ∧
      s'.samples.length = s.samples.length + n * (read * 2) := by
  induction n generalizing s with
  | zero => exact ⟨s,rfl,h,hrunning,by simp⟩
  | succ n ih =>
    obtain ⟨s₁,hok,hkept,hsame,hsamples,-⟩ := @captureCallback_ok s clean read h hread hrunning
    obtain ⟨s',hrun,hkept',hrunning',hlength⟩ := ih hkept (hsame ▸ hrunning)
    refine ⟨s',(perform_cons_eq_ok _).mpr ⟨s₁,hok,hrun⟩,hkept',hrunning',?_⟩
    unfold periodFrames at hread
    rw [hlength, hsamples, List.length_append, List.length_take, length_doubleMono, Nat.min_eq_left (by omega)]
    rw [Nat.succ_mul]
    omega

/-- The samples that are still in the buffer are read in order. -/
lemma Capture.Kept.samples_read (h : s.Kept) {k n : ℕ} (hkn : k + n ≤ s.samples.length) (hk : s.samples.length ≤ k + bufferSamples) :
    (List.range n).map (fun i => storedAt s.dma (2 * (k + i) % bufferBytes)) = (s.samples.drop k).take n := by
  refine List.ext_getElem ?_ fun i hi hi' => ?_
  · simp only [List.length_map, List.length_range, List.length_take, List.length_drop]
    omega
  · have hin : i < n := by simpa using hi
    have hlt : k + i < s.samples.length := by omega
    rw [List.getElem_map, List.getElem_range, List.getElem_take, List.getElem_drop, ← cells_mod]
    exact h.held (k + i) (by omega) _ (List.getElem?_eq_getElem hlt)

/-- After a PREPARE, whatever the frontend does and however many frames each callback reads, no sample is put outside
the eight pages, and what the microphone has picked up is in them, round and round, the same on both sides. A reader
that goes through the pages as the daemon does for playback, and is less than a whole buffer behind, gets the samples
in order; what is published is where the next ones will be. Nothing else puts anything into the pages: not the callbacks
before capture runs, and no command. -/
theorem capture_is_circular (s : Capture) {es : List CaptureEvent} (hes : ∀ e ∈ es, e.Bounded) :
    ∃ s', perform Capture.act (s.processCaptureCmd .pcmPrepare) es = .ok s' ∧
      s'.stream.hwPtr = 2 * s'.samples.length % 32768 ∧
      (∃ m : List ℤ, s'.samples = m.flatMap fun x => [x,x]) ∧
      (∀ k n processed, k + n ≤ s'.samples.length → s'.samples.length ≤ k + 16384 →
        ∃ as, getDataFromSg (fun _ => s'.dma) (2 * n) ⟨2 * k % 32768,processed,0⟩ =
          .ok ((s'.samples.drop k).take n,as)) ∧
      (∀ read clean, read ≤ 1024 → 1 < s'.running → ∃ s'', s'.captureCallback read clean = .ok s'' ∧
        s''.samples = s'.samples ++ (doubleMono clean).take (2 * read) ∧
        s''.stream.beHwPtr = (s''.samples.length / 2 % 8192 : ℕ)) ∧
      (∀ read clean, ¬ 1 < s'.running → ∃ s'', s'.captureCallback read clean = .ok s'' ∧ s''.dma = s'.dma ∧
        s''.stream = s'.stream ∧ s''.samples = s'.samples) ∧
      ∀ cmd, (s'.processCaptureCmd cmd).dma = s'.dma := by
  have hstart : (s.processCaptureCmd .pcmPrepare).Kept :=
    ⟨rfl,fun k _ x hx => by simp [Capture.processCaptureCmd] at hx,[],rfl⟩
  obtain ⟨s',hrun,hkept⟩ := Meets.progress (fun _ _ => Capture.Kept.act) (Meets.of_forall hes _) hstart
  refine ⟨s',hrun,hkept.place,hkept.mono,fun k n processed hkn hk => ?_,fun read clean hread hrunning => ?_,
    fun read clean hidle => ?_,fun cmd => ?_⟩
  · have hplace : (⟨2 * k % 32768,processed,0⟩ : AlsaStream).hwPtr = 2 * k % bufferBytes := rfl
    have hcount : 2 * n / 2 = n := by omega
    have hread := readSamples_ok hplace n fun _ => s'.dma
    rw [hkept.samples_read hkn hk] at hread
    have hget : getDataFromSg (fun _ => s'.dma) (2 * n) ⟨2 * k % 32768,processed,0⟩ =
        readSamples n (fun _ => s'.dma) ⟨2 * k % 32768,processed,0⟩ := by rw [getDataFromSg, hcount]
    exact ⟨_,hget.trans hread⟩
  · obtain ⟨s'',hok,-,-,hsamples,hpublished⟩ := captureCallback_ok hkept hread hrunning
    exact ⟨s'',hok,by rw [hsamples,Nat.mul_comm],hpublished⟩
  · rw [Capture.captureCallback, if_neg hidle]
    split_ifs
    · exact ⟨_,rfl,rfl,rfl,rfl⟩
    · exact ⟨s',rfl,rfl,rfl,rfl⟩
  · cases cmd <;> rfl

/-- Behind the callback that is passed over, the buffer is filled and begun again. -/
def wrappingEvents : List CaptureEvent :=
  [CaptureEvent.command .triggerStart,.callback (some 1024) fun _ => 1] ++
    List.replicate 8 (CaptureEvent.callback (some 1024) fun _ => 2) ++
    List.replicate 1 (CaptureEvent.callback (some 1000) fun _ => 3)

theorem capture_is_circular_wrapping : ∃ s, perform Capture.act (Capture.processCaptureCmd ⟨{},fun _ _ => 0,0,[]⟩ .pcmPrepare)
    wrappingEvents = .ok s ∧ s.samples.length = 18384 ∧ s.stream.hwPtr = 4000 := by
  have hes : ∀ e ∈ wrappingEvents, e.Bounded := by
    simp [wrappingEvents,CaptureEvent.Bounded,periodFrames]
  obtain ⟨s,hrun,hplace,-⟩ := capture_is_circular ⟨{},fun _ _ => 0,0,[]⟩ hes
  have hlength : s.samples.length = 18384 := by
    have hkept : Capture.Kept ⟨{},fun _ _ => 0,2,[]⟩ := ⟨rfl,fun k _ x hx => by simp at hx,[],rfl⟩
    obtain ⟨s₁,hfull,hkept₁,hrunning₁,hlength₁⟩ :=
      @perform_callbacks _ (fun _ => 2) 1024 hkept (by decide) (by decide) 8
    obtain ⟨s₂,hlast,-,-,hlength₂⟩ := @perform_callbacks s₁ (fun _ => 3) 1000 hkept₁ (by decide) hrunning₁ 1
    have hall : perform Capture.act (Capture.processCaptureCmd ⟨{},fun _ _ => 0,0,[]⟩ .pcmPrepare) wrappingEvents =
        .ok s₂ := by
      have hfirst : perform Capture.act (Capture.processCaptureCmd ⟨{},fun _ _ => 0,0,[]⟩ .pcmPrepare)
          [.command .triggerStart,.callback (some 1024) fun _ => 1] = .ok ⟨{},fun _ _ => 0,2,[]⟩ := rfl
      rw [wrappingEvents, List.append_assoc, perform_append, hfirst, ok_bind, perform_append, hfull]
      exact hlast
    obtain rfl := Except.ok.inj (hrun.symm.trans hall)
    rw [hlength₂, hlength₁]
    rfl
  refine ⟨s,hrun,hlength,?_⟩
  rw [hplace, hlength]

end Runs

end Xctools.Audio
