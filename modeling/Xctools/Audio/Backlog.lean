import Mathlib.Data.Nat.Basic
import Xctools.Machine.Loop
import Xctools.Audio.Playback

/-! The backlog of a playback stream, `alsa_get_live_frames`. The frontend counts the frames it has written in 64
bits, the daemon the bytes it has processed in 32; the callback takes a period when the difference, as an int, is
one at least. -/
namespace Xctools.Audio
open Machine

section Code

/-- The commands of `process_playback_cmd`. -/
inductive PcmCommand
  | pcmOpen
  | pcmClose
  | pcmPrepare
  | triggerStart
  | triggerStop
  deriving DecidableEq, Repr

/-- The playback stream, `playback_is_running` and how many frames the frontend has written, `appl_ptr` being the
low 64 bits of it. How many frames were consumed is nowhere in the code. -/
structure Backlog where
  stream : AlsaStream := {}
  running : ℕ := 0
  appl : ℕ := 0
  consumed : ℕ := 0

/-- `appl_ptr`. -/
def applPtr (appl : ℕ) : ℕ := appl % 2 ^ 64

/-- The loop that reads `appl_ptr` in `alsa_get_live_frames`. The frontend may write before each access; how much is
in `during`. -/
structure Reading where
  appl : ℕ
  during : List ℕ
  appPtr : Int32 := 0
  settled : Bool := false

def Reading.access (r : Reading) : Reading := { r with appl := r.appl + r.during.headD 0, during := r.during.tail }

/-- `app_ptr` is assigned, and compared as a number of 64 bits. -/
def Reading.round (r : Reading) : Outcome Reading :=
  let read := r.access
  let appPtr := Int32.ofNat (applPtr read.appl)
  let compared := read.access
  .ok { compared with appPtr, settled := appPtr.toInt % 2 ^ 64 = applPtr compared.appl }

/-- `alsa_get_live_frames`, and what the frontend has written when it returns. -/
def alsaGetLiveFrames (processed : Int32) (appl : ℕ) (during : List ℕ) : Outcome (Int32 × ℕ) := do
  let r ← loop Reading.round Reading.settled (during.length + 1) ⟨appl,during,0,false⟩
  return (r.appPtr - processed / 4,r.appl)

/-- What `capture_callback` does for playback. -/
def Backlog.captureCallback (s : Backlog) (seen : ℕ → DmaBuffer) (during : List ℕ) : Outcome Backlog :=
  if s.running = 0 then .ok s
  else do
    let (frames, appl) ← alsaGetLiveFrames s.stream.processed s.appl during
    if frames < 1024 then return { s with appl }
    let (_, stream) ← getDataFromSg seen (periodFrames * 4) s.stream
    if s.running < 2 then return { stream, running := s.running + 1, appl, consumed := s.consumed + periodFrames }
    return { s with stream := alsaRefreshBePlaybackInfo stream 1, appl, consumed := s.consumed + periodFrames }

/-- `process_playback_cmd`. What is published is the pointer alone. -/
def Backlog.processPlaybackCmd (s : Backlog) : PcmCommand → Backlog
  | .pcmOpen | .pcmClose => { s with running := 0 }
  | .pcmPrepare => { s with running := 0, stream := { s.stream with hwPtr := 0, processed := 0 } }
  | .triggerStart => { s with running := 1, stream := { s.stream with beHwPtr := 0 } }
  | .triggerStop => { s with running := 0, stream := { s.stream with beHwPtr := 0 } }

/-- The frontend writes frames or gives a command, or the callback is made. It gets to playback only if both devices
are `ready`. -/
inductive BacklogEvent
  | advance (frames : ℕ)
  | command (cmd : PcmCommand)
  | callback (ready : Bool) (seen : ℕ → DmaBuffer) (during : List ℕ)

def Backlog.act (s : Backlog) : BacklogEvent → Outcome Backlog
  | .advance frames => .ok { s with appl := s.appl + frames }
  | .command cmd => .ok (s.processPlaybackCmd cmd)
  | .callback ready seen during => if ready then s.captureCallback seen during else .ok s

/-- The frontend is never more than the buffer ahead, and there is no other PREPARE. -/
def Ahead (s : Backlog) : BacklogEvent → Prop
  | .advance frames => s.appl + frames ≤ s.consumed + 8192
  | .command cmd => cmd ≠ .pcmPrepare
  | .callback _ _ during => s.appl + during.sum ≤ s.consumed + 8192

/-- A stream behind a PREPARE. -/
def prepared (as : AlsaStream) : Backlog := ({ stream := as } : Backlog).processPlaybackCmd .pcmPrepare

/-- The number of live frames is right, whatever the frontend does meanwhile, and a period is consumed if it is
there. -/
structure Backlog.Right (s : Backlog) : Prop where
  live : ∀ during : List ℕ, s.appl + during.sum ≤ s.consumed + 8192 →
    ∃ frames appl, alsaGetLiveFrames s.stream.processed s.appl during = .ok (frames,appl) ∧
      frames.toInt = (appl : ℤ) - s.consumed
  periods : ∀ seen, ∀ during : List ℕ, s.appl + during.sum ≤ s.consumed + 8192 → s.running ≠ 0 →
    ∃ s', s.captureCallback seen during = .ok s' ∧
      s'.consumed = if s.consumed + 1024 ≤ s'.appl then s.consumed + 1024 else s.consumed

end Code

section Live
variable {appl consumed : ℕ} {processed : Int32} {during : List ℕ} {r : Reading}

lemma sum_access (r : Reading) : r.access.appl + r.access.during.sum = r.appl + r.during.sum := by
  obtain ⟨appl,during,appPtr,settled⟩ := r
  cases during with
  | nil => rfl
  | cons n during => simp [Reading.access, Nat.add_assoc]

lemma length_access (r : Reading) : r.access.during.length = r.during.length - 1 := List.length_tail

lemma appl_le_access (r : Reading) : r.appl ≤ r.access.appl := Nat.le_add_right _ _

/-- The low bits say it all. -/
lemma toInt_applPtr (h : appl < 2 ^ 31) : (Int32.ofNat (applPtr appl)).toInt = appl := by
  have hlow : applPtr appl = appl := Nat.mod_eq_of_lt (by omega)
  rw [hlow, Int32.toInt_ofNat_of_lt h]

/-- A round is the last one if the frontend has written nothing between its accesses. -/
lemma round_eq (h : r.appl + r.during.sum < 2 ^ 31) :
    ∃ b, r.round = .ok b ∧ b.appl = r.access.access.appl ∧ b.during = r.access.access.during ∧
      (b.settled = true ↔ r.access.appl = b.appl) ∧ b.appPtr.toInt = r.access.appl := by
  have hsum := sum_access r
  have hsum' := sum_access r.access
  refine ⟨_,rfl,rfl,rfl,?_,toInt_applPtr (by omega)⟩
  dsimp only
  rw [toInt_applPtr (by omega), applPtr, decide_eq_true_iff]
  omega

/-- As long as the counter is small, the loop comes to its end. -/
lemma reading_settles (h : appl + during.sum < 2 ^ 31) :
    ∃ r, loop Reading.round Reading.settled (during.length + 1) ⟨appl,during,0,false⟩ = .ok r ∧
      r.appPtr.toInt = r.appl ∧ appl ≤ r.appl ∧ r.appl ≤ appl + during.sum := by
  let P : Reading → Prop := fun r =>
    r.appl + r.during.sum = appl + during.sum ∧ appl ≤ r.appl ∧ (r.settled = true → r.appPtr.toInt = r.appl)
  let μ : Reading → ℕ := fun r => if r.settled then 0 else r.during.length + 1
  have hstep : ∀ a, P a → a.settled = false → ∃ b, a.round = .ok b ∧ P b ∧ μ b < μ a := by
    rintro a ⟨hsum,hle,-⟩ hrun
    obtain ⟨b,hround,happl,hduring,hsettled,hptr⟩ := round_eq (hsum ▸ h)
    have hfirst := sum_access a
    have hsecond := sum_access a.access
    have hup := appl_le_access a
    have hup' := appl_le_access a.access
    refine ⟨b,hround,⟨?_,?_,?_⟩,?_⟩
    · rw [happl, hduring]
      omega
    · omega
    · intro hs
      rw [hptr, hsettled.mp hs]
    · cases hs : b.settled with
      | true => simp [μ, hs, hrun]
      | false =>
        -- something was written between the accesses, so it was taken from the front
        have hlength := length_access a
        have hlength' := length_access a.access
        have hnonempty : a.during ≠ [] := by
          intro hnil
          have hsame : a.access.appl = b.appl := by simp [happl, Reading.access, hnil]
          rw [hsettled.mpr hsame] at hs
          cases hs
        have hpos := List.length_pos_iff.mpr hnonempty
        simp only [μ, hs, hrun, hduring]
        simp only [Bool.false_eq_true, if_false]
        omega
  have hstart : P ⟨appl,during,0,false⟩ := ⟨rfl,Nat.le_refl _,nofun⟩
  obtain ⟨r,hr,⟨hsum,hle,hptr⟩,hs⟩ := loop_total hstep hstart (Nat.le_refl (during.length + 1))
  exact ⟨r,hr,hptr hs,hle,by omega⟩

/-- What comes out then. -/
lemma alsaGetLiveFrames_settles (h : appl + during.sum < 2 ^ 31) (processed : Int32) :
    ∃ frames appl', alsaGetLiveFrames processed appl during = .ok (frames,appl') ∧
      frames.toInt = Int.bmod (appl' - (processed / 4).toInt) (2 ^ 32) ∧ appl ≤ appl' ∧
      appl' ≤ appl + during.sum := by
  obtain ⟨r,hr,hptr,hle,hup⟩ := reading_settles h
  refine ⟨r.appPtr - processed / 4,r.appl,?_,?_,hle,hup⟩
  · rw [alsaGetLiveFrames, hr]
    rfl
  · rw [Int32.toInt_sub, hptr]

/-- No int is the same number of 64 bits as a counter in between. -/
lemma toInt_ne_applPtr (hlow : 2 ^ 31 ≤ appl) (hhigh : appl < 2 ^ 64 - 2 ^ 31) (x : Int32) :
    x.toInt % 2 ^ 64 ≠ applPtr appl := by
  have hlt := x.toInt_lt
  have hle := x.le_toInt
  unfold applPtr
  omega

/-- With such a counter the daemon hangs, though nothing is written any more. -/
theorem alsaGetLiveFrames_hangs (hlow : 2 ^ 31 ≤ appl) (hhigh : appl < 2 ^ 64 - 2 ^ 31) (processed : Int32) :
    alsaGetLiveFrames processed appl [] = .error .loop := by
  have hround : ∀ n (x : Int32), loop Reading.round Reading.settled n ⟨appl,[],x,false⟩ = .error .loop := by
    intro n
    induction n with
    | zero => exact fun _ => rfl
    | succ n ih =>
      intro x
      have hunsettled : Reading.round ⟨appl,[],x,false⟩ = .ok ⟨appl,[],Int32.ofNat (applPtr appl),false⟩ := by
        have hne := toInt_ne_applPtr hlow hhigh (Int32.ofNat (applPtr appl))
        simp only [Reading.round, Reading.access, List.headD_nil, List.tail_nil, Nat.add_zero, hne, decide_false]
      rw [loop_succ_of_not_done rfl, hunsettled, ok_bind]
      exact ih _
  rw [alsaGetLiveFrames, hround]
  rfl

end Live

section Counts
variable {s s' : Backlog} {during : List ℕ}

/-- The counters of the code go with the frames that were consumed; no more of them than the first number that
`processed` cannot hold four times. -/
structure Counted (s : Backlog) : Prop where
  processed : s.stream.processed.toInt = Int.bmod (4 * s.consumed) (2 ^ 32)
  hwPtr : s.stream.hwPtr = 2 * (2 * s.consumed) % bufferBytes
  behind : s.consumed ≤ s.appl
  ahead : s.appl ≤ s.consumed + 8192
  few : s.consumed ≤ 2 ^ 29
  whole : 1024 ∣ s.consumed

lemma counted_prepared (as : AlsaStream) : Counted (prepared as) where
  processed := by
    change (0 : Int32).toInt = Int.bmod (4 * ((0 : ℕ) : ℤ)) (2 ^ 32)
    decide
  hwPtr := rfl
  behind := Nat.le_refl 0
  ahead := Nat.zero_le _
  few := Nat.zero_le _
  whole := Nat.dvd_zero 1024

/-- A quarter of `processed` is what was consumed, until it is negative. -/
lemma Counted.quarter (h : Counted s) : (s.stream.processed / 4).toInt =
    if s.consumed < 2 ^ 29 then (s.consumed : ℤ) else -2 ^ 29 := by
  have hfew := h.few
  rw [Int32.toInt_div_of_ne_right _ _ (by decide), h.processed]
  have hfour : (4 : Int32).toInt = 4 := by decide
  rw [hfour]
  split_ifs with hlt
  · rw [Int.bmod_eq_of_le (by omega) (by omega), Int.mul_tdiv_cancel_left _ (by decide)]
  · have heq : s.consumed = 2 ^ 29 := by omega
    rw [heq]
    decide

/-- Up to there the live frames are what is between the two counters. -/
lemma Counted.live (h : Counted s) (hfew : s.consumed < 2 ^ 29) (hahead : s.appl + during.sum ≤ s.consumed + 8192) :
    ∃ frames appl, alsaGetLiveFrames s.stream.processed s.appl during = .ok (frames,appl) ∧
      frames.toInt = (appl : ℤ) - s.consumed ∧ s.appl ≤ appl ∧ appl ≤ s.appl + during.sum := by
  obtain ⟨frames,appl,hlive,hframes,hle,hup⟩ := alsaGetLiveFrames_settles
    (show s.appl + during.sum < 2 ^ 31 by omega) s.stream.processed
  have hbehind := h.behind
  rw [h.quarter, if_pos hfew, Int.bmod_eq_of_le (by omega) (by omega)] at hframes
  exact ⟨frames,appl,hlive,hframes,hle,hup⟩

/-- A period is taken out of the buffer. -/
lemma Counted.getDataFromSg (h : Counted s) (seen : ℕ → DmaBuffer) :
    ∃ xs stream, getDataFromSg seen (periodFrames * 4) s.stream = .ok (xs,stream) ∧
      stream.hwPtr = 2 * (2 * (s.consumed + 1024)) % bufferBytes ∧
      stream.processed.toInt = Int.bmod (4 * ((s.consumed + 1024 : ℕ) : ℤ)) (2 ^ 32) := by
  have hplace : 2 * s.consumed + periodFrames * 4 / 2 = 2 * (s.consumed + 1024) := by
    unfold periodFrames
    omega
  have hperiod : (Int32.ofNat (2 * (periodFrames * 4 / 2))).toInt = 4096 := by decide
  have hcount : (4 * (s.consumed : ℤ) + 4096) = 4 * ((s.consumed + 1024 : ℕ) : ℤ) := by omega
  refine ⟨_,_,by rw [Audio.getDataFromSg, readSamples_ok h.hwPtr],?_,?_⟩
  · dsimp only
    rw [hplace]
  · rw [Int32.toInt_add, hperiod, h.processed, Int.bmod_add_bmod, hcount]

/-- The callback takes a period if there is one. -/
lemma Counted.captureCallback (h : Counted s) (hfew : s.consumed < 2 ^ 29) (seen : ℕ → DmaBuffer)
    (hahead : s.appl + during.sum ≤ s.consumed + 8192) :
    ∃ s', s.captureCallback seen during = .ok s' ∧ Counted s' ∧ (s'.running = 0 ↔ s.running = 0) ∧
      s.appl ≤ s'.appl ∧ s'.appl ≤ s.appl + during.sum ∧
      (s.running ≠ 0 → s'.consumed = if s.consumed + 1024 ≤ s'.appl then s.consumed + 1024 else s.consumed) := by
  by_cases hrunning : s.running = 0
  · exact ⟨s,by rw [Backlog.captureCallback, if_pos hrunning],h,Iff.rfl,Nat.le_refl _,Nat.le_add_right _ _,
      fun hne => absurd hrunning hne⟩
  obtain ⟨frames,appl,hlive,hframes,hle,hup⟩ := h.live hfew hahead
  obtain ⟨xs,stream,hget,hptr,hprocessed⟩ := h.getDataFromSg seen
  obtain ⟨hproc,hhw,hbehind,hbound,-,hwhole⟩ := h
  have hperiod : frames < 1024 ↔ ¬ s.consumed + 1024 ≤ appl := by
    have hvalue : (1024 : Int32).toInt = 1024 := by decide
    rw [Int32.lt_iff_toInt_lt, hvalue, hframes]
    omega
  rw [Backlog.captureCallback, if_neg hrunning, hlive, ok_bind]
  dsimp only
  by_cases hshort : frames < 1024
  · rw [if_pos hshort]
    exact ⟨_,rfl,⟨hproc,hhw,by dsimp only; omega,by dsimp only; omega,by dsimp only; omega,hwhole⟩,Iff.rfl,hle,hup,
      fun _ => (if_neg (hperiod.mp hshort)).symm⟩
  have hthere : s.consumed + 1024 ≤ appl := by
    by_contra hnot
    exact hshort (hperiod.mpr hnot)
  have hfew' : s.consumed + 1024 ≤ 2 ^ 29 := by omega
  rw [if_neg hshort, hget, ok_bind]
  dsimp only
  by_cases hfirst : s.running < 2
  · rw [if_pos hfirst]
    exact ⟨_,rfl,⟨hprocessed,hptr,hthere,by dsimp only; omega,hfew',Nat.dvd_add hwhole (Nat.dvd_refl _)⟩,
      iff_of_false (Nat.succ_ne_zero _) hrunning,hle,hup,fun _ => (if_pos hthere).symm⟩
  · rw [if_neg hfirst]
    exact ⟨_,rfl,⟨hprocessed,hptr,hthere,by dsimp only; omega,hfew',Nat.dvd_add hwhole (Nat.dvd_refl _)⟩,
      Iff.rfl,hle,hup,fun _ => (if_pos hthere).symm⟩

/-- A command that is not PREPARE leaves the counters as they are. -/
lemma Counted.processPlaybackCmd (h : Counted s) {cmd : PcmCommand} (hcmd : cmd ≠ .pcmPrepare) :
    Counted (s.processPlaybackCmd cmd) := by
  obtain ⟨hproc,hhw,hbehind,hahead,hfew,hwhole⟩ := h
  cases cmd with
  | pcmPrepare => exact absurd rfl hcmd
  | pcmOpen => exact ⟨hproc,hhw,hbehind,hahead,hfew,hwhole⟩
  | pcmClose => exact ⟨hproc,hhw,hbehind,hahead,hfew,hwhole⟩
  | triggerStart => exact ⟨hproc,hhw,hbehind,hahead,hfew,hwhole⟩
  | triggerStop => exact ⟨hproc,hhw,hbehind,hahead,hfew,hwhole⟩

/-- One step. -/
lemma Counted.act (h : Counted s) (hfew : s.consumed < 2 ^ 29) {e : BacklogEvent} (hahead : Ahead s e)
    (hact : s.act e = .ok s') : Counted s' := by
  cases e with
  | advance frames =>
    obtain rfl := Except.ok.inj hact
    obtain ⟨hproc,hhw,hbehind,-,hle,hwhole⟩ := h
    exact ⟨hproc,hhw,Nat.le_trans hbehind (Nat.le_add_right _ _),hahead,hle,hwhole⟩
  | command cmd =>
    obtain rfl := Except.ok.inj hact
    exact h.processPlaybackCmd hahead
  | callback ready seen during =>
    cases ready with
    | false =>
      obtain rfl := Except.ok.inj hact
      exact h
    | true =>
      obtain ⟨t,ht,hcounted,-⟩ := h.captureCallback hfew seen hahead
      obtain rfl := Except.ok.inj (ht.symm.trans hact)
      exact hcounted

/-- The number is right as long as `processed` can hold what was consumed. -/
lemma Counted.right_iff (h : Counted s) : s.Right ↔ s.consumed < 2 ^ 29 := by
  have hle := h.few
  have hbehind := h.behind
  have hbound := h.ahead
  constructor
  · intro hright
    by_contra hmany
    obtain ⟨frames,appl,hlive,hframes⟩ := hright.live [] hbound
    obtain ⟨frames',appl',hlive',hframes',hlow,hup⟩ := @alsaGetLiveFrames_settles s.appl []
      (show s.appl + 0 < 2 ^ 31 by omega) s.stream.processed
    obtain ⟨rfl,rfl⟩ := Prod.mk.inj (Except.ok.inj (hlive.symm.trans hlive'))
    have happl : appl = s.appl := Nat.le_antisymm hup hlow
    rw [hframes, h.quarter, if_neg hmany, Int.bmod_eq_of_le (by omega) (by omega)] at hframes'
    omega
  · intro hfew
    constructor
    · intro during hahead
      obtain ⟨frames,appl,hlive,hframes,-⟩ := h.live hfew hahead
      exact ⟨frames,appl,hlive,hframes⟩
    · intro seen during hahead hrunning
      obtain ⟨t,ht,-,-,-,-,hconsumed⟩ := h.captureCallback hfew seen hahead
      exact ⟨t,ht,hconsumed hrunning⟩

/-- Along a run since PREPARE the number of live frames is right throughout exactly if fewer than 2 ^ 29 frames are
consumed throughout. -/
theorem backlog_right_iff (as : AlsaStream) {es : List BacklogEvent} (h : Meets Backlog.act Ahead (prepared as) es) :
    Throughout Backlog.act Backlog.Right (prepared as) es ↔
      Throughout Backlog.act (fun s => s.consumed < 2 ^ 29) (prepared as) es :=
  h.throughout_iff (fun _ hs => hs.right_iff) (fun _ _ _ hs hfew hahead hact => hs.act hfew hahead hact)
    (counted_prepared as)

/-- Play for `n` periods, each of them written and consumed. -/
def played (n : ℕ) : List BacklogEvent :=
  .command .triggerStart :: (List.replicate n [.advance 1024, .callback true (fun _ _ _ => 0) []]).flatten

/-- A period is written and consumed. -/
lemma Counted.period (h : Counted s) (hrunning : s.running ≠ 0) (heven : s.appl = s.consumed)
    (hfew : s.consumed < 2 ^ 29) (seen : ℕ → DmaBuffer) :
    ∃ t, ({ s with appl := s.appl + 1024 } : Backlog).captureCallback seen [] = .ok t ∧ Counted t ∧
      t.running ≠ 0 ∧ t.appl = t.consumed ∧ t.consumed = s.consumed + 1024 := by
  have hahead : s.appl + 1024 ≤ s.consumed + 8192 := by omega
  have hwritten : Counted { s with appl := s.appl + 1024 } := h.act hfew (e := .advance 1024) hahead rfl
  obtain ⟨t,ht,hcounted,hrun,hle,hup,hconsumed⟩ := @Counted.captureCallback _ [] hwritten hfew seen hahead
  have happl : t.appl = s.appl + 1024 := Nat.le_antisymm hup hle
  have hsum : t.consumed = s.consumed + 1024 := by
    rw [hconsumed hrunning, if_pos (by dsimp only; omega)]
  exact ⟨t,ht,hcounted,fun hzero => hrunning (hrun.mp hzero),by omega,hsum⟩

/-- So are many of them. -/
lemma Counted.played (h : Counted s) (hrunning : s.running ≠ 0) (heven : s.appl = s.consumed) {n : ℕ}
    (hn : s.consumed + 1024 * n ≤ 2 ^ 29) :
    let es := (List.replicate n [.advance 1024, .callback true (fun _ _ _ => 0) []]).flatten
    Meets Backlog.act Ahead s es ∧ ∃ t, perform Backlog.act s es = .ok t ∧ t.consumed = s.consumed + 1024 * n ∧
      Counted t := by
  induction n generalizing s with
  | zero => exact ⟨trivial,s,rfl,rfl,h⟩
  | succ n ih =>
    have hahead : s.appl + 1024 ≤ s.consumed + 8192 := by
      rw [heven]
      exact Nat.add_le_add_left (by decide) _
    obtain ⟨t,ht,hcounted,hrun,hsame,hconsumed⟩ := h.period hrunning heven (by omega) (fun _ _ _ => 0)
    obtain ⟨hmeets,u,hu,hsum,hcount⟩ := ih hcounted hrun hsame (by omega)
    rw [List.replicate_succ, List.flatten_cons]
    refine ⟨⟨hahead,?_⟩,u,?_,by omega,hcount⟩
    · rintro s₁ hs₁
      obtain rfl := Except.ok.inj hs₁
      refine ⟨hahead,fun s₂ hs₂ => ?_⟩
      obtain rfl := Except.ok.inj (ht.symm.trans hs₂)
      exact hmeets
    · exact (perform_cons_eq_ok _).mpr ⟨_,rfl,(perform_cons_eq_ok _).mpr ⟨t,ht,hu⟩⟩

/-- When 2 ^ 19 periods were played, `processed` is negative, and the number wrong. -/
theorem backlog_wrong : Meets Backlog.act Ahead (prepared {}) (played (2 ^ 19)) ∧
    ¬ Throughout Backlog.act Backlog.Right (prepared {}) (played (2 ^ 19)) := by
  have hstart : Counted ((prepared {}).processPlaybackCmd .triggerStart) :=
    (counted_prepared {}).processPlaybackCmd nofun
  obtain ⟨hmeets,t,ht,hconsumed,hcounted⟩ := hstart.played (n := 2 ^ 19) Nat.one_ne_zero rfl (by decide)
  refine ⟨⟨nofun,fun s hs => ?_⟩,fun h => ?_⟩
  · obtain rfl := Except.ok.inj hs
    exact hmeets
  · have hlast : t.Right := h.last ((perform_cons_eq_ok _).mpr ⟨_,rfl,ht⟩)
    have hfew := hcounted.right_iff.mp hlast
    rw [hconsumed] at hfew
    exact absurd hfew (by decide)

/-- Three periods. -/
theorem backlog_right_iff_three : Throughout Backlog.act Backlog.Right (prepared {}) (played 3) ↔
    Throughout Backlog.act (fun s => s.consumed < 2 ^ 29) (prepared {}) (played 3) := by
  have hstart : Counted ((prepared {}).processPlaybackCmd .triggerStart) :=
    (counted_prepared {}).processPlaybackCmd nofun
  obtain ⟨hmeets,-⟩ := hstart.played (n := 3) Nat.one_ne_zero rfl (by decide)
  refine backlog_right_iff {} ⟨nofun,fun s hs => ?_⟩
  obtain rfl := Except.ok.inj hs
  exact hmeets

end Counts

end Xctools.Audio
