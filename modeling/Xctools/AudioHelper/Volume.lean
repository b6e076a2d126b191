import Xctools.AudioHelper.Samples
import Xctools.Machine.Rounding

/-! The volume of a simple mixer element, `openxtalsa.c`. It is set as a percentage, which is converted to a level in
the range of the element, and a level that is read is converted back. -/
namespace Xctools.AudioHelper
open Machine

section Code

/-- An element: which volumes it has, and its ranges, or the error that asking for them gives. -/
structure Selem where
  common : Bool := false
  playback : Bool := false
  capture : Bool := false
  playbackRange : Except ℤ (ℤ × ℤ)
  captureRange : Except ℤ (ℤ × ℤ)

/-- The pointers of `Settings` that the mixer functions look at. -/
structure MixerSettings where
  elem : Option Selem
  mhandle : Bool := true

/-- `SND_MIXER_SCHN_LAST`. -/
def schnLast : ℕ := 31

/-- The range that `openxt_alsa_mixer_sset_volume` goes by. -/
def Selem.setRange (e : Selem) : Option (Except ℤ (ℤ × ℤ)) :=
  if e.common || e.playback then some e.playbackRange
  else if e.capture then some e.captureRange
  else none

/-- The loop through the channels, with the result of each call: the result, and what was written. -/
def setChannels (answer : ℕ → ℤ) (level : ℤ) : List ℕ → ℤ × List (ℕ × ℤ)
  | [] => (0, [])
  | chn :: chns =>
    if answer chn ≠ 0 then (answer chn, [(chn, level)])
    else ((setChannels answer level chns).1, (chn, level) :: (setChannels answer level chns).2)

/-- `openxt_alsa_mixer_sset_volume`. -/
def openxtAlsaMixerSsetVolume (s : MixerSettings) (answer : ℕ → ℤ) (vol : ℤ) : ℤ × List (ℕ × ℤ) :=
  match s.elem with
  | none => (-einval, [])
  | some e =>
    if ¬ (0 ≤ vol ∧ vol ≤ 100) then (-einval, [])
    else match e.setRange with
      | none => (0, [])
      | some (.error ret) => (ret, [])
      | some (.ok (min, max)) => setChannels answer (roundDiv ((max - min) * vol) 100) (List.range (schnLast + 1))

/-- The range that `openxt_alsa_percentage` goes by. That for capture takes the place of that for playback. -/
def Selem.getRange (e : Selem) : Option (Except ℤ (ℤ × ℤ)) :=
  match (if e.common || e.playback then some e.playbackRange else none), e.capture with
  | some (.error ret), _ => some (.error ret)
  | _, true => some e.captureRange
  | range, false => range

/-- `openxt_alsa_percentage`. Without a volume the range is never set. -/
def openxtAlsaPercentage (s : MixerSettings) (vol : ℤ) : Outcome ℤ :=
  match s.elem with
  | none => .ok (-einval)
  | some e =>
    if s.mhandle = false then .ok (-einval)
    else match e.getRange with
      | none => .error .wild
      | some (.error ret) => .ok ret
      | some (.ok (min, max)) => .ok (roundDiv (Int.bmod (vol * 100) (2 ^ 32)) (max - min))

/-- The element has a volume, and its volumes are in this range. -/
structure MixerSettings.HasRange (s : MixerSettings) (e : Selem) (min max : ℤ) : Prop where
  elem : s.elem = some e
  mhandle : s.mhandle = true
  some : (e.common || e.playback || e.capture) = true
  playback : (e.common || e.playback) = true → e.playbackRange = .ok (min,max)
  capture : e.capture = true → e.captureRange = .ok (min,max)

/-- What is written for a percentage is in the range, at its ends for 0 and 100, and reads as the percentage. -/
structure Agrees (s : MixerSettings) (answer : ℕ → ℤ) (min max p : ℤ) : Prop where
  inRange : ∀ w ∈ (openxtAlsaMixerSsetVolume s answer p).2, min ≤ w.2 ∧ w.2 ≤ max
  bottom : p = 0 → ∀ w ∈ (openxtAlsaMixerSsetVolume s answer p).2, w.2 = min
  top : p = 100 → ∀ w ∈ (openxtAlsaMixerSsetVolume s answer p).2, w.2 = max
  back : ∀ w ∈ (openxtAlsaMixerSsetVolume s answer p).2, openxtAlsaPercentage s w.2 = .ok p

end Code

section Levels
variable {s : MixerSettings} {e : Selem} {answer : ℕ → ℤ} {min max p level : ℤ}

/-- All channels that are written get the one level, and the first one is. -/
lemma forall_setChannels {P : ℤ → Prop} (answer : ℕ → ℤ) (level : ℤ) (chn : ℕ) (chns : List ℕ) :
    (∀ w ∈ (setChannels answer level (chn :: chns)).2, P w.2) ↔ P level := by
  induction chns generalizing chn with
  | nil =>
    rw [setChannels]
    split_ifs <;> simp [setChannels]
  | cons next chns ih =>
    rw [setChannels]
    split_ifs with hanswer
    · simp
    · rw [List.forall_mem_cons, ih next]
      exact and_self_iff

lemma setRange_eq (h : s.HasRange e min max) : e.setRange = some (.ok (min,max)) := by
  have hsome := h.some
  rw [Selem.setRange]
  by_cases hplayback : (e.common || e.playback) = true
  · rw [if_pos hplayback, h.playback hplayback]
  · have hcapture : e.capture = true := by simpa [hplayback] using hsome
    rw [if_neg hplayback, if_pos hcapture, h.capture hcapture]

lemma getRange_eq (h : s.HasRange e min max) : e.getRange = some (.ok (min,max)) := by
  have hsome := h.some
  rw [Selem.getRange]
  by_cases hplayback : (e.common || e.playback) = true
  · rw [if_pos hplayback, h.playback hplayback]
    cases hcapture : e.capture with
    | true => simp [h.capture hcapture]
    | false => rfl
  · have hcapture : e.capture = true := by simpa [hplayback] using hsome
    rw [if_neg hplayback, hcapture, h.capture hcapture]

/-- The level of a percentage. -/
def levelOf (min max p : ℤ) : ℤ := roundDiv ((max - min) * p) 100

/-- What is written. -/
lemma forall_ssetVolume (h : s.HasRange e min max) (hp : 0 ≤ p) (hp' : p ≤ 100) (P : ℤ → Prop) :
    (∀ w ∈ (openxtAlsaMixerSsetVolume s answer p).2, P w.2) ↔ P (levelOf min max p) := by
  rw [openxtAlsaMixerSsetVolume, h.elem]
  dsimp only
  rw [if_neg (not_not_intro ⟨hp,hp'⟩), setRange_eq h]
  exact forall_setChannels answer _ 0 _

lemma levelOf_le (hfine : 100 ≤ max - min) (hp : 0 ≤ p) (hp' : p ≤ 100) :
    0 ≤ levelOf min max p ∧ levelOf min max p ≤ max - min := by
  have hnonneg : 0 ≤ (max - min) * p := Int.mul_nonneg (by omega) hp
  have hle : (max - min) * p ≤ (max - min) * 100 := Int.mul_le_mul_of_nonneg_left hp' (by omega)
  refine ⟨roundDiv_nonneg hnonneg (by decide),Int.lt_add_one_iff.mp ?_⟩
  rw [levelOf, roundDiv_lt_iff hnonneg (by decide)]
  omega

lemma levelOf_zero (min max : ℤ) : levelOf min max 0 = 0 := by
  rw [levelOf, Int.mul_zero]
  rfl

lemma levelOf_hundred (hfine : 100 ≤ max - min) : levelOf min max 100 = max - min := by
  rw [levelOf, Int.mul_comm, roundDiv_mul_cancel (by omega) (by decide)]

/-- A level that was set reads as its percentage. -/
lemma percentage_levelOf (h : s.HasRange e min max) (hfine : 100 ≤ max - min) (hint : 100 * (max - min) < 2 ^ 31)
    (hp : 0 ≤ p) (hp' : p ≤ 100) : openxtAlsaPercentage s (levelOf min max p) = .ok p := by
  obtain ⟨hlow,hhigh⟩ := levelOf_le hfine hp hp'
  have hback : roundDiv (100 * levelOf min max p) (max - min) = p := roundDiv_rescale (by decide) hfine hp
  rw [openxtAlsaPercentage, h.elem]
  dsimp only
  rw [if_neg (by simp [h.mhandle]), getRange_eq h]
  dsimp only
  rw [Int.bmod_eq_of_le (by omega) (by omega), Int.mul_comm, hback]

/-- So what is written is right if the level is. -/
lemma agrees_iff (h : s.HasRange e min max) (hfine : 100 ≤ max - min) (hint : 100 * (max - min) < 2 ^ 31)
    (hp : 0 ≤ p) (hp' : p ≤ 100) : Agrees s answer min max p ↔
      (min ≤ levelOf min max p ∧ levelOf min max p ≤ max) ∧ (p = 0 → levelOf min max p = min) ∧
        (p = 100 → levelOf min max p = max) := by
  have hback := percentage_levelOf h hfine hint hp hp'
  constructor
  · intro ha
    exact ⟨(forall_ssetVolume h hp hp' fun level => min ≤ level ∧ level ≤ max).mp ha.inRange,
      fun hzero => (forall_ssetVolume h hp hp' (· = min)).mp (ha.bottom hzero),
      fun hfull => (forall_ssetVolume h hp hp' (· = max)).mp (ha.top hfull)⟩
  · rintro ⟨hrange,hbottom,htop⟩
    exact ⟨(forall_ssetVolume h hp hp' fun level => min ≤ level ∧ level ≤ max).mpr hrange,
      fun hzero => (forall_ssetVolume h hp hp' (· = min)).mpr (hbottom hzero),
      fun hfull => (forall_ssetVolume h hp hp' (· = max)).mpr (htop hfull),
      (forall_ssetVolume h hp hp' fun level => openxtAlsaPercentage s level = .ok p).mpr hback⟩

/-- Percentages where the missing end of the range does not show. -/
def Hidden (min max p : ℤ) : Prop :=
  0 < p ∧ p < 100 ∧ 100 * min ≤ (max - min) * p + 50 ∧ (max - min) * p < 100 * max + 50

instance (min max p : ℤ) : Decidable (Hidden min max p) := inferInstanceAs (Decidable (_ ∧ _))

/-- The volume that is set agrees with the one that is read, and with the range, exactly if the range begins at zero
or the percentage does not show that it does not. -/
theorem volume_agrees_iff (h : s.HasRange e min max) (hfine : 100 ≤ max - min) (hint : 100 * (max - min) < 2 ^ 31)
    (answer : ℕ → ℤ) :
    (∀ p, 0 ≤ p → p ≤ 100 → (Agrees s answer min max p ↔ min = 0 ∨ Hidden min max p)) ∧
      ((∀ p, 0 ≤ p → p ≤ 100 → Agrees s answer min max p) ↔ min = 0) := by
  have hpoint : ∀ p, 0 ≤ p → p ≤ 100 → (Agrees s answer min max p ↔ min = 0 ∨ Hidden min max p) := by
    intro p hp hp'
    have hnonneg : 0 ≤ (max - min) * p := Int.mul_nonneg (by omega) hp
    have hlow : min ≤ levelOf min max p ↔ 100 * min ≤ (max - min) * p + 50 := by
      rw [levelOf, le_roundDiv_iff hnonneg (by decide)]
      omega
    have hhigh : levelOf min max p ≤ max ↔ (max - min) * p < 100 * max + 50 := by
      rw [← Int.lt_add_one_iff, levelOf, roundDiv_lt_iff hnonneg (by decide)]
      omega
    rw [agrees_iff h hfine hint hp hp', hlow, hhigh]
    constructor
    · rintro ⟨⟨hle,hlt⟩,hbottom,htop⟩
      by_cases hmin : min = 0
      · exact .inl hmin
      · refine .inr ⟨?_,?_,hle,hlt⟩
        · refine lt_of_le_of_ne hp fun hzero => hmin ?_
          rw [← hbottom hzero.symm, ← hzero, levelOf_zero]
        · refine lt_of_le_of_ne hp' fun hfull => hmin ?_
          have hmax := htop hfull
          rw [hfull, levelOf_hundred hfine] at hmax
          omega
    · rintro (rfl | ⟨hpos,hlt,hle,hhigh⟩)
      · have hfit := levelOf_le hfine hp hp'
        rw [← hlow, ← hhigh]
        refine ⟨⟨hfit.1,by omega⟩,fun hzero => ?_,fun hfull => ?_⟩
        · rw [hzero, levelOf_zero]
        · rw [hfull, levelOf_hundred hfine, Int.sub_zero]
      · exact ⟨⟨hle,hhigh⟩,fun hzero => by omega,fun hfull => by omega⟩
  refine ⟨hpoint,fun hall => ?_,fun hmin p hp hp' => (hpoint p hp hp').mpr (.inl hmin)⟩
  obtain hmin | hhidden := (hpoint 0 (by decide) (by decide)).mp (hall 0 (by decide) (by decide))
  · exact hmin
  · exact absurd hhidden.1 (by decide)

/-- A capture element from 10 to 138. -/
def sampleElem : Selem := { capture := true, playbackRange := .error (-1), captureRange := .ok (10,138) }

lemma hasRange_sampleElem : MixerSettings.HasRange ⟨some sampleElem,true⟩ sampleElem 10 138 where
  elem := rfl
  mhandle := rfl
  some := rfl
  playback := nofun
  capture _ := rfl

/-- Half of it is 64, which reads as half. -/
theorem volume_agrees_iff_capture : Agrees ⟨some sampleElem,true⟩ (fun _ => 0) 10 138 50 :=
  ((volume_agrees_iff hasRange_sampleElem (by decide) (by decide) fun _ => 0).1 50 (by decide) (by decide)).mpr
    (.inr (by decide))

/-- No volume at all is 0, which is not in the range. -/
theorem volume_disagrees : ¬ Agrees ⟨some sampleElem,true⟩ (fun _ => 0) 10 138 0 := by
  intro h
  exact absurd (h.inRange (0,0) (by decide)).1 (by decide)

end Levels

end Xctools.AudioHelper
