import SmartDashboard.Library.Execution
import SmartDashboard.Transport.Playback

/-!
# The playback timeline

The timeline of the replay: a duration, a cursor and the window of the duration that is shown. All
of them are signed 64-bit counts of microseconds, and a sum or a difference that does not fit is
`none`. What a conversion of a `double` gives is an input of the event that makes it.

## Main definitions

- `PlaybackTimelineWidget.clampWindowToDuration`: the window is moved into the duration
- `TimelineEvent`, `PlaybackTimelineWidget.next`: what is called and what the mouse does
- `PlaybackTimelineWidget.Sound`: window and cursor are in the duration
-/

namespace SmartDashboard.App

open Execution
open Transport.Replay (clamp clamp_bounds)

/-- The result of an operation on `std::int64_t`, unless it overflows. -/
def int64 (v : ℤ) : Option ℤ :=
  if -0x8000000000000000 ≤ v ∧ v ≤ 0x7FFFFFFFFFFFFFFF then some v else none

theorem int64_eq {v : ℤ} (h : -0x8000000000000000 ≤ v ∧ v ≤ 0x7FFFFFFFFFFFFFFF) :
    int64 v = some v := if_pos h

structure PlaybackTimelineWidget where
  durationUs : ℤ := 0
  cursorUs : ℤ := 0
  windowStartUs : ℤ := 0
  windowEndUs : ℤ := 0
  panning : Bool := false
  deriving DecidableEq, Repr

inductive MouseButton
  | left
  | right
  | other
  deriving DecidableEq, Repr

/-- What reaches the timeline. `offsetUs` is the part of the span that `PositionToTimeUs` finds in
front of the mouse, `deltaUs` how far a pan goes, `newSpanUs` the span that a zoom asks for, before
it is clamped. -/
inductive TimelineEvent
  | setDurationUs (durationUs : ℤ)
  | setCursorUs (cursorUs : ℤ)
  | setWindowUs (windowStartUs windowEndUs : ℤ)
  | mousePress (button : MouseButton) (offsetUs : ℤ)
  | mouseMove (leftButton : Bool) (offsetUs deltaUs : ℤ)
  | mouseRelease (button : MouseButton)
  | wheel (offsetUs newSpanUs : ℤ)
  deriving DecidableEq, Repr

namespace PlaybackTimelineWidget

/-- `std::max(1, m_windowEndUs - m_windowStartUs)`. -/
def spanUs (w : PlaybackTimelineWidget) : Option ℤ :=
  (int64 (w.windowEndUs - w.windowStartUs)).map (max 1)

/-- The window becomes the whole duration. -/
def showAll (w : PlaybackTimelineWidget) : PlaybackTimelineWidget :=
  { w with windowStartUs := 0, windowEndUs := w.durationUs }

def clampWindowToDuration (w : PlaybackTimelineWidget) : Option PlaybackTimelineWidget :=
  if w.durationUs ≤ 0 then some { w with windowStartUs := 0, windowEndUs := 0 }
  else do
    let w := if w.windowEndUs ≤ w.windowStartUs then w.showAll else w
    let spanUs ← w.spanUs
    if w.durationUs ≤ spanUs then some w.showAll
    else
      -- the span is kept while an edge is moved in
      let w ←
        if w.windowStartUs < 0 then
          (int64 (w.windowEndUs - w.windowStartUs)).map fun windowEndUs =>
            { w with windowStartUs := 0, windowEndUs := windowEndUs }
        else some w
      let w ←
        if w.durationUs < w.windowEndUs then do
          let overUs ← int64 (w.windowEndUs - w.durationUs)
          (int64 (w.windowStartUs - overUs)).map fun windowStartUs =>
            { w with windowStartUs := windowStartUs, windowEndUs := w.durationUs }
        else some w
      some { w with
        windowStartUs := clamp w.windowStartUs 0 w.durationUs
        windowEndUs := clamp w.windowEndUs 0 w.durationUs }

def setDurationUs (w : PlaybackTimelineWidget) (durationUs : ℤ) : Option PlaybackTimelineWidget :=
  let w := { w with durationUs := max 0 durationUs }
  let w := if w.windowEndUs ≤ w.windowStartUs then w.showAll else w
  w.clampWindowToDuration.map fun w => { w with cursorUs := clamp w.cursorUs 0 w.durationUs }

def setCursorUs (w : PlaybackTimelineWidget) (cursorUs : ℤ) : PlaybackTimelineWidget :=
  { w with cursorUs := clamp cursorUs 0 w.durationUs }

def setWindowUs (w : PlaybackTimelineWidget) (windowStartUs windowEndUs : ℤ) :
    Option PlaybackTimelineWidget :=
  clampWindowToDuration { w with windowStartUs := windowStartUs, windowEndUs := windowEndUs }

/-- The time at a position of the mouse. -/
def positionToTimeUs (w : PlaybackTimelineWidget) (offsetUs : ℤ) : Option ℤ :=
  int64 (w.windowStartUs + offsetUs)

/-- A click on the track, or a drag of the cursor. -/
def scrub (w : PlaybackTimelineWidget) (offsetUs : ℤ) : Option PlaybackTimelineWidget :=
  (w.positionToTimeUs offsetUs).map fun cursorUs => { w with cursorUs := cursorUs }

def mousePressEvent (w : PlaybackTimelineWidget) (button : MouseButton) (offsetUs : ℤ) :
    Option PlaybackTimelineWidget :=
  match button with
  | .left => w.scrub offsetUs
  | .right => some { w with panning := true }
  | .other => some w

def pan (w : PlaybackTimelineWidget) (deltaUs : ℤ) : Option PlaybackTimelineWidget := do
  let _ ← w.spanUs
  let windowStartUs ← int64 (w.windowStartUs + deltaUs)
  let windowEndUs ← int64 (w.windowEndUs + deltaUs)
  clampWindowToDuration { w with windowStartUs := windowStartUs, windowEndUs := windowEndUs }

def mouseMoveEvent (w : PlaybackTimelineWidget) (leftButton : Bool) (offsetUs deltaUs : ℤ) :
    Option PlaybackTimelineWidget :=
  if leftButton then w.scrub offsetUs
  else if w.panning then w.pan deltaUs
  else some w

def mouseReleaseEvent (w : PlaybackTimelineWidget) (button : MouseButton) :
    PlaybackTimelineWidget :=
  if button = .right then { w with panning := false } else w

def wheelEvent (w : PlaybackTimelineWidget) (offsetUs newSpanUs : ℤ) :
    Option PlaybackTimelineWidget :=
  if w.durationUs ≤ 0 then some w
  else do
    let anchorUs ← w.positionToTimeUs offsetUs
    let _ ← w.spanUs
    let newSpanUs := clamp newSpanUs 200000 (max 200000 w.durationUs)
    let windowStartUs ← int64 (anchorUs - newSpanUs.tdiv 2)
    let windowEndUs ← int64 (windowStartUs + newSpanUs)
    clampWindowToDuration { w with windowStartUs := windowStartUs, windowEndUs := windowEndUs }

def next (w : PlaybackTimelineWidget) : TimelineEvent → Option PlaybackTimelineWidget
  | .setDurationUs durationUs => w.setDurationUs durationUs
  | .setCursorUs cursorUs => some (w.setCursorUs cursorUs)
  | .setWindowUs windowStartUs windowEndUs => w.setWindowUs windowStartUs windowEndUs
  | .mousePress button offsetUs => w.mousePressEvent button offsetUs
  | .mouseMove leftButton offsetUs deltaUs => w.mouseMoveEvent leftButton offsetUs deltaUs
  | .mouseRelease button => some (w.mouseReleaseEvent button)
  | .wheel offsetUs newSpanUs => w.wheelEvent offsetUs newSpanUs

/-- Less than `2^61` in magnitude. -/
def Small (v : ℤ) : Prop := -0x2000000000000000 < v ∧ v < 0x2000000000000000

instance (v : ℤ) : Decidable (Small v) := inferInstanceAs (Decidable (_ ∧ _))

/-- A position on the track is in front of its end, so it stands for less than the span. -/
def OnTrack (w : PlaybackTimelineWidget) (offsetUs : ℤ) : Prop :=
  0 ≤ offsetUs ∧ offsetUs < max 1 (w.windowEndUs - w.windowStartUs)

instance (w : PlaybackTimelineWidget) (offsetUs : ℤ) : Decidable (w.OnTrack offsetUs) :=
  inferInstanceAs (Decidable (_ ∧ _))

/-- The values of an event are small, and its conversions are in the range of what is converted. -/
def Converts (w : PlaybackTimelineWidget) : TimelineEvent → Prop
  | .setDurationUs durationUs => Small durationUs
  | .setCursorUs cursorUs => Small cursorUs
  | .setWindowUs windowStartUs windowEndUs => Small windowStartUs ∧ Small windowEndUs
  | .mousePress _ offsetUs => w.OnTrack offsetUs
  | .mouseMove _ offsetUs deltaUs => w.OnTrack offsetUs ∧ Small deltaUs
  | .mouseRelease _ => True
  | .wheel offsetUs _ => w.OnTrack offsetUs

instance (w : PlaybackTimelineWidget) : DecidablePred w.Converts
  | .setDurationUs _ | .setCursorUs _ => inferInstanceAs (Decidable (Small _))
  | .setWindowUs .. => inferInstanceAs (Decidable (Small _ ∧ Small _))
  | .mousePress .. | .wheel .. => inferInstanceAs (Decidable (w.OnTrack _))
  | .mouseMove .. => inferInstanceAs (Decidable (w.OnTrack _ ∧ Small _))
  | .mouseRelease _ => isTrue trivial

/-- The window is in the duration, and not empty unless the duration is. So is the cursor. -/
structure Sound (w : PlaybackTimelineWidget) : Prop where
  start_nonneg : 0 ≤ w.windowStartUs
  start_le_end : w.windowStartUs ≤ w.windowEndUs
  end_le_duration : w.windowEndUs ≤ w.durationUs
  start_lt_end : 0 < w.durationUs → w.windowStartUs < w.windowEndUs
  cursor_nonneg : 0 ≤ w.cursorUs
  cursor_le_duration : w.cursorUs ≤ w.durationUs
  small : Small w.durationUs

/-- A pan keeps the length of the window, unless the window is the whole duration. -/
def PanKeepsLength (w : PlaybackTimelineWidget) (event : TimelineEvent) : Prop :=
  ∀ w', w.next event = some w' → ∀ offsetUs deltaUs, event = .mouseMove false offsetUs deltaUs →
    w.panning = true → ¬(w.windowStartUs = 0 ∧ w.windowEndUs = w.durationUs) →
      w'.windowEndUs - w'.windowStartUs = w.windowEndUs - w.windowStartUs

variable {w w' : PlaybackTimelineWidget} {event : TimelineEvent} {offsetUs : ℤ}

theorem clamp_eq {v high : ℤ} (hlow : 0 ≤ v) (hhigh : v ≤ high) : clamp v 0 high = v := by
  rw [clamp, if_neg (Int.not_lt.mpr hlow), if_neg (Int.not_lt.mpr hhigh)]

theorem spanUs_eq (h : -0x8000000000000000 ≤ w.windowEndUs - w.windowStartUs ∧
    w.windowEndUs - w.windowStartUs ≤ 0x7FFFFFFFFFFFFFFF) :
    w.spanUs = some (max 1 (w.windowEndUs - w.windowStartUs)) := by
  rw [spanUs, int64_eq h, Option.map_some]

/-- A window that is shorter than the duration is moved in. -/
theorem clampWindowToDuration_of_lt
    (hstart : -0x4000000000000000 < w.windowStartUs ∧ w.windowStartUs < 0x4000000000000000)
    (hend : -0x4000000000000000 < w.windowEndUs ∧ w.windowEndUs < 0x4000000000000000)
    (hspan : w.windowStartUs < w.windowEndUs)
    (hshort : w.windowEndUs - w.windowStartUs < w.durationUs) :
    ∃ s, w.clampWindowToDuration = some { w with
        windowStartUs := s
        windowEndUs := s + (w.windowEndUs - w.windowStartUs) } ∧
      0 ≤ s ∧ s + (w.windowEndUs - w.windowStartUs) ≤ w.durationUs := by
  have hspanUs := @spanUs_eq w (by omega)
  rw [max_eq_right (by omega)] at hspanUs
  simp only [clampWindowToDuration, if_neg (show ¬w.durationUs ≤ 0 by omega),
    if_neg (Int.not_le.mpr hspan), hspanUs, Option.bind_eq_bind, Option.bind_some,
    if_neg (Int.not_le.mpr hshort)]
  by_cases hnegative : w.windowStartUs < 0
  · -- the left edge is moved in, and then the right one is in too
    have hright : ¬w.durationUs < w.windowEndUs - w.windowStartUs := by omega
    refine ⟨0, ?_, le_refl 0, by omega⟩
    rw [if_pos hnegative, int64_eq (by omega)]
    simp only [Option.map_some, Option.bind_some, if_neg hright, Int.zero_add]
    rw [clamp_eq (le_refl 0) (by omega), clamp_eq (by omega) (by omega)]
  · rw [if_neg hnegative]
    by_cases hright : w.durationUs < w.windowEndUs
    · refine ⟨w.windowStartUs - (w.windowEndUs - w.durationUs), ?_, by omega, by omega⟩
      rw [if_pos hright, int64_eq (by omega), Option.bind_some, int64_eq (by omega)]
      simp only [Option.map_some, Option.bind_some]
      rw [clamp_eq (by omega) (by omega), clamp_eq (by omega) (le_refl _)]
      congr 2
      omega
    · refine ⟨w.windowStartUs, ?_, by omega, by omega⟩
      rw [if_neg hright, clamp_eq (by omega) (by omega), clamp_eq (by omega) (by omega)]
      congr 2
      omega

/-- What the clamping leaves of a window whose edges are not too far out: a window in the duration,
of the same length if that is not more than the duration. -/
theorem clampWindowToDuration_spec (hduration : 0 ≤ w.durationUs) (hsmall : Small w.durationUs)
    (hstart : -0x4000000000000000 < w.windowStartUs ∧ w.windowStartUs < 0x4000000000000000)
    (hend : -0x4000000000000000 < w.windowEndUs ∧ w.windowEndUs < 0x4000000000000000) :
    ∃ s e, w.clampWindowToDuration = some { w with windowStartUs := s, windowEndUs := e } ∧
      0 ≤ s ∧ s ≤ e ∧ e ≤ w.durationUs ∧ (0 < w.durationUs → s < e) ∧
      (w.windowStartUs < w.windowEndUs → w.windowEndUs - w.windowStartUs ≤ w.durationUs →
        e - s = w.windowEndUs - w.windowStartUs) := by
  obtain ⟨-, hsmall⟩ := hsmall
  by_cases hzero : w.durationUs ≤ 0
  · refine ⟨0, 0, if_pos hzero, ?_⟩
    omega
  by_cases hempty : w.windowEndUs ≤ w.windowStartUs
  · have hspanUs := @spanUs_eq w.showAll (by simp only [showAll]; omega)
    refine ⟨0, w.durationUs, ?_, by omega⟩
    simp only [clampWindowToDuration, if_neg hzero, if_pos hempty, hspanUs, Option.bind_eq_bind,
      Option.bind_some]
    rw [if_pos]
    · rfl
    · simp only [showAll]
      omega
  · by_cases hshort : w.windowEndUs - w.windowStartUs < w.durationUs
    · obtain ⟨s, hs, hlow, hhigh⟩ :=
        clampWindowToDuration_of_lt hstart hend (not_le.mp hempty) hshort
      exact ⟨s, _, hs, hlow, by omega⟩
    · have hspanUs := @spanUs_eq w (by omega)
      refine ⟨0, w.durationUs, ?_, by omega⟩
      simp only [clampWindowToDuration, if_neg hzero, if_neg hempty, hspanUs,
        Option.bind_eq_bind, Option.bind_some]
      rw [if_pos]
      · rfl
      · omega

theorem sound_initial : Sound {} := by
  constructor <;> simp [Small]

/-- A clamped window beside a cursor that is in the duration. -/
theorem sound_clampWindowToDuration (hsmall : Small w.durationUs)
    (hcursor : 0 ≤ w.cursorUs ∧ w.cursorUs ≤ w.durationUs)
    (hstart : -0x4000000000000000 < w.windowStartUs ∧ w.windowStartUs < 0x4000000000000000)
    (hend : -0x4000000000000000 < w.windowEndUs ∧ w.windowEndUs < 0x4000000000000000) :
    ∃ w', w.clampWindowToDuration = some w' ∧ w'.Sound := by
  obtain ⟨s, e, hclamp, hlow, hle, hhigh, hlt, -⟩ := clampWindowToDuration_spec
    (hcursor.1.trans hcursor.2) hsmall hstart hend
  exact ⟨_, hclamp, hlow, hle, hhigh, hlt, hcursor.1, hcursor.2, hsmall⟩

/-- The edges of a sound window are not far out. -/
theorem Sound.edges (h : w.Sound) :
    0 ≤ w.windowStartUs ∧ w.windowStartUs ≤ w.windowEndUs ∧
      w.windowEndUs ≤ w.durationUs ∧ w.durationUs < 0x2000000000000000 :=
  ⟨h.start_nonneg, h.start_le_end, h.end_le_duration, h.small.2⟩

/-- A position on the track is a time in the window. -/
theorem Sound.positionToTimeUs (h : w.Sound) (htrack : w.OnTrack offsetUs) :
    w.positionToTimeUs offsetUs = some (w.windowStartUs + offsetUs) ∧
      w.windowStartUs ≤ w.windowStartUs + offsetUs ∧
      w.windowStartUs + offsetUs ≤ w.windowEndUs := by
  obtain ⟨hlow, hle, hhigh, hsmall⟩ := h.edges
  obtain ⟨hoffset, htrack⟩ := htrack
  -- the window is empty only if it is at zero, and then the track stands for that time
  have hspan : offsetUs ≤ w.windowEndUs - w.windowStartUs := by omega
  exact ⟨int64_eq (by omega), by omega, by omega⟩

theorem Sound.scrub (h : w.Sound) (htrack : w.OnTrack offsetUs) :
    ∃ w', w.scrub offsetUs = some w' ∧ w'.Sound := by
  obtain ⟨htime, hstart, hend⟩ := h.positionToTimeUs htrack
  refine ⟨_, by rw [PlaybackTimelineWidget.scrub, htime, Option.map_some], ?_⟩
  exact { h with
    cursor_nonneg := h.start_nonneg.trans hstart
    cursor_le_duration := hend.trans h.end_le_duration }

theorem Sound.setDurationUs (h : w.Sound) {durationUs : ℤ} (hsmall : Small durationUs) :
    ∃ w', w.setDurationUs durationUs = some w' ∧ w'.Sound := by
  obtain ⟨hlow, hle, hhigh, hduration⟩ := h.edges
  obtain ⟨-, hsmall⟩ := hsmall
  simp only [PlaybackTimelineWidget.setDurationUs]
  generalize hv : (if w.windowEndUs ≤ w.windowStartUs then
    showAll { w with durationUs := max 0 durationUs }
    else { w with durationUs := max 0 durationUs }) = v
  have hsame : v.durationUs = max 0 durationUs := by
    rw [← hv]
    split <;> rfl
  have hedges : (0 ≤ v.windowStartUs ∧ v.windowStartUs < 0x4000000000000000) ∧
      0 ≤ v.windowEndUs ∧ v.windowEndUs < 0x4000000000000000 := by
    rw [← hv]
    split <;> simp only [showAll] <;> omega
  obtain ⟨s, e, hclamp, hs, hse, he, hlt, -⟩ := @clampWindowToDuration_spec v (by omega)
    (by rw [hsame]; constructor <;> omega) (by omega) (by omega)
  rw [hclamp]
  have hcursor := @clamp_bounds v.cursorUs v.durationUs (by omega)
  refine ⟨_, rfl, hs, hse, he, hlt, hcursor.1, hcursor.2, ?_⟩
  rw [hsame]
  constructor <;> omega

theorem Sound.wheelEvent (h : w.Sound) (htrack : w.OnTrack offsetUs) (newSpanUs : ℤ) :
    ∃ w', w.wheelEvent offsetUs newSpanUs = some w' ∧ w'.Sound := by
  obtain ⟨hlow, hle, hhigh, hduration⟩ := h.edges
  obtain ⟨htime, hstart, hend⟩ := h.positionToTimeUs htrack
  rw [PlaybackTimelineWidget.wheelEvent]
  split
  case isTrue => exact ⟨w, rfl, h⟩
  case isFalse =>
    have hspan : 200000 ≤ clamp newSpanUs 200000 (max 200000 w.durationUs) ∧
        clamp newSpanUs 200000 (max 200000 w.durationUs) ≤ max 200000 w.durationUs := by
      rw [clamp]
      split_ifs <;> omega
    generalize clamp newSpanUs 200000 (max 200000 w.durationUs) = span at hspan
    have hhalf : span.tdiv 2 = span / 2 := Int.tdiv_eq_ediv_of_nonneg (by omega)
    simp only [htime, @spanUs_eq w (by omega), Option.bind_eq_bind, Option.bind_some, hhalf]
    rw [int64_eq (by omega), Option.bind_some, int64_eq (by omega), Option.bind_some]
    refine sound_clampWindowToDuration h.small ⟨h.cursor_nonneg, h.cursor_le_duration⟩ ?_ ?_
    · simp only
      omega
    · simp only
      omega

/-- A pan that moves the window of a sound timeline gives one of the same length. -/
theorem Sound.pan (h : w.Sound) {deltaUs : ℤ} (hsmall : Small deltaUs) :
    ∃ w', w.pan deltaUs = some w' ∧ w'.Sound ∧
      w'.windowEndUs - w'.windowStartUs = w.windowEndUs - w.windowStartUs := by
  obtain ⟨hlow, hle, hhigh, hduration⟩ := h.edges
  obtain ⟨hback, hforth⟩ := hsmall
  simp only [PlaybackTimelineWidget.pan, @spanUs_eq w (by omega), Option.bind_eq_bind,
    Option.bind_some]
  rw [int64_eq (by omega), Option.bind_some, int64_eq (by omega), Option.bind_some]
  obtain ⟨s, e, hclamp, hs, hse, he, hlt, hlength⟩ := @clampWindowToDuration_spec
    { w with
      windowStartUs := w.windowStartUs + deltaUs
      windowEndUs := w.windowEndUs + deltaUs } (by simp only; omega) h.small (by simp only; omega)
    (by simp only; omega)
  refine ⟨_, hclamp, ⟨hs, hse, he, hlt, h.cursor_nonneg, h.cursor_le_duration, h.small⟩, ?_⟩
  simp only at hs hse he hlt hlength ⊢
  have hopen := h.start_lt_end
  omega

/-- An event goes through without an overflow, and leaves window and cursor in the duration. -/
theorem Sound.next (h : w.Sound) (hevent : w.Converts event) :
    ∃ w', w.next event = some w' ∧ w'.Sound := by
  cases event with
  | setDurationUs durationUs => exact h.setDurationUs hevent
  | setCursorUs cursorUs =>
    have hcursor := @clamp_bounds cursorUs w.durationUs (h.cursor_nonneg.trans h.cursor_le_duration)
    exact ⟨_, rfl, { h with cursor_nonneg := hcursor.1, cursor_le_duration := hcursor.2 }⟩
  | setWindowUs windowStartUs windowEndUs =>
    obtain ⟨⟨hs, hs'⟩, he, he'⟩ := hevent
    refine sound_clampWindowToDuration h.small ⟨h.cursor_nonneg, h.cursor_le_duration⟩ ?_ ?_
    · simp only
      omega
    · simp only
      omega
  | mousePress button offsetUs =>
    cases button with
    | left => exact h.scrub hevent
    | right => exact ⟨_, rfl, { h with }⟩
    | other => exact ⟨w, rfl, h⟩
  | mouseMove leftButton offsetUs deltaUs =>
    simp only [PlaybackTimelineWidget.next, mouseMoveEvent]
    split_ifs
    · exact h.scrub hevent.1
    · obtain ⟨w', hpan, hsound, -⟩ := h.pan hevent.2
      exact ⟨w', hpan, hsound⟩
    · exact ⟨w, rfl, h⟩
  | mouseRelease button =>
    refine ⟨_, rfl, ?_⟩
    rw [mouseReleaseEvent]
    split
    case isTrue => exact { h with }
    case isFalse => exact h
  | wheel offsetUs newSpanUs => exact h.wheelEvent hevent newSpanUs

theorem Sound.panKeepsLength (h : w.Sound) (hevent : w.Converts event) :
    w.PanKeepsLength event := by
  rintro w' hnext offsetUs deltaUs rfl hpanning -
  obtain ⟨v, hpan, -, hlength⟩ := h.pan hevent.2
  have hmove : w.next (.mouseMove false offsetUs deltaUs) = w.pan deltaUs := if_pos hpanning
  rw [hmove, hpan] at hnext
  exact Option.some.inj hnext ▸ hlength

/-- After every sequence of events the window and the cursor are in the duration, and on the way
every pan has kept the length of the window. -/
theorem run_sound {events : List TimelineEvent} (hevents : EveryStep next Converts {} events) :
    (∃ w, run next {} events = some w ∧ w.Sound) ∧ EveryStep next PanKeepsLength {} events := by
  refine ⟨exists_run_of_everyStep (fun _ _ h hevent => h.next hevent) sound_initial hevents, ?_⟩
  refine hevents.imp (P := Sound) (fun _ _ h hevent => h.panKeepsLength hevent) ?_ sound_initial
  intro w event w' h hevent hnext
  obtain ⟨v, hv, hsound⟩ := h.next hevent
  exact Option.some.inj (hv.symm.trans hnext) ▸ hsound

/-- A zoom near the end of the duration, a pan past it and a scrub. -/
def zoomAndPan : List TimelineEvent :=
  [.setDurationUs 1000000, .setWindowUs 100000 700000, .wheel 500000 480000,
    .mousePress .right 0, .mouseMove false 0 900000, .mouseRelease .right, .mousePress .left 7]

theorem zoomAndPan_sound :
    (∃ w, run next {} zoomAndPan = some w ∧ w.Sound) ∧
      EveryStep next PanKeepsLength {} zoomAndPan :=
  run_sound (by decide +kernel)

end PlaybackTimelineWidget

end SmartDashboard.App
