import SmartDashboard.Widgets.VariableTile

/-!
# What a line plot records

The calls that a tile gets while it is a line plot: received values and setters. A received value
is appended to the plot by the refresh of the display, and so it is once more by every setter that
refreshes the display later.

## Main definitions

- `TileCall`, `TileCall.apply`: the calls
- `TileCall.refreshes`: the setters that refresh the display of a line plot
- `RecordsOnce`: the plot has every received value once, and keeps the latest

## Main results

- `recordsOnce_iff`: a line plot records every value once exactly if no setter that refreshes the
  display comes after a value
-/

namespace SmartDashboard.Widgets

open Direct (ByteString DoubleBits)
open App (VariableType text)

/-- A received value, or a setter with its arguments. -/
inductive TileCall
  | setDoubleValue (value : DoubleBits)
  | setGaugeProperties (range : RangeProperties)
  | setProgressBarProperties (lowerLimit upperLimit : DoubleBits)
  | setProgressBarShowPercentage (showPercentage : Bool)
  | setProgressBarColors (foregroundColor backgroundColor : ByteString)
  | setSliderProperties (range : RangeProperties)
  | setLinePlotProperties (bufferSizeSamples : Int32) (autoYAxis : Bool)
      (yLowerLimit yUpperLimit : DoubleBits)
  | setLinePlotNumberLinesVisible (visible : Bool)
  | setLinePlotGridLinesVisible (visible : Bool)
  | setDoubleNumericEditable (editable : Bool)
  | setTextFontPointSize (pointSize : Int32)
  | setShowLabel (showLabel : Bool)
  | setStringChooserMode (chooserMode : Bool)
  | setStringChooserOptions (options : List ByteString)
  | setMultiLinePlotMode (enabled : Bool)
  deriving DecidableEq, Repr

namespace TileCall

def apply (qt : QtGui) (tile : VariableTile) : TileCall → VariableTile
  | setDoubleValue value => tile.setDoubleValue value
  | setGaugeProperties range => tile.setGaugeProperties qt range
  | setProgressBarProperties lowerLimit upperLimit =>
    tile.setProgressBarProperties qt lowerLimit upperLimit
  | setProgressBarShowPercentage showPercentage => tile.setProgressBarShowPercentage showPercentage
  | setProgressBarColors foregroundColor backgroundColor =>
    tile.setProgressBarColors qt foregroundColor backgroundColor
  | setSliderProperties range => tile.setSliderProperties qt range
  | setLinePlotProperties bufferSizeSamples autoYAxis yLowerLimit yUpperLimit =>
    tile.setLinePlotProperties qt bufferSizeSamples autoYAxis yLowerLimit yUpperLimit
  | setLinePlotNumberLinesVisible visible => tile.setLinePlotNumberLinesVisible visible
  | setLinePlotGridLinesVisible visible => tile.setLinePlotGridLinesVisible visible
  | setDoubleNumericEditable editable => tile.setDoubleNumericEditable editable
  | setTextFontPointSize pointSize => tile.setTextFontPointSize pointSize
  | setShowLabel showLabel => tile.setShowLabel showLabel
  | setStringChooserMode chooserMode => tile.setStringChooserMode chooserMode
  | setStringChooserOptions options => tile.setStringChooserOptions options
  | setMultiLinePlotMode enabled => tile.setMultiLinePlotMode enabled

/-- The value that is received. -/
def received : TileCall → Option DoubleBits
  | setDoubleValue value => some value
  | _ => none

/-- The setter refreshes the display. A line plot with a value is never in chooser mode, so that
leaving the mode changes nothing. -/
def refreshes : TileCall → Bool
  | setGaugeProperties _ | setProgressBarProperties _ _ | setSliderProperties _
  | setDoubleNumericEditable _ | setTextFontPointSize _ | setStringChooserOptions _ => true
  | setStringChooserMode chooserMode => chooserMode
  | _ => false

end TileCall

namespace VariableTile

/-- A tile that has been made a line plot, before its first value. -/
def newPlot (qt : QtGui) (key : ByteString) : VariableTile :=
  (construct qt key .double).setWidgetType App.RunBrowser.linePlot

def run (qt : QtGui) (tile : VariableTile) (calls : List TileCall) : VariableTile :=
  calls.foldl (TileCall.apply qt) tile

/-- All that was ever appended to the series of the tile itself. -/
def appended (tile : VariableTile) : List DoubleBits := tile.linePlot.appended tile.key

/-- The samples of the tile itself that the plot has. -/
def samples (tile : VariableTile) : List DoubleBits := tile.linePlot.samples tile.key

/-- The values that were received, in their order, are what was appended, and the latest of them
are the samples. -/
def RecordsOnce (qt : QtGui) (key : ByteString) (calls : List TileCall) : Prop :=
  let tile := (newPlot qt key).run qt calls
  tile.appended = calls.filterMap TileCall.received ∧
    tile.samples <:+ tile.appended ∧
    (tile.samples.length : ℤ) ≤ tile.linePlot.bufferSizeSamples.toInt

/-- No setter that refreshes the display comes after a value. -/
def RefreshesFirst (calls : List TileCall) : Prop :=
  calls.Pairwise fun earlier later => earlier.received.isSome = true → later.refreshes = false

instance (calls : List TileCall) : Decidable (RefreshesFirst calls) :=
  inferInstanceAs (Decidable (calls.Pairwise _))

/-! ### One call -/

/-- A line plot of its own key. In chooser mode it has no value. -/
structure Plots (tile : VariableTile) : Prop where
  isLinePlot : tile.isLinePlotWidget = true
  sound : tile.linePlot.Sound
  primaryKey : tile.linePlot.primaryKey = tile.key
  chooserMode : tile.hasValue = true → tile.stringChooserMode = false

section Calls

variable {tile : VariableTile} {qt : QtGui} {call : TileCall} {calls : List TileCall}
  {key : ByteString}

theorem Plots.not_showsStringChooser (h : tile.isLinePlotWidget = true) :
    tile.showsStringChooser = false := by
  simp only [isLinePlotWidget, decide_eq_true_eq] at h
  simp [showsStringChooser, h.1]

/-- What the refresh does with a line plot: the mode is left, and the value goes to the plot. -/
theorem plots_updateWidgetPresentation (hplot : tile.isLinePlotWidget = true)
    (hsound : tile.linePlot.Sound) (hprimary : tile.linePlot.primaryKey = tile.key) :
    tile.updateWidgetPresentation.Plots := by
  unfold updateWidgetPresentation
  split_ifs with hvalue
  · exact ⟨hplot, hsound, hprimary, fun _ => Plots.not_showsStringChooser hplot⟩
  · exact ⟨hplot, hsound, hprimary, fun h => absurd h hvalue⟩

theorem appended_updateWidgetPresentation :
    tile.updateWidgetPresentation.appended = tile.appended := by
  unfold updateWidgetPresentation
  split_ifs <;> rfl

theorem hasValue_updateWidgetPresentation :
    tile.updateWidgetPresentation.hasValue = tile.hasValue := by
  unfold updateWidgetPresentation
  split_ifs <;> rfl

theorem doubleValue_updateWidgetPresentation :
    tile.updateWidgetPresentation.doubleValue = tile.doubleValue := by
  unfold updateWidgetPresentation
  split_ifs <;> rfl

theorem Plots.updateValueDisplay (h : tile.Plots) : tile.updateValueDisplay.Plots := by
  unfold VariableTile.updateValueDisplay
  split_ifs
  · exact ⟨h.isLinePlot, h.sound.addSample, LinePlotWidget.primaryKey_addSample.trans h.primaryKey,
      h.chooserMode⟩
  · exact h

theorem hasValue_updateValueDisplay : tile.updateValueDisplay.hasValue = tile.hasValue := by
  unfold VariableTile.updateValueDisplay
  split_ifs <;> rfl

theorem Plots.appended_updateValueDisplay (h : tile.Plots) :
    tile.updateValueDisplay.appended =
      tile.appended ++ if tile.hasValue then [tile.doubleValue] else [] := by
  unfold VariableTile.updateValueDisplay
  cases hvalue : tile.hasValue with
  | true =>
    rw [if_pos ⟨rfl, h.isLinePlot⟩, if_pos rfl, appended, appended, ← h.primaryKey]
    exact LinePlotWidget.appended_addSample h.sound
  | false =>
    rw [if_neg fun hshown => Bool.false_ne_true hshown.1, if_neg Bool.false_ne_true,
      List.append_nil]

/-- What a call appends: a value that is received, or the last one when the display is refreshed. -/
def appendedBy (tile : VariableTile) (call : TileCall) : List DoubleBits :=
  match call.received with
  | some value => [value]
  | none => if call.refreshes then if tile.hasValue then [tile.doubleValue] else [] else []

/-- The tile after a call, as far as the plot is concerned. -/
structure Applied (tile : VariableTile) (call : TileCall) (tile' : VariableTile) : Prop where
  plots : tile'.Plots
  appended : tile'.appended = tile.appended ++ tile.appendedBy call
  hasValue : tile'.hasValue = (tile.hasValue || call.received.isSome)

section Kinds

variable {tile' : VariableTile}

/-- A setter that does not refresh the display. -/
theorem Plots.applied_quiet (h : tile'.Plots) (happended : tile'.appended = tile.appended)
    (hvalue : tile'.hasValue = tile.hasValue) (hreceived : call.received = none)
    (hquiet : call.refreshes = false) : tile.Applied call tile' := by
  refine ⟨h, ?_, ?_⟩
  · rw [appendedBy, hreceived, hquiet, happended]
    exact (List.append_nil _).symm
  · rw [hvalue, hreceived]
    exact (Bool.or_false _).symm

/-- A setter whose last step is the refresh. -/
theorem Plots.applied_display (h : tile'.Plots) (happended : tile'.appended = tile.appended)
    (hvalue : tile'.hasValue = tile.hasValue) (hdouble : tile'.doubleValue = tile.doubleValue)
    (hreceived : call.received = none) (hrefreshes : call.refreshes = true) :
    tile.Applied call tile'.updateValueDisplay := by
  refine ⟨h.updateValueDisplay, ?_, ?_⟩
  · rw [h.appended_updateValueDisplay, appendedBy, hreceived, hrefreshes, happended, hvalue,
      hdouble]
    rfl
  · rw [hasValue_updateValueDisplay, hvalue, hreceived]
    exact (Bool.or_false _).symm

end Kinds

theorem Plots.applied_setDoubleValue (h : tile.Plots) (value : DoubleBits) :
    tile.Applied (.setDoubleValue value) (tile.setDoubleValue value) := by
  have hplots :
      { tile with hasValue := true, doubleValue := value }.updateWidgetPresentation.Plots :=
    plots_updateWidgetPresentation h.isLinePlot h.sound h.primaryKey
  refine ⟨hplots.updateValueDisplay, ?_, ?_⟩
  · rw [setDoubleValue, hplots.appended_updateValueDisplay, appended_updateWidgetPresentation,
      hasValue_updateWidgetPresentation, doubleValue_updateWidgetPresentation]
    rfl
  · rw [setDoubleValue, hasValue_updateValueDisplay, hasValue_updateWidgetPresentation]
    exact (Bool.or_true _).symm

theorem Plots.applied_setStringChooserMode (h : tile.Plots) (chooserMode : Bool) :
    tile.Applied (.setStringChooserMode chooserMode) (tile.setStringChooserMode chooserMode) := by
  have hplots : { tile with
      stringChooserMode := chooserMode
      stringChooserModeProperty := some chooserMode }.updateWidgetPresentation.Plots :=
    plots_updateWidgetPresentation h.isLinePlot h.sound h.primaryKey
  -- a tile in chooser mode has no value to append
  have hnothing (hmode : tile.stringChooserMode = true) : tile.hasValue = false :=
    Bool.eq_false_iff.mpr fun hvalue => Bool.false_ne_true ((h.chooserMode hvalue).symm.trans hmode)
  rw [setStringChooserMode]
  cases chooserMode with
  | true =>
    split_ifs with hsame
    · refine ⟨h, ?_, (Bool.or_false _).symm⟩
      show tile.appended = tile.appended ++ if tile.hasValue then [tile.doubleValue] else []
      rw [hnothing hsame, if_neg Bool.false_ne_true, List.append_nil]
    · exact hplots.applied_display appended_updateWidgetPresentation
        hasValue_updateWidgetPresentation doubleValue_updateWidgetPresentation rfl rfl
  | false =>
    split_ifs with hsame
    · exact h.applied_quiet rfl rfl rfl rfl
    · rw [updateValueDisplay_of_noValue]
      · exact hplots.applied_quiet appended_updateWidgetPresentation
          hasValue_updateWidgetPresentation rfl rfl
      · rw [hasValue_updateWidgetPresentation]
        exact hnothing (Bool.eq_true_of_not_eq_false hsame)

/-- One call appends what it receives and, if it refreshes the display, the last value again. -/
theorem Plots.applied (h : tile.Plots) (qt : QtGui) (call : TileCall) :
    tile.Applied call (call.apply qt tile) := by
  obtain ⟨hplot, hsound, hprimary, hmode⟩ := h
  cases call with
  | setDoubleValue value =>
    exact Plots.applied_setDoubleValue ⟨hplot, hsound, hprimary, hmode⟩ value
  | setStringChooserMode chooserMode =>
    exact Plots.applied_setStringChooserMode ⟨hplot, hsound, hprimary, hmode⟩ chooserMode
  | setGaugeProperties | setProgressBarProperties | setSliderProperties
  | setStringChooserOptions =>
    exact Plots.applied_display ⟨hplot, hsound, hprimary, hmode⟩ rfl rfl rfl rfl rfl
  | setDoubleNumericEditable | setTextFontPointSize =>
    exact Plots.applied_display (plots_updateWidgetPresentation hplot hsound hprimary)
      appended_updateWidgetPresentation hasValue_updateWidgetPresentation
      doubleValue_updateWidgetPresentation rfl rfl
  | setProgressBarShowPercentage | setShowLabel =>
    exact Plots.applied_quiet (plots_updateWidgetPresentation hplot hsound hprimary)
      appended_updateWidgetPresentation hasValue_updateWidgetPresentation rfl rfl
  | setProgressBarColors | setMultiLinePlotMode =>
    exact Plots.applied_quiet ⟨hplot, hsound, hprimary, hmode⟩ rfl rfl rfl rfl
  | setLinePlotProperties | setLinePlotNumberLinesVisible | setLinePlotGridLinesVisible =>
    exact Plots.applied_quiet ⟨hplot, hsound.setBufferSizeSamples _, hprimary, hmode⟩
      (LinePlotWidget.appended_setBufferSizeSamples _) rfl rfl rfl

/-! ### Runs -/

theorem Plots.run (h : tile.Plots) (qt : QtGui) (calls : List TileCall) :
    (tile.run qt calls).Plots := by
  induction calls generalizing tile with
  | nil => exact h
  | cons call calls ih => exact ih (h.applied qt call).plots

/-- Every value is appended at least once. -/
theorem Plots.length_appended_run (h : tile.Plots) (qt : QtGui) (calls : List TileCall) :
    tile.appended.length + (calls.filterMap TileCall.received).length ≤
      (tile.run qt calls).appended.length := by
  induction calls generalizing tile with
  | nil => exact le_refl _
  | cons call calls ih =>
    obtain ⟨hplots, happended, -⟩ := h.applied qt call
    have hrest := ih hplots
    rw [happended, List.length_append] at hrest
    refine le_trans ?_ hrest
    cases hreceived : call.received with
    | none =>
      rw [List.filterMap_cons_none hreceived]
      omega
    | some value =>
      rw [List.filterMap_cons_some hreceived, appendedBy, hreceived, List.length_cons,
        List.length_singleton]
      omega

theorem refreshes_of_received {value : DoubleBits} (h : call.received = some value) :
    call.refreshes = false := by
  cases call <;> first | rfl | cases h

/-- What a run appends are its values, exactly if the display is not refreshed behind the first. -/
theorem Plots.appended_run_iff (h : tile.Plots) (qt : QtGui) (calls : List TileCall) :
    (tile.run qt calls).appended = tile.appended ++ calls.filterMap TileCall.received ↔
      (tile.hasValue = true → ∀ call ∈ calls, call.refreshes = false) ∧ RefreshesFirst calls := by
  induction calls generalizing tile with
  | nil =>
    rw [List.filterMap_nil, List.append_nil]
    exact iff_of_true rfl ⟨by simp, List.Pairwise.nil⟩
  | cons call calls ih =>
    obtain ⟨hplots, happended, hvalue⟩ := h.applied qt call
    have hrest := ih hplots
    have hlength := hplots.length_appended_run qt calls
    rw [happended] at hrest hlength
    rw [hvalue] at hrest
    rw [RefreshesFirst, List.pairwise_cons, List.forall_mem_cons]
    show ((call.apply qt tile).run qt calls).appended = _ ↔ _
    cases hreceived : call.received with
    | some value =>
      rw [appendedBy, hreceived] at hrest
      rw [List.filterMap_cons_some hreceived, List.append_cons, hrest]
      constructor
      · rintro ⟨hlater, hfirst⟩
        have hlater := hlater (Bool.or_true _)
        exact ⟨fun _ => ⟨refreshes_of_received hreceived, hlater⟩, fun b hb _ => hlater b hb,
          hfirst⟩
      · rintro ⟨-, hlater, hfirst⟩
        exact ⟨fun _ b hb => hlater b hb rfl, hfirst⟩
    | none =>
      rw [List.filterMap_cons_none hreceived]
      rw [hreceived, Option.isSome_none, Bool.or_false] at hrest
      by_cases hagain : call.refreshes = true ∧ tile.hasValue = true
      · -- the last value comes again, and nothing takes it back
        rw [appendedBy, hreceived, hagain.1, hagain.2] at hlength
        refine iff_of_false ?_ ?_
        · intro heq
          rw [heq] at hlength
          simp at hlength
        · intro hquiet
          exact Bool.false_ne_true ((hquiet.1 hagain.2).1.symm.trans hagain.1)
      · have hnothing : tile.appendedBy call = [] := by
          rw [appendedBy, hreceived]
          by_cases hrefreshes : call.refreshes = true
          · exact (if_pos hrefreshes).trans (if_neg fun hvalue => hagain ⟨hrefreshes, hvalue⟩)
          · exact if_neg hrefreshes
        rw [hnothing, List.append_nil] at hrest
        rw [hrest]
        constructor
        · rintro ⟨hlater, hfirst⟩
          refine ⟨fun hvalue => ⟨?_, hlater hvalue⟩, fun _ _ h => absurd h Bool.false_ne_true,
            hfirst⟩
          exact Bool.eq_false_iff.mpr fun hrefreshes => hagain ⟨hrefreshes, hvalue⟩
        · rintro ⟨hlater, -, hfirst⟩
          exact ⟨fun hvalue => (hlater hvalue).2, hfirst⟩

theorem plots_newPlot (qt : QtGui) (key : ByteString) : (newPlot qt key).Plots := by
  rw [newPlot, construct_eq]
  exact ⟨rfl, LinePlotWidget.sound_new.setPrimarySeriesKey, rfl, fun h => Bool.noConfusion h⟩

theorem newPlot_empty (qt : QtGui) (key : ByteString) :
    (newPlot qt key).appended = [] ∧ (newPlot qt key).hasValue = false := by
  rw [newPlot, construct_eq]
  exact ⟨rfl, rfl⟩

end Calls

/-- A line plot records every received value once exactly if no setter that refreshes the display
is called after a value. Its samples are the latest in any case. -/
theorem recordsOnce_iff (qt : QtGui) (key : ByteString) (calls : List TileCall) :
    RecordsOnce qt key calls ↔ RefreshesFirst calls := by
  have hplots := plots_newPlot qt key
  obtain ⟨hempty, hvalue⟩ := newPlot_empty qt key
  have happended := hplots.appended_run_iff qt calls
  rw [hempty, List.nil_append, hvalue] at happended
  have hlatest := (hplots.run qt calls).sound.samples_latest
    ((newPlot qt key).run qt calls).key
  rw [RecordsOnce]
  exact ⟨fun h => (happended.mp h.1).2,
    fun h => ⟨happended.mpr ⟨fun h => Bool.noConfusion h, h⟩, hlatest⟩⟩

/-- A font size that is set after a value appends the value again. -/
theorem fontSize_not_recordsOnce :
    ¬RecordsOnce unusedGui (text "Speed")
      [.setDoubleValue 0x3FF8000000000000, .setTextFontPointSize 14] := by
  intro h
  exact absurd h.1 (by decide)

example :
    ((newPlot unusedGui (text "Speed")).run unusedGui
      [.setTextFontPointSize 14, .setDoubleValue 0x3FF8000000000000, .setShowLabel false,
        .setDoubleValue 0x4000000000000000]).samples =
      [0x3FF8000000000000, 0x4000000000000000] := by
  decide

end VariableTile

end SmartDashboard.Widgets
