import Mathlib.Algebra.Group.Int.Defs
import SmartDashboard.Library.FirstMatch
import SmartDashboard.Widgets.QColor

/-!
# Line plots

The series of a `LinePlotWidget`, found by their keys. The one of the primary key is created by its
first sample, in front of the others; every series keeps as many samples as the buffer has room
for. A series remembers all that was ever appended to it, which the widget does not.

## Main definitions

- `Series`, `LinePlotWidget`: the data
- `addSample`, `addSampleToSeries`, `setBufferSizeSamples`, `resetGraph`: the samples
- `addSeries`, `removeSeries`, `setSeriesVisible`: the series
- `Sound`: one series a key, and the latest samples of each

## Main results

- `Sound.addSample` and the like: every call keeps a plot sound
- `lines_addSample` and the like: the lines that a call leaves
-/

namespace SmartDashboard.Widgets

open Direct (ByteString DoubleBits)
open FirstMatch

/-- How a series is drawn. -/
structure PlotLine where
  key : ByteString
  color : QColor
  visible : Bool := true
  deriving DecidableEq, Repr

structure Series extends PlotLine where
  samples : List DoubleBits := []
  appended : List DoubleBits := []
  deriving DecidableEq, Repr

structure LinePlotWidget where
  series : List Series := []
  primaryKey : ByteString := []
  hasStarted : Bool := false
  hasLastSampleTime : Bool := false
  bufferSizeSamples : Int32 := 5000
  deriving DecidableEq, Repr

/-- The first color of `DefaultColorPalette`. -/
def primaryColor : QColor := .rgba 0x3333 0xB5B5 0xE5E5 0xFFFF

/-- The samples of a series are the latest that were appended, as many as there is room for. -/
structure Series.Latest (series : Series) (bufferSizeSamples : Int32) : Prop where
  suffix : series.samples <:+ series.appended
  length_le : (series.samples.length : ℤ) ≤ bufferSizeSamples.toInt

/-- Samples go from the front until the buffer has room for the rest. -/
def popFront (bufferSizeSamples : Int32) : List DoubleBits → List DoubleBits
  | [] => []
  | sample :: samples =>
    if bufferSizeSamples.toInt < samples.length + 1 then popFront bufferSizeSamples samples
    else sample :: samples

namespace LinePlotWidget

def lines (plot : LinePlotWidget) : List PlotLine := plot.series.map Series.toPlotLine

def keys (plot : LinePlotWidget) : List ByteString := plot.lines.map PlotLine.key

/-- What `AddSampleInternal` does with the series: the first branch takes the first sample of the
graph, the second one any other. -/
def appendSample (plot : LinePlotWidget) (value : DoubleBits) (series : Series) : Series :=
  if ¬plot.hasStarted ∨ plot.hasLastSampleTime then
    { series with
      samples := popFront plot.bufferSizeSamples (series.samples ++ [value])
      appended := series.appended ++ [value] }
  else { series with samples := popFront plot.bufferSizeSamples series.samples }

def addSampleInternal (plot : LinePlotWidget) (key : ByteString) (value : DoubleBits) :
    LinePlotWidget :=
  { plot with
    series := updateFirst (fun series => series.key = key) (plot.appendSample value) plot.series
    hasStarted := true
    hasLastSampleTime := ¬plot.hasStarted ∨ plot.hasLastSampleTime }

/-- The series of the primary key, which need not be the first one. -/
def withPrimary (plot : LinePlotWidget) : LinePlotWidget :=
  if plot.primaryKey ∈ plot.keys then plot
  else { plot with series := { key := plot.primaryKey, color := primaryColor } :: plot.series }

def addSample (plot : LinePlotWidget) (value : DoubleBits) : LinePlotWidget :=
  plot.withPrimary.addSampleInternal plot.primaryKey value

def addSampleToSeries (plot : LinePlotWidget) (key : ByteString) (value : DoubleBits) :
    LinePlotWidget :=
  if key ∈ plot.keys then plot.addSampleInternal key value else plot

def resetGraph (plot : LinePlotWidget) : LinePlotWidget :=
  { plot with
    series := plot.series.map fun series => { series with samples := [] }
    hasStarted := false
    hasLastSampleTime := false }

def setBufferSizeSamples (plot : LinePlotWidget) (samples : Int32) : LinePlotWidget :=
  let samples := if samples < 2 then 2 else samples
  { plot with
    bufferSizeSamples := samples
    series := plot.series.map fun series =>
      { series with samples := popFront samples series.samples } }

def addSeries (plot : LinePlotWidget) (key : ByteString) (color : QColor) : LinePlotWidget :=
  if key ∈ plot.keys then plot
  else { plot with series := plot.series ++ [{ key := key, color := color }] }

def removeSeries (plot : LinePlotWidget) (key : ByteString) : LinePlotWidget :=
  { plot with series := plot.series.eraseP fun series => series.key = key }

def setSeriesVisible (plot : LinePlotWidget) (key : ByteString) (visible : Bool) :
    LinePlotWidget :=
  { plot with
    series := updateFirst (fun series => series.key = key)
      (fun series => { series with visible := visible }) plot.series }

def setPrimarySeriesKey (plot : LinePlotWidget) (key : ByteString) : LinePlotWidget :=
  { plot with primaryKey := key }

/-! ### The lines -/

section Lines

variable {plot : LinePlotWidget} {key : ByteString} {line : PlotLine}

/-- No two series have the same key. -/
def Distinct (plot : LinePlotWidget) : Prop := plot.keys.Nodup

@[simp] theorem lines_resetGraph : plot.resetGraph.lines = plot.lines := by
  simp only [lines, resetGraph, List.map_map]
  rfl

@[simp] theorem lines_setBufferSizeSamples (samples : Int32) :
    (plot.setBufferSizeSamples samples).lines = plot.lines := by
  simp only [lines, setBufferSizeSamples, List.map_map]
  rfl

@[simp] theorem lines_addSampleInternal (value : DoubleBits) :
    (plot.addSampleInternal key value).lines = plot.lines := by
  refine map_updateFirst (fun series _ => ?_) plot.series
  unfold appendSample
  split_ifs <;> rfl

@[simp] theorem lines_addSampleToSeries (value : DoubleBits) :
    (plot.addSampleToSeries key value).lines = plot.lines := by
  unfold addSampleToSeries
  split_ifs
  · exact lines_addSampleInternal value
  · rfl

theorem lines_addSample (value : DoubleBits) : (plot.addSample value).lines =
    if plot.primaryKey ∈ plot.keys then plot.lines
    else { key := plot.primaryKey, color := primaryColor } :: plot.lines := by
  rw [addSample, lines_addSampleInternal, withPrimary]
  split_ifs <;> rfl

theorem lines_addSeries (color : QColor) : (plot.addSeries key color).lines =
    if key ∈ plot.keys then plot.lines else plot.lines ++ [{ key := key, color := color }] := by
  unfold addSeries
  split_ifs
  · rfl
  · simp [lines]

theorem lines_removeSeries :
    (plot.removeSeries key).lines = plot.lines.eraseP fun line => line.key = key := by
  simp only [lines, removeSeries, List.eraseP_map]
  rfl

theorem lines_setSeriesVisible (visible : Bool) : (plot.setSeriesVisible key visible).lines =
    updateFirst (fun line => line.key = key) (fun line => { line with visible := visible })
      plot.lines := by
  simp only [lines, setSeriesVisible]
  induction plot.series with
  | nil => rfl
  | cons series rest ih =>
    simp only [updateFirst_cons, List.map_cons]
    split_ifs
    · rfl
    · rw [List.map_cons, ih]

end Lines

/-! ### The samples -/

theorem popFront_suffix (bufferSizeSamples : Int32) (samples : List DoubleBits) :
    popFront bufferSizeSamples samples <:+ samples := by
  induction samples with
  | nil => exact List.suffix_refl []
  | cons sample samples ih =>
    rw [popFront]
    split_ifs
    · exact ih.trans (List.suffix_cons sample samples)
    · exact List.suffix_refl _

theorem length_popFront_le {bufferSizeSamples : Int32} (h : 0 ≤ bufferSizeSamples.toInt)
    (samples : List DoubleBits) :
    ((popFront bufferSizeSamples samples).length : ℤ) ≤ bufferSizeSamples.toInt := by
  induction samples with
  | nil => exact h
  | cons sample samples ih =>
    rw [popFront]
    split_ifs with hlong
    · exact ih
    · rw [List.length_cons]
      omega

/-- One series a key, the two flags in step, and the latest samples in every series. -/
structure Sound (plot : LinePlotWidget) : Prop where
  distinct : plot.keys.Nodup
  started : plot.hasStarted = true → plot.hasLastSampleTime = true
  two_le : 2 ≤ plot.bufferSizeSamples.toInt
  latest : ∀ series ∈ plot.series, series.Latest plot.bufferSizeSamples

/-- All that was ever appended to the series of a key. -/
def appended (plot : LinePlotWidget) (key : ByteString) : List DoubleBits :=
  match plot.series.find? fun series => series.key = key with
  | some series => series.appended
  | none => []

/-- The samples that the series of a key has. -/
def samples (plot : LinePlotWidget) (key : ByteString) : List DoubleBits :=
  match plot.series.find? fun series => series.key = key with
  | some series => series.samples
  | none => []

section Samples

variable {plot : LinePlotWidget} {key : ByteString} {value : DoubleBits}

theorem Sound.latest_nil (h : plot.Sound) {series : Series} (hsamples : series.samples = []) :
    series.Latest plot.bufferSizeSamples := by
  constructor
  · rw [hsamples]
    exact List.nil_suffix
  · rw [hsamples]
    exact le_trans (by decide) h.two_le

/-- In step, the flags let every sample through. -/
theorem Sound.appendSample_eq (h : plot.Sound) (series : Series) :
    plot.appendSample value series =
      { series with
        samples := popFront plot.bufferSizeSamples (series.samples ++ [value])
        appended := series.appended ++ [value] } := by
  rw [appendSample, if_pos]
  cases hstarted : plot.hasStarted with
  | false => exact .inl Bool.false_ne_true
  | true => exact .inr (h.started hstarted)

theorem Sound.latest_appendSample (h : plot.Sound) {series : Series}
    (hseries : series.Latest plot.bufferSizeSamples) :
    (plot.appendSample value series).Latest plot.bufferSizeSamples := by
  have htwo := h.two_le
  rw [h.appendSample_eq]
  constructor
  · obtain ⟨old, hold⟩ := hseries.suffix
    refine (popFront_suffix _ _).trans ⟨old, ?_⟩
    rw [← List.append_assoc, hold]
  · exact length_popFront_le (by omega) _

theorem keys_addSampleInternal : (plot.addSampleInternal key value).keys = plot.keys := by
  rw [keys, lines_addSampleInternal, keys]

theorem Sound.addSampleInternal (h : plot.Sound) : (plot.addSampleInternal key value).Sound where
  distinct := by
    rw [keys_addSampleInternal]
    exact h.distinct
  started _ := by
    cases hstarted : plot.hasStarted with
    | false => simp [LinePlotWidget.addSampleInternal, hstarted]
    | true => simp [LinePlotWidget.addSampleInternal, h.started hstarted]
  two_le := h.two_le
  latest :=
    forall_mem_updateFirst h.latest fun series hfind =>
      h.latest_appendSample (h.latest series (List.mem_of_find?_eq_some hfind))

theorem Sound.withPrimary (h : plot.Sound) : plot.withPrimary.Sound := by
  unfold LinePlotWidget.withPrimary
  split_ifs with hmem
  · exact h
  · refine ⟨List.nodup_cons.mpr ⟨hmem, h.distinct⟩, h.started, h.two_le, ?_⟩
    rw [List.forall_mem_cons]
    exact ⟨h.latest_nil rfl, h.latest⟩

theorem Sound.addSample (h : plot.Sound) : (plot.addSample value).Sound :=
  h.withPrimary.addSampleInternal

theorem Sound.addSampleToSeries (h : plot.Sound) : (plot.addSampleToSeries key value).Sound := by
  unfold LinePlotWidget.addSampleToSeries
  split_ifs
  · exact h.addSampleInternal
  · exact h

theorem Sound.resetGraph (h : plot.Sound) : plot.resetGraph.Sound where
  distinct := by
    rw [keys, lines_resetGraph]
    exact h.distinct
  started hstarted := absurd hstarted Bool.false_ne_true
  two_le := h.two_le
  latest := by
    intro series hseries
    obtain ⟨old, -, rfl⟩ := List.mem_map.mp hseries
    exact h.latest_nil rfl

theorem two_le_atLeastTwo (samples : Int32) :
    2 ≤ (if samples < 2 then 2 else samples : Int32).toInt := by
  split_ifs with hfew
  · decide
  · exact Int32.le_iff_toInt_le.mp (Int32.not_lt.mp hfew)

theorem Sound.setBufferSizeSamples (h : plot.Sound) (samples : Int32) :
    (plot.setBufferSizeSamples samples).Sound where
  distinct := by
    rw [keys, lines_setBufferSizeSamples]
    exact h.distinct
  started := h.started
  two_le := by
    show 2 ≤ (if samples < 2 then 2 else samples : Int32).toInt
    exact two_le_atLeastTwo samples
  latest := by
    intro series hseries
    obtain ⟨old, hold, rfl⟩ := List.mem_map.mp hseries
    refine ⟨(popFront_suffix _ _).trans (h.latest old hold).suffix, length_popFront_le ?_ _⟩
    exact le_trans (by decide) (two_le_atLeastTwo samples)

theorem Sound.addSeries (h : plot.Sound) (color : QColor) : (plot.addSeries key color).Sound := by
  unfold LinePlotWidget.addSeries
  split_ifs with hmem
  · exact h
  · refine ⟨?_, h.started, h.two_le, ?_⟩
    · have hkeys : (plot.keys ++ [key]).Nodup := by
        rw [← List.concat_eq_append]
        exact List.Nodup.concat hmem h.distinct
      simpa [keys, lines] using hkeys
    · rw [List.forall_mem_append, List.forall_mem_singleton]
      exact ⟨h.latest, h.latest_nil rfl⟩

theorem Sound.removeSeries (h : plot.Sound) : (plot.removeSeries key).Sound where
  distinct := by
    rw [keys, lines_removeSeries]
    exact h.distinct.sublist (List.eraseP_sublist.map _)
  started := h.started
  two_le := h.two_le
  latest series hseries := h.latest series (List.mem_of_mem_eraseP hseries)

theorem Sound.setSeriesVisible (h : plot.Sound) (visible : Bool) :
    (plot.setSeriesVisible key visible).Sound where
  distinct := by
    rw [keys, lines_setSeriesVisible, map_updateFirst]
    · exact h.distinct
    · exact fun _ _ => rfl
  started := h.started
  two_le := h.two_le
  latest :=
    forall_mem_updateFirst h.latest fun series hfind =>
      let hold := h.latest series (List.mem_of_find?_eq_some hfind)
      ⟨hold.suffix, hold.length_le⟩

theorem Sound.setPrimarySeriesKey (h : plot.Sound) : (plot.setPrimarySeriesKey key).Sound :=
  ⟨h.distinct, h.started, h.two_le, h.latest⟩

theorem sound_new : ({ primaryKey := key } : LinePlotWidget).Sound :=
  ⟨List.nodup_nil, fun h => absurd h Bool.false_ne_true,
    show (2 : ℤ) ≤ (5000 : Int32).toInt by decide, by simp⟩

/-! ### What is appended -/

theorem appended_addSampleInternal (h : plot.Sound) (hmem : key ∈ plot.keys) :
    (plot.addSampleInternal key value).appended key = plot.appended key ++ [value] := by
  have hkey (series : Series) (hseries : decide (series.key = key) = true) :
      decide ((plot.appendSample value series).key = key) = true := by
    rw [h.appendSample_eq]
    exact hseries
  have hfound : ∃ series, plot.series.find? (fun series => series.key = key) = some series := by
    obtain ⟨line, hline, rfl⟩ := List.mem_map.mp hmem
    obtain ⟨series, hseries, rfl⟩ := List.mem_map.mp hline
    exact Option.isSome_iff_exists.mp (List.find?_isSome.mpr ⟨series, hseries, by simp⟩)
  obtain ⟨series, hseries⟩ := hfound
  rw [appended, appended, LinePlotWidget.addSampleInternal, find?_updateFirst hkey, hseries,
    Option.map_some, h.appendSample_eq]

theorem appended_withPrimary (plot : LinePlotWidget) :
    plot.withPrimary.appended plot.primaryKey = plot.appended plot.primaryKey := by
  unfold LinePlotWidget.withPrimary
  split_ifs with hmem
  · rfl
  · have hnone : plot.series.find? (fun series => series.key = plot.primaryKey) = none := by
      rw [List.find?_eq_none]
      intro series hseries hkey
      refine hmem (List.mem_map.mpr ⟨series.toPlotLine, List.mem_map_of_mem hseries, ?_⟩)
      exact of_decide_eq_true hkey
    simp [appended, hnone]

theorem mem_keys_withPrimary (plot : LinePlotWidget) :
    plot.primaryKey ∈ plot.withPrimary.keys := by
  unfold LinePlotWidget.withPrimary
  split_ifs with hmem
  · exact hmem
  · exact List.mem_cons_self

theorem primaryKey_addSample : (plot.addSample value).primaryKey = plot.primaryKey := by
  unfold LinePlotWidget.addSample LinePlotWidget.withPrimary
  split_ifs <;> rfl

/-- A sample goes to the series of the primary key, behind all that went there before. -/
theorem appended_addSample (h : plot.Sound) :
    (plot.addSample value).appended plot.primaryKey =
      plot.appended plot.primaryKey ++ [value] := by
  rw [LinePlotWidget.addSample,
    appended_addSampleInternal h.withPrimary (mem_keys_withPrimary plot), appended_withPrimary]

theorem appended_setBufferSizeSamples (samples : Int32) :
    (plot.setBufferSizeSamples samples).appended key = plot.appended key := by
  rw [appended, appended, LinePlotWidget.setBufferSizeSamples, List.find?_map]
  cases hfind : plot.series.find? fun series => series.key = key with
  | none => simp [Function.comp_def, hfind]
  | some series => simp [Function.comp_def, hfind]

/-- The samples of a series are the latest of all that went to it. -/
theorem Sound.samples_latest (h : plot.Sound) (key : ByteString) :
    plot.samples key <:+ plot.appended key ∧
      ((plot.samples key).length : ℤ) ≤ plot.bufferSizeSamples.toInt := by
  rw [samples, appended]
  cases hfind : plot.series.find? fun series => series.key = key with
  | none => exact ⟨List.suffix_refl _, le_trans (by decide) h.two_le⟩
  | some series =>
    have hlatest := h.latest series (List.mem_of_find?_eq_some hfind)
    exact ⟨hlatest.suffix, hlatest.length_le⟩

end Samples

end LinePlotWidget

end SmartDashboard.Widgets
