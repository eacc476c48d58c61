import SmartDashboard.Library.Execution
import SmartDashboard.Widgets.VariableTile

/-!
# The sources of a plot and its lines

A tile lists the sources of its plot, the plot has a series for each, and the calls that change the
list change the series, too. `setPlotSources` only adds: the series of a source that is gone stays,
and so does the colour of one that was there before. A multi-line plot that becomes something else
gives its sources up and keeps their series.

## Main definitions

- `PlotCall`, `PlotCall.apply`: the calls
- `DrawsSources`: the lines of the plot, its own apart, are those of the sources
- `PlotCall.KeepsSeries`: the calls for which no series has to go or change its colour

## Main results

- `Separate.drawsSources_apply_iff`: what one call does
- `everyStep_drawsSources_iff`: a plot draws its sources in every state of a run exactly if every
  call keeps the series
-/

namespace SmartDashboard.Widgets

open Direct (ByteString DoubleBits)
open App (VariableType text)
open Execution
open FirstMatch

inductive PlotCall
  | addPlotSource (key : ByteString) (color : QColor)
  | removePlotSource (key : ByteString)
  | setPlotSources (sources : List PlotSourceEntry)
  | setSeriesVisibleBySource (key : ByteString) (visible : Bool)
  | setWidgetType (widgetType : ByteString)
  | setDoubleValue (value : DoubleBits)
  | setOtherValue
  | addSampleToPlotSource (key : ByteString) (value : DoubleBits)
  deriving DecidableEq, Repr

namespace VariableTile

/-- The lines of the plot, without the one of the tile. -/
def otherLines (tile : VariableTile) : List PlotLine :=
  tile.linePlot.lines.filter fun line => line.key ≠ tile.key

def sourceLines (tile : VariableTile) : List PlotLine :=
  tile.plotSources.map PlotSourceEntry.toPlotLine

/-- Every source has one line, in its colour and visible if the source is, and there is no other
one. -/
structure DrawsSources (tile : VariableTile) : Prop where
  distinct : (tile.otherLines.map PlotLine.key).Nodup
  mem_iff : ∀ line, line ∈ tile.otherLines ↔ line ∈ tile.sourceLines

end VariableTile

namespace PlotCall

def apply (tile : VariableTile) : PlotCall → VariableTile
  | addPlotSource key color => tile.addPlotSource key color
  | removePlotSource key => tile.removePlotSource key
  | setPlotSources sources => tile.setPlotSources sources
  | setSeriesVisibleBySource key visible => tile.setSeriesVisibleBySource key visible
  | setWidgetType widgetType => tile.setWidgetType widgetType
  | setDoubleValue value => tile.setDoubleValue value
  | setOtherValue => tile.setOtherValue
  | addSampleToPlotSource key value => tile.addSampleToPlotSource key value

/-- A list of sources has every key once, and not that of the tile. -/
def Admissible (key : ByteString) : PlotCall → Prop
  | setPlotSources sources =>
    (sources.map (·.key)).Nodup ∧ ∀ source ∈ sources, source.key ≠ key
  | _ => True

/-- A new list has the sources there are, in their colours, and a multi-line plot stays a plot. -/
def KeepsSeries (tile : VariableTile) : PlotCall → Prop
  | setPlotSources sources =>
    ∀ old ∈ tile.plotSources, ∃ source ∈ sources, source.key = old.key ∧ source.color = old.color
  | setWidgetType widgetType =>
    tile.isMultiLinePlot = true → widgetType = App.RunBrowser.linePlot
  | _ => True

instance (tile : VariableTile) : ∀ call : PlotCall, Decidable (call.KeepsSeries tile)
  | setPlotSources sources =>
    inferInstanceAs (Decidable (∀ old ∈ tile.plotSources, ∃ source ∈ sources,
      source.key = old.key ∧ source.color = old.color))
  | setWidgetType widgetType =>
    inferInstanceAs (Decidable (tile.isMultiLinePlot = true → widgetType = App.RunBrowser.linePlot))
  | addPlotSource .. | removePlotSource .. | setSeriesVisibleBySource .. | setDoubleValue ..
  | setOtherValue | addSampleToPlotSource .. => isTrue trivial

/-- Every call is answered. -/
def next (tile : VariableTile) (call : PlotCall) : Option VariableTile := some (call.apply tile)

end PlotCall

namespace VariableTile

/-! ### What every call keeps -/

/-- A plot of the tile's own key, and sources of other keys, each of them once. -/
structure Separate (tile : VariableTile) : Prop where
  sound : tile.linePlot.Sound
  primaryKey : tile.linePlot.primaryKey = tile.key
  distinct : tile.sourceKeys.Nodup
  own : tile.key ∉ tile.sourceKeys

section Steps

variable {tile tile' : VariableTile} {key : ByteString} {call : PlotCall}
  {sources : List PlotSourceEntry}

/-- The two tiles have the same sources and, besides their own, the same lines. -/
structure SameLines (tile tile' : VariableTile) : Prop where
  key : tile'.key = tile.key
  plotSources : tile'.plotSources = tile.plotSources
  otherLines : tile'.otherLines = tile.otherLines

theorem SameLines.drawsSources_iff (h : tile.SameLines tile') :
    tile'.DrawsSources ↔ tile.DrawsSources := by
  have hsources : tile'.sourceLines = tile.sourceLines := by
    rw [sourceLines, sourceLines, h.plotSources]
  constructor
  · intro hdraws
    exact ⟨h.otherLines ▸ hdraws.distinct, h.otherLines ▸ hsources ▸ hdraws.mem_iff⟩
  · intro hdraws
    refine ⟨?_, ?_⟩
    · rw [h.otherLines]
      exact hdraws.distinct
    · rw [h.otherLines, hsources]
      exact hdraws.mem_iff

theorem Separate.drawsSources_iff (h : tile.Separate) :
    tile.DrawsSources ↔ ∀ line, line ∈ tile.otherLines ↔ line ∈ tile.sourceLines :=
  ⟨DrawsSources.mem_iff, fun hmem =>
    ⟨h.sound.distinct.sublist (List.filter_sublist.map PlotLine.key), hmem⟩⟩

theorem mem_otherLines {line : PlotLine} :
    line ∈ tile.otherLines ↔ line ∈ tile.linePlot.lines ∧ line.key ≠ tile.key := by
  rw [otherLines, List.mem_filter, decide_eq_true_eq]

theorem mem_sourceKeys_of_mem_sourceLines {line : PlotLine} (h : line ∈ tile.sourceLines) :
    line.key ∈ tile.sourceKeys := by
  obtain ⟨source, hsource, rfl⟩ := List.mem_map.mp h
  exact List.mem_map_of_mem hsource

/-! ### The refresh of the display -/

theorem Separate.updateWidgetPresentation (h : tile.Separate) :
    tile.updateWidgetPresentation.Separate := by
  unfold VariableTile.updateWidgetPresentation
  split_ifs
  · exact ⟨h.sound, h.primaryKey, h.distinct, h.own⟩
  · exact h

theorem Separate.updateValueDisplay (h : tile.Separate) : tile.updateValueDisplay.Separate := by
  unfold VariableTile.updateValueDisplay
  split_ifs
  · exact ⟨h.sound.addSample, LinePlotWidget.primaryKey_addSample.trans h.primaryKey, h.distinct,
      h.own⟩
  · exact h

/-- The first sample may add a line, but that is the one of the tile. -/
theorem Separate.otherLines_addSample (h : tile.Separate) (value : DoubleBits) :
    { tile with linePlot := tile.linePlot.addSample value }.otherLines = tile.otherLines := by
  rw [otherLines, otherLines, LinePlotWidget.lines_addSample]
  split_ifs
  · rfl
  · rw [List.filter_cons_of_neg]
    simp [h.primaryKey]

theorem Separate.sameLines_refresh (h : tile.Separate) :
    tile.SameLines tile.updateWidgetPresentation.updateValueDisplay := by
  have hpresented : tile.SameLines tile.updateWidgetPresentation := by
    unfold VariableTile.updateWidgetPresentation
    split_ifs <;> exact ⟨rfl, rfl, rfl⟩
  have hplots := h.updateWidgetPresentation
  unfold VariableTile.updateValueDisplay
  split_ifs
  · exact ⟨hpresented.key, hpresented.plotSources,
      (hplots.otherLines_addSample _).trans hpresented.otherLines⟩
  · exact hpresented

theorem Separate.refresh (h : tile.Separate) :
    tile.updateWidgetPresentation.updateValueDisplay.Separate :=
  h.updateWidgetPresentation.updateValueDisplay

/-! ### One source -/

theorem Separate.addPlotSource (h : tile.Separate) (color : QColor) :
    (tile.addPlotSource key color).Separate := by
  unfold VariableTile.addPlotSource
  split_ifs with hmem
  · exact h
  · rw [not_or] at hmem
    refine ⟨h.sound.addSeries color, ?_, ?_, ?_⟩
    · rw [← h.primaryKey]
      unfold LinePlotWidget.addSeries
      split_ifs <;> rfl
    · rw [sourceKeys, List.map_append]
      exact List.nodup_append.mpr ⟨h.distinct, List.nodup_singleton _, by
        rintro a ha b hb rfl
        rw [List.mem_singleton.mp hb] at ha
        exact hmem.2 ha⟩
    · intro hown
      rw [sourceKeys, List.map_append, List.mem_append] at hown
      rcases hown with hown | hown
      · exact h.own hown
      · exact hmem.1 (List.mem_singleton.mp hown).symm

theorem Separate.drawsSources_addPlotSource (h : tile.Separate) (hdraws : tile.DrawsSources)
    (color : QColor) : (tile.addPlotSource key color).DrawsSources := by
  have hadded : (tile.addPlotSource key color).Separate := h.addPlotSource color
  rw [hadded.drawsSources_iff]
  unfold VariableTile.addPlotSource
  split_ifs with hmem
  · exact hdraws.mem_iff
  · rw [not_or] at hmem
    have habsent : key ∉ tile.linePlot.keys := by
      intro hkey
      obtain ⟨line, hline, rfl⟩ := List.mem_map.mp hkey
      have hsource := (hdraws.mem_iff line).mp (mem_otherLines.mpr ⟨hline, hmem.1⟩)
      exact hmem.2 (mem_sourceKeys_of_mem_sourceLines hsource)
    intro line
    have hlines : (tile.linePlot.addSeries key color).lines =
        tile.linePlot.lines ++ [{ key := key, color := color }] := by
      rw [LinePlotWidget.lines_addSeries, if_neg habsent]
    have hiff := hdraws.mem_iff line
    rw [mem_otherLines] at hiff ⊢
    simp only [sourceLines, List.map_append, List.mem_append, hlines] at hiff ⊢
    constructor
    · rintro ⟨hold | hnew, hne⟩
      · exact .inl (hiff.mp ⟨hold, hne⟩)
      · exact .inr hnew
    · rintro (hold | hnew)
      · obtain ⟨hold, hne⟩ := hiff.mpr hold
        exact ⟨.inl hold, hne⟩
      · rw [List.mem_singleton.mp hnew]
        exact ⟨.inr (List.mem_singleton_self _), hmem.1⟩

theorem Separate.removePlotSource (h : tile.Separate) : (tile.removePlotSource key).Separate := by
  unfold VariableTile.removePlotSource
  split_ifs
  · have hsub : (tile.plotSources.eraseP fun source => source.key = key).Sublist
        tile.plotSources := List.eraseP_sublist
    exact ⟨h.sound.removeSeries, h.primaryKey, h.distinct.sublist (hsub.map _),
      fun hown => h.own ((hsub.map _).subset hown)⟩
  · exact h

/-- The source and its series are found by the same key. -/
theorem Separate.drawsSources_removePlotSource (h : tile.Separate) (hdraws : tile.DrawsSources) :
    (tile.removePlotSource key).DrawsSources := by
  have hremoved : (tile.removePlotSource key).Separate := h.removePlotSource
  rw [hremoved.drawsSources_iff]
  unfold VariableTile.removePlotSource
  split_ifs with hmem
  · intro line
    have hlines : (tile.linePlot.removeSeries key).lines =
        tile.linePlot.lines.filter fun line => line.key ≠ key := by
      rw [LinePlotWidget.lines_removeSeries, eraseP_eq_filter h.sound.distinct]
    have hsources : (tile.plotSources.eraseP fun source => source.key = key) =
        tile.plotSources.filter fun source => source.key ≠ key :=
      eraseP_eq_filter h.distinct key
    have hiff := hdraws.mem_iff line
    rw [mem_otherLines] at hiff ⊢
    simp only [sourceLines, List.mem_map, hlines, hsources, List.mem_filter,
      decide_eq_true_eq] at hiff ⊢
    constructor
    · rintro ⟨⟨hold, hkey⟩, hne⟩
      obtain ⟨source, hsource, rfl⟩ := hiff.mp ⟨hold, hne⟩
      exact ⟨source, ⟨hsource, hkey⟩, rfl⟩
    · rintro ⟨source, ⟨hsource, hkey⟩, rfl⟩
      obtain ⟨hold, hne⟩ := hiff.mpr ⟨source, hsource, rfl⟩
      exact ⟨⟨hold, hkey⟩, hne⟩
  · exact hdraws.mem_iff

theorem Separate.setSeriesVisibleBySource (h : tile.Separate) (visible : Bool) :
    (tile.setSeriesVisibleBySource key visible).Separate := by
  have hkeys : (tile.setSeriesVisibleBySource key visible).sourceKeys = tile.sourceKeys :=
    map_updateFirst (g := fun source : PlotSourceEntry => source.key) (by intros; rfl)
      tile.plotSources
  exact ⟨h.sound.setSeriesVisible visible, h.primaryKey, hkeys ▸ h.distinct,
    fun hown => h.own (hkeys ▸ hown)⟩

/-- A line that is shown or hidden by its key. -/
def madeVisible (key : ByteString) (visible : Bool) (line : PlotLine) : PlotLine :=
  if line.key = key then { line with visible := visible } else line

theorem key_madeVisible (visible : Bool) (line : PlotLine) :
    (madeVisible key visible line).key = line.key := by
  unfold madeVisible
  split_ifs <;> rfl

theorem Separate.drawsSources_setSeriesVisibleBySource (h : tile.Separate)
    (hdraws : tile.DrawsSources) (visible : Bool) :
    (tile.setSeriesVisibleBySource key visible).DrawsSources := by
  have hset : (tile.setSeriesVisibleBySource key visible).Separate :=
    h.setSeriesVisibleBySource visible
  rw [hset.drawsSources_iff]
  have hlines : (tile.setSeriesVisibleBySource key visible).linePlot.lines =
      tile.linePlot.lines.map (madeVisible key visible) := by
    rw [VariableTile.setSeriesVisibleBySource, LinePlotWidget.lines_setSeriesVisible,
      updateFirst_eq_map h.sound.distinct]
    rfl
  have hsources : (tile.setSeriesVisibleBySource key visible).sourceLines =
      tile.sourceLines.map (madeVisible key visible) := by
    have hupdated : (tile.setSeriesVisibleBySource key visible).plotSources =
        tile.plotSources.map fun source =>
          if source.key = key then { source with visible := visible } else source :=
      updateFirst_eq_map h.distinct key
    rw [sourceLines, sourceLines, hupdated, List.map_map, List.map_map]
    refine List.map_congr_left fun source _ => ?_
    simp only [Function.comp_apply, madeVisible]
    split_ifs <;> rfl
  intro line
  rw [mem_otherLines, hlines, hsources]
  constructor
  · rintro ⟨hline, hne⟩
    obtain ⟨old, hold, rfl⟩ := List.mem_map.mp hline
    rw [key_madeVisible] at hne
    exact List.mem_map_of_mem ((hdraws.mem_iff old).mp (mem_otherLines.mpr ⟨hold, hne⟩))
  · intro hline
    obtain ⟨old, hold, rfl⟩ := List.mem_map.mp hline
    obtain ⟨hline, hne⟩ := mem_otherLines.mp ((hdraws.mem_iff old).mpr hold)
    refine ⟨List.mem_map_of_mem hline, ?_⟩
    rw [key_madeVisible]
    exact hne

/-! ### A list of sources -/

/-- A series for the source, if there is none, and its visibility. -/
def placeSource (plot : LinePlotWidget) (source : PlotSourceEntry) : LinePlotWidget :=
  (plot.addSeries source.key source.color).setSeriesVisible source.key source.visible

theorem setPlotSources_eq : tile.setPlotSources sources =
    { tile with plotSources := sources, linePlot := sources.foldl placeSource tile.linePlot } := rfl

variable {plot : LinePlotWidget}

/-- The line of a source, in the colour of a series that was there before. -/
structure Placed (plot : LinePlotWidget) (source : PlotSourceEntry) (line : PlotLine) : Prop where
  key : line.key = source.key
  visible : line.visible = source.visible
  color_of_mem : ∀ old ∈ plot.lines, old.key = source.key → line.color = old.color
  color : source.key ∉ plot.keys → line.color = source.color

theorem sound_placeSource (h : plot.Sound) (source : PlotSourceEntry) :
    (placeSource plot source).Sound :=
  (h.addSeries source.color).setSeriesVisible source.visible

theorem primaryKey_placeSource (source : PlotSourceEntry) :
    (placeSource plot source).primaryKey = plot.primaryKey := by
  unfold placeSource LinePlotWidget.addSeries
  split_ifs <;> rfl

theorem lines_placeSource (h : plot.Sound) (source : PlotSourceEntry) :
    (placeSource plot source).lines =
      if source.key ∈ plot.keys then plot.lines.map (madeVisible source.key source.visible)
      else plot.lines ++ [source.toPlotLine] := by
  rw [placeSource, LinePlotWidget.lines_setSeriesVisible,
    updateFirst_eq_map (h.addSeries source.color).distinct, LinePlotWidget.lines_addSeries]
  split_ifs with hmem
  · rfl
  · have hold : ∀ line ∈ plot.lines,
        (if line.key = source.key then { line with visible := source.visible } else line) = line :=
      fun line hline => if_neg fun hkey => hmem (List.mem_map.mpr ⟨line, hline, hkey⟩)
    rw [List.map_append, List.map_congr_left hold, List.map_id']
    simp

/-- The lines of other keys stay, and the source has one. -/
theorem mem_lines_placeSource (h : plot.Sound) (source : PlotSourceEntry) (line : PlotLine) :
    line ∈ (placeSource plot source).lines ↔
      (line ∈ plot.lines ∧ line.key ≠ source.key) ∨ Placed plot source line := by
  have hunique {old old' : PlotLine} (hold : old ∈ plot.lines) (hold' : old' ∈ plot.lines)
      (hkey : old.key = old'.key) : old = old' :=
    List.inj_on_of_nodup_map h.distinct hold hold' hkey
  rw [lines_placeSource h]
  by_cases hmem : source.key ∈ plot.keys
  · rw [if_pos hmem, List.mem_map]
    constructor
    · rintro ⟨old, hold, rfl⟩
      by_cases hkey : old.key = source.key
      · right
        rw [madeVisible, if_pos hkey]
        refine ⟨hkey, rfl, fun old' hold' hkey' => ?_, fun habsent => absurd hmem habsent⟩
        rw [hunique hold hold' (hkey.trans hkey'.symm)]
      · left
        rw [madeVisible, if_neg hkey]
        exact ⟨hold, hkey⟩
    · rintro (⟨hold, hkey⟩ | hplaced)
      · exact ⟨line, hold, if_neg hkey⟩
      · obtain ⟨old, hold, hkey⟩ := List.mem_map.mp hmem
        refine ⟨old, hold, ?_⟩
        obtain ⟨key, color, visible⟩ := line
        obtain ⟨rfl, rfl, hcolor, -⟩ := hplaced
        obtain rfl : color = old.color := hcolor old hold hkey
        rw [madeVisible, if_pos hkey, hkey]
  · rw [if_neg hmem, List.mem_append, List.mem_singleton]
    have hother : ∀ old ∈ plot.lines, old.key ≠ source.key := fun old hold hkey =>
      hmem (List.mem_map.mpr ⟨old, hold, hkey⟩)
    constructor
    · rintro (hold | rfl)
      · exact .inl ⟨hold, hother line hold⟩
      · exact .inr ⟨rfl, rfl, fun old hold hkey => absurd hkey (hother old hold), fun _ => rfl⟩
    · rintro (⟨hold, -⟩ | hplaced)
      · exact .inl hold
      · right
        obtain ⟨key, color, visible⟩ := line
        obtain ⟨rfl, rfl, -, hcolor⟩ := hplaced
        obtain rfl : color = source.color := hcolor hmem
        rfl

theorem placed_placeSource_iff (h : plot.Sound) {source other : PlotSourceEntry}
    (hne : other.key ≠ source.key) {line : PlotLine} :
    Placed (placeSource plot source) other line ↔ Placed plot other line := by
  have hlines (old : PlotLine) (hkey : old.key = other.key) :
      old ∈ (placeSource plot source).lines ↔ old ∈ plot.lines := by
    rw [mem_lines_placeSource h]
    constructor
    · rintro (⟨hold, -⟩ | hplaced)
      · exact hold
      · exact absurd (hkey.symm.trans hplaced.key) hne
    · exact fun hold => .inl ⟨hold, fun hsame => hne (hkey.symm.trans hsame)⟩
  have hkeys : other.key ∈ (placeSource plot source).keys ↔ other.key ∈ plot.keys := by
    simp only [LinePlotWidget.keys, List.mem_map]
    constructor
    · rintro ⟨old, hold, hkey⟩
      exact ⟨old, (hlines old hkey).mp hold, hkey⟩
    · rintro ⟨old, hold, hkey⟩
      exact ⟨old, (hlines old hkey).mpr hold, hkey⟩
  constructor
  · rintro ⟨hkey, hvisible, hmem, hcolor⟩
    exact ⟨hkey, hvisible, fun old hold hsame => hmem old ((hlines old hsame).mpr hold) hsame,
      fun habsent => hcolor fun hin => habsent (hkeys.mp hin)⟩
  · rintro ⟨hkey, hvisible, hmem, hcolor⟩
    exact ⟨hkey, hvisible, fun old hold hsame => hmem old ((hlines old hsame).mp hold) hsame,
      fun habsent => hcolor fun hin => habsent (hkeys.mpr hin)⟩

theorem sound_foldl_placeSource (h : plot.Sound) (sources : List PlotSourceEntry) :
    (sources.foldl placeSource plot).Sound ∧
      (sources.foldl placeSource plot).primaryKey = plot.primaryKey := by
  induction sources generalizing plot with
  | nil => exact ⟨h, rfl⟩
  | cons source sources ih =>
    obtain ⟨hsound, hprimary⟩ := ih (sound_placeSource h source)
    exact ⟨hsound, hprimary.trans (primaryKey_placeSource source)⟩

/-- All lines of other keys stay. -/
theorem mem_lines_foldl_placeSource (h : plot.Sound) (hdistinct : (sources.map (·.key)).Nodup)
    (line : PlotLine) :
    line ∈ (sources.foldl placeSource plot).lines ↔
      (line ∈ plot.lines ∧ line.key ∉ sources.map (·.key)) ∨
        ∃ source ∈ sources, Placed plot source line := by
  induction sources generalizing plot with
  | nil => simp
  | cons source sources ih =>
    rw [List.map_cons, List.nodup_cons] at hdistinct
    have hother : ∀ other ∈ sources, other.key ≠ source.key := fun other hmem hkey =>
      hdistinct.1 (List.mem_map.mpr ⟨other, hmem, hkey⟩)
    have hplaced : (∃ other ∈ sources, Placed (placeSource plot source) other line) ↔
        ∃ other ∈ sources, Placed plot other line :=
      exists_congr fun other => and_congr_right fun hmem =>
        placed_placeSource_iff h (hother other hmem)
    rw [List.foldl_cons, ih (sound_placeSource h source) hdistinct.2, hplaced,
      mem_lines_placeSource h, List.map_cons, List.exists_mem_cons_iff]
    simp only [List.mem_cons, not_or]
    constructor
    · rintro (⟨⟨hold, hkey⟩ | hnew, hrest⟩ | hnew)
      · exact .inl ⟨hold, hkey, hrest⟩
      · exact .inr (.inl hnew)
      · exact .inr (.inr hnew)
    · rintro (⟨hold, hkey, hrest⟩ | hnew | hnew)
      · exact .inl ⟨.inl ⟨hold, hkey⟩, hrest⟩
      · exact .inl ⟨.inr hnew, hnew.key ▸ hdistinct.1⟩
      · exact .inr hnew

theorem Separate.setPlotSources (h : tile.Separate) (hdistinct : (sources.map (·.key)).Nodup)
    (hown : ∀ source ∈ sources, source.key ≠ tile.key) :
    (tile.setPlotSources sources).Separate := by
  obtain ⟨hsound, hprimary⟩ := sound_foldl_placeSource h.sound sources
  refine ⟨hsound, hprimary.trans h.primaryKey, hdistinct, fun hmem => ?_⟩
  obtain ⟨source, hsource, hkey⟩ := List.mem_map.mp hmem
  exact hown source hsource hkey

/-- A new list is drawn exactly if it has the sources that are drawn, in their colours. -/
theorem Separate.drawsSources_setPlotSources_iff (h : tile.Separate) (hdraws : tile.DrawsSources)
    (hdistinct : (sources.map (·.key)).Nodup)
    (hown : ∀ source ∈ sources, source.key ≠ tile.key) :
    (tile.setPlotSources sources).DrawsSources ↔
      ∀ old ∈ tile.plotSources,
        ∃ source ∈ sources, source.key = old.key ∧ source.color = old.color := by
  have hlines := mem_lines_foldl_placeSource h.sound hdistinct
  have hunique {source source' : PlotSourceEntry} (hsource : source ∈ sources)
      (hsource' : source' ∈ sources) (hkey : source.key = source'.key) : source = source' :=
    List.inj_on_of_nodup_map hdistinct hsource hsource' hkey
  rw [(h.setPlotSources hdistinct hown).drawsSources_iff]
  constructor
  · intro hnew old hold
    obtain ⟨hline, hne⟩ :=
      mem_otherLines.mp ((hdraws.mem_iff old.toPlotLine).mpr (List.mem_map_of_mem hold))
    have hkept : old.key ∈ sources.map (·.key) := by
      -- the line of a source that is gone stays
      by_contra hgone
      have hstays := (hnew old.toPlotLine).mp
        (mem_otherLines.mpr ⟨(hlines _).mpr (.inl ⟨hline, hgone⟩), hne⟩)
      exact hgone (mem_sourceKeys_of_mem_sourceLines hstays)
    obtain ⟨source, hsource, hkey⟩ := List.mem_map.mp hkept
    refine ⟨source, hsource, hkey, ?_⟩
    -- the line of a source that is kept has its old colour
    have hplaced :
        Placed tile.linePlot source { old.toPlotLine with visible := source.visible } := by
      refine ⟨hkey.symm, rfl, fun old' hold' hkey' => ?_, fun habsent => absurd ?_ habsent⟩
      · rw [List.inj_on_of_nodup_map h.sound.distinct hold' hline (hkey'.trans hkey)]
      · exact List.mem_map.mpr ⟨old.toPlotLine, hline, hkey.symm⟩
    have hdrawn := (hnew _).mp
      (mem_otherLines.mpr ⟨(hlines _).mpr (.inr ⟨source, hsource, hplaced⟩), hne⟩)
    obtain ⟨source', hsource', heq⟩ := List.mem_map.mp hdrawn
    have hsame : source = source' :=
      hunique hsource hsource' (hkey.trans (congrArg PlotLine.key heq).symm)
    have hcolor := congrArg PlotLine.color heq
    rw [hsame]
    exact hcolor
  · intro hkeeps
    have hkept {line : PlotLine} (hline : line ∈ tile.linePlot.lines) (hne : line.key ≠ tile.key) :
        ∃ source ∈ sources, source.key = line.key ∧ source.color = line.color := by
      obtain ⟨old, hold, rfl⟩ := List.mem_map.mp ((hdraws.mem_iff line).mp
        (mem_otherLines.mpr ⟨hline, hne⟩))
      exact hkeeps old hold
    have hcolor {source : PlotSourceEntry} (hsource : source ∈ sources) :
        ∀ old ∈ tile.linePlot.lines, old.key = source.key → source.color = old.color := by
      intro old hold hkey
      obtain ⟨source', hsource', hkey', hcolor⟩ :=
        hkept hold (hkey ▸ hown source hsource)
      rw [hunique hsource hsource' (hkey.symm.trans hkey'.symm), hcolor]
    have hplaced {source : PlotSourceEntry} (hsource : source ∈ sources) (line : PlotLine) :
        Placed tile.linePlot source line ↔ source.toPlotLine = line := by
      constructor
      · intro hplaced
        have hsame : line.color = source.color := by
          by_cases hmem : source.key ∈ tile.linePlot.keys
          · obtain ⟨old, hold, hkey⟩ := List.mem_map.mp hmem
            rw [hplaced.color_of_mem old hold hkey, hcolor hsource old hold hkey]
          · exact hplaced.color hmem
        obtain ⟨key, color, visible⟩ := line
        obtain ⟨rfl, rfl, -, -⟩ := hplaced
        obtain rfl : color = source.color := hsame
        rfl
      · rintro rfl
        exact ⟨rfl, rfl, hcolor hsource, fun _ => rfl⟩
    intro line
    have hiff := hlines line
    rw [mem_otherLines, setPlotSources_eq]
    constructor
    · rintro ⟨hline, hne⟩
      rcases hiff.mp hline with ⟨hold, hgone⟩ | ⟨source, hsource, hline⟩
      · obtain ⟨source, hsource, hkey, -⟩ := hkept hold hne
        exact absurd (List.mem_map.mpr ⟨source, hsource, hkey⟩) hgone
      · exact List.mem_map.mpr ⟨source, hsource, (hplaced hsource line).mp hline⟩
    · intro hline
      obtain ⟨source, hsource, rfl⟩ := List.mem_map.mp hline
      exact ⟨hiff.mpr (.inr ⟨source, hsource, (hplaced hsource _).mpr rfl⟩), hown source hsource⟩

/-! ### Widget types -/

theorem Separate.disbanded (h : tile.Separate) (widgetType : ByteString) :
    (tile.disbanded widgetType).Separate := by
  unfold VariableTile.disbanded
  split_ifs
  · exact ⟨h.sound, h.primaryKey, List.nodup_nil, List.not_mem_nil⟩
  · exact h

theorem Separate.retyped (h : tile.Separate) (widgetType : ByteString) :
    (tile.retyped widgetType).Separate := by
  unfold VariableTile.retyped
  split_ifs
  · exact ⟨h.sound.setPrimarySeriesKey, rfl, h.distinct, h.own⟩
  · exact ⟨h.sound, h.primaryKey, h.distinct, h.own⟩

theorem sameLines_retyped (tile : VariableTile) (widgetType : ByteString) :
    tile.SameLines (tile.retyped widgetType) := by
  unfold VariableTile.retyped
  split_ifs <;> exact ⟨rfl, rfl, rfl⟩

/-- The lines of sources that are given up stay. -/
theorem Separate.drawsSources_setWidgetType_iff (h : tile.Separate) (hdraws : tile.DrawsSources)
    (widgetType : ByteString) :
    (tile.setWidgetType widgetType).DrawsSources ↔
      (tile.isMultiLinePlot = true → widgetType = App.RunBrowser.linePlot) := by
  have hretyped := (h.disbanded widgetType).retyped widgetType
  rw [setWidgetType, hretyped.sameLines_refresh.drawsSources_iff,
    (sameLines_retyped _ widgetType).drawsSources_iff, VariableTile.disbanded]
  split_ifs with hgives
  · refine iff_of_false ?_ fun hplot => hgives.2 (hplot hgives.1)
    intro hnew
    obtain ⟨-, hsources⟩ := of_decide_eq_true hgives.1
    obtain ⟨source, hsource⟩ := List.exists_mem_of_ne_nil _ hsources
    have hline := (hdraws.mem_iff source.toPlotLine).mpr (List.mem_map_of_mem hsource)
    exact List.not_mem_nil ((hnew.mem_iff source.toPlotLine).mp hline)
  · refine iff_of_true hdraws fun hmulti => ?_
    by_contra hother
    exact hgives ⟨hmulti, hother⟩

/-! ### One call -/

theorem Separate.addSampleToPlotSource (h : tile.Separate) (value : DoubleBits) :
    (tile.addSampleToPlotSource key value).Separate := by
  refine ⟨h.sound.addSampleToSeries, ?_, h.distinct, h.own⟩
  rw [VariableTile.addSampleToPlotSource, LinePlotWidget.addSampleToSeries]
  split_ifs <;> exact h.primaryKey

theorem sameLines_addSampleToPlotSource (value : DoubleBits) :
    tile.SameLines (tile.addSampleToPlotSource key value) := by
  refine ⟨rfl, rfl, ?_⟩
  rw [otherLines, otherLines, VariableTile.addSampleToPlotSource,
    LinePlotWidget.lines_addSampleToSeries]

theorem separate_value (h : tile.Separate) (value : DoubleBits) :
    { tile with hasValue := true, doubleValue := value }.Separate :=
  ⟨h.sound, h.primaryKey, h.distinct, h.own⟩

theorem Separate.apply (h : tile.Separate) (hcall : call.Admissible tile.key) :
    (call.apply tile).Separate ∧ (call.apply tile).key = tile.key := by
  cases call with
  | addPlotSource key color =>
    refine ⟨h.addPlotSource color, ?_⟩
    rw [PlotCall.apply, VariableTile.addPlotSource]
    split_ifs <;> rfl
  | removePlotSource key =>
    refine ⟨h.removePlotSource, ?_⟩
    rw [PlotCall.apply, VariableTile.removePlotSource]
    split_ifs <;> rfl
  | setPlotSources sources => exact ⟨h.setPlotSources hcall.1 hcall.2, rfl⟩
  | setSeriesVisibleBySource key visible => exact ⟨h.setSeriesVisibleBySource visible, rfl⟩
  | setWidgetType widgetType =>
    have hretyped := (h.disbanded widgetType).retyped widgetType
    refine ⟨hretyped.refresh, hretyped.sameLines_refresh.key.trans ?_⟩
    rw [(sameLines_retyped _ widgetType).key, VariableTile.disbanded]
    split_ifs <;> rfl
  | setDoubleValue value =>
    have hvalue := separate_value h value
    exact ⟨hvalue.refresh, hvalue.sameLines_refresh.key⟩
  | setOtherValue =>
    have hvalue := separate_value h tile.doubleValue
    exact ⟨hvalue.refresh, hvalue.sameLines_refresh.key⟩
  | addSampleToPlotSource key value => exact ⟨h.addSampleToPlotSource value, rfl⟩

theorem Separate.drawsSources_apply_iff (h : tile.Separate) (hdraws : tile.DrawsSources)
    (hcall : call.Admissible tile.key) :
    (call.apply tile).DrawsSources ↔ call.KeepsSeries tile := by
  cases call with
  | addPlotSource key color => exact iff_of_true (h.drawsSources_addPlotSource hdraws color) trivial
  | removePlotSource key => exact iff_of_true (h.drawsSources_removePlotSource hdraws) trivial
  | setPlotSources sources => exact h.drawsSources_setPlotSources_iff hdraws hcall.1 hcall.2
  | setSeriesVisibleBySource key visible =>
    exact iff_of_true (h.drawsSources_setSeriesVisibleBySource hdraws visible) trivial
  | setWidgetType widgetType => exact h.drawsSources_setWidgetType_iff hdraws widgetType
  | setDoubleValue value =>
    refine iff_of_true ?_ trivial
    exact (separate_value h value).sameLines_refresh.drawsSources_iff.mpr ⟨hdraws.1, hdraws.2⟩
  | setOtherValue =>
    refine iff_of_true ?_ trivial
    exact (separate_value h tile.doubleValue).sameLines_refresh.drawsSources_iff.mpr
      ⟨hdraws.1, hdraws.2⟩
  | addSampleToPlotSource key value =>
    exact iff_of_true ((sameLines_addSampleToPlotSource value).drawsSources_iff.mpr hdraws) trivial

theorem separate_new (key : ByteString) (type : VariableType) : (new key type).Separate :=
  ⟨LinePlotWidget.sound_new, rfl, List.nodup_nil, List.not_mem_nil⟩

theorem drawsSources_new (key : ByteString) (type : VariableType) : (new key type).DrawsSources :=
  ⟨List.nodup_nil, fun _ => Iff.rfl⟩

end Steps

/-- In every state that a run reaches the plot draws its sources, exactly if every call keeps the
series there are. -/
theorem everyStep_drawsSources_iff (qt : QtGui) (key : ByteString) (type : VariableType)
    (calls : List PlotCall) (hcalls : ∀ call ∈ calls, call.Admissible key) :
    EveryStep PlotCall.next (fun tile call => (call.apply tile).DrawsSources)
        (construct qt key type) calls ↔
      EveryStep PlotCall.next (fun tile call => call.KeepsSeries tile)
        (construct qt key type) calls := by
  have hstart : (new key type).Separate ∧ (new key type).DrawsSources ∧ (new key type).key = key :=
    ⟨separate_new key type, drawsSources_new key type, rfl⟩
  rw [construct_eq]
  refine everyStep_congr (P := fun tile => tile.Separate ∧ tile.DrawsSources ∧ tile.key = key)
    ?_ ?_ hstart
  · rintro tile call hcall ⟨hseparate, hdraws, rfl⟩
    exact hseparate.drawsSources_apply_iff hdraws (hcalls call hcall)
  · rintro tile call hcall tile' ⟨hseparate, hdraws, rfl⟩ hkeeps hnext
    obtain rfl : call.apply tile = tile' := Option.some.inj hnext
    have hadmissible := hcalls call hcall
    obtain ⟨hseparate', hkey⟩ := hseparate.apply hadmissible
    exact ⟨hseparate', (hseparate.drawsSources_apply_iff hdraws hadmissible).mpr hkeeps, hkey⟩

def leftSource : PlotSourceEntry where
  key := text "Left"
  color := .rgba 0xE7E7 0x4C4C 0x3C3C 0xFFFF

def rightSource : PlotSourceEntry where
  key := text "Right"
  color := .rgba 0xF3F3 0x9C9C 0x1212 0xFFFF
  visible := false

/-- A list that grows, in a plot that gets values and stays one. -/
def growingCalls : List PlotCall :=
  [.setWidgetType App.RunBrowser.linePlot, .addPlotSource leftSource.key leftSource.color,
    .setDoubleValue 0, .setPlotSources [leftSource, rightSource],
    .setSeriesVisibleBySource leftSource.key false, .removePlotSource rightSource.key]

theorem growingCalls_drawsSources :
    EveryStep PlotCall.next (fun tile call => (call.apply tile).DrawsSources)
      (construct unusedGui (text "Speed") .double) growingCalls := by
  refine (everyStep_drawsSources_iff unusedGui (text "Speed") .double growingCalls ?_).mpr ?_
  · unfold growingCalls
    simp only [List.forall_mem_cons]
    exact ⟨trivial, trivial, trivial, ⟨by decide, by decide⟩, trivial, trivial, by simp⟩
  · decide

/-- The series of a source stays when the list is emptied. -/
theorem emptiedList_not_drawsSources :
    ¬EveryStep PlotCall.next (fun tile call => (call.apply tile).DrawsSources)
      (construct unusedGui (text "Speed") .double)
      [.setWidgetType App.RunBrowser.linePlot, .setPlotSources [leftSource],
        .setPlotSources []] := by
  intro h
  have hdraws := ((h.2 _ rfl).2 _ rfl).1
  have hstays := (hdraws.mem_iff leftSource.toPlotLine).mp (by decide)
  exact List.not_mem_nil hstays

end VariableTile

end SmartDashboard.Widgets
