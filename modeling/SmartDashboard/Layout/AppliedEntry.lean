import SmartDashboard.Layout.WidgetLayoutEntry
import SmartDashboard.Widgets.TileSettings

/-!
# Settings of an applied entry

An entry is applied in groups of settings, and a group changes no other one. What becomes of a
setting is therefore decided by its group, and by the settings that the tile had.

## Main results

- `gauge_applyLayoutEntryToTile`, `progressBar_applyLayoutEntryToTile`,
  `textFontPointSize_applyLayoutEntryToTile`: the settings after an entry was applied
-/

namespace SmartDashboard.Layout

open Direct (ByteString DoubleBits)
open Widgets
open Widgets.VariableTile

section Frames

variable {qt : QtGui} {entry : WidgetLayoutEntry} {tile : VariableTile} {α β : Type}
  (read : TileSettings → β)

theorem applyIf_frame {set : VariableTile → α → VariableTile}
    (h : ∀ tile value, read (set tile value).settings = read tile.settings) (value : Option α) :
    read (applyIf tile set value).settings = read tile.settings := by
  cases value with
  | none => rfl
  | some value => exact h tile value

theorem setGeometry_frame (h : ∀ s geometry, read { s with geometry := geometry } = read s)
    (geometry : QRect) : read (tile.setGeometry geometry).settings = read tile.settings :=
  h tile.settings _

theorem setWidgetType_frame
    (h : ∀ s geometry widgetType sources, read
      { s with geometry := geometry, widgetType := widgetType, plotSources := sources } = read s)
    (widgetType : ByteString) :
    read (tile.setWidgetType widgetType).settings = read tile.settings := by
  rw [settings_setWidgetType, retyped, disbanded]
  split_ifs <;> exact h tile.settings _ _ _

theorem applyGauge_frame (h : ∀ s gauge, read { s with gauge := gauge } = read s) :
    read (applyGauge qt entry tile).settings = read tile.settings := by
  refine applyIf_frame read (fun tile lowerLimit => ?_) _
  rw [settings_setGaugeProperties]
  exact h _ _

theorem applySlider_frame (h : ∀ s slider, read { s with slider := slider } = read s) :
    read (applySlider qt entry tile).settings = read tile.settings := by
  refine applyIf_frame read (fun tile lowerLimit => ?_) _
  rw [settings_setSliderProperties]
  exact h _ _

theorem applyProgressBar_frame
    (h : ∀ s progressBar, read { s with progressBar := progressBar } = read s) :
    read (applyProgressBar qt entry tile).settings = read tile.settings := by
  set limited := applyIf tile (fun tile lowerLimit => tile.setProgressBarProperties qt lowerLimit
    (entry.progressBarUpperLimit.getD 0x3FF0000000000000)) entry.progressBarLowerLimit
    with hlimited
  have hlimits : read limited.settings = read tile.settings := by
    refine applyIf_frame read (fun tile lowerLimit => ?_) _
    rw [settings_setProgressBarProperties]
    exact h _ _
  have hshown : read (applyIf limited setProgressBarShowPercentage
      entry.progressBarShowPercentage).settings = read tile.settings := by
    refine (applyIf_frame read (fun tile showPercentage => ?_) _).trans hlimits
    rw [settings_setProgressBarShowPercentage]
    exact h _ _
  rw [applyProgressBar, ← hlimited]
  split_ifs
  · rw [settings_setProgressBarColors, h, hshown]
  · exact hshown

theorem applyLinePlot_frame
    (h : ∀ s properties, read { s with linePlotProperties := properties } = read s) :
    read (applyLinePlot qt entry tile).settings = read tile.settings := by
  refine (applyIf_frame read (fun tile visible => ?_) _).trans ?_
  · exact h tile.settings _
  refine (applyIf_frame read (fun tile visible => ?_) _).trans ?_
  · exact h tile.settings _
  refine applyIf_frame read (fun tile bufferSizeSamples => ?_) _
  exact h tile.settings _

theorem applySources_frame
    (h : ∀ s sources mode, read
      { s with plotSources := sources, multiLinePlotMode := mode } = read s) :
    read (applySources qt entry tile).settings = read tile.settings := by
  rw [applySources]
  split_ifs <;> exact h tile.settings _ _

theorem applyTexts_frame
    (h : ∀ s size editable label options property, read
      { s with
        textFontPointSize := size
        doubleNumericEditable := editable
        showLabel := label
        stringChooserOptions := options
        stringChooserOptionsProperty := property } = read s) :
    read (applyTexts entry tile).settings = read tile.settings := by
  refine (applyIf_frame read (fun tile options => ?_) _).trans ?_
  · rw [settings_setStringChooserOptions]
    exact h _ _ _ _ _ _
  refine (applyIf_frame read (fun tile mode => ?_) _).trans ?_
  · rw [settings_setStringChooserMode]
  refine (applyIf_frame read (fun tile label => ?_) _).trans ?_
  · rw [settings_setShowLabel]
    exact h _ _ _ _ _ _
  refine (applyIf_frame read (fun tile size => ?_) _).trans ?_
  · rw [settings_setTextFontPointSize]
    exact h _ _ _ _ _ _
  refine applyIf_frame read (fun tile editable => ?_) _
  rw [settings_setDoubleNumericEditable]
  exact h _ _ _ _ _ _

end Frames

section Settings

variable (qt : QtGui) (entry : WidgetLayoutEntry) (tile : VariableTile)

/-- The other limits of a gauge count only with the lower one. -/
def appliedGauge (gauge : RangeProperties) : RangeProperties :=
  match entry.gaugeLowerLimit with
  | some lowerLimit =>
    normalRange qt
      { lowerLimit := lowerLimit
        upperLimit := entry.gaugeUpperLimit.getD 0x3FF0000000000000
        tickInterval := entry.gaugeTickInterval.getD 0x3FC999999999999A
        showTickMarks := entry.gaugeShowTickMarks.getD true }
  | none => gauge

/-- So does the upper limit of a progress bar. -/
def appliedProgressBar (progressBar : ProgressBarProperties) : ProgressBarProperties :=
  let progressBar :=
    match entry.progressBarLowerLimit with
    | some lowerLimit =>
      { progressBar with
        lowerLimit := lowerLimit
        upperLimit :=
          raisedUpper qt lowerLimit (entry.progressBarUpperLimit.getD 0x3FF0000000000000) }
    | none => progressBar
  { progressBar with
    showPercentage := entry.progressBarShowPercentage.getD progressBar.showPercentage
    foregroundColor :=
      colorOr qt progressBar.foregroundColor (entry.progressBarForegroundColor.getD [])
    backgroundColor :=
      colorOr qt progressBar.backgroundColor (entry.progressBarBackgroundColor.getD []) }

/-- The tile of an entry before the groups of settings are applied. -/
def placed : VariableTile :=
  let tile := tile.setGeometry entry.geometry
  if entry.widgetType ≠ [] then tile.setWidgetType entry.widgetType else tile

variable {qt entry tile}

theorem placed_frame {β : Type} (read : TileSettings → β)
    (h : ∀ s geometry widgetType sources, read
      { s with geometry := geometry, widgetType := widgetType, plotSources := sources } = read s) :
    read (placed entry tile).settings = read tile.settings := by
  have hgeometry : read (tile.setGeometry entry.geometry).settings = read tile.settings :=
    setGeometry_frame read
      (fun s geometry => h s geometry s.widgetType s.plotSources) entry.geometry
  rw [placed]
  split_ifs
  · exact (setWidgetType_frame read h entry.widgetType).trans hgeometry
  · exact hgeometry

theorem applyLayoutEntryToTile_eq : applyLayoutEntryToTile qt entry tile =
    (applySources qt entry (applyTexts entry (applyLinePlot qt entry (applySlider qt entry
      (applyProgressBar qt entry (applyGauge qt entry (placed entry tile))))))).setGeometry
        entry.geometry :=
  rfl

theorem gauge_applyLayoutEntryToTile :
    (applyLayoutEntryToTile qt entry tile).gauge = appliedGauge qt entry tile.gauge := by
  have hgroup (tile : VariableTile) : (applyGauge qt entry tile).settings.gauge =
      appliedGauge qt entry tile.settings.gauge := by
    rw [applyGauge, appliedGauge]
    cases entry.gaugeLowerLimit with
    | none => rfl
    | some lowerLimit => rw [applyIf, settings_setGaugeProperties]
  show (applyLayoutEntryToTile qt entry tile).settings.gauge = _
  rw [applyLayoutEntryToTile_eq, setGeometry_frame TileSettings.gauge fun _ _ => rfl,
    applySources_frame TileSettings.gauge fun _ _ _ => rfl,
    applyTexts_frame TileSettings.gauge fun _ _ _ _ _ _ => rfl,
    applyLinePlot_frame TileSettings.gauge fun _ _ => rfl,
    applySlider_frame TileSettings.gauge fun _ _ => rfl,
    applyProgressBar_frame TileSettings.gauge fun _ _ => rfl, hgroup,
    placed_frame TileSettings.gauge fun _ _ _ _ => rfl]
  rfl

theorem progressBar_applyLayoutEntryToTile :
    (applyLayoutEntryToTile qt entry tile).progressBar =
      appliedProgressBar qt entry tile.progressBar := by
  have hgroup (tile : VariableTile) : (applyProgressBar qt entry tile).settings.progressBar =
      appliedProgressBar qt entry tile.settings.progressBar := by
    have hnone (old : ByteString) : colorOr qt old [] = old := rfl
    rw [applyProgressBar, appliedProgressBar]
    split_ifs with hcolors
    · rw [settings_setProgressBarColors]
      cases entry.progressBarLowerLimit <;> cases entry.progressBarShowPercentage <;>
        simp only [applyIf, settings_setProgressBarShowPercentage,
          settings_setProgressBarProperties, Option.getD_some, Option.getD_none]
    · rw [not_or, Option.not_isSome_iff_eq_none, Option.not_isSome_iff_eq_none] at hcolors
      rw [hcolors.1, hcolors.2]
      cases entry.progressBarLowerLimit <;> cases entry.progressBarShowPercentage <;>
        simp only [applyIf, settings_setProgressBarShowPercentage,
          settings_setProgressBarProperties, Option.getD_some, Option.getD_none, hnone]
  show (applyLayoutEntryToTile qt entry tile).settings.progressBar = _
  rw [applyLayoutEntryToTile_eq, setGeometry_frame TileSettings.progressBar fun _ _ => rfl,
    applySources_frame TileSettings.progressBar fun _ _ _ => rfl,
    applyTexts_frame TileSettings.progressBar fun _ _ _ _ _ _ => rfl,
    applyLinePlot_frame TileSettings.progressBar fun _ _ => rfl,
    applySlider_frame TileSettings.progressBar fun _ _ => rfl, hgroup,
    applyGauge_frame TileSettings.progressBar fun _ _ => rfl,
    placed_frame TileSettings.progressBar fun _ _ _ _ => rfl]
  rfl

theorem textFontPointSize_applyLayoutEntryToTile :
    (applyLayoutEntryToTile qt entry tile).textFontPointSize =
      match entry.textFontPointSize with
      | some size => if 0 < size then size else 0
      | none => tile.textFontPointSize := by
  have hgroup (tile : VariableTile) : (applyTexts entry tile).settings.textFontPointSize =
      match entry.textFontPointSize with
      | some size => if 0 < size then size else 0
      | none => tile.settings.textFontPointSize := by
    have heditable (tile : VariableTile) : (applyIf tile setDoubleNumericEditable
        entry.doubleNumericEditable).settings.textFontPointSize =
        tile.settings.textFontPointSize :=
      applyIf_frame TileSettings.textFontPointSize
        (fun tile editable => by rw [settings_setDoubleNumericEditable]) _
    refine (applyIf_frame TileSettings.textFontPointSize (fun tile options => ?_) _).trans ?_
    · rw [settings_setStringChooserOptions]
    refine (applyIf_frame TileSettings.textFontPointSize (fun tile mode => ?_) _).trans ?_
    · rw [settings_setStringChooserMode]
    refine (applyIf_frame TileSettings.textFontPointSize (fun tile label => ?_) _).trans ?_
    · rw [settings_setShowLabel]
    cases entry.textFontPointSize with
    | none => exact heditable tile
    | some size => rw [applyIf, settings_setTextFontPointSize]
  show (applyLayoutEntryToTile qt entry tile).settings.textFontPointSize = _
  rw [applyLayoutEntryToTile_eq, setGeometry_frame TileSettings.textFontPointSize fun _ _ => rfl,
    applySources_frame TileSettings.textFontPointSize fun _ _ _ => rfl, hgroup,
    applyLinePlot_frame TileSettings.textFontPointSize fun _ _ => rfl,
    applySlider_frame TileSettings.textFontPointSize fun _ _ => rfl,
    applyProgressBar_frame TileSettings.textFontPointSize fun _ _ => rfl,
    applyGauge_frame TileSettings.textFontPointSize fun _ _ => rfl,
    placed_frame TileSettings.textFontPointSize fun _ _ _ _ => rfl]
  rfl

end Settings

end SmartDashboard.Layout
