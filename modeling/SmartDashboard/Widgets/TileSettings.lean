import SmartDashboard.Widgets.LinePlotSamples
import SmartDashboard.Widgets.PlotSources

/-!
# The settings of a tile

The part of a tile that a layout file is about. Setters normalise what they are given, and what they
have normalised they leave as it is, so that the settings of a tile stay the same when they are set
once more.

The mode of a chooser follows the type of the widget as soon as there is a value, and is none of the
settings here.

## Main definitions

- `TileSettings`, `VariableTile.settings`: the settings
- `TileSetter`: everything that is called on a tile
- `TileSettings.Normal`: the settings that setters leave as they are

## Main results

- `normal_construct`, `Normal.runSetters`: a tile has no other settings
-/

namespace SmartDashboard.Widgets

open Direct (ByteString DoubleBits)
open App (VariableType text)
open FirstMatch

structure TileSettings where
  key : ByteString
  type : VariableType
  widgetType : ByteString
  geometry : QRect
  gauge : RangeProperties
  progressBar : ProgressBarProperties
  slider : RangeProperties
  linePlotProperties : LinePlotProperties
  textFontPointSize : Int32
  doubleNumericEditable : Bool
  showLabel : Bool
  stringChooserOptions : List ByteString
  stringChooserOptionsProperty : Option (List ByteString)
  plotSources : List PlotSourceEntry
  multiLinePlotMode : Bool
  deriving DecidableEq, Repr

def VariableTile.settings (tile : VariableTile) : TileSettings where
  key := tile.key
  type := tile.type
  widgetType := tile.widgetType
  geometry := tile.geometry
  gauge := tile.gauge
  progressBar := tile.progressBar
  slider := tile.slider
  linePlotProperties := tile.linePlotProperties
  textFontPointSize := tile.textFontPointSize
  doubleNumericEditable := tile.doubleNumericEditable
  showLabel := tile.showLabel
  stringChooserOptions := tile.stringChooserOptions
  stringChooserOptionsProperty := tile.stringChooserOptionsProperty
  plotSources := tile.plotSources
  multiLinePlotMode := tile.multiLinePlotMode

/-- A setter, a value or a new place. -/
inductive TileSetter
  | tileCall (call : TileCall)
  | plotCall (call : PlotCall)
  | setGeometry (geometry : QRect)
  | clearValue
  deriving DecidableEq, Repr

def TileSetter.apply (qt : QtGui) (tile : VariableTile) : TileSetter → VariableTile
  | tileCall call => call.apply qt tile
  | plotCall call => call.apply tile
  | setGeometry geometry => tile.setGeometry geometry
  | clearValue => tile.clearValue

def VariableTile.runSetters (qt : QtGui) (tile : VariableTile) (setters : List TileSetter) :
    VariableTile :=
  setters.foldl (TileSetter.apply qt) tile

/-- The name of some colour. -/
def IsColorName (name : ByteString) : Prop := ∃ color : QColor, color.name = name

/-- Limits in their order, names that are names of colours, numbers in their range, and the minimum
size. -/
structure TileSettings.Normal (qt : QtGui) (settings : TileSettings) : Prop where
  gauge : VariableTile.normalRange qt settings.gauge = settings.gauge
  progressBar :
    VariableTile.raisedUpper qt settings.progressBar.lowerLimit settings.progressBar.upperLimit =
      settings.progressBar.upperLimit
  foregroundColor : IsColorName settings.progressBar.foregroundColor
  backgroundColor : IsColorName settings.progressBar.backgroundColor
  slider : VariableTile.normalRange qt settings.slider = settings.slider
  bufferSizeSamples : ¬settings.linePlotProperties.bufferSizeSamples < 2
  yUpperLimit :
    VariableTile.raisedUpper qt settings.linePlotProperties.yLowerLimit
      settings.linePlotProperties.yUpperLimit = settings.linePlotProperties.yUpperLimit
  textFontPointSize : 0 ≤ settings.textFontPointSize
  stringChooserOptions :
    settings.stringChooserOptionsProperty.getD [] = settings.stringChooserOptions
  width : VariableTile.minimumWidth ≤ settings.geometry.width
  height : VariableTile.minimumHeight ≤ settings.geometry.height

namespace VariableTile

variable {tile : VariableTile} {qt : QtGui}

/-! ### What the setters leave as it is -/

theorem raisedUpper_raisedUpper (lower upper : DoubleBits) :
    raisedUpper qt lower (raisedUpper qt lower upper) = raisedUpper qt lower upper := by
  rw [raisedUpper, raisedUpper]
  split_ifs <;> rfl

theorem raisedTick_raisedTick (tickInterval : DoubleBits) :
    raisedTick (raisedTick tickInterval) = raisedTick tickInterval := by
  rw [raisedTick, raisedTick]
  split_ifs <;> rfl

theorem normalRange_normalRange (range : RangeProperties) :
    normalRange qt (normalRange qt range) = normalRange qt range := by
  simp only [normalRange, raisedUpper_raisedUpper, raisedTick_raisedTick]

theorem channelDigits_doubled (channel : UInt16) :
    QColor.channelDigits (.ofNat (channel.toNat / 256 * 0x101)) = QColor.channelDigits channel := by
  have hlt : channel.toNat < 65536 := channel.toNat_lt
  have hsmall : channel.toNat / 256 * 0x101 % 2 ^ 16 = channel.toNat / 256 * 0x101 :=
    Nat.mod_eq_of_lt (by omega)
  have hhigh : channel.toNat / 256 * 0x101 / 4096 = channel.toNat / 4096 := by omega
  have hhalf : channel.toNat / 256 * 0x101 / 256 = channel.toNat / 256 := by omega
  rw [QColor.channelDigits, QColor.channelDigits, UInt16.toNat_ofNat', hsmall, hhigh, hhalf]

/-- The colour of a name of a colour has that name. -/
theorem colorOr_of_isColorName {name : ByteString} (h : IsColorName name) (old : ByteString) :
    colorOr qt old name = name := by
  obtain ⟨color, rfl⟩ := h
  rw [colorOr, QColor.ofName_name]
  cases color with
  | invalid => rfl
  | rgba red green blue alpha =>
    refine (if_pos rfl).trans ?_
    rw [QColor.name, QColor.name, channelDigits_doubled, channelDigits_doubled,
      channelDigits_doubled]

theorem isColorName_colorOr {old : ByteString} (h : IsColorName old) (name : ByteString) :
    IsColorName (colorOr qt old name) := by
  rw [colorOr]
  split_ifs
  · exact ⟨_, rfl⟩
  · exact h

/-! ### The settings after a call -/

@[simp] theorem settings_updateWidgetPresentation :
    tile.updateWidgetPresentation.settings = tile.settings := by
  unfold updateWidgetPresentation
  split_ifs <;> rfl

@[simp] theorem settings_updateValueDisplay :
    tile.updateValueDisplay.settings = tile.settings := by
  unfold updateValueDisplay
  split_ifs <;> rfl

section Setters

variable (tile : VariableTile)

@[simp] theorem settings_setGaugeProperties (range : RangeProperties) :
    (tile.setGaugeProperties qt range).settings =
      { tile.settings with gauge := normalRange qt range } :=
  settings_updateValueDisplay

@[simp] theorem settings_setProgressBarProperties (lowerLimit upperLimit : DoubleBits) :
    (tile.setProgressBarProperties qt lowerLimit upperLimit).settings =
      { tile.settings with
        progressBar :=
          { tile.settings.progressBar with
            lowerLimit := lowerLimit
            upperLimit := raisedUpper qt lowerLimit upperLimit } } :=
  settings_updateValueDisplay

@[simp] theorem settings_setProgressBarShowPercentage (showPercentage : Bool) :
    (tile.setProgressBarShowPercentage showPercentage).settings =
      { tile.settings with
        progressBar := { tile.settings.progressBar with showPercentage := showPercentage } } :=
  settings_updateWidgetPresentation

theorem settings_setProgressBarColors (foregroundColor backgroundColor : ByteString) :
    (tile.setProgressBarColors qt foregroundColor backgroundColor).settings =
      { tile.settings with
        progressBar :=
          { tile.settings.progressBar with
            foregroundColor :=
              colorOr qt tile.settings.progressBar.foregroundColor foregroundColor
            backgroundColor :=
              colorOr qt tile.settings.progressBar.backgroundColor backgroundColor } } :=
  rfl

@[simp] theorem settings_setSliderProperties (range : RangeProperties) :
    (tile.setSliderProperties qt range).settings =
      { tile.settings with slider := normalRange qt range } :=
  settings_updateValueDisplay

@[simp] theorem settings_setDoubleNumericEditable (editable : Bool) :
    (tile.setDoubleNumericEditable editable).settings =
      { tile.settings with doubleNumericEditable := editable } :=
  settings_updateValueDisplay.trans settings_updateWidgetPresentation

@[simp] theorem settings_setTextFontPointSize (pointSize : Int32) :
    (tile.setTextFontPointSize pointSize).settings =
      { tile.settings with textFontPointSize := if 0 < pointSize then pointSize else 0 } :=
  settings_updateValueDisplay.trans settings_updateWidgetPresentation

@[simp] theorem settings_setShowLabel (showLabel : Bool) :
    (tile.setShowLabel showLabel).settings = { tile.settings with showLabel := showLabel } :=
  settings_updateWidgetPresentation

@[simp] theorem settings_setStringChooserMode (chooserMode : Bool) :
    (tile.setStringChooserMode chooserMode).settings = tile.settings := by
  unfold setStringChooserMode
  split_ifs
  · rfl
  · rw [settings_updateValueDisplay, settings_updateWidgetPresentation]
    rfl

@[simp] theorem settings_setStringChooserOptions (options : List ByteString) :
    (tile.setStringChooserOptions options).settings =
      { tile.settings with
        stringChooserOptions := options
        stringChooserOptionsProperty := some options } :=
  settings_updateValueDisplay

@[simp] theorem settings_setDoubleValue (value : DoubleBits) :
    (tile.setDoubleValue value).settings = tile.settings :=
  settings_updateValueDisplay.trans settings_updateWidgetPresentation

@[simp] theorem settings_setOtherValue : tile.setOtherValue.settings = tile.settings :=
  settings_updateValueDisplay.trans settings_updateWidgetPresentation

@[simp] theorem settings_clearValue : tile.clearValue.settings = tile.settings :=
  settings_updateValueDisplay.trans settings_updateWidgetPresentation

theorem settings_setWidgetType (widgetType : ByteString) :
    (tile.setWidgetType widgetType).settings =
      ((tile.disbanded widgetType).retyped widgetType).settings :=
  settings_updateValueDisplay.trans settings_updateWidgetPresentation

end Setters

end VariableTile

namespace TileSettings

open VariableTile

variable {tile : VariableTile} {qt : QtGui}

/-- A tile starts with settings that stay. -/
theorem normal_construct (qt : QtGui) (key : ByteString) (type : VariableType) :
    (construct qt key type).settings.Normal qt := by
  rw [construct_eq]
  exact
    { gauge := normalRange_default qt
      progressBar := if_neg (show ¬Binary64.LessOrEqual 0x3FF0000000000000 0 by decide)
      foregroundColor := ⟨.rgba 0x2E2E 0x8686 0xDEDE 0xFFFF, rfl⟩
      backgroundColor := ⟨.rgba 0x1F1F 0x1F1F 0x1F1F 0xFFFF, rfl⟩
      slider := normalRange_default qt
      bufferSizeSamples := show ¬(5000 : Int32) < 2 by decide
      yUpperLimit := if_neg (show ¬Binary64.LessOrEqual 0x3FF0000000000000 0 by decide)
      textFontPointSize := Int32.le_refl 0
      stringChooserOptions := rfl
      width := show minimumWidth ≤ 100 by decide
      height := show minimumHeight ≤ 30 by decide }

theorem Normal.tileCall (h : tile.settings.Normal qt) (call : TileCall) :
    (call.apply qt tile).settings.Normal qt := by
  cases call with
  | setDoubleValue value =>
    rw [TileCall.apply, settings_setDoubleValue]
    exact h
  | setGaugeProperties range =>
    rw [TileCall.apply, settings_setGaugeProperties]
    exact { h with gauge := normalRange_normalRange range }
  | setProgressBarProperties lowerLimit upperLimit =>
    rw [TileCall.apply, settings_setProgressBarProperties]
    exact { h with progressBar := raisedUpper_raisedUpper lowerLimit upperLimit }
  | setProgressBarShowPercentage showPercentage =>
    rw [TileCall.apply, settings_setProgressBarShowPercentage]
    exact { h with }
  | setProgressBarColors foregroundColor backgroundColor =>
    exact
      { h with
        foregroundColor := isColorName_colorOr h.foregroundColor foregroundColor
        backgroundColor := isColorName_colorOr h.backgroundColor backgroundColor }
  | setSliderProperties range =>
    rw [TileCall.apply, settings_setSliderProperties]
    exact { h with slider := normalRange_normalRange range }
  | setLinePlotProperties bufferSizeSamples autoYAxis yLowerLimit yUpperLimit =>
    have hsize : ¬(if bufferSizeSamples < 2 then 2 else bufferSizeSamples) < 2 := by
      split_ifs with hsmall
      · decide
      · exact hsmall
    exact
      { h with
        bufferSizeSamples := hsize
        yUpperLimit := raisedUpper_raisedUpper yLowerLimit yUpperLimit }
  | setTextFontPointSize pointSize =>
    have hsize : 0 ≤ if 0 < pointSize then pointSize else 0 := by
      split_ifs with hpositive
      · exact Int32.le_of_lt hpositive
      · exact Int32.le_refl 0
    rw [TileCall.apply, settings_setTextFontPointSize]
    exact { h with textFontPointSize := hsize }
  | setDoubleNumericEditable editable =>
    rw [TileCall.apply, settings_setDoubleNumericEditable]
    exact { h with }
  | setShowLabel showLabel =>
    rw [TileCall.apply, settings_setShowLabel]
    exact { h with }
  | setStringChooserMode chooserMode =>
    rw [TileCall.apply, settings_setStringChooserMode]
    exact h
  | setStringChooserOptions options =>
    rw [TileCall.apply, settings_setStringChooserOptions]
    exact { h with stringChooserOptions := rfl }
  | setLinePlotNumberLinesVisible | setLinePlotGridLinesVisible | setMultiLinePlotMode =>
    exact { h with }

theorem Normal.setGeometry (h : tile.settings.Normal qt) (geometry : QRect) :
    (tile.setGeometry geometry).settings.Normal qt := by
  have hmax (a b : Int32) : a ≤ max a b := by
    show a ≤ if a ≤ b then b else a
    split_ifs with hle
    · exact hle
    · exact Int32.le_refl a
  exact { h with width := hmax _ _, height := hmax _ _ }

theorem Normal.setWidgetType (h : tile.settings.Normal qt) (widgetType : ByteString) :
    (tile.setWidgetType widgetType).settings.Normal qt := by
  rw [settings_setWidgetType]
  have hdisbanded : (tile.disbanded widgetType).settings.Normal qt := by
    unfold disbanded
    split_ifs
    · exact { h with }
    · exact h
  unfold retyped
  split_ifs
  · dsimp only
    split_ifs
    · exact { hdisbanded with height := show minimumHeight ≤ 140 by decide }
    · exact { hdisbanded with }
  · exact { hdisbanded with }

theorem Normal.plotCall (h : tile.settings.Normal qt) (call : PlotCall) :
    (call.apply tile).settings.Normal qt := by
  cases call with
  | addPlotSource key color =>
    rw [PlotCall.apply, addPlotSource]
    split_ifs
    · exact h
    · exact { h with }
  | removePlotSource key =>
    rw [PlotCall.apply, removePlotSource]
    split_ifs
    · exact { h with }
    · exact h
  | setWidgetType widgetType => exact h.setWidgetType widgetType
  | setDoubleValue value => exact h.tileCall (.setDoubleValue value)
  | setOtherValue =>
    rw [PlotCall.apply, settings_setOtherValue]
    exact h
  | setPlotSources | setSeriesVisibleBySource | addSampleToPlotSource => exact { h with }

theorem Normal.setter (h : tile.settings.Normal qt) (setter : TileSetter) :
    (setter.apply qt tile).settings.Normal qt := by
  cases setter with
  | tileCall call => exact h.tileCall call
  | plotCall call => exact h.plotCall call
  | setGeometry geometry => exact h.setGeometry geometry
  | clearValue =>
    rw [TileSetter.apply, settings_clearValue]
    exact h

theorem Normal.runSetters (h : tile.settings.Normal qt) (setters : List TileSetter) :
    (tile.runSetters qt setters).settings.Normal qt := by
  induction setters generalizing tile with
  | nil => exact h
  | cons setter setters ih => exact ih (h.setter setter)

end TileSettings

end SmartDashboard.Widgets
