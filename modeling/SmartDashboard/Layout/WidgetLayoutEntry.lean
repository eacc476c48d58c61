import SmartDashboard.Widgets.VariableTile

/-!
# Layout entries

What a layout file says of a tile, and what `ApplyLayoutEntryToTile` makes of it. A group of
settings is applied only if one of them is there, and the others of the group then have defaults.

## Main definitions

- `WidgetLayoutEntry`: the settings that may be there
- `applyLayoutEntryToTile`: the settings applied to a tile
- `restoredTile`: the tile that the window creates for an entry
-/

namespace SmartDashboard.Layout

open Direct (ByteString DoubleBits)
open App (VariableType text)
open App.RunBrowser (toVariableTypeFromWidgetType)
open Widgets

structure LinePlotSourceEntry where
  key : ByteString
  color : ByteString
  originalWidgetType : ByteString := []
  visible : Bool := true
  deriving DecidableEq, Repr

structure WidgetLayoutEntry where
  variableKey : ByteString
  widgetType : ByteString
  geometry : QRect
  gaugeLowerLimit : Option DoubleBits := none
  gaugeUpperLimit : Option DoubleBits := none
  gaugeTickInterval : Option DoubleBits := none
  gaugeShowTickMarks : Option Bool := none
  progressBarLowerLimit : Option DoubleBits := none
  progressBarUpperLimit : Option DoubleBits := none
  progressBarShowPercentage : Option Bool := none
  progressBarForegroundColor : Option ByteString := none
  progressBarBackgroundColor : Option ByteString := none
  sliderLowerLimit : Option DoubleBits := none
  sliderUpperLimit : Option DoubleBits := none
  sliderTickInterval : Option DoubleBits := none
  sliderShowTickMarks : Option Bool := none
  linePlotBufferSizeSamples : Option Int32 := none
  linePlotAutoYAxis : Option Bool := none
  linePlotShowNumberLines : Option Bool := none
  linePlotShowGridLines : Option Bool := none
  linePlotYLowerLimit : Option DoubleBits := none
  linePlotYUpperLimit : Option DoubleBits := none
  textFontPointSize : Option Int32 := none
  doubleNumericEditable : Option Bool := none
  showLabel : Option Bool := none
  stringChooserMode : Option Bool := none
  stringChooserOptions : Option (List ByteString) := none
  linePlotSources : List LinePlotSourceEntry := []
  multiLinePlotMode : Bool := false
  deriving DecidableEq, Repr

section Apply

variable (qt : QtGui) (entry : WidgetLayoutEntry) (tile : VariableTile)

/-- A setting that may not be there. -/
def applyIf {α : Type} (set : VariableTile → α → VariableTile) (value : Option α) : VariableTile :=
  match value with
  | some value => set tile value
  | none => tile

def applyGauge : VariableTile :=
  applyIf tile
    (fun tile lowerLimit => tile.setGaugeProperties qt
      { lowerLimit := lowerLimit
        upperLimit := entry.gaugeUpperLimit.getD 0x3FF0000000000000
        tickInterval := entry.gaugeTickInterval.getD 0x3FC999999999999A
        showTickMarks := entry.gaugeShowTickMarks.getD true })
    entry.gaugeLowerLimit

def applyProgressBar : VariableTile :=
  let tile :=
    applyIf tile
      (fun tile lowerLimit => tile.setProgressBarProperties qt lowerLimit
        (entry.progressBarUpperLimit.getD 0x3FF0000000000000))
      entry.progressBarLowerLimit
  let tile := applyIf tile VariableTile.setProgressBarShowPercentage entry.progressBarShowPercentage
  if entry.progressBarForegroundColor.isSome ∨ entry.progressBarBackgroundColor.isSome then
    tile.setProgressBarColors qt (entry.progressBarForegroundColor.getD [])
      (entry.progressBarBackgroundColor.getD [])
  else tile

def applySlider : VariableTile :=
  applyIf tile
    (fun tile lowerLimit => tile.setSliderProperties qt
      { lowerLimit := lowerLimit
        upperLimit := entry.sliderUpperLimit.getD 0x3FF0000000000000
        tickInterval := entry.sliderTickInterval.getD 0x3FC999999999999A
        showTickMarks := entry.sliderShowTickMarks.getD true })
    entry.sliderLowerLimit

def applyLinePlot : VariableTile :=
  let tile :=
    applyIf tile
      (fun tile bufferSizeSamples => tile.setLinePlotProperties qt bufferSizeSamples
        (entry.linePlotAutoYAxis.getD true) (entry.linePlotYLowerLimit.getD 0)
        (entry.linePlotYUpperLimit.getD 0x3FF0000000000000))
      entry.linePlotBufferSizeSamples
  let tile := applyIf tile VariableTile.setLinePlotNumberLinesVisible entry.linePlotShowNumberLines
  applyIf tile VariableTile.setLinePlotGridLinesVisible entry.linePlotShowGridLines

def applyTexts : VariableTile :=
  let tile := applyIf tile VariableTile.setDoubleNumericEditable entry.doubleNumericEditable
  let tile := applyIf tile VariableTile.setTextFontPointSize entry.textFontPointSize
  let tile := applyIf tile VariableTile.setShowLabel entry.showLabel
  let tile := applyIf tile VariableTile.setStringChooserMode entry.stringChooserMode
  applyIf tile VariableTile.setStringChooserOptions entry.stringChooserOptions

/-- A source whose colour cannot be read is red. -/
def plotSource (source : LinePlotSourceEntry) : PlotSourceEntry :=
  let color := QColor.ofName qt.namedColor source.color
  { key := source.key
    color := if color.isValid then color else .rgba 0xE7E7 0x4C4C 0x3C3C 0xFFFF
    originalWidgetType := source.originalWidgetType
    visible := source.visible }

def applySources : VariableTile :=
  let tile :=
    if entry.linePlotSources ≠ [] then
      tile.setPlotSources (entry.linePlotSources.map (plotSource qt))
    else tile
  if entry.multiLinePlotMode then tile.setMultiLinePlotMode true else tile

/-- The geometry is set once more at the end, since setters change it. -/
def applyLayoutEntryToTile : VariableTile :=
  let tile := tile.setGeometry entry.geometry
  let tile := if entry.widgetType ≠ [] then tile.setWidgetType entry.widgetType else tile
  let tile := applyGauge qt entry tile
  let tile := applyProgressBar qt entry tile
  let tile := applySlider qt entry tile
  let tile := applyLinePlot qt entry tile
  let tile := applyTexts entry tile
  let tile := applySources qt entry tile
  tile.setGeometry entry.geometry

/-- The tile that is created for an entry of a key that has none. -/
def restoredTile : VariableTile :=
  applyLayoutEntryToTile qt entry
    (VariableTile.construct qt entry.variableKey (toVariableTypeFromWidgetType entry.widgetType))

end Apply

end SmartDashboard.Layout
