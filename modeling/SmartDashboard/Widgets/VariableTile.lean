import SmartDashboard.App.Plots
import SmartDashboard.Library.Binary64
import SmartDashboard.Widgets.LinePlotWidget

/-!
# Tiles

A `VariableTile` with the settings that its setters keep, the sources of its plot, and the plot. A
setter normalises what it is given and most of them refresh the display of the value; on a line
plot the refresh of the display is what appends the value to the plot.

Labels, styles and the layout of the widgets in the tile are left out, and with them the sizes that
a tile with a value takes because of its widgets.

## Main definitions

- `VariableTile`: the tile
- `updateWidgetPresentation`, `updateValueDisplay`: the refresh of the display
- `setGaugeProperties` and the like: the setters
- `addPlotSource`, `removePlotSource`, `setPlotSources`, `setSeriesVisibleBySource`: the sources
- `setWidgetType`, `setDoubleValue`: the type of the widget and the values
- `VariableTile.new`, `construct`: a tile before and after the setters of its constructor

## Main results

- `construct_eq`: the settings that a tile starts with are normalised
-/

namespace SmartDashboard.Widgets

open Direct (ByteString DoubleBits)
open App (VariableType text)
open App.RunBrowser (defaultWidgetType)
open Binary64 (LessOrEqual)
open FirstMatch

/-- What is not computed here: the sum of a double and 0.001, and the colours with names. -/
structure QtGui where
  addThousandth : DoubleBits → DoubleBits
  namedColor : ByteString → QColor

/-- For calls that have no use for either. -/
def unusedGui : QtGui where
  addThousandth value := value
  namedColor _ := .invalid

structure QRect where
  x : Int32 := 0
  y : Int32 := 0
  width : Int32
  height : Int32
  deriving DecidableEq, Repr

structure PlotSourceEntry extends PlotLine where
  originalWidgetType : ByteString := []
  deriving DecidableEq, Repr

/-- The limits of a gauge or a slider. -/
structure RangeProperties where
  lowerLimit : DoubleBits := 0xBFF0000000000000
  upperLimit : DoubleBits := 0x3FF0000000000000
  tickInterval : DoubleBits := 0x3FC999999999999A
  showTickMarks : Bool := true
  deriving DecidableEq, Repr

structure ProgressBarProperties where
  lowerLimit : DoubleBits := 0
  upperLimit : DoubleBits := 0x3FF0000000000000
  showPercentage : Bool := false
  foregroundColor : ByteString := text "#2e86de"
  backgroundColor : ByteString := text "#1f1f1f"
  deriving DecidableEq, Repr

structure LinePlotProperties where
  bufferSizeSamples : Int32 := 5000
  autoYAxis : Bool := true
  yLowerLimit : DoubleBits := 0
  yUpperLimit : DoubleBits := 0x3FF0000000000000
  showNumberLines : Bool := false
  showGridLines : Bool := false
  deriving DecidableEq, Repr

/-- The dynamic properties are as the members, but for those of the chooser, which are there only if
they were set. -/
structure VariableTile where
  key : ByteString
  type : VariableType
  widgetType : ByteString
  geometry : QRect
  hasValue : Bool := false
  doubleValue : DoubleBits := 0
  gauge : RangeProperties := {}
  progressBar : ProgressBarProperties := {}
  slider : RangeProperties := {}
  linePlotProperties : LinePlotProperties := {}
  textFontPointSize : Int32 := 0
  doubleNumericEditable : Bool := false
  showLabel : Bool := true
  stringChooserMode : Bool := false
  stringChooserModeProperty : Option Bool := none
  stringChooserOptions : List ByteString := []
  stringChooserOptionsProperty : Option (List ByteString) := none
  plotSources : List PlotSourceEntry := []
  multiLinePlotMode : Bool := false
  linePlot : LinePlotWidget
  deriving DecidableEq, Repr

namespace VariableTile

/-- A tile of the size of `QWidget`, before the setters are called. -/
def new (key : ByteString) (type : VariableType) : VariableTile where
  key := key
  type := type
  widgetType := defaultWidgetType type
  geometry := { width := 100, height := 30 }
  linePlot := { primaryKey := key }

def isLinePlotWidget (tile : VariableTile) : Bool :=
  tile.type = .double ∧ tile.widgetType = App.RunBrowser.linePlot

def isMultiLinePlot (tile : VariableTile) : Bool :=
  tile.isLinePlotWidget ∧ tile.plotSources ≠ []

def isMultiLinePlotDropTarget (tile : VariableTile) : Bool :=
  tile.isLinePlotWidget ∧ tile.multiLinePlotMode

/-! ### The display -/

def showsStringChooser (tile : VariableTile) : Bool :=
  tile.type = .string ∧ tile.widgetType = text "string.chooser"

def updateWidgetPresentation (tile : VariableTile) : VariableTile :=
  if tile.hasValue then { tile with stringChooserMode := tile.showsStringChooser } else tile

/-- The value goes to the widget that shows it. Only a line plot keeps it. -/
def updateValueDisplay (tile : VariableTile) : VariableTile :=
  if tile.hasValue ∧ tile.isLinePlotWidget then
    { tile with linePlot := tile.linePlot.addSample tile.doubleValue }
  else tile

/-! ### Setters -/

section Setters

variable (qt : QtGui)

/-- An upper limit above the lower one. -/
def raisedUpper (lower upper : DoubleBits) : DoubleBits :=
  if LessOrEqual upper lower then qt.addThousandth lower else upper

/-- A tick interval above zero: 0.001, if it is not. -/
def raisedTick (tickInterval : DoubleBits) : DoubleBits :=
  if LessOrEqual tickInterval 0 then 0x3F50624DD2F1A9FC else tickInterval

def normalRange (range : RangeProperties) : RangeProperties :=
  { range with
    upperLimit := raisedUpper qt range.lowerLimit range.upperLimit
    tickInterval := raisedTick range.tickInterval }

def setGaugeProperties (tile : VariableTile) (range : RangeProperties) : VariableTile :=
  { tile with gauge := normalRange qt range }.updateValueDisplay

def setProgressBarProperties (tile : VariableTile) (lowerLimit upperLimit : DoubleBits) :
    VariableTile :=
  { tile with
    progressBar :=
      { tile.progressBar with
        lowerLimit := lowerLimit
        upperLimit := raisedUpper qt lowerLimit upperLimit } }.updateValueDisplay

def setProgressBarShowPercentage (tile : VariableTile) (showPercentage : Bool) : VariableTile :=
  { tile with
    progressBar :=
      { tile.progressBar with showPercentage := showPercentage } }.updateWidgetPresentation

/-- The name of the colour that a name stands for, or else the name there was. -/
def colorOr (old name : ByteString) : ByteString :=
  let color := QColor.ofName qt.namedColor name
  if color.isValid then color.name else old

def setProgressBarColors (tile : VariableTile) (foregroundColor backgroundColor : ByteString) :
    VariableTile :=
  { tile with
    progressBar :=
      { tile.progressBar with
        foregroundColor := colorOr qt tile.progressBar.foregroundColor foregroundColor
        backgroundColor := colorOr qt tile.progressBar.backgroundColor backgroundColor } }

def setSliderProperties (tile : VariableTile) (range : RangeProperties) : VariableTile :=
  { tile with slider := normalRange qt range }.updateValueDisplay

def applyLinePlotSettings (tile : VariableTile) : VariableTile :=
  { tile with
    linePlot := tile.linePlot.setBufferSizeSamples tile.linePlotProperties.bufferSizeSamples }

def setLinePlotProperties (tile : VariableTile) (bufferSizeSamples : Int32) (autoYAxis : Bool)
    (yLowerLimit yUpperLimit : DoubleBits) : VariableTile :=
  { tile with
    linePlotProperties :=
      { tile.linePlotProperties with
        bufferSizeSamples := if bufferSizeSamples < 2 then 2 else bufferSizeSamples
        autoYAxis := autoYAxis
        yLowerLimit := yLowerLimit
        yUpperLimit := raisedUpper qt yLowerLimit yUpperLimit } }.applyLinePlotSettings

def setLinePlotNumberLinesVisible (tile : VariableTile) (visible : Bool) : VariableTile :=
  { tile with
    linePlotProperties :=
      { tile.linePlotProperties with showNumberLines := visible } }.applyLinePlotSettings

def setLinePlotGridLinesVisible (tile : VariableTile) (visible : Bool) : VariableTile :=
  { tile with
    linePlotProperties :=
      { tile.linePlotProperties with showGridLines := visible } }.applyLinePlotSettings

def setDoubleNumericEditable (tile : VariableTile) (editable : Bool) : VariableTile :=
  { tile with doubleNumericEditable := editable }.updateWidgetPresentation.updateValueDisplay

def setTextFontPointSize (tile : VariableTile) (pointSize : Int32) : VariableTile :=
  { tile with
    textFontPointSize :=
      if 0 < pointSize then pointSize else 0 }.updateWidgetPresentation.updateValueDisplay

def setShowLabel (tile : VariableTile) (showLabel : Bool) : VariableTile :=
  { tile with showLabel := showLabel }.updateWidgetPresentation

def setStringChooserMode (tile : VariableTile) (chooserMode : Bool) : VariableTile :=
  if tile.stringChooserMode = chooserMode then tile
  else
    { tile with
      stringChooserMode := chooserMode
      stringChooserModeProperty :=
        some chooserMode }.updateWidgetPresentation.updateValueDisplay

def setStringChooserOptions (tile : VariableTile) (options : List ByteString) : VariableTile :=
  { tile with
    stringChooserOptions := options
    stringChooserOptionsProperty := some options }.updateValueDisplay

def setMultiLinePlotMode (tile : VariableTile) (enabled : Bool) : VariableTile :=
  { tile with multiLinePlotMode := enabled }

end Setters

/-! ### Sources -/

def sourceKeys (tile : VariableTile) : List ByteString := tile.plotSources.map (·.key)

def addPlotSource (tile : VariableTile) (key : ByteString) (color : QColor) : VariableTile :=
  if key = tile.key ∨ key ∈ tile.sourceKeys then tile
  else
    { tile with
      plotSources := tile.plotSources ++ [{ key := key, color := color }]
      linePlot := tile.linePlot.addSeries key color }

def removePlotSource (tile : VariableTile) (key : ByteString) : VariableTile :=
  if key ∈ tile.sourceKeys then
    { tile with
      plotSources := tile.plotSources.eraseP fun source => source.key = key
      linePlot := tile.linePlot.removeSeries key }
  else tile

def addSampleToPlotSource (tile : VariableTile) (key : ByteString) (value : DoubleBits) :
    VariableTile :=
  { tile with linePlot := tile.linePlot.addSampleToSeries key value }

def setPlotSources (tile : VariableTile) (sources : List PlotSourceEntry) : VariableTile :=
  { tile with
    plotSources := sources
    linePlot :=
      sources.foldl
        (fun plot source =>
          (plot.addSeries source.key source.color).setSeriesVisible source.key source.visible)
        tile.linePlot }

def setSeriesVisibleBySource (tile : VariableTile) (key : ByteString) (visible : Bool) :
    VariableTile :=
  { tile with
    linePlot := tile.linePlot.setSeriesVisible key visible
    plotSources :=
      updateFirst (fun source => source.key = key)
        (fun source => { source with visible := visible }) tile.plotSources }

/-! ### Types, values and places -/

def minimumWidth : Int32 := 40
def minimumHeight : Int32 := 30

/-- `QWidget::setGeometry`, which keeps the minimum size. -/
def setGeometry (tile : VariableTile) (geometry : QRect) : VariableTile :=
  { tile with
    geometry :=
      { geometry with
        width := max minimumWidth geometry.width
        height := max minimumHeight geometry.height } }

/-- A multi-line plot that becomes something else gives its sources up, and the window is told. -/
def disbanded (tile : VariableTile) (widgetType : ByteString) : VariableTile :=
  if tile.isMultiLinePlot ∧ widgetType ≠ App.RunBrowser.linePlot then
    { tile with plotSources := [] }
  else tile

def retyped (tile : VariableTile) (widgetType : ByteString) : VariableTile :=
  let tile := { tile with widgetType := widgetType }
  if widgetType = App.RunBrowser.linePlot then
    { tile with
      geometry :=
        if tile.geometry.height < 140 then { tile.geometry with height := 140 } else tile.geometry
      linePlot := tile.linePlot.setPrimarySeriesKey tile.key }
  else tile

def setWidgetType (tile : VariableTile) (widgetType : ByteString) : VariableTile :=
  ((tile.disbanded widgetType).retyped widgetType).updateWidgetPresentation.updateValueDisplay

def setDoubleValue (tile : VariableTile) (value : DoubleBits) : VariableTile :=
  { tile with hasValue := true, doubleValue := value }.updateWidgetPresentation.updateValueDisplay

/-- A value of another type is not what a line plot shows. -/
def setOtherValue (tile : VariableTile) : VariableTile :=
  { tile with hasValue := true }.updateWidgetPresentation.updateValueDisplay

def clearValue (tile : VariableTile) : VariableTile :=
  { tile with hasValue := false }.updateWidgetPresentation.updateValueDisplay

/-- The constructor hands every setter the value of its member. -/
def construct (qt : QtGui) (key : ByteString) (type : VariableType) : VariableTile :=
  let tile := new key type
  let tile := tile.setGaugeProperties qt tile.gauge
  let tile :=
    tile.setProgressBarProperties qt tile.progressBar.lowerLimit tile.progressBar.upperLimit
  let tile := tile.setProgressBarShowPercentage tile.progressBar.showPercentage
  let tile :=
    tile.setProgressBarColors qt tile.progressBar.foregroundColor tile.progressBar.backgroundColor
  let tile := tile.setSliderProperties qt tile.slider
  let tile :=
    tile.setLinePlotProperties qt tile.linePlotProperties.bufferSizeSamples
      tile.linePlotProperties.autoYAxis tile.linePlotProperties.yLowerLimit
      tile.linePlotProperties.yUpperLimit
  let tile := tile.setLinePlotNumberLinesVisible tile.linePlotProperties.showNumberLines
  let tile := tile.setLinePlotGridLinesVisible tile.linePlotProperties.showGridLines
  let tile := tile.setTextFontPointSize tile.textFontPointSize
  let tile := tile.setDoubleNumericEditable tile.doubleNumericEditable
  let tile := tile.setShowLabel tile.showLabel
  tile.updateWidgetPresentation.updateValueDisplay

theorem updateWidgetPresentation_of_noValue {tile : VariableTile} (h : tile.hasValue = false) :
    tile.updateWidgetPresentation = tile := by
  rw [updateWidgetPresentation, h, if_neg Bool.false_ne_true]

theorem updateValueDisplay_of_noValue {tile : VariableTile} (h : tile.hasValue = false) :
    tile.updateValueDisplay = tile := by
  rw [updateValueDisplay, if_neg fun hshown => Bool.false_ne_true (h.symm.trans hshown.1)]

theorem normalRange_default (qt : QtGui) : normalRange qt {} = {} := by
  rw [normalRange, raisedUpper, if_neg (by decide), raisedTick, if_neg (by decide)]

/-- Every setting that a tile starts with is what its setter makes of it. -/
theorem construct_eq (qt : QtGui) (key : ByteString) (type : VariableType) :
    construct qt key type = new key type := by
  have hrange : normalRange qt ({} : RangeProperties) = {} := normalRange_default qt
  have hupper : raisedUpper qt 0 0x3FF0000000000000 = 0x3FF0000000000000 := if_neg (by decide)
  have hforeground (old : ByteString) : colorOr qt old (text "#2e86de") = text "#2e86de" := rfl
  have hbackground (old : ByteString) : colorOr qt old (text "#1f1f1f") = text "#1f1f1f" := rfl
  simp [construct, new, updateWidgetPresentation_of_noValue, updateValueDisplay_of_noValue, hrange,
    hupper, hforeground, hbackground, setGaugeProperties, setProgressBarProperties,
    setProgressBarShowPercentage, setProgressBarColors, setSliderProperties, setLinePlotProperties,
    setLinePlotNumberLinesVisible, setLinePlotGridLinesVisible, applyLinePlotSettings,
    LinePlotWidget.setBufferSizeSamples, setTextFontPointSize, setDoubleNumericEditable,
    setShowLabel]

end VariableTile

end SmartDashboard.Widgets
