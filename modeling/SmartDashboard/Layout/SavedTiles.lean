import SmartDashboard.Layout.LayoutSerializer
import SmartDashboard.Widgets.TileSettings

/-!
# Tiles that are saved and loaded

The tiles of a canvas are saved, the entries of the file are loaded, and a tile is created for each
of them. Only the sources of plots can get lost: those of a tile that is no line plot, those without
key, and the part of their colours for which a name of a colour has no room.

## Main definitions

- `OnCanvas`: a tile that was created and had its settings set
- `reload`: the tiles of a file that was saved
- `KeepsSources`: the sources that a file has room for

## Main results

- `settings_restoredTile`: the settings of the tile that is created for an entry
- `restoresTiles_iff`: the settings come back exactly if the sources are kept
-/

namespace SmartDashboard.Layout

open Direct (ByteString DoubleBits)
open App (VariableType text)
open App.RunBrowser (toVariableTypeFromWidgetType)
open Transport
open Widgets
open Widgets.VariableTile

/-! ### One tile -/

section Restore

variable {qt : QtGui} {saved tile : VariableTile}

theorem settings_applyGauge : (applyGauge qt (layoutEntry saved) tile).settings =
    { tile.settings with gauge := normalRange qt saved.gauge } :=
  settings_setGaugeProperties tile saved.gauge

theorem settings_applySlider : (applySlider qt (layoutEntry saved) tile).settings =
    { tile.settings with slider := normalRange qt saved.slider } :=
  settings_setSliderProperties tile saved.slider

theorem settings_applyProgressBar (h : saved.settings.Normal qt) :
    (applyProgressBar qt (layoutEntry saved) tile).settings =
      { tile.settings with progressBar := saved.progressBar } := by
  have hupper : raisedUpper qt saved.progressBar.lowerLimit saved.progressBar.upperLimit =
      saved.progressBar.upperLimit := h.progressBar
  have hforeground (old : ByteString) : colorOr qt old saved.progressBar.foregroundColor =
      saved.progressBar.foregroundColor := colorOr_of_isColorName h.foregroundColor old
  have hbackground (old : ByteString) : colorOr qt old saved.progressBar.backgroundColor =
      saved.progressBar.backgroundColor := colorOr_of_isColorName h.backgroundColor old
  have hcolors : (layoutEntry saved).progressBarForegroundColor.isSome = true ∨
      (layoutEntry saved).progressBarBackgroundColor.isSome = true := .inl rfl
  rw [applyProgressBar, if_pos hcolors]
  dsimp only [applyIf, layoutEntry, Option.getD_some]
  rw [settings_setProgressBarColors, settings_setProgressBarShowPercentage,
    settings_setProgressBarProperties, hupper, hforeground, hbackground]

theorem settings_applyLinePlot (h : saved.settings.Normal qt) :
    (applyLinePlot qt (layoutEntry saved) tile).settings =
      { tile.settings with linePlotProperties := saved.linePlotProperties } := by
  have hsize : (if saved.linePlotProperties.bufferSizeSamples < 2 then 2
      else saved.linePlotProperties.bufferSizeSamples) =
      saved.linePlotProperties.bufferSizeSamples := if_neg h.bufferSizeSamples
  have hupper : raisedUpper qt saved.linePlotProperties.yLowerLimit
      saved.linePlotProperties.yUpperLimit = saved.linePlotProperties.yUpperLimit := h.yUpperLimit
  simp only [applyLinePlot, applyIf, layoutEntry, Option.getD_some, setLinePlotProperties,
    setLinePlotNumberLinesVisible, setLinePlotGridLinesVisible, applyLinePlotSettings, settings,
    hsize, hupper]

theorem settings_applyTexts (h : saved.settings.Normal qt)
    (hsize : tile.settings.textFontPointSize = 0)
    (hoptions : tile.settings.stringChooserOptions = [])
    (hproperty : tile.settings.stringChooserOptionsProperty = none) :
    (applyTexts (layoutEntry saved) tile).settings =
      { tile.settings with
        textFontPointSize := saved.textFontPointSize
        doubleNumericEditable := saved.doubleNumericEditable
        showLabel := saved.showLabel
        stringChooserOptions := saved.stringChooserOptions
        stringChooserOptionsProperty := saved.stringChooserOptionsProperty } := by
  -- the size and the options are set only if they are there, and otherwise are as in a new tile
  have hfont (tile : VariableTile) (hsize : tile.settings.textFontPointSize = 0) :
      (applyIf tile setTextFontPointSize (if 0 < saved.textFontPointSize then
        some saved.textFontPointSize else none)).settings =
      { tile.settings with textFontPointSize := saved.textFontPointSize } := by
    split_ifs with hpositive
    · rw [applyIf, settings_setTextFontPointSize, if_pos hpositive]
    · have hzero : saved.textFontPointSize = 0 :=
        Int32.le_antisymm (Int32.not_lt.mp hpositive) h.textFontPointSize
      rw [applyIf, hzero, ← hsize]
  have hlist (tile : VariableTile) (hoptions : tile.settings.stringChooserOptions = [])
      (hproperty : tile.settings.stringChooserOptionsProperty = none) :
      (applyIf tile setStringChooserOptions saved.stringChooserOptionsProperty).settings =
      { tile.settings with
        stringChooserOptions := saved.stringChooserOptions
        stringChooserOptionsProperty := saved.stringChooserOptionsProperty } := by
    have hlisted : saved.stringChooserOptionsProperty.getD [] = saved.stringChooserOptions :=
      h.stringChooserOptions
    cases hsaved : saved.stringChooserOptionsProperty with
    | none =>
      rw [hsaved, Option.getD_none] at hlisted
      rw [applyIf, ← hlisted, ← hoptions, ← hproperty]
    | some options =>
      rw [hsaved, Option.getD_some] at hlisted
      rw [applyIf, settings_setStringChooserOptions, hlisted]
  have hmode (tile : VariableTile) (mode : Option Bool) :
      (applyIf tile setStringChooserMode mode).settings = tile.settings := by
    cases mode with
    | none => rfl
    | some mode => exact settings_setStringChooserMode tile mode
  -- what is set before the options
  have htexts : (applyIf (applyIf (applyIf (applyIf tile setDoubleNumericEditable
      (some saved.doubleNumericEditable)) setTextFontPointSize
        (if 0 < saved.textFontPointSize then some saved.textFontPointSize else none))
      setShowLabel (some saved.showLabel)) setStringChooserMode
        saved.stringChooserModeProperty).settings =
      { tile.settings with
        textFontPointSize := saved.textFontPointSize
        doubleNumericEditable := saved.doubleNumericEditable
        showLabel := saved.showLabel } := by
    rw [hmode, applyIf, settings_setShowLabel, hfont]
    · rw [applyIf, settings_setDoubleNumericEditable]
    · rw [applyIf, settings_setDoubleNumericEditable]
      exact hsize
  have hlisted := hlist _ ((congrArg TileSettings.stringChooserOptions htexts).trans hoptions)
    ((congrArg TileSettings.stringChooserOptionsProperty htexts).trans hproperty)
  rw [htexts] at hlisted
  exact hlisted

/-- The sources of a plot, as a file keeps them. -/
def keptSources (qt : QtGui) (saved : VariableTile) : List PlotSourceEntry :=
  if saved.isMultiLinePlot then
    (saved.plotSources.filter fun source => source.key ≠ []).map fun source =>
      { source with color := QColor.ofName qt.namedColor source.color.name }
  else []

theorem settings_applySources (hsources : tile.settings.plotSources = [])
    (hmode : tile.settings.multiLinePlotMode = false) :
    (applySources qt (layoutEntry saved) tile).settings =
      { tile.settings with
        plotSources := keptSources qt saved
        multiLinePlotMode := saved.isMultiLinePlotDropTarget } := by
  have hkept : (layoutSources saved).map (plotSource qt) = keptSources qt saved := by
    rw [layoutSources, keptSources]
    split_ifs
    · rw [List.map_map]
      refine List.map_congr_left fun source _ => ?_
      have hvalid : (QColor.ofName qt.namedColor source.color.name).isValid = true := by
        rw [QColor.ofName_name]
        cases source.color <;> rfl
      rw [Function.comp_apply, plotSource, if_pos hvalid]
    · rfl
  have hrestored : ((if (layoutEntry saved).linePlotSources ≠ [] then
      tile.setPlotSources ((layoutEntry saved).linePlotSources.map (plotSource qt))
      else tile)).settings = { tile.settings with plotSources := keptSources qt saved } := by
    split_ifs with hnone
    · rw [← hkept]
      rfl
    · have hnil : keptSources qt saved = [] := by
        rw [← hkept]
        exact congrArg (List.map (plotSource qt)) (not_not.mp hnone)
      rw [hnil, ← hsources]
  have hdrops (tile : VariableTile) (hmode : tile.settings.multiLinePlotMode = false) :
      (if (layoutEntry saved).multiLinePlotMode then tile.setMultiLinePlotMode true
        else tile).settings =
      { tile.settings with multiLinePlotMode := saved.isMultiLinePlotDropTarget } := by
    split_ifs with hdrop
    · rw [show saved.isMultiLinePlotDropTarget = true from hdrop]
      rfl
    · rw [show saved.isMultiLinePlotDropTarget = false from Bool.eq_false_iff.mpr hdrop, ← hmode]
  rw [applySources, hdrops, hrestored]
  rw [hrestored]
  exact hmode

/-- What is created for the entry of a tile has its settings, but for the sources. -/
theorem settings_restoredTile (h : saved.settings.Normal qt) (hwidget : saved.widgetType ≠ [])
    (htype : toVariableTypeFromWidgetType saved.widgetType = saved.type) :
    (restoredTile qt (layoutEntry saved)).settings =
      { saved.settings with
        plotSources := keptSources qt saved
        multiLinePlotMode := saved.isMultiLinePlotDropTarget } := by
  have hmax {a b : Int32} (hle : a ≤ b) : max a b = b := if_pos hle
  have hplaced (tile : VariableTile) : (tile.setGeometry saved.geometry).settings =
      { tile.settings with geometry := saved.geometry } := by
    simp only [setGeometry, settings, hmax (show minimumWidth ≤ saved.geometry.width from h.width),
      hmax (show minimumHeight ≤ saved.geometry.height from h.height)]
  set fresh := (new saved.key saved.type).setGeometry saved.geometry with hfresh
  obtain ⟨geometry, htyped⟩ : ∃ geometry, (fresh.setWidgetType saved.widgetType).settings =
      { fresh.settings with widgetType := saved.widgetType, geometry := geometry } := by
    have hsingle : fresh.isMultiLinePlot = false := decide_eq_false fun hmulti => hmulti.2 rfl
    rw [settings_setWidgetType, disbanded, hsingle, if_neg (by simp), retyped]
    split_ifs <;> exact ⟨_, rfl⟩
  have hplain := @settings_applyLinePlot qt saved (applySlider qt (layoutEntry saved)
    (applyProgressBar qt (layoutEntry saved) (applyGauge qt (layoutEntry saved)
      (fresh.setWidgetType saved.widgetType)))) h
  rw [settings_applySlider, settings_applyProgressBar h, settings_applyGauge, htyped] at hplain
  have htexts := settings_applyTexts h (congrArg TileSettings.textFontPointSize hplain)
    (congrArg TileSettings.stringChooserOptions hplain)
    (congrArg TileSettings.stringChooserOptionsProperty hplain)
  rw [hplain] at htexts
  have hsources := @settings_applySources qt saved _
    (congrArg TileSettings.plotSources htexts) (congrArg TileSettings.multiLinePlotMode htexts)
  rw [htexts] at hsources
  have hentry : toVariableTypeFromWidgetType (layoutEntry saved).widgetType = saved.type := htype
  have happlied : restoredTile qt (layoutEntry saved) =
      (applySources qt (layoutEntry saved) (applyTexts (layoutEntry saved)
        (applyLinePlot qt (layoutEntry saved) (applySlider qt (layoutEntry saved)
          (applyProgressBar qt (layoutEntry saved) (applyGauge qt (layoutEntry saved)
            (fresh.setWidgetType saved.widgetType))))))).setGeometry saved.geometry := by
    rw [restoredTile, hentry, construct_eq, applyLayoutEntryToTile,
      if_pos (show (layoutEntry saved).widgetType ≠ [] from hwidget)]
    rfl
  have hgauge : normalRange qt saved.gauge = saved.gauge := h.gauge
  have hslider : normalRange qt saved.slider = saved.slider := h.slider
  rw [happlied, hplaced, hsources, hgauge, hslider]
  rfl

/-- A line plot has sources, each of them with a key and an opaque colour of channels with 8 bits. A
tile that is no line plot has neither sources nor the mode of a drop target. -/
structure KeepsSources (tile : VariableTile) : Prop where
  plot : tile.isLinePlotWidget = false → tile.plotSources = [] ∧ tile.multiLinePlotMode = false
  keys : ∀ source ∈ tile.plotSources, source.key ≠ []
  colors : ∀ source ∈ tile.plotSources, source.color.IsHexRgb

theorem keptSources_eq_iff : keptSources qt saved = saved.plotSources ↔
    (saved.isLinePlotWidget = false → saved.plotSources = []) ∧
      (∀ source ∈ saved.plotSources, source.key ≠ []) ∧
      ∀ source ∈ saved.plotSources, source.color.IsHexRgb := by
  have hcolor (source : PlotSourceEntry) :
      { source with color := QColor.ofName qt.namedColor source.color.name } = source ↔
        source.color.IsHexRgb := by
    rw [← @QColor.ofName_name_iff qt.namedColor source.color]
    exact ⟨fun heq => congrArg (fun source => source.color) heq, fun heq => by rw [heq]⟩
  by_cases hnil : saved.plotSources = []
  · have hnone : keptSources qt saved = [] := by
      rw [keptSources, hnil]
      split_ifs <;> rfl
    rw [hnone, hnil]
    simp
  cases hplot : saved.isLinePlotWidget with
  | false =>
    have hnone : keptSources qt saved = [] :=
      if_neg fun hmulti => Bool.false_ne_true (hplot.symm.trans (of_decide_eq_true hmulti).1)
    rw [hnone]
    exact iff_of_false (fun heq => hnil heq.symm) fun h => hnil (h.1 rfl)
  | true =>
    have hmulti : saved.isMultiLinePlot = true := decide_eq_true ⟨hplot, hnil⟩
    rw [keptSources, if_pos hmulti]
    constructor
    · intro heq
      -- nothing was dropped, since the lists have the same length
      have hlength := congrArg List.length heq
      rw [List.length_map, List.length_filter_eq_length_iff] at hlength
      rw [List.filter_eq_self.mpr hlength] at heq
      have hsame := List.map_inj_left.mp (heq.trans (List.map_id _).symm)
      exact ⟨fun h => Bool.noConfusion h, fun source hsource => of_decide_eq_true
        (hlength source hsource), fun source hsource => (hcolor source).mp (hsame source hsource)⟩
    · rintro ⟨-, hkeys, hcolors⟩
      rw [List.filter_eq_self.mpr fun source hsource => decide_eq_true (hkeys source hsource)]
      refine (List.map_inj_left.mpr fun source hsource => ?_).trans (List.map_id _)
      exact (hcolor source).mpr (hcolors source hsource)

theorem isMultiLinePlotDropTarget_eq_iff :
    saved.isMultiLinePlotDropTarget = saved.multiLinePlotMode ↔
      (saved.isLinePlotWidget = false → saved.multiLinePlotMode = false) := by
  unfold isMultiLinePlotDropTarget
  cases saved.isLinePlotWidget <;> cases saved.multiLinePlotMode <;> simp

theorem settings_restoredTile_eq_iff (h : saved.settings.Normal qt)
    (hwidget : saved.widgetType ≠ [])
    (htype : toVariableTypeFromWidgetType saved.widgetType = saved.type) :
    (restoredTile qt (layoutEntry saved)).settings = saved.settings ↔ KeepsSources saved := by
  have hsplit : (restoredTile qt (layoutEntry saved)).settings = saved.settings ↔
      keptSources qt saved = saved.plotSources ∧
        saved.isMultiLinePlotDropTarget = saved.multiLinePlotMode := by
    rw [settings_restoredTile h hwidget htype]
    constructor
    · intro heq
      exact ⟨congrArg TileSettings.plotSources heq, congrArg TileSettings.multiLinePlotMode heq⟩
    · rintro ⟨hsources, hmode⟩
      rw [hsources, hmode]
      rfl
  rw [hsplit, keptSources_eq_iff, isMultiLinePlotDropTarget_eq_iff]
  constructor
  · rintro ⟨⟨hplot, hkeys, hcolors⟩, hmode⟩
    exact ⟨fun hother => ⟨hplot hother, hmode hother⟩, hkeys, hcolors⟩
  · intro hkeeps
    exact ⟨⟨fun hother => (hkeeps.plot hother).1, hkeeps.keys, hkeeps.colors⟩,
      fun hother => (hkeeps.plot hother).2⟩

end Restore

/-! ### A canvas -/

/-- The tile has a name, a key and a type of widget for its values, and its settings were set. -/
structure OnCanvas (qt : QtGui) (child : CanvasChild) : Prop where
  objectName : child.objectName ≠ []
  key : child.tile.key ≠ []
  widgetType : child.tile.widgetType ≠ []
  type : toVariableTypeFromWidgetType child.tile.widgetType = child.tile.type
  reached : ∃ key type setters, child.tile = (construct qt key type).runSetters qt setters

section Canvas

variable (qt : QtGui) (numbers : QtNumbers) (toJson : JsonObject → ByteString)
  (fromJson : ByteString → Option JsonObject) (canvas : List CanvasChild)
  (hiddenKeys : List ByteString)

/-- The tiles that are created for the entries of a saved file. -/
def reload : Option (List VariableTile) :=
  (loadLayoutEntries numbers fromJson (saveLayout toJson canvas hiddenKeys)).map fun layout =>
    layout.entries.map (restoredTile qt)

def RestoresTiles : Prop :=
  (reload qt numbers toJson fromJson canvas hiddenKeys).map (List.map settings) =
    some (canvas.map fun child => child.tile.settings)

variable {qt numbers toJson fromJson canvas hiddenKeys}

theorem OnCanvas.normal {child : CanvasChild} (h : OnCanvas qt child) :
    child.tile.settings.Normal qt := by
  obtain ⟨key, type, setters, heq⟩ := h.reached
  rw [heq]
  exact (TileSettings.normal_construct qt key type).runSetters setters

theorem restoresTiles_iff_forall
    (hjson : (layoutObject canvas hiddenKeys).ReadsBack numbers toJson fromJson)
    (hcanvas : ∀ child ∈ canvas, OnCanvas qt child) :
    RestoresTiles qt numbers toJson fromJson canvas hiddenKeys ↔
      ∀ child ∈ canvas,
        (restoredTile qt (layoutEntry child.tile)).settings = child.tile.settings := by
  rw [RestoresTiles, reload, loadLayoutEntries_saveLayout hjson
    (fun child hchild => (hcanvas child hchild).objectName)
    (fun child hchild => (hcanvas child hchild).key), Option.map_some, Option.map_some,
    Option.some_inj, List.map_map, List.map_map, List.map_inj_left]
  rfl

end Canvas

/-- The tiles of a saved canvas come back with their settings and in their order, exactly if the
sources of all plots are kept. -/
theorem restoresTiles_iff (qt : QtGui) (numbers : QtNumbers) (toJson : JsonObject → ByteString)
    (fromJson : ByteString → Option JsonObject) (canvas : List CanvasChild)
    (hiddenKeys : List ByteString)
    (hjson : (layoutObject canvas hiddenKeys).ReadsBack numbers toJson fromJson)
    (hcanvas : ∀ child ∈ canvas, OnCanvas qt child) :
    RestoresTiles qt numbers toJson fromJson canvas hiddenKeys ↔
      ∀ child ∈ canvas, KeepsSources child.tile := by
  rw [restoresTiles_iff_forall hjson hcanvas]
  refine forall₂_congr fun child hchild => ?_
  have hchild := hcanvas child hchild
  exact settings_restoredTile_eq_iff hchild.normal hchild.widgetType hchild.type

/-! ### The file of a plot -/

/-- The numbers of the file are small. -/
def smallNumbers : QtNumbers where
  doubleToLongLong _ := 0
  longLongToDouble n :=
    if n = -1 then 0xBFF0000000000000 else if n = 1 then 0x3FF0000000000000 else 0
  stringToDouble _ := 0
  doubleToString _ := []

def wholeNumber : JsonValue → JsonValue
  | .double bits =>
    if bits = 0xBFF0000000000000 then .integer (-1)
    else if bits = 0 then .integer 0
    else if bits = 0x3FF0000000000000 then .integer 1
    else .double bits
  | value => value

/-- The setters of a plot that hides its only source. -/
def plotSetters (color : QColor) : List TileSetter :=
  [.plotCall (.setWidgetType App.RunBrowser.linePlot),
    .plotCall (.addPlotSource (text "Drive/Heading") color),
    .plotCall (.setSeriesVisibleBySource (text "Drive/Heading") false),
    .tileCall (.setMultiLinePlotMode true), .setGeometry ⟨24, 32, 320, 200⟩]

def plotChild (color : QColor) : CanvasChild where
  objectName := text "tile_1"
  tile := (construct unusedGui (text "Drive/Speed") .double).runSetters unusedGui
    (plotSetters color)

def plotLines : List String :=
  ["\x7b",
    "    \"version\": 1,",
    "    \"widgets\": [",
    "        \x7b",
    "            \"doubleNumericEditable\": false,",
    "            \"gaugeLowerLimit\": -1,",
    "            \"gaugeShowTickMarks\": true,",
    "            \"gaugeTickInterval\": 0.2,",
    "            \"gaugeUpperLimit\": 1,",
    "            \"geometry\": \x7b",
    "                \"h\": 200,",
    "                \"w\": 320,",
    "                \"x\": 24,",
    "                \"y\": 32",
    "            \x7d,",
    "            \"linePlotAutoYAxis\": true,",
    "            \"linePlotBufferSizeSamples\": 5000,",
    "            \"linePlotShowGridLines\": false,",
    "            \"linePlotShowNumberLines\": false,",
    "            \"linePlotSources\": [",
    "                \x7b",
    "                    \"color\": \"#e74c3c\",",
    "                    \"key\": \"Drive/Heading\",",
    "                    \"visible\": false",
    "                \x7d",
    "            ],",
    "            \"linePlotYLowerLimit\": 0,",
    "            \"linePlotYUpperLimit\": 1,",
    "            \"multiLinePlotMode\": true,",
    "            \"progressBarBackgroundColor\": \"#1f1f1f\",",
    "            \"progressBarForegroundColor\": \"#2e86de\",",
    "            \"progressBarLowerLimit\": 0,",
    "            \"progressBarShowPercentage\": false,",
    "            \"progressBarUpperLimit\": 1,",
    "            \"showLabel\": true,",
    "            \"sliderLowerLimit\": -1,",
    "            \"sliderShowTickMarks\": true,",
    "            \"sliderTickInterval\": 0.2,",
    "            \"sliderUpperLimit\": 1,",
    "            \"variableKey\": \"Drive/Speed\",",
    "            \"widgetId\": \"tile_1\",",
    "            \"widgetType\": \"double.lineplot\"",
    "        \x7d",
    "    ]",
    "\x7d"]

/-- The file in which a plot with a red source is saved. -/
def plotJson : ByteString := plotLines.flatMap fun line => text line ++ [10]

/-- The objects of an array, with integers for numbers without fraction. -/
def wholeNumbers : JsonValue → JsonValue
  | .array items =>
    .array (items.map fun item =>
      .object (item.toObject.map fun field => (field.1, wholeNumber field.2)))
  | value => value

/-- What is parsed of it. -/
def plotRoot (color : QColor) : JsonObject :=
  (layoutObject [plotChild color] []).map fun field => (field.1, wholeNumbers field.2)

def plotToJson (_ : JsonObject) : ByteString := plotJson

def plotFromJson (color : QColor) (json : ByteString) : Option JsonObject :=
  if json = plotJson then some (plotRoot color) else none

theorem readAs_wholeNumber (value : JsonValue) : value.ReadAs smallNumbers (wholeNumber value) := by
  cases value with
  | double bits =>
    rw [wholeNumber]
    split_ifs with hlow hzero hone
    · exact hlow ▸ .whole (-1)
    · exact hzero ▸ .whole 0
    · exact hone ▸ .whole 1
    · exact .double bits
  | _ => exact .refl smallNumbers _

theorem plotChild_readsBack (color : QColor) :
    (layoutObject [plotChild color] []).ReadsBack smallNumbers plotToJson (plotFromJson color) := by
  refine ⟨plotRoot color, if_pos rfl, fun name => ?_⟩
  rw [plotRoot, JsonObject.value_map rfl]
  rcases JsonObject.value_eq_undefined_or_mem (layoutObject [plotChild color] []) name with
    hnone | hmem
  · rw [hnone]
    exact .undefined
  · generalize (layoutObject [plotChild color] []).value name = value at hmem
    rcases List.mem_cons.mp hmem with heq | hmem
    · rw [(Prod.mk.inj heq).2]
      exact .integer 1
    · rw [(Prod.mk.inj (List.mem_singleton.mp hmem)).2]
      refine .array (List.forall₂_map_right_iff.mpr (.cons (.object fun name => ?_) .nil))
      rw [JsonObject.value_map rfl]
      exact readAs_wholeNumber _

theorem plotChild_onCanvas (color : QColor) : OnCanvas unusedGui (plotChild color) where
  objectName := show text "tile_1" ≠ [] by decide
  key := show text "Drive/Speed" ≠ [] by decide
  widgetType := show App.RunBrowser.linePlot ≠ [] by decide
  type := show toVariableTypeFromWidgetType App.RunBrowser.linePlot = .double by decide
  reached := ⟨_, _, _, rfl⟩

def red : QColor := .rgba 0xE7E7 0x4C4C 0x3C3C 0xFFFF

/-- A source that is red and hidden comes back. -/
theorem redSource_restored :
    RestoresTiles unusedGui smallNumbers plotToJson (plotFromJson red) [plotChild red] [] := by
  refine (restoresTiles_iff _ _ _ _ _ _ (plotChild_readsBack _) ?_).mpr ?_
  · intro child hchild
    rw [List.mem_singleton.mp hchild]
    exact plotChild_onCanvas _
  · intro child hchild
    rw [List.mem_singleton.mp hchild]
    exact ⟨by decide, by decide, by decide⟩

def translucentRed : QColor := .rgba 0xE7E7 0x4C4C 0x3C3C 0x8080

/-- A source that is translucent is saved like an opaque one. -/
theorem translucentSource_not_restored :
    (layoutObject [plotChild translucentRed] []).ReadsBack smallNumbers plotToJson
        (plotFromJson translucentRed) ∧
      OnCanvas unusedGui (plotChild translucentRed) ∧
      ¬RestoresTiles unusedGui smallNumbers plotToJson (plotFromJson translucentRed)
        [plotChild translucentRed] [] := by
  refine ⟨plotChild_readsBack _, plotChild_onCanvas _, fun hrestores => ?_⟩
  rw [restoresTiles_iff_forall (plotChild_readsBack _) fun child hchild => by
    rw [List.mem_singleton.mp hchild]
    exact plotChild_onCanvas _] at hrestores
  have hsettings := hrestores _ (List.mem_singleton_self _)
  exact absurd (congrArg TileSettings.plotSources hsettings) (by decide)

end SmartDashboard.Layout
