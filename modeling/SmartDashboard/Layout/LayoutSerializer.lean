import SmartDashboard.App.ConnectionSettings
import SmartDashboard.Layout.WidgetLayoutEntry

/-!
# Layout files

`SaveLayout` writes the tiles of a canvas to a JSON object, each setting under a name of its own,
and `LoadLayoutEntries` reads the entries from one. A setting that is not valid is not written, and
a name that is not there is not read.

`QJsonDocument`'s indented text and its parser are parameters. What is read of a text is the object
that was written, but that a double without fraction comes back as an integer.

## Main definitions

- `widgetFields`, `layoutObject`: the fields of a widget and the object of a file
- `loadEntry`, `loadLayoutEntries`: the entries of a file
- `ReadAs`, `ReadsBack`: what a text keeps of its object
- `layoutEntry`: the entry of a tile

## Main results

- `loadLayoutEntries_saveLayout`: the entries of a saved file are those of the tiles
-/

namespace SmartDashboard.Transport

open Direct (ByteString DoubleBits)

namespace JsonValue

def toObject : JsonValue → JsonObject
  | .object fields => fields
  | _ => []

/-- A value that is read again: a double may have become the integer it is. -/
inductive ReadAs (numbers : QtNumbers) : JsonValue → JsonValue → Prop
  | undefined : ReadAs numbers .undefined .undefined
  | null : ReadAs numbers .null .null
  | bool (value : Bool) : ReadAs numbers (.bool value) (.bool value)
  | integer (value : ℤ) : ReadAs numbers (.integer value) (.integer value)
  | double (value : DoubleBits) : ReadAs numbers (.double value) (.double value)
  | whole (value : ℤ) :
    ReadAs numbers (.double (numbers.longLongToDouble value)) (.integer value)
  | string (value : ByteString) : ReadAs numbers (.string value) (.string value)
  | array {items items' : List JsonValue} (h : List.Forall₂ (ReadAs numbers) items items') :
    ReadAs numbers (.array items) (.array items')
  | object {fields fields' : JsonObject}
    (h : ∀ name, ReadAs numbers (fields.value name) (fields'.value name)) :
    ReadAs numbers (.object fields) (.object fields')

end JsonValue

/-- The text of the object is one of an object with the same values. -/
def JsonObject.ReadsBack (numbers : QtNumbers) (toJson : JsonObject → ByteString)
    (fromJson : ByteString → Option JsonObject) (object : JsonObject) : Prop :=
  ∃ object', fromJson (toJson object) = some object' ∧
    ∀ name, JsonValue.ReadAs numbers (object.value name) (object'.value name)

/-- The fields that have a value. -/
def JsonObject.ofFields (fields : List (ByteString × Option JsonValue)) : JsonObject :=
  fields.filterMap fun field => field.2.map fun value => (field.1, value)

/-- A value that is read, if its name is there. -/
def JsonObject.field {α : Type} (object : JsonObject) (read : JsonValue → α) (name : ByteString) :
    Option α :=
  if object.contains name then some (read (object.value name)) else none

/-! ### Values that are read again -/

section Read

variable {numbers : QtNumbers} {value value' : JsonValue} {object object' : JsonObject}
  {name : ByteString} {α : Type} {read : JsonValue → α}

theorem JsonValue.ReadAs.eq_undefined_iff (h : value.ReadAs numbers value') :
    value' = .undefined ↔ value = .undefined := by
  cases h <;> simp

theorem JsonValue.ReadAs.toBool_eq (h : value.ReadAs numbers value') :
    value'.toBool = value.toBool := by
  cases h <;> rfl

theorem JsonValue.ReadAs.toString_eq (h : value.ReadAs numbers value') (default : ByteString) :
    value'.toString default = value.toString default := by
  cases h <;> rfl

theorem JsonValue.ReadAs.toDouble_eq (h : value.ReadAs numbers value') :
    value'.toDouble numbers = value.toDouble numbers := by
  cases h <;> rfl

theorem JsonValue.ReadAs.toInt_eq (h : value.ReadAs numbers value')
    (hdouble : ∀ double, value ≠ .double double) (default : Int32) :
    value'.toInt default = value.toInt default := by
  cases h with
  | whole => exact absurd rfl (hdouble _)
  | _ => rfl

theorem JsonValue.ReadAs.toArray (h : value.ReadAs numbers value') :
    List.Forall₂ (JsonValue.ReadAs numbers) value.toArray value'.toArray := by
  cases h with
  | array h => exact h
  | _ => exact .nil

theorem JsonValue.ReadAs.toObject (h : value.ReadAs numbers value') (name : ByteString) :
    JsonValue.ReadAs numbers (value.toObject.value name) (value'.toObject.value name) := by
  cases h with
  | object h => exact h name
  | _ => exact .undefined

/-- Related items that are read alike. -/
theorem filterMap_eq_of_forall₂ {β γ δ : Type} {R : β → γ → Prop} {f : β → Option δ}
    {g : γ → Option δ} {items : List β} {items' : List γ} (h : List.Forall₂ R items items')
    (hread : ∀ item ∈ items, ∀ item', R item item' → g item' = f item) :
    items'.filterMap g = items.filterMap f := by
  induction h with
  | nil => rfl
  | cons hitem hrest ih =>
    rw [List.forall_mem_cons] at hread
    rw [List.filterMap_cons, List.filterMap_cons, hread.1 _ hitem, ih hread.2]

theorem JsonValue.ReadAs.toArray_map_toString_eq (h : value.ReadAs numbers value') :
    value'.toArray.map (JsonValue.toString []) = value.toArray.map (JsonValue.toString []) := by
  rw [← List.filterMap_eq_map]
  exact filterMap_eq_of_forall₂ h.toArray fun _ _ _ hvalue =>
    congrArg some (hvalue.toString_eq [])

theorem JsonObject.contains_eq (h : (object.value name).ReadAs numbers (object'.value name)) :
    object'.contains name = object.contains name := by
  have hnone := h.eq_undefined_iff
  rw [← JsonObject.contains_eq_false_iff, ← JsonObject.contains_eq_false_iff] at hnone
  exact Bool.eq_iff_iff.mpr (by rw [← not_iff_not, Bool.not_eq_true, Bool.not_eq_true, hnone])

theorem JsonObject.field_eq (h : (object.value name).ReadAs numbers (object'.value name))
    (hread : read (object'.value name) = read (object.value name)) :
    object'.field read name = object.field read name := by
  rw [field, field, JsonObject.contains_eq h, hread]

theorem JsonObject.value_map {change : JsonValue → JsonValue}
    (h : change .undefined = .undefined) :
    JsonObject.value (object.map fun field => (field.1, change field.2)) name =
      change (object.value name) := by
  rw [JsonObject.value, JsonObject.value, ← List.map_reverse]
  induction object.reverse with
  | nil => exact h.symm
  | cons field fields ih =>
    rw [List.map_cons, List.lookup_cons, List.lookup_cons]
    cases name == field.1 with
    | true => rfl
    | false => exact ih

theorem JsonObject.value_eq_undefined_or_mem (object : JsonObject) (name : ByteString) :
    object.value name = .undefined ∨ (name, object.value name) ∈ object := by
  rw [JsonObject.value]
  cases hlookup : object.reverse.lookup name with
  | none => exact .inl rfl
  | some value =>
    obtain ⟨front, back, hsplit, -⟩ := List.lookup_eq_some_iff.mp hlookup
    refine .inr (List.mem_reverse.mp ?_)
    rw [hsplit]
    exact List.mem_append_right front List.mem_cons_self

theorem JsonValue.ReadAs.refl (numbers : QtNumbers) :
    ∀ value : JsonValue, value.ReadAs numbers value
  | .undefined => .undefined
  | .null => .null
  | .bool value => .bool value
  | .integer value => .integer value
  | .double value => .double value
  | .string value => .string value
  | .array items => .array (List.forall₂_same.mpr fun item _ => ReadAs.refl numbers item)
  | .object fields => .object fun name => by
      by_cases hnone : JsonObject.value fields name = .undefined
      · rw [hnone]
        exact .undefined
      · have hmem := (JsonObject.value_eq_undefined_or_mem fields name).resolve_left hnone
        have hsize : sizeOf (JsonObject.value fields name) < 1 + sizeOf fields := by
          have hlt := List.sizeOf_lt_of_mem hmem
          rw [Prod.mk.sizeOf_spec] at hlt
          omega
        exact ReadAs.refl numbers (JsonObject.value fields name)
termination_by value => sizeOf value

end Read

/-! ### Fields that are written -/

/-- Every name once, and only values that a JSON object can have. -/
structure JsonObject.Proper (fields : List (ByteString × Option JsonValue)) : Prop where
  names : (fields.map Prod.fst).Nodup
  defined : ∀ field ∈ fields, field.2 ≠ some .undefined

section Write

variable {fields : List (ByteString × Option JsonValue)} {name : ByteString}
  {value : Option JsonValue} {α : Type}

theorem JsonObject.value_ofFields_of_not_mem (h : name ∉ fields.map Prod.fst) :
    (JsonObject.ofFields fields).value name = .undefined := by
  have hnone : (JsonObject.ofFields fields).reverse.lookup name = none := by
    rw [List.lookup_eq_none_iff]
    intro field hfield
    obtain ⟨field', hfield', heq⟩ := List.mem_filterMap.mp (List.mem_reverse.mp hfield)
    obtain ⟨value, -, rfl⟩ := Option.map_eq_some_iff.mp heq
    rw [bne_iff_ne]
    rintro rfl
    exact h (List.mem_map_of_mem hfield')
  rw [JsonObject.value, hnone]
  rfl

theorem JsonObject.Proper.value_of_mem (h : JsonObject.Proper fields)
    (hmem : (name, value) ∈ fields) :
    (JsonObject.ofFields fields).value name = value.getD .undefined := by
  obtain ⟨hnames, -⟩ := h
  induction fields using List.reverseRecOn with
  | nil => cases hmem
  | append_singleton fields field ih =>
    rw [List.map_append, List.nodup_append] at hnames
    obtain ⟨hnames, -, hdisjoint⟩ := hnames
    have hsplit : JsonObject.ofFields (fields ++ [field]) = JsonObject.ofFields fields ++
        (field.2.map fun value => (field.1, value)).toList := by
      rw [JsonObject.ofFields, List.filterMap_append, List.filterMap_cons]
      cases field.2 <;> rfl
    rw [hsplit]
    rcases List.mem_append.mp hmem with hmem | hmem
    · have hne : name ≠ field.1 :=
        hdisjoint name (List.mem_map_of_mem hmem) _ (List.mem_singleton_self _)
      cases field.2 with
      | none =>
        rw [Option.map_none, Option.toList_none, List.append_nil]
        exact ih hmem hnames
      | some last =>
        rw [← ih hmem hnames]
        exact (JsonObject.value_insert).trans (if_neg hne)
    · obtain rfl := List.mem_singleton.mp hmem
      have hfresh : name ∉ fields.map Prod.fst := fun hold =>
        hdisjoint name hold name (List.mem_singleton_self _) rfl
      cases value with
      | none =>
        rw [Option.map_none, Option.toList_none, List.append_nil]
        exact JsonObject.value_ofFields_of_not_mem hfresh
      | some value => exact (JsonObject.value_insert).trans (if_pos rfl)

theorem JsonObject.Proper.value_at (h : JsonObject.Proper fields) (i : ℕ)
    (hi : fields[i]? = some (name, value)) :
    (JsonObject.ofFields fields).value name = value.getD .undefined :=
  h.value_of_mem (List.mem_of_getElem? hi)

theorem JsonObject.Proper.field_at (h : JsonObject.Proper fields) (read : JsonValue → α) (i : ℕ)
    (hi : fields[i]? = some (name, value)) :
    (JsonObject.ofFields fields).field read name = value.map read := by
  have hmem := List.mem_of_getElem? hi
  have hvalue := h.value_of_mem hmem
  have hdefined := h.defined _ hmem
  rw [JsonObject.field, hvalue]
  cases value with
  | none => rw [JsonObject.contains_eq_false_iff.mpr hvalue, if_neg Bool.false_ne_true, Option.map]
  | some value =>
    have hcontains : (JsonObject.ofFields fields).contains name = true := by
      rw [← Bool.not_eq_false, JsonObject.contains_eq_false_iff, hvalue]
      exact fun hnone => hdefined (congrArg some hnone)
    rw [hcontains, if_pos rfl]
    rfl

end Write

end SmartDashboard.Transport

namespace SmartDashboard.Layout

open Direct (ByteString DoubleBits)
open App (VariableType text)
open Transport
open Widgets

/-! ### Saving -/

/-- A child of the canvas. -/
structure CanvasChild where
  objectName : ByteString
  tile : VariableTile
  deriving DecidableEq, Repr

def sourceFields (source : PlotSourceEntry) : List (ByteString × Option JsonValue) :=
  [(text "key", some (.string source.key)),
    (text "color", some (.string source.color.name)),
    (text "originalWidgetType",
      if source.originalWidgetType = [] then none else some (.string source.originalWidgetType)),
    (text "visible", if source.visible then none else some (.bool false))]

def geometryFields (geometry : QRect) : List (ByteString × Option JsonValue) :=
  [(text "x", some (.integer geometry.x.toInt)), (text "y", some (.integer geometry.y.toInt)),
    (text "w", some (.integer geometry.width.toInt)),
    (text "h", some (.integer geometry.height.toInt))]

/-- Most properties are there from the constructor on. A font size of 0 is no valid property. -/
def widgetFields (child : CanvasChild) : List (ByteString × Option JsonValue) :=
  let tile := child.tile
  [(text "widgetId", some (.string child.objectName)),
    (text "variableKey", some (.string tile.key)),
    (text "widgetType", some (.string tile.widgetType)),
    (text "gaugeLowerLimit", some (.double tile.gauge.lowerLimit)),
    (text "gaugeUpperLimit", some (.double tile.gauge.upperLimit)),
    (text "gaugeTickInterval", some (.double tile.gauge.tickInterval)),
    (text "gaugeShowTickMarks", some (.bool tile.gauge.showTickMarks)),
    (text "progressBarLowerLimit", some (.double tile.progressBar.lowerLimit)),
    (text "progressBarUpperLimit", some (.double tile.progressBar.upperLimit)),
    (text "progressBarShowPercentage", some (.bool tile.progressBar.showPercentage)),
    (text "progressBarForegroundColor", some (.string tile.progressBar.foregroundColor)),
    (text "progressBarBackgroundColor", some (.string tile.progressBar.backgroundColor)),
    (text "sliderLowerLimit", some (.double tile.slider.lowerLimit)),
    (text "sliderUpperLimit", some (.double tile.slider.upperLimit)),
    (text "sliderTickInterval", some (.double tile.slider.tickInterval)),
    (text "sliderShowTickMarks", some (.bool tile.slider.showTickMarks)),
    (text "linePlotBufferSizeSamples",
      some (.integer tile.linePlotProperties.bufferSizeSamples.toInt)),
    (text "linePlotAutoYAxis", some (.bool tile.linePlotProperties.autoYAxis)),
    (text "linePlotShowNumberLines", some (.bool tile.linePlotProperties.showNumberLines)),
    (text "linePlotShowGridLines", some (.bool tile.linePlotProperties.showGridLines)),
    (text "linePlotYLowerLimit", some (.double tile.linePlotProperties.yLowerLimit)),
    (text "linePlotYUpperLimit", some (.double tile.linePlotProperties.yUpperLimit)),
    (text "textFontPointSize",
      if 0 < tile.textFontPointSize then some (.integer tile.textFontPointSize.toInt) else none),
    (text "doubleNumericEditable", some (.bool tile.doubleNumericEditable)),
    (text "showLabel", some (.bool tile.showLabel)),
    (text "stringChooserMode", tile.stringChooserModeProperty.map .bool),
    (text "stringChooserOptions",
      tile.stringChooserOptionsProperty.map fun options => .array (options.map .string)),
    (text "multiLinePlotMode", if tile.isMultiLinePlotDropTarget then some (.bool true) else none),
    (text "linePlotSources",
      if tile.isMultiLinePlot then
        some (.array (tile.plotSources.map fun source =>
          .object (JsonObject.ofFields (sourceFields source))))
      else none),
    (text "geometry", some (.object (JsonObject.ofFields (geometryFields tile.geometry))))]

/-- The hidden keys are sorted. -/
def layoutFields (canvas : List CanvasChild) (hiddenKeys : List ByteString) :
    List (ByteString × Option JsonValue) :=
  let children := canvas.filter fun child => child.objectName ≠ []
  [(text "version", some (.integer 1)),
    (text "widgets",
      some (.array (children.map fun child =>
        .object (JsonObject.ofFields (widgetFields child))))),
    (text "hiddenKeys",
      if hiddenKeys = [] then none else some (.array (hiddenKeys.map .string)))]

def layoutObject (canvas : List CanvasChild) (hiddenKeys : List ByteString) : JsonObject :=
  JsonObject.ofFields (layoutFields canvas hiddenKeys)

def saveLayout (toJson : JsonObject → ByteString) (canvas : List CanvasChild)
    (hiddenKeys : List ByteString) : ByteString :=
  toJson (layoutObject canvas hiddenKeys)

/-! ### Loading -/

section Load

variable (numbers : QtNumbers)

def loadGeometry (geo : JsonObject) : QRect where
  x := (geo.value (text "x")).toInt 0
  y := (geo.value (text "y")).toInt 0
  width := (geo.value (text "w")).toInt 220
  height := (geo.value (text "h")).toInt 84

/-- A source without key is skipped. -/
def loadSource (srcObj : JsonObject) : Option LinePlotSourceEntry :=
  let srcKey := (srcObj.value (text "key")).toString []
  if srcKey = [] then none
  else
    some
      { key := srcKey
        color := (srcObj.value (text "color")).toString []
        originalWidgetType := (srcObj.value (text "originalWidgetType")).toString []
        visible := (srcObj.field JsonValue.toBool (text "visible")).getD true }

/-- Older files have a name for each type of widget. -/
def loadShowLabel (entry : JsonObject) (widgetType : ByteString) : Option Bool :=
  if entry.contains (text "showLabel") then entry.field JsonValue.toBool (text "showLabel")
  else if entry.contains (text "boolCheckboxShowLabel") ∧ widgetType = text "bool.checkbox" then
    entry.field JsonValue.toBool (text "boolCheckboxShowLabel")
  else if entry.contains (text "boolLedShowLabel") ∧ widgetType = text "bool.led" then
    entry.field JsonValue.toBool (text "boolLedShowLabel")
  else if entry.contains (text "stringTextShowLabel") ∧ widgetType = text "string.text" then
    entry.field JsonValue.toBool (text "stringTextShowLabel")
  else none

def loadSettings (entry : JsonObject) : WidgetLayoutEntry :=
  let widgetType := (entry.value (text "widgetType")).toString []
  { variableKey := (entry.value (text "variableKey")).toString []
    widgetType := widgetType
    geometry := loadGeometry (entry.value (text "geometry")).toObject
    gaugeLowerLimit := entry.field (JsonValue.toDouble numbers) (text "gaugeLowerLimit")
    gaugeUpperLimit := entry.field (JsonValue.toDouble numbers) (text "gaugeUpperLimit")
    gaugeTickInterval := entry.field (JsonValue.toDouble numbers) (text "gaugeTickInterval")
    gaugeShowTickMarks := entry.field JsonValue.toBool (text "gaugeShowTickMarks")
    progressBarLowerLimit := entry.field (JsonValue.toDouble numbers) (text "progressBarLowerLimit")
    progressBarUpperLimit := entry.field (JsonValue.toDouble numbers) (text "progressBarUpperLimit")
    progressBarShowPercentage := entry.field JsonValue.toBool (text "progressBarShowPercentage")
    progressBarForegroundColor :=
      entry.field (JsonValue.toString []) (text "progressBarForegroundColor")
    progressBarBackgroundColor :=
      entry.field (JsonValue.toString []) (text "progressBarBackgroundColor")
    sliderLowerLimit := entry.field (JsonValue.toDouble numbers) (text "sliderLowerLimit")
    sliderUpperLimit := entry.field (JsonValue.toDouble numbers) (text "sliderUpperLimit")
    sliderTickInterval := entry.field (JsonValue.toDouble numbers) (text "sliderTickInterval")
    sliderShowTickMarks := entry.field JsonValue.toBool (text "sliderShowTickMarks")
    linePlotBufferSizeSamples := entry.field (JsonValue.toInt 0) (text "linePlotBufferSizeSamples")
    linePlotAutoYAxis := entry.field JsonValue.toBool (text "linePlotAutoYAxis")
    linePlotShowNumberLines := entry.field JsonValue.toBool (text "linePlotShowNumberLines")
    linePlotShowGridLines := entry.field JsonValue.toBool (text "linePlotShowGridLines")
    linePlotYLowerLimit := entry.field (JsonValue.toDouble numbers) (text "linePlotYLowerLimit")
    linePlotYUpperLimit := entry.field (JsonValue.toDouble numbers) (text "linePlotYUpperLimit")
    textFontPointSize := entry.field (JsonValue.toInt 0) (text "textFontPointSize")
    doubleNumericEditable := entry.field JsonValue.toBool (text "doubleNumericEditable")
    showLabel := loadShowLabel entry widgetType
    stringChooserMode := entry.field JsonValue.toBool (text "stringChooserMode")
    stringChooserOptions :=
      entry.field (fun value => value.toArray.map (JsonValue.toString []))
        (text "stringChooserOptions")
    linePlotSources :=
      (entry.value (text "linePlotSources")).toArray.filterMap fun value =>
        loadSource value.toObject
    multiLinePlotMode := (entry.field JsonValue.toBool (text "multiLinePlotMode")).getD false }

/-- An entry without key is skipped. -/
def loadEntry (entry : JsonObject) : Option WidgetLayoutEntry :=
  if (entry.value (text "variableKey")).toString [] = [] then none
  else some (loadSettings numbers entry)

structure LoadedLayout where
  entries : List WidgetLayoutEntry
  hiddenKeys : List ByteString

/-- `fromJson` gives nothing for a text that is not a JSON object. -/
def loadLayoutEntries (fromJson : ByteString → Option JsonObject) (raw : ByteString) :
    Option LoadedLayout :=
  (fromJson raw).map fun root =>
    { entries :=
        (root.value (text "widgets")).toArray.filterMap fun value =>
          loadEntry numbers value.toObject
      hiddenKeys :=
        ((root.value (text "hiddenKeys")).toArray.map (JsonValue.toString [])).filter (· ≠ []) }

end Load

/-! ### The entry of a tile -/

/-- The sources of a plot, but for those without key. -/
def layoutSources (tile : VariableTile) : List LinePlotSourceEntry :=
  if tile.isMultiLinePlot then
    (tile.plotSources.filter fun source => source.key ≠ []).map fun source =>
      { key := source.key
        color := source.color.name
        originalWidgetType := source.originalWidgetType
        visible := source.visible }
  else []

/-- What is loaded of a tile that was saved. -/
def layoutEntry (tile : VariableTile) : WidgetLayoutEntry where
  variableKey := tile.key
  widgetType := tile.widgetType
  geometry := tile.geometry
  gaugeLowerLimit := some tile.gauge.lowerLimit
  gaugeUpperLimit := some tile.gauge.upperLimit
  gaugeTickInterval := some tile.gauge.tickInterval
  gaugeShowTickMarks := some tile.gauge.showTickMarks
  progressBarLowerLimit := some tile.progressBar.lowerLimit
  progressBarUpperLimit := some tile.progressBar.upperLimit
  progressBarShowPercentage := some tile.progressBar.showPercentage
  progressBarForegroundColor := some tile.progressBar.foregroundColor
  progressBarBackgroundColor := some tile.progressBar.backgroundColor
  sliderLowerLimit := some tile.slider.lowerLimit
  sliderUpperLimit := some tile.slider.upperLimit
  sliderTickInterval := some tile.slider.tickInterval
  sliderShowTickMarks := some tile.slider.showTickMarks
  linePlotBufferSizeSamples := some tile.linePlotProperties.bufferSizeSamples
  linePlotAutoYAxis := some tile.linePlotProperties.autoYAxis
  linePlotShowNumberLines := some tile.linePlotProperties.showNumberLines
  linePlotShowGridLines := some tile.linePlotProperties.showGridLines
  linePlotYLowerLimit := some tile.linePlotProperties.yLowerLimit
  linePlotYUpperLimit := some tile.linePlotProperties.yUpperLimit
  textFontPointSize := if 0 < tile.textFontPointSize then some tile.textFontPointSize else none
  doubleNumericEditable := some tile.doubleNumericEditable
  showLabel := some tile.showLabel
  stringChooserMode := tile.stringChooserModeProperty
  stringChooserOptions := tile.stringChooserOptionsProperty
  linePlotSources := layoutSources tile
  multiLinePlotMode := tile.isMultiLinePlotDropTarget

section Saved

variable {numbers : QtNumbers} {child : CanvasChild} {source : PlotSourceEntry}
  {geometry : QRect} {canvas : List CanvasChild} {hiddenKeys : List ByteString}

open JsonObject

theorem proper_sourceFields : Proper (sourceFields source) where
  names := show [text "key", text "color", text "originalWidgetType", text "visible"].Nodup by
    decide
  defined := by
    simp only [sourceFields, List.forall_mem_cons, List.not_mem_nil, false_imp_iff, imp_true_iff]
    split_ifs <;> simp

theorem proper_geometryFields : Proper (geometryFields geometry) where
  names := show [text "x", text "y", text "w", text "h"].Nodup by decide
  defined := by simp [geometryFields]

theorem proper_layoutFields : Proper (layoutFields canvas hiddenKeys) where
  names := show [text "version", text "widgets", text "hiddenKeys"].Nodup by decide
  defined := by
    simp only [layoutFields, List.forall_mem_cons, List.not_mem_nil, false_imp_iff, imp_true_iff]
    split_ifs <;> simp

theorem proper_widgetFields : Proper (widgetFields child) where
  names := by
    have hnames : (widgetFields child).map Prod.fst =
        (widgetFields ⟨[], VariableTile.new [] .bool⟩).map Prod.fst := rfl
    rw [hnames]
    decide
  defined := by
    simp only [widgetFields, List.forall_mem_cons, List.not_mem_nil, false_imp_iff, imp_true_iff]
    split_ifs <;> simp

theorem loadGeometry_ofFields : loadGeometry (ofFields (geometryFields geometry)) = geometry := by
  have h : Proper (geometryFields geometry) := proper_geometryFields
  rw [loadGeometry, h.value_at 0 rfl, h.value_at 1 rfl, h.value_at 2 rfl, h.value_at 3 rfl]
  simp only [Option.getD_some, JsonValue.toInt, Int32.ofInt_toInt, if_true]

theorem loadSource_ofFields : loadSource (ofFields (sourceFields source)) =
    if source.key = [] then none
    else
      some
        { key := source.key
          color := source.color.name
          originalWidgetType := source.originalWidgetType
          visible := source.visible } := by
  have h : Proper (sourceFields source) := proper_sourceFields
  rw [loadSource, h.value_at 0 rfl, h.value_at 1 rfl, h.value_at 2 rfl, h.field_at _ 3 rfl]
  have htype : JsonValue.toString [] ((if source.originalWidgetType = [] then none
      else some (.string source.originalWidgetType)).getD .undefined) =
      source.originalWidgetType := by
    split_ifs with hnone
    · exact hnone.symm
    · rfl
  have hvisible : ((if source.visible then none
      else some (JsonValue.bool false)).map JsonValue.toBool).getD true = source.visible := by
    cases source.visible <;> rfl
  rw [htype, hvisible]
  rfl

theorem loadSettings_ofFields :
    loadSettings numbers (ofFields (widgetFields child)) = layoutEntry child.tile := by
  have h : Proper (widgetFields child) := proper_widgetFields
  have hlabel (widgetType : ByteString) :
      loadShowLabel (ofFields (widgetFields child)) widgetType = some child.tile.showLabel := by
    have hfield := h.field_at JsonValue.toBool 24 rfl
    have hcontains : (ofFields (widgetFields child)).contains (text "showLabel") = true := by
      rw [← Bool.not_eq_false, contains_eq_false_iff, h.value_at 24 rfl]
      exact JsonValue.noConfusion
    rw [loadShowLabel, if_pos hcontains, hfield]
    rfl
  have hoptions (options : Option (List ByteString)) :
      (options.map fun options => JsonValue.array (options.map .string)).map
        (fun value => value.toArray.map (JsonValue.toString [])) = options := by
    cases options with
    | none => rfl
    | some options =>
      simp only [Option.map_some, JsonValue.toArray, List.map_map, Option.some_inj]
      exact List.map_id _
  have hmode (mode : Option Bool) : (mode.map JsonValue.bool).map JsonValue.toBool = mode := by
    cases mode <;> rfl
  have hsize (size : Int32) : (if 0 < size then some (JsonValue.integer size.toInt) else none).map
      (JsonValue.toInt 0) = if 0 < size then some size else none := by
    split_ifs
    · simp only [Option.map_some, JsonValue.toInt, Int32.ofInt_toInt, if_true]
    · rfl
  have hmulti (multi : Bool) :
      ((if multi then some (JsonValue.bool true) else none).map JsonValue.toBool).getD false =
        multi := by
    cases multi <;> rfl
  have hsources : (((if child.tile.isMultiLinePlot then
      some (JsonValue.array (child.tile.plotSources.map fun source =>
        .object (ofFields (sourceFields source))))
      else none).getD .undefined).toArray.filterMap fun value => loadSource value.toObject) =
        layoutSources child.tile := by
    rw [layoutSources]
    split_ifs
    · rw [Option.getD_some, JsonValue.toArray, List.filterMap_map, ← List.filterMap_eq_map,
        List.filterMap_filter]
      refine List.filterMap_congr fun source _ => ?_
      rw [Function.comp_apply, JsonValue.toObject, loadSource_ofFields]
      by_cases hkey : source.key = [] <;> simp [hkey]
    · rfl
  rw [loadSettings, hlabel, h.value_at 1 rfl, h.value_at 2 rfl, h.value_at 28 rfl,
    h.value_at 29 rfl, h.field_at _ 3 rfl, h.field_at _ 4 rfl, h.field_at _ 5 rfl,
    h.field_at _ 6 rfl, h.field_at _ 7 rfl, h.field_at _ 8 rfl, h.field_at _ 9 rfl,
    h.field_at _ 10 rfl, h.field_at _ 11 rfl, h.field_at _ 12 rfl, h.field_at _ 13 rfl,
    h.field_at _ 14 rfl, h.field_at _ 15 rfl, h.field_at _ 16 rfl, h.field_at _ 17 rfl,
    h.field_at _ 18 rfl, h.field_at _ 19 rfl, h.field_at _ 20 rfl, h.field_at _ 21 rfl,
    h.field_at _ 22 rfl, h.field_at _ 23 rfl, h.field_at _ 25 rfl, h.field_at _ 26 rfl,
    h.field_at _ 27 rfl, hoptions, hmode, hsize, hmulti, hsources, layoutEntry]
  simp only [Option.getD_some, Option.map_some, JsonValue.toString, JsonValue.toObject,
    JsonValue.toDouble, JsonValue.toBool, JsonValue.toInt, Int32.ofInt_toInt, if_true,
    loadGeometry_ofFields]

end Saved

/-! ### The entry of a tile that is read again -/

section ReadAgain

variable {numbers : QtNumbers} {child : CanvasChild} {object object' : JsonObject}
  {canvas : List CanvasChild} {hiddenKeys : List ByteString}

open JsonObject

theorem loadSource_eq
    (h : ∀ name, JsonValue.ReadAs numbers (object.value name) (object'.value name)) :
    loadSource object' = loadSource object := by
  rw [loadSource, loadSource, (h _).toString_eq, (h _).toString_eq, (h _).toString_eq,
    field_eq (h _) (h _).toBool_eq]

theorem loadShowLabel_eq
    (h : ∀ name, JsonValue.ReadAs numbers (object.value name) (object'.value name))
    (widgetType : ByteString) :
    loadShowLabel object' widgetType = loadShowLabel object widgetType := by
  simp only [loadShowLabel, contains_eq (h _), field_eq (h _) (h _).toBool_eq]

theorem loadGeometry_eq {geometry : QRect}
    (h : ∀ name, JsonValue.ReadAs numbers ((ofFields (geometryFields geometry)).value name)
      (object'.value name)) :
    loadGeometry object' = geometry := by
  have hproper : Proper (geometryFields geometry) := proper_geometryFields
  have hint {name : ByteString} {n : ℤ} (i : ℕ) (default : Int32)
      (hi : (geometryFields geometry)[i]? = some (name, some (.integer n))) :
      (object'.value name).toInt default =
        ((ofFields (geometryFields geometry)).value name).toInt default := by
    refine (h name).toInt_eq (fun double => ?_) default
    rw [hproper.value_at i hi]
    exact JsonValue.noConfusion
  refine Eq.trans ?_ loadGeometry_ofFields
  rw [loadGeometry, hint 0 0 rfl, hint 1 0 rfl, hint 2 220 rfl,
    hint 3 84 rfl, loadGeometry]

theorem loadSettings_eq
    (h : ∀ name, JsonValue.ReadAs numbers ((ofFields (widgetFields child)).value name)
      (object'.value name)) :
    loadSettings numbers object' = layoutEntry child.tile := by
  have hproper : Proper (widgetFields child) := proper_widgetFields
  have hbool (name : ByteString) : object'.field JsonValue.toBool name =
      (ofFields (widgetFields child)).field JsonValue.toBool name :=
    field_eq (h name) (h name).toBool_eq
  have hdouble (name : ByteString) : object'.field (JsonValue.toDouble numbers) name =
      (ofFields (widgetFields child)).field (JsonValue.toDouble numbers) name :=
    field_eq (h name) (h name).toDouble_eq
  have hstring (name : ByteString) : object'.field (JsonValue.toString []) name =
      (ofFields (widgetFields child)).field (JsonValue.toString []) name :=
    field_eq (h name) ((h name).toString_eq [])
  have hstrings (name : ByteString) :
      object'.field (fun value => value.toArray.map (JsonValue.toString [])) name =
      (ofFields (widgetFields child)).field
        (fun value => value.toArray.map (JsonValue.toString [])) name :=
    field_eq (h name) (h name).toArray_map_toString_eq
  have hint {name : ByteString} {value : Option JsonValue} (i : ℕ)
      (hi : (widgetFields child)[i]? = some (name, value))
      (hvalue : ∀ double, value.getD .undefined ≠ .double double) :
      object'.field (JsonValue.toInt 0) name =
        (ofFields (widgetFields child)).field (JsonValue.toInt 0) name := by
    refine field_eq (h name) ((h name).toInt_eq ?_ 0)
    rw [hproper.value_at i hi]
    exact hvalue
  have hgeometry : loadGeometry (object'.value (text "geometry")).toObject =
      loadGeometry ((ofFields (widgetFields child)).value (text "geometry")).toObject := by
    have hread := (h (text "geometry")).toObject
    rw [hproper.value_at 29 rfl] at hread ⊢
    exact (loadGeometry_eq hread).trans loadGeometry_ofFields.symm
  have hsources : ((object'.value (text "linePlotSources")).toArray.filterMap fun value =>
      loadSource value.toObject) =
      ((ofFields (widgetFields child)).value (text "linePlotSources")).toArray.filterMap
        fun value => loadSource value.toObject :=
    filterMap_eq_of_forall₂ (h _).toArray fun _ _ _ hvalue =>
      loadSource_eq hvalue.toObject
  have hsize : ∀ double, (if 0 < child.tile.textFontPointSize then
      some (JsonValue.integer child.tile.textFontPointSize.toInt) else none).getD .undefined ≠
      .double double := by
    intro double
    split_ifs <;> exact JsonValue.noConfusion
  rw [← @loadSettings_ofFields numbers child, loadSettings, hgeometry, hsources,
    hint 16 rfl fun _ => JsonValue.noConfusion, hint 22 rfl hsize, loadShowLabel_eq h,
    (h _).toString_eq, (h _).toString_eq, loadSettings]
  simp only [hbool, hdouble, hstring, hstrings]

theorem loadEntry_eq (hkey : child.tile.key ≠ [])
    (h : ∀ name, JsonValue.ReadAs numbers ((ofFields (widgetFields child)).value name)
      (object'.value name)) :
    loadEntry numbers object' = some (layoutEntry child.tile) := by
  have hproper : Proper (widgetFields child) := proper_widgetFields
  have hread : (object'.value (text "variableKey")).toString [] = child.tile.key := by
    rw [(h _).toString_eq, hproper.value_at 1 rfl]
    rfl
  rw [loadEntry, hread, if_neg hkey, loadSettings_eq h]

/-- The entries of a saved file are those of the tiles, in their order. -/
theorem loadLayoutEntries_saveLayout {toJson : JsonObject → ByteString}
    {fromJson : ByteString → Option JsonObject}
    (hjson : (layoutObject canvas hiddenKeys).ReadsBack numbers toJson fromJson)
    (hnames : ∀ child ∈ canvas, child.objectName ≠ [])
    (hkeys : ∀ child ∈ canvas, child.tile.key ≠ []) :
    loadLayoutEntries numbers fromJson (saveLayout toJson canvas hiddenKeys) =
      some
        { entries := canvas.map fun child => layoutEntry child.tile
          hiddenKeys := hiddenKeys.filter (· ≠ []) } := by
  obtain ⟨root, hroot, hread⟩ := hjson
  have hproper : Proper (layoutFields canvas hiddenKeys) := proper_layoutFields
  have hchildren : canvas.filter (fun child => child.objectName ≠ []) = canvas :=
    List.filter_eq_self.mpr fun child hchild => decide_eq_true (hnames child hchild)
  have hentries : ((root.value (text "widgets")).toArray.filterMap fun value =>
      loadEntry numbers value.toObject) = canvas.map fun child => layoutEntry child.tile := by
    have hwidgets := (hread (text "widgets")).toArray
    rw [layoutObject, hproper.value_at 1 rfl, hchildren, Option.getD_some, JsonValue.toArray,
      List.forall₂_map_left_iff] at hwidgets
    rw [← List.filterMap_eq_map]
    exact filterMap_eq_of_forall₂ hwidgets fun child hchild _ hvalue =>
      loadEntry_eq (hkeys child hchild) hvalue.toObject
  have hhidden : ((root.value (text "hiddenKeys")).toArray.map (JsonValue.toString [])) =
      hiddenKeys := by
    rw [(hread _).toArray_map_toString_eq, layoutObject, hproper.value_at 2 rfl]
    split_ifs with hnone
    · exact hnone.symm
    · simp only [Option.getD_some, JsonValue.toArray, List.map_map]
      exact List.map_id _
  rw [loadLayoutEntries, saveLayout, hroot, Option.map_some, hentries, hhidden]

end ReadAgain

end SmartDashboard.Layout
