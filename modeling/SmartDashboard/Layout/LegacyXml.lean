import SmartDashboard.Layout.WidgetLayoutEntry
import SmartDashboard.Library.XmlStream
import SmartDashboard.Transport.ReplayFile

/-!
# Legacy layouts

How `LoadLegacyXmlLayoutEntries` makes layout entries of an XML layout: the widgets are read from
the stream of the parser with their place, their size and their properties, and each of them becomes
an entry. What cannot be imported is an issue; the texts of the issues, which are made unique and
sorted, are left out.

## Main definitions

- `readWidget`, `loadWidgets`: the loops over the stream
- `legacyEntry`, `legacyIssues`: the entry and the issues of a widget
- `loadLegacyXmlLayoutEntries`: the entries and the issues of a stream
- `IsLayout`: the documents that are layouts
- `legacyWidgets`: the widgets of a document

## Main results

- `loadLegacyXmlLayoutEntries_tokens`: what is loaded of the stream of a layout
-/

namespace SmartDashboard.Layout.LegacyXml

open Direct (ByteString DoubleBits)
open App (VariableType text)
open Transport (toLower)
open Widgets
open XmlStream

/-- What Qt makes of a text: the text without white space around it, or a number. -/
structure LegacyQt where
  trimmed : ByteString → ByteString
  toInt : ByteString → Option Int32
  toDouble : ByteString → Option DoubleBits

/-! ### Names of types and classes -/

/-- The names are compared without regard to their case. -/
def legacyTypeToVariableType (legacyType : ByteString) : VariableType :=
  if toLower legacyType = text "boolean" then .bool
  else if toLower legacyType = text "number" then .double
  else .string

def legacyClassToWidgetType (legacyClass : ByteString) (variableType : VariableType) : ByteString :=
  let plain :=
    match variableType with
    | .double => text "double.numeric"
    | .bool => text "bool.text"
    | .string => text "string.text"
  if text "SimpleDial" <:+ legacyClass then text "double.gauge"
  else if text "ProgressBar" <:+ legacyClass then text "double.progress"
  else if text "CheckBox" <:+ legacyClass then text "bool.checkbox"
  else if text "BooleanBox" <:+ legacyClass then text "bool.led"
  else if text "TextBox" <:+ legacyClass ∨ text "FormattedField" <:+ legacyClass then plain
  else plain

def isKnownClass (legacyClass : ByteString) : Prop :=
  text "SimpleDial" <:+ legacyClass ∨ text "ProgressBar" <:+ legacyClass ∨
    text "CheckBox" <:+ legacyClass ∨ text "BooleanBox" <:+ legacyClass ∨
    text "TextBox" <:+ legacyClass ∨ text "FormattedField" <:+ legacyClass

instance (legacyClass : ByteString) : Decidable (isKnownClass legacyClass) :=
  inferInstanceAs (Decidable (_ ∨ _ ∨ _ ∨ _ ∨ _ ∨ _))

def legacyDefaultGeometry (widgetType : ByteString) (x y : Int32) : QRect :=
  if widgetType = text "double.gauge" then ⟨x, y, 120, 90⟩
  else if widgetType = text "double.progress" then ⟨x, y, 120, 30⟩
  else if widgetType = text "bool.checkbox" then ⟨x, y, 160, 30⟩
  else if widgetType = text "bool.led" then ⟨x, y, 130, 30⟩
  else if widgetType = text "double.numeric" then ⟨x, y, 110, 30⟩
  else ⟨x, y, 220, 84⟩

/-! ### The loops -/

/-- What is read of a widget. Of several properties of one name the last counts. -/
structure LegacyWidget where
  variableKey : ByteString
  legacyType : ByteString
  legacyClass : ByteString
  x : Int32 := 0
  y : Int32 := 0
  width : Int32 := 0
  height : Int32 := 0
  properties : List (ByteString × ByteString) := []
  deriving DecidableEq, Repr

section Load

variable (qt : LegacyQt)

/-- A number, or else 0. -/
def intOr (value : ByteString) : Int32 := (qt.toInt value).getD 0

def startWidget (attributes : Attributes UInt8) : LegacyWidget where
  variableKey := qt.trimmed (attributes.value (text "field"))
  legacyType := qt.trimmed (attributes.value (text "type"))
  legacyClass := qt.trimmed (attributes.value (text "class"))

namespace LegacyWidget

def setLocation (widget : LegacyWidget) (attributes : Attributes UInt8) : LegacyWidget :=
  { widget with
    x := intOr qt (attributes.value (text "x"))
    y := intOr qt (attributes.value (text "y")) }

/-- A property without name is skipped. -/
def addProperty (widget : LegacyWidget) (attributes : Attributes UInt8) : LegacyWidget :=
  let propertyName := qt.trimmed (attributes.value (text "name"))
  if propertyName = [] then widget
  else
    { widget with
      properties :=
        widget.properties ++ [(propertyName, qt.trimmed (attributes.value (text "value")))] }

def property (widget : LegacyWidget) (name : ByteString) : Option ByteString :=
  widget.properties.reverse.lookup name

end LegacyWidget

/-- The inner loop, which ends with an element of the name of a widget. Nothing is the error of an
element in a text. -/
def readWidget (widget : LegacyWidget) :
    List (Token UInt8) → Option (LegacyWidget × List (Token UInt8))
  | [] => some (widget, [])
  | .endElement name :: rest =>
    if name = text "widget" then some (widget, rest) else readWidget widget rest
  | .characters _ :: rest => readWidget widget rest
  | .other :: rest => readWidget widget rest
  | .startElement name attributes :: rest =>
    if name = text "location" then
      readWidget (widget.setLocation qt attributes) (skipCurrentElement 0 rest)
    else if name = text "width" then
      match hread : readElementText rest with
      | some (width, rest') =>
        have := length_of_readElementText hread
        readWidget { widget with width := intOr qt width } rest'
      | none => none
    else if name = text "height" then
      match hread : readElementText rest with
      | some (height, rest') =>
        have := length_of_readElementText hread
        readWidget { widget with height := intOr qt height } rest'
      | none => none
    else if name = text "property" then
      readWidget (widget.addProperty qt attributes) (skipCurrentElement 0 rest)
    else if name = text "widget" then some (widget, skipCurrentElement 0 rest)
    else readWidget widget (skipCurrentElement 0 rest)
termination_by stream => stream.length
decreasing_by
  all_goals first
    | exact Nat.lt_succ_self _
    | exact Nat.lt_succ_of_le (length_skipCurrentElement_le 0 rest)
    | exact Nat.lt_succ_of_le this

theorem length_of_readWidget {widget read : LegacyWidget} {stream rest : List (Token UInt8)}
    (h : readWidget qt widget stream = some (read, rest)) : rest.length ≤ stream.length := by
  fun_induction readWidget qt widget stream with
  | case1 =>
    cases h
    exact Nat.le_refl _
  | case2 =>
    cases h
    exact Nat.le_succ _
  | case3 _ _ _ _ ih => exact Nat.le_succ_of_le (ih h)
  | case4 _ _ _ ih => exact Nat.le_succ_of_le (ih h)
  | case5 _ _ ih => exact Nat.le_succ_of_le (ih h)
  | case6 _ _ _ ih =>
    exact Nat.le_succ_of_le ((ih h).trans (length_skipCurrentElement_le 0 _))
  | case7 _ _ _ _ _ _ hlength _ ih => exact Nat.le_succ_of_le ((ih h).trans hlength)
  | case8 => cases h
  | case9 _ _ _ _ _ _ hlength _ _ ih => exact Nat.le_succ_of_le ((ih h).trans hlength)
  | case10 => cases h
  | case11 _ _ _ _ _ _ ih =>
    exact Nat.le_succ_of_le ((ih h).trans (length_skipCurrentElement_le 0 _))
  | case12 =>
    cases h
    exact Nat.le_succ_of_le (length_skipCurrentElement_le 0 _)
  | case13 _ _ _ _ _ _ _ _ _ ih =>
    exact Nat.le_succ_of_le ((ih h).trans (length_skipCurrentElement_le 0 _))

/-- The outer loop. -/
def loadWidgets : List (Token UInt8) → Option (List LegacyWidget)
  | [] => some []
  | .startElement name attributes :: rest =>
    if name = text "widget" then
      let widget := startWidget qt attributes
      if widget.variableKey = [] then loadWidgets (skipCurrentElement 0 rest)
      else
        match hread : readWidget qt widget rest with
        | some (read, rest') =>
          have := length_of_readWidget qt hread
          (loadWidgets rest').map (read :: ·)
        | none => none
    else loadWidgets rest
  | .endElement _ :: rest => loadWidgets rest
  | .characters _ :: rest => loadWidgets rest
  | .other :: rest => loadWidgets rest
termination_by stream => stream.length
decreasing_by
  all_goals first
    | exact Nat.lt_succ_self _
    | exact Nat.lt_succ_of_le (length_skipCurrentElement_le 0 rest)
    | exact Nat.lt_succ_of_le this

/-! ### The entry of a widget -/

/-- The digits of a number, in capital letters. -/
def hexDigits (n : ℕ) : ByteString :=
  (Nat.toDigits 16 n).map fun c => c.toUpper.toNat.toUInt8

/-- `arg` with a field of two zeros. -/
def hexArg (channel : Int32) : ByteString :=
  if channel < 0 then 45 :: hexDigits channel.toInt.natAbs
  else List.leftpad 2 48 (hexDigits channel.toInt.natAbs)

/-- The first three of the parts between dots. -/
def parseLegacyColor (value : ByteString) : Option ByteString :=
  match value.splitOn 46 with
  | r :: g :: b :: _ =>
    match qt.toInt r, qt.toInt g, qt.toInt b with
    | some r, some g, some b => some (35 :: (hexArg r ++ hexArg g ++ hexArg b))
    | _, _, _ => none
  | _ => none

namespace LegacyWidget

def widgetType (widget : LegacyWidget) : ByteString :=
  legacyClassToWidgetType widget.legacyClass (legacyTypeToVariableType widget.legacyType)

/-- The number of a property, if it has one. -/
def limit (widget : LegacyWidget) (name : ByteString) : Option DoubleBits :=
  (widget.property name).bind qt.toDouble

def fontSize (widget : LegacyWidget) : Option Int32 :=
  match (widget.property (text "Font Size")).bind qt.toInt with
  | some parsedFontSize => if 0 < parsedFontSize then some parsedFontSize else none
  | none => none

def color (widget : LegacyWidget) (name : ByteString) : Option ByteString :=
  if widget.widgetType = text "double.progress" then
    (widget.property name).bind (parseLegacyColor qt)
  else none

end LegacyWidget

def legacyEntry (widget : LegacyWidget) : WidgetLayoutEntry :=
  let default := legacyDefaultGeometry widget.widgetType widget.x widget.y
  { variableKey := widget.variableKey
    widgetType := widget.widgetType
    geometry :=
      { x := widget.x
        y := widget.y
        width := if 0 < widget.width then widget.width else default.width
        height := if 0 < widget.height then widget.height else default.height }
    gaugeLowerLimit := widget.limit qt (text "Lower Limit")
    gaugeUpperLimit := widget.limit qt (text "Upper Limit")
    gaugeTickInterval := widget.limit qt (text "Tick Interval")
    progressBarLowerLimit := widget.limit qt (text "Minimum")
    progressBarUpperLimit := widget.limit qt (text "Maximum")
    progressBarForegroundColor := widget.color qt (text "Foreground")
    progressBarBackgroundColor := widget.color qt (text "Background")
    doubleNumericEditable :=
      if widget.widgetType = text "double.numeric" ∧ text "TextBox" <:+ widget.legacyClass then
        some true
      else none
    textFontPointSize := widget.fontSize qt
    showLabel := if widget.widgetType = text "bool.checkbox" then some false else none }

/-! ### Issues -/

/-- A line for the user, with the widget that it is about. -/
inductive LegacyIssue
  | unsupportedClass (variableKey legacyClass widgetType : ByteString)
  | ignoredProperty (variableKey name : ByteString)
  deriving DecidableEq, Repr

/-- The names of properties that are not reported. -/
def supportedProperty (widgetType name : ByteString) : Prop :=
  name = text "Lower Limit" ∨ name = text "Upper Limit" ∨ name = text "Tick Interval" ∨
    name = text "Minimum" ∨ name = text "Maximum" ∨ name = text "Font Size" ∨
    (widgetType = text "double.progress" ∧
      (name = text "Foreground" ∨ name = text "Background"))

instance (widgetType name : ByteString) : Decidable (supportedProperty widgetType name) :=
  inferInstanceAs (Decidable (_ ∨ _ ∨ _ ∨ _ ∨ _ ∨ _ ∨ (_ ∧ (_ ∨ _))))

def legacyIssues (widget : LegacyWidget) : List LegacyIssue :=
  (if isKnownClass widget.legacyClass then []
    else [.unsupportedClass widget.variableKey widget.legacyClass widget.widgetType]) ++
  ((widget.properties.map Prod.fst).filter fun name =>
    ¬supportedProperty widget.widgetType name).map (.ignoredProperty widget.variableKey)

structure LegacyLayout where
  entries : List WidgetLayoutEntry
  issues : List LegacyIssue

/-- Nothing is an error of the parser. -/
def loadLegacyXmlLayoutEntries (stream : List (Token UInt8)) : Option LegacyLayout :=
  (loadWidgets qt stream).map fun widgets =>
    { entries := widgets.map (legacyEntry qt)
      issues := widgets.flatMap legacyIssues }

/-! ### Documents -/

/-- What a child of a widget says of it. -/
def LegacyWidget.addChild (widget : LegacyWidget) : Node UInt8 → LegacyWidget
  | .element name attributes children =>
    if name = text "location" then widget.setLocation qt attributes
    else if name = text "width" then
      { widget with width := intOr qt (Node.listText children) }
    else if name = text "height" then
      { widget with height := intOr qt (Node.listText children) }
    else if name = text "property" then widget.addProperty qt attributes
    else widget
  | .characters _ => widget
  | .other => widget

def readChildren (element : Element UInt8) : LegacyWidget :=
  element.children.foldl (LegacyWidget.addChild qt) (startWidget qt element.attributes)

/-- A width or a height is a text. -/
def HasTextSize : Node UInt8 → Prop
  | .element name _ children =>
    name = text "width" ∨ name = text "height" → ∀ child ∈ children, child.IsText
  | .characters _ => True
  | .other => True

/-- A widget has no other widgets in it. -/
structure IsWidget (element : Element UInt8) : Prop where
  single : Node.listElements (text "widget") element.children = []
  sizes : ∀ child ∈ element.children, HasTextSize child

/-- A layout may have other elements, and widgets at every depth. -/
def IsLayout (document : List (Node UInt8)) : Prop :=
  ∀ element ∈ Node.listElements (text "widget") document, IsWidget element

/-- The elements with a field. -/
def fieldElements (elements : List (Element UInt8)) : List (Element UInt8) :=
  elements.filter fun element => (startWidget qt element.attributes).variableKey ≠ []

/-- A child that has no widget in it is read to its end. -/
theorem readWidget_child {child : Node UInt8}
    (hsingle : child.elements (text "widget") = []) (hsize : HasTextSize child)
    (widget : LegacyWidget) (rest : List (Token UInt8)) :
    readWidget qt widget (child.tokens ++ rest) =
      readWidget qt (widget.addChild qt child) rest := by
  cases child with
  | characters => rw [Node.tokens, List.singleton_append, readWidget, LegacyWidget.addChild]
  | other => rw [Node.tokens, List.singleton_append, readWidget, LegacyWidget.addChild]
  | element name attributes children =>
    have hname : name ≠ text "widget" := by
      rintro rfl
      rw [Node.elements, if_pos rfl] at hsingle
      cases hsingle
    have htext (hnamed : name = text "width" ∨ name = text "height") :=
      readElementText_text (hsize hnamed) name rest
    rw [Node.tokens, List.cons_append, List.append_assoc, List.singleton_append, readWidget,
      LegacyWidget.addChild, skipCurrentElement_element]
    split_ifs with hlocation hwidth hheight hproperty
    · rfl
    · split
      · next heq =>
        cases (htext (.inl hwidth)).symm.trans heq
        rfl
      · next heq => cases (htext (.inl hwidth)).symm.trans heq
    · split
      · next heq =>
        cases (htext (.inr hheight)).symm.trans heq
        rfl
      · next heq => cases (htext (.inr hheight)).symm.trans heq
    · rfl
    · rfl

theorem readWidget_listTokens {children : List (Node UInt8)}
    (hsingle : Node.listElements (text "widget") children = [])
    (hsizes : ∀ child ∈ children, HasTextSize child) (widget : LegacyWidget)
    (rest : List (Token UInt8)) :
    readWidget qt widget (Node.listTokens children ++ .endElement (text "widget") :: rest) =
      some (children.foldl (LegacyWidget.addChild qt) widget, rest) := by
  induction children generalizing widget with
  | nil =>
    rw [Node.listTokens, List.nil_append, readWidget, if_pos rfl]
    rfl
  | cons child children ih =>
    rw [Node.listElements, List.append_eq_nil_iff] at hsingle
    rw [List.forall_mem_cons] at hsizes
    rw [Node.listTokens, List.append_assoc, readWidget_child qt hsingle.1 hsizes.1,
      ih hsingle.2 hsizes.2]
    rfl

theorem fieldElements_append (elements elements' : List (Element UInt8)) :
    fieldElements qt (elements ++ elements') =
      fieldElements qt elements ++ fieldElements qt elements' :=
  List.filter_append ..

mutual

theorem loadWidgets_tokens : ∀ (node : Node UInt8) (rest : List (Token UInt8)),
    (∀ element ∈ node.elements (text "widget"), IsWidget element) →
    loadWidgets qt (node.tokens ++ rest) =
      (loadWidgets qt rest).map
        ((fieldElements qt (node.elements (text "widget"))).map (readChildren qt) ++ ·)
  | .element name attributes children, rest, h => by
    rw [Node.elements] at h ⊢
    rw [Node.tokens, List.cons_append, List.append_assoc, List.singleton_append, loadWidgets]
    split_ifs at h ⊢ with hname
    · -- a widget, with no other in it
      obtain ⟨hsingle, hsizes⟩ := h _ (List.mem_append_left _ List.mem_cons_self)
      dsimp only at hsingle hsizes
      rw [hsingle, List.append_nil, hname]
      dsimp only
      split_ifs with hfield
      · have hnone : fieldElements qt [⟨attributes, children⟩] = [] :=
          List.filter_cons_of_neg (by simpa using hfield)
        rw [skipCurrentElement_element, hnone]
        exact Option.map_id_apply.symm
      · have hsome : fieldElements qt [⟨attributes, children⟩] = [⟨attributes, children⟩] :=
          List.filter_cons_of_pos (by simpa using hfield)
        have hread := readWidget_listTokens qt hsingle hsizes (startWidget qt attributes) rest
        rw [hsome]
        split
        · next heq =>
          cases hread.symm.trans heq
          rfl
        · next heq => cases hread.symm.trans heq
    · rw [loadWidgets_listTokens children _ fun element helement =>
        h element (List.mem_append_right _ helement), loadWidgets]
      rfl
  | .characters text, rest, h => by
    rw [Node.tokens, List.singleton_append, loadWidgets, Node.elements]
    exact Option.map_id_apply.symm
  | .other, rest, h => by
    rw [Node.tokens, List.singleton_append, loadWidgets, Node.elements]
    exact Option.map_id_apply.symm

theorem loadWidgets_listTokens : ∀ (nodes : List (Node UInt8)) (rest : List (Token UInt8)),
    IsLayout nodes →
    loadWidgets qt (Node.listTokens nodes ++ rest) =
      (loadWidgets qt rest).map
        ((fieldElements qt (Node.listElements (text "widget") nodes)).map (readChildren qt) ++ ·)
  | [], rest, h => Option.map_id_apply.symm
  | node :: nodes, rest, h => by
    rw [IsLayout, Node.listElements, List.forall_mem_append] at h
    rw [Node.listTokens, List.append_assoc, loadWidgets_tokens node _ h.1,
      loadWidgets_listTokens nodes rest h.2, Node.listElements, fieldElements_append,
      List.map_append, Option.map_map]
    congr 1
    funext widgets
    exact (List.append_assoc ..).symm

end

/-- The widgets of a layout. -/
def legacyWidgets (document : List (Node UInt8)) : List LegacyWidget :=
  (fieldElements qt (Node.listElements (text "widget") document)).map (readChildren qt)

/-- Every widget with a field is loaded, in the order of the document. -/
theorem loadLegacyXmlLayoutEntries_tokens {document : List (Node UInt8)}
    (h : IsLayout document) :
    loadLegacyXmlLayoutEntries qt (Node.listTokens document) =
      some
        { entries := (legacyWidgets qt document).map (legacyEntry qt)
          issues := (legacyWidgets qt document).flatMap legacyIssues } := by
  have hload := loadWidgets_listTokens qt document [] h
  rw [List.append_nil, loadWidgets, Option.map_some, List.append_nil] at hload
  rw [loadLegacyXmlLayoutEntries, hload]
  rfl

end Load

end SmartDashboard.Layout.LegacyXml
