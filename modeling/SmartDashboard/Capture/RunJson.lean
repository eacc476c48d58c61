import SmartDashboard.App.VariableStore
import SmartDashboard.Capture.Series
import SmartDashboard.Library.GeneralFormat

/-!
# The output of a capture

The text that `BuildRunJson` renders by hand: an object of lines, with the metadata and then one
object for each series. A double goes through an output stream, which writes words for an infinity
and for a NaN.

## Main definitions

- `escapeJson`, `renderValueJson`: strings and values
- `buildRunJson`: the text, and `runMembers`, the object it stands for
- `FiniteRun`: every double that is rendered is a number

## Main results

- `writes_buildRunJson`: the text stands for the object if the run is a `FiniteRun`, and otherwise
  for nothing
-/

namespace SmartDashboard.Capture

open Direct (ByteString DoubleBits ValueType)
open App (text)
open Json (Token Tree StringUnit Writes WritesValue WritesAll)

/-! ### The text -/

def hexDigit (n : ℕ) : UInt8 := if n < 10 then UInt8.ofNat (48 + n) else UInt8.ofNat (87 + n)

def escapeByte (ch : UInt8) : ByteString :=
  if ch = 92 then text "\\\\"
  else if ch = 34 then text "\\\""
  else if ch = 8 then text "\\b"
  else if ch = 12 then text "\\f"
  else if ch = 10 then text "\\n"
  else if ch = 13 then text "\\r"
  else if ch = 9 then text "\\t"
  else if ch < 0x20 then text "\\u00" ++ [hexDigit (ch.toNat / 16), hexDigit (ch.toNat % 16)]
  else [ch]

def escapeJson (value : ByteString) : ByteString := value.flatMap escapeByte

def quoted (value : ByteString) : ByteString := 34 :: (escapeJson value ++ [34])

def boolText (value : Bool) : ByteString := if value then text "true" else text "false"

def intText (value : Int32) : ByteString :=
  (if value.toInt < 0 then [45] else []) ++ Decimal.decimal value.toInt.natAbs

/-- A string array is a string here. -/
def valueTypeToString : ValueType → ByteString
  | .bool => text "bool"
  | .double => text "double"
  | .string => text "string"
  | .stringArray => text "string"

def renderValueJson : SampleValue → ByteString
  | .bool value => boolText value
  | .double value => Binary64.formatGeneral 17 value
  | .string value => quoted value

/-- The options that go into the metadata. -/
structure CliOptions where
  label : ByteString
  runId : ByteString
  durationSec : DoubleBits
  startDelayMs : Int32 := 0
  sampleMs : Int32 := 0
  overwrite : Bool := false
  append : Bool := false
  mappingName : ByteString := []
  dataEventName : ByteString := []
  heartbeatEventName : ByteString := []
  waitForConnectedMs : Int32 := 2000
  requireFirstSample : Bool := false
  connectMethod : ByteString := text "direct"
  signalsCsv : ByteString := []
  stopFilePath : ByteString := []
  tags : List (ByteString × ByteString) := []

/-- A line of an object: spaces, the name and the value. -/
def line (indent : ℕ) (name : String) (value : ByteString) : ByteString :=
  List.replicate indent 32 ++ (quoted (text name) ++ (text ": " ++ value))

/-- An object of lines, its closing brace in the given column. -/
def block (indent : ℕ) (lines : List ByteString) : ByteString :=
  text "\x7b\n" ++ ((text ",\n").intercalate lines ++
    (text "\n" ++ (List.replicate indent 32 ++ text "\x7d")))

def argsJson (options : CliOptions) : ByteString :=
  block 4
    [line 6 "start_delay_ms" (intText options.startDelayMs),
      line 6 "sample_ms" (intText options.sampleMs),
      line 6 "overwrite" (boolText options.overwrite),
      line 6 "append" (boolText options.append),
      line 6 "mapping_name" (quoted options.mappingName),
      line 6 "data_event_name" (quoted options.dataEventName),
      line 6 "heartbeat_event_name" (quoted options.heartbeatEventName),
      line 6 "wait_for_connected_ms" (intText options.waitForConnectedMs),
      line 6 "require_first_sample" (boolText options.requireFirstSample),
      line 6 "connect_method" (quoted options.connectMethod),
      line 6 "signals" (quoted options.signalsCsv),
      line 6 "stop_file" (quoted options.stopFilePath)]

def tagJson (tag : ByteString × ByteString) : ByteString :=
  quoted tag.1 ++ (text ": " ++ quoted tag.2)

def tagsJson (tags : List (ByteString × ByteString)) : ByteString :=
  text "\x7b" ++ ((text ", ").intercalate (tags.map tagJson) ++ text "\x7d")

/-- The times of the wall clock are given as their texts. -/
def metadataJson (options : CliOptions) (startTimeUtc endTimeUtc : ByteString)
    (capturedUpdateCount : UInt64) : ByteString :=
  block 2
    [line 4 "label" (quoted options.label),
      line 4 "run_id" (quoted options.runId),
      line 4 "start_time_utc" (quoted startTimeUtc),
      line 4 "end_time_utc" (quoted endTimeUtc),
      line 4 "duration_sec" (Binary64.formatGeneral 6 options.durationSec),
      line 4 "captured_update_count" (Decimal.decimal capturedUpdateCount.toNat),
      line 4 "args" (argsJson options),
      line 4 "tags" (tagsJson options.tags)]

def sampleJson (point : SamplePoint) : ByteString :=
  text "\x7b" ++ ((text ", ").intercalate
    [line 0 "t_us" (Decimal.decimal point.tUs.toNat),
      line 0 "value" (renderValueJson point.value)] ++ text "\x7d")

def seriesJson (sampleMs : Int32) (series : SignalSeries) : ByteString :=
  text "    " ++ block 4
    [line 6 "key" (quoted series.key),
      line 6 "type" (quoted (valueTypeToString series.type)),
      line 6 "sample_count"
        (Decimal.decimal (UInt64.ofNat (outputSamples sampleMs series).length).toNat),
      line 6 "samples" (text "[" ++
        ((text ", ").intercalate ((outputSamples sampleMs series).map sampleJson) ++ text "]"))]

def buildRunJson (options : CliOptions) (startTimeUtc endTimeUtc : ByteString)
    (state : CaptureState) (capturedUpdateCount : UInt64) : ByteString :=
  block 0
    [line 2 "schema_version" (Decimal.decimal 1),
      line 2 "metadata" (metadataJson options startTimeUtc endTimeUtc capturedUpdateCount),
      line 2 "signals" (text "[\n" ++
        ((text ",\n").intercalate (state.seriesByKey.map (seriesJson state.sampleMs)) ++
          text "\n  ]"))] ++ text "\n"

/-! ### The tree -/

/-- What the rendering of a byte is read as. -/
def unitOf (ch : UInt8) : StringUnit :=
  if ch < 0x20 ∧ ¬(ch = 8 ∨ ch = 9 ∨ ch = 10 ∨ ch = 12 ∨ ch = 13) then .code ch.toUInt16
  else .byte ch

def units (value : ByteString) : List StringUnit := value.map unitOf

def natTree (n : ℕ) : Tree := .number { int := Decimal.decimal n }

def intTree (value : Int32) : Tree :=
  .number { negative := value.toInt < 0, int := Decimal.decimal value.toInt.natAbs }

def valueTree : SampleValue → Tree
  | .bool value => .bool value
  | .double value => .number (Binary64.generalNumeral 17 value)
  | .string value => .string (units value)

def argsTree (options : CliOptions) : Tree :=
  .object
    [(units (text "start_delay_ms"), intTree options.startDelayMs),
      (units (text "sample_ms"), intTree options.sampleMs),
      (units (text "overwrite"), .bool options.overwrite),
      (units (text "append"), .bool options.append),
      (units (text "mapping_name"), .string (units options.mappingName)),
      (units (text "data_event_name"), .string (units options.dataEventName)),
      (units (text "heartbeat_event_name"), .string (units options.heartbeatEventName)),
      (units (text "wait_for_connected_ms"), intTree options.waitForConnectedMs),
      (units (text "require_first_sample"), .bool options.requireFirstSample),
      (units (text "connect_method"), .string (units options.connectMethod)),
      (units (text "signals"), .string (units options.signalsCsv)),
      (units (text "stop_file"), .string (units options.stopFilePath))]

def metadataTree (options : CliOptions) (startTimeUtc endTimeUtc : ByteString)
    (capturedUpdateCount : UInt64) : Tree :=
  .object
    [(units (text "label"), .string (units options.label)),
      (units (text "run_id"), .string (units options.runId)),
      (units (text "start_time_utc"), .string (units startTimeUtc)),
      (units (text "end_time_utc"), .string (units endTimeUtc)),
      (units (text "duration_sec"), .number (Binary64.generalNumeral 6 options.durationSec)),
      (units (text "captured_update_count"), natTree capturedUpdateCount.toNat),
      (units (text "args"), argsTree options),
      (units (text "tags"),
        .object (options.tags.map fun tag => (units tag.1, .string (units tag.2))))]

def sampleTree (point : SamplePoint) : Tree :=
  .object
    [(units (text "t_us"), natTree point.tUs.toNat),
      (units (text "value"), valueTree point.value)]

def seriesTree (sampleMs : Int32) (series : SignalSeries) : Tree :=
  .object
    [(units (text "key"), .string (units series.key)),
      (units (text "type"), .string (units (valueTypeToString series.type))),
      (units (text "sample_count"),
        natTree (UInt64.ofNat (outputSamples sampleMs series).length).toNat),
      (units (text "samples"), .array ((outputSamples sampleMs series).map sampleTree))]

def runMembers (options : CliOptions) (startTimeUtc endTimeUtc : ByteString)
    (state : CaptureState) (capturedUpdateCount : UInt64) : List (List StringUnit × Tree) :=
  [(units (text "schema_version"), natTree 1),
    (units (text "metadata"),
      metadataTree options startTimeUtc endTimeUtc capturedUpdateCount),
    (units (text "signals"), .array (state.seriesByKey.map (seriesTree state.sampleMs)))]

/-! ### From the text to the tree -/

/-- A value that is a number if it is a double. -/
def SampleValue.Finite : SampleValue → Prop
  | .double value => Binary64.IsFinite value
  | _ => True

/-- The strings are UTF-8. -/
structure CliOptions.Texts (options : CliOptions) : Prop where
  label : Utf8 options.label
  runId : Utf8 options.runId
  mappingName : Utf8 options.mappingName
  dataEventName : Utf8 options.dataEventName
  heartbeatEventName : Utf8 options.heartbeatEventName
  connectMethod : Utf8 options.connectMethod
  signalsCsv : Utf8 options.signalsCsv
  stopFilePath : Utf8 options.stopFilePath
  tags : ∀ tag ∈ options.tags, Utf8 tag.1 ∧ Utf8 tag.2

def SampleValue.IsText : SampleValue → Prop
  | .string value => Utf8 value
  | _ => True

theorem escapeByte_eq_self {ch : UInt8} (hlow : ¬ch < 0x20) (hslash : ch ≠ 92) (hquote : ch ≠ 34) :
    escapeByte ch = [ch] := by
  have hne : ∀ b : UInt8, b < 0x20 → ch ≠ b := by
    rintro b hb rfl
    exact hlow hb
  rw [escapeByte, if_neg hslash, if_neg hquote, if_neg (hne 8 (by decide)),
    if_neg (hne 12 (by decide)), if_neg (hne 10 (by decide)), if_neg (hne 13 (by decide)),
    if_neg (hne 9 (by decide)), if_neg hlow]

theorem escapeByte_of_lt : ∀ n < 32, ∀ rest,
    Json.lexString (escapeByte (UInt8.ofNat n) ++ rest) =
      (Json.lexString rest).map fun read => (unitOf (UInt8.ofNat n) :: read.1, read.2) := by
  intro n hn rest
  interval_cases n <;> rfl

theorem lexString_escapeByte (ch : UInt8) (rest : ByteString) :
    Json.lexString (escapeByte ch ++ rest) =
      (Json.lexString rest).map fun read => (unitOf ch :: read.1, read.2) := by
  by_cases hlow : ch < 0x20
  · have h := escapeByte_of_lt ch.toNat (UInt8.lt_iff_toNat_lt.mp hlow) rest
    rwa [UInt8.ofNat_toNat] at h
  by_cases hslash : ch = 92
  · subst hslash
    rfl
  by_cases hquote : ch = 34
  · subst hquote
    rfl
  -- what is left stands for itself
  have hunit : unitOf ch = .byte ch := if_neg fun h => hlow h.1
  have hstep : Json.stringStep .plain ch = .unit (.byte ch) := by
    rw [Json.stringStep, if_neg hquote, if_neg hslash, if_neg hlow]
  rw [escapeByte_eq_self hlow hslash hquote, hunit, List.singleton_append, Json.lexString,
    Json.lexStringFrom, hstep]

theorem escapeByte_ascii : ∀ n < 128,
    ((escapeByte (UInt8.ofNat n)).all fun b => b < 128) = true := by
  intro n hn
  interval_cases n <;> rfl

theorem utf8_escapeJson {value : ByteString} (h : Utf8 value) : Utf8 (escapeJson value) := by
  refine h.flatMap ?_ ?_
  · intro b hb c hc
    have hall := escapeByte_ascii b.toNat (UInt8.lt_iff_toNat_lt.mp hb)
    rw [UInt8.ofNat_toNat] at hall
    exact of_decide_eq_true (List.all_eq_true.mp hall c hc)
  · intro b hb
    have hne : ∀ c : UInt8, c < 128 → b ≠ c := by
      rintro c hc rfl
      exact UInt8.not_le.mpr hc hb
    have hlow : ¬b < 0x20 := fun hlt => UInt8.not_le.mpr (UInt8.lt_trans hlt (by decide)) hb
    exact escapeByte_eq_self hlow (hne 92 (by decide)) (hne 34 (by decide))

theorem writes_quoted {value : ByteString} (h : Utf8 value) :
    Writes (quoted value) True (Tree.string (units value)).tokens := by
  rw [Tree.tokens]
  exact Json.writes_string lexString_escapeByte (utf8_escapeJson h)

theorem writes_boolText (value : Bool) : Writes (boolText value) True (Tree.bool value).tokens := by
  rw [Tree.tokens]
  cases value <;> exact Json.writes_of_lex rfl rfl (by simp)

theorem writesValue_decimal (n : ℕ) :
    WritesValue (Decimal.decimal n) True (natTree n).tokens := by
  have h := Json.writesValue_number (Json.Numeral.valid_decimal false n)
  rw [Json.Numeral.text_decimal] at h
  rw [natTree, Tree.tokens]
  exact h

theorem writesValue_intText (value : Int32) :
    WritesValue (intText value) True (intTree value).tokens := by
  have h := Json.writesValue_number
    (Json.Numeral.valid_decimal (decide (value.toInt < 0)) value.toInt.natAbs)
  rw [Json.Numeral.text_decimal] at h
  rw [intTree, Tree.tokens]
  simpa [intText] using h

theorem writesValue_formatGeneral {precision : ℕ} (hprecision : 0 < precision)
    (value : DoubleBits) :
    WritesValue (Binary64.formatGeneral precision value) (Binary64.IsFinite value)
      (Tree.number (Binary64.generalNumeral precision value)).tokens := by
  rw [Tree.tokens]
  exact Binary64.writesValue_formatGeneral hprecision value

/-! ### Lines and lists -/

theorem mark_lineBreak : Json.Mark (text ",\n") .comma :=
  Json.mark_of_lex rfl rfl rfl (by decide) (by rintro n ⟨⟩)

theorem mark_comma : Json.Mark (text ", ") .comma :=
  Json.mark_of_lex rfl rfl rfl (by decide) (by rintro n ⟨⟩)

theorem mark_rightBrace : Json.Mark (text "\x7d") .rightBrace :=
  Json.mark_of_lex rfl rfl rfl (by decide) (by rintro n ⟨⟩)

theorem mark_rightBracket : Json.Mark (text "]") .rightBracket :=
  Json.mark_of_lex rfl rfl rfl (by decide) (by rintro n ⟨⟩)

theorem mark_signalsEnd : Json.Mark (text "\n  ]") .rightBracket :=
  Json.mark_of_lex rfl rfl rfl (by decide) (by rintro n ⟨⟩)

theorem writes_leftBrace : Writes (text "\x7b") True [.leftBrace] :=
  Json.writes_of_lex rfl rfl (by simp)

theorem writes_leftBracket : Writes (text "[") True [.leftBracket] :=
  Json.writes_of_lex rfl rfl (by simp)

theorem writes_colon : Writes (text ": ") True [.colon] :=
  Json.writes_of_lex rfl rfl (by simp)

theorem writesValue_member {name value : ByteString} {c : Prop} {tree : Tree}
    (hname : Utf8 name) (h : WritesValue value c tree.tokens) :
    WritesValue (quoted name ++ (text ": " ++ value)) c
      (.string (units name) :: .colon :: tree.tokens) := by
  have hquoted := writes_quoted hname
  rw [Tree.tokens] at hquoted
  exact (hquoted.append_value (writes_colon.append_value h)).congr (by simp)

theorem writesAll_lines_nil : WritesAll [] True (Json.memberTokens []) := by
  rw [Json.memberTokens]
  exact .nil

theorem writesAll_line {indent : ℕ} {name : String} {value : ByteString} {c d : Prop} {tree : Tree}
    {lines : List ByteString} {members : List (List StringUnit × Tree)}
    (hname : ((text name).all fun b => b < 128) = true) (h : WritesValue value c tree.tokens)
    (hlines : WritesAll lines d (Json.memberTokens members)) :
    WritesAll (line indent name value :: lines) (c ∧ d)
      (Json.memberTokens ((units (text name), tree) :: members)) := by
  have hline := (Json.writes_spaces indent).append_value (writesValue_member (.of_all hname) h)
  rw [Json.memberTokens]
  exact .cons (hline.congr (by simp)) hlines

theorem writes_block {indent : ℕ} {c : Prop} {lines : List ByteString}
    {members : List (List StringUnit × Tree)} (h : WritesAll lines c (Json.memberTokens members)) :
    Writes (block indent lines) c (Tree.object members).tokens :=
  h.object (Json.writes_of_lex rfl rfl (by simp)) mark_lineBreak
    ((mark_rightBrace.spaces indent).space (.inr (.inr (.inl rfl))))

theorem writes_argsJson {options : CliOptions} (h : options.Texts) :
    Writes (argsJson options) True (argsTree options).tokens :=
  (writes_block <|
    writesAll_line rfl (writesValue_intText _) <| writesAll_line rfl (writesValue_intText _) <|
    writesAll_line rfl (writes_boolText _).value <| writesAll_line rfl (writes_boolText _).value <|
    writesAll_line rfl (writes_quoted h.mappingName).value <|
    writesAll_line rfl (writes_quoted h.dataEventName).value <|
    writesAll_line rfl (writes_quoted h.heartbeatEventName).value <|
    writesAll_line rfl (writesValue_intText _) <| writesAll_line rfl (writes_boolText _).value <|
    writesAll_line rfl (writes_quoted h.connectMethod).value <|
    writesAll_line rfl (writes_quoted h.signalsCsv).value <|
    writesAll_line rfl (writes_quoted h.stopFilePath).value writesAll_lines_nil).congr (by simp)

theorem writes_tagsJson {tags : List (ByteString × ByteString)}
    (h : ∀ tag ∈ tags, Utf8 tag.1 ∧ Utf8 tag.2) :
    Writes (tagsJson tags) True
      (Tree.object (tags.map fun tag => (units tag.1, .string (units tag.2)))).tokens := by
  have htag : ∀ tag ∈ tags, WritesValue (tagJson tag) True
      (.string (units tag.1) :: .colon :: (Tree.string (units tag.2)).tokens) :=
    fun tag htag => writesValue_member (h tag htag).1 (writes_quoted (h tag htag).2).value
  obtain ⟨d, hall, hd⟩ := Json.writesAll_map htag
  have hmembers : Json.memberTokens (tags.map fun tag => (units tag.1, .string (units tag.2))) =
      tags.map fun tag =>
        .string (units tag.1) :: .colon :: (Tree.string (units tag.2)).tokens := by
    rw [Json.memberTokens_eq, List.map_map]
    rfl
  rw [← hmembers] at hall
  exact (hall.object writes_leftBrace mark_comma mark_rightBrace).congr
    (by simp [hd])

theorem writes_metadataJson {options : CliOptions} {startTimeUtc endTimeUtc : ByteString}
    (h : options.Texts) (hstart : Utf8 startTimeUtc) (hend : Utf8 endTimeUtc)
    (capturedUpdateCount : UInt64) :
    Writes (metadataJson options startTimeUtc endTimeUtc capturedUpdateCount)
      (Binary64.IsFinite options.durationSec)
      (metadataTree options startTimeUtc endTimeUtc capturedUpdateCount).tokens :=
  (writes_block <|
    writesAll_line rfl (writes_quoted h.label).value <|
    writesAll_line rfl (writes_quoted h.runId).value <|
    writesAll_line rfl (writes_quoted hstart).value <|
    writesAll_line rfl (writes_quoted hend).value <|
    writesAll_line rfl (writesValue_formatGeneral (by decide) _) <|
    writesAll_line rfl (writesValue_decimal _) <|
    writesAll_line rfl (writes_argsJson h).value <|
    writesAll_line rfl (writes_tagsJson h.tags).value writesAll_lines_nil).congr (by simp)

/-! ### The series -/

theorem writesValue_renderValueJson {value : SampleValue} (h : value.IsText) :
    WritesValue (renderValueJson value) value.Finite (valueTree value).tokens := by
  cases value with
  | bool value => exact (writes_boolText value).value
  | double value => exact writesValue_formatGeneral (by decide) value
  | string value => exact (writes_quoted h).value

theorem writes_sampleJson {point : SamplePoint} (h : point.value.IsText) :
    Writes (sampleJson point) point.value.Finite (sampleTree point).tokens :=
  (WritesAll.object writes_leftBrace mark_comma mark_rightBrace <|
    writesAll_line rfl (writesValue_decimal _) <|
    writesAll_line rfl (writesValue_renderValueJson h) writesAll_lines_nil).congr (by simp)

theorem writesAll_map {α : Type*} {xs : List α} {json : α → ByteString} {c : α → Prop}
    {tree : α → Tree} (h : ∀ x ∈ xs, WritesValue (json x) (c x) (tree x).tokens) :
    ∃ d, WritesAll (xs.map json) d (Json.itemTokens (xs.map tree)) ∧ (d ↔ ∀ x ∈ xs, c x) := by
  rw [Json.itemTokens_eq, List.map_map]
  exact Json.writesAll_map h

/-- The doubles of the samples that are written are numbers. -/
def SignalSeries.Finite (sampleMs : Int32) (series : SignalSeries) : Prop :=
  ∀ point ∈ outputSamples sampleMs series, point.value.Finite

/-- The strings of a series are UTF-8. -/
structure SignalSeries.IsText (sampleMs : Int32) (series : SignalSeries) : Prop where
  key : Utf8 series.key
  value : ∀ point ∈ outputSamples sampleMs series, point.value.IsText

theorem utf8_valueTypeToString (type : ValueType) : Utf8 (valueTypeToString type) := by
  cases type <;> exact .of_all rfl

theorem writes_seriesJson {sampleMs : Int32} {series : SignalSeries}
    (h : series.IsText sampleMs) :
    Writes (seriesJson sampleMs series) (series.Finite sampleMs)
      (seriesTree sampleMs series).tokens := by
  obtain ⟨d, hall, hd⟩ := writesAll_map fun point hpoint =>
    (writes_sampleJson (h.value point hpoint)).value
  have hsamples := hall.array writes_leftBracket mark_comma mark_rightBracket
  exact ((Json.writes_spaces 4).append <| writes_block <|
    writesAll_line rfl (writes_quoted h.key).value <|
    writesAll_line rfl (writes_quoted (utf8_valueTypeToString series.type)).value <|
    writesAll_line rfl (writesValue_decimal _) <|
    writesAll_line rfl hsamples.value writesAll_lines_nil).congr
      (by simp [hd, SignalSeries.Finite])

/-- Every double that the text is made of is a number. -/
structure FiniteRun (options : CliOptions) (state : CaptureState) : Prop where
  durationSec : Binary64.IsFinite options.durationSec
  series : ∀ series ∈ state.seriesByKey, series.Finite state.sampleMs

/-- The text stands for the object if every double in it is a number, and otherwise for nothing. -/
theorem writes_buildRunJson {options : CliOptions} {startTimeUtc endTimeUtc : ByteString}
    {state : CaptureState} (h : options.Texts) (hstart : Utf8 startTimeUtc)
    (hend : Utf8 endTimeUtc) (hseries : ∀ series ∈ state.seriesByKey, series.IsText state.sampleMs)
    (capturedUpdateCount : UInt64) :
    Writes (buildRunJson options startTimeUtc endTimeUtc state capturedUpdateCount)
      (FiniteRun options state)
      (Tree.object
        (runMembers options startTimeUtc endTimeUtc state capturedUpdateCount)).tokens := by
  obtain ⟨d, hall, hd⟩ := writesAll_map fun series hmem =>
    (writes_seriesJson (hseries series hmem)).value
  have hopening : Writes (text "[\n") True [.leftBracket] := Json.writes_of_lex rfl rfl (by simp)
  have hsignals := hall.array hopening mark_lineBreak mark_signalsEnd
  have hnewline : Writes (text "\n") True [] := Json.writes_of_lex rfl rfl (by simp)
  rw [← List.append_nil (Tree.tokens _)]
  refine ((writes_block <|
    writesAll_line rfl (writesValue_decimal 1) <|
    writesAll_line rfl (writes_metadataJson h hstart hend capturedUpdateCount).value <|
    writesAll_line rfl hsignals.value writesAll_lines_nil).append hnewline).congr ?_
  constructor
  · rintro ⟨⟨-, hduration, hd', -⟩, -⟩
    exact ⟨hduration, hd.mp hd'⟩
  · rintro ⟨hduration, hall⟩
    exact ⟨⟨trivial, hduration, hd.mpr hall, trivial⟩, trivial⟩

end SmartDashboard.Capture
