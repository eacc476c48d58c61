import Mathlib.Logic.Function.Basic
import SmartDashboard.Library.Binary64
import SmartDashboard.Library.Json
import SmartDashboard.Transport.ReplayFile

/-!
# Capture sessions as replay files

How `TryParseCaptureSession` makes replay events of the output of the capture tool: an event for
each sample of each series, the value read by the type of the series. The document that
`QJsonDocument` makes of a text is given by its syntax tree; what it makes of numbers and strings is
a parameter.

## Main definitions

- `QtParser`, `QtParser.Lawful`: the JSON parser of Qt, and what is relied upon
- `tryParseCaptureSession`: the events of a document
- `Reading`, `signalReadings`: what the samples of a series are read as

## Main results

- `readings_tryParseCaptureSession`: the events are those of the series, one after the other
-/

namespace SmartDashboard.Transport

open Direct (ByteString DoubleBits)
open App (text)
open Json (Tree StringUnit Numeral)

/-! ### Documents -/

/-- What numbers and strings are read as: a number may be kept as an integer of 64 bits. -/
structure QtReader where
  number : Numeral → Int64 ⊕ DoubleBits
  string : List StringUnit → ByteString

structure QtParser extends QtReader where
  fromJson : ByteString → Option JsonObject

namespace QtReader

variable (reader : QtReader)

def numberValue (n : Numeral) : JsonValue :=
  match reader.number n with
  | .inl k => .integer k.toInt
  | .inr bits => .double bits

mutual

def value : Tree → JsonValue
  | .null => .null
  | .bool value => .bool value
  | .number n => numberValue reader n
  | .string units => .string (reader.string units)
  | .array items => .array (values items)
  | .object members => .object (fields members)

def values : List Tree → List JsonValue
  | [] => []
  | item :: items => value item :: values items

def fields : List (List StringUnit × Tree) → JsonObject
  | [] => []
  | (name, item) :: members => (reader.string name, value item) :: fields members

end

theorem value_object (members : List (List StringUnit × Tree)) :
    reader.value (.object members) = .object (reader.fields members) := by
  rw [value]

theorem fields_cons (name : List StringUnit) (item : Tree)
    (members : List (List StringUnit × Tree)) :
    reader.fields ((name, item) :: members) =
      (reader.string name, reader.value item) :: reader.fields members := by
  rw [fields]

theorem fields_nil : reader.fields [] = [] := by
  rw [fields]

theorem values_eq (items : List Tree) : reader.values items = items.map reader.value := by
  induction items with
  | nil => rw [values, List.map_nil]
  | cons item items ih => rw [values, ih, List.map_cons]

theorem value_array (items : List Tree) :
    reader.value (.array items) = .array (items.map reader.value) := by
  rw [value, values_eq]

end QtReader

namespace QtParser

/-- The trees that are not nested too deeply, of numbers in the range of a double. -/
def Readable : ℕ → Tree → Prop
  | _, .number n => Binary64.InRange n.value
  | 0, .array _ => False
  | 0, .object _ => False
  | depth + 1, .array items => ∀ item ∈ items, Readable depth item
  | depth + 1, .object members => ∀ member ∈ members, Readable depth member.2
  | _, _ => True

/-- The byte that a unit of a string stands for. -/
def unitByte : StringUnit → UInt8
  | .byte b => b
  | .code u => u.toUInt8

def AsciiCodes (units : List StringUnit) : Prop := ∀ u, StringUnit.code u ∈ units → u < 128

structure Lawful (parser : QtParser) (qt : QtNumbers) : Prop where
  integer : ∀ n : Numeral, n.Valid → n.frac = [] → n.exponent = none →
    ∀ k : Int64, n.value = k.toInt → parser.number n = .inl k
  nearest : ∀ (n : Numeral) (bits : DoubleBits), n.Valid → Binary64.IsFinite bits →
    Binary64.value bits ≠ 0 → Binary64.NearestTo n.value bits →
      (parser.numberValue n).toDouble qt = bits
  longLongToDouble_zero : qt.longLongToDouble 0 = 0
  doubleToLongLong_lt : ∀ bits, qt.doubleToLongLong bits < 2 ^ 63
  string : ∀ units, AsciiCodes units → Utf8 (units.map unitByte) →
    parser.string units = units.map unitByte
  /-- The parser of Qt gives up below 1024 levels. -/
  fromJson : ∀ bytes members, Utf8 bytes →
    Json.lex bytes = some (Tree.object members).tokens → Readable 1024 (.object members) →
      parser.fromJson bytes = some (parser.fields members)

end QtParser

namespace JsonValue

/-- `toVariant().toString()`. -/
def toVariantString (qt : QtNumbers) : JsonValue → ByteString
  | .bool value => if value then text "true" else text "false"
  | .integer value => (if value < 0 then [45] else []) ++ Decimal.decimal value.natAbs
  | .double value => qt.doubleToString value
  | .string value => value
  | _ => []

end JsonValue

/-! ### The events of a document -/

namespace Replay

variable (qt : QtNumbers)

/-- The type and the value of an event, by the type of the series. -/
def sampleUpdate (type : ByteString) (value : JsonValue) : Int32 × Variant :=
  if type = text "bool" then (1, .bool value.toBool)
  else if type = text "double" then (2, .double (value.toDouble qt))
  else (3, .string (value.toVariantString qt))

/-- `seqByKey` and `loaded`. -/
structure SessionState where
  seqByKey : ByteString → UInt64 := fun _ => 0
  loaded : List ReplayEvent := []

def loadSample (key type : ByteString) (state : SessionState) : JsonValue → SessionState
  | .object sample =>
    let seq := state.seqByKey key + 1
    let update := sampleUpdate qt type (JsonObject.value sample (text "value"))
    { seqByKey := Function.update state.seqByKey key seq
      loaded := state.loaded ++
        [{ timestampUs := (JsonObject.value sample (text "t_us")).toLongLong qt
           update := { key := key, valueType := update.1, value := update.2, seq := seq } }] }
  | _ => state

/-- The type is compared without its white space; that beyond ASCII is left out here. -/
def loadSignal (state : SessionState) : JsonValue → SessionState
  | .object signal =>
    let key := (JsonObject.value signal (text "key")).toString []
    let type := toLower (trimmed ((JsonObject.value signal (text "type")).toString []))
    let samples := (JsonObject.value signal (text "samples")).toArray
    if key = [] ∨ samples.isEmpty = true then state
    else samples.foldl (loadSample qt key type) state
  | _ => state

/-- `TryParseCaptureSession`, `none` where it returns `false`. -/
def tryParseCaptureSession (root : JsonObject) : Option (List ReplayEvent) :=
  match root.value (text "signals") with
  | .array signalArray =>
    if signalArray.isEmpty = true then none
    else
      let loaded := (signalArray.foldl (loadSignal qt) {}).loaded
      if loaded = [] then none else some loaded
  | _ => none

/-! ### Readings -/

/-- What an event says about its key. -/
structure Reading where
  tUs : ℤ
  valueType : Int32
  value : Variant
  deriving DecidableEq, Repr

def ReplayEvent.reading (event : ReplayEvent) : ByteString × Reading :=
  (event.update.key, ⟨event.timestampUs, event.update.valueType, event.update.value⟩)

def sampleReading (type : ByteString) (tUs value : JsonValue) : Reading where
  tUs := tUs.toLongLong qt
  valueType := (sampleUpdate qt type value).1
  value := (sampleUpdate qt type value).2

def objectReading (type : ByteString) : JsonValue → Option Reading
  | .object sample =>
    some (sampleReading qt type (JsonObject.value sample (text "t_us"))
      (JsonObject.value sample (text "value")))
  | _ => none

def signalReadings : JsonValue → List (ByteString × Reading)
  | .object signal =>
    let key := (JsonObject.value signal (text "key")).toString []
    let type := toLower (trimmed ((JsonObject.value signal (text "type")).toString []))
    if key = [] then []
    else ((JsonObject.value signal (text "samples")).toArray.filterMap
      (objectReading qt type)).map (Prod.mk key)
  | _ => []

variable {qt}

theorem signalReadings_object {signal : JsonObject} {key type : ByteString}
    {samples : List JsonValue} (hkey : signal.value (text "key") = .string key)
    (htype : signal.value (text "type") = .string type)
    (hsamples : signal.value (text "samples") = .array samples) :
    signalReadings qt (.object signal) =
      if key = [] then []
      else (samples.filterMap (objectReading qt (toLower (trimmed type)))).map (Prod.mk key) := by
  rw [signalReadings]
  simp only [hkey, htype, hsamples]
  rfl

theorem readings_loadSample (key type : ByteString) (state : SessionState) (sample : JsonValue) :
    (loadSample qt key type state sample).loaded.map ReplayEvent.reading =
      state.loaded.map ReplayEvent.reading ++
        ((objectReading qt type sample).map (Prod.mk key)).toList := by
  cases sample with
  | object sample => exact List.map_append
  | _ => exact (List.append_nil _).symm

theorem readings_foldl_loadSample (key type : ByteString) (state : SessionState)
    (samples : List JsonValue) :
    (samples.foldl (loadSample qt key type) state).loaded.map ReplayEvent.reading =
      state.loaded.map ReplayEvent.reading ++
        (samples.filterMap (objectReading qt type)).map (Prod.mk key) := by
  induction samples generalizing state with
  | nil => simp
  | cons sample samples ih =>
    rw [List.foldl_cons, ih, readings_loadSample, List.append_assoc, List.filterMap_cons]
    cases objectReading qt type sample <;> rfl

theorem readings_loadSignal (state : SessionState) (signal : JsonValue) :
    (loadSignal qt state signal).loaded.map ReplayEvent.reading =
      state.loaded.map ReplayEvent.reading ++ signalReadings qt signal := by
  cases signal with
  | object signal =>
    rw [loadSignal, signalReadings]
    by_cases hkey : (JsonObject.value signal (text "key")).toString [] = []
    · rw [if_pos (.inl hkey), if_pos hkey, List.append_nil]
    rw [if_neg hkey]
    by_cases hsamples : (JsonObject.value signal (text "samples")).toArray.isEmpty = true
    · rw [if_pos (.inr hsamples), List.isEmpty_iff.mp hsamples]
      exact (List.append_nil _).symm
    · rw [if_neg (not_or.mpr ⟨hkey, hsamples⟩), readings_foldl_loadSample]
  | _ => exact (List.append_nil _).symm

theorem readings_foldl_loadSignal (state : SessionState) (signals : List JsonValue) :
    (signals.foldl (loadSignal qt) state).loaded.map ReplayEvent.reading =
      state.loaded.map ReplayEvent.reading ++ signals.flatMap (signalReadings qt) := by
  induction signals generalizing state with
  | nil => simp
  | cons signal signals ih =>
    rw [List.foldl_cons, ih, readings_loadSignal, List.append_assoc, List.flatMap_cons]

theorem readings_tryParseCaptureSession (root : JsonObject) :
    ((tryParseCaptureSession qt root).getD []).map ReplayEvent.reading =
      (root.value (text "signals")).toArray.flatMap (signalReadings qt) := by
  rw [tryParseCaptureSession]
  cases hsignals : root.value (text "signals") with
  | array signals =>
    have hloaded := @readings_foldl_loadSignal qt {} signals
    rw [List.map_nil, List.nil_append] at hloaded
    show _ = signals.flatMap (signalReadings qt)
    rw [← hloaded]
    dsimp only
    split_ifs with hempty hnone
    · rw [List.isEmpty_iff.mp hempty]
      rfl
    · rw [hnone]
      rfl
    · rfl
  | _ => rfl

end Replay

end SmartDashboard.Transport
