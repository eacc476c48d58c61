import SmartDashboard.Capture.RunJson
import SmartDashboard.Transport.CaptureSession

/-!
# Replaying a capture

The output of a capture without coalescing, read back as a replay file. The file has one type for
each series, that of its last update, and every sample of the series is read by it.

## Main definitions

- `Replays`: the text is a JSON document, and its events under each key are the captured samples
- `Replayable`: every double is a number, and under each key all updates have one type that a file
  can hold, with times and doubles that it keeps

## Main results

- `replays_iff`: a capture replays if and only if it is `Replayable`
-/

namespace SmartDashboard.Capture

open Direct (ByteString DoubleBits ValueType)
open App (text)
open Json (Tree StringUnit)
open Transport (QtNumbers QtReader QtParser JsonValue JsonObject Variant)
open Transport.Replay (Reading signalReadings sampleReading sampleUpdate objectReading
  tryParseCaptureSession)

/-! ### What was captured and what is replayed -/

/-- The state before the first update, with samples that are not coalesced. -/
def rawState (filterSignals : List ByteString) (useFilter : Bool) (captureStartSteady : ℤ) :
    CaptureState where
  filterSignals := filterSignals
  useFilter := useFilter
  captureStartSteady := captureStartSteady

def capturedUpdates (state : CaptureState) (received : List Received) : List Received :=
  received.filter fun r => isCaptureEnabledForSignal state r.key

/-- The number of a `ValueType`. -/
def typeNumber : ValueType → Int32
  | .bool => 1
  | .double => 2
  | .string => 3
  | .stringArray => 4

def sampleVariant : SampleValue → Variant
  | .bool value => .bool value
  | .double value => .double value
  | .string value => .string value

def capturedReading (captureStartSteady : ℤ) (r : Received) : Reading where
  tUs := (elapsedUs captureStartSteady r.now).toNat
  valueType := typeNumber r.update.type
  value := sampleVariant (sampleValue r.update)

/-- The readings under one key, in their order. -/
def readingsOf (key : ByteString) (readings : List (ByteString × Reading)) : List Reading :=
  (LastWrite.writes Prod.fst key readings).map Prod.snd

/-- The document is valid and stands for the captured samples of every key that is not empty. -/
structure Replays (qt : QtNumbers) (parser : QtParser) (captureStartSteady : ℤ)
    (captured : List Received) (json : ByteString) : Prop where
  utf8 : Utf8 json
  valid : Json.Valid json
  samples : ∃ root, parser.fromJson json = some root ∧ ∀ key ≠ [],
    readingsOf key (((tryParseCaptureSession qt root).getD []).map (·.reading)) =
      (LastWrite.writes Received.key key captured).map (capturedReading captureStartSteady)

/-! ### When a capture replays -/

/-- An update that the file keeps: a time that fits in 64 bits with a sign, no string array, and not
the negative zero, which is read as an integer. -/
structure Kept (captureStartSteady : ℤ) (r : Received) : Prop where
  tUs : (elapsedUs captureStartSteady r.now).toNat < 2 ^ 63
  type : r.update.type ≠ .stringArray
  value : r.update.type = .double → r.update.value.doubleValue ≠ 0x8000000000000000

structure Replayable (options : CliOptions) (captureStartSteady : ℤ) (captured : List Received) :
    Prop where
  durationSec : Binary64.IsFinite options.durationSec
  finite : ∀ r ∈ captured, (sampleValue r.update).Finite
  kept : ∀ r ∈ captured, r.key ≠ [] → Kept captureStartSteady r
  oneType : ∀ r ∈ captured, ∀ r' ∈ captured, r.key ≠ [] → r.key = r'.key →
    r.update.type = r'.update.type

/-! ### Strings and numbers, read back -/

section ReadBack

variable {qt : QtNumbers} {parser : QtParser}

theorem unitByte_unitOf (ch : UInt8) : QtParser.unitByte (unitOf ch) = ch := by
  unfold unitOf
  split_ifs
  · exact UInt8.toUInt8_toUInt16 ch
  · rfl

theorem map_unitByte_units (value : ByteString) : (units value).map QtParser.unitByte = value := by
  rw [units, List.map_map]
  exact (List.map_congr_left fun ch _ => unitByte_unitOf ch).trans (List.map_id value)

theorem asciiCodes_units (value : ByteString) : QtParser.AsciiCodes (units value) := by
  intro u hu
  obtain ⟨ch, -, hch⟩ := List.mem_map.mp hu
  unfold unitOf at hch
  split_ifs at hch with hlow
  obtain rfl := StringUnit.code.inj hch
  have hlt : ch.toNat < 32 := UInt8.lt_iff_toNat_lt.mp hlow.1
  rw [UInt16.lt_iff_toNat_lt, UInt8.toNat_toUInt16]
  exact Nat.lt_trans hlt (by decide)

theorem string_units (hlaws : parser.Lawful qt) {value : ByteString} (h : Utf8 value) :
    parser.string (units value) = value := by
  have hmap := map_unitByte_units value
  rw [hlaws.string _ (asciiCodes_units value) (by rwa [hmap]), hmap]

theorem numberValue_decimal (hlaws : parser.Lawful qt) {n : ℕ} (h : n < 2 ^ 63) :
    parser.numberValue { int := Decimal.decimal n } = .integer n := by
  have hk : (Int64.ofNat n).toInt = n := Int64.toInt_ofNat_of_lt h
  have hnumber := hlaws.integer _ (Json.Numeral.valid_decimal false n) rfl rfl (Int64.ofNat n) (by
    rw [Json.Numeral.value_decimal, hk, Int.cast_natCast])
  rw [QtReader.numberValue, hnumber]
  exact congrArg JsonValue.integer hk

/-- No number that is read is too large for 64 bits with a sign. -/
theorem toLongLong_numberValue_lt (hlaws : parser.Lawful qt) (n : Json.Numeral) :
    (parser.numberValue n).toLongLong qt < 2 ^ 63 := by
  unfold QtReader.numberValue
  cases parser.number n with
  | inl k => exact k.toInt_lt
  | inr bits => exact hlaws.doubleToLongLong_lt bits

theorem toLongLong_natTree_iff (hlaws : parser.Lawful qt) (n : ℕ) :
    (parser.value (natTree n)).toLongLong qt = n ↔ n < 2 ^ 63 := by
  rw [natTree, QtReader.value]
  constructor
  · intro heq
    have hlt := toLongLong_numberValue_lt hlaws { int := Decimal.decimal n }
    rw [heq] at hlt
    exact_mod_cast hlt
  · intro hlt
    rw [numberValue_decimal hlaws hlt]
    rfl

/-- A double comes back unless it is the negative zero, which is read as the integer 0. -/
theorem toDouble_generalNumeral_iff (hlaws : parser.Lawful qt) {bits : DoubleBits}
    (h : Binary64.IsFinite bits) :
    (parser.numberValue (Binary64.generalNumeral 17 bits)).toDouble qt = bits ↔
      bits ≠ 0x8000000000000000 := by
  by_cases hzero : Binary64.value bits = 0
  · have hmagnitude : Binary64.magnitude bits = 0 := by rw [← Binary64.abs_value, hzero, abs_zero]
    have hvalid := @Binary64.valid_generalNumeral 17 (by decide) bits
    rw [Binary64.generalNumeral_of_zero hmagnitude] at hvalid ⊢
    have hnumber := hlaws.integer _ hvalid rfl rfl 0 (by
      simp [Json.Numeral.value, Decimal.decimalValue, Decimal.digitValue])
    have hread : (parser.numberValue
        { negative := Binary64.negative bits, int := [48] }).toDouble qt = 0 := by
      rw [QtReader.numberValue, hnumber]
      exact hlaws.longLongToDouble_zero
    rw [hread]
    rcases Binary64.value_eq_zero_iff.mp hzero with rfl | rfl
    · exact iff_of_true rfl (by decide)
    · exact iff_of_false (by decide) (by simp)
  · have hne : bits ≠ 0x8000000000000000 := fun heq =>
      hzero (Binary64.value_eq_zero_iff.mpr (.inr heq))
    exact iff_of_true (hlaws.nearest _ bits (Binary64.valid_generalNumeral (by decide) bits) h hzero
      (Binary64.nearestTo_generalNumeral bits)) hne

/-! ### A sample, read back -/

theorem toLower_trimmed_valueTypeToString (type : ValueType) :
    Transport.toLower (Transport.trimmed (valueTypeToString type)) = valueTypeToString type := by
  cases type <;> rfl

theorem sampleUpdate_fst {type : ValueType} (h : type ≠ .stringArray) (value : JsonValue) :
    (sampleUpdate qt (valueTypeToString type) value).1 = typeNumber type := by
  cases type with
  | stringArray => exact absurd rfl h
  | _ => rfl

/-- No event is one of a string array. -/
theorem sampleUpdate_fst_ne (type : ByteString) (value : JsonValue) :
    (sampleUpdate qt type value).1 ≠ typeNumber .stringArray := by
  rw [sampleUpdate]
  split_ifs
  · exact (by decide : (1 : Int32) ≠ 4)
  · exact (by decide : (2 : Int32) ≠ 4)
  · exact (by decide : (3 : Int32) ≠ 4)

theorem typeNumber_inj {type type' : ValueType} (h : typeNumber type = typeNumber type') :
    type = type' := by
  cases type <;> cases type' <;> first | rfl | exact absurd h (by decide)

/-- A value that is read by its own type. -/
theorem sampleUpdate_snd_iff (hlaws : parser.Lawful qt) {update : Direct.VariableUpdate}
    (htype : update.type ≠ .stringArray) (hfinite : (sampleValue update).Finite)
    (htext : (sampleValue update).IsText) :
    (sampleUpdate qt (valueTypeToString update.type)
        (parser.value (valueTree (sampleValue update)))).2 = sampleVariant (sampleValue update) ↔
      (update.type = .double → update.value.doubleValue ≠ 0x8000000000000000) := by
  unfold sampleValue at hfinite htext ⊢
  cases hcase : update.type with
  | bool =>
    refine iff_of_true ?_ (by rintro ⟨⟩)
    rw [valueTree, QtReader.value]
    rfl
  | double =>
    rw [hcase] at hfinite
    rw [valueTree, QtReader.value]
    have hread := toDouble_generalNumeral_iff hlaws hfinite
    constructor
    · intro h _
      exact hread.mp (Variant.double.inj h)
    · intro h
      exact congrArg Variant.double (hread.mpr (h rfl))
  | string =>
    rw [hcase] at htext
    refine iff_of_true ?_ (by rintro ⟨⟩)
    rw [valueTree, QtReader.value, string_units hlaws htext]
    rfl
  | stringArray => exact absurd hcase htype

/-- A sample as it is read by the type of its series. -/
def replayedReading (qt : QtNumbers) (parser : QtParser) (type : ValueType)
    (point : SamplePoint) : Reading :=
  sampleReading qt (valueTypeToString type) (parser.value (natTree point.tUs.toNat))
    (parser.value (valueTree point.value))

theorem replayedReading_eq_iff (hlaws : parser.Lawful qt) {type : ValueType} {r : Received}
    {captureStartSteady : ℤ} (htype : type ≠ .stringArray)
    (hfinite : (sampleValue r.update).Finite) (htext : (sampleValue r.update).IsText) :
    replayedReading qt parser type (samplePoint captureStartSteady r) =
        capturedReading captureStartSteady r ↔
      r.update.type = type ∧ Kept captureStartSteady r := by
  rw [replayedReading, sampleReading, capturedReading, Reading.mk.injEq, samplePoint,
    toLongLong_natTree_iff hlaws, sampleUpdate_fst htype]
  constructor
  · rintro ⟨htime, hnumber, hvalue⟩
    obtain rfl := typeNumber_inj hnumber
    exact ⟨rfl, htime, htype, (sampleUpdate_snd_iff hlaws htype hfinite htext).mp hvalue⟩
  · rintro ⟨rfl, hkept⟩
    exact ⟨hkept.tUs, rfl, (sampleUpdate_snd_iff hlaws htype hfinite htext).mpr hkept.value⟩

theorem replayedReading_ne {type : ValueType} {r : Received} {captureStartSteady : ℤ}
    (h : r.update.type = .stringArray) :
    replayedReading qt parser type (samplePoint captureStartSteady r) ≠
      capturedReading captureStartSteady r := by
  intro heq
  have hnumber : _ = typeNumber r.update.type := congrArg Reading.valueType heq
  rw [h] at hnumber
  exact sampleUpdate_fst_ne _ _ hnumber

/-- All updates of a series, by the type of the last one. -/
theorem forall_replayedReading_iff (hlaws : parser.Lawful qt) {received : List Received}
    {last : Received} {captureStartSteady : ℤ} (hlast : last ∈ received)
    (hfinite : ∀ r ∈ received, (sampleValue r.update).Finite)
    (htext : ∀ r ∈ received, (sampleValue r.update).IsText) :
    (∀ r ∈ received, replayedReading qt parser last.update.type
        (samplePoint captureStartSteady r) = capturedReading captureStartSteady r) ↔
      ∀ r ∈ received, r.update.type = last.update.type ∧ Kept captureStartSteady r := by
  by_cases htype : last.update.type = .stringArray
  · constructor
    · intro h
      exact absurd (h last hlast) (replayedReading_ne htype)
    · intro h
      exact absurd htype (h last hlast).2.type
  · exact forall₂_congr fun r hr =>
      replayedReading_eq_iff hlaws htype (hfinite r hr) (htext r hr)

/-! ### A series, read back -/

theorem value_string (hlaws : parser.Lawful qt) {value : ByteString} (h : Utf8 value) :
    parser.value (.string (units value)) = .string value := by
  rw [QtReader.value, string_units hlaws h]

theorem objectReading_sampleTree (hlaws : parser.Lawful qt) (type : ValueType)
    (point : SamplePoint) :
    objectReading qt (valueTypeToString type) (parser.value (sampleTree point)) =
      some (replayedReading qt parser type point) := by
  rw [sampleTree, parser.value_object, parser.fields_cons, parser.fields_cons, parser.fields_nil,
    string_units hlaws (.of_all rfl), string_units hlaws (.of_all rfl)]
  rfl

theorem signalReadings_seriesTree (hlaws : parser.Lawful qt) {sampleMs : Int32}
    {series : SignalSeries} (hkey : Utf8 series.key) :
    signalReadings qt (parser.value (seriesTree sampleMs series)) =
      if series.key = [] then []
      else (outputSamples sampleMs series).map fun point =>
        (series.key, replayedReading qt parser series.type point) := by
  rw [seriesTree, parser.value_object, parser.fields_cons, parser.fields_cons,
    parser.fields_cons, parser.fields_cons, parser.fields_nil, string_units hlaws (.of_all rfl),
    string_units hlaws (.of_all rfl), string_units hlaws (.of_all rfl),
    string_units hlaws (.of_all rfl), value_string hlaws hkey,
    value_string hlaws (utf8_valueTypeToString series.type), parser.value_array,
    Transport.Replay.signalReadings_object rfl rfl rfl, toLower_trimmed_valueTypeToString]
  have hsamples : ((outputSamples sampleMs series).map sampleTree |>.map parser.value).filterMap
      (objectReading qt (valueTypeToString series.type)) =
        (outputSamples sampleMs series).map (replayedReading qt parser series.type) := by
    rw [List.map_map, List.filterMap_map, ← List.filterMap_eq_map]
    exact List.filterMap_congr fun point _ => objectReading_sampleTree hlaws series.type point
  rw [hsamples, List.map_map]
  rfl

/-- The readings of a key are those of its series. -/
theorem readingsOf_flatMap {α : Type*} {name : α → ByteString} {read : α → List Reading}
    {f : α → List (ByteString × Reading)} {xs : List α}
    (hf : ∀ x ∈ xs, f x = if name x = [] then [] else (read x).map (Prod.mk (name x)))
    {key : ByteString} (hkey : key ≠ []) :
    readingsOf key (xs.flatMap f) = (LastWrite.writes name key xs).flatMap read := by
  induction xs with
  | nil => rfl
  | cons x xs ih =>
    have hx := hf x List.mem_cons_self
    rw [List.flatMap_cons, readingsOf, LastWrite.writes_append, List.map_append]
    rw [readingsOf] at ih
    rw [ih fun y hy => hf y (List.mem_cons_of_mem x hy), LastWrite.writes_cons, hx]
    by_cases hname : name x = key
    · have hall : LastWrite.writes Prod.fst key ((read x).map (Prod.mk (name x))) =
          (read x).map (Prod.mk (name x)) := by
        rw [LastWrite.writes, List.filter_eq_self]
        intro reading hreading
        obtain ⟨y, -, rfl⟩ := List.mem_map.mp hreading
        exact decide_eq_true hname
      rw [if_pos hname, if_neg (by rw [hname]; exact hkey), hall, List.flatMap_cons, List.map_map]
      congr 1
      exact List.map_id _
    · have hnone : LastWrite.writes Prod.fst key
          (if name x = [] then [] else (read x).map (Prod.mk (name x))) = [] := by
        rw [LastWrite.writes, List.filter_eq_nil_iff]
        intro reading hreading
        split_ifs at hreading
        · cases hreading
        obtain ⟨y, -, rfl⟩ := List.mem_map.mp hreading
        simpa using hname
      rw [if_neg hname, hnone]
      rfl

end ReadBack

/-! ### The run of a capture -/

section Run

variable {filterSignals : List ByteString} {useFilter : Bool} {captureStartSteady : ℤ}
variable {received : List Received}

/-- The state after some updates. -/
structure RawRun (filterSignals : List ByteString) (useFilter : Bool) (captureStartSteady : ℤ)
    (received : List Received) (state : CaptureState) : Prop where
  ordered : OrderedByKey state.seriesByKey
  sampleMs : state.sampleMs = 0
  start : state.captureStartSteady = captureStartSteady
  enabled : ∀ key, isCaptureEnabledForSignal state key =
    isCaptureEnabledForSignal (rawState filterSignals useFilter captureStartSteady) key
  series : ∀ key, LastWrite.last SignalSeries.key key state.seriesByKey =
    seriesOf 0 captureStartSteady (LastWrite.writes Received.key key
      (capturedUpdates (rawState filterSignals useFilter captureStartSteady) received))

theorem RawRun.addUpdate {state : CaptureState}
    (h : RawRun filterSignals useFilter captureStartSteady received state) (r : Received) :
    RawRun filterSignals useFilter captureStartSteady (received ++ [r])
      (addUpdate state r) := by
  have hsame : (Capture.addUpdate state r).sampleMs = state.sampleMs ∧
      (Capture.addUpdate state r).captureStartSteady = state.captureStartSteady ∧
      ∀ key, isCaptureEnabledForSignal (Capture.addUpdate state r) key =
        isCaptureEnabledForSignal state key := by
    rw [Capture.addUpdate]
    split_ifs <;> exact ⟨rfl, rfl, fun key => rfl⟩
  obtain ⟨hsampleMs, hstart, henabled⟩ := hsame
  refine ⟨h.ordered.addUpdate r, hsampleMs.trans h.sampleMs, hstart.trans h.start,
    fun key => (henabled key).trans (h.enabled key), fun key => ?_⟩
  rw [capturedUpdates, List.filter_append, ← capturedUpdates]
  by_cases hr : isCaptureEnabledForSignal state r.key = true
  · have hseries := h.series
    rw [← h.sampleMs, ← h.start] at hseries
    rw [List.filter_cons_of_pos (by rw [← h.enabled]; exact hr), List.filter_nil,
      last_addUpdate h.ordered hseries hr, h.sampleMs, h.start]
  · rw [List.filter_cons_of_neg (by rw [← h.enabled]; exact hr), List.filter_nil, List.append_nil,
      addUpdate_of_not_enabled (Bool.eq_false_iff.mpr hr)]
    exact h.series key

theorem rawRun (filterSignals : List ByteString) (useFilter : Bool) (captureStartSteady : ℤ)
    (received : List Received) :
    RawRun filterSignals useFilter captureStartSteady received
      (received.foldl addUpdate (rawState filterSignals useFilter captureStartSteady)) := by
  induction received using List.reverseRecOn with
  | nil => exact ⟨List.Pairwise.nil, rfl, rfl, fun key => rfl, fun key => rfl⟩
  | append_singleton received r ih =>
    rw [List.foldl_append]
    exact ih.addUpdate r

/-- A series holds the captured updates of its key. -/
theorem outputSamples_seriesOf {series : SignalSeries}
    (h : seriesOf 0 captureStartSteady received = some series) :
    outputSamples 0 series = received.map (samplePoint captureStartSteady) ∧
      ∃ last ∈ received, series.type = last.update.type := by
  obtain ⟨last, hlast, rfl⟩ := Option.map_eq_some_iff.mp h
  exact ⟨rfl, last, List.mem_of_getLast? hlast, rfl⟩

variable {state : CaptureState}

theorem RawRun.seriesOf_of_mem
    (h : RawRun filterSignals useFilter captureStartSteady received state) {series : SignalSeries}
    (hmem : series ∈ state.seriesByKey) :
    seriesOf 0 captureStartSteady (LastWrite.writes Received.key series.key
      (capturedUpdates (rawState filterSignals useFilter captureStartSteady) received)) =
        some series := by
  rw [← h.series, h.ordered.distinct.last_of_mem hmem]

theorem RawRun.exists_series
    (h : RawRun filterSignals useFilter captureStartSteady received state) {r : Received}
    (hr : r ∈ capturedUpdates (rawState filterSignals useFilter captureStartSteady) received) :
    ∃ series ∈ state.seriesByKey, samplePoint captureStartSteady r ∈ outputSamples 0 series := by
  have hmem : r ∈ LastWrite.writes Received.key r.key
      (capturedUpdates (rawState filterSignals useFilter captureStartSteady) received) :=
    LastWrite.mem_writes.mpr ⟨hr, rfl⟩
  have hlast := List.getLast?_eq_some_getLast (List.ne_nil_of_mem hmem)
  have hseries := h.series r.key
  rw [seriesOf, hlast, Option.map_some] at hseries
  refine ⟨_, (LastWrite.mem_writes.mp (List.mem_of_getLast? hseries)).1, ?_⟩
  exact List.mem_map_of_mem hmem

/-! ### A capture that replays -/

theorem readable_natTree {n : ℕ} (h : n < 2 ^ 64) (depth : ℕ) :
    QtParser.Readable depth (natTree n) := by
  have hrange : Binary64.InRange (Json.Numeral.value { int := Decimal.decimal n }) := by
    rw [Json.Numeral.value_decimal, ← Int.cast_natCast]
    refine Binary64.inRange_intCast ?_
    rw [Nat.abs_cast]
    exact_mod_cast h
  unfold natTree QtParser.Readable
  exact hrange

theorem readable_generalNumeral {precision : ℕ} {bits : DoubleBits}
    (hprecision : precision = 6 ∨ precision = 17) (h : Binary64.IsFinite bits) (depth : ℕ) :
    QtParser.Readable depth (.number (Binary64.generalNumeral precision bits)) := by
  unfold QtParser.Readable
  exact Binary64.inRange_generalNumeral hprecision h

theorem readable_intTree (value : Int32) (depth : ℕ) :
    QtParser.Readable depth (intTree value) := by
  have hrange : Binary64.InRange (Json.Numeral.value
      { negative := value.toInt < 0, int := Decimal.decimal value.toInt.natAbs }) := by
    rw [Json.Numeral.value_signed]
    refine Binary64.inRange_intCast ?_
    have hlt := value.toInt_lt
    have hle := value.le_toInt
    rw [abs_lt]
    omega
  unfold intTree QtParser.Readable
  exact hrange

theorem readable_string (units : List StringUnit) (depth : ℕ) :
    QtParser.Readable depth (.string units) := by
  unfold QtParser.Readable
  trivial

theorem readable_bool (value : Bool) (depth : ℕ) : QtParser.Readable depth (.bool value) := by
  unfold QtParser.Readable
  trivial

theorem readable_valueTree {value : SampleValue} (h : value.Finite) (depth : ℕ) :
    QtParser.Readable depth (valueTree value) := by
  cases value with
  | bool value => exact readable_bool value depth
  | double value => exact readable_generalNumeral (.inr rfl) h depth
  | string value => exact readable_string (units value) depth

theorem readable_sampleTree {point : SamplePoint} (h : point.value.Finite) (depth : ℕ) :
    QtParser.Readable (depth + 1) (sampleTree point) := by
  unfold sampleTree QtParser.Readable
  simp only [List.forall_mem_cons]
  exact ⟨readable_natTree point.tUs.toNat_lt depth, readable_valueTree h depth, by simp⟩

theorem readable_seriesTree {sampleMs : Int32} {series : SignalSeries}
    (h : series.Finite sampleMs) (depth : ℕ) :
    QtParser.Readable (depth + 3) (seriesTree sampleMs series) := by
  have hsamples : QtParser.Readable (depth + 2)
      (.array ((outputSamples sampleMs series).map sampleTree)) := by
    unfold QtParser.Readable
    exact List.forall_mem_map.mpr fun point hpoint => readable_sampleTree (h point hpoint) depth
  unfold seriesTree QtParser.Readable
  simp only [List.forall_mem_cons]
  exact ⟨readable_string _ _, readable_string _ _, readable_natTree (UInt64.toNat_lt _) _, hsamples,
    by simp⟩

theorem readable_argsTree (options : CliOptions) (depth : ℕ) :
    QtParser.Readable (depth + 1) (argsTree options) := by
  unfold argsTree QtParser.Readable
  simp only [List.forall_mem_cons]
  exact ⟨readable_intTree _ _, readable_intTree _ _, readable_bool _ _, readable_bool _ _,
    readable_string _ _, readable_string _ _, readable_string _ _, readable_intTree _ _,
    readable_bool _ _, readable_string _ _, readable_string _ _, readable_string _ _, by simp⟩

theorem readable_metadataTree {options : CliOptions} (h : Binary64.IsFinite options.durationSec)
    (startTimeUtc endTimeUtc : ByteString) (capturedUpdateCount : UInt64) (depth : ℕ) :
    QtParser.Readable (depth + 2)
      (metadataTree options startTimeUtc endTimeUtc capturedUpdateCount) := by
  have htags : QtParser.Readable (depth + 1)
      (.object (options.tags.map fun tag => (units tag.1, .string (units tag.2)))) := by
    unfold QtParser.Readable
    exact List.forall_mem_map.mpr fun tag _ => readable_string _ _
  unfold metadataTree QtParser.Readable
  simp only [List.forall_mem_cons]
  exact ⟨readable_string _ _, readable_string _ _, readable_string _ _, readable_string _ _,
    readable_generalNumeral (.inl rfl) h _, readable_natTree (UInt64.toNat_lt _) _,
    readable_argsTree options depth, htags, by simp⟩

theorem readable_runMembers {options : CliOptions} {state : CaptureState}
    (h : FiniteRun options state) (startTimeUtc endTimeUtc : ByteString)
    (capturedUpdateCount : UInt64) (depth : ℕ) :
    QtParser.Readable (depth + 5)
      (.object (runMembers options startTimeUtc endTimeUtc state capturedUpdateCount)) := by
  have hsignals : QtParser.Readable (depth + 4)
      (.array (state.seriesByKey.map (seriesTree state.sampleMs))) := by
    unfold QtParser.Readable
    exact List.forall_mem_map.mpr fun series hseries =>
      readable_seriesTree (h.series series hseries) depth
  unfold QtParser.Readable runMembers
  simp only [List.forall_mem_cons]
  exact ⟨readable_natTree (by decide) _,
    readable_metadataTree h.durationSec startTimeUtc endTimeUtc capturedUpdateCount _, hsignals,
    by simp⟩

/-- What a document with the members of a run is read as. -/
theorem readingsOf_runMembers {qt : QtNumbers} {parser : QtParser} (hlaws : parser.Lawful qt)
    {options : CliOptions} {startTimeUtc endTimeUtc : ByteString} {state : CaptureState}
    (hkeys : ∀ series ∈ state.seriesByKey, Utf8 series.key) (capturedUpdateCount : UInt64)
    {key : ByteString} (hkey : key ≠ []) :
    readingsOf key (((tryParseCaptureSession qt (parser.fields
        (runMembers options startTimeUtc endTimeUtc state capturedUpdateCount))).getD []).map
          (·.reading)) =
      (LastWrite.writes SignalSeries.key key state.seriesByKey).flatMap fun series =>
        (outputSamples state.sampleMs series).map (replayedReading qt parser series.type) := by
  have hsignals : JsonObject.value (parser.fields
      (runMembers options startTimeUtc endTimeUtc state capturedUpdateCount)) (text "signals") =
        .array ((state.seriesByKey.map (seriesTree state.sampleMs)).map parser.value) := by
    rw [runMembers, parser.fields_cons, parser.fields_cons, parser.fields_cons, parser.fields_nil,
      string_units hlaws (.of_all rfl), string_units hlaws (.of_all rfl),
      string_units hlaws (.of_all rfl), parser.value_array]
    rfl
  rw [Transport.Replay.readings_tryParseCaptureSession, hsignals, JsonValue.toArray, List.map_map,
    List.flatMap_map]
  refine readingsOf_flatMap (fun series hseries => ?_) hkey
  rw [Function.comp_apply, signalReadings_seriesTree hlaws (hkeys series hseries), List.map_map]
  rfl

/-- The samples of one key come back if and only if all are kept and of one type. -/
theorem readings_seriesOf_iff {qt : QtNumbers} {parser : QtParser} (hlaws : parser.Lawful qt)
    (hfinite : ∀ r ∈ received, (sampleValue r.update).Finite)
    (htext : ∀ r ∈ received, (sampleValue r.update).IsText) :
    ((seriesOf 0 captureStartSteady received).toList.flatMap fun series =>
        (outputSamples 0 series).map (replayedReading qt parser series.type)) =
          received.map (capturedReading captureStartSteady) ↔
      (∀ r ∈ received, Kept captureStartSteady r) ∧
        ∀ r ∈ received, ∀ r' ∈ received, r.update.type = r'.update.type := by
  cases hseries : seriesOf 0 captureStartSteady received with
  | none =>
    obtain rfl : received = [] := List.getLast?_eq_none_iff.mp (Option.map_eq_none_iff.mp hseries)
    simp
  | some series =>
    obtain ⟨hsamples, last, hlast, htype⟩ := outputSamples_seriesOf hseries
    rw [Option.toList_some, List.flatMap_singleton, hsamples, htype, List.map_map,
      List.map_inj_left]
    refine (forall_replayedReading_iff hlaws hlast hfinite htext).trans ⟨fun h => ?_, fun h => ?_⟩
    · exact ⟨fun r hr => (h r hr).2, fun r hr r' hr' => (h r hr).1.trans (h r' hr').1.symm⟩
    · exact fun r hr => ⟨h.2 r hr last hlast, h.1 r hr⟩

theorem isText_sampleValue {update : Direct.VariableUpdate} (h : Utf8 update.value.stringValue) :
    (sampleValue update).IsText := by
  unfold sampleValue
  cases update.type with
  | bool => trivial
  | double => trivial
  | string => exact h
  | stringArray => exact h

theorem RawRun.isText (h : RawRun filterSignals useFilter captureStartSteady received state)
    (hreceived : ∀ r ∈ received, Utf8 r.key ∧ Utf8 r.update.value.stringValue) :
    ∀ series ∈ state.seriesByKey, series.IsText state.sampleMs := by
  intro series hseries
  obtain ⟨hsamples, last, hlast, -⟩ := outputSamples_seriesOf (h.seriesOf_of_mem hseries)
  have htexts : ∀ r ∈ LastWrite.writes Received.key series.key
      (capturedUpdates (rawState filterSignals useFilter captureStartSteady) received),
        Utf8 series.key ∧ (sampleValue r.update).IsText := by
    intro r hr
    obtain ⟨hmem, hkey⟩ := LastWrite.mem_writes.mp hr
    obtain ⟨hutf8, hstring⟩ := hreceived r (List.mem_of_mem_filter hmem)
    exact ⟨hkey ▸ hutf8, isText_sampleValue hstring⟩
  refine ⟨(htexts last hlast).1, ?_⟩
  rw [h.sampleMs, hsamples]
  exact List.forall_mem_map.mpr fun r hr => (htexts r hr).2

theorem RawRun.finite_iff (h : RawRun filterSignals useFilter captureStartSteady received state)
    (options : CliOptions) :
    FiniteRun options state ↔ Binary64.IsFinite options.durationSec ∧
      ∀ r ∈ capturedUpdates (rawState filterSignals useFilter captureStartSteady) received,
        (sampleValue r.update).Finite := by
  constructor
  · rintro ⟨hduration, hseries⟩
    refine ⟨hduration, fun r hr => ?_⟩
    obtain ⟨series, hmem, hpoint⟩ := h.exists_series hr
    rw [← h.sampleMs] at hpoint
    exact hseries series hmem _ hpoint
  · rintro ⟨hduration, hall⟩
    refine ⟨hduration, fun series hmem => ?_⟩
    obtain ⟨hsamples, -⟩ := outputSamples_seriesOf (h.seriesOf_of_mem hmem)
    rw [SignalSeries.Finite, h.sampleMs, hsamples]
    exact List.forall_mem_map.mpr fun r hr => hall r (LastWrite.mem_writes.mp hr).1

end Run

/-- With a word where a number should be the text is no document. -/
theorem not_valid_buildRunJson {options : CliOptions} (htexts : options.Texts)
    {startTimeUtc endTimeUtc : ByteString} (hstart : Utf8 startTimeUtc) (hend : Utf8 endTimeUtc)
    {state : CaptureState} (htext : ∀ series ∈ state.seriesByKey, series.IsText state.sampleMs)
    (capturedUpdateCount : UInt64) (h : ¬FiniteRun options state) :
    ¬Json.Valid (buildRunJson options startTimeUtc endTimeUtc state capturedUpdateCount) := by
  rintro ⟨tree, hlex⟩
  have hfails := (writes_buildRunJson htexts hstart hend htext capturedUpdateCount).fails h []
  rw [List.append_nil, hlex] at hfails
  cases hfails

/-- A capture of samples that are not coalesced replays if and only if it is `Replayable`. -/
theorem replays_iff {qt : QtNumbers} {parser : QtParser} (hlaws : parser.Lawful qt)
    {options : CliOptions} (htexts : options.Texts) {startTimeUtc endTimeUtc : ByteString}
    (hstart : Utf8 startTimeUtc) (hend : Utf8 endTimeUtc) (filterSignals : List ByteString)
    (useFilter : Bool) (captureStartSteady : ℤ) {received : List Received}
    (hreceived : ∀ r ∈ received, Utf8 r.key ∧ Utf8 r.update.value.stringValue)
    (capturedUpdateCount : UInt64) :
    Replays qt parser captureStartSteady
        (capturedUpdates (rawState filterSignals useFilter captureStartSteady) received)
        (buildRunJson options startTimeUtc endTimeUtc
          (received.foldl addUpdate (rawState filterSignals useFilter captureStartSteady))
          capturedUpdateCount) ↔
      Replayable options captureStartSteady
        (capturedUpdates (rawState filterSignals useFilter captureStartSteady) received) := by
  have hrun := rawRun filterSignals useFilter captureStartSteady received
  set state := received.foldl addUpdate (rawState filterSignals useFilter captureStartSteady)
  set captured := capturedUpdates (rawState filterSignals useFilter captureStartSteady) received
  have hmem : ∀ r ∈ captured, r ∈ received := fun r hr => List.mem_of_mem_filter hr
  have hwrites := writes_buildRunJson htexts hstart hend (hrun.isText hreceived)
    capturedUpdateCount
  by_cases hfinite : FiniteRun options state
  · obtain ⟨hduration, hdoubles⟩ := (hrun.finite_iff options).mp hfinite
    have hlex := hwrites.lex_append hfinite []
    rw [List.append_nil, Json.lex_nil, Option.map_some, List.append_nil] at hlex
    have hdocument := hlaws.fromJson _ _ hwrites.utf8 hlex
      (readable_runMembers hfinite startTimeUtc endTimeUtc capturedUpdateCount 1019)
    have hkeys : ∀ series ∈ state.seriesByKey, Utf8 series.key :=
      fun series hseries => (hrun.isText hreceived series hseries).key
    have hsamples : ∀ key ≠ [], (readingsOf key (((tryParseCaptureSession qt (parser.fields
        (runMembers options startTimeUtc endTimeUtc state capturedUpdateCount))).getD []).map
          (·.reading)) = (LastWrite.writes Received.key key captured).map
            (capturedReading captureStartSteady)) ↔
        (∀ r ∈ LastWrite.writes Received.key key captured, Kept captureStartSteady r) ∧
          ∀ r ∈ LastWrite.writes Received.key key captured,
            ∀ r' ∈ LastWrite.writes Received.key key captured, r.update.type = r'.update.type := by
      intro key hkey
      rw [readingsOf_runMembers hlaws hkeys capturedUpdateCount hkey,
        hrun.ordered.distinct.writes_eq, hrun.series, hrun.sampleMs]
      refine readings_seriesOf_iff hlaws ?_ ?_
      · exact fun r hr => hdoubles r (LastWrite.mem_writes.mp hr).1
      · exact fun r hr =>
          isText_sampleValue (hreceived r (hmem r (LastWrite.mem_writes.mp hr).1)).2
    constructor
    · rintro ⟨-, -, root, hroot, hread⟩
      obtain rfl := Option.some.inj (hdocument.symm.trans hroot)
      refine ⟨hduration, hdoubles, fun r hr hkey => ?_, fun r hr r' hr' hkey hsame => ?_⟩
      · exact ((hsamples r.key hkey).mp (hread r.key hkey)).1 r (LastWrite.mem_writes.mpr ⟨hr, rfl⟩)
      · exact ((hsamples r.key hkey).mp (hread r.key hkey)).2 r
          (LastWrite.mem_writes.mpr ⟨hr, rfl⟩) r' (LastWrite.mem_writes.mpr ⟨hr', hsame.symm⟩)
    · intro h
      refine ⟨hwrites.utf8, ⟨_, hlex⟩, _, hdocument, fun key hkey => (hsamples key hkey).mpr ?_⟩
      constructor
      · intro r hr
        obtain ⟨hcaptured, rfl⟩ := LastWrite.mem_writes.mp hr
        exact h.kept r hcaptured hkey
      · intro r hr r' hr'
        obtain ⟨hcaptured, rfl⟩ := LastWrite.mem_writes.mp hr
        obtain ⟨hcaptured', hsame⟩ := LastWrite.mem_writes.mp hr'
        exact h.oneType r hcaptured r' hcaptured' hkey hsame.symm
  · constructor
    · intro h
      exact absurd h.valid (not_valid_buildRunJson htexts hstart hend (hrun.isText hreceived)
        capturedUpdateCount hfinite)
    · intro h
      exact absurd ((hrun.finite_iff options).mpr ⟨h.durationSec, h.finite⟩) hfinite

/-! ### A parser, and two captures -/

noncomputable def exactNumbers : QtNumbers where
  doubleToLongLong _ := 0
  longLongToDouble k := Binary64.nearest (k : ℚ)
  stringToDouble _ := 0
  doubleToString _ := []

/-- Numbers are read exactly or are rounded, and strings are their bytes. -/
noncomputable def exactReader : QtReader where
  number n :=
    @dite _ (∃ k : Int64, n.frac = [] ∧ n.exponent = none ∧ n.value = k.toInt)
      (Classical.propDecidable _) (fun h => .inl h.choose)
      fun _ => .inr (Binary64.nearest n.value)
  string := List.map QtParser.unitByte

noncomputable def exactParser : QtParser where
  toQtReader := exactReader
  fromJson bytes :=
    @dite _ (∃ members, Json.lex bytes = some (Tree.object members).tokens)
      (Classical.propDecidable _) (fun h => some (exactReader.fields h.choose)) fun _ => none

theorem lawful_exactParser : exactParser.Lawful exactNumbers where
  integer n _ hfrac hexponent k hk := by
    have hex : ∃ k : Int64, n.frac = [] ∧ n.exponent = none ∧ n.value = k.toInt :=
      ⟨k, hfrac, hexponent, hk⟩
    have hchoose : hex.choose = k := by
      have hvalue := hex.choose_spec.2.2.symm.trans hk
      exact Int64.toInt_inj.mp (by exact_mod_cast hvalue)
    have hnumber : exactReader.number n = .inl hex.choose := dif_pos hex
    rw [← hchoose]
    exact hnumber
  nearest n bits _ _ hne h := by
    have hnearest : Binary64.nearest n.value = bits := Binary64.nearest_eq hne h
    by_cases hex : ∃ k : Int64, n.frac = [] ∧ n.exponent = none ∧ n.value = k.toInt
    · have hnumber : exactReader.number n = .inl hex.choose := dif_pos hex
      have hvalue : exactReader.numberValue n = .integer hex.choose.toInt := by
        rw [QtReader.numberValue, hnumber]
      have hdouble : (exactReader.numberValue n).toDouble exactNumbers =
          Binary64.nearest (hex.choose.toInt : ℚ) := by
        rw [hvalue, JsonValue.toDouble, exactNumbers]
      have hparser : exactParser.toQtReader = exactReader := rfl
      rw [hparser, hdouble, ← hex.choose_spec.2.2, hnearest]
    · have hnumber : exactReader.number n = .inr (Binary64.nearest n.value) := dif_neg hex
      show (exactReader.numberValue n).toDouble exactNumbers = bits
      rw [QtReader.numberValue, hnumber]
      exact hnearest
  longLongToDouble_zero := by
    have hzero : exactNumbers.longLongToDouble 0 = Binary64.nearest ((0 : ℤ) : ℚ) := by
      rw [exactNumbers]
    rw [hzero, Int.cast_zero, Binary64.nearest_zero]
  doubleToLongLong_lt _ := (by decide : (0 : ℤ) < 2 ^ 63)
  string _ _ _ := rfl
  fromJson bytes members _ hlex _ := by
    have hex : ∃ members, Json.lex bytes = some (Tree.object members).tokens := ⟨members, hlex⟩
    have hsame : Tree.object hex.choose = .object members :=
      Json.Tree.tokens_inj (Option.some.inj (hex.choose_spec.symm.trans hlex))
    have hread : exactParser.fromJson bytes = some (exactReader.fields hex.choose) := dif_pos hex
    rw [hread, Tree.object.inj hsame]
    rfl

/-- An update of a double, received after a number of nanoseconds. -/
def doubleReceived (key : String) (bits : DoubleBits) (now : ℤ) : Received where
  update :=
    { key := text key
      type := .double
      value := { doubleValue := bits }
      seq := 1
      sourceTimestampUs := 0 }
  now := now

def runOptions : CliOptions where
  label := text "bench"
  runId := text "run-1"
  durationSec := 0x4046800000000000

theorem texts_runOptions : runOptions.Texts where
  label := .of_all rfl
  runId := .of_all rfl
  mappingName := .nil
  dataEventName := .nil
  heartbeatEventName := .nil
  connectMethod := .of_all rfl
  signalsCsv := .nil
  stopFilePath := .nil
  tags _ h := by cases h

/-- Two samples of one tenth and of a half. -/
def twoSamples : List Received :=
  [doubleReceived "Speed" 0x3FB999999999999A 5000, doubleReceived "Speed" 0x3FE0000000000000 9000]

theorem twoSamples_replay :
    Replays exactNumbers exactParser 0 (capturedUpdates (rawState [] false 0) twoSamples)
      (buildRunJson runOptions (text "2026-03-12T19:10:12Z") (text "2026-03-12T19:10:57Z")
        (twoSamples.foldl addUpdate (rawState [] false 0)) 2) := by
  have hreceived : ∀ r ∈ twoSamples, Utf8 r.key ∧ Utf8 r.update.value.stringValue := by
    simp only [twoSamples, List.forall_mem_cons]
    exact ⟨⟨.of_all rfl, .nil⟩, ⟨.of_all rfl, .nil⟩, by simp⟩
  have hcaptured : capturedUpdates (rawState [] false 0) twoSamples = twoSamples := rfl
  have htype : ∀ r ∈ twoSamples, r.update.type = .double := by
    simp only [twoSamples, List.forall_mem_cons]
    exact ⟨rfl, rfl, by simp⟩
  refine (replays_iff lawful_exactParser texts_runOptions (.of_all rfl) (.of_all rfl) [] false 0
    hreceived 2).mpr ⟨by decide, ?_, ?_, fun r hr r' hr' _ _ =>
      (htype r hr).trans (htype r' hr').symm⟩
  · rw [hcaptured]
    simp only [twoSamples, List.forall_mem_cons]
    exact ⟨(by decide : Binary64.IsFinite 0x3FB999999999999A),
      (by decide : Binary64.IsFinite 0x3FE0000000000000), by simp⟩
  · rw [hcaptured]
    simp only [twoSamples, List.forall_mem_cons]
    exact ⟨fun _ => ⟨by decide, by decide, fun _ => by decide⟩,
      fun _ => ⟨by decide, by decide, fun _ => by decide⟩, by simp⟩

/-- One sample that is not a number. -/
def nanSample : List Received := [doubleReceived "Speed" 0x7FF8000000000000 5000]

theorem nanSample_not_replays :
    ¬Replays exactNumbers exactParser 0 (capturedUpdates (rawState [] false 0) nanSample)
      (buildRunJson runOptions (text "2026-03-12T19:10:12Z") (text "2026-03-12T19:10:57Z")
        (nanSample.foldl addUpdate (rawState [] false 0)) 1) := by
  have hreceived : ∀ r ∈ nanSample, Utf8 r.key ∧ Utf8 r.update.value.stringValue := by
    simp only [nanSample, List.forall_mem_singleton]
    exact ⟨.of_all rfl, .nil⟩
  have hrun := rawRun [] false 0 nanSample
  have hnan : ¬Binary64.IsFinite 0x7FF8000000000000 := by decide
  intro h
  refine not_valid_buildRunJson texts_runOptions (.of_all rfl) (.of_all rfl)
    (hrun.isText hreceived) 1 (fun hfinite => ?_) h.valid
  exact hnan (((hrun.finite_iff runOptions).mp hfinite).2 _ List.mem_cons_self)

end SmartDashboard.Capture
