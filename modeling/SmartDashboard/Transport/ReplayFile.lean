import Mathlib.Data.FinEnum
import SmartDashboard.App.VariableStore
import SmartDashboard.Library.Decimal
import SmartDashboard.Transport.Replay

/-!
# Replay files

How `LoadReplayFile` reads a file of replay events, one JSON object a line. A line becomes a
`QJsonObject` by `QJsonDocument::fromJson`, which is a parameter, and the object an event by
`ParseReplayEvent`.

What Qt makes of a number or a text that is asked for as the other comes from `QtNumbers`.

## Main definitions

- `JsonValue`, `JsonObject`: `QJsonValue` and `QJsonObject` with their conversions
- `parseReplayEvent`: the event of one object
- `loadReplayLines`: the events of a file, in the order of its lines
-/

namespace SmartDashboard.Transport

open Direct (ByteString DoubleBits)
open App (text)

/-- The conversions between numbers and texts. -/
structure QtNumbers where
  doubleToLongLong : DoubleBits → ℤ
  longLongToDouble : ℤ → DoubleBits
  stringToDouble : ByteString → DoubleBits
  doubleToString : DoubleBits → ByteString

/-- `qIsFinite`: an exponent of all ones is an infinity or a NaN. -/
def isFinite (bits : DoubleBits) : Bool := (bits >>> 52) &&& 0x7FF ≠ 0x7FF

/-- The white space of `QByteArray::trimmed`. -/
def isSpace (b : UInt8) : Bool := b = 32 ∨ (9 ≤ b ∧ b ≤ 13)

def trimmed (bytes : ByteString) : ByteString :=
  ((bytes.dropWhile isSpace).reverse.dropWhile isSpace).reverse

theorem dropWhile_isSpace {bytes : ByteString} (h : ∀ b ∈ bytes, isSpace b = false) :
    bytes.dropWhile isSpace = bytes := by
  cases bytes with
  | nil => rfl
  | cons b bytes =>
    rw [List.dropWhile_cons_of_neg]
    rw [h b List.mem_cons_self]
    exact Bool.false_ne_true

theorem trimmed_eq_self {bytes : ByteString} (h : ∀ b ∈ bytes, isSpace b = false) :
    trimmed bytes = bytes := by
  rw [trimmed, dropWhile_isSpace h,
    dropWhile_isSpace fun b hb => h b (List.mem_reverse.mp hb), List.reverse_reverse]

theorem isSpace_of_isDigit {b : UInt8} (h : Decimal.IsDigit b) : isSpace b = false := by
  rw [isSpace, decide_eq_false_iff_not]
  rintro (rfl | ⟨-, hle⟩)
  · exact absurd h (by decide)
  · exact absurd (UInt8.le_trans h.1 hle) (by decide)

/-- A numeral without its plus sign. -/
def withoutPlus : ByteString → ByteString
  | 43 :: digits => digits
  | digits => digits

/-- `QString::toULongLong`, or 0. -/
def stringToULongLong (s : ByteString) : ℕ :=
  let digits := withoutPlus (trimmed s)
  if digits ≠ [] ∧ (∀ b ∈ digits, Decimal.IsDigit b) ∧ Decimal.decimalValue digits < 2 ^ 64 then
    Decimal.decimalValue digits
  else 0

/-- The numeral of a number that fits reads back as the number. -/
theorem stringToULongLong_decimal {n : ℕ} (h : n < 2 ^ 64) :
    stringToULongLong (Decimal.decimal n) = n := by
  have htrimmed : trimmed (Decimal.decimal n) = Decimal.decimal n :=
    trimmed_eq_self fun b hb => isSpace_of_isDigit (Decimal.isDigit_of_mem_decimal hb)
  have hsign : withoutPlus (Decimal.decimal n) = Decimal.decimal n := by
    unfold withoutPlus
    split
    · next digits heq =>
      -- A plus sign is not a digit.
      have hplus : (43 : UInt8) ∈ Decimal.decimal n := heq ▸ List.mem_cons_self
      exact absurd (Decimal.isDigit_of_mem_decimal hplus) (by decide)
    · rfl
  rw [stringToULongLong, htrimmed, hsign, Decimal.decimalValue_decimal, if_pos]
  exact ⟨Decimal.decimal_ne_nil n, fun b hb => Decimal.isDigit_of_mem_decimal hb, h⟩

/-- `QString::toLongLong`, or 0. -/
def stringToLongLong (s : ByteString) : ℤ :=
  let (negative, digits) := match trimmed s with
    | 45 :: digits => (true, digits)
    | digits => (false, withoutPlus digits)
  let value : ℤ :=
    if negative then -Decimal.decimalValue digits else Decimal.decimalValue digits
  if digits ≠ [] ∧ (∀ b ∈ digits, Decimal.IsDigit b) ∧ -2 ^ 63 ≤ value ∧ value < 2 ^ 63 then value
  else 0

/-- `QString::toLower`, as far as it decides about ASCII names without `i` and `k`. -/
def toLower (s : ByteString) : ByteString :=
  s.map fun b => if 65 ≤ b ∧ b ≤ 90 then b + 32 else b

/-! ### JSON values -/

/-- `QJsonValue`: a number without fraction that fits in 64 bits is kept as an integer. -/
inductive JsonValue
  | undefined
  | null
  | bool (value : Bool)
  | integer (value : ℤ)
  | double (value : DoubleBits)
  | string (value : ByteString)
  | array (items : List JsonValue)
  | object (fields : List (ByteString × JsonValue))

/-- `QJsonObject`: its fields by name. -/
abbrev JsonObject := List (ByteString × JsonValue)

/-- Of several fields of one name the last counts. -/
def JsonObject.value (object : JsonObject) (name : ByteString) : JsonValue :=
  (object.reverse.lookup name).getD .undefined

namespace JsonValue

def toBool : JsonValue → Bool
  | .bool value => value
  | _ => false

def toDouble (qt : QtNumbers) : JsonValue → DoubleBits
  | .integer value => qt.longLongToDouble value
  | .double value => value
  | _ => 0

def toString (default : ByteString) : JsonValue → ByteString
  | .string value => value
  | _ => default

def toArray : JsonValue → List JsonValue
  | .array items => items
  | _ => []

/-- `toVariant().toLongLong()`. -/
def toLongLong (qt : QtNumbers) : JsonValue → ℤ
  | .bool value => if value then 1 else 0
  | .integer value => value
  | .double value => qt.doubleToLongLong value
  | .string value => stringToLongLong value
  | _ => 0

/-- `toVariant().toULongLong()`. -/
def toULongLong (qt : QtNumbers) : JsonValue → UInt64
  | .string value => UInt64.ofNat (stringToULongLong value)
  | value => UInt64.ofInt (value.toLongLong qt)

end JsonValue

/-! ### Events -/

namespace Replay

variable (qt : QtNumbers)

/-- The type an event names, by its name or by its number. -/
def replayValueType : JsonValue → Int32
  | .string typeText =>
    if toLower typeText = text "bool" then 1
    else if toLower typeText = text "double" then 2
    else 3
  | value => Int32.ofInt (value.toLongLong qt)

/-- The value that is read for a type. -/
def replayValue (valueType : Int32) (value : JsonValue) : Variant :=
  if valueType = 1 then .bool value.toBool
  else if valueType = 2 then .double (value.toDouble qt)
  else .string (value.toString [])

/-- `ParseReplayEvent`. The markers it collects on the side, and those that connection and marker
events carry, are left out. -/
def parseReplayEvent (object : JsonObject) : Option ReplayEvent :=
  let kind := (object.value (text "eventKind")).toString (text "data")
  let timestampUs := (object.value (text "timestampUs")).toLongLong qt
  if kind = text "connection_state" then
    some { kind := .connectionState, timestampUs := timestampUs, update := { key := [] } }
  else if kind = text "marker" then
    some { kind := .marker, timestampUs := timestampUs, update := { key := [] } }
  else
    let key := (object.value (text "key")).toString []
    let valueType := replayValueType qt (object.value (text "valueType"))
    let event : ReplayEvent :=
      { timestampUs := timestampUs
        update :=
          { key := key
            seq := (object.value (text "seq")).toULongLong qt
            valueType := valueType
            value := replayValue qt valueType (object.value (text "value")) } }
    if key = [] then none else some event

/-- The part of `LoadReplayFile` that reads a file line by line. `fromJson` gives nothing for a
text that is not a JSON object. -/
def loadReplayLines (fromJson : ByteString → Option JsonObject) (raw : ByteString) :
    List ReplayEvent :=
  (raw.splitOn 10).filterMap fun rawLine =>
    let line := trimmed rawLine
    if line = [] then none else (fromJson line).bind (parseReplayEvent qt)

/-- Lines that keep their bytes when they are trimmed are read one by one. -/
theorem loadReplayLines_lines {fromJson : ByteString → Option JsonObject}
    {lines : List ByteString}
    (hlines : ∀ line ∈ lines, line ≠ [] ∧ 10 ∉ line ∧ trimmed line = line) :
    loadReplayLines qt fromJson (lines.flatMap fun line => line ++ [10]) =
      lines.filterMap fun line => (fromJson line).bind (parseReplayEvent qt) := by
  induction lines with
  | nil => rfl
  | cons line lines ih =>
    obtain ⟨hne, hnewline, htrimmed⟩ := hlines line List.mem_cons_self
    have ih := ih fun line hline => hlines line (List.mem_cons_of_mem _ hline)
    have hsplit : List.splitOn 10 (line ++ 10 :: lines.flatMap fun line => line ++ [10]) =
        line :: List.splitOn 10 (lines.flatMap fun line => line ++ [10]) :=
      List.splitOn_append_cons_self_of_not_mem hnewline _
    rw [List.flatMap_cons, List.append_assoc, List.singleton_append, loadReplayLines, hsplit,
      List.filterMap_cons, List.filterMap_cons, htrimmed, if_neg hne]
    rw [loadReplayLines] at ih
    rw [ih]

end Replay

end SmartDashboard.Transport
