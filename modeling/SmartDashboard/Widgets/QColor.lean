import SmartDashboard.Direct.Types
import SmartDashboard.Library.Json

/-!
# Colours and their names

A `QColor` in its red, green, blue and alpha channels of 16 bits, the name of a colour in hex
digits, and the colour of a name. `QColor::name` has no room for the alpha channel and for more
than the upper half of the others.

## Main definitions

- `QColor.name`, `QColor.ofName`: the name of a colour and the colour of a name
- `QColor.IsHexRgb`: the colours that a name stands for

## Main results

- `QColor.ofName_name_iff`: a colour is the one of its name exactly if it is one of these
-/

namespace SmartDashboard.Widgets

open Direct (ByteString)

inductive QColor
  | invalid
  | rgba (red green blue alpha : UInt16)
  deriving DecidableEq, Repr

namespace QColor

def isValid : QColor → Bool
  | invalid => false
  | rgba .. => true

def hexDigit (n : ℕ) : UInt8 := if n < 10 then UInt8.ofNat (48 + n) else UInt8.ofNat (87 + n)

/-- The two digits of the upper half of a channel. -/
def channelDigits (channel : UInt16) : ByteString :=
  [hexDigit (channel.toNat / 4096), hexDigit (channel.toNat / 256 % 16)]

/-- `name(QColor::HexRgb)`. An invalid colour has no channels, and is named as black. -/
def name : QColor → ByteString
  | invalid => 35 :: (channelDigits 0 ++ channelDigits 0 ++ channelDigits 0)
  | rgba red green blue _ =>
    35 :: (channelDigits red ++ channelDigits green ++ channelDigits blue)

/-- The number that hex digits of either case stand for. -/
def hexNumber (digits : ByteString) : Option ℕ :=
  digits.foldl (fun number b => number.bind fun n => (Json.hexValue b).map (16 * n + ·)) (some 0)

/-- Three channels of the same number of digits, behind the digits that come before them. -/
def hexChannels (digits : ByteString) (start width : ℕ) (scale : ℕ → ℕ) (alpha : UInt16) : QColor :=
  let channel (i : ℕ) := hexNumber ((digits.drop (start + i * width)).take width)
  match channel 0, channel 1, channel 2 with
  | some red, some green, some blue =>
    rgba (.ofNat (scale red)) (.ofNat (scale green)) (.ofNat (scale blue)) alpha
  | _, _, _ => invalid

/-- The colour of hex digits: one to four for each channel, or two with the alpha channel before
the others. -/
def ofHex (digits : ByteString) : QColor :=
  match digits.length with
  | 3 => hexChannels digits 0 1 (· * 0x1111) 0xFFFF
  | 6 => hexChannels digits 0 2 (· * 0x101) 0xFFFF
  | 8 =>
    match hexNumber (digits.take 2) with
    | some alpha => hexChannels digits 2 2 (· * 0x101) (.ofNat (alpha * 0x101))
    | none => invalid
  | 9 => hexChannels digits 0 3 (fun n => n * 16 + n / 256) 0xFFFF
  | 12 => hexChannels digits 0 4 id 0xFFFF
  | _ => invalid

/-- `QColor(name)`. The colours that have names of their own are a parameter. -/
def ofName (namedColor : ByteString → QColor) : ByteString → QColor
  | [] => invalid
  | 35 :: digits => ofHex digits
  | name => namedColor name

/-- A channel that is given by its upper half. -/
def IsDoubled (channel : UInt16) : Prop := channel.toNat / 256 = channel.toNat % 256

/-- An opaque colour of channels with 8 bits. -/
def IsHexRgb : QColor → Prop
  | invalid => False
  | rgba red green blue alpha =>
    IsDoubled red ∧ IsDoubled green ∧ IsDoubled blue ∧ alpha = 0xFFFF

instance (channel : UInt16) : Decidable (IsDoubled channel) :=
  inferInstanceAs (Decidable (_ = _))

instance : ∀ color : QColor, Decidable color.IsHexRgb
  | invalid => isFalse id
  | rgba .. => inferInstanceAs (Decidable (_ ∧ _ ∧ _ ∧ _))

theorem hexValue_hexDigit {n : ℕ} (h : n < 16) : Json.hexValue (hexDigit n) = some n := by
  interval_cases n <;> rfl

theorem hexNumber_channelDigits (channel : UInt16) :
    hexNumber (channelDigits channel) = some (channel.toNat / 256) := by
  have hlt : channel.toNat < 65536 := channel.toNat_lt
  rw [hexNumber, channelDigits, List.foldl_cons, List.foldl_cons, List.foldl_nil,
    Option.bind_some, hexValue_hexDigit (by omega), Option.map_some, Option.bind_some,
    hexValue_hexDigit (by omega), Option.map_some, Option.some_inj]
  omega

variable {namedColor : ByteString → QColor}

/-- The name keeps the upper halves of the channels. -/
theorem ofName_name (color : QColor) : ofName namedColor color.name =
    match color with
    | invalid => rgba 0 0 0 0xFFFF
    | rgba red green blue _ =>
      rgba (.ofNat (red.toNat / 256 * 0x101)) (.ofNat (green.toNat / 256 * 0x101))
        (.ofNat (blue.toNat / 256 * 0x101)) 0xFFFF := by
  cases color with
  | invalid => rfl
  | rgba red green blue alpha =>
    have hred := hexNumber_channelDigits red
    have hgreen := hexNumber_channelDigits green
    have hblue := hexNumber_channelDigits blue
    rw [channelDigits] at hred hgreen hblue
    simp only [name, ofName, channelDigits, ofHex, hexChannels, List.cons_append, List.nil_append,
      List.length_cons, List.length_nil, Nat.reduceAdd, Nat.reduceMul, List.drop_zero,
      List.drop_succ_cons, List.take_succ_cons, List.take_zero, Nat.zero_add,
      Nat.zero_mul, Nat.one_mul, hred, hgreen, hblue]

theorem ofNat_doubled {channel : UInt16} :
    UInt16.ofNat (channel.toNat / 256 * 0x101) = channel ↔ IsDoubled channel := by
  have hlt : channel.toNat < 65536 := channel.toNat_lt
  rw [← UInt16.toNat_inj, UInt16.toNat_ofNat', IsDoubled]
  omega

theorem ofName_name_iff {color : QColor} :
    ofName namedColor color.name = color ↔ color.IsHexRgb := by
  rw [ofName_name]
  cases color with
  | invalid => exact iff_of_false QColor.noConfusion id
  | rgba red green blue alpha =>
    simp only [rgba.injEq, ofNat_doubled, IsHexRgb, eq_comm (a := (0xFFFF : UInt16))]

end QColor

end SmartDashboard.Widgets
