import Mathlib.Data.Int.Log
import Mathlib.Data.List.TakeWhile
import Mathlib.Data.Rat.Floor
import SmartDashboard.Library.Binary64
import SmartDashboard.Library.Json

/-!
# Doubles in the general format

What `printf` and an output stream make of a double with `%.*g`: so many significant digits of the
exact value, rounded half to even, without trailing zeros, in plain or in exponential notation,
whichever is meant for numbers of that size. Infinities and NaNs are words.

## Main definitions

- `roundHalfEven`, `significant`: the digits and the exponent of a positive number
- `generalNumeral`, `formatGeneral`: the numeral of a finite double, and the text of any double

## Main results

- `valid_generalNumeral`: the text of a finite double is a JSON number
- `nearestTo_generalNumeral`: with 17 digits it is nearest to the double
- `writesValue_formatGeneral`: in a JSON text the double is a number exactly if it is finite
-/

namespace Binary64

open Decimal
open Json (Numeral WritesValue)

/-- The nearest integer, the even one of two. -/
def roundHalfEven (q : ℚ) : ℤ :=
  if q - ⌊q⌋ < 1 / 2 then ⌊q⌋
  else if 1 / 2 < q - ⌊q⌋ then ⌊q⌋ + 1
  else if Even ⌊q⌋ then ⌊q⌋
  else ⌊q⌋ + 1

/-- The decimal exponent of a number, and its first `precision` digits as an integer. When they
round up to the next power of ten, so does the exponent. -/
def significant (precision : ℕ) (q : ℚ) : ℕ × ℤ :=
  let x := Int.log 10 q
  let digits := (roundHalfEven (q * 10 ^ (precision - 1 - x))).toNat
  if digits = 10 ^ precision then (10 ^ (precision - 1), x + 1) else (digits, x)

def withoutZeros (digits : List UInt8) : List UInt8 :=
  (digits.reverse.dropWhile fun b => b = 48).reverse

/-- The layout of `%g`. -/
def layout (precision : ℕ) (negative : Bool) (digits : List UInt8) (x : ℤ) : Numeral :=
  if -4 ≤ x ∧ x < precision then
    if 0 ≤ x then
      { negative := negative
        int := digits.take (x.toNat + 1)
        frac := withoutZeros (digits.drop (x.toNat + 1)) }
    else
      { negative := negative
        int := [48]
        frac := withoutZeros (List.replicate (-x - 1).toNat 48 ++ digits) }
  else
    { negative := negative
      int := digits.take 1
      frac := withoutZeros (digits.drop 1)
      exponent := some x }

def generalNumeral (precision : ℕ) (bits : UInt64) : Numeral :=
  if magnitude bits = 0 then { negative := negative bits, int := [48] }
  else
    let parts := significant precision (magnitude bits)
    layout precision (negative bits) (decimal parts.1) parts.2

/-- `inf` or `nan`, with its sign. -/
def notFiniteText (bits : UInt64) : List UInt8 :=
  (if negative bits then [45] else []) ++
    if fraction bits = 0 then [105, 110, 102] else [110, 97, 110]

def formatGeneral (precision : ℕ) (bits : UInt64) : List UInt8 :=
  if IsFinite bits then (generalNumeral precision bits).text else notFiniteText bits

/-! ### Rounding -/

theorem roundHalfEven_mem (q : ℚ) : roundHalfEven q = ⌊q⌋ ∨ roundHalfEven q = ⌊q⌋ + 1 := by
  unfold roundHalfEven
  split_ifs
  · exact .inl rfl
  · exact .inr rfl
  · exact .inl rfl
  · exact .inr rfl

theorem abs_roundHalfEven_sub_le (q : ℚ) : |(roundHalfEven q : ℚ) - q| ≤ 1 / 2 := by
  have hle := Int.floor_le q
  have hlt := Int.lt_floor_add_one q
  unfold roundHalfEven
  split_ifs with hbelow habove heven
  · rw [abs_le]
    constructor <;> linarith
  · push_cast
    rw [abs_le]
    constructor <;> linarith
  · rw [abs_le]
    constructor <;> linarith
  · push_cast
    rw [abs_le]
    constructor <;> linarith

theorem zpow_ten_mul (e f : ℤ) : (10 : ℚ) ^ e * 10 ^ f = 10 ^ (e + f) :=
  (zpow_add₀ (by norm_num) e f).symm

/-- Scaled so that the first `precision` digits are before the point. -/
theorem scaled_bounds (precision : ℕ) {q : ℚ} (hq : 0 < q) :
    (10 : ℚ) ^ ((precision : ℤ) - 1) ≤ q * 10 ^ ((precision : ℤ) - 1 - Int.log 10 q) ∧
      q * 10 ^ ((precision : ℤ) - 1 - Int.log 10 q) < (10 : ℚ) ^ (precision : ℤ) := by
  set x := Int.log 10 q with hx
  have hlower : (10 : ℚ) ^ x ≤ q := by
    exact_mod_cast @Int.zpow_log_le_self ℚ _ _ _ _ 10 q (by norm_num) hq
  have hupper : q < (10 : ℚ) ^ (x + 1) := by
    exact_mod_cast @Int.lt_zpow_succ_log_self ℚ _ _ _ _ 10 (by norm_num) q
  have hpow : (0 : ℚ) < 10 ^ ((precision : ℤ) - 1 - x) := by positivity
  constructor
  · calc (10 : ℚ) ^ ((precision : ℤ) - 1) = 10 ^ x * 10 ^ ((precision : ℤ) - 1 - x) := by
          rw [zpow_ten_mul]
          congr 1
          ring
      _ ≤ q * 10 ^ ((precision : ℤ) - 1 - x) := by gcongr
  · calc q * 10 ^ ((precision : ℤ) - 1 - x) < 10 ^ (x + 1) * 10 ^ ((precision : ℤ) - 1 - x) := by
          gcongr
      _ = 10 ^ (precision : ℤ) := by
          rw [zpow_ten_mul]
          congr 1
          ring

/-- The digits that are kept, with an error of half a unit of the last one. -/
theorem significant_spec {precision : ℕ} (hprecision : 0 < precision) {q : ℚ} (hq : 0 < q) :
    10 ^ (precision - 1) ≤ (significant precision q).1 ∧
      (significant precision q).1 < 10 ^ precision ∧
      |((significant precision q).1 : ℚ) * 10 ^ ((significant precision q).2 + 1 - precision) - q| ≤
        10 ^ (Int.log 10 q + 1 - precision) / 2 := by
  obtain ⟨hlower, hupper⟩ := scaled_bounds precision hq
  set x := Int.log 10 q with hx
  set scaled := q * 10 ^ ((precision : ℤ) - 1 - x) with hscaled
  obtain ⟨k, rfl⟩ : ∃ k, precision = k + 1 := ⟨precision - 1, by omega⟩
  have hk : ((k + 1 : ℕ) : ℤ) - 1 = k := by push_cast; ring
  rw [hk, zpow_natCast] at hlower
  rw [zpow_natCast] at hupper
  -- the rounded digits lie between the powers of ten, the upper one included
  have hfloor : (10 : ℤ) ^ k ≤ ⌊scaled⌋ := Int.le_floor.mpr (by push_cast; exact hlower)
  have hfloor' : ⌊scaled⌋ < (10 : ℤ) ^ (k + 1) := Int.floor_lt.mpr (by push_cast; exact hupper)
  have hpos : (0 : ℤ) < 10 ^ k := by positivity
  obtain ⟨n, hn⟩ : ∃ n : ℕ, roundHalfEven scaled = n := by
    refine ⟨(roundHalfEven scaled).toNat, (Int.toNat_of_nonneg ?_).symm⟩
    rcases roundHalfEven_mem scaled with h | h <;> omega
  have hle : 10 ^ k ≤ n ∧ n ≤ 10 ^ (k + 1) := by
    have hints : (10 : ℤ) ^ k ≤ n ∧ (n : ℤ) ≤ 10 ^ (k + 1) := by
      rw [← hn]
      rcases roundHalfEven_mem scaled with h | h <;> omega
    exact_mod_cast hints
  have hunit : (0 : ℚ) < 10 ^ (x + 1 - ((k + 1 : ℕ) : ℤ)) := by positivity
  have herror : |(n : ℚ) * 10 ^ (x + 1 - ((k + 1 : ℕ) : ℤ)) - q| ≤
      10 ^ (x + 1 - ((k + 1 : ℕ) : ℤ)) / 2 := by
    have hback : q = scaled * 10 ^ (x + 1 - ((k + 1 : ℕ) : ℤ)) := by
      rw [hscaled, mul_assoc, zpow_ten_mul]
      have hzero : ((k + 1 : ℕ) : ℤ) - 1 - x + (x + 1 - ((k + 1 : ℕ) : ℤ)) = 0 := by ring
      rw [hzero, zpow_zero, mul_one]
    have hround := abs_roundHalfEven_sub_le scaled
    rw [hn] at hround
    calc |(n : ℚ) * 10 ^ (x + 1 - ((k + 1 : ℕ) : ℤ)) - q|
        = |((n : ℤ) : ℚ) - scaled| * 10 ^ (x + 1 - ((k + 1 : ℕ) : ℤ)) := by
          rw [← abs_of_pos hunit, ← abs_mul, abs_of_pos hunit, sub_mul, ← hback]
          norm_cast
      _ ≤ 1 / 2 * 10 ^ (x + 1 - ((k + 1 : ℕ) : ℤ)) := by gcongr
      _ = 10 ^ (x + 1 - ((k + 1 : ℕ) : ℤ)) / 2 := by ring
  have hnat : (roundHalfEven scaled).toNat = n := by rw [hn, Int.toNat_natCast]
  rw [significant, ← hx, ← hscaled, hnat]
  split_ifs with hcarry
  · -- all nines: one and zeros, with the next exponent
    refine ⟨le_rfl, Nat.pow_lt_pow_right (by decide) (by omega), ?_⟩
    rw [hcarry] at herror
    have hsame : ((10 ^ (k + 1 - 1) : ℕ) : ℚ) * 10 ^ (x + 1 + 1 - ((k + 1 : ℕ) : ℤ)) =
        ((10 ^ (k + 1) : ℕ) : ℚ) * 10 ^ (x + 1 - ((k + 1 : ℕ) : ℤ)) := by
      push_cast
      rw [← zpow_natCast, ← zpow_natCast, zpow_ten_mul, zpow_ten_mul]
      congr 1
      push_cast
      ring
    rw [hsame]
    exact herror
  · exact ⟨hle.1, lt_of_le_of_ne hle.2 hcarry, herror⟩

/-- The exponent is the one before the digits were rounded, or the next. -/
theorem significant_snd (precision : ℕ) (q : ℚ) :
    (significant precision q).2 = Int.log 10 q ∨
      (significant precision q).2 = Int.log 10 q + 1 := by
  unfold significant
  dsimp only
  split_ifs
  · exact .inr rfl
  · exact .inl rfl

/-! ### The layout -/

theorem exists_withoutZeros (digits : List UInt8) :
    ∃ n, digits = withoutZeros digits ++ List.replicate n 48 := by
  refine ⟨(digits.reverse.takeWhile fun b => b = 48).length, ?_⟩
  have hzeros : (digits.reverse.takeWhile fun b => b = 48) =
      List.replicate (digits.reverse.takeWhile fun b => b = 48).length 48 :=
    List.eq_replicate_length.mpr fun b hb => by simpa using List.mem_takeWhile_imp hb
  have hsplit := @List.takeWhile_append_dropWhile _ (fun b => decide (b = 48)) digits.reverse
  rw [hzeros] at hsplit
  rw [withoutZeros, ← List.reverse_replicate, ← List.reverse_append, hsplit, List.reverse_reverse]

theorem mem_of_mem_withoutZeros {digits : List UInt8} {b : UInt8} (h : b ∈ withoutZeros digits) :
    b ∈ digits := by
  obtain ⟨n, hn⟩ := exists_withoutZeros digits
  rw [hn]
  exact List.mem_append_left _ h

/-- Zeros at the end of a fraction do not count. -/
theorem value_withoutZeros (negative : Bool) (int frac : List UInt8) (exponent : Option ℤ) :
    Numeral.value
        { negative := negative, int := int, frac := withoutZeros frac, exponent := exponent } =
      Numeral.value { negative := negative, int := int, frac := frac, exponent := exponent } := by
  obtain ⟨n, hn⟩ := exists_withoutZeros frac
  have hvalue : (decimalValue (int ++ frac) : ℚ) =
      decimalValue (int ++ withoutZeros frac) * 10 ^ (n : ℤ) := by
    rw [zpow_natCast]
    conv_lhs => rw [hn, ← List.append_assoc, decimalValue_append, decimalValue_zeros,
      List.length_replicate]
    push_cast
    ring
  have hlength : (frac.length : ℤ) = (withoutZeros frac).length + n := by
    conv_lhs => rw [hn, List.length_append, List.length_replicate]
    push_cast
    ring
  simp only [Numeral.value]
  rw [hvalue, hlength, mul_assoc, mul_assoc, mul_assoc, zpow_ten_mul]
  congr 3
  ring

section Layout

variable {precision : ℕ} {negative : Bool} {digits : List UInt8} {x : ℤ}

theorem value_layout (hlength : digits.length = precision) (hprecision : 0 < precision) :
    (layout precision negative digits x).value =
      (if negative then -1 else 1) * decimalValue digits * 10 ^ (x + 1 - precision) := by
  unfold layout
  by_cases hplain : -4 ≤ x ∧ x < precision
  · rw [if_pos hplain]
    by_cases hnonneg : 0 ≤ x
    · -- the point is among the digits
      rw [if_pos hnonneg, value_withoutZeros]
      simp only [Numeral.value, List.take_append_drop, List.length_drop, Option.getD_none]
      congr 2
      omega
    · -- the point is before the digits
      rw [if_neg hnonneg, value_withoutZeros]
      have hzeros : decimalValue ([48] ++ (List.replicate (-x - 1).toNat 48 ++ digits)) =
          decimalValue digits := by
        have hfront : [48] ++ List.replicate (-x - 1).toNat (48 : UInt8) =
            List.replicate ((-x - 1).toNat + 1) 48 := rfl
        rw [← List.append_assoc, hfront, decimalValue_append, decimalValue_zeros, Nat.zero_mul,
          Nat.zero_add]
      simp only [Numeral.value, hzeros, List.length_append, List.length_replicate,
        Option.getD_none]
      congr 2
      push_cast
      omega
  · rw [if_neg hplain, value_withoutZeros]
    simp only [Numeral.value, List.take_append_drop, List.length_drop, Option.getD_some]
    congr 2
    omega

theorem valid_layout (hdigits : ∀ b ∈ digits, IsDigit b) (hne : digits ≠ [])
    (hfirst : digits.head? ≠ some 48) : (layout precision negative digits x).Valid := by
  have hfrac : ∀ {more : List UInt8}, (∀ b ∈ more, IsDigit b) →
      ∀ b ∈ withoutZeros more, IsDigit b := fun h b hb => h b (mem_of_mem_withoutZeros hb)
  have hint : ∀ n, digits.take (n + 1) ≠ [] ∧ (∀ b ∈ digits.take (n + 1), IsDigit b) ∧
      ((digits.take (n + 1)).head? = some 48 → digits.take (n + 1) = [48]) := by
    intro n
    refine ⟨?_, fun b hb => hdigits b (List.mem_of_mem_take hb), fun hhead => ?_⟩
    · obtain ⟨b, rest, rfl⟩ := List.exists_cons_of_ne_nil hne
      simp
    · rw [List.head?_take, if_neg (Nat.succ_ne_zero n)] at hhead
      exact absurd hhead hfirst
  have hdrop : ∀ n, ∀ b ∈ digits.drop n, IsDigit b := fun n b hb =>
    hdigits b (List.mem_of_mem_drop hb)
  unfold layout
  split_ifs
  · obtain ⟨hne, hall, hzero⟩ := hint x.toNat
    exact ⟨hne, hall, hzero, hfrac (hdrop _)⟩
  · refine ⟨List.cons_ne_nil 48 [], fun b hb => ?_, fun _ => rfl, hfrac fun b hb => ?_⟩
    · rw [List.mem_singleton.mp hb]
      decide
    · rcases List.mem_append.mp hb with hb | hb
      · rw [List.eq_of_mem_replicate hb]
        decide
      · exact hdigits b hb
  · obtain ⟨hne, hall, hzero⟩ := hint 0
    exact ⟨hne, hall, hzero, hfrac (hdrop _)⟩

end Layout

/-! ### The numeral of a double -/

section Numeral

variable {precision : ℕ} {bits : UInt64}

theorem generalNumeral_of_zero (h : magnitude bits = 0) :
    generalNumeral precision bits = { negative := negative bits, int := [48] } := if_pos h

theorem generalNumeral_of_ne (h : magnitude bits ≠ 0) :
    generalNumeral precision bits =
      layout precision (negative bits) (decimal (significant precision (magnitude bits)).1)
        (significant precision (magnitude bits)).2 := if_neg h

theorem valid_generalNumeral (hprecision : 0 < precision) (bits : UInt64) :
    (generalNumeral precision bits).Valid := by
  by_cases hzero : magnitude bits = 0
  · rw [generalNumeral_of_zero hzero]
    refine ⟨List.cons_ne_nil 48 [], fun b hb => ?_, fun _ => rfl, by simp⟩
    rw [List.mem_singleton.mp hb]
    decide
  have hpos : 0 < magnitude bits := lt_of_le_of_ne (magnitude_nonneg bits) (Ne.symm hzero)
  obtain ⟨hlower, -, -⟩ := significant_spec hprecision hpos
  set digits := (significant precision (magnitude bits)).1 with hdigits
  -- a numeral that begins with a zero is that of zero
  have hfirst : (decimal digits).head? ≠ some 48 := by
    intro hhead
    obtain ⟨first, rest, hcons, hfirst⟩ := exists_decimal_eq_cons digits
    rw [hcons] at hhead
    have hfirst48 : first = 48 := Option.some.inj hhead
    have hvalue := decimalValue_decimal digits
    rw [hcons, hfirst hfirst48, hfirst48] at hvalue
    have hnone : digits = 0 := hvalue.symm
    have hten : 0 < 10 ^ (precision - 1) := Nat.pow_pos (by decide)
    omega
  rw [generalNumeral_of_ne hzero, ← hdigits]
  exact valid_layout (fun b hb => isDigit_of_mem_decimal hb) (decimal_ne_nil _) hfirst

theorem value_generalNumeral (hprecision : 0 < precision) (hne : magnitude bits ≠ 0) :
    (generalNumeral precision bits).value =
      (if negative bits then -1 else 1) * (significant precision (magnitude bits)).1 *
        10 ^ ((significant precision (magnitude bits)).2 + 1 - precision) := by
  have hpos : 0 < magnitude bits := lt_of_le_of_ne (magnitude_nonneg bits) (Ne.symm hne)
  obtain ⟨hlower, hupper, -⟩ := significant_spec hprecision hpos
  obtain ⟨k, rfl⟩ : ∃ k, precision = k + 1 := ⟨precision - 1, by omega⟩
  rw [Nat.add_sub_cancel] at hlower
  rw [generalNumeral_of_ne hne, value_layout (length_decimal hlower hupper) hprecision,
    decimalValue_decimal]

theorem abs_value_generalNumeral (hprecision : 0 < precision) (hne : magnitude bits ≠ 0) :
    |(generalNumeral precision bits).value| =
      (significant precision (magnitude bits)).1 *
        10 ^ ((significant precision (magnitude bits)).2 + 1 - precision) := by
  have hpow : (0 : ℚ) < 10 ^ ((significant precision (magnitude bits)).2 + 1 - precision) := by
    positivity
  rw [value_generalNumeral hprecision hne, abs_mul, abs_mul, abs_of_pos hpow, Nat.abs_cast]
  split_ifs <;> simp

theorem value_generalNumeral_of_ne (hprecision : 0 < precision) (hne : magnitude bits ≠ 0) :
    |(generalNumeral precision bits).value - value bits| ≤
      10 ^ (Int.log 10 (magnitude bits) + 1 - precision) / 2 := by
  have hpos : 0 < magnitude bits := lt_of_le_of_ne (magnitude_nonneg bits) (Ne.symm hne)
  obtain ⟨-, -, herror⟩ := significant_spec hprecision hpos
  rw [value_generalNumeral hprecision hne]
  unfold value
  split_ifs
  · rw [neg_one_mul, neg_mul, ← neg_sub', abs_neg]
    exact herror
  · rw [one_mul]
    exact herror

/-- Seventeen digits identify a double. -/
theorem nearestTo_generalNumeral (bits : UInt64) :
    NearestTo (generalNumeral 17 bits).value bits := by
  by_cases hzero : magnitude bits = 0
  · have hvalue : value bits = 0 := by
      unfold value
      split_ifs <;> simp [hzero]
    have hnumeral : (generalNumeral 17 bits).value = 0 := by
      rw [generalNumeral_of_zero hzero]
      simp [Numeral.value, decimalValue, digitValue]
    intro other hother
    rw [hvalue] at hother ⊢
    rw [hnumeral, sub_zero, abs_zero, zero_sub, abs_neg]
    exact abs_pos.mpr hother
  · have hpos : 0 < magnitude bits := lt_of_le_of_ne (magnitude_nonneg bits) (Ne.symm hzero)
    have hlog : (10 : ℚ) ^ Int.log 10 (magnitude bits) ≤ |value bits| := by
      rw [abs_value]
      exact_mod_cast @Int.zpow_log_le_self ℚ _ _ _ _ 10 (magnitude bits) (by norm_num) hpos
    refine nearestTo_of_abs_sub_le hlog ?_
    have herror := @value_generalNumeral_of_ne 17 bits (by decide) hzero
    have hplace : Int.log 10 (magnitude bits) + 1 - ((17 : ℕ) : ℤ) =
        Int.log 10 (magnitude bits) - 16 := by
      push_cast
      ring
    rwa [hplace] at herror

theorem two_pow_bounds : 997920 * (10 : ℚ) ^ (292 : ℤ) < 10 ^ 6 * 2 ^ (970 : ℤ) ∧
    10 ^ 6 * (2 : ℚ) ^ (970 : ℤ) < 997921 * 10 ^ (292 : ℤ) := by
  have hten : (10 : ℚ) ^ (292 : ℤ) = (10 ^ 146) ^ 2 := by
    rw [← pow_mul]
    rfl
  have htwo : (2 : ℚ) ^ (970 : ℤ) = (2 ^ 194) ^ 5 := by
    rw [← pow_mul]
    rfl
  rw [hten, htwo]
  constructor
  · norm_num
  · norm_num

theorem zpow_ten_292 (n : ℕ) : (10 : ℚ) ^ ((292 : ℤ) + n) = 10 ^ n * 10 ^ (292 : ℤ) := by
  rw [zpow_add₀ (by norm_num), zpow_natCast, mul_comm]

/-- At six digits the largest doubles are rounded down. -/
theorem six_digits_lt {digits : ℕ} {q : ℚ} {y : ℤ} (hy : y = 308 ∨ y = 309)
    (hq : q ≤ (2 ^ 53 - 1) * 2 ^ (971 : ℤ)) (hlower : 10 ^ 5 ≤ digits)
    (herror : digits * 10 ^ (y + 1 - 6) - q ≤ 10 ^ (303 : ℤ) / 2) :
    (digits : ℚ) * 10 ^ (y + 1 - 6) < (2 ^ 54 - 1) * 2 ^ (970 : ℤ) := by
  obtain ⟨hbelow, habove⟩ := two_pow_bounds
  have hpow : (2 : ℚ) ^ (971 : ℤ) = 2 ^ (970 : ℤ) * 2 := zpow_add_one₀ (by norm_num) 970
  have hunit : (10 : ℚ) ^ (303 : ℤ) = 10 ^ 11 * 10 ^ (292 : ℤ) := zpow_ten_292 11
  have hplace : (10 : ℚ) ^ (y + 1 - 6) = 10 ^ 11 * 10 ^ (292 : ℤ) ∨
      (10 : ℚ) ^ (y + 1 - 6) = 10 ^ 12 * 10 ^ (292 : ℤ) := by
    rcases hy with rfl | rfl
    · exact .inl (zpow_ten_292 11)
    · exact .inr (zpow_ten_292 12)
  have hten : (0 : ℚ) < 10 ^ (292 : ℤ) := by positivity
  rw [hpow] at hq
  rw [hunit] at herror
  generalize (2 : ℚ) ^ (970 : ℤ) = p at *
  generalize (10 : ℚ) ^ (292 : ℤ) = t at *
  rcases hplace with hplace | hplace
  · rw [hplace] at herror ⊢
    have hdigits : digits < 179770 := by
      by_contra hge
      have hge : (179770 : ℚ) ≤ digits := by exact_mod_cast Nat.le_of_not_lt hge
      have hproduct : 179770 * t ≤ digits * t := mul_le_mul_of_nonneg_right hge hten.le
      linarith only [hproduct, herror, hq, habove, hten]
    have hdigits : (digits : ℚ) ≤ 179769 := by exact_mod_cast Nat.le_of_lt_succ hdigits
    have hproduct : digits * t ≤ 179769 * t := mul_le_mul_of_nonneg_right hdigits hten.le
    linarith only [hproduct, hbelow, hten]
  · -- one more digit before the point would be above them all
    rw [hplace] at herror
    have hdigits : (10 : ℚ) ^ 5 ≤ digits := by exact_mod_cast hlower
    have hproduct : 10 ^ 5 * t ≤ digits * t := mul_le_mul_of_nonneg_right hdigits hten.le
    linarith only [hproduct, herror, hq, habove, hten]

/-- At six digits, and at seventeen, rounding does not leave the range of the doubles. -/
theorem inRange_generalNumeral (hprecision : precision = 6 ∨ precision = 17)
    (hfinite : IsFinite bits) : InRange (generalNumeral precision bits).value := by
  have hprecision' : 0 < precision := by omega
  by_cases hzero : magnitude bits = 0
  · left
    rw [generalNumeral_of_zero hzero]
    simp [Numeral.value, decimalValue, digitValue]
  right
  have hpos : 0 < magnitude bits := lt_of_le_of_ne (magnitude_nonneg bits) (Ne.symm hzero)
  obtain ⟨hlower, -, herror⟩ := significant_spec hprecision' hpos
  have hexponent := significant_snd precision (magnitude bits)
  rw [abs_value_generalNumeral hprecision' hzero]
  set digits := (significant precision (magnitude bits)).1 with hdigits
  set y := (significant precision (magnitude bits)).2 with hy
  set x := Int.log 10 (magnitude bits) with hx
  have hlog : (10 : ℚ) ^ x ≤ magnitude bits := by
    exact_mod_cast @Int.zpow_log_le_self ℚ _ _ _ _ 10 (magnitude bits) (by norm_num) hpos
  have hlog' : magnitude bits < (10 : ℚ) ^ (x + 1) := by
    exact_mod_cast @Int.lt_zpow_succ_log_self ℚ _ _ _ _ 10 (by norm_num) (magnitude bits)
  have hsmall := le_magnitude hzero
  have hlarge := magnitude_le hfinite
  obtain ⟨hbelow, habove⟩ := abs_le.mp herror
  have hunit : (10 : ℚ) ^ (x + 1 - precision) ≤ 10 ^ (x - 1) :=
    zpow_le_zpow_right₀ (by norm_num) (by omega)
  have hplace : (10 : ℚ) ^ x = 10 ^ (x - 1) * 10 := by
    rw [← zpow_add_one₀ (by norm_num), sub_add_cancel]
  have hplace' : (0 : ℚ) < 10 ^ (x - 1) := by positivity
  constructor
  · have hhalf : (2 : ℚ) ^ (-1074 : ℤ) = 2 ^ (-1075 : ℤ) * 2 := zpow_add_one₀ (by norm_num) (-1075)
    linarith
  by_cases hsix : precision = 6 ∧ x = 308
  · obtain ⟨rfl, hx308⟩ := hsix
    refine six_digits_lt (by omega) hlarge hlower ?_
    rw [hx308] at habove
    exact habove
  obtain ⟨hten, hten'⟩ := two_pow_bounds
  have hpow : (2 : ℚ) ^ (971 : ℤ) = 2 ^ (970 : ℤ) * 2 := zpow_add_one₀ (by norm_num) 970
  rw [hpow] at hlarge
  rcases lt_trichotomy x 308 with hlt | heq | hgt
  · -- there is room for the rounding
    have hle : (10 : ℚ) ^ (x + 1) ≤ 10 ^ (308 : ℤ) := zpow_le_zpow_right₀ (by norm_num) hlt
    have hnext : (10 : ℚ) ^ (x + 1) = 10 ^ x * 10 := zpow_add_one₀ (by norm_num) x
    have hbig : (10 : ℚ) ^ (308 : ℤ) = 10 ^ 16 * 10 ^ (292 : ℤ) := zpow_ten_292 16
    rw [hbig, hnext] at hle
    rw [hnext] at hlog'
    generalize (2 : ℚ) ^ (970 : ℤ) = p at *
    generalize (10 : ℚ) ^ (292 : ℤ) = t at *
    linarith only [habove, hunit, hplace, hplace', hlog', hle, hten]
  · have hlast : (10 : ℚ) ^ (x + 1 - precision) ≤ 10 ^ (292 : ℤ) :=
      zpow_le_zpow_right₀ (by norm_num) (by omega)
    have hpositive : (0 : ℚ) < 10 ^ (292 : ℤ) := by positivity
    generalize (2 : ℚ) ^ (970 : ℤ) = p at *
    generalize (10 : ℚ) ^ (292 : ℤ) = t at *
    linarith only [habove, hlast, hlarge, hten, hpositive]
  · -- no double is that large
    have hle : (10 : ℚ) ^ (309 : ℤ) ≤ 10 ^ x := zpow_le_zpow_right₀ (by norm_num) hgt
    have hbig : (10 : ℚ) ^ (309 : ℤ) = 10 ^ 17 * 10 ^ (292 : ℤ) := zpow_ten_292 17
    rw [hbig] at hle
    generalize (2 : ℚ) ^ (970 : ℤ) = p at *
    generalize (10 : ℚ) ^ (292 : ℤ) = t at *
    linarith only [hle, hlog, hlarge, hten', hten, hpos]

/-- No token begins with the words. -/
theorem lex_notFiniteText (bits : UInt64) (rest : List UInt8) :
    Json.lex (notFiniteText bits ++ rest) = none := by
  unfold notFiniteText
  split_ifs <;> exact Json.lex_eq_none (by decide) rfl

theorem utf8_notFiniteText (bits : UInt64) : Utf8 (notFiniteText bits) := by
  unfold notFiniteText
  split_ifs <;> exact .of_all rfl

theorem writesValue_formatGeneral (hprecision : 0 < precision) (bits : UInt64) :
    WritesValue (formatGeneral precision bits) (IsFinite bits)
      [.number (generalNumeral precision bits)] := by
  unfold formatGeneral
  by_cases hfinite : IsFinite bits
  · rw [if_pos hfinite]
    exact (Json.writesValue_number (valid_generalNumeral hprecision bits)).congr (by simp [hfinite])
  · rw [if_neg hfinite]
    exact
      { utf8 := utf8_notFiniteText bits
        lex_append := fun hc => absurd hc hfinite
        fails := fun _ rest _ => lex_notFiniteText bits rest }

end Numeral

end Binary64
