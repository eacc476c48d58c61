import Mathlib.Algebra.Order.Field.Power
import Mathlib.Algebra.Order.Field.Rat
import Mathlib.Tactic.FieldSimp
import Mathlib.Tactic.Linarith
import Mathlib.Tactic.Positivity
import Mathlib.Tactic.Ring

/-!
# Doubles and what they denote

The binary64 interchange format: a sign, eleven bits of exponent and fifty-two of a fraction. An
exponent field of all ones is an infinity or a NaN, one of zero a zero or a subnormal number.

## Main definitions

- `LessOrEqual`: the comparison
- `IsFinite`, `value`: the doubles that denote numbers, and the number
- `NearestTo`: the number is nearer to the double than to any other

## Main results

- `abs_value_le_gap`: how near another double can be
- `nearestTo_of_abs_sub_le`: a number that agrees in 17 digits is nearest to the double
-/

namespace Binary64

def exponentField (bits : UInt64) : ℕ := bits.toNat / 2 ^ 52 % 2 ^ 11

def fraction (bits : UInt64) : ℕ := bits.toNat % 2 ^ 52

def negative (bits : UInt64) : Bool := 2 ^ 63 ≤ bits.toNat

def IsFinite (bits : UInt64) : Prop := exponentField bits ≠ 2047

instance (bits : UInt64) : Decidable (IsFinite bits) := inferInstanceAs (Decidable (_ ≠ _))

def IsNaN (bits : UInt64) : Prop := exponentField bits = 2047 ∧ fraction bits ≠ 0

instance (bits : UInt64) : Decidable (IsNaN bits) := inferInstanceAs (Decidable (_ ∧ _))

/-- The place of a double in their order, in which the two zeros are one. -/
def rank (bits : UInt64) : ℤ :=
  if negative bits then -(bits.toNat % 2 ^ 63 : ℕ) else (bits.toNat % 2 ^ 63 : ℕ)

/-- The comparison of doubles, in which a NaN takes no part. -/
def LessOrEqual (a b : UInt64) : Prop := ¬IsNaN a ∧ ¬IsNaN b ∧ rank a ≤ rank b

instance (a b : UInt64) : Decidable (LessOrEqual a b) := inferInstanceAs (Decidable (_ ∧ _))

/-- The significand as an integer, with its hidden bit. -/
def significand (bits : UInt64) : ℕ :=
  if exponentField bits = 0 then fraction bits else 2 ^ 52 + fraction bits

/-- The exponent of the last bit of the significand. -/
def exponent (bits : UInt64) : ℤ :=
  if exponentField bits = 0 then -1074 else exponentField bits - 1075

def magnitude (bits : UInt64) : ℚ := significand bits * 2 ^ exponent bits

/-- The number that a finite double denotes. -/
def value (bits : UInt64) : ℚ := if negative bits then -magnitude bits else magnitude bits

/-- The numbers that are rounded to a finite double other than zero, and zero. -/
def InRange (q : ℚ) : Prop :=
  q = 0 ∨ ((2 : ℚ) ^ (-1075 : ℤ) < |q| ∧ |q| < (2 ^ 54 - 1) * 2 ^ (970 : ℤ))

/-- The double is strictly nearer to the number than every double of another value. -/
def NearestTo (q : ℚ) (bits : UInt64) : Prop :=
  ∀ other, value other ≠ value bits → |q - value bits| < |q - value other|

variable {bits other : UInt64}

theorem significand_lt (bits : UInt64) : significand bits < 2 ^ 53 := by
  have hfraction : fraction bits < 2 ^ 52 := Nat.mod_lt _ (by decide)
  unfold significand
  split_ifs <;> omega

/-- All but the smallest doubles have the hidden bit. -/
theorem exponent_cases (bits : UInt64) :
    exponent bits = -1074 ∨ (-1074 < exponent bits ∧ 2 ^ 52 ≤ significand bits) := by
  unfold exponent significand
  split_ifs with hzero
  · exact .inl rfl
  · rcases Nat.lt_or_ge 1 (exponentField bits) with hfield | hfield
    · right
      constructor
      · omega
      · omega
    · left
      omega

theorem neg_le_exponent (bits : UInt64) : -1074 ≤ exponent bits := by
  rcases exponent_cases bits with h | h <;> omega

theorem magnitude_nonneg (bits : UInt64) : 0 ≤ magnitude bits := by
  unfold magnitude
  positivity

theorem abs_value (bits : UInt64) : |value bits| = magnitude bits := by
  unfold value
  split_ifs
  · rw [abs_neg, abs_of_nonneg (magnitude_nonneg bits)]
  · exact abs_of_nonneg (magnitude_nonneg bits)

theorem significand_pos (h : magnitude bits ≠ 0) : 0 < significand bits := by
  apply Nat.pos_of_ne_zero
  intro hzero
  apply h
  rw [magnitude, hzero, Nat.cast_zero, zero_mul]

/-- The smallest double. -/
theorem le_magnitude (h : magnitude bits ≠ 0) : (2 : ℚ) ^ (-1074 : ℤ) ≤ magnitude bits := by
  have hone : (1 : ℚ) ≤ significand bits := by exact_mod_cast significand_pos h
  have hpow : (2 : ℚ) ^ (-1074 : ℤ) ≤ 2 ^ exponent bits :=
    zpow_le_zpow_right₀ (by norm_num) (neg_le_exponent bits)
  calc (2 : ℚ) ^ (-1074 : ℤ) ≤ 2 ^ exponent bits := hpow
    _ ≤ significand bits * 2 ^ exponent bits := le_mul_of_one_le_left (by positivity) hone

/-- The largest double. -/
theorem magnitude_le (h : IsFinite bits) :
    magnitude bits ≤ (2 ^ 53 - 1) * 2 ^ (971 : ℤ) := by
  have hsignificand : (significand bits : ℚ) ≤ 2 ^ 53 - 1 := by
    have hlt : significand bits + 1 ≤ 2 ^ 53 := significand_lt bits
    have hcast : ((significand bits + 1 : ℕ) : ℚ) ≤ 2 ^ 53 := by exact_mod_cast hlt
    push_cast at hcast
    linarith
  have hexponent : exponent bits ≤ 971 := by
    have hfield : exponentField bits < 2 ^ 11 := Nat.mod_lt _ (by decide)
    unfold IsFinite at h
    unfold exponent
    split_ifs <;> omega
  have hpow : (2 : ℚ) ^ exponent bits ≤ 2 ^ (971 : ℤ) :=
    zpow_le_zpow_right₀ (by norm_num) hexponent
  exact mul_le_mul hsignificand hpow (by positivity) (by norm_num)

/-- Integers of 64 bits are in the range. -/
theorem inRange_intCast {k : ℤ} (h : |k| < 2 ^ 64) : InRange k := by
  by_cases hzero : k = 0
  · exact .inl (by rw [hzero, Int.cast_zero])
  right
  have hone : (1 : ℚ) ≤ |(k : ℚ)| := by
    rw [← Int.cast_abs]
    exact_mod_cast Int.one_le_abs hzero
  have hlt : |(k : ℚ)| < 2 ^ 64 := by
    rw [← Int.cast_abs]
    exact_mod_cast h
  have hsmall : (2 : ℚ) ^ (-1075 : ℤ) < 1 := zpow_lt_one_of_neg₀ (by norm_num) (by norm_num)
  have hlarge : (2 : ℚ) ^ (64 : ℤ) ≤ 2 ^ (970 : ℤ) :=
    zpow_le_zpow_right₀ (by norm_num) (by norm_num)
  have hpos : (0 : ℚ) < 2 ^ (970 : ℤ) := by positivity
  constructor
  · exact lt_of_lt_of_le hsmall hone
  · calc |(k : ℚ)| < 2 ^ 64 := hlt
      _ ≤ 2 ^ (970 : ℤ) := hlarge
      _ ≤ (2 ^ 54 - 1) * 2 ^ (970 : ℤ) := le_mul_of_one_le_left hpos.le (by norm_num)

/-! ### A double from its value -/

theorem zpow_split (e f : ℤ) (h : e ≤ f) : (2 : ℚ) ^ f = 2 ^ (f - e).toNat * 2 ^ e := by
  rw [← zpow_natCast, ← zpow_add₀ (by norm_num)]
  congr 1
  omega

/-- Two doubles of one magnitude: the one with the larger exponent would have the hidden bit. -/
theorem exponent_le_of_magnitude_eq (h : magnitude bits = magnitude other) :
    exponent other ≤ exponent bits := by
  by_contra hlt
  rw [not_le] at hlt
  have hhidden : 2 ^ 52 ≤ significand other := by
    rcases exponent_cases other with hleast | hhidden
    · have := neg_le_exponent bits
      omega
    · exact hhidden.2
  have hpow : (2 : ℚ) ^ exponent bits ≠ 0 := by positivity
  rw [magnitude, magnitude, zpow_split _ _ hlt.le, ← mul_assoc] at h
  have hnat :
      significand bits = significand other * 2 ^ (exponent other - exponent bits).toNat := by
    exact_mod_cast mul_right_cancel₀ hpow h
  have htwo : 2 ^ 1 ≤ 2 ^ (exponent other - exponent bits).toNat :=
    Nat.pow_le_pow_right (by decide) (by omega)
  have hlt' := significand_lt bits
  nlinarith

theorem fields_eq_of_magnitude_eq (h : magnitude bits = magnitude other) :
    exponentField bits = exponentField other ∧ fraction bits = fraction other := by
  have hexponent : exponent bits = exponent other :=
    le_antisymm (exponent_le_of_magnitude_eq h.symm) (exponent_le_of_magnitude_eq h)
  have hpow : (2 : ℚ) ^ exponent other ≠ 0 := by positivity
  rw [magnitude, magnitude, hexponent] at h
  have hsignificand : significand bits = significand other := by
    exact_mod_cast mul_right_cancel₀ hpow h
  have hfraction : fraction bits < 2 ^ 52 := Nat.mod_lt _ (by decide)
  have hfraction' : fraction other < 2 ^ 52 := Nat.mod_lt _ (by decide)
  unfold exponent at hexponent
  unfold significand at hsignificand
  split_ifs at hexponent hsignificand <;> omega

theorem eq_of_fields_eq (hnegative : negative bits = negative other)
    (hexponent : exponentField bits = exponentField other)
    (hfraction : fraction bits = fraction other) : bits = other := by
  apply UInt64.toNat.inj
  have hlt := bits.toNat_lt
  have hlt' := other.toNat_lt
  unfold negative at hnegative
  unfold exponentField at hexponent
  unfold fraction at hfraction
  rw [decide_eq_decide] at hnegative
  omega

/-- A double other than zero can be told from its value. -/
theorem eq_of_value_eq (hne : value bits ≠ 0) (h : value bits = value other) : bits = other := by
  have hmagnitude : magnitude bits = magnitude other := by rw [← abs_value, ← abs_value, h]
  obtain ⟨hexponent, hfraction⟩ := fields_eq_of_magnitude_eq hmagnitude
  refine eq_of_fields_eq ?_ hexponent hfraction
  by_contra hsign
  -- opposite signs, so the value would be its own opposite
  apply hne
  unfold value at h ⊢
  rw [hmagnitude] at h ⊢
  cases hnegative : negative bits with
  | true =>
    have hother : negative other = false := by
      rw [hnegative] at hsign
      exact Bool.eq_false_iff.mpr (Ne.symm hsign)
    rw [hnegative, hother] at h
    simp only [if_true, Bool.false_eq_true, if_false] at h ⊢
    linarith
  | false =>
    have hother : negative other = true := by
      rw [hnegative] at hsign
      exact Bool.eq_true_of_not_eq_false (Ne.symm hsign)
    rw [hnegative, hother] at h
    simp only [if_true, Bool.false_eq_true, if_false] at h ⊢
    linarith

/-- The two zeros. -/
theorem value_eq_zero_iff : value bits = 0 ↔ bits = 0 ∨ bits = 0x8000000000000000 := by
  constructor
  · intro h
    have hmagnitude : magnitude bits = magnitude 0 := by
      rw [← abs_value, h, abs_zero]
      simp [magnitude, significand, exponentField, fraction]
    obtain ⟨hexponent, hfraction⟩ := fields_eq_of_magnitude_eq hmagnitude
    cases hnegative : negative bits with
    | false => exact .inl (eq_of_fields_eq hnegative hexponent hfraction)
    | true => exact .inr (eq_of_fields_eq hnegative hexponent hfraction)
  · rintro (rfl | rfl)
    · simp [value, magnitude, significand, exponentField, fraction]
    · simp [value, magnitude, significand, exponentField, fraction]

/-! ### How far apart doubles are -/

/-- The difference is a multiple of the last place of the double with the smaller exponent. -/
theorem magnitude_le_of_exponent_le (h : exponent bits ≤ exponent other)
    (hne : magnitude other ≠ magnitude bits) :
    magnitude bits ≤ 2 ^ 53 * |magnitude bits - magnitude other| := by
  set k : ℤ := significand bits - significand other * 2 ^ (exponent other - exponent bits).toNat
    with hk
  have hdiff : magnitude bits - magnitude other = k * 2 ^ exponent bits := by
    rw [magnitude, magnitude, zpow_split _ _ h, hk]
    push_cast
    ring
  have hpow : (0 : ℚ) < 2 ^ exponent bits := by positivity
  have hk0 : k ≠ 0 := by
    intro hzero
    rw [hzero, Int.cast_zero, zero_mul, sub_eq_zero] at hdiff
    exact hne hdiff.symm
  have hone : (1 : ℚ) ≤ |(k : ℚ)| := by
    rw [← Int.cast_abs]
    exact_mod_cast Int.one_le_abs hk0
  have hlt : (significand bits : ℚ) ≤ 2 ^ 53 := by exact_mod_cast (significand_lt bits).le
  rw [hdiff, abs_mul, abs_of_pos hpow]
  calc magnitude bits = significand bits * 2 ^ exponent bits := rfl
    _ ≤ 2 ^ 53 * 2 ^ exponent bits := by gcongr
    _ ≤ 2 ^ 53 * (|(k : ℚ)| * 2 ^ exponent bits) := by
      gcongr
      exact le_mul_of_one_le_left hpow.le hone

/-- A double with a smaller exponent is below every double that has the hidden bit. -/
theorem magnitude_le_of_exponent_lt (h : exponent other < exponent bits) :
    magnitude bits ≤ 2 ^ 53 * |magnitude bits - magnitude other| := by
  have hhidden : 2 ^ 52 ≤ significand bits := by
    rcases exponent_cases bits with hleast | hhidden
    · have := neg_le_exponent other
      omega
    · exact hhidden.2
  have hpow : (0 : ℚ) < 2 ^ exponent bits := by positivity
  have hother : 2 * magnitude other ≤ (2 ^ 53 - 1) * 2 ^ exponent bits := by
    have hlt : (significand other : ℚ) ≤ 2 ^ 53 - 1 := by
      have hle : significand other + 1 ≤ 2 ^ 53 := significand_lt other
      have hcast : ((significand other + 1 : ℕ) : ℚ) ≤ 2 ^ 53 := by exact_mod_cast hle
      push_cast at hcast
      linarith
    have hstep : (2 : ℚ) * 2 ^ exponent other ≤ 2 ^ exponent bits := by
      rw [mul_comm, ← zpow_add_one₀ (by norm_num)]
      exact zpow_le_zpow_right₀ (by norm_num) h
    have hpos : (0 : ℚ) ≤ significand other := by positivity
    calc 2 * magnitude other = significand other * (2 * 2 ^ exponent other) := by
          rw [magnitude]
          ring
      _ ≤ significand other * 2 ^ exponent bits := by gcongr
      _ ≤ (2 ^ 53 - 1) * 2 ^ exponent bits := by gcongr
  have hlarge : (2 : ℚ) ^ 52 ≤ significand bits := by exact_mod_cast hhidden
  have hmagnitude : magnitude bits = significand bits * 2 ^ exponent bits := rfl
  have hscaled : (2 : ℚ) ^ 52 * 2 ^ exponent bits ≤ significand bits * 2 ^ exponent bits := by
    gcongr
  have habs := le_abs_self (magnitude bits - magnitude other)
  nlinarith

/-- Another double is at least as far away as a part in `2 ^ 53`. -/
theorem abs_value_le_gap (h : value other ≠ value bits) :
    |value bits| ≤ 2 ^ 53 * |value bits - value other| := by
  have hsame : magnitude other ≠ magnitude bits →
      magnitude bits ≤ 2 ^ 53 * |magnitude bits - magnitude other| := by
    intro hne
    rcases le_or_gt (exponent bits) (exponent other) with hle | hlt
    · exact magnitude_le_of_exponent_le hle hne
    · exact magnitude_le_of_exponent_lt hlt
  have hopposite : magnitude bits ≤ 2 ^ 53 * |magnitude bits + magnitude other| := by
    have hbits := magnitude_nonneg bits
    have hother := magnitude_nonneg other
    rw [abs_of_nonneg (by linarith)]
    linarith
  rw [abs_value]
  unfold value at h ⊢
  split_ifs at h ⊢ with hnegative hother hother
  · rw [neg_sub_neg, abs_sub_comm]
    exact hsame fun heq => h (congrArg Neg.neg heq)
  · rw [← abs_neg, neg_sub, sub_neg_eq_add, add_comm]
    exact hopposite
  · rw [sub_neg_eq_add]
    exact hopposite
  · exact hsame h

/-- Half a unit in the 17th digit is not enough to reach another double. -/
theorem nearestTo_of_abs_sub_le {q : ℚ} {x : ℤ} (hx : 10 ^ x ≤ |value bits|)
    (hq : |q - value bits| ≤ 10 ^ (x - 16) / 2) : NearestTo q bits := by
  intro other hother
  have hgap := abs_value_le_gap hother
  have hscale : (10 : ℚ) ^ (x - 16) = 10 ^ x / 10 ^ 16 := by
    rw [zpow_sub₀ (by norm_num)]
    norm_num
  have hpow : (0 : ℚ) < 10 ^ x := by positivity
  have hbound : (10 : ℚ) ^ (x - 16) < |value bits - value other| := by
    rw [hscale, div_lt_iff₀ (by norm_num)]
    have habs : (0 : ℚ) ≤ |value bits - value other| := abs_nonneg _
    linarith
  -- the double is within half of the distance, so the other one is not
  have htriangle : |value bits - value other| ≤ |q - value bits| + |q - value other| := by
    have := abs_sub_le (value bits) q (value other)
    rwa [abs_sub_comm (value bits) q] at this
  linarith

/-! ### Rounding to the nearest double -/

/-- No two doubles are both nearest, zeros apart. -/
theorem NearestTo.unique {q : ℚ} (h : NearestTo q bits) (h' : NearestTo q other)
    (hne : value bits ≠ 0) : bits = other := by
  refine eq_of_value_eq hne ?_
  by_contra hdiff
  have hlt := h other (Ne.symm hdiff)
  have hlt' := h' bits hdiff
  linarith

/-- The nearest double, or zero. -/
noncomputable def nearest (q : ℚ) : UInt64 :=
  @dite _ (∃ bits, value bits ≠ 0 ∧ NearestTo q bits) (Classical.propDecidable _)
    (fun h => h.choose) fun _ => 0

theorem nearest_eq {q : ℚ} (hne : value bits ≠ 0) (h : NearestTo q bits) : nearest q = bits := by
  have hex : ∃ bits, value bits ≠ 0 ∧ NearestTo q bits := ⟨bits, hne, h⟩
  rw [nearest, dif_pos hex]
  exact (h.unique hex.choose_spec.2 hne).symm

theorem nearest_zero : nearest 0 = 0 := by
  have hnone : ¬∃ bits, value bits ≠ 0 ∧ NearestTo 0 bits := by
    rintro ⟨bits, hne, h⟩
    have hzero : value 0 = 0 := value_eq_zero_iff.mpr (.inl rfl)
    have hlt := h 0 (by rw [hzero]; exact hne.symm)
    rw [hzero, sub_zero, abs_zero] at hlt
    exact absurd hlt (not_lt.mpr (abs_nonneg _))
  rw [nearest, dif_neg hnone]

end Binary64
