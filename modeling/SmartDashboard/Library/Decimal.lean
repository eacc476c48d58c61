import Mathlib.Data.List.Induction
import Mathlib.Tactic.IntervalCases
import Mathlib.Tactic.Ring

/-!
# Decimal numerals

Natural numbers as their shortest decimal numeral in ASCII, and back.
-/

namespace Decimal

/-- The ASCII digit of a number below ten. -/
def digit (d : ℕ) : UInt8 := UInt8.ofNat (48 + d)

def IsDigit (b : UInt8) : Prop := 48 ≤ b ∧ b ≤ 57

instance (b : UInt8) : Decidable (IsDigit b) := inferInstanceAs (Decidable (_ ∧ _))

def digitValue (b : UInt8) : ℕ := b.toNat - 48

/-- The numeral of `n`, when it has at most `fuel` digits. -/
def numeral : ℕ → ℕ → List UInt8
  | 0, _ => []
  | fuel + 1, n => if n < 10 then [digit n] else numeral fuel (n / 10) ++ [digit (n % 10)]

def decimal (n : ℕ) : List UInt8 := numeral (n + 1) n

/-- The number that a string of digits spells. -/
def decimalValue (digits : List UInt8) : ℕ :=
  digits.foldl (fun acc b => 10 * acc + digitValue b) 0

theorem digitValue_digit {d : ℕ} (h : d < 10) : digitValue (digit d) = d := by
  interval_cases d <;> rfl

theorem isDigit_digit {d : ℕ} (h : d < 10) : IsDigit (digit d) := by
  interval_cases d <;> decide

theorem decimalValue_concat (digits : List UInt8) (b : UInt8) :
    decimalValue (digits ++ [b]) = 10 * decimalValue digits + digitValue b := by
  rw [decimalValue, List.foldl_append]
  rfl

theorem numeral_facts {fuel n : ℕ} (h : n < fuel) :
    decimalValue (numeral fuel n) = n ∧ (∀ b ∈ numeral fuel n, IsDigit b) ∧
      ∃ first rest, numeral fuel n = first :: rest ∧ (first = 48 → rest = []) := by
  -- The number that is left loses its last digit each time the fuel loses one.
  induction fuel generalizing n with
  | zero => omega
  | succ fuel ih =>
    rw [numeral]
    split_ifs with hlt
    · refine ⟨?_, ?_, digit n, [], rfl, fun _ => rfl⟩
      · show 10 * 0 + digitValue (digit n) = n
        rw [digitValue_digit hlt]
        omega
      · intro b hb
        rw [List.mem_singleton] at hb
        exact hb ▸ isDigit_digit hlt
    · obtain ⟨hvalue, hdigits, first, rest, hcons, hfirst⟩ := ih (n := n / 10) (by omega)
      have hmod : n % 10 < 10 := Nat.mod_lt n (by decide)
      refine ⟨?_, ?_, first, rest ++ [digit (n % 10)], ?_, ?_⟩
      · rw [decimalValue_concat, hvalue, digitValue_digit hmod]
        omega
      · intro b hb
        rcases List.mem_append.mp hb with hb | hb
        · exact hdigits b hb
        · rw [List.mem_singleton] at hb
          exact hb ▸ isDigit_digit hmod
      · rw [hcons, List.cons_append]
      · intro hzero
        -- A numeral of one zero spells 0, but there is a number left.
        rw [hcons, hfirst hzero, hzero] at hvalue
        have hleft : n / 10 = 0 := hvalue.symm
        omega

@[simp] theorem decimalValue_decimal (n : ℕ) : decimalValue (decimal n) = n :=
  (numeral_facts (Nat.lt_succ_self n)).1

theorem isDigit_of_mem_decimal {n : ℕ} {b : UInt8} (h : b ∈ decimal n) : IsDigit b :=
  (numeral_facts (Nat.lt_succ_self n)).2.1 b h

/-- A numeral has a first digit, and that is zero only for the numeral of zero. -/
theorem exists_decimal_eq_cons (n : ℕ) :
    ∃ first rest, decimal n = first :: rest ∧ (first = 48 → rest = []) :=
  (numeral_facts (Nat.lt_succ_self n)).2.2

theorem decimal_ne_nil (n : ℕ) : decimal n ≠ [] := by
  obtain ⟨first, rest, h, -⟩ := exists_decimal_eq_cons n
  rw [h]
  exact List.cons_ne_nil first rest

/-- The digits that `Nat.repr` writes. -/
theorem decimal_eq_toDigits (n : ℕ) :
    decimal n = (Nat.toDigits 10 n).map fun c => c.toNat.toUInt8 := by
  have hfuel : ∀ fuel > n, numeral fuel n = (Nat.toDigits 10 n).map fun c => c.toNat.toUInt8 := by
    intro fuel
    induction fuel generalizing n with
    | zero => omega
    | succ fuel ih =>
      intro hlt
      rw [numeral, Nat.toDigits_eq_if (by decide)]
      split_ifs with hsmall
      · rw [List.map_singleton, Nat.toNat_digitChar_of_lt_ten hsmall]
        rfl
      · rw [ih (n / 10) (by omega), List.map_append, List.map_singleton,
          Nat.toNat_digitChar_of_lt_ten (Nat.mod_lt n (by decide))]
        rfl
  exact hfuel (n + 1) (Nat.lt_succ_self n)

/-! ### Numerals put together -/

theorem decimalValue_append (digits more : List UInt8) :
    decimalValue (digits ++ more) = decimalValue digits * 10 ^ more.length + decimalValue more := by
  induction more using List.reverseRecOn with
  | nil => simp [decimalValue]
  | append_singleton more b ih =>
    rw [← List.append_assoc, decimalValue_concat, decimalValue_concat, ih, List.length_append,
      List.length_singleton, pow_succ]
    ring

@[simp] theorem decimalValue_zeros (k : ℕ) : decimalValue (List.replicate k 48) = 0 := by
  induction k with
  | zero => rfl
  | succ k ih =>
    rw [List.replicate_succ', decimalValue_concat, ih]
    rfl

theorem decimalValue_lt {digits : List UInt8} (h : ∀ b ∈ digits, IsDigit b) :
    decimalValue digits < 10 ^ digits.length := by
  induction digits using List.reverseRecOn with
  | nil => simp [decimalValue]
  | append_singleton digits b ih =>
    have hlt := ih fun b' hb' => h b' (List.mem_append_left _ hb')
    have hb : digitValue b ≤ 9 := by
      have hle := UInt8.le_iff_toNat_le.mp (h b (by simp)).2
      simp only [UInt8.reduceToNat] at hle
      unfold digitValue
      omega
    rw [decimalValue_concat, List.length_append, List.length_singleton, pow_succ]
    omega

/-- The length of a numeral says between which powers of ten the number is. -/
theorem length_decimal {n k : ℕ} (hle : 10 ^ k ≤ n) (hlt : n < 10 ^ (k + 1)) :
    (decimal n).length = k + 1 := by
  obtain ⟨first, rest, hcons, hfirst⟩ := exists_decimal_eq_cons n
  have hdigits : ∀ b ∈ decimal n, IsDigit b := fun b hb => isDigit_of_mem_decimal hb
  have hvalue := decimalValue_decimal n
  have hupper := decimalValue_lt hdigits
  rw [hvalue] at hupper
  have hlower : 10 ^ rest.length ≤ n := by
    have hzero : first ≠ 48 := by
      intro hzero
      rw [hcons, hfirst hzero, hzero] at hvalue
      have hn : n = 0 := hvalue.symm
      have hpos : 0 < 10 ^ k := Nat.pow_pos (by decide)
      omega
    have hdigit : 1 ≤ digitValue first := by
      have hle := UInt8.le_iff_toNat_le.mp (hdigits first (by rw [hcons]; simp)).1
      have hne : first.toNat ≠ 48 := fun heq => hzero (UInt8.toNat_inj.mp heq)
      simp only [UInt8.reduceToNat] at hle
      unfold digitValue
      omega
    have hsplit : decimalValue (first :: rest) =
        digitValue first * 10 ^ rest.length + decimalValue rest := by
      rw [← List.singleton_append, decimalValue_append]
      show (10 * 0 + digitValue first) * _ + _ = _
      rw [Nat.mul_zero, Nat.zero_add]
    rw [hcons, hsplit] at hvalue
    have hmul := Nat.mul_le_mul_right (10 ^ rest.length) hdigit
    omega
  rw [hcons, List.length_cons] at hupper ⊢
  have hk : k < rest.length + 1 := (Nat.pow_lt_pow_iff_right (by decide)).mp (hle.trans_lt hupper)
  have hk' : rest.length < k + 1 := (Nat.pow_lt_pow_iff_right (by decide)).mp (hlower.trans_lt hlt)
  omega

end Decimal
