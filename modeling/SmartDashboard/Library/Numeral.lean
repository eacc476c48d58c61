import Mathlib.Data.Rat.Defs
import Mathlib.Algebra.Field.Rat
import SmartDashboard.Library.Decimal

/-!
# Numerals of JSON

The number token of RFC 8259: an optional minus sign, digits without leading zeros, an optional
fraction and an optional exponent. `lexNumber` takes the longest numeral off the front of a text.

## Main definitions

- `Numeral`, `Numeral.value`, `Numeral.text`: a numeral, what it denotes and how it is written
- `lexNumber`: the numeral at the front of a text

## Main results

- `lexNumber_text`: a numeral is read back from its text
-/

namespace Json

open Decimal

structure Numeral where
  negative : Bool := false
  int : List UInt8
  frac : List UInt8 := []
  exponent : Option ℤ := none
  deriving DecidableEq, Repr

namespace Numeral

def value (n : Numeral) : ℚ :=
  (if n.negative then -1 else 1) * decimalValue (n.int ++ n.frac) *
    10 ^ (n.exponent.getD 0 - n.frac.length)

/-- An exponent with its sign and at least two digits. -/
def exponentText (e : ℤ) : List UInt8 :=
  101 :: (if e < 0 then 45 else 43) ::
    if e.natAbs < 10 then 48 :: decimal e.natAbs else decimal e.natAbs

def fracText (frac : List UInt8) : List UInt8 := if frac = [] then [] else 46 :: frac

def text (n : Numeral) : List UInt8 :=
  (if n.negative then [45] else []) ++
    (n.int ++ (fracText n.frac ++ (n.exponent.map exponentText).getD []))

/-- The grammar of a number. -/
structure Valid (n : Numeral) : Prop where
  int_ne : n.int ≠ []
  int_digits : ∀ b ∈ n.int, IsDigit b
  int_zero : n.int.head? = some 48 → n.int = [48]
  frac_digits : ∀ b ∈ n.frac, IsDigit b

end Numeral

/-! ### Reading -/

/-- The digits at the front, and what comes after them. -/
def takeDigits (bytes : List UInt8) : List UInt8 × List UInt8 :=
  (bytes.takeWhile fun b => IsDigit b, bytes.dropWhile fun b => IsDigit b)

def lexSign : List UInt8 → Bool × List UInt8
  | 45 :: rest => (true, rest)
  | bytes => (false, bytes)

def lexInt (bytes : List UInt8) : Option (List UInt8 × List UInt8) :=
  let (digits, rest) := takeDigits bytes
  if digits = [] ∨ (digits.head? = some 48 ∧ digits ≠ [48]) then none else some (digits, rest)

def lexFrac : List UInt8 → Option (List UInt8 × List UInt8)
  | 46 :: bytes =>
    let (digits, rest) := takeDigits bytes
    if digits = [] then none else some (digits, rest)
  | bytes => some ([], bytes)

def lexExponentSign : List UInt8 → Bool × List UInt8
  | 45 :: rest => (true, rest)
  | 43 :: rest => (false, rest)
  | bytes => (false, bytes)

def lexExponent : List UInt8 → Option (Option ℤ × List UInt8)
  | [] => some (none, [])
  | b :: bytes =>
    if b = 101 ∨ b = 69 then
      let (negative, unsigned) := lexExponentSign bytes
      let (digits, rest) := takeDigits unsigned
      if digits = [] then none
      else some (some (if negative then -decimalValue digits else decimalValue digits), rest)
    else some (none, b :: bytes)

def lexNumber (bytes : List UInt8) : Option (Numeral × List UInt8) := do
  let (negative, unsigned) := lexSign bytes
  let (int, afterInt) ← lexInt unsigned
  let (frac, afterFrac) ← lexFrac afterInt
  let (exponent, rest) ← lexExponent afterFrac
  some ({ negative := negative, int := int, frac := frac, exponent := exponent }, rest)

/-- The text after a numeral does not continue it. -/
def Ends (rest : List UInt8) : Prop :=
  ∀ b ∈ rest.head?, ¬IsDigit b ∧ b ≠ 46 ∧ b ≠ 101 ∧ b ≠ 69

/-! ### Back from the text -/

section Digits

variable {digits rest : List UInt8}

theorem takeDigits_append (hdigits : ∀ b ∈ digits, IsDigit b)
    (hrest : ∀ b ∈ rest.head?, ¬IsDigit b) : takeDigits (digits ++ rest) = (digits, rest) := by
  have hall : ∀ b ∈ digits, decide (IsDigit b) = true := fun b hb => decide_eq_true (hdigits b hb)
  have hstop : rest.takeWhile (fun b => IsDigit b) = [] ∧
      rest.dropWhile (fun b => IsDigit b) = rest := by
    cases rest with
    | nil => exact ⟨rfl, rfl⟩
    | cons b rest =>
      have hb : ¬decide (IsDigit b) = true := by simpa using hrest b rfl
      exact ⟨List.takeWhile_cons_of_neg hb, List.dropWhile_cons_of_neg hb⟩
  rw [takeDigits, List.takeWhile_append_of_pos hall, List.dropWhile_append_of_pos hall, hstop.1,
    hstop.2, List.append_nil]

theorem length_takeDigits (bytes : List UInt8) :
    (takeDigits bytes).1.length + (takeDigits bytes).2.length = bytes.length := by
  rw [takeDigits, ← List.length_append, List.takeWhile_append_dropWhile]

end Digits

theorem isDigit_exponent (n : ℕ) :
    ∀ b ∈ (if n < 10 then 48 :: decimal n else decimal n), IsDigit b := by
  intro b hb
  split_ifs at hb
  · rcases List.mem_cons.mp hb with rfl | hb
    · decide
    · exact isDigit_of_mem_decimal hb
  · exact isDigit_of_mem_decimal hb

theorem decimalValue_exponent (n : ℕ) :
    decimalValue (if n < 10 then 48 :: decimal n else decimal n) = n := by
  split_ifs
  · -- the leading zero adds nothing
    exact decimalValue_decimal n
  · exact decimalValue_decimal n

theorem lexExponent_text (e : ℤ) {rest : List UInt8} (hrest : ∀ b ∈ rest.head?, ¬IsDigit b) :
    lexExponent (Numeral.exponentText e ++ rest) = some (some e, rest) := by
  set digits := if e.natAbs < 10 then 48 :: decimal e.natAbs else decimal e.natAbs with hdigits
  have htake : takeDigits (digits ++ rest) = (digits, rest) :=
    takeDigits_append (isDigit_exponent e.natAbs) hrest
  have hne : digits ≠ [] := by
    rw [hdigits]
    split_ifs
    · simp
    · exact decimal_ne_nil _
  have hvalue : decimalValue digits = e.natAbs := decimalValue_exponent e.natAbs
  have htext : Numeral.exponentText e ++ rest =
      101 :: (if e < 0 then 45 else 43) :: (digits ++ rest) := rfl
  rw [htext, lexExponent, if_pos (.inl rfl)]
  by_cases hneg : e < 0
  · simp only [if_pos hneg, lexExponentSign, htake, if_neg hne, if_true, hvalue]
    rw [show -(e.natAbs : ℤ) = e by omega]
  · simp only [if_neg hneg, lexExponentSign, htake, if_neg hne, hvalue, Bool.false_eq_true,
      if_false]
    rw [show (e.natAbs : ℤ) = e by omega]

theorem head_exponent {n : Numeral} {rest : List UInt8} (hrest : Ends rest) :
    ∀ b ∈ ((n.exponent.map Numeral.exponentText).getD [] ++ rest).head?, ¬IsDigit b ∧ b ≠ 46 := by
  cases hexp : n.exponent with
  | none =>
    intro b hb
    obtain ⟨hdigit, hpoint, -⟩ := hrest b hb
    exact ⟨hdigit, hpoint⟩
  | some e =>
    intro b hb
    obtain rfl : 101 = b := Option.some.inj hb
    decide

theorem lexFrac_text {frac rest : List UInt8} (hfrac : ∀ b ∈ frac, IsDigit b)
    (hrest : ∀ b ∈ rest.head?, ¬IsDigit b ∧ b ≠ 46) :
    lexFrac (Numeral.fracText frac ++ rest) = some (frac, rest) := by
  unfold Numeral.fracText
  split_ifs with hnil
  · subst hnil
    rw [List.nil_append]
    unfold lexFrac
    split
    · exact absurd rfl (hrest 46 rfl).2
    · rfl
  · have htake := takeDigits_append hfrac fun b hb => (hrest b hb).1
    simp only [List.cons_append, lexFrac, htake, if_neg hnil]

theorem lexInt_text {n : Numeral} (h : n.Valid) (rest : List UInt8)
    (hrest : ∀ b ∈ rest.head?, ¬IsDigit b) : lexInt (n.int ++ rest) = some (n.int, rest) := by
  have hok : ¬(n.int = [] ∨ (n.int.head? = some 48 ∧ n.int ≠ [48])) := by
    rintro (hnil | ⟨hhead, hne⟩)
    · exact h.int_ne hnil
    · exact hne (h.int_zero hhead)
  simp only [lexInt, takeDigits_append h.int_digits hrest, if_neg hok]

theorem lexSign_text {n : Numeral} (h : n.Valid) (rest : List UInt8) :
    lexSign ((if n.negative then [45] else []) ++ (n.int ++ rest)) =
      (n.negative, n.int ++ rest) := by
  cases hneg : n.negative with
  | true => rfl
  | false =>
    -- the first digit is no minus sign
    obtain ⟨b, int, hint⟩ := List.exists_cons_of_ne_nil h.int_ne
    have hb : IsDigit b := h.int_digits b (by rw [hint]; exact List.mem_cons_self)
    simp only [Bool.false_eq_true, if_false, List.nil_append, hint, List.cons_append]
    unfold lexSign
    split
    · next heq =>
      rw [(List.cons.inj heq).1] at hb
      exact absurd hb (by decide)
    · rfl

theorem lexNumber_text {n : Numeral} (h : n.Valid) {rest : List UInt8} (hrest : Ends rest) :
    lexNumber (n.text ++ rest) = some (n, rest) := by
  have hexponent : lexExponent ((n.exponent.map Numeral.exponentText).getD [] ++ rest) =
      some (n.exponent, rest) := by
    cases hexp : n.exponent with
    | none =>
      show lexExponent rest = some (none, rest)
      cases rest with
      | nil => rfl
      | cons b rest =>
        obtain ⟨-, -, hlower, hupper⟩ := hrest b rfl
        exact if_neg (not_or.mpr ⟨hlower, hupper⟩)
    | some e => exact lexExponent_text e fun b hb => (hrest b hb).1
  have hfrac := lexFrac_text h.frac_digits (head_exponent hrest (n := n))
  have hint := lexInt_text h
    (Numeral.fracText n.frac ++ ((n.exponent.map Numeral.exponentText).getD [] ++ rest)) ?_
  · rw [Numeral.text, List.append_assoc, List.append_assoc, List.append_assoc]
    simp only [lexNumber, lexSign_text h, hint, hfrac, hexponent, Option.bind_eq_bind,
      Option.bind_some]
  · -- after the digits comes a point, an exponent or the rest
    intro b hb
    unfold Numeral.fracText at hb
    split_ifs at hb
    · exact (head_exponent hrest b hb).1
    · obtain rfl : 46 = b := Option.some.inj hb
      decide

theorem lt_of_isDigit {b : UInt8} (h : IsDigit b) : b < 128 :=
  UInt8.lt_of_le_of_lt h.2 (by decide)

theorem Numeral.Valid.ascii {n : Numeral} (h : n.Valid) : ∀ b ∈ n.text, b < 128 := by
  have hfrac : ∀ b ∈ fracText n.frac, b < 128 := by
    intro b hb
    unfold fracText at hb
    split_ifs at hb
    · cases hb
    · rcases List.mem_cons.mp hb with rfl | hb
      · decide
      · exact lt_of_isDigit (h.frac_digits b hb)
  have hexponent : ∀ b ∈ (n.exponent.map exponentText).getD [], b < 128 := by
    intro b hb
    cases hexp : n.exponent with
    | none =>
      rw [hexp] at hb
      cases hb
    | some e =>
      rw [hexp] at hb
      rcases List.mem_cons.mp hb with rfl | hb
      · decide
      rcases List.mem_cons.mp hb with rfl | hb
      · split_ifs <;> decide
      · exact lt_of_isDigit (isDigit_exponent e.natAbs b hb)
  intro b hb
  rcases List.mem_append.mp hb with hsign | hb
  · split_ifs at hsign
    · obtain rfl := List.mem_singleton.mp hsign
      decide
    · cases hsign
  rcases List.mem_append.mp hb with hint | hb
  · exact lt_of_isDigit (h.int_digits b hint)
  · exact (List.mem_append.mp hb).elim (hfrac b) (hexponent b)

/-! ### Integers -/

theorem Numeral.valid_decimal (negative : Bool) (n : ℕ) :
    Numeral.Valid { negative := negative, int := decimal n } where
  int_ne := decimal_ne_nil n
  int_digits _ hb := isDigit_of_mem_decimal hb
  int_zero hhead := by
    obtain ⟨first, rest, hn, hzero⟩ := exists_decimal_eq_cons n
    simp only [hn] at hhead ⊢
    obtain rfl : first = 48 := Option.some.inj hhead
    rw [hzero rfl]
  frac_digits _ hb := by cases hb

theorem Numeral.text_decimal (negative : Bool) (n : ℕ) :
    Numeral.text { negative := negative, int := decimal n } =
      (if negative then [45] else []) ++ decimal n := by
  simp [text, fracText]

theorem Numeral.value_decimal (n : ℕ) : Numeral.value { int := decimal n } = n := by
  simp [value]

theorem Numeral.value_signed (k : ℤ) :
    Numeral.value { negative := k < 0, int := decimal k.natAbs } = k := by
  have habs : (k.natAbs : ℚ) = |(k : ℚ)| := by rw [Nat.cast_natAbs, Int.cast_abs]
  rcases lt_or_ge k 0 with hneg | hpos
  · have hcast : (k : ℚ) < 0 := by exact_mod_cast hneg
    simp [value, hneg, habs, abs_of_neg hcast]
  · have hcast : (0 : ℚ) ≤ k := by exact_mod_cast hpos
    simp [value, not_lt.mpr hpos, habs, abs_of_nonneg hcast]

/-! ### A numeral takes at least one byte -/

section Length

variable {bytes rest digits : List UInt8}

theorem length_lexSign (bytes : List UInt8) : (lexSign bytes).2.length ≤ bytes.length := by
  unfold lexSign
  split
  · simp
  · exact le_rfl

theorem length_lexInt (h : lexInt bytes = some (digits, rest)) : rest.length < bytes.length := by
  have hlength := length_takeDigits bytes
  simp only [lexInt] at h
  split_ifs at h with hbad
  cases h
  have hpos : 0 < (takeDigits bytes).1.length :=
    List.length_pos_iff.mpr fun hnil => hbad (.inl hnil)
  omega

theorem length_lexFrac (h : lexFrac bytes = some (digits, rest)) :
    rest.length ≤ bytes.length := by
  unfold lexFrac at h
  split at h
  · next bytes =>
    have hlength := length_takeDigits bytes
    dsimp only at h
    split_ifs at h
    cases h
    rw [List.length_cons]
    omega
  · cases h
    exact le_rfl

theorem length_lexExponentSign (bytes : List UInt8) :
    (lexExponentSign bytes).2.length ≤ bytes.length := by
  unfold lexExponentSign
  split
  · simp
  · simp
  · exact le_rfl

theorem length_lexExponent {exponent : Option ℤ} (h : lexExponent bytes = some (exponent, rest)) :
    rest.length ≤ bytes.length := by
  cases bytes with
  | nil =>
    cases h
    exact le_rfl
  | cons b bytes =>
    have hsign := length_lexExponentSign bytes
    have hlength := length_takeDigits (lexExponentSign bytes).2
    rw [List.length_cons]
    simp only [lexExponent] at h
    by_cases hletter : b = 101 ∨ b = 69
    · rw [if_pos hletter, Option.ite_none_left_eq_some] at h
      cases h.2
      omega
    · rw [if_neg hletter] at h
      cases h
      exact le_rfl

theorem length_lexNumber {n : Numeral} (h : lexNumber bytes = some (n, rest)) :
    rest.length < bytes.length := by
  have hsign := length_lexSign bytes
  simp only [lexNumber, Option.bind_eq_bind, Option.bind_eq_some_iff] at h
  obtain ⟨⟨int, afterInt⟩, hint, ⟨frac, afterFrac⟩, hfrac, ⟨exponent, rest⟩, hexponent, heq⟩ := h
  cases heq
  have hint' := length_lexInt hint
  have hfrac' := length_lexFrac hfrac
  have hexponent' := length_lexExponent hexponent
  dsimp only at hint' hfrac' hexponent' ⊢
  omega

end Length

end Json
