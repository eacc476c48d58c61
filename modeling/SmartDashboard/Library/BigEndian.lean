import SmartDashboard.Library.LittleEndian

/-!
# Big-endian integers

Natural numbers as fixed-width byte strings, most significant byte first.
-/

namespace BigEndian

open LittleEndian

/-- The lowest `width` bytes of `n`, most significant byte first. -/
def beBytes (width n : ℕ) : List UInt8 :=
  (leBytes width n).reverse

/-- The number that `bytes` spell, most significant byte first. -/
def beValue (bytes : List UInt8) : ℕ :=
  leValue bytes.reverse

@[simp] theorem length_beBytes (width n : ℕ) : (beBytes width n).length = width := by
  rw [beBytes, List.length_reverse, length_leBytes]

/-- Reading back what was written keeps the bytes that fit. -/
theorem beValue_beBytes (width n : ℕ) : beValue (beBytes width n) = n % 256 ^ width := by
  rw [beValue, beBytes, List.reverse_reverse, leValue_leBytes]

theorem beValue_lt (bytes : List UInt8) : beValue bytes < 256 ^ bytes.length := by
  rw [← List.length_reverse]
  exact leValue_lt _

theorem beValue_beBytes_of_lt {width n : ℕ} (h : n < 256 ^ width) :
    beValue (beBytes width n) = n := by
  rw [beValue_beBytes, Nat.mod_eq_of_lt h]

end BigEndian
