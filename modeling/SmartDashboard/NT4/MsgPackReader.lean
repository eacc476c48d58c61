import Mathlib.Tactic.FinCases
import Mathlib.Tactic.Positivity
import Mathlib.Tactic.Zify
import SmartDashboard.Library.ByteReader
import SmartDashboard.Library.MessagePack
import SmartDashboard.Direct.Types

/-!
# The NT4 client's MessagePack cursor

The decoder that walks a binary frame: it knows the formats that NT4 values use, and skips over an
element of which it needs no value. What it says of an element that it does not know is a failure
that has taken the element's first byte.

## Main definitions

- `readInt`, `readDouble`, `readBool`, `readString`, `readStringArray`: typed reads
- `skipElement`: one element, whatever it is
- `Skippable`: the elements whose formats `skipElement` knows

## Main results

- `reads_skipElement`: a skippable element is taken whole
- `skipElement_eq_of_length_le`: the depth that bounds the recursion is never what ends it
-/

namespace SmartDashboard.NT4

open ByteReader MessagePack BigEndian Direct

/-- `static_cast<int64_t>(static_cast<intN_t>(n))` for a number of `width` bytes. -/
def signExtend (width n : ℕ) : Int64 :=
  Int64.ofInt ((n : ℤ).bmod (256 ^ width))

/-- What the language converts to a double. -/
structure DoubleConversions where
  ofInteger : ℤ → DoubleBits
  ofFloat : UInt32 → DoubleBits

def readInt : ByteReader Int64 := do
  let b ← byte
  if b ≤ 0x7F then pure (Int64.ofNat b.toNat)
  else if 0xE0 ≤ b then pure (signExtend 1 b.toNat)
  else if b = 0xCC then do
    let n ← number 1
    pure (Int64.ofNat n)
  else if b = 0xCD then do
    let n ← number 2
    pure (Int64.ofNat n)
  else if b = 0xCE then do
    let n ← number 4
    pure (Int64.ofNat n)
  else if b = 0xCF then do
    let n ← number 8
    pure (Int64.ofNat n)
  else if b = 0xD0 then do
    let n ← number 1
    pure (signExtend 1 n)
  else if b = 0xD1 then do
    let n ← number 2
    pure (signExtend 2 n)
  else if b = 0xD2 then do
    let n ← number 4
    pure (signExtend 4 n)
  else if b = 0xD3 then do
    let n ← number 8
    pure (signExtend 8 n)
  else fail

def readUInt : ByteReader UInt64 := do
  let n ← readInt
  pure n.toUInt64

/-- Integers are promoted. -/
def readDouble (conversions : DoubleConversions) : ByteReader DoubleBits := do
  let b ← peek
  if b = 0xCB then do
    let _ ← byte
    let bits ← number 8
    pure (UInt64.ofNat bits)
  else if b = 0xCA then do
    let _ ← byte
    let bits ← number 4
    pure (conversions.ofFloat (UInt32.ofNat bits))
  else do
    let n ← readInt
    pure (conversions.ofInteger n.toInt)

def readBool : ByteReader Bool := do
  let b ← byte
  if b = 0xC3 then pure true
  else if b = 0xC2 then pure false
  else fail

def readString : ByteReader ByteString := do
  let b ← byte
  let len ←
    if b &&& 0xE0 = 0xA0 then pure (b &&& 0x1F).toNat
    else if b = 0xD9 then number 1
    else if b = 0xDA then number 2
    else if b = 0xDB then number 4
    else fail
  take len

def readArrayHeader : ByteReader ℕ := do
  let b ← byte
  if b &&& 0xF0 = 0x90 then pure (b &&& 0x0F).toNat
  else if b = 0xDC then number 2
  else if b = 0xDD then number 4
  else fail

def readStringArray : ByteReader (List ByteString) := do
  let count ← readArrayHeader
  times readString count

/-- `pos += n`, if that many bytes remain. -/
def skipBytes (n : ℕ) : ByteReader Unit := do
  let _ ← take n
  pure ()

/-- The loop that skips `n` elements. -/
def skipTimes (skip : ByteReader Unit) (n : ℕ) : ByteReader Unit := do
  let _ ← times skip n
  pure ()

/-- Depth bounds the recursion. Every call takes a byte, so the bytes that remain are enough. -/
def skipWithin : ℕ → ByteReader Unit
  | 0 => fail
  | depth + 1 => do
    let b ← byte
    if b ≤ 0x7F ∨ 0xE0 ≤ b then pure ()
    else if b = 0xC0 ∨ b = 0xC2 ∨ b = 0xC3 then pure ()
    else if b &&& 0xE0 = 0xA0 then skipBytes (b &&& 0x1F).toNat
    else if b &&& 0xF0 = 0x90 then skipTimes (skipWithin depth) (b &&& 0x0F).toNat
    else if b &&& 0xF0 = 0x80 then skipTimes (skipWithin depth) ((b &&& 0x0F).toNat * 2)
    else if b = 0xCC ∨ b = 0xD0 then skipBytes 1
    else if b = 0xCD ∨ b = 0xD1 then skipBytes 2
    else if b = 0xCE ∨ b = 0xD2 ∨ b = 0xCA then skipBytes 4
    else if b = 0xCF ∨ b = 0xD3 ∨ b = 0xCB then skipBytes 8
    else if b = 0xD9 then do
      let n ← number 1
      skipBytes n
    else if b = 0xDA then do
      let n ← number 2
      skipBytes n
    else if b = 0xDB then do
      let n ← number 4
      skipBytes n
    else if b = 0xDC then do
      let n ← number 2
      skipTimes (skipWithin depth) n
    else if b = 0xDD then do
      let n ← number 4
      skipTimes (skipWithin depth) n
    else fail

def skipElement : ByteReader Unit := fun bytes => skipWithin bytes.length bytes

/-! ## Integers -/

theorem signExtend_of_range {width : ℕ} {n : ℤ} (hlow : -(256 ^ width / 2) ≤ n)
    (hhigh : n < 256 ^ width / 2) :
    signExtend width (n % 256 ^ width).toNat = Int64.ofInt n := by
  have hpos : (0 : ℤ) < 256 ^ width := by positivity
  rw [signExtend, Int.toNat_of_nonneg (Int.emod_nonneg n hpos.ne')]
  have hmod : (n % 256 ^ width).bmod (256 ^ width) = n.bmod (256 ^ width) := by
    have h := @Int.emod_bmod n (256 ^ width)
    push_cast at h
    exact h
  rw [hmod, Int.bmod_eq_of_le (by push_cast; omega) (by push_cast; omega)]

theorem int64_ofNat_toNat {n : ℤ} (h : 0 ≤ n) : Int64.ofNat n.toNat = Int64.ofInt n := by
  rw [← Int64.ofInt_eq_ofNat, Int.toNat_of_nonneg h]

/-- A number that is spelt in the first byte is what the first two branches read. -/
theorem reads_readInt_fixint {n : ℤ} (h : -32 ≤ n ∧ n < 128) :
    Reads readInt [UInt8.ofNat (n % 256).toNat] (Int64.ofInt n) := by
  refine reads_byte_bind ?_
  have hbyte : (UInt8.ofNat (n % 256).toNat).toNat = (n % 256).toNat := by
    rw [UInt8.toNat_ofNat']
    omega
  by_cases hn : 0 ≤ n
  · have hsmall : UInt8.ofNat (n % 256).toNat ≤ 0x7F := by
      rw [UInt8.le_iff_toNat_le, hbyte]
      simp
      omega
    rw [if_pos hsmall, hbyte, Int.emod_eq_of_lt hn (by omega), int64_ofNat_toNat hn]
    exact Reads.pure _
  · have hlarge : 0xE0 ≤ UInt8.ofNat (n % 256).toNat := by
      rw [UInt8.le_iff_toNat_le, hbyte]
      simp
      omega
    have hsmall : ¬ UInt8.ofNat (n % 256).toNat ≤ 0x7F := by
      rw [UInt8.le_iff_toNat_le, hbyte]
      simp
      omega
    have hvalue : signExtend 1 (n % 256 ^ 1).toNat = Int64.ofInt n :=
      signExtend_of_range (by omega) (by omega)
    rw [pow_one] at hvalue
    rw [if_neg hsmall, if_pos hlarge, hbyte, hvalue]
    exact Reads.pure _

theorem reads_readInt {format : IntFormat} {n : ℤ} (h : format.Holds n) :
    Reads readInt (format.encode n) (Int64.ofInt n) := by
  cases format with
  | fixint => exact reads_readInt_fixint h
  | uint i =>
    have hfit : n.toNat < 256 ^ 2 ^ i.val := by
      have := h.2
      zify
      rwa [Int.toNat_of_nonneg h.1]
    have hread := (reads_number hfit).map Int64.ofNat
    rw [int64_ofNat_toNat h.1] at hread
    refine reads_byte_bind ?_
    fin_cases i <;> exact hread
  | int i =>
    have hpos : (0 : ℤ) < 256 ^ 2 ^ i.val := by positivity
    have hfit : (n % 256 ^ 2 ^ i.val).toNat < 256 ^ 2 ^ i.val := by
      zify
      rw [Int.toNat_of_nonneg (Int.emod_nonneg n hpos.ne')]
      exact Int.emod_lt_of_pos n hpos
    have hread := (reads_number hfit).map (signExtend (2 ^ i.val))
    rw [signExtend_of_range h.1 h.2] at hread
    refine reads_byte_bind ?_
    fin_cases i <;> exact hread

/-! ## Heads -/

theorem fixstr_head {n : ℕ} (h : n < 32) :
    UInt8.ofNat (0xA0 + n) &&& 0xE0 = 0xA0 ∧ (UInt8.ofNat (0xA0 + n) &&& 0x1F).toNat = n := by
  decide +revert

theorem fixarray_head {n : ℕ} (h : n < 16) :
    UInt8.ofNat (0x90 + n) &&& 0xF0 = 0x90 ∧ (UInt8.ofNat (0x90 + n) &&& 0x0F).toNat = n := by
  decide +revert

theorem reads_readString {e : Element} {s : ByteString} (hfits : e.Fits) (h : e.text? = some s) :
    Reads readString e.encode s := by
  cases e with
  | blob format bytes =>
    cases format with
    | fixstr =>
      obtain rfl := Option.some.inj h
      obtain ⟨hmask, hlen⟩ := fixstr_head hfits
      have htake : Reads (take bytes.length) bytes bytes := reads_take rfl
      refine reads_byte_bind ?_
      simp only [if_pos hmask, hlen]
      exact htake
    | str i =>
      obtain rfl := Option.some.inj h
      have htake : Reads (take bytes.length) bytes bytes := reads_take rfl
      have hread := (reads_number hfits).bind htake
      refine reads_byte_bind ?_
      fin_cases i <;> exact hread
    | bin i => cases h
  | nil | bool | int | float32 | float64 | ext | array | map => cases h

theorem reads_readArrayHeader {format : CountFormat} {count : ℕ} (h : format.Holds count) :
    Reads readArrayHeader (format.head 0x90 0xDC count) count := by
  cases format with
  | fix =>
    obtain ⟨hmask, hcount⟩ := fixarray_head h
    refine reads_byte_bind ?_
    rw [if_pos hmask, hcount]
    exact Reads.pure _
  | wide i =>
    have hread := reads_number h
    refine reads_byte_bind ?_
    fin_cases i <;> exact hread

theorem reads_readBool (b : Bool) : Reads readBool (Element.bool b).encode b := by
  cases b
  · exact fun _ => rfl
  · exact fun _ => rfl

/-- An integer spelt in one byte is in one of the two fixint ranges. -/
theorem fixint_byte {n : ℤ} (h : -32 ≤ n ∧ n < 128) :
    UInt8.ofNat (n % 256).toNat ≤ 0x7F ∨ 0xE0 ≤ UInt8.ofNat (n % 256).toNat := by
  have hbyte : (UInt8.ofNat (n % 256).toNat).toNat = (n % 256).toNat := by
    rw [UInt8.toNat_ofNat']
    omega
  rw [UInt8.le_iff_toNat_le, UInt8.le_iff_toNat_le, hbyte]
  simp
  omega

/-- The fixint ranges hold no other format. -/
theorem fixint_ne {b : UInt8} (h : b ≤ 0x7F ∨ 0xE0 ≤ b) :
    b &&& 0xE0 ≠ 0xA0 ∧ b &&& 0xF0 ≠ 0x90 ∧ ∀ code : UInt8, 0x80 ≤ code → code < 0xE0 →
      b ≠ code := by
  have hmask : ∀ n < 256, UInt8.ofNat n ≤ 0x7F ∨ 0xE0 ≤ UInt8.ofNat n →
      UInt8.ofNat n &&& 0xE0 ≠ 0xA0 ∧ UInt8.ofNat n &&& 0xF0 ≠ 0x90 := by decide +kernel
  have hb := hmask b.toNat b.toNat_lt
  rw [UInt8.ofNat_toNat] at hb
  refine ⟨(hb h).1, (hb h).2, ?_⟩
  rintro code hlow hhigh rfl
  rw [UInt8.le_iff_toNat_le, UInt8.le_iff_toNat_le] at h
  rw [UInt8.le_iff_toNat_le] at hlow
  rw [UInt8.lt_iff_toNat_lt] at hhigh
  simp at h hlow hhigh
  omega

theorem failsOn_readBool {e : Element} (hfits : e.Fits) (hone : e.encode.length = 1)
    (h : ∀ b, e ≠ .bool b) : FailsOn readBool e.encode := by
  rcases Element.eq_of_length_encode_eq_one hfits hone with
    rfl | ⟨b, rfl⟩ | ⟨n, rfl⟩ | rfl | rfl | rfl
  · exact fun _ => rfl
  · exact absurd rfl (h b)
  · obtain ⟨-, -, hne⟩ := fixint_ne (fixint_byte hfits)
    refine failsOn_byte_bind ?_
    rw [if_neg (hne 0xC3 (by decide) (by decide)), if_neg (hne 0xC2 (by decide) (by decide))]
    exact failsOn_fail
  · exact fun _ => rfl
  · exact fun _ => rfl
  · exact fun _ => rfl

/-- Of the elements of one byte that are no integers, each begins with a byte of its own. -/
theorem failsOn_of_no_integer {α : Type} {r : ByteReader α} {e : Element} (hfits : e.Fits)
    (hone : e.encode.length = 1) (h : e.integer? = none)
    (hheads : ∀ head ∈ [(0xC0 : UInt8), 0xC2, 0xC3, 0xA0, 0x90, 0x80], FailsOn r [head]) :
    FailsOn r e.encode := by
  rcases Element.eq_of_length_encode_eq_one hfits hone with
    rfl | ⟨b, rfl⟩ | ⟨n, rfl⟩ | rfl | rfl | rfl
  · exact hheads 0xC0 (by simp)
  · cases b with
    | false => exact hheads 0xC2 (by simp)
    | true => exact hheads 0xC3 (by simp)
  · cases h
  · exact hheads 0xA0 (by simp)
  · exact hheads 0x90 (by simp)
  · exact hheads 0x80 (by simp)

theorem failsOn_readInt {e : Element} (hfits : e.Fits) (hone : e.encode.length = 1)
    (h : e.integer? = none) : FailsOn readInt e.encode := by
  refine failsOn_of_no_integer hfits hone h ?_
  simp only [List.forall_mem_cons]
  exact ⟨fun _ => rfl, fun _ => rfl, fun _ => rfl, fun _ => rfl, fun _ => rfl, fun _ => rfl,
    List.forall_mem_nil _⟩

theorem failsOn_readString {e : Element} (hfits : e.Fits) (hone : e.encode.length = 1)
    (h : e.text? = none) : FailsOn readString e.encode := by
  rcases Element.eq_of_length_encode_eq_one hfits hone with
    rfl | ⟨b, rfl⟩ | ⟨n, rfl⟩ | rfl | rfl | rfl
  · exact fun _ => rfl
  · cases b <;> exact fun _ => rfl
  · obtain ⟨hmask, -, hne⟩ := fixint_ne (fixint_byte hfits)
    refine failsOn_byte_bind ?_
    simp only [if_neg hmask, if_neg (hne 0xD9 (by decide) (by decide)),
      if_neg (hne 0xDA (by decide) (by decide)), if_neg (hne 0xDB (by decide) (by decide))]
    exact failsOn_fail.bind _
  · cases h
  · exact fun _ => rfl
  · exact fun _ => rfl

theorem failsOn_readArrayHeader {e : Element} (hfits : e.Fits) (hone : e.encode.length = 1)
    (h : ∀ format items, e ≠ .array format items) : FailsOn readArrayHeader e.encode := by
  rcases Element.eq_of_length_encode_eq_one hfits hone with
    rfl | ⟨b, rfl⟩ | ⟨n, rfl⟩ | rfl | rfl | rfl
  · exact fun _ => rfl
  · cases b <;> exact fun _ => rfl
  · obtain ⟨-, hmask, hne⟩ := fixint_ne (fixint_byte hfits)
    refine failsOn_byte_bind ?_
    rw [if_neg hmask, if_neg (hne 0xDC (by decide) (by decide)),
      if_neg (hne 0xDD (by decide) (by decide))]
    exact failsOn_fail
  · exact fun _ => rfl
  · exact absurd rfl (h _ _)
  · exact fun _ => rfl

theorem reads_texts {items : List Element} (hfits : ∀ item ∈ items, item.Fits)
    (htexts : ∀ item ∈ items, item.text?.isSome) :
    ∀ item ∈ items, Reads readString item.encode (item.text?.getD []) := by
  intro item hitem
  obtain ⟨s, hs⟩ := Option.isSome_iff_exists.mp (htexts item hitem)
  rw [hs, Option.getD_some]
  exact reads_readString (hfits item hitem) hs

theorem reads_readStringArray {e : Element} {ss : List ByteString} (hwf : e.WellFormed)
    (h : e.texts? = some ss) : Reads readStringArray e.encode ss := by
  cases e with
  | array format items =>
    simp only [Element.texts?, List.all_eq_true, Option.ite_none_right_eq_some,
      Option.some.injEq] at h
    obtain ⟨htexts, rfl⟩ := h
    obtain ⟨hfits, hitems⟩ := Element.all_array.mp hwf
    rw [Element.encode_array]
    exact (reads_readArrayHeader hfits).bind
      (reads_times (reads_texts (fun item hitem => (hitems item hitem).root) htexts))
  | nil | bool | int | float32 | float64 | blob | ext | map => cases h

/-- An array of texts up to a last value of one byte is taken whole by the read that fails there. -/
theorem failsOn_readStringArray {format : CountFormat} {items : List Element} {last : Element}
    (hwf : (Element.array format (items ++ [last])).WellFormed)
    (htexts : ∀ item ∈ items, item.text?.isSome) (hone : last.encode.length = 1)
    (hlast : last.text? = none) :
    FailsOn readStringArray (Element.array format (items ++ [last])).encode := by
  obtain ⟨hfits, hitems⟩ := Element.all_array.mp hwf
  have hitem : ∀ item ∈ items, item.Fits := fun item hmem =>
    (hitems item (List.mem_append_left _ hmem)).root
  have hfail : FailsOn readString last.encode :=
    failsOn_readString (hitems last (by simp)).root hone hlast
  rw [Element.encode_array, List.flatMap_append, List.flatMap_singleton]
  have hloop := times_failsOn (reads_texts hitem htexts) hfail 0
  have hhead := reads_readArrayHeader hfits
  rw [List.length_append, List.length_singleton] at hhead ⊢
  exact hhead.bind_failsOn hloop

theorem reads_readDouble_of_reads_readInt {conversions : DoubleConversions} {bytes : List UInt8}
    {n : Int64} {head : UInt8} {tail : List UInt8} (hbytes : bytes = head :: tail)
    (hdouble : head ≠ 0xCB) (hfloat : head ≠ 0xCA) (h : Reads readInt bytes n) :
    Reads (readDouble conversions) bytes (conversions.ofInteger n.toInt) := by
  subst hbytes
  intro rest
  have hread := h.map (fun n => conversions.ofInteger n.toInt) rest
  rw [readDouble, bind_apply, List.cons_append]
  simp only [peek, if_neg hdouble, if_neg hfloat]
  exact hread

theorem reads_readDouble_int (conversions : DoubleConversions) {format : IntFormat} {n : ℤ}
    (h : format.Holds n) :
    Reads (readDouble conversions) (format.encode n)
      (conversions.ofInteger (Int64.ofInt n).toInt) := by
  have hread := reads_readInt h
  cases format with
  | fixint =>
    obtain ⟨-, -, hne⟩ := fixint_ne (fixint_byte h)
    exact reads_readDouble_of_reads_readInt rfl (hne _ (by decide) (by decide))
      (hne _ (by decide) (by decide)) hread
  | uint i =>
    refine reads_readDouble_of_reads_readInt rfl ?_ ?_ hread <;> fin_cases i <;> decide
  | int i =>
    refine reads_readDouble_of_reads_readInt rfl ?_ ?_ hread <;> fin_cases i <;> decide

theorem reads_readDouble_float64 (conversions : DoubleConversions) (bits : UInt64) :
    Reads (readDouble conversions) (Element.float64 bits).encode bits := by
  have hfit : bits.toNat < 256 ^ 8 := bits.toNat_lt
  have hread := (reads_number hfit).map UInt64.ofNat
  rw [UInt64.ofNat_toNat] at hread
  exact hread

theorem reads_readDouble_float32 (conversions : DoubleConversions) (bits : UInt32) :
    Reads (readDouble conversions) (Element.float32 bits).encode (conversions.ofFloat bits) := by
  have hfit : bits.toNat < 256 ^ 4 := bits.toNat_lt
  have hread := (reads_number hfit).map fun n =>
    conversions.ofFloat (UInt32.ofNat n)
  rw [UInt32.ofNat_toNat] at hread
  exact hread

theorem failsOn_readDouble (conversions : DoubleConversions) {e : Element} (hfits : e.Fits)
    (hone : e.encode.length = 1) (h : e.integer? = none) :
    FailsOn (readDouble conversions) e.encode := by
  refine failsOn_of_no_integer hfits hone h ?_
  simp only [List.forall_mem_cons]
  exact ⟨fun _ => rfl, fun _ => rfl, fun _ => rfl, fun _ => rfl, fun _ => rfl, fun _ => rfl,
    List.forall_mem_nil _⟩

/-! ## Skipping -/

/-- The formats that `SkipElement` knows: no binary string, no extension, no map with a count of
its own bytes. -/
def Known : Element → Prop
  | .blob (.bin _) _ => False
  | .ext _ _ _ => False
  | .map (.wide _) _ => False
  | _ => True

/-- Every value in the element has a format that `SkipElement` knows. -/
def Skippable (e : Element) : Prop :=
  e.All Known

theorem skip_fixstr_head {n : ℕ} (h : n < 32) :
    ¬ (UInt8.ofNat (0xA0 + n) ≤ 0x7F ∨ 0xE0 ≤ UInt8.ofNat (0xA0 + n)) ∧
      ¬ (UInt8.ofNat (0xA0 + n) = 0xC0 ∨ UInt8.ofNat (0xA0 + n) = 0xC2 ∨
        UInt8.ofNat (0xA0 + n) = 0xC3) := by
  decide +revert

theorem skip_fixarray_head {n : ℕ} (h : n < 16) :
    ¬ (UInt8.ofNat (0x90 + n) ≤ 0x7F ∨ 0xE0 ≤ UInt8.ofNat (0x90 + n)) ∧
      ¬ (UInt8.ofNat (0x90 + n) = 0xC0 ∨ UInt8.ofNat (0x90 + n) = 0xC2 ∨
        UInt8.ofNat (0x90 + n) = 0xC3) ∧ UInt8.ofNat (0x90 + n) &&& 0xE0 ≠ 0xA0 := by
  decide +revert

theorem skip_fixmap_head {n : ℕ} (h : n < 16) :
    ¬ (UInt8.ofNat (0x80 + n) ≤ 0x7F ∨ 0xE0 ≤ UInt8.ofNat (0x80 + n)) ∧
      ¬ (UInt8.ofNat (0x80 + n) = 0xC0 ∨ UInt8.ofNat (0x80 + n) = 0xC2 ∨
        UInt8.ofNat (0x80 + n) = 0xC3) ∧ UInt8.ofNat (0x80 + n) &&& 0xE0 ≠ 0xA0 ∧
      UInt8.ofNat (0x80 + n) &&& 0xF0 ≠ 0x90 ∧ UInt8.ofNat (0x80 + n) &&& 0xF0 = 0x80 ∧
      (UInt8.ofNat (0x80 + n) &&& 0x0F).toNat = n := by
  decide +revert

theorem reads_skipBytes {bytes : List UInt8} {n : ℕ} (h : bytes.length = n) :
    Reads (skipBytes n) bytes () :=
  (reads_take h).map fun _ => ()

theorem reads_skipTimes {skip : ByteReader Unit} {items : List Element} {n : ℕ}
    (hn : items.length = n) (h : ∀ item ∈ items, Reads skip item.encode ()) :
    Reads (skipTimes skip n) (items.flatMap Element.encode) () := by
  subst hn
  have hloop : Reads (times skip items.length) (items.flatMap Element.encode)
      (items.map fun _ => ()) := reads_times h
  exact hloop.map fun _ => ()

/-- The elements of a container are skipped one level down, where they have the depth they need. -/
theorem reads_skipTimes_of_depth {items : List Element} {depth n : ℕ} (hn : items.length = n)
    (hdepth : (items.flatMap Element.encode).length ≤ depth)
    (h : ∀ item ∈ items, ∀ d, item.encode.length ≤ d + 1 →
      Reads (skipWithin (d + 1)) item.encode ()) :
    Reads (skipTimes (skipWithin depth) n) (items.flatMap Element.encode) () := by
  refine reads_skipTimes hn fun item hitem => ?_
  have hpos := item.length_encode_pos
  have hlength := Element.length_encode_le_of_mem hitem
  obtain ⟨d, rfl⟩ : ∃ d, depth = d + 1 := ⟨depth - 1, by omega⟩
  exact h item hitem d (by omega)

/-- A skippable element is taken whole. -/
theorem reads_skipWithin {e : Element} (hwf : e.WellFormed) (hskip : Skippable e) {depth : ℕ}
    (hdepth : e.encode.length ≤ depth + 1) : Reads (skipWithin (depth + 1)) e.encode () := by
  induction e using Element.induction generalizing depth with
  | nil => exact fun _ => rfl
  | bool b => cases b <;> exact fun _ => rfl
  | int format n =>
    cases format with
    | fixint =>
      refine reads_byte_bind ?_
      rw [if_pos (fixint_byte hwf)]
      exact Reads.pure ()
    | uint i =>
      have hread := reads_skipBytes (length_beBytes (2 ^ i.val) n.toNat)
      refine reads_byte_bind ?_
      fin_cases i <;> exact hread
    | int i =>
      have hread := reads_skipBytes
        (length_beBytes (2 ^ i.val) (n % 256 ^ 2 ^ i.val).toNat)
      refine reads_byte_bind ?_
      fin_cases i <;> exact hread
  | float32 bits => exact reads_byte_bind (reads_skipBytes (length_beBytes 4 bits.toNat))
  | float64 bits => exact reads_byte_bind (reads_skipBytes (length_beBytes 8 bits.toNat))
  | blob format bytes =>
    cases format with
    | fixstr =>
      obtain ⟨hsmall, hatom⟩ := skip_fixstr_head hwf
      obtain ⟨hmask, hlen⟩ := fixstr_head hwf
      refine reads_byte_bind ?_
      rw [if_neg hsmall, if_neg hatom, if_pos hmask, hlen]
      exact reads_skipBytes rfl
    | str i =>
      have hskip : Reads (skipBytes bytes.length) bytes () := reads_skipBytes rfl
      have hread := (reads_number hwf).bind hskip
      refine reads_byte_bind ?_
      fin_cases i <;> exact hread
    | bin i => exact hskip.elim
  | ext format type bytes => exact hskip.elim
  | array format items ih =>
    obtain ⟨hfits, hitems⟩ := Element.all_array.mp hwf
    obtain ⟨-, hskips⟩ := Element.all_array.mp hskip
    rw [Element.encode_array] at hdepth ⊢
    have hread (hlength : (items.flatMap Element.encode).length ≤ depth) :=
      reads_skipTimes_of_depth rfl hlength fun item hitem d hd =>
        ih item hitem (hitems item hitem) (hskips item hitem) hd
    cases format with
    | fix =>
      obtain ⟨hsmall, hatom, htext⟩ := skip_fixarray_head hfits
      obtain ⟨hmask, hcount⟩ := fixarray_head hfits
      have hloop := hread (by simpa [CountFormat.head] using hdepth)
      refine reads_byte_bind ?_
      rw [if_neg hsmall, if_neg hatom, if_neg htext, if_pos hmask, hcount]
      exact hloop
    | wide i =>
      have hloop := (reads_number hfits).bind (hread (by
        simp only [CountFormat.head, List.length_append, List.length_cons] at hdepth
        omega))
      refine reads_byte_bind ?_
      fin_cases i <;> exact hloop
  | map format entries ih =>
    obtain ⟨⟨heven, hfits⟩, hitems⟩ := Element.all_map.mp hwf
    obtain ⟨hknown, hskips⟩ := Element.all_map.mp hskip
    rw [Element.encode_map] at hdepth ⊢
    cases format with
    | fix =>
      obtain ⟨hsmall, hatom, htext, harray, hmask, hcount⟩ := skip_fixmap_head hfits
      have hlength : (entries.flatMap Element.encode).length ≤ depth := by
        simpa [CountFormat.head] using hdepth
      have hloop := reads_skipTimes_of_depth (Nat.div_mul_cancel heven.two_dvd).symm hlength
        fun item hitem d hd => ih item hitem (hitems item hitem) (hskips item hitem) hd
      refine reads_byte_bind ?_
      rw [if_neg hsmall, if_neg hatom, if_neg htext, if_neg harray, if_pos hmask, hcount]
      exact hloop
    | wide i => exact hknown.elim

theorem reads_skipElement {e : Element} (hwf : e.WellFormed) (hskip : Skippable e) :
    Reads skipElement e.encode () := by
  intro rest
  have hpos := e.length_encode_pos
  obtain ⟨depth, hdepth⟩ : ∃ d, (e.encode ++ rest).length = d + 1 :=
    ⟨(e.encode ++ rest).length - 1, by rw [List.length_append]; omega⟩
  rw [skipElement, hdepth]
  refine reads_skipWithin hwf hskip ?_ rest
  rw [List.length_append] at hdepth
  omega

/-- Of an element that it does not know `SkipElement` takes the first byte. -/
theorem skipElement_of_not_known {e : Element} (h : ¬ Known e) (rest : List UInt8) :
    skipElement (e.encode ++ rest) = (none, e.encode.tail ++ rest) := by
  cases e with
  | blob format bytes =>
    cases format with
    | fixstr => exact absurd trivial h
    | str i => exact absurd trivial h
    | bin i => fin_cases i <;> rfl
  | ext format type bytes =>
    cases format with
    | fixext i => fin_cases i <;> rfl
    | ext i => fin_cases i <;> rfl
  | map format entries =>
    cases format with
    | fix => exact absurd trivial h
    | wide i =>
      rw [Element.encode_map]
      fin_cases i <;> rfl
  | nil | bool | int | float32 | float64 | array => exact absurd trivial h

/-! ## Depth -/

theorem shrinks_skipBytes (n : ℕ) : Shrinks (skipBytes n) :=
  (shrinks_take n).bind fun _ => shrinks_pure ()

theorem shrinks_skipTimes {skip : ByteReader Unit} (h : Shrinks skip) (n : ℕ) :
    Shrinks (skipTimes skip n) :=
  (h.times n).bind fun _ => shrinks_pure ()

theorem shrinks_skipWithin (depth : ℕ) : Shrinks (skipWithin depth) := by
  induction depth with
  | zero => exact fun _ => le_rfl
  | succ depth ih =>
    have hloop := shrinks_skipTimes ih
    have hcounted (width : ℕ) := (shrinks_number width).bind hloop
    have hsized (width : ℕ) := (shrinks_number width).bind shrinks_skipBytes
    rw [skipWithin]
    refine shrinks_byte.bind fun b => ?_
    repeat' apply Shrinks.ite
    all_goals first
      | exact shrinks_pure ()
      | exact shrinks_skipBytes _
      | exact hloop _
      | exact hcounted _
      | exact hsized _

/-- Once every byte that remains has its level, one more level changes nothing. -/
theorem skipWithin_agree (depth more : ℕ) :
    AgreeUpTo depth (skipWithin depth) (skipWithin (depth + more)) := by
  induction depth with
  | zero =>
    intro bytes hbytes
    obtain rfl := List.eq_nil_of_length_eq_zero (Nat.le_zero.mp hbytes)
    cases more <;> rfl
  | succ depth ih =>
    have hloop (n : ℕ) : AgreeUpTo depth (skipTimes (skipWithin depth) n)
        (skipTimes (skipWithin (depth + more)) n) :=
      AgreeUpTo.bind ((shrinks_skipWithin depth).times n) (ih.times (shrinks_skipWithin depth) n)
        fun _ => AgreeUpTo.refl depth _
    have hcounted (width : ℕ) :=
      AgreeUpTo.bind (shrinks_number width) (AgreeUpTo.refl depth (number width)) hloop
    intro bytes hbytes
    cases bytes with
    | nil =>
      rw [Nat.add_right_comm]
      rfl
    | cons b bytes =>
      have hlength : bytes.length ≤ depth := Nat.le_of_succ_le_succ hbytes
      rw [Nat.add_right_comm, skipWithin, skipWithin, bind_apply, bind_apply]
      simp only [byte]
      refine (?_ : AgreeUpTo depth _ _) bytes hlength
      repeat' apply AgreeUpTo.ite
      all_goals first
        | exact AgreeUpTo.refl depth _
        | exact hloop _
        | exact hcounted _

/-- The depth that bounds the recursion is never what ends it. -/
theorem skipWithin_eq_skipElement {depth : ℕ} {bytes : List UInt8} (h : bytes.length ≤ depth) :
    skipWithin depth bytes = skipElement bytes := by
  obtain ⟨more, rfl⟩ := Nat.exists_eq_add_of_le h
  exact (skipWithin_agree bytes.length more bytes le_rfl).symm

theorem shrinks_skipElement : Shrinks skipElement := fun bytes =>
  shrinks_skipWithin bytes.length bytes

/-! ## No read gives bytes back -/

theorem shrinks_readInt : Shrinks readInt := by
  refine shrinks_byte.bind fun b => ?_
  repeat' apply Shrinks.ite
  all_goals first
    | exact shrinks_pure _
    | exact (shrinks_number _).bind fun _ => shrinks_pure _
    | exact shrinks_fail

theorem shrinks_readDouble (conversions : DoubleConversions) :
    Shrinks (readDouble conversions) := by
  refine shrinks_peek.bind fun b => Shrinks.ite ?_ (Shrinks.ite ?_ ?_)
  · exact shrinks_byte.bind fun _ => (shrinks_number 8).bind fun _ => shrinks_pure _
  · exact shrinks_byte.bind fun _ => (shrinks_number 4).bind fun _ => shrinks_pure _
  · exact shrinks_readInt.bind fun _ => shrinks_pure _

theorem shrinks_readBool : Shrinks readBool :=
  shrinks_byte.bind fun _ =>
    Shrinks.ite (shrinks_pure _) (Shrinks.ite (shrinks_pure _) shrinks_fail)

theorem shrinks_readString : Shrinks readString := by
  have hsized (width : ℕ) := (shrinks_number width).bind shrinks_take
  refine shrinks_byte.bind fun b => ?_
  exact Shrinks.ite (shrinks_take _) (Shrinks.ite (hsized 1) (Shrinks.ite (hsized 2)
    (Shrinks.ite (hsized 4) (shrinks_fail.bind shrinks_take))))

/-- The head of an array takes at least its first byte. -/
theorem shrinks_readArrayHeader_tail (b : UInt8) (bytes : List UInt8) :
    (readArrayHeader (b :: bytes)).2.length ≤ bytes.length := by
  refine (?_ : Shrinks _) bytes
  exact Shrinks.ite (shrinks_pure _) (Shrinks.ite (shrinks_number 2)
    (Shrinks.ite (shrinks_number 4) shrinks_fail))

theorem shrinks_readArrayHeader : Shrinks readArrayHeader
  | [] => le_rfl
  | b :: bytes => (shrinks_readArrayHeader_tail b bytes).trans (Nat.le_succ _)

theorem shrinks_readStringArray : Shrinks readStringArray :=
  shrinks_readArrayHeader.bind shrinks_readString.times

end SmartDashboard.NT4
