import Mathlib.Data.Int.ModEq
import SmartDashboard.Library.BigEndian

/-!
# MessagePack

The values of the format as a tree, with the format that each value was given, and the bytes of a
tree. A tree is well formed if every value fits its format.

## Main definitions

- `Element`: the trees
- `Element.encode`: their bytes
- `Element.All`: a property of every value of a tree
- `Element.WellFormed`: every value fits its format
-/

namespace MessagePack

open BigEndian

/-- How an integer is spelt: in the first byte, or behind it in `2 ^ i` bytes, unsigned or
signed. -/
inductive IntFormat where
  | fixint
  | uint (i : Fin 4)
  | int (i : Fin 4)
  deriving DecidableEq

/-- How a text or a binary string gives its length: in the first byte, or in `2 ^ i` bytes. -/
inductive BlobFormat where
  | fixstr
  | str (i : Fin 3)
  | bin (i : Fin 3)
  deriving DecidableEq

/-- Extension data has a length of `2 ^ i`, or gives its length in `2 ^ i` bytes. -/
inductive ExtFormat where
  | fixext (i : Fin 5)
  | ext (i : Fin 3)
  deriving DecidableEq

/-- A container gives its count in the first byte, or in `2 ^ (i + 1)` bytes. -/
inductive CountFormat where
  | fix
  | wide (i : Fin 2)
  deriving DecidableEq

/-- The entries of a map are its keys and values in turn. -/
inductive Element where
  | nil
  | bool (b : Bool)
  | int (format : IntFormat) (n : ℤ)
  | float32 (bits : UInt32)
  | float64 (bits : UInt64)
  | blob (format : BlobFormat) (bytes : List UInt8)
  | ext (format : ExtFormat) (type : UInt8) (bytes : List UInt8)
  | array (format : CountFormat) (items : List Element)
  | map (format : CountFormat) (entries : List Element)

namespace IntFormat

def Holds (n : ℤ) : IntFormat → Prop
  | fixint => -32 ≤ n ∧ n < 128
  | uint i => 0 ≤ n ∧ n < 256 ^ 2 ^ i.val
  | int i => -(256 ^ 2 ^ i.val / 2) ≤ n ∧ n < 256 ^ 2 ^ i.val / 2

/-- Negative numbers are in two's complement. -/
def encode (n : ℤ) : IntFormat → List UInt8
  | fixint => [UInt8.ofNat (n % 256).toNat]
  | uint i => UInt8.ofNat (0xCC + i) :: beBytes (2 ^ i.val) n.toNat
  | int i => UInt8.ofNat (0xD0 + i) :: beBytes (2 ^ i.val) (n % 256 ^ 2 ^ i.val).toNat

instance (n : ℤ) (format : IntFormat) : Decidable (format.Holds n) := by
  cases format <;> exact instDecidableAnd

end IntFormat

namespace BlobFormat

def Holds (length : ℕ) : BlobFormat → Prop
  | fixstr => length < 32
  | str i | bin i => length < 256 ^ 2 ^ i.val

def head (length : ℕ) : BlobFormat → List UInt8
  | fixstr => [UInt8.ofNat (0xA0 + length)]
  | str i => UInt8.ofNat (0xD9 + i) :: beBytes (2 ^ i.val) length
  | bin i => UInt8.ofNat (0xC4 + i) :: beBytes (2 ^ i.val) length

instance (length : ℕ) (format : BlobFormat) : Decidable (format.Holds length) := by
  cases format <;> exact Nat.decLt _ _

end BlobFormat

namespace ExtFormat

def Holds (length : ℕ) : ExtFormat → Prop
  | fixext i => length = 2 ^ i.val
  | ext i => length < 256 ^ 2 ^ i.val

def head (length : ℕ) : ExtFormat → List UInt8
  | fixext i => [UInt8.ofNat (0xD4 + i)]
  | ext i => UInt8.ofNat (0xC7 + i) :: beBytes (2 ^ i.val) length

instance (length : ℕ) (format : ExtFormat) : Decidable (format.Holds length) := by
  cases format
  · exact Nat.decEq _ _
  · exact Nat.decLt _ _

end ExtFormat

namespace CountFormat

def Holds (count : ℕ) : CountFormat → Prop
  | fix => count < 16
  | wide i => count < 256 ^ 2 ^ (i.val + 1)

/-- The first byte of the shortest form, and of the form with two bytes of count. -/
def head (fixBase wideBase count : ℕ) : CountFormat → List UInt8
  | fix => [UInt8.ofNat (fixBase + count)]
  | wide i => UInt8.ofNat (wideBase + i) :: beBytes (2 ^ (i.val + 1)) count

instance (count : ℕ) (format : CountFormat) : Decidable (format.Holds count) := by
  cases format <;> exact Nat.decLt _ _

end CountFormat

namespace Element

mutual

def encode : Element → List UInt8
  | nil => [0xC0]
  | bool b => [if b then 0xC3 else 0xC2]
  | int format n => format.encode n
  | float32 bits => 0xCA :: beBytes 4 bits.toNat
  | float64 bits => 0xCB :: beBytes 8 bits.toNat
  | blob format bytes => format.head bytes.length ++ bytes
  | ext format type bytes => format.head bytes.length ++ type :: bytes
  | array format items => format.head 0x90 0xDC items.length ++ encodeAll items
  | map format entries => format.head 0x80 0xDE (entries.length / 2) ++ encodeAll entries

def encodeAll : List Element → List UInt8
  | [] => []
  | item :: items => encode item ++ encodeAll items

end

mutual

/-- `p` of the value itself and of all that it contains. -/
def All (p : Element → Prop) : Element → Prop
  | array format items => p (array format items) ∧ AllOf p items
  | map format entries => p (map format entries) ∧ AllOf p entries
  | nil => p nil
  | bool b => p (bool b)
  | int format n => p (int format n)
  | float32 bits => p (float32 bits)
  | float64 bits => p (float64 bits)
  | blob format bytes => p (blob format bytes)
  | ext format type bytes => p (ext format type bytes)

def AllOf (p : Element → Prop) : List Element → Prop
  | [] => True
  | item :: items => All p item ∧ AllOf p items

end

/-- The value fits its format. -/
def Fits : Element → Prop
  | int format n => format.Holds n
  | blob format bytes => format.Holds bytes.length
  | ext format _ bytes => format.Holds bytes.length
  | array format items => format.Holds items.length
  | map format entries => Even entries.length ∧ format.Holds (entries.length / 2)
  | nil | bool _ | float32 _ | float64 _ => True

def WellFormed (e : Element) : Prop :=
  e.All Fits

def text? : Element → Option (List UInt8)
  | blob .fixstr bytes => some bytes
  | blob (.str _) bytes => some bytes
  | _ => none

/-- The texts of an array of texts. -/
def texts? : Element → Option (List (List UInt8))
  | array _ items =>
    if items.all (·.text?.isSome) then some (items.map (·.text?.getD [])) else none
  | _ => none

def integer? : Element → Option ℤ
  | int _ n => some n
  | _ => none

/-- A property of a tree that follows from that of its parts. -/
theorem induction {P : Element → Prop} (nil : P nil) (bool : ∀ b, P (bool b))
    (int : ∀ format n, P (int format n)) (float32 : ∀ bits, P (float32 bits))
    (float64 : ∀ bits, P (float64 bits)) (blob : ∀ format bytes, P (blob format bytes))
    (ext : ∀ format type bytes, P (ext format type bytes))
    (array : ∀ format items, (∀ item ∈ items, P item) → P (array format items))
    (map : ∀ format entries, (∀ item ∈ entries, P item) → P (map format entries))
    (e : Element) : P e :=
  @Element.rec P (fun items => ∀ item ∈ items, P item) nil bool int float32 float64 blob ext array
    map (by simp) (fun _ _ hitem hitems => List.forall_mem_cons.mpr ⟨hitem, hitems⟩) e

theorem encodeAll_eq (items : List Element) : encodeAll items = items.flatMap encode := by
  induction items with
  | nil => rfl
  | cons item items ih => rw [encodeAll, ih, List.flatMap_cons]

theorem allOf_iff {p : Element → Prop} (items : List Element) :
    AllOf p items ↔ ∀ item ∈ items, All p item := by
  induction items with
  | nil => simp [AllOf]
  | cons item items ih => rw [AllOf, ih, List.forall_mem_cons]

theorem encode_array (format : CountFormat) (items : List Element) :
    (array format items).encode = format.head 0x90 0xDC items.length ++ items.flatMap encode := by
  rw [encode, encodeAll_eq]

theorem encode_map (format : CountFormat) (entries : List Element) :
    (map format entries).encode =
      format.head 0x80 0xDE (entries.length / 2) ++ entries.flatMap encode := by
  rw [encode, encodeAll_eq]

theorem all_array {p : Element → Prop} {format : CountFormat} {items : List Element} :
    All p (array format items) ↔ p (array format items) ∧ ∀ item ∈ items, All p item := by
  rw [All, allOf_iff]

theorem all_map {p : Element → Prop} {format : CountFormat} {entries : List Element} :
    All p (map format entries) ↔ p (map format entries) ∧ ∀ item ∈ entries, All p item := by
  rw [All, allOf_iff]

/-- What holds of every value of a tree holds of its root. -/
theorem All.root {p : Element → Prop} {e : Element} (h : All p e) : p e := by
  cases e with
  | array format items => exact h.1
  | map format entries => exact h.1
  | nil | bool | int | float32 | float64 | blob | ext => exact h

theorem length_encode_pos (e : Element) : 0 < e.encode.length := by
  cases e with
  | nil | bool | float32 | float64 => exact Nat.succ_pos _
  | int format n => cases format <;> exact Nat.succ_pos _
  | blob format bytes => cases format <;> exact Nat.succ_pos _
  | ext format type bytes => cases format <;> exact Nat.succ_pos _
  | array format items => cases format <;> exact Nat.succ_pos _
  | map format entries => cases format <;> exact Nat.succ_pos _

theorem length_encode_le_of_mem {item : Element} {items : List Element} (h : item ∈ items) :
    item.encode.length ≤ (items.flatMap encode).length := by
  obtain ⟨before, after, rfl⟩ := List.append_of_mem h
  rw [List.flatMap_append, List.flatMap_cons]
  simp only [List.length_append]
  omega

theorem length_le_length_flatMap_encode (items : List Element) :
    items.length ≤ (items.flatMap encode).length := by
  induction items with
  | nil => exact Nat.zero_le _
  | cons item items ih =>
    have := length_encode_pos item
    rw [List.flatMap_cons, List.length_append, List.length_cons]
    omega

/-- The values of one byte: the atoms, the small integers, and the empty containers. -/
theorem eq_of_length_encode_eq_one {e : Element} (hfits : e.Fits) (h : e.encode.length = 1) :
    e = nil ∨ (∃ b, e = bool b) ∨ (∃ n, e = int .fixint n) ∨ e = blob .fixstr [] ∨
      e = array .fix [] ∨ e = map .fix [] := by
  cases e with
  | nil => simp
  | bool b => simp
  | int format n =>
    cases format with
    | fixint => simp
    | uint i => simp [encode, IntFormat.encode] at h
    | int i => simp [encode, IntFormat.encode] at h
  | float32 bits => simp [encode] at h
  | float64 bits => simp [encode] at h
  | blob format bytes => cases format <;> simp_all [encode, BlobFormat.head]
  | ext format type bytes => cases format <;> simp [encode, ExtFormat.head] at h
  | array format items =>
    have hitems := length_le_length_flatMap_encode items
    rw [encode_array] at h
    cases format with
    | fix =>
      have : items.length = 0 := by
        simp only [CountFormat.head, List.length_append, List.length_singleton] at h
        omega
      simp [List.length_eq_zero_iff.mp this]
    | wide i => simp [CountFormat.head] at h
  | map format entries =>
    have hentries := length_le_length_flatMap_encode entries
    rw [encode_map] at h
    cases format with
    | fix =>
      have : entries.length = 0 := by
        simp only [CountFormat.head, List.length_append, List.length_singleton] at h
        omega
      simp [List.length_eq_zero_iff.mp this]
    | wide i => simp [CountFormat.head] at h

end Element

end MessagePack
