import Mathlib.Data.List.Basic

/-!
# UTF-8 as lists of bytes

Which lists of bytes spell characters, and the rewriting of single bytes that keeps them so.
-/

/-- The bytes are the encoding of some characters. -/
def Utf8 (bytes : List UInt8) : Prop :=
  ∃ chars : List Char, bytes = chars.flatMap String.utf8EncodeChar

namespace Utf8

variable {bytes bytes' : List UInt8}

theorem nil : Utf8 [] := ⟨[], rfl⟩

theorem append (h : Utf8 bytes) (h' : Utf8 bytes') : Utf8 (bytes ++ bytes') := by
  obtain ⟨chars, rfl⟩ := h
  obtain ⟨chars', rfl⟩ := h'
  exact ⟨chars ++ chars', List.flatMap_append.symm⟩

theorem char (c : Char) : Utf8 (String.utf8EncodeChar c) := ⟨[c], by simp⟩

/-- A byte stands for itself, or all the bytes of the character are above ASCII. -/
theorem utf8EncodeChar_cases (c : Char) :
    (∃ b < 128, String.utf8EncodeChar c = [b]) ∨ ∀ b ∈ String.utf8EncodeChar c, 128 ≤ b := by
  have hhigh : ∀ n, n < 256 → 128 ≤ n → (128 : UInt8) ≤ UInt8.ofNat n := by
    intro n hlt hle
    rw [UInt8.le_iff_toNat_le, UInt8.toNat_ofNat_of_lt' hlt]
    exact hle
  unfold String.utf8EncodeChar
  dsimp only
  split_ifs with hone htwo hthree
  · left
    refine ⟨_, ?_, rfl⟩
    rw [UInt8.lt_iff_toNat_lt, UInt8.toNat_ofNat_of_lt' (Nat.lt_of_le_of_lt hone (by decide))]
    exact Nat.lt_of_le_of_lt hone (by decide)
  -- the first byte of several, and those that follow, have the high bit set
  · right
    intro b hb
    simp only [List.mem_cons, List.not_mem_nil, or_false] at hb
    rcases hb with rfl | rfl <;> exact hhigh _ (by omega) (by omega)
  · right
    intro b hb
    simp only [List.mem_cons, List.not_mem_nil, or_false] at hb
    rcases hb with rfl | rfl | rfl <;> exact hhigh _ (by omega) (by omega)
  · right
    intro b hb
    simp only [List.mem_cons, List.not_mem_nil, or_false] at hb
    rcases hb with rfl | rfl | rfl | rfl <;> exact hhigh _ (by omega) (by omega)

theorem of_ascii (h : ∀ b ∈ bytes, b < 128) : Utf8 bytes := by
  induction bytes with
  | nil => exact nil
  | cons b bytes ih =>
    have hlt : b.toNat < 128 := UInt8.lt_iff_toNat_lt.mp (h b List.mem_cons_self)
    have hval : b.toUInt32.toNat = b.toNat := UInt8.toNat_toUInt32 b
    have hvalid : b.toUInt32.isValidChar := .inl (by show b.toUInt32.toNat < 0xd800; omega)
    have hchar : String.utf8EncodeChar ⟨b.toUInt32, hvalid⟩ = [b] := by
      unfold String.utf8EncodeChar
      dsimp only
      rw [hval, if_pos (by omega), UInt8.ofNat_toNat]
    have hb : Utf8 [b] := hchar ▸ char _
    exact hb.append (ih fun b' hb' => h b' (List.mem_cons_of_mem _ hb'))

/-- The same for a constant, by evaluation. -/
theorem of_all (h : (bytes.all fun b => b < 128) = true) : Utf8 bytes :=
  of_ascii fun b hb => of_decide_eq_true (List.all_eq_true.mp h b hb)

/-- Bytes of ASCII may be replaced by strings of ASCII. -/
theorem flatMap {f : UInt8 → List UInt8} (hlow : ∀ b < 128, ∀ c ∈ f b, c < 128)
    (hhigh : ∀ b, 128 ≤ b → f b = [b]) (h : Utf8 bytes) : Utf8 (bytes.flatMap f) := by
  obtain ⟨chars, rfl⟩ := h
  induction chars with
  | nil => exact nil
  | cons c chars ih =>
    rw [List.flatMap_cons, List.flatMap_append]
    refine append ?_ ih
    rcases utf8EncodeChar_cases c with ⟨b, hb, hchar⟩ | hchar
    · rw [hchar, List.flatMap_cons, List.flatMap_nil, List.append_nil]
      exact of_ascii (hlow b hb)
    · have hsame : (String.utf8EncodeChar c).flatMap f = String.utf8EncodeChar c := by
        have hmap : (String.utf8EncodeChar c).flatMap f =
            (String.utf8EncodeChar c).flatMap fun b => [b] :=
          List.flatMap_congr fun b hb => hhigh b (hchar b hb)
        rw [hmap, List.flatMap_singleton']
      rw [hsame]
      exact char c

end Utf8
