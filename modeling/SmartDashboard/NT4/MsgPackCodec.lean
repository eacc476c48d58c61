import SmartDashboard.NT4.Publishing

/-!
# What the NT4 client writes it can read

`MsgPackWriter` picks the narrowest format for a value and `MsgPackReader` goes by the format byte.
What is written is the encoding of a tree of one value, which the typed read and `SkipElement`
both take whole.

## Main definitions

- `RoundTrips`: a typed read returns what was written, and stops where `SkipElement` stops

## Main results

- `msgPack_roundTrips`: the five pairs of writers and readers
-/

namespace SmartDashboard.NT4

open ByteReader MessagePack Direct

/-- Whatever follows what was written, the typed read returns the value and stops at what follows,
and so does the cursor when it skips the value. -/
structure RoundTrips {α : Type} (read : ByteReader α) (written : ByteString) (v : α) : Prop where
  reads : Reads read written v
  skips : Reads skipElement written ()

theorem RoundTrips.of_element {α : Type} {read : ByteReader α} {e : Element} {v : α}
    (hwf : e.WellFormed) (hskip : Skippable e) (hread : Reads read e.encode v) :
    RoundTrips read e.encode v :=
  ⟨hread, reads_skipElement hwf hskip⟩

theorem WireInt.roundTrips (n : WireInt) :
    RoundTrips readInt n.element.encode (Int64.ofInt n.value) :=
  .of_element n.holds trivial (reads_readInt n.holds)

theorem roundTrips_writeInt (v : Int64) : RoundTrips readInt (writeInt v.toInt) v := by
  obtain ⟨n, hvalue, hbytes⟩ := exists_wireInt_writeInt v.le_toInt v.toInt_lt
  have h := n.roundTrips
  rwa [hbytes, hvalue, Int64.ofInt_toInt] at h

/-- A number of 64 bits is read as a signed one, which has the same bits. -/
theorem toUInt64_ofInt_toNat (v : UInt64) : (Int64.ofInt v.toNat).toUInt64 = v := by
  apply UInt64.toNat_inj.mp
  have hv : ((v.toNat : ℤ) % 2 ^ 64).toNat = v.toNat := by
    have := v.toNat_lt
    omega
  rw [← UInt64.toNat_toBitVec, ← Int64.toBitVec.eq_def, Int64.toBitVec_ofInt, BitVec.toNat_ofInt]
  exact hv

theorem roundTrips_writeUInt (v : UInt64) : RoundTrips readUInt (writeUInt v) v := by
  obtain ⟨n, hvalue, hbytes⟩ := exists_wireInt_writeUInt v
  have h := n.roundTrips
  have hread := h.reads.map Int64.toUInt64
  rw [hvalue, toUInt64_ofInt_toNat] at hread
  rw [← hbytes]
  exact ⟨hread, h.skips⟩

theorem roundTrips_writeDouble (conversions : DoubleConversions) (v : DoubleBits) :
    RoundTrips (readDouble conversions) (writeDouble v) v :=
  @RoundTrips.of_element _ _ (.float64 v) _ trivial trivial (reads_readDouble_float64 conversions v)

theorem roundTrips_writeBool (v : Bool) : RoundTrips readBool (writeBool v) v :=
  @RoundTrips.of_element _ _ (.bool v) _ trivial trivial (reads_readBool v)

theorem roundTrips_writeString {s : ByteString} (hs : s.length < 2 ^ 32) :
    RoundTrips readString (writeString s) s := by
  obtain ⟨e, hwf, htext, hbytes⟩ := exists_text_writeString hs
  have hskip : Skippable e := by
    cases e with
    | blob format bytes =>
      cases format with
      | fixstr | str => exact trivial
      | bin => cases htext
    | nil | bool | int | float32 | float64 | ext | array | map => cases htext
  rw [← hbytes]
  exact .of_element hwf hskip (reads_readString hwf.root htext)

/-- Every value that `MsgPackWriter` writes is read back by the reader of its type, which stops
where the value ends, as `SkipElement` does. -/
theorem msgPack_roundTrips (conversions : DoubleConversions) :
    (∀ v : Int64, RoundTrips readInt (writeInt v.toInt) v) ∧
      (∀ v : UInt64, RoundTrips readUInt (writeUInt v) v) ∧
      (∀ v : Bool, RoundTrips readBool (writeBool v) v) ∧
      (∀ v : DoubleBits, RoundTrips (readDouble conversions) (writeDouble v) v) ∧
      ∀ s : ByteString, s.length < 2 ^ 32 → RoundTrips readString (writeString s) s :=
  ⟨roundTrips_writeInt, roundTrips_writeUInt, roundTrips_writeBool,
    roundTrips_writeDouble conversions, fun _ hs => roundTrips_writeString hs⟩

theorem msgPack_roundTrips_autoMode :
    RoundTrips readString (writeString (App.text "AutoMode")) (App.text "AutoMode") :=
  (msgPack_roundTrips ⟨fun _ => 0, fun _ => 0⟩).2.2.2.2 _ (by decide)

end SmartDashboard.NT4
