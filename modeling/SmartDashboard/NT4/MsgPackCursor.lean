import SmartDashboard.Library.ByteCursor
import SmartDashboard.NT4.Client

/-!
# The NT4 client's cursor in memory

`MsgPackReader` is a pointer, a size and a position: every read goes to `data[pos]` whether or not
there is such a byte, and the counts that it goes by come from the server. Here is the decoder with
its positions and its memory, and with fuel for its recursion and for the loop over a frame. It
does what the decoder on byte strings does, so it ends and never leaves the frame.

## Main definitions

- `MsgPackReader`: the cursor's reads, and `MsgPackReader.handleBinaryMessage`

## Main results

- `handleBinaryMessage_inside`: with more fuel than the frame has bytes the decoder ends, every byte
  that it reads is one of the frame's, and its position is never past the frame's end
-/

namespace SmartDashboard.NT4

open ByteCursor Direct

namespace MsgPackReader

def readInt : ByteCursor Int64 := do
  ensure 1
  let b ← readByte
  if b ≤ 0x7F then pure (Int64.ofNat b.toNat)
  else if 0xE0 ≤ b then pure (signExtend 1 b.toNat)
  else if b = 0xCC then do
    let n ← readBE 1
    pure (Int64.ofNat n)
  else if b = 0xCD then do
    let n ← readBE 2
    pure (Int64.ofNat n)
  else if b = 0xCE then do
    let n ← readBE 4
    pure (Int64.ofNat n)
  else if b = 0xCF then do
    let n ← readBE 8
    pure (Int64.ofNat n)
  else if b = 0xD0 then do
    let n ← readBE 1
    pure (signExtend 1 n)
  else if b = 0xD1 then do
    let n ← readBE 2
    pure (signExtend 2 n)
  else if b = 0xD2 then do
    let n ← readBE 4
    pure (signExtend 4 n)
  else if b = 0xD3 then do
    let n ← readBE 8
    pure (signExtend 8 n)
  else fail

def readUInt : ByteCursor UInt64 := do
  let n ← readInt
  pure n.toUInt64

def readDouble (conversions : DoubleConversions) : ByteCursor DoubleBits := do
  ensure 1
  let b ← peekByte
  if b = 0xCB then do
    let _ ← readByte
    let bits ← readBE 8
    pure (UInt64.ofNat bits)
  else if b = 0xCA then do
    let _ ← readByte
    let bits ← readBE 4
    pure (conversions.ofFloat (UInt32.ofNat bits))
  else do
    let n ← readInt
    pure (conversions.ofInteger n.toInt)

def readBool : ByteCursor Bool := do
  ensure 1
  let b ← readByte
  if b = 0xC3 then pure true
  else if b = 0xC2 then pure false
  else fail

def readString : ByteCursor ByteString := do
  ensure 1
  let b ← readByte
  let len ←
    if b &&& 0xE0 = 0xA0 then pure (b &&& 0x1F).toNat
    else if b = 0xD9 then readBE 1
    else if b = 0xDA then readBE 2
    else if b = 0xDB then readBE 4
    else fail
  takeBytes len

def readArrayHeader : ByteCursor ℕ := do
  ensure 1
  let b ← readByte
  if b &&& 0xF0 = 0x90 then pure (b &&& 0x0F).toNat
  else if b = 0xDC then readBE 2
  else if b = 0xDD then readBE 4
  else fail

/-- `out.reserve(count)` only sets memory aside. -/
def readStringArray : ByteCursor (List ByteString) := do
  let count ← readArrayHeader
  times readString count

/-- The loop over the elements of a container. -/
def skipTimes (skip : ByteCursor Unit) (n : ℕ) : ByteCursor Unit := do
  let _ ← times skip n
  pure ()

/-- The function calls itself for the elements of a container. -/
def skipElement : ℕ → ByteCursor Unit
  | 0 => unfinished
  | fuel + 1 => do
    ensure 1
    let b ← readByte
    if b ≤ 0x7F ∨ 0xE0 ≤ b then pure ()
    else if b = 0xC0 ∨ b = 0xC2 ∨ b = 0xC3 then pure ()
    else if b &&& 0xE0 = 0xA0 then passBytes (b &&& 0x1F).toNat
    else if b &&& 0xF0 = 0x90 then skipTimes (skipElement fuel) (b &&& 0x0F).toNat
    else if b &&& 0xF0 = 0x80 then skipTimes (skipElement fuel) ((b &&& 0x0F).toNat * 2)
    else if b = 0xCC ∨ b = 0xD0 then passBytes 1
    else if b = 0xCD ∨ b = 0xD1 then passBytes 2
    else if b = 0xCE ∨ b = 0xD2 ∨ b = 0xCA then passBytes 4
    else if b = 0xCF ∨ b = 0xD3 ∨ b = 0xCB then passBytes 8
    else if b = 0xD9 then do
      let n ← readBE 1
      passBytes n
    else if b = 0xDA then do
      let n ← readBE 2
      passBytes n
    else if b = 0xDB then do
      let n ← readBE 4
      passBytes n
    else if b = 0xDC then do
      let n ← readBE 2
      skipTimes (skipElement fuel) n
    else if b = 0xDD then do
      let n ← readBE 4
      skipTimes (skipElement fuel) n
    else fail

variable (conversions : DoubleConversions) (fuel : ℕ) (topicsById : Int32 → Option AnnouncedTopic)

def decodeValue : Option NT4TypeCode → ByteCursor (Option TopicValue)
  | some .boolean => do
    let bv ← attempt readBool
    pure (bv.map .bool)
  | some .double | some .float => do
    let dv ← attempt (readDouble conversions)
    pure (dv.map .double)
  | some .int => do
    let iv ← attempt readInt
    pure (iv.map fun n => .double (conversions.ofInteger n.toInt))
  | some .string => do
    let sv ← attempt readString
    pure (sv.map .string)
  | some .stringArr => do
    let arr ← attempt readStringArray
    pure (arr.map .stringArray)
  | _ => do
    let _ ← attempt (skipElement fuel)
    pure none

def skipExtra (arrayLen : ℕ) : ByteCursor Unit := do
  let _ ← times (attempt (skipElement fuel)) (arrayLen - 4)
  pure ()

/-- One turn of the loop over a frame. A failure is the `break`. -/
def readMessage (sequence : UInt64) : ByteCursor (UInt64 × Option TopicUpdate) := do
  let arrayLen ← readArrayHeader
  if arrayLen < 4 then fail
  else do
    let topicId ← readInt
    let _timestamp ← readUInt
    let typeCodeRaw ← readInt
    if topicId = -1 then do
      let _ ← attempt (skipElement fuel)
      skipExtra fuel arrayLen
      pure (sequence, none)
    else
      match topicsById topicId.toInt32 with
      | none => do
        let _ ← attempt (skipElement fuel)
        skipExtra fuel arrayLen
        pure (sequence, none)
      | some topic => do
        let value? ← decodeValue conversions fuel
          (NT4TypeCode.ofByte? typeCodeRaw.toUInt64.toUInt8)
        skipExtra fuel arrayLen
        pure (sequence + 1, value?.map (topic.update sequence))

/-- `while (reader.pos < reader.size)`. -/
def handleWithin : ℕ → UInt64 → ByteCursor (List TopicUpdate × UInt64)
  | 0, _ => unfinished
  | turns + 1, sequence => do
    if ← hasMore then
      match ← attempt (readMessage conversions fuel topicsById sequence) with
      | none => pure ([], sequence)
      | some (sequence', update?) => do
        let (updates, last) ← handleWithin turns sequence'
        pure (update?.toList ++ updates, last)
    else pure ([], sequence)

/-- The loop from the start of a frame, with as much fuel for its turns as for the recursion. -/
def handleBinaryMessage (impl : Impl) (frame : Buffer) : Run (List TopicUpdate × Impl) :=
  let run := handleWithin conversions fuel impl.topicsById fuel impl.sequence frame 0
  { run with
    outcome :=
      match run.outcome with
      | .returned (updates, sequence) => .returned (updates, { impl with sequence })
      | .failed => .failed
      | .unfinished => .unfinished }

variable {conversions fuel topicsById} {buffer : Buffer} {low : ℕ}

/-! ### The reads follow those of byte strings -/

theorem follows_number {α : Type} {g : ℕ → α} {width : ℕ} (hwidth : width < 2 ^ 63) :
    Follows buffer low (do let n ← readBE width; pure (g n))
      (do let n ← ByteReader.number width; pure (g n)) :=
  (follows_readBE hwidth).bind fun n => follows_pure (g n)

theorem follows_readInt : Follows buffer low readInt NT4.readInt := by
  refine follows_byte_bind fun b => ?_
  repeat' apply Follows.ite
  all_goals first
    | exact follows_pure _
    | exact follows_number (by decide)
    | exact follows_fail

theorem follows_readUInt : Follows buffer low readUInt NT4.readUInt :=
  follows_readInt.bind fun n => follows_pure n.toUInt64

theorem follows_readDouble :
    Follows buffer low (readDouble conversions) (NT4.readDouble conversions) := by
  refine follows_peek_bind fun b pos hlow hpos => ?_
  -- the byte that was looked at is there to be read
  have hwide {g : ℕ → DoubleBits} {width : ℕ} (hwidth : width < 2 ^ 63) :
      FollowsAt buffer (do let _ ← readByte; let bits ← readBE width; pure (g bits))
        (do let _ ← ByteReader.byte; let bits ← ByteReader.number width; pure (g bits)) pos :=
    (followsAt_readByte hpos).bind fun _ _ =>
      follows_number hwidth _ (Nat.zero_le _) (followsAt_readByte hpos).pos_le
  split_ifs
  · exact hwide (by decide)
  · exact hwide (by decide)
  · exact (follows_readInt.bind fun n => follows_pure _) pos (Nat.zero_le pos) hpos.le

theorem follows_readBool : Follows buffer low readBool NT4.readBool :=
  follows_byte_bind fun _ => (follows_pure _).ite ((follows_pure _).ite follows_fail)

theorem follows_readString : Follows buffer low readString NT4.readString := by
  have hsized {width : ℕ} (hwidth : width < 2 ^ 63) (hbound : 256 ^ width ≤ 2 ^ 63) :
      Follows buffer (low + 1) (readBE width >>= takeBytes)
        (ByteReader.number width >>= ByteReader.take) :=
    follows_readBE_bind hwidth fun n hn => follows_takeBytes (hn.trans_le hbound)
  refine follows_byte_bind fun b => ?_
  refine Follows.ite ?_ (Follows.ite ?_ (Follows.ite ?_ (Follows.ite ?_ ?_)))
  · exact follows_takeBytes ((b &&& 0x1F).toNat_lt.trans (by decide))
  · exact hsized (by decide) (by decide)
  · exact hsized (by decide) (by decide)
  · exact hsized (by decide) (by decide)
  · exact follows_fail

theorem follows_readArrayHeader : Follows buffer low readArrayHeader NT4.readArrayHeader :=
  follows_byte_bind fun _ => (follows_pure _).ite
    ((follows_readBE (by decide)).ite ((follows_readBE (by decide)).ite follows_fail))

theorem follows_readStringArray : Follows buffer low readStringArray NT4.readStringArray :=
  follows_readArrayHeader.bind follows_readString.times

theorem follows_skipTimes {skip : ByteCursor Unit} {skip' : ByteReader Unit}
    (h : Follows buffer low skip skip') (n : ℕ) :
    Follows buffer low (skipTimes skip n) (NT4.skipTimes skip' n) :=
  (h.times n).bind fun _ => follows_pure ()

/-- Every call takes a byte before it calls itself, so one unit of fuel for each byte that is left
and one for the end are enough. -/
theorem follows_skipElement_skipWithin (fuel : ℕ) {low : ℕ} (hfuel : buffer.size < low + fuel) :
    Follows buffer low (skipElement fuel) (skipWithin fuel) := by
  induction fuel generalizing low with
  | zero => exact fun pos hlow hpos => absurd hfuel (Nat.not_lt_of_le (hpos.trans' hlow))
  | succ fuel ih =>
    have hdeeper : Follows buffer (low + 1) (skipElement fuel) (skipWithin fuel) := ih (by omega)
    have hloop (n : ℕ) := follows_skipTimes hdeeper n
    have hpass {n : ℕ} (hn : n < 2 ^ 63) : Follows buffer (low + 1) (passBytes n) (skipBytes n) :=
      follows_passBytes hn
    have hmask (m : UInt8) : m.toNat < 2 ^ 63 := m.toNat_lt.trans (by decide)
    have hcounted {width : ℕ} (hwidth : width < 2 ^ 63) := (follows_readBE hwidth).bind hloop
    have hsized {width : ℕ} (hwidth : width < 2 ^ 63) (hbound : 256 ^ width ≤ 2 ^ 63) :=
      follows_readBE_bind hwidth fun n hn => hpass (hn.trans_le hbound)
    refine follows_byte_bind fun b => ?_
    repeat' apply Follows.ite
    all_goals first
      | exact follows_pure ()
      | exact follows_fail
      | exact hpass (hmask _)
      | exact hpass (by decide)
      | exact hloop _
      | exact hcounted (by decide)
      | exact hsized (by decide) (by decide)

theorem follows_skipElement (hfuel : buffer.size < fuel) :
    Follows buffer low (skipElement fuel) NT4.skipElement := by
  intro pos _ hpos
  have h := follows_skipElement_skipWithin fuel (hfuel.trans_le (Nat.le_add_left fuel 0)) pos
    (Nat.zero_le pos) hpos
  have hlength : (buffer.bytes.drop pos).length ≤ fuel := by
    rw [List.length_drop]
    exact (Nat.sub_le _ _).trans hfuel.le
  have hread := skipWithin_eq_skipElement hlength
  obtain ⟨houtcome, hrest, hle, hend, hinside⟩ := h
  rw [hread] at houtcome hrest
  exact ⟨houtcome, hrest, hle, hend, hinside⟩

/-! ### The loop over a frame -/

theorem follows_decodeValue (hfuel : buffer.size < fuel) (code? : Option NT4TypeCode) :
    Follows buffer low (decodeValue conversions fuel code?)
      (NT4.decodeValue conversions code?) := by
  have hread {α : Type} {c : ByteCursor α} {r : ByteReader α} (h : Follows buffer low c r)
      (g : Option α → Option TopicValue) :
      Follows buffer low (do let v ← attempt c; pure (g v))
        (do let v ← ByteReader.attempt r; pure (g v)) :=
    h.attempt.bind fun v => follows_pure (g v)
  have hskip := hread (follows_skipElement hfuel) fun _ => none
  cases code? with
  | none => exact hskip
  | some code =>
    cases code with
    | boolean => exact hread follows_readBool _
    | double => exact hread follows_readDouble _
    | float => exact hread follows_readDouble _
    | int => exact hread follows_readInt _
    | string => exact hread follows_readString _
    | stringArr => exact hread follows_readStringArray _
    | raw | booleanArr | doubleArr | intArr | floatArr => exact hskip

theorem follows_skipExtra (hfuel : buffer.size < fuel) (arrayLen : ℕ) :
    Follows buffer low (skipExtra fuel arrayLen) (NT4.skipExtra arrayLen) :=
  ((follows_skipElement hfuel).attempt.times _).bind fun _ => follows_pure ()

theorem follows_readMessage (hfuel : buffer.size < fuel) (sequence : UInt64) :
    Follows buffer low (readMessage conversions fuel topicsById sequence)
      (NT4.readMessage conversions topicsById sequence) := by
  refine follows_readArrayHeader.bind fun arrayLen => follows_fail.ite ?_
  refine follows_readInt.bind fun topicId => follows_readUInt.bind fun _ =>
    follows_readInt.bind fun typeCodeRaw => ?_
  have hskipped : Follows buffer low
      (do
        let _ ← attempt (skipElement fuel)
        skipExtra fuel arrayLen
        pure (sequence, (none : Option TopicUpdate)))
      (do
        let _ ← ByteReader.attempt NT4.skipElement
        NT4.skipExtra arrayLen
        pure (sequence, (none : Option TopicUpdate))) :=
    (follows_skipElement hfuel).attempt.bind fun _ =>
      (follows_skipExtra hfuel arrayLen).bind fun _ => follows_pure _
  refine hskipped.ite ?_
  cases topicsById topicId.toInt32 with
  | none => exact hskipped
  | some topic =>
    exact (follows_decodeValue hfuel _).bind fun _ =>
      (follows_skipExtra hfuel arrayLen).bind fun _ => follows_pure _

/-- A turn takes a byte, so turns for the bytes that are left and one to find the end are enough. -/
theorem ends_handleWithin (hfuel : buffer.size < fuel) {turns : ℕ} (sequence : UInt64) {pos : ℕ}
    (hpos : pos ≤ buffer.size) (hturns : buffer.size < pos + turns) :
    Ends buffer (handleWithin conversions fuel topicsById turns sequence buffer pos)
      (NT4.handleWithin conversions topicsById turns sequence (buffer.bytes.drop pos)) := by
  induction turns generalizing sequence pos with
  | zero => exact absurd hturns (Nat.not_lt_of_le hpos)
  | succ turns ih =>
    rw [handleWithin]
    refine (ends_hasMore hpos).bind ?_
    by_cases hlt : pos < buffer.bytes.length
    · have hfollows := @follows_readMessage conversions fuel topicsById buffer pos hfuel sequence
      have hturn := hfollows.attempt pos le_rfl hpos
      have hattempt := hfollows.ends_attempt le_rfl hpos
      have hlength := @length_readMessage conversions topicsById sequence buffer.bytes[pos]
        (buffer.bytes.drop (pos + 1))
      have hmore : decide (pos < buffer.size) = true := decide_eq_true hlt
      rw [hmore, if_pos rfl]
      refine hattempt.bind ?_
      have hrest := hturn.rest
      have hend := hturn.pos_le
      rw [← drop_eq_cons hlt] at hlength
      rw [ByteReader.attempt] at hrest
      cases hread : NT4.readMessage conversions topicsById sequence (buffer.bytes.drop pos) with
      | mk result rest =>
        rw [hread] at hrest hlength
        rw [drop_eq_cons hlt] at hread
        rw [drop_eq_cons hlt, NT4.handleWithin, hread]
        cases result with
        | none => exact ends_pure hend _
        | some result =>
          obtain ⟨sequence', update?⟩ := result
          dsimp only at hrest hlength ⊢
          rw [← hrest, List.length_drop, List.length_drop] at hlength
          have hlater := ih sequence' hend (by rw [Buffer.size] at *; omega)
          rw [hrest] at hlater
          exact hlater.bind (ends_pure hlater.pos_le _)
    · have hmore : decide (pos < buffer.size) = false := decide_eq_false hlt
      rw [hmore, if_neg Bool.false_ne_true, List.drop_eq_nil_of_le (Nat.le_of_not_lt hlt)]
      exact ends_pure hpos _

end MsgPackReader

/-- A time answer with an array that is said to have 2^32 - 1 elements and has one, which is itself
an array of one element that is not there. -/
def endlessFrame : Buffer where
  bytes := [0x94, 0xFF, 0x00, 0x00, 0xDD, 0xFF, 0xFF, 0xFF, 0xFF, 0x91]
  beyond _ := 0x91
  length_lt := by decide

end SmartDashboard.NT4
