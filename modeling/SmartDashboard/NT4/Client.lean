import SmartDashboard.App.VariableStore
import SmartDashboard.NT4.MsgPackReader

/-!
# The NT4 client's binary frames

A binary frame is any number of MessagePack arrays `[topicID, timestamp_us, typeCode, value]`, one
after the other and without a length of their own. The client finds the next one by what it read of
the last, so every message has to be taken whole, also one of which it delivers nothing.

## Main definitions

- `Impl.handleBinaryMessage`: the loop over a frame, with the updates that it delivers
- `Message`: a well-formed message, and `Message.update?`: what it says to a client
- `Message.Resyncs`: the messages that the loop takes whole

## Main results

- `handleBinaryMessage_delivers`: on messages that all resync the loop delivers what they say
-/

namespace SmartDashboard.NT4

open ByteReader MessagePack Direct

/-- Values as the plugin hands them to the host: the integer and float types are doubles. -/
inductive TopicValue where
  | bool (b : Bool)
  | double (bits : DoubleBits)
  | string (s : ByteString)
  | stringArray (ss : List ByteString)
  deriving DecidableEq

structure TopicUpdate where
  topicPath : ByteString
  value : TopicValue
  serverSequence : UInt64
  deriving DecidableEq

/-- What the loop uses of an announced topic. Announces without a name are not stored. -/
structure AnnouncedTopic where
  name : ByteString
  name_ne_nil : name ≠ []

/-- The codes of `enum class NT4TypeCode : uint8_t`. -/
inductive NT4TypeCode where
  | boolean
  | double
  | int
  | float
  | string
  | raw
  | booleanArr
  | doubleArr
  | intArr
  | floatArr
  | stringArr
  deriving DecidableEq

namespace NT4TypeCode

def toByte : NT4TypeCode → UInt8
  | boolean => 0
  | double => 1
  | int => 2
  | float => 3
  | string => 4
  | raw => 5
  | booleanArr => 16
  | doubleArr => 17
  | intArr => 18
  | floatArr => 19
  | stringArr => 20

/-- The enumerator of a byte, if it has one. -/
def ofByte? (b : UInt8) : Option NT4TypeCode :=
  [boolean, double, int, float, string, raw, booleanArr, doubleArr, intArr, floatArr,
    stringArr].find? fun code => code.toByte = b

end NT4TypeCode

/-- What `HandleBinaryMessage` works on: the topics by server id, and the next sequence number. -/
structure Impl where
  topicsById : Int32 → Option AnnouncedTopic
  sequence : UInt64

def kPrefix : ByteString :=
  App.text "/SmartDashboard/"

def stripSmartDashboardPrefix (topicPath : ByteString) : ByteString :=
  if kPrefix.isPrefixOf topicPath then topicPath.drop kPrefix.length else topicPath

def AnnouncedTopic.update (topic : AnnouncedTopic) (serverSequence : UInt64) (value : TopicValue) :
    TopicUpdate where
  topicPath := stripSmartDashboardPrefix topic.name
  value
  serverSequence

variable (conversions : DoubleConversions)

/-- The `switch` over the type code: `none` where `decoded` stays false. -/
def decodeValue : Option NT4TypeCode → ByteReader (Option TopicValue)
  | some .boolean => do
    let bv ← attempt readBool
    pure (bv.map .bool)
  | some .double | some .float => do
    let dv ← attempt (readDouble conversions)
    pure (dv.map .double)
  | some .int => do
    let iv ← attempt readInt
    pure (iv.map fun n => .double (conversions.ofInteger n.toInt))
  | some .string => do
    let sv ← attempt readString
    pure (sv.map .string)
  | some .stringArr => do
    let arr ← attempt readStringArray
    pure (arr.map .stringArray)
  | _ => do
    let _ ← attempt skipElement
    pure none

/-- Extra array elements beyond the four. -/
def skipExtra (arrayLen : ℕ) : ByteReader Unit := do
  let _ ← times (attempt skipElement) (arrayLen - 4)
  pure ()

/-- One turn of the loop: the next sequence number, and the update if one is delivered. A failure
is the `break`. -/
def readMessage (topicsById : Int32 → Option AnnouncedTopic) (sequence : UInt64) :
    ByteReader (UInt64 × Option TopicUpdate) := do
  let arrayLen ← readArrayHeader
  if arrayLen < 4 then fail
  else do
    let topicId ← readInt
    let _timestamp ← readUInt
    let typeCodeRaw ← readInt
    -- Topic ID -1 = timestamp sync response.
    if topicId = -1 then do
      let _ ← attempt skipElement
      skipExtra arrayLen
      pure (sequence, none)
    else
      match topicsById topicId.toInt32 with
      | none => do
        let _ ← attempt skipElement
        skipExtra arrayLen
        pure (sequence, none)
      | some topic => do
        let value? ← decodeValue conversions (NT4TypeCode.ofByte? typeCodeRaw.toUInt64.toUInt8)
        skipExtra arrayLen
        pure (sequence + 1, value?.map (topic.update sequence))

/-- Turns bound the loop. Every turn takes a byte, so the bytes of the frame are enough. -/
def handleWithin (topicsById : Int32 → Option AnnouncedTopic) :
    ℕ → UInt64 → List UInt8 → List TopicUpdate × UInt64
  | 0, sequence, _ => ([], sequence)
  | _ + 1, sequence, [] => ([], sequence)
  | turns + 1, sequence, b :: bytes =>
    match readMessage conversions topicsById sequence (b :: bytes) with
    | (none, _) => ([], sequence)
    | (some (sequence', update?), rest) =>
      let (updates, last) := handleWithin topicsById turns sequence' rest
      (update?.toList ++ updates, last)

/-- The updates that `onUpdate` is called with, and the client afterwards. -/
def Impl.handleBinaryMessage (impl : Impl) (rawData : ByteString) : List TopicUpdate × Impl :=
  let (updates, sequence) :=
    handleWithin conversions impl.topicsById rawData.length impl.sequence rawData
  (updates, { impl with sequence })

/-! ## Messages -/

structure WireInt where
  format : IntFormat
  value : ℤ
  holds : format.Holds value

def WireInt.element (n : WireInt) : Element :=
  .int n.format n.value

/-- A well-formed message. -/
structure Message where
  header : CountFormat
  topicId : WireInt
  timestamp : WireInt
  typeCode : WireInt
  value : Element
  wellFormed : value.WellFormed

def Message.encode (m : Message) : List UInt8 :=
  (Element.array m.header
    [m.topicId.element, m.timestamp.element, m.typeCode.element, m.value]).encode

/-- The topic that was announced under an id. -/
def announced (topicsById : Int32 → Option AnnouncedTopic) (id : ℤ) : Option AnnouncedTopic :=
  if Int32.minValue.toInt ≤ id ∧ id ≤ Int32.maxValue.toInt then topicsById (Int32.ofInt id)
  else none

def typeCodeOf (code : ℤ) : Option NT4TypeCode :=
  if 0 ≤ code ∧ code < 256 then NT4TypeCode.ofByte? (UInt8.ofInt code) else none

/-- A floating-point number, or an integer promoted to one. -/
def doubleOf : Element → Option DoubleBits
  | .float64 bits => some bits
  | .float32 bits => some (conversions.ofFloat bits)
  | .int _ n => some (conversions.ofInteger n)
  | _ => none

def boolOf : Element → Option Bool
  | .bool b => some b
  | _ => none

/-- The value that an element is, for a type code that is supported and matches it. -/
def valueOf (e : Element) : NT4TypeCode → Option TopicValue
  | .boolean => (boolOf e).map .bool
  | .double | .float => (doubleOf conversions e).map .double
  | .int => e.integer?.map fun n => .double (conversions.ofInteger n)
  | .string => e.text?.map .string
  | .stringArr => e.texts?.map .stringArray
  | .raw | .booleanArr | .doubleArr | .intArr | .floatArr => none

/-- The update of a message: path and value, if its id is announced and its type code is supported
and matches its value. -/
def Message.update? (topicsById : Int32 → Option AnnouncedTopic) (m : Message) :
    Option (ByteString × TopicValue) := do
  let topic ← announced topicsById m.topicId.value
  let code ← typeCodeOf m.typeCode.value
  let value ← valueOf conversions m.value code
  pure (stripSmartDashboardPrefix topic.name, value)

/-- An array of texts whose last value is a single byte and no text. -/
def EndsInByte (e : Element) : Prop :=
  ∃ format items last, e = .array format (items ++ [last]) ∧
    (∀ item ∈ items, item.text?.isSome) ∧ last.encode.length = 1 ∧ last.text? = none

/-- The branch of the `switch` for a code takes the element whole: it is of the branch's type, it
is one byte long, or the branch is the one that skips and it can be skipped. -/
def TakenWhole (e : Element) : Option NT4TypeCode → Prop
  | some .boolean => (boolOf e).isSome ∨ e.encode.length = 1
  | some .double | some .float => (doubleOf conversions e).isSome ∨ e.encode.length = 1
  | some .int => e.integer?.isSome ∨ e.encode.length = 1
  | some .string => e.text?.isSome ∨ e.encode.length = 1
  | some .stringArr => e.texts?.isSome ∨ e.encode.length = 1 ∨ EndsInByte e
  | _ => Skippable e

/-- A message that the loop takes whole and reads as it is meant: its id is not cut down to that
of another topic, nor is it the id of the time answers; its type code is not cut down to one that
matches its value; its number fits the cursor's integers; and its value is taken whole by the
branch that it comes to. -/
structure Message.Resyncs (topicsById : Int32 → Option AnnouncedTopic) (m : Message) : Prop where
  id : (topicsById (Int32.ofInt m.topicId.value)).isSome →
    (announced topicsById m.topicId.value).isSome ∧ m.topicId.value ≠ -1
  code : (announced topicsById m.topicId.value).isSome →
    (0 ≤ m.typeCode.value ∧ m.typeCode.value < 256) ∨
      ∀ code, NT4TypeCode.ofByte? (UInt8.ofInt m.typeCode.value) = some code →
        valueOf conversions m.value code = none
  number : (m.update? conversions topicsById).isSome → ∀ n, m.value.integer? = some n → n < 2 ^ 63
  skipped : announced topicsById m.topicId.value = none → Skippable m.value
  read : (announced topicsById m.topicId.value).isSome →
    TakenWhole conversions m.value (NT4TypeCode.ofByte? (UInt8.ofInt m.typeCode.value))

variable {conversions} {topicsById : Int32 → Option AnnouncedTopic}

theorem typeCode_cast (n : ℤ) : (Int64.ofInt n).toUInt64.toUInt8 = UInt8.ofInt n := by
  have hwide : (Int64.ofInt n).toUInt64.toNat = (n % 2 ^ 64).toNat := by
    rw [← UInt64.toNat_toBitVec, ← Int64.toBitVec.eq_def, Int64.toBitVec_ofInt, BitVec.toNat_ofInt]
    rfl
  apply UInt8.toNat_inj.mp
  rw [UInt64.toNat_toUInt8, hwide, UInt8.ofInt, UInt8.toNat_ofNat']
  omega

/-- An integer that fits its format and is below 2^63 is what the cursor reads. -/
theorem toInt_ofInt_of_holds {format : IntFormat} {n : ℤ} (h : format.Holds n) (hn : n < 2 ^ 63) :
    (Int64.ofInt n).toInt = n := by
  refine Int64.toInt_ofInt_of_le ?_ hn
  cases format with
  | fixint => exact le_trans (by decide) h.1
  | uint i => exact le_trans (by decide) h.1
  | int i =>
    have hlow := h.1
    fin_cases i <;> simp at hlow <;> omega

/-- A branch whose typed read fails is left with no value, at the place that the read reached. -/
theorem reads_attempt {α : Type} {r : ByteReader α} {bytes : List UInt8} {a? : Option α}
    (hread : ∀ a, a? = some a → Reads r bytes a) (hfail : a? = none → FailsOn r bytes)
    (g : Option α → Option TopicValue) :
    Reads (do let v ← attempt r; pure (g v)) bytes (g a?) := by
  cases a? with
  | none => exact (hfail rfl).attempt.map g
  | some a => exact (hread a rfl).attempt.map g

theorem reads_boolOf {e : Element} {b : Bool} (h : boolOf e = some b) :
    Reads readBool e.encode b := by
  cases e with
  | bool b' =>
    obtain rfl := Option.some.inj h
    exact reads_readBool b'
  | nil | int | float32 | float64 | blob | ext | array | map => cases h

theorem reads_integer {e : Element} {n : ℤ} (hfits : e.Fits) (h : e.integer? = some n) :
    Reads readInt e.encode (Int64.ofInt n) := by
  cases e with
  | int format n' =>
    obtain rfl := Option.some.inj h
    exact reads_readInt hfits
  | nil | bool | float32 | float64 | blob | ext | array | map => cases h

theorem toInt_ofInt_integer {e : Element} {n : ℤ} (hfits : e.Fits) (h : e.integer? = some n)
    (hn : n < 2 ^ 63) : (Int64.ofInt n).toInt = n := by
  cases e with
  | int format n' =>
    obtain rfl := Option.some.inj h
    exact toInt_ofInt_of_holds hfits hn
  | nil | bool | float32 | float64 | blob | ext | array | map => cases h

theorem reads_doubleOf {e : Element} {bits : DoubleBits} (hfits : e.Fits)
    (hn : ∀ n, e.integer? = some n → n < 2 ^ 63) (h : doubleOf conversions e = some bits) :
    Reads (readDouble conversions) e.encode bits := by
  cases e with
  | float64 bits' =>
    obtain rfl := Option.some.inj h
    exact reads_readDouble_float64 conversions bits'
  | float32 bits' =>
    obtain rfl := Option.some.inj h
    exact reads_readDouble_float32 conversions bits'
  | int format n =>
    obtain rfl := Option.some.inj h
    have hread := reads_readDouble_int conversions hfits
    rwa [toInt_ofInt_of_holds hfits (hn n rfl)] at hread
  | nil | bool | blob | ext | array | map => cases h

theorem integer?_eq_none_of_doubleOf {e : Element} (h : doubleOf conversions e = none) :
    e.integer? = none := by
  cases e with
  | int format n => cases h
  | nil | bool | float32 | float64 | blob | ext | array | map => rfl

theorem failsOn_readStringArray_of_texts? {e : Element} (hwf : e.WellFormed)
    (htexts : e.texts? = none) (h : e.encode.length = 1 ∨ EndsInByte e) :
    FailsOn readStringArray e.encode := by
  rcases h with hone | ⟨format, items, last, rfl, hitems, hone, hlast⟩
  · refine (failsOn_readArrayHeader hwf.root hone ?_).bind _
    rintro format items rfl
    -- An array of one byte is empty, and the texts of no values are none.
    have hnil : items = [] := by
      have := Element.length_le_length_flatMap_encode items
      rw [Element.encode_array, List.length_append] at hone
      have : 0 < (format.head 0x90 0xDC items.length).length := by
        cases format <;> exact Nat.succ_pos _
      exact List.length_eq_zero_iff.mp (by omega)
    simp [hnil, Element.texts?] at htexts
  · exact failsOn_readStringArray hwf hitems hone hlast

/-- The branch for a code takes the element and has its value, if it is one of the branch's type. -/
theorem reads_decodeValue {e : Element} {code? : Option NT4TypeCode} (hwf : e.WellFormed)
    (hnumber : (code?.bind (valueOf conversions e)).isSome → ∀ n, e.integer? = some n → n < 2 ^ 63)
    (h : TakenWhole conversions e code?) :
    Reads (decodeValue conversions code?) e.encode (code?.bind (valueOf conversions e)) := by
  have hdouble (hnumber : (doubleOf conversions e).isSome → ∀ n, e.integer? = some n → n < 2 ^ 63)
      (h : (doubleOf conversions e).isSome ∨ e.encode.length = 1) :
      Reads (decodeValue conversions (some .double)) e.encode
        ((doubleOf conversions e).map .double) := by
    refine reads_attempt (fun bits hbits => reads_doubleOf hwf.root (hnumber (by simp [hbits]))
      hbits) (fun hnone => ?_) _
    rw [hnone] at h
    exact failsOn_readDouble conversions hwf.root (h.resolve_left (by simp))
      (integer?_eq_none_of_doubleOf hnone)
  have hskip (h : Skippable e) :
      Reads (decodeValue conversions none) e.encode none :=
    (reads_skipElement hwf h).attempt.map fun _ => none
  cases code? with
  | none => exact hskip h
  | some code =>
    cases code with
    | boolean =>
      refine reads_attempt (fun b => reads_boolOf) (fun hnone => ?_) _
      refine failsOn_readBool hwf.root (h.resolve_left (by simp [hnone])) ?_
      rintro b rfl
      cases hnone
    | double => exact hdouble (fun h => hnumber (by simpa [valueOf] using h)) h
    | float => exact hdouble (fun h => hnumber (by simpa [valueOf] using h)) h
    | int =>
      have hread : Reads (decodeValue conversions (some .int)) e.encode
          ((e.integer?.map Int64.ofInt).map fun n => .double (conversions.ofInteger n.toInt)) := by
        refine reads_attempt (fun n hn => ?_) (fun hnone => ?_)
          fun iv => iv.map fun (n : Int64) => .double (conversions.ofInteger n.toInt)
        · obtain ⟨n', hn', rfl⟩ := Option.map_eq_some_iff.mp hn
          exact reads_integer hwf.root hn'
        · have hnone := Option.map_eq_none_iff.mp hnone
          exact failsOn_readInt hwf.root (h.resolve_left (by simp [hnone])) hnone
      cases hn : e.integer? with
      | none => simpa [valueOf, hn] using hread
      | some n =>
        have hvalue := toInt_ofInt_integer hwf.root hn (hnumber (by simp [valueOf, hn]) n hn)
        simpa [valueOf, hn, hvalue] using hread
    | string =>
      refine reads_attempt (fun s => reads_readString hwf.root) (fun hnone => ?_) _
      exact failsOn_readString hwf.root (h.resolve_left (by simp [hnone])) hnone
    | stringArr =>
      refine reads_attempt (fun ss => reads_readStringArray hwf) (fun hnone => ?_) _
      exact failsOn_readStringArray_of_texts? hwf hnone (h.resolve_left (by simp [hnone]))
    | raw | booleanArr | doubleArr | intArr | floatArr => exact hskip h

/-! ## One message -/

/-- The three numbers in front of the value, and what the turn makes of them. -/
theorem reads_readMessage {m : Message} {sequence : UInt64}
    {result : UInt64 × Option TopicUpdate}
    (hvalue : Reads
      (if Int64.ofInt m.topicId.value = -1 then do
        let _ ← attempt skipElement
        skipExtra 4
        pure (sequence, none)
      else
        match topicsById (Int32.ofInt m.topicId.value) with
        | none => do
          let _ ← attempt skipElement
          skipExtra 4
          pure (sequence, none)
        | some topic => do
          let value? ← decodeValue conversions
            (NT4TypeCode.ofByte? (UInt8.ofInt m.typeCode.value))
          skipExtra 4
          pure (sequence + 1, value?.map (topic.update sequence)))
      m.value.encode result) :
    Reads (readMessage conversions topicsById sequence) m.encode result := by
  have hheader : m.header.Holds 4 := by
    cases m.header with
    | fix => exact (by decide : 4 < 16)
    | wide i => fin_cases i <;> decide
  have htimestamp : Reads readUInt m.timestamp.element.encode
      (Int64.ofInt m.timestamp.value).toUInt64 :=
    (reads_readInt m.timestamp.holds).map Int64.toUInt64
  have hbytes : m.encode = m.header.head 0x90 0xDC 4 ++ (m.topicId.element.encode ++
      (m.timestamp.element.encode ++ (m.typeCode.element.encode ++ m.value.encode))) := by
    rw [Message.encode, Element.encode_array]
    simp
  rw [hbytes]
  refine (reads_readArrayHeader hheader).bind ?_
  rw [if_neg (by omega)]
  refine (reads_readInt m.topicId.holds).bind (htimestamp.bind
    ((reads_readInt m.typeCode.holds).bind ?_))
  rw [Int64.toInt32_ofInt, typeCode_cast]
  exact hvalue

theorem reads_skipped {e : Element} (hwf : e.WellFormed) (h : Skippable e) (sequence : UInt64) :
    Reads (do
      let _ ← attempt skipElement
      skipExtra 4
      pure (sequence, (none : Option TopicUpdate))) e.encode (sequence, none) :=
  (reads_skipElement hwf h).attempt.map fun _ => (sequence, none)

/-- What a message says to a client that knows its id, from the type code as the cast leaves it. -/
theorem Message.Resyncs.update?_eq {m : Message} (h : m.Resyncs conversions topicsById)
    {topic : AnnouncedTopic} (htopic : announced topicsById m.topicId.value = some topic) :
    m.update? conversions topicsById =
      ((NT4TypeCode.ofByte? (UInt8.ofInt m.typeCode.value)).bind
        (valueOf conversions m.value)).map fun value =>
          (stripSmartDashboardPrefix topic.name, value) := by
  have hcode : (typeCodeOf m.typeCode.value).bind (valueOf conversions m.value) =
      (NT4TypeCode.ofByte? (UInt8.ofInt m.typeCode.value)).bind
        (valueOf conversions m.value) := by
    rw [typeCodeOf]
    split
    · rfl
    · next hrange =>
      have hnone := (h.code (by rw [htopic]; rfl)).resolve_left hrange
      exact (Option.bind_eq_none_iff.mpr hnone).symm
  rw [← hcode, Message.update?, htopic, Option.map_bind]
  cases typeCodeOf m.typeCode.value with
  | none => rfl
  | some code => cases hvalue : valueOf conversions m.value code <;> simp [hvalue]

theorem announced_eq_some {id : ℤ} {topic : AnnouncedTopic}
    (h : announced topicsById id = some topic) :
    (-2 ^ 31 ≤ id ∧ id < 2 ^ 31) ∧ topicsById (Int32.ofInt id) = some topic := by
  obtain ⟨hrange, htopic⟩ := Option.ite_none_right_eq_some.mp h
  simp only [Int32.toInt_minValue, Int32.toInt_maxValue] at hrange
  exact ⟨by omega, htopic⟩

/-- A message that resyncs is taken whole, and its update is delivered if it has one. -/
theorem reads_readMessage_of_resyncs {m : Message} (h : m.Resyncs conversions topicsById)
    (sequence : UInt64) :
    ∃ sequence' update?, Reads (readMessage conversions topicsById sequence) m.encode
        (sequence', update?) ∧
      (update?.map fun u => (u.topicPath, u.value)) = m.update? conversions topicsById := by
  cases htopic : announced topicsById m.topicId.value with
  | none =>
    have hskip := reads_skipped m.wellFormed (h.skipped htopic) sequence
    have hunknown : topicsById (Int32.ofInt m.topicId.value) = none := by
      by_contra hknown
      have := (h.id (Option.isSome_iff_ne_none.mpr hknown)).1
      rw [htopic] at this
      cases this
    refine ⟨sequence, none, reads_readMessage ?_, ?_⟩
    · split
      · exact hskip
      · rw [hunknown]
        exact hskip
    · rw [Message.update?, htopic]
      rfl
  | some topic =>
    obtain ⟨hrange, hknown⟩ := announced_eq_some htopic
    have hupdate := h.update?_eq htopic
    have hread := h.read (by rw [htopic]; rfl)
    set value? := (NT4TypeCode.ofByte? (UInt8.ofInt m.typeCode.value)).bind
      (valueOf conversions m.value) with hvalue?
    have hdecode := reads_decodeValue m.wellFormed
      (fun hsome => h.number (by simpa [hupdate] using hsome)) hread
    have hturn := hdecode.map fun value? => (sequence + 1, value?.map (topic.update sequence))
    have hid : Int64.ofInt m.topicId.value ≠ -1 := by
      intro heq
      have hint := congrArg Int64.toInt heq
      rw [Int64.toInt_ofInt_of_le (by omega) (by omega)] at hint
      exact (h.id (by rw [hknown]; rfl)).2 hint
    refine ⟨sequence + 1, value?.map (topic.update sequence), reads_readMessage ?_, ?_⟩
    · rw [if_neg hid, hknown]
      exact hturn
    · rw [hupdate, Option.map_map]
      rfl

/-! ## The loop -/

theorem length_encode_pos (m : Message) : 0 < m.encode.length :=
  Element.length_encode_pos _

theorem handleWithin_append {m : Message} {sequence sequence' : UInt64}
    {update? : Option TopicUpdate}
    (h : Reads (readMessage conversions topicsById sequence) m.encode (sequence', update?))
    (turns : ℕ) (rest : List UInt8) :
    (handleWithin conversions topicsById (turns + 1) sequence (m.encode ++ rest)).1 =
      update?.toList ++ (handleWithin conversions topicsById turns sequence' rest).1 := by
  have hpos := length_encode_pos m
  have hturn := h rest
  cases hbytes : m.encode ++ rest with
  | nil =>
    rw [List.append_eq_nil_iff] at hbytes
    rw [hbytes.1] at hpos
    cases hpos
  | cons b bytes =>
    rw [hbytes] at hturn
    rw [handleWithin, hturn]

theorem handleWithin_delivers {messages : List Message}
    (h : ∀ m ∈ messages, m.Resyncs conversions topicsById) (sequence : UInt64) {turns : ℕ}
    (hturns : (messages.flatMap Message.encode).length ≤ turns) :
    ((handleWithin conversions topicsById turns sequence
        (messages.flatMap Message.encode)).1.map fun u => (u.topicPath, u.value)) =
      messages.filterMap (Message.update? conversions topicsById) := by
  induction messages generalizing sequence turns with
  | nil => cases turns <;> rfl
  | cons m messages ih =>
    rw [List.forall_mem_cons] at h
    rw [List.flatMap_cons, List.length_append] at hturns
    have hpos := length_encode_pos m
    obtain ⟨turns, rfl⟩ : ∃ t, turns = t + 1 := ⟨turns - 1, by omega⟩
    obtain ⟨sequence', update?, hread, hupdate⟩ := reads_readMessage_of_resyncs h.1 sequence
    have hfit : (messages.flatMap Message.encode).length ≤ turns := by omega
    have hrest := ih h.2 sequence' hfit
    rw [List.flatMap_cons, handleWithin_append hread, List.map_append, hrest, List.filterMap_cons,
      ← hupdate]
    cases update? with
    | none => rfl
    | some u => rfl

/-- A frame of messages that all resync delivers exactly what they say, in order. -/
theorem handleBinaryMessage_delivers (impl : Impl) (messages : List Message)
    (h : ∀ m ∈ messages, m.Resyncs conversions impl.topicsById) :
    ((impl.handleBinaryMessage conversions (messages.flatMap Message.encode)).1.map fun u =>
        (u.topicPath, u.value)) =
      messages.filterMap (Message.update? conversions impl.topicsById) :=
  handleWithin_delivers h impl.sequence le_rfl

/-! ## Turns -/

theorem shrinks_skipExtra (arrayLen : ℕ) : Shrinks (skipExtra arrayLen) :=
  (shrinks_skipElement.attempt.times _).bind fun _ => shrinks_pure _

theorem shrinks_decodeValue (code? : Option NT4TypeCode) :
    Shrinks (decodeValue conversions code?) := by
  have hskip : Shrinks (decodeValue conversions none) :=
    shrinks_skipElement.attempt.bind fun _ => shrinks_pure _
  cases code? with
  | none => exact hskip
  | some code =>
    cases code with
    | boolean => exact shrinks_readBool.attempt.bind fun _ => shrinks_pure _
    | double | float => exact (shrinks_readDouble _).attempt.bind fun _ => shrinks_pure _
    | int => exact shrinks_readInt.attempt.bind fun _ => shrinks_pure _
    | string => exact shrinks_readString.attempt.bind fun _ => shrinks_pure _
    | stringArr => exact shrinks_readStringArray.attempt.bind fun _ => shrinks_pure _
    | raw | booleanArr | doubleArr | intArr | floatArr => exact hskip

/-- A turn takes at least the first byte of what remains. -/
theorem length_readMessage (sequence : UInt64) (b : UInt8) (bytes : List UInt8) :
    (readMessage conversions topicsById sequence (b :: bytes)).2.length ≤ bytes.length := by
  have hskip (arrayLen : ℕ) : Shrinks (do
      let _ ← attempt skipElement
      skipExtra arrayLen
      pure (sequence, (none : Option TopicUpdate))) :=
    shrinks_skipElement.attempt.bind fun _ =>
      (shrinks_skipExtra arrayLen).bind fun _ => shrinks_pure _
  have hhead := shrinks_readArrayHeader_tail b bytes
  rw [readMessage, bind_apply]
  cases hread : readArrayHeader (b :: bytes) with
  | mk arrayLen? rest =>
    rw [hread] at hhead
    cases arrayLen? with
    | none => exact hhead
    | some arrayLen =>
      refine le_trans ((?_ : Shrinks _) rest) hhead
      refine Shrinks.ite shrinks_fail (shrinks_readInt.bind fun topicId =>
        (shrinks_readInt.bind fun _ => shrinks_pure _).bind fun _ =>
          shrinks_readInt.bind fun typeCodeRaw => Shrinks.ite (hskip arrayLen) ?_)
      cases topicsById topicId.toInt32 with
      | none => exact hskip arrayLen
      | some topic =>
        exact (shrinks_decodeValue _).bind fun _ =>
          (shrinks_skipExtra arrayLen).bind fun _ => shrinks_pure _

/-- Once every byte that remains has its turn, more turns change nothing. -/
theorem handleWithin_add (turns more : ℕ) (bytes : List UInt8) (h : bytes.length ≤ turns)
    (sequence : UInt64) :
    handleWithin conversions topicsById (turns + more) sequence bytes =
      handleWithin conversions topicsById turns sequence bytes := by
  induction turns generalizing bytes sequence with
  | zero =>
    obtain rfl := List.eq_nil_of_length_eq_zero (Nat.le_zero.mp h)
    cases more <;> rfl
  | succ turns ih =>
    cases bytes with
    | nil =>
      rw [Nat.add_right_comm]
      rfl
    | cons b bytes =>
      have hlength : (readMessage conversions topicsById sequence (b :: bytes)).2.length ≤
          bytes.length := length_readMessage sequence b bytes
      rw [Nat.add_right_comm, handleWithin, handleWithin]
      cases hturn : readMessage conversions topicsById sequence (b :: bytes) with
      | mk result rest =>
        rw [hturn] at hlength
        cases result with
        | none => rfl
        | some result =>
          obtain ⟨sequence', update?⟩ := result
          simp only [ih rest (hlength.trans (Nat.le_of_succ_le_succ h)) sequence']

/-- A client that knows one topic. -/
def enabledOnly : Impl where
  topicsById id := if id = 1 then some ⟨App.text "/SmartDashboard/Enabled", by decide⟩ else none
  sequence := 0

/-- Conversions for frames without numbers. -/
def noNumbers : DoubleConversions where
  ofInteger _ := 0
  ofFloat _ := 0

/-- The message `[id, 0, code, value]` for small numbers. -/
def shortMessage (id code : ℕ) (hid : id < 128) (hcode : code < 128) (value : Element)
    (wellFormed : value.WellFormed) : Message where
  header := .fix
  topicId := ⟨.fixint, id, by constructor <;> omega⟩
  timestamp := ⟨.fixint, 0, by decide⟩
  typeCode := ⟨.fixint, code, by constructor <;> omega⟩
  value
  wellFormed

def enabledTrue : Message :=
  shortMessage 1 0 (by decide) (by decide) (.bool true) trivial

/-- A value of a topic that was not announced, as an array of two texts. -/
def unknownTexts : Message :=
  shortMessage 5 20 (by decide) (by decide)
    (.array .fix [.blob .fixstr [0x61], .blob .fixstr []]) (by
      simp only [Element.WellFormed, Element.All, Element.AllOf, Element.Fits]
      decide)

/-- A raw value of a topic that was not announced. -/
def unknownRaw : Message :=
  shortMessage 5 5 (by decide) (by decide) (.blob (.bin 0) [0xC0]) (by
    simp only [Element.WellFormed, Element.All, Element.Fits]
    decide)

theorem handleBinaryMessage_delivers_enabledTrue :
    ((enabledOnly.handleBinaryMessage noNumbers
        ([unknownTexts, enabledTrue].flatMap Message.encode)).1.map fun u =>
          (u.topicPath, u.value)) = [(App.text "Enabled", .bool true)] :=
  (handleBinaryMessage_delivers enabledOnly [unknownTexts, enabledTrue] (by
    rintro m hm
    rcases List.mem_pair.mp hm with rfl | rfl
    · refine ⟨by decide, fun _ => .inl (by decide), by decide, fun _ => ?_, fun h => ?_⟩
      · simp [unknownTexts, shortMessage, Skippable, Element.All, Element.AllOf, Known]
      · exact absurd h (by decide)
    · exact ⟨by decide, fun _ => .inl (by decide), fun _ n hn => (by cases hn),
        fun _ => trivial, fun _ => .inl rfl⟩)).trans (by decide)

/-- The raw value's first byte is all that is skipped of it, and the rest ends the frame. -/
theorem unknownRaw_hides_enabledTrue :
    ¬ ∀ (conversions : DoubleConversions) (impl : Impl) (messages : List Message),
      ((impl.handleBinaryMessage conversions (messages.flatMap Message.encode)).1.map fun u =>
          (u.topicPath, u.value)) =
        messages.filterMap (Message.update? conversions impl.topicsById) := by
  intro h
  have hframe := h noNumbers enabledOnly [unknownRaw, enabledTrue]
  revert hframe
  decide

end SmartDashboard.NT4
