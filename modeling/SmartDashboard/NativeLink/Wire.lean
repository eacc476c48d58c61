import Mathlib.Data.List.TakeDrop
import Mathlib.Data.List.TakeWhile
import Mathlib.Data.UInt
import SmartDashboard.Library.LengthPrefixed
import SmartDashboard.NativeLink.Types

/-!
# Native Link messages

The fixed-size message both carriers send, how a write or an envelope is put into one and how the
other side reads it. Paths, client ids and payloads are cut to the room a message has for them, so
a value arrives as it was sent exactly if it fits.

## Main definitions

- `ByteBlock`: a byte array of fixed size
- `SharedMessage`: what travels over both carriers
- `serializeValue`, `deserializeValue`: the payload of a value, and back
- `clientMessage`, `receiveWrite`: a client's write, and what the authority decodes of it
- `serverMessage`, `messageToEnvelope`: an envelope, and what a client decodes of it
- `FitsMessage`: the paths and values a message has room for
-/

namespace SmartDashboard.NativeLink

open LittleEndian

/-- A byte array of `n` elements. -/
abbrev ByteBlock (n : ℕ) := { bytes : ByteString // bytes.length = n }

namespace ByteBlock

variable {n : ℕ}

/-- The array filled with zeros. -/
def zero (n : ℕ) : ByteBlock n := ⟨List.replicate n 0, List.length_replicate⟩

/-- `memcpy` to the start of the array. -/
def write (block : ByteBlock n) (bytes : ByteString) : ByteBlock n :=
  ⟨bytes.take n ++ block.1.drop bytes.length, by
    rw [List.length_append, List.length_take, List.length_drop, block.2]
    omega⟩

theorem coe_write (block : ByteBlock n) {bytes : ByteString} (h : bytes.length ≤ n) :
    (block.write bytes).1 = bytes ++ block.1.drop bytes.length :=
  congrArg (· ++ block.1.drop bytes.length) (List.take_of_length_le h)

theorem take_write (block : ByteBlock n) {bytes : ByteString} (h : bytes.length ≤ n) :
    (block.write bytes).1.take bytes.length = bytes := by
  rw [coe_write block h, List.take_left]

end ByteBlock

def kMaxPayloadBytes : ℕ := 1024

def topicPathBytes : ℕ := 192

def clientIdBytes : ℕ := 64

def copyUtf8 {n : ℕ} (dest : ByteBlock n) (value : ByteString) : ByteBlock n :=
  if n = 0 then dest
  else
    let copyCount := min (n - 1) value.length
    dest.write (value.take copyCount ++ [0])

def readUtf8 {n : ℕ} (src : ByteBlock n) : ByteString :=
  src.1.takeWhile fun b => b ≠ 0

/-- What is left of a text in an array of `n` bytes: it is cut in front of its first NUL, or where
the array has to end with one. -/
def clipUtf8 (n : ℕ) (value : ByteString) : ByteString :=
  (value.take (n - 1)).takeWhile fun b => b ≠ 0

def ValueType.toNumber : ValueType → UInt32
  | .bool => 0
  | .double => 1
  | .string => 2
  | .stringArray => 3

/-- The enumerator of a number; the other numbers are matched by no branch of the decoder. -/
def ValueType.ofNumber : UInt32 → Option ValueType
  | 0 => some .bool
  | 1 => some .double
  | 2 => some .string
  | 3 => some .stringArray
  | _ => none

def DeliveryKind.toNumber : DeliveryKind → UInt32
  | .snapshotState => 0
  | .liveState => 1
  | .liveCommand => 2
  | .liveCommandAck => 3
  | .liveCommandReject => 4
  | .liveEvent => 5

/-- The enumerator of a number. No sender writes a number above 5. -/
def DeliveryKind.ofNumber : UInt32 → DeliveryKind
  | 0 => .snapshotState
  | 1 => .liveState
  | 2 => .liveCommand
  | 3 => .liveCommandAck
  | 4 => .liveCommandReject
  | _ => .liveEvent

structure SharedMessage where
  size : UInt32 := 0
  topicId : UInt32 := 0
  deliveryKind : UInt32 := 0
  valueType : UInt32 := 0
  serverSessionId : UInt64 := 0
  serverSequence : UInt64 := 0
  flags : UInt64 := 0
  topicPath : ByteBlock topicPathBytes := ByteBlock.zero topicPathBytes
  sourceClientId : ByteBlock clientIdBytes := ByteBlock.zero clientIdBytes
  payload : ByteBlock kMaxPayloadBytes := ByteBlock.zero kMaxPayloadBytes
  deriving DecidableEq

/-- `sizeof(SharedMessage)`: the fields in order, without padding. -/
def sharedMessageSize : UInt32 :=
  UInt32.ofNat (4 * 4 + 3 * 8 + topicPathBytes + clientIdBytes + kMaxPayloadBytes)

def serializeValue (value : TopicValue) : ByteString :=
  match value.type with
  | .bool => [if value.boolValue then 1 else 0]
  | .double => leBytes 8 value.doubleValue.toNat
  | .string => value.stringValue
  | .stringArray => LengthPrefixed.encode 4 value.stringArrayValue

/-- A text in an array stands behind its length, which takes four bytes. -/
scoped instance textLengthBytes : NeZero 4 := ⟨by decide⟩

/-- The flag is the result of `DeserializeValue`, the value what it leaves in `outValue`. A number
that is no type falls through the switch; what `outValue` is then stands for nothing. -/
def deserializeValue (type : Option ValueType) (bytes : ByteString) : Bool × TopicValue :=
  match type with
  | none => (false, {})
  | some .bool =>
    match bytes with
    | [] => (false, { type := .bool })
    | b :: _ => (true, { type := .bool, boolValue := b != 0 })
  | some .double =>
    if bytes.length < 8 then (false, { type := .double })
    else (true, { type := .double, doubleValue := UInt64.ofNat (leValue (bytes.take 8)) })
  | some .string => (true, { type := .string, stringValue := bytes })
  | some .stringArray =>
    let (complete, items) := LengthPrefixed.decode 4 [] bytes
    (complete, { type := .stringArray, stringArrayValue := items })

namespace SharedMessage

/-- The bytes both decoders read: the payload as far as `flags` says. -/
def payloadBytes (message : SharedMessage) : ByteString :=
  message.payload.1.take message.flags.toNat

/-- The part that `Publish`, `SendEnvelopeLocked` and `PublishEnvelopeToClientSlotLocked` have in
common: copy the texts and as much of the value as there is room for. -/
def put (message : SharedMessage) (topicPath sourceClientId : ByteString) (value : TopicValue) :
    SharedMessage :=
  let payload := serializeValue value
  let payloadBytes := min payload.length kMaxPayloadBytes
  { message with
    size := sharedMessageSize
    valueType := value.type.toNumber
    topicPath := copyUtf8 message.topicPath topicPath
    sourceClientId := copyUtf8 message.sourceClientId sourceClientId
    payload := message.payload.write (payload.take payloadBytes)
    flags := UInt64.ofNat payloadBytes }

end SharedMessage

/-- The message `Publish` builds, over TCP as in shared memory. -/
def clientMessage (clientId topicPath : ByteString) (value : TopicValue) : SharedMessage :=
  SharedMessage.put {} topicPath clientId value

/-- `NativeLinkTcpClient::Publish`: its result and the message it hands to `SendFrame`, which
returns whether the socket took it. -/
def tcpPublish (connected socketOpen : Bool) (sendFrame : SharedMessage → Bool)
    (clientId topicPath : ByteString) (value : TopicValue) : Bool × Option SharedMessage :=
  if connected = false ∨ socketOpen = false then (false, none)
  else
    let message := clientMessage clientId topicPath value
    (sendFrame message, some message)

/-- The path and the value `HandleClientWriteLocked` gets from a message; `none` if it returns at
once. -/
def receiveWrite (message : SharedMessage) : Option (ByteString × TopicValue) :=
  let (decoded, value) :=
    deserializeValue (ValueType.ofNumber message.valueType) message.payloadBytes
  if decoded then some (readUtf8 message.topicPath, value) else none

/-- The message the authority builds from an envelope. -/
def serverMessage (envelope : UpdateEnvelope) : SharedMessage :=
  SharedMessage.put
    { topicId := envelope.topicId.toUInt32
      deliveryKind := envelope.deliveryKind.toNumber
      serverSessionId := envelope.serverSessionId
      serverSequence := envelope.serverSequence }
    envelope.topicPath envelope.sourceClientId envelope.value

def messageToEnvelope (message : SharedMessage) : UpdateEnvelope :=
  { serverSessionId := message.serverSessionId
    serverSequence := message.serverSequence
    topicId := message.topicId.toUInt64
    topicPath := readUtf8 message.topicPath
    sourceClientId := readUtf8 message.sourceClientId
    deliveryKind := DeliveryKind.ofNumber message.deliveryKind
    rejectionReason := .none
    -- the result of the decoder is not looked at
    value :=
      (deserializeValue (ValueType.ofNumber message.valueType) message.payloadBytes).2 }

/-! ### Texts -/

section Text

variable {n : ℕ}

theorem readUtf8_copyUtf8 (hn : 0 < n) (dest : ByteBlock n) (value : ByteString) :
    readUtf8 (copyUtf8 dest value) = clipUtf8 n value := by
  have htake : value.take (min (n - 1) value.length) = value.take (n - 1) := by
    rw [List.take_eq_take_iff]
    omega
  have hlen : (value.take (n - 1) ++ [0]).length ≤ n := by
    rw [List.length_append, List.length_take, List.length_singleton]
    omega
  simp only [copyUtf8, if_neg (Nat.ne_of_gt hn), htake]
  rw [readUtf8, ByteBlock.coe_write dest hlen, List.append_assoc, clipUtf8]
  -- the terminator ends what is read, whatever the array held behind it
  generalize dest.1.drop (value.take (n - 1) ++ [0]).length = rest
  induction value.take (n - 1) with
  | nil => simp
  | cons b text ih =>
    simp only [List.cons_append, List.takeWhile_cons] at ih ⊢
    split_ifs
    · rw [ih]
    · rfl

/-- A text survives its array exactly if it is shorter than the array and has no NUL. -/
theorem clipUtf8_eq_self_iff (hn : 0 < n) {value : ByteString} :
    clipUtf8 n value = value ↔ value.length < n ∧ 0 ∉ value := by
  constructor
  · intro hsame
    have hlen := congrArg List.length hsame
    have hclip : (clipUtf8 n value).length ≤ (value.take (n - 1)).length :=
      (List.takeWhile_prefix _).length_le
    rw [List.length_take] at hclip
    refine ⟨by omega, fun hzero => ?_⟩
    rw [← hsame, clipUtf8] at hzero
    simpa using List.mem_takeWhile_imp hzero
  · rintro ⟨hlen, hzero⟩
    rw [clipUtf8, List.take_of_length_le (by omega), List.takeWhile_eq_self_iff]
    intro b hb
    simpa using fun hb0 : b = 0 => hzero (hb0 ▸ hb)

end Text

@[simp] theorem ValueType.ofNumber_toNumber (type : ValueType) :
    ValueType.ofNumber type.toNumber = some type := by
  cases type <;> rfl

@[simp] theorem DeliveryKind.ofNumber_toNumber (kind : DeliveryKind) :
    DeliveryKind.ofNumber kind.toNumber = kind := by
  cases kind <;> rfl

/-! ### Values -/

namespace TopicValue

/-- The value is as its factory function builds it: only the field of its type is set. -/
def IsNormal (value : TopicValue) : Prop :=
  match value.type with
  | .bool => value = ofBool value.boolValue
  | .double => value = ofDouble value.doubleValue
  | .string => value = ofString value.stringValue
  | .stringArray => value = ofStringArray value.stringArrayValue

instance (value : TopicValue) : Decidable value.IsNormal := by
  unfold IsNormal
  split <;> infer_instance

/-- What an encoding keeps of a value: the field of its type, the others as by default. -/
def normal (value : TopicValue) : TopicValue :=
  match value.type with
  | .bool => ofBool value.boolValue
  | .double => ofDouble value.doubleValue
  | .string => ofString value.stringValue
  | .stringArray => ofStringArray value.stringArrayValue

/-- No item of an array is too long for the number in front of it. -/
def ItemsFit (value : TopicValue) : Prop :=
  value.type = .stringArray → ∀ item ∈ value.stringArrayValue, item.length < 2 ^ 32

theorem IsNormal.normal_eq {value : TopicValue} (h : value.IsNormal) : value.normal = value := by
  unfold IsNormal at h
  unfold normal
  split at h <;> exact h.symm

end TopicValue

/-- A value is decoded to what its encoding keeps of it. -/
theorem deserializeValue_serializeValue {value : TopicValue} (hfit : value.ItemsFit) :
    deserializeValue (some value.type) (serializeValue value) = (true, value.normal) := by
  obtain ⟨type, b, d, s, items⟩ := value
  cases type with
  | bool => cases b <;> rfl
  | double =>
    have hbits : leValue (leBytes 8 d.toNat) = d.toNat :=
      leValue_leBytes_of_lt (by simpa using d.toNat_lt)
    simp [deserializeValue, serializeValue, TopicValue.normal, TopicValue.ofDouble,
      List.take_of_length_le, hbits]
  | string => rfl
  | stringArray =>
    have hfit : ∀ item ∈ items, item.length < 256 ^ 4 := hfit rfl
    simp [deserializeValue, serializeValue, TopicValue.normal, TopicValue.ofStringArray,
      LengthPrefixed.decode_encode hfit]

/-- The payload arrives as far as there is room for it. -/
theorem payloadBytes_put (message : SharedMessage) (topicPath clientId : ByteString)
    (value : TopicValue) :
    (message.put topicPath clientId value).payloadBytes =
      (serializeValue value).take kMaxPayloadBytes := by
  have htake : (serializeValue value).take (min (serializeValue value).length kMaxPayloadBytes) =
      (serializeValue value).take kMaxPayloadBytes := by
    rw [List.take_eq_take_iff]
    omega
  have hflags : (UInt64.ofNat (min (serializeValue value).length kMaxPayloadBytes)).toNat =
      ((serializeValue value).take kMaxPayloadBytes).length := by
    have hroom : min (serializeValue value).length kMaxPayloadBytes ≤ 1024 := Nat.min_le_right ..
    rw [UInt64.toNat_ofNat', Nat.mod_eq_of_lt (by omega), List.length_take, Nat.min_comm]
  simp only [SharedMessage.put, SharedMessage.payloadBytes, htake, hflags]
  exact ByteBlock.take_write _ (List.length_take_le ..)

/-- A payload that has room is decoded to what was encoded, as far as it was encoded. -/
theorem deserializeValue_of_fits {value : TopicValue}
    (hroom : (serializeValue value).length ≤ kMaxPayloadBytes) (hnormal : value.IsNormal) :
    deserializeValue (some value.type) ((serializeValue value).take kMaxPayloadBytes) =
      (true, value) := by
  have hfit : value.ItemsFit := by
    intro htype item hitem
    have hlen := LengthPrefixed.length_le_length_encode 4 hitem
    have hroom : (serializeValue value).length ≤ 1024 := hroom
    simp only [serializeValue, htype] at hroom
    omega
  rw [List.take_of_length_le hroom, deserializeValue_serializeValue hfit, hnormal.normal_eq]

/-- What the decoder leaves behind is the value exactly if the payload had room and the value is
normal, whether or not the decoder reports success. -/
theorem deserializeValue_eq_iff (value : TopicValue) :
    (deserializeValue (some value.type) ((serializeValue value).take kMaxPayloadBytes)).2 = value ↔
      (serializeValue value).length ≤ kMaxPayloadBytes ∧ value.IsNormal := by
  constructor
  · intro hsame
    obtain ⟨type, b, d, s, items⟩ := value
    cases type with
    | bool =>
      refine ⟨Nat.le_add_left 1 1023, ?_⟩
      rw [← hsame]
      rfl
    | double =>
      have hlen : (leBytes 8 d.toNat).length = 8 := length_leBytes ..
      refine ⟨by simp [serializeValue, kMaxPayloadBytes], ?_⟩
      rw [← hsame]
      simp [deserializeValue, serializeValue, kMaxPayloadBytes, TopicValue.IsNormal,
        TopicValue.ofDouble]
    | string =>
      have hstring : s.take kMaxPayloadBytes = s := congrArg TopicValue.stringValue hsame
      refine ⟨(List.take_eq_self_iff s).mp hstring, ?_⟩
      rw [← hsame]
      rfl
    | stringArray =>
      refine ⟨?_, ?_⟩
      · -- the items read take no more room than the payload has
        obtain ⟨read, hread, hlen⟩ := LengthPrefixed.decode_fits 4 []
          ((LengthPrefixed.encode 4 items).take kMaxPayloadBytes)
        have hitems : (LengthPrefixed.decode 4 []
            ((LengthPrefixed.encode 4 items).take kMaxPayloadBytes)).2 = items :=
          congrArg TopicValue.stringArrayValue hsame
        rw [hitems, List.nil_append] at hread
        rw [← hread] at hlen
        exact hlen.trans (List.length_take_le ..)
      · rw [← hsame]
        rfl
  · rintro ⟨hroom, hnormal⟩
    rw [deserializeValue_of_fits hroom hnormal]

/-! ### Writes and envelopes in transit -/

/-- The paths and values a message has room for. -/
def FitsMessage (topicPath : ByteString) (value : TopicValue) : Prop :=
  (topicPath.length < topicPathBytes ∧ 0 ∉ topicPath) ∧
    (serializeValue value).length ≤ kMaxPayloadBytes ∧ value.IsNormal

instance (topicPath : ByteString) (value : TopicValue) : Decidable (FitsMessage topicPath value) :=
  inferInstanceAs (Decidable (_ ∧ _))

/-- Whenever a client's `Publish(topicPath, value)` returns `true`, the authority decodes exactly
that path and that value. -/
def KeepsPublish (topicPath : ByteString) (value : TopicValue) : Prop :=
  ∀ connected socketOpen sendFrame clientId,
    (tcpPublish connected socketOpen sendFrame clientId topicPath value).1 = true →
      ∃ message, (tcpPublish connected socketOpen sendFrame clientId topicPath value).2 =
        some message ∧ receiveWrite message = some (topicPath, value)

/-- A client decodes the path and the value of the envelope. -/
def KeepsEnvelope (envelope : UpdateEnvelope) : Prop :=
  (messageToEnvelope (serverMessage envelope)).topicPath = envelope.topicPath ∧
    (messageToEnvelope (serverMessage envelope)).value = envelope.value

section Transit

variable {topicPath : ByteString} {value : TopicValue}

theorem readUtf8_topicPath_put (topicPath clientId : ByteString) (value : TopicValue)
    (message : SharedMessage) :
    readUtf8 (message.put topicPath clientId value).topicPath = clipUtf8 topicPathBytes topicPath :=
  readUtf8_copyUtf8 (by decide) _ _

theorem receiveWrite_clientMessage_iff (clientId : ByteString) :
    receiveWrite (clientMessage clientId topicPath value) = some (topicPath, value) ↔
      FitsMessage topicPath value := by
  have hpath := readUtf8_topicPath_put topicPath clientId value {}
  have hpayload := payloadBytes_put {} topicPath clientId value
  have htype : ValueType.ofNumber (clientMessage clientId topicPath value).valueType =
      some value.type := ValueType.ofNumber_toNumber _
  simp only [receiveWrite, htype]
  rw [clientMessage, hpayload, hpath]
  constructor
  · intro h
    split_ifs at h
    simp only [Option.some.injEq, Prod.mk.injEq] at h
    exact ⟨(clipUtf8_eq_self_iff (by decide)).mp h.1, (deserializeValue_eq_iff value).mp h.2⟩
  · rintro ⟨hfits, hroom, hnormal⟩
    rw [deserializeValue_of_fits hroom hnormal, (clipUtf8_eq_self_iff (by decide)).mpr hfits]
    rfl

/-- A write is kept exactly if a message has room for it. -/
theorem keepsPublish_iff : KeepsPublish topicPath value ↔ FitsMessage topicPath value := by
  constructor
  · intro hkeeps
    obtain ⟨message, hmessage, hreceived⟩ := hkeeps true true (fun _ => true) [] rfl
    obtain rfl : clientMessage [] topicPath value = message := Option.some.inj hmessage
    exact (receiveWrite_clientMessage_iff []).mp hreceived
  · intro hfits connected socketOpen sendFrame clientId hsent
    simp only [tcpPublish] at hsent ⊢
    split_ifs at hsent ⊢
    exact ⟨_, rfl, (receiveWrite_clientMessage_iff clientId).mpr hfits⟩

theorem keepsEnvelope_iff (envelope : UpdateEnvelope) :
    KeepsEnvelope envelope ↔ FitsMessage envelope.topicPath envelope.value := by
  have hpath : (messageToEnvelope (serverMessage envelope)).topicPath =
      clipUtf8 topicPathBytes envelope.topicPath := readUtf8_topicPath_put ..
  have hvalue : (messageToEnvelope (serverMessage envelope)).value =
      (deserializeValue (some envelope.value.type)
        ((serializeValue envelope.value).take kMaxPayloadBytes)).2 := by
    simp only [messageToEnvelope, serverMessage, payloadBytes_put]
    exact congrArg (fun type => (deserializeValue type _).2) (ValueType.ofNumber_toNumber _)
  rw [KeepsEnvelope, hpath, hvalue, clipUtf8_eq_self_iff (by decide), deserializeValue_eq_iff]
  rfl

/-- What an envelope keeps whatever its texts and its value: session, sequence and delivery kind.
The topic id keeps its lower half, the client id what its array has room for. -/
theorem messageToEnvelope_serverMessage (envelope : UpdateEnvelope) :
    (messageToEnvelope (serverMessage envelope)).serverSessionId = envelope.serverSessionId ∧
      (messageToEnvelope (serverMessage envelope)).serverSequence = envelope.serverSequence ∧
      (messageToEnvelope (serverMessage envelope)).deliveryKind = envelope.deliveryKind ∧
      (messageToEnvelope (serverMessage envelope)).topicId = envelope.topicId % 2 ^ 32 ∧
      (messageToEnvelope (serverMessage envelope)).sourceClientId =
        clipUtf8 clientIdBytes envelope.sourceClientId := by
  refine ⟨rfl, rfl, DeliveryKind.ofNumber_toNumber _, ?_, readUtf8_copyUtf8 (by decide) _ _⟩
  apply UInt64.toNat_inj.mp
  rw [UInt64.toNat_mod]
  simp [messageToEnvelope, serverMessage, SharedMessage.put]
  rfl

end Transit

/-- A path and a value are kept in transit, from a client's `Publish` to the authority as from the
authority to a client, exactly if the path is shorter than its array and has no NUL, the payload
has room and the value is normal. -/
theorem transit_iff (topicPath : ByteString) (value : TopicValue) (envelope : UpdateEnvelope) :
    (KeepsPublish topicPath value ↔ FitsMessage topicPath value) ∧
      (KeepsEnvelope envelope ↔ FitsMessage envelope.topicPath envelope.value) :=
  ⟨keepsPublish_iff, keepsEnvelope_iff envelope⟩

/-- A log line one byte longer than a payload. -/
def longLine : TopicValue := .ofString (List.replicate 1025 120)

/-- `Publish` returns `true` for the long line, and the authority decodes a shorter one. -/
theorem long_line_is_cut : ¬ ∀ topicPath value, KeepsPublish topicPath value := by
  intro hkeeps
  have hfits := keepsPublish_iff.mp (hkeeps (ascii ['L', 'o', 'g']) longLine)
  have hlen : (serializeValue longLine).length = 1025 := List.length_replicate
  have hroom := hfits.2.1
  rw [hlen] at hroom
  exact absurd hroom (by decide)

end SmartDashboard.NativeLink
