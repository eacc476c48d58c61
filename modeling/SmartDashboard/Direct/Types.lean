import Mathlib.Data.List.Basic

/-!
# Direct transport vocabulary

The updates that travel over the shared-memory ring and the ring itself as both endpoints see it
once attached. A `std::string` is its bytes and a `double` is its bit pattern.
-/

namespace SmartDashboard.Direct

abbrev ByteString := List UInt8

instance : LawfulBEq ByteString := List.instLawfulBEq

/-- The bit pattern of a C++ `double`. -/
abbrev DoubleBits := UInt64

inductive ValueType
  | bool
  | double
  | string
  | stringArray
  deriving DecidableEq, Repr

/-- One field for each value type; an update uses the field of its own type. -/
structure VariableValue where
  boolValue : Bool := false
  doubleValue : DoubleBits := 0
  stringValue : ByteString := []
  stringArrayValue : List ByteString := []
  deriving DecidableEq, Repr

/-- What a publisher writes and what a subscriber is handed. -/
structure VariableUpdate where
  key : ByteString
  type : ValueType
  value : VariableValue
  seq : UInt64
  sourceTimestampUs : UInt64
  deriving DecidableEq, Repr

/-- The fields of `wire::RingHeader` that the endpoints share after `AttachRing`. -/
structure RingHeader where
  writeIndex : UInt32 := 0
  publishedSeq : UInt64 := 0
  droppedCount : UInt64 := 0
  lastProducerHeartbeatUs : UInt64 := 0
  lastConsumerHeartbeatUs : UInt64 := 0
  consumerInstanceId : UInt64 := 0
  consumerReadIndex : UInt32 := 0
  deriving DecidableEq, Repr

/-- An attached ring: its capacity, its header and its payload bytes by address. -/
structure Ring where
  capacity : UInt32
  header : RingHeader
  payload : ℕ → UInt8

/-- `wire::MessageHeader`, the fixed start of every frame. -/
structure MessageHeader where
  messageBytes : UInt16
  messageType : UInt8
  valueType : UInt8
  seq : UInt64
  sourceTimestampUs : UInt64
  keyLen : UInt16
  valueLen : UInt16
  deriving DecidableEq, Repr

def kKeyMax : ℕ := 128

def kStringMax : ℕ := 256

def kStringArrayMaxCount : ℕ := 32

/-- `sizeof(wire::MessageHeader)`: 28 bytes of fields, padded to the alignment of 8. -/
def messageHeaderSize : ℕ := 32

/-- `wire::MsgType::Upsert`. -/
def msgTypeUpsert : UInt8 := 1

end SmartDashboard.Direct
