import Mathlib.Data.List.Basic

/-!
# Native Link vocabulary

The data of the Native Link authority: topic descriptors, values, update envelopes and snapshot
events. A `std::string` is its bytes, a `double` is its bit pattern, and a
`steady_clock::time_point` is its count of nanoseconds.
-/

namespace SmartDashboard.NativeLink

abbrev ByteString := List UInt8

/-- The bit pattern of a C++ `double`. -/
abbrev DoubleBits := UInt64

/-- Nanoseconds of `std::chrono::steady_clock`. -/
abbrev TimePoint := Int

/-- The bytes of a text made of ASCII characters. -/
def ascii (text : List Char) : ByteString :=
  text.map fun ch => UInt8.ofNat ch.toNat

inductive TopicKind
  | state
  | command
  | event
  deriving DecidableEq, Repr

inductive ValueType
  | bool
  | double
  | string
  | stringArray
  deriving DecidableEq, Repr

inductive RetentionMode
  | none
  | latestValue
  deriving DecidableEq, Repr

inductive WriterPolicy
  | serverOnly
  | leaseSingleWriter
  deriving DecidableEq, Repr

inductive DeliveryKind
  | snapshotState
  | liveState
  | liveCommand
  | liveCommandAck
  | liveCommandReject
  | liveEvent
  deriving DecidableEq, Repr

inductive FreshnessReason
  | live
  | ttlExpired
  deriving DecidableEq, Repr

inductive SnapshotEventKind
  | descriptorSnapshotBegin
  | descriptor
  | descriptorSnapshotEnd
  | stateSnapshotBegin
  | update
  | stateSnapshotEnd
  | liveBegin
  deriving DecidableEq, Repr

inductive WriteRejectReason
  | none
  | unknownTopic
  | wrongType
  | readOnly
  | leaseRequired
  | leaseNotHolder
  | policyViolation
  deriving DecidableEq, Repr

structure TopicValue where
  type : ValueType := .bool
  boolValue : Bool := false
  doubleValue : DoubleBits := 0
  stringValue : ByteString := []
  stringArrayValue : List ByteString := []
  deriving DecidableEq, Repr

namespace TopicValue

/-- `TopicValue::Bool`. -/
def ofBool (value : Bool) : TopicValue := { type := .bool, boolValue := value }

/-- `TopicValue::Double`. -/
def ofDouble (value : DoubleBits) : TopicValue := { type := .double, doubleValue := value }

/-- `TopicValue::String`. -/
def ofString (value : ByteString) : TopicValue := { type := .string, stringValue := value }

/-- `TopicValue::StringArray`. -/
def ofStringArray (value : List ByteString) : TopicValue :=
  { type := .stringArray, stringArrayValue := value }

end TopicValue

structure TopicDescriptor where
  topicPath : ByteString := []
  topicKind : TopicKind := .state
  valueType : ValueType := .bool
  schemaName : ByteString := []
  schemaVersion : Int32 := 1
  retentionMode : RetentionMode := .none
  replayOnSubscribe : Bool := false
  ttlMs : Int32 := 0
  writerPolicy : WriterPolicy := .serverOnly
  description : ByteString := []
  deriving DecidableEq, Repr

structure UpdateEnvelope where
  serverSessionId : UInt64 := 0
  serverSequence : UInt64 := 0
  topicId : UInt64 := 0
  topicPath : ByteString := []
  sourceClientId : ByteString := []
  deliveryKind : DeliveryKind := .liveState
  value : TopicValue := {}
  ttlMs : Int32 := 0
  ageMsAtEmit : Int32 := 0
  isStale : Bool := false
  freshnessReason : FreshnessReason := .live
  rejectionReason : WriteRejectReason := .none
  deriving DecidableEq, Repr

structure SnapshotEvent where
  kind : SnapshotEventKind := .descriptorSnapshotBegin
  hasDescriptor : Bool := false
  descriptor : TopicDescriptor := {}
  hasUpdate : Bool := false
  update : UpdateEnvelope := {}
  deriving DecidableEq, Repr

structure RegisterTopicResult where
  ok : Bool := false
  message : String := ""
  topicId : UInt64 := 0
  deriving DecidableEq, Repr

structure WriteResult where
  accepted : Bool := false
  rejectionReason : WriteRejectReason := .none
  serverSequence : UInt64 := 0
  deriving DecidableEq, Repr

structure ClientSessionView where
  snapshotEvents : List SnapshotEvent := []
  deriving DecidableEq, Repr

structure TopicLeaseInfo where
  hasLeaseHolder : Bool := false
  leaseHolderClientId : ByteString := []
  deriving DecidableEq, Repr

/-- A registered topic. An empty `leaseHolderClientId` says that nobody holds the lease. -/
structure TopicRuntime where
  descriptor : TopicDescriptor := {}
  topicId : UInt64 := 0
  hasLatestValue : Bool := false
  latestValue : TopicValue := {}
  latestSourceClientId : ByteString := []
  latestValueTime : TimePoint := 0
  leaseHolderClientId : ByteString := []
  deriving DecidableEq, Repr

/-- A connected client and the events it has not drained yet, oldest first. -/
structure ClientRuntime where
  clientId : ByteString := []
  pendingEvents : List UpdateEnvelope := []
  deriving DecidableEq, Repr

end SmartDashboard.NativeLink
