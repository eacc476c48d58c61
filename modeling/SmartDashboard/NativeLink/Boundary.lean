import SmartDashboard.NativeLink.Wire

/-!
# Boundary markers

The five messages that separate the parts of a snapshot. The authority gives them topic ids of
their own, a client knows them by their paths.
-/

namespace SmartDashboard.NativeLink

def kSnapshotStartTopicId : UInt32 := 0xFFFFFFF0

def kSnapshotEndTopicId : UInt32 := 0xFFFFFFF1

def kLiveBeginTopicId : UInt32 := 0xFFFFFFF2

def isSentinelTopic (topicId : UInt32) : Bool :=
  topicId = kSnapshotStartTopicId || topicId = kSnapshotEndTopicId || topicId = kLiveBeginTopicId

/-- `__snapshot_begin__` -/
def snapshotBeginPath : ByteString :=
  ascii ['_', '_', 's', 'n', 'a', 'p', 's', 'h', 'o', 't', '_', 'b', 'e', 'g', 'i', 'n', '_', '_']

/-- `__descriptor_end__` -/
def descriptorEndPath : ByteString :=
  ascii ['_', '_', 'd', 'e', 's', 'c', 'r', 'i', 'p', 't', 'o', 'r', '_', 'e', 'n', 'd', '_', '_']

/-- `__state_begin__` -/
def stateBeginPath : ByteString :=
  ascii ['_', '_', 's', 't', 'a', 't', 'e', '_', 'b', 'e', 'g', 'i', 'n', '_', '_']

/-- `__state_end__` -/
def stateEndPath : ByteString :=
  ascii ['_', '_', 's', 't', 'a', 't', 'e', '_', 'e', 'n', 'd', '_', '_']

/-- `__live_begin__` -/
def liveBeginPath : ByteString :=
  ascii ['_', '_', 'l', 'i', 'v', 'e', '_', 'b', 'e', 'g', 'i', 'n', '_', '_']

inductive SnapshotPhase
  | descriptors
  | stateSnapshot
  | live
  deriving DecidableEq, Repr

inductive Boundary
  | snapshotBegin
  | descriptorEnd
  | stateBegin
  | stateEnd
  | liveBegin
  deriving DecidableEq, Repr

/-- The comparisons both clients make with the path of a message. -/
def readBoundary (topicPath : ByteString) : Option Boundary :=
  if topicPath = snapshotBeginPath then some .snapshotBegin
  else if topicPath = descriptorEndPath then some .descriptorEnd
  else if topicPath = stateBeginPath then some .stateBegin
  else if topicPath = stateEndPath then some .stateEnd
  else if topicPath = liveBeginPath then some .liveBegin
  else none

/-- The envelope that both carriers build for one event of a snapshot. -/
def snapshotEnvelope (serverSessionId : UInt64) (event : SnapshotEvent) : UpdateEnvelope :=
  if event.kind = .update ∧ event.hasUpdate then event.update
  else
    let envelope : UpdateEnvelope :=
      { serverSessionId := serverSessionId
        sourceClientId := ascii ['s', 'e', 'r', 'v', 'e', 'r']
        value := .ofString []
        deliveryKind := .liveEvent }
    match event.kind with
    | .descriptorSnapshotBegin =>
      { envelope with
        topicId := kSnapshotStartTopicId.toUInt64, topicPath := snapshotBeginPath }
    | .descriptorSnapshotEnd =>
      { envelope with topicId := kSnapshotEndTopicId.toUInt64, topicPath := descriptorEndPath }
    | .stateSnapshotBegin =>
      { envelope with topicId := kSnapshotStartTopicId.toUInt64, topicPath := stateBeginPath }
    | .stateSnapshotEnd =>
      { envelope with topicId := kSnapshotEndTopicId.toUInt64, topicPath := stateEndPath }
    | .liveBegin =>
      { envelope with topicId := kLiveBeginTopicId.toUInt64, topicPath := liveBeginPath }
    | .descriptor =>
      { envelope with
        topicPath := event.descriptor.topicPath
        value := .ofString event.descriptor.topicPath }
    | .update => envelope

/-! ### What a client reads of an envelope -/

/-- The marker a client takes an envelope for. -/
def UpdateEnvelope.boundary (e : UpdateEnvelope) : Option Boundary :=
  readBoundary (clipUtf8 topicPathBytes e.topicPath)

theorem readBoundary_serverMessage (e : UpdateEnvelope) :
    readBoundary (readUtf8 (serverMessage e).topicPath) = e.boundary :=
  congrArg readBoundary (readUtf8_topicPath_put ..)

/-- Every marker is read as what it was sent as. -/
theorem boundary_snapshotEnvelope (serverSessionId : UInt64) :
    (snapshotEnvelope serverSessionId { kind := .descriptorSnapshotBegin }).boundary =
        some .snapshotBegin ∧
      (snapshotEnvelope serverSessionId { kind := .descriptorSnapshotEnd }).boundary =
        some .descriptorEnd ∧
      (snapshotEnvelope serverSessionId { kind := .stateSnapshotBegin }).boundary =
        some .stateBegin ∧
      (snapshotEnvelope serverSessionId { kind := .stateSnapshotEnd }).boundary =
        some .stateEnd ∧
      (snapshotEnvelope serverSessionId { kind := .liveBegin }).boundary = some .liveBegin := by
  have hclip : clipUtf8 topicPathBytes snapshotBeginPath = snapshotBeginPath ∧
      clipUtf8 topicPathBytes descriptorEndPath = descriptorEndPath ∧
      clipUtf8 topicPathBytes stateBeginPath = stateBeginPath ∧
      clipUtf8 topicPathBytes stateEndPath = stateEndPath ∧
      clipUtf8 topicPathBytes liveBeginPath = liveBeginPath := by decide
  simp only [UpdateEnvelope.boundary, snapshotEnvelope]
  simp only [reduceCtorEq, false_and, if_false, hclip]
  decide

end SmartDashboard.NativeLink
