import SmartDashboard.Library.FirstMatch
import SmartDashboard.NativeLink.Types

/-!
# The Native Link authority

`NativeLinkCore`, operation by operation. The injected clock is an argument: an operation that may
read it several times takes `clock : ℕ → TimePoint`, its successive readings.
-/

namespace SmartDashboard.NativeLink

open FirstMatch (updateFirst)

structure NativeLinkCore where
  serverSessionId : UInt64 := 1
  nextTopicId : UInt64 := 1
  nextServerSequence : UInt64 := 1
  topics : List TopicRuntime := []
  clients : List ClientRuntime := []
  deriving DecidableEq, Repr

namespace NativeLinkCore

def topicValueMatches (type : ValueType) (value : TopicValue) : Bool :=
  match type with
  | .bool => value.type = .bool
  | .double => value.type = .double
  | .string => value.type = .string
  | .stringArray => value.type = .stringArray

def validateDescriptor (descriptor : TopicDescriptor) : RegisterTopicResult :=
  if descriptor.topicPath = [] then
    { ok := false, message := "topic path is required" }
  else if descriptor.topicKind = .command ∧ descriptor.replayOnSubscribe then
    { ok := false, message := "command topics must not replay on subscribe" }
  else if descriptor.topicKind ≠ .state ∧ descriptor.retentionMode ≠ .none then
    { ok := false, message := "only state topics may be retained" }
  else if descriptor.topicKind = .event ∧ descriptor.writerPolicy ≠ .serverOnly then
    { ok := false, message := "event topics must be server-only" }
  else
    { ok := true }

def determineLiveDeliveryKind : TopicKind → DeliveryKind
  | .state => .liveState
  | .command => .liveCommand
  | .event => .liveEvent

section Lookup

variable (core : NativeLinkCore)

/-- The test `find_if` makes on a topic. -/
def isTopic (topicPath : ByteString) (topic : TopicRuntime) : Bool :=
  topic.descriptor.topicPath = topicPath

/-- The test `find_if` makes on a client. -/
def isClient (clientId : ByteString) (client : ClientRuntime) : Bool :=
  client.clientId = clientId

def findTopic (topicPath : ByteString) : Option TopicRuntime :=
  core.topics.find? (isTopic topicPath)

def findClient (clientId : ByteString) : Option ClientRuntime :=
  core.clients.find? (isClient clientId)

/-- A write through the pointer that `FindTopic` returned. -/
def writeTopic (topicPath : ByteString) (write : TopicRuntime → TopicRuntime) : NativeLinkCore :=
  { core with topics := updateFirst (isTopic topicPath) write core.topics }

/-- A write through the pointer that `FindClient` returned. -/
def writeClient (clientId : ByteString) (write : ClientRuntime → ClientRuntime) :
    NativeLinkCore :=
  { core with clients := updateFirst (isClient clientId) write core.clients }

end Lookup

section Queries

variable (core : NativeLinkCore)

def tryGetLatestValue (topicPath : ByteString) : Option TopicValue :=
  match core.findTopic topicPath with
  | none => none
  | some topic => if topic.hasLatestValue then some topic.latestValue else none

def getTopicLeaseInfo (topicPath : ByteString) : TopicLeaseInfo :=
  match core.findTopic topicPath with
  | none => {}
  | some topic =>
    if topic.leaseHolderClientId = [] then {}
    else { hasLeaseHolder := true, leaseHolderClientId := topic.leaseHolderClientId }

def isTopicRegistered (topicPath : ByteString) : Bool :=
  (core.findTopic topicPath).isSome

/-- `now` is the reading `BuildEnvelope` takes when the topic has a time to live. The cast of the
age to `int` keeps its low 32 bits. -/
def buildEnvelope (now : TimePoint) (topic : TopicRuntime) (deliveryKind : DeliveryKind)
    (serverSequence : UInt64) : UpdateEnvelope :=
  let envelope : UpdateEnvelope :=
    { serverSessionId := core.serverSessionId
      serverSequence := serverSequence
      topicId := topic.topicId
      topicPath := topic.descriptor.topicPath
      sourceClientId := topic.latestSourceClientId
      deliveryKind := deliveryKind
      value := topic.latestValue
      ttlMs := topic.descriptor.ttlMs }
  if 0 < topic.descriptor.ttlMs then
    let ageMs := (now - topic.latestValueTime).tdiv 1000000
    let envelope := { envelope with ageMsAtEmit := Int32.ofInt ageMs }
    if topic.descriptor.ttlMs.toInt < ageMs then
      { envelope with isStale := true, freshnessReason := .ttlExpired }
    else envelope
  else envelope

section Envelope

variable (now : TimePoint) (topic : TopicRuntime) (deliveryKind : DeliveryKind)
  (serverSequence : UInt64)

@[simp] theorem serverSessionId_buildEnvelope :
    (core.buildEnvelope now topic deliveryKind serverSequence).serverSessionId =
      core.serverSessionId := by
  simp only [buildEnvelope]
  split_ifs <;> rfl

@[simp] theorem topicId_buildEnvelope :
    (core.buildEnvelope now topic deliveryKind serverSequence).topicId = topic.topicId := by
  simp only [buildEnvelope]
  split_ifs <;> rfl

@[simp] theorem topicPath_buildEnvelope :
    (core.buildEnvelope now topic deliveryKind serverSequence).topicPath =
      topic.descriptor.topicPath := by
  simp only [buildEnvelope]
  split_ifs <;> rfl

@[simp] theorem value_buildEnvelope :
    (core.buildEnvelope now topic deliveryKind serverSequence).value = topic.latestValue := by
  simp only [buildEnvelope]
  split_ifs <;> rfl

@[simp] theorem sourceClientId_buildEnvelope :
    (core.buildEnvelope now topic deliveryKind serverSequence).sourceClientId =
      topic.latestSourceClientId := by
  simp only [buildEnvelope]
  split_ifs <;> rfl

@[simp] theorem serverSequence_buildEnvelope :
    (core.buildEnvelope now topic deliveryKind serverSequence).serverSequence =
      serverSequence := by
  simp only [buildEnvelope]
  split_ifs <;> rfl

@[simp] theorem deliveryKind_buildEnvelope :
    (core.buildEnvelope now topic deliveryKind serverSequence).deliveryKind = deliveryKind := by
  simp only [buildEnvelope]
  split_ifs <;> rfl

end Envelope

/-- The four conditions under which the snapshot replays a topic. -/
def isReplayed (topic : TopicRuntime) : Bool :=
  topic.hasLatestValue && topic.descriptor.topicKind == .state &&
    topic.descriptor.retentionMode == .latestValue && topic.descriptor.replayOnSubscribe

def descriptorEvent (topic : TopicRuntime) : SnapshotEvent :=
  { kind := .descriptor, hasDescriptor := true, descriptor := topic.descriptor }

/-- The second loop of `BuildSnapshotForClient`; `reading` counts the updates built so far. -/
def updateEvents (clock : ℕ → TimePoint) : List TopicRuntime → ℕ → List SnapshotEvent
  | [], _ => []
  | topic :: topics, reading =>
    if isReplayed topic then
      { kind := .update
        hasUpdate := true
        update := core.buildEnvelope (clock reading) topic .snapshotState 0 } ::
        updateEvents clock topics (reading + 1)
    else updateEvents clock topics reading

def buildSnapshotForClient (clock : ℕ → TimePoint) (_clientId : ByteString) :
    List SnapshotEvent :=
  { kind := .descriptorSnapshotBegin } :: core.topics.map descriptorEvent ++
    { kind := .descriptorSnapshotEnd } :: { kind := .stateSnapshotBegin } ::
      core.updateEvents clock core.topics 0 ++
    [{ kind := .stateSnapshotEnd }, { kind := .liveBegin }]

end Queries

section Operations

variable (core : NativeLinkCore)

def registerTopic (now : TimePoint) (descriptor : TopicDescriptor) :
    NativeLinkCore × RegisterTopicResult :=
  let validation := validateDescriptor descriptor
  if validation.ok = false then (core, validation)
  else if (core.findTopic descriptor.topicPath).isSome then
    (core, { ok := false, message := "topic already registered" })
  else
    let runtime : TopicRuntime :=
      { descriptor := descriptor, topicId := core.nextTopicId, latestValueTime := now }
    ({ core with nextTopicId := core.nextTopicId + 1, topics := core.topics ++ [runtime] },
      { ok := true, topicId := runtime.topicId })

def acquireLease (topicPath clientId : ByteString) : NativeLinkCore × Bool :=
  match core.findTopic topicPath with
  | none => (core, false)
  | some topic =>
    if topic.descriptor.writerPolicy ≠ .leaseSingleWriter then (core, false)
    else if topic.leaseHolderClientId ≠ [] ∧ topic.leaseHolderClientId ≠ clientId then
      (core, false)
    else
      (core.writeTopic topicPath fun t => { t with leaseHolderClientId := clientId }, true)

def releaseLease (topicPath clientId : ByteString) : NativeLinkCore × Bool :=
  match core.findTopic topicPath with
  | none => (core, false)
  | some topic =>
    if topic.leaseHolderClientId ≠ clientId then (core, false)
    else (core.writeTopic topicPath fun t => { t with leaseHolderClientId := [] }, true)

def connectClient (clock : ℕ → TimePoint) (clientId : ByteString) :
    NativeLinkCore × ClientSessionView :=
  let core :=
    if (core.findClient clientId).isNone then
      { core with clients := core.clients ++ [{ clientId := clientId }] }
    else core
  (core, { snapshotEvents := core.buildSnapshotForClient clock clientId })

def disconnectClient (clientId : ByteString) : NativeLinkCore × Bool :=
  if (core.findClient clientId).isNone then (core, false)
  else ({ core with clients := core.clients.eraseP (isClient clientId) }, true)

def pushEvent (envelope : UpdateEnvelope) (client : ClientRuntime) : ClientRuntime :=
  { client with pendingEvents := client.pendingEvents ++ [envelope] }

def enqueueLiveEvent (envelope : UpdateEnvelope) : NativeLinkCore :=
  { core with clients := core.clients.map (pushEvent envelope) }

def enqueueEventForClient (clientId : ByteString) (envelope : UpdateEnvelope) :
    NativeLinkCore :=
  core.writeClient clientId (pushEvent envelope)

/-- The four branches of `PublishInternal` that reject a write to a known topic. -/
def rejectWrite (now : TimePoint) (topic : TopicRuntime) (value : TopicValue)
    (sourceClientId : ByteString) (reason : WriteRejectReason) : NativeLinkCore × WriteResult :=
  let rejectEvent :=
    { core.buildEnvelope now topic .liveCommandReject 0 with
      value := value, rejectionReason := reason }
  (core.enqueueEventForClient sourceClientId rejectEvent,
    { accepted := false, rejectionReason := reason, serverSequence := 0 })

/-- The four assignments of `PublishInternal` to the topic of an accepted write. -/
def storeLatest (now : TimePoint) (value : TopicValue) (sourceClientId : ByteString)
    (topic : TopicRuntime) : TopicRuntime :=
  { topic with
    hasLatestValue := true
    latestValue := value
    latestSourceClientId := sourceClientId
    latestValueTime := now }

/-- `PublishInternal` after its last rejection branch: store the value, number it, queue the live
event for everyone and the acknowledgement for the writer of a command. -/
def acceptWrite (clock : ℕ → TimePoint) (topic : TopicRuntime) (topicPath : ByteString)
    (value : TopicValue) (sourceClientId : ByteString) (allowServerOnly : Bool) :
    NativeLinkCore × WriteResult :=
  let core := core.writeTopic topicPath (storeLatest (clock 0) value sourceClientId)
  let topic := storeLatest (clock 0) value sourceClientId topic
  let serverSequence := core.nextServerSequence
  let core := { core with nextServerSequence := core.nextServerSequence + 1 }
  let liveEvent := core.buildEnvelope (clock 1) topic
    (determineLiveDeliveryKind topic.descriptor.topicKind) serverSequence
  let core := core.enqueueLiveEvent liveEvent
  let core :=
    if allowServerOnly = false ∧ topic.descriptor.topicKind = .command then
      core.enqueueEventForClient sourceClientId { liveEvent with deliveryKind := .liveCommandAck }
    else core
  (core, { accepted := true, rejectionReason := .none, serverSequence := serverSequence })

def publishInternal (clock : ℕ → TimePoint) (topicPath : ByteString) (value : TopicValue)
    (sourceClientId : ByteString) (allowServerOnly : Bool) : NativeLinkCore × WriteResult :=
  match core.findTopic topicPath with
  | none =>
    let rejectEvent : UpdateEnvelope :=
      { serverSessionId := core.serverSessionId
        topicPath := topicPath
        sourceClientId := sourceClientId
        deliveryKind := .liveCommandReject
        value := value
        rejectionReason := .unknownTopic }
    (core.enqueueEventForClient sourceClientId rejectEvent,
      { accepted := false, rejectionReason := .unknownTopic, serverSequence := 0 })
  | some topic =>
    if topicValueMatches topic.descriptor.valueType value = false then
      core.rejectWrite (clock 0) topic value sourceClientId .wrongType
    else if topic.descriptor.writerPolicy = .serverOnly ∧ allowServerOnly = false then
      core.rejectWrite (clock 0) topic value sourceClientId .readOnly
    else if topic.descriptor.writerPolicy = .leaseSingleWriter ∧ allowServerOnly = false then
      if topic.leaseHolderClientId = [] then
        core.rejectWrite (clock 0) topic value sourceClientId .leaseRequired
      else if topic.leaseHolderClientId ≠ sourceClientId then
        core.rejectWrite (clock 0) topic value sourceClientId .leaseNotHolder
      else core.acceptWrite clock topic topicPath value sourceClientId allowServerOnly
    else core.acceptWrite clock topic topicPath value sourceClientId allowServerOnly

/-- The id under which `PublishFromServer` writes. -/
def serverId : ByteString := ascii ['s', 'e', 'r', 'v', 'e', 'r']

def publish (clock : ℕ → TimePoint) (topicPath : ByteString) (value : TopicValue)
    (sourceClientId : ByteString) : NativeLinkCore × WriteResult :=
  core.publishInternal clock topicPath value sourceClientId false

def publishFromServer (clock : ℕ → TimePoint) (topicPath : ByteString) (value : TopicValue) :
    NativeLinkCore × WriteResult :=
  core.publishInternal clock topicPath value serverId true

def drainClientEvents (clientId : ByteString) : NativeLinkCore × List UpdateEnvelope :=
  match core.findClient clientId with
  | none => (core, [])
  | some client =>
    (core.writeClient clientId fun c => { c with pendingEvents := [] }, client.pendingEvents)

def beginNewSession : NativeLinkCore :=
  { core with
    serverSessionId := core.serverSessionId + 1
    nextServerSequence := 1
    topics := core.topics.map fun t => { t with leaseHolderClientId := [] }
    clients := core.clients.map fun c => { c with pendingEvents := [] } }

end Operations

end NativeLinkCore

end SmartDashboard.NativeLink
