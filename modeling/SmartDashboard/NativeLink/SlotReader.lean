import SmartDashboard.NativeLink.SlotQueue
import SmartDashboard.NativeLink.Staleness

/-!
# The reader of a slot

What the shared-memory client does with the server's heartbeat and with each message of its slot,
and the queue of the slot as the list of the messages that wait for it.

## Main definitions

- `IpcReader`: what `RunLoop` and `DrainMessages` keep
- `SlotQueue.waiting`: the messages that are stored and not processed
-/

namespace SmartDashboard.NativeLink

structure IpcReader where
  snapshotPhase : SnapshotPhase := .descriptors
  serverAlive : Bool := false
  connected : Bool := false
  lastSubmittedWriteSequence : UInt64 := 0
  deriving DecidableEq, Repr

/-- The server's heartbeat is not older than `heartbeatStaleTimeoutMs`. -/
def serverLooksAlive (heartbeatStaleTimeoutMs : UInt32) (lastHeartbeatUs nowUs : UInt64) : Bool :=
  lastHeartbeatUs != 0 && lastHeartbeatUs ≤ nowUs &&
    nowUs - lastHeartbeatUs ≤ heartbeatStaleTimeoutMs.toUInt64 * 1000

namespace IpcReader

variable (reader : IpcReader)

/-- The beginning of an iteration of `RunLoop`. -/
def checkServer (heartbeatStaleTimeoutMs : UInt32) (lastHeartbeatUs nowUs : UInt64) :
    IpcReader × List ClientEvent :=
  if serverLooksAlive heartbeatStaleTimeoutMs lastHeartbeatUs nowUs then
    ({ reader with serverAlive := true }, [])
  else
    ({ snapshotPhase := .descriptors
       serverAlive := false
       connected := false
       lastSubmittedWriteSequence := 0 },
      if reader.connected then [.connectionState .stale] else [])

/-- One message in `DrainMessages`. -/
def drainMessage (message : SharedMessage) : IpcReader × List ClientEvent :=
  match message.marker with
  | some .snapshotBegin =>
    ({ reader with
        snapshotPhase := .descriptors
        connected := false
        lastSubmittedWriteSequence := 0 },
      if reader.connected then [.connectionState .connecting] else [])
  | some .descriptorEnd => (reader, [])
  | some .stateBegin => ({ reader with snapshotPhase := .stateSnapshot }, [])
  | some .stateEnd => (reader, [])
  | some .liveBegin => ({ reader with snapshotPhase := .live }, [])
  | none =>
    (reader,
      if reader.snapshotPhase ≠ .descriptors ∧ isSentinelTopic message.topicId = false then
        [.update (messageToEnvelope message)]
      else [])

def maybePublishConnected (serverSessionId snapshotCompleteSessionId : UInt64) :
    IpcReader × List ClientEvent :=
  if reader.serverAlive = false ∨ reader.snapshotPhase ≠ .live then (reader, [])
  else if serverSessionId = 0 ∨ snapshotCompleteSessionId ≠ serverSessionId then (reader, [])
  else
    ({ reader with connected := true },
      if reader.connected then [] else [.connectionState .connected])

theorem snapshotPhase_checkServer (heartbeatStaleTimeoutMs : UInt32)
    (lastHeartbeatUs nowUs : UInt64) :
    (reader.checkServer heartbeatStaleTimeoutMs lastHeartbeatUs nowUs).1.snapshotPhase =
      if serverLooksAlive heartbeatStaleTimeoutMs lastHeartbeatUs nowUs then reader.snapshotPhase
      else .descriptors := by
  rw [checkServer]
  split_ifs
  · rfl
  · rfl
  · rfl

theorem snapshotPhase_drainMessage (message : SharedMessage) :
    (reader.drainMessage message).1.snapshotPhase = reader.snapshotPhase.step message := by
  rw [drainMessage, SnapshotPhase.step]
  split <;> simp_all

theorem snapshotPhase_maybePublishConnected (serverSessionId snapshotCompleteSessionId : UInt64) :
    (reader.maybePublishConnected serverSessionId snapshotCompleteSessionId).1.snapshotPhase =
      reader.snapshotPhase := by
  rw [maybePublishConnected]
  split_ifs <;> rfl

end IpcReader

/-! ### The queue, as a list of messages -/

namespace SlotQueue

/-- The messages that the server has stored and the client has not processed, oldest first. -/
def waiting (s : SlotQueue) : List SharedMessage :=
  s.appended.drop s.processed.length ++ (s.stored.map Prod.fst).toList

/-- The cell the client reads next. -/
def nextMessage (s : SlotQueue) : SharedMessage :=
  s.slot.messages (s.readPosition.toNat % kMaxMessages)

variable {s t : SlotQueue} {a : SlotAction} {message : SharedMessage}

theorem snapshotCompleteSessionId_next (hnext : s.next a = some t) :
    t.slot.snapshotCompleteSessionId = s.slot.snapshotCompleteSessionId := by
  cases a with
  | storeMessage message =>
    simp only [next] at hnext
    split_ifs at hnext
    obtain rfl := Option.some.inj hnext
    rfl
  | storeWriteIndex | loadReadIndex | loadWriteIndex =>
    simp only [next] at hnext
    split at hnext
    · obtain rfl := Option.some.inj hnext
      rfl
    · cases hnext
  | processMessage | storeReadIndex =>
    simp only [next] at hnext
    split at hnext
    · split_ifs at hnext
      obtain rfl := Option.some.inj hnext
      rfl
    · cases hnext

theorem waiting_storeMessage (hnext : s.next (.storeMessage message) = some t) :
    t.waiting = s.waiting ++ [message] := by
  simp only [next] at hnext
  split_ifs at hnext with hguard
  obtain rfl := Option.some.inj hnext
  rw [waiting, waiting, hguard.2]
  exact congrArg (· ++ [message]) (List.append_nil _).symm

/-- The message that the index now covers was waiting before. -/
theorem Inv.waiting_storeWriteIndex (h : s.Inv) (hnext : s.next .storeWriteIndex = some t) :
    t.waiting = s.waiting := by
  obtain ⟨unread, hall, -⟩ := h.unread
  simp only [SlotQueue.next] at hnext
  split at hnext
  · next message writeIndex hstored =>
    obtain rfl := Option.some.inj hnext
    rw [waiting, waiting, hstored]
    simp only [hall, List.append_assoc, List.drop_left]
    rfl
  · cases hnext

theorem Inv.waiting_processMessage (h : s.Inv) (hnext : s.next .processMessage = some t) :
    s.waiting = s.nextMessage :: t.waiting := by
  obtain ⟨unread, hall, -⟩ := (h.processMessage hnext).unread
  simp only [SlotQueue.next] at hnext
  split at hnext
  · next readIndex writeIndex hclient =>
    split_ifs at hnext
    obtain rfl := Option.some.inj hnext
    have hread : s.nextMessage = s.slot.messages (readIndex.toNat % kMaxMessages) := by
      rw [nextMessage, SlotQueue.readPosition, hclient]
    rw [waiting, waiting, hread]
    simp only at hall
    simp only [hall, List.drop_left]
    rw [List.append_assoc, List.drop_left]
    rfl
  · cases hnext

/-- The other loads and stores of the client process nothing. -/
theorem waiting_next (hnext : s.next a = some t)
    (ha : a = .loadReadIndex ∨ a = .loadWriteIndex ∨ a = .storeReadIndex) :
    t.waiting = s.waiting := by
  obtain rfl | rfl | rfl := ha
  · simp only [next] at hnext
    split at hnext
    · obtain rfl := Option.some.inj hnext
      rfl
    · cases hnext
  · simp only [next] at hnext
    split at hnext
    · obtain rfl := Option.some.inj hnext
      rfl
    · cases hnext
  · simp only [next] at hnext
    split at hnext
    · split_ifs at hnext
      obtain rfl := Option.some.inj hnext
      rfl
    · cases hnext

end SlotQueue

end SmartDashboard.NativeLink
