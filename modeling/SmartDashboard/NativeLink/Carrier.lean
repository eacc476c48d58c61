import SmartDashboard.NativeLink.Boundary
import SmartDashboard.NativeLink.Session

/-!
# The authority behind its carriers

Both carriers wrap one `NativeLinkCore` and send to each connection what the core hands out: a
snapshot after the hello, the drained events of a client when that client writes, and every
accepted publish by a broadcast of its own. A connection is a TCP client or a shared-memory slot;
it is ready while the authority sends to it (listed and alive, or `IsClientSlotReady`).

## Main definitions

- `Sending`: what is sent to a connection in one go, and the messages it consists of
- `Authority`: the core and its connections, with what was sent to each
- `Operation`, `Authority.perform`: what happens under the mutex of the authority
- `Authority.sentBy`: what one operation sends to one connection
-/

namespace SmartDashboard.NativeLink

open FirstMatch Execution

/-- What is sent to one connection in one go. -/
inductive Sending
  | snapshot (serverSessionId : UInt64) (events : List SnapshotEvent)
  | envelope (e : UpdateEnvelope)
  deriving DecidableEq

/-- The messages a sending consists of. -/
def Sending.messages : Sending → List SharedMessage
  | .snapshot serverSessionId events =>
    events.map fun event => serverMessage (snapshotEnvelope serverSessionId event)
  | .envelope e => [serverMessage e]

def Sending.isSnapshot : Sending → Bool
  | .snapshot _ _ => true
  | .envelope _ => false

/-- A TCP client or a shared-memory slot, with everything sent to it so far. -/
structure Connection where
  clientId : ByteString := []
  ready : Bool := false
  sent : List Sending := []
  deriving DecidableEq

namespace Connection

/-- The messages sent to a connection, oldest first. -/
def messages (connection : Connection) : List SharedMessage :=
  connection.sent.flatMap Sending.messages

/-- Send, unless the connection is not ready: over TCP nobody sends to a client that is not alive,
in shared memory `PublishEnvelopeToClientSlotLocked` returns at once. -/
def send (connection : Connection) (sendings : List Sending) : Connection :=
  if connection.ready then { connection with sent := connection.sent ++ sendings }
  else connection

end Connection

structure Authority where
  core : NativeLinkCore := {}
  connections : ℕ → Connection := fun _ => {}

namespace Authority

section Operations

variable (authority : Authority)

def writeConnection (i : ℕ) (write : Connection → Connection) : Authority :=
  { authority with
    connections := Function.update authority.connections i (write (authority.connections i)) }

def publishSnapshot (clock : ℕ → TimePoint) (i : ℕ) : Authority :=
  let (core, view) := authority.core.connectClient clock (authority.connections i).clientId
  { authority with core := core }.writeConnection i fun connection =>
    connection.send [.snapshot core.serverSessionId view.snapshotEvents]

def publishEnvelopeToAllClients (e : UpdateEnvelope) : Authority :=
  { authority with connections := fun i => (authority.connections i).send [.envelope e] }

/-- The envelope that `PublishFromServer` and `HandleClientWriteLocked` build for the broadcast. -/
def broadcastEnvelope (serverSessionId serverSequence : UInt64) (topic : TopicRuntime)
    (topicPath sourceClientId : ByteString) (latest : TopicValue) : UpdateEnvelope :=
  { serverSessionId := serverSessionId
    serverSequence := serverSequence
    topicId := topic.topicId
    topicPath := topicPath
    sourceClientId := sourceClientId
    value := latest
    deliveryKind :=
      if topic.descriptor.topicKind = .command then .liveCommand else .liveState }

/-- What both do after an accepted publish. -/
def broadcastLatest (topicPath sourceClientId : ByteString) (serverSequence : UInt64) :
    Authority :=
  match authority.core.findTopic topicPath, authority.core.tryGetLatestValue topicPath with
  | some topic, some latest =>
    authority.publishEnvelopeToAllClients
      (broadcastEnvelope authority.core.serverSessionId serverSequence topic topicPath
        sourceClientId latest)
  | _, _ => authority

def publishFromServer (clock : ℕ → TimePoint) (topicPath : ByteString) (value : TopicValue) :
    Authority :=
  let (core, result) := authority.core.publishFromServer clock topicPath value
  let authority := { authority with core := core }
  if result.accepted = false then authority
  else authority.broadcastLatest topicPath NativeLinkCore.serverId result.serverSequence

/-- A writer is given the lease of a topic that nobody holds. -/
def leaseForWriter (core : NativeLinkCore) (topicPath clientId : ByteString) : NativeLinkCore :=
  if (core.getTopicLeaseInfo topicPath).hasLeaseHolder = false then
    (core.acquireLease topicPath clientId).1
  else core

def handleClientWrite (clock : ℕ → TimePoint) (i : ℕ) (message : SharedMessage) : Authority :=
  match receiveWrite message with
  | none => authority
  | some (topicPath, value) =>
    let clientId := (authority.connections i).clientId
    let core := leaseForWriter authority.core topicPath clientId
    let (core, result) := core.publish clock topicPath value clientId
    let (core, clientEvents) := core.drainClientEvents clientId
    let authority := { authority with core := core }.writeConnection i fun connection =>
      connection.send (clientEvents.map .envelope)
    if result.accepted = false then authority
    else authority.broadcastLatest topicPath clientId result.serverSequence

end Operations

end Authority

/-- What can happen to the authority under its mutex. `attach` is the hello of a client or the
filling of a slot, `setReady` its listing, its loss or the end of its slot, `evict` the end of a
slot without heartbeats. A restart of the session is `beginNewSession` and a new snapshot for every
ready connection, over TCP at once, in shared memory with the next scan. -/
inductive Operation
  | registerTopic (descriptor : TopicDescriptor) (now : TimePoint)
  | attach (i : ℕ) (clientId : ByteString)
  | setReady (i : ℕ) (ready : Bool)
  | evict (i : ℕ)
  | publishSnapshot (i : ℕ) (clock : ℕ → TimePoint)
  | publishFromServer (topicPath : ByteString) (value : TopicValue) (clock : ℕ → TimePoint)
  | clientWrite (i : ℕ) (message : SharedMessage) (clock : ℕ → TimePoint)
  | beginNewSession

namespace Authority

def perform (authority : Authority) : Operation → Authority
  | .registerTopic descriptor now =>
    { authority with core := (authority.core.registerTopic now descriptor).1 }
  | .attach i clientId =>
    authority.writeConnection i fun connection => { connection with clientId := clientId }
  | .setReady i ready =>
    authority.writeConnection i fun connection => { connection with ready := ready }
  | .evict i =>
    { authority with
      core := (authority.core.disconnectClient (authority.connections i).clientId).1
    }.writeConnection i fun connection => { connection with clientId := [], ready := false }
  | .publishSnapshot i clock => authority.publishSnapshot clock i
  | .publishFromServer topicPath value clock => authority.publishFromServer clock topicPath value
  | .clientWrite i message clock => authority.handleClientWrite clock i message
  | .beginNewSession => { authority with core := authority.core.beginNewSession }

/-! ### What an operation sends -/

/-- The write an operation asks of the core, and the core it is asked of. -/
def coreWrite (authority : Authority) : Operation →
    Option (NativeLinkCore × (ℕ → TimePoint) × NativeLinkCore.TopicWrite)
  | .publishFromServer topicPath value clock =>
    some (authority.core, clock, ⟨topicPath, value, NativeLinkCore.serverId, true⟩)
  | .clientWrite i message clock =>
    (receiveWrite message).map fun (topicPath, value) =>
      let clientId := (authority.connections i).clientId
      (leaseForWriter authority.core topicPath clientId, clock,
        ⟨topicPath, value, clientId, false⟩)
  | _ => none

/-- The calls an operation makes of the core. -/
def calls (authority : Authority) : Operation → List Call
  | .registerTopic descriptor now => [(Request.registerTopic descriptor).at now]
  | .attach _ _ | .setReady _ _ => []
  | .evict i => [(Request.disconnectClient (authority.connections i).clientId).at 0]
  | .publishSnapshot i clock => [⟨.connectClient (authority.connections i).clientId, clock⟩]
  | .publishFromServer topicPath value clock => [⟨.publishFromServer topicPath value, clock⟩]
  | .clientWrite i message clock =>
    match receiveWrite message with
    | none => []
    | some (topicPath, value) =>
      let clientId := (authority.connections i).clientId
      (if (authority.core.getTopicLeaseInfo topicPath).hasLeaseHolder = false then
          [⟨.acquireLease topicPath clientId, clock⟩]
        else []) ++
        [⟨.publish topicPath value clientId, clock⟩, ⟨.drainClientEvents clientId, clock⟩]
  | .beginNewSession => [Request.beginNewSession.at 0]

/-- The connection that an operation drains the events of. -/
def writer : Operation → Option ℕ
  | .clientWrite i _ _ => some i
  | _ => none

/-- The connection that an operation sends a snapshot to. -/
def snapshotTarget : Operation → Option ℕ
  | .publishSnapshot i _ => some i
  | _ => none

/-- The connection that an operation gives an id to, lists or takes off the list. -/
def managed : Operation → Option ℕ
  | .attach i _ | .setReady i _ | .evict i => some i
  | _ => none

/-- The envelope that is sent to everybody after a write. -/
def broadcastOf (core : NativeLinkCore) (w : NativeLinkCore.TopicWrite) : Option UpdateEnvelope :=
  if core.rejection w = none then
    (core.findTopic w.topicPath).map fun topic =>
      broadcastEnvelope core.serverSessionId core.nextServerSequence topic w.topicPath
        w.sourceClientId w.value
  else none

def broadcast (authority : Authority) (op : Operation) : Option UpdateEnvelope :=
  (authority.coreWrite op).bind fun (core, _, w) => broadcastOf core w

/-- The events a client write takes from the queue of its writer. -/
def drained (authority : Authority) (op : Operation) : List UpdateEnvelope :=
  match authority.coreWrite op with
  | none => []
  | some (core, clock, w) =>
    ((core.performWrite clock w).1.drainClientEvents w.sourceClientId).2

/-- What an operation has for the connection `j`. -/
def sendings (authority : Authority) (j : ℕ) : Operation → List Sending
  | .publishSnapshot i clock =>
    let (core, view) := authority.core.connectClient clock (authority.connections i).clientId
    if j = i then [.snapshot core.serverSessionId view.snapshotEvents] else []
  | op =>
    (if writer op = some j then (authority.drained op).map .envelope else []) ++
      ((authority.broadcast op).map .envelope).toList

/-- What an operation sends to the connection `j`. -/
def sentBy (authority : Authority) (j : ℕ) (op : Operation) : List Sending :=
  if (authority.connections j).ready then authority.sendings j op else []

section Sendings

variable {authority : Authority} {j : ℕ} {op : Operation}

/-- An operation that writes sends what it drains, to its writer, and the broadcast. -/
theorem sendings_of_write {core : NativeLinkCore} {clock : ℕ → TimePoint}
    {w : NativeLinkCore.TopicWrite}
    (hwrite : authority.coreWrite op = some (core, clock, w)) :
    authority.sendings j op =
      (if writer op = some j then
          ((core.performWrite clock w).1.drainClientEvents w.sourceClientId).2.map .envelope
        else []) ++ ((broadcastOf core w).map .envelope).toList := by
  have hdrained : authority.drained op =
      ((core.performWrite clock w).1.drainClientEvents w.sourceClientId).2 := by
    rw [drained, hwrite]
  have hbroadcast : authority.broadcast op = broadcastOf core w := by
    rw [broadcast, hwrite]
    rfl
  rw [← hdrained, ← hbroadcast]
  cases op with
  | publishSnapshot i clock => cases hwrite
  | registerTopic _ _ | attach _ _ | setReady _ _ | evict _ | publishFromServer _ _ _
  | clientWrite _ _ _ | beginNewSession => rfl

theorem sendings_of_not_write (hwrite : authority.coreWrite op = none)
    (hop : ∀ i clock, op ≠ .publishSnapshot i clock) : authority.sendings j op = [] := by
  have hnothing :
      (if writer op = some j then (authority.drained op).map Sending.envelope else []) ++
        ((authority.broadcast op).map Sending.envelope).toList = [] := by
    simp only [drained, broadcast, hwrite, List.map_nil, ite_self]
    rfl
  cases op with
  | publishSnapshot i clock => exact absurd rfl (hop i clock)
  | registerTopic _ _ | attach _ _ | setReady _ _ | evict _ | publishFromServer _ _ _
  | clientWrite _ _ _ | beginNewSession => exact hnothing

theorem allowServerOnly_of_writer {core : NativeLinkCore} {clock : ℕ → TimePoint}
    {w : NativeLinkCore.TopicWrite} (hwrite : authority.coreWrite op = some (core, clock, w))
    (hwriter : writer op = some j) : w.allowServerOnly = false := by
  cases op with
  | clientWrite i message clock =>
    obtain ⟨write, -, hw⟩ := Option.map_eq_some_iff.mp hwrite
    simp only [Prod.mk.injEq] at hw
    rw [← hw.2.2]
  | registerTopic _ _ | attach _ _ | setReady _ _ | evict _ | publishSnapshot _ _
  | publishFromServer _ _ _ | beginNewSession => cases hwriter

end Sendings

section Sent

variable (authority : Authority) (j : ℕ)

theorem send_nil (connection : Connection) : connection.send [] = connection := by
  simp only [Connection.send, List.append_nil, ite_self]

theorem send_send (connection : Connection) (first second : List Sending) :
    (connection.send first).send second = connection.send (first ++ second) := by
  cases h : connection.ready <;> simp [Connection.send, h]

theorem connections_writeConnection (i : ℕ) (write : Connection → Connection) :
    (authority.writeConnection i write).connections j =
      if j = i then write (authority.connections j) else authority.connections j := by
  simp only [writeConnection, Function.update_apply]
  split_ifs with h
  · rw [h]
  · rfl

/-- An accepted write leaves a value behind, so the broadcast that follows finds one. -/
theorem broadcastLatest_of_stored {topic : TopicRuntime} {topicPath : ByteString}
    (htopic : authority.core.findTopic topicPath = some topic) (hvalue : topic.hasLatestValue)
    (sourceClientId : ByteString) (serverSequence : UInt64) :
    authority.broadcastLatest topicPath sourceClientId serverSequence =
      authority.publishEnvelopeToAllClients
        (broadcastEnvelope authority.core.serverSessionId serverSequence topic topicPath
          sourceClientId topic.latestValue) := by
  have hlatest : authority.core.tryGetLatestValue topicPath = some topic.latestValue := by
    simp only [NativeLinkCore.tryGetLatestValue, htopic, hvalue, if_true]
  simp only [broadcastLatest, htopic, hlatest]

/-- What the part after the core's publish does to a connection. -/
theorem connections_broadcast (core : NativeLinkCore) (clock : ℕ → TimePoint)
    (w : NativeLinkCore.TopicWrite)
    (htopics : authority.core.topics = (core.performWrite clock w).1.topics)
    (hsession : authority.core.serverSessionId = core.serverSessionId) :
    (if (core.performWrite clock w).2.accepted = false then authority
      else authority.broadcastLatest w.topicPath w.sourceClientId
        (core.performWrite clock w).2.serverSequence).connections j =
      (authority.connections j).send ((broadcastOf core w).map .envelope).toList := by
  rcases core.performWrite_cases clock w with
    ⟨reason, hreason, hresult⟩ | ⟨topic, htopic, hnone, hresult⟩
  · have hbroadcast : broadcastOf core w = none := by
      rw [broadcastOf, hreason]
      exact if_neg (by simp)
    rw [hresult, hbroadcast]
    exact (send_nil _).symm
  · have hfind : authority.core.findTopic w.topicPath =
        some (NativeLinkCore.storeLatest (clock 0) w.value w.sourceClientId topic) := by
      rw [NativeLinkCore.findTopic, htopics, hresult]
      exact (NativeLinkCore.findTopic_acceptWrite clock htopic w.topicPath).trans (if_pos rfl)
    have hbroadcast : broadcastOf core w =
        some (broadcastEnvelope core.serverSessionId core.nextServerSequence topic w.topicPath
          w.sourceClientId w.value) := by
      rw [broadcastOf, if_pos hnone, htopic]
      rfl
    rw [hresult, hbroadcast, if_neg (by simp [NativeLinkCore.acceptWrite]),
      broadcastLatest_of_stored authority hfind rfl, hsession]
    rfl

/-- What an operation does to a connection it does not manage: it sends. -/
theorem connections_perform {op : Operation} (hop : managed op ≠ some j) :
    (authority.perform op).connections j =
      (authority.connections j).send (authority.sendings j op) := by
  cases op with
  | registerTopic descriptor now => exact (send_nil _).symm
  | beginNewSession => exact (send_nil _).symm
  | attach i clientId =>
    have hji : ¬ j = i := fun h => hop (congrArg some h.symm)
    rw [perform, connections_writeConnection, if_neg hji]
    exact (send_nil _).symm
  | setReady i ready =>
    have hji : ¬ j = i := fun h => hop (congrArg some h.symm)
    rw [perform, connections_writeConnection, if_neg hji]
    exact (send_nil _).symm
  | evict i =>
    have hji : ¬ j = i := fun h => hop (congrArg some h.symm)
    rw [perform, connections_writeConnection, if_neg hji]
    exact (send_nil _).symm
  | publishSnapshot i clock =>
    simp only [perform, publishSnapshot, connections_writeConnection, sendings]
    split_ifs
    · rfl
    · exact (send_nil _).symm
  | publishFromServer topicPath value clock =>
    let w : NativeLinkCore.TopicWrite := ⟨topicPath, value, NativeLinkCore.serverId, true⟩
    exact connections_broadcast
      { authority with core := (authority.core.performWrite clock w).1 } j authority.core clock w
      rfl (NativeLinkCore.serverSessionId_performWrite clock w)
  | clientWrite i message clock =>
    cases hreceived : receiveWrite message with
    | none =>
      have hnone : authority.coreWrite (.clientWrite i message clock) = none := by
        rw [coreWrite, hreceived]
        rfl
      rw [sendings_of_not_write hnone (by simp), send_nil, perform, handleClientWrite, hreceived]
    | some write =>
      obtain ⟨topicPath, value⟩ := write
      let core := leaseForWriter authority.core topicPath (authority.connections i).clientId
      let w : NativeLinkCore.TopicWrite :=
        ⟨topicPath, value, (authority.connections i).clientId, false⟩
      have hwrite : authority.coreWrite (.clientWrite i message clock) = some (core, clock, w) := by
        rw [coreWrite, hreceived]
        rfl
      have hsession : ((core.performWrite clock w).1.drainClientEvents
          w.sourceClientId).1.serverSessionId = core.serverSessionId :=
        (NativeLinkCore.serverSessionId_perform_of_ne ⟨.drainClientEvents _, clock⟩ (by simp)).trans
          (NativeLinkCore.serverSessionId_performWrite clock w)
      have hbroadcast := connections_broadcast
        (writeConnection
          { authority with
            core := ((core.performWrite clock w).1.drainClientEvents w.sourceClientId).1 } i
          fun connection => connection.send
            (((core.performWrite clock w).1.drainClientEvents w.sourceClientId).2.map .envelope))
        j core clock w NativeLinkCore.topics_drainClientEvents hsession
      rw [perform, handleClientWrite, hreceived]
      refine hbroadcast.trans ?_
      rw [connections_writeConnection, sendings_of_write hwrite]
      simp only [writer, Option.some.injEq]
      by_cases hji : j = i
      · rw [if_pos hji, if_pos hji.symm, send_send]
      · rw [if_neg hji, if_neg (Ne.symm hji), List.nil_append]

/-- The spec of an operation, as a connection sees it. -/
theorem sent_perform (op : Operation) :
    ((authority.perform op).connections j).sent =
      (authority.connections j).sent ++ authority.sentBy j op := by
  by_cases hop : managed op = some j
  · -- the connection is managed, so it is not written to
    have hsendings : authority.sendings j op = [] := by
      cases op with
      | attach i clientId => rfl
      | setReady i ready => rfl
      | evict i => rfl
      | registerTopic _ _ | publishSnapshot _ _ | publishFromServer _ _ _ | clientWrite _ _ _
      | beginNewSession => cases hop
    rw [sentBy, hsendings, ite_self, List.append_nil]
    cases op with
    | attach i clientId =>
      rw [perform, connections_writeConnection]
      split_ifs <;> rfl
    | setReady i ready =>
      rw [perform, connections_writeConnection]
      split_ifs <;> rfl
    | evict i =>
      rw [perform, connections_writeConnection]
      split_ifs <;> rfl
    | registerTopic _ _ | publishSnapshot _ _ | publishFromServer _ _ _ | clientWrite _ _ _
    | beginNewSession => cases hop
  · rw [connections_perform authority j hop, sentBy, Connection.send]
    split_ifs
    · rfl
    · exact (List.append_nil _).symm

end Sent

/-! ### The core behind the carriers -/

section Core

variable (authority : Authority)

theorem core_broadcastLatest (topicPath sourceClientId : ByteString) (serverSequence : UInt64) :
    (authority.broadcastLatest topicPath sourceClientId serverSequence).core = authority.core := by
  simp only [broadcastLatest]
  split <;> rfl

theorem core_handleClientWrite (clock : ℕ → TimePoint) (i : ℕ) {message : SharedMessage}
    {topicPath : ByteString} {value : TopicValue}
    (hreceived : receiveWrite message = some (topicPath, value)) :
    (authority.handleClientWrite clock i message).core =
      (((leaseForWriter authority.core topicPath (authority.connections i).clientId).publish clock
        topicPath value (authority.connections i).clientId).1.drainClientEvents
          (authority.connections i).clientId).1 := by
  simp only [handleClientWrite, hreceived]
  split_ifs
  · rfl
  · exact core_broadcastLatest ..

theorem core_publishFromServer (clock : ℕ → TimePoint) (topicPath : ByteString)
    (value : TopicValue) :
    (authority.publishFromServer clock topicPath value).core =
      (authority.core.publishFromServer clock topicPath value).1 := by
  simp only [publishFromServer]
  split_ifs
  · rfl
  · exact core_broadcastLatest ..

/-- The carriers reach the core through its calls only, so what holds of every run of the core
holds behind them. -/
theorem core_perform (op : Operation) :
    (authority.perform op).core =
      after NativeLinkCore.perform authority.core (authority.calls op) := by
  cases op with
  | registerTopic descriptor now => rfl
  | attach i clientId => rfl
  | setReady i ready => rfl
  | evict i => rfl
  | publishSnapshot i clock => rfl
  | publishFromServer topicPath value clock => exact core_publishFromServer ..
  | clientWrite i message clock =>
    cases hreceived : receiveWrite message with
    | none => simp only [perform, handleClientWrite, calls, hreceived, after_nil]
    | some write =>
      obtain ⟨topicPath, value⟩ := write
      rw [perform, core_handleClientWrite authority clock i hreceived]
      simp only [calls, hreceived, leaseForWriter]
      split_ifs
      · rfl
      · rfl
  | beginNewSession => rfl

end Core

end Authority

end SmartDashboard.NativeLink
