import SmartDashboard.Library.Execution
import SmartDashboard.NativeLink.Boundary

/-!
# The TCP client

What `NativeLinkTcpClient` does with each frame it receives and with each receive that times out.
A message that is no boundary marker is an update; updates are handed on unless the client is in
the descriptor phase.
-/

namespace SmartDashboard.NativeLink

open Execution

/-- The states of `onConnectionState` that a running client reports. -/
inductive ConnectionState
  | connecting
  | connected
  | stale
  deriving DecidableEq, Repr

/-- A call of one of the two callbacks. -/
inductive ClientEvent
  | connectionState (state : ConnectionState)
  | update (e : UpdateEnvelope)
  deriving DecidableEq, Repr

structure TcpClient where
  snapshotPhase : SnapshotPhase := .descriptors
  connected : Bool := false
  lastHeartbeatUs : UInt64 := 0
  deriving DecidableEq, Repr

/-- The frames a server sends. -/
inductive TcpFrame
  | serverHello
  | serverMessage (message : SharedMessage)
  | heartbeat

namespace TcpClient

def handleMessage (client : TcpClient) (message : SharedMessage) :
    TcpClient × List ClientEvent :=
  match readBoundary (readUtf8 message.topicPath) with
  | some .snapshotBegin =>
    ({ client with snapshotPhase := .descriptors, connected := false },
      if client.connected then [.connectionState .connecting] else [])
  | some .descriptorEnd => (client, [])
  | some .stateBegin => ({ client with snapshotPhase := .stateSnapshot }, [])
  | some .stateEnd => (client, [])
  | some .liveBegin =>
    ({ client with snapshotPhase := .live, connected := true },
      if client.connected then [] else [.connectionState .connected])
  | none =>
    (client,
      if client.snapshotPhase ≠ .descriptors ∧ isSentinelTopic message.topicId = false then
        [.update (messageToEnvelope message)]
      else [])

/-- `HandleFrame`; the session ids of the frames are left out. -/
def handleFrame (client : TcpClient) (nowUs : UInt64) : TcpFrame → TcpClient × List ClientEvent
  | .serverHello | .heartbeat => ({ client with lastHeartbeatUs := nowUs }, [])
  | .serverMessage message => { client with lastHeartbeatUs := nowUs }.handleMessage message

/-- The last frame is older than `heartbeatStaleTimeoutMs`. -/
def isStale (client : TcpClient) (heartbeatStaleTimeoutMs : UInt32) (nowUs : UInt64) : Bool :=
  client.lastHeartbeatUs ≤ nowUs &&
    heartbeatStaleTimeoutMs.toUInt64 * 1000 < nowUs - client.lastHeartbeatUs

/-- After a receive that timed out. -/
def maybeReportStale (client : TcpClient) (heartbeatStaleTimeoutMs : UInt32) (nowUs : UInt64) :
    TcpClient × List ClientEvent :=
  if client.lastHeartbeatUs = 0 then (client, [])
  else if client.isStale heartbeatStaleTimeoutMs nowUs then
    ({ client with snapshotPhase := .descriptors, connected := false },
      if client.connected then [.connectionState .stale] else [])
  else (client, [])

/-- What the client reports while it consumes messages in order. -/
def reported (client : TcpClient) (messages : List SharedMessage) : List ClientEvent :=
  (history handleMessage client messages).flatMap Record.output

theorem reported_append (client : TcpClient) (front back : List SharedMessage) :
    client.reported (front ++ back) =
      client.reported front ++ (after handleMessage client front).reported back := by
  rw [reported, history_append, List.flatMap_append]
  rfl

end TcpClient

end SmartDashboard.NativeLink
