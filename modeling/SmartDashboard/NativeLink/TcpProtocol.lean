import SmartDashboard.NativeLink.Handshake
import SmartDashboard.NativeLink.TcpLink

/-!
# The snapshot protocol over TCP

The authority, its carrier, the byte stream and the client's receive loop together: whatever the
authority does, in whatever pieces its frames arrive, a dashboard's callbacks are on their way to
those that the snapshot protocol asks for.

## Main definitions

- `CarriesMessages`: frames with the messages of a connection
- `helloOf`: the hello of a client

## Main results

- `run_speaksProtocol`: from the operations of the authority to the callbacks of the client
- `TcpConnection.run_receivesWrites`: from a client's publishes to the writes of the authority
-/

namespace SmartDashboard.NativeLink

open Execution FramedStream

/-! ### The authority's sendings -/

variable {heartbeatStaleTimeoutMs : UInt32}

/-- The frames carry the messages sent for the connection, with hellos and heartbeats between. -/
def CarriesMessages (connection : Connection) (frames : List ServerFrame) : Prop :=
  frames.filterMap ServerFrame.message? = connection.messages

/-- From the authority's operations to the callbacks: over any pieces of the stream a client is on
its way to the reports that are expected of it, and has made them when all bytes are there. -/
theorem run_speaksProtocol {start : Authority} {ops : List Operation} {j : ℕ}
    (hnew : (start.connections j).sent = [])
    (hlegible : ∀ r ∈ history Authority.step start ops, r.before.Legible j r.input)
    {frames : List ServerFrame}
    (hframes : CarriesMessages ((after Authority.step start ops).connections j) frames)
    {rest : ByteString} {steps : List (UInt64 × Turn)} {loop : Loop FrameHeader TcpWorker}
    (hbytes : received steps ++ rest = serverStream frames)
    (hrun : run (clientNext heartbeatStaleTimeoutMs) clientStart steps = some loop)
    (hcalm : EveryStep (clientNext heartbeatStaleTimeoutMs)
      (Undisturbed (Timely heartbeatStaleTimeoutMs)) clientStart steps) :
    loop.state.events <+:
        expectedReports false ((after Authority.step start ops).connections j).sent ∧
      (rest = [] → loop.state.events =
        expectedReports false ((after Authority.step start ops).connections j).sent) := by
  have hall : ({} : TcpClient).reported (frames.filterMap ServerFrame.message?) =
      expectedReports false ((after Authority.step start ops).connections j).sent := by
    rw [hframes]
    exact TcpClient.reported_of_reports 0 false (Authority.reports_of_legible hnew hlegible)
  obtain ⟨front, back, rfl, hback, hevents⟩ := events_of_undisturbed hbytes hrun hcalm
  rw [← hall, hevents, List.filterMap_append, TcpClient.reported_append]
  refine ⟨List.prefix_append _ _, fun hrest => ?_⟩
  rw [hback hrest]
  exact (List.append_nil _).symm

theorem toBytes_sharedMessage_ne_nil (message : SharedMessage) : message.toBytes ≠ [] := by
  intro hnil
  have hlength := length_toBytes_sharedMessage message
  rw [hnil] at hlength
  exact absurd hlength (by decide)

theorem payload_send_ne_nil (frame : ServerFrame) : frame.send.2 ≠ [] := by
  cases frame with
  | serverHello serverSessionId => exact List.cons_ne_nil _ _
  | serverMessage message => exact toBytes_sharedMessage_ne_nil message
  | heartbeat serverSessionId => exact List.cons_ne_nil _ _

/-- The frames of a session: its hello, then a message after the other. -/
def sessionFrames (connection : Connection) : List ServerFrame :=
  .serverHello 1 :: connection.messages.map .serverMessage

theorem carriesMessages_sessionFrames (connection : Connection) :
    CarriesMessages connection (sessionFrames connection) := by
  rw [CarriesMessages, sessionFrames, List.filterMap_cons_none rfl, List.filterMap_map]
  exact List.filterMap_some

/-- A client that is sent frame by frame what the authority sends stays in its loop. -/
theorem exists_run_wholeFrames (now : UInt64) (frames : List ServerFrame) :
    ∃ loop, run (clientNext heartbeatStaleTimeoutMs) clientStart
      (wholeFrames FrameHeader.toBytes now (frames.map ServerFrame.send)) = some loop := by
  refine ⟨_, run_wholeFrames headerBytes_pos carries_of_mem_send ?_ (accepts_hearFrames frames)
    now {}⟩
  intro frame hframe
  obtain ⟨sent, -, rfl⟩ := List.mem_map.mp hframe
  exact payload_send_ne_nil sent

/-- A dashboard that has its snapshot, and two publishes of the server. -/
def twoMoves : Connection :=
  (after Authority.step {} (Authority.oneDashboard ++ Authority.serverMoves)).connections 0

theorem run_speaksProtocol_twoMoves :
    ∃ loop, run (clientNext 1000) clientStart (wholeFrames FrameHeader.toBytes 1
        ((sessionFrames twoMoves).map ServerFrame.send)) = some loop ∧
      loop.state.events = expectedReports false twoMoves.sent := by
  obtain ⟨loop, hrun⟩ := exists_run_wholeFrames 1 (sessionFrames twoMoves)
  refine ⟨loop, hrun, (run_speaksProtocol rfl (by decide)
    (carriesMessages_sessionFrames twoMoves) ?_ hrun (everyStep_wholeFrames _ _ _)).2 rfl⟩
  rw [List.append_nil, received_wholeFrames, serverStream]

/-! ### The client's publishes -/

/-- The hello that `TryConnect` sends. -/
def helloOf (channelId clientId : ByteString) : HelloPayload where
  channelId := copyUtf8 (ByteBlock.zero clientIdBytes) channelId
  clientId := copyUtf8 (ByteBlock.zero clientIdBytes) clientId

namespace TcpConnection

variable {hello : HelloPayload} {rest : ByteString} {steps : List (Unit × Turn)}
  {loop : Loop FrameHeader TcpConnection}

/-- From the publishes of a client to the writes that the authority makes: each that a message has
room for is received once, in order and under the client's name. -/
theorem run_receivesWrites {channelId clientId : ByteString}
    (hclient : clientId.length < clientIdBytes ∧ 0 ∉ clientId)
    {values : List (ByteString × TopicValue)} (hfits : ∀ v ∈ values, FitsMessage v.1 v.2)
    {frames : List ClientFrame}
    (hframes : frames.filterMap ClientFrame.message? =
      values.map fun v => clientMessage clientId v.1 v.2)
    (hbytes : received steps ++ rest = clientStream (helloOf channelId clientId) frames)
    (hrun : run next accepted steps = some loop)
    (hcalm : EveryStep next (Undisturbed fun _ _ => True) accepted steps) :
    ∃ handled, handled <+: values ∧ (rest = [] → handled = values) ∧
      loop.state.writes.map receiveWrite = handled.map some ∧
      (loop.state.writes ≠ [] → loop.state.clientId = some clientId) := by
  rcases run_hello (.start (by decide) rfl) hbytes hrun hcalm with
    ⟨hstate, -, missing, hmissing, hrest⟩ | ⟨later, hbytes, hrun, hcalm⟩
  · have hsome : rest ≠ [] := by
      rw [hrest]
      exact List.append_ne_nil_of_left_ne_nil hmissing _
    refine ⟨[], List.nil_prefix, fun h => absurd h hsome, ?_, ?_⟩
    · rw [hstate]
      rfl
    · rw [hstate]
      exact fun h => absurd rfl h
  · obtain ⟨-, front, back, rfl, hback, hstate⟩ := run_greeted hbytes hrun hcalm
    rw [List.filterMap_append] at hframes
    obtain ⟨handled, todo, rfl, hhandled, htodo⟩ := List.map_eq_append_iff.mp hframes.symm
    refine ⟨handled, List.prefix_append _ _, fun hrest => ?_, ?_, fun _ => ?_⟩
    · rw [hback hrest, List.filterMap_nil] at htodo
      rw [List.map_eq_nil_iff.mp htodo, List.append_nil]
    · rw [hstate]
      simp only
      rw [← hhandled, List.map_map]
      refine List.map_congr_left fun v hv => ?_
      exact (receiveWrite_clientMessage_iff clientId).mpr (hfits v (List.mem_append_left _ hv))
    · rw [hstate]
      have hname : readUtf8 (helloOf channelId clientId).clientId =
          clipUtf8 clientIdBytes clientId := readUtf8_copyUtf8 (by decide) _ _
      rw [greeted, hname, (clipUtf8_eq_self_iff (by decide)).mpr hclient]

theorem payload_send_ne_nil (frame : ClientFrame) : frame.send.2 ≠ [] := by
  cases frame with
  | clientPublish message => exact toBytes_sharedMessage_ne_nil message
  | heartbeat serverSessionId => exact List.cons_ne_nil _ _

/-- The pieces of a hello and of frames behind it, each in its header and its payload. -/
def wholeStream (hello : HelloPayload) (frames : List ClientFrame) : List (Unit × Turn) :=
  wholeFrames FrameHeader.toBytes ()
    (sendFrame kindClientHello hello.toBytes :: frames.map ClientFrame.send)

theorem received_wholeStream (hello : HelloPayload) (frames : List ClientFrame) :
    received (wholeStream hello frames) = clientStream hello frames := by
  rw [wholeStream, received_wholeFrames, clientStream, encode_cons, encode_cons, encode_nil,
    List.append_nil, List.append_assoc]

theorem next_of_none {receiver : Receiver FrameHeader} (bytes : ByteString) :
    next ⟨receiver, {}⟩ ((), .data bytes) =
      Loop.next helloFraming greet ⟨receiver, {}⟩ ((), .data bytes) := by
  simp [next]

theorem exists_run_wholeStream (hello : HelloPayload) (frames : List ClientFrame) :
    ∃ loop, run next accepted (wholeStream hello frames) = some loop := by
  have hpayload : hello.toBytes ≠ [] := by
    intro hnil
    have hlength := congrArg List.length hnil
    rw [HelloPayload.toBytes, List.length_append, hello.channelId.2] at hlength
    exact absurd hlength (by simp [clientIdBytes])
  rw [wholeStream, wholeFrames, List.flatMap_cons, List.cons_append, List.cons_append,
    List.nil_append, run_cons, accepted, next_of_none,
    next_header (by decide) (carries_hello hello) hpayload, Option.bind_some, run_cons,
    next_of_none, next_payload (carries_hello hello) hpayload (greet_hello () _ hello),
    Option.bind_some, run_next_greeted]
  refine ⟨_, run_wholeFrames headerBytes_pos carries_of_mem_send ?_ (accepts_take frames) () _⟩
  intro frame hframe
  obtain ⟨sent, -, rfl⟩ := List.mem_map.mp hframe
  exact payload_send_ne_nil sent

/-- A topic and a value. -/
def testMove : ByteString × TopicValue := (Authority.testMoveTopic.topicPath, .ofDouble 7)

/-- A heartbeat and one write. -/
def oneWrite : List ClientFrame :=
  [.heartbeat 1, .clientPublish (clientMessage NativeLinkCore.dashboardA testMove.1 testMove.2)]

theorem run_receivesWrites_oneWrite :
    ∃ loop, run next accepted (wholeStream (helloOf [] NativeLinkCore.dashboardA) oneWrite) =
        some loop ∧
      loop.state.writes.map receiveWrite = [some testMove] ∧
      loop.state.clientId = some NativeLinkCore.dashboardA := by
  obtain ⟨loop, hrun⟩ := exists_run_wholeStream (helloOf [] NativeLinkCore.dashboardA) oneWrite
  have hbytes := (List.append_nil _).trans
    (received_wholeStream (helloOf [] NativeLinkCore.dashboardA) oneWrite)
  obtain ⟨handled, -, hall, hwrites, hclient⟩ := run_receivesWrites (by decide)
    (show ∀ v ∈ [testMove], FitsMessage v.1 v.2 by decide) rfl hbytes hrun
    (everyStep_wholeFrames _ _ _)
  rw [hall rfl] at hwrites
  refine ⟨loop, hrun, hwrites, hclient fun hnil => ?_⟩
  rw [hnil] at hwrites
  cases hwrites

end TcpConnection

end SmartDashboard.NativeLink
