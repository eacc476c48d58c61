import Mathlib.Data.List.Chain
import SmartDashboard.NativeLink.TcpFrames

/-!
# The two ends of a TCP connection

`RunRecvLoop` of the client and `ClientLoop` of the authority, turn by turn of their reads. TCP may
cut what was sent into any pieces. While no read times out inside a frame, a client reports what it
would report of the messages alone, and the authority handles the writes that were published, in
order. Whatever arrives, a client's connection states alternate between `Connected` and the others,
so a connection that ends before `Connected` or after `Stale` is not reported at all.

## Main definitions

- `TcpWorker`, `TcpWorker.handle`: the client's worker and what it does with a frame or a timeout
- `hostEvents`: the callbacks of `RunLoop` from `Connecting` on
- `TcpConnection`, `TcpConnection.next`: one thread of the authority, its hello and its writes

## Main results

- `run_hears`, `run_reports`: what a client hears and reports of a stream
- `hostEvents_alternate`: the states that a host is told
- `run_writes`: the writes an authority handles
-/

namespace SmartDashboard.NativeLink

open Execution FramedStream

/-! ### The client -/

/-- The worker of a client, with the callbacks it has made so far. -/
structure TcpWorker where
  client : TcpClient := {}
  serverSessionId : UInt64 := 0
  events : List ClientEvent := []
  deriving DecidableEq

namespace TcpWorker

/-- After the frame was taken for one of the authority's. -/
def handleFrame (worker : TcpWorker) (nowUs : UInt64) (frame : ServerFrame) : TcpWorker :=
  let (client, events) := worker.client.handleFrame nowUs frame.frame
  { client
    serverSessionId := frame.serverSessionId
    events := worker.events ++ events }

def maybeReportStale (worker : TcpWorker) (heartbeatStaleTimeoutMs : UInt32) (nowUs : UInt64) :
    TcpWorker :=
  let (client, events) := worker.client.maybeReportStale heartbeatStaleTimeoutMs nowUs
  { worker with
    client
    events := worker.events ++ events }

/-- The body of `RunRecvLoop` behind its reads; nothing is returned where the loop is left. -/
def handle (heartbeatStaleTimeoutMs : UInt32) (worker : TcpWorker) (nowUs : UInt64) :
    Item FrameHeader → Option TcpWorker
  | .frame header payload => (readServerFrame header payload).map (worker.handleFrame nowUs)
  | .idle => some (worker.maybeReportStale heartbeatStaleTimeoutMs nowUs)

/-- What a worker does that hears the frames one by one; `none` stands for a timeout. -/
def hear (heartbeatStaleTimeoutMs : UInt32) (worker : TcpWorker) :
    UInt64 × Option ServerFrame → TcpWorker
  | (nowUs, some frame) => worker.handleFrame nowUs frame
  | (nowUs, none) => worker.maybeReportStale heartbeatStaleTimeoutMs nowUs

end TcpWorker

/-- `RunRecvLoop` of a client with this stale timeout. -/
def clientNext (heartbeatStaleTimeoutMs : UInt32) :
    Loop FrameHeader TcpWorker → UInt64 × Turn → Option (Loop FrameHeader TcpWorker) :=
  Loop.next tcpFraming (TcpWorker.handle heartbeatStaleTimeoutMs)

/-- A client that is connected and has received nothing. -/
def clientStart : Loop FrameHeader TcpWorker := ⟨.header [], {}⟩

/-- The bytes of the frames an authority sent. -/
def serverStream (frames : List ServerFrame) : ByteString :=
  encode FrameHeader.toBytes (frames.map ServerFrame.send)

/-- A callback to the host: one of a running client, or `Disconnected`. -/
inductive HostEvent
  | running (e : ClientEvent)
  | disconnected
  deriving DecidableEq

/-- The callbacks of `RunLoop`, which has dialled or not and has left its receive loop. -/
def hostEvents (dialed stopRequested : Bool) (worker : TcpWorker) : List HostEvent :=
  .running (.connectionState .connecting) ::
    if dialed then
      worker.events.map .running ++ if worker.client.connected then [.disconnected] else []
    else if stopRequested then [] else [.disconnected]

/-! ### The authority -/

/-- The stream of a hello, which `ClientLoop` reads before anything else. -/
def helloFraming : Framing FrameHeader where
  headerBytes := 12
  readHeader bytes :=
    let header := FrameHeader.ofBytes bytes
    if header.magic = kFrameMagic ∧ header.version = kFrameVersion ∧
        header.kind = kindClientHello ∧ header.payloadBytes.toNat = helloBytes then some header
    else none
  payloadBytes header := header.payloadBytes.toNat

/-- The thread of one connection: the client's id once its hello has been read, and the writes that
went to `HandleClientWriteLocked`. -/
structure TcpConnection where
  clientId : Option ByteString := none
  writes : List SharedMessage := []
  deriving DecidableEq

namespace TcpConnection

def greet (connection : TcpConnection) (_ : Unit) : Item FrameHeader → Option TcpConnection
  | .frame _ payload =>
    some { connection with clientId := some (readUtf8 (HelloPayload.ofBytes payload).clientId) }
  | .idle => none

def handleFrame (connection : TcpConnection) : ClientFrame → TcpConnection
  | .heartbeat _ => connection
  | .clientPublish message => { connection with writes := connection.writes ++ [message] }

def handle (connection : TcpConnection) (_ : Unit) : Item FrameHeader → Option TcpConnection
  | .frame header payload => (readClientFrame header payload).map connection.handleFrame
  | .idle => some connection

/-- `ClientLoop`, turn by turn. The hello is read without a timeout. -/
def next (loop : Loop FrameHeader TcpConnection) (step : Unit × Turn) :
    Option (Loop FrameHeader TcpConnection) :=
  match loop.state.clientId with
  | none => if step.2 = .timeout then none else Loop.next helloFraming greet loop step
  | some _ => Loop.next tcpFraming handle loop step

/-- A connection that was accepted. -/
def accepted : Loop FrameHeader TcpConnection := ⟨.header [], {}⟩

end TcpConnection

/-- The bytes a client sends: its hello, then its frames. -/
def clientStream (hello : HelloPayload) (frames : List ClientFrame) : ByteString :=
  encode FrameHeader.toBytes [sendFrame kindClientHello hello.toBytes] ++
    encode FrameHeader.toBytes (frames.map ClientFrame.send)

/-! ### What a client hears -/

section Hearing

variable {heartbeatStaleTimeoutMs : UInt32}

theorem headerBytes_pos : 0 < tcpFraming.headerBytes := by decide

theorem carries_of_mem_send {frames : List ServerFrame} :
    ∀ frame ∈ frames.map ServerFrame.send, tcpFraming.Carries FrameHeader.toBytes frame := by
  intro frame hmem
  obtain ⟨sent, -, rfl⟩ := List.mem_map.mp hmem
  exact sent.carries

/-- What the item of a receive loop says to the worker. -/
def heardOf (item : UInt64 × Item FrameHeader) : UInt64 × Option ServerFrame :=
  (item.1, item.2.frame?.bind fun frame => readServerFrame frame.1 frame.2)

theorem handle_frame_send (worker : TcpWorker) (nowUs : UInt64) (frame : ServerFrame) :
    worker.handle heartbeatStaleTimeoutMs nowUs (.frame frame.send.1 frame.send.2) =
      some (worker.handleFrame nowUs frame) := by
  rw [TcpWorker.handle, readServerFrame_send, Option.map_some]

/-- The times of the timeouts among what was heard. -/
def waited? : UInt64 × Option ServerFrame → Option UInt64
  | (nowUs, none) => some nowUs
  | (_, some _) => none

/-- The frames of items that are the frames of the authority. -/
theorem filterMap_heardOf {items : List (UInt64 × Item FrameHeader)} {frames : List ServerFrame}
    (h : (items.filterMap fun item => item.2.frame?) = frames.map ServerFrame.send) :
    (items.map heardOf).filterMap Prod.snd = frames := by
  have hread : (items.map heardOf).filterMap Prod.snd =
      (items.filterMap fun item => item.2.frame?).filterMap
        fun frame => readServerFrame frame.1 frame.2 := by
    rw [List.filterMap_map, List.filterMap_filterMap]
    rfl
  rw [hread, h, List.filterMap_map]
  have hsend : ((fun frame : FrameHeader × ByteString => readServerFrame frame.1 frame.2) ∘
      ServerFrame.send) = some := by
    funext frame
    exact readServerFrame_send frame
  rw [hsend, List.filterMap_some]

theorem filterMap_waited {items : List (UInt64 × Item FrameHeader)} {frames : List ServerFrame}
    (h : (items.filterMap fun item => item.2.frame?) = frames.map ServerFrame.send) :
    (items.map heardOf).filterMap waited? = items.filterMap idle? := by
  rw [List.filterMap_map]
  refine List.filterMap_congr fun item hitem => ?_
  obtain ⟨nowUs, item⟩ := item
  cases item with
  | idle => rfl
  | frame header payload =>
    have hmem : (header, payload) ∈ frames.map ServerFrame.send := by
      rw [← h, List.mem_filterMap]
      exact ⟨_, hitem, rfl⟩
    obtain ⟨frame, -, hframe⟩ := List.mem_map.mp hmem
    have hread := readServerFrame_send frame
    rw [hframe] at hread
    rw [Function.comp_apply, heardOf, Item.frame?, Option.bind_some, hread]
    rfl

/-- What a worker has heard of a stream of frames, of which `rest` is still under way: all frames
that have arrived as a whole, in order, and the timeouts of its reads. -/
structure Hears (heartbeatStaleTimeoutMs : UInt32) (frames : List ServerFrame) (rest : ByteString)
    (steps : List (UInt64 × Turn)) (worker : TcpWorker) (loop : Loop FrameHeader TcpWorker)
    (heard : List (UInt64 × Option ServerFrame)) (todo : List ServerFrame) : Prop where
  frames_eq : frames = heard.filterMap Prod.snd ++ todo
  nothing_left : rest = [] → todo = []
  waits_eq : heard.filterMap waited? = steps.filterMap timeout?
  times : (heard.map Prod.fst).Sublist (steps.map Prod.fst)
  state_eq : loop.state = heard.foldl (TcpWorker.hear heartbeatStaleTimeoutMs) worker
  stays : loop.receiver ≠ .left

/-- A hello and a heartbeat of session 7. -/
def twoFrames : List ServerFrame := [.serverHello 7, .heartbeat 7]

/-- The two frames in five pieces, one of which ends inside the second header, behind a timeout. -/
def fivePieces : List (UInt64 × Turn) :=
  let bytes := serverStream twoFrames
  [(1, .timeout), (2, .data (bytes.take 12)), (3, .data ((bytes.drop 12).take 8)),
    (4, .data ((bytes.drop 20).take 5)), (5, .data ((bytes.drop 25).take 7)),
    (6, .data (bytes.drop 32))]

/-- The worker that has received them. -/
def toldTwoFrames : Loop FrameHeader TcpWorker :=
  ⟨.header [], { client := { lastHeartbeatUs := 6 }, serverSessionId := 7 }⟩

theorem run_fivePieces : run (clientNext 1000) clientStart fivePieces = some toldTwoFrames := rfl

end Hearing

/-! ### What a client reports -/

section Reporting

/-- The heartbeat time of a client has no influence on what it does with a message. -/
theorem handleMessage_lastHeartbeatUs (client : TcpClient) (nowUs : UInt64)
    (message : SharedMessage) :
    ({ client with lastHeartbeatUs := nowUs }).handleMessage message =
      ({ (client.handleMessage message).1 with lastHeartbeatUs := nowUs },
        (client.handleMessage message).2) := by
  rw [TcpClient.handleMessage, TcpClient.handleMessage]
  cases readBoundary (readUtf8 message.topicPath) with
  | none => rfl
  | some boundary => cases boundary <;> rfl

theorem reported_lastHeartbeatUs (client : TcpClient) (nowUs : UInt64)
    (messages : List SharedMessage) :
    ({ client with lastHeartbeatUs := nowUs }).reported messages = client.reported messages := by
  induction messages generalizing client with
  | nil => rfl
  | cons message messages ih =>
    have hhead := TcpClient.reported_append client [message] messages
    have hhead' := TcpClient.reported_append { client with lastHeartbeatUs := nowUs } [message]
      messages
    rw [List.singleton_append] at hhead hhead'
    rw [hhead, hhead']
    simp only [TcpClient.reported, history_cons, history_nil, List.flatMap_cons, List.flatMap_nil,
      List.append_nil, after_cons, after_nil, handleMessage_lastHeartbeatUs] at ih ⊢
    rw [ih]

/-- The worker would not take the connection for stale. -/
def Timely (heartbeatStaleTimeoutMs : UInt32) (worker : TcpWorker) (nowUs : UInt64) : Prop :=
  worker.client.lastHeartbeatUs = 0 ∨ worker.client.isStale heartbeatStaleTimeoutMs nowUs = false

instance (heartbeatStaleTimeoutMs : UInt32) (worker : TcpWorker) (nowUs : UInt64) :
    Decidable (Timely heartbeatStaleTimeoutMs worker nowUs) := inferInstanceAs (Decidable (_ ∨ _))

variable {heartbeatStaleTimeoutMs : UInt32}

theorem maybeReportStale_of_timely {worker : TcpWorker} {nowUs : UInt64}
    (h : Timely heartbeatStaleTimeoutMs worker nowUs) :
    worker.maybeReportStale heartbeatStaleTimeoutMs nowUs = worker := by
  have hclient : worker.client.maybeReportStale heartbeatStaleTimeoutMs nowUs =
      (worker.client, []) := by
    rw [TcpClient.maybeReportStale]
    rcases h with h | h
    · rw [if_pos h]
    · rw [h, if_neg Bool.false_ne_true, ite_self]
  rw [TcpWorker.maybeReportStale, hclient]
  simp only [List.append_nil]

/-- A worker that hears one frame after the other, with timeouts that change nothing. -/
def hearFrames (worker : TcpWorker) (nowUs : UInt64) (item : Item FrameHeader) : TcpWorker :=
  match (heardOf (nowUs, item)).2 with
  | some frame => worker.handleFrame nowUs frame
  | none => worker

theorem events_handleFrame (worker : TcpWorker) (nowUs : UInt64) (frame : ServerFrame)
    (messages : List SharedMessage) :
    (worker.handleFrame nowUs frame).events ++
        (worker.handleFrame nowUs frame).client.reported messages =
      worker.events ++ worker.client.reported (frame.message?.toList ++ messages) := by
  cases frame with
  | serverHello serverSessionId =>
    simp only [TcpWorker.handleFrame, ServerFrame.frame, TcpClient.handleFrame, List.append_nil,
      ServerFrame.message?, Option.toList_none, List.nil_append]
    rw [reported_lastHeartbeatUs]
  | heartbeat serverSessionId =>
    simp only [TcpWorker.handleFrame, ServerFrame.frame, TcpClient.handleFrame, List.append_nil,
      ServerFrame.message?, Option.toList_none, List.nil_append]
    rw [reported_lastHeartbeatUs]
  | serverMessage message =>
    simp only [TcpWorker.handleFrame, ServerFrame.frame, TcpClient.handleFrame,
      handleMessage_lastHeartbeatUs, ServerFrame.message?, Option.toList_some]
    rw [reported_lastHeartbeatUs, TcpClient.reported_append, List.append_assoc]
    simp only [TcpClient.reported, history_cons, history_nil, List.flatMap_cons, List.flatMap_nil,
      List.append_nil, after_cons, after_nil]

theorem events_hearFrames {items : List (UInt64 × Item FrameHeader)} {frames : List ServerFrame}
    (h : (items.filterMap fun item => item.2.frame?) = frames.map ServerFrame.send)
    (worker : TcpWorker) :
    (items.foldl (fun worker item => hearFrames worker item.1 item.2) worker).events =
      worker.events ++ worker.client.reported (frames.filterMap ServerFrame.message?) := by
  induction items generalizing worker frames with
  | nil =>
    obtain rfl : frames = [] := List.map_eq_nil_iff.mp h.symm
    exact (List.append_nil _).symm
  | cons item items ih =>
    obtain ⟨nowUs, item⟩ := item
    cases item with
    | idle => exact ih h worker
    | frame header payload =>
      obtain ⟨frame, frames', rfl, hframe, hrest⟩ := List.map_eq_cons_iff.mp h.symm
      have hread := readServerFrame_send frame
      rw [hframe] at hread
      have hhear : hearFrames worker nowUs (.frame header payload) =
          worker.handleFrame nowUs frame := by
        rw [hearFrames, heardOf, Item.frame?, Option.bind_some, hread]
      rw [List.foldl_cons, hhear, ih hrest.symm, events_handleFrame, List.filterMap_cons]
      cases frame.message? <;> rfl

/-- A worker takes the frames of an authority, and a timeout that comes in time. -/
theorem accepts_hearFrames (frames : List ServerFrame) :
    Accepts (TcpWorker.handle heartbeatStaleTimeoutMs) (Timely heartbeatStaleTimeoutMs) hearFrames
      (frames.map ServerFrame.send) := by
  refine ⟨fun frame hmem worker nowUs => ?_, fun worker nowUs htimely => ?_⟩
  · obtain ⟨sent, -, rfl⟩ := List.mem_map.mp hmem
    rw [handle_frame_send, hearFrames, heardOf, Item.frame?, Option.bind_some,
      readServerFrame_send]
  · rw [TcpWorker.handle, maybeReportStale_of_timely htimely]
    rfl

/-- The frames that have arrived, and what their messages alone make a client report. -/
theorem events_of_undisturbed {frames : List ServerFrame} {rest : ByteString}
    {steps : List (UInt64 × Turn)} {loop : Loop FrameHeader TcpWorker}
    (hbytes : received steps ++ rest = serverStream frames)
    (hrun : run (clientNext heartbeatStaleTimeoutMs) clientStart steps = some loop)
    (hcalm : EveryStep (clientNext heartbeatStaleTimeoutMs)
      (Undisturbed (Timely heartbeatStaleTimeoutMs)) clientStart steps) :
    ∃ front back, frames = front ++ back ∧ (rest = [] → back = []) ∧
      loop.state.events = ({} : TcpClient).reported (front.filterMap ServerFrame.message?) := by
  obtain ⟨items, todo, hframes, -, -, hstands, hstate⟩ :=
    run_frames headerBytes_pos carries_of_mem_send (accepts_hearFrames frames)
      (.start headerBytes_pos hbytes.symm) hrun hcalm
  obtain ⟨front, back, rfl, hfront, rfl⟩ := List.map_eq_append_iff.mp hframes
  refine ⟨front, back, rfl, ?_, ?_⟩
  · rintro rfl
    exact List.map_eq_nil_iff.mp (hstands.nil carries_of_mem_send)
  · rw [hstate]
    exact events_hearFrames hfront.symm clientStart.state

/-- Whether a callback tells the host that it is connected. -/
def HostEvent.connected? : HostEvent → Option Bool
  | .running (.connectionState state) => some (decide (state = .connected))
  | .running (.update _) => none
  | .disconnected => some false

/-- What a host is told of the connection, one callback after the other. -/
def toldHost (events : List HostEvent) : List Bool := events.filterMap HostEvent.connected?

/-- The callbacks tell of the change from one state to the other, if there is one. -/
def Tells (before now : Bool) (events : List ClientEvent) : Prop :=
  toldHost (events.map .running) = if before = now then [] else [now]

theorem tells_handleMessage (client : TcpClient) (message : SharedMessage) :
    Tells client.connected (client.handleMessage message).1.connected
      (client.handleMessage message).2 := by
  rw [TcpClient.handleMessage, Tells]
  cases hconnected : client.connected with
  | true =>
    cases readBoundary (readUtf8 message.topicPath) with
    | none =>
      simp only [hconnected, if_true]
      split_ifs <;> rfl
    | some boundary => cases boundary <;> simp [hconnected, toldHost, HostEvent.connected?]
  | false =>
    cases readBoundary (readUtf8 message.topicPath) with
    | none =>
      simp only [hconnected, if_true]
      split_ifs <;> rfl
    | some boundary => cases boundary <;> simp [hconnected, toldHost, HostEvent.connected?]

theorem tells_maybeReportStale (client : TcpClient) (nowUs : UInt64) :
    Tells client.connected (client.maybeReportStale heartbeatStaleTimeoutMs nowUs).1.connected
      (client.maybeReportStale heartbeatStaleTimeoutMs nowUs).2 := by
  have hsame : Tells client.connected client.connected [] := (if_pos rfl).symm
  rw [TcpClient.maybeReportStale]
  by_cases hsilent : client.lastHeartbeatUs = 0
  · rw [if_pos hsilent]
    exact hsame
  · rw [if_neg hsilent]
    by_cases hstale : client.isStale heartbeatStaleTimeoutMs nowUs = true
    · rw [if_pos hstale, Tells]
      cases client.connected <;> rfl
    · rw [if_neg hstale]
      exact hsame

/-- The host was told the truth at every change. -/
structure ToldOf (worker : TcpWorker) : Prop where
  alternates : (false :: toldHost (worker.events.map .running)).IsChain (· ≠ ·)
  last : (false :: toldHost (worker.events.map .running)).getLast? = some worker.client.connected

theorem ToldOf.append {worker worker' : TcpWorker} (h : ToldOf worker) {events : List ClientEvent}
    (hevents : worker'.events = worker.events ++ events)
    (htells : Tells worker.client.connected worker'.client.connected events) : ToldOf worker' := by
  have htold : false :: toldHost (worker'.events.map .running) =
      (false :: toldHost (worker.events.map .running)) ++ toldHost (events.map .running) := by
    rw [hevents, toldHost, List.map_append, List.filterMap_append]
    rfl
  rw [Tells] at htells
  by_cases hsame : worker.client.connected = worker'.client.connected
  · rw [if_pos hsame] at htells
    rw [htells, List.append_nil] at htold
    exact ⟨htold ▸ h.alternates, by rw [htold, h.last, hsame]⟩
  · rw [if_neg hsame] at htells
    rw [htells] at htold
    constructor
    · rw [htold, List.isChain_append]
      refine ⟨h.alternates, List.isChain_singleton _, fun x hx y hy => ?_⟩
      rw [h.last] at hx
      obtain rfl := Option.some.inj hx
      obtain rfl := Option.some.inj hy
      exact hsame
    · rw [htold, List.getLast?_concat]

theorem ToldOf.next {loop loop' : Loop FrameHeader TcpWorker} {step : UInt64 × Turn}
    (h : ToldOf loop.state) (hnext : clientNext heartbeatStaleTimeoutMs loop step = some loop') :
    ToldOf loop'.state := by
  rw [clientNext, Loop.next] at hnext
  cases hturn : tcpFraming.turn loop.receiver step.2 with
  | none => simp [hturn] at hnext
  | some outcome =>
    obtain ⟨receiver, item⟩ := outcome
    cases item with
    | none =>
      simp only [hturn, Option.some.injEq] at hnext
      exact hnext ▸ h
    | some item =>
      simp only [hturn] at hnext
      cases hhandle : TcpWorker.handle heartbeatStaleTimeoutMs loop.state step.1 item with
      | none =>
        simp only [hhandle, Option.some.injEq] at hnext
        exact hnext ▸ h
      | some worker =>
        simp only [hhandle, Option.some.injEq] at hnext
        subst hnext
        cases item with
        | idle =>
          obtain rfl := Option.some.inj hhandle
          exact h.append rfl (tells_maybeReportStale loop.state.client step.1)
        | frame header payload =>
          obtain ⟨frame, -, rfl⟩ := Option.map_eq_some_iff.mp hhandle
          cases frame with
          | serverHello serverSessionId => exact h.append rfl (if_pos rfl).symm
          | heartbeat serverSessionId => exact h.append rfl (if_pos rfl).symm
          | serverMessage message =>
            exact h.append rfl (tells_handleMessage { loop.state.client with
              lastHeartbeatUs := step.1 } message)

end Reporting

/-! ### What the authority handles -/

namespace TcpConnection

section Writing

variable {hello : HelloPayload} {rest : ByteString} {steps : List (Unit × Turn)}
  {loop : Loop FrameHeader TcpConnection}

theorem carries_hello (hello : HelloPayload) :
    helloFraming.Carries FrameHeader.toBytes (sendFrame kindClientHello hello.toBytes) := by
  have hlength : hello.toBytes.length = helloBytes := by
    rw [HelloPayload.toBytes, List.length_append, hello.channelId.2, hello.clientId.2, helloBytes]
  refine ⟨length_toBytes_frameHeader _, ?_, ?_⟩
  · rw [helloFraming, sendFrame]
    simp only [FrameHeader.ofBytes_toBytes, FrameHeader.ofPayload, hlength]
    exact if_pos ⟨trivial, trivial, trivial, rfl⟩
  · rw [helloFraming, sendFrame]
    simp only [FrameHeader.ofPayload, hlength]
    rfl

/-- The thread after the hello. -/
def greeted (hello : HelloPayload) : TcpConnection where
  clientId := some (readUtf8 hello.clientId)

theorem greet_hello (now : Unit) (header : FrameHeader) (hello : HelloPayload) :
    greet {} now (.frame header hello.toBytes) = some (greeted hello) := by
  rw [greet, HelloPayload.ofBytes_toBytes]
  rfl

/-- The thread still waits for the rest of the hello, or it has gone on to the frames. -/
theorem run_hello {receiver : Receiver FrameHeader} {missing frames : ByteString}
    (hstands : helloFraming.StandsAt FrameHeader.toBytes receiver
      [sendFrame kindClientHello hello.toBytes] missing)
    (hbytes : received steps ++ rest = missing ++ frames)
    (hrun : run next ⟨receiver, {}⟩ steps = some loop)
    (hcalm : EveryStep next (Undisturbed fun _ _ => True) ⟨receiver, {}⟩ steps) :
    (loop.state = {} ∧ loop.receiver ≠ .left ∧ ∃ missing', missing' ≠ [] ∧
      rest = missing' ++ frames) ∨
      ∃ later, received later ++ rest = frames ∧
        run next ⟨.header [], greeted hello⟩ later = some loop ∧
        EveryStep next (Undisturbed fun _ _ => True) ⟨.header [], greeted hello⟩ later := by
  have hhello : ∀ frame ∈ [sendFrame kindClientHello hello.toBytes],
      helloFraming.Carries FrameHeader.toBytes frame := by
    intro frame hmem
    rw [List.mem_singleton.mp hmem]
    exact carries_hello hello
  induction steps generalizing receiver missing with
  | nil =>
    obtain rfl : ⟨receiver, {}⟩ = loop := Option.some.inj hrun
    refine .inl ⟨rfl, ?_, missing, ?_, hbytes⟩
    · rintro hleft
      have hwaits := hstands.waits
      rw [show receiver = .left from hleft] at hwaits
      exact hwaits
    · rintro rfl
      exact List.cons_ne_nil _ _ (hstands.nil hhello)
  | cons step steps ih =>
    obtain ⟨middle, hnext, hrun⟩ := run_cons_eq_some.mp hrun
    obtain ⟨⟨hended, -⟩, hcalm⟩ := hcalm
    have hcalm := hcalm middle hnext
    obtain ⟨now, piece⟩ := step
    cases piece with
    | ended => exact absurd rfl hended
    | timeout => simp [next] at hnext
    | data bytes =>
      have hsplit : received ((now, .data bytes) :: steps) ++ rest =
          bytes ++ (received steps ++ rest) := by
        simp only [received, List.flatMap_cons, Turn.bytes, List.append_assoc]
      simp only [next, reduceCtorEq, if_false, Loop.next] at hnext
      cases hturn : helloFraming.turn receiver (.data bytes) with
      | none => simp [hturn] at hnext
      | some outcome =>
        obtain ⟨receiver', item⟩ := outcome
        have hroom : bytes.length ≤ missing.length := by
          rw [Framing.turn, Option.ite_none_right_eq_some] at hturn
          exact hturn.1.2.trans (wanted_le (carries_hello hello) hstands)
        rw [hsplit] at hbytes
        have hprefix : bytes <+: missing ++ frames := hbytes ▸ List.prefix_append bytes _
        obtain ⟨missing', rfl⟩ : bytes <+: missing :=
          List.prefix_of_prefix_length_le hprefix (List.prefix_append missing frames) hroom
        rw [List.append_assoc, List.append_cancel_left_eq] at hbytes
        rcases turn_data (by decide) hhello hstands hturn with
          ⟨rfl, hstands⟩ | ⟨frame, frames', hframes, rfl, hstands⟩
        · simp only [hturn, Option.some.injEq] at hnext
          subst hnext
          exact ih hstands hbytes hrun hcalm
        · obtain ⟨rfl, rfl⟩ := List.cons_eq_cons.mp hframes
          simp only [hturn, sendFrame, greet_hello, Option.some.injEq] at hnext
          subst hnext
          obtain ⟨hpending, rfl⟩ := List.append_eq_nil_iff.mp hstands.stream.symm
          obtain rfl := pending_eq_nil (by decide) hstands.waits hpending
          exact .inr ⟨steps, hbytes, hrun, hcalm⟩

/-- A thread that has read its hello stays with the client it was told of. -/
theorem clientId_of_next {loop' : Loop FrameHeader TcpConnection} {step : Unit × Turn}
    {clientId : ByteString} (h : loop.state.clientId = some clientId)
    (hnext : next loop step = some loop') : loop'.state.clientId = some clientId := by
  simp only [next, h, Loop.next] at hnext
  cases hturn : tcpFraming.turn loop.receiver step.2 with
  | none => simp [hturn] at hnext
  | some outcome =>
    obtain ⟨receiver, item⟩ := outcome
    cases item with
    | none =>
      simp only [hturn, Option.some.injEq] at hnext
      exact hnext ▸ h
    | some item =>
      simp only [hturn] at hnext
      cases hhandle : handle loop.state step.1 item with
      | none =>
        simp only [hhandle, Option.some.injEq] at hnext
        exact hnext ▸ h
      | some connection =>
        simp only [hhandle, Option.some.injEq] at hnext
        subst hnext
        cases item with
        | idle =>
          obtain rfl := Option.some.inj hhandle
          exact h
        | frame header payload =>
          obtain ⟨frame, -, rfl⟩ := Option.map_eq_some_iff.mp hhandle
          cases frame with
          | heartbeat serverSessionId => exact h
          | clientPublish message => exact h

theorem carries_of_mem_send {frames : List ClientFrame} :
    ∀ frame ∈ frames.map ClientFrame.send, tcpFraming.Carries FrameHeader.toBytes frame := by
  intro frame hmem
  obtain ⟨sent, -, rfl⟩ := List.mem_map.mp hmem
  exact sent.carries

/-- A thread that takes one frame after the other. -/
def take (connection : TcpConnection) (_ : Unit) (item : Item FrameHeader) : TcpConnection :=
  match item.frame?.bind fun frame => readClientFrame frame.1 frame.2 with
  | some frame => connection.handleFrame frame
  | none => connection

theorem take_frame_send (connection : TcpConnection) (now : Unit) (frame : ClientFrame) :
    connection.take now (.frame frame.send.1 frame.send.2) = connection.handleFrame frame := by
  rw [take, Item.frame?, Option.bind_some, readClientFrame_send]

theorem state_take {items : List (Unit × Item FrameHeader)} {frames : List ClientFrame}
    (h : (items.filterMap fun item => item.2.frame?) = frames.map ClientFrame.send)
    (connection : TcpConnection) :
    items.foldl (fun connection item => connection.take item.1 item.2) connection =
      { connection with
        writes := connection.writes ++ frames.filterMap ClientFrame.message? } := by
  induction items generalizing connection frames with
  | nil =>
    obtain rfl : frames = [] := List.map_eq_nil_iff.mp h.symm
    rw [List.filterMap_nil, List.append_nil, List.foldl_nil]
  | cons item items ih =>
    obtain ⟨now, item⟩ := item
    cases item with
    | idle => exact ih h connection
    | frame header payload =>
      obtain ⟨frame, frames', rfl, hframe, hrest⟩ := List.map_eq_cons_iff.mp h.symm
      have htake := take_frame_send connection now frame
      rw [hframe] at htake
      rw [List.foldl_cons, htake, ih hrest.symm]
      cases frame with
      | heartbeat serverSessionId => rfl
      | clientPublish message =>
        rw [handleFrame, List.filterMap_cons, ClientFrame.message?, List.append_assoc]
        rfl

/-- The thread takes the frames of a client, and waits in between. -/
theorem accepts_take (frames : List ClientFrame) :
    Accepts handle (fun _ _ => True) take (frames.map ClientFrame.send) := by
  refine ⟨fun frame hmem connection now => ?_, fun connection now _ => rfl⟩
  obtain ⟨sent, -, rfl⟩ := List.mem_map.mp hmem
  rw [take_frame_send, handle, readClientFrame_send, Option.map_some]

theorem next_of_greeted (loop : Loop FrameHeader TcpConnection) (step : Unit × Turn)
    (h : loop.state.clientId = some (readUtf8 hello.clientId)) :
    next loop step = Loop.next tcpFraming handle loop step := by
  rw [next, h]

/-- Behind the hello the loop is that of the frames. -/
theorem run_next_greeted (later : List (Unit × Turn)) :
    run next ⟨.header [], greeted hello⟩ later =
      run (Loop.next tcpFraming handle) ⟨.header [], greeted hello⟩ later :=
  run_congr next_of_greeted (fun _ _ _ h hnext => clientId_of_next h hnext) rfl

/-- Behind the hello the thread takes the frames that have arrived. -/
theorem run_greeted {frames : List ClientFrame} {later : List (Unit × Turn)}
    (hbytes : received later ++ rest = encode FrameHeader.toBytes (frames.map ClientFrame.send))
    (hrun : run next ⟨.header [], greeted hello⟩ later = some loop)
    (hcalm : EveryStep next (Undisturbed fun _ _ => True) ⟨.header [], greeted hello⟩ later) :
    loop.receiver ≠ .left ∧ ∃ front back, frames = front ++ back ∧ (rest = [] → back = []) ∧
      loop.state = { greeted hello with writes := front.filterMap ClientFrame.message? } := by
  rw [run_next_greeted] at hrun
  obtain ⟨items, todo, hframes, -, -, hstands, hstate⟩ :=
    run_frames headerBytes_pos carries_of_mem_send (accepts_take frames)
      (.start headerBytes_pos hbytes.symm) hrun
      (hcalm.of_congr next_of_greeted (fun _ _ _ h hnext => clientId_of_next h hnext) rfl)
  obtain ⟨front, back, rfl, hfront, rfl⟩ := List.map_eq_append_iff.mp hframes
  rw [state_take hfront.symm] at hstate
  refine ⟨?_, front, back, rfl, ?_, hstate⟩
  · intro hleft
    have hwaits := hstands.waits
    rw [hleft] at hwaits
    exact hwaits
  · rintro rfl
    exact List.map_eq_nil_iff.mp (hstands.nil carries_of_mem_send)

/-- What the authority has handled of a client's stream, of which `rest` is still under way. -/
structure Handled (hello : HelloPayload) (rest : ByteString) (connection : TcpConnection)
    (front back : List ClientFrame) : Prop where
  writes_eq : connection.writes = front.filterMap ClientFrame.message?
  clientId_eq : connection.clientId = none ∧ front = [] ∧ rest ≠ [] ∨
    connection.clientId = some (readUtf8 hello.clientId)
  nothing_left : rest = [] → back = []

/-- A hello with empty names and a heartbeat, in pieces that cut both. -/
def helloPieces : List (Unit × Turn) :=
  let bytes := clientStream {} [.heartbeat 7]
  [((), .data (bytes.take 7)), ((), .data ((bytes.drop 7).take 5)),
    ((), .data ((bytes.drop 12).take 128)), ((), .timeout),
    ((), .data ((bytes.drop 140).take 12)), ((), .data (bytes.drop 152))]

end Writing

end TcpConnection

end SmartDashboard.NativeLink
