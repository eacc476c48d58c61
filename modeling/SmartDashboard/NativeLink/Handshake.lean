import SmartDashboard.NativeLink.Broadcast
import SmartDashboard.NativeLink.Client

/-!
# The snapshot protocol, end to end

A client that consumes what the authority sends for its connection hands on the state updates of
each snapshot, then reports that it is connected, then hands on what is sent outside of snapshots.
It does so as long as no path that it has to read as a topic is read as a boundary marker, and no
topic id as the id of one.
-/

namespace SmartDashboard.NativeLink

open Execution

/-- An envelope as it arrives. -/
def arrived (e : UpdateEnvelope) : UpdateEnvelope := messageToEnvelope (serverMessage e)

/-- What a client is to report of one sending; `live` tells whether it has had a snapshot. -/
def Sending.expected (live : Bool) : Sending → List ClientEvent
  | .snapshot _ events =>
    (if live then [.connectionState .connecting] else []) ++
      (NativeLinkCore.snapshotUpdates ⟨events⟩).map (fun e => .update (arrived e)) ++
        [.connectionState .connected]
  | .envelope e => if live then [.update (arrived e)] else []

/-- What a client is to report of everything sent to it: of each snapshot the state updates and
then, once, that it is connected; of every later envelope one update. -/
def expectedReports : Bool → List Sending → List ClientEvent
  | _, [] => []
  | live, sending :: sent =>
    sending.expected live ++ expectedReports (live || sending.isSnapshot) sent

/-- A client reads the path and the topic id as those of a topic. -/
def ReadsAsTopic (topicPath : ByteString) (topicId : UInt64) : Prop :=
  readBoundary (clipUtf8 topicPathBytes topicPath) = none ∧
    isSentinelTopic topicId.toUInt32 = false

instance (topicPath : ByteString) (topicId : UInt64) :
    Decidable (ReadsAsTopic topicPath topicId) :=
  inferInstanceAs (Decidable (_ ∧ _))

/-- A client that skips the descriptor of the topic does not take it for the start of a phase, and
reads the topic as one if it is replayed. -/
def ReadsInSnapshot (topic : TopicRuntime) : Prop :=
  readBoundary (clipUtf8 topicPathBytes topic.descriptor.topicPath) ≠ some .stateBegin ∧
    readBoundary (clipUtf8 topicPathBytes topic.descriptor.topicPath) ≠ some .liveBegin ∧
      (NativeLinkCore.isReplayed topic → ReadsAsTopic topic.descriptor.topicPath topic.topicId)

instance (topic : TopicRuntime) : Decidable (ReadsInSnapshot topic) :=
  inferInstanceAs (Decidable (_ ∧ _ ∧ _))

/-- The topic id that the events of a write carry: none for a topic that is not registered. -/
def topicIdOf (core : NativeLinkCore) (topicPath : ByteString) : UInt64 :=
  ((core.findTopic topicPath).map TopicRuntime.topicId).getD 0

namespace Authority

/-- The names an operation sends to the connection `j` are read as they are meant: the topics of a
snapshot, the events queued for `j` when it writes, the topic it writes and that of a broadcast. -/
def Legible (j : ℕ) (authority : Authority) (op : Operation) : Prop :=
  (authority.connections j).ready →
    (snapshotTarget op = some j → ∀ topic ∈ authority.core.topics, ReadsInSnapshot topic) ∧
    ∀ write ∈ authority.coreWrite op,
      (writer op = some j →
        ∀ e ∈ NativeLinkCore.queue write.2.2.sourceClientId write.1,
          ReadsAsTopic e.topicPath e.topicId) ∧
      (write.1.rejection write.2.2 = none ∨
          writer op = some j ∧ write.1.IsConnected write.2.2.sourceClientId →
        ReadsAsTopic write.2.2.topicPath (topicIdOf write.1 write.2.2.topicPath))

instance (j : ℕ) (authority : Authority) (op : Operation) :
    Decidable (authority.Legible j op) :=
  inferInstanceAs (Decidable (_ → _ ∧ ∀ _ ∈ authority.coreWrite op, _))

end Authority

/-! ### One sending -/

section Sending

namespace TcpClient

/-- The client between two sendings: it has had a snapshot or not. -/
def settled (lastHeartbeatUs : UInt64) (live : Bool) : TcpClient :=
  { snapshotPhase := if live then .live else .descriptors
    connected := live
    lastHeartbeatUs := lastHeartbeatUs }

/-- The client consumes a list of envelopes, ends as `last` and reports `events`. -/
def Consumes (client : TcpClient) (envelopes : List UpdateEnvelope) (last : TcpClient)
    (events : List ClientEvent) : Prop :=
  after handleMessage client (envelopes.map serverMessage) = last ∧
    client.reported (envelopes.map serverMessage) = events

variable {client middle last : TcpClient} {front back : List UpdateEnvelope}
  {events events' : List ClientEvent}

theorem Consumes.nil (client : TcpClient) : client.Consumes [] client [] := ⟨rfl, rfl⟩

theorem Consumes.append (hfront : client.Consumes front middle events)
    (hback : middle.Consumes back last events') :
    client.Consumes (front ++ back) last (events ++ events') := by
  obtain ⟨rfl, rfl⟩ := hfront
  obtain ⟨rfl, rfl⟩ := hback
  refine ⟨?_, ?_⟩
  · rw [List.map_append, after_append]
  · rw [List.map_append, reported_append]

theorem Consumes.cons {e : UpdateEnvelope} (hback : middle.Consumes back last events')
    (hhead : client.handleMessage (serverMessage e) = (middle, events)) :
    client.Consumes (e :: back) last (events ++ events') := by
  have hone : client.Consumes [e] middle events := by
    refine ⟨?_, ?_⟩
    · exact congrArg Prod.fst hhead
    · exact (List.append_nil _).trans (congrArg Prod.snd hhead)
  exact hone.append hback

theorem handleMessage_of_readsAsTopic (client : TcpClient) {e : UpdateEnvelope}
    (he : ReadsAsTopic e.topicPath e.topicId) :
    client.handleMessage (serverMessage e) =
      (client, if client.snapshotPhase ≠ .descriptors then [.update (arrived e)] else []) := by
  have hboundary : readBoundary (readUtf8 (serverMessage e).topicPath) = none :=
    (readBoundary_serverMessage e).trans he.1
  have hid : isSentinelTopic (serverMessage e).topicId = false := he.2
  simp only [handleMessage, hboundary, hid, and_true]
  rfl

/-- In the descriptor phase of a snapshot a descriptor leads nowhere and is not reported. -/
theorem handleMessage_descriptor {client : TcpClient} (hphase : client.snapshotPhase = .descriptors)
    (hconnected : client.connected = false) {e : UpdateEnvelope}
    (hstate : e.boundary ≠ some .stateBegin) (hlive : e.boundary ≠ some .liveBegin) :
    client.handleMessage (serverMessage e) = (client, []) := by
  obtain ⟨phase, connected, lastHeartbeatUs⟩ := client
  obtain rfl : phase = .descriptors := hphase
  obtain rfl : connected = false := hconnected
  rw [handleMessage, readBoundary_serverMessage]
  cases hboundary : e.boundary with
  | none => simp
  | some boundary =>
    cases boundary with
    | snapshotBegin => rfl
    | descriptorEnd => rfl
    | stateBegin => exact absurd hboundary hstate
    | stateEnd => rfl
    | liveBegin => exact absurd hboundary hlive

section Snapshot

variable (core : NativeLinkCore) (serverSessionId : UInt64)

theorem consumes_descriptors (lastHeartbeatUs : UInt64) {topics : List TopicRuntime}
    (hread : ∀ topic ∈ topics, ReadsInSnapshot topic) :
    (settled lastHeartbeatUs false).Consumes
      ((topics.map NativeLinkCore.descriptorEvent).map (snapshotEnvelope serverSessionId))
      (settled lastHeartbeatUs false) [] := by
  induction topics with
  | nil => exact Consumes.nil _
  | cons topic topics ih =>
    rw [List.forall_mem_cons] at hread
    have hpath :
        (snapshotEnvelope serverSessionId (NativeLinkCore.descriptorEvent topic)).boundary =
          readBoundary (clipUtf8 topicPathBytes topic.descriptor.topicPath) := rfl
    exact (ih hread.2).cons (handleMessage_descriptor rfl rfl (hpath ▸ hread.1.1)
      (hpath ▸ hread.1.2.1))

/-- In the state phase every replayed topic is reported. -/
theorem consumes_updates (lastHeartbeatUs : UInt64) (clock : ℕ → TimePoint)
    {topics : List TopicRuntime} (reading : ℕ)
    (hread : ∀ topic ∈ topics, ReadsInSnapshot topic) :
    Consumes ⟨.stateSnapshot, false, lastHeartbeatUs⟩
      ((core.updateEvents clock topics reading).map (snapshotEnvelope serverSessionId))
      ⟨.stateSnapshot, false, lastHeartbeatUs⟩
      (((core.updateEvents clock topics reading).map SnapshotEvent.update).map
        fun e => .update (arrived e)) := by
  induction topics generalizing reading with
  | nil => exact Consumes.nil _
  | cons topic topics ih =>
    rw [List.forall_mem_cons] at hread
    simp only [NativeLinkCore.updateEvents]
    split_ifs with hreplayed
    · have htopic : ReadsAsTopic
          (core.buildEnvelope (clock reading) topic .snapshotState 0).topicPath
          (core.buildEnvelope (clock reading) topic .snapshotState 0).topicId := by
        rw [NativeLinkCore.topicPath_buildEnvelope, NativeLinkCore.topicId_buildEnvelope]
        exact hread.1.2.2 hreplayed
      exact (ih (reading + 1) hread.2).cons (handleMessage_of_readsAsTopic _ htopic)
    · exact ih reading hread.2

/-- A whole snapshot: the client is told to wait, hands on the state updates and is connected. -/
theorem consumes_snapshot (lastHeartbeatUs : UInt64) (live : Bool) (clock : ℕ → TimePoint)
    (clientId : ByteString) (hread : ∀ topic ∈ core.topics, ReadsInSnapshot topic) :
    (settled lastHeartbeatUs live).Consumes
      ((core.buildSnapshotForClient clock clientId).map (snapshotEnvelope serverSessionId))
      (settled lastHeartbeatUs true)
      ((Sending.snapshot serverSessionId
        (core.buildSnapshotForClient clock clientId)).expected live) := by
  obtain ⟨hbegin, hdescriptorEnd, hstateBegin, hstateEnd, hliveBegin⟩ :=
    boundary_snapshotEnvelope serverSessionId
  have hstart : (settled lastHeartbeatUs live).handleMessage
      (serverMessage (snapshotEnvelope serverSessionId { kind := .descriptorSnapshotBegin })) =
        (settled lastHeartbeatUs false,
          if live then [.connectionState .connecting] else []) := by
    rw [handleMessage, readBoundary_serverMessage, hbegin]
    rfl
  have hdescriptors : (settled lastHeartbeatUs false).handleMessage
      (serverMessage (snapshotEnvelope serverSessionId { kind := .descriptorSnapshotEnd })) =
        (settled lastHeartbeatUs false, []) := by
    rw [handleMessage, readBoundary_serverMessage, hdescriptorEnd]
  have hstate : (settled lastHeartbeatUs false).handleMessage
      (serverMessage (snapshotEnvelope serverSessionId { kind := .stateSnapshotBegin })) =
        (⟨.stateSnapshot, false, lastHeartbeatUs⟩, []) := by
    rw [handleMessage, readBoundary_serverMessage, hstateBegin]
    rfl
  have hupdates : handleMessage ⟨.stateSnapshot, false, lastHeartbeatUs⟩
      (serverMessage (snapshotEnvelope serverSessionId { kind := .stateSnapshotEnd })) =
        (⟨.stateSnapshot, false, lastHeartbeatUs⟩, []) := by
    rw [handleMessage, readBoundary_serverMessage, hstateEnd]
  have hopen : handleMessage ⟨.stateSnapshot, false, lastHeartbeatUs⟩
      (serverMessage (snapshotEnvelope serverSessionId { kind := .liveBegin })) =
        (settled lastHeartbeatUs true, [.connectionState .connected]) := by
    rw [handleMessage, readBoundary_serverMessage, hliveBegin]
    rfl
  have hdescriptorPart := (consumes_descriptors serverSessionId lastHeartbeatUs hread).cons hstart
  have hstatePart := ((consumes_updates core serverSessionId lastHeartbeatUs clock 0
    hread).cons hstate).cons hdescriptors
  have hlast := ((Consumes.nil _).cons hopen).cons hupdates
  have hall := (hdescriptorPart.append hstatePart).append hlast
  rw [Sending.expected, NativeLinkCore.snapshotUpdates_buildSnapshot]
  simpa [NativeLinkCore.buildSnapshotForClient] using hall

end Snapshot

/-- Between sendings the client reports what is expected of the sending. -/
def Reports (sending : Sending) : Prop :=
  ∀ lastHeartbeatUs live,
    after handleMessage (settled lastHeartbeatUs live) sending.messages =
        settled lastHeartbeatUs (live || sending.isSnapshot) ∧
      (settled lastHeartbeatUs live).reported sending.messages = sending.expected live

theorem reports_snapshot {core : NativeLinkCore} {serverSessionId : UInt64}
    (clock : ℕ → TimePoint) (clientId : ByteString)
    (hread : ∀ topic ∈ core.topics, ReadsInSnapshot topic) :
    Reports (.snapshot serverSessionId (core.buildSnapshotForClient clock clientId)) := by
  intro lastHeartbeatUs live
  have hall := consumes_snapshot core serverSessionId lastHeartbeatUs live clock clientId hread
  rw [Consumes, List.map_map] at hall
  rw [Sending.isSnapshot, Bool.or_true]
  exact hall

theorem reports_envelope {e : UpdateEnvelope} (he : ReadsAsTopic e.topicPath e.topicId) :
    Reports (.envelope e) := by
  intro lastHeartbeatUs live
  have hone := handleMessage_of_readsAsTopic (settled lastHeartbeatUs live) he
  refine ⟨?_, ?_⟩
  · rw [Sending.isSnapshot, Bool.or_false]
    exact congrArg Prod.fst hone
  · refine (List.append_nil _).trans ((congrArg Prod.snd hone).trans ?_)
    cases live <;> rfl

/-- The run form: sendings that are reported one by one are reported one after the other. -/
theorem reported_of_reports (lastHeartbeatUs : UInt64) (live : Bool) {sent : List Sending}
    (hsent : ∀ sending ∈ sent, Reports sending) :
    (settled lastHeartbeatUs live).reported (sent.flatMap Sending.messages) =
      expectedReports live sent := by
  induction sent generalizing live with
  | nil => rfl
  | cons sending sent ih =>
    rw [List.forall_mem_cons] at hsent
    obtain ⟨hlast, hreported⟩ := hsent.1 lastHeartbeatUs live
    rw [List.flatMap_cons, reported_append, hreported, hlast, ih _ hsent.2]
    rfl

end TcpClient

end Sending

/-! ### What an operation sends -/

section Operation

open NativeLinkCore

/-- What a write puts into the queues names the topic it writes. -/
theorem name_of_mem_deliveries {core : NativeLinkCore} {call : Call} {w : TopicWrite}
    (hwrite : requestedWrite call.request = some w) {c : ByteString} {e : UpdateEnvelope}
    (he : e ∈ deliveries c ⟨core, call, (core.perform call).2⟩) :
    e.topicPath = w.topicPath ∧ e.topicId = topicIdOf core w.topicPath := by
  obtain ⟨reason, -, hresult⟩ | ⟨topic, htopic, -, hresult⟩ :=
    core.performWrite_cases call.clock w
  · rw [(deliveries_of_rejection hwrite (by rw [hresult]) c).2] at he
    split_ifs at he
    · rw [List.mem_singleton.mp he, rejectEnvelope, topicIdOf]
      cases htopic : core.findTopic w.topicPath with
      | none => exact ⟨rfl, rfl⟩
      | some topic =>
        exact ⟨(topicPath_buildEnvelope ..).trans (findTopic_path core htopic),
          topicId_buildEnvelope ..⟩
    · exact absurd he List.not_mem_nil
  · have hlive : (core.liveEnvelope call.clock topic w).topicPath = w.topicPath ∧
        (core.liveEnvelope call.clock topic w).topicId = topicIdOf core w.topicPath := by
      have hpath := findTopic_path core htopic
      rw [topicIdOf, htopic]
      exact ⟨(topicPath_buildEnvelope ..).trans hpath, topicId_buildEnvelope ..⟩
    rw [(deliveries_of_acceptance hwrite htopic (by rw [hresult]; rfl) c).2] at he
    obtain rfl | he := List.mem_cons.mp he
    · exact hlive
    · split_ifs at he
      · obtain rfl := List.mem_singleton.mp he
        exact hlive
      · exact absurd he List.not_mem_nil

/-- What a client write hands out was queued before, or names the topic of the write. -/
theorem name_of_mem_drained {core : NativeLinkCore} {clock : ℕ → TimePoint} {w : TopicWrite}
    (hserver : w.allowServerOnly = false) {e : UpdateEnvelope}
    (he : e ∈ ((core.performWrite clock w).1.drainClientEvents w.sourceClientId).2) :
    e ∈ queue w.sourceClientId core ∨
      core.IsConnected w.sourceClientId ∧ e.topicPath = w.topicPath ∧
        e.topicId = topicIdOf core w.topicPath := by
  obtain ⟨topicPath, value, clientId, allowServerOnly⟩ := w
  obtain rfl : allowServerOnly = false := hserver
  have hpending : (core.perform ⟨.publish topicPath value clientId, clock⟩).1.pendingEvents
      clientId = _ := pendingEvents_perform_write rfl clientId
  have hcall : (core.perform ⟨.publish topicPath value clientId, clock⟩).1 =
      (core.performWrite clock ⟨topicPath, value, clientId, false⟩).1 := rfl
  rw [hcall] at hpending
  rw [drainClientEvents_reply, queue, hpending] at he
  cases hqueue : core.pendingEvents clientId with
  | none =>
    rw [hqueue] at he
    exact absurd he List.not_mem_nil
  | some events =>
    rw [hqueue, Option.map_some, Option.getD_some] at he
    obtain he | he := List.mem_append.mp he
    · exact .inl (by simpa [queue, hqueue] using he)
    · refine .inr ⟨by simp [NativeLinkCore.IsConnected, hqueue], ?_⟩
      exact name_of_mem_deliveries (w := ⟨topicPath, value, clientId, false⟩) rfl he

theorem name_of_broadcast {core : NativeLinkCore} {w : TopicWrite} {e : UpdateEnvelope}
    (he : Authority.broadcastOf core w = some e) :
    core.rejection w = none ∧ e.topicPath = w.topicPath ∧
      e.topicId = topicIdOf core w.topicPath := by
  rw [Authority.broadcastOf] at he
  split_ifs at he with haccepted
  obtain ⟨topic, htopic, rfl⟩ := Option.map_eq_some_iff.mp he
  refine ⟨haccepted, rfl, ?_⟩
  rw [topicIdOf, htopic]
  rfl

/-- The step form: everything a legible operation sends to `j` is reported as expected. -/
theorem Authority.Legible.reports {authority : Authority} {j : ℕ} {op : Operation}
    (h : authority.Legible j op) :
    ∀ sending ∈ authority.sentBy j op, TcpClient.Reports sending := by
  intro sending hmem
  rw [Authority.sentBy] at hmem
  split_ifs at hmem with hready
  · obtain ⟨hsnapshot, hnames⟩ := h hready
    cases hwrite : authority.coreWrite op with
    | none =>
      cases op with
      | publishSnapshot i clock =>
        simp only [Authority.sendings] at hmem
        split_ifs at hmem with hji
        · subst hji
          have hread : ∀ topic ∈ (authority.core.connectClient clock
              (authority.connections j).clientId).1.topics, ReadsInSnapshot topic := by
            rw [topics_connectClient]
            exact hsnapshot rfl
          rw [List.mem_singleton.mp hmem]
          exact TcpClient.reports_snapshot clock (authority.connections j).clientId hread
        · exact absurd hmem List.not_mem_nil
      | registerTopic _ _ | attach _ _ | setReady _ _ | evict _ | publishFromServer _ _ _
      | clientWrite _ _ _ | beginNewSession =>
        rw [Authority.sendings_of_not_write hwrite (by simp)] at hmem
        exact absurd hmem List.not_mem_nil
    | some write =>
      obtain ⟨core, clock, w⟩ := write
      obtain ⟨hqueue, hname⟩ := hnames _ hwrite
      rw [Authority.sendings_of_write hwrite] at hmem
      obtain hmem | hmem := List.mem_append.mp hmem
      · split_ifs at hmem with hwriter
        · obtain ⟨e, he, rfl⟩ := List.mem_map.mp hmem
          apply TcpClient.reports_envelope
          obtain he | ⟨hconn, hpath, hid⟩ :=
            name_of_mem_drained (Authority.allowServerOnly_of_writer hwrite hwriter) he
          · exact hqueue hwriter e he
          · rw [hpath, hid]
            exact hname (.inr ⟨hwriter, hconn⟩)
        · exact absurd hmem List.not_mem_nil
      · obtain ⟨e, he, rfl⟩ := Option.map_eq_some_iff.mp (Option.mem_toList.mp hmem)
        obtain ⟨haccepted, hpath, hid⟩ := name_of_broadcast he
        apply TcpClient.reports_envelope
        rw [hpath, hid]
        exact hname (.inl haccepted)
  · exact absurd hmem List.not_mem_nil

end Operation

namespace Authority

variable {j : ℕ} {start : Authority} {ops : List Operation}

/-- A client that consumes what was sent to the connection `j` reports what is expected. -/
def SpeaksProtocol (j : ℕ) (authority : Authority) : Prop :=
  ({} : TcpClient).reported (authority.connections j).messages =
    expectedReports false (authority.connections j).sent

instance (j : ℕ) (authority : Authority) : Decidable (SpeaksProtocol j authority) :=
  inferInstanceAs (Decidable (_ = _))

/-- The run form for the authority: all that was sent to `j` is reported as expected. -/
theorem reports_of_legible (hnew : (start.connections j).sent = [])
    (hlegible : ∀ r ∈ history step start ops, r.before.Legible j r.input) :
    ∀ sending ∈ ((after step start ops).connections j).sent, TcpClient.Reports sending := by
  apply after_induction_history
    (P := fun authority : Authority => ∀ sending ∈ (authority.connections j).sent,
      TcpClient.Reports sending)
  · intro r hr hbefore sending hmem
    have hperform : ((step r.before r.input).1.connections j).sent = _ :=
      sent_perform r.before j r.input
    rw [hperform] at hmem
    obtain hmem | hmem := List.mem_append.mp hmem
    · exact hbefore sending hmem
    · exact (hlegible r hr).reports sending hmem
  · rw [hnew]
    exact fun sending hmem => absurd hmem List.not_mem_nil

/-- In every run from a state in which nothing was sent to the connection, a client that consumes
the messages sent to it hands on exactly the state updates of each snapshot and the envelopes sent
after the first, in order, and reports `Connected` once a snapshot, behind its state updates, as
long as every name it is sent is read as it is meant. -/
theorem speaksProtocol (hnew : (start.connections j).sent = [])
    (hlegible : ∀ r ∈ history step start ops, r.before.Legible j r.input) :
    SpeaksProtocol j (after step start ops) := by
  exact TcpClient.reported_of_reports 0 false (reports_of_legible hnew hlegible)

section Example

theorem speaksProtocol_oneDashboard :
    SpeaksProtocol 0 (after step {} (oneDashboard ++ serverMoves)) :=
  speaksProtocol rfl (by decide)

/-- A topic with the path of the live marker, and one behind it. -/
def markerTopics : List Operation :=
  [.registerTopic { topicPath := liveBeginPath } 0, .registerTopic testMoveTopic 0,
    .setReady 0 true, .attach 0 NativeLinkCore.dashboardA, .publishSnapshot 0 fun _ => 0]

/-- The client takes the descriptor for the live marker and hands on the next descriptor. -/
theorem topic_taken_for_marker : ¬ ∀ ops, SpeaksProtocol 0 (after step {} ops) := by
  intro hall
  exact absurd (hall markerTopics) (by decide +kernel)

end Example

end Authority

end SmartDashboard.NativeLink
