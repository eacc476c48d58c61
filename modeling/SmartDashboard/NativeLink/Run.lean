import SmartDashboard.Library.Execution
import SmartDashboard.NativeLink.Core

/-!
# Runs of the Native Link authority

The mutating operations of `NativeLinkCore` as one `perform`, what a single call does to the
topics and to the queue of each client, and the invariant of every reachable state.
-/

namespace SmartDashboard.NativeLink

open FirstMatch Execution

/-- The calls that can change the authority. -/
inductive Request
  | registerTopic (descriptor : TopicDescriptor)
  | acquireLease (topicPath clientId : ByteString)
  | releaseLease (topicPath clientId : ByteString)
  | connectClient (clientId : ByteString)
  | disconnectClient (clientId : ByteString)
  | publish (topicPath : ByteString) (value : TopicValue) (sourceClientId : ByteString)
  | publishFromServer (topicPath : ByteString) (value : TopicValue)
  | drainClientEvents (clientId : ByteString)
  | beginNewSession
  deriving DecidableEq

/-- A call together with the readings of the clock during it. -/
structure Call where
  request : Request
  clock : ℕ → TimePoint

/-- A call made while the clock stands still. -/
def Request.at (request : Request) (now : TimePoint) : Call := ⟨request, fun _ => now⟩

/-- What a call returned. -/
inductive Reply
  | registered (result : RegisterTopicResult)
  | flag (success : Bool)
  | session (view : ClientSessionView)
  | write (result : WriteResult)
  | events (envelopes : List UpdateEnvelope)
  | done
  deriving DecidableEq

abbrev CallRecord := Record NativeLinkCore Call Reply

namespace NativeLinkCore

def perform (core : NativeLinkCore) (call : Call) : NativeLinkCore × Reply :=
  match call.request with
  | .registerTopic descriptor =>
    (core.registerTopic (call.clock 0) descriptor).map id .registered
  | .acquireLease topicPath clientId => (core.acquireLease topicPath clientId).map id .flag
  | .releaseLease topicPath clientId => (core.releaseLease topicPath clientId).map id .flag
  | .connectClient clientId => (core.connectClient call.clock clientId).map id .session
  | .disconnectClient clientId => (core.disconnectClient clientId).map id .flag
  | .publish topicPath value sourceClientId =>
    (core.publish call.clock topicPath value sourceClientId).map id .write
  | .publishFromServer topicPath value =>
    (core.publishFromServer call.clock topicPath value).map id .write
  | .drainClientEvents clientId => (core.drainClientEvents clientId).map id .events
  | .beginNewSession => (core.beginNewSession, .done)

/-- A state that a freshly constructed authority can be brought to. -/
def Reachable (core : NativeLinkCore) : Prop :=
  ∃ calls, after perform {} calls = core

/-- The events a connected client has not drained; `none` for one that is not connected. -/
def pendingEvents (core : NativeLinkCore) (clientId : ByteString) :
    Option (List UpdateEnvelope) :=
  (core.findClient clientId).map ClientRuntime.pendingEvents

def IsConnected (core : NativeLinkCore) (clientId : ByteString) : Prop :=
  (core.pendingEvents clientId).isSome

instance (core : NativeLinkCore) (clientId : ByteString) :
    Decidable (core.IsConnected clientId) :=
  inferInstanceAs (Decidable (_ = true))

/-- The queue of a client, empty for one that is not connected. -/
def queue (clientId : ByteString) (core : NativeLinkCore) : List UpdateEnvelope :=
  (core.pendingEvents clientId).getD []

/-! ### Lookups after a write -/

section Frames

variable (core : NativeLinkCore)

@[simp] theorem topics_writeClient (c : ByteString) (f : ClientRuntime → ClientRuntime) :
    (core.writeClient c f).topics = core.topics := rfl

@[simp] theorem topics_enqueueEventForClient (c : ByteString) (e : UpdateEnvelope) :
    (core.enqueueEventForClient c e).topics = core.topics := rfl

@[simp] theorem topics_enqueueLiveEvent (e : UpdateEnvelope) :
    (core.enqueueLiveEvent e).topics = core.topics := rfl

theorem findTopic_path {p : ByteString} {topic : TopicRuntime}
    (h : core.findTopic p = some topic) : topic.descriptor.topicPath = p := by
  simpa [isTopic] using List.find?_some h

/-- A write through a topic pointer is seen by the next lookup of that path only. -/
theorem findTopic_writeTopic {f : TopicRuntime → TopicRuntime}
    (hf : ∀ t, (f t).descriptor = t.descriptor) (p q : ByteString) :
    (core.writeTopic p f).findTopic q =
      if q = p then (core.findTopic p).map f else core.findTopic q := by
  split
  · next h =>
    subst h
    exact find?_updateFirst (fun t ht => by simpa [isTopic, hf] using ht) core.topics
  · next h =>
    refine find?_updateFirst_of_disjoint (fun t ht => ?_) core.topics
    have ht : t.descriptor.topicPath = p := by simpa [isTopic] using ht
    have hne : p ≠ q := fun hpq => h hpq.symm
    simp [isTopic, hf, ht, hne]

theorem pendingEvents_writeClient {f : ClientRuntime → ClientRuntime}
    (hf : ∀ client, (f client).clientId = client.clientId) (c d : ByteString) :
    (core.writeClient d f).pendingEvents c =
      if c = d then (core.findClient d).map fun client => (f client).pendingEvents
      else core.pendingEvents c := by
  simp only [pendingEvents, findClient, writeClient]
  split
  · next h =>
    subst h
    rw [find?_updateFirst (fun client hc => by simpa [isClient, hf] using hc),
      Option.map_map]
    rfl
  · next h =>
    rw [find?_updateFirst_of_disjoint]
    intro client hc
    have hc : client.clientId = d := by simpa [isClient] using hc
    have hne : d ≠ c := fun hdc => h hdc.symm
    simp [isClient, hf, hc, hne]

/-- Queuing an event for one client appends it there and nowhere else. -/
theorem pendingEvents_enqueueEventForClient (c d : ByteString) (e : UpdateEnvelope) :
    (core.enqueueEventForClient d e).pendingEvents c =
      if c = d then (core.pendingEvents c).map (· ++ [e]) else core.pendingEvents c := by
  rw [enqueueEventForClient, pendingEvents_writeClient core (f := pushEvent e) fun _ => rfl]
  split
  · next h =>
    subst h
    simp only [pendingEvents, Option.map_map]
    rfl
  · rfl

/-- A live event is appended to the queue of every connected client. -/
theorem pendingEvents_enqueueLiveEvent (c : ByteString) (e : UpdateEnvelope) :
    (core.enqueueLiveEvent e).pendingEvents c = (core.pendingEvents c).map (· ++ [e]) := by
  simp only [pendingEvents, findClient, enqueueLiveEvent, List.find?_map, Option.map_map]
  rfl

end Frames

/-! ### One inversion of `PublishInternal` -/

/-- The arguments of one `PublishInternal` call. -/
structure TopicWrite where
  topicPath : ByteString
  value : TopicValue
  sourceClientId : ByteString
  allowServerOnly : Bool

/-- The rejection branch a write falls into, if any. -/
def rejection (core : NativeLinkCore) (w : TopicWrite) : Option WriteRejectReason :=
  match core.findTopic w.topicPath with
  | none => some .unknownTopic
  | some topic =>
    if topicValueMatches topic.descriptor.valueType w.value = false then some .wrongType
    else if topic.descriptor.writerPolicy = .serverOnly ∧ w.allowServerOnly = false then
      some .readOnly
    else if topic.descriptor.writerPolicy = .leaseSingleWriter ∧ w.allowServerOnly = false then
      if topic.leaseHolderClientId = [] then some .leaseRequired
      else if topic.leaseHolderClientId ≠ w.sourceClientId then some .leaseNotHolder
      else none
    else none

/-- The event a rejected write leaves in its writer's queue. -/
def rejectEnvelope (core : NativeLinkCore) (now : TimePoint) (w : TopicWrite)
    (reason : WriteRejectReason) : UpdateEnvelope :=
  match core.findTopic w.topicPath with
  | none =>
    { serverSessionId := core.serverSessionId
      topicPath := w.topicPath
      sourceClientId := w.sourceClientId
      deliveryKind := .liveCommandReject
      value := w.value
      rejectionReason := reason }
  | some topic =>
    { core.buildEnvelope now topic .liveCommandReject 0 with
      value := w.value, rejectionReason := reason }

/-- The event an accepted write leaves in every queue. -/
def liveEnvelope (core : NativeLinkCore) (clock : ℕ → TimePoint) (topic : TopicRuntime)
    (w : TopicWrite) : UpdateEnvelope :=
  core.buildEnvelope (clock 1) (storeLatest (clock 0) w.value w.sourceClientId topic)
    (determineLiveDeliveryKind topic.descriptor.topicKind) core.nextServerSequence

section Publish

variable (core : NativeLinkCore) (clock : ℕ → TimePoint) (w : TopicWrite)

/-- `publishInternal` with its arguments packed. -/
def performWrite : NativeLinkCore × WriteResult :=
  core.publishInternal clock w.topicPath w.value w.sourceClientId w.allowServerOnly

/-- A write either falls into one rejection branch, whose only effect is one queued event, or
passes all of them and is accepted. -/
theorem performWrite_cases :
    (∃ reason, core.rejection w = some reason ∧
      core.performWrite clock w =
        (core.enqueueEventForClient w.sourceClientId
            (core.rejectEnvelope (clock 0) w reason),
          { accepted := false, rejectionReason := reason, serverSequence := 0 })) ∨
    (∃ topic, core.findTopic w.topicPath = some topic ∧ core.rejection w = none ∧
      core.performWrite clock w =
        core.acceptWrite clock topic w.topicPath w.value w.sourceClientId
          w.allowServerOnly) := by
  cases htopic : core.findTopic w.topicPath with
  | none =>
    exact .inl ⟨.unknownTopic, by simp [rejection, htopic],
      by simp [performWrite, publishInternal, rejectEnvelope, htopic]⟩
  | some topic =>
    simp only [performWrite, publishInternal, rejection, rejectEnvelope, rejectWrite, htopic]
    split_ifs
    -- four tests reject; a leased topic passes after its two tests, any other topic at once
    case pos => exact .inl ⟨_, rfl, rfl⟩
    case pos => exact .inl ⟨_, rfl, rfl⟩
    case pos => exact .inl ⟨_, rfl, rfl⟩
    case pos => exact .inl ⟨_, rfl, rfl⟩
    case neg => exact .inr ⟨topic, rfl, rfl, rfl⟩
    case neg => exact .inr ⟨topic, rfl, rfl, rfl⟩

/-- An accepted write reaches every connected client, its writer twice if it is a command. -/
theorem pendingEvents_acceptWrite {topic : TopicRuntime} (c : ByteString) :
    (core.acceptWrite clock topic w.topicPath w.value w.sourceClientId
        w.allowServerOnly).1.pendingEvents c =
      (core.pendingEvents c).map (· ++ core.liveEnvelope clock topic w ::
        if w.allowServerOnly = false ∧ topic.descriptor.topicKind = .command ∧
            c = w.sourceClientId then
          [{ core.liveEnvelope clock topic w with deliveryKind := .liveCommandAck }]
        else []) := by
  have hlive : ∀ core' : NativeLinkCore, core'.clients = core.clients →
      core'.pendingEvents c = core.pendingEvents c := fun core' h => by
    simp only [pendingEvents, findClient, h]
  simp only [acceptWrite]
  split_ifs with hcommand hall hall
  · -- a command of `c` itself: the acknowledgement goes behind the live event
    rw [pendingEvents_enqueueEventForClient, pendingEvents_enqueueLiveEvent, hlive _ rfl,
      if_pos hall.2.2, Option.map_map]
    congr 1
    funext events
    exact List.append_assoc events _ _
  · -- a command of somebody else
    have hc : c ≠ w.sourceClientId := fun hc => hall ⟨hcommand.1, hcommand.2, hc⟩
    rw [pendingEvents_enqueueEventForClient, pendingEvents_enqueueLiveEvent, hlive _ rfl,
      if_neg hc]
    rfl
  · exact absurd ⟨hall.1, hall.2.1⟩ hcommand
  · rw [pendingEvents_enqueueLiveEvent, hlive _ rfl]
    rfl

variable {core clock w}

@[simp] theorem topics_acceptWrite {topic : TopicRuntime} :
    (core.acceptWrite clock topic w.topicPath w.value w.sourceClientId
        w.allowServerOnly).1.topics =
      (core.writeTopic w.topicPath (storeLatest (clock 0) w.value w.sourceClientId)).topics := by
  simp only [acceptWrite]
  split_ifs <;> rfl

@[simp] theorem serverSessionId_acceptWrite {topic : TopicRuntime} :
    (core.acceptWrite clock topic w.topicPath w.value w.sourceClientId
        w.allowServerOnly).1.serverSessionId = core.serverSessionId := by
  simp only [acceptWrite]
  split_ifs <;> rfl

@[simp] theorem nextServerSequence_acceptWrite {topic : TopicRuntime} :
    (core.acceptWrite clock topic w.topicPath w.value w.sourceClientId
        w.allowServerOnly).1.nextServerSequence = core.nextServerSequence + 1 := by
  simp only [acceptWrite]
  split_ifs <;> rfl

theorem clientIds_enqueueLiveEvent (e : UpdateEnvelope) :
    (core.enqueueLiveEvent e).clients.map ClientRuntime.clientId =
      core.clients.map ClientRuntime.clientId := by
  simp only [enqueueLiveEvent, List.map_map]
  rfl

theorem clientIds_writeClient {f : ClientRuntime → ClientRuntime}
    (hf : ∀ client, (f client).clientId = client.clientId) (c : ByteString) :
    (core.writeClient c f).clients.map ClientRuntime.clientId =
      core.clients.map ClientRuntime.clientId :=
  map_updateFirst (fun client _ => hf client) core.clients

theorem clientIds_enqueueEventForClient (c : ByteString) (e : UpdateEnvelope) :
    (core.enqueueEventForClient c e).clients.map ClientRuntime.clientId =
      core.clients.map ClientRuntime.clientId :=
  clientIds_writeClient (f := pushEvent e) (fun _ => rfl) c

@[simp] theorem clientIds_acceptWrite {topic : TopicRuntime} :
    (core.acceptWrite clock topic w.topicPath w.value w.sourceClientId
        w.allowServerOnly).1.clients.map ClientRuntime.clientId =
      core.clients.map ClientRuntime.clientId := by
  simp only [acceptWrite]
  split_ifs
  · rw [clientIds_enqueueEventForClient, clientIds_enqueueLiveEvent]
    rfl
  · rw [clientIds_enqueueLiveEvent]
    rfl

/-- A write that was accepted left its value in the topic it named. -/
theorem findTopic_acceptWrite (clock : ℕ → TimePoint) {topic : TopicRuntime}
    (htopic : core.findTopic w.topicPath = some topic) (q : ByteString) :
    (core.acceptWrite clock topic w.topicPath w.value w.sourceClientId
        w.allowServerOnly).1.findTopic q =
      if q = w.topicPath then some (storeLatest (clock 0) w.value w.sourceClientId topic)
      else core.findTopic q := by
  have h := findTopic_writeTopic core
    (f := storeLatest (clock 0) w.value w.sourceClientId) (fun _ => rfl) w.topicPath q
  rw [htopic] at h
  rw [findTopic, topics_acceptWrite]
  exact h

end Publish

/-! ### The invariant of reachable states -/

/-- Paths and client ids are keys, and only leasable topics are leased. -/
structure WellFormed (core : NativeLinkCore) : Prop where
  topicPaths : (core.topics.map fun t => t.descriptor.topicPath).Nodup
  clientIds : (core.clients.map ClientRuntime.clientId).Nodup
  leases : ∀ t ∈ core.topics, t.leaseHolderClientId ≠ [] →
    t.descriptor.writerPolicy = .leaseSingleWriter

namespace WellFormed

variable {core : NativeLinkCore}

theorem init : WellFormed {} := ⟨by simp, by simp, by simp⟩

/-- Only the topics and the client ids matter. -/
theorem congr {core' : NativeLinkCore} (h : WellFormed core) (htopics : core'.topics = core.topics)
    (hclients : core'.clients.map ClientRuntime.clientId =
      core.clients.map ClientRuntime.clientId) : WellFormed core' :=
  ⟨htopics ▸ h.topicPaths, hclients ▸ h.clientIds, htopics ▸ h.leases⟩

/-- A write to a topic keeps the invariant if it keeps the descriptor and leases only what may be
leased. -/
theorem writeTopic (h : WellFormed core) {p : ByteString} {f : TopicRuntime → TopicRuntime}
    (hf : ∀ t, (f t).descriptor = t.descriptor)
    (hlease : ∀ t, core.findTopic p = some t → (f t).leaseHolderClientId ≠ [] →
      t.descriptor.writerPolicy = .leaseSingleWriter) : WellFormed (core.writeTopic p f) := by
  refine ⟨?_, h.clientIds, ?_⟩
  · rw [NativeLinkCore.writeTopic, map_updateFirst (fun t _ => by rw [hf])]
    exact h.topicPaths
  · apply forall_mem_updateFirst h.leases
    intro t ht hne
    rw [hf]
    exact hlease t ht hne

theorem registerTopic (h : WellFormed core) (now : TimePoint) (descriptor : TopicDescriptor) :
    WellFormed (core.registerTopic now descriptor).1 := by
  simp only [NativeLinkCore.registerTopic]
  split_ifs with hvalid hknown
  · exact h
  · exact h
  · refine ⟨?_, h.clientIds, ?_⟩
    · have hnew : ∀ t ∈ core.topics, t.descriptor.topicPath ≠ descriptor.topicPath := by
        simpa [findTopic, isTopic] using hknown
      rw [List.map_append, List.nodup_append]
      refine ⟨h.topicPaths, by simp, ?_⟩
      rintro path hpath _ hlast rfl
      obtain ⟨t, ht, rfl⟩ := List.mem_map.mp hpath
      exact hnew t ht (by simpa using hlast)
    · intro t ht
      rcases List.mem_append.mp ht with ht | ht
      · exact h.leases t ht
      · rw [List.mem_singleton.mp ht]
        exact fun hne => absurd rfl hne

theorem acquireLease (h : WellFormed core) (p c : ByteString) :
    WellFormed (core.acquireLease p c).1 := by
  simp only [NativeLinkCore.acquireLease]
  split
  · exact h
  · next topic htopic =>
    split_ifs with hpolicy hheld
    · exact h
    · exact h
    · refine h.writeTopic (fun _ => rfl) ?_
      intro t ht _
      rw [htopic] at ht
      exact Option.some.inj ht ▸ not_not.mp hpolicy

theorem releaseLease (h : WellFormed core) (p c : ByteString) :
    WellFormed (core.releaseLease p c).1 := by
  simp only [NativeLinkCore.releaseLease]
  split
  · exact h
  · split_ifs
    · exact h
    · exact h.writeTopic (fun _ => rfl) fun _ _ hne => absurd rfl hne

theorem connectClient (h : WellFormed core) (clock : ℕ → TimePoint) (c : ByteString) :
    WellFormed (core.connectClient clock c).1 := by
  simp only [NativeLinkCore.connectClient]
  split_ifs with hknown
  · refine ⟨h.topicPaths, ?_, h.leases⟩
    have hnew : ∀ client ∈ core.clients, client.clientId ≠ c := by
      simpa [findClient, isClient] using hknown
    rw [List.map_append, List.nodup_append]
    refine ⟨h.clientIds, by simp, ?_⟩
    rintro _ hid _ hlast rfl
    obtain ⟨client, hclient, rfl⟩ := List.mem_map.mp hid
    exact hnew client hclient (by simpa using hlast)
  · exact h

theorem disconnectClient (h : WellFormed core) (c : ByteString) :
    WellFormed (core.disconnectClient c).1 := by
  simp only [NativeLinkCore.disconnectClient]
  split_ifs
  · exact h
  · exact ⟨h.topicPaths, h.clientIds.sublist (List.eraseP_sublist.map _), h.leases⟩

theorem performWrite (h : WellFormed core) (clock : ℕ → TimePoint) (w : TopicWrite) :
    WellFormed (core.performWrite clock w).1 := by
  rcases performWrite_cases core clock w with ⟨reason, -, hresult⟩ | ⟨topic, htopic, -, hresult⟩
  · rw [hresult]
    exact h.congr rfl (clientIds_enqueueEventForClient _ _)
  · rw [hresult]
    have hwrite : WellFormed (core.writeTopic w.topicPath
        (storeLatest (clock 0) w.value w.sourceClientId)) :=
      h.writeTopic (fun _ => rfl) fun t ht hne => h.leases t (List.mem_of_find?_eq_some ht) hne
    exact hwrite.congr topics_acceptWrite clientIds_acceptWrite

theorem drainClientEvents (h : WellFormed core) (c : ByteString) :
    WellFormed (core.drainClientEvents c).1 := by
  simp only [NativeLinkCore.drainClientEvents]
  split
  · exact h
  · exact h.congr rfl
      (clientIds_writeClient (f := fun client => { client with pendingEvents := [] })
        (fun _ => rfl) c)

theorem beginNewSession (h : WellFormed core) : WellFormed core.beginNewSession := by
  refine ⟨?_, ?_, ?_⟩
  · simpa [NativeLinkCore.beginNewSession, Function.comp_def] using h.topicPaths
  · simpa [NativeLinkCore.beginNewSession, Function.comp_def] using h.clientIds
  · simp [NativeLinkCore.beginNewSession]

/-- Every call keeps the invariant. -/
theorem perform (core : NativeLinkCore) (call : Call) (h : WellFormed core) :
    WellFormed (core.perform call).1 := by
  obtain ⟨request, clock⟩ := call
  cases request with
  | registerTopic descriptor => exact h.registerTopic (clock 0) descriptor
  | acquireLease p c => exact h.acquireLease p c
  | releaseLease p c => exact h.releaseLease p c
  | connectClient c => exact h.connectClient clock c
  | disconnectClient c => exact h.disconnectClient c
  | publish p v c => exact h.performWrite clock ⟨p, v, c, false⟩
  | publishFromServer p v => exact h.performWrite clock ⟨p, v, serverId, true⟩
  | drainClientEvents c => exact h.drainClientEvents c
  | beginNewSession => exact h.beginNewSession

end WellFormed

theorem reachable_after (calls : List Call) : (Execution.after perform {} calls).Reachable :=
  ⟨calls, rfl⟩

theorem Reachable.wellFormed {core : NativeLinkCore} (h : core.Reachable) :
    WellFormed core := by
  obtain ⟨calls, rfl⟩ := h
  exact after_induction WellFormed.perform WellFormed.init calls

theorem Reachable.after {core : NativeLinkCore} (h : core.Reachable) (calls : List Call) :
    (Execution.after perform core calls).Reachable := by
  obtain ⟨front, rfl⟩ := h
  exact ⟨front ++ calls, after_append perform _ _ _⟩

end NativeLinkCore

end SmartDashboard.NativeLink
