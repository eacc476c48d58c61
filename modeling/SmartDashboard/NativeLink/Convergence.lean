import SmartDashboard.NativeLink.Lease
import SmartDashboard.NativeLink.Reconnect

/-!
# Snapshot and live events converge to the store

The values of the authority are a fold of its live log over the values it started from. A client
that starts from a snapshot and stores the same log therefore ends with the same values, for every
topic the snapshot replays.

## Main definitions

- `storeEvents`: a client that stores every event it receives by topic path
- `clientView`: what it holds after one connection, up to and including a last drain
- `IsReplayable`: the topics whose value a late subscriber is promised
-/

namespace SmartDashboard.NativeLink

open FirstMatch Execution

namespace NativeLinkCore

/-- The values a client holds, by topic path. -/
abbrev ValueView := ByteString → Option TopicValue

/-- Store the value of each event under its topic path, oldest event first. -/
def storeEvents (view : ValueView) (events : List UpdateEnvelope) : ValueView :=
  events.foldl (fun v e => Function.update v e.topicPath (some e.value)) view

/-- The Update events of a snapshot. -/
def snapshotUpdates (session : ClientSessionView) : List UpdateEnvelope :=
  (session.snapshotEvents.filter fun e => e.kind == .update).map SnapshotEvent.update

/-- What the client `c` holds that connects in the state `core`, stores the snapshot it is given,
stores every live event it drains while `calls` are made, and drains once more at the end. -/
def clientView (core : NativeLinkCore) (clock : ℕ → TimePoint) (c : ByteString)
    (calls : List Call) : ValueView :=
  let live := (history perform (core.connected clock c)
    (calls ++ [(Request.drainClientEvents c).at 0])).flatMap (drainedEvents c)
  storeEvents (fun _ => none)
    (snapshotUpdates (core.connectClient clock c).2 ++ live.filter isLive)

/-- State, retained and replayed: the three conditions a descriptor can meet for the snapshot. -/
def IsReplayable (descriptor : TopicDescriptor) : Prop :=
  descriptor.topicKind = .state ∧ descriptor.retentionMode = .latestValue ∧
    descriptor.replayOnSubscribe

section StoreEvents

variable {view view' : ValueView} {p : ByteString}

@[simp] theorem storeEvents_nil : storeEvents view [] = view := rfl

@[simp] theorem storeEvents_cons (e : UpdateEnvelope) (events : List UpdateEnvelope) :
    storeEvents view (e :: events) =
      storeEvents (Function.update view e.topicPath (some e.value)) events := rfl

theorem storeEvents_append (front back : List UpdateEnvelope) :
    storeEvents view (front ++ back) = storeEvents (storeEvents view front) back :=
  List.foldl_append ..

/-- What is held under `p` depends only on what was held under `p`. -/
theorem storeEvents_congr (h : view p = view' p) (events : List UpdateEnvelope) :
    storeEvents view events p = storeEvents view' events p := by
  induction events generalizing view view' with
  | nil => exact h
  | cons e events ih =>
    refine ih ?_
    by_cases hp : p = e.topicPath
    · subst hp
      simp
    · simpa [Function.update_of_ne hp] using h

end StoreEvents

/-! ### The store is a fold of the live log -/

/-- The descriptor and the stored value of a topic, the part no lease and no connection touches. -/
def topicContents (topic : TopicRuntime) : TopicDescriptor × Option TopicValue :=
  (topic.descriptor, if topic.hasLatestValue then some topic.latestValue else none)

/-- A topic without its lease, all of it that a lease or a connection cannot touch. -/
def unleased (topic : TopicRuntime) : TopicRuntime := { topic with leaseHolderClientId := [] }

section Contents

variable {core : NativeLinkCore} {p : ByteString}

theorem tryGetLatestValue_eq :
    core.tryGetLatestValue p =
      ((core.findTopic p).map unleased).bind fun t => (topicContents t).2 := by
  simp only [tryGetLatestValue]
  cases core.findTopic p <;> rfl

/-- A lookup sees the topics without their leases and nothing else of the state. -/
theorem findTopic_unleased_congr {core' : NativeLinkCore}
    (h : core'.topics.map unleased = core.topics.map unleased) :
    (core'.findTopic p).map unleased = (core.findTopic p).map unleased := by
  have hfind : ∀ topics : List TopicRuntime, (topics.find? (isTopic p)).map unleased =
      (topics.map unleased).find? (isTopic p) := by
    intro topics
    rw [List.find?_map]
    rfl
  rw [findTopic, findTopic, hfind, hfind, h]

theorem unleased_writeLease (q d : ByteString) :
    (core.writeTopic q fun t => { t with leaseHolderClientId := d }).topics.map unleased =
      core.topics.map unleased :=
  map_updateFirst (f := fun t => { t with leaseHolderClientId := d }) (fun _ _ => rfl) core.topics

/-- A call that neither registers nor writes changes leases and nothing else of the topics. -/
theorem unleased_perform {call : Call} (hwrite : requestedWrite call.request = none)
    (hregister : ∀ descriptor, call.request ≠ .registerTopic descriptor) :
    (core.perform call).1.topics.map unleased = core.topics.map unleased := by
  obtain ⟨request, clock⟩ := call
  cases request with
  | registerTopic descriptor => exact absurd rfl (hregister descriptor)
  | acquireLease q d =>
    show (core.acquireLease q d).1.topics.map unleased = _
    simp only [acquireLease]
    split
    · rfl
    · split_ifs
      · rfl
      · rfl
      · exact unleased_writeLease q d
  | releaseLease q d =>
    show (core.releaseLease q d).1.topics.map unleased = _
    simp only [releaseLease]
    split
    · rfl
    · split_ifs
      · rfl
      · exact unleased_writeLease q []
  | connectClient d => exact congrArg (List.map unleased) (topics_connectClient clock)
  | disconnectClient d => exact congrArg (List.map unleased) topics_disconnectClient
  | drainClientEvents d => exact congrArg (List.map unleased) topics_drainClientEvents
  | beginNewSession =>
    show core.beginNewSession.topics.map unleased = _
    simp only [beginNewSession, List.map_map]
    rfl
  | publish _ _ _ | publishFromServer _ _ => simp [requestedWrite] at hwrite

/-- Registering a topic changes at most one lookup, which then finds a topic without a value. -/
theorem findTopic_registerTopic_cases (now : TimePoint) (descriptor : TopicDescriptor) :
    (core.registerTopic now descriptor).1.findTopic p = core.findTopic p ∨
      core.findTopic p = none ∧ ∃ topic, topic.hasLatestValue = false ∧
        (core.registerTopic now descriptor).1.findTopic p = some topic := by
  simp only [registerTopic]
  split_ifs
  · exact .inl rfl
  · exact .inl rfl
  · simp only [findTopic, List.find?_append]
    cases core.topics.find? (isTopic p) with
    | some topic => exact .inl rfl
    | none =>
      by_cases hp : descriptor.topicPath = p
      · right
        refine ⟨rfl, { descriptor, topicId := core.nextTopicId, latestValueTime := now }, rfl, ?_⟩
        simp [isTopic, hp]
      · exact .inl (by simp [isTopic, hp])

/-- A topic that is registered keeps its descriptor, whatever is called. -/
theorem descriptor_perform (call : Call) {topic : TopicRuntime}
    (htopic : core.findTopic p = some topic) :
    ∃ topic', (core.perform call).1.findTopic p = some topic' ∧
      topic'.descriptor = topic.descriptor := by
  cases hwrite : requestedWrite call.request with
  | some w =>
    rw [perform_of_requestedWrite hwrite]
    rcases performWrite_cases core call.clock w with
      ⟨reason, -, hresult⟩ | ⟨target, htarget, -, hresult⟩
    · rw [hresult]
      exact ⟨topic, htopic, rfl⟩
    · rw [hresult]
      have hfind := findTopic_acceptWrite call.clock htarget p
      by_cases hp : p = w.topicPath
      · subst hp
        obtain rfl := Option.some.inj (htarget.symm.trans htopic)
        exact ⟨_, hfind.trans (if_pos rfl), rfl⟩
      · exact ⟨topic, hfind.trans ((if_neg hp).trans htopic), rfl⟩
  | none =>
    by_cases hregister : ∃ descriptor, call.request = .registerTopic descriptor
    · obtain ⟨request, clock⟩ := call
      obtain ⟨descriptor, rfl⟩ := hregister
      exact ⟨topic, findTopic_registerTopic (clock 0) descriptor htopic, rfl⟩
    · have hunleased : (core.perform call).1.topics.map unleased = core.topics.map unleased :=
        unleased_perform hwrite fun d hd => hregister ⟨d, hd⟩
      have hsame := findTopic_unleased_congr (p := p) hunleased
      rw [htopic, Option.map_some, Option.map_eq_some_iff] at hsame
      obtain ⟨topic', htopic', hunleased⟩ := hsame
      have hdescriptor := congrArg TopicRuntime.descriptor hunleased
      exact ⟨topic', htopic', hdescriptor⟩

/-- Registering a topic gives it no value. -/
theorem tryGetLatestValue_registerTopic (now : TimePoint) (descriptor : TopicDescriptor) :
    (core.registerTopic now descriptor).1.tryGetLatestValue p = core.tryGetLatestValue p := by
  simp only [tryGetLatestValue]
  have hcases : (core.registerTopic now descriptor).1.findTopic p = core.findTopic p ∨ _ :=
    findTopic_registerTopic_cases now descriptor
  rcases hcases with hsame | ⟨hnone, topic, hvalue, hfound⟩
  · rw [hsame]
  · rw [hnone, hfound]
    simp [hvalue]

/-- One call changes the stored values exactly as its live event says. -/
theorem tryGetLatestValue_perform (call : Call) :
    (core.perform call).1.tryGetLatestValue =
      storeEvents core.tryGetLatestValue (liveEvents ⟨core, call, (core.perform call).2⟩) := by
  funext p
  cases hwrite : requestedWrite call.request with
  -- only an accepted write has a live event, and only it stores a value
  | some w =>
    rcases performWrite_cases core call.clock w with
      ⟨reason, -, hresult⟩ | ⟨topic, htopic, -, hresult⟩
    · rw [(deliveries_of_rejection hwrite (by rw [hresult]) []).1,
        perform_of_requestedWrite hwrite, hresult]
      rfl
    · rw [(deliveries_of_acceptance hwrite htopic (by rw [hresult]; rfl) []).1,
        perform_of_requestedWrite hwrite, hresult, storeEvents_cons, storeEvents_nil]
      have hpath : (core.liveEnvelope call.clock topic w).topicPath = w.topicPath :=
        (topicPath_buildEnvelope ..).trans (by simpa [storeLatest] using findTopic_path core htopic)
      have hvalue : (core.liveEnvelope call.clock topic w).value = w.value :=
        value_buildEnvelope ..
      simp only [tryGetLatestValue]
      rw [findTopic_acceptWrite _ htopic, hpath, hvalue]
      by_cases hp : p = w.topicPath
      · subst hp
        simp [storeLatest]
      · simp [hp, tryGetLatestValue]
  | none =>
    rw [liveEvents_of_not_write hwrite]
    by_cases hregister : ∃ descriptor, call.request = .registerTopic descriptor
    · obtain ⟨request, clock⟩ := call
      obtain ⟨descriptor, rfl⟩ := hregister
      exact tryGetLatestValue_registerTopic (clock 0) descriptor
    · rw [storeEvents_nil, tryGetLatestValue_eq, tryGetLatestValue_eq, findTopic_unleased_congr
        (unleased_perform hwrite fun d hd => hregister ⟨d, hd⟩)]

end Contents

/-- Over any run the stored values are the live log stored over the values before it. -/
theorem tryGetLatestValue_after (core : NativeLinkCore) (calls : List Call) :
    (after perform core calls).tryGetLatestValue =
      storeEvents core.tryGetLatestValue (liveLog core calls) := by
  induction calls generalizing core with
  | nil => rfl
  | cons call calls ih =>
    rw [after_cons, ih, tryGetLatestValue_perform, ← storeEvents_append]
    rfl

theorem descriptor_after {core : NativeLinkCore} {p : ByteString} {topic : TopicRuntime}
    (htopic : core.findTopic p = some topic) (calls : List Call) :
    ∃ topic', (after perform core calls).findTopic p = some topic' ∧
      topic'.descriptor = topic.descriptor := by
  refine after_induction (P := fun s : NativeLinkCore => ∃ topic', s.findTopic p = some topic' ∧
    topic'.descriptor = topic.descriptor) ?_ ⟨topic, htopic, rfl⟩ calls
  rintro s call ⟨t, ht, hdescriptor⟩
  obtain ⟨t', ht', hsame⟩ := descriptor_perform call ht
  exact ⟨t', ht', hsame.trans hdescriptor⟩

/-! ### The snapshot -/

section Snapshot

variable {core : NativeLinkCore}

/-- The Update events of a snapshot come from its second loop. -/
theorem snapshotUpdates_buildSnapshot (clock : ℕ → TimePoint) (c : ByteString) :
    snapshotUpdates ⟨core.buildSnapshotForClient clock c⟩ =
      (core.updateEvents clock core.topics 0).map SnapshotEvent.update := by
  have hdescriptors : (core.topics.map descriptorEvent).filter (fun e => e.kind == .update) =
      [] := by
    simp [descriptorEvent, List.filter_eq_nil_iff]
  have hupdates : ∀ topics reading, (core.updateEvents clock topics reading).filter
      (fun e => e.kind == .update) = core.updateEvents clock topics reading := by
    intro topics reading
    induction topics generalizing reading with
    | nil => rfl
    | cons topic topics ih =>
      simp only [updateEvents]
      split_ifs <;> simp [ih]
  simp [snapshotUpdates, buildSnapshotForClient, List.filter_append, hdescriptors, hupdates]

/-- Every Update event of the snapshot is built from a topic that meets the four conditions. -/
theorem exists_of_mem_updateEvents {clock : ℕ → TimePoint} {topics : List TopicRuntime}
    {reading : ℕ} {e : SnapshotEvent} (he : e ∈ core.updateEvents clock topics reading) :
    ∃ topic ∈ topics, isReplayed topic ∧ ∃ reading,
      e.update = core.buildEnvelope (clock reading) topic .snapshotState 0 := by
  induction topics generalizing reading with
  | nil => simp [updateEvents] at he
  | cons topic topics ih =>
    simp only [updateEvents] at he
    split_ifs at he with hreplayed
    · rcases List.mem_cons.mp he with rfl | he
      · exact ⟨topic, List.mem_cons_self, hreplayed, reading, rfl⟩
      · obtain ⟨t, ht, hrest⟩ := ih he
        exact ⟨t, List.mem_cons_of_mem topic ht, hrest⟩
    · obtain ⟨t, ht, hrest⟩ := ih he
      exact ⟨t, List.mem_cons_of_mem topic ht, hrest⟩

theorem mem_snapshotUpdates {clock : ℕ → TimePoint} {c : ByteString} {e : UpdateEnvelope}
    (he : e ∈ snapshotUpdates ⟨core.buildSnapshotForClient clock c⟩) :
    ∃ topic ∈ core.topics, isReplayed topic ∧ ∃ reading,
      e = core.buildEnvelope (clock reading) topic .snapshotState 0 := by
  rw [snapshotUpdates_buildSnapshot, List.mem_map] at he
  obtain ⟨event, hevent, rfl⟩ := he
  exact exists_of_mem_updateEvents hevent

/-- Storing the snapshot gives each replayed topic its value and touches nothing else. -/
theorem storeEvents_updateEvents (clock : ℕ → TimePoint) {topics : List TopicRuntime}
    (hpaths : (topics.map fun t => t.descriptor.topicPath).Nodup) (view : ValueView)
    (reading : ℕ) (p : ByteString) :
    storeEvents view ((core.updateEvents clock topics reading).map SnapshotEvent.update) p =
      match (topics.filter isReplayed).find? (isTopic p) with
      | some topic => some topic.latestValue
      | none => view p := by
  induction topics generalizing view reading with
  | nil => rfl
  | cons topic topics ih =>
    rw [List.map_cons, List.nodup_cons] at hpaths
    simp only [updateEvents]
    split_ifs with hreplayed
    · rw [List.map_cons, storeEvents_cons, ih hpaths.2, List.filter_cons_of_pos hreplayed,
        topicPath_buildEnvelope, value_buildEnvelope]
      by_cases hp : topic.descriptor.topicPath = p
      · -- no later topic has this path, so the value stored here stays
        have hnone : (topics.filter isReplayed).find? (isTopic p) = none := by
          simp only [List.find?_eq_none, List.mem_filter, isTopic, decide_eq_true_eq]
          rintro t ⟨ht, -⟩ htp
          exact hpaths.1 (List.mem_map.mpr ⟨t, ht, htp.trans hp.symm⟩)
        rw [hnone, List.find?_cons_of_pos (by simpa [isTopic] using hp), ← hp,
          Function.update_self]
      · rw [List.find?_cons_of_neg (by simpa [isTopic] using hp),
          Function.update_of_ne (Ne.symm hp)]
    · rw [ih hpaths.2, List.filter_cons_of_neg hreplayed]

/-- A snapshot gives a client the stored value of every path that is not registered or whose
topic is replayable. -/
theorem storeEvents_snapshot (hcore : WellFormed core) (clock : ℕ → TimePoint)
    (c p : ByteString)
    (hreplay : ∀ topic, core.findTopic p = some topic → IsReplayable topic.descriptor) :
    storeEvents (fun _ => none) (snapshotUpdates ⟨core.buildSnapshotForClient clock c⟩) p =
      core.tryGetLatestValue p := by
  rw [snapshotUpdates_buildSnapshot, storeEvents_updateEvents clock hcore.topicPaths,
    tryGetLatestValue]
  cases htopic : core.findTopic p with
  | none =>
    have hnone : (core.topics.filter isReplayed).find? (isTopic p) = none := by
      rw [List.find?_eq_none]
      exact fun t ht => List.find?_eq_none.mp htopic t (List.mem_of_mem_filter ht)
    rw [hnone]
  | some topic =>
    -- paths are keys, so `topic` is the only one the filter could let through
    have hsame : ∀ t ∈ core.topics, isTopic p t → t = topic := by
      intro t ht htp
      have hfound : core.findTopic t.descriptor.topicPath = some t :=
        find?_eq_some_of_mem hcore.topicPaths ht
      have hpath : t.descriptor.topicPath = p := by simpa [isTopic] using htp
      rw [hpath, htopic] at hfound
      exact (Option.some.inj hfound).symm
    have hmem : topic ∈ core.topics := List.mem_of_find?_eq_some htopic
    have hp : isTopic p topic := List.find?_some htopic
    obtain ⟨hkind, hretention, hsubscribe⟩ := hreplay topic htopic
    cases hvalue : topic.hasLatestValue with
    | true =>
      have hfind : (core.topics.filter isReplayed).find? (isTopic p) = some topic := by
        have hreplayed : isReplayed topic := by
          simp [isReplayed, hvalue, hkind, hretention, hsubscribe]
        have hsome : ((core.topics.filter isReplayed).find? (isTopic p)).isSome := by
          rw [List.find?_isSome]
          exact ⟨topic, List.mem_filter.mpr ⟨hmem, hreplayed⟩, hp⟩
        obtain ⟨t, ht⟩ := Option.isSome_iff_exists.mp hsome
        rw [ht, hsame t (List.mem_of_mem_filter (List.mem_of_find?_eq_some ht))
          (List.find?_some ht)]
      rw [hfind]
      exact (if_pos hvalue).symm
    | false =>
      have hnone : (core.topics.filter isReplayed).find? (isTopic p) = none := by
        rw [List.find?_eq_none]
        intro t ht htp
        obtain ⟨ht, hreplayed⟩ := List.mem_filter.mp ht
        rw [hsame t ht htp] at hreplayed
        simp [isReplayed, hvalue] at hreplayed
      rw [hnone]
      exact (if_neg (by simp [hvalue])).symm

end Snapshot

/-- A snapshot updates state topics only, with their stored values. -/
theorem snapshot_updates_state {core : NativeLinkCore} (hcore : core.Reachable)
    {clock : ℕ → TimePoint} {c : ByteString} {e : SnapshotEvent}
    (he : e ∈ (core.connectClient clock c).2.snapshotEvents) (hkind : e.kind = .update) :
    ∃ topic, core.findTopic e.update.topicPath = some topic ∧
      topic.descriptor.topicKind = .state ∧ topic.latestValue = e.update.value := by
  have hconnected := WellFormed.connectClient hcore.wellFormed clock c
  have htopics : (core.connectClient clock c).1.topics = core.topics := topics_connectClient clock
  have hmem : e ∈ (core.connectClient clock c).1.updateEvents clock
      (core.connectClient clock c).1.topics 0 := by
    have he : e ∈ (core.connectClient clock c).1.buildSnapshotForClient clock c := he
    simp only [buildSnapshotForClient, List.mem_append, List.mem_cons, List.mem_map,
      List.not_mem_nil, or_false] at he
    -- of the events the snapshot is made of, only those of its second loop are updates
    rcases he with ((rfl | ⟨t, -, rfl⟩) | (rfl | rfl | he)) | (rfl | rfl)
    case inl.inr.inr.inr => exact he
    all_goals simp [descriptorEvent] at hkind
  obtain ⟨topic, htopic, hreplayed, reading, hupdate⟩ := exists_of_mem_updateEvents hmem
  rw [htopics] at htopic
  refine ⟨topic, ?_, ?_, by rw [hupdate, value_buildEnvelope]⟩
  · rw [hupdate, topicPath_buildEnvelope]
    exact find?_eq_some_of_mem hcore.wellFormed.topicPaths htopic
  · simp only [isReplayed, Bool.and_eq_true, beq_iff_eq] at hreplayed
    exact hreplayed.1.1.2

/-- After the last drain of one connection a client that stored the snapshot and every live event
holds, for every replayable topic, exactly the stored value; and only state topics are replayed in
any snapshot. Whatever happens before `c` connects leads to another such reachable state. -/
theorem snapshot_then_live_converges {core : NativeLinkCore} (hcore : core.Reachable)
    {c : ByteString} (habsent : ¬ core.IsConnected c) (clock : ℕ → TimePoint)
    {calls : List Call} (hconn : StaysConnected c (core.connected clock c) calls)
    (hsession : ∀ call ∈ calls, call.request ≠ .beginNewSession) :
    (∀ p topic, (after perform (core.connected clock c)
        (calls ++ [(Request.drainClientEvents c).at 0])).findTopic p = some topic →
      IsReplayable topic.descriptor →
      clientView core clock c calls p = (after perform (core.connected clock c)
        (calls ++ [(Request.drainClientEvents c).at 0])).tryGetLatestValue p) ∧
      ∀ (s : NativeLinkCore) (clock : ℕ → TimePoint) (d : ByteString), s.Reachable →
        ∀ e ∈ (s.connectClient clock d).2.snapshotEvents, e.kind = .update →
          ∃ topic, s.findTopic e.update.topicPath = some topic ∧
            topic.descriptor.topicKind = .state ∧ topic.latestValue = e.update.value := by
  refine ⟨?_, fun s clock d hs e he hkind =>
    snapshot_updates_state hs he hkind⟩
  intro p topic htopic hreplayable
  have hconnected : (core.connected clock c).Reachable := hcore.after [⟨.connectClient c, clock⟩]
  -- the queue of `c` starts empty, so it drains the live log and its own answers
  have hempty : queue c (core.connected clock c) = [] := by
    rw [queue_connected hcore.wellFormed, queue]
    cases hevents : core.pendingEvents c with
    | none => rfl
    | some events => exact absurd (by simp [IsConnected, hevents]) habsent
  have hlive : ((history perform (core.connected clock c)
      (calls ++ [(Request.drainClientEvents c).at 0])).flatMap (drainedEvents c)).filter isLive =
      liveLog (core.connected clock c) calls := by
    obtain ⟨hall, howed⟩ := received_eq hconnected hconn hsession
    rw [history_append, List.flatMap_append, history_cons, history_nil, List.flatMap_cons,
      List.flatMap_nil, List.append_nil, drainedEvents_perform]
    simp only [Request.at, if_true]
    rw [hall, hempty, List.nil_append, howed, filter_isLive_flatMap_deliveries]
  have hfinal : (after perform (core.connected clock c)
      (calls ++ [(Request.drainClientEvents c).at 0])).tryGetLatestValue =
      storeEvents (core.connected clock c).tryGetLatestValue
        (liveLog (core.connected clock c) calls) := by
    rw [after_append, after_cons, after_nil, tryGetLatestValue_perform, tryGetLatestValue_after,
      liveEvents_of_not_write rfl, storeEvents_nil]
  -- both sides store the same log, so what they started from has to agree
  rw [clientView, hlive, hfinal, storeEvents_append]
  refine storeEvents_congr ?_ _
  apply storeEvents_snapshot hconnected.wellFormed clock c p
  intro t ht
  obtain ⟨t', ht', hdescriptor⟩ :=
    descriptor_after ht (calls ++ [(Request.drainClientEvents c).at 0])
  rw [htopic] at ht'
  exact hdescriptor ▸ Option.some.inj ht' ▸ hreplayable

section Example

/-- A retained state topic. -/
def voltageTopic : TopicDescriptor :=
  { topicPath := ascii ['V']
    retentionMode := .latestValue
    replayOnSubscribe := true
    writerPolicy := .serverOnly }

/-- The server has written a voltage before anybody listens. -/
def writtenVoltage : List Call :=
  [(Request.registerTopic voltageTopic).at 0,
    (Request.publishFromServer voltageTopic.topicPath (.ofBool false)).at 0]

/-- The voltage changes while a dashboard is connected. -/
def changedVoltage : List Call :=
  [(Request.publishFromServer voltageTopic.topicPath (.ofBool true)).at 0]

theorem changedVoltage_connected : StaysConnected dashboardA
    ((after perform {} writtenVoltage).connected (fun _ => 0) dashboardA) changedVoltage :=
  ⟨by decide, by decide⟩

theorem snapshot_then_live_converges_voltage :
    clientView (after perform {} writtenVoltage) (fun _ => 0) dashboardA changedVoltage
      voltageTopic.topicPath = some (.ofBool true) :=
  ((snapshot_then_live_converges (reachable_after writtenVoltage) (c := dashboardA) (by decide)
    (fun _ => 0) changedVoltage_connected (by decide)).1 voltageTopic.topicPath
      ((after perform {} (writtenVoltage ++ changedVoltage)).topics.head (by decide))
      (by decide) ⟨by decide, by decide, by decide⟩).trans (by decide)

end Example

end NativeLinkCore

end SmartDashboard.NativeLink
