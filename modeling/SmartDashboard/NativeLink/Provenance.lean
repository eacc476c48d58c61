import SmartDashboard.NativeLink.Convergence
import SmartDashboard.NativeLink.Rejection

/-!
# Provenance

Whose write an envelope carries and whom it names. Live events, acknowledgements and snapshots
name the writer of the value they carry. The rejection of a write to a known topic is built from
the topic as it is stored, so it names the last accepted writer of that topic instead of the
rejected one.

## Main definitions

- `placed`: what a call appends to the queue of a client
- `lastWriteTo`: the last accepted write to a topic in a run
- `NamesProducers`: every envelope of a run names the writer of its value
- `NamesRejectedWriter`: the condition under which a rejection names its writer
-/

namespace SmartDashboard.NativeLink

open FirstMatch Execution

namespace NativeLinkCore

/-- What a call appends to the queue of `c`. -/
def placed (c : ByteString) (r : CallRecord) : List UpdateEnvelope :=
  (queue c (perform r.before r.input).1).drop (queue c r.before).length

/-- The last write to the topic `p` among the accepted ones of a run. -/
def lastWriteTo (p : ByteString) (records : List CallRecord) : Option TopicWrite :=
  (records.filterMap acceptedWrite).reverse.find? fun w => w.topicPath = p

/-- Every envelope a call of the run puts into a queue carries the value of the write the call
makes and names its writer, and every update of a snapshot built after any part of the run
carries and names the last write accepted for its topic. -/
structure NamesProducers (calls : List Call) : Prop where
  queued : ∀ r ∈ history perform {} calls, ∀ c, ∀ e ∈ placed c r,
    ∃ w, requestedWrite r.input.request = some w ∧ e.value = w.value ∧
      e.sourceClientId = w.sourceClientId
  snapshot : ∀ front, front <+: calls → ∀ clock c, ∀ e ∈ snapshotUpdates
      ⟨(after perform {} front).buildSnapshotForClient clock c⟩,
    ∃ w, lastWriteTo e.topicPath (history perform {} front) = some w ∧ e.value = w.value ∧
      e.sourceClientId = w.sourceClientId

/-- If the call is a write of a connected client that falls into a rejection branch, its topic is
not registered or its writer is the last one whose write to the topic was accepted. -/
def NamesRejectedWriter (core : NativeLinkCore) (call : Call) : Prop :=
  ∀ w, requestedWrite call.request = some w → core.rejection w ≠ none →
    core.IsConnected w.sourceClientId → ∀ topic, core.findTopic w.topicPath = some topic →
      topic.latestSourceClientId = w.sourceClientId

/-! ### Queued envelopes -/

section Queued

variable {core : NativeLinkCore} {call : Call} {c : ByteString}

/-- What a call appends is what it owes, for a connected client. -/
theorem placed_eq (hcore : WellFormed core) :
    placed c ⟨core, call, (core.perform call).2⟩ =
      if core.IsConnected c then deliveries c ⟨core, call, (core.perform call).2⟩ else [] := by
  have hnone : ∀ request : Request, request = call.request → requestedWrite request = none →
      deliveries c ⟨core, call, (core.perform call).2⟩ = [] := fun _ h hwrite =>
    deliveries_of_not_write (h ▸ hwrite) c
  rw [placed, queue_perform hcore]
  obtain ⟨request, clock⟩ := call
  cases request with
  | connectClient d => rw [hnone _ rfl rfl, List.drop_length, ite_self]
  | disconnectClient d | drainClientEvents d =>
    rw [hnone _ rfl rfl, ite_self]
    simp only
    split_ifs <;> simp
  | beginNewSession => rw [hnone _ rfl rfl, ite_self, List.drop_nil]
  | registerTopic _ | acquireLease _ _ | releaseLease _ _ | publish _ _ _
  | publishFromServer _ _ =>
    simp only
    split_ifs
    · exact List.drop_left ..
    · exact List.drop_nil

theorem rejectEnvelope_sourceClientId {now : TimePoint} {w : TopicWrite}
    {reason : WriteRejectReason} :
    (core.rejectEnvelope now w reason).sourceClientId =
      ((core.findTopic w.topicPath).map TopicRuntime.latestSourceClientId).getD
        w.sourceClientId := by
  simp only [rejectEnvelope]
  cases core.findTopic w.topicPath with
  | none => rfl
  | some topic => exact sourceClientId_buildEnvelope ..

/-- The envelopes of one call name its writer if and only if its rejection does. -/
theorem queued_iff (hcore : WellFormed core) :
    (∀ c, ∀ e ∈ placed c ⟨core, call, (core.perform call).2⟩,
      ∃ w, requestedWrite call.request = some w ∧ e.value = w.value ∧
        e.sourceClientId = w.sourceClientId) ↔ core.NamesRejectedWriter call := by
  simp only [placed_eq hcore, NamesRejectedWriter]
  cases hwrite : requestedWrite call.request with
  | none => simp [deliveries_of_not_write, hwrite]
  | some w =>
    simp only [Option.some.injEq, exists_eq_left', forall_eq']
    rcases performWrite_cases core call.clock w with
      ⟨reason, hreason, hresult⟩ | ⟨topic, htopic, haccepted, hresult⟩
    · -- one rejection in the queue of the writer
      have howed := fun c => (deliveries_of_rejection hwrite (by rw [hresult]) c).2
      have hvalue := (rejectEnvelope_spec core (call.clock 0) w reason).2.1
      simp only [howed, hreason]
      constructor
      · intro hnames _ hconn topic htopic
        have h := hnames w.sourceClientId (core.rejectEnvelope (call.clock 0) w reason)
          (by simp [hconn])
        rw [rejectEnvelope_sourceClientId, htopic] at h
        exact h.2
      · intro hsame c e he
        split_ifs at he with hconn hc
        · subst hc
          obtain rfl := List.mem_singleton.mp he
          refine ⟨hvalue, ?_⟩
          rw [rejectEnvelope_sourceClientId]
          cases htopic : core.findTopic w.topicPath with
          | none => rfl
          | some topic => exact hsame (by simp) hconn topic htopic
        · simp at he
        · simp at he
    · -- the live event and its acknowledgement carry the accepted write
      simp only [haccepted, ne_eq, not_true_eq_false, false_implies, iff_true]
      intro c e he
      have hlive : ∀ e ∈ deliveries c ⟨core, call, (core.perform call).2⟩,
          e.value = w.value ∧ e.sourceClientId = w.sourceClientId := by
        intro e he
        have hvalue : (core.liveEnvelope call.clock topic w).value = w.value :=
          value_buildEnvelope ..
        have hsource : (core.liveEnvelope call.clock topic w).sourceClientId = w.sourceClientId :=
          sourceClientId_buildEnvelope ..
        rw [(deliveries_of_acceptance hwrite htopic (by rw [hresult]; rfl) c).2,
          List.mem_cons] at he
        rcases he with rfl | he
        · exact ⟨hvalue, hsource⟩
        · split_ifs at he
          · rw [List.mem_singleton.mp he]
            exact ⟨hvalue, hsource⟩
          · simp at he
      split_ifs at he
      · exact hlive e he
      · simp at he

end Queued

/-! ### Snapshots -/

section Snapshots

variable {core : NativeLinkCore} {p : ByteString}

/-- The value and the source a topic has stored. -/
def latestWrite (core : NativeLinkCore) (p : ByteString) : Option (TopicValue × ByteString) :=
  ((core.findTopic p).map unleased).bind fun t =>
    if t.hasLatestValue then some (t.latestValue, t.latestSourceClientId) else none

/-- A topic that has a value, without its lease. -/
def storedTopic (core : NativeLinkCore) (p : ByteString) : Option TopicRuntime :=
  ((core.findTopic p).map unleased).bind fun t => if t.hasLatestValue then some t else none

theorem latestWrite_eq : core.latestWrite p =
    (core.storedTopic p).map fun t => (t.latestValue, t.latestSourceClientId) := by
  rw [latestWrite, storedTopic]
  cases (core.findTopic p).map unleased with
  | none => rfl
  | some t =>
    simp only [Option.bind_some]
    split_ifs <;> rfl

/-- An accepted write to `p` replaces what is stored there, and nothing else does. -/
theorem storedTopic_perform (core : NativeLinkCore) (call : Call) :
    (acceptedWrite ⟨core, call, (core.perform call).2⟩ = none ∧
      (core.perform call).1.storedTopic p = core.storedTopic p) ∨
    ∃ w topic, acceptedWrite ⟨core, call, (core.perform call).2⟩ = some w ∧
      core.findTopic w.topicPath = some topic ∧
      (core.perform call).1.storedTopic p =
        if w.topicPath = p then
          some (unleased (storeLatest (call.clock 0) w.value w.sourceClientId topic))
        else core.storedTopic p := by
  cases hwrite : requestedWrite call.request with
  | some w =>
    rcases performWrite_cases core call.clock w with
      ⟨reason, -, hresult⟩ | ⟨topic, htopic, -, hresult⟩
    · refine .inl ⟨?_, ?_⟩
      · simp [acceptedWrite, hwrite, perform_of_requestedWrite hwrite, hresult]
      · rw [perform_of_requestedWrite hwrite, hresult]
        rfl
    · have haccepted : (core.performWrite call.clock w).2.accepted = true := by
        rw [hresult]
        rfl
      refine .inr ⟨w, topic, ?_, htopic, ?_⟩
      · simp [acceptedWrite, hwrite, perform_of_requestedWrite hwrite, haccepted]
      · simp only [perform_of_requestedWrite hwrite]
        rw [hresult, storedTopic, findTopic_acceptWrite call.clock htopic]
        by_cases hp : p = w.topicPath
        · subst hp
          simp [storeLatest, unleased]
        · simp [hp, Ne.symm hp, storedTopic]
  | none =>
    refine .inl ⟨by simp [acceptedWrite, hwrite], ?_⟩
    by_cases hregister : ∃ descriptor, call.request = .registerTopic descriptor
    · obtain ⟨request, clock⟩ := call
      obtain ⟨descriptor, rfl⟩ := hregister
      have hcases : (core.perform ⟨.registerTopic descriptor, clock⟩).1.findTopic p =
          core.findTopic p ∨ _ := findTopic_registerTopic_cases (clock 0) descriptor
      simp only [storedTopic]
      rcases hcases with hsame | ⟨hfree, topic, hvalue, hfound⟩
      · rw [hsame]
      · have hfound : (core.perform ⟨.registerTopic descriptor, clock⟩).1.findTopic p =
            some topic := hfound
        simp [hfree, hfound, unleased, hvalue]
    · simp only [storedTopic]
      rw [findTopic_unleased_congr
        (unleased_perform hwrite fun d hd => hregister ⟨d, hd⟩)]

theorem latestWrite_perform (core : NativeLinkCore) (call : Call) :
    (core.perform call).1.latestWrite p =
      match acceptedWrite ⟨core, call, (core.perform call).2⟩ with
      | none => core.latestWrite p
      | some w =>
        if w.topicPath = p then some (w.value, w.sourceClientId) else core.latestWrite p := by
  rw [latestWrite_eq, latestWrite_eq]
  rcases storedTopic_perform (p := p) core call with
    ⟨hnone, hsame⟩ | ⟨w, topic, hw, -, hstored⟩
  · rw [hnone, hsame]
  · rw [hw, hstored]
    by_cases hp : w.topicPath = p
    · simp [hp, unleased, storeLatest]
    · simp [hp]

/-- After every run a topic stores the last write accepted for it. -/
theorem latestWrite_after (calls : List Call) (p : ByteString) :
    (after perform {} calls).latestWrite p =
      (lastWriteTo p (history perform {} calls)).map fun w => (w.value, w.sourceClientId) := by
  induction calls using List.reverseRecOn with
  | nil => rfl
  | append_singleton calls call ih =>
    rw [after_append, history_append, after_cons, after_nil, latestWrite_perform, ih,
      history_cons, history_nil]
    simp only [lastWriteTo, List.filterMap_append, List.reverse_append]
    cases hw : acceptedWrite ⟨after perform {} calls, call,
        ((after perform {} calls).perform call).2⟩ with
    | none => simp [hw]
    | some w => by_cases hp : w.topicPath = p <;> simp [hw, hp]

theorem snapshot_names_producer (calls : List Call) {clock : ℕ → TimePoint} {c : ByteString}
    {e : UpdateEnvelope} (he : e ∈ snapshotUpdates
      ⟨(after perform {} calls).buildSnapshotForClient clock c⟩) :
    ∃ w, lastWriteTo e.topicPath (history perform {} calls) = some w ∧ e.value = w.value ∧
      e.sourceClientId = w.sourceClientId := by
  have hwell := (reachable_after calls).wellFormed
  obtain ⟨topic, htopic, hreplayed, reading, rfl⟩ := mem_snapshotUpdates he
  rw [topicPath_buildEnvelope, value_buildEnvelope, sourceClientId_buildEnvelope]
  have hfound : (after perform {} calls).findTopic topic.descriptor.topicPath = some topic :=
    find?_eq_some_of_mem hwell.topicPaths htopic
  have hstored := latestWrite_after calls topic.descriptor.topicPath
  have hvalue : topic.hasLatestValue = true := by
    simp only [isReplayed, Bool.and_eq_true] at hreplayed
    exact hreplayed.1.1.1
  simp only [latestWrite, hfound, Option.map_some, Option.bind_some, unleased, hvalue, if_true]
    at hstored
  obtain ⟨w, hw, hsame⟩ := Option.map_eq_some_iff.mp hstored.symm
  rw [Prod.mk.injEq] at hsame
  exact ⟨w, hw, hsame.1.symm, hsame.2.symm⟩

end Snapshots

/-- Every envelope of a run names the writer of its value if and only if every rejection of the
run that reaches a connected client is of a write to an unknown topic or by the client whose
write to the topic was accepted last. -/
theorem namesProducers_iff (calls : List Call) :
    NamesProducers calls ↔
      ∀ r ∈ history perform {} calls, r.before.NamesRejectedWriter r.input := by
  have hstep : ∀ r ∈ history perform {} calls, (∀ c, ∀ e ∈ placed c r,
      ∃ w, requestedWrite r.input.request = some w ∧ e.value = w.value ∧
        e.sourceClientId = w.sourceClientId) ↔ r.before.NamesRejectedWriter r.input := by
    intro r hr
    obtain ⟨front, call, back, -, rfl⟩ := exists_split_of_mem_history hr
    exact queued_iff (reachable_after front).wellFormed
  constructor
  · intro hnames r hr
    exact (hstep r hr).mp (hnames.queued r hr)
  · intro hcond
    exact ⟨fun r hr => (hstep r hr).mpr (hcond r hr),
      fun front _ clock c e he => snapshot_names_producer front he⟩

section Example

/-- Dashboard A, the holder, has commanded a reset before B tries to. -/
def refusedReset : List Call :=
  pendingReset ++ [(Request.publish resetTopic.topicPath (.ofBool true) dashboardB).at 0]

/-- The rejection in B's queue names A. -/
theorem rejection_names_other_writer : ¬ NamesProducers refusedReset := by
  intro hnames
  have hrecord : (⟨after perform {} pendingReset,
      (Request.publish resetTopic.topicPath (.ofBool true) dashboardB).at 0,
      .write ⟨false, .leaseNotHolder, 0⟩⟩ : CallRecord) ∈ history perform {} refusedReset := by
    rw [refusedReset, history_append]
    exact List.mem_append_right _ List.mem_cons_self
  obtain ⟨w, hw, -, hsource⟩ := hnames.queued _ hrecord dashboardB
    ((placed dashboardB ⟨after perform {} pendingReset,
      (Request.publish resetTopic.topicPath (.ofBool true) dashboardB).at 0,
      .write ⟨false, .leaseNotHolder, 0⟩⟩).head (by decide)) (List.head_mem _)
  obtain rfl := Option.some.inj hw
  exact absurd hsource (by decide)

end Example

end NativeLinkCore

end SmartDashboard.NativeLink
