import SmartDashboard.NativeLink.Delivery

/-!
# Rejected writes

A write that is not accepted changes nothing but the queue of its writer, which learns the value
and the reason.
-/

namespace SmartDashboard.NativeLink

open FirstMatch Execution

namespace NativeLinkCore

variable {core : NativeLinkCore}

theorem rejectEnvelope_spec (core : NativeLinkCore) (now : TimePoint) (w : TopicWrite)
    (reason : WriteRejectReason) :
    (core.rejectEnvelope now w reason).deliveryKind = .liveCommandReject ∧
      (core.rejectEnvelope now w reason).value = w.value ∧
      (core.rejectEnvelope now w reason).rejectionReason = reason := by
  simp only [rejectEnvelope]
  split
  · exact ⟨rfl, rfl, rfl⟩
  · exact ⟨deliveryKind_buildEnvelope .., rfl, rfl⟩

/-- With distinct client ids an event for one client is an event for that list entry alone. -/
theorem clients_enqueueEventForClient (hcore : WellFormed core) (c : ByteString)
    (e : UpdateEnvelope) :
    (core.enqueueEventForClient c e).clients =
      core.clients.map fun client => if client.clientId = c then pushEvent e client else client :=
  updateFirst_eq_map hcore.clientIds c

/-- A `Publish` or `PublishFromServer` that returns `accepted = false` leaves the topics, the
session, the counters and every entry of the client list as they were, except that the entry of
its writer, if there is one, has one more event: a rejection with the value and the reason. -/
theorem rejected_write_atomic (hcore : core.Reachable) {call : Call} {w : TopicWrite}
    {result : WriteResult} (hwrite : requestedWrite call.request = some w)
    (hreply : (core.perform call).2 = .write result) (hrejected : result.accepted = false) :
    (core.perform call).1.topics = core.topics ∧
      (core.perform call).1.serverSessionId = core.serverSessionId ∧
      (core.perform call).1.nextTopicId = core.nextTopicId ∧
      (core.perform call).1.nextServerSequence = core.nextServerSequence ∧
      ∃ e : UpdateEnvelope, e.deliveryKind = .liveCommandReject ∧ e.value = w.value ∧
        e.rejectionReason = result.rejectionReason ∧
        (core.perform call).1.clients = (core.clients.map fun client =>
          if client.clientId = w.sourceClientId then pushEvent e client else client) ∧
        (core.perform call).1.pendingEvents w.sourceClientId =
          (core.pendingEvents w.sourceClientId).map (· ++ [e]) := by
  rw [perform_of_requestedWrite hwrite] at hreply ⊢
  obtain rfl : (core.performWrite call.clock w).2 = result := Reply.write.inj hreply
  rcases performWrite_cases core call.clock w with ⟨reason, -, hresult⟩ | ⟨topic, -, -, hresult⟩
  · obtain ⟨hkind, hvalue, hreason⟩ := rejectEnvelope_spec core (call.clock 0) w reason
    rw [hresult]
    refine ⟨rfl, rfl, rfl, rfl, core.rejectEnvelope (call.clock 0) w reason, hkind, hvalue,
      hreason, clients_enqueueEventForClient hcore.wellFormed _ _, ?_⟩
    rw [pendingEvents_enqueueEventForClient, if_pos rfl]
  · rw [hresult] at hrejected
    exact absurd hrejected (by simp [acceptWrite])

section Example

/-- A number only the server may write. -/
def timerTopic : TopicDescriptor :=
  { topicPath := ascii ['T', 'i', 'm', 'e', 'r'], valueType := .double }

/-- A client is connected and the server owns one topic. -/
def timerOnly : List Call :=
  [(Request.registerTopic timerTopic).at 0, (Request.connectClient (ascii ['a'])).at 0]

theorem timerOnly_refuses : ((after perform {} timerOnly).perform
    ((Request.publish timerTopic.topicPath (.ofDouble 7) (ascii ['a'])).at 5)).2 =
      .write ⟨false, .readOnly, 0⟩ := by
  decide

theorem rejected_write_atomic_timer :
    ((after perform {} timerOnly).perform
        ((Request.publish timerTopic.topicPath (.ofDouble 7) (ascii ['a'])).at 5)).1.topics =
      (after perform {} timerOnly).topics :=
  (rejected_write_atomic (reachable_after timerOnly)
    (w := ⟨timerTopic.topicPath, .ofDouble 7, ascii ['a'], false⟩) rfl timerOnly_refuses rfl).1

end Example

end NativeLinkCore

end SmartDashboard.NativeLink
