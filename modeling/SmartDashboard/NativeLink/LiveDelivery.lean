import SmartDashboard.NativeLink.Delivery
import Mathlib.Data.List.Chain

/-!
# Live delivery

Every client that stays connected over a stretch of a run receives the same numbered log of live
events, interleaved only with the acknowledgements and rejections of its own writes.
-/

namespace SmartDashboard.NativeLink

open Execution

namespace NativeLinkCore

/-- What `c` receives over a stretch: what it drains during it and still has pending at its end,
without the backlog it entered the stretch with. -/
def received (c : ByteString) (core : NativeLinkCore) (calls : List Call) :
    List UpdateEnvelope :=
  ((history perform core calls).flatMap (drainedEvents c) ++
    queue c (after perform core calls)).drop (queue c core).length

/-- The live envelopes of the publishes accepted during a stretch, in order. -/
def liveLog (core : NativeLinkCore) (calls : List Call) : List UpdateEnvelope :=
  (history perform core calls).flatMap liveEvents

section Step

variable {core : NativeLinkCore}

/-- The session and the number of its next publish. -/
def sessionCounters (core : NativeLinkCore) : UInt64 × UInt64 :=
  (core.serverSessionId, core.nextServerSequence)

/-- A call that is no write and begins no session leaves the counters alone. -/
theorem sessionCounters_perform (call : Call) (hwrite : requestedWrite call.request = none)
    (hsession : call.request ≠ .beginNewSession) :
    sessionCounters (core.perform call).1 = sessionCounters core := by
  obtain ⟨request, clock⟩ := call
  cases request with
  | registerTopic descriptor =>
    show sessionCounters (core.registerTopic (clock 0) descriptor).1 = _
    simp only [registerTopic]
    split_ifs <;> rfl
  | acquireLease p c =>
    show sessionCounters (core.acquireLease p c).1 = _
    simp only [acquireLease]
    split
    · rfl
    · split_ifs <;> rfl
  | releaseLease p c =>
    show sessionCounters (core.releaseLease p c).1 = _
    simp only [releaseLease]
    split
    · rfl
    · split_ifs <;> rfl
  | connectClient c =>
    show sessionCounters (core.connectClient clock c).1 = _
    simp only [connectClient]
    split_ifs <;> rfl
  | disconnectClient c =>
    show sessionCounters (core.disconnectClient c).1 = _
    simp only [disconnectClient]
    split_ifs <;> rfl
  | drainClientEvents c =>
    show sessionCounters (core.drainClientEvents c).1 = _
    simp only [drainClientEvents]
    split <;> rfl
  | beginNewSession => exact absurd rfl hsession
  | publish _ _ _ | publishFromServer _ _ => simp [requestedWrite] at hwrite

theorem liveEvents_of_not_write {r : CallRecord} (h : requestedWrite r.input.request = none) :
    liveEvents r = [] := by
  simp [liveEvents, acceptedWrite, h]

/-- Within a session a call emits no live event and leaves the counter alone, or emits one that
carries the counter's value and moves it on. -/
theorem liveEvents_step (core : NativeLinkCore) (call : Call)
    (hsession : call.request ≠ .beginNewSession) :
    (liveEvents ⟨core, call, (core.perform call).2⟩ = [] ∧
      (core.perform call).1.nextServerSequence = core.nextServerSequence) ∨
    ∃ live, liveEvents ⟨core, call, (core.perform call).2⟩ = [live] ∧
      live.serverSequence = core.nextServerSequence ∧
      (core.perform call).1.nextServerSequence = core.nextServerSequence + 1 := by
  cases hwrite : requestedWrite call.request with
  | some w =>
    rcases performWrite_cases core call.clock w with
      ⟨reason, -, hresult⟩ | ⟨topic, htopic, -, hresult⟩
    · refine .inl ⟨(deliveries_of_rejection hwrite (by rw [hresult]) []).1, ?_⟩
      rw [perform_of_requestedWrite hwrite, hresult]
      rfl
    · refine .inr ⟨_, (deliveries_of_acceptance hwrite htopic (by rw [hresult]; rfl) []).1, ?_, ?_⟩
      · exact serverSequence_buildEnvelope ..
      · rw [perform_of_requestedWrite hwrite, hresult, nextServerSequence_acceptWrite]
  | none =>
    refine .inl ⟨liveEvents_of_not_write hwrite, ?_⟩
    exact congrArg Prod.snd (sessionCounters_perform _ hwrite hsession)

end Step

/-- The live log of a stretch of one session is numbered without gaps, from the counter on. -/
theorem liveLog_consecutive (core : NativeLinkCore) {calls : List Call}
    (hsession : ∀ call ∈ calls, call.request ≠ .beginNewSession) :
    (liveLog core calls).IsChain (fun a b => b.serverSequence = a.serverSequence + 1) ∧
      ∀ e ∈ (liveLog core calls).head?, e.serverSequence = core.nextServerSequence := by
  induction calls generalizing core with
  | nil => simp [liveLog]
  | cons call calls ih =>
    obtain ⟨hchain, hhead⟩ := ih (core.perform call).1 fun b hb =>
      hsession b (List.mem_cons_of_mem _ hb)
    simp only [liveLog, history_cons, List.flatMap_cons] at hchain hhead ⊢
    rcases liveEvents_step core call (hsession call List.mem_cons_self) with
      ⟨hnone, hnext⟩ | ⟨live, hlive, hseq, hnext⟩
    · rw [hnone, List.nil_append]
      exact ⟨hchain, hnext ▸ hhead⟩
    · rw [hlive, List.singleton_append]
      refine ⟨List.isChain_cons.mpr ⟨?_, hchain⟩, by simpa using hseq⟩
      intro e he
      rw [hhead e he, hnext, hseq]

theorem isLive_liveEnvelope (core : NativeLinkCore) (clock : ℕ → TimePoint)
    (topic : TopicRuntime) (w : TopicWrite) : isLive (core.liveEnvelope clock topic w) := by
  simp only [isLive, liveEnvelope, deliveryKind_buildEnvelope]
  cases topic.descriptor.topicKind <;> rfl

/-- Without acknowledgements and rejections every client is owed the live event alone. -/
theorem filter_isLive_deliveries (core : NativeLinkCore) (call : Call) (c : ByteString) :
    (deliveries c ⟨core, call, (core.perform call).2⟩).filter isLive =
      liveEvents ⟨core, call, (core.perform call).2⟩ := by
  cases hwrite : requestedWrite call.request with
  | none => rw [deliveries_of_not_write hwrite, liveEvents_of_not_write hwrite, List.filter_nil]
  | some w =>
    rcases performWrite_cases core call.clock w with
      ⟨reason, -, hresult⟩ | ⟨topic, htopic, -, hresult⟩
    · obtain ⟨hlive, hall⟩ := deliveries_of_rejection hwrite (by rw [hresult]) c
      have hreject : isLive (core.rejectEnvelope (call.clock 0) w reason) = false := by
        simp only [isLive, rejectEnvelope]
        split <;> simp
      rw [hlive, hall]
      split_ifs
      · simp [hreject]
      · rfl
    · obtain ⟨hlive, hall⟩ :=
        deliveries_of_acceptance hwrite htopic (by rw [hresult]; rfl) c
      have hack : isLive (toAck (core.liveEnvelope call.clock topic w)) = false := rfl
      rw [hlive, hall, List.filter_cons_of_pos (isLive_liveEnvelope core call.clock topic w)]
      split_ifs
      · simp [hack]
      · rfl

theorem filter_isLive_flatMap_deliveries (core : NativeLinkCore) (calls : List Call)
    (c : ByteString) :
    ((history perform core calls).flatMap (deliveries c)).filter isLive = liveLog core calls := by
  induction calls generalizing core with
  | nil => rfl
  | cons call calls ih =>
    simp only [liveLog, history_cons, List.flatMap_cons, List.filter_append] at ih ⊢
    rw [filter_isLive_deliveries, ih]

/-- What an accepted publish owes to `c`, read off its record. -/
theorem deliveries_of_acceptedWrite {core : NativeLinkCore} {call : Call} {w : TopicWrite}
    (hw : acceptedWrite ⟨core, call, (core.perform call).2⟩ = some w) (c : ByteString) :
    ∃ live, liveEvents ⟨core, call, (core.perform call).2⟩ = [live] ∧
      live.topicPath = w.topicPath ∧ live.value = w.value ∧
      live.sourceClientId = w.sourceClientId ∧
      (core.perform call).2 = .write ⟨true, .none, live.serverSequence⟩ ∧
      deliveries c ⟨core, call, (core.perform call).2⟩ =
        if core.IsClientCommand w ∧ c = w.sourceClientId then [live, toAck live]
        else [live] := by
  cases hwrite : requestedWrite call.request with
  | none => simp [acceptedWrite, hwrite] at hw
  | some w' =>
    rcases performWrite_cases core call.clock w' with
      ⟨reason, -, hresult⟩ | ⟨topic, htopic, -, hresult⟩
    · simp [acceptedWrite, hwrite, perform_of_requestedWrite hwrite, hresult] at hw
    · have haccepted : (core.performWrite call.clock w').2.accepted = true := by
        rw [hresult]
        rfl
      obtain rfl : w' = w := by
        simpa [acceptedWrite, hwrite, perform_of_requestedWrite hwrite, haccepted] using hw
      obtain ⟨hlive, hall⟩ := deliveries_of_acceptance hwrite htopic haccepted c
      refine ⟨core.liveEnvelope call.clock topic w', hlive, ?_, ?_, ?_, ?_, ?_⟩
      · have hpath := findTopic_path core htopic
        exact (topicPath_buildEnvelope ..).trans hpath
      · exact value_buildEnvelope ..
      · exact sourceClientId_buildEnvelope ..
      · rw [perform_of_requestedWrite hwrite, hresult]
        exact congrArg (fun n => Reply.write ⟨true, .none, n⟩)
          (serverSequence_buildEnvelope ..).symm
      · rw [hall]
        split_ifs <;> rfl

/-- Over a stretch in which `c` stays connected, what it receives is what the calls owe it. -/
theorem received_eq {core : NativeLinkCore} (hcore : core.Reachable) {calls : List Call}
    {c : ByteString} (hconn : StaysConnected c core calls)
    (hsession : ∀ call ∈ calls, call.request ≠ .beginNewSession) :
    (history perform core calls).flatMap (drainedEvents c) ++
        queue c (after perform core calls) = queue c core ++ received c core calls ∧
      received c core calls = (history perform core calls).flatMap (deliveries c) := by
  have hall : (history perform core calls).flatMap (drainedEvents c) ++
      queue c (after perform core calls) =
        queue c core ++ (history perform core calls).flatMap (deliveries c) := by
    -- one call neither loses nor invents an event
    apply conservation
    intro r hr
    have hconn' := next_of_mem_history (P := (IsConnected · c)) hconn.1 hconn.2 hr
    have hbefore := hconn.1 r hr
    obtain ⟨front, call, back, rfl, rfl⟩ := exists_split_of_mem_history hr
    exact queue_step (hcore.after front).wellFormed call c
      (hsession call (List.mem_append_right _ List.mem_cons_self)) hbefore hconn'
  have hreceived : received c core calls =
      (history perform core calls).flatMap (deliveries c) := by
    rw [received, hall, List.drop_left]
  exact ⟨hreceived ▸ hall, hreceived⟩

/-- Over any stretch of a run in which `c` stays connected and no session begins, what `c` drains
and still has pending is its backlog followed by what the calls of the stretch owe it. Without
acknowledgements and rejections that is the log of the accepted publishes, numbered without gaps
and the same for every client; an accepted publish owes its live event, directly followed by its
acknowledgement where it is a command of `c` itself. -/
theorem live_delivery {core : NativeLinkCore} (hcore : core.Reachable) {calls : List Call}
    {c : ByteString} (hconn : StaysConnected c core calls)
    (hsession : ∀ call ∈ calls, call.request ≠ .beginNewSession) :
    (history perform core calls).flatMap (drainedEvents c) ++
        queue c (after perform core calls) = queue c core ++ received c core calls ∧
      (received c core calls).filter isLive = liveLog core calls ∧
      (liveLog core calls).IsChain (fun a b => b.serverSequence = a.serverSequence + 1) ∧
      received c core calls = (history perform core calls).flatMap (deliveries c) ∧
      (∀ r ∈ history perform core calls, ∀ w, acceptedWrite r = some w →
        ∃ live, liveEvents r = [live] ∧ live.topicPath = w.topicPath ∧ live.value = w.value ∧
          live.sourceClientId = w.sourceClientId ∧
          r.output = .write ⟨true, .none, live.serverSequence⟩ ∧
          deliveries c r =
            if r.before.IsClientCommand w ∧ c = w.sourceClientId then [live, toAck live]
            else [live]) ∧
      ∀ d, StaysConnected d core calls →
        (received d core calls).filter isLive = (received c core calls).filter isLive := by
  have hfilter : ∀ d, StaysConnected d core calls →
      (received d core calls).filter isLive = liveLog core calls := fun d hd => by
    rw [(received_eq hcore hd hsession).2, filter_isLive_flatMap_deliveries]
  refine ⟨(received_eq hcore hconn hsession).1, hfilter c hconn,
    (liveLog_consecutive core hsession).1, (received_eq hcore hconn hsession).2, ?_,
    fun d hd => by rw [hfilter d hd, hfilter c hconn]⟩
  intro r hr w hw
  obtain ⟨front, call, back, -, rfl⟩ := exists_split_of_mem_history hr
  exact deliveries_of_acceptedWrite hw c

section Example

/-- A command topic two dashboards share. -/
def resetTopic : TopicDescriptor :=
  { topicPath := ascii ['R', 'e', 's', 'e', 't']
    topicKind := .command
    writerPolicy := .leaseSingleWriter }

def dashboardA : ByteString := ascii ['a']

def dashboardB : ByteString := ascii ['b']

/-- Both dashboards are connected and the first one holds the lease of the command topic. -/
def twoDashboards : List Call :=
  [(Request.registerTopic resetTopic).at 0, (Request.connectClient dashboardA).at 0,
    (Request.connectClient dashboardB).at 0,
    (Request.acquireLease resetTopic.topicPath dashboardA).at 0]

/-- The holder commands, the other dashboard is refused and then drains. -/
def contendedReset : List Call :=
  [(Request.publish resetTopic.topicPath (.ofBool true) dashboardA).at 0,
    (Request.publish resetTopic.topicPath (.ofBool true) dashboardB).at 0,
    (Request.drainClientEvents dashboardB).at 0]

theorem live_delivery_twoDashboards :
    (received dashboardB (after perform {} twoDashboards) contendedReset).filter isLive =
      (received dashboardA (after perform {} twoDashboards) contendedReset).filter isLive :=
  (live_delivery (reachable_after twoDashboards) (c := dashboardA)
    ⟨by decide, by decide⟩ (by decide)).2.2.2.2.2 dashboardB ⟨by decide, by decide⟩

end Example

end NativeLinkCore

end SmartDashboard.NativeLink
