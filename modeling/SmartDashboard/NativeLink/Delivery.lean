import SmartDashboard.NativeLink.Run

/-!
# What a call delivers

The events one call owes to a client, and the queue laws: over a stretch in which a client stays
connected its queue hands out exactly what was there and what the calls owe it, and over any run
at most that, in order. The live part of what is owed does not depend on the client.
-/

namespace SmartDashboard.NativeLink

open FirstMatch Execution

namespace NativeLinkCore

/-- The write a call asks for. -/
def requestedWrite : Request → Option TopicWrite
  | .publish topicPath value sourceClientId => some ⟨topicPath, value, sourceClientId, false⟩
  | .publishFromServer topicPath value => some ⟨topicPath, value, serverId, true⟩
  | _ => none

/-- The write of a call that was answered with `accepted`. -/
def acceptedWrite (r : CallRecord) : Option TopicWrite :=
  match requestedWrite r.input.request, r.output with
  | some w, .write result => if result.accepted then some w else none
  | _, _ => none

/-- The write of a call that was answered with a rejection, and the reason given. -/
def rejectedWrite (r : CallRecord) : Option (TopicWrite × WriteRejectReason) :=
  match requestedWrite r.input.request, r.output with
  | some w, .write result => if result.accepted then none else some (w, result.rejectionReason)
  | _, _ => none

/-- The live envelope of an accepted publish. -/
def liveEvents (r : CallRecord) : List UpdateEnvelope :=
  match acceptedWrite r with
  | none => []
  | some w => ((r.before.findTopic w.topicPath).map fun topic =>
      r.before.liveEnvelope r.input.clock topic w).toList

/-- A client, not the server, wrote to a command topic. -/
def IsClientCommand (core : NativeLinkCore) (w : TopicWrite) : Prop :=
  w.allowServerOnly = false ∧
    (core.findTopic w.topicPath).map (fun t => t.descriptor.topicKind) = some .command

instance (core : NativeLinkCore) (w : TopicWrite) : Decidable (core.IsClientCommand w) :=
  inferInstanceAs (Decidable (_ ∧ _))

def toAck (e : UpdateEnvelope) : UpdateEnvelope := { e with deliveryKind := .liveCommandAck }

/-- The acknowledgement of an accepted client command, for its writer. -/
def ackEvents (c : ByteString) (r : CallRecord) : List UpdateEnvelope :=
  match acceptedWrite r with
  | none => []
  | some w =>
    if r.before.IsClientCommand w ∧ c = w.sourceClientId then (liveEvents r).map toAck else []

/-- The rejection of a write, for its writer. -/
def rejectEvents (c : ByteString) (r : CallRecord) : List UpdateEnvelope :=
  match rejectedWrite r with
  | none => []
  | some (w, reason) =>
    if c = w.sourceClientId then [r.before.rejectEnvelope (r.input.clock 0) w reason] else []

/-- Everything a call puts into the queue of `c`, if `c` is connected. -/
def deliveries (c : ByteString) (r : CallRecord) : List UpdateEnvelope :=
  liveEvents r ++ ackEvents c r ++ rejectEvents c r

/-- What a call handed out to `c`. -/
def drainedEvents (c : ByteString) (r : CallRecord) : List UpdateEnvelope :=
  match r.input.request, r.output with
  | .drainClientEvents d, .events envelopes => if c = d then envelopes else []
  | _, _ => []

/-- Neither an acknowledgement nor a rejection. -/
def isLive (e : UpdateEnvelope) : Bool :=
  e.deliveryKind != .liveCommandAck && e.deliveryKind != .liveCommandReject

/-- `c` is connected before and after every call of the stretch. -/
def StaysConnected (c : ByteString) (core : NativeLinkCore) (calls : List Call) : Prop :=
  (∀ r ∈ history perform core calls, r.before.IsConnected c) ∧
    (after perform core calls).IsConnected c

/-! ### The two outcomes of a write -/

section Write

variable {core : NativeLinkCore} {call : Call} {w : TopicWrite}

theorem perform_of_requestedWrite (h : requestedWrite call.request = some w) :
    core.perform call =
      ((core.performWrite call.clock w).1, .write (core.performWrite call.clock w).2) := by
  obtain ⟨request, clock⟩ := call
  cases request <;> simp only [requestedWrite, Option.some.injEq, reduceCtorEq] at h
  all_goals subst h; rfl

/-- What a rejected write owes: one event to its writer. -/
theorem deliveries_of_rejection (h : requestedWrite call.request = some w)
    {reason : WriteRejectReason}
    (hresult : (core.performWrite call.clock w).2 =
      { accepted := false, rejectionReason := reason, serverSequence := 0 }) (c : ByteString) :
    liveEvents ⟨core, call, (core.perform call).2⟩ = [] ∧
      deliveries c ⟨core, call, (core.perform call).2⟩ =
        if c = w.sourceClientId then [core.rejectEnvelope (call.clock 0) w reason] else [] := by
  simp [deliveries, liveEvents, ackEvents, rejectEvents, acceptedWrite, rejectedWrite, h,
    perform_of_requestedWrite h, hresult]

/-- What an accepted write owes: its live event, and the acknowledgement if `c` commanded it. -/
theorem deliveries_of_acceptance (h : requestedWrite call.request = some w)
    {topic : TopicRuntime} (htopic : core.findTopic w.topicPath = some topic)
    (hresult : (core.performWrite call.clock w).2.accepted = true) (c : ByteString) :
    liveEvents ⟨core, call, (core.perform call).2⟩ =
        [core.liveEnvelope call.clock topic w] ∧
      deliveries c ⟨core, call, (core.perform call).2⟩ =
        core.liveEnvelope call.clock topic w ::
          if core.IsClientCommand w ∧ c = w.sourceClientId then
            [toAck (core.liveEnvelope call.clock topic w)]
          else [] := by
  have hlive : liveEvents ⟨core, call, (core.perform call).2⟩ =
      [core.liveEnvelope call.clock topic w] := by
    simp [liveEvents, acceptedWrite, h, perform_of_requestedWrite h, hresult, htopic]
  refine ⟨hlive, ?_⟩
  simp only [deliveries, ackEvents, rejectEvents, hlive]
  simp [acceptedWrite, rejectedWrite, h, perform_of_requestedWrite h, hresult]

/-- The queues after a write: everything it owes is appended. -/
theorem pendingEvents_perform_write (h : requestedWrite call.request = some w)
    (c : ByteString) :
    (core.perform call).1.pendingEvents c =
      (core.pendingEvents c).map (· ++ deliveries c ⟨core, call, (core.perform call).2⟩) := by
  rcases performWrite_cases core call.clock w with
    ⟨reason, -, hresult⟩ | ⟨topic, htopic, -, hresult⟩
  · rw [(deliveries_of_rejection h (by rw [hresult]) c).2, perform_of_requestedWrite h, hresult,
      pendingEvents_enqueueEventForClient]
    split_ifs
    · rfl
    · simp
  · rw [(deliveries_of_acceptance h htopic (by rw [hresult]; rfl) c).2,
      perform_of_requestedWrite h, hresult, pendingEvents_acceptWrite]
    simp only [IsClientCommand, htopic, Option.map_some, Option.some.injEq, and_assoc]
    rfl

end Write

/-! ### The queue laws -/

section Queue

variable {core : NativeLinkCore}

/-- A call that is no write owes nothing. -/
theorem deliveries_of_not_write {r : CallRecord} (h : requestedWrite r.input.request = none)
    (c : ByteString) : deliveries c r = [] := by
  simp [deliveries, liveEvents, ackEvents, rejectEvents, acceptedWrite, rejectedWrite, h]

theorem pendingEvents_connectClient (clock : ℕ → TimePoint) (c d : ByteString) :
    (core.connectClient clock d).1.pendingEvents c =
      if c = d then some (core.queue d) else core.pendingEvents c := by
  simp only [connectClient, queue, pendingEvents]
  split_ifs with hnew hc hc
  · subst hc
    have hnone : core.findClient c = none := by simpa using hnew
    have hfind : core.clients.find? (isClient c) = none := hnone
    rw [hnone, findClient, List.find?_append, hfind]
    simp [isClient]
  · have hdc : d ≠ c := fun h => hc h.symm
    simp [findClient, List.find?_append, isClient, hdc]
  · subst hc
    obtain ⟨client, hclient⟩ : ∃ client, core.findClient c = some client := by
      simpa [Option.eq_none_iff_forall_ne_some] using hnew
    simp [hclient]
  · rfl

theorem pendingEvents_disconnectClient (hcore : WellFormed core) (c d : ByteString) :
    (core.disconnectClient d).1.pendingEvents c =
      if c = d then none else core.pendingEvents c := by
  simp only [disconnectClient, pendingEvents]
  split_ifs with hnew hc hc
  · subst hc
    simpa using hnew
  · rfl
  · -- ids are keys, so nobody else answers to `c` once its entry is gone
    subst hc
    have h := find?_eraseP_self hcore.clientIds c
    exact Option.map_eq_none_iff.mpr h
  · refine congrArg _ (find?_eraseP_of_disjoint (fun client hclient => ?_) core.clients)
    have hid : client.clientId = d := by simpa [isClient] using hclient
    have hdc : d ≠ c := fun h => hc h.symm
    simp [isClient, hid, hdc]

theorem pendingEvents_drainClientEvents (c d : ByteString) :
    (core.drainClientEvents d).1.pendingEvents c =
      if c = d then (core.pendingEvents c).map fun _ => [] else core.pendingEvents c := by
  simp only [drainClientEvents]
  split
  · next hnone =>
    split_ifs with hc
    · subst hc
      simp [pendingEvents, hnone]
    · rfl
  · next client hclient =>
    rw [pendingEvents_writeClient core (f := fun client => { client with pendingEvents := [] })
      fun _ => rfl]
    split_ifs with hc
    · subst hc
      simp only [pendingEvents, Option.map_map]
      rfl
    · rfl

theorem drainClientEvents_reply (d : ByteString) :
    (core.drainClientEvents d).2 = core.queue d := by
  simp only [drainClientEvents, queue, pendingEvents]
  split
  · next hnone => simp [hnone]
  · next hsome => simp [hsome]

theorem pendingEvents_beginNewSession (c : ByteString) :
    core.beginNewSession.pendingEvents c = (core.pendingEvents c).map fun _ => [] := by
  simp only [pendingEvents, findClient, beginNewSession, List.find?_map, Option.map_map]
  rfl

theorem pendingEvents_congr {core' : NativeLinkCore} (h : core'.clients = core.clients)
    (c : ByteString) : core'.pendingEvents c = core.pendingEvents c := by
  simp only [pendingEvents, findClient, h]

theorem clients_registerTopic (now : TimePoint) (descriptor : TopicDescriptor) :
    (core.registerTopic now descriptor).1.clients = core.clients := by
  simp only [registerTopic]
  split_ifs <;> rfl

theorem clients_acquireLease (p c : ByteString) :
    (core.acquireLease p c).1.clients = core.clients := by
  simp only [acquireLease]
  split
  · rfl
  · split_ifs <;> rfl

theorem clients_releaseLease (p c : ByteString) :
    (core.releaseLease p c).1.clients = core.clients := by
  simp only [releaseLease]
  split
  · rfl
  · split_ifs <;> rfl

/-- What one call does to the queue of `c`. -/
theorem pendingEvents_perform (hcore : WellFormed core) (call : Call) (c : ByteString) :
    (core.perform call).1.pendingEvents c =
      match call.request with
      | .connectClient d => if c = d then some (core.queue d) else core.pendingEvents c
      | .disconnectClient d => if c = d then none else core.pendingEvents c
      | .drainClientEvents d =>
        if c = d then (core.pendingEvents c).map fun _ => [] else core.pendingEvents c
      | .beginNewSession => (core.pendingEvents c).map fun _ => []
      | _ =>
        (core.pendingEvents c).map (· ++ deliveries c ⟨core, call, (core.perform call).2⟩) := by
  obtain ⟨request, clock⟩ := call
  cases request with
  | registerTopic descriptor =>
    rw [deliveries_of_not_write rfl]
    exact (pendingEvents_congr (clients_registerTopic (clock 0) descriptor) c).trans (by simp)
  | acquireLease p d =>
    rw [deliveries_of_not_write rfl]
    exact (pendingEvents_congr (clients_acquireLease p d) c).trans (by simp)
  | releaseLease p d =>
    rw [deliveries_of_not_write rfl]
    exact (pendingEvents_congr (clients_releaseLease p d) c).trans (by simp)
  | connectClient d => exact pendingEvents_connectClient clock c d
  | disconnectClient d => exact pendingEvents_disconnectClient hcore c d
  | publish p v d => exact pendingEvents_perform_write rfl c
  | publishFromServer p v => exact pendingEvents_perform_write rfl c
  | drainClientEvents d => exact pendingEvents_drainClientEvents c d
  | beginNewSession => exact pendingEvents_beginNewSession c

/-- What one call hands out to `c`. -/
theorem drainedEvents_perform (call : Call) (c : ByteString) :
    drainedEvents c ⟨core, call, (core.perform call).2⟩ =
      match call.request with
      | .drainClientEvents d => if c = d then queue c core else []
      | _ => [] := by
  obtain ⟨request, clock⟩ := call
  cases request with
  | drainClientEvents d =>
    simp only [drainedEvents, perform, Prod.map_snd, drainClientEvents_reply]
    split_ifs with hc
    · rw [hc]
    · rfl
  | _ => rfl

/-- The queue of `c` after one call, with no queue read as an empty one. -/
theorem queue_perform (hcore : WellFormed core) (call : Call) (c : ByteString) :
    queue c (core.perform call).1 =
      match call.request with
      | .connectClient _ => queue c core
      | .disconnectClient d | .drainClientEvents d => if c = d then [] else queue c core
      | .beginNewSession => []
      | _ =>
        if core.IsConnected c then
          queue c core ++ deliveries c ⟨core, call, (core.perform call).2⟩
        else [] := by
  have hstep := pendingEvents_perform hcore call c
  obtain ⟨request, clock⟩ := call
  rw [queue, hstep]
  cases request with
  | connectClient d =>
    simp only [queue]
    split_ifs with hc
    · rw [hc]; rfl
    · rfl
  | disconnectClient d | drainClientEvents d =>
    simp only [queue]
    split_ifs <;> cases core.pendingEvents c <;> rfl
  | beginNewSession => cases core.pendingEvents c <;> rfl
  | registerTopic _ | acquireLease _ _ | releaseLease _ _ | publish _ _ _
  | publishFromServer _ _ =>
    simp only [queue, IsConnected]
    rcases Option.eq_none_or_eq_some (core.pendingEvents c) with h | ⟨events, h⟩ <;> simp [h]

/-- One call of a stretch in which `c` stays connected neither loses nor invents an event. -/
theorem queue_step (hcore : WellFormed core) (call : Call) (c : ByteString)
    (hsession : call.request ≠ .beginNewSession) (hconn : core.IsConnected c)
    (hconn' : (core.perform call).1.IsConnected c) :
    drainedEvents c ⟨core, call, (core.perform call).2⟩ ++ queue c (core.perform call).1 =
      queue c core ++ deliveries c ⟨core, call, (core.perform call).2⟩ := by
  rw [drainedEvents_perform, queue_perform hcore]
  have hstep := pendingEvents_perform hcore call c
  obtain ⟨request, clock⟩ := call
  cases request with
  | connectClient d =>
    rw [deliveries_of_not_write rfl]
    simp
  | disconnectClient d =>
    -- `c` is still connected, so it was somebody else who left
    have hc : c ≠ d := by
      rintro rfl
      simp [IsConnected, hstep] at hconn'
    rw [deliveries_of_not_write rfl]
    simp [hc]
  | drainClientEvents d =>
    rw [deliveries_of_not_write rfl]
    simp only
    split_ifs <;> simp
  | beginNewSession => exact absurd rfl hsession
  | registerTopic _ | acquireLease _ _ | releaseLease _ _ | publish _ _ _
  | publishFromServer _ _ => simp only [if_pos hconn, List.nil_append]

/-- One call of any run may drop events of `c`, but neither invents nor reorders them. -/
theorem queue_step_sublist (hcore : WellFormed core) (call : Call) (c : ByteString) :
    (drainedEvents c ⟨core, call, (core.perform call).2⟩ ++
        queue c (core.perform call).1).Sublist
      (queue c core ++ deliveries c ⟨core, call, (core.perform call).2⟩) := by
  rw [drainedEvents_perform, queue_perform hcore]
  obtain ⟨request, clock⟩ := call
  cases request with
  | connectClient d => simp
  | disconnectClient d | drainClientEvents d =>
    simp only
    split_ifs <;> simp
  | beginNewSession => simp
  | registerTopic _ | acquireLease _ _ | releaseLease _ _ | publish _ _ _
  | publishFromServer _ _ =>
    simp only [List.nil_append]
    split_ifs
    · exact List.Sublist.refl _
    · exact List.nil_sublist _

end Queue

end NativeLinkCore

end SmartDashboard.NativeLink
