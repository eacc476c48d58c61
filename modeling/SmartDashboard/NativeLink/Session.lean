import Mathlib.Algebra.Group.Nat.Defs
import SmartDashboard.NativeLink.Convergence

/-!
# Session boundaries

What `BeginNewSession` resets, followed through every later call: leases, queues, the session id
of every envelope and the numbering of accepted publishes. Stored values are not reset, and a
snapshot of the new session presents them as the old one did.

## Main definitions

- `newSessions`: how many sessions a list of calls begins
- `emitted`: the envelopes a call hands out
- `acceptedSequences`: the numbers a run gives to its accepted publishes
- `PresentsAsStored`: a snapshot update shows a stored value and is stale by its age alone
-/

namespace SmartDashboard.NativeLink

open FirstMatch Execution

namespace NativeLinkCore

/-- How many sessions the calls begin. -/
def newSessions (calls : List Call) : ℕ :=
  calls.countP fun call => call.request == .beginNewSession

/-- The envelopes a call returns to its caller, drained or in a snapshot. -/
def emitted (r : CallRecord) : List UpdateEnvelope :=
  match r.output with
  | .session view => snapshotUpdates view
  | .events envelopes => envelopes
  | _ => []

/-- The number an accepted publish was answered with. -/
def acceptedSequence (r : CallRecord) : Option UInt64 :=
  match r.output with
  | .write result => if result.accepted then some result.serverSequence else none
  | _ => none

/-- The numbers of the publishes accepted in a run, in order. -/
def acceptedSequences (core : NativeLinkCore) (calls : List Call) : List UInt64 :=
  (history perform core calls).filterMap acceptedSequence

/-- The age of a stored value in milliseconds. -/
def ageMs (topic : TopicRuntime) (now : TimePoint) : Int :=
  (now - topic.latestValueTime).tdiv 1000000

/-- The envelope shows the stored value of a topic, whenever that was accepted, and is stale if
and only if the value has outlived its time to live. -/
def PresentsAsStored (core : NativeLinkCore) (now : TimePoint) (e : UpdateEnvelope) : Prop :=
  ∃ topic, core.findTopic e.topicPath = some topic ∧ e.value = topic.latestValue ∧
    (e.isStale = true ↔ 0 < topic.descriptor.ttlMs ∧
      topic.descriptor.ttlMs.toInt < ageMs topic now) ∧
    e.freshnessReason = if e.isStale then .ttlExpired else .live

/-! ### Session ids -/

section SessionId

variable {core : NativeLinkCore}

theorem serverSessionId_performWrite (clock : ℕ → TimePoint) (w : TopicWrite) :
    (core.performWrite clock w).1.serverSessionId = core.serverSessionId := by
  rcases performWrite_cases core clock w with ⟨reason, -, hresult⟩ | ⟨topic, -, -, hresult⟩
  · rw [hresult]
    rfl
  · rw [hresult, serverSessionId_acceptWrite]

/-- Only `BeginNewSession` changes the session id. -/
theorem serverSessionId_perform_of_ne (call : Call) (hsession : call.request ≠ .beginNewSession) :
    (core.perform call).1.serverSessionId = core.serverSessionId := by
  cases hwrite : requestedWrite call.request with
  | none => exact congrArg Prod.fst (sessionCounters_perform _ hwrite hsession)
  | some w =>
    rw [perform_of_requestedWrite hwrite]
    exact serverSessionId_performWrite call.clock w

theorem serverSessionId_perform (core : NativeLinkCore) (call : Call) :
    (core.perform call).1.serverSessionId =
      core.serverSessionId + UInt64.ofNat (newSessions [call]) := by
  by_cases hsession : call.request = .beginNewSession
  · obtain ⟨request, clock⟩ := call
    subst hsession
    rfl
  · have hnone : newSessions [call] = 0 := by simp [newSessions, hsession]
    rw [serverSessionId_perform_of_ne call hsession, hnone]
    exact (UInt64.add_zero _).symm

theorem serverSessionId_after (core : NativeLinkCore) (calls : List Call) :
    (after perform core calls).serverSessionId =
      core.serverSessionId + UInt64.ofNat (newSessions calls) := by
  induction calls generalizing core with
  | nil => exact (UInt64.add_zero _).symm
  | cons call calls ih =>
    have hcount : newSessions (call :: calls) = newSessions [call] + newSessions calls := by
      rw [← List.singleton_append, newSessions, List.countP_append]
      rfl
    rw [after_cons, ih, serverSessionId_perform, hcount, UInt64.ofNat_add, UInt64.add_assoc]

/-- Everything a call puts into a queue carries the session of the state it meets. -/
theorem serverSessionId_of_mem_deliveries {call : Call} {c : ByteString} {e : UpdateEnvelope}
    (he : e ∈ deliveries c ⟨core, call, (core.perform call).2⟩) :
    e.serverSessionId = core.serverSessionId := by
  cases hwrite : requestedWrite call.request with
  | none =>
    rw [deliveries_of_not_write hwrite] at he
    simp at he
  | some w =>
    rcases performWrite_cases core call.clock w with
      ⟨reason, -, hresult⟩ | ⟨topic, htopic, -, hresult⟩
    · rw [(deliveries_of_rejection hwrite (by rw [hresult]) c).2] at he
      split_ifs at he
      · rw [List.mem_singleton.mp he, rejectEnvelope]
        split
        · rfl
        · exact serverSessionId_buildEnvelope ..
      · simp at he
    · have hlive : (core.liveEnvelope call.clock topic w).serverSessionId =
          core.serverSessionId := serverSessionId_buildEnvelope ..
      rw [(deliveries_of_acceptance hwrite htopic (by rw [hresult]; rfl) c).2,
        List.mem_cons] at he
      rcases he with rfl | he
      · exact hlive
      · split_ifs at he
        · rw [List.mem_singleton.mp he]
          exact hlive
        · simp at he

/-- Every queued event was queued in the current session. -/
def QueuesCurrent (core : NativeLinkCore) : Prop :=
  WellFormed core ∧ ∀ c, ∀ e ∈ queue c core, e.serverSessionId = core.serverSessionId

theorem QueuesCurrent.perform (core : NativeLinkCore) (call : Call) (h : QueuesCurrent core) :
    QueuesCurrent (core.perform call).1 := by
  refine ⟨WellFormed.perform core call h.1, ?_⟩
  intro c e he
  rw [queue_perform h.1] at he
  by_cases hsession : call.request = .beginNewSession
  · simp [hsession] at he
  · rw [serverSessionId_perform_of_ne call hsession]
    have howed : ∀ e ∈ deliveries c ⟨core, call, (core.perform call).2⟩,
        e.serverSessionId = core.serverSessionId := fun _ => serverSessionId_of_mem_deliveries
    obtain ⟨request, clock⟩ := call
    cases request with
    | beginNewSession => exact absurd rfl hsession
    | connectClient d => exact h.2 c e he
    | disconnectClient d | drainClientEvents d =>
      simp only at he
      split_ifs at he
      · simp at he
      · exact h.2 c e he
    | registerTopic _ | acquireLease _ _ | releaseLease _ _ | publish _ _ _
    | publishFromServer _ _ =>
      simp only at he
      split_ifs at he
      · rcases List.mem_append.mp he with he | he
        · exact h.2 c e he
        · exact howed e he
      · simp at he

theorem Reachable.queuesCurrent (h : core.Reachable) : QueuesCurrent core := by
  obtain ⟨calls, rfl⟩ := h
  refine after_induction QueuesCurrent.perform ⟨WellFormed.init, ?_⟩ calls
  intro c e he
  simp [queue, pendingEvents, findClient] at he

end SessionId

/-! ### What a call hands out -/

section Emitted

variable {core : NativeLinkCore}

/-- The updates of a snapshot show stored values under the current session. -/
theorem presentsAsStored_snapshot (hcore : WellFormed core) {clock : ℕ → TimePoint}
    {c : ByteString} {e : UpdateEnvelope}
    (he : e ∈ snapshotUpdates ⟨core.buildSnapshotForClient clock c⟩) :
    e.serverSessionId = core.serverSessionId ∧
      ∃ reading, core.PresentsAsStored (clock reading) e := by
  obtain ⟨topic, htopic, -, reading, rfl⟩ := mem_snapshotUpdates he
  refine ⟨serverSessionId_buildEnvelope .., reading, topic, ?_, value_buildEnvelope .., ?_, ?_⟩
  · rw [topicPath_buildEnvelope]
    exact find?_eq_some_of_mem hcore.topicPaths htopic
  · simp only [buildEnvelope, ageMs]
    split_ifs with httl hage
    · simp [httl, hage]
    · simp [hage]
    · simp [httl]
  · simp only [buildEnvelope]
    split_ifs <;> simp_all

/-- Everything a call hands out carries the session of the state it meets. -/
theorem serverSessionId_of_mem_emitted (hcore : core.Reachable) {call : Call}
    {e : UpdateEnvelope} (he : e ∈ emitted ⟨core, call, (core.perform call).2⟩) :
    e.serverSessionId = core.serverSessionId := by
  obtain ⟨request, clock⟩ := call
  cases request with
  | connectClient c =>
    have hconnected : WellFormed (core.connectClient clock c).1 :=
      hcore.wellFormed.connectClient clock c
    have hsame : (core.connectClient clock c).1.serverSessionId = core.serverSessionId :=
      serverSessionId_perform_of_ne ⟨.connectClient c, clock⟩ (by simp)
    exact (presentsAsStored_snapshot hconnected he).1.trans hsame
  | drainClientEvents c =>
    have he : e ∈ queue c core := by
      rw [← drainClientEvents_reply]
      exact he
    exact hcore.queuesCurrent.2 c e he
  | registerTopic _ | acquireLease _ _ | releaseLease _ _ | disconnectClient _ | publish _ _ _
  | publishFromServer _ _ | beginNewSession => simp [emitted, perform] at he

end Emitted

/-! ### The numbering of a session -/

section Numbering

/-- Over a stretch of one session the live log is numbered from the counter on. -/
theorem serverSequence_liveLog (core : NativeLinkCore) {calls : List Call}
    (hsession : ∀ call ∈ calls, call.request ≠ .beginNewSession) :
    (liveLog core calls).map UpdateEnvelope.serverSequence =
      (List.range (liveLog core calls).length).map fun i =>
        core.nextServerSequence + UInt64.ofNat i := by
  induction calls generalizing core with
  | nil => rfl
  | cons call calls ih =>
    have ih := ih (core.perform call).1 fun b hb => hsession b (List.mem_cons_of_mem _ hb)
    simp only [liveLog, history_cons, List.flatMap_cons] at ih ⊢
    rcases liveEvents_step core call (hsession call List.mem_cons_self) with
      ⟨hnone, hnext⟩ | ⟨live, hlive, hseq, hnext⟩
    · rw [hnone, List.nil_append, ← hnext]
      exact ih
    · -- the first event takes the number, the rest of the log starts behind it
      rw [hlive, List.singleton_append, List.map_cons, ih, List.length_cons,
        List.range_succ_eq_map, List.map_cons, List.map_map, hseq, hnext]
      have hshift : ∀ i : ℕ, core.nextServerSequence + 1 + UInt64.ofNat i =
          core.nextServerSequence + UInt64.ofNat (i + 1) := by
        intro i
        rw [UInt64.ofNat_add, UInt64.add_assoc, UInt64.add_comm 1]
        rfl
      simp only [hshift]
      exact congrArg (· :: _) (UInt64.add_zero _).symm

/-- An accepted publish is answered with the number of its live event. -/
theorem acceptedSequence_eq (core : NativeLinkCore) (call : Call) :
    (acceptedSequence ⟨core, call, (core.perform call).2⟩).toList =
      (liveEvents ⟨core, call, (core.perform call).2⟩).map UpdateEnvelope.serverSequence := by
  cases hwrite : requestedWrite call.request with
  | some w =>
    rcases performWrite_cases core call.clock w with
      ⟨reason, -, hresult⟩ | ⟨topic, htopic, -, hresult⟩
    · rw [(deliveries_of_rejection hwrite (by rw [hresult]) []).1]
      simp [acceptedSequence, perform_of_requestedWrite hwrite, hresult]
    · rw [(deliveries_of_acceptance hwrite htopic (by rw [hresult]; rfl) []).1]
      simp [acceptedSequence, perform_of_requestedWrite hwrite, hresult, acceptWrite,
        liveEnvelope]
      rfl
  | none =>
    rw [liveEvents_of_not_write hwrite]
    obtain ⟨request, clock⟩ := call
    cases request with
    | publish _ _ _ | publishFromServer _ _ => simp [requestedWrite] at hwrite
    | _ => rfl

theorem acceptedSequences_eq (core : NativeLinkCore) (calls : List Call) :
    acceptedSequences core calls = (liveLog core calls).map UpdateEnvelope.serverSequence := by
  induction calls generalizing core with
  | nil => rfl
  | cons call calls ih =>
    have hstep := acceptedSequence_eq core call
    simp only [acceptedSequences, liveLog, history_cons, List.flatMap_cons, List.map_append,
      List.filterMap_eq_flatMap_toList] at ih ⊢
    rw [hstep, ih]

end Numbering

/-! ### The boundary -/

section Boundary

variable {core : NativeLinkCore}

/-- A later session id is larger unless the counter has wrapped. -/
theorem lt_add_sessions {id : UInt64} {n : ℕ} (hpos : 0 < n) (hwrap : id.toNat + n < 2 ^ 64) :
    id < id + UInt64.ofNat n := by
  rw [UInt64.lt_iff_toNat_lt, UInt64.toNat_add, UInt64.toNat_ofNat',
    Nat.mod_eq_of_lt (by omega : n < 2 ^ 64), Nat.mod_eq_of_lt hwrap]
  omega

theorem queue_beginNewSession (c : ByteString) : queue c core.beginNewSession = [] := by
  rw [queue, pendingEvents_beginNewSession]
  cases core.pendingEvents c <;> rfl

/-- The stored values outlive the session they were accepted in. -/
theorem tryGetLatestValue_beginNewSession :
    core.beginNewSession.tryGetLatestValue = core.tryGetLatestValue := by
  have h : core.beginNewSession.tryGetLatestValue = storeEvents core.tryGetLatestValue _ :=
    tryGetLatestValue_perform (Request.beginNewSession.at 0)
  rwa [liveEvents_of_not_write rfl] at h

end Boundary

/-- From the state `core` on `BeginNewSession` is a boundary: leases are gone, nothing queued
before is drained, every envelope handed out after `calls` and before the next session carries an
id that counts the sessions begun since (so a larger one, as long as the counter does not wrap),
accepted publishes are numbered from 1, and snapshots show the stored values, accepted in whatever
session, as fresh or stale by their age. -/
structure SessionBoundary (core : NativeLinkCore) (calls : List Call) : Prop where
  leases : ∀ t ∈ core.beginNewSession.topics, t.leaseHolderClientId = []
  drained : ∀ c, ((history perform core.beginNewSession calls).flatMap (drainedEvents c)).Sublist
    ((history perform core.beginNewSession calls).flatMap (deliveries c))
  sessions : ∀ call c, ∀ e ∈
    emitted ⟨after perform core.beginNewSession calls, call,
        ((after perform core.beginNewSession calls).perform call).2⟩ ++
      deliveries c ⟨after perform core.beginNewSession calls, call,
        ((after perform core.beginNewSession calls).perform call).2⟩,
    e.serverSessionId = core.serverSessionId + UInt64.ofNat (1 + newSessions calls)
  larger : core.serverSessionId.toNat + (1 + newSessions calls) < 2 ^ 64 →
    core.serverSessionId < core.serverSessionId + UInt64.ofNat (1 + newSessions calls)
  numbering : (∀ call ∈ calls, call.request ≠ .beginNewSession) →
    acceptedSequences core.beginNewSession calls =
        (List.range (liveLog core.beginNewSession calls).length).map
          (fun i => UInt64.ofNat (i + 1)) ∧
      (liveLog core.beginNewSession calls).map UpdateEnvelope.serverSequence =
        acceptedSequences core.beginNewSession calls
  values : core.beginNewSession.tryGetLatestValue = core.tryGetLatestValue
  snapshots : ∀ clock c, ∀ e ∈ snapshotUpdates
      ⟨(after perform core.beginNewSession calls).buildSnapshotForClient clock c⟩,
    ∃ reading, (after perform core.beginNewSession calls).PresentsAsStored (clock reading) e

/-- `BeginNewSession` is a boundary in every reachable state and for every run after it. -/
theorem sessionBoundary {core : NativeLinkCore} (hcore : core.Reachable) (calls : List Call) :
    SessionBoundary core calls := by
  have hbegun : core.beginNewSession.Reachable := hcore.after [Request.beginNewSession.at 0]
  have hlater := hbegun.after calls
  refine ⟨?_, ?_, ?_, ?_, ?_, tryGetLatestValue_beginNewSession, ?_⟩
  · simp [beginNewSession]
  · intro c
    have h := drainedEvents_sublist hbegun.wellFormed calls c
    rwa [queue_beginNewSession, List.nil_append] at h
  · intro call c e he
    have hid : (after perform core.beginNewSession calls).serverSessionId =
        core.serverSessionId + UInt64.ofNat (1 + newSessions calls) := by
      rw [serverSessionId_after, UInt64.ofNat_add, ← UInt64.add_assoc]
      rfl
    rw [← hid]
    rcases List.mem_append.mp he with he | he
    · exact serverSessionId_of_mem_emitted hlater he
    · exact serverSessionId_of_mem_deliveries he
  · exact lt_add_sessions (by omega)
  · intro hsession
    refine ⟨?_, (acceptedSequences_eq _ _).symm⟩
    rw [acceptedSequences_eq, serverSequence_liveLog _ hsession]
    apply List.map_congr_left
    intro i _
    rw [UInt64.ofNat_add, UInt64.add_comm]
    rfl
  · intro clock c e he
    exact (presentsAsStored_snapshot hlater.wellFormed he).2

section Example

theorem sessionBoundary_twoDashboards : SessionBoundary (after perform {} twoDashboards) [] :=
  sessionBoundary (reachable_after twoDashboards) []

/-- No snapshot of a new session shows a value of an earlier one as fresh: a topic that holds a
value when the session begins and is not written in it is shown stale or for another reason than
`live`. -/
def ShowsNoOldValueAsFresh : Prop :=
  ∀ (core : NativeLinkCore) (calls : List Call) (clock : ℕ → TimePoint) (c : ByteString),
    core.Reachable → ∀ e ∈ snapshotUpdates
      ⟨(after perform core.beginNewSession calls).buildSnapshotForClient clock c⟩,
    core.tryGetLatestValue e.topicPath ≠ none →
    (∀ r ∈ history perform core.beginNewSession calls, ∀ w, acceptedWrite r = some w →
      w.topicPath ≠ e.topicPath) →
    e.isStale = true ∨ e.freshnessReason ≠ .live

/-- The voltage of the old session is shown as fresh in the new one. -/
theorem old_voltage_shown_as_fresh : ¬ ShowsNoOldValueAsFresh := by
  intro hfresh
  have h := hfresh (after perform {} writtenVoltage) [] (fun _ => 0) dashboardA
    (reachable_after writtenVoltage)
    ((snapshotUpdates ⟨(after perform {} writtenVoltage).beginNewSession.buildSnapshotForClient
      (fun _ => 0) dashboardA⟩).head (by decide)) (List.head_mem _) (by decide) (by simp)
  exact absurd h (by decide)

end Example

end NativeLinkCore

end SmartDashboard.NativeLink
