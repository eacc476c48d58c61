import SmartDashboard.NativeLink.LiveDelivery

/-!
# Reconnecting

`ConnectClient` gives a new client an empty queue but leaves the queue of a client it already
knows alone, so what a client drains after a reconnect is new exactly if nothing was pending.
-/

namespace SmartDashboard.NativeLink

open Execution

namespace NativeLinkCore

/-- The state in which `ConnectClient(c)` has returned its snapshot. -/
def connected (core : NativeLinkCore) (clock : ℕ → TimePoint) (c : ByteString) :
    NativeLinkCore :=
  (core.perform ⟨.connectClient c, clock⟩).1

/-- Whatever is called after `ConnectClient(c)` returned, the events `c` drains are among those
owed to it by the publishes made since, in the same order and no more often. -/
def FreshAfterConnect (core : NativeLinkCore) (clock : ℕ → TimePoint) (c : ByteString) : Prop :=
  ∀ calls, ((history perform (core.connected clock c) calls).flatMap (drainedEvents c)).Sublist
    ((history perform (core.connected clock c) calls).flatMap (deliveries c))

theorem queue_connected {core : NativeLinkCore} (hcore : WellFormed core)
    (clock : ℕ → TimePoint) (c d : ByteString) :
    queue d (core.connected clock c) = queue d core :=
  queue_perform hcore ⟨.connectClient c, clock⟩ d

/-- In any run what a client drains is its backlog and what the calls owe it, less what was
dropped. -/
theorem drainedEvents_sublist {core : NativeLinkCore} (hcore : WellFormed core)
    (calls : List Call) (c : ByteString) :
    ((history perform core calls).flatMap (drainedEvents c)).Sublist
      (queue c core ++ (history perform core calls).flatMap (deliveries c)) := by
  refine (List.sublist_append_left _ (queue c (after perform core calls))).trans ?_
  apply conservation_sublist
  intro r hr
  have hbefore := before_of_mem_history WellFormed.perform hcore hr
  obtain ⟨_, call, _, -, rfl⟩ := exists_split_of_mem_history hr
  exact queue_step_sublist hbefore call c

/-- After `ConnectClient(c)` nothing old is drained if and only if `c` was not connected before or
had no event pending. -/
theorem freshAfterConnect_iff {core : NativeLinkCore} (hcore : core.Reachable)
    (clock : ℕ → TimePoint) (c : ByteString) :
    core.FreshAfterConnect clock c ↔
      core.pendingEvents c = none ∨ core.pendingEvents c = some [] := by
  have hqueue := queue_connected hcore.wellFormed clock c c
  constructor
  · intro hfresh
    -- an immediate drain hands out the whole backlog while nothing has been published
    have hdrain := hfresh [(Request.drainClientEvents c).at 0]
    have hall : (history perform (core.connected clock c)
        [(Request.drainClientEvents c).at 0]).flatMap (drainedEvents c) = queue c core := by
      simp only [history_cons, history_nil, List.flatMap_cons, List.flatMap_nil,
        List.append_nil, drainedEvents_perform]
      simp [Request.at, hqueue]
    have hnone : (history perform (core.connected clock c)
        [(Request.drainClientEvents c).at 0]).flatMap (deliveries c) = [] := by
      simp only [history_cons, history_nil, List.flatMap_cons, List.flatMap_nil,
        List.append_nil]
      exact deliveries_of_not_write rfl c
    rw [hall, hnone, List.sublist_nil, queue] at hdrain
    cases hevents : core.pendingEvents c with
    | none => exact .inl rfl
    | some events => exact .inr (by simpa [hevents] using hdrain)
  · intro hempty calls
    have hnil : queue c core = [] := by
      rcases hempty with h | h <;> simp [queue, h]
    have hconnected : WellFormed (core.connected clock c) :=
      WellFormed.perform core _ hcore.wellFormed
    have h := drainedEvents_sublist hconnected calls c
    rwa [hqueue, hnil, List.nil_append] at h

theorem freshAfterConnect_newClient :
    NativeLinkCore.FreshAfterConnect {} (fun _ => 0) dashboardA :=
  (freshAfterConnect_iff ⟨[], rfl⟩ (fun _ => 0) dashboardA).mpr (.inl (by decide))

/-- A dashboard has commanded a reset and not drained its queue. -/
def pendingReset : List Call :=
  twoDashboards ++ [(Request.publish resetTopic.topicPath (.ofBool true) dashboardA).at 0]

/-- Connecting again without a disconnect delivers the old command after the new snapshot. -/
theorem reconnect_refires_command :
    ¬ (after perform {} pendingReset).FreshAfterConnect (fun _ => 0) dashboardA := by
  intro hfresh
  have h := hfresh [(Request.drainClientEvents dashboardA).at 0]
  exact absurd h (by decide)

end NativeLinkCore

end SmartDashboard.NativeLink
