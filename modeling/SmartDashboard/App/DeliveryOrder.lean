import SmartDashboard.App.QueueDelivery

/-!
# Immediate updates against the queue

Whether updates are applied in the order of their callbacks. An update that a callback delivers on
the UI thread, as a replay seek or a start of a transport does, is applied before anything that is
still queued; where the queue holds an older update of its key, that one is applied after it.

## Main definitions

- `CalledInOrder`: the callbacks are numbered in their order, transport by transport
- `InDeliveryOrder`: of each key, updates are applied in the order of their callbacks, and the
  last one is applied once nothing is queued
- `Unqueued`: nothing is queued for the key of an immediate update
-/

namespace SmartDashboard.App.UiQueue

open LastWrite (Keeps last writes)

variable {s t : State} {a : Action}

/-! ### The order of the callbacks -/

structure CalledInOrder (s : State) : Prop where
  index : s.called.map Delivery.index = List.range s.called.length
  transports : s.called.Pairwise fun d e => d.transport ≤ e.transport
  created : ∀ d ∈ s.called, d.transport < s.created
  current : ∀ transport ∈ s.transport, transport + 1 = s.created

theorem calledInOrder_initial : CalledInOrder initial where
  index := rfl
  transports := List.Pairwise.nil
  created _ h := absurd h List.not_mem_nil
  current _ h := absurd h (Option.not_mem_none _)

/-- A callback of the current transport comes after all those before it. -/
theorem CalledInOrder.call (h : CalledInOrder s) {update : Transport.VariableUpdate}
    {transport : ℕ} (current : s.transport = some transport)
    (hcalled : t.called = s.called ++ [⟨update, s.called.length, transport⟩])
    (htransport : t.transport = s.transport) (hcreated : t.created = s.created) :
    CalledInOrder t where
  index := by
    rw [hcalled, List.map_append, h.index, List.length_append, List.length_singleton,
      List.range_succ]
    rfl
  transports := by
    rw [hcalled, List.pairwise_append]
    refine ⟨h.transports, List.pairwise_singleton _ _, ?_⟩
    intro d hd e he
    obtain rfl := List.mem_singleton.mp he
    have hlt := h.created d hd
    have hcurrent := h.current transport current
    show d.transport ≤ transport
    omega
  created := by
    rw [hcalled, hcreated]
    intro d hd
    obtain hd | hd := List.mem_append.mp hd
    · exact h.created d hd
    · obtain rfl := List.mem_singleton.mp hd
      have hcurrent := h.current transport current
      show transport < s.created
      omega
  current := by
    rw [htransport, hcreated]
    exact h.current

theorem CalledInOrder.step (h : CalledInOrder s) (hstep : Step s a t) : CalledInOrder t := by
  cases hstep with
  | variableUpdate update transport worker current => exact h.call current rfl rfl rfl
  | immediateUpdate update transport ui current => exact h.call current rfl rfl rfl
  | startTransport ui worker =>
    refine ⟨h.index, h.transports, ?_, ?_⟩
    · exact fun d hd => Nat.lt_succ_of_lt (h.created d hd)
    · intro transport hcurrent
      obtain rfl := Option.some.inj hcurrent
      rfl
  | stopTransport ui worker =>
    exact ⟨h.index, h.transports, h.created, fun _ hnone => absurd hnone (Option.not_mem_none _)⟩
  | _ => exact ⟨h.index, h.transports, h.created, h.current⟩

/-- Of two callbacks the later one has the higher number and no earlier transport. -/
theorem CalledInOrder.pairwise (h : CalledInOrder s) :
    s.called.Pairwise fun d e => d.index < e.index ∧ d.transport ≤ e.transport := by
  have hindex : s.called.Pairwise fun d e => d.index < e.index := by
    rw [← List.pairwise_map, h.index]
    exact List.pairwise_lt_range
  exact hindex.and h.transports

/-! ### Both paths together -/

structure InDeliveryOrder (s : State) : Prop where
  ordered : ∀ k, (writes Delivery.key k s.applied).Pairwise fun d e =>
    d.index < e.index ∧ d.transport ≤ e.transport
  last_eq : s.pendingUiUpdates = [] → s.ui = .idle →
    ∀ k, last Delivery.key k s.applied = last Delivery.key k s.called

/-- When an update is applied at once, the queue holds no update of its key. -/
def Unqueued (s : State) : Action → Prop
  | .immediateUpdate update => ∀ d ∈ s.pendingUiUpdates, d.key ≠ update.key
  | _ => True

instance (s : State) : ∀ a, Decidable (Unqueued s a)
  | .immediateUpdate update =>
    inferInstanceAs (Decidable (∀ d ∈ s.pendingUiUpdates, d.key ≠ update.key))
  | .variableUpdate _ => isTrue trivial
  | .postDrain => isTrue trivial
  | .reportConnected => isTrue trivial
  | .handleEvent => isTrue trivial
  | .repost => isTrue trivial
  | .apply => isTrue trivial
  | .startTransport => isTrue trivial
  | .stopTransport => isTrue trivial

/-- Of every key, the updates applied, in hand and queued are some of those called, in their order,
and the last of them. -/
def AppliedKeeps (s : State) : Prop :=
  Keeps Delivery.key (s.applied ++ (s.ui.inHand ++ s.pendingUiUpdates)) s.called

/-- The step lemma. -/
theorem AppliedKeeps.step (h : AppliedKeeps s) (hunqueued : Unqueued s a) (hstep : Step s a t) :
    AppliedKeeps t := by
  obtain ⟨new, out, hmoves, hcalled, happlied⟩ | ⟨update, transport, rfl, hui, rfl⟩ :=
    hstep.moves
  · have hstart : Keeps Delivery.key (s.applied ++ (s.ui.inHand ++ s.pendingUiUpdates ++ new))
        (s.called ++ new) := by
      rw [← List.append_assoc]
      exact Keeps.append h (Keeps.refl new)
    rw [AppliedKeeps, happlied, hcalled, List.append_assoc]
    exact ((Keeps.refl s.applied).append hmoves.keeps).trans hstart
  · rw [AppliedKeeps, hui] at h
    show Keeps Delivery.key (s.applied ++ [_] ++ (s.ui.inHand ++ s.pendingUiUpdates)) _
    rw [hui]
    exact Keeps.insert h hunqueued

theorem inDeliveryOrder_of (hcalled : CalledInOrder s) (hkeeps : AppliedKeeps s) :
    InDeliveryOrder s where
  ordered k := by
    have hsub := (hkeeps k).1
    rw [LastWrite.writes_append] at hsub
    have hwrites : (writes Delivery.key k s.called).Sublist s.called := List.filter_sublist
    exact hcalled.pairwise.sublist
      (((List.sublist_append_left _ _).trans hsub).trans hwrites)
  last_eq hpending hui k := by
    have hlast := (hkeeps k).2
    rw [hpending, hui] at hlast
    rw [← hlast]
    show _ = last Delivery.key k (s.applied ++ [])
    rw [List.append_nil]

/-- For every interleaving of callbacks on either thread, drains, starts and stops, in which no
immediate update overtakes a queued one of its key. -/
theorem run_inDeliveryOrder (actions : List Action)
    (hrun : Execution.run next initial actions = some s)
    (hunqueued : Execution.EveryStep next Unqueued initial actions) : InDeliveryOrder s := by
  have hinv : CalledInOrder s ∧ AppliedKeeps s := by
    refine Execution.run_induction_of_everyStep (P := fun s => CalledInOrder s ∧ AppliedKeeps s)
      ?_ ?_ hunqueued hrun
    · intro s a t h hcond hnext
      have hstep := step_of_next hnext
      exact ⟨h.1.step hstep, h.2.step hcond hstep⟩
    · exact ⟨calledInOrder_initial, Keeps.refl []⟩
  exact inDeliveryOrder_of hinv.1 hinv.2

/-- A queued update is drained before the next one of its key is applied at once. -/
def drainedBeforeSeek : List Action :=
  [.startTransport, .variableUpdate ⟨[65], 2, .double 1, 1⟩, .postDrain, .handleEvent, .apply,
    .immediateUpdate ⟨[65], 2, .double 2, 2⟩]

theorem run_inDeliveryOrder_drained :
    ∃ s, Execution.run next initial drainedBeforeSeek = some s ∧ InDeliveryOrder s :=
  ⟨_, rfl, run_inDeliveryOrder drainedBeforeSeek rfl (by decide)⟩

/-- A seek applies its update while an older one of the key is queued; the drain that follows
applies the older one last. -/
theorem queued_update_applied_after_seek :
    ∃ s, Execution.run next initial [.startTransport, .variableUpdate ⟨[65], 2, .double 1, 1⟩,
        .immediateUpdate ⟨[65], 2, .double 2, 2⟩, .postDrain, .handleEvent, .apply] = some s ∧
      s.pendingUiUpdates = [] ∧ AtRest s ∧ ¬InDeliveryOrder s := by
  refine ⟨_, rfl, rfl, ⟨rfl, rfl⟩, ?_⟩
  intro h
  have hlast := h.last_eq rfl rfl [65]
  revert hlast
  decide

end SmartDashboard.App.UiQueue
