import SmartDashboard.App.UiQueue

/-!
# The queue loses no latest value and never stalls

What holds of the UI update queue in every state that callbacks and drains can reach. One drain is
posted, or about to be, exactly while the scheduled flag is set, and the flag is set while anything
is queued. Of every key, the updates applied, in hand and queued are some of those pushed, in their
order, and the last of them.

## Main definitions

- `Scheduled`: the flag against the drains that are posted or about to be
- `Moves`: what a step queues and applies
- `LosesNothing`: no stall, and the last update pushed for each key is the last one applied
-/

namespace SmartDashboard.App.UiQueue

open LastWrite (Keeps last writes)

variable {s t : State} {a : Action}

/-! ### The scheduled flag -/

def WorkerPc.posts : WorkerPc → ℕ
  | .posting => 1
  | .idle => 0

def UiPc.posts : UiPc → ℕ
  | .reposting _ => 1
  | .applying _ => 0

def drainsIn (events : List UiEvent) : ℕ := events.count .drainPendingUiUpdates

theorem drainsIn_cons (events : List UiEvent) :
    drainsIn (.drainPendingUiUpdates :: events) = drainsIn events + 1 :=
  List.count_cons_self

theorem drainsIn_cons_other (events : List UiEvent) {event : UiEvent}
    (h : event ≠ .drainPendingUiUpdates) : drainsIn (event :: events) = drainsIn events :=
  List.count_cons_of_ne h

@[simp] theorem drainsIn_append (events events' : List UiEvent) :
    drainsIn (events ++ events') = drainsIn events + drainsIn events' :=
  List.count_append

/-- The drains that are posted or about to be. -/
def drains (s : State) : ℕ := drainsIn s.events + s.worker.posts + s.ui.posts

structure Scheduled (s : State) : Prop where
  drains_eq : drains s = if s.uiDrainScheduled then 1 else 0
  flag : s.pendingUiUpdates ≠ [] → s.uiDrainScheduled = true

theorem scheduled_initial : Scheduled initial := ⟨rfl, fun h => absurd rfl h⟩

theorem scheduled_push (h : Scheduled s) (worker : s.worker = .idle)
    (update : Transport.VariableUpdate) (transport : ℕ) : Scheduled (push s update transport) := by
  have hdrains := h.drains_eq
  refine ⟨?_, fun _ => rfl⟩
  rw [drains, worker] at hdrains
  show drainsIn s.events + (if s.uiDrainScheduled then WorkerPc.idle else .posting).posts +
    s.ui.posts = 1
  cases hflag : s.uiDrainScheduled with
  | true =>
    rw [hflag] at hdrains
    exact hdrains
  | false =>
    rw [hflag] at hdrains
    simp only [WorkerPc.posts, Bool.false_eq_true, if_false] at hdrains ⊢
    omega

/-- The step lemma of the flag: it is handed from the callback to the drain and back. -/
theorem Scheduled.step (h : Scheduled s) (hstep : Step s a t) : Scheduled t := by
  have hdrains := h.drains_eq
  rw [drains] at hdrains
  cases hstep with
  | variableUpdate update transport worker => exact scheduled_push h worker update transport
  | postDrain worker =>
    refine ⟨?_, h.flag⟩
    show drainsIn (s.events ++ [_]) + 0 + s.ui.posts = _
    rw [worker] at hdrains
    rw [drainsIn_append]
    exact hdrains
  | reportConnected transport worker current =>
    refine ⟨?_, h.flag⟩
    show drainsIn (s.events ++ [_]) + s.worker.posts + s.ui.posts = _
    rw [drainsIn_append, drainsIn_cons_other _ (by simp)]
    exact hdrains
  | drainAll events ui posted rest =>
    refine ⟨?_, fun hne => absurd rfl hne⟩
    show drainsIn events + s.worker.posts + 0 = 0
    rw [posted, drainsIn_cons] at hdrains
    split_ifs at hdrains <;> omega
  | drainSome events ui posted rest =>
    refine ⟨?_, fun _ => rfl⟩
    show drainsIn events + s.worker.posts + 1 = 1
    rw [posted, drainsIn_cons] at hdrains
    split_ifs at hdrains <;> omega
  | pluginAlive transport reported events ui posted alive =>
    refine ⟨?_, h.flag⟩
    show drainsIn (events ++ [_]) + s.worker.posts + s.ui.posts = _
    rw [posted, drainsIn_cons_other _ (by simp)] at hdrains
    rw [drainsIn_append, drainsIn_cons_other _ (by simp)]
    exact hdrains
  | pluginGone transport reported events ui posted gone =>
    refine ⟨?_, h.flag⟩
    rw [posted, drainsIn_cons_other _ (by simp)] at hdrains
    exact hdrains
  | connectionState reported events ui posted =>
    refine ⟨?_, h.flag⟩
    rw [posted, drainsIn_cons_other _ (by simp)] at hdrains
    exact hdrains
  | repost batch ui =>
    refine ⟨?_, h.flag⟩
    show drainsIn (s.events ++ [_]) + s.worker.posts + 0 = _
    have hposts : s.ui.posts = 1 := ui ▸ rfl
    have hone : drainsIn [.drainPendingUiUpdates] = 1 := rfl
    rw [drainsIn_append, ← hdrains]
    omega
  | apply delivery rest ui =>
    refine ⟨?_, h.flag⟩
    rw [ui] at hdrains
    exact hdrains
  | immediateUpdate update transport ui current => exact ⟨h.drains_eq, h.flag⟩
  | startTransport ui worker => exact ⟨h.drains_eq, h.flag⟩
  | stopTransport ui worker => exact ⟨h.drains_eq, h.flag⟩

/-- No lost wake-up: between the steps of both threads, whatever is queued has a drain posted. -/
theorem Scheduled.drain_posted (h : Scheduled s) (hrest : AtRest s)
    (hne : s.pendingUiUpdates ≠ []) : .drainPendingUiUpdates ∈ s.events := by
  have hdrains := h.drains_eq
  rw [drains, hrest.1, hrest.2, h.flag hne, if_pos rfl] at hdrains
  have hcount : drainsIn s.events = 1 := hdrains
  have hpos : 0 < drainsIn s.events := hcount ▸ Nat.one_pos
  exact List.count_pos_iff.mp hpos

/-! ### What a step queues and applies -/

/-- A step queues `new` and applies `out`; of every key, what it applies and leaves to apply is
some of what was there before and what it queued, with the last update. -/
structure Moves (s t : State) (new out : List Delivery) : Prop where
  fresh : ∀ d ∈ new, d.index = s.called.length
  pushed : t.pushed = s.pushed ++ new
  drained : t.drained = s.drained ++ out
  keeps : Keeps Delivery.key (out ++ (t.ui.inHand ++ t.pendingUiUpdates))
    (s.ui.inHand ++ s.pendingUiUpdates ++ new)

theorem keeps_collapse (pending : List Delivery) :
    Keeps Delivery.key (collapse pending) pending := by
  rw [collapse]
  split_ifs
  · exact LastWrite.keeps_coalesce pending
  · exact Keeps.refl pending

theorem moves_of_same (hpushed : t.pushed = s.pushed) (hdrained : t.drained = s.drained)
    (hui : t.ui = s.ui) (hpending : t.pendingUiUpdates = s.pendingUiUpdates) :
    Moves s t [] [] where
  fresh _ hd := absurd hd List.not_mem_nil
  pushed := hpushed.trans (List.append_nil _).symm
  drained := hdrained.trans (List.append_nil _).symm
  keeps := by
    rw [hui, hpending, List.append_nil]
    exact Keeps.refl _

/-- Every step but a callback on the UI thread calls what it queues and applies what it drains. -/
theorem Step.moves (hstep : Step s a t) :
    (∃ new out, Moves s t new out ∧ t.called = s.called ++ new ∧ t.applied = s.applied ++ out) ∨
    ∃ update transport, a = .immediateUpdate update ∧ s.ui = .idle ∧
      t = applyNow s update transport := by
  cases hstep with
  | variableUpdate update transport worker current =>
    refine .inl ⟨[⟨update, s.called.length, transport⟩], [],
      ⟨?_, rfl, (List.append_nil _).symm, ?_⟩, rfl, (List.append_nil _).symm⟩
    · intro d hd
      obtain rfl := List.mem_singleton.mp hd
      rfl
    · rw [List.append_assoc]
      exact (Keeps.refl s.ui.inHand).append (keeps_collapse _)
  | drainAll events ui posted rest =>
    refine .inl ⟨[], [], ⟨fun _ hd => absurd hd List.not_mem_nil, (List.append_nil _).symm,
      (List.append_nil _).symm, ?_⟩, (List.append_nil _).symm, (List.append_nil _).symm⟩
    have htake : s.pendingUiUpdates.take kDrainBudget = s.pendingUiUpdates := by
      rw [← List.append_nil (List.take _ _), ← rest, List.take_append_drop]
    simp only [ui, UiPc.inHand, htake, List.nil_append, List.append_nil]
    exact LastWrite.keeps_coalesce _
  | drainSome events ui posted rest =>
    refine .inl ⟨[], [], ⟨fun _ hd => absurd hd List.not_mem_nil, (List.append_nil _).symm,
      (List.append_nil _).symm, ?_⟩, (List.append_nil _).symm, (List.append_nil _).symm⟩
    simp only [ui, UiPc.inHand, List.nil_append, List.append_nil, List.take_append_drop]
    exact Keeps.refl _
  | repost batch ui =>
    refine .inl ⟨[], [], ⟨fun _ hd => absurd hd List.not_mem_nil, (List.append_nil _).symm,
      (List.append_nil _).symm, ?_⟩, (List.append_nil _).symm, (List.append_nil _).symm⟩
    rw [ui, List.append_nil]
    exact (LastWrite.keeps_coalesce batch).append (Keeps.refl s.pendingUiUpdates)
  | apply delivery rest ui =>
    refine .inl ⟨[], [delivery], ⟨fun _ hd => absurd hd List.not_mem_nil,
      (List.append_nil _).symm, rfl, ?_⟩, (List.append_nil _).symm, rfl⟩
    rw [ui, List.append_nil]
    exact Keeps.refl _
  | immediateUpdate update transport ui current => exact .inr ⟨update, transport, rfl, ui, rfl⟩
  | _ =>
    exact .inl ⟨[], [], moves_of_same rfl rfl rfl rfl, (List.append_nil _).symm,
      (List.append_nil _).symm⟩

/-- Of every key, the updates applied, in hand and queued are some of those pushed, in their
order, and the last of them. -/
def QueueKeeps (s : State) : Prop :=
  Keeps Delivery.key (s.drained ++ (s.ui.inHand ++ s.pendingUiUpdates)) s.pushed

theorem QueueKeeps.step (h : QueueKeeps s) (hstep : Step s a t) : QueueKeeps t := by
  obtain ⟨new, out, hmoves, -, -⟩ | ⟨update, transport, -, -, rfl⟩ := hstep.moves
  · have hstart : Keeps Delivery.key (s.drained ++ (s.ui.inHand ++ s.pendingUiUpdates ++ new))
        (s.pushed ++ new) := by
      rw [← List.append_assoc]
      exact Keeps.append h (Keeps.refl new)
    rw [QueueKeeps, hmoves.drained, hmoves.pushed, List.append_assoc]
    exact ((Keeps.refl s.drained).append hmoves.keeps).trans hstart
  · exact h

/-- The property of the queue: it does not stall, the updates it applies to a key are some of those
pushed, in their order, and once it is empty the last one applied is the last one pushed. -/
structure LosesNothing (s : State) : Prop where
  drain_posted : AtRest s → s.pendingUiUpdates ≠ [] → .drainPendingUiUpdates ∈ s.events
  subsequence : ∀ k, (writes Delivery.key k s.drained).Sublist (writes Delivery.key k s.pushed)
  last_eq : s.pendingUiUpdates = [] → s.ui = .idle →
    ∀ k, last Delivery.key k s.drained = last Delivery.key k s.pushed

theorem losesNothing_of (hscheduled : Scheduled s) (hkeeps : QueueKeeps s) : LosesNothing s where
  drain_posted := hscheduled.drain_posted
  subsequence k := by
    refine List.Sublist.trans ?_ (hkeeps k).1
    rw [LastWrite.writes_append]
    exact List.sublist_append_left _ _
  last_eq hpending hui k := by
    have hlast := (hkeeps k).2
    rw [hpending, hui] at hlast
    show last Delivery.key k s.drained = _
    rw [← hlast]
    show _ = last Delivery.key k (s.drained ++ [])
    rw [List.append_nil]

/-- For every interleaving of callbacks and drains, with any number of updates, and whatever else
the UI thread does between its events. -/
theorem run_losesNothing (actions : List Action)
    (hrun : Execution.run next initial actions = some s) : LosesNothing s := by
  have hinv : Scheduled s ∧ QueueKeeps s := by
    refine Execution.run_induction (P := fun s => Scheduled s ∧ QueueKeeps s) ?_ ?_ hrun
    · intro s a t h hnext
      have hstep := step_of_next hnext
      exact ⟨h.1.step hstep, h.2.step hstep⟩
    · exact ⟨scheduled_initial, Keeps.refl []⟩
  exact losesNothing_of hinv.1 hinv.2

/-- Two updates of one key, the second one before the drain that the first one had posted. -/
def twoUpdates : List Action :=
  [.startTransport, .variableUpdate ⟨[65], 2, .double 1, 1⟩, .postDrain,
    .variableUpdate ⟨[65], 2, .double 2, 2⟩, .handleEvent, .apply]

theorem run_losesNothing_twoUpdates :
    ∃ s, Execution.run next initial twoUpdates = some s ∧ LosesNothing s :=
  ⟨_, rfl, run_losesNothing twoUpdates rfl⟩

end SmartDashboard.App.UiQueue
