import SmartDashboard.Library.Execution
import SmartDashboard.Library.LastWrite
import SmartDashboard.Transport.Types

/-!
# The UI update queue

How the callbacks of a transport reach `MainWindow::OnVariableUpdateReceived`. On the UI thread a
callback applies its update at once. On the worker thread it appends the update to
`m_pendingUiUpdates`, collapses the queue when it grows too long, and has a drain posted unless one
is. A drain takes a budget of updates from the front, has itself posted again if some are left, and
applies what it took, one update for each key. Worker and UI thread interleave between the critical
sections; the UI thread handles its events in the order of their posting.

A report of Connected by a plugin reaches the window through two events: one that checks that the
transport is still alive, and the handler that republishes the operator's edits.

## Main definitions

- `Delivery`: an update with its place among all callbacks
- `State`: the queue, its flag, the posted events and what either thread is between
- `Action`, `next`: the steps of the two threads
-/

namespace SmartDashboard.App.UiQueue

open Direct (ByteString)
open Transport (VariableUpdate)

/-- An update as a callback delivers it: how many callbacks ran before it, and the transport. -/
structure Delivery where
  update : VariableUpdate
  index : ℕ
  transport : ℕ
  deriving DecidableEq, Repr

abbrev Delivery.key (d : Delivery) : ByteString := d.update.key

/-- The events posted to the UI thread; a report carries the number of callbacks before it. -/
inductive UiEvent
  | drainPendingUiUpdates
  | pluginConnectionState (transport reported : ℕ)
  | connectionState (reported : ℕ)
  deriving DecidableEq, Repr

/-- Between the critical section of a callback and the post of the drain it wants. -/
inductive WorkerPc
  | idle
  | posting
  deriving DecidableEq, Repr

/-- In a drain: before the post of the next one, or with updates left to apply. -/
inductive UiPc
  | reposting (batch : List Delivery)
  | applying (coalesced : List Delivery)
  deriving DecidableEq, Repr

/-- No drain is running. -/
abbrev UiPc.idle : UiPc := .applying []

def kDrainBudget : ℕ := 150

def kQueueHighWater : ℕ := 500

structure State where
  pendingUiUpdates : List Delivery := []
  uiDrainScheduled : Bool := false
  events : List UiEvent := []
  worker : WorkerPc := .idle
  ui : UiPc := .idle
  transport : Option ℕ := none
  /-- How many transports were created. -/
  created : ℕ := 0
  /-- The callbacks in the order in which they ran, and those of them that were queued. -/
  called : List Delivery := []
  pushed : List Delivery := []
  /-- The updates in the order in which they were applied, and those of them from the queue. -/
  applied : List Delivery := []
  drained : List Delivery := []
  /-- The reports of Connected that the window has handled. -/
  republished : List ℕ := []
  deriving DecidableEq, Repr

def initial : State := {}

inductive Action
  /-- The callback on the worker thread, up to the end of its critical section. -/
  | variableUpdate (update : VariableUpdate)
  | postDrain
  | reportConnected
  /-- The UI thread takes its next event; a drain runs to the end of its critical section. -/
  | handleEvent
  | repost
  | apply
  /-- The callback on the UI thread. -/
  | immediateUpdate (update : VariableUpdate)
  | startTransport
  | stopTransport
  deriving DecidableEq, Repr

def collapse (pending : List Delivery) : List Delivery :=
  if kQueueHighWater < pending.length then LastWrite.coalesce Delivery.key pending else pending

/-- The callback of the worker, with the queue it leaves. -/
def push (s : State) (update : VariableUpdate) (transport : ℕ) : State :=
  let delivery := ⟨update, s.called.length, transport⟩
  { s with
    pendingUiUpdates := collapse (s.pendingUiUpdates ++ [delivery])
    uiDrainScheduled := true
    worker := if s.uiDrainScheduled then .idle else .posting
    called := s.called ++ [delivery]
    pushed := s.pushed ++ [delivery] }

/-- The critical section of `DrainPendingUiUpdates`. -/
def drain (s : State) (events : List UiEvent) : State :=
  let batch := s.pendingUiUpdates.take kDrainBudget
  match s.pendingUiUpdates.drop kDrainBudget with
  | [] =>
    { s with
      events := events, pendingUiUpdates := [], uiDrainScheduled := false
      ui := .applying (LastWrite.coalesce Delivery.key batch) }
  | update :: rest =>
    { s with
      events := events, pendingUiUpdates := update :: rest, uiDrainScheduled := true
      ui := .reposting batch }

def handle (s : State) (events : List UiEvent) : UiEvent → State
  | .drainPendingUiUpdates => drain s events
  | .pluginConnectionState transport reported =>
    if s.transport = some transport then
      { s with events := events ++ [.connectionState reported] }
    else { s with events := events }
  | .connectionState reported =>
    { s with events := events, republished := s.republished ++ [reported] }

/-- The callback of the UI thread. -/
def applyNow (s : State) (update : VariableUpdate) (transport : ℕ) : State :=
  let delivery := ⟨update, s.called.length, transport⟩
  { s with called := s.called ++ [delivery], applied := s.applied ++ [delivery] }

/-- `StopTransport` joins the worker, so it returns between two callbacks. -/
def next (s : State) : Action → Option State
  | .variableUpdate update =>
    if s.worker = .idle then s.transport.map (push s update) else none
  | .postDrain =>
    if s.worker = .posting then
      some { s with worker := .idle, events := s.events ++ [.drainPendingUiUpdates] }
    else none
  | .reportConnected =>
    if s.worker = .idle then
      s.transport.map fun transport =>
        { s with events := s.events ++ [.pluginConnectionState transport s.called.length] }
    else none
  | .handleEvent =>
    if s.ui = .idle then
      match s.events with
      | event :: events => some (handle s events event)
      | [] => none
    else none
  | .repost =>
    match s.ui with
    | .reposting batch =>
      some { s with
        events := s.events ++ [.drainPendingUiUpdates]
        ui := .applying (LastWrite.coalesce Delivery.key batch) }
    | .applying _ => none
  | .apply =>
    match s.ui with
    | .applying (delivery :: rest) =>
      some { s with
        ui := .applying rest
        applied := s.applied ++ [delivery]
        drained := s.drained ++ [delivery] }
    | .applying [] => none
    | .reposting _ => none
  | .immediateUpdate update =>
    if s.ui = .idle then s.transport.map (applyNow s update) else none
  | .startTransport =>
    if s.ui = .idle ∧ s.worker = .idle then
      some { s with transport := some s.created, created := s.created + 1 }
    else none
  | .stopTransport =>
    if s.ui = .idle ∧ s.worker = .idle then some { s with transport := none } else none

/-! ### The steps, one by one -/

/-- What is between the queue and the calls of a drain. -/
def UiPc.inHand : UiPc → List Delivery
  | .reposting batch => batch
  | .applying coalesced => coalesced

/-- Neither thread is between the steps of a callback or a drain. -/
def AtRest (s : State) : Prop := s.worker = .idle ∧ s.ui = .idle

instance (s : State) : Decidable (AtRest s) := inferInstanceAs (Decidable (_ ∧ _))

/-- What a step finds and what it leaves. -/
inductive Step (s : State) : Action → State → Prop
  | variableUpdate (update : VariableUpdate) (transport : ℕ) (worker : s.worker = .idle)
      (current : s.transport = some transport) :
      Step s (.variableUpdate update) (push s update transport)
  | postDrain (worker : s.worker = .posting) :
      Step s .postDrain
        { s with worker := .idle, events := s.events ++ [.drainPendingUiUpdates] }
  | reportConnected (transport : ℕ) (worker : s.worker = .idle)
      (current : s.transport = some transport) :
      Step s .reportConnected
        { s with events := s.events ++ [.pluginConnectionState transport s.called.length] }
  | drainAll (events : List UiEvent) (ui : s.ui = .idle)
      (posted : s.events = .drainPendingUiUpdates :: events)
      (rest : s.pendingUiUpdates.drop kDrainBudget = []) :
      Step s .handleEvent
        { s with
          events := events, pendingUiUpdates := [], uiDrainScheduled := false
          ui := .applying
            (LastWrite.coalesce Delivery.key (s.pendingUiUpdates.take kDrainBudget)) }
  | drainSome (events : List UiEvent) (ui : s.ui = .idle)
      (posted : s.events = .drainPendingUiUpdates :: events)
      (rest : s.pendingUiUpdates.drop kDrainBudget ≠ []) :
      Step s .handleEvent
        { s with
          events := events, pendingUiUpdates := s.pendingUiUpdates.drop kDrainBudget
          uiDrainScheduled := true, ui := .reposting (s.pendingUiUpdates.take kDrainBudget) }
  | pluginAlive (transport reported : ℕ) (events : List UiEvent) (ui : s.ui = .idle)
      (posted : s.events = .pluginConnectionState transport reported :: events)
      (alive : s.transport = some transport) :
      Step s .handleEvent { s with events := events ++ [.connectionState reported] }
  | pluginGone (transport reported : ℕ) (events : List UiEvent) (ui : s.ui = .idle)
      (posted : s.events = .pluginConnectionState transport reported :: events)
      (gone : s.transport ≠ some transport) :
      Step s .handleEvent { s with events := events }
  | connectionState (reported : ℕ) (events : List UiEvent) (ui : s.ui = .idle)
      (posted : s.events = .connectionState reported :: events) :
      Step s .handleEvent
        { s with events := events, republished := s.republished ++ [reported] }
  | repost (batch : List Delivery) (ui : s.ui = .reposting batch) :
      Step s .repost
        { s with
          events := s.events ++ [.drainPendingUiUpdates]
          ui := .applying (LastWrite.coalesce Delivery.key batch) }
  | apply (delivery : Delivery) (rest : List Delivery) (ui : s.ui = .applying (delivery :: rest)) :
      Step s .apply
        { s with
          ui := .applying rest
          applied := s.applied ++ [delivery]
          drained := s.drained ++ [delivery] }
  | immediateUpdate (update : VariableUpdate) (transport : ℕ) (ui : s.ui = .idle)
      (current : s.transport = some transport) :
      Step s (.immediateUpdate update) (applyNow s update transport)
  | startTransport (ui : s.ui = .idle) (worker : s.worker = .idle) :
      Step s .startTransport { s with transport := some s.created, created := s.created + 1 }
  | stopTransport (ui : s.ui = .idle) (worker : s.worker = .idle) :
      Step s .stopTransport { s with transport := none }

variable {s t : State} {a : Action}

theorem step_of_handle {event : UiEvent} {events : List UiEvent} (ui : s.ui = .idle)
    (posted : s.events = event :: events) : Step s .handleEvent (handle s events event) := by
  cases event with
  | drainPendingUiUpdates =>
    show Step s .handleEvent (drain s events)
    rw [drain]
    cases hrest : s.pendingUiUpdates.drop kDrainBudget with
    | nil => exact .drainAll events ui posted hrest
    | cons update rest =>
      have hne : s.pendingUiUpdates.drop kDrainBudget ≠ [] := by simp [hrest]
      have hsome := Step.drainSome events ui posted hne
      rw [hrest] at hsome
      exact hsome
  | pluginConnectionState transport reported =>
    show Step s .handleEvent (if s.transport = some transport then _ else _)
    split_ifs with halive
    · exact .pluginAlive transport reported events ui posted halive
    · exact .pluginGone transport reported events ui posted halive
  | connectionState reported => exact .connectionState reported events ui posted

theorem step_of_next (h : next s a = some t) : Step s a t := by
  cases a with
  | variableUpdate update =>
    obtain ⟨hworker, h⟩ := Option.ite_none_right_eq_some.mp h
    obtain ⟨transport, htransport, rfl⟩ := Option.map_eq_some_iff.mp h
    exact .variableUpdate update transport hworker htransport
  | postDrain =>
    obtain ⟨hworker, h⟩ := Option.ite_none_right_eq_some.mp h
    exact Option.some.inj h ▸ .postDrain hworker
  | reportConnected =>
    obtain ⟨hworker, h⟩ := Option.ite_none_right_eq_some.mp h
    obtain ⟨transport, htransport, rfl⟩ := Option.map_eq_some_iff.mp h
    exact .reportConnected transport hworker htransport
  | handleEvent =>
    obtain ⟨hui, h⟩ := Option.ite_none_right_eq_some.mp h
    cases hevents : s.events with
    | nil => simp [hevents] at h
    | cons event events =>
      rw [hevents] at h
      exact Option.some.inj h ▸ step_of_handle hui hevents
  | repost =>
    cases hui : s.ui with
    | applying coalesced => simp [next, hui] at h
    | reposting batch =>
      rw [next, hui] at h
      exact Option.some.inj h ▸ .repost batch hui
  | apply =>
    cases hui : s.ui with
    | reposting batch => simp [next, hui] at h
    | applying coalesced =>
      cases coalesced with
      | nil => simp [next, hui] at h
      | cons delivery rest =>
        rw [next, hui] at h
        exact Option.some.inj h ▸ .apply delivery rest hui
  | immediateUpdate update =>
    obtain ⟨hui, h⟩ := Option.ite_none_right_eq_some.mp h
    obtain ⟨transport, htransport, rfl⟩ := Option.map_eq_some_iff.mp h
    exact .immediateUpdate update transport hui htransport
  | startTransport =>
    obtain ⟨⟨hui, hworker⟩, h⟩ := Option.ite_none_right_eq_some.mp h
    exact Option.some.inj h ▸ .startTransport hui hworker
  | stopTransport =>
    obtain ⟨⟨hui, hworker⟩, h⟩ := Option.ite_none_right_eq_some.mp h
    exact Option.some.inj h ▸ .stopTransport hui hworker

end SmartDashboard.App.UiQueue
