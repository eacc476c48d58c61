import SmartDashboard.Library.Execution
import SmartDashboard.Transport.Types

/-!
# Connecting, disconnecting and reconnecting

The connection members of the window under user clicks, expiries of the reconnect timer and the
states that transports report. A report is an event of its own on the UI thread (of a plugin, two
of them) and does not say whose it is; the handler of Connected clears the flag that a manual
disconnect sets. The state shown and the flag are kept by a report only if no late one is handled
while there is no transport.

## Main definitions

- `Config`: the settings that stay as they are
- `State`, `onConnectionStateChanged`, `startTransport`: the window
- `Action`, `next`: clicks, expiries, reports and the events of the UI thread
- `DisconnectSticks`: no start after a manual disconnect, and no other state shown without a
  transport
- `Timely`: what is handled without a transport is Disconnected
-/

namespace SmartDashboard.App.Connection

open Transport (ConnectionState TransportKind)

structure Config where
  autoConnect : Bool
  /-- The kind of the selected transport's descriptor, if one is found. -/
  descriptorKind : Option TransportKind

/-- A report of a transport on its way to `OnConnectionStateChanged`. -/
inductive Event
  /-- The hop of `PluginDashboardTransport`, which checks that the transport is alive. -/
  | pluginConnectionState (transport : ℕ) (state : ConnectionState)
  | connectionState (state : ConnectionState)
  deriving DecidableEq, Repr

structure State where
  kind : TransportKind
  transport : Option ℕ := none
  /-- How many transports were created. -/
  created : ℕ := 0
  userDisconnected : Bool := false
  /-- The timer is running, and an expiry of it has yet to be handled. -/
  reconnectTimer : Bool := false
  expired : Bool := false
  connectionState : ConnectionState := .disconnected
  events : List Event := []
  /-- The user's last click was Disconnect; a transport was started after it. -/
  manual : Bool := false
  startedAfterDisconnect : Bool := false
  deriving DecidableEq, Repr

def initial (kind : TransportKind) : State := { kind := kind }

/-- What comes of `StartTransport`. -/
inductive Outcome
  | notCreated
  | failed
  | started
  deriving DecidableEq, Repr

inductive Action
  /-- A transport, running or stopped meanwhile, reports its state. -/
  | report (transport : ℕ) (state : ConnectionState)
  | handleEvent
  | onConnectTransport (outcome : Outcome)
  | onDisconnectTransport
  | timerExpires
  | onReconnectTimerFired (outcome : Outcome)
  deriving DecidableEq, Repr

variable (config : Config)

def onConnectionStateChanged (s : State) (state : ConnectionState) : State :=
  match state with
  | .connected =>
    { s with connectionState := .connected, reconnectTimer := false, userDisconnected := false }
  | .disconnected =>
    { s with
      connectionState := .disconnected
      reconnectTimer := s.reconnectTimer ||
        (config.autoConnect && !s.userDisconnected && decide (s.kind ≠ .replay)) }
  | .connecting => { s with connectionState := .connecting }
  | .stale => { s with connectionState := .stale }

def stopTransport (s : State) : State := { s with transport := none }

def startTransport (s : State) (outcome : Outcome) : State :=
  let stopped :=
    { stopTransport s with
      kind := config.descriptorKind.getD s.kind
      startedAfterDisconnect := s.startedAfterDisconnect || s.manual }
  match outcome with
  | .notCreated => { stopped with connectionState := .disconnected }
  | .failed =>
    onConnectionStateChanged config { stopped with created := s.created + 1 } .disconnected
  | .started => { stopped with transport := some s.created, created := s.created + 1 }

def onConnectTransport (s : State) (outcome : Outcome) : State :=
  let clicked := { s with manual := false }
  if s.kind = .replay then clicked
  else startTransport config { clicked with userDisconnected := false } outcome

def onDisconnectTransport (s : State) : State :=
  let clicked := { s with manual := true }
  if s.kind = .replay then clicked
  else
    onConnectionStateChanged config
      (stopTransport { clicked with userDisconnected := true, reconnectTimer := false })
      .disconnected

def onReconnectTimerFired (s : State) (outcome : Outcome) : State :=
  if s.userDisconnected ∨ ¬config.autoConnect then s
  else if s.kind = .replay then s
  else startTransport config s outcome

/-- The event that a report posts, and the event that each of them runs into. -/
def posted (s : State) (transport : ℕ) (state : ConnectionState) : Event :=
  if s.kind = .plugin then .pluginConnectionState transport state else .connectionState state

def handle (s : State) : Event → State
  | .pluginConnectionState transport state =>
    if s.transport = some transport then
      { s with events := s.events ++ [.connectionState state] }
    else s
  | .connectionState state => onConnectionStateChanged config s state

def next (s : State) : Action → Option State
  | .report transport state =>
    if transport < s.created then
      some { s with events := s.events ++ [posted s transport state] }
    else none
  | .handleEvent =>
    match s.events with
    | event :: events => some (handle config { s with events := events } event)
    | [] => none
  | .onConnectTransport outcome => some (onConnectTransport config s outcome)
  | .onDisconnectTransport => some (onDisconnectTransport config s)
  | .timerExpires =>
    if s.reconnectTimer then some { s with reconnectTimer := false, expired := true } else none
  | .onReconnectTimerFired outcome =>
    if s.expired then some (onReconnectTimerFired config { s with expired := false } outcome)
    else none

/-- No transport was started after a manual disconnect and before the next connect, and without a
transport the state shown is Disconnected. -/
structure DisconnectSticks (s : State) : Prop where
  notStarted : s.startedAfterDisconnect = false
  shown : s.transport = none → s.connectionState = .disconnected

/-- The report that is handled next, if there is no transport, is one of Disconnected. -/
def Timely (s : State) : Action → Prop
  | .handleEvent => s.transport = none →
      ∀ state, s.events.head? = some (.connectionState state) → state = .disconnected
  | _ => True

/-! ### What holds of every run of timely reports -/

variable {config} {s t : State} {a : Action} {state : ConnectionState} {outcome : Outcome}

/-- A manual disconnect holds the transport down. -/
structure Inv (s : State) : Prop extends DisconnectSticks s where
  manual : s.manual = true → s.kind ≠ .replay → s.transport = none ∧ s.userDisconnected = true

theorem inv_initial (kind : TransportKind) : Inv (initial kind) :=
  ⟨⟨rfl, fun _ => rfl⟩, fun h => absurd h Bool.false_ne_true⟩

/-- What a report leaves alone. -/
theorem onConnectionStateChanged_frame (config : Config) (s : State) (state : ConnectionState) :
    (onConnectionStateChanged config s state).kind = s.kind ∧
    (onConnectionStateChanged config s state).transport = s.transport ∧
    (onConnectionStateChanged config s state).manual = s.manual ∧
    (onConnectionStateChanged config s state).startedAfterDisconnect =
      s.startedAfterDisconnect ∧
    (onConnectionStateChanged config s state).connectionState = state := by
  cases state
  all_goals exact ⟨rfl, rfl, rfl, rfl, rfl⟩

theorem userDisconnected_onConnectionStateChanged (h : state ≠ .connected) :
    (onConnectionStateChanged config s state).userDisconnected = s.userDisconnected := by
  cases state with
  | connected => exact absurd rfl h
  | disconnected => rfl
  | connecting => rfl
  | stale => rfl

/-- A timely report keeps the invariant. -/
theorem Inv.onConnectionStateChanged (h : Inv s)
    (htimely : s.transport = none → state = .disconnected) :
    Inv (onConnectionStateChanged config s state) := by
  obtain ⟨hkind, htransport, hmanual, hstarted, hstate⟩ :=
    onConnectionStateChanged_frame config s state
  refine ⟨⟨hstarted.trans h.notStarted, ?_⟩, ?_⟩
  · rw [htransport, hstate]
    exact htimely
  · rw [hkind, htransport, hmanual]
    intro hm hk
    obtain ⟨hnone, hflag⟩ := h.manual hm hk
    refine ⟨hnone, ?_⟩
    rw [userDisconnected_onConnectionStateChanged (by simp [htimely hnone])]
    exact hflag

/-- A start that no manual disconnect forbids keeps the invariant. -/
theorem Inv.startTransport (h : s.startedAfterDisconnect = false) (hmanual : s.manual = false)
    (outcome : Outcome) : Inv (startTransport config s outcome) := by
  have hstarted : (s.startedAfterDisconnect || s.manual) = false := by rw [h, hmanual]; rfl
  have hnot : ¬s.manual = true := by simp [hmanual]
  cases outcome with
  | notCreated => exact ⟨⟨hstarted, fun _ => rfl⟩, fun hm => absurd hm hnot⟩
  | failed => exact ⟨⟨hstarted, fun _ => rfl⟩, fun hm => absurd hm hnot⟩
  | started =>
    exact ⟨⟨hstarted, fun hnone => absurd hnone (Option.some_ne_none _)⟩,
      fun hm => absurd hm hnot⟩

theorem Inv.onConnectTransport (h : Inv s) (outcome : Outcome) :
    Inv (onConnectTransport config s outcome) := by
  rw [Connection.onConnectTransport]
  split_ifs with hkind
  · exact ⟨⟨h.notStarted, h.shown⟩, fun hm => absurd hm Bool.false_ne_true⟩
  · apply Inv.startTransport
    · exact h.notStarted
    · rfl

theorem Inv.onDisconnectTransport (h : Inv s) : Inv (onDisconnectTransport config s) := by
  rw [Connection.onDisconnectTransport]
  split_ifs with hkind
  · exact ⟨⟨h.notStarted, h.shown⟩, fun _ hk => absurd hkind hk⟩
  · exact ⟨⟨h.notStarted, fun _ => rfl⟩, fun _ _ => ⟨rfl, rfl⟩⟩

theorem Inv.onReconnectTimerFired (h : Inv s) (outcome : Outcome) :
    Inv (onReconnectTimerFired config s outcome) := by
  rw [Connection.onReconnectTimerFired]
  split_ifs with hguard hkind
  · exact h
  · exact h
  · refine Inv.startTransport h.notStarted ?_ outcome
    rw [Bool.eq_false_iff]
    intro hm
    exact hguard (.inl (h.manual hm hkind).2)

/-- The step lemma. -/
theorem Inv.step (h : Inv s) (htimely : Timely s a) (hnext : next config s a = some t) :
    Inv t := by
  cases a with
  | report transport state =>
    obtain ⟨-, hnext⟩ := Option.ite_none_right_eq_some.mp hnext
    obtain rfl := Option.some.inj hnext
    exact ⟨⟨h.notStarted, h.shown⟩, h.manual⟩
  | handleEvent =>
    cases hevents : s.events with
    | nil => simp [next, hevents] at hnext
    | cons event events =>
      rw [next, hevents] at hnext
      obtain rfl := Option.some.inj hnext
      have hpopped : Inv { s with events := events } := ⟨⟨h.notStarted, h.shown⟩, h.manual⟩
      cases event with
      | pluginConnectionState transport state =>
        show Inv (if s.transport = some transport then _ else _)
        split_ifs
        · exact ⟨⟨h.notStarted, h.shown⟩, h.manual⟩
        · exact hpopped
      | connectionState state =>
        refine Inv.onConnectionStateChanged hpopped ?_
        intro hnone
        exact htimely hnone state (by rw [hevents]; rfl)
  | onConnectTransport outcome => exact Option.some.inj hnext ▸ h.onConnectTransport outcome
  | onDisconnectTransport => exact Option.some.inj hnext ▸ h.onDisconnectTransport
  | timerExpires =>
    obtain ⟨-, hnext⟩ := Option.ite_none_right_eq_some.mp hnext
    obtain rfl := Option.some.inj hnext
    exact ⟨⟨h.notStarted, h.shown⟩, h.manual⟩
  | onReconnectTimerFired outcome =>
    obtain ⟨-, hnext⟩ := Option.ite_none_right_eq_some.mp hnext
    obtain rfl := Option.some.inj hnext
    have hfired : Inv { s with expired := false } := ⟨⟨h.notStarted, h.shown⟩, h.manual⟩
    exact hfired.onReconnectTimerFired outcome

/-- A report that is not timely is shown without a transport. -/
theorem not_disconnectSticks_of_not_timely (h : ¬Timely s a) :
    ∃ t, next config s a = some t ∧ ¬DisconnectSticks t := by
  cases a with
  | handleEvent =>
    rw [Timely] at h
    obtain ⟨hnone, h⟩ := Classical.not_imp.mp h
    obtain ⟨state, h⟩ := Classical.not_forall.mp h
    obtain ⟨hhead, hstate⟩ := Classical.not_imp.mp h
    obtain ⟨events, hevents⟩ := List.head?_eq_some_iff.mp hhead
    refine ⟨_, by rw [next, hevents], ?_⟩
    intro hsticks
    obtain ⟨-, htransport, -, -, hshown⟩ :=
      onConnectionStateChanged_frame config { s with events := events } state
    exact hstate (hshown.symm.trans (hsticks.shown (htransport.trans hnone)))
  | report _ _ => exact absurd trivial h
  | onConnectTransport _ => exact absurd trivial h
  | onDisconnectTransport => exact absurd trivial h
  | timerExpires => exact absurd trivial h
  | onReconnectTimerFired _ => exact absurd trivial h

theorem Inv.everyStep_iff (h : Inv s) (actions : List Action) :
    Execution.EveryStep (next config)
        (fun s a => ∀ t, next config s a = some t → DisconnectSticks t) s actions ↔
      Execution.EveryStep (next config) Timely s actions := by
  induction actions generalizing s with
  | nil => exact Iff.rfl
  | cons a actions ih =>
    constructor
    · rintro ⟨hsticks, hrest⟩
      have htimely : Timely s a := by
        by_contra hnot
        obtain ⟨t, ht, hlost⟩ := not_disconnectSticks_of_not_timely hnot
        exact hlost (hsticks t ht)
      exact ⟨htimely, fun t ht => (ih (h.step htimely ht)).mp (hrest t ht)⟩
    · rintro ⟨htimely, hrest⟩
      refine ⟨fun t ht => (h.step htimely ht).toDisconnectSticks, ?_⟩
      exact fun t ht => (ih (h.step htimely ht)).mpr (hrest t ht)

/-- For every run of clicks, expiries, reports and events: a manual disconnect sticks in every state
it reaches exactly when every report handled without a transport is one of Disconnected. -/
theorem run_disconnectSticks_iff (config : Config) (kind : TransportKind)
    (actions : List Action) :
    Execution.EveryStep (next config)
        (fun s a => ∀ t, next config s a = some t → DisconnectSticks t) (initial kind) actions ↔
      Execution.EveryStep (next config) Timely (initial kind) actions :=
  (inv_initial kind).everyStep_iff actions

/-- The plugin's reports of Connected and Disconnected have passed their first events when the user
disconnects: the one clears the flag, the other starts the timer, and its expiry a transport. -/
theorem late_reports_restart :
    ∃ t, Execution.run (next ⟨true, some .plugin⟩) (initial .plugin)
        [.onConnectTransport .started, .report 0 .connected, .report 0 .disconnected, .handleEvent,
          .handleEvent, .onDisconnectTransport, .handleEvent, .handleEvent, .timerExpires,
          .onReconnectTimerFired .started] = some t ∧ ¬DisconnectSticks t := by
  refine ⟨_, rfl, ?_⟩
  intro h
  have hstarted := h.notStarted
  revert hstarted
  decide

end SmartDashboard.App.Connection
