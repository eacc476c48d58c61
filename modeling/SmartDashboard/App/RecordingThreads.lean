import SmartDashboard.App.RecordedEvents
import SmartDashboard.Library.Execution

/-!
# Recording threads

A session recording while it runs. `RecordVariableEvent` is called on the UI thread and on the
threads of the transport, `RecordConnectionEvent` on the UI thread; a writer thread moves the lines
of `m_recordingQueue` to the file until `StopSessionRecording` has it drain the queue and exit. The
threads interleave between their lock sections and their readings of the clock.

`RecordVariableEvent` looks at `m_recordingLastTimestampUs` and moves it in the lock section that
queues its line. `RecordConnectionEvent` does so before its lock section.

## Main definitions

- `Event`: a line of the recording, with `Event.object` its JSON object
- `State`, `next`: the steps of the threads, from the end of `StartSessionRecording` on
- `InOrder`: no variable event overtakes a connection event

## Main results

- `run_inOrder`: once stopped, the file holds what was pushed, and its timestamps never decrease if
  and only if every step was `InOrder`
-/

namespace SmartDashboard.App.Recording

open Direct (ByteString)
open Transport Execution

/-- A reading of the steady clock: a non-negative count of 64 bits with a sign. -/
abbrev SteadyUs := {us : UInt64 // us.toNat < 2 ^ 63}

inductive Event
  | data (timestampUs : UInt64) (update : VariableUpdate)
  | connectionState (timestampUs : UInt64) (state : Int32)
  deriving DecidableEq, Repr

def Event.timestampUs : Event → UInt64
  | .data timestampUs _ => timestampUs
  | .connectionState timestampUs _ => timestampUs

/-- The `qint64` that stands in the line. -/
def Event.lineTimestampUs (event : Event) : ℤ := event.timestampUs.toInt64.toInt

def stateText (state : Int32) : ByteString :=
  if state = 1 then text "Connecting"
  else if state = 2 then text "Connected"
  else if state = 3 then text "Stale"
  else text "Disconnected"

def Event.object (qt : QtNumbers) : Event → JsonObject
  | .data timestampUs update => variableObject qt timestampUs update
  | .connectionState timestampUs state =>
    [(text "eventKind", .string (text "connection_state")),
      (text "timestampUs", .integer timestampUs.toInt64.toInt),
      (text "state", .string (stateText state)),
      (text "stateValue", .integer state.toInt)]

/-! ### The threads -/

/-- The threads that call `RecordVariableEvent`. -/
inductive Caller
  | ui
  | worker (thread : ℕ)
  deriving DecidableEq, Repr

/-- A call of `RecordVariableEvent` that has read the clock. -/
structure Call where
  nowSteadyUs : SteadyUs
  update : VariableUpdate
  deriving DecidableEq, Repr

/-- Where the UI thread is. -/
inductive UiPc
  | idle
  /-- In `RecordConnectionEvent`: the clock is read; the last timestamp is looked at; it is
  moved. -/
  | connection (nowSteadyUs : SteadyUs) (state : Int32)
  | looked (timestampUs : UInt64) (state : Int32)
  | stored (timestampUs : UInt64) (state : Int32)
  /-- In `StopSessionRecording`: waiting for the writer; behind the join; returned. -/
  | stopping
  | joined
  | stopped
  deriving DecidableEq, Repr

/-- Where the writer thread is. -/
inductive WriterPc
  | waiting
  | writing (line : Event)
  | draining
  | exited
  deriving DecidableEq, Repr

structure State where
  startSteadyUs : UInt64
  lastTimestampUs : UInt64 := 0
  queue : List Event := []
  threadRunning : Bool := true
  stopRequested : Bool := false
  calls : Caller → Option Call
  ui : UiPc := .idle
  writer : WriterPc := .waiting
  file : List Event := []
  /-- The events pushed to the queue, in order. -/
  pushed : List Event := []

/-- What `StartSessionRecording` leaves. Calls of other threads may have begun before it. -/
def started (startSteadyUs : UInt64) (calls : ℕ → Option Call) : State where
  startSteadyUs := startSteadyUs
  calls
    | .ui => none
    | .worker thread => calls thread

inductive Action
  | callVariable (caller : Caller) (nowSteadyUs : SteadyUs) (update : VariableUpdate)
  | lockVariable (caller : Caller)
  | callConnection (nowSteadyUs : SteadyUs) (state : Int32)
  | lookTimestamp
  | storeTimestamp
  | lockConnection
  /-- The first lock section of `StopSessionRecording`, the join and the last lock section. -/
  | stop
  | join
  | clear
  /-- The lock section in the loop of the writer, the write that follows it, and the last lock
  section with its writes. -/
  | take
  | write
  | drain
  deriving DecidableEq, Repr

def push (s : State) (event : Event) : State :=
  { s with queue := s.queue ++ [event], pushed := s.pushed ++ [event] }

/-- The lock section of `RecordVariableEvent`. -/
def lockVariable (s : State) (call : Call) : State :=
  if s.threadRunning = false ∨ s.stopRequested = true then s
  else
    let timestampUs := eventTimestampUs s.startSteadyUs s.lastTimestampUs call.nowSteadyUs
    push { s with lastTimestampUs := timestampUs } (.data timestampUs call.update)

/-- The lock section of `RecordConnectionEvent`. -/
def lockConnection (s : State) (timestampUs : UInt64) (state : Int32) : State :=
  if s.threadRunning = false ∨ s.stopRequested = true then s
  else push s (.connectionState timestampUs state)

def next (s : State) : Action → Option State
  | .callVariable caller nowSteadyUs update =>
    if s.calls caller = none ∧ (caller = .ui → s.ui = .idle) then
      some { s with calls := Function.update s.calls caller (some ⟨nowSteadyUs, update⟩) }
    else none
  | .lockVariable caller =>
    (s.calls caller).map fun call =>
      { lockVariable s call with calls := Function.update s.calls caller none }
  | .callConnection nowSteadyUs state =>
    if s.ui = .idle ∧ s.calls .ui = none then
      some { s with ui := .connection nowSteadyUs state }
    else none
  | .lookTimestamp =>
    match s.ui with
    | .connection nowSteadyUs state =>
      some { s with
        ui := .looked (eventTimestampUs s.startSteadyUs s.lastTimestampUs nowSteadyUs) state }
    | _ => none
  | .storeTimestamp =>
    match s.ui with
    | .looked timestampUs state =>
      some { s with lastTimestampUs := timestampUs, ui := .stored timestampUs state }
    | _ => none
  | .lockConnection =>
    match s.ui with
    | .stored timestampUs state => some { lockConnection s timestampUs state with ui := .idle }
    | _ => none
  | .stop =>
    if s.ui = .idle ∧ s.calls .ui = none then
      some { s with stopRequested := true, ui := .stopping }
    else none
  | .join =>
    if s.ui = .stopping ∧ s.writer = .exited then some { s with ui := .joined } else none
  | .clear =>
    if s.ui = .joined then
      some { s with queue := [], threadRunning := false, stopRequested := false, ui := .stopped }
    else none
  | .take =>
    if s.writer = .waiting then
      match s.queue with
      | line :: queue => some { s with queue := queue, writer := .writing line }
      | [] => if s.stopRequested = true then some { s with writer := .draining } else none
    else none
  | .write =>
    match s.writer with
    | .writing line => some { s with file := s.file ++ [line], writer := .waiting }
    | _ => none
  | .drain =>
    if s.writer = .draining then
      some { s with
        file := s.file ++ s.queue, queue := [], threadRunning := false, writer := .exited }
    else none

/-! ### The steps, one by one -/

/-- A recording that takes events. -/
def Taking (s : State) : Prop := s.threadRunning = true ∧ s.stopRequested = false

/-- What a step finds and what it leaves. -/
inductive Step (s : State) : Action → State → Prop
  | callVariable (caller : Caller) (nowSteadyUs : SteadyUs) (update : VariableUpdate) :
      Step s (.callVariable caller nowSteadyUs update)
        { s with calls := Function.update s.calls caller (some ⟨nowSteadyUs, update⟩) }
  | recordVariable (caller : Caller) (call : Call) (pending : s.calls caller = some call)
      (taking : Taking s) :
      Step s (.lockVariable caller)
        { push
            { s with
              lastTimestampUs :=
                eventTimestampUs s.startSteadyUs s.lastTimestampUs call.nowSteadyUs }
            (.data (eventTimestampUs s.startSteadyUs s.lastTimestampUs call.nowSteadyUs)
              call.update) with
          calls := Function.update s.calls caller none }
  | refuseVariable (caller : Caller) (closed : ¬Taking s) :
      Step s (.lockVariable caller) { s with calls := Function.update s.calls caller none }
  | callConnection (nowSteadyUs : SteadyUs) (state : Int32) (ui : s.ui = .idle) :
      Step s (.callConnection nowSteadyUs state) { s with ui := .connection nowSteadyUs state }
  | lookTimestamp (nowSteadyUs : SteadyUs) (state : Int32)
      (ui : s.ui = .connection nowSteadyUs state) :
      Step s .lookTimestamp
        { s with
          ui := .looked (eventTimestampUs s.startSteadyUs s.lastTimestampUs nowSteadyUs) state }
  | storeTimestamp (timestampUs : UInt64) (state : Int32) (ui : s.ui = .looked timestampUs state) :
      Step s .storeTimestamp
        { s with lastTimestampUs := timestampUs, ui := .stored timestampUs state }
  | recordConnection (timestampUs : UInt64) (state : Int32) (ui : s.ui = .stored timestampUs state)
      (taking : Taking s) :
      Step s .lockConnection { push s (.connectionState timestampUs state) with ui := .idle }
  | refuseConnection (timestampUs : UInt64) (state : Int32) (ui : s.ui = .stored timestampUs state)
      (closed : ¬Taking s) :
      Step s .lockConnection { s with ui := .idle }
  | stop (ui : s.ui = .idle) : Step s .stop { s with stopRequested := true, ui := .stopping }
  | join (ui : s.ui = .stopping) (writer : s.writer = .exited) :
      Step s .join { s with ui := .joined }
  | clear (ui : s.ui = .joined) :
      Step s .clear
        { s with queue := [], threadRunning := false, stopRequested := false, ui := .stopped }
  | takeLine (line : Event) (queue : List Event) (writer : s.writer = .waiting)
      (front : s.queue = line :: queue) :
      Step s .take { s with queue := queue, writer := .writing line }
  | leaveLoop (writer : s.writer = .waiting) (empty : s.queue = [])
      (requested : s.stopRequested = true) :
      Step s .take { s with writer := .draining }
  | write (line : Event) (writer : s.writer = .writing line) :
      Step s .write { s with file := s.file ++ [line], writer := .waiting }
  | drain (writer : s.writer = .draining) :
      Step s .drain
        { s with
          file := s.file ++ s.queue, queue := [], threadRunning := false, writer := .exited }

variable {s t : State} {a : Action}

theorem not_taking_iff : (s.threadRunning = false ∨ s.stopRequested = true) ↔ ¬Taking s := by
  rw [Taking, not_and_or, Bool.not_eq_true, Bool.not_eq_false]

theorem step_of_next (h : next s a = some t) : Step s a t := by
  cases a with
  | callVariable caller nowSteadyUs update =>
    obtain ⟨-, h⟩ := Option.ite_none_right_eq_some.mp h
    exact Option.some.inj h ▸ .callVariable caller nowSteadyUs update
  | lockVariable caller =>
    obtain ⟨call, hcall, rfl⟩ := Option.map_eq_some_iff.mp h
    by_cases htaking : Taking s
    · rw [lockVariable, if_neg (not_taking_iff.not.mpr (not_not.mpr htaking))]
      exact .recordVariable caller call hcall htaking
    · rw [lockVariable, if_pos (not_taking_iff.mpr htaking)]
      exact .refuseVariable caller htaking
  | callConnection nowSteadyUs state =>
    obtain ⟨⟨hui, -⟩, h⟩ := Option.ite_none_right_eq_some.mp h
    exact Option.some.inj h ▸ .callConnection nowSteadyUs state hui
  | lookTimestamp =>
    cases hui : s.ui with
    | connection nowSteadyUs state =>
      rw [next, hui] at h
      exact Option.some.inj h ▸ .lookTimestamp nowSteadyUs state hui
    | _ => simp [next, hui] at h
  | storeTimestamp =>
    cases hui : s.ui with
    | looked timestampUs state =>
      rw [next, hui] at h
      exact Option.some.inj h ▸ .storeTimestamp timestampUs state hui
    | _ => simp [next, hui] at h
  | lockConnection =>
    cases hui : s.ui with
    | stored timestampUs state =>
      rw [next, hui] at h
      obtain rfl := Option.some.inj h
      by_cases htaking : Taking s
      · rw [lockConnection, if_neg (not_taking_iff.not.mpr (not_not.mpr htaking))]
        exact .recordConnection timestampUs state hui htaking
      · rw [lockConnection, if_pos (not_taking_iff.mpr htaking)]
        exact .refuseConnection timestampUs state hui htaking
    | _ => simp [next, hui] at h
  | stop =>
    obtain ⟨⟨hui, -⟩, h⟩ := Option.ite_none_right_eq_some.mp h
    exact Option.some.inj h ▸ .stop hui
  | join =>
    obtain ⟨⟨hui, hwriter⟩, h⟩ := Option.ite_none_right_eq_some.mp h
    exact Option.some.inj h ▸ .join hui hwriter
  | clear =>
    obtain ⟨hui, h⟩ := Option.ite_none_right_eq_some.mp h
    exact Option.some.inj h ▸ .clear hui
  | take =>
    obtain ⟨hwriter, h⟩ := Option.ite_none_right_eq_some.mp h
    cases hqueue : s.queue with
    | nil =>
      rw [hqueue] at h
      obtain ⟨hrequested, h⟩ := Option.ite_none_right_eq_some.mp h
      have hstep := Step.leaveLoop hwriter hqueue hrequested
      rw [hqueue] at hstep
      exact Option.some.inj h ▸ hstep
    | cons line queue =>
      rw [hqueue] at h
      exact Option.some.inj h ▸ .takeLine line queue hwriter hqueue
  | write =>
    cases hwriter : s.writer with
    | writing line =>
      rw [next, hwriter] at h
      exact Option.some.inj h ▸ .write line hwriter
    | _ => simp [next, hwriter] at h
  | drain =>
    obtain ⟨hwriter, h⟩ := Option.ite_none_right_eq_some.mp h
    exact Option.some.inj h ▸ .drain hwriter

/-! ### What is written -/

def WriterPc.inHand : WriterPc → List Event
  | .writing line => [line]
  | _ => []

/-- The UI thread has not begun to stop the recording. -/
def UiPc.Running : UiPc → Prop
  | .stopping => False
  | .joined => False
  | .stopped => False
  | _ => True

/-- The writer has not left its loop. -/
def WriterPc.InLoop : WriterPc → Prop
  | .waiting => True
  | .writing _ => True
  | _ => False

structure Writes (s : State) : Prop where
  conserved : s.pushed = s.file ++ s.writer.inHand ++ s.queue
  running : s.ui.Running → Taking s ∧ s.writer.InLoop
  exited : s.writer = .exited → s.queue = [] ∧ s.threadRunning = false
  finished : s.ui = .joined ∨ s.ui = .stopped → s.writer = .exited

theorem writes_started (startSteadyUs : UInt64) (calls : ℕ → Option Call) :
    Writes (started startSteadyUs calls) where
  conserved := rfl
  running _ := ⟨⟨rfl, rfl⟩, trivial⟩
  exited := fun h => by cases h
  finished := fun h => by rcases h with h | h <;> cases h

/-- An event that is pushed. -/
theorem Writes.push (h : Writes s) (htaking : Taking s) (event : Event) {t : State}
    (hpushed : t.pushed = s.pushed ++ [event]) (hqueue : t.queue = s.queue ++ [event])
    (hfile : t.file = s.file) (hwriter : t.writer = s.writer)
    (hrunning : t.ui.Running → Taking t ∧ t.writer.InLoop)
    (hfinished : t.ui = .joined ∨ t.ui = .stopped → t.writer = .exited) : Writes t where
  conserved := by
    rw [hpushed, hqueue, hfile, hwriter, h.conserved]
    exact List.append_assoc _ _ _
  running := hrunning
  exited := by
    intro hexited
    -- An exited writer has stopped the recording.
    have hstopped := (h.exited (hwriter ▸ hexited)).2
    rw [htaking.1] at hstopped
    cases hstopped
  finished := hfinished

theorem Writes.next (h : Writes s) (hnext : Recording.next s a = some t) : Writes t := by
  obtain ⟨hconserved, hrunning, hexited, hfinished⟩ := id h
  cases step_of_next hnext with
  | callVariable caller nowSteadyUs update => exact ⟨hconserved, hrunning, hexited, hfinished⟩
  | recordVariable caller call pending taking =>
    exact h.push taking _ rfl rfl rfl rfl (fun hui => ⟨taking, (hrunning hui).2⟩) hfinished
  | refuseVariable caller closed => exact ⟨hconserved, hrunning, hexited, hfinished⟩
  | callConnection nowSteadyUs state ui =>
    have h := hrunning (by rw [ui]; trivial)
    exact ⟨hconserved, fun _ => h, hexited, fun hui => by rcases hui with hui | hui <;> cases hui⟩
  | lookTimestamp nowSteadyUs state ui =>
    have h := hrunning (by rw [ui]; trivial)
    exact ⟨hconserved, fun _ => h, hexited, fun hui => by rcases hui with hui | hui <;> cases hui⟩
  | storeTimestamp timestampUs state ui =>
    have h := hrunning (by rw [ui]; trivial)
    exact ⟨hconserved, fun _ => h, hexited, fun hui => by rcases hui with hui | hui <;> cases hui⟩
  | recordConnection timestampUs state ui taking =>
    have hloop := hrunning (by rw [ui]; trivial)
    exact h.push taking _ rfl rfl rfl rfl (fun _ => ⟨taking, hloop.2⟩)
      fun hui => by rcases hui with hui | hui <;> cases hui
  | refuseConnection timestampUs state ui closed =>
    exact absurd (hrunning (by rw [ui]; trivial)).1 closed
  | stop ui =>
    exact ⟨hconserved, fun hui => hui.elim, hexited,
      fun hui => by rcases hui with hui | hui <;> cases hui⟩
  | join ui writer => exact ⟨hconserved, fun hui => hui.elim, hexited, fun _ => writer⟩
  | clear ui =>
    have hwriter := hfinished (.inl ui)
    have hempty := (hexited hwriter).1
    refine ⟨?_, fun hui => hui.elim, fun _ => ⟨rfl, rfl⟩, fun _ => hwriter⟩
    rw [hconserved, hempty]
  | takeLine line queue writer front =>
    refine ⟨?_, fun hui => ⟨(hrunning hui).1, trivial⟩, by rintro ⟨⟩, fun hui => ?_⟩
    · rw [hconserved, writer, front]
      show s.file ++ [] ++ line :: queue = s.file ++ [line] ++ queue
      rw [List.append_nil, List.append_assoc]
      rfl
    · have hwriter := hfinished hui
      rw [writer] at hwriter
      cases hwriter
  | leaveLoop writer empty requested =>
    refine ⟨?_, fun hui => ?_, by rintro ⟨⟩, fun hui => ?_⟩
    · rw [hconserved, writer]
      rfl
    · -- The writer leaves its loop only when a stop was requested.
      have hopen := (hrunning hui).1.2
      rw [requested] at hopen
      cases hopen
    · have hwriter := hfinished hui
      rw [writer] at hwriter
      cases hwriter
  | write line writer =>
    refine ⟨?_, fun hui => ⟨(hrunning hui).1, trivial⟩, by rintro ⟨⟩, fun hui => ?_⟩
    · rw [hconserved, writer]
      exact congrArg (· ++ s.queue) (List.append_nil _).symm
    · have hwriter := hfinished hui
      rw [writer] at hwriter
      cases hwriter
  | drain writer =>
    refine ⟨?_, fun hui => ?_, fun _ => ⟨rfl, rfl⟩, fun _ => rfl⟩
    · rw [hconserved, writer]
      show s.file ++ [] ++ s.queue = s.file ++ s.queue ++ [] ++ []
      rw [List.append_nil, List.append_nil, List.append_nil]
    · have hloop := (hrunning hui).2
      rw [writer] at hloop
      exact hloop.elim

/-- Once the recording has stopped, the file holds the events that were pushed, in their order. -/
theorem Writes.file_eq (h : Writes s) (hstopped : s.ui = .stopped) : s.file = s.pushed := by
  have hwriter := h.finished (.inr hstopped)
  rw [h.conserved, (h.exited hwriter).1, hwriter]
  show s.file = s.file ++ [] ++ []
  rw [List.append_nil, List.append_nil]

/-! ### The timestamps -/

theorem elapsedUs_le (startSteadyUs nowSteadyUs : UInt64) :
    (elapsedUs startSteadyUs nowSteadyUs).toNat ≤ nowSteadyUs.toNat := by
  rw [elapsedUs]
  split_ifs with hle
  · rw [UInt64.toNat_sub_of_le _ _ hle]
    omega
  · exact Nat.zero_le _

/-- A timestamp is the later one of the time since the start and the last timestamp. -/
theorem toNat_eventTimestampUs (startSteadyUs lastTimestampUs nowSteadyUs : UInt64) :
    (eventTimestampUs startSteadyUs lastTimestampUs nowSteadyUs).toNat =
      max (elapsedUs startSteadyUs nowSteadyUs).toNat lastTimestampUs.toNat := by
  simp only [eventTimestampUs, UInt64.lt_iff_toNat_lt]
  split_ifs with hlt
  · exact (max_eq_right hlt.le).symm
  · exact (max_eq_left (not_lt.mp hlt)).symm

/-- The timestamp of the connection event that the UI thread has yet to push. -/
def UiPc.pending : UiPc → Option UInt64
  | .looked timestampUs _ => some timestampUs
  | .stored timestampUs _ => some timestampUs
  | _ => none

theorem UiPc.running_of_pending {ui : UiPc} {timestampUs : UInt64}
    (h : ui.pending = some timestampUs) : ui.Running := by
  cases ui with
  | looked | stored => trivial
  | _ => cases h

/-- No variable event that is later than a pending connection event is pushed before it: one that
comes to its lock section has read the clock no later than at the pending timestamp. -/
def InOrder (s : State) : Action → Prop
  | .lockVariable caller => ∀ call, s.calls caller = some call → ∀ timestampUs,
      s.ui.pending = some timestampUs →
        (elapsedUs s.startSteadyUs call.nowSteadyUs).toNat ≤ timestampUs.toNat
  | _ => True

/-- Timestamps never decrease. -/
def Sorted (events : List Event) : Prop :=
  events.Pairwise fun a b => a.timestampUs.toNat ≤ b.timestampUs.toNat

theorem sorted_concat {events : List Event} {event : Event} :
    Sorted (events ++ [event]) ↔
      Sorted events ∧ ∀ e ∈ events, e.timestampUs.toNat ≤ event.timestampUs.toNat := by
  rw [Sorted, List.pairwise_append]
  simp only [List.pairwise_singleton, List.mem_singleton, forall_eq, true_and]
  rfl

structure Ordered (s : State) : Prop where
  sorted : Sorted s.pushed
  upTo : ∀ e ∈ s.pushed, e.timestampUs.toNat ≤ s.lastTimestampUs.toNat
  looked : ∀ timestampUs state, s.ui = .looked timestampUs state →
    s.lastTimestampUs.toNat ≤ timestampUs.toNat
  stored : ∀ timestampUs state, s.ui = .stored timestampUs state →
    s.lastTimestampUs = timestampUs

/-- Where no connection event is pending there is less to say. -/
theorem ordered_of_pending_eq_none (hsorted : Sorted s.pushed)
    (hupTo : ∀ e ∈ s.pushed, e.timestampUs.toNat ≤ s.lastTimestampUs.toNat)
    (hpending : s.ui.pending = none) : Ordered s where
  sorted := hsorted
  upTo := hupTo
  looked _ _ hui := by
    rw [hui] at hpending
    cases hpending
  stored _ _ hui := by
    rw [hui] at hpending
    cases hpending

theorem ordered_started (startSteadyUs : UInt64) (calls : ℕ → Option Call) :
    Ordered (started startSteadyUs calls) :=
  ordered_of_pending_eq_none List.Pairwise.nil (fun e he => by cases he) rfl

theorem Ordered.next (h : Ordered s) (horder : InOrder s a)
    (hnext : Recording.next s a = some t) : Ordered t := by
  obtain ⟨hsorted, hupTo, hlooked, hstored⟩ := id h
  cases step_of_next hnext with
  | recordVariable caller call pending taking =>
    have hmax := toNat_eventTimestampUs s.startSteadyUs s.lastTimestampUs call.nowSteadyUs
    refine ⟨sorted_concat.mpr ⟨hsorted, fun e he => ?_⟩, fun e he => ?_, fun T st hui => ?_,
      fun T st hui => ?_⟩
    · show e.timestampUs.toNat ≤ (eventTimestampUs _ _ _).toNat
      have hle := hupTo e he
      omega
    · show e.timestampUs.toNat ≤ (eventTimestampUs _ _ _).toNat
      rcases List.mem_append.mp he with he | he
      · have hle := hupTo e he
        omega
      · rw [List.mem_singleton.mp he]
        exact Nat.le_refl _
    · -- The clock was read no later than the timestamp that is pending.
      show (eventTimestampUs _ _ _).toNat ≤ T.toNat
      have hclock := horder call pending T (by rw [show s.ui = _ from hui]; rfl)
      have hle := hlooked T st hui
      omega
    · show eventTimestampUs _ _ _ = T
      have hclock := horder call pending T (by rw [show s.ui = _ from hui]; rfl)
      have heq := hstored T st hui
      rw [heq] at hmax ⊢
      apply UInt64.toNat_inj.mp
      omega
  | lookTimestamp nowSteadyUs state ui =>
    refine ⟨hsorted, hupTo, fun T st hui => ?_, by rintro T st ⟨⟩⟩
    obtain ⟨rfl, -⟩ := UiPc.looked.inj hui
    have hmax := toNat_eventTimestampUs s.startSteadyUs s.lastTimestampUs nowSteadyUs
    show s.lastTimestampUs.toNat ≤ _
    omega
  | storeTimestamp timestampUs state ui =>
    have hle := hlooked timestampUs state ui
    refine ⟨hsorted, fun e he => (hupTo e he).trans hle, by rintro T st ⟨⟩, fun T st hui => ?_⟩
    exact (UiPc.stored.inj hui).1
  | recordConnection timestampUs state ui taking =>
    have heq := hstored timestampUs state ui
    refine ordered_of_pending_eq_none (sorted_concat.mpr ⟨hsorted, fun e he => ?_⟩)
      (fun e he => ?_) rfl
    · exact heq ▸ hupTo e he
    · rcases List.mem_append.mp he with he | he
      · exact hupTo e he
      · rw [List.mem_singleton.mp he]
        exact heq ▸ Nat.le_refl _
  | callConnection nowSteadyUs state ui => exact ordered_of_pending_eq_none hsorted hupTo rfl
  | refuseConnection timestampUs state ui closed =>
    exact ordered_of_pending_eq_none hsorted hupTo rfl
  | stop ui => exact ordered_of_pending_eq_none hsorted hupTo rfl
  | join ui writer => exact ordered_of_pending_eq_none hsorted hupTo rfl
  | clear ui => exact ordered_of_pending_eq_none hsorted hupTo rfl
  | _ => exact ⟨hsorted, hupTo, hlooked, hstored⟩

/-- A later event stands before the connection event that is pending, or was pushed before an
earlier one. -/
def Overtaken (s : State) : Prop :=
  (∃ timestampUs, s.ui.pending = some timestampUs ∧
    ∃ e ∈ s.pushed, timestampUs.toNat < e.timestampUs.toNat) ∨ ¬Sorted s.pushed

/-- A step pushes an event or none. -/
theorem pushed_next (hnext : next s a = some t) :
    t.pushed = s.pushed ∨ ∃ event, t.pushed = s.pushed ++ [event] := by
  cases step_of_next hnext with
  | recordVariable caller call pending taking => exact .inr ⟨_, rfl⟩
  | recordConnection timestampUs state ui taking => exact .inr ⟨_, rfl⟩
  | _ => exact .inl rfl

theorem Overtaken.next (h : Overtaken s) (hwrites : Writes s)
    (hnext : Recording.next s a = some t) : Overtaken t := by
  have hpushed : ∀ e ∈ s.pushed, e ∈ t.pushed := by
    intro e he
    rcases pushed_next hnext with heq | ⟨event, heq⟩
    · exact heq ▸ he
    · exact heq ▸ List.mem_append_left _ he
  rcases h with ⟨timestampUs, hpending, e, he, hlt⟩ | hunsorted
  · -- Either the event stays pending, or it is pushed behind the later one.
    have hkept : t.ui.pending = some timestampUs → Overtaken t := fun hui =>
      .inl ⟨timestampUs, hui, e, hpushed e he, hlt⟩
    cases step_of_next hnext with
    | storeTimestamp T st ui =>
      rw [ui] at hpending
      exact hkept hpending
    | recordConnection T st ui taking =>
      rw [ui] at hpending
      obtain rfl : T = timestampUs := Option.some.inj hpending
      exact .inr fun hsorted => absurd ((sorted_concat.mp hsorted).2 e he) (not_le.mpr hlt)
    | refuseConnection T st ui closed =>
      exact absurd (hwrites.running (by rw [ui]; trivial)).1 closed
    | callConnection _ _ ui | lookTimestamp _ _ ui | stop ui | join ui _ | clear ui =>
      rw [ui] at hpending
      cases hpending
    | _ => exact hkept hpending
  · right
    intro hsorted
    rcases pushed_next hnext with heq | ⟨event, heq⟩
    · exact hunsorted (heq ▸ hsorted)
    · exact hunsorted (sorted_concat.mp (heq ▸ hsorted)).1

/-- A step out of order overtakes the pending event. -/
theorem overtaken_of_not_inOrder (hwrites : Writes s) (horder : ¬InOrder s a)
    (hnext : next s a = some t) : Overtaken t := by
  cases a with
  | lockVariable caller =>
    simp only [InOrder, not_forall, not_le] at horder
    obtain ⟨call, hcall, timestampUs, hpending, hlt⟩ := horder
    have hrunning := UiPc.running_of_pending hpending
    cases step_of_next hnext with
    | refuseVariable _ closed => exact absurd (hwrites.running hrunning).1 closed
    | recordVariable _ call' pending taking =>
      obtain rfl : call = call' := Option.some.inj (hcall.symm.trans pending)
      refine
        .inl ⟨timestampUs, hpending, _, List.mem_append_right _ (List.mem_singleton_self _), ?_⟩
      have hmax := toNat_eventTimestampUs s.startSteadyUs s.lastTimestampUs call.nowSteadyUs
      show timestampUs.toNat < (eventTimestampUs _ _ _).toNat
      omega
  | _ => exact absurd trivial horder

/-- Timestamps come from a clock that stays below `2 ^ 63`, so a line holds its timestamp as it
is. -/
structure Bounded (s : State) : Prop where
  pushed : ∀ e ∈ s.pushed, e.timestampUs.toNat < 2 ^ 63
  last : s.lastTimestampUs.toNat < 2 ^ 63
  pending : ∀ timestampUs, s.ui.pending = some timestampUs → timestampUs.toNat < 2 ^ 63

theorem bounded_started (startSteadyUs : UInt64) (calls : ℕ → Option Call) :
    Bounded (started startSteadyUs calls) where
  pushed _ he := by cases he
  last := by
    show (0 : UInt64).toNat < 2 ^ 63
    decide
  pending _ hui := by cases hui

theorem Bounded.eventTimestampUs_lt (h : Bounded s) (nowSteadyUs : SteadyUs) :
    (eventTimestampUs s.startSteadyUs s.lastTimestampUs nowSteadyUs).toNat < 2 ^ 63 := by
  rw [toNat_eventTimestampUs]
  exact max_lt ((elapsedUs_le _ _).trans_lt nowSteadyUs.property) h.last

theorem Bounded.next (h : Bounded s) (hnext : Recording.next s a = some t) : Bounded t := by
  obtain ⟨hpushed, hlast, hpending⟩ := id h
  cases step_of_next hnext with
  | recordVariable caller call pending taking =>
    have hlt := h.eventTimestampUs_lt call.nowSteadyUs
    refine ⟨fun e he => ?_, hlt, hpending⟩
    rcases List.mem_append.mp he with he | he
    · exact hpushed e he
    · rw [List.mem_singleton.mp he]
      exact hlt
  | lookTimestamp nowSteadyUs state ui =>
    refine ⟨hpushed, hlast, fun timestampUs hui => ?_⟩
    obtain rfl := Option.some.inj hui
    exact h.eventTimestampUs_lt nowSteadyUs
  | storeTimestamp timestampUs state ui =>
    have hlt := hpending timestampUs (by rw [ui]; rfl)
    refine ⟨hpushed, hlt, fun timestampUs hui => ?_⟩
    obtain rfl := Option.some.inj hui
    exact hlt
  | recordConnection timestampUs state ui taking =>
    have hlt := hpending timestampUs (by rw [ui]; rfl)
    refine ⟨fun e he => ?_, hlast, by rintro T ⟨⟩⟩
    rcases List.mem_append.mp he with he | he
    · exact hpushed e he
    · rw [List.mem_singleton.mp he]
      exact hlt
  | callConnection | refuseConnection | stop | join | clear =>
    exact ⟨hpushed, hlast, by rintro T ⟨⟩⟩
  | _ => exact ⟨hpushed, hlast, hpending⟩

theorem Event.lineTimestampUs_eq {event : Event} (h : event.timestampUs.toNat < 2 ^ 63) :
    event.lineTimestampUs = event.timestampUs.toNat := by
  exact BitVec.toInt_eq_toNat_of_lt (by
    show 2 * event.timestampUs.toNat < 2 ^ 64
    omega)

/-- The lines are in the order of their timestamps if the events are. -/
theorem pairwise_lineTimestampUs_iff {events : List Event}
    (h : ∀ e ∈ events, e.timestampUs.toNat < 2 ^ 63) :
    (events.map Event.lineTimestampUs).Pairwise (· ≤ ·) ↔ Sorted events := by
  rw [List.pairwise_map, Sorted]
  refine List.Pairwise.iff_of_mem fun ha hb => ?_
  rw [Event.lineTimestampUs_eq (h _ ha), Event.lineTimestampUs_eq (h _ hb), Nat.cast_le]

/-- The file of a recording that has stopped holds the events that were pushed, each once and in
their order, and with timestamps that never decrease if and only if no step was out of order. -/
theorem run_inOrder {startSteadyUs : UInt64} {calls : ℕ → Option Call} {as : List Action}
    (hrun : run next (started startSteadyUs calls) as = some s) (hstopped : s.ui = .stopped) :
    (s.file = s.pushed ∧ (s.file.map Event.lineTimestampUs).Pairwise (· ≤ ·)) ↔
      EveryStep next InOrder (started startSteadyUs calls) as := by
  have hwrites : Writes s :=
    run_induction (fun s a t h hnext => h.next hnext) (writes_started startSteadyUs calls) hrun
  have hbounded : Bounded s :=
    run_induction (fun s a t h hnext => h.next hnext) (bounded_started startSteadyUs calls) hrun
  have hfile := hwrites.file_eq hstopped
  rw [hfile, pairwise_lineTimestampUs_iff hbounded.pushed]
  constructor
  · rintro ⟨-, hsorted⟩
    rcases everyStep_or_exists InOrder hrun with h | ⟨front, a, back, t, t', -, hfront, hnot, hnext,
      hback⟩
    · exact h
    · -- What the step overtakes is still pushed before the recording stops.
      have ht : Writes t := run_induction (fun s a t h hnext => h.next hnext)
        (writes_started startSteadyUs calls) hfront
      have hend : Writes s ∧ Overtaken s := by
        refine run_induction (P := fun s => Writes s ∧ Overtaken s) ?_
          ⟨ht.next hnext, overtaken_of_not_inOrder ht hnot hnext⟩ hback
        rintro s a t ⟨hw, ho⟩ hnext
        exact ⟨hw.next hnext, ho.next hw hnext⟩
      rcases hend.2 with ⟨timestampUs, hpending, -⟩ | hunsorted
      · rw [hstopped] at hpending
        cases hpending
      · exact absurd hsorted hunsorted
  · intro horder
    have hordered : Ordered s :=
      run_induction_of_everyStep (fun s a t h horder hnext => h.next horder hnext)
        (ordered_started startSteadyUs calls) horder hrun
    exact ⟨rfl, hordered.sorted⟩

def headingUpdate : VariableUpdate where
  key := text "Heading"
  valueType := 2
  value := .double 0x4056800000000000
  seq := 3

/-- One variable event and one connection event, recorded and written. -/
def oneOfEach : List Action :=
  [.callVariable (.worker 0) ⟨1100, by decide⟩ headingUpdate, .lockVariable (.worker 0),
    .callConnection ⟨1200, by decide⟩ 2, .lookTimestamp, .storeTimestamp, .lockConnection,
    .take, .write, .stop, .take, .write, .take, .drain, .join, .clear]

theorem run_oneOfEach :
    ∃ s, run next (started 1000 fun _ => none) oneOfEach = some s ∧
      s.file = [.data 100 headingUpdate, .connectionState 200 2] ∧
      ((s.file = s.pushed ∧ (s.file.map Event.lineTimestampUs).Pairwise (· ≤ ·)) ↔
        EveryStep next InOrder (started 1000 fun _ => none) oneOfEach) :=
  ⟨_, rfl, rfl, run_inOrder rfl rfl⟩

/-- The connection event takes its timestamp at 1100; a variable event of 1300 is pushed before
it. -/
def overtaking : List Action :=
  [.callConnection ⟨1100, by decide⟩ 2, .lookTimestamp, .storeTimestamp,
    .callVariable (.worker 0) ⟨1300, by decide⟩ headingUpdate, .lockVariable (.worker 0),
    .lockConnection, .stop, .take, .write, .take, .write, .take, .drain, .join, .clear]

/-- The clock of the recording runs backwards. -/
theorem overtaking_backwards :
    ∃ s, run next (started 1000 fun _ => none) overtaking = some s ∧ s.ui = .stopped ∧
      s.file.map Event.lineTimestampUs = [300, 100] ∧
      ¬(s.file.map Event.lineTimestampUs).Pairwise (· ≤ ·) :=
  ⟨_, rfl, rfl, rfl, by decide⟩

end SmartDashboard.App.Recording
