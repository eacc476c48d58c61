import Mathlib.Order.Lattice
import SmartDashboard.Library.LastWrite
import SmartDashboard.Transport.Types

/-!
# Replay transport

`ReplayDashboardTransport` after `LoadReplayFile`: the events of the session in the order of their
timestamps, the checkpoints built over them, and the critical sections of a seek and of one
iteration of the playback loop. What a critical section collects is published after it.

The playback rate is what `SetPlaybackRate` leaves of it, a `double` in `[0.05, 8.0]`; the product
with a time span, rounded as the code does, is the parameter `playbackDelta`.

## Main definitions

- `Session`: the loaded events, sorted
- `buildCheckpoints`, `findCheckpointForEvent`, `reconstruct`: how a seek finds its values
- `State`, `seek`, `tick`: the playback position and what moves it
-/

namespace SmartDashboard.Transport.Replay

inductive ReplayEventKind
  | data
  | connectionState
  | marker
  deriving DecidableEq, Repr

structure ReplayEvent where
  kind : ReplayEventKind := .data
  timestampUs : ℤ
  update : VariableUpdate
  deriving DecidableEq, Repr

/-- `m_events`, as `LoadReplayFile` sorts them. -/
structure Session where
  events : List ReplayEvent
  sorted : events.Pairwise fun a b => a.timestampUs ≤ b.timestampUs

/-- `m_durationUs`: the timestamp of the last event, at least 0. -/
def Session.durationUs (session : Session) : ℤ :=
  match session.events.getLast? with
  | none => 0
  | some event => max 0 event.timestampUs

/-- `std::lower_bound` on the timestamps: the number of events before the first one at or after
the cursor. -/
def findFirstEventAfterTime (events : List ReplayEvent) (cursorUs : ℤ) : ℕ :=
  (events.takeWhile fun event => event.timestampUs < cursorUs).length

/-- `std::clamp`. -/
def clamp (value low high : ℤ) : ℤ :=
  if value < low then low else if high < value then high else value

/-! ### Checkpoints -/

/-- A `std::map` from keys to updates, in the order of its keys. -/
abbrev LatestByKey := List VariableUpdate

/-- `latestByKey[event.update.key] = event.update` for the data events, nothing for the others. -/
def latestByKeyStep (latestByKey : LatestByKey) (event : ReplayEvent) : LatestByKey :=
  match event.kind with
  | .data => LastWrite.insert VariableUpdate.key (· < ·) latestByKey event.update
  | .connectionState => latestByKey
  | .marker => latestByKey

structure Checkpoint where
  eventIndex : ℕ
  latestByKey : LatestByKey
  deriving DecidableEq, Repr

def checkpointStride : ℕ := 1000

/-- The loop of `BuildCheckpointsLocked` from event `i` on. -/
def buildCheckpointsFrom (i : ℕ) (latestByKey : LatestByKey) : List ReplayEvent → List Checkpoint
  | [] => []
  | event :: events =>
    let latest := latestByKeyStep latestByKey event
    if i = 0 ∨ i % checkpointStride = 0 then
      ⟨i, latest⟩ :: buildCheckpointsFrom (i + 1) latest events
    else buildCheckpointsFrom (i + 1) latest events

def buildCheckpoints (events : List ReplayEvent) : List Checkpoint :=
  buildCheckpointsFrom 0 [] events

/-- The loop of `FindCheckpointForEventLocked` with its candidate. -/
def findCheckpointFrom (eventIndex : ℕ) (candidate : Option Checkpoint) :
    List Checkpoint → Option Checkpoint
  | [] => candidate
  | cp :: checkpoints =>
    if eventIndex < cp.eventIndex then candidate
    else findCheckpointFrom eventIndex (some cp) checkpoints

def findCheckpointForEvent (checkpoints : List Checkpoint) (eventIndex : ℕ) : Option Checkpoint :=
  findCheckpointFrom eventIndex none checkpoints

/-- The values `SeekPlaybackUs` collects for a target: from the checkpoint it finds, over the
events between the two. -/
def reconstruct (events : List ReplayEvent) (targetIndex : ℕ) : LatestByKey :=
  match findCheckpointForEvent (buildCheckpoints events) targetIndex with
  | some cp =>
    ((events.drop cp.eventIndex).take (targetIndex - cp.eventIndex)).foldl latestByKeyStep
      cp.latestByKey
  | none => (events.take targetIndex).foldl latestByKeyStep []

/-! ### Playback -/

/-- The members of the transport that playback moves. -/
structure State (Rate : Type*) where
  running : Bool := true
  playing : Bool := false
  playbackRate : Rate
  cursorUs : ℤ := 0
  lastTickUs : ℤ := 0
  nextEventIndex : ℕ := 0
  deriving DecidableEq, Repr

variable {Rate : Type*} (playbackDelta : Rate → ℤ → ℤ) (session : Session)

/-- The critical section of `SeekPlaybackUs`, with the updates it publishes afterwards. -/
def seek (s : State Rate) (cursorUs nowUs : ℤ) : State Rate × List VariableUpdate :=
  let clampedCursorUs := clamp cursorUs 0 session.durationUs
  let targetIndex := findFirstEventAfterTime session.events clampedCursorUs
  ({ s with cursorUs := clampedCursorUs, nextEventIndex := targetIndex, lastTickUs := nowUs },
    reconstruct session.events targetIndex)

/-- The events at and after `nextEventIndex` that an iteration walks over, up to `endIndex`. -/
def walked (s : State Rate) (endIndex : ℕ) : List ReplayEvent :=
  (session.events.drop s.nextEventIndex).take (endIndex - s.nextEventIndex)

/-- The updates of the walked data events that the old cursor had not passed. -/
def collected (oldCursor : ℤ) (events : List ReplayEvent) : List VariableUpdate :=
  (events.filter fun event => event.kind = .data ∧ oldCursor ≤ event.timestampUs).map
    ReplayEvent.update

/-- The critical section of one iteration of `RunPlaybackLoop`, with the updates it publishes
afterwards. A transport that was stopped has left the loop. -/
def tick (s : State Rate) (nowUs : ℤ) : State Rate × List VariableUpdate :=
  if ¬s.running then (s, [])
  else if ¬s.playing then ({ s with lastTickUs := nowUs }, [])
  else
    let deltaUs := max 0 (nowUs - s.lastTickUs)
    let cursorUs := clamp (s.cursorUs + playbackDelta s.playbackRate deltaUs) 0 session.durationUs
    let endIndex := findFirstEventAfterTime session.events cursorUs
    ({ s with
        lastTickUs := nowUs
        cursorUs := cursorUs
        nextEventIndex := max s.nextEventIndex endIndex
        playing := if session.durationUs ≤ cursorUs then false else s.playing },
      collected s.cursorUs (walked session s endIndex))

def setPlaybackPlaying (s : State Rate) (isPlaying : Bool) (nowUs : ℤ) : State Rate :=
  if ¬s.running then s else { s with playing := isPlaying, lastTickUs := nowUs }

def setPlaybackRate (s : State Rate) (rate : Rate) (nowUs : ℤ) : State Rate :=
  if ¬s.running then s else { s with playbackRate := rate, lastTickUs := nowUs }

end SmartDashboard.Transport.Replay
