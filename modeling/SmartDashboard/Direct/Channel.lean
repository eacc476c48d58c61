import SmartDashboard.Direct.Ring
import SmartDashboard.Library.Execution

/-!
# The direct channel

Callers of `WriteUpsert` and subscribers in their `RunLoop`, interleaved at the accesses they make
to the shared header and payload. `τ` names the callers that may be inside `WriteUpsert` at the
same time, `ι` the subscribers on the mapping.

## Main definitions

- `WriterPc`, `SubscriberPc`: where a caller and a subscriber are
- `Channel`: the ring, the parties and what has happened to the writes so far
- `Channel.next`: one step of one party
-/

namespace SmartDashboard.Direct

open Execution

/-- Where a caller is inside `WriteUpsert`. -/
inductive WriterPc
  | idle
  | testSpace (u : VariableUpdate)
  | countDrop (u : VariableUpdate)
  | loadWriteIndex (u : VariableUpdate)
  | copyFrame (u : VariableUpdate) (writeIndex : UInt32)
  | storeWriteIndex (u : VariableUpdate) (cursor : UInt32)
  | storePublished (u : VariableUpdate)
  | returned (wrote : Bool) (dropped : UInt64)
  deriving DecidableEq

/-- Where a subscriber is in `Start` and `RunLoop`. -/
inductive SubscriberPc
  | stopped
  | starting
  | waiting
  | loadWriteIndex
  | copyFrame (writeIndex : UInt32)
  | deliver (u : VariableUpdate)
  | storeReadIndex
  deriving DecidableEq

/-- A subscriber. `delivered` is what its callback was given since it started and `missed` what
had been written before; no step reads them. -/
structure Subscriber where
  pc : SubscriberPc := .stopped
  instanceId : UInt64 := 0
  readCursor : UInt32 := 0
  delivered : List VariableUpdate := []
  missed : List VariableUpdate := []
  deriving DecidableEq

/-- The ring and the parties on it. `accepted` and `refused` are the writes that were published
and those that were dropped, in order; no step reads them. -/
structure Channel (τ ι : Type*) where
  ring : Ring
  writers : τ → WriterPc
  subscribers : ι → Subscriber
  accepted : List VariableUpdate := []
  refused : List VariableUpdate := []

/-- One step of one party; `nowUs` is the reading of the clock where the step takes one. -/
inductive Action (τ ι : Type*)
  | call (t : τ) (u : VariableUpdate)
  | write (t : τ) (nowUs : UInt64)
  | leave (t : τ)
  | start (i : ι) (instanceId : UInt64)
  | read (i : ι) (waitFailed : Bool) (nowUs : UInt64)
  | stop (i : ι)

/-- The caller of `WriteUpsert` that takes the step. -/
def Action.caller {τ ι : Type*} : Action τ ι → Option τ
  | .call t _ | .write t _ | .leave t => some t
  | .start _ _ | .read _ _ _ | .stop _ => none

namespace Ring

/-- `consumerReadIndex.store(m_readCursor)`. -/
def storeReadIndex (ring : Ring) (readCursor : UInt32) : Ring :=
  { ring with header := { ring.header with consumerReadIndex := readCursor } }

/-- The stores at the end of a `RunLoop` iteration. -/
def storeConsumer (ring : Ring) (instanceId : UInt64) (readCursor : UInt32) (nowUs : UInt64) :
    Ring :=
  { ring with
    header := { ring.header with
      consumerInstanceId := instanceId
      consumerReadIndex := readCursor
      lastConsumerHeartbeatUs := nowUs } }

end Ring

/-- One step inside `WriteUpsert`. -/
def writeStep (ring : Ring) (pc : WriterPc) (nowUs : UInt64) : Option (Ring × WriterPc) :=
  match pc with
  | .idle | .returned _ _ => none
  | .testSpace u =>
    some (ring, if ring.frameFits u then .loadWriteIndex u else .countDrop u)
  | .countDrop _ => some (ring.countDrop, .returned false (ring.header.droppedCount + 1))
  | .loadWriteIndex u => some (ring, .copyFrame u ring.header.writeIndex)
  | .copyFrame u writeIndex =>
    some ((ring.copyFrame u writeIndex).1, .storeWriteIndex u (ring.copyFrame u writeIndex).2)
  | .storeWriteIndex u cursor => some (ring.storeWriteIndex cursor, .storePublished u)
  | .storePublished u =>
    some (ring.storePublished u.seq nowUs, .returned true ring.header.droppedCount)

/-- One step of a started subscriber. -/
def readStep (ring : Ring) (sub : Subscriber) (waitFailed : Bool) (nowUs : UInt64) :
    Option (Ring × Subscriber) :=
  match sub.pc with
  | .stopped => none
  | .starting => some (ring.storeReadIndex sub.readCursor, { sub with pc := .waiting })
  | .waiting =>
    some (ring, { sub with pc := if waitFailed then .storeReadIndex else .loadWriteIndex })
  | .loadWriteIndex =>
    some (ring, { sub with
      pc := if sub.readCursor = ring.header.writeIndex then .storeReadIndex
        else .copyFrame ring.header.writeIndex })
  | .copyFrame writeIndex =>
    match ring.readFrame sub.readCursor writeIndex with
    | (cursor, none) => some (ring, { sub with readCursor := cursor, pc := .storeReadIndex })
    | (cursor, some u) =>
      some (ring.storeConsumerHeartbeat nowUs, { sub with readCursor := cursor, pc := .deliver u })
  | .deliver u =>
    some (ring, { sub with delivered := sub.delivered ++ [u], pc := .loadWriteIndex })
  | .storeReadIndex =>
    some (ring.storeConsumer sub.instanceId sub.readCursor nowUs, { sub with pc := .waiting })

namespace WriterPc

/-- The write that the next step publishes. -/
def publishes : WriterPc → List VariableUpdate
  | .storeWriteIndex u _ => [u]
  | _ => []

/-- The write that the next step drops. -/
def drops : WriterPc → List VariableUpdate
  | .countDrop u => [u]
  | _ => []

/-- The write that is neither published nor dropped yet. -/
def holds : WriterPc → List VariableUpdate
  | .testSpace u | .countDrop u | .loadWriteIndex u | .copyFrame u _ | .storeWriteIndex u _ => [u]
  | .idle | .storePublished _ | .returned _ _ => []

end WriterPc

namespace Channel

variable {τ ι : Type*} [DecidableEq τ] [DecidableEq ι]

def next (s : Channel τ ι) : Action τ ι → Option (Channel τ ι)
  | .call t u =>
    if s.writers t = .idle then
      some { s with writers := Function.update s.writers t (.testSpace u) }
    else none
  | .write t nowUs =>
    (writeStep s.ring (s.writers t) nowUs).map fun result =>
      { s with
        ring := result.1
        writers := Function.update s.writers t result.2
        accepted := s.accepted ++ (s.writers t).publishes
        refused := s.refused ++ (s.writers t).drops }
  | .leave t =>
    match s.writers t with
    | .returned _ _ => some { s with writers := Function.update s.writers t .idle }
    | _ => none
  | .start i instanceId =>
    if (s.subscribers i).pc = .stopped then
      some { s with
        subscribers := Function.update s.subscribers i
          { pc := .starting
            instanceId := instanceId
            readCursor := s.ring.header.writeIndex
            missed := s.accepted } }
    else none
  | .read i waitFailed nowUs =>
    (readStep s.ring (s.subscribers i) waitFailed nowUs).map fun result =>
      { s with
        ring := result.1
        subscribers := Function.update s.subscribers i result.2 }
  | .stop i =>
    if (s.subscribers i).pc = .waiting then
      some { s with
        subscribers := Function.update s.subscribers i { s.subscribers i with pc := .stopped } }
    else none

/-! ### What the steps do -/

/-- A step inside `WriteUpsert` publishes the write, drops it, or still holds it. -/
theorem holds_writeStep {ring ring' : Ring} {pc pc' : WriterPc} {nowUs : UInt64}
    (hstep : writeStep ring pc nowUs = some (ring', pc')) :
    pc.holds = pc.publishes ++ pc.drops ++ pc'.holds := by
  cases pc with
  | idle | returned _ _ => exact absurd hstep (by simp [writeStep])
  | testSpace u =>
    obtain rfl := congrArg Prod.snd (Option.some.inj hstep)
    show [u] = WriterPc.holds (if ring.frameFits u then .loadWriteIndex u else .countDrop u)
    split_ifs <;> rfl
  | countDrop u | loadWriteIndex u | copyFrame u _ | storeWriteIndex u _ | storePublished u =>
    obtain rfl := congrArg Prod.snd (Option.some.inj hstep)
    rfl

variable {s s' : Channel τ ι}

theorem next_call {t : τ} {u : VariableUpdate} (hnext : s.next (.call t u) = some s') :
    s.writers t = .idle ∧
      s' = { s with writers := Function.update s.writers t (.testSpace u) } := by
  simp only [next] at hnext
  split_ifs at hnext with hpc
  exact ⟨hpc, (Option.some.inj hnext).symm⟩

theorem next_write {t : τ} {nowUs : UInt64} (hnext : s.next (.write t nowUs) = some s') :
    ∃ ring pc, writeStep s.ring (s.writers t) nowUs = some (ring, pc) ∧
      s' = { s with
        ring := ring
        writers := Function.update s.writers t pc
        accepted := s.accepted ++ (s.writers t).publishes
        refused := s.refused ++ (s.writers t).drops } := by
  simp only [next, Option.map_eq_some_iff] at hnext
  obtain ⟨⟨ring, pc⟩, hstep, rfl⟩ := hnext
  exact ⟨ring, pc, hstep, rfl⟩

/-- What a step inside `WriteUpsert` does, by where its caller is. -/
theorem next_write_cases {t : τ} {nowUs : UInt64} (hnext : s.next (.write t nowUs) = some s') :
    (∃ u, s.writers t = .testSpace u ∧ s' = { s with
      writers := Function.update s.writers t
        (if s.ring.frameFits u then .loadWriteIndex u else .countDrop u) }) ∨
    (∃ u, s.writers t = .countDrop u ∧ s' = { s with
      ring := s.ring.countDrop
      writers := Function.update s.writers t (.returned false (s.ring.header.droppedCount + 1))
      refused := s.refused ++ [u] }) ∨
    (∃ u, s.writers t = .loadWriteIndex u ∧ s' = { s with
      writers := Function.update s.writers t (.copyFrame u s.ring.header.writeIndex) }) ∨
    (∃ u writeIndex, s.writers t = .copyFrame u writeIndex ∧ s' = { s with
      ring := (s.ring.copyFrame u writeIndex).1
      writers := Function.update s.writers t
        (.storeWriteIndex u (s.ring.copyFrame u writeIndex).2) }) ∨
    (∃ u cursor, s.writers t = .storeWriteIndex u cursor ∧ s' = { s with
      ring := s.ring.storeWriteIndex cursor
      writers := Function.update s.writers t (.storePublished u)
      accepted := s.accepted ++ [u] }) ∨
    ∃ u, s.writers t = .storePublished u ∧ s' = { s with
      ring := s.ring.storePublished u.seq nowUs
      writers := Function.update s.writers t (.returned true s.ring.header.droppedCount) } := by
  obtain ⟨ring, pc, hstep, rfl⟩ := next_write hnext
  cases hpc : s.writers t with
  | idle | returned _ _ => simp [writeStep, hpc] at hstep
  | testSpace u | countDrop u | loadWriteIndex u | copyFrame u writeIndex
  | storeWriteIndex u cursor | storePublished u =>
    rw [hpc] at hstep
    obtain ⟨rfl, rfl⟩ := Prod.mk.inj (Option.some.inj hstep)
    simp [WriterPc.publishes, WriterPc.drops]

theorem next_leave {t : τ} (hnext : s.next (.leave t) = some s') :
    ∃ wrote dropped, s.writers t = .returned wrote dropped ∧
      s' = { s with writers := Function.update s.writers t .idle } := by
  simp only [next] at hnext
  split at hnext
  · next wrote dropped hpc => exact ⟨wrote, dropped, hpc, (Option.some.inj hnext).symm⟩
  · exact absurd hnext (by simp)

theorem next_start {i : ι} {instanceId : UInt64} (hnext : s.next (.start i instanceId) = some s') :
    (s.subscribers i).pc = .stopped ∧
      s' = { s with
        subscribers := Function.update s.subscribers i
          { pc := .starting
            instanceId := instanceId
            readCursor := s.ring.header.writeIndex
            missed := s.accepted } } := by
  simp only [next] at hnext
  split_ifs at hnext with hpc
  exact ⟨hpc, (Option.some.inj hnext).symm⟩

theorem next_read {i : ι} {waitFailed : Bool} {nowUs : UInt64}
    (hnext : s.next (.read i waitFailed nowUs) = some s') :
    ∃ ring sub, readStep s.ring (s.subscribers i) waitFailed nowUs = some (ring, sub) ∧
      s' = { s with ring := ring, subscribers := Function.update s.subscribers i sub } := by
  simp only [next, Option.map_eq_some_iff] at hnext
  obtain ⟨⟨ring, sub⟩, hstep, rfl⟩ := hnext
  exact ⟨ring, sub, hstep, rfl⟩

theorem next_stop {i : ι} (hnext : s.next (.stop i) = some s') :
    (s.subscribers i).pc = .waiting ∧
      s' = { s with
        subscribers :=
          Function.update s.subscribers i { s.subscribers i with pc := .stopped } } := by
  simp only [next] at hnext
  split_ifs at hnext with hpc
  exact ⟨hpc, (Option.some.inj hnext).symm⟩

/-- A step of a subscriber changes nothing about the writes. -/
theorem next_of_caller_eq_none {a : Action τ ι} (ha : a.caller = none)
    (hnext : s.next a = some s') :
    s'.writers = s.writers ∧ s'.accepted = s.accepted ∧ s'.refused = s.refused := by
  cases a with
  | call _ _ | write _ _ | leave _ => exact absurd ha (by simp [Action.caller])
  | start i instanceId =>
    obtain ⟨-, rfl⟩ := next_start hnext
    exact ⟨rfl, rfl, rfl⟩
  | read i waitFailed nowUs =>
    obtain ⟨ring, sub, -, rfl⟩ := next_read hnext
    exact ⟨rfl, rfl, rfl⟩
  | stop i =>
    obtain ⟨-, rfl⟩ := next_stop hnext
    exact ⟨rfl, rfl, rfl⟩

end Channel

/-! ### The two functions without interruption -/

/-- The steps of one caller alone. -/
def writeAlone (state : Ring × WriterPc) (nowUs : UInt64) : Option (Ring × WriterPc) :=
  writeStep state.1 state.2 nowUs

/-- Undisturbed, the steps of a caller are `WriteUpsert`. -/
theorem run_writeAlone {ring : Ring} (hcap : ring.capacity ≠ 0) (u : VariableUpdate)
    (nowUs : UInt64) :
    ∃ steps, run writeAlone (ring, .testSpace u) (List.replicate steps nowUs) =
      some ((ring.writeUpsert u nowUs).1,
        .returned (ring.writeUpsert u nowUs).2.1 ((ring.writeUpsert u nowUs).2.2.getD 0)) := by
  cases hfits : ring.frameFits u with
  | false =>
    refine ⟨2, ?_⟩
    simp [run, writeAlone, writeStep, Ring.writeUpsert, hcap, hfits, Ring.countDrop,
      List.replicate]
  | true =>
    refine ⟨5, ?_⟩
    simp [run, writeAlone, writeStep, Ring.writeUpsert, hcap, hfits, List.replicate]
    rfl

/-- Undisturbed, the load and the copy of a subscriber are `ReadNextUpsert`. -/
theorem run_readStep {ring : Ring} (hcap : ring.capacity ≠ 0) (sub : Subscriber)
    (hpc : sub.pc = .loadWriteIndex) (nowUs : UInt64) :
    ∃ steps ring' sub',
      run (fun state nowUs => readStep state.1 state.2 false nowUs) (ring, sub)
        (List.replicate steps nowUs) = some (ring', sub') ∧
      ring.readNextUpsert sub.readCursor nowUs =
        (ring', sub'.readCursor, match sub'.pc with | .deliver u => some u | _ => none) := by
  by_cases hempty : sub.readCursor = ring.header.writeIndex
  · refine ⟨1, ring, { sub with pc := .storeReadIndex }, ?_, ?_⟩
    · simp [run, readStep, hpc, hempty, List.replicate]
    · simp [Ring.readNextUpsert, hcap, hempty]
  · cases hframe : ring.readFrame sub.readCursor ring.header.writeIndex with
    | mk cursor update =>
      cases update with
      | none =>
        refine ⟨2, ring, { sub with readCursor := cursor, pc := .storeReadIndex }, ?_, ?_⟩
        · simp [run, readStep, hpc, hempty, hframe, List.replicate]
        · simp [Ring.readNextUpsert, hcap, hempty, hframe]
      | some u =>
        refine ⟨2, ring.storeConsumerHeartbeat nowUs,
          { sub with readCursor := cursor, pc := .deliver u }, ?_, ?_⟩
        · simp [run, readStep, hpc, hempty, hframe, List.replicate]
        · simp [Ring.readNextUpsert, hcap, hempty, hframe]

end SmartDashboard.Direct
