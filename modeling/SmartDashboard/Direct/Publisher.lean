import Mathlib.Data.Fintype.Basic
import Mathlib.Data.List.AList
import SmartDashboard.Direct.Channel

/-!
# The direct publisher

`DirectPublisherStub` between `Start` and `Stop`. `StorePending` and the replay of the retained
snapshot each take `m_retainedMutex` and `m_pendingMutex` one after the other; `FlushNow` swaps
`m_pending` out under its mutex and then writes to the ring under none. Each critical section is one
step, and so is each step of `WriteUpsert`.

## Main definitions

- `Publisher`: the fields of the stub, and where its callers are
- `Publisher.next`: one step of one caller, or of a subscriber on the channel
-/

namespace SmartDashboard.Direct

/-- `PendingValue`. `call` numbers the calls of `StorePending` in the order in which they reached
`m_retained`; no step reads it. -/
structure PendingValue where
  type : ValueType
  value : VariableValue
  call : ℕ
  deriving DecidableEq

/-- An entry of `m_pending` or `m_retained`. -/
abbrev PendingEntry := Sigma fun _ : ByteString => PendingValue

/-- A `std::unordered_map<std::string, PendingValue>`. -/
abbrev PendingMap := AList fun _ : ByteString => PendingValue

/-- The two callers of `FlushNow`: the worker in `RunLoop`, and the application. -/
inductive Caller
  | worker
  | application
  deriving DecidableEq

instance : Fintype Caller := ⟨{.worker, .application}, fun c => by cases c <;> decide⟩

/-- Where the worker is in `MaybeReplayRetainedSnapshot`. -/
inductive ReplayPc
  | idle
  | copying
  | merging (retainedCopy : PendingMap)
  deriving DecidableEq

/-- The publisher. `κ` names the callers that may be inside `StorePending` at the same time.
`flush` holds what a running `FlushNow` still has to write, `storing` what a caller between the two
sections of `StorePending` still has to store, and `taken` what was swapped out of `m_pending`;
no step reads `taken` or `calls`. -/
structure Publisher (κ ι : Type*) where
  channel : Channel Caller ι
  pending : PendingMap := ∅
  retained : PendingMap := ∅
  publishedSeq : UInt64 := 0
  droppedCount : UInt64 := 0
  consumerWasActive : Bool := false
  lastObservedConsumerInstanceId : UInt64 := 0
  flush : Caller → Option (List PendingEntry) := fun _ => none
  replay : ReplayPc := .idle
  storing : κ → Option PendingEntry := fun _ => none
  calls : ℕ := 0
  taken : List PendingEntry := []

/-- `lastProducerHeartbeatUs.store(nowUs)`. -/
def Ring.storeProducerHeartbeat (ring : Ring) (nowUs : UInt64) : Ring :=
  { ring with header := { ring.header with lastProducerHeartbeatUs := nowUs } }

namespace Publisher

/-- One step of one caller; `order` is the order in which the map is iterated. -/
inductive Action (κ ι : Type*)
  | storeRetained (t : κ) (key : ByteString) (type : ValueType) (value : VariableValue)
  | storePending (t : κ)
  | replayCheck (nowUs : UInt64)
  | replayCopy
  | replayMerge
  | swap (c : Caller) (order : List PendingEntry)
  | beginWrite (c : Caller) (nowUs : UInt64)
  | write (c : Caller) (nowUs : UInt64)
  | endWrite (c : Caller)
  | endFlush (c : Caller) (nowUs : UInt64)
  | start (i : ι) (instanceId : UInt64)
  | read (i : ι) (waitFailed : Bool) (nowUs : UInt64)
  | stop (i : ι)

variable {κ ι : Type*}

/-- The caller of `FlushNow` that takes the step. -/
def Action.flusher : Action κ ι → Option Caller
  | .swap c _ | .beginWrite c _ | .write c _ | .endWrite c | .endFlush c _ => some c
  | .storeRetained _ _ _ _ | .storePending _ | .replayCheck _ | .replayCopy | .replayMerge
  | .start _ _ | .read _ _ _ | .stop _ => none

/-! ### MaybeReplayRetainedSnapshot -/

def consumerActive (header : RingHeader) (nowUs : UInt64) : Bool :=
  header.lastConsumerHeartbeatUs != 0 && header.lastConsumerHeartbeatUs ≤ nowUs &&
    nowUs - header.lastConsumerHeartbeatUs ≤ 500000

def consumerChanged (s : Publisher κ ι) : Bool :=
  s.channel.ring.header.consumerInstanceId != 0 &&
    s.channel.ring.header.consumerInstanceId != s.lastObservedConsumerInstanceId

/-- The part before the first lock: is there a consumer that has not seen the snapshot? -/
def checkReplay (s : Publisher κ ι) (nowUs : UInt64) : Publisher κ ι :=
  let consumerInstanceId := s.channel.ring.header.consumerInstanceId
  let observed :=
    if consumerInstanceId != 0 then consumerInstanceId else s.lastObservedConsumerInstanceId
  if !consumerActive s.channel.ring.header nowUs then
    { s with consumerWasActive := false, lastObservedConsumerInstanceId := observed }
  else if s.consumerWasActive && !s.consumerChanged then s
  else
    { s with
      consumerWasActive := true
      lastObservedConsumerInstanceId := observed
      replay := .copying }

/-- The loop over the copy: every key of it is overwritten. -/
def mergeRetained (retainedCopy pending : PendingMap) : PendingMap :=
  retainedCopy.foldl (fun pending key value => pending.insert key value) pending

/-! ### Steps -/

/-- The update that `FlushNow` hands to `WriteUpsert` for an entry. -/
def upsert (e : PendingEntry) (seq nowUs : UInt64) : VariableUpdate where
  key := e.1
  type := e.2.type
  value := e.2.value
  seq := seq
  sourceTimestampUs := nowUs

variable [DecidableEq κ] [DecidableEq ι]

/-- A step of the channel that the publisher takes no note of. -/
def onChannel (s : Publisher κ ι) (a : Direct.Action Caller ι) : Option (Publisher κ ι) :=
  (s.channel.next a).map fun channel => { s with channel := channel }

def next (s : Publisher κ ι) : Action κ ι → Option (Publisher κ ι)
  | .storeRetained t key type value =>
    match s.storing t with
    | some _ => none
    | none =>
      let pending : PendingValue := { type := type, value := value, call := s.calls }
      some { s with
        retained := s.retained.insert key pending
        storing := Function.update s.storing t (some ⟨key, pending⟩)
        calls := s.calls + 1 }
  | .storePending t =>
    match s.storing t with
    | none => none
    | some ⟨key, pending⟩ =>
      some { s with
        pending := s.pending.insert key pending
        storing := Function.update s.storing t none }
  | .replayCheck nowUs =>
    -- the worker replays and flushes in turn
    if s.replay = .idle ∧ s.flush .worker = none then some (s.checkReplay nowUs) else none
  | .replayCopy =>
    match s.replay with
    | .copying =>
      some { s with
        replay := if s.retained.entries.isEmpty then .idle else .merging s.retained }
    | _ => none
  | .replayMerge =>
    match s.replay with
    | .merging retainedCopy =>
      some { s with pending := mergeRetained retainedCopy s.pending, replay := .idle }
    | _ => none
  | .swap c order =>
    if s.flush c = none ∧ (c = .worker → s.replay = .idle) ∧ order.Perm s.pending.entries then
      some { s with
        pending := ∅
        flush := Function.update s.flush c (some order)
        taken := s.taken ++ order }
    else none
  | .beginWrite c nowUs =>
    match s.flush c with
    | some (e :: rest) =>
      (s.channel.next (.call c (upsert e (s.publishedSeq + 1) nowUs))).map fun channel =>
        { s with
          channel := channel
          publishedSeq := s.publishedSeq + 1
          flush := Function.update s.flush c (some rest) }
    | _ => none
  | .write c nowUs => s.onChannel (.write c nowUs)
  | .endWrite c =>
    match s.channel.writers c with
    | .returned wrote dropped =>
      (s.channel.next (.leave c)).map fun channel =>
        { s with
          channel := channel
          droppedCount := if wrote then s.droppedCount else dropped }
    | _ => none
  | .endFlush c nowUs =>
    match s.flush c, s.channel.writers c with
    | some [], .idle =>
      some { s with
        channel := { s.channel with ring := s.channel.ring.storeProducerHeartbeat nowUs }
        flush := Function.update s.flush c none }
    | _, _ => none
  | .start i instanceId => s.onChannel (.start i instanceId)
  | .read i waitFailed nowUs => s.onChannel (.read i waitFailed nowUs)
  | .stop i => s.onChannel (.stop i)

/-! ### What the steps do -/

variable {s s' : Publisher κ ι}

theorem next_storeRetained {t : κ} {key : ByteString} {type : ValueType} {value : VariableValue}
    (hnext : s.next (.storeRetained t key type value) = some s') :
    s.storing t = none ∧
      s' = { s with
        retained := s.retained.insert key { type := type, value := value, call := s.calls }
        storing := Function.update s.storing t
          (some ⟨key, { type := type, value := value, call := s.calls }⟩)
        calls := s.calls + 1 } := by
  simp only [next] at hnext
  split at hnext
  · exact absurd hnext (by simp)
  · next hstoring => exact ⟨hstoring, (Option.some.inj hnext).symm⟩

theorem next_storePending {t : κ} (hnext : s.next (.storePending t) = some s') :
    ∃ key pending, s.storing t = some ⟨key, pending⟩ ∧
      s' = { s with
        pending := s.pending.insert key pending
        storing := Function.update s.storing t none } := by
  simp only [next] at hnext
  split at hnext
  · exact absurd hnext (by simp)
  · next key pending hstoring => exact ⟨key, pending, hstoring, (Option.some.inj hnext).symm⟩

/-- The test in front of a replay starts it or leaves the worker idle. -/
theorem next_replayCheck {nowUs : UInt64} (hnext : s.next (.replayCheck nowUs) = some s') :
    s.replay = .idle ∧ s.flush .worker = none ∧ ∃ active observed replay,
      (replay = .idle ∨ replay = .copying) ∧
      s' = { s with
        consumerWasActive := active
        lastObservedConsumerInstanceId := observed
        replay := replay } := by
  simp only [next] at hnext
  split_ifs at hnext with hidle
  obtain rfl := Option.some.inj hnext
  refine ⟨hidle.1, hidle.2, ?_⟩
  simp only [checkReplay]
  split_ifs
  all_goals
    first
    | exact ⟨_, _, _, .inr rfl, rfl⟩
    | exact ⟨_, _, _, .inl hidle.1, rfl⟩

theorem next_replayCopy (hnext : s.next .replayCopy = some s') :
    s.replay = .copying ∧
      s' = { s with
        replay := if s.retained.entries.isEmpty then .idle else .merging s.retained } := by
  simp only [next] at hnext
  split at hnext
  · next hreplay => exact ⟨hreplay, (Option.some.inj hnext).symm⟩
  · exact absurd hnext (by simp)

theorem next_replayMerge (hnext : s.next .replayMerge = some s') :
    ∃ retainedCopy, s.replay = .merging retainedCopy ∧
      s' = { s with pending := mergeRetained retainedCopy s.pending, replay := .idle } := by
  simp only [next] at hnext
  split at hnext
  · next retainedCopy hreplay => exact ⟨retainedCopy, hreplay, (Option.some.inj hnext).symm⟩
  · exact absurd hnext (by simp)

theorem next_swap {c : Caller} {order : List PendingEntry}
    (hnext : s.next (.swap c order) = some s') :
    (s.flush c = none ∧ (c = .worker → s.replay = .idle) ∧ order.Perm s.pending.entries) ∧
      s' = { s with
        pending := ∅
        flush := Function.update s.flush c (some order)
        taken := s.taken ++ order } := by
  simp only [next] at hnext
  split_ifs at hnext with hready
  exact ⟨hready, (Option.some.inj hnext).symm⟩

theorem next_beginWrite {c : Caller} {nowUs : UInt64}
    (hnext : s.next (.beginWrite c nowUs) = some s') :
    ∃ e rest channel, s.flush c = some (e :: rest) ∧
      s.channel.next (.call c (upsert e (s.publishedSeq + 1) nowUs)) = some channel ∧
      s' = { s with
        channel := channel
        publishedSeq := s.publishedSeq + 1
        flush := Function.update s.flush c (some rest) } := by
  simp only [next] at hnext
  split at hnext
  · next e rest hflush =>
    obtain ⟨channel, hcall, rfl⟩ := Option.map_eq_some_iff.mp hnext
    exact ⟨e, rest, channel, hflush, hcall, rfl⟩
  · exact absurd hnext (by simp)

theorem next_endWrite {c : Caller} (hnext : s.next (.endWrite c) = some s') :
    ∃ droppedCount channel, s.channel.next (.leave c) = some channel ∧
      s' = { s with channel := channel, droppedCount := droppedCount } := by
  simp only [next] at hnext
  split at hnext
  · obtain ⟨channel, hleave, rfl⟩ := Option.map_eq_some_iff.mp hnext
    exact ⟨_, channel, hleave, rfl⟩
  · exact absurd hnext (by simp)

theorem next_endFlush {c : Caller} {nowUs : UInt64}
    (hnext : s.next (.endFlush c nowUs) = some s') :
    s.flush c = some [] ∧ s.channel.writers c = .idle ∧
      s' = { s with
        channel := { s.channel with ring := s.channel.ring.storeProducerHeartbeat nowUs }
        flush := Function.update s.flush c none } := by
  simp only [next] at hnext
  split at hnext
  · next hflush hidle => exact ⟨hflush, hidle, (Option.some.inj hnext).symm⟩
  · exact absurd hnext (by simp)

omit [DecidableEq κ] in
theorem next_onChannel {a : Direct.Action Caller ι} (hnext : s.onChannel a = some s') :
    ∃ channel, s.channel.next a = some channel ∧ s' = { s with channel := channel } := by
  obtain ⟨channel, hstep, rfl⟩ := Option.map_eq_some_iff.mp hnext
  exact ⟨channel, hstep, rfl⟩

/-- A step outside `FlushNow` changes nothing about what is swapped out and written. -/
theorem next_of_flusher_eq_none {a : Action κ ι} (ha : a.flusher = none)
    (hnext : s.next a = some s') :
    s'.flush = s.flush ∧ s'.taken = s.taken ∧ s'.channel.writers = s.channel.writers ∧
      s'.channel.accepted = s.channel.accepted ∧ s'.channel.refused = s.channel.refused := by
  cases a with
  | swap _ _ | beginWrite _ _ | write _ _ | endWrite _ | endFlush _ _ =>
    exact absurd ha (by simp [Action.flusher])
  | storeRetained t key type value =>
    obtain ⟨-, rfl⟩ := next_storeRetained hnext
    exact ⟨rfl, rfl, rfl, rfl, rfl⟩
  | storePending t =>
    obtain ⟨key, pending, -, rfl⟩ := next_storePending hnext
    exact ⟨rfl, rfl, rfl, rfl, rfl⟩
  | replayCheck nowUs =>
    obtain ⟨-, -, active, observed, replay, -, rfl⟩ := next_replayCheck hnext
    exact ⟨rfl, rfl, rfl, rfl, rfl⟩
  | replayCopy =>
    obtain ⟨-, rfl⟩ := next_replayCopy hnext
    exact ⟨rfl, rfl, rfl, rfl, rfl⟩
  | replayMerge =>
    obtain ⟨retainedCopy, -, rfl⟩ := next_replayMerge hnext
    exact ⟨rfl, rfl, rfl, rfl, rfl⟩
  | start _ _ | read _ _ _ | stop _ =>
    obtain ⟨channel, hstep, rfl⟩ := next_onChannel hnext
    obtain ⟨hwriters, haccepted, hrefused⟩ := Channel.next_of_caller_eq_none rfl hstep
    exact ⟨rfl, rfl, hwriters, haccepted, hrefused⟩

end Publisher

end SmartDashboard.Direct
