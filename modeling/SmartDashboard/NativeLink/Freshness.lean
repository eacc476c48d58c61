import Mathlib.Algebra.Group.Int.Defs
import SmartDashboard.NativeLink.Provenance
import SmartDashboard.NativeLink.Session

/-!
# Freshness in snapshots

A run of the authority in which snapshots are taken, by clients that connect and by direct calls of
`BuildSnapshotForClient`. The age a snapshot shows for a value is the time since its write was
accepted, as long as the milliseconds fit an `int`. The test for staleness is made before they are
cut to one, so from `2 ^ 31` milliseconds on the two disagree.

## Main definitions

- `snapshotStep`: a call or a snapshot, and the updates of the snapshot it answers with
- `acceptedAt`: when the last write to a topic was accepted
- `Fresh`: the ages and the staleness that the snapshots of a run show are those of the values
- `Prompt`: no snapshot of the run shows a value that is `2 ^ 31` milliseconds old

## Main results

- `storedTime_after`: the stored time is that of the last accepted write
- `fresh_iff`: the snapshots of a run show the ages if and only if the run is prompt
-/

namespace SmartDashboard.NativeLink

open FirstMatch Execution

/-- A step of a run with snapshots. -/
inductive SnapshotStep
  | perform (call : Call)
  | buildSnapshot (clientId : ByteString) (clock : ℕ → TimePoint)

namespace SnapshotStep

/-- The readings of the clock during the step. A step takes finitely many of them. -/
def clock : SnapshotStep → ℕ → TimePoint
  | .perform call => call.clock
  | .buildSnapshot _ clock => clock

/-- The step answers with a snapshot. -/
def takesSnapshot : SnapshotStep → Bool
  | .perform ⟨.connectClient _, _⟩ => true
  | .perform _ => false
  | .buildSnapshot _ _ => true

end SnapshotStep

abbrev SnapshotRecord := Record NativeLinkCore SnapshotStep (List UpdateEnvelope)

/-- The clock is monotone: it does not go back from a step to a later one. -/
def Chronological (steps : List SnapshotStep) : Prop :=
  steps.Pairwise fun a b => ∀ i j, a.clock i ≤ b.clock j

namespace NativeLinkCore

/-- What a step leaves, and the updates of the snapshot it answers with. -/
def snapshotStep (core : NativeLinkCore) : SnapshotStep → NativeLinkCore × List UpdateEnvelope
  | .perform call =>
    ((core.perform call).1,
      match (core.perform call).2 with
      | .session view => snapshotUpdates view
      | _ => [])
  | .buildSnapshot clientId clock =>
    (core, snapshotUpdates ⟨core.buildSnapshotForClient clock clientId⟩)

/-- The topics whose values a snapshot shows, in its order. -/
def replayedTopics (core : NativeLinkCore) : List TopicRuntime := core.topics.filter isReplayed

/-- The topic and the time of the write that was accepted in a step. -/
def acceptance (r : SnapshotRecord) : Option (ByteString × TimePoint) :=
  match r.input with
  | .perform call =>
    (acceptedWrite ⟨r.before, call, (r.before.perform call).2⟩).map fun w =>
      (w.topicPath, call.clock 0)
  | .buildSnapshot _ _ => none

/-- When the last write to the topic `p` was accepted. -/
def acceptedAt (p : ByteString) (records : List SnapshotRecord) : Option TimePoint :=
  ((records.filterMap acceptance).reverse.find? fun a => a.1 = p).map Prod.snd

/-- The snapshots of a run show the values with a time to live as old as they are, in whole
milliseconds since their writes were accepted, and as stale exactly if they are older than they may
be; and from one accepted write to the next no topic gets younger or fresh again. -/
structure Fresh (records : List SnapshotRecord) : Prop where
  age : ∀ front r back, records = front ++ r :: back → ∀ k e, r.output[k]? = some e →
    0 < e.ttlMs → ∃ accepted, acceptedAt e.topicPath front = some accepted ∧
      0 ≤ e.ageMsAtEmit.toInt ∧
      e.ageMsAtEmit.toInt = (r.input.clock k - accepted) / 1000000
  stale : ∀ r ∈ records, ∀ e ∈ r.output, 0 < e.ttlMs →
    (e.isStale = true ↔ e.ttlMs.toInt < e.ageMsAtEmit.toInt)
  monotone : ∀ front r mid r' back, records = front ++ r :: (mid ++ r' :: back) →
    ∀ e ∈ r.output, ∀ e' ∈ r'.output, e'.topicPath = e.topicPath → 0 < e.ttlMs →
    (∀ s ∈ mid, ∀ a, acceptance s = some a → a.1 ≠ e.topicPath) →
      e.ageMsAtEmit.toInt ≤ e'.ageMsAtEmit.toInt ∧ (e.isStale = true → e'.isStale = true)

/-- Every snapshot of a run shows a value with a time to live earlier than `2 ^ 31` milliseconds
after its write was accepted. -/
def Prompt (records : List SnapshotRecord) : Prop :=
  ∀ front r back, records = front ++ r :: back → r.input.takesSnapshot → ∀ k topic,
    r.before.replayedTopics[k]? = some topic → 0 < topic.descriptor.ttlMs →
    ∀ accepted, acceptedAt topic.descriptor.topicPath front = some accepted →
      (r.input.clock k - accepted) / 1000000 < 2 ^ 31

/-! ### What a snapshot shows -/

section Snapshot

variable {core : NativeLinkCore}

theorem buildEnvelope_congr {core' : NativeLinkCore}
    (h : core'.serverSessionId = core.serverSessionId) (now : TimePoint) (topic : TopicRuntime)
    (deliveryKind : DeliveryKind) (serverSequence : UInt64) :
    core'.buildEnvelope now topic deliveryKind serverSequence =
      core.buildEnvelope now topic deliveryKind serverSequence := by
  simp only [buildEnvelope, h]

@[simp] theorem ttlMs_buildEnvelope (now : TimePoint) (topic : TopicRuntime)
    (deliveryKind : DeliveryKind) (serverSequence : UInt64) :
    (core.buildEnvelope now topic deliveryKind serverSequence).ttlMs = topic.descriptor.ttlMs := by
  simp only [buildEnvelope]
  split_ifs <;> rfl

section TimeToLive

variable {topic : TopicRuntime} (httl : 0 < topic.descriptor.ttlMs) (now : TimePoint)
  (deliveryKind : DeliveryKind) (serverSequence : UInt64)

include httl

theorem ageMsAtEmit_buildEnvelope :
    (core.buildEnvelope now topic deliveryKind serverSequence).ageMsAtEmit =
      Int32.ofInt (ageMs topic now) := by
  simp only [buildEnvelope, if_pos httl]
  split_ifs <;> rfl

theorem isStale_buildEnvelope :
    (core.buildEnvelope now topic deliveryKind serverSequence).isStale = true ↔
      topic.descriptor.ttlMs.toInt < ageMs topic now := by
  simp only [buildEnvelope, if_pos httl, ageMs]
  split_ifs with hage <;> simp [hage]

end TimeToLive

theorem getElem?_updateEvents (clock : ℕ → TimePoint) (topics : List TopicRuntime)
    (reading k : ℕ) :
    ((core.updateEvents clock topics reading).map SnapshotEvent.update)[k]? =
      (topics.filter isReplayed)[k]?.map fun topic =>
        core.buildEnvelope (clock (reading + k)) topic .snapshotState 0 := by
  induction topics generalizing reading k with
  | nil => rfl
  | cons topic topics ih =>
    simp only [updateEvents]
    split_ifs with hreplayed
    · rw [List.filter_cons_of_pos hreplayed]
      cases k with
      | zero => rfl
      | succ k =>
        rw [List.map_cons, List.getElem?_cons_succ, List.getElem?_cons_succ, ih,
          Nat.add_assoc, Nat.add_comm 1]
    · rw [List.filter_cons_of_neg hreplayed, ih]

/-- The updates of a snapshot are the replayed topics, each read at its own reading. -/
theorem getElem?_snapshotUpdates (clock : ℕ → TimePoint) (c : ByteString) (k : ℕ) :
    (snapshotUpdates ⟨core.buildSnapshotForClient clock c⟩)[k]? =
      core.replayedTopics[k]?.map fun topic =>
        core.buildEnvelope (clock k) topic .snapshotState 0 := by
  rw [snapshotUpdates_buildSnapshot, getElem?_updateEvents, Nat.zero_add]
  rfl

/-- What a step answers with. -/
theorem getElem?_snapshotStep (core : NativeLinkCore) (step : SnapshotStep) (k : ℕ) :
    (core.snapshotStep step).2[k]? =
      if step.takesSnapshot then
        core.replayedTopics[k]?.map fun topic =>
          core.buildEnvelope (step.clock k) topic .snapshotState 0
      else none := by
  cases step with
  | buildSnapshot clientId clock => exact getElem?_snapshotUpdates clock clientId k
  | perform call =>
    obtain ⟨request, clock⟩ := call
    cases request with
    | connectClient c =>
      -- the snapshot is that of the state in which the client is connected
      have hshown : (core.snapshotStep (.perform ⟨.connectClient c, clock⟩)).2[k]? =
          (core.connectClient clock c).1.replayedTopics[k]?.map fun topic =>
            (core.connectClient clock c).1.buildEnvelope (clock k) topic .snapshotState 0 :=
        getElem?_snapshotUpdates clock c k
      have htopics : (core.connectClient clock c).1.replayedTopics = core.replayedTopics :=
        congrArg (List.filter isReplayed) (topics_connectClient clock)
      have hsession : (core.connectClient clock c).1.serverSessionId = core.serverSessionId := by
        simp only [connectClient]
        split_ifs <;> rfl
      simp only [htopics, buildEnvelope_congr hsession] at hshown
      exact hshown
    | registerTopic _ | acquireLease _ _ | releaseLease _ _ | disconnectClient _ | publish _ _ _
    | publishFromServer _ _ | drainClientEvents _ | beginNewSession => rfl

end Snapshot

/-! ### When a value was accepted -/

section Acceptance

variable {core : NativeLinkCore} {p : ByteString} {records : List SnapshotRecord}

theorem acceptedAt_append_singleton (r : SnapshotRecord) :
    acceptedAt p (records ++ [r]) =
      match acceptance r with
      | none => acceptedAt p records
      | some a => if a.1 = p then some a.2 else acceptedAt p records := by
  simp only [acceptedAt, List.filterMap_append, List.reverse_append]
  cases ha : acceptance r with
  | none => simp [ha]
  | some a => by_cases hp : a.1 = p <;> simp [ha, hp]

/-- Steps in which no write to the topic was accepted. -/
theorem acceptedAt_append_of_ne {mid : List SnapshotRecord}
    (hmid : ∀ s ∈ mid, ∀ a, acceptance s = some a → a.1 ≠ p) :
    acceptedAt p (records ++ mid) = acceptedAt p records := by
  induction mid using List.reverseRecOn with
  | nil => rw [List.append_nil]
  | append_singleton mid r ih =>
    rw [List.forall_mem_append] at hmid
    rw [← List.append_assoc, acceptedAt_append_singleton]
    have hlast := hmid.2 r List.mem_cons_self
    cases ha : acceptance r with
    | none => exact ih hmid.1
    | some a => exact (if_neg (hlast a ha)).trans (ih hmid.1)

/-- The time is a reading of a step of the run. -/
theorem exists_of_acceptedAt {accepted : TimePoint} (h : acceptedAt p records = some accepted) :
    ∃ r ∈ records, accepted = r.input.clock 0 := by
  obtain ⟨a, ha, rfl⟩ := Option.map_eq_some_iff.mp h
  obtain ⟨r, hr, hacceptance⟩ := List.mem_filterMap.mp
    (List.mem_reverse.mp (List.mem_of_find?_eq_some ha))
  refine ⟨r, hr, ?_⟩
  unfold acceptance at hacceptance
  split at hacceptance
  · next call hcall =>
    obtain ⟨w, -, rfl⟩ := Option.map_eq_some_iff.mp hacceptance
    rw [hcall]
    rfl
  · cases hacceptance

/-- A step that answers with a snapshot accepts no write. -/
theorem acceptance_of_takesSnapshot {r : SnapshotRecord} (h : r.input.takesSnapshot) :
    acceptance r = none := by
  unfold acceptance
  split
  · next call hcall =>
    obtain ⟨request, clock⟩ := call
    rw [hcall] at h
    cases request with
    | connectClient c => rfl
    | registerTopic _ | acquireLease _ _ | releaseLease _ _ | disconnectClient _ | publish _ _ _
    | publishFromServer _ _ | drainClientEvents _ | beginNewSession =>
      exact absurd h Bool.false_ne_true
  · rfl

theorem WellFormed.snapshotStep (core : NativeLinkCore) (step : SnapshotStep)
    (h : WellFormed core) : WellFormed (core.snapshotStep step).1 := by
  cases step with
  | perform call => exact h.perform core call
  | buildSnapshot clientId clock => exact h

/-- A topic with a value stores when its last write was accepted. -/
theorem storedTime_after (steps : List SnapshotStep) (p : ByteString) :
    ((after NativeLinkCore.snapshotStep {} steps).storedTopic p).map TopicRuntime.latestValueTime =
      acceptedAt p (history NativeLinkCore.snapshotStep {} steps) := by
  induction steps using List.reverseRecOn with
  | nil => rfl
  | append_singleton steps step ih =>
    rw [after_append, history_append, after_cons, after_nil, history_cons, history_nil,
      acceptedAt_append_singleton, ← ih]
    cases step with
    | buildSnapshot clientId clock => rfl
    | perform call =>
      simp only [acceptance, NativeLinkCore.snapshotStep]
      rcases storedTopic_perform (p := p) (after NativeLinkCore.snapshotStep {} steps) call with
        ⟨hnone, hsame⟩ | ⟨w, topic, hw, -, hstored⟩
      · rw [hnone, hsame]
        rfl
      · rw [hw, hstored]
        by_cases hp : w.topicPath = p
        · simp [hp, unleased, storeLatest]
        · simp [hp]

theorem wellFormed_after_snapshotStep (steps : List SnapshotStep) :
    WellFormed (after NativeLinkCore.snapshotStep {} steps) :=
  after_induction WellFormed.snapshotStep WellFormed.init steps

theorem WellFormed.findTopic_of_getElem? (h : WellFormed core) {k : ℕ} {topic : TopicRuntime}
    (htopic : core.replayedTopics[k]? = some topic) :
    core.findTopic topic.descriptor.topicPath = some topic :=
  find?_eq_some_of_mem h.topicPaths (List.mem_filter.mp (List.mem_of_getElem? htopic)).1

/-- A snapshot of a run shows a value whose write was accepted, and stores when. -/
theorem shown_of_getElem? {steps : List SnapshotStep} {front back : List SnapshotRecord}
    {r : SnapshotRecord}
    (hsplit : history NativeLinkCore.snapshotStep {} steps = front ++ r :: back) {k : ℕ}
    {topic : TopicRuntime} (htopic : r.before.replayedTopics[k]? = some topic) :
    acceptedAt topic.descriptor.topicPath front = some topic.latestValueTime := by
  obtain ⟨before, step, behind, rfl, rfl, rfl, rfl⟩ := exists_split_of_history_eq hsplit
  have hreplayed := (List.mem_filter.mp (List.mem_of_getElem? htopic)).2
  have hvalue : topic.hasLatestValue = true := by
    simp only [isReplayed, Bool.and_eq_true] at hreplayed
    exact hreplayed.1.1.1
  have hfound := (wellFormed_after_snapshotStep before).findTopic_of_getElem? htopic
  rw [← storedTime_after]
  simp [storedTopic, hfound, unleased, hvalue]

end Acceptance

/-! ### Runs -/

section Runs

variable {steps : List SnapshotStep} {front back : List SnapshotRecord} {r : SnapshotRecord}

/-- What a snapshot of a run shows of its k-th topic. -/
theorem exists_of_getElem?_output
    (hsplit : history NativeLinkCore.snapshotStep {} steps = front ++ r :: back) {k : ℕ}
    {e : UpdateEnvelope} (he : r.output[k]? = some e) :
    r.input.takesSnapshot ∧ ∃ topic, r.before.replayedTopics[k]? = some topic ∧
      e = r.before.buildEnvelope (r.input.clock k) topic .snapshotState 0 := by
  obtain ⟨before, step, behind, -, -, rfl, -⟩ := exists_split_of_history_eq hsplit
  rw [getElem?_snapshotStep] at he
  split_ifs at he with htakes
  obtain ⟨topic, htopic, rfl⟩ := Option.map_eq_some_iff.mp he
  exact ⟨htakes, topic, htopic, rfl⟩

/-- A topic keeps its descriptor. -/
theorem descriptor_after_snapshotStep {core : NativeLinkCore} {p : ByteString}
    {topic : TopicRuntime} (htopic : core.findTopic p = some topic) (steps : List SnapshotStep) :
    ∃ topic', (after NativeLinkCore.snapshotStep core steps).findTopic p = some topic' ∧
      topic'.descriptor = topic.descriptor := by
  refine after_induction (P := fun s : NativeLinkCore => ∃ topic', s.findTopic p = some topic' ∧
    topic'.descriptor = topic.descriptor) ?_ ⟨topic, htopic, rfl⟩ steps
  rintro s (call | ⟨clientId, clock⟩) ⟨t, ht, hdescriptor⟩
  · obtain ⟨t', ht', hsame⟩ := descriptor_perform call ht
    exact ⟨t', ht', hsame.trans hdescriptor⟩
  · exact ⟨t, ht, hdescriptor⟩

/-- Two snapshots of a run show a topic with the same time to live. -/
theorem ttlMs_eq_of_mem_output {mid : List SnapshotRecord} {r' : SnapshotRecord}
    (hsplit : history NativeLinkCore.snapshotStep {} steps = front ++ r :: (mid ++ r' :: back))
    {e e' : UpdateEnvelope} (he : e ∈ r.output) (he' : e' ∈ r'.output)
    (hpath : e'.topicPath = e.topicPath) : e'.ttlMs = e.ttlMs := by
  obtain ⟨k, hk⟩ := List.mem_iff_getElem?.mp he
  obtain ⟨k', hk'⟩ := List.mem_iff_getElem?.mp he'
  have hsplit' : history NativeLinkCore.snapshotStep {} steps =
      (front ++ r :: mid) ++ r' :: back := by
    rw [hsplit, List.append_assoc]
    rfl
  obtain ⟨-, topic, htopic, rfl⟩ := exists_of_getElem?_output hsplit hk
  obtain ⟨-, topic', htopic', rfl⟩ := exists_of_getElem?_output hsplit' hk'
  rw [topicPath_buildEnvelope, topicPath_buildEnvelope] at hpath
  obtain ⟨before, step, behind, -, -, rfl, hrest⟩ := exists_split_of_history_eq hsplit
  obtain ⟨between, step', -, -, -, rfl, -⟩ := exists_split_of_history_eq hrest.symm
  -- the later snapshot meets the state that the steps in between lead to
  have hfound := (wellFormed_after_snapshotStep before).findTopic_of_getElem? htopic
  have hstate : after NativeLinkCore.snapshotStep (NativeLinkCore.snapshotStep
      (after NativeLinkCore.snapshotStep {} before) step).1 between =
      after NativeLinkCore.snapshotStep {} (before ++ step :: between) :=
    (after_append NativeLinkCore.snapshotStep {} before (step :: between)).symm
  have hwell := wellFormed_after_snapshotStep (before ++ step :: between)
  rw [← hstate] at hwell
  have hfound' := hwell.findTopic_of_getElem? htopic'
  obtain ⟨t, ht, hdescriptor⟩ := descriptor_after_snapshotStep hfound (step :: between)
  rw [after_cons, ← hpath, hfound'] at ht
  obtain rfl := Option.some.inj ht
  rw [ttlMs_buildEnvelope, ttlMs_buildEnvelope, hdescriptor]

theorem pairwise_history (hclock : Chronological steps) :
    (history NativeLinkCore.snapshotStep {} steps).Pairwise fun r r' =>
      ∀ i j, r.input.clock i ≤ r'.input.clock j := by
  have hinputs := @map_input_history _ _ _ NativeLinkCore.snapshotStep {} steps
  rwa [Chronological, ← hinputs, List.pairwise_map] at hclock

/-- What a snapshot of a run shows of a value with a time to live. The age is the time since the
write was accepted, cut to an `int`; the staleness goes by the time itself. -/
theorem shows_elapsed (hclock : Chronological steps)
    (hsplit : history NativeLinkCore.snapshotStep {} steps = front ++ r :: back) {k : ℕ}
    {e : UpdateEnvelope} (he : r.output[k]? = some e) (httl : 0 < e.ttlMs) :
    ∃ accepted, acceptedAt e.topicPath front = some accepted ∧ accepted ≤ r.input.clock k ∧
      e.ageMsAtEmit = Int32.ofInt ((r.input.clock k - accepted) / 1000000) ∧
      (e.isStale = true ↔ e.ttlMs.toInt < (r.input.clock k - accepted) / 1000000) := by
  obtain ⟨-, topic, htopic, rfl⟩ := exists_of_getElem?_output hsplit he
  rw [ttlMs_buildEnvelope] at httl
  have haccepted := shown_of_getElem? hsplit htopic
  have hle : topic.latestValueTime ≤ r.input.clock k := by
    obtain ⟨s, hs, htime⟩ := exists_of_acceptedAt haccepted
    have hpairs := pairwise_history hclock
    rw [hsplit, List.pairwise_append] at hpairs
    rw [htime]
    exact hpairs.2.2 s hs r List.mem_cons_self 0 k
  have hage : ageMs topic (r.input.clock k) =
      (r.input.clock k - topic.latestValueTime) / 1000000 :=
    Int.tdiv_eq_ediv_of_nonneg (Int.sub_nonneg_of_le hle)
  rw [topicPath_buildEnvelope, ttlMs_buildEnvelope, isStale_buildEnvelope httl,
    ageMsAtEmit_buildEnvelope httl, hage]
  exact ⟨topic.latestValueTime, haccepted, hle, rfl, Iff.rfl⟩

/-- In a prompt run the age is not cut. -/
theorem Prompt.shows_age (hprompt : Prompt (history NativeLinkCore.snapshotStep {} steps))
    (hclock : Chronological steps)
    (hsplit : history NativeLinkCore.snapshotStep {} steps = front ++ r :: back) {k : ℕ}
    {e : UpdateEnvelope} (he : r.output[k]? = some e) (httl : 0 < e.ttlMs) :
    ∃ accepted, acceptedAt e.topicPath front = some accepted ∧ accepted ≤ r.input.clock k ∧
      e.ageMsAtEmit.toInt = (r.input.clock k - accepted) / 1000000 ∧
      (e.isStale = true ↔ e.ttlMs.toInt < e.ageMsAtEmit.toInt) := by
  obtain ⟨accepted, haccepted, hle, hage, hstale⟩ := shows_elapsed hclock hsplit he httl
  obtain ⟨htakes, topic, htopic, rfl⟩ := exists_of_getElem?_output hsplit he
  rw [ttlMs_buildEnvelope] at httl
  have helapsed : (r.input.clock k - accepted) / 1000000 < 2 ^ 31 := by
    rw [topicPath_buildEnvelope] at haccepted
    exact hprompt front r back hsplit htakes k topic htopic httl accepted haccepted
  have hint : (Int32.ofInt ((r.input.clock k - accepted) / 1000000)).toInt =
      (r.input.clock k - accepted) / 1000000 := by
    have hnonneg : 0 ≤ (r.input.clock k - accepted) / 1000000 :=
      Int.ediv_nonneg (Int.sub_nonneg_of_le hle) (by decide)
    exact Int32.toInt_ofInt_of_le (Int.le_trans (by decide) hnonneg) helapsed
  refine ⟨accepted, haccepted, hle, ?_, ?_⟩
  · rw [hage, hint]
  · rw [hstale, hage, hint]

theorem Prompt.fresh (hprompt : Prompt (history NativeLinkCore.snapshotStep {} steps))
    (hclock : Chronological steps) : Fresh (history NativeLinkCore.snapshotStep {} steps) := by
  refine ⟨?_, ?_, ?_⟩
  · intro front r back hsplit k e he httl
    obtain ⟨accepted, haccepted, hle, hage, -⟩ := hprompt.shows_age hclock hsplit he httl
    refine ⟨accepted, haccepted, ?_, hage⟩
    rw [hage]
    exact Int.ediv_nonneg (Int.sub_nonneg_of_le hle) (by decide)
  · intro r hr e he httl
    obtain ⟨front, back, hsplit⟩ := List.append_of_mem hr
    obtain ⟨k, hk⟩ := List.mem_iff_getElem?.mp he
    obtain ⟨-, -, -, -, hstale⟩ := hprompt.shows_age hclock hsplit hk httl
    exact hstale
  · intro front r mid r' back hsplit e he e' he' hpath httl hmid
    obtain ⟨k, hk⟩ := List.mem_iff_getElem?.mp he
    obtain ⟨k', hk'⟩ := List.mem_iff_getElem?.mp he'
    have hsplit' : history NativeLinkCore.snapshotStep {} steps =
        (front ++ r :: mid) ++ r' :: back := by
      rw [hsplit, List.append_assoc]
      rfl
    have httl' : 0 < e'.ttlMs := by rwa [ttlMs_eq_of_mem_output hsplit he he' hpath]
    obtain ⟨accepted, haccepted, hle, hage, hstale⟩ := hprompt.shows_age hclock hsplit hk httl
    obtain ⟨accepted', haccepted', -, hage', hstale'⟩ :=
      hprompt.shows_age hclock hsplit' hk' httl'
    -- no write came between the two, so both show the same one
    have hsame : accepted' = accepted := by
      have hmid : ∀ s ∈ r :: mid, ∀ a, acceptance s = some a → a.1 ≠ e.topicPath := by
        refine List.forall_mem_cons.mpr ⟨fun a ha => ?_, hmid⟩
        rw [acceptance_of_takesSnapshot (exists_of_getElem?_output hsplit hk).1] at ha
        cases ha
      rw [hpath, acceptedAt_append_of_ne hmid, haccepted] at haccepted'
      exact (Option.some.inj haccepted').symm
    have htime : r.input.clock k ≤ r'.input.clock k' := by
      have hpairs := pairwise_history hclock
      rw [hsplit', List.pairwise_append] at hpairs
      exact hpairs.2.2 r (List.mem_append_right _ List.mem_cons_self) r' List.mem_cons_self k k'
    have holder : e.ageMsAtEmit.toInt ≤ e'.ageMsAtEmit.toInt := by
      rw [hage, hage', hsame]
      exact Int.ediv_le_ediv (by decide) (Int.sub_le_sub_right htime accepted)
    refine ⟨holder, fun hexpired => hstale'.mpr ?_⟩
    rw [ttlMs_eq_of_mem_output hsplit he he' hpath]
    exact Int.lt_of_lt_of_le (hstale.mp hexpired) holder

/-- An age that is shown as it is fits an `int`. -/
theorem Fresh.prompt (hfresh : Fresh (history NativeLinkCore.snapshotStep {} steps)) :
    Prompt (history NativeLinkCore.snapshotStep {} steps) := by
  intro front r back hsplit htakes k topic htopic httl accepted haccepted
  have he : r.output[k]? = some (r.before.buildEnvelope (r.input.clock k) topic
      .snapshotState 0) := by
    obtain ⟨before, step, behind, -, -, rfl, -⟩ := exists_split_of_history_eq hsplit
    rw [getElem?_snapshotStep, if_pos htakes, htopic]
    rfl
  obtain ⟨accepted', haccepted', -, hage⟩ := hfresh.age front r back hsplit k _ he
    (by rwa [ttlMs_buildEnvelope])
  rw [topicPath_buildEnvelope, haccepted] at haccepted'
  obtain rfl := Option.some.inj haccepted'
  rw [← hage]
  exact Int32.toInt_lt _

/-- A run that takes less than `2 ^ 31` milliseconds is prompt. -/
theorem prompt_of_short {start : TimePoint}
    (hshort : ∀ step ∈ steps, ∀ i, start ≤ step.clock i ∧
      step.clock i < start + 2 ^ 31 * 1000000) :
    Prompt (history NativeLinkCore.snapshotStep {} steps) := by
  intro front r back hsplit htakes k topic htopic httl accepted haccepted
  have hinput : ∀ s ∈ history NativeLinkCore.snapshotStep {} steps, s.input ∈ steps := by
    intro s hs
    have hmem := List.mem_map_of_mem (f := Record.input) hs
    rwa [map_input_history] at hmem
  rw [hsplit] at hinput
  obtain ⟨s, hs, htime⟩ := exists_of_acceptedAt haccepted
  have hread := (hshort _ (hinput r (List.mem_append_right _ List.mem_cons_self)) k).2
  have hwrite := (hshort _ (hinput s (List.mem_append_left _ hs)) 0).1
  rw [← htime] at hwrite
  have hlate : r.input.clock k < accepted + 2 ^ 31 * 1000000 :=
    Int.lt_of_lt_of_le hread (Int.add_le_add_right hwrite _)
  exact Int.ediv_lt_of_lt_mul (by decide) (Int.sub_left_lt_of_lt_add hlate)

/-- The snapshots of a run show the ages of the values, and staleness by them, if and only if none
of them shows a value that is `2 ^ 31` milliseconds old. -/
theorem fresh_iff (hclock : Chronological steps) :
    Fresh (history NativeLinkCore.snapshotStep {} steps) ↔
      Prompt (history NativeLinkCore.snapshotStep {} steps) :=
  ⟨fun hfresh => hfresh.prompt, fun hprompt => hprompt.fresh hclock⟩

end Runs

section Example

/-- A retained topic whose values may be 50 ms old. -/
def batteryTopic : TopicDescriptor :=
  { topicPath := ascii ['B']
    retentionMode := .latestValue
    replayOnSubscribe := true
    writerPolicy := .serverOnly
    ttlMs := 50 }

/-- The server writes a battery value, and `elapsed` nanoseconds later a snapshot is taken. -/
def batteryRun (elapsed : TimePoint) : List SnapshotStep :=
  [.perform ((Request.registerTopic batteryTopic).at 0),
    .perform ((Request.publishFromServer batteryTopic.topicPath (.ofBool true)).at 0),
    .buildSnapshot dashboardA fun _ => elapsed]

theorem chronological_batteryRun {elapsed : TimePoint} (h : 0 ≤ elapsed) :
    Chronological (batteryRun elapsed) := by
  simp [Chronological, batteryRun, SnapshotStep.clock, Request.at, h]

/-- After 80 ms the battery value is shown with its age. -/
theorem fresh_batteryRun :
    Fresh (history NativeLinkCore.snapshotStep {} (batteryRun 80000000)) := by
  refine (fresh_iff (chronological_batteryRun (by decide))).mpr ?_
  have hshort : ∀ step ∈ batteryRun 80000000, ∀ i, 0 ≤ step.clock i ∧
      step.clock i < 0 + 2 ^ 31 * 1000000 := by
    simp [batteryRun, SnapshotStep.clock, Request.at]
  exact prompt_of_short hshort

/-- The battery value is shown with a negative age `2 ^ 31` ms after it was written. -/
theorem battery_age_negative : ¬ ∀ steps, Chronological steps →
    Fresh (history NativeLinkCore.snapshotStep {} steps) := by
  intro hfresh
  have hclock : Chronological (batteryRun 2147483648000000) := chronological_batteryRun (by decide)
  have hprompt := (hfresh _ hclock).prompt
  let written := (batteryRun 2147483648000000).take 2
  have helapsed := hprompt _ _ []
    (history_append _ _ written ((batteryRun 2147483648000000).drop 2)) rfl 0
    ((after NativeLinkCore.snapshotStep {} written).replayedTopics.head (by decide)) rfl
    (by decide) 0 (by decide)
  exact absurd helapsed (by decide)

end Example

end NativeLinkCore

end SmartDashboard.NativeLink
