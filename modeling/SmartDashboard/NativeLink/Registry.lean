import Mathlib.Algebra.Group.Nat.Defs
import Mathlib.Data.List.Forall2
import SmartDashboard.NativeLink.Rejection

/-!
# The topic registry

What one call can do to the topics, and the invariant of the registry that follows: paths, topic
ids and client ids are keys, ids are handed out once and for all, and every topic respects its
descriptor.

## Main definitions

- `TopicStep`: what a call may do to a topic that is registered
- `RegisteredTopic`: what holds of every registered topic
- `Registry`: the invariant of the whole registry
-/

namespace SmartDashboard.NativeLink

open FirstMatch Execution

namespace NativeLinkCore

/-- What a call may do to a registered topic: change its lease, or store a value that was
accepted. -/
structure TopicStep (t t' : TopicRuntime) : Prop where
  descriptor : t'.descriptor = t.descriptor
  topicId : t'.topicId = t.topicId
  holder : t'.leaseHolderClientId = t.leaseHolderClientId ∨ t'.leaseHolderClientId = [] ∨
    t.descriptor.writerPolicy = .leaseSingleWriter
  latest : (t'.hasLatestValue = t.hasLatestValue ∧ t'.latestValue = t.latestValue ∧
      t'.latestSourceClientId = t.latestSourceClientId) ∨
    (t'.hasLatestValue = true ∧ topicValueMatches t.descriptor.valueType t'.latestValue ∧
      (t.descriptor.writerPolicy = .serverOnly → t'.latestSourceClientId = serverId))

/-- What holds of every registered topic. -/
structure RegisteredTopic (t : TopicRuntime) : Prop where
  path : t.descriptor.topicPath ≠ []
  valueType : t.hasLatestValue → t.latestValue.type = t.descriptor.valueType
  event : t.descriptor.topicKind = .event → t.descriptor.writerPolicy = .serverOnly
  retained : t.descriptor.retentionMode ≠ .none → t.descriptor.topicKind = .state
  holder : t.descriptor.writerPolicy = .serverOnly → t.leaseHolderClientId = []
  source : t.descriptor.writerPolicy = .serverOnly →
    t.latestSourceClientId = if t.hasLatestValue then serverId else []

/-- The invariant of the registry. -/
structure Registry (core : NativeLinkCore) : Prop where
  wellFormed : WellFormed core
  topics : ∀ t ∈ core.topics, RegisteredTopic t
  topicIds : core.topics.map TopicRuntime.topicId =
    (List.range core.topics.length).map fun i => UInt64.ofNat (i + 1)
  nextTopicId : core.nextTopicId = UInt64.ofNat (core.topics.length + 1)

/-! ### What a call does to the topics -/

section Topic

variable {t t' : TopicRuntime}

theorem TopicStep.refl (t : TopicRuntime) : TopicStep t t :=
  ⟨rfl, rfl, .inl rfl, .inl ⟨rfl, rfl, rfl⟩⟩

/-- A write to the lease of a leasable topic, or one that clears a lease. -/
theorem TopicStep.lease (t : TopicRuntime) {holder : ByteString}
    (h : holder = [] ∨ t.descriptor.writerPolicy = .leaseSingleWriter) :
    TopicStep t { t with leaseHolderClientId := holder } :=
  ⟨rfl, rfl, .inr h, .inl ⟨rfl, rfl, rfl⟩⟩

theorem topicValueMatches_iff {type : ValueType} {value : TopicValue} :
    topicValueMatches type value ↔ value.type = type := by
  cases type <;> simp [topicValueMatches]

theorem RegisteredTopic.step (h : RegisteredTopic t) (hstep : TopicStep t t') :
    RegisteredTopic t' := by
  obtain ⟨hdescriptor, -, hholder, hlatest⟩ := hstep
  refine ⟨hdescriptor ▸ h.path, ?_, hdescriptor ▸ h.event, hdescriptor ▸ h.retained, ?_, ?_⟩
  · intro hvalue
    rw [hdescriptor]
    rcases hlatest with ⟨hhas, hsame, -⟩ | ⟨-, hmatch, -⟩
    · rw [hsame]
      exact h.valueType (hhas ▸ hvalue)
    · exact topicValueMatches_iff.mp hmatch
  · intro hpolicy
    rw [hdescriptor] at hpolicy
    rcases hholder with hsame | hempty | hleasable
    · rw [hsame]
      exact h.holder hpolicy
    · exact hempty
    · rw [hpolicy] at hleasable
      exact absurd hleasable (by decide)
  · intro hpolicy
    rw [hdescriptor] at hpolicy
    rcases hlatest with ⟨hhas, -, hsame⟩ | ⟨hhas, -, hserver⟩
    · rw [hsame, hhas]
      exact h.source hpolicy
    · rw [hhas, if_pos rfl]
      exact hserver hpolicy

/-- A topic that `ValidateDescriptor` lets in, as `RegisterTopic` stores it. -/
theorem RegisteredTopic.register {descriptor : TopicDescriptor}
    (hvalid : (validateDescriptor descriptor).ok) (id : UInt64) (now : TimePoint) :
    RegisteredTopic { descriptor := descriptor, topicId := id, latestValueTime := now } := by
  simp only [validateDescriptor] at hvalid
  split_ifs at hvalid with hpath hreplay hretention hevent
  refine ⟨hpath, by simp, ?_, ?_, fun _ => rfl, fun _ => rfl⟩
  · intro hkind
    by_contra hpolicy
    exact hevent ⟨hkind, hpolicy⟩
  · intro hmode
    by_contra hkind
    exact hretention ⟨hkind, hmode⟩

end Topic

section Topics

variable {core : NativeLinkCore}

theorem forall₂_refl (topics : List TopicRuntime) : List.Forall₂ TopicStep topics topics :=
  List.forall₂_same.mpr fun t _ => TopicStep.refl t

/-- A write through a topic pointer steps that topic and leaves the others alone. -/
theorem forall₂_writeTopic {p : ByteString} {f : TopicRuntime → TopicRuntime}
    (hf : ∀ t, core.findTopic p = some t → TopicStep t (f t)) :
    List.Forall₂ TopicStep core.topics (core.writeTopic p f).topics := by
  have hlist : ∀ topics : List TopicRuntime,
      (∀ t, topics.find? (isTopic p) = some t → TopicStep t (f t)) →
      List.Forall₂ TopicStep topics (updateFirst (isTopic p) f topics) := by
    intro topics hf
    induction topics with
    | nil => exact .nil
    | cons t topics ih =>
      rw [updateFirst_cons]
      split_ifs with hp
      · exact .cons (hf t (List.find?_cons_of_pos hp)) (forall₂_refl topics)
      · exact .cons (TopicStep.refl t) (ih fun t' ht' => hf t' (by
          rwa [List.find?_cons_of_neg hp]))
  exact hlist core.topics hf

/-- An accepted write fits the topic, and only the server writes what is the server's. -/
theorem TopicStep.storeLatest {w : TopicWrite} {t : TopicRuntime} (now : TimePoint)
    (htopic : core.findTopic w.topicPath = some t) (haccepted : core.rejection w = none)
    (hserver : w.allowServerOnly → w.sourceClientId = serverId) :
    TopicStep t (storeLatest now w.value w.sourceClientId t) := by
  simp only [rejection, htopic] at haccepted
  refine ⟨rfl, rfl, .inl rfl, .inr ⟨rfl, ?_, ?_⟩⟩
  · by_contra hne
    have hmatch : topicValueMatches t.descriptor.valueType w.value = false :=
      Bool.eq_false_iff.mpr hne
    rw [if_pos hmatch] at haccepted
    exact absurd haccepted (by simp)
  · intro hpolicy
    apply hserver
    by_contra hallow
    split_ifs at haccepted with hmatch hreadOnly hlease
    · exact hreadOnly ⟨hpolicy, by simpa using hallow⟩
    · exact hreadOnly ⟨hpolicy, by simpa using hallow⟩

theorem nextTopicId_performWrite (clock : ℕ → TimePoint) (w : TopicWrite) :
    (core.performWrite clock w).1.nextTopicId = core.nextTopicId := by
  rcases performWrite_cases core clock w with ⟨reason, -, hresult⟩ | ⟨topic, -, -, hresult⟩
  · rw [hresult]
    rfl
  · rw [hresult]
    simp only [acceptWrite]
    split_ifs <;> rfl

theorem forall₂_performWrite (clock : ℕ → TimePoint) {w : TopicWrite}
    (hserver : w.allowServerOnly → w.sourceClientId = serverId) :
    List.Forall₂ TopicStep core.topics (core.performWrite clock w).1.topics := by
  rcases performWrite_cases core clock w with
    ⟨reason, -, hresult⟩ | ⟨topic, htopic, haccepted, hresult⟩
  · rw [hresult]
    exact forall₂_refl core.topics
  · rw [hresult, topics_acceptWrite]
    apply forall₂_writeTopic
    intro t ht
    rw [htopic] at ht
    obtain rfl := Option.some.inj ht
    exact TopicStep.storeLatest (clock 0) htopic haccepted hserver

/-- A call registers one new topic behind the others, or steps the topics there are. -/
theorem topics_perform (core : NativeLinkCore) (call : Call) :
    (∃ descriptor now, (validateDescriptor descriptor).ok ∧
      core.findTopic descriptor.topicPath = none ∧
      (core.perform call).1.topics = core.topics ++
        [{ descriptor := descriptor, topicId := core.nextTopicId, latestValueTime := now }] ∧
      (core.perform call).1.nextTopicId = core.nextTopicId + 1) ∨
    (List.Forall₂ TopicStep core.topics (core.perform call).1.topics ∧
      (core.perform call).1.nextTopicId = core.nextTopicId) := by
  obtain ⟨request, clock⟩ := call
  cases request with
  | registerTopic descriptor =>
    show (∃ d now, _ ∧ _ ∧ (core.registerTopic (clock 0) descriptor).1.topics = _ ∧
      (core.registerTopic (clock 0) descriptor).1.nextTopicId = _) ∨
      (List.Forall₂ TopicStep core.topics (core.registerTopic (clock 0) descriptor).1.topics ∧
        (core.registerTopic (clock 0) descriptor).1.nextTopicId = _)
    simp only [registerTopic]
    split_ifs with hvalid hknown
    · exact .inr ⟨forall₂_refl _, rfl⟩
    · exact .inr ⟨forall₂_refl _, rfl⟩
    · exact .inl ⟨descriptor, clock 0, by simpa using hvalid, by simpa using hknown, rfl, rfl⟩
  | acquireLease p c =>
    right
    show List.Forall₂ TopicStep core.topics (core.acquireLease p c).1.topics ∧
      (core.acquireLease p c).1.nextTopicId = _
    simp only [acquireLease]
    split
    · exact ⟨forall₂_refl _, rfl⟩
    · next topic htopic =>
      split_ifs with hpolicy hheld
      · exact ⟨forall₂_refl _, rfl⟩
      · exact ⟨forall₂_refl _, rfl⟩
      · refine ⟨forall₂_writeTopic fun t ht => ?_, rfl⟩
        rw [htopic] at ht
        obtain rfl := Option.some.inj ht
        exact TopicStep.lease topic (.inr (not_not.mp hpolicy))
  | releaseLease p c =>
    right
    show List.Forall₂ TopicStep core.topics (core.releaseLease p c).1.topics ∧
      (core.releaseLease p c).1.nextTopicId = _
    simp only [releaseLease]
    split
    · exact ⟨forall₂_refl _, rfl⟩
    · split_ifs
      · exact ⟨forall₂_refl _, rfl⟩
      · exact ⟨forall₂_writeTopic fun t _ => TopicStep.lease t (.inl rfl), rfl⟩
  | connectClient c =>
    right
    show List.Forall₂ TopicStep core.topics (core.connectClient clock c).1.topics ∧
      (core.connectClient clock c).1.nextTopicId = _
    simp only [connectClient]
    split_ifs <;> exact ⟨forall₂_refl _, rfl⟩
  | disconnectClient c =>
    right
    show List.Forall₂ TopicStep core.topics (core.disconnectClient c).1.topics ∧
      (core.disconnectClient c).1.nextTopicId = _
    simp only [disconnectClient]
    split_ifs <;> exact ⟨forall₂_refl _, rfl⟩
  | publish p v c =>
    exact .inr ⟨forall₂_performWrite (w := ⟨p, v, c, false⟩) clock (by simp),
      nextTopicId_performWrite clock ⟨p, v, c, false⟩⟩
  | publishFromServer p v =>
    exact .inr ⟨forall₂_performWrite (w := ⟨p, v, serverId, true⟩) clock fun _ => rfl,
      nextTopicId_performWrite clock ⟨p, v, serverId, true⟩⟩
  | drainClientEvents c =>
    right
    show List.Forall₂ TopicStep core.topics (core.drainClientEvents c).1.topics ∧
      (core.drainClientEvents c).1.nextTopicId = _
    simp only [drainClientEvents]
    split <;> exact ⟨forall₂_refl _, rfl⟩
  | beginNewSession =>
    refine .inr ⟨?_, rfl⟩
    apply List.forall₂_map_right_iff.mpr
    exact List.forall₂_same.mpr fun t _ => TopicStep.lease t (.inl rfl)

end Topics

/-! ### The invariant -/

section Invariant

variable {core : NativeLinkCore}

theorem map_eq_of_forall₂ {β : Type*} {g : TopicRuntime → β}
    (hg : ∀ t t', TopicStep t t' → g t' = g t) {topics topics' : List TopicRuntime}
    (h : List.Forall₂ TopicStep topics topics') : topics'.map g = topics.map g := by
  induction h with
  | nil => rfl
  | cons hstep _ ih => rw [List.map_cons, List.map_cons, hg _ _ hstep, ih]

theorem registeredTopics_of_forall₂ {topics topics' : List TopicRuntime}
    (htopics : ∀ t ∈ topics, RegisteredTopic t) (h : List.Forall₂ TopicStep topics topics') :
    ∀ t' ∈ topics', RegisteredTopic t' := by
  induction h with
  | nil => exact htopics
  | cons hstep _ ih =>
    rw [List.forall_mem_cons] at htopics ⊢
    exact ⟨htopics.1.step hstep, ih htopics.2⟩

theorem Registry.init : Registry {} :=
  ⟨WellFormed.init, by simp, rfl, rfl⟩

/-- Every call keeps the invariant. -/
theorem Registry.perform (core : NativeLinkCore) (call : Call) (h : Registry core) :
    Registry (core.perform call).1 := by
  have hwell := WellFormed.perform core call h.wellFormed
  rcases topics_perform core call with
    ⟨descriptor, now, hvalid, -, htopics, hnext⟩ | ⟨hsteps, hnext⟩
  · refine ⟨hwell, ?_, ?_, ?_⟩
    · rw [htopics, List.forall_mem_append, List.forall_mem_singleton]
      exact ⟨h.topics, RegisteredTopic.register hvalid core.nextTopicId now⟩
    · -- the new topic gets the next number
      rw [htopics, List.length_append, List.length_singleton, List.range_succ, List.map_append,
        List.map_append, h.topicIds, List.map_singleton, List.map_singleton, h.nextTopicId]
    · rw [hnext, htopics, h.nextTopicId, List.length_append, List.length_singleton,
        UInt64.ofNat_add (core.topics.length + 1) 1]
      rfl
  · refine ⟨hwell, ?_, ?_, ?_⟩
    · exact registeredTopics_of_forall₂ h.topics hsteps
    · rw [map_eq_of_forall₂ (fun _ _ hstep => hstep.topicId) hsteps, hsteps.length_eq.symm,
        h.topicIds]
    · rw [hnext, hsteps.length_eq.symm, h.nextTopicId]

theorem Reachable.registry (h : core.Reachable) : Registry core := by
  obtain ⟨calls, rfl⟩ := h
  exact after_induction Registry.perform Registry.init calls

/-! ### Topic ids -/

/-- The most elements a `std::vector` has room for: sizes are differences of pointers. -/
def vectorMaxSize : ℕ := 2 ^ 63 - 1

/-- A topic's path and the id it was registered under. -/
def topicKey (t : TopicRuntime) : ByteString × UInt64 := (t.descriptor.topicPath, t.topicId)

theorem topicKeys_perform (core : NativeLinkCore) (call : Call) :
    core.topics.map topicKey <+: (core.perform call).1.topics.map topicKey := by
  rcases topics_perform core call with ⟨descriptor, now, -, -, htopics, -⟩ | ⟨hsteps, -⟩
  · rw [htopics, List.map_append]
    exact List.prefix_append _ _
  · have hsame : ∀ t t', TopicStep t t' → topicKey t' = topicKey t := fun t t' hstep => by
      simp only [topicKey, hstep.descriptor, hstep.topicId]
    exact map_eq_of_forall₂ hsame hsteps ▸ List.prefix_refl _

/-- Whatever is called, a topic that is registered stays where it is, with its path and id. -/
theorem topicKeys_after (core : NativeLinkCore) (calls : List Call) :
    core.topics.map topicKey <+: (after perform core calls).topics.map topicKey := by
  apply after_induction (P := fun s : NativeLinkCore =>
    core.topics.map topicKey <+: s.topics.map topicKey)
  · intro s call h
    exact h.trans (topicKeys_perform s call)
  · exact List.prefix_refl _

/-- Ids are the numbers from 1 on, so they are keys as long as the counter does not wrap. -/
theorem Registry.topicIds_nodup (h : Registry core) (hsize : core.topics.length ≤ vectorMaxSize) :
    (core.topics.map TopicRuntime.topicId).Nodup ∧
      ∀ t ∈ core.topics, 0 < t.topicId ∧ t.topicId < core.nextTopicId := by
  have hsize : core.topics.length + 1 < 2 ^ 64 := by
    simp only [vectorMaxSize] at hsize
    omega
  have htoNat : ∀ i ≤ core.topics.length, (UInt64.ofNat (i + 1)).toNat = i + 1 := by
    intro i hi
    rw [UInt64.toNat_ofNat', Nat.mod_eq_of_lt (by omega)]
  constructor
  · rw [h.topicIds]
    apply List.Nodup.map_on ?_ List.nodup_range
    intro i hi j hj hij
    have hij := congrArg UInt64.toNat hij
    rw [htoNat i (Nat.le_of_lt (List.mem_range.mp hi)),
      htoNat j (Nat.le_of_lt (List.mem_range.mp hj))] at hij
    exact Nat.succ.inj hij
  · intro t ht
    have hid : t.topicId ∈ core.topics.map TopicRuntime.topicId := List.mem_map_of_mem ht
    rw [h.topicIds] at hid
    obtain ⟨i, hi, hti⟩ := List.mem_map.mp hid
    have hi : i < core.topics.length := List.mem_range.mp hi
    rw [← hti, h.nextTopicId, UInt64.lt_iff_toNat_lt, UInt64.lt_iff_toNat_lt,
      htoNat i (Nat.le_of_lt hi), htoNat _ (Nat.le_refl _)]
    exact ⟨Nat.succ_pos i, Nat.succ_lt_succ hi⟩

end Invariant

/-- What the registry promises in every state: the keys are keys, ids are handed out once, and each
topic respects its descriptor. -/
structure RegistryLaw (core : NativeLinkCore) : Prop where
  paths : (∀ t ∈ core.topics, t.descriptor.topicPath ≠ []) ∧
    (core.topics.map fun t => t.descriptor.topicPath).Nodup
  ids : core.topics.length ≤ vectorMaxSize →
    (core.topics.map TopicRuntime.topicId).Nodup ∧
      ∀ t ∈ core.topics, 0 < t.topicId ∧ t.topicId < core.nextTopicId
  permanent : ∀ calls, core.topics.map topicKey <+: (after perform core calls).topics.map topicKey
  clientIds : (core.clients.map ClientRuntime.clientId).Nodup
  values : ∀ t ∈ core.topics, t.hasLatestValue → t.latestValue.type = t.descriptor.valueType
  events : ∀ t ∈ core.topics, t.descriptor.topicKind = .event →
    t.descriptor.writerPolicy = .serverOnly
  retained : ∀ t ∈ core.topics, t.descriptor.retentionMode ≠ .none →
    t.descriptor.topicKind = .state
  holders : ∀ t ∈ core.topics, t.descriptor.writerPolicy = .serverOnly →
    t.leaseHolderClientId = []
  sources : ∀ t ∈ core.topics, t.descriptor.writerPolicy = .serverOnly →
    t.latestSourceClientId = if t.hasLatestValue then serverId else []

/-- The registry invariant holds in every reachable state. A topic only the server writes names
the server as its latest source from its first value on. -/
theorem registryLaw {core : NativeLinkCore} (hcore : core.Reachable) : RegistryLaw core where
  paths := ⟨fun t ht => (hcore.registry.topics t ht).path, hcore.registry.wellFormed.topicPaths⟩
  ids := hcore.registry.topicIds_nodup
  permanent := topicKeys_after core
  clientIds := hcore.registry.wellFormed.clientIds
  values := fun t ht => (hcore.registry.topics t ht).valueType
  events := fun t ht => (hcore.registry.topics t ht).event
  retained := fun t ht => (hcore.registry.topics t ht).retained
  holders := fun t ht => (hcore.registry.topics t ht).holder
  sources := fun t ht => (hcore.registry.topics t ht).source

theorem registryLaw_timerOnly : RegistryLaw (after perform {} timerOnly) :=
  registryLaw (reachable_after timerOnly)

/-- A topic that only the server writes and that was never written names nobody as its source. -/
theorem unwritten_topic_has_no_source :
    ¬ ∀ core : NativeLinkCore, core.Reachable → ∀ t ∈ core.topics,
      t.descriptor.writerPolicy = .serverOnly → t.latestSourceClientId = serverId := by
  intro hserver
  have h := hserver (after perform {} timerOnly) (reachable_after timerOnly)
    ((after perform {} timerOnly).topics.head (by decide)) (List.head_mem _) (by decide)
  exact absurd h (by decide)

end NativeLinkCore

end SmartDashboard.NativeLink
