import SmartDashboard.Direct.Attachment

/-!
# The producer heartbeat

Whom a subscriber takes for a publisher. It goes by the heartbeat in the header, and whoever
attaches first stores one there. Runs without a publisher are looked at: what the heartbeat is then
is what the first subscriber stored.

## Main definitions

- `EndpointAction.OfSubscriber`: the steps of a run without a publisher
- `NobodyConnected`: no subscriber reports that it is connected
- `SeesNoPublisher`: the heartbeat is none, or it is as old as one that went quiet
-/

namespace SmartDashboard.Direct

open Execution

/-- A subscriber starts, stops or goes through its loop. -/
def EndpointAction.OfSubscriber {κ ι : Type*} : EndpointAction κ ι → Prop
  | .startSubscriber .. | .readNextUpsert .. | .endIteration .. | .stopSubscriber .. => True
  | _ => False

theorem Ring.readNextUpsert_lastProducerHeartbeatUs (ring : Ring) (readCursor : UInt32)
    (nowUs : UInt64) : (ring.readNextUpsert readCursor nowUs).1.header.lastProducerHeartbeatUs =
      ring.header.lastProducerHeartbeatUs := by
  simp only [readNextUpsert]
  split_ifs
  · rfl
  · rfl
  · split <;> rfl

namespace DirectSubscriberStub

variable {sub : DirectSubscriberStub} {producerHeartbeatUs nowUs : UInt64}

/-- There is no heartbeat, or it is the one that was there before, or the clock is at zero, and it
is older than the limit. -/
def SeesNoPublisher (sub : DirectSubscriberStub) (producerHeartbeatUs nowUs : UInt64) : Prop :=
  producerHeartbeatUs = 0 ∨
    (producerHeartbeatUs = sub.lastProducerHeartbeatUs ∨ nowUs = 0) ∧
      sub.staleTimeoutMs * 1000 < nowUs - producerHeartbeatUs

instance : Decidable (sub.SeesNoPublisher producerHeartbeatUs nowUs) :=
  inferInstanceAs (Decidable (_ ∨ _))

/-- What an iteration has seen of the heartbeat. -/
theorem observe_lastProducerHeartbeatUs :
    (sub.observe producerHeartbeatUs nowUs).lastProducerHeartbeatUs = producerHeartbeatUs := by
  simp only [observe]
  split_ifs <;> simp_all

theorem observe_lastHeartbeatChangeUs :
    (sub.observe producerHeartbeatUs nowUs).lastHeartbeatChangeUs =
      if producerHeartbeatUs ≠ sub.lastProducerHeartbeatUs then nowUs
      else sub.lastHeartbeatChangeUs := by
  simp only [observe]
  split_ifs <;> rfl

/-- While no heartbeat has been seen to change, a subscriber becomes connected unless it sees no
publisher. -/
theorem observe_connectionState (hchange : sub.lastHeartbeatChangeUs = 0) :
    (sub.observe producerHeartbeatUs nowUs).connectionState ≠ .connected ↔
      sub.SeesNoPublisher producerHeartbeatUs nowUs := by
  simp only [observe, SeesNoPublisher]
  by_cases hzero : producerHeartbeatUs = 0
  · simp [hzero]
  by_cases hlimit : sub.staleTimeoutMs * 1000 < nowUs - producerHeartbeatUs
  · by_cases hsame : producerHeartbeatUs = sub.lastProducerHeartbeatUs
    · simp [hsame.symm, hzero, hlimit, hchange]
    · -- a heartbeat that is new to the subscriber has been quiet for no time
      by_cases hnow : nowUs = 0
      · have hlimit' : sub.staleTimeoutMs * 1000 < -producerHeartbeatUs := by
          simpa [hnow] using hlimit
        simp [hzero, hlimit', hsame, hnow]
      · simp [hzero, hlimit, hsame, hnow]
  · simp [hzero, hlimit]

end DirectSubscriberStub

namespace Endpoints

variable {κ ι : Type*}

def NobodyConnected (s : Endpoints κ ι) : Prop :=
  ∀ i, (s.subscribers i).connectionState ≠ .connected

/-- After the step no subscriber is connected. -/
def StaysUnconnected [Fintype κ] [Fintype ι] [DecidableEq κ] [DecidableEq ι]
    (s : Endpoints κ ι) (a : EndpointAction κ ι) : Prop :=
  ∀ s', s.next a = some s' → s'.NobodyConnected

/-- No iteration finds a heartbeat that it takes for one of a publisher. -/
def SeesNoPublisher (s : Endpoints κ ι) : EndpointAction κ ι → Prop
  | .endIteration i nowUs =>
    (s.subscribers i).capacity.isSome → ∀ m ∈ s.mapping,
      (s.subscribers i).SeesNoPublisher m.header.lastProducerHeartbeatUs nowUs
  | _ => True

instance (s : Endpoints κ ι) : DecidablePred s.SeesNoPublisher
  | .endIteration .. => inferInstanceAs (Decidable (_ → ∀ m ∈ s.mapping, _))
  | .startPublisher .. | .writeUpsert .. | .endFlush .. | .stopPublisher .. | .startSubscriber ..
  | .readNextUpsert .. | .stopSubscriber .. => isTrue trivial

/-- The invariant of a run without a publisher: everybody asks for the ring of the default size, so
the heartbeat stays what it was when the first came, and nobody has seen it change. -/
structure Quiet (s : Endpoints κ ι) : Prop where
  sound : s.Sound
  capacity : ∀ capacity, s.Attached capacity → capacity = kDefaultCapacityBytes
  nobodyConnected : s.NobodyConnected
  unchanged : ∀ i, (s.subscribers i).lastHeartbeatChangeUs = 0
  seen : ∀ i, (s.subscribers i).lastProducerHeartbeatUs = 0 ∨
    (s.subscribers i).capacity.isSome ∧ ∀ m ∈ s.mapping,
      m.header.lastProducerHeartbeatUs = (s.subscribers i).lastProducerHeartbeatUs

variable {s s' : Endpoints κ ι}

theorem quiet_initial (staleTimeoutMs : ι → UInt64) :
    (initial staleTimeoutMs : Endpoints κ ι).Quiet where
  sound := sound_initial staleTimeoutMs
  capacity capacity h := by
    rcases h with ⟨k, hk⟩ | ⟨i, hi⟩
    · cases hk
    · cases hi
  nobodyConnected _ := by rintro ⟨⟩
  unchanged _ := rfl
  seen _ := .inl rfl

/-- A step that changes one subscriber, and no heartbeat under somebody who is attached. -/
theorem Quiet.update [DecidableEq ι] {i : ι} {sub : DirectSubscriberStub} (h : s.Quiet)
    (hsound : s'.Sound) (hcapacity : ∀ capacity, s'.Attached capacity →
      s.Attached capacity ∨ capacity = kDefaultCapacityBytes)
    (hsubscribers : s'.subscribers = Function.update s.subscribers i sub)
    (hmapping : ∀ capacity, s.Attached capacity → ∀ m' ∈ s'.mapping, ∃ m ∈ s.mapping,
      m'.header.lastProducerHeartbeatUs = m.header.lastProducerHeartbeatUs)
    (hstate : sub.connectionState ≠ .connected) (hchange : sub.lastHeartbeatChangeUs = 0)
    (hseen : sub.lastProducerHeartbeatUs = 0 ∨ sub.capacity.isSome ∧ ∀ m ∈ s'.mapping,
      m.header.lastProducerHeartbeatUs = sub.lastProducerHeartbeatUs) : s'.Quiet := by
  refine ⟨hsound, fun capacity hattached => ?_, fun j => ?_, fun j => ?_, fun j => ?_⟩
  · exact (hcapacity capacity hattached).elim (h.capacity capacity) id
  all_goals
    rw [hsubscribers]
    by_cases hj : j = i
    · subst hj
      rw [Function.update_self]
      assumption
    rw [Function.update_of_ne hj]
  · exact h.nobodyConnected j
  · exact h.unchanged j
  · refine (h.seen j).imp_right fun ⟨hrunning, hm⟩ => ⟨hrunning, fun m' hm' => ?_⟩
    obtain ⟨capacity, hcapacity⟩ := Option.isSome_iff_exists.mp hrunning
    obtain ⟨m, hm₀, heq⟩ := hmapping capacity (.inr ⟨j, hcapacity⟩) m' hm'
    exact heq.trans (hm m hm₀)

/-- The ring that a subscriber asks for is the one that is there. -/
theorem Quiet.sameSize [DecidableEq κ] [DecidableEq ι] {a : EndpointAction κ ι} (h : s.Quiet)
    (ha : a.OfSubscriber) : s.SameSize a := by
  cases a with
  | startSubscriber i instanceId slack nowUs eventsOpen =>
    intro _ m hm _
    obtain ⟨capacity, hcapacity⟩ := h.sound.occupied (Option.isSome_of_eq_some hm)
    have hm' := h.sound.agree.capacityBytes_eq hm hcapacity
    exact (hm'.trans (h.capacity capacity hcapacity)).symm
  | startPublisher => exact ha.elim
  | _ => exact trivial

section Steps

variable [Fintype κ] [Fintype ι]

@[simp] theorem release_subscribers : s.release.subscribers = s.subscribers := by
  unfold release
  split <;> rfl

theorem mem_mapping_of_release {m : Mapping} (hm : m ∈ s.release.mapping) : m ∈ s.mapping := by
  unfold release at hm
  split at hm
  case isTrue => exact hm
  case isFalse => cases hm

theorem startSubscriber_subscribers [DecidableEq ι] (i : ι) (instanceId : UInt64) (slack : ℕ)
    (nowUs : UInt64) (eventsOpen : Bool) :
    ∃ sub, (s.startSubscriber i instanceId slack nowUs eventsOpen).subscribers =
        Function.update s.subscribers i sub ∧
      (sub = s.subscribers i ∨ sub.connectionState ≠ .connected ∧
        sub.lastHeartbeatChangeUs = 0 ∧ sub.lastProducerHeartbeatUs = 0) := by
  unfold startSubscriber
  split
  case isTrue => exact ⟨_, (Function.update_eq_self ..).symm, .inl rfl⟩
  case isFalse =>
    dsimp only
    split
    case h_1 => exact ⟨_, rfl, .inr ⟨by rintro ⟨⟩, rfl, rfl⟩⟩
    case h_2 =>
      split
      case h_1 => exact ⟨_, release_subscribers, .inr ⟨by rintro ⟨⟩, rfl, rfl⟩⟩
      case h_2 =>
        split
        case isTrue => exact ⟨_, rfl, .inr ⟨by rintro ⟨⟩, rfl, rfl⟩⟩
        case isFalse => exact ⟨_, release_subscribers, .inr ⟨by rintro ⟨⟩, rfl, rfl⟩⟩

theorem startSubscriber_attached [DecidableEq ι] {i : ι} {instanceId : UInt64} {slack : ℕ}
    {nowUs : UInt64} {eventsOpen : Bool} {capacity : UInt32}
    (hcapacity : (s.startSubscriber i instanceId slack nowUs eventsOpen).Attached capacity) :
    s.Attached capacity ∨ capacity = kDefaultCapacityBytes := by
  by_cases hidle : (s.subscribers i).capacity = none →
      s.openMapping (kHeaderSize + kDefaultCapacityBytes.toNat) slack = none
  · have h := startSubscriber_idle instanceId nowUs eventsOpen hidle
    exact .inl ((h.attached capacity).mp hcapacity)
  · push Not at hidle
    obtain ⟨hi, hopen⟩ := hidle
    obtain ⟨m, hopen⟩ := Option.ne_none_iff_exists'.mp hopen
    have hbytes : kDefaultCapacityBytes ≠ 0 := by decide
    obtain ⟨m', hattach, -⟩ := m.exists_attachRing hbytes nowUs
    obtain ⟨t, hjoins, ht⟩ := startSubscriber_joins instanceId hi hopen hattach eventsOpen
    rw [ht, attached_release] at hcapacity
    exact hjoins.joined capacity hcapacity

variable [DecidableEq κ] [DecidableEq ι] {a : EndpointAction κ ι}

theorem Quiet.next (h : s.Quiet) (ha : a.OfSubscriber) (hsees : s.SeesNoPublisher a)
    (hnext : s.next a = some s') : s'.Quiet := by
  obtain ⟨hsound, hstart⟩ := (h.sound.next hnext).2 (h.sameSize ha)
  cases a with
  | startSubscriber i instanceId slack nowUs eventsOpen =>
    obtain rfl := Option.some.inj hnext
    obtain ⟨sub, hsubscribers, hsub⟩ :=
      s.startSubscriber_subscribers i instanceId slack nowUs eventsOpen
    have hmapping : ∀ capacity, s.Attached capacity →
        ∀ m' ∈ (s.startSubscriber i instanceId slack nowUs eventsOpen).mapping, ∃ m ∈ s.mapping,
          m'.header.lastProducerHeartbeatUs = m.header.lastProducerHeartbeatUs := by
      intro capacity hcapacity m' hm'
      obtain ⟨m, hm, -⟩ := h.sound.agree capacity hcapacity
      obtain ⟨m₁, hm₁, hsame⟩ := hstart trivial capacity hcapacity m hm
      obtain rfl := Option.some.inj (hm₁.symm.trans hm')
      refine ⟨m, hm, ?_⟩
      rcases hsame with rfl | rfl
      · rfl
      · rfl
    rcases hsub with rfl | ⟨hstate, hchange, hlast⟩
    · refine h.update hsound (fun _ => startSubscriber_attached) hsubscribers hmapping
        (h.nobodyConnected i) (h.unchanged i) ?_
      refine (h.seen i).imp_right fun ⟨hrunning, hseen⟩ => ⟨hrunning, fun m' hm' => ?_⟩
      obtain ⟨capacity, hcapacity⟩ := Option.isSome_iff_exists.mp hrunning
      obtain ⟨m, hm, heq⟩ := hmapping capacity (.inr ⟨i, hcapacity⟩) m' hm'
      exact heq.trans (hseen m hm)
    · exact h.update hsound (fun _ => startSubscriber_attached) hsubscribers hmapping hstate
        hchange (.inl hlast)
  | readNextUpsert i nowUs =>
    simp only [Endpoints.next] at hnext
    split at hnext
    case h_2 => cases hnext
    case h_1 m capacity hm hi =>
      cases hnext
      refine h.update hsound (fun _ hc => .inl ((attached_update_subscriber _ ?_).mp hc)) rfl
        (fun _ _ m' hm' => ⟨m, hm, ?_⟩) (h.nobodyConnected i) (h.unchanged i) ?_
      · rfl
      · cases hm'
        exact Ring.readNextUpsert_lastProducerHeartbeatUs ..
      · refine (h.seen i).imp_right fun ⟨hrunning, hseen⟩ => ⟨hrunning, fun m' hm' => ?_⟩
        cases hm'
        exact (Ring.readNextUpsert_lastProducerHeartbeatUs ..).trans (hseen m hm)
  | endIteration i nowUs =>
    simp only [Endpoints.next] at hnext
    split at hnext
    case h_2 => cases hnext
    case h_1 m capacity hm hi =>
      cases hnext
      have hsees := hsees (Option.isSome_of_eq_some hi) m hm
      have hcapacity := DirectSubscriberStub.observe_capacity (s.subscribers i)
        m.header.lastProducerHeartbeatUs nowUs
      refine h.update hsound (fun _ => Or.inl ∘ (attached_update_subscriber _ hcapacity).mp)
        rfl (fun _ _ m' hm' => ⟨m, hm, ?_⟩)
        ((DirectSubscriberStub.observe_connectionState (h.unchanged i)).mpr hsees) ?_
        (.inr ⟨?_, ?_⟩)
      · cases hm'
        rfl
      · rw [DirectSubscriberStub.observe_lastHeartbeatChangeUs, h.unchanged i]
        refine ite_eq_right_iff.mpr fun hne => ?_
        rcases hsees with hzero | ⟨hsame | hnow, -⟩
        · -- none was seen before either
          rcases h.seen i with hlast | ⟨-, hlast⟩
          · exact absurd (hzero.trans hlast.symm) hne
          · exact absurd (hlast m hm) hne
        · exact absurd hsame hne
        · exact hnow
      · rw [hcapacity, hi]
        rfl
      · rintro _ ⟨⟩
        exact DirectSubscriberStub.observe_lastProducerHeartbeatUs.symm
  | stopSubscriber i =>
    obtain ⟨-, hnext⟩ := Option.ite_none_right_eq_some.mp hnext
    cases hnext
    refine h.update hsound (fun capacity hc => ?_) release_subscribers (fun _ _ m hm => ?_)
      (by rintro ⟨⟩) rfl (.inl rfl)
    · rw [attached_release] at hc
      exact .inl (attached_of_stop hc)
    · have hm' := mem_mapping_of_release hm
      exact ⟨m, hm', rfl⟩
  | startPublisher => exact ha.elim
  | writeUpsert => exact ha.elim
  | endFlush => exact ha.elim
  | stopPublisher => exact ha.elim

theorem Quiet.staysUnconnected_iff (h : s.Quiet) (ha : a.OfSubscriber) :
    s.StaysUnconnected a ↔ s.SeesNoPublisher a := by
  refine ⟨fun hstays => ?_, fun hsees s' hnext => (h.next ha hsees hnext).nobodyConnected⟩
  cases a with
  | endIteration i nowUs =>
    intro hrunning m hm
    obtain ⟨capacity, hcapacity⟩ := Option.isSome_iff_exists.mp hrunning
    have hm : s.mapping = some m := hm
    have hnext : ∃ s', s.next (.endIteration i nowUs) = some s' ∧ s'.subscribers i =
        (s.subscribers i).observe m.header.lastProducerHeartbeatUs nowUs := by
      simp only [Endpoints.next, hm, hcapacity]
      exact ⟨_, rfl, Function.update_self ..⟩
    obtain ⟨s', hnext, hsub⟩ := hnext
    have hstate := hstays s' hnext i
    rw [hsub] at hstate
    exact (DirectSubscriberStub.observe_connectionState (h.unchanged i)).mp hstate
  | _ => exact trivial

theorem Quiet.everyStep_staysUnconnected_iff (h : s.Quiet) {actions : List (EndpointAction κ ι)}
    (hactions : ∀ a ∈ actions, a.OfSubscriber) :
    EveryStep Endpoints.next StaysUnconnected s actions ↔
      EveryStep Endpoints.next SeesNoPublisher s actions :=
  everyStep_congr (P := Quiet) (fun _ a ha hs => hs.staysUnconnected_iff (hactions a ha))
    (fun _ a ha _ hs => hs.next (hactions a ha)) h

/-- In a run without a publisher nobody reports a connection just if every iteration sees none. -/
theorem nobodyConnected_iff (staleTimeoutMs : ι → UInt64) {actions : List (EndpointAction κ ι)}
    (hactions : ∀ a ∈ actions, a.OfSubscriber) :
    EveryStep next StaysUnconnected (initial staleTimeoutMs) actions ↔
      EveryStep next SeesNoPublisher (initial staleTimeoutMs) actions :=
  (quiet_initial staleTimeoutMs).everyStep_staysUnconnected_iff hactions

/-- A subscriber attaches to new memory and goes through its loop once. -/
def aloneOnMapping (startUs : UInt64) : List (EndpointAction Empty Unit) :=
  [.startSubscriber () 1 0 startUs true, .readNextUpsert () (startUs + 10),
    .endIteration () (startUs + 20)]

theorem aloneAtZero_nobodyConnected :
    (∀ a ∈ aloneOnMapping 0, a.OfSubscriber) ∧
      EveryStep next StaysUnconnected (initial fun _ => 1000) (aloneOnMapping 0) := by
  have hactions : ∀ startUs, ∀ a ∈ aloneOnMapping startUs, a.OfSubscriber := by
    simp [aloneOnMapping, EndpointAction.OfSubscriber]
  refine ⟨hactions 0, (nobodyConnected_iff (fun _ => 1000) (hactions 0)).mpr ?_⟩
  decide +kernel

theorem aloneOnMapping_connected :
    (∀ a ∈ aloneOnMapping 5000, a.OfSubscriber) ∧
      ¬EveryStep next StaysUnconnected (initial fun _ => 1000) (aloneOnMapping 5000) := by
  have hactions : ∀ a ∈ aloneOnMapping 5000, a.OfSubscriber := by
    simp [aloneOnMapping, EndpointAction.OfSubscriber]
  refine ⟨hactions, ?_⟩
  rw [(quiet_initial fun _ => 1000).everyStep_staysUnconnected_iff hactions]
  decide +kernel

end Steps

end Endpoints

end SmartDashboard.Direct
