import SmartDashboard.NativeLink.LiveDelivery

/-!
# Single-writer leases

What one call can do to the lease of a topic, and from it: which runs obey the lease discipline
(all but those in which somebody acquires under the empty client id, the encoding of "no holder"),
and how long a lease outlives its holder's connection.
-/

namespace SmartDashboard.NativeLink

open FirstMatch Execution

namespace NativeLinkCore

/-- The topic `p` may be leased and `c` holds its lease. -/
def Holds (core : NativeLinkCore) (p c : ByteString) : Prop :=
  ∃ topic, core.findTopic p = some topic ∧
    topic.descriptor.writerPolicy = .leaseSingleWriter ∧ topic.leaseHolderClientId = c

/-- The request acquires, releases or publishes the topic `p` as the client `d`. -/
def UsesTopicAs (p d : ByteString) : Request → Prop
  | .acquireLease q e | .releaseLease q e => q = p ∧ e = d
  | .publish q _ e => q = p ∧ e = d
  | _ => False

/-- The request is made by the client `c`. -/
def ActsAs (c : ByteString) : Request → Prop
  | .acquireLease _ e | .releaseLease _ e | .connectClient e | .disconnectClient e
  | .publish _ _ e | .drainClientEvents e => e = c
  | _ => False

/-- The call was answered with `true`, or with an accepted write. -/
def isSuccess : Reply → Bool
  | .flag success => success
  | .write result => result.accepted
  | _ => false

section Lookup

variable {core : NativeLinkCore} {p c : ByteString}

theorem getTopicLeaseInfo_eq_iff :
    core.getTopicLeaseInfo p = ⟨true, c⟩ ↔
      c ≠ [] ∧ ∃ topic, core.findTopic p = some topic ∧ topic.leaseHolderClientId = c := by
  simp only [getTopicLeaseInfo]
  split
  · next hnone => simp [hnone]
  · next topic htopic =>
    rw [htopic]
    split_ifs with hempty
    · simp only [TopicLeaseInfo.mk.injEq, Bool.false_eq_true, false_and, false_iff]
      rintro ⟨hc, t, ht, rfl⟩
      exact hc (Option.some.inj ht ▸ hempty)
    · simp only [TopicLeaseInfo.mk.injEq, true_and, Option.some.injEq, exists_eq_left']
      exact ⟨fun h => ⟨h ▸ hempty, h⟩, fun h => h.2⟩

theorem Holds.getTopicLeaseInfo (h : core.Holds p c) (hc : c ≠ []) :
    core.getTopicLeaseInfo p = ⟨true, c⟩ := by
  obtain ⟨topic, htopic, -, hholder⟩ := h
  exact getTopicLeaseInfo_eq_iff.mpr ⟨hc, topic, htopic, hholder⟩

/-- In a reachable state only a leasable topic has a holder. -/
theorem WellFormed.holds (hcore : WellFormed core)
    (hinfo : core.getTopicLeaseInfo p = ⟨true, c⟩) : core.Holds p c := by
  obtain ⟨hc, topic, htopic, hholder⟩ := getTopicLeaseInfo_eq_iff.mp hinfo
  have hmem : topic ∈ core.topics := List.mem_of_find?_eq_some htopic
  exact ⟨topic, htopic, hcore.leases topic hmem (hholder ▸ hc), hholder⟩

end Lookup

section Calls

variable {core : NativeLinkCore} {p c : ByteString}

/-- `AcquireLease` succeeds on a leasable topic that is free or already the caller's, and then the
topic is the caller's. -/
theorem acquireLease_eq_true_iff :
    (core.acquireLease p c).2 = true ↔
      ∃ topic, core.findTopic p = some topic ∧
        topic.descriptor.writerPolicy = .leaseSingleWriter ∧
        (topic.leaseHolderClientId = [] ∨ topic.leaseHolderClientId = c) := by
  simp only [acquireLease]
  split
  · next hnone => simp [hnone]
  · next topic htopic =>
    rw [htopic]
    split_ifs with hpolicy hheld
    · simp [hpolicy]
    · simp [hheld]
    · have hfree : topic.leaseHolderClientId = [] ∨ topic.leaseHolderClientId = c := by
        by_cases h : topic.leaseHolderClientId = []
        · exact .inl h
        · exact .inr (not_not.mp fun hne => hheld ⟨h, hne⟩)
      simpa [not_not.mp hpolicy] using hfree

theorem acquireLease_eq_self (h : (core.acquireLease p c).2 = false) :
    (core.acquireLease p c).1 = core := by
  simp only [acquireLease] at h ⊢
  split at h
  · rfl
  · split_ifs at h ⊢ <;> rfl

theorem releaseLease_eq_true_iff :
    (core.releaseLease p c).2 = true ↔
      ∃ topic, core.findTopic p = some topic ∧ topic.leaseHolderClientId = c := by
  simp only [releaseLease]
  split
  · next hnone => simp [hnone]
  · next topic htopic =>
    rw [htopic]
    split_ifs with hheld <;> simpa using hheld

/-- What `AcquireLease` writes: nothing when it fails, the caller into its topic otherwise. -/
theorem findTopic_acquireLease (q : ByteString) :
    (core.acquireLease p c).1.findTopic q =
      if q = p ∧ (core.acquireLease p c).2 = true then
        (core.findTopic p).map fun t => { t with leaseHolderClientId := c }
      else core.findTopic q := by
  cases hflag : (core.acquireLease p c).2 with
  | false =>
    rw [acquireLease_eq_self hflag]
    simp
  | true =>
    have hcore : (core.acquireLease p c).1 =
        core.writeTopic p fun t => { t with leaseHolderClientId := c } := by
      simp only [acquireLease] at hflag ⊢
      split at hflag
      · exact absurd hflag (by simp)
      · split_ifs at hflag ⊢
        rfl
    rw [hcore, findTopic_writeTopic core
      (f := fun t => { t with leaseHolderClientId := c }) (fun _ => rfl)]
    simp

theorem findTopic_releaseLease_of_ne {q : ByteString} (hq : q ≠ p) :
    (core.releaseLease p c).1.findTopic q = core.findTopic q := by
  simp only [releaseLease]
  split
  · rfl
  · split_ifs
    · rfl
    · exact (findTopic_writeTopic core (f := fun t => { t with leaseHolderClientId := [] })
        (fun _ => rfl) p q).trans (if_neg hq)

theorem releaseLease_eq_self (h : (core.releaseLease p c).2 = false) :
    (core.releaseLease p c).1 = core := by
  simp only [releaseLease] at h ⊢
  split at h
  · rfl
  · split_ifs at h ⊢
    rfl

theorem findTopic_registerTopic {topic : TopicRuntime} (now : TimePoint)
    (descriptor : TopicDescriptor) (h : core.findTopic p = some topic) :
    (core.registerTopic now descriptor).1.findTopic p = some topic := by
  simp only [registerTopic]
  split_ifs
  · exact h
  · exact h
  · have hfind : core.topics.find? (isTopic p) = some topic := h
    rw [findTopic, List.find?_append, hfind]
    rfl

theorem topics_connectClient (clock : ℕ → TimePoint) :
    (core.connectClient clock c).1.topics = core.topics := by
  simp only [connectClient]
  split_ifs <;> rfl

theorem topics_disconnectClient : (core.disconnectClient c).1.topics = core.topics := by
  simp only [disconnectClient]
  split_ifs <;> rfl

theorem topics_drainClientEvents : (core.drainClientEvents c).1.topics = core.topics := by
  simp only [drainClientEvents]
  split <;> rfl

theorem Holds.congr {core' : NativeLinkCore} (h : core.Holds p c)
    (htopics : core'.topics = core.topics) : core'.Holds p c := by
  obtain ⟨topic, htopic, hrest⟩ := h
  exact ⟨topic, by rw [findTopic, htopics]; exact htopic, hrest⟩

/-- A write stores into the topic, but not into its lease. -/
theorem Holds.performWrite (h : core.Holds p c) (clock : ℕ → TimePoint) (w : TopicWrite) :
    (core.performWrite clock w).1.Holds p c := by
  rcases performWrite_cases core clock w with ⟨reason, -, hresult⟩ | ⟨topic, htopic, -, hresult⟩
  · rw [hresult]
    exact h.congr rfl
  · obtain ⟨held, hheld, hpolicy, hholder⟩ := h
    rw [hresult]
    by_cases hp : p = w.topicPath
    · subst hp
      rw [htopic] at hheld
      obtain rfl := Option.some.inj hheld
      exact ⟨_, (findTopic_acceptWrite _ htopic _).trans (if_pos rfl), hpolicy, hholder⟩
    · exact ⟨held, (findTopic_acceptWrite _ htopic p).trans ((if_neg hp).trans hheld), hpolicy,
        hholder⟩

/-- A held lease survives every call except its holder's release and a new session. -/
theorem Holds.perform (h : core.Holds p c) (hc : c ≠ []) (call : Call)
    (hrelease : call.request ≠ .releaseLease p c)
    (hsession : call.request ≠ .beginNewSession) : (core.perform call).1.Holds p c := by
  obtain ⟨request, clock⟩ := call
  obtain ⟨topic, htopic, hpolicy, hholder⟩ := id h
  cases request with
  | registerTopic descriptor =>
    exact ⟨topic, findTopic_registerTopic (clock 0) descriptor htopic, hpolicy, hholder⟩
  | acquireLease q d =>
    have hfind : (core.acquireLease q d).1.findTopic p = _ := findTopic_acquireLease p
    split_ifs at hfind with hown
    · obtain ⟨rfl, hflag⟩ := hown
      obtain ⟨t, ht, -, hfree⟩ := acquireLease_eq_true_iff.mp hflag
      rw [htopic] at ht
      obtain rfl := Option.some.inj ht
      -- only the holder itself can have succeeded
      have hd : d = c := by
        rcases hfree with hfree | hfree
        · exact absurd (hholder.symm.trans hfree) hc
        · exact hfree.symm.trans hholder
      subst hd
      rw [htopic] at hfind
      exact ⟨_, hfind, hpolicy, rfl⟩
    · exact ⟨topic, hfind.trans htopic, hpolicy, hholder⟩
  | releaseLease q d =>
    by_cases hq : p = q
    · -- somebody else's release fails
      subst hq
      have hflag : (core.releaseLease p d).2 = false := by
        by_contra hne
        obtain ⟨t, ht, hd⟩ := releaseLease_eq_true_iff.mp (by simpa using hne)
        rw [htopic] at ht
        obtain rfl := Option.some.inj ht
        obtain rfl : d = c := hd.symm.trans hholder
        exact hrelease rfl
      exact h.congr (congrArg topics (releaseLease_eq_self hflag))
    · exact ⟨topic, (findTopic_releaseLease_of_ne hq).trans htopic, hpolicy, hholder⟩
  | connectClient d => exact h.congr (topics_connectClient clock)
  | disconnectClient d => exact h.congr topics_disconnectClient
  | publish q v d => exact h.performWrite clock ⟨q, v, d, false⟩
  | publishFromServer q v => exact h.performWrite clock ⟨q, v, serverId, true⟩
  | drainClientEvents d => exact h.congr topics_drainClientEvents
  | beginNewSession => exact absurd rfl hsession

/-- The run form: until the holder releases or a session begins, the lease stays where it is. -/
theorem Holds.after (h : core.Holds p c) (hc : c ≠ []) {calls : List Call}
    (hkept : ∀ call ∈ calls, call.request ≠ .releaseLease p c ∧
      call.request ≠ .beginNewSession) : (after NativeLinkCore.perform core calls).Holds p c :=
  after_induction_mem (P := (Holds · p c))
    (fun _ call hcall hs => hs.perform hc call (hkept call hcall).1 (hkept call hcall).2) h

/-- An accepted client publish on a leasable topic comes from its holder. -/
theorem holder_of_publish_accepted {clock : ℕ → TimePoint} {v : TopicValue}
    {topic : TopicRuntime} (haccepted : (core.publish clock p v c).2.accepted = true)
    (htopic : core.findTopic p = some topic)
    (hpolicy : topic.descriptor.writerPolicy = .leaseSingleWriter) :
    c ≠ [] ∧ topic.leaseHolderClientId = c := by
  rcases performWrite_cases core clock ⟨p, v, c, false⟩ with
    ⟨reason, -, hresult⟩ | ⟨t, ht, hnone, -⟩
  · have hpublish : core.publish clock p v c = _ := hresult
    rw [hpublish] at haccepted
    exact absurd haccepted (by simp)
  · simp only [rejection, htopic, hpolicy] at hnone
    split_ifs at hnone with hmatch hserver hlease hempty hother
    · exact ⟨not_not.mp hother ▸ hempty, not_not.mp hother⟩
    · exact absurd ⟨trivial, trivial⟩ hlease

/-- While `c` holds the lease nobody else acquires, releases or publishes the topic. -/
theorem Holds.excludes (h : core.Holds p c) (hc : c ≠ []) {call : Call} {d : ByteString}
    (hd : d ≠ c) (huse : UsesTopicAs p d call.request) :
    isSuccess (core.perform call).2 = false := by
  obtain ⟨request, clock⟩ := call
  obtain ⟨topic, htopic, hpolicy, hholder⟩ := h
  apply Bool.eq_false_iff.mpr
  intro hsuccess
  cases request with
  | acquireLease q e =>
    obtain ⟨rfl, rfl⟩ := huse
    obtain ⟨t, ht, -, hfree⟩ := acquireLease_eq_true_iff.mp hsuccess
    rw [htopic] at ht
    obtain rfl := Option.some.inj ht
    rcases hfree with hfree | hfree
    · exact hc (hholder.symm.trans hfree)
    · exact hd (hfree.symm.trans hholder)
  | releaseLease q e =>
    obtain ⟨rfl, rfl⟩ := huse
    obtain ⟨t, ht, hfree⟩ := releaseLease_eq_true_iff.mp hsuccess
    rw [htopic] at ht
    obtain rfl := Option.some.inj ht
    exact hd (hfree.symm.trans hholder)
  | publish q v e =>
    obtain ⟨rfl, rfl⟩ := huse
    exact hd ((holder_of_publish_accepted hsuccess htopic hpolicy).2.symm.trans hholder)
  | registerTopic _ | connectClient _ | disconnectClient _ | publishFromServer _ _
  | drainClientEvents _ | beginNewSession => exact huse

end Calls

/-! ### The lease discipline of a run -/

/-- The lease discipline of the run that makes `calls`: an accepted client publish on a leasable
topic comes from its non-empty holder, `AcquireLease` returns `true` exactly if the lease query
then names the caller, and from a successful acquire until the caller's release or a new session
no other client's acquire, release or publish of the topic succeeds. -/
structure LeaseDiscipline (calls : List Call) : Prop where
  writer : ∀ r ∈ history perform {} calls, ∀ p v c topic,
    r.input.request = .publish p v c → isSuccess r.output → r.before.findTopic p = some topic →
    topic.descriptor.writerPolicy = .leaseSingleWriter →
    c ≠ [] ∧ r.before.getTopicLeaseInfo p = ⟨true, c⟩
  acquire : ∀ r ∈ history perform {} calls, ∀ p c, r.input.request = .acquireLease p c →
    (isSuccess r.output ↔ (perform r.before r.input).1.getTopicLeaseInfo p = ⟨true, c⟩)
  exclusive : ∀ front clock between next back p c d,
    calls = front ++ ⟨.acquireLease p c, clock⟩ :: between ++ next :: back →
    isSuccess (perform (after perform {} front) ⟨.acquireLease p c, clock⟩).2 →
    (∀ call ∈ between, call.request ≠ .releaseLease p c ∧ call.request ≠ .beginNewSession) →
    d ≠ c → UsesTopicAs p d next.request →
    isSuccess (perform (after perform {} (front ++ ⟨.acquireLease p c, clock⟩ :: between))
      next).2 = false

/-- Somebody acquires a free leasable topic under the empty client id. -/
def IsAnonymousAcquire (r : CallRecord) : Prop :=
  ∃ p topic, r.input.request = .acquireLease p [] ∧ r.before.findTopic p = some topic ∧
    topic.descriptor.writerPolicy = .leaseSingleWriter ∧ topic.leaseHolderClientId = []

section Discipline

variable {core : NativeLinkCore} {p c : ByteString}

/-- After a successful acquire the caller holds the lease, unless the caller is nobody. -/
theorem holds_of_acquireLease (clock : ℕ → TimePoint)
    (hflag : isSuccess (core.perform ⟨.acquireLease p c, clock⟩).2) :
    (core.perform ⟨.acquireLease p c, clock⟩).1.Holds p c := by
  have hflag : (core.acquireLease p c).2 = true := hflag
  obtain ⟨topic, htopic, hpolicy, -⟩ := acquireLease_eq_true_iff.mp hflag
  have hfind : (core.acquireLease p c).1.findTopic p = _ := findTopic_acquireLease p
  rw [if_pos ⟨rfl, hflag⟩, htopic] at hfind
  exact ⟨_, hfind, hpolicy, rfl⟩

/-- The empty client id acquires only what is free. -/
theorem isAnonymousAcquire_of_success {clock : ℕ → TimePoint}
    (hflag : isSuccess (core.perform ⟨.acquireLease p [], clock⟩).2) (output : Reply) :
    IsAnonymousAcquire ⟨core, ⟨.acquireLease p [], clock⟩, output⟩ := by
  have hflag : (core.acquireLease p []).2 = true := hflag
  obtain ⟨topic, htopic, hpolicy, hfree⟩ := acquireLease_eq_true_iff.mp hflag
  exact ⟨p, topic, rfl, htopic, hpolicy, hfree.elim id id⟩

/-- If the lease query names the caller after an acquire, the acquire has succeeded. -/
theorem success_of_named (hcore : WellFormed core) (clock : ℕ → TimePoint)
    (hinfo : (core.perform ⟨.acquireLease p c, clock⟩).1.getTopicLeaseInfo p = ⟨true, c⟩) :
    isSuccess (core.perform ⟨.acquireLease p c, clock⟩).2 := by
  by_contra hfail
  have hflag : (core.acquireLease p c).2 = false := Bool.eq_false_iff.mpr hfail
  have hsame : (core.perform ⟨.acquireLease p c, clock⟩).1 = core := acquireLease_eq_self hflag
  rw [hsame] at hinfo
  obtain ⟨topic, htopic, hpolicy, hholder⟩ := hcore.holds hinfo
  exact hfail (acquireLease_eq_true_iff.mpr ⟨topic, htopic, hpolicy, .inr hholder⟩)

end Discipline

/-- A run obeys the lease discipline if and only if nobody acquires a free leasable topic under
the empty client id in it. -/
theorem leaseDiscipline_iff (calls : List Call) :
    LeaseDiscipline calls ↔ ∀ r ∈ history perform {} calls, ¬ IsAnonymousAcquire r := by
  constructor
  · -- an anonymous acquire succeeds, but the lease query has no name for it
    rintro hlaw r hr ⟨p, topic, hrequest, htopic, hpolicy, hfree⟩
    have hiff := hlaw.acquire r hr p [] hrequest
    obtain ⟨front, ⟨request, clock⟩, back, -, rfl⟩ := exists_split_of_mem_history hr
    subst hrequest
    have hsuccess : ((after perform {} front).acquireLease p []).2 = true :=
      acquireLease_eq_true_iff.mpr ⟨topic, htopic, hpolicy, .inl hfree⟩
    exact (getTopicLeaseInfo_eq_iff.mp (hiff.mp hsuccess)).1 rfl
  · intro hnamed
    refine ⟨?_, ?_, ?_⟩
    · intro r hr p v c topic hrequest haccepted htopic hpolicy
      obtain ⟨front, ⟨request, clock⟩, back, -, rfl⟩ := exists_split_of_mem_history hr
      subst hrequest
      obtain ⟨hc, hholder⟩ := holder_of_publish_accepted haccepted htopic hpolicy
      exact ⟨hc, getTopicLeaseInfo_eq_iff.mpr ⟨hc, topic, htopic, hholder⟩⟩
    · intro r hr p c hrequest
      have hwell := before_of_mem_history WellFormed.perform WellFormed.init hr
      have hnotAnonymous := hnamed r hr
      obtain ⟨front, ⟨request, clock⟩, back, -, rfl⟩ := exists_split_of_mem_history hr
      subst hrequest
      refine ⟨?_, success_of_named hwell clock⟩
      intro hsuccess
      have hc : c ≠ [] := by
        rintro rfl
        exact hnotAnonymous (isAnonymousAcquire_of_success hsuccess _)
      exact (holds_of_acquireLease clock hsuccess).getTopicLeaseInfo hc
    · -- the lease stays where it is until `next` is called
      intro front clock between next back p c d hcalls hsuccess hkept hd huse
      have hc : c ≠ [] := by
        rintro rfl
        refine hnamed _ ?_ (isAnonymousAcquire_of_success hsuccess
          (perform (after perform {} front) ⟨.acquireLease p [], clock⟩).2)
        rw [hcalls, List.append_assoc, history_append]
        exact List.mem_append_right _ List.mem_cons_self
      have hheld := (holds_of_acquireLease clock hsuccess).after hc hkept
      rw [after_append, after_cons]
      exact hheld.excludes hc hd huse

/-- A leasable topic exists and a client without an id asks for its lease. -/
def anonymousAcquire : List Call :=
  [(Request.registerTopic resetTopic).at 0,
    (Request.acquireLease resetTopic.topicPath []).at 0]

/-- The acquire is answered with `true` although the lease query names nobody afterwards. -/
theorem anonymousAcquire_breaks_discipline : ¬ LeaseDiscipline anonymousAcquire := by
  intro hlaw
  have h := hlaw.acquire
    ⟨after perform {} [(Request.registerTopic resetTopic).at 0],
      (Request.acquireLease resetTopic.topicPath []).at 0, .flag true⟩
    (List.mem_cons_of_mem _ List.mem_cons_self) resetTopic.topicPath [] rfl
  exact absurd (h.mp rfl) (by decide)

/-! ### Leases and connections -/

/-- A disconnect frees what the client held: until the client acts again, any other client can
acquire such a topic that no third client has taken. -/
def DisconnectFreesLeases : Prop :=
  ∀ (core : NativeLinkCore) (p c : ByteString) (clock : ℕ → TimePoint) (calls : List Call)
    (d : ByteString), core.Reachable → core.getTopicLeaseInfo p = ⟨true, c⟩ →
    (core.perform ⟨.disconnectClient c, clock⟩).2 = .flag true →
    (∀ call ∈ calls, ¬ ActsAs c call.request) → d ≠ c →
    (∀ e, e ≠ c → e ≠ d → (after perform (core.perform ⟨.disconnectClient c, clock⟩).1
      calls).getTopicLeaseInfo p ≠ ⟨true, e⟩) →
    ((after perform (core.perform ⟨.disconnectClient c, clock⟩).1 calls).acquireLease p d).2 =
      true

theorem Holds.acquireLease_beginNewSession {core : NativeLinkCore} {p c : ByteString}
    (h : core.Holds p c) (d : ByteString) : (core.beginNewSession.acquireLease p d).2 = true := by
  obtain ⟨topic, htopic, hpolicy, -⟩ := h
  refine acquireLease_eq_true_iff.mpr ⟨{ topic with leaseHolderClientId := [] }, ?_, hpolicy,
    .inl rfl⟩
  have hfind : core.topics.find? (isTopic p) = some topic := htopic
  have hcomp : (isTopic p ∘ fun t : TopicRuntime => { t with leaseHolderClientId := [] }) =
      isTopic p := rfl
  rw [findTopic, beginNewSession, List.find?_map, hcomp, hfind]
  rfl

/-- A lease outlives the connection of its holder: after `DisconnectClient(c)` and until `c` acts
again or a session begins, a topic `c` held still names it, every other client's `AcquireLease`
fails, and the next session frees it. -/
theorem lease_outlives_disconnect {core : NativeLinkCore} {p c : ByteString}
    {clock : ℕ → TimePoint} {calls : List Call} (hcore : core.Reachable)
    (hheld : core.getTopicLeaseInfo p = ⟨true, c⟩)
    (hquiet : ∀ call ∈ calls, ¬ ActsAs c call.request)
    (hsession : ∀ call ∈ calls, call.request ≠ .beginNewSession) :
    (after perform (core.perform ⟨.disconnectClient c, clock⟩).1 calls).getTopicLeaseInfo p =
        ⟨true, c⟩ ∧
      (∀ d, d ≠ c → ((after perform (core.perform ⟨.disconnectClient c, clock⟩).1
        calls).acquireLease p d).2 = false) ∧
      ∀ d, ((after perform (core.perform ⟨.disconnectClient c, clock⟩).1
        calls).beginNewSession.acquireLease p d).2 = true := by
  have hc := (getTopicLeaseInfo_eq_iff.mp hheld).1
  have hholds : (after perform (core.perform ⟨.disconnectClient c, clock⟩).1 calls).Holds p c := by
    refine Holds.after ?_ hc fun call hcall => ⟨?_, hsession call hcall⟩
    · exact (hcore.wellFormed.holds hheld).perform hc _ (by simp) (by simp)
    · intro hrelease
      exact hquiet call hcall (by rw [hrelease]; rfl)
  refine ⟨hholds.getTopicLeaseInfo hc, ?_, hholds.acquireLease_beginNewSession⟩
  intro d hd
  have hfails : isSuccess ((after perform (core.perform ⟨.disconnectClient c, clock⟩).1
      calls).perform ⟨.acquireLease p d, clock⟩).2 = false := hholds.excludes hc hd ⟨rfl, rfl⟩
  exact hfails

theorem lease_outlives_disconnect_dashboardA :
    ((after perform ((after perform {} twoDashboards).perform
      ⟨.disconnectClient dashboardA, fun _ => 0⟩).1 []).acquireLease resetTopic.topicPath
        dashboardB).2 = false :=
  (lease_outlives_disconnect (reachable_after twoDashboards) (p := resetTopic.topicPath)
    (c := dashboardA) (by decide) (by simp) (by simp)).2.1 dashboardB (by decide)

/-- The lease of the reset topic stays with the dashboard that left. -/
theorem disconnect_orphans_lease : ¬ DisconnectFreesLeases := by
  intro hfrees
  have h := hfrees (after perform {} twoDashboards) resetTopic.topicPath dashboardA (fun _ => 0)
    [] dashboardB ⟨twoDashboards, rfl⟩ (by decide) (by decide) (by simp) (by decide)
    fun e he _ hinfo => he (by
      have hholder : (⟨true, dashboardA⟩ : TopicLeaseInfo) = ⟨true, e⟩ := hinfo
      exact (TopicLeaseInfo.mk.inj hholder).2.symm)
  exact absurd h (by decide)

end NativeLinkCore

end SmartDashboard.NativeLink
