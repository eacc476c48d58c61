import SmartDashboard.NativeLink.Carrier
import SmartDashboard.NativeLink.Rejection

/-!
# The broadcast

Every accepted publish is sent to every ready connection by the broadcast. The core queues it for
every connected client as well, and the carriers hand that queue out when the client writes, so a
client that writes is sent the same publishes a second time. A client whose own writes find its
queue empty and are rejected is sent every accepted publish once, in order.
-/

namespace SmartDashboard.NativeLink

open Execution NativeLinkCore

/-- What identifies an accepted publish. -/
structure PublishedValue where
  serverSessionId : UInt64
  serverSequence : UInt64
  topicPath : ByteString
  sourceClientId : ByteString
  value : TopicValue
  deriving DecidableEq

/-- The publish an envelope tells of. -/
def UpdateEnvelope.published (e : UpdateEnvelope) : PublishedValue :=
  { serverSessionId := e.serverSessionId
    serverSequence := e.serverSequence
    topicPath := e.topicPath
    sourceClientId := e.sourceClientId
    value := e.value }

/-- The envelopes sent outside of a snapshot. -/
def Sending.envelopes : Sending → List UpdateEnvelope
  | .snapshot _ _ => []
  | .envelope e => [e]

def isAck (e : UpdateEnvelope) : Bool := e.deliveryKind == .liveCommandAck

/-- The publishes that the sendings tell of by envelopes that pass a test. -/
def told (test : UpdateEnvelope → Bool) (sendings : List Sending) : List PublishedValue :=
  ((sendings.flatMap Sending.envelopes).filter test).map UpdateEnvelope.published

namespace Authority

/-- The publish that an operation makes the core accept. -/
def acceptedPublish (authority : Authority) (op : Operation) : Option PublishedValue :=
  (authority.coreWrite op).bind fun (core, clock, w) =>
    let result := (core.performWrite clock w).2
    if result.accepted then
      some
        { serverSessionId := core.serverSessionId
          serverSequence := result.serverSequence
          topicPath := w.topicPath
          sourceClientId := w.sourceClientId
          value := w.value }
    else none

/-- The command that an operation of the connection `j` makes the core accept. -/
def acceptedCommand (authority : Authority) (j : ℕ) (op : Operation) : Option PublishedValue :=
  (authority.coreWrite op).bind fun (core, _, w) =>
    if writer op = some j ∧ core.IsClientCommand w then authority.acceptedPublish op else none

/-- An operation together with the publish it makes the core accept. -/
def step (authority : Authority) (op : Operation) : Authority × Option PublishedValue :=
  (authority.perform op, authority.acceptedPublish op)

/-- A state that a freshly constructed authority can be brought to. -/
def Reachable (authority : Authority) : Prop :=
  ∃ ops, after step {} ops = authority

/-- What the live messages sent to `j` tell of. -/
def liveSent (j : ℕ) (authority : Authority) : List PublishedValue :=
  told isLive (authority.connections j).sent

/-- What the acknowledgements sent to `j` tell of. -/
def acksSent (j : ℕ) (authority : Authority) : List PublishedValue :=
  told isAck (authority.connections j).sent

/-- `j` is connected throughout the run that performs `ops`. -/
def StaysConnected (j : ℕ) (start : Authority) (ops : List Operation) : Prop :=
  (start.connections j).ready ∧ ∀ op ∈ ops, managed op ≠ some j

instance (j : ℕ) (start : Authority) (ops : List Operation) :
    Decidable (StaysConnected j start ops) :=
  inferInstanceAs (Decidable (_ ∧ _))

/-- During the run that performs `ops` the connection `j` is sent one live message for each
accepted publish and one acknowledgement for each accepted command of its own, in order; within a
session the sequence numbers of the live messages never decrease. -/
structure DeliversOnce (j : ℕ) (start : Authority) (ops : List Operation) : Prop where
  live : liveSent j (after step start ops) =
    liveSent j start ++ (history step start ops).flatMap fun r => r.output.toList
  acks : acksSent j (after step start ops) =
    acksSent j start ++
      (history step start ops).flatMap fun r => (r.before.acceptedCommand j r.input).toList
  ordered : (∀ op ∈ ops, op ≠ .beginNewSession) →
    ((liveSent j (after step start ops)).drop (liveSent j start).length).Pairwise
      fun a b => a.serverSequence ≤ b.serverSequence

/-- The operation sends `j` nothing but its broadcast: if it is a write of `j`, nothing is queued
for `j` and the core rejects it, or does not know `j` and the topic takes no commands. The counter
of the session has not come round to zero. -/
def SendsOnce (j : ℕ) (authority : Authority) (op : Operation) : Prop :=
  ∀ write ∈ authority.coreWrite op,
    (write.1.rejection write.2.2 = none → write.1.nextServerSequence ≠ 0) ∧
      (writer op = some j → queue write.2.2.sourceClientId write.1 = [] ∧
        (write.1.rejection write.2.2 ≠ none ∨
          ¬ write.1.IsConnected write.2.2.sourceClientId ∧ ¬ write.1.IsClientCommand write.2.2))

instance (j : ℕ) (authority : Authority) (op : Operation) :
    Decidable (SendsOnce j authority op) :=
  inferInstanceAs (Decidable (∀ _ ∈ authority.coreWrite op, _))

end Authority

/-! ### One write -/

section Write

variable {core : NativeLinkCore} {clock : ℕ → TimePoint} {w : TopicWrite}

theorem told_append (test : UpdateEnvelope → Bool) (first second : List Sending) :
    told test (first ++ second) = told test first ++ told test second := by
  simp only [told, List.flatMap_append, List.filter_append, List.map_append]

theorem told_envelopes (test : UpdateEnvelope → Bool) (envelopes : List UpdateEnvelope) :
    told test (envelopes.map .envelope) =
      (envelopes.filter test).map UpdateEnvelope.published := by
  have hflat : (envelopes.map Sending.envelope).flatMap Sending.envelopes = envelopes := by
    induction envelopes with
    | nil => rfl
    | cons e envelopes ih => exact congrArg (e :: ·) ih
  rw [told, hflat]

/-- The broadcast of a write tells of the publish exactly if the core accepts it. -/
theorem broadcastOf_cases (core : NativeLinkCore) (clock : ℕ → TimePoint) (w : TopicWrite) :
    ((core.performWrite clock w).2.accepted = false ∧ core.rejection w ≠ none ∧
      Authority.broadcastOf core w = none) ∨
    ((core.performWrite clock w).2.accepted = true ∧ core.rejection w = none ∧
      ∃ e, Authority.broadcastOf core w = some e ∧ isLive e ∧ isAck e = false ∧
        e.published = ⟨core.serverSessionId, (core.performWrite clock w).2.serverSequence,
          w.topicPath, w.sourceClientId, w.value⟩) := by
  rcases core.performWrite_cases clock w with
    ⟨reason, hreason, hresult⟩ | ⟨topic, htopic, hnone, hresult⟩
  · refine .inl ⟨by rw [hresult], by simp [hreason], ?_⟩
    rw [Authority.broadcastOf, hreason]
    exact if_neg (by simp)
  · refine .inr ⟨by rw [hresult]; rfl, hnone, Authority.broadcastEnvelope core.serverSessionId
      core.nextServerSequence topic w.topicPath w.sourceClientId w.value, ?_, ?_, ?_, ?_⟩
    · rw [Authority.broadcastOf, if_pos hnone, htopic]
      rfl
    · simp only [isLive, Authority.broadcastEnvelope]
      split_ifs <;> rfl
    · simp only [isAck, Authority.broadcastEnvelope]
      split_ifs <;> rfl
    · rw [hresult]
      rfl

/-- What a rejected write leaves for its writer is neither live nor an acknowledgement, and a
write of somebody the core does not know leaves nothing. -/
theorem drained_of_quiet (hserver : w.allowServerOnly = false)
    (hempty : queue w.sourceClientId core = [])
    (hquiet : core.rejection w ≠ none ∨ ¬ core.IsConnected w.sourceClientId) :
    ∀ e ∈ ((core.performWrite clock w).1.drainClientEvents w.sourceClientId).2,
      isLive e = false ∧ isAck e = false := by
  obtain ⟨topicPath, value, clientId, allowServerOnly⟩ := w
  obtain rfl : allowServerOnly = false := hserver
  intro e he
  have hpending : (core.perform ⟨.publish topicPath value clientId, clock⟩).1.pendingEvents
      clientId = _ := pendingEvents_perform_write rfl clientId
  have hdrained : e ∈ queue clientId
      (core.performWrite clock ⟨topicPath, value, clientId, false⟩).1 := by
    rwa [drainClientEvents_reply] at he
  have hcall : (core.perform ⟨.publish topicPath value clientId, clock⟩).1 =
      (core.performWrite clock ⟨topicPath, value, clientId, false⟩).1 := rfl
  rw [hcall] at hpending
  rw [queue, hpending] at hdrained
  cases hqueue : core.pendingEvents clientId with
  | none =>
    rw [hqueue] at hdrained
    exact absurd hdrained (List.not_mem_nil)
  | some events =>
    obtain rfl : events = [] := by simpa [queue, hqueue] using hempty
    have hconn : core.IsConnected clientId := by simp [NativeLinkCore.IsConnected, hqueue]
    have hrejected := hquiet.resolve_right (not_not.mpr hconn)
    obtain ⟨reason, -, hresult⟩ | ⟨topic, -, hnone, -⟩ :=
      core.performWrite_cases clock ⟨topicPath, value, clientId, false⟩
    · have hone : deliveries clientId ⟨core, ⟨.publish topicPath value clientId, clock⟩,
          (core.perform ⟨.publish topicPath value clientId, clock⟩).2⟩ = _ :=
        (deliveries_of_rejection rfl (by rw [hresult]) clientId).2
      rw [hqueue, Option.map_some, Option.getD_some, List.nil_append, hone, if_pos rfl,
        List.mem_singleton] at hdrained
      obtain ⟨hkind, -, -⟩ := rejectEnvelope_spec core (clock 0)
        ⟨topicPath, value, clientId, false⟩ reason
      rw [hdrained, isLive, isAck, hkind]
      exact ⟨rfl, rfl⟩
    · exact absurd hnone hrejected

end Write

section Step

variable {authority : Authority} {j : ℕ} {op : Operation}

namespace Authority

theorem acceptedPublish_of_write {core : NativeLinkCore} {clock : ℕ → TimePoint} {w : TopicWrite}
    (hwrite : authority.coreWrite op = some (core, clock, w)) :
    authority.acceptedPublish op =
      if (core.performWrite clock w).2.accepted then
        some ⟨core.serverSessionId, (core.performWrite clock w).2.serverSequence, w.topicPath,
          w.sourceClientId, w.value⟩
      else none := by
  rw [acceptedPublish, hwrite]
  rfl

theorem told_sendings_of_not_write (hwrite : authority.coreWrite op = none)
    (test : UpdateEnvelope → Bool) : told test (authority.sendings j op) = [] := by
  cases op with
  | publishSnapshot i clock =>
    simp only [sendings]
    split_ifs <;> rfl
  | registerTopic _ _ | attach _ _ | setReady _ _ | evict _ | publishFromServer _ _ _
  | clientWrite _ _ _ | beginNewSession =>
    rw [sendings_of_not_write hwrite (by simp)]
    rfl

/-- The step form: an operation that sends once sends its publish and its acknowledgement. -/
theorem SendsOnce.told_sendings (h : SendsOnce j authority op) :
    told isLive (authority.sendings j op) = (authority.acceptedPublish op).toList ∧
      told isAck (authority.sendings j op) = (authority.acceptedCommand j op).toList := by
  cases hwrite : authority.coreWrite op with
  | none =>
    rw [told_sendings_of_not_write hwrite, told_sendings_of_not_write hwrite]
    simp only [acceptedPublish, acceptedCommand, hwrite]
    exact ⟨rfl, rfl⟩
  | some write =>
    obtain ⟨core, clock, w⟩ := write
    obtain ⟨-, hown⟩ := h _ hwrite
    rw [sendings_of_write hwrite, told_append, told_append]
    have hdrained : told isLive (if writer op = some j then
          ((core.performWrite clock w).1.drainClientEvents w.sourceClientId).2.map .envelope
        else []) = [] ∧ told isAck (if writer op = some j then
          ((core.performWrite clock w).1.drainClientEvents w.sourceClientId).2.map .envelope
        else []) = [] := by
      split_ifs with hwriter
      · obtain ⟨hempty, hquiet⟩ := hown hwriter
        have hnothing : ∀ e ∈ ((core.performWrite clock w).1.drainClientEvents
            w.sourceClientId).2, isLive e = false ∧ isAck e = false :=
          drained_of_quiet (allowServerOnly_of_writer hwrite hwriter) hempty
            (hquiet.imp_right And.left)
        rw [told_envelopes, told_envelopes, List.filter_eq_nil_iff.mpr, List.filter_eq_nil_iff.mpr]
        · exact ⟨rfl, rfl⟩
        · exact fun e he => by simp [(hnothing e he).2]
        · exact fun e he => by simp [(hnothing e he).1]
      · exact ⟨rfl, rfl⟩
    have hcommand : authority.acceptedCommand j op =
        if writer op = some j ∧ core.IsClientCommand w then authority.acceptedPublish op
        else none := by
      rw [acceptedCommand, hwrite]
      rfl
    rw [hdrained.1, hdrained.2, hcommand, acceptedPublish_of_write hwrite]
    obtain ⟨hresult, hrejected, hbroadcast⟩ |
        ⟨hresult, haccepted, e, hbroadcast, hlive, hack, he⟩ :=
      broadcastOf_cases core clock w
    · rw [hbroadcast, hresult, if_neg Bool.false_ne_true, ite_self]
      exact ⟨rfl, rfl⟩
    · -- an accepted write of `j` itself is no command
      have hnone : ¬ (writer op = some j ∧ core.IsClientCommand w) := fun hboth =>
        (hown hboth.1).2.elim (fun hrejected => hrejected haccepted) fun hunknown =>
          hunknown.2 hboth.2
      rw [hbroadcast, hresult, if_pos rfl, if_neg hnone, ← he]
      exact ⟨by simp [told, Sending.envelopes, hlive], by simp [told, Sending.envelopes, hack]⟩

/-! ### The counter of the session -/

theorem sessionCounters_leaseForWriter (core : NativeLinkCore) (topicPath clientId : ByteString) :
    sessionCounters (leaseForWriter core topicPath clientId) = sessionCounters core := by
  simp only [leaseForWriter]
  split_ifs
  · exact sessionCounters_perform ((Request.acquireLease topicPath clientId).at 0) rfl
      (by simp [Request.at])
  · rfl

/-- The counter an operation leaves behind is the one its write leaves behind. -/
theorem nextServerSequence_of_write {core : NativeLinkCore} {clock : ℕ → TimePoint}
    {w : TopicWrite} (hwrite : authority.coreWrite op = some (core, clock, w)) :
    core.nextServerSequence = authority.core.nextServerSequence ∧
      (authority.perform op).core.nextServerSequence =
        (core.performWrite clock w).1.nextServerSequence := by
  cases op with
  | publishFromServer topicPath value clock =>
    obtain ⟨rfl, rfl, rfl⟩ : authority.core = core ∧ _ ∧ _ := by
      simpa only [Prod.mk.injEq] using Option.some.inj hwrite
    exact ⟨rfl, congrArg nextServerSequence (core_publishFromServer authority ..)⟩
  | clientWrite i message clock =>
    obtain ⟨⟨topicPath, value⟩, hreceived, hw⟩ := Option.map_eq_some_iff.mp hwrite
    simp only [Prod.mk.injEq] at hw
    obtain ⟨rfl, rfl, rfl⟩ := hw
    refine ⟨congrArg Prod.snd (sessionCounters_leaseForWriter ..), ?_⟩
    rw [perform, core_handleClientWrite authority clock i hreceived]
    exact congrArg Prod.snd (sessionCounters_perform
      ⟨.drainClientEvents (authority.connections i).clientId, clock⟩ rfl (by simp))
  | registerTopic _ _ | attach _ _ | setReady _ _ | evict _ | publishSnapshot _ _
  | beginNewSession => cases hwrite

/-- Within a session an operation has the core accept nothing and leaves the counter alone, or has
it accept a publish that carries the counter's value and moves it on. -/
theorem acceptedPublish_step (hop : op ≠ .beginNewSession) :
    (authority.acceptedPublish op = none ∧
      (authority.perform op).core.nextServerSequence = authority.core.nextServerSequence) ∨
    ∃ p, authority.acceptedPublish op = some p ∧
      p.serverSequence = authority.core.nextServerSequence ∧
      (authority.perform op).core.nextServerSequence = authority.core.nextServerSequence + 1 := by
  cases hwrite : authority.coreWrite op with
  | none =>
    refine .inl ⟨by rw [acceptedPublish, hwrite]; rfl, ?_⟩
    cases op with
    | registerTopic descriptor now =>
      exact congrArg Prod.snd
        (sessionCounters_perform ((Request.registerTopic descriptor).at now) rfl
          (by simp [Request.at]))
    | attach i clientId => rfl
    | setReady i ready => rfl
    | evict i =>
      exact congrArg Prod.snd (sessionCounters_perform
        ((Request.disconnectClient (authority.connections i).clientId).at 0) rfl
          (by simp [Request.at]))
    | publishSnapshot i clock =>
      exact congrArg Prod.snd (sessionCounters_perform
        ⟨.connectClient (authority.connections i).clientId, clock⟩ rfl (by simp))
    | publishFromServer topicPath value clock => cases hwrite
    | clientWrite i message clock =>
      have hreceived : receiveWrite message = none := Option.map_eq_none_iff.mp hwrite
      rw [perform, handleClientWrite, hreceived]
    | beginNewSession => exact absurd rfl hop
  | some write =>
    obtain ⟨core, clock, w⟩ := write
    obtain ⟨hbefore, hafter⟩ := nextServerSequence_of_write hwrite
    rw [acceptedPublish_of_write hwrite, hafter, ← hbefore]
    obtain ⟨reason, -, hresult⟩ | ⟨topic, -, -, hresult⟩ := core.performWrite_cases clock w
    · rw [hresult]
      exact .inl ⟨rfl, rfl⟩
    · rw [hresult]
      exact .inr ⟨_, rfl, rfl, nextServerSequence_acceptWrite⟩

end Authority

end Step

/-! ### Runs -/

theorem le_add_one_of_ne_zero {n : UInt64} (h : n + 1 ≠ 0) : n ≤ n + 1 := by
  rw [UInt64.le_iff_toNat_le, UInt64.toNat_add]
  have hlt := n.toNat_lt
  have hround : (n.toNat + 1) % 2 ^ 64 ≠ 0 := fun hzero =>
    h (UInt64.toNat_inj.mp (by rw [UInt64.toNat_add]; exact hzero))
  simp only [UInt64.toNat_one]
  omega

namespace Authority

variable {j : ℕ} {start : Authority} {ops : List Operation}

theorem StaysConnected.tail {op : Operation} (h : StaysConnected j start (op :: ops)) :
    StaysConnected j (start.perform op) ops := by
  refine ⟨?_, fun b hb => h.2 b (List.mem_cons_of_mem op hb)⟩
  rw [connections_perform start j (h.2 op List.mem_cons_self), Connection.send, if_pos h.1]
  exact h.1

/-- What a test lets through of the sendings of a run is what its operations send. -/
theorem told_after (test : UpdateEnvelope → Bool) (hready : StaysConnected j start ops) :
    told test ((after step start ops).connections j).sent =
      told test (start.connections j).sent ++
        (history step start ops).flatMap fun r => told test (r.before.sendings j r.input) := by
  induction ops generalizing start with
  | nil => exact (List.append_nil _).symm
  | cons op ops ih =>
    rw [after_cons, history_cons, List.flatMap_cons, ← List.append_assoc, ← told_append]
    refine (ih hready.tail).trans ?_
    rw [step, sent_perform, sentBy, if_pos hready.1]

theorem nextServerSequence_ne_zero {op : Operation} {p : PublishedValue}
    (h : SendsOnce j start op) (hp : start.acceptedPublish op = some p) :
    start.core.nextServerSequence ≠ 0 := by
  cases hwrite : start.coreWrite op with
  | none =>
    rw [acceptedPublish, hwrite] at hp
    cases hp
  | some write =>
    obtain ⟨core, clock, w⟩ := write
    rw [acceptedPublish_of_write hwrite] at hp
    obtain ⟨hresult, -, -⟩ | ⟨-, haccepted, -⟩ := broadcastOf_cases core clock w
    · rw [hresult, if_neg Bool.false_ne_true] at hp
      cases hp
    · rw [← (nextServerSequence_of_write hwrite).1]
      exact (h _ hwrite).1 haccepted

/-- Within a session the accepted publishes are numbered upwards, from the counter on. -/
theorem ordered_of_sendsOnce
    (hquiet : ∀ r ∈ history step start ops, SendsOnce j r.before r.input)
    (hsession : ∀ op ∈ ops, op ≠ .beginNewSession) :
    ((history step start ops).flatMap fun r => r.output.toList).Pairwise
        (fun a b => a.serverSequence ≤ b.serverSequence) ∧
      ∀ p ∈ (history step start ops).flatMap fun r => r.output.toList,
        start.core.nextServerSequence ≠ 0 ∧ start.core.nextServerSequence ≤ p.serverSequence := by
  induction ops generalizing start with
  | nil => exact ⟨.nil, fun p hp => absurd hp List.not_mem_nil⟩
  | cons op ops ih =>
    rw [history_cons, List.forall_mem_cons] at hquiet
    rw [List.forall_mem_cons] at hsession
    obtain ⟨hsorted, hlower⟩ := ih hquiet.2 hsession.2
    rw [history_cons, List.flatMap_cons]
    obtain ⟨hnone, hcounter⟩ | ⟨p, hp, hseq, hcounter⟩ := acceptedPublish_step hsession.1
    · have houtput : (start.step op).2 = none := hnone
      have hkept : (start.step op).1.core.nextServerSequence =
        start.core.nextServerSequence := hcounter
      rw [hkept] at hlower
      rw [houtput]
      exact ⟨hsorted, hlower⟩
    · have houtput : (start.step op).2 = some p := hp
      have hmoved : (start.step op).1.core.nextServerSequence =
        start.core.nextServerSequence + 1 := hcounter
      have hne := nextServerSequence_ne_zero hquiet.1 hp
      rw [hmoved] at hlower
      have hrest : ∀ q ∈ (history step (start.step op).1 ops).flatMap fun r => r.output.toList,
          start.core.nextServerSequence ≤ q.serverSequence := by
        intro q hq
        obtain ⟨hround, hle⟩ := hlower q hq
        exact UInt64.le_trans (le_add_one_of_ne_zero hround) hle
      rw [houtput, Option.toList_some, List.singleton_append, List.pairwise_cons,
        List.forall_mem_cons]
      refine ⟨⟨fun q hq => hseq ▸ hrest q hq, hsorted⟩, ⟨hne, hseq ▸ UInt64.le_refl _⟩, ?_⟩
      exact fun q hq => ⟨hne, hrest q hq⟩

/-- A client that stays connected and whose own writes find nothing queued and are rejected, or are
no commands and come from an id the core does not know, is sent one live message for each accepted
publish and one acknowledgement for each accepted command of its own, and the sequence numbers do
not decrease within a session, as long as the counter does not come round to zero. -/
theorem deliversOnce (hready : StaysConnected j start ops)
    (hquiet : ∀ r ∈ history step start ops, SendsOnce j r.before r.input) :
    DeliversOnce j start ops := by
  have hrecords : ∀ r ∈ history step start ops,
      told isLive (r.before.sendings j r.input) = r.output.toList ∧
        told isAck (r.before.sendings j r.input) =
          (r.before.acceptedCommand j r.input).toList := by
    intro r hr
    have hsends := (hquiet r hr).told_sendings
    obtain ⟨front, op, back, -, rfl⟩ := exists_split_of_mem_history hr
    exact hsends
  have hlive : liveSent j (after step start ops) =
      liveSent j start ++ (history step start ops).flatMap fun r => r.output.toList := by
    rw [liveSent, told_after isLive hready]
    exact congrArg _ (List.flatMap_congr fun r hr => (hrecords r hr).1)
  refine ⟨hlive, ?_, ?_⟩
  · rw [acksSent, told_after isAck hready]
    exact congrArg _ (List.flatMap_congr fun r hr => (hrecords r hr).2)
  · intro hsession
    rw [hlive, List.drop_left]
    exact (ordered_of_sendsOnce hquiet hsession).1

section Example

/-- A number that the server and a client with the lease may write. -/
def testMoveTopic : TopicDescriptor :=
  { topicPath := ascii ['T', 'e', 's', 't', 'M', 'o', 'v', 'e']
    valueType := .double
    retentionMode := .latestValue
    replayOnSubscribe := true
    writerPolicy := .leaseSingleWriter }

/-- One topic, and one client that has its snapshot. -/
def oneDashboard : List Operation :=
  [.registerTopic testMoveTopic 0, .setReady 0 true, .attach 0 dashboardA,
    .publishSnapshot 0 fun _ => 0]

/-- The server publishes twice. -/
def serverMoves : List Operation :=
  [.publishFromServer testMoveTopic.topicPath (.ofDouble 7) fun _ => 0,
    .publishFromServer testMoveTopic.topicPath (.ofDouble 8) fun _ => 0]

theorem deliversOnce_serverMoves : DeliversOnce 0 (after step {} oneDashboard) serverMoves :=
  deliversOnce (by decide) (by decide)

/-- The client publishes once itself. -/
def clientMoves : List Operation :=
  [.clientWrite 0 (clientMessage dashboardA testMoveTopic.topicPath (.ofDouble 7)) fun _ => 0]

/-- The client is sent its own publish from its queue and by the broadcast. -/
theorem own_publish_is_sent_twice : ¬ ∀ (start : Authority) (j : ℕ) (ops : List Operation),
    start.Reachable → StaysConnected j start ops → DeliversOnce j start ops := by
  intro hall
  have hlive := (hall (after step {} oneDashboard) 0 clientMoves ⟨oneDashboard, rfl⟩
    (by decide)).live
  exact absurd hlive (by decide +kernel)

end Example

end Authority

end SmartDashboard.NativeLink
