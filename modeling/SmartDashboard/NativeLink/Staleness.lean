import SmartDashboard.NativeLink.Carrier
import SmartDashboard.NativeLink.Client

/-!
# Gaps between heartbeats

A client that sees no heartbeat for a while goes back to the descriptor phase, in which it drops
every update. Only the markers of a snapshot take it out again, and an authority that has sent its
snapshot sends no other one in the session. What a client loses in this way it gets back only if
the end of the snapshot is still on its way.

This module has what both carriers share, and the TCP carrier.

## Main definitions

- `reopens`: the messages on their way take a client out of the descriptor phase
- `TcpLink`, `TcpLink.next`: an authority and a client on one connection
- `TcpLink.Stuck`: the client drops every update for good
-/

namespace SmartDashboard.NativeLink

open Execution

/-! ### Phases -/

/-- The marker a client takes a message for. -/
def SharedMessage.marker (message : SharedMessage) : Option Boundary :=
  readBoundary (readUtf8 message.topicPath)

/-- Some message starts the state or the live phase, and no later one starts a snapshot. -/
def reopens : List SharedMessage → Bool
  | [] => false
  | message :: messages =>
    reopens messages ||
      ((message.marker = some .stateBegin || message.marker = some .liveBegin) &&
        messages.all fun later => later.marker ≠ some .snapshotBegin)

namespace SnapshotPhase

/-- The phase of a client after one message. -/
def step (phase : SnapshotPhase) (message : SharedMessage) : SnapshotPhase :=
  match message.marker with
  | some .snapshotBegin => .descriptors
  | some .stateBegin => .stateSnapshot
  | some .liveBegin => .live
  | some .descriptorEnd | some .stateEnd | none => phase

/-- The phase of a client after the messages. -/
def afterMessages (phase : SnapshotPhase) (messages : List SharedMessage) : SnapshotPhase :=
  messages.foldl step phase

variable {phase : SnapshotPhase} {message : SharedMessage} {messages : List SharedMessage}

theorem afterMessages_append (phase : SnapshotPhase) (front back : List SharedMessage) :
    phase.afterMessages (front ++ back) = (phase.afterMessages front).afterMessages back :=
  List.foldl_append

theorem step_ne_descriptors (hphase : phase ≠ .descriptors)
    (hmarker : message.marker ≠ some .snapshotBegin) : phase.step message ≠ .descriptors := by
  rw [step]
  split
  · next hbegin => exact absurd hbegin hmarker
  · simp
  · simp
  · exact hphase
  · exact hphase
  · exact hphase

theorem afterMessages_ne_descriptors (hphase : phase ≠ .descriptors)
    (hmarkers : ∀ message ∈ messages, message.marker ≠ some .snapshotBegin) :
    phase.afterMessages messages ≠ .descriptors := by
  induction messages generalizing phase with
  | nil => exact hphase
  | cons message messages ih =>
    rw [List.forall_mem_cons] at hmarkers
    exact ih (step_ne_descriptors hphase hmarkers.1) hmarkers.2

/-- From whatever phase a client gets the messages, it is not in the descriptor phase after them. -/
theorem afterMessages_of_reopens (phase : SnapshotPhase) (h : reopens messages) :
    phase.afterMessages messages ≠ .descriptors := by
  induction messages generalizing phase with
  | nil => cases h
  | cons message messages ih =>
    rw [reopens, Bool.or_eq_true] at h
    obtain hlater | hfirst := h
    · exact ih _ hlater
    · rw [Bool.and_eq_true, Bool.or_eq_true] at hfirst
      obtain ⟨hopens, hrest⟩ := hfirst
      have hnext : phase.step message ≠ .descriptors := by
        rw [step]
        obtain hopens | hopens := hopens <;> rw [of_decide_eq_true hopens] <;> simp
      apply afterMessages_ne_descriptors hnext
      intro later hlater
      exact of_decide_eq_true (List.all_eq_true.mp hrest later hlater)

end SnapshotPhase

theorem TcpClient.snapshotPhase_handleMessage (client : TcpClient) (message : SharedMessage) :
    (client.handleMessage message).1.snapshotPhase = client.snapshotPhase.step message := by
  rw [TcpClient.handleMessage, SnapshotPhase.step, SharedMessage.marker]
  split <;> simp_all

theorem TcpClient.snapshotPhase_maybeReportStale (client : TcpClient)
    (heartbeatStaleTimeoutMs : UInt32) (nowUs : UInt64) :
    (client.maybeReportStale heartbeatStaleTimeoutMs nowUs).1.snapshotPhase =
      if client.lastHeartbeatUs ≠ 0 ∧ client.isStale heartbeatStaleTimeoutMs nowUs then .descriptors
      else client.snapshotPhase := by
  rw [TcpClient.maybeReportStale]
  by_cases hnone : client.lastHeartbeatUs = 0
  · rw [if_pos hnone, if_neg fun h => h.1 hnone]
  · rw [if_neg hnone]
    by_cases hstale : client.isStale heartbeatStaleTimeoutMs nowUs
    · rw [if_pos hstale]
      exact (if_pos ⟨hnone, hstale⟩).symm
    · rw [if_neg hstale, if_neg fun h => hstale h.2]

/-! ### What an authority sends -/

/-- An envelope that a client takes for the start of a snapshot. -/
def Sending.isFalseStart : Sending → Bool
  | .snapshot _ _ => false
  | .envelope e => e.boundary = some .snapshotBegin

namespace Authority

/-- The operation neither ends the session nor the connection. -/
def keepsConnection (j : ℕ) : Operation → Bool
  | .setReady i ready => i ≠ j || ready
  | .evict i => i ≠ j
  | .beginNewSession => false
  | _ => true

/-- The messages that an operation sends to the connection `j`. -/
def messagesTo (authority : Authority) (j : ℕ) (op : Operation) : List SharedMessage :=
  (authority.sentBy j op).flatMap Sending.messages

/-- The operation sends a snapshot to the connection `j`. -/
def sendsSnapshot (authority : Authority) (j : ℕ) (op : Operation) : Bool :=
  (authority.sentBy j op).any Sending.isSnapshot

variable {authority : Authority} {j : ℕ} {op : Operation} {phase : SnapshotPhase}

/-- The session of the authority is that of its core. -/
theorem serverSessionId_perform (hop : keepsConnection j op) :
    (authority.perform op).core.serverSessionId = authority.core.serverSessionId := by
  have hcalls : ∀ call ∈ authority.calls op, call.request ≠ .beginNewSession := by
    intro call hcall
    cases op with
    | beginNewSession => cases hop
    | attach i clientId | setReady i ready => exact absurd hcall List.not_mem_nil
    | registerTopic descriptor now | evict i | publishSnapshot i clock
    | publishFromServer topicPath value clock =>
      rw [List.mem_singleton.mp hcall]
      simp [Request.at]
    | clientWrite i message clock =>
      simp only [calls] at hcall
      split at hcall
      · exact absurd hcall List.not_mem_nil
      · obtain hlease | hwrite := List.mem_append.mp hcall
        · split_ifs at hlease
          · rw [List.mem_singleton.mp hlease]
            simp
          · exact absurd hlease List.not_mem_nil
        · simp only [List.mem_cons, List.not_mem_nil, or_false] at hwrite
          obtain rfl | rfl := hwrite
          · simp
          · simp
  rw [core_perform, NativeLinkCore.serverSessionId_after]
  have hnone : NativeLinkCore.newSessions (authority.calls op) = 0 := by
    rw [NativeLinkCore.newSessions, List.countP_eq_zero]
    intro call hcall
    simpa using hcalls call hcall
  rw [hnone]
  exact UInt64.add_zero _

/-- The last message of a snapshot is the live marker. -/
theorem afterMessages_snapshot (phase : SnapshotPhase) (core : NativeLinkCore)
    (clock : ℕ → TimePoint) (clientId : ByteString) (serverSessionId : UInt64) :
    phase.afterMessages (Sending.snapshot serverSessionId
      (core.buildSnapshotForClient clock clientId)).messages = .live := by
  obtain ⟨-, -, -, -, hlive⟩ := boundary_snapshotEnvelope serverSessionId
  have hlast : (serverMessage (snapshotEnvelope serverSessionId { kind := .liveBegin })).marker =
      some .liveBegin := (readBoundary_serverMessage _).trans hlive
  have hopen : ∀ before : SnapshotPhase, before.afterMessages
      [serverMessage (snapshotEnvelope serverSessionId { kind := .liveBegin })] = .live := by
    intro before
    rw [SnapshotPhase.afterMessages, List.foldl_cons, List.foldl_nil, SnapshotPhase.step, hlast]
  rw [Sending.messages, NativeLinkCore.buildSnapshotForClient, List.append_cons, List.map_append,
    SnapshotPhase.afterMessages_append]
  exact hopen _

/-- A snapshot that an operation sends is one of the core. -/
theorem snapshot_of_mem_sentBy {serverSessionId : UInt64} {events : List SnapshotEvent}
    (hmem : Sending.snapshot serverSessionId events ∈ authority.sentBy j op) :
    ∃ (core : NativeLinkCore) (clock : ℕ → TimePoint) (clientId : ByteString),
      events = core.buildSnapshotForClient clock clientId := by
  rw [sentBy] at hmem
  split_ifs at hmem
  · cases op with
    | publishSnapshot i clock =>
      simp only [sendings] at hmem
      split_ifs at hmem
      · exact ⟨_, clock, (authority.connections i).clientId,
          (Sending.snapshot.inj (List.mem_singleton.mp hmem)).2⟩
      · exact absurd hmem List.not_mem_nil
    | registerTopic _ _ | attach _ _ | setReady _ _ | evict _ | publishFromServer _ _ _
    | clientWrite _ _ _ | beginNewSession =>
      simp only [sendings, List.mem_append, Option.mem_toList, Option.map_eq_some_iff] at hmem
      obtain hdrained | ⟨e, -, he⟩ := hmem
      · split_ifs at hdrained
        · obtain ⟨e, -, he⟩ := List.mem_map.mp hdrained
          cases he
        · exact absurd hdrained List.not_mem_nil
      · cases he
  · exact absurd hmem List.not_mem_nil

/-- After a sending the client is not in the descriptor phase, if it was not before or the sending
is a snapshot. -/
theorem afterMessages_sending {sending : Sending} (hmem : sending ∈ authority.sentBy j op)
    (hstart : sending.isFalseStart = false)
    (hphase : phase ≠ .descriptors ∨ sending.isSnapshot) :
    phase.afterMessages sending.messages ≠ .descriptors := by
  cases sending with
  | envelope e =>
    have hne : phase ≠ .descriptors := hphase.resolve_right Bool.false_ne_true
    apply SnapshotPhase.step_ne_descriptors hne
    rw [SharedMessage.marker, readBoundary_serverMessage]
    exact of_decide_eq_false hstart
  | snapshot serverSessionId events =>
    obtain ⟨core, clock, clientId, rfl⟩ := snapshot_of_mem_sentBy hmem
    rw [afterMessages_snapshot]
    simp

/-- After what an operation sends the client is not in the descriptor phase, if it was not before
or the operation sends a snapshot. -/
theorem afterMessages_messagesTo
    (hstart : ∀ sending ∈ authority.sentBy j op, sending.isFalseStart = false)
    (hphase : phase ≠ .descriptors ∨ authority.sendsSnapshot j op) :
    phase.afterMessages (authority.messagesTo j op) ≠ .descriptors := by
  have hall : ∀ sendings : List Sending, (∀ sending ∈ sendings, sending ∈ authority.sentBy j op) →
      ∀ phase : SnapshotPhase, phase ≠ .descriptors ∨ sendings.any Sending.isSnapshot →
        phase.afterMessages (sendings.flatMap Sending.messages) ≠ .descriptors := by
    intro sendings hmem
    induction sendings with
    | nil => exact fun phase hphase => hphase.resolve_right Bool.false_ne_true
    | cons sending sendings ih =>
      intro phase hphase
      rw [List.forall_mem_cons] at hmem
      rw [List.flatMap_cons, SnapshotPhase.afterMessages_append]
      apply ih hmem.2
      rw [List.any_cons, Bool.or_eq_true, ← or_assoc] at hphase
      exact hphase.imp_left (afterMessages_sending hmem.1 (hstart sending hmem.1))
  exact hall _ (fun _ hmem => hmem) phase hphase

end Authority

/-! ### The TCP carrier -/

/-- The authority, with the client of one of its connections. `inFlight` is what the client has not
received, `nowUs` the client's clock at its last step. -/
structure TcpLink where
  authority : Authority
  inFlight : List TcpFrame := []
  client : TcpClient := {}
  nowUs : UInt64 := 0
  snapshotSent : Bool := false

/-- `receive` is a frame that `HandleFrame` gets, `timeout` a receive that timed out. -/
inductive TcpAction
  | operation (op : Operation)
  | serverHello
  | heartbeat
  | receive (nowUs : UInt64)
  | timeout (nowUs : UInt64)

def TcpFrame.message : TcpFrame → Option SharedMessage
  | .serverMessage message => some message
  | .serverHello | .heartbeat => none

namespace TcpLink

section Steps

variable (j : ℕ) (heartbeatStaleTimeoutMs : UInt32)

def sendFrames (s : TcpLink) (frames : List TcpFrame) : TcpLink :=
  { s with inFlight := s.inFlight ++ frames }

/-- The session and the connection `j` stay as they are. -/
def next (s : TcpLink) : TcpAction → Option TcpLink
  | .operation op =>
    if Authority.keepsConnection j op then
      some
        { s.sendFrames ((s.authority.messagesTo j op).map .serverMessage) with
          authority := s.authority.perform op
          snapshotSent := s.snapshotSent || s.authority.sendsSnapshot j op }
    else none
  | .serverHello => some (s.sendFrames [.serverHello])
  | .heartbeat => some (s.sendFrames [.heartbeat])
  | .receive nowUs =>
    match s.inFlight with
    | frame :: frames =>
      some
        { s with
          inFlight := frames
          client := (s.client.handleFrame nowUs frame).1
          nowUs := nowUs }
    | [] => none
  | .timeout nowUs =>
    some
      { s with
        client := (s.client.maybeReportStale heartbeatStaleTimeoutMs nowUs).1
        nowUs := nowUs }

/-- The authority has sent its snapshot, the client has received everything and its last frame is
not old, and yet it drops every update. -/
def Stuck (s : TcpLink) : Prop :=
  s.snapshotSent ∧ s.inFlight = [] ∧ s.client.lastHeartbeatUs ≠ 0 ∧
    s.client.isStale heartbeatStaleTimeoutMs s.nowUs = false ∧
    s.client.snapshotPhase = .descriptors

/-- The messages the client has not received. -/
def pending (s : TcpLink) : List SharedMessage := s.inFlight.filterMap TcpFrame.message

/-- Nothing outside of a snapshot starts one, and once the snapshot is sent the client finds a gap
only while the end of the snapshot is on its way. -/
def KeepsLive (s : TcpLink) : TcpAction → Prop
  | .operation op => ∀ sending ∈ s.authority.sentBy j op, sending.isFalseStart = false
  | .timeout nowUs =>
    s.snapshotSent → s.client.lastHeartbeatUs ≠ 0 →
      s.client.isStale heartbeatStaleTimeoutMs nowUs → reopens s.pending
  | .serverHello | .heartbeat | .receive _ => True

instance (s : TcpLink) : ∀ a, Decidable (s.KeepsLive j heartbeatStaleTimeoutMs a)
  | .operation op =>
    inferInstanceAs (Decidable (∀ sending ∈ s.authority.sentBy j op, _ = _))
  | .timeout _ => inferInstanceAs (Decidable (_ → _ → _ → _))
  | .serverHello | .heartbeat | .receive _ => .isTrue trivial

/-- The client, when it has received everything, is not in the descriptor phase. -/
def Inv (s : TcpLink) : Prop :=
  s.snapshotSent → s.client.snapshotPhase.afterMessages s.pending ≠ .descriptors

end Steps

variable {j : ℕ} {heartbeatStaleTimeoutMs : UInt32} {s t : TcpLink}

theorem pending_sendFrames (s : TcpLink) (frames : List TcpFrame) :
    (s.sendFrames frames).pending = s.pending ++ frames.filterMap TcpFrame.message :=
  List.filterMap_append

theorem Inv.next (h : s.Inv) {a : TcpAction} (hkeeps : s.KeepsLive j heartbeatStaleTimeoutMs a)
    (hnext : s.next j heartbeatStaleTimeoutMs a = some t) : t.Inv := by
  cases a with
  | operation op =>
    simp only [TcpLink.next] at hnext
    split_ifs at hnext
    obtain rfl := Option.some.inj hnext
    intro hsent
    have hpending : (s.sendFrames ((s.authority.messagesTo j op).map .serverMessage)).pending =
        s.pending ++ s.authority.messagesTo j op := by
      rw [pending_sendFrames, List.filterMap_map]
      exact congrArg (s.pending ++ ·) (List.filterMap_some ..)
    show s.client.snapshotPhase.afterMessages (s.sendFrames _).pending ≠ _
    rw [hpending, SnapshotPhase.afterMessages_append]
    apply Authority.afterMessages_messagesTo hkeeps
    exact ((Bool.or_eq_true _ _).mp hsent).imp_left h
  | serverHello | heartbeat =>
    obtain rfl := Option.some.inj hnext
    intro hsent
    rw [pending_sendFrames]
    exact (List.append_nil s.pending).symm ▸ h hsent
  | receive nowUs =>
    simp only [TcpLink.next] at hnext
    split at hnext
    · next frame frames hflight =>
      obtain rfl := Option.some.inj hnext
      intro hsent
      have hphase := h hsent
      rw [pending, hflight] at hphase
      cases frame with
      | serverHello | heartbeat => exact hphase
      | serverMessage message =>
        simp only [TcpClient.handleFrame, TcpClient.snapshotPhase_handleMessage]
        exact hphase
    · cases hnext
  | timeout nowUs =>
    obtain rfl := Option.some.inj hnext
    intro hsent
    simp only [TcpClient.snapshotPhase_maybeReportStale]
    split_ifs with hstale
    · exact SnapshotPhase.afterMessages_of_reopens _ (hkeeps hsent hstale.1 hstale.2)
    · exact h hsent

theorem Inv.not_stuck (h : s.Inv) : ¬ s.Stuck heartbeatStaleTimeoutMs := by
  rintro ⟨hsent, hflight, -, -, hphase⟩
  apply h hsent
  rw [pending, hflight]
  exact hphase

/-- In every run in which the client finds no gap behind the end of the snapshot, it does not end
up in the descriptor phase. -/
theorem not_stuck_of_keepsLive {start : TcpLink} {as : List TcpAction}
    (hstart : start.snapshotSent = false)
    (hkeeps : EveryStep (next j heartbeatStaleTimeoutMs) (KeepsLive j heartbeatStaleTimeoutMs)
      start as)
    (hrun : run (next j heartbeatStaleTimeoutMs) start as = some t) :
    ¬ t.Stuck heartbeatStaleTimeoutMs := by
  have hinv : start.Inv := fun hsent => by cases hstart.symm.trans hsent
  exact (run_induction_of_everyStep (P := Inv)
    (fun _ _ _ h hcond hnext => h.next hcond hnext) hinv hkeeps hrun).not_stuck

end TcpLink

end SmartDashboard.NativeLink
