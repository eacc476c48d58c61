import SmartDashboard.NativeLink.SlotReader

/-!
# Gaps between heartbeats in shared memory

The shared-memory carrier has the same two machines as TCP: `RunLoop` puts the client into the
descriptor phase when the server's heartbeat is old, and the scan sends one snapshot a session to a
slot. Here the messages go through the queue of the slot, and the server marks the slot when the
snapshot is complete.

## Main definitions

- `IpcLink`, `IpcLink.next`: an authority and a client on one slot
- `IpcLink.Stuck`: the client drops every update for good
-/

namespace SmartDashboard.NativeLink

open Execution

/-- The authority, with the client of one of its slots. `outbox` is what an operation has still to
store into the slot, `completing` tells whether it is a snapshot, and `nowUs` is the client's clock
at its last look at the heartbeat. -/
structure IpcLink where
  authority : Authority
  queue : SlotQueue
  outbox : List SharedMessage := []
  completing : Bool := false
  lastServerHeartbeatUs : UInt64 := 0
  reader : IpcReader := {}
  nowUs : UInt64 := 0

inductive IpcAction
  | operation (op : Operation)
  | storeMessage
  | storeWriteIndex
  | completeSnapshot
  | serverHeartbeat (nowUs : UInt64)
  | checkServer (nowUs : UInt64)
  | loadReadIndex
  | loadWriteIndex
  | processMessage
  | storeReadIndex
  | publishConnected

namespace IpcLink

section Steps

variable (j : ℕ) (heartbeatStaleTimeoutMs : UInt32)

/-- A load or store of the queue. -/
def moveQueue (s : IpcLink) (a : SlotAction) : Option IpcLink :=
  (s.queue.next a).map fun queue => { s with queue := queue }

/-- The session and the slot stay as they are. The server begins an operation when it has stored
the messages of the last one, and sends a snapshot only to a slot that is not marked. -/
def next (s : IpcLink) : IpcAction → Option IpcLink
  | .operation op =>
    if Authority.keepsConnection j op ∧ s.outbox = [] ∧ s.completing = false ∧
        (Authority.snapshotTarget op = some j →
          s.queue.slot.snapshotCompleteSessionId ≠ s.authority.core.serverSessionId) then
      some
        { s with
          authority := s.authority.perform op
          outbox := s.authority.messagesTo j op
          completing := s.authority.sendsSnapshot j op }
    else none
  | .storeMessage =>
    match s.outbox with
    | message :: outbox => { s with outbox := outbox }.moveQueue (.storeMessage message)
    | [] => none
  | .storeWriteIndex => s.moveQueue .storeWriteIndex
  | .completeSnapshot =>
    if s.completing ∧ s.outbox = [] ∧ s.queue.stored = none then
      some
        { s with
          queue :=
            { s.queue with
              slot :=
                { s.queue.slot with
                  snapshotCompleteSessionId := s.authority.core.serverSessionId } }
          completing := false }
    else none
  | .serverHeartbeat nowUs => some { s with lastServerHeartbeatUs := nowUs }
  | .checkServer nowUs =>
    if s.queue.client = .waiting then
      some
        { s with
          reader :=
            (s.reader.checkServer heartbeatStaleTimeoutMs s.lastServerHeartbeatUs nowUs).1
          nowUs := nowUs }
    else none
  | .loadReadIndex => s.moveQueue .loadReadIndex
  | .loadWriteIndex => s.moveQueue .loadWriteIndex
  | .processMessage =>
    { s with reader := (s.reader.drainMessage s.queue.nextMessage).1 }.moveQueue .processMessage
  | .storeReadIndex => s.moveQueue .storeReadIndex
  | .publishConnected =>
    if s.queue.client = .waiting then
      some
        { s with
          reader :=
            (s.reader.maybePublishConnected s.authority.core.serverSessionId
              s.queue.slot.snapshotCompleteSessionId).1 }
    else none

/-- The slot is marked with the session, the client has processed everything and the server's
heartbeat is not old, and yet the client drops every update. -/
def Stuck (s : IpcLink) : Prop :=
  s.queue.slot.snapshotCompleteSessionId = s.authority.core.serverSessionId ∧ s.outbox = [] ∧
    s.queue.stored = none ∧ s.queue.processed.length = s.queue.appended.length ∧
    serverLooksAlive heartbeatStaleTimeoutMs s.lastServerHeartbeatUs s.nowUs ∧
    s.reader.snapshotPhase = .descriptors

/-- The messages the client has not processed. -/
def pending (s : IpcLink) : List SharedMessage := s.queue.waiting ++ s.outbox

/-- The server has begun to send its snapshot of the session. -/
def HasSnapshot (s : IpcLink) : Prop :=
  s.completing ∨ s.queue.slot.snapshotCompleteSessionId = s.authority.core.serverSessionId

instance (s : IpcLink) : Decidable s.HasSnapshot := inferInstanceAs (Decidable (_ ∨ _))

/-- Nothing outside of a snapshot starts one, the queue has room for what is stored, and once the
snapshot is sent the client finds a gap only while the end of the snapshot is on its way. -/
def KeepsLive (s : IpcLink) : IpcAction → Prop
  | .operation op => ∀ sending ∈ s.authority.sentBy j op, sending.isFalseStart = false
  | .storeMessage => s.queue.HasRoom (.storeMessage {})
  | .checkServer nowUs =>
    s.HasSnapshot →
      serverLooksAlive heartbeatStaleTimeoutMs s.lastServerHeartbeatUs nowUs = false →
      reopens s.pending
  | _ => True

instance (s : IpcLink) : ∀ a, Decidable (s.KeepsLive j heartbeatStaleTimeoutMs a)
  | .operation op =>
    inferInstanceAs (Decidable (∀ sending ∈ s.authority.sentBy j op, _ = _))
  | .storeMessage => inferInstanceAs (Decidable (s.queue.HasRoom (.storeMessage {})))
  | .checkServer _ => inferInstanceAs (Decidable (_ → _ → _))
  | .storeWriteIndex | .completeSnapshot | .serverHeartbeat _ | .loadReadIndex | .loadWriteIndex
  | .processMessage | .storeReadIndex | .publishConnected => .isTrue trivial

/-- The client, when it has processed everything, is not in the descriptor phase. -/
structure Inv (s : IpcLink) : Prop where
  queue : s.queue.Inv
  phase : s.HasSnapshot → s.reader.snapshotPhase.afterMessages s.pending ≠ .descriptors

/-- A slot that a client has just filled in and to which nothing was sent. -/
structure Started (s : IpcLink) : Prop where
  queue : s.queue.Started
  completing : s.completing = false
  snapshotCompleteSessionId :
    s.queue.slot.snapshotCompleteSessionId ≠ s.authority.core.serverSessionId

end Steps

variable {j : ℕ} {heartbeatStaleTimeoutMs : UInt32} {s t : IpcLink}

/-- A load or store of the queue after which the same messages are pending. -/
theorem Inv.moveQueue (h : s.Inv) {a : SlotAction} (hroom : s.queue.HasRoom a)
    (hnext : s.moveQueue a = some t)
    (hwaiting : ∀ queue, s.queue.next a = some queue → queue.waiting = s.queue.waiting) :
    t.Inv := by
  obtain ⟨queue, hqueue, rfl⟩ := Option.map_eq_some_iff.mp hnext
  refine ⟨h.queue.next hroom hqueue, ?_⟩
  intro hsnapshot
  rw [HasSnapshot] at hsnapshot
  simp only [SlotQueue.snapshotCompleteSessionId_next hqueue] at hsnapshot
  rw [pending]
  simp only [hwaiting queue hqueue]
  exact h.phase hsnapshot

/-- The server begins an operation. -/
theorem Inv.operation (h : s.Inv) {op : Operation}
    (hkeeps : s.KeepsLive j heartbeatStaleTimeoutMs (.operation op))
    (hnext : s.next j heartbeatStaleTimeoutMs (.operation op) = some t) : t.Inv := by
  simp only [IpcLink.next] at hnext
  split_ifs at hnext with hguard
  obtain ⟨hkept, houtbox, hidle, -⟩ := hguard
  obtain rfl := Option.some.inj hnext
  refine ⟨h.queue, ?_⟩
  intro hsnapshot
  have hpending : s.pending = s.queue.waiting := by
    rw [pending, houtbox, List.append_nil]
  rw [HasSnapshot] at hsnapshot
  simp only [Authority.serverSessionId_perform hkept] at hsnapshot
  rw [pending, SnapshotPhase.afterMessages_append]
  apply Authority.afterMessages_messagesTo hkeeps
  obtain hsends | hmarked := hsnapshot
  · exact .inr hsends
  · exact .inl (hpending ▸ h.phase (.inr hmarked))

theorem Inv.next (h : s.Inv) {a : IpcAction} (hkeeps : s.KeepsLive j heartbeatStaleTimeoutMs a)
    (hnext : s.next j heartbeatStaleTimeoutMs a = some t) : t.Inv := by
  cases a with
  | operation op => exact h.operation hkeeps hnext
  | storeMessage =>
    simp only [IpcLink.next] at hnext
    split at hnext
    · next message outbox houtbox =>
      obtain ⟨queue, hqueue, rfl⟩ := Option.map_eq_some_iff.mp hnext
      have hroom : s.queue.HasRoom (.storeMessage message) := hkeeps
      refine ⟨h.queue.next hroom hqueue, ?_⟩
      intro hsnapshot
      rw [HasSnapshot] at hsnapshot
      simp only [SlotQueue.snapshotCompleteSessionId_next hqueue] at hsnapshot
      have hphase := h.phase hsnapshot
      rw [pending, houtbox, List.append_cons, ← SlotQueue.waiting_storeMessage hqueue] at hphase
      exact hphase
    · cases hnext
  | storeWriteIndex =>
    exact h.moveQueue (a := .storeWriteIndex) trivial hnext
      fun _ hqueue => h.queue.waiting_storeWriteIndex hqueue
  | loadReadIndex =>
    exact h.moveQueue (a := .loadReadIndex) trivial hnext
      fun _ hqueue => SlotQueue.waiting_next hqueue (.inl rfl)
  | loadWriteIndex =>
    exact h.moveQueue (a := .loadWriteIndex) trivial hnext
      fun _ hqueue => SlotQueue.waiting_next hqueue (.inr (.inl rfl))
  | storeReadIndex =>
    exact h.moveQueue (a := .storeReadIndex) trivial hnext
      fun _ hqueue => SlotQueue.waiting_next hqueue (.inr (.inr rfl))
  | processMessage =>
    obtain ⟨queue, hqueue, rfl⟩ := Option.map_eq_some_iff.mp hnext
    refine ⟨h.queue.next (a := .processMessage) trivial hqueue, ?_⟩
    intro hsnapshot
    rw [HasSnapshot] at hsnapshot
    simp only [SlotQueue.snapshotCompleteSessionId_next hqueue] at hsnapshot
    have hphase := h.phase hsnapshot
    rw [pending, h.queue.waiting_processMessage hqueue] at hphase
    simp only [IpcReader.snapshotPhase_drainMessage]
    exact hphase
  | completeSnapshot =>
    simp only [IpcLink.next] at hnext
    split_ifs at hnext with hguard
    obtain rfl := Option.some.inj hnext
    refine ⟨?_, fun _ => h.phase (.inl hguard.1)⟩
    exact ⟨h.queue.serverWriteIndex, h.queue.readPosition, h.queue.unread, h.queue.stored,
      h.queue.draining⟩
  | serverHeartbeat nowUs =>
    obtain rfl := Option.some.inj hnext
    exact ⟨h.queue, h.phase⟩
  | checkServer nowUs =>
    simp only [IpcLink.next] at hnext
    split_ifs at hnext
    obtain rfl := Option.some.inj hnext
    refine ⟨h.queue, ?_⟩
    intro hsnapshot
    simp only [IpcReader.snapshotPhase_checkServer]
    split_ifs with halive
    · exact h.phase hsnapshot
    · exact SnapshotPhase.afterMessages_of_reopens _
        (hkeeps hsnapshot (Bool.eq_false_iff.mpr halive))
  | publishConnected =>
    simp only [IpcLink.next] at hnext
    split_ifs at hnext
    obtain rfl := Option.some.inj hnext
    refine ⟨h.queue, ?_⟩
    intro hsnapshot
    simp only [IpcReader.snapshotPhase_maybePublishConnected]
    exact h.phase hsnapshot

theorem Started.inv (h : s.Started) : s.Inv :=
  ⟨h.queue.inv, fun hsnapshot =>
    absurd hsnapshot (not_or.mpr ⟨by simp [h.completing], h.snapshotCompleteSessionId⟩)⟩

theorem Inv.not_stuck (h : s.Inv) : ¬ s.Stuck heartbeatStaleTimeoutMs := by
  rintro ⟨hmarked, houtbox, hstored, hlen, -, hphase⟩
  apply h.phase (.inr hmarked)
  rw [pending, SlotQueue.waiting, houtbox, hstored, hlen, List.drop_length]
  exact hphase

/-- In every run in which the client finds no gap behind the end of the snapshot, it does not end
up in the descriptor phase. -/
theorem not_stuck_of_keepsLive {start : IpcLink} {as : List IpcAction} (hstart : start.Started)
    (hkeeps : EveryStep (next j heartbeatStaleTimeoutMs) (KeepsLive j heartbeatStaleTimeoutMs)
      start as)
    (hrun : run (next j heartbeatStaleTimeoutMs) start as = some t) :
    ¬ t.Stuck heartbeatStaleTimeoutMs :=
  (run_induction_of_everyStep (P := Inv) (fun _ _ _ h hcond hnext => h.next hcond hnext)
    hstart.inv hkeeps hrun).not_stuck

end IpcLink

/-! ### Both carriers -/

section Example

/-- An authority without topics, with one connection that is ready. -/
def openAuthority : Authority :=
  { connections := fun _ => { clientId := NativeLinkCore.dashboardA, ready := true } }

/-- The snapshot without topics is received at once. -/
def tcpSnapshot : List TcpAction :=
  .serverHello :: .operation (.publishSnapshot 0 fun _ => 0) :: List.replicate 6 (.receive 1)

/-- The snapshot without topics is stored, and drained at once. -/
def ipcSnapshot : List IpcAction :=
  .serverHeartbeat 1 :: .operation (.publishSnapshot 0 fun _ => 0) ::
    (List.replicate 5 [.storeMessage, .storeWriteIndex]).flatten ++
    .completeSnapshot :: .checkServer 1 :: .loadReadIndex :: .loadWriteIndex ::
    List.replicate 5 .processMessage ++ [.storeReadIndex, .publishConnected]

def openTcp : TcpLink := { authority := openAuthority }

def openIpc : IpcLink := { authority := openAuthority, queue := { slot := SlotQueue.freshSlot } }

theorem started_openIpc : openIpc.Started := ⟨⟨rfl, rfl, rfl, rfl, rfl, rfl⟩, rfl, by decide⟩

end Example

end SmartDashboard.NativeLink
