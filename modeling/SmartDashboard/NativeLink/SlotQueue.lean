import SmartDashboard.Library.CircularMemory
import SmartDashboard.Library.Execution
import SmartDashboard.NativeLink.SharedSlot

/-!
# The message queue of a slot

The server appends to `messages` without looking at what the client has read, and the client
compares 32-bit counters with `<`. The queue hands over every message once and in order as long as
the server is never a whole turn ahead and has not appended 2^32 messages.

## Main definitions

- `SlotQueue`: the slot, where both parties are, and what was appended and processed
- `SlotQueue.next`: one load or store of either party
- `SlotQueue.HasRoom`: the condition the server does not test
-/

namespace SmartDashboard.NativeLink

open CircularMemory Execution

/-- Where the client is in `DrainMessages`. -/
inductive DrainPc
  | waiting
  | loadWriteIndex (readIndex : UInt32)
  | draining (readIndex writeIndex : UInt32)
  deriving DecidableEq

/-- The server is between its two stores if `stored` holds the message and the index it loaded.
`appended` and `processed` record what was appended and processed so far. -/
structure SlotQueue where
  slot : SharedClientSlot
  stored : Option (SharedMessage × UInt32) := none
  client : DrainPc := .waiting
  appended : List SharedMessage := []
  processed : List SharedMessage := []

inductive SlotAction
  | storeMessage (message : SharedMessage)
  | storeWriteIndex
  | loadReadIndex
  | loadWriteIndex
  | processMessage
  | storeReadIndex

namespace SlotQueue

/-- One step of `PublishEnvelopeToClientSlotLocked` or of `DrainMessages`. -/
def next (s : SlotQueue) : SlotAction → Option SlotQueue
  | .storeMessage message =>
    if s.slot.isClientSlotReady ∧ s.stored = none then
      let writeIndex := s.slot.serverWriteIndex
      some
        { s with
          slot :=
            { s.slot with
              messages :=
                Function.update s.slot.messages (writeIndex.toNat % kMaxMessages) message }
          stored := some (message, writeIndex) }
    else none
  | .storeWriteIndex =>
    match s.stored with
    | some (message, writeIndex) =>
      some
        { s with
          slot := { s.slot with serverWriteIndex := writeIndex + 1 }
          stored := none
          appended := s.appended ++ [message] }
    | none => none
  | .loadReadIndex =>
    match s.client with
    | .waiting => some { s with client := .loadWriteIndex s.slot.clientReadIndex }
    | _ => none
  | .loadWriteIndex =>
    match s.client with
    | .loadWriteIndex readIndex =>
      some { s with client := .draining readIndex s.slot.serverWriteIndex }
    | _ => none
  | .processMessage =>
    match s.client with
    | .draining readIndex writeIndex =>
      if readIndex < writeIndex then
        some
          { s with
            client := .draining (readIndex + 1) writeIndex
            processed := s.processed ++ [s.slot.messages (readIndex.toNat % kMaxMessages)] }
      else none
    | _ => none
  | .storeReadIndex =>
    match s.client with
    | .draining readIndex writeIndex =>
      if readIndex < writeIndex then none
      else
        some
          { s with
            slot := { s.slot with clientReadIndex := readIndex }
            client := .waiting }
    | _ => none

/-- The index of the message the client processes next. -/
def readPosition (s : SlotQueue) : UInt32 :=
  match s.client with
  | .waiting => s.slot.clientReadIndex
  | .loadWriteIndex readIndex => readIndex
  | .draining readIndex _ => readIndex

/-- What a message is stored at least one turn behind, and a counter that does not come round. -/
def HasRoom (s : SlotQueue) : SlotAction → Prop
  | .storeMessage _ =>
    s.slot.serverWriteIndex.toNat < s.readPosition.toNat + kMaxMessages ∧
      s.slot.serverWriteIndex.toNat + 1 < UInt32.size
  | _ => True

instance (s : SlotQueue) (a : SlotAction) : Decidable (s.HasRoom a) :=
  match a with
  | .storeMessage _ => inferInstanceAs (Decidable (_ ∧ _))
  | .storeWriteIndex | .loadReadIndex | .loadWriteIndex | .processMessage | .storeReadIndex =>
    isTrue trivial

/-- A slot as `Start` leaves it, with the server and the client at rest. -/
structure Started (s : SlotQueue) : Prop where
  serverWriteIndex : s.slot.serverWriteIndex = 0
  clientReadIndex : s.slot.clientReadIndex = 0
  stored : s.stored = none
  client : s.client = .waiting
  appended : s.appended = []
  processed : s.processed = []

/-- One `DrainMessages` that nobody interrupts. -/
def drain (s : SlotQueue) : List SlotAction :=
  .loadReadIndex :: .loadWriteIndex ::
    (List.replicate (s.appended.length - s.processed.length) .processMessage ++ [.storeReadIndex])

/-- What was processed is the beginning of what was appended, every other appended message is still
in its cell, and a drain that starts while both parties are at rest processes all of them. -/
structure Delivers (s : SlotQueue) : Prop where
  inOrder : s.processed <+: s.appended
  intact : ∀ k (hk : k < s.appended.length), s.processed.length ≤ k →
    s.slot.messages (k % kMaxMessages) = s.appended[k]
  complete : s.stored = none → s.client = .waiting →
    ∃ t, run next s s.drain = some t ∧ t.processed = s.appended

/-! ### The invariant -/

/-- The counters count, and what is appended and not processed stands in the cells behind the
client's position, at most a turn of it. -/
structure Inv (s : SlotQueue) : Prop where
  serverWriteIndex : s.slot.serverWriteIndex.toNat = s.appended.length
  readPosition : s.readPosition.toNat = s.processed.length
  unread : ∃ unread, s.appended = s.processed ++ unread ∧ unread.length ≤ kMaxMessages ∧
    window kMaxMessages s.slot.messages s.processed.length unread.length = unread
  stored : ∀ message writeIndex, s.stored = some (message, writeIndex) →
    writeIndex = s.slot.serverWriteIndex ∧
      s.slot.messages (writeIndex.toNat % kMaxMessages) = message ∧
      s.appended.length < s.processed.length + kMaxMessages ∧
      s.appended.length + 1 < UInt32.size
  draining : ∀ readIndex writeIndex, s.client = .draining readIndex writeIndex →
    readIndex.toNat ≤ writeIndex.toNat ∧ writeIndex.toNat ≤ s.appended.length

variable {s t : SlotQueue}

theorem Started.inv (h : s.Started) : s.Inv := by
  refine ⟨?_, ?_, ⟨[], ?_, Nat.zero_le _, rfl⟩, ?_, ?_⟩
  · rw [h.serverWriteIndex, h.appended]
    rfl
  · rw [SlotQueue.readPosition, h.client, h.processed]
    exact congrArg UInt32.toNat h.clientReadIndex
  · rw [h.appended, h.processed]
    rfl
  · intro message writeIndex hstored
    rw [h.stored] at hstored
    cases hstored
  · intro readIndex writeIndex hclient
    rw [h.client] at hclient
    cases hclient

theorem toNat_add_one {n : UInt32} (h : n.toNat + 1 < UInt32.size) :
    (n + 1).toNat = n.toNat + 1 := by
  rw [UInt32.toNat_add]
  exact Nat.mod_eq_of_lt h

/-- A message goes to a cell that holds nothing unread. -/
theorem Inv.storeMessage (h : s.Inv) {message : SharedMessage}
    (hroom : s.HasRoom (.storeMessage message)) (hnext : s.next (.storeMessage message) = some t) :
    t.Inv := by
  obtain ⟨hturn, hround⟩ := hroom
  obtain ⟨unread, hall, hlen, hwindow⟩ := h.unread
  simp only [next] at hnext
  split_ifs at hnext
  obtain rfl := Option.some.inj hnext
  rw [h.serverWriteIndex, h.readPosition] at hturn
  have hcount := congrArg List.length hall
  rw [List.length_append] at hcount
  have hbehind : s.processed.length + unread.length ≤ s.slot.serverWriteIndex.toNat := by
    rw [h.serverWriteIndex, hcount]
  have hfree : s.slot.serverWriteIndex.toNat + [message].length ≤
      s.processed.length + kMaxMessages := by
    rw [h.serverWriteIndex, List.length_singleton]
    exact hturn
  refine ⟨h.serverWriteIndex, h.readPosition, ⟨unread, hall, hlen, ?_⟩, ?_, h.draining⟩
  · exact (window_blit_of_disjoint _ hbehind hfree).trans hwindow
  · intro message' writeIndex hstored
    obtain ⟨rfl, rfl⟩ := Prod.mk.inj (Option.some.inj hstored)
    exact ⟨rfl, Function.update_self .., hturn, h.serverWriteIndex ▸ hround⟩

/-- The message that was stored becomes the last unread one. -/
theorem Inv.storeWriteIndex (h : s.Inv) (hnext : s.next .storeWriteIndex = some t) : t.Inv := by
  obtain ⟨unread, hall, hlen, hwindow⟩ := h.unread
  simp only [next] at hnext
  split at hnext
  · next message writeIndex hstored =>
    obtain rfl := Option.some.inj hnext
    obtain ⟨rfl, hcell, hturn, hround⟩ := h.stored message writeIndex hstored
    have hcount := congrArg List.length hall
    rw [List.length_append] at hcount
    refine ⟨?_, h.readPosition, ⟨unread ++ [message], ?_, ?_, ?_⟩, ?_, ?_⟩
    · rw [List.length_append, List.length_singleton, ← h.serverWriteIndex]
      exact toNat_add_one (h.serverWriteIndex ▸ hround)
    · rw [hall, List.append_assoc]
    · rw [List.length_append, List.length_singleton]
      omega
    · rw [List.length_append, List.length_singleton, window_add, hwindow]
      rw [h.serverWriteIndex, hcount] at hcell
      rw [window, List.range_one, List.map_singleton, Nat.add_zero, hcell]
    · intro message' writeIndex' hnone
      cases hnone
    · intro readIndex writeIndex' hclient
      obtain ⟨hle, hlast⟩ := h.draining readIndex writeIndex' hclient
      refine ⟨hle, ?_⟩
      rw [List.length_append]
      omega
  · cases hnext

/-- The client processes the first unread message. -/
theorem Inv.processMessage (h : s.Inv) (hnext : s.next .processMessage = some t) : t.Inv := by
  obtain ⟨unread, hall, hlen, hwindow⟩ := h.unread
  simp only [next] at hnext
  split at hnext
  · next readIndex writeIndex hclient =>
    split_ifs at hnext with hmore
    obtain rfl := Option.some.inj hnext
    obtain ⟨-, hlast⟩ := h.draining readIndex writeIndex hclient
    have hposition : readIndex.toNat = s.processed.length := by
      have hread := h.readPosition
      rwa [SlotQueue.readPosition, hclient] at hread
    have hmore : readIndex.toNat < writeIndex.toNat := UInt32.lt_iff_toNat_lt.mp hmore
    have hsucc : (readIndex + 1).toNat = readIndex.toNat + 1 :=
      toNat_add_one (Nat.lt_of_le_of_lt hmore writeIndex.toNat_lt_size)
    cases unread with
    | nil =>
      have hcount := congrArg List.length hall
      rw [List.append_nil] at hcount
      omega
    | cons message unread =>
      have hsplit : _ = [message] ++ unread := hwindow
      obtain ⟨hcell, hrest⟩ := window_of_append kMaxMessages s.slot.messages hsplit
      have hread : s.slot.messages (readIndex.toNat % kMaxMessages) = message := by
        rw [window, List.length_singleton, List.range_one, List.map_singleton,
          Nat.add_zero] at hcell
        rw [hposition]
        exact List.singleton_inj.mp hcell
      rw [List.length_cons] at hlen hrest
      refine ⟨h.serverWriteIndex, ?_, ⟨unread, ?_, Nat.le_of_succ_le hlen, ?_⟩, ?_, ?_⟩
      · rw [List.length_append, List.length_singleton, ← hposition]
        exact hsucc
      · rw [hread, hall, List.append_assoc]
        rfl
      · rw [List.length_append, List.length_singleton]
        exact hrest
      · intro message' writeIndex' hstored
        obtain ⟨hindex, hcell', hturn, hround⟩ := h.stored message' writeIndex' hstored
        refine ⟨hindex, hcell', ?_, hround⟩
        simp only [List.length_append, List.length_singleton]
        omega
      · intro readIndex' writeIndex' hdraining
        obtain ⟨rfl, rfl⟩ := DrainPc.draining.inj hdraining
        exact ⟨hsucc ▸ hmore, hlast⟩
  · cases hnext

theorem Inv.loadReadIndex (h : s.Inv) (hnext : s.next .loadReadIndex = some t) : t.Inv := by
  simp only [next] at hnext
  split at hnext
  · next hclient =>
    obtain rfl := Option.some.inj hnext
    refine ⟨h.serverWriteIndex, ?_, h.unread, h.stored, ?_⟩
    · have hread := h.readPosition
      rw [SlotQueue.readPosition, hclient] at hread
      exact hread
    · intro readIndex writeIndex hdraining
      cases hdraining
  · cases hnext

theorem Inv.loadWriteIndex (h : s.Inv) (hnext : s.next .loadWriteIndex = some t) : t.Inv := by
  simp only [next] at hnext
  split at hnext
  · next readIndex hclient =>
    obtain rfl := Option.some.inj hnext
    have hread := h.readPosition
    rw [SlotQueue.readPosition, hclient] at hread
    refine ⟨h.serverWriteIndex, hread, h.unread, h.stored, ?_⟩
    intro readIndex' writeIndex hdraining
    obtain ⟨rfl, rfl⟩ := DrainPc.draining.inj hdraining
    obtain ⟨unread, hall, -⟩ := h.unread
    refine ⟨?_, Nat.le_of_eq h.serverWriteIndex⟩
    rw [hread, h.serverWriteIndex, hall, List.length_append]
    exact Nat.le_add_right ..
  · cases hnext

theorem Inv.storeReadIndex (h : s.Inv) (hnext : s.next .storeReadIndex = some t) : t.Inv := by
  simp only [next] at hnext
  split at hnext
  · next readIndex writeIndex hclient =>
    split_ifs at hnext
    obtain rfl := Option.some.inj hnext
    have hread := h.readPosition
    rw [SlotQueue.readPosition, hclient] at hread
    refine ⟨h.serverWriteIndex, hread, h.unread, h.stored, ?_⟩
    intro readIndex' writeIndex' hdraining
    cases hdraining
  · cases hnext

/-- The step form: a step of either party keeps the invariant if there is room for what the server
stores. -/
theorem Inv.next (h : s.Inv) {a : SlotAction} (hroom : s.HasRoom a) (hnext : s.next a = some t) :
    t.Inv := by
  cases a with
  | storeMessage message => exact h.storeMessage hroom hnext
  | storeWriteIndex => exact h.storeWriteIndex hnext
  | loadReadIndex => exact h.loadReadIndex hnext
  | loadWriteIndex => exact h.loadWriteIndex hnext
  | processMessage => exact h.processMessage hnext
  | storeReadIndex => exact h.storeReadIndex hnext

/-! ### Runs -/

/-- The rest of a drain: every message up to the index it loaded is processed. -/
theorem Inv.run_draining {readIndex writeIndex : UInt32} {n : ℕ} (h : s.Inv)
    (hclient : s.client = .draining readIndex writeIndex)
    (hleft : readIndex.toNat + n = writeIndex.toNat) :
    ∃ t, run SlotQueue.next s (List.replicate n .processMessage ++ [.storeReadIndex]) = some t ∧
      t.Inv ∧ t.processed.length = writeIndex.toNat ∧ t.appended = s.appended := by
  induction n generalizing s readIndex with
  | zero =>
    have hdone : ¬ readIndex < writeIndex := by
      rw [UInt32.lt_iff_toNat_lt]
      omega
    have hnext : s.next .storeReadIndex =
        some
          { s with
            slot := { s.slot with clientReadIndex := readIndex }
            client := .waiting } := by
      simp only [SlotQueue.next, hclient, if_neg hdone]
    have hread := h.readPosition
    rw [SlotQueue.readPosition, hclient] at hread
    refine ⟨_, run_cons_eq_some.mpr ⟨_, hnext, rfl⟩, h.storeReadIndex hnext, ?_, rfl⟩
    exact hread.symm.trans hleft
  | succ n ih =>
    have hmore : readIndex < writeIndex := by
      rw [UInt32.lt_iff_toNat_lt]
      omega
    have hsucc : (readIndex + 1).toNat = readIndex.toNat + 1 :=
      toNat_add_one (Nat.lt_of_le_of_lt (UInt32.lt_iff_toNat_lt.mp hmore) writeIndex.toNat_lt_size)
    have hnext : s.next .processMessage =
        some
          { s with
            client := .draining (readIndex + 1) writeIndex
            processed := s.processed ++ [s.slot.messages (readIndex.toNat % kMaxMessages)] } := by
      simp only [SlotQueue.next, hclient, if_pos hmore]
    obtain ⟨t, hrun, ht⟩ := ih (h.processMessage hnext) rfl (by rw [hsucc]; omega)
    exact ⟨t, run_cons_eq_some.mpr ⟨_, hnext, hrun⟩, ht⟩

/-- A drain that nobody interrupts processes everything that was appended. -/
theorem Inv.run_drain (h : s.Inv) (hclient : s.client = .waiting) :
    ∃ t, run SlotQueue.next s s.drain = some t ∧ t.processed = s.appended := by
  have hload : s.next .loadReadIndex =
      some { s with client := .loadWriteIndex s.slot.clientReadIndex } := by
    simp only [SlotQueue.next, hclient]
  have hloaded := h.loadReadIndex hload
  have hread := h.readPosition
  rw [SlotQueue.readPosition, hclient] at hread
  obtain ⟨unread, hall, -⟩ := h.unread
  have hcount := congrArg List.length hall
  rw [List.length_append] at hcount
  have hstart := hloaded.loadWriteIndex
    (t := { s with client := .draining s.slot.clientReadIndex s.slot.serverWriteIndex }) rfl
  obtain ⟨t, hrun, hinv, hlen, happended⟩ := hstart.run_draining
    (n := s.appended.length - s.processed.length) rfl (by
      show s.slot.clientReadIndex.toNat + _ = s.slot.serverWriteIndex.toNat
      rw [hread, h.serverWriteIndex]
      omega)
  refine ⟨t, run_cons_eq_some.mpr ⟨_, hload, run_cons_eq_some.mpr ⟨_, rfl, hrun⟩⟩, ?_⟩
  obtain ⟨rest, hprefix, -⟩ := hinv.unread
  have hprefix : s.appended = t.processed ++ rest := happended.symm.trans hprefix
  refine (List.IsPrefix.eq_of_length ⟨rest, hprefix.symm⟩ ?_)
  rw [hlen]
  exact h.serverWriteIndex

theorem Inv.delivers (h : s.Inv) : s.Delivers := by
  obtain ⟨unread, hall, hlen, hwindow⟩ := h.unread
  refine ⟨⟨unread, hall.symm⟩, ?_, fun _ hclient => h.run_drain hclient⟩
  intro k hk hprocessed
  have hcell : s.appended[k]? = some (s.slot.messages (k % kMaxMessages)) := by
    rw [hall] at hk ⊢
    rw [List.length_append] at hk
    have hrange : k - s.processed.length < unread.length := by omega
    rw [List.getElem?_append_right hprocessed, ← hwindow, window, List.getElem?_map,
      List.getElem?_range hrange, Option.map_some, Nat.add_sub_cancel' hprocessed]
  rw [List.getElem?_eq_getElem hk] at hcell
  exact (Option.some.inj hcell).symm

/-- In every run of the server and the client of a slot in which the server has room for each
message it stores, the client processes exactly the appended messages, once and in order. -/
theorem delivers_of_hasRoom {as : List SlotAction} (hstarted : s.Started)
    (hroom : EveryStep next HasRoom s as) (hrun : run next s as = some t) : t.Delivers :=
  (run_induction_of_everyStep (P := Inv) (fun _ _ _ h hcond hnext => h.next hcond hnext)
    hstarted.inv hroom hrun).delivers

section Example

/-- A slot that a client has just filled in. -/
def freshSlot : SharedClientSlot :=
  { clientTag := 1
    lastHeartbeatUs := 1
    clientId := copyUtf8 (ByteBlock.zero clientIdBytes) (ascii ['a']) }

theorem started_freshSlot : Started ⟨freshSlot, none, .waiting, [], []⟩ :=
  ⟨rfl, rfl, rfl, rfl, rfl, rfl⟩

/-- The server appends one message while the client drains. -/
def oneMessage : List SlotAction :=
  [.loadReadIndex, .storeMessage {}, .storeWriteIndex, .loadWriteIndex, .processMessage,
    .storeReadIndex]

theorem delivers_oneMessage :
    ∃ t, run next ⟨freshSlot, none, .waiting, [], []⟩ oneMessage = some t ∧ t.Delivers :=
  have hroom : EveryStep next HasRoom ⟨freshSlot, none, .waiting, [], []⟩ oneMessage := by decide
  ⟨_, rfl, delivers_of_hasRoom started_freshSlot hroom rfl⟩

/-- The server's part of a run, for a list of messages. -/
def appends (messages : List SharedMessage) : List SlotAction :=
  messages.flatMap fun message => [.storeMessage message, .storeWriteIndex]

/-- The server appends as long as it likes. -/
theorem run_appends (messages : List SharedMessage) (hready : s.slot.isClientSlotReady)
    (hstored : s.stored = none) :
    ∃ t, run next s (appends messages) = some t ∧ t.slot.isClientSlotReady ∧ t.stored = none ∧
      t.appended = s.appended ++ messages ∧ t.processed = s.processed ∧
      t.slot.serverWriteIndex = s.slot.serverWriteIndex + UInt32.ofNat messages.length := by
  induction messages generalizing s with
  | nil => exact ⟨s, rfl, hready, hstored, (List.append_nil _).symm, rfl, by simp⟩
  | cons message messages ih =>
    have hstore : s.next (.storeMessage message) = some _ := if_pos ⟨hready, hstored⟩
    obtain ⟨t, hrun, hready', hstored', happended, hprocessed, hindex⟩ :=
      ih (s := { s with
        slot :=
          { s.slot with
            messages := Function.update s.slot.messages
              (s.slot.serverWriteIndex.toNat % kMaxMessages) message
            serverWriteIndex := s.slot.serverWriteIndex + 1 }
        stored := none
        appended := s.appended ++ [message] }) hready rfl
    refine ⟨t, ?_, hready', hstored', ?_, hprocessed, ?_⟩
    · exact run_cons_eq_some.mpr ⟨_, hstore, run_cons_eq_some.mpr ⟨_, rfl, hrun⟩⟩
    · rw [happended, List.append_assoc]
      rfl
    · rw [hindex, List.length_cons, UInt32.ofNat_add, UInt32.add_assoc, UInt32.add_comm 1]
      rfl

/-- After 1025 messages that the client has not read, the first of them is gone. -/
theorem lapped_message_is_lost : ¬ ∀ (s t : SlotQueue) (as : List SlotAction), s.Started →
    s.slot.isClientSlotReady → run next s as = some t → t.Delivers := by
  intro hall
  obtain ⟨t, hrun, hready, hstored, happended, hprocessed, hindex⟩ :=
    run_appends (s := ⟨freshSlot, none, .waiting, [], []⟩) (List.replicate kMaxMessages {})
      (by decide) rfl
  have hindex : t.slot.serverWriteIndex.toNat % kMaxMessages = 0 := by
    rw [hindex, List.length_replicate]
    rfl
  have hstore : t.next (.storeMessage { topicId := 1 }) = some _ := if_pos ⟨hready, hstored⟩
  have hlast : run next t [.storeMessage { topicId := 1 }, .storeWriteIndex] = some _ :=
    run_cons_eq_some.mpr ⟨_, hstore, rfl⟩
  have hdelivers := hall _ _ (appends (List.replicate kMaxMessages {}) ++
      [.storeMessage { topicId := 1 }, .storeWriteIndex]) started_freshSlot (by decide) (by
    rw [run_append, hrun]
    exact hlast)
  -- the first message has been overwritten by the last
  have hfirst := hdelivers.intact 0 (by simp) (by simp [hprocessed])
  simp only [hindex, Nat.zero_mod, Function.update_self, happended, List.nil_append] at hfirst
  rw [List.getElem_append_left (by rw [List.length_replicate]; decide),
    List.getElem_replicate] at hfirst
  exact absurd (congrArg SharedMessage.topicId hfirst) (by decide)

end Example

end SlotQueue

end SmartDashboard.NativeLink
