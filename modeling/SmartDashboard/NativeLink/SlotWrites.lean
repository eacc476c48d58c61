import Mathlib.Data.Fintype.Basic
import SmartDashboard.NativeLink.SlotTable

/-!
# Client writes through a slot

A slot holds one write at a time. `Publish` waits for the acknowledgement of the last write it
remembers, the server hands over what has a higher sequence number than the last one it processed
in this slot. Both memories can be out of step with the slot: the client forgets its write when the
server looks stale, and the server remembers the numbers of a former client.
-/

namespace SmartDashboard.NativeLink

/-- The part of `IsClientSlotReady` that does not depend on the clock. -/
def SharedClientSlot.IsFilledIn (slot : SharedClientSlot) : Prop :=
  slot.clientTag ≠ 0 ∧ slot.clientId.1.headD 0 ≠ 0

instance (slot : SharedClientSlot) : Decidable slot.IsFilledIn :=
  inferInstanceAs (Decidable (_ ∧ _))

theorem SharedClientSlot.IsFilledIn.isClientSlotReady {slot : SharedClientSlot}
    (h : slot.IsFilledIn) (hheartbeat : slot.lastHeartbeatUs ≠ 0) : slot.isClientSlotReady := by
  simp only [SharedClientSlot.isClientSlotReady, Bool.and_eq_true, bne_iff_ne]
  exact ⟨⟨h.1, hheartbeat⟩, h.2⟩

/-- `Publish` is between its stores of the message and of its number. -/
def IpcClient.isBetweenStores (client : IpcClient) : Bool :=
  match client.publisher with
  | .storeSequence _ => true
  | _ => false

namespace SlotTable

variable {ι : Type}

/-- The number of the last write of the slot that was handed over. -/
def processedSequence (s : SlotTable ι) (i : Fin kMaxClients) : UInt64 :=
  match s.server with
  | .acknowledge j clientWriteSequence =>
    if i = j then clientWriteSequence else s.lastProcessedClientWriteSequence i
  | _ => s.lastProcessedClientWriteSequence i

/-- The slot has a write that was not handed over. -/
def Unprocessed (s : SlotTable ι) (i : Fin kMaxClients) : Prop :=
  s.processedSequence i < (s.clients i).clientWriteSequence

instance (s : SlotTable ι) (i : Fin kMaxClients) : Decidable (s.Unprocessed i) :=
  inferInstanceAs (Decidable (_ < _))

/-- The client is between its two stores into the slot, with this message. -/
def IsStoring (s : SlotTable ι) (i : Fin kMaxClients) (c : ι) (message : SharedMessage) : Prop :=
  (s.processes c).slotIndex = some i ∧ (s.processes c).publisher = .storeSequence message

/-- Nothing in the slot is still to be handed over. -/
def AtRest (s : SlotTable ι) (i : Fin kMaxClients) : Prop :=
  ¬ s.Unprocessed i ∧
    ∀ c, (s.processes c).slotIndex = some i → (s.processes c).isBetweenStores = false

instance [Fintype ι] (s : SlotTable ι) (i : Fin kMaxClients) : Decidable (s.AtRest i) :=
  inferInstanceAs (Decidable (_ ∧ _))

/-- A message is stored, and a slot cleared, only while nothing is to be handed over, and a message
gets a number above the last one handed over, in a slot that the server does not skip. -/
def MayAccess (s : SlotTable ι) (i : Fin kMaxClients) : SlotAccess → Prop
  | .fill _ _ | .reset | .storeMessage _ => s.AtRest i
  | .storeSequence _ =>
    s.processedSequence i <
      max (s.clients i).clientWriteSequence (s.clients i).lastAckedSequence + 1 ∧
    (s.clients i).IsFilledIn
  | .release => ¬ s.Unprocessed i
  | .loadReadIndex | .loadWriteIndex | .processMessage | .storeReadIndex | .beat _ => True

/-- No step gets in the way of a write. -/
def KeepsWrites (s : SlotTable ι) : TableAction ι → Prop
  | .access c a => ∀ i, (s.processes c).slotIndex = some i → s.MayAccess i a
  | .scan i nowUs => (s.clients i).isClientSlotReady → isSilent (s.clients i) nowUs → s.AtRest i
  | _ => True

section Decidable

variable [Fintype ι] (s : SlotTable ι)

instance (i : Fin kMaxClients) : ∀ a, Decidable (s.MayAccess i a)
  | .fill _ _ | .reset | .storeMessage _ => inferInstanceAs (Decidable (s.AtRest i))
  | .storeSequence _ => inferInstanceAs (Decidable (_ ∧ _))
  | .release => inferInstanceAs (Decidable (¬ s.Unprocessed i))
  | .loadReadIndex | .loadWriteIndex | .processMessage | .storeReadIndex | .beat _ =>
    .isTrue trivial

instance : ∀ a, Decidable (s.KeepsWrites a)
  | .access c a =>
    inferInstanceAs (Decidable (∀ i, (s.processes c).slotIndex = some i → s.MayAccess i a))
  | .scan i nowUs =>
    inferInstanceAs (Decidable ((s.clients i).isClientSlotReady → isSilent (s.clients i) nowUs →
      s.AtRest i))
  | .start _ _ | .claim _ | .count _ | .connect _ _ | .forget _ | .publish _ | .awaitAck _
  | .stop _ | .uncount _ | .completeSnapshot | .loadSequence | .copyMessage | .acknowledge
  | .append _ _ => .isTrue trivial

end Decidable

/-- One scan of the slot that nobody interrupts. -/
def scanOnce (s : SlotTable ι) (i : Fin kMaxClients) (nowUs : UInt64) : List (TableAction ι) :=
  .scan i nowUs ::
    if (s.clients i).isClientSlotReady then
      .completeSnapshot :: .loadSequence ::
        if s.Unprocessed i then [.copyMessage, .acknowledge] else []
    else []

/-- The slot and the number the server has loaded, with the message still to be copied. -/
def loadedWrite (s : SlotTable ι) : Option (Fin kMaxClients × UInt64) :=
  match s.server with
  | .copyMessage i clientWriteSequence => some (i, clientWriteSequence)
  | _ => none

/-- The write of the slot that is still to be handed over. -/
def pendingWrites (s : SlotTable ι) (i : Fin kMaxClients) : List SharedMessage :=
  if s.Unprocessed i then [(s.clients i).clientWriteMessage] else []

/-- What holds of the writes of one slot. -/
structure SlotWritesInv (s : SlotTable ι) (i : Fin kMaxClients) : Prop where
  log : s.published i = s.handled i ++ s.pendingWrites i
  filledIn : s.Unprocessed i → (s.clients i).IsFilledIn
  storing : ∀ c message, s.IsStoring i c message →
    ¬ s.Unprocessed i ∧ (s.clients i).clientWriteMessage = message
  unique : ∀ c d message message', s.IsStoring i c message → s.IsStoring i d message' → c = d
  loaded : ∀ clientWriteSequence, s.loadedWrite = some (i, clientWriteSequence) →
    clientWriteSequence = (s.clients i).clientWriteSequence ∧ s.Unprocessed i

structure WritesInv (s : SlotTable ι) : Prop where
  slots : ∀ i, s.SlotWritesInv i
  publisher : ∀ c, (s.processes c).pc ≠ .running → (s.processes c).publisher = .idle

/-! ### One slot -/

section Slot

variable {s t : SlotTable ι} {c : ι} {i : Fin kMaxClients}

theorem AtRest.not_isStoring {message : SharedMessage} (h : s.AtRest i) :
    ¬ s.IsStoring i c message := by
  rintro ⟨hslot, hmessage⟩
  have hidle := h.2 c hslot
  rw [IpcClient.isBetweenStores, hmessage] at hidle
  cases hidle

theorem SlotWritesInv.not_loaded (h : s.SlotWritesInv i) (hi : ¬ s.Unprocessed i)
    (clientWriteSequence : UInt64) : s.loadedWrite ≠ some (i, clientWriteSequence) :=
  fun hloaded => hi (h.loaded clientWriteSequence hloaded).2

theorem SlotWritesInv.log_of_processed (h : s.SlotWritesInv i) (hi : ¬ s.Unprocessed i) :
    s.published i = s.handled i := by
  have hlog := h.log
  rwa [pendingWrites, if_neg hi, List.append_nil] at hlog

/-- A slot with nothing to be handed over. -/
theorem SlotWritesInv.of_processed (hi : ¬ s.Unprocessed i) (hlog : s.published i = s.handled i)
    (hstoring : ∀ c message, s.IsStoring i c message →
      (s.clients i).clientWriteMessage = message)
    (hunique : ∀ c d message message', s.IsStoring i c message → s.IsStoring i d message' → c = d)
    (hloaded : ∀ clientWriteSequence, s.loadedWrite ≠ some (i, clientWriteSequence)) :
    s.SlotWritesInv i where
  log := by
    rw [pendingWrites, if_neg hi, List.append_nil]
    exact hlog
  filledIn hpending := absurd hpending hi
  storing c message hc := ⟨hi, hstoring c message hc⟩
  unique := hunique
  loaded n hn := absurd hn (hloaded n)

/-- The slot has the same write in `t` as in `s`, and nobody is between his stores into it who was
not before. -/
structure SameWrite (i : Fin kMaxClients) (s t : SlotTable ι) : Prop where
  sequence : (t.clients i).clientWriteSequence = (s.clients i).clientWriteSequence
  message : (t.clients i).clientWriteMessage = (s.clients i).clientWriteMessage
  filledIn : s.Unprocessed i → (s.clients i).IsFilledIn → (t.clients i).IsFilledIn
  processed : t.processedSequence i = s.processedSequence i
  published : t.published i = s.published i
  handled : t.handled i = s.handled i
  storing : ∀ c message, t.IsStoring i c message → s.IsStoring i c message

theorem SameWrite.of_slot (hslot : t.clients i = s.clients i)
    (hprocessed : t.processedSequence i = s.processedSequence i)
    (hpublished : t.published i = s.published i) (hhandled : t.handled i = s.handled i)
    (hstoring : ∀ c message, t.IsStoring i c message → s.IsStoring i c message) :
    SameWrite i s t where
  sequence := by rw [hslot]
  message := by rw [hslot]
  filledIn _ hfilled := hslot ▸ hfilled
  processed := hprocessed
  published := hpublished
  handled := hhandled
  storing := hstoring

theorem SlotWritesInv.congr (h : s.SlotWritesInv i) (hsame : SameWrite i s t)
    (hloaded : ∀ clientWriteSequence, t.loadedWrite = some (i, clientWriteSequence) →
      clientWriteSequence = (s.clients i).clientWriteSequence ∧ s.Unprocessed i) :
    t.SlotWritesInv i := by
  have hunprocessed : t.Unprocessed i ↔ s.Unprocessed i := by
    rw [Unprocessed, Unprocessed, hsame.processed, hsame.sequence]
  refine ⟨?_, ?_, ?_, ?_, ?_⟩
  · have hpending : t.pendingWrites i = s.pendingWrites i := by
      simp only [pendingWrites, hunprocessed, hsame.message]
    rw [hsame.published, hsame.handled, hpending]
    exact h.log
  · intro hpending
    rw [hunprocessed] at hpending
    exact hsame.filledIn hpending (h.filledIn hpending)
  · intro c message hstoring
    rw [hunprocessed, hsame.message]
    exact h.storing c message (hsame.storing c message hstoring)
  · intro c d message message' hc hd
    exact h.unique c d message message' (hsame.storing c message hc) (hsame.storing d message' hd)
  · intro clientWriteSequence hn
    rw [hunprocessed, hsame.sequence]
    exact hloaded clientWriteSequence hn

end Slot

/-! ### Steps that touch one slot -/

section Frame

variable {s : SlotTable ι} {i : Fin kMaxClients} {slot : SharedClientSlot}

/-- A slot changes, but not its write. -/
theorem WritesInv.setSlot (h : s.WritesInv)
    (hsequence : slot.clientWriteSequence = (s.clients i).clientWriteSequence)
    (hmessage : slot.clientWriteMessage = (s.clients i).clientWriteMessage)
    (hfilled : s.Unprocessed i → (s.clients i).IsFilledIn → slot.IsFilledIn) :
    (s.setSlot i slot).WritesInv := by
  refine ⟨fun j => (h.slots j).congr ?_ (h.slots j).loaded, h.publisher⟩
  by_cases hj : j = i
  · subst hj
    refine ⟨?_, ?_, ?_, rfl, rfl, rfl, fun _ _ hd => hd⟩
    · rw [clients_setSlot_self, hsequence]
    · rw [clients_setSlot_self, hmessage]
    · rw [clients_setSlot_self]
      exact hfilled
  · exact .of_slot (Function.update_of_ne hj ..) rfl rfl rfl fun _ _ hd => hd

/-- A slot is cleared while nothing is to be handed over. -/
theorem WritesInv.clearSlot (h : s.WritesInv) (hrest : s.AtRest i)
    (hsequence : slot.clientWriteSequence = 0) : (s.setSlot i slot).WritesInv := by
  refine ⟨fun j => ?_, h.publisher⟩
  by_cases hj : j = i
  · subst hj
    apply SlotWritesInv.of_processed
    · rw [Unprocessed, clients_setSlot_self, hsequence]
      exact UInt64.not_lt_zero
    · exact (h.slots j).log_of_processed hrest.1
    · exact fun d message hd => absurd hd hrest.not_isStoring
    · exact (h.slots j).unique
    · exact (h.slots j).not_loaded hrest.1
  · refine (h.slots j).congr ?_ (h.slots j).loaded
    exact .of_slot (Function.update_of_ne hj ..) rfl rfl rfl fun _ _ hd => hd

theorem WritesInv.setClientCount (h : s.WritesInv) (n : UInt32) :
    SlotTable.WritesInv { s with clientCount := n } := by
  refine ⟨fun i => (h.slots i).congr ?_ (h.slots i).loaded, h.publisher⟩
  exact .of_slot rfl rfl rfl rfl fun _ _ hd => hd

theorem WritesInv.init : SlotTable.WritesInv ({} : SlotTable ι) where
  slots i := by
    apply SlotWritesInv.of_processed
    · exact UInt64.not_lt_zero
    · rfl
    · exact fun c message hc => by cases hc.2
    · exact fun c d message message' hc => by cases hc.2
    · exact fun n hloaded => by cases hloaded
  publisher _ _ := rfl

theorem appendPublished_nil (s : SlotTable ι) (i : Fin kMaxClients) :
    s.appendPublished i [] = s := by
  rw [appendPublished, List.append_nil, Function.update_eq_self]

end Frame

/-! ### Steps of the server -/

section Server

variable {s : SlotTable ι} {i : Fin kMaxClients} {clientWriteSequence : UInt64}

/-- The server is not in the middle of a write. -/
def ServerPc.isBetweenWrites : ServerPc → Bool
  | .copyMessage _ _ | .acknowledge _ _ => false
  | _ => true

theorem processedSequence_of_isBetweenWrites (hserver : ServerPc.isBetweenWrites s.server) :
    s.processedSequence i = s.lastProcessedClientWriteSequence i := by
  cases hs : s.server with
  | acknowledge j n => exact absurd hserver (by rw [hs]; exact Bool.false_ne_true)
  | idle | completeSnapshot j | loadSequence j | copyMessage j n => rw [processedSequence, hs]

theorem loadedWrite_of_isBetweenWrites (hserver : ServerPc.isBetweenWrites s.server) :
    s.loadedWrite = none := by
  cases hs : s.server with
  | copyMessage j n => exact absurd hserver (by rw [hs]; exact Bool.false_ne_true)
  | idle | completeSnapshot j | loadSequence j | acknowledge j n => rw [loadedWrite, hs]

/-- The server moves between points at which it has loaded no write. -/
theorem WritesInv.moveServer (h : s.WritesInv) (hold : ServerPc.isBetweenWrites s.server)
    {server : ServerPc} (hnew : ServerPc.isBetweenWrites server) :
    SlotTable.WritesInv { s with server := server } := by
  refine ⟨fun j => (h.slots j).congr (.of_slot rfl ?_ rfl rfl fun _ _ hd => hd) ?_, h.publisher⟩
  · rw [processedSequence_of_isBetweenWrites hold, processedSequence_of_isBetweenWrites hnew]
  · intro n hloaded
    rw [loadedWrite_of_isBetweenWrites hnew] at hloaded
    cases hloaded

theorem WritesInv.loadSequence (h : s.WritesInv) (hserver : s.server = .loadSequence i)
    (hpending : s.Unprocessed i) :
    SlotTable.WritesInv
      { s with server := .copyMessage i (s.clients i).clientWriteSequence } := by
  refine ⟨fun j => (h.slots j).congr (.of_slot rfl ?_ rfl rfl fun _ _ hd => hd) ?_, h.publisher⟩
  · rw [processedSequence, processedSequence, hserver]
  · intro n hloaded
    obtain ⟨rfl, rfl⟩ := Prod.mk.inj (Option.some.inj hloaded)
    exact ⟨rfl, hpending⟩

/-- The pending write is handed over. -/
theorem WritesInv.copyMessage (h : s.WritesInv)
    (hserver : s.server = .copyMessage i clientWriteSequence) :
    SlotTable.WritesInv
      { s with
        server := .acknowledge i clientWriteSequence
        handled := Function.update s.handled i
          (s.handled i ++ [(s.clients i).clientWriteMessage]) } := by
  obtain ⟨hcurrent, hpending⟩ :=
    (h.slots i).loaded clientWriteSequence (by rw [loadedWrite, hserver])
  refine ⟨fun j => ?_, h.publisher⟩
  by_cases hj : j = i
  · subst hj
    apply SlotWritesInv.of_processed
    · simp only [Unprocessed, processedSequence, if_true, hcurrent]
      exact UInt64.lt_irrefl _
    · have hlog := (h.slots j).log
      rw [pendingWrites, if_pos hpending] at hlog
      show s.published j = Function.update s.handled j _ j
      rw [Function.update_self, hlog]
    · exact fun d message hd => absurd hpending ((h.slots j).storing d message hd).1
    · exact (h.slots j).unique
    · exact fun n hloaded => by cases hloaded
  · refine (h.slots j).congr ?_ fun n hloaded => by cases hloaded
    refine .of_slot rfl ?_ rfl (Function.update_of_ne hj ..) fun _ _ hd => hd
    simp only [processedSequence, hserver, if_neg hj]

/-- The write that was handed over is acknowledged. -/
theorem WritesInv.acknowledge (h : s.WritesInv)
    (hserver : s.server = .acknowledge i clientWriteSequence) :
    SlotTable.WritesInv
      { s with
        server := .idle
        lastProcessedClientWriteSequence :=
          Function.update s.lastProcessedClientWriteSequence i clientWriteSequence } := by
  refine ⟨fun j => (h.slots j).congr (.of_slot rfl ?_ rfl rfl fun _ _ hd => hd) ?_, h.publisher⟩
  · simp only [processedSequence, hserver, Function.update_apply]
  · exact fun n hloaded => by cases hloaded

end Server

variable [DecidableEq ι]

/-! ### Accesses of a client -/

/-- The accesses that change what the slot has to hand over, or to whom it belongs. -/
def changesWrite : SlotAccess → Bool
  | .fill _ _ | .storeMessage _ | .storeSequence _ | .reset | .release => true
  | _ => false

theorem step_of_not_changesWrite {client client' : IpcClient} {slot slot' : SharedClientSlot}
    {a : SlotAccess} (hstep : client.step slot a = some (client', slot'))
    (ha : changesWrite a = false) :
    client'.slotIndex = client.slotIndex ∧ client'.publisher = client.publisher ∧
      (client'.pc ≠ .running → client.pc ≠ .running) ∧
      slot'.clientWriteSequence = slot.clientWriteSequence ∧
      slot'.clientWriteMessage = slot.clientWriteMessage ∧
      (slot.IsFilledIn → slot'.IsFilledIn) := by
  cases a with
  | fill _ _ | storeMessage _ | storeSequence _ | reset | release => cases ha
  | loadReadIndex | beat _ =>
    simp only [IpcClient.step] at hstep
    split_ifs at hstep with hpc
    obtain ⟨rfl, rfl⟩ := Prod.mk.inj (Option.some.inj hstep)
    exact ⟨rfl, rfl, id, rfl, rfl, id⟩
  | loadWriteIndex =>
    simp only [IpcClient.step] at hstep
    split at hstep
    · obtain ⟨rfl, rfl⟩ := Prod.mk.inj (Option.some.inj hstep)
      exact ⟨rfl, rfl, id, rfl, rfl, id⟩
    · cases hstep
  | processMessage | storeReadIndex =>
    simp only [IpcClient.step] at hstep
    split at hstep
    · split_ifs at hstep
      obtain ⟨rfl, rfl⟩ := Prod.mk.inj (Option.some.inj hstep)
      exact ⟨rfl, rfl, id, rfl, rfl, id⟩
    · cases hstep

section Access

variable {s : SlotTable ι} {c : ι} {i : Fin kMaxClients}

/-- A client moves and does not come between its two stores. -/
theorem WritesInv.setProcess (h : s.WritesInv) {client : IpcClient}
    (hstoring : ∀ message, client.publisher = .storeSequence message →
      client.slotIndex = (s.processes c).slotIndex ∧
        (s.processes c).publisher = .storeSequence message)
    (hpublisher : client.pc ≠ .running → client.publisher = .idle) :
    (s.setProcess c client).WritesInv := by
  refine ⟨fun i => ?_, ?_⟩
  · refine (h.slots i).congr (.of_slot rfl rfl rfl rfl ?_) (h.slots i).loaded
    rintro d message ⟨hslot, hmessage⟩
    simp only [SlotTable.setProcess, Function.update_apply] at hslot hmessage
    split_ifs at hslot hmessage with hd
    · obtain ⟨hsame, hold⟩ := hstoring message hmessage
      exact ⟨hd ▸ hsame ▸ hslot, hd ▸ hold⟩
    · exact ⟨hslot, hmessage⟩
  · intro d hpc
    simp only [SlotTable.setProcess, Function.update_apply] at hpc ⊢
    split_ifs at hpc ⊢ with hd
    · exact hpublisher hpc
    · exact h.publisher d hpc

/-- A client is out of `Publish`. -/
theorem WritesInv.setIdle (h : s.WritesInv) {client : IpcClient}
    (hidle : client.publisher = .idle) : (s.setProcess c client).WritesInv :=
  h.setProcess (fun _ hmessage => by cases hidle.symm.trans hmessage) fun _ => hidle

theorem AtRest.setIdle (h : s.AtRest i) {client : IpcClient} (hidle : client.publisher = .idle) :
    (s.setProcess c client).AtRest i := by
  refine ⟨h.1, ?_⟩
  intro d hslot
  simp only [SlotTable.setProcess, Function.update_apply] at hslot ⊢
  split_ifs at hslot ⊢
  · rw [IpcClient.isBetweenStores, hidle]
  · exact h.2 d hslot

/-- A client is between its stores into the slot it has stored a message into, and nobody else
is. -/
theorem isStoring_storeMessage (hrest : s.AtRest i)
    (hindex : (s.processes c).slotIndex = some i) {message : SharedMessage}
    {slot : SharedClientSlot} {j : Fin kMaxClients} {d : ι} {message' : SharedMessage}
    (hd : ((s.setProcess c { s.processes c with publisher := .storeSequence message }).setSlot i
      slot).IsStoring j d message') :
    (d = c ∧ j = i ∧ message' = message) ∨ (j ≠ i ∧ s.IsStoring j d message') := by
  obtain ⟨hslot, hmessage⟩ := hd
  simp only [SlotTable.setSlot, SlotTable.setProcess, Function.update_apply] at hslot hmessage
  split_ifs at hslot hmessage with hdc
  · rw [hindex] at hslot
    exact .inl ⟨hdc, (Option.some.inj hslot).symm, (PublisherPc.storeSequence.inj hmessage).symm⟩
  · refine .inr ⟨?_, hslot, hmessage⟩
    rintro rfl
    exact hrest.not_isStoring ⟨hslot, hmessage⟩

/-- A message is stored while nothing is to be handed over. -/
theorem WritesInv.storeMessage (h : s.WritesInv) (hrest : s.AtRest i)
    (hindex : (s.processes c).slotIndex = some i) (hpc : (s.processes c).pc = .running)
    (message : SharedMessage) :
    ((s.setProcess c
        { s.processes c with publisher := .storeSequence message }).setSlot i
      { s.clients i with clientWriteMessage := message }).WritesInv := by
  refine ⟨fun j => ?_, ?_⟩
  · by_cases hj : j = i
    · subst hj
      apply SlotWritesInv.of_processed
      · simp only [Unprocessed, SlotTable.setSlot, Function.update_self]
        exact hrest.1
      · exact (h.slots j).log_of_processed hrest.1
      · intro d message' hd
        obtain ⟨-, -, rfl⟩ | ⟨hj, -⟩ := isStoring_storeMessage hrest hindex hd
        · simp only [SlotTable.setSlot, Function.update_self]
        · exact absurd rfl hj
      · intro d e message' message'' hd he
        obtain ⟨rfl, -⟩ | ⟨hj, -⟩ := isStoring_storeMessage hrest hindex hd
        · obtain ⟨rfl, -⟩ | ⟨hj, -⟩ := isStoring_storeMessage hrest hindex he
          · rfl
          · exact absurd rfl hj
        · exact absurd rfl hj
      · exact (h.slots j).not_loaded hrest.1
    · refine (h.slots j).congr ?_ (h.slots j).loaded
      refine .of_slot (Function.update_of_ne hj ..) rfl rfl rfl ?_
      intro d message' hd
      exact ((isStoring_storeMessage hrest hindex hd).resolve_left fun hc => hj hc.2.1).2
  · intro d hd
    simp only [SlotTable.setSlot, SlotTable.setProcess, Function.update_apply] at hd ⊢
    split_ifs at hd ⊢ with hdc
    · exact absurd hpc hd
    · exact h.publisher d hd

/-- A message gets a number above the last one handed over, and is now to be handed over. -/
theorem WritesInv.storeSequence (h : s.WritesInv) {message : SharedMessage}
    (hstoring : s.IsStoring i c message) {client : IpcClient} (hidle : client.publisher = .idle)
    {slot : SharedClientSlot}
    (hmessage : slot.clientWriteMessage = (s.clients i).clientWriteMessage)
    (hfilled : slot.IsFilledIn) (habove : s.processedSequence i < slot.clientWriteSequence) :
    (((s.setProcess c client).setSlot i slot).appendPublished i [message]).WritesInv := by
  obtain ⟨hprocessed, hstored⟩ := (h.slots i).storing c message hstoring
  have hothers : ∀ j d message',
      (((s.setProcess c client).setSlot i slot).appendPublished i [message]).IsStoring
        j d message' →
      j ≠ i ∧ s.IsStoring j d message' := by
    rintro j d message' ⟨hindex, hpublisher⟩
    simp only [SlotTable.appendPublished, SlotTable.setSlot, SlotTable.setProcess,
      Function.update_apply] at hindex hpublisher
    split_ifs at hindex hpublisher with hd
    · rw [hidle] at hpublisher
      cases hpublisher
    · refine ⟨?_, hindex, hpublisher⟩
      rintro rfl
      exact hd ((h.slots j).unique d c message' message ⟨hindex, hpublisher⟩ hstoring)
  refine ⟨fun j => ?_, ?_⟩
  · by_cases hj : j = i
    · subst hj
      have hslot : (((s.setProcess c client).setSlot j slot).appendPublished j
          [message]).clients j = slot := Function.update_self ..
      have hnew : (((s.setProcess c client).setSlot j slot).appendPublished j
          [message]).Unprocessed j := by
        rw [Unprocessed, hslot]
        exact habove
      refine ⟨?_, ?_, ?_, ?_, ?_⟩
      · have hall : s.published j = s.handled j := (h.slots j).log_of_processed hprocessed
        rw [pendingWrites, if_pos hnew, hslot, hmessage, hstored]
        simp only [SlotTable.appendPublished, SlotTable.setSlot, Function.update_self]
        exact congrArg (· ++ [message]) hall
      · intro _
        rw [hslot]
        exact hfilled
      · exact fun d message' hd => absurd rfl (hothers j d message' hd).1
      · exact fun d e message' message'' hd he => absurd rfl (hothers j d message' hd).1
      · exact fun n hloaded => absurd hloaded ((h.slots j).not_loaded hprocessed n)
    · refine (h.slots j).congr ?_ (h.slots j).loaded
      refine .of_slot (Function.update_of_ne hj ..) rfl (Function.update_of_ne hj ..) rfl ?_
      exact fun d message' hd => (hothers j d message' hd).2
  · intro d hd
    simp only [SlotTable.appendPublished, SlotTable.setSlot, SlotTable.setProcess,
      Function.update_apply] at hd ⊢
    split_ifs at hd ⊢ with hdc
    · exact hidle
    · exact h.publisher d hd

end Access

end SlotTable

end SmartDashboard.NativeLink
