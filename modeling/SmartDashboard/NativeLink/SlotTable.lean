import SmartDashboard.Library.Execution
import SmartDashboard.NativeLink.SharedSlot

/-!
# Clients and server on the shared slots

Several client processes and the scanning server, interleaved between their accesses of the shared
memory (the stores that fill in, clear or free a slot count as one access). A client finds its slot
once, in `Start`, and from then on uses it by its index; the server frees a slot whose client was
silent for five seconds.

## Main definitions

- `IpcClient`: a client process, where it is and what it keeps in its own memory
- `IpcClient.step`: one access of a client to the slot it holds
- `SlotTable`, `SlotTable.next`: the shared memory with its clients and its server
-/

namespace SmartDashboard.NativeLink

/-- Where a client is between the beginning of `Start` and the end of `Stop`. -/
inductive IpcClientPc
  | stopped
  | claiming (i : ℕ)
  | filling
  | counting
  | running
  | resetting
  | releasing
  | uncounting
  deriving DecidableEq

/-- Where `RunLoop` is in its iteration. -/
inductive WorkerPc
  | top
  | loadWriteIndex (readIndex : UInt32)
  | draining (readIndex writeIndex : UInt32)
  | beat
  deriving DecidableEq

/-- Where `Publish` is; `storeSequence` keeps the message that was stored. -/
inductive PublisherPc
  | idle
  | awaitAck
  | storeMessage
  | storeSequence (message : SharedMessage)
  deriving DecidableEq

/-- `slotIndex` is `none` where the source has `kMaxClients`. -/
structure IpcClient where
  pc : IpcClientPc := .stopped
  slotIndex : Option (Fin kMaxClients) := none
  clientTag : UInt64 := 0
  connected : Bool := false
  lastSubmittedWriteSequence : UInt64 := 0
  worker : WorkerPc := .top
  publisher : PublisherPc := .idle
  deriving DecidableEq

/-- The accesses of a client to the slot it has claimed. -/
inductive SlotAccess
  | fill (clientId : ByteString) (nowUs : UInt64)
  | loadReadIndex
  | loadWriteIndex
  | processMessage
  | storeReadIndex
  | beat (nowUs : UInt64)
  | storeMessage (message : SharedMessage)
  | storeSequence (nowUs : UInt64)
  | reset
  | release

namespace IpcClient

/-- One access: the client and its slot afterwards. The first belongs to `Start`, the next five to
an iteration of `RunLoop`, two to `Publish` and the last two to `Stop`. -/
def step (client : IpcClient) (slot : SharedClientSlot) :
    SlotAccess → Option (IpcClient × SharedClientSlot)
  | .fill clientId nowUs =>
    if client.pc = .filling then
      some ({ client with pc := .counting },
        { slot.reset with
          clientId := copyUtf8 slot.reset.clientId clientId
          lastHeartbeatUs := nowUs })
    else none
  | .loadReadIndex =>
    if client.pc = .running ∧ client.worker = .top then
      some ({ client with worker := .loadWriteIndex slot.clientReadIndex }, slot)
    else none
  | .loadWriteIndex =>
    match client.pc, client.worker with
    | .running, .loadWriteIndex readIndex =>
      some ({ client with worker := .draining readIndex slot.serverWriteIndex }, slot)
    | _, _ => none
  | .processMessage =>
    match client.pc, client.worker with
    | .running, .draining readIndex writeIndex =>
      if readIndex < writeIndex then
        some ({ client with worker := .draining (readIndex + 1) writeIndex }, slot)
      else none
    | _, _ => none
  | .storeReadIndex =>
    match client.pc, client.worker with
    | .running, .draining readIndex writeIndex =>
      if readIndex < writeIndex then none
      else some ({ client with worker := .beat }, { slot with clientReadIndex := readIndex })
    | _, _ => none
  | .beat nowUs =>
    if client.pc = .running ∧ client.worker = .beat then
      some ({ client with worker := .top }, { slot with lastHeartbeatUs := nowUs })
    else none
  | .storeMessage message =>
    if client.pc = .running ∧ client.publisher = .storeMessage then
      some ({ client with publisher := .storeSequence message },
        { slot with clientWriteMessage := message })
    else none
  | .storeSequence nowUs =>
    match client.pc, client.publisher with
    | .running, .storeSequence _ =>
      let writeSequence := max slot.clientWriteSequence slot.lastAckedSequence + 1
      some
        ({ client with
            publisher := .idle
            lastSubmittedWriteSequence := writeSequence },
          { slot with clientWriteSequence := writeSequence, lastHeartbeatUs := nowUs })
    | _, _ => none
  | .reset =>
    if client.pc = .resetting then some ({ client with pc := .releasing }, slot.reset) else none
  | .release =>
    if client.pc = .releasing then
      some ({ client with pc := .uncounting }, { slot with clientTag := 0 })
    else none

end IpcClient

/-- Where the server is in `ScanClientsLocked`. -/
inductive ServerPc
  | idle
  | completeSnapshot (i : Fin kMaxClients)
  | loadSequence (i : Fin kMaxClients)
  | copyMessage (i : Fin kMaxClients) (clientWriteSequence : UInt64)
  | acknowledge (i : Fin kMaxClients) (clientWriteSequence : UInt64)
  deriving DecidableEq

/-- The shared memory, the server and its clients `ι`. `published` records the messages of which
`Publish` has stored the sequence number, `handled` those given to `HandleClientWriteLocked`. -/
structure SlotTable (ι : Type) where
  clientCount : UInt32 := 0
  clients : Fin kMaxClients → SharedClientSlot := fun _ => {}
  serverSessionId : UInt64 := 1
  lastProcessedClientWriteSequence : Fin kMaxClients → UInt64 := fun _ => 0
  server : ServerPc := .idle
  processes : ι → IpcClient := fun _ => {}
  published : Fin kMaxClients → List SharedMessage := fun _ => []
  handled : Fin kMaxClients → List SharedMessage := fun _ => []

/-- What the parties do. `connect` is `MaybePublishConnected` or the loss of the connection,
`forget` the reset of `lastSubmittedWriteSequence` by `RunLoop` and `DrainMessages`. -/
inductive TableAction (ι : Type)
  | start (c : ι) (clientTag : UInt64)
  | claim (c : ι)
  | count (c : ι)
  | access (c : ι) (a : SlotAccess)
  | connect (c : ι) (connected : Bool)
  | forget (c : ι)
  | publish (c : ι)
  | awaitAck (c : ι)
  | stop (c : ι)
  | uncount (c : ι)
  | scan (i : Fin kMaxClients) (nowUs : UInt64)
  | completeSnapshot
  | loadSequence
  | copyMessage
  | acknowledge
  | append (i : Fin kMaxClients) (message : SharedMessage)

namespace SlotTable

variable {ι : Type} [DecidableEq ι]

def setProcess (s : SlotTable ι) (c : ι) (client : IpcClient) : SlotTable ι :=
  { s with processes := Function.update s.processes c client }

def setSlot (s : SlotTable ι) (i : Fin kMaxClients) (slot : SharedClientSlot) : SlotTable ι :=
  { s with clients := Function.update s.clients i slot }

@[simp] theorem clients_setSlot_self {ι : Type} (s : SlotTable ι) (i : Fin kMaxClients)
    (slot : SharedClientSlot) : (s.setSlot i slot).clients i = slot :=
  Function.update_self ..

def appendPublished (s : SlotTable ι) (i : Fin kMaxClients) (messages : List SharedMessage) :
    SlotTable ι :=
  { s with published := Function.update s.published i (s.published i ++ messages) }

/-- The message that an access publishes. -/
def publishes (client : IpcClient) : SlotAccess → List SharedMessage
  | .storeSequence _ =>
    match client.publisher with
    | .storeSequence message => [message]
    | _ => []
  | _ => []

/-- The guard of `Publish`: the slot is ready and the client connected. -/
def mayPublish (client : IpcClient) (slot : SharedClientSlot) : Bool :=
  slot.isClientSlotReady && client.connected

/-- What `Publish` waits for: the server has acknowledged the last write the client remembers. -/
def isAcked (client : IpcClient) (slot : SharedClientSlot) : Bool :=
  client.lastSubmittedWriteSequence == 0 ||
    client.lastSubmittedWriteSequence ≤ slot.lastAckedSequence

/-- The test of the eviction: the age of the heartbeat, at least zero, is above five seconds. -/
def isSilent (slot : SharedClientSlot) (nowUs : UInt64) : Bool :=
  slot.lastHeartbeatUs ≤ nowUs && 5000000 < nowUs - slot.lastHeartbeatUs

def next (s : SlotTable ι) : TableAction ι → Option (SlotTable ι)
  | .start c clientTag =>
    if (s.processes c).pc = .stopped then
      some (s.setProcess c { pc := .claiming 0, clientTag := clientTag })
    else none
  | .claim c =>
    match (s.processes c).pc with
    | .claiming i =>
      if hi : i < kMaxClients then
        if (s.clients ⟨i, hi⟩).clientTag = 0 then
          some ((s.setProcess c
            { s.processes c with pc := .filling, slotIndex := some ⟨i, hi⟩ }).setSlot ⟨i, hi⟩
              { s.clients ⟨i, hi⟩ with clientTag := (s.processes c).clientTag })
        else some (s.setProcess c { s.processes c with pc := .claiming (i + 1) })
      else some (s.setProcess c { s.processes c with pc := .stopped })
    | _ => none
  | .count c =>
    if (s.processes c).pc = .counting then
      some { s.setProcess c { s.processes c with pc := .running } with
        clientCount := s.clientCount + 1 }
    else none
  | .access c a =>
    match (s.processes c).slotIndex with
    | some i =>
      ((s.processes c).step (s.clients i) a).map fun (client, slot) =>
        ((s.setProcess c client).setSlot i slot).appendPublished i (publishes (s.processes c) a)
    | none => none
  | .connect c connected =>
    if (s.processes c).pc = .running then
      some (s.setProcess c { s.processes c with connected := connected })
    else none
  | .forget c =>
    if (s.processes c).pc = .running then
      some (s.setProcess c { s.processes c with lastSubmittedWriteSequence := 0 })
    else none
  | .publish c =>
    match (s.processes c).slotIndex with
    | some i =>
      if (s.processes c).pc = .running ∧ (s.processes c).publisher = .idle ∧
          mayPublish (s.processes c) (s.clients i) then
        some (s.setProcess c { s.processes c with publisher := .awaitAck })
      else none
    | none => none
  | .awaitAck c =>
    match (s.processes c).slotIndex with
    | some i =>
      if (s.processes c).pc = .running ∧ (s.processes c).publisher = .awaitAck then
        if isAcked (s.processes c) (s.clients i) then
          some (s.setProcess c { s.processes c with publisher := .storeMessage })
        else some (s.setProcess c { s.processes c with publisher := .idle })
      else none
    | none => none
  | .stop c =>
    if (s.processes c).pc = .running ∧ (s.processes c).worker = .top ∧
        (s.processes c).publisher = .idle then
      some (s.setProcess c { s.processes c with pc := .resetting, connected := false })
    else none
  | .uncount c =>
    if (s.processes c).pc = .uncounting then
      some { s.setProcess c {} with clientCount := s.clientCount - 1 }
    else none
  | .scan i nowUs =>
    if s.server = .idle then
      if (s.clients i).isClientSlotReady then
        if isSilent (s.clients i) nowUs then
          some (s.setSlot i { (s.clients i).reset with clientTag := 0 })
        else some { s with server := .completeSnapshot i }
      else some s
    else none
  | .completeSnapshot =>
    match s.server with
    | .completeSnapshot i =>
      some
        { s.setSlot i { s.clients i with snapshotCompleteSessionId := s.serverSessionId } with
          server := .loadSequence i }
    | _ => none
  | .loadSequence =>
    match s.server with
    | .loadSequence i =>
      if s.lastProcessedClientWriteSequence i < (s.clients i).clientWriteSequence then
        some { s with server := .copyMessage i (s.clients i).clientWriteSequence }
      else some { s with server := .idle }
    | _ => none
  | .copyMessage =>
    match s.server with
    | .copyMessage i clientWriteSequence =>
      some
        { s with
          server := .acknowledge i clientWriteSequence
          handled := Function.update s.handled i
            (s.handled i ++ [(s.clients i).clientWriteMessage]) }
    | _ => none
  | .acknowledge =>
    match s.server with
    | .acknowledge i clientWriteSequence =>
      some
        { s.setSlot i { s.clients i with lastAckedSequence := clientWriteSequence } with
          server := .idle
          lastProcessedClientWriteSequence :=
            Function.update s.lastProcessedClientWriteSequence i clientWriteSequence }
    | _ => none
  | .append i message =>
    if (s.clients i).isClientSlotReady then
      let writeIndex := (s.clients i).serverWriteIndex
      some (s.setSlot i
        { s.clients i with
          messages :=
            Function.update (s.clients i).messages (writeIndex.toNat % kMaxMessages) message
          serverWriteIndex := writeIndex + 1 })
    else none

/-! ### The actions of one client -/

def firstSlot : Fin kMaxClients := ⟨0, by decide⟩

/-- A client claims the first slot, gets its snapshot and is connected. -/
def starts (c : ι) (clientTag nowUs : UInt64) : List (TableAction ι) :=
  [.start c clientTag, .claim c, .access c (.fill (ascii ['a']) nowUs), .count c,
    .scan firstSlot nowUs, .completeSnapshot, .loadSequence, .connect c true]

/-- A connected client publishes its first write. -/
def publishesOnce (c : ι) (message : SharedMessage) (nowUs : UInt64) : List (TableAction ι) :=
  [.publish c, .awaitAck c, .access c (.storeMessage message), .access c (.storeSequence nowUs)]

def stops (c : ι) : List (TableAction ι) :=
  [.stop c, .access c .reset, .access c .release, .uncount c]

end SlotTable

end SmartDashboard.NativeLink
