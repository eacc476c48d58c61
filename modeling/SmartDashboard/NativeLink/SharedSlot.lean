import SmartDashboard.NativeLink.Wire

/-!
# Shared slots

The part of the shared memory that belongs to one client of the shared-memory carrier.
-/

namespace SmartDashboard.NativeLink

def kMaxClients : ℕ := 8

def kMaxMessages : ℕ := 1024

/-- The cells of `messages` are those with an index below `kMaxMessages`. -/
structure SharedClientSlot where
  clientTag : UInt64 := 0
  lastHeartbeatUs : UInt64 := 0
  snapshotCompleteSessionId : UInt64 := 0
  lastAckedSequence : UInt64 := 0
  serverWriteIndex : UInt32 := 0
  clientReadIndex : UInt32 := 0
  clientWriteSequence : UInt64 := 0
  clientId : ByteBlock clientIdBytes := ByteBlock.zero clientIdBytes
  clientWriteMessage : SharedMessage := {}
  messages : ℕ → SharedMessage := fun _ => {}

namespace SharedClientSlot

/-- `IsClientSlotReady`, the same in the client and in the server. -/
def isClientSlotReady (slot : SharedClientSlot) : Bool :=
  slot.clientTag != 0 && slot.lastHeartbeatUs != 0 && slot.clientId.1.headD 0 != 0

/-- The fields that `Start`, `Stop` and the eviction of a client reset. -/
def reset (slot : SharedClientSlot) : SharedClientSlot :=
  { slot with
    clientId := ByteBlock.zero clientIdBytes
    lastHeartbeatUs := 0
    snapshotCompleteSessionId := 0
    lastAckedSequence := 0
    serverWriteIndex := 0
    clientReadIndex := 0
    clientWriteSequence := 0
    clientWriteMessage := {} }

end SharedClientSlot

end SmartDashboard.NativeLink
