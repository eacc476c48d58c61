import SmartDashboard.Direct.Types
import SmartDashboard.Library.CircularMemory
import SmartDashboard.Library.LittleEndian

/-!
# The shared-memory ring

`WriteUpsert` and `ReadNextUpsert`, in the pieces between which the other endpoint can act: the
free-space test, the load of an index, the copy of a frame, the store of an index. The two
functions are what the pieces do when nobody acts in between.
-/

namespace SmartDashboard.Direct

open CircularMemory LittleEndian

namespace Ring

/-! ### Occupancy and copies -/

/-- `RingUsed` with the index to count from as an argument. -/
def usedFrom (ring : Ring) (readIndex : UInt32) : UInt32 :=
  if readIndex ≤ ring.header.writeIndex then ring.header.writeIndex - readIndex
  else ring.capacity - (readIndex - ring.header.writeIndex)

def ringUsed (ring : Ring) : UInt32 := ring.usedFrom ring.header.consumerReadIndex

/-- `RingFree` with the same argument. One byte stays free, so that a full ring differs from an
empty one. -/
def freeFrom (ring : Ring) (readIndex : UInt32) : UInt32 :=
  ring.capacity - ring.usedFrom readIndex - 1

def ringFree (ring : Ring) : UInt32 := ring.freeFrom ring.header.consumerReadIndex

/-- The two-segment copy into the ring. -/
def copyToRing (capacity : UInt32) (payload : ℕ → UInt8) (index : UInt32) (bytes : ByteString) :
    ℕ → UInt8 :=
  if bytes.length = 0 then payload
  else
    let firstPart := min bytes.length (capacity - index).toNat
    let payload := store payload index.toNat (bytes.take firstPart)
    if firstPart < bytes.length then store payload 0 (bytes.drop firstPart) else payload

/-- The two-segment copy out of the ring. -/
def copyFromRing (capacity : UInt32) (payload : ℕ → UInt8) (index : UInt32) (count : ℕ) :
    ByteString :=
  if count = 0 then []
  else
    let firstPart := min count (capacity - index).toNat
    let outBytes := load payload index.toNat firstPart
    if firstPart < count then outBytes ++ load payload 0 (count - firstPart) else outBytes

end Ring

/-! ### Framing -/

def computeValueLen (type : ValueType) (value : VariableValue) : UInt16 :=
  match type with
  | .bool => 1
  | .double => 8
  | .string => UInt16.ofNat (min value.stringValue.length kStringMax)
  | .stringArray =>
    UInt16.ofNat ((value.stringArrayValue.take kStringArrayMaxCount).foldl
      (fun total item => total + 2 + min item.length kStringMax) 1)

def toWireType (type : ValueType) : UInt8 :=
  match type with
  | .bool => 1
  | .double => 2
  | .string => 3
  | .stringArray => 4

def fromWireType (type : UInt8) : ValueType :=
  if type = 1 then .bool
  else if type = 2 then .double
  else if type = 3 then .string
  else if type = 4 then .stringArray
  else .string

namespace MessageHeader

/-- The header as it lies in memory, its padding zero. -/
def toBytes (msg : MessageHeader) : ByteString :=
  leBytes 2 msg.messageBytes.toNat ++ [msg.messageType, msg.valueType] ++ [0, 0, 0, 0] ++
    leBytes 8 msg.seq.toNat ++ leBytes 8 msg.sourceTimestampUs.toNat ++
    leBytes 2 msg.keyLen.toNat ++ leBytes 2 msg.valueLen.toNat ++ [0, 0, 0, 0]

def ofBytes (bytes : ByteString) : MessageHeader where
  messageBytes := UInt16.ofNat (leValue (bytes.take 2))
  messageType := UInt8.ofNat (leValue ((bytes.drop 2).take 1))
  valueType := UInt8.ofNat (leValue ((bytes.drop 3).take 1))
  seq := UInt64.ofNat (leValue ((bytes.drop 8).take 8))
  sourceTimestampUs := UInt64.ofNat (leValue ((bytes.drop 16).take 8))
  keyLen := UInt16.ofNat (leValue ((bytes.drop 24).take 2))
  valueLen := UInt16.ofNat (leValue ((bytes.drop 26).take 2))

end MessageHeader

namespace VariableUpdate

def keyLen (u : VariableUpdate) : UInt16 := UInt16.ofNat (min u.key.length kKeyMax)

def valueLen (u : VariableUpdate) : UInt16 := computeValueLen u.type u.value

def totalBytes (u : VariableUpdate) : UInt32 :=
  UInt32.ofNat (messageHeaderSize + u.keyLen.toNat + u.valueLen.toNat)

def messageHeader (u : VariableUpdate) : MessageHeader where
  messageBytes := u.totalBytes.toUInt16
  messageType := msgTypeUpsert
  valueType := toWireType u.type
  seq := u.seq
  sourceTimestampUs := u.sourceTimestampUs
  keyLen := u.keyLen
  valueLen := u.valueLen

end VariableUpdate

namespace Ring

/-! ### WriteUpsert -/

/-- One copy of `WriteUpsert` and the advance of its cursor. -/
def putBytes (capacity : UInt32) (dest : (ℕ → UInt8) × UInt32) (bytes : ByteString) :
    (ℕ → UInt8) × UInt32 :=
  (copyToRing capacity dest.1 dest.2 bytes, (dest.2 + UInt32.ofNat bytes.length) % capacity)

/-- One round of the loop over the items of an array: the length, then the bytes if there are
any. -/
def putItem (capacity : UInt32) (dest : (ℕ → UInt8) × UInt32) (item : ByteString) :
    (ℕ → UInt8) × UInt32 :=
  let itemLen := min item.length kStringMax
  let dest := putBytes capacity dest (leBytes 2 itemLen)
  if 0 < itemLen then putBytes capacity dest (item.take itemLen) else dest

def putValue (capacity : UInt32) (dest : (ℕ → UInt8) × UInt32) (u : VariableUpdate) :
    (ℕ → UInt8) × UInt32 :=
  if 0 < u.valueLen then
    match u.type with
    | .bool => putBytes capacity dest [if u.value.boolValue then 1 else 0]
    | .double => putBytes capacity dest (leBytes 8 u.value.doubleValue.toNat)
    | .string => putBytes capacity dest (u.value.stringValue.take u.valueLen.toNat)
    | .stringArray =>
      let count := min u.value.stringArrayValue.length kStringArrayMaxCount
      (u.value.stringArrayValue.take count).foldl (putItem capacity)
        (putBytes capacity dest [UInt8.ofNat count])
  else dest

/-- The copies of `WriteUpsert` from the loaded `writeIndex` on, and the cursor behind them. -/
def copyFrame (ring : Ring) (u : VariableUpdate) (writeIndex : UInt32) : Ring × UInt32 :=
  let dest := putBytes ring.capacity (ring.payload, writeIndex) u.messageHeader.toBytes
  let dest :=
    if 0 < u.keyLen then putBytes ring.capacity dest (u.key.take u.keyLen.toNat) else dest
  let dest := putValue ring.capacity dest u
  ({ ring with payload := dest.1 }, dest.2)

/-- The two tests that a frame must pass before it is copied. -/
def frameFits (ring : Ring) (u : VariableUpdate) : Bool :=
  u.totalBytes < ring.capacity && u.totalBytes ≤ ring.ringFree

/-- `droppedCount.fetch_add(1)`. -/
def countDrop (ring : Ring) : Ring :=
  { ring with header := { ring.header with droppedCount := ring.header.droppedCount + 1 } }

def storeWriteIndex (ring : Ring) (cursor : UInt32) : Ring :=
  { ring with header := { ring.header with writeIndex := cursor } }

/-- The two stores of `WriteUpsert` after the one that publishes the frame. -/
def storePublished (ring : Ring) (seq nowUs : UInt64) : Ring :=
  { ring with
    header := { ring.header with publishedSeq := seq, lastProducerHeartbeatUs := nowUs } }

/-- The new ring, the result, and what `outDroppedCount` is set to. -/
def writeUpsert (ring : Ring) (u : VariableUpdate) (nowUs : UInt64) :
    Ring × Bool × Option UInt64 :=
  if ring.capacity = 0 then (ring, false, none)
  else if ring.frameFits u = false then
    (ring.countDrop, false, some (ring.header.droppedCount + 1))
  else
    let (copied, cursor) := ring.copyFrame u ring.header.writeIndex
    let ring := (copied.storeWriteIndex cursor).storePublished u.seq nowUs
    (ring, true, some ring.header.droppedCount)

/-! ### ReadNextUpsert -/

/-- The loop over the items of an array, on the bytes behind the count. -/
def readItems : ℕ → ByteString → List ByteString
  | 0, _ => []
  | count + 1, bytes =>
    if 2 ≤ bytes.length then
      let itemLen := leValue (bytes.take 2)
      let bytes := bytes.drop 2
      let boundedLen := min itemLen bytes.length
      bytes.take boundedLen :: readItems count (bytes.drop boundedLen)
    else []

def readValue (ring : Ring) (cursor : UInt32) (type : ValueType) (valueLen : ℕ) :
    VariableValue :=
  match type with
  | .bool =>
    if 1 ≤ valueLen then
      { boolValue := copyFromRing ring.capacity ring.payload cursor 1 != [0] }
    else {}
  | .double =>
    if 8 ≤ valueLen then
      { doubleValue :=
          UInt64.ofNat (leValue (copyFromRing ring.capacity ring.payload cursor 8)) }
    else {}
  | .string => { stringValue := copyFromRing ring.capacity ring.payload cursor valueLen }
  | .stringArray =>
    match copyFromRing ring.capacity ring.payload cursor valueLen with
    | [] => {}
    | count :: bytes => { stringArrayValue := readItems count.toNat bytes }

/-- `ReadNextUpsert` once it has loaded a `writeIndex` other than its cursor: the new cursor, and
the update if the frame is intact. A malformed frame moves the cursor to the writer, an unknown
one is skipped. -/
def readFrame (ring : Ring) (readIndex writeIndex : UInt32) : UInt32 × Option VariableUpdate :=
  let msg := MessageHeader.ofBytes
    (copyFromRing ring.capacity ring.payload readIndex messageHeaderSize)
  if msg.messageBytes.toNat < messageHeaderSize then (writeIndex, none)
  else if msg.messageType ≠ msgTypeUpsert then
    ((readIndex + msg.messageBytes.toUInt32) % ring.capacity, none)
  else if msg.messageBytes.toNat ≠ messageHeaderSize + (msg.keyLen.toNat + msg.valueLen.toNat) then
    (writeIndex, none)
  else
    let cursor := (readIndex + UInt32.ofNat messageHeaderSize) % ring.capacity
    let key := copyFromRing ring.capacity ring.payload cursor msg.keyLen.toNat
    let cursor := if 0 < msg.keyLen then (cursor + msg.keyLen.toUInt32) % ring.capacity else cursor
    let type := fromWireType msg.valueType
    let value := ring.readValue cursor type msg.valueLen.toNat
    ((cursor + msg.valueLen.toUInt32) % ring.capacity,
      some { key := key, type := type, value := value, seq := msg.seq,
             sourceTimestampUs := msg.sourceTimestampUs })

def storeConsumerHeartbeat (ring : Ring) (nowUs : UInt64) : Ring :=
  { ring with header := { ring.header with lastConsumerHeartbeatUs := nowUs } }

/-- The new ring, the new cursor, and the update that was read. -/
def readNextUpsert (ring : Ring) (readCursor : UInt32) (nowUs : UInt64) :
    Ring × UInt32 × Option VariableUpdate :=
  if ring.capacity = 0 then (ring, readCursor, none)
  else if readCursor = ring.header.writeIndex then (ring, readCursor, none)
  else
    match ring.readFrame readCursor ring.header.writeIndex with
    | (cursor, none) => (ring, cursor, none)
    | (cursor, some u) => (ring.storeConsumerHeartbeat nowUs, cursor, some u)

end Ring

end SmartDashboard.Direct
