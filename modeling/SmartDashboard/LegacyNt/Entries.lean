import SmartDashboard.App.VariableStore
import SmartDashboard.Direct.RetainedStore
import SmartDashboard.Library.ByteReader

/-!
# Legacy NetworkTables entries

The NetworkTables 2 client keeps an entry for every key it has seen: the id under which the key
travels, and the type that field updates are read with. Entries come from the server's entry
assignments and from the client's own publish calls, which choose ids from a counter.

## Main definitions

- `Instance`: the tables of a connected instance
- `processOneMessage`: one message of the server, with the updates it causes
- `sendEntryAssignment`: a publish call, with the packet it sends
-/

namespace SmartDashboard.LegacyNt

open ByteReader BigEndian Direct

/-- Values as they are handed to the host. -/
inductive Value where
  | bool (b : Bool)
  | double (bits : DoubleBits)
  | string (s : ByteString)
  | stringArray (ss : List ByteString)
  deriving DecidableEq

/-- `on_variable_update`. -/
structure Update where
  key : ByteString
  value : Value
  seq : UInt64
  deriving DecidableEq

structure EntryMeta where
  id : UInt16
  seq : UInt16
  typeId : UInt8
  wireKey : ByteString
  deriving DecidableEq

/-- The tables of an instance, as `ConnectAndHandshake` leaves them once connected. -/
structure Instance where
  nextEntryId : UInt16 := 30000
  keyToEntry : ByteString → Option EntryMeta := fun _ => none
  idToKey : UInt16 → Option ByteString := fun _ => none

def kPrefix : ByteString := App.text "/SmartDashboard/"

def normalizeIncomingKey (wireKey : ByteString) : ByteString :=
  if kPrefix.isPrefixOf wireKey then wireKey.drop kPrefix.length else wireKey

def toWireKey (key : ByteString) : ByteString :=
  if kPrefix.isPrefixOf key then key else kPrefix ++ key

/-! ## Receiving -/

def readU16 : ByteReader UInt16 := do
  let n ← number 2
  pure (UInt16.ofNat n)

/-- A 16-bit length and that many bytes. -/
def readBytes : ByteReader ByteString := do
  let len ← readU16
  take len.toNat

/-- The value of a type; a type that is not known fails. -/
def readTypedValue (typeId : UInt8) : ByteReader Value :=
  if typeId = 0x00 then do
    let b ← byte
    pure (.bool (b ≠ 0))
  else if typeId = 0x01 then do
    let bits ← number 8
    pure (.double (UInt64.ofNat bits))
  else if typeId = 0x02 then do
    let bytes ← readBytes
    -- The host gets the C string.
    pure (.string (cString bytes))
  else if typeId = 0x12 then do
    let elementCount ← byte
    let values ← times readBytes elementCount.toNat
    pure (.stringArray (values.map cString))
  else fail

/-- `ReadTypedValueAndPublish`. -/
def readTypedValueAndPublish (key : ByteString) (seq : UInt16) (typeId : UInt8) :
    ByteReader Update := do
  let value ← readTypedValue typeId
  pure { key := cString key, value, seq := seq.toUInt64 }

namespace Instance

variable (inst : Instance)

/-- `keyToEntry[key] = meta; idToKey[meta.id] = key`. -/
def setEntry (key : ByteString) (entry : EntryMeta) : Instance :=
  { inst with
    keyToEntry := fun key' => if key' = key then some entry else inst.keyToEntry key'
    idToKey := fun id => if id = entry.id then some key else inst.idToKey id }

/-- What a field update changes of the tables. -/
def setSeq (key : ByteString) (entry : EntryMeta) (seq : UInt16) : Instance :=
  { inst with
    keyToEntry := fun key' => if key' = key then some { entry with seq } else inst.keyToEntry key' }

def handleEntryAssignment : ByteReader (Instance × List Update) := do
  let wireKey ← readBytes
  let valueType ← byte
  let entryId ← readU16
  let seq ← readU16
  let key := normalizeIncomingKey wireKey
  let update ← readTypedValueAndPublish key seq valueType
  pure (inst.setEntry key { id := entryId, seq, typeId := valueType, wireKey }, [update])

def handleFieldUpdate : ByteReader (Instance × List Update) := do
  let entryId ← readU16
  let seq ← readU16
  match inst.idToKey entryId with
  | none => fail
  | some key =>
    match inst.keyToEntry key with
    | none => fail
    | some entry => do
      let update ← readTypedValueAndPublish key seq entry.typeId
      pure (inst.setSeq key entry seq, [update])

/-- A failure closes the connection. -/
def processOneMessage : ByteReader (Instance × List Update) := do
  let type ← byte
  if type = 0x00 then pure (inst, [])
  else if type = 0x03 then pure (inst, [])
  else if type = 0x02 then do
    let _protocol ← take 2
    pure (inst, [])
  else if type = 0x10 then inst.handleEntryAssignment
  else if type = 0x11 then inst.handleFieldUpdate
  else fail

end Instance

/-! ## Sending -/

/-- A C string: no byte of it is the terminator. -/
structure CString where
  bytes : ByteString
  noTerminator : 0 ∉ bytes
  deriving DecidableEq

def writeU16 (value : UInt16) : ByteString :=
  beBytes 2 value.toNat

namespace Instance

variable (inst : Instance)

/-- The tables after a publish call, and the packet that it sends. The caller has a socket. -/
def sendEntryAssignment (key : ByteString) (typeId : UInt8) (value : ByteString) :
    Instance × ByteString :=
  match inst.keyToEntry key with
  | none =>
    let entry : EntryMeta :=
      { id := inst.nextEntryId, seq := 0 + 1, typeId, wireKey := toWireKey key }
    let bounded := min entry.wireKey.length 65535
    ({ inst.setEntry key entry with nextEntryId := inst.nextEntryId + 1 },
      0x10 :: writeU16 (UInt16.ofNat bounded) ++ entry.wireKey.take bounded ++ [typeId] ++
        writeU16 entry.id ++ writeU16 entry.seq ++ value)
  | some known =>
    let wireKey := if known.wireKey.isEmpty then toWireKey key else known.wireKey
    let entry : EntryMeta := { known with typeId, wireKey, seq := known.seq + 1 }
    (inst.setEntry key entry, 0x11 :: writeU16 entry.id ++ writeU16 entry.seq ++ value)

def publishLegacyNtBool (key : CString) (value : Int32) : Instance × ByteString :=
  inst.sendEntryAssignment key.bytes 0x00 [if value ≠ 0 then 1 else 0]

def publishLegacyNtDouble (key : CString) (value : DoubleBits) : Instance × ByteString :=
  inst.sendEntryAssignment key.bytes 0x01 (beBytes 8 value.toNat)

def publishLegacyNtString (key value : CString) : Instance × ByteString :=
  let bounded := min value.bytes.length 65535
  inst.sendEntryAssignment key.bytes 0x02
    (writeU16 (UInt16.ofNat bounded) ++ value.bytes.take bounded)

end Instance

/-- A call of one of the three publish functions. -/
inductive Call where
  | bool (key : CString) (value : Int32)
  | double (key : CString) (value : DoubleBits)
  | string (key value : CString)
  deriving DecidableEq

namespace Call

def key : Call → ByteString
  | bool key _ | double key _ | string key _ => key.bytes

def typeId : Call → UInt8
  | bool .. => 0x00
  | double .. => 0x01
  | string .. => 0x02

def value : Call → Value
  | bool _ value => .bool (value ≠ 0)
  | double _ value => .double value
  | string _ value => .string value.bytes

/-- The bytes that the call appends to the packet for its value. -/
def payload : Call → ByteString
  | bool _ value => [if value ≠ 0 then 1 else 0]
  | double _ value => beBytes 8 value.toNat
  | string _ value =>
    writeU16 (UInt16.ofNat (min value.bytes.length 65535)) ++
      value.bytes.take (min value.bytes.length 65535)

end Call

def Instance.publish (inst : Instance) : Call → Instance × ByteString
  | .bool key value => inst.publishLegacyNtBool key value
  | .double key value => inst.publishLegacyNtDouble key value
  | .string key value => inst.publishLegacyNtString key value

theorem Instance.publish_eq (inst : Instance) (c : Call) :
    inst.publish c = inst.sendEntryAssignment c.key c.typeId c.payload := by
  cases c <;> rfl

end SmartDashboard.LegacyNt
