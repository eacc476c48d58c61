import SmartDashboard.Library.FramedStream
import SmartDashboard.NativeLink.Client

/-!
# The frames of the TCP carrier

A frame is a header of twelve bytes and a payload: a hello, a session id or a whole `SharedMessage`,
copied byte by byte. Both ends read a header only if it begins with the magic number and the
version and announces no more than a message, so what one of them sends the other one reads back.

## Main definitions

- `FrameHeader`, `tcpFraming`: the header, and the stream made of such frames
- `SharedMessage.toBytes`, `SharedMessage.ofBytes`: a message as the bytes `memcpy` copies
- `ServerFrame`, `ClientFrame`: what each end sends
- `readServerFrame`, `readClientFrame`: what the other end takes a frame for
-/

namespace SmartDashboard.NativeLink

open FramedStream LittleEndian

def kFrameMagic : UInt32 := 0x4E4C5443

def kFrameVersion : UInt16 := 1

structure FrameHeader where
  magic : UInt32 := kFrameMagic
  version : UInt16 := kFrameVersion
  kind : UInt16 := 0
  payloadBytes : UInt32 := 0
  deriving DecidableEq, Repr

def kMaxFramePayloadBytes : UInt32 := sharedMessageSize

/-- The `width` bytes of a struct from `offset` on. -/
def fieldAt (bytes : ByteString) (offset width : ℕ) : ByteString := (bytes.drop offset).take width

namespace FrameHeader

def toBytes (header : FrameHeader) : ByteString :=
  leBytes 4 header.magic.toNat ++ (leBytes 2 header.version.toNat ++
    (leBytes 2 header.kind.toNat ++ leBytes 4 header.payloadBytes.toNat))

def ofBytes (bytes : ByteString) : FrameHeader where
  magic := UInt32.ofNat (leValue (fieldAt bytes 0 4))
  version := UInt16.ofNat (leValue (fieldAt bytes 4 2))
  kind := UInt16.ofNat (leValue (fieldAt bytes 6 2))
  payloadBytes := UInt32.ofNat (leValue (fieldAt bytes 8 4))

/-- The header that `SendFrame` puts in front of a payload. -/
def ofPayload (kind : UInt16) (payload : ByteString) : FrameHeader where
  kind := kind
  payloadBytes := UInt32.ofNat payload.length

/-- Neither end leaves its loop over this header. -/
def IsRead (header : FrameHeader) : Prop :=
  header.magic = kFrameMagic ∧ header.version = kFrameVersion ∧
    header.payloadBytes ≤ kMaxFramePayloadBytes

instance (header : FrameHeader) : Decidable header.IsRead := inferInstanceAs (Decidable (_ ∧ _))

end FrameHeader

/-- The stream `RunRecvLoop` and the loop of `ClientLoop` read. -/
def tcpFraming : Framing FrameHeader where
  headerBytes := 12
  readHeader bytes :=
    if (FrameHeader.ofBytes bytes).IsRead then some (FrameHeader.ofBytes bytes) else none
  payloadBytes header := header.payloadBytes.toNat

namespace SharedMessage

def toBytes (message : SharedMessage) : ByteString :=
  leBytes 4 message.size.toNat ++ (leBytes 4 message.topicId.toNat ++
    (leBytes 4 message.deliveryKind.toNat ++ (leBytes 4 message.valueType.toNat ++
      (leBytes 8 message.serverSessionId.toNat ++ (leBytes 8 message.serverSequence.toNat ++
        (leBytes 8 message.flags.toNat ++ (message.topicPath.1 ++
          (message.sourceClientId.1 ++ message.payload.1))))))))

def ofBytes (bytes : ByteString) : SharedMessage where
  size := UInt32.ofNat (leValue (fieldAt bytes 0 4))
  topicId := UInt32.ofNat (leValue (fieldAt bytes 4 4))
  deliveryKind := UInt32.ofNat (leValue (fieldAt bytes 8 4))
  valueType := UInt32.ofNat (leValue (fieldAt bytes 12 4))
  serverSessionId := UInt64.ofNat (leValue (fieldAt bytes 16 8))
  serverSequence := UInt64.ofNat (leValue (fieldAt bytes 24 8))
  flags := UInt64.ofNat (leValue (fieldAt bytes 32 8))
  topicPath := (ByteBlock.zero topicPathBytes).write (fieldAt bytes 40 topicPathBytes)
  sourceClientId := (ByteBlock.zero clientIdBytes).write (fieldAt bytes 232 clientIdBytes)
  payload := (ByteBlock.zero kMaxPayloadBytes).write (fieldAt bytes 296 kMaxPayloadBytes)

end SharedMessage

/-- `sizeof(ServerHelloPayload)` and `sizeof(HeartbeatPayload)`. -/
def sessionIdBytes : ℕ := 8

/-- `sizeof(HelloPayload)`. -/
def helloBytes : ℕ := clientIdBytes + clientIdBytes

structure HelloPayload where
  channelId : ByteBlock clientIdBytes := ByteBlock.zero clientIdBytes
  clientId : ByteBlock clientIdBytes := ByteBlock.zero clientIdBytes
  deriving DecidableEq

namespace HelloPayload

def toBytes (hello : HelloPayload) : ByteString := hello.channelId.1 ++ hello.clientId.1

def ofBytes (bytes : ByteString) : HelloPayload where
  channelId := (ByteBlock.zero clientIdBytes).write (fieldAt bytes 0 clientIdBytes)
  clientId := (ByteBlock.zero clientIdBytes).write (fieldAt bytes clientIdBytes clientIdBytes)

end HelloPayload

/-- What the authority sends over a connection. -/
inductive ServerFrame
  | serverHello (serverSessionId : UInt64)
  | serverMessage (message : SharedMessage)
  | heartbeat (serverSessionId : UInt64)
  deriving DecidableEq

/-- What a client sends behind its hello. -/
inductive ClientFrame
  | clientPublish (message : SharedMessage)
  | heartbeat (serverSessionId : UInt64)
  deriving DecidableEq

/-- The kinds of `FrameKind`. -/
def kindClientHello : UInt16 := 1
def kindServerHello : UInt16 := 2
def kindServerMessage : UInt16 := 3
def kindClientPublish : UInt16 := 4
def kindHeartbeat : UInt16 := 5

/-- The header and the payload of a frame, as `SendFrame` sends them. -/
def sendFrame (kind : UInt16) (payload : ByteString) : FrameHeader × ByteString :=
  (.ofPayload kind payload, payload)

namespace ServerFrame

def send : ServerFrame → FrameHeader × ByteString
  | .serverHello serverSessionId =>
    sendFrame kindServerHello (leBytes sessionIdBytes serverSessionId.toNat)
  | .serverMessage message => sendFrame kindServerMessage message.toBytes
  | .heartbeat serverSessionId =>
    sendFrame kindHeartbeat (leBytes sessionIdBytes serverSessionId.toNat)

/-- The frame without what only its session id is for. -/
def frame : ServerFrame → TcpFrame
  | .serverHello _ => .serverHello
  | .serverMessage message => .serverMessage message
  | .heartbeat _ => .heartbeat

/-- The session id the client stores when it handles the frame. -/
def serverSessionId : ServerFrame → UInt64
  | .serverHello serverSessionId | .heartbeat serverSessionId => serverSessionId
  | .serverMessage message => message.serverSessionId

def message? : ServerFrame → Option SharedMessage
  | .serverMessage message => some message
  | .serverHello _ | .heartbeat _ => none

end ServerFrame

namespace ClientFrame

def send : ClientFrame → FrameHeader × ByteString
  | .clientPublish message => sendFrame kindClientPublish message.toBytes
  | .heartbeat serverSessionId =>
    sendFrame kindHeartbeat (leBytes sessionIdBytes serverSessionId.toNat)

def message? : ClientFrame → Option SharedMessage
  | .clientPublish message => some message
  | .heartbeat _ => none

end ClientFrame

/-- What `HandleFrame` takes a frame for; it leaves the loop over any other frame. -/
def readServerFrame (header : FrameHeader) (payload : ByteString) : Option ServerFrame :=
  if header.kind = kindServerHello then
    if payload.length = sessionIdBytes then some (.serverHello (UInt64.ofNat (leValue payload)))
    else none
  else if header.kind = kindServerMessage then
    if payload.length = sharedMessageSize.toNat then
      some (.serverMessage (SharedMessage.ofBytes payload))
    else none
  else if header.kind = kindHeartbeat then
    if payload.length = sessionIdBytes then some (.heartbeat (UInt64.ofNat (leValue payload)))
    else none
  else none

/-- What the loop of `ClientLoop` takes a frame for; a heartbeat may have any payload, which is not
looked at. -/
def readClientFrame (header : FrameHeader) (payload : ByteString) : Option ClientFrame :=
  if header.kind = kindHeartbeat then some (.heartbeat (UInt64.ofNat (leValue payload)))
  else if header.kind = kindClientPublish ∧ payload.length = sharedMessageSize.toNat then
    some (.clientPublish (SharedMessage.ofBytes payload))
  else none

/-! ### Bytes -/

section Bytes

@[simp] theorem length_toBytes_frameHeader (header : FrameHeader) :
    header.toBytes.length = 12 := by
  simp only [FrameHeader.toBytes, List.length_append, length_leBytes]

theorem FrameHeader.ofBytes_toBytes (header : FrameHeader) :
    FrameHeader.ofBytes header.toBytes = header := by
  have hmagic := @leValue_leBytes_of_lt 4 _ header.magic.toNat_lt
  have hversion := @leValue_leBytes_of_lt 2 _ header.version.toNat_lt
  have hkind := @leValue_leBytes_of_lt 2 _ header.kind.toNat_lt
  have hlength := @leValue_leBytes_of_lt 4 _ header.payloadBytes.toNat_lt
  simp [FrameHeader.ofBytes, FrameHeader.toBytes, fieldAt, List.drop_append,
    List.drop_of_length_le, List.take_of_length_le, hmagic, hversion, hkind, hlength]

/-- An array that all its bytes are copied into. -/
theorem ByteBlock.write_self {n : ℕ} (block source : ByteBlock n) :
    block.write source.1 = source := by
  apply Subtype.ext
  rw [coe_write block source.2.le, source.2, List.drop_of_length_le block.2.le, List.append_nil]

@[simp] theorem length_toBytes_sharedMessage (message : SharedMessage) :
    message.toBytes.length = sharedMessageSize.toNat := by
  have hpath := message.topicPath.2
  have hclient := message.sourceClientId.2
  have hpayload := message.payload.2
  simp only [SharedMessage.toBytes, List.length_append, length_leBytes, hpath, hclient, hpayload]
  rfl

/-- The arrays of a message as its bytes hold them. -/
theorem fieldAt_toBytes (message : SharedMessage) :
    fieldAt message.toBytes 40 topicPathBytes = message.topicPath.1 ∧
      fieldAt message.toBytes 232 clientIdBytes = message.sourceClientId.1 ∧
      fieldAt message.toBytes 296 kMaxPayloadBytes = message.payload.1 := by
  have hpath : message.topicPath.1.length = 192 := message.topicPath.2
  have hclient : message.sourceClientId.1.length = 64 := message.sourceClientId.2
  have hpayload : message.payload.1.length = 1024 := message.payload.2
  refine ⟨?_, ?_, ?_⟩ <;>
    simp [fieldAt, SharedMessage.toBytes, List.drop_append,
      List.drop_of_length_le, List.take_of_length_le, hpath, hclient, hpayload, topicPathBytes,
      clientIdBytes, kMaxPayloadBytes]

theorem SharedMessage.ofBytes_toBytes (message : SharedMessage) :
    SharedMessage.ofBytes message.toBytes = message := by
  have hsize := @leValue_leBytes_of_lt 4 _ message.size.toNat_lt
  have htopic := @leValue_leBytes_of_lt 4 _ message.topicId.toNat_lt
  have hkind := @leValue_leBytes_of_lt 4 _ message.deliveryKind.toNat_lt
  have htype := @leValue_leBytes_of_lt 4 _ message.valueType.toNat_lt
  have hsession := @leValue_leBytes_of_lt 8 _ message.serverSessionId.toNat_lt
  have hsequence := @leValue_leBytes_of_lt 8 _ message.serverSequence.toNat_lt
  have hflags := @leValue_leBytes_of_lt 8 _ message.flags.toNat_lt
  obtain ⟨hpath, hclient, hpayload⟩ := fieldAt_toBytes message
  rw [SharedMessage.ofBytes, hpath, hclient, hpayload, ByteBlock.write_self,
    ByteBlock.write_self, ByteBlock.write_self]
  simp [SharedMessage.toBytes, fieldAt, List.drop_append, List.drop_of_length_le, hsize, htopic,
    hkind, htype, hsession, hsequence, hflags]

theorem HelloPayload.ofBytes_toBytes (hello : HelloPayload) :
    HelloPayload.ofBytes hello.toBytes = hello := by
  have hchannel := hello.channelId.2
  have hclient := hello.clientId.2
  have hfirst : fieldAt hello.toBytes 0 clientIdBytes = hello.channelId.1 := by
    rw [fieldAt, HelloPayload.toBytes, List.drop_zero, List.take_left' hchannel]
  have hsecond : fieldAt hello.toBytes clientIdBytes clientIdBytes = hello.clientId.1 := by
    rw [fieldAt, HelloPayload.toBytes, List.drop_left' hchannel, List.take_of_length_le hclient.le]
  rw [HelloPayload.ofBytes, hfirst, hsecond, ByteBlock.write_self, ByteBlock.write_self]

end Bytes

/-! ### Sent and read -/

section Frames

/-- A payload that is no longer than a message can be announced. -/
theorem carries_sendFrame (kind : UInt16) {payload : ByteString}
    (h : payload.length ≤ sharedMessageSize.toNat) :
    tcpFraming.Carries FrameHeader.toBytes (sendFrame kind payload) := by
  have hlength : (UInt32.ofNat payload.length).toNat = payload.length := by
    have hsize : sharedMessageSize.toNat = 1320 := rfl
    rw [UInt32.toNat_ofNat']
    omega
  have hread : (FrameHeader.ofPayload kind payload).IsRead := by
    refine ⟨rfl, rfl, ?_⟩
    rw [FrameHeader.ofPayload, UInt32.le_iff_toNat_le, hlength]
    exact h
  refine ⟨length_toBytes_frameHeader _, ?_, hlength.symm⟩
  rw [tcpFraming, sendFrame]
  simp only [FrameHeader.ofBytes_toBytes, if_pos hread]

theorem ServerFrame.carries (frame : ServerFrame) :
    tcpFraming.Carries FrameHeader.toBytes frame.send := by
  cases frame with
  | serverHello serverSessionId =>
    exact carries_sendFrame _ (by rw [length_leBytes]; decide)
  | serverMessage message =>
    exact carries_sendFrame _ (length_toBytes_sharedMessage message).le
  | heartbeat serverSessionId =>
    exact carries_sendFrame _ (by rw [length_leBytes]; decide)

theorem ClientFrame.carries (frame : ClientFrame) :
    tcpFraming.Carries FrameHeader.toBytes frame.send := by
  cases frame with
  | clientPublish message =>
    exact carries_sendFrame _ (length_toBytes_sharedMessage message).le
  | heartbeat serverSessionId =>
    exact carries_sendFrame _ (by rw [length_leBytes]; decide)

theorem leValue_sessionId (serverSessionId : UInt64) :
    UInt64.ofNat (leValue (leBytes sessionIdBytes serverSessionId.toNat)) = serverSessionId := by
  rw [sessionIdBytes, leValue_leBytes_of_lt serverSessionId.toNat_lt, UInt64.ofNat_toNat]

/-- The client takes every frame for what the authority sent. -/
theorem readServerFrame_send (frame : ServerFrame) :
    readServerFrame frame.send.1 frame.send.2 = some frame := by
  cases frame with
  | serverHello serverSessionId =>
    have hkind : (ServerFrame.serverHello serverSessionId).send.1.kind = kindServerHello := rfl
    rw [readServerFrame, if_pos hkind, ServerFrame.send, sendFrame, if_pos (length_leBytes _ _),
      leValue_sessionId]
  | serverMessage message =>
    have hkind : (ServerFrame.serverMessage message).send.1.kind = kindServerMessage := rfl
    rw [readServerFrame, hkind, if_neg (by decide), if_pos rfl, ServerFrame.send, sendFrame,
      if_pos (length_toBytes_sharedMessage message), SharedMessage.ofBytes_toBytes]
  | heartbeat serverSessionId =>
    have hkind : (ServerFrame.heartbeat serverSessionId).send.1.kind = kindHeartbeat := rfl
    rw [readServerFrame, hkind, if_neg (by decide), if_neg (by decide), if_pos rfl,
      ServerFrame.send, sendFrame, if_pos (length_leBytes _ _), leValue_sessionId]

/-- The authority takes every frame for what the client sent. -/
theorem readClientFrame_send (frame : ClientFrame) :
    readClientFrame frame.send.1 frame.send.2 = some frame := by
  cases frame with
  | clientPublish message =>
    have hkind : (ClientFrame.clientPublish message).send.1.kind = kindClientPublish := rfl
    have hlength := length_toBytes_sharedMessage message
    rw [readClientFrame, hkind, if_neg (by decide), if_pos ⟨rfl, hlength⟩, ClientFrame.send,
      sendFrame, SharedMessage.ofBytes_toBytes]
  | heartbeat serverSessionId =>
    have hkind : (ClientFrame.heartbeat serverSessionId).send.1.kind = kindHeartbeat := rfl
    rw [readClientFrame, if_pos hkind, ClientFrame.send, sendFrame, leValue_sessionId]

end Frames

end SmartDashboard.NativeLink
