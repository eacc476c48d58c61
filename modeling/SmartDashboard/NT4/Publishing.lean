import SmartDashboard.Library.Execution
import SmartDashboard.NT4.Client

/-!
# Publishing over NT4

Before the first value of a topic goes out, the client claims the topic with a publish message that
names its type and a pubuid of the client's choice; value frames then only carry the pubuid. The
claims are kept in a table by topic, which some connection events clear and others do not.

## Main definitions

- `NT4Client`, `step`: the client with what it sent on its last connection, its calls and events
- `Orderly`: every value frame was claimed before, for its type, and no pubuid has two topics
- `Consistent`: the sequences of calls and events whose claims the table keeps right

## Main results

- `sent_orderly`: along a consistent sequence, what was sent is orderly at every moment
- `exists_message_buildValueFrame`: a value frame is a message with the pubuid as its topic id
-/

namespace SmartDashboard.NT4

open Execution MessagePack BigEndian Direct

/-! ## Writing -/

/-- `MsgPackWriter::WriteInt`. -/
def writeInt (v : ℤ) : ByteString :=
  if 0 ≤ v ∧ v ≤ 127 then [UInt8.ofInt v]
  else if v < 0 ∧ -32 ≤ v then [UInt8.ofInt v]
  else if -128 ≤ v ∧ v ≤ 127 then [0xD0, UInt8.ofInt v]
  else if -32768 ≤ v ∧ v ≤ 32767 then 0xD1 :: beBytes 2 (v % 256 ^ 2).toNat
  else if -2147483648 ≤ v ∧ v ≤ 2147483647 then 0xD2 :: beBytes 4 (v % 256 ^ 4).toNat
  else 0xD3 :: beBytes 8 (v % 256 ^ 8).toNat

/-- `MsgPackWriter::WriteUInt`. -/
def writeUInt (v : UInt64) : ByteString :=
  if v ≤ 127 then [v.toUInt8]
  else if v ≤ 0xFF then [0xCC, v.toUInt8]
  else if v ≤ 0xFFFF then 0xCD :: beBytes 2 v.toNat
  else if v ≤ 0xFFFFFFFF then 0xCE :: beBytes 4 v.toNat
  else 0xCF :: beBytes 8 v.toNat

def writeDouble (v : DoubleBits) : ByteString :=
  0xCB :: beBytes 8 v.toNat

def writeBool (v : Bool) : ByteString :=
  [if v then 0xC3 else 0xC2]

/-- `MsgPackWriter::WriteString`. -/
def writeString (s : ByteString) : ByteString :=
  let len := s.length
  (if len ≤ 31 then [0xA0 ||| UInt8.ofNat len]
    else if len ≤ 0xFF then [0xD9, UInt8.ofNat len]
    else if len ≤ 0xFFFF then 0xDA :: beBytes 2 len
    else 0xDB :: beBytes 4 len) ++ s

def typeStringFromCode : NT4TypeCode → ByteString
  | .boolean => App.text "boolean"
  | .double => App.text "double"
  | .int => App.text "int"
  | .float => App.text "float"
  | .string => App.text "string"
  | .raw => App.text "raw"
  | .booleanArr => App.text "boolean[]"
  | .doubleArr => App.text "double[]"
  | .intArr => App.text "int[]"
  | .floatArr => App.text "float[]"
  | .stringArr => App.text "string[]"

def kSubscriptionUid : ℤ := 1

def buildSubscribeAllJson : ByteString :=
  App.text "[\x7b\"method\":\"subscribe\",\"params\":\x7b\"subuid\":" ++
    App.text (toString kSubscriptionUid) ++
    App.text ",\"topics\":[\"\"],\"options\":\x7b\"prefix\":true\x7d\x7d\x7d]"

def buildPublishJson (topicName typeStr : ByteString) (pubuid : Int32) : ByteString :=
  App.text "[\x7b\"method\":\"publish\",\"params\":\x7b\"name\":\"" ++ topicName ++
    App.text "\",\"type\":\"" ++ typeStr ++ App.text "\",\"pubuid\":" ++
    App.text (toString pubuid.toInt) ++ App.text "\x7d\x7d]"

/-- The timestamp is the clock's. -/
def buildValueFrame (timestamp : UInt64) (pubuid : Int32) (typeCode : NT4TypeCode)
    (value : TopicValue) : ByteString :=
  0x94 :: writeInt pubuid.toInt ++ writeUInt timestamp ++ writeInt typeCode.toByte.toNat ++
    match typeCode, value with
    | .boolean, .bool b => writeBool b
    | .double, .double bits => writeDouble bits
    | .string, .string s => writeString s
    | _, _ => writeBool false

/-- What a client sends. A value frame is recorded with the topic that it was sent for, which is
not in the frame. -/
inductive Sent where
  | subscribe
  | publish (ntPath : ByteString) (typeCode : NT4TypeCode) (pubuid : Int32)
  | value (ntPath : ByteString) (timestamp : UInt64) (pubuid : Int32) (typeCode : NT4TypeCode)
      (value : TopicValue)

namespace Sent

def bytes : Sent → ByteString
  | subscribe => buildSubscribeAllJson
  | publish ntPath typeCode pubuid => buildPublishJson ntPath (typeStringFromCode typeCode) pubuid
  | value _ timestamp pubuid typeCode v => buildValueFrame timestamp pubuid typeCode v

/-- The topic that a message is for and the pubuid that it uses for it. -/
def use? : Sent → Option (ByteString × Int32)
  | subscribe => none
  | publish ntPath _ pubuid => some (ntPath, pubuid)
  | value ntPath _ pubuid _ _ => some (ntPath, pubuid)

def claim? : Sent → Option (ByteString × Int32)
  | publish ntPath _ pubuid => some (ntPath, pubuid)
  | _ => none

end Sent

/-! ## Calls and events -/

/-- The client, with what it sent since its last `Open`. -/
structure NT4Client extends Impl where
  connected : Bool := false
  stopping : Bool := false
  nextPubUid : Int32 := 1
  publishedTopics : ByteString → Option Int32 := fun _ => none
  sent : List Sent := []

def NT4Client.new : NT4Client where
  topicsById _ := none
  sequence := 0

inductive WebSocketMessageType where
  | open
  | close
  | error
  deriving DecidableEq

inductive Action where
  | start
  | stop
  | event (type : WebSocketMessageType)
  | publishBool (key : ByteString) (timestamp : UInt64) (value : Bool)
  | publishDouble (key : ByteString) (timestamp : UInt64) (value : DoubleBits)
  | publishString (key : ByteString) (timestamp : UInt64) (value : ByteString)
  deriving DecidableEq

namespace NT4Client

variable (client : NT4Client)

/-- The pubuid of the topic, and the client that has claimed it. -/
def ensurePublished (topicPath : ByteString) (typeCode : NT4TypeCode) : Int32 × NT4Client :=
  let ntPath := kPrefix ++ topicPath
  match client.publishedTopics ntPath with
  | some pubuid => (pubuid, client)
  | none =>
    let pubuid := client.nextPubUid
    (pubuid, { client with
      nextPubUid := pubuid + 1
      sent := client.sent ++ [.publish ntPath typeCode pubuid]
      publishedTopics := fun path =>
        if path = ntPath then some pubuid else client.publishedTopics path })

/-- The body that `PublishBool`, `PublishDouble` and `PublishString` share. -/
def publish (key : ByteString) (timestamp : UInt64) (typeCode : NT4TypeCode) (value : TopicValue) :
    NT4Client × Bool :=
  if client.connected = false then (client, false)
  else
    let (pubuid, client) := client.ensurePublished key typeCode
    ({ client with
      sent := client.sent ++ [.value (kPrefix ++ key) timestamp pubuid typeCode value] }, true)

def publishBool (key : ByteString) (timestamp : UInt64) (value : Bool) : NT4Client × Bool :=
  client.publish key timestamp .boolean (.bool value)

def publishDouble (key : ByteString) (timestamp : UInt64) (value : DoubleBits) : NT4Client × Bool :=
  client.publish key timestamp .double (.double value)

def publishString (key : ByteString) (timestamp : UInt64) (value : ByteString) : NT4Client × Bool :=
  client.publish key timestamp .string (.string value)

/-- `ws.start()` comes last and only leads to events. -/
def start : NT4Client :=
  { client with
    stopping := false
    connected := false
    sequence := 0
    nextPubUid := 1
    topicsById := fun _ => none
    publishedTopics := fun _ => none }

def stop : NT4Client :=
  { client with stopping := true, connected := false }

/-- The message handler. An `Open` begins a connection. -/
def onMessage (type : WebSocketMessageType) : NT4Client :=
  if client.stopping then client
  else
    match type with
    | .open => { client with connected := true, sent := [.subscribe] }
    | .close =>
      { client with
        connected := false
        topicsById := fun _ => none
        publishedTopics := fun _ => none }
    | .error => { client with connected := false }

/-- A call with its result, or an event. -/
def step : Action → NT4Client × Option Bool
  | .start => (client.start, some true)
  | .stop => (client.stop, none)
  | .event type => (client.onMessage type, none)
  | .publishBool key timestamp value => (client.publishBool key timestamp value).map id some
  | .publishDouble key timestamp value => (client.publishDouble key timestamp value).map id some
  | .publishString key timestamp value => (client.publishString key timestamp value).map id some

end NT4Client

/-! ## Frames -/

theorem encode_fixint (v : ℤ) : IntFormat.encode v .fixint = [UInt8.ofInt v] := rfl

theorem encode_int_byte (v : ℤ) : IntFormat.encode v (.int 0) = [0xD0, UInt8.ofInt v] := rfl

/-- Every 64-bit integer is written in a format that it fits. -/
theorem exists_wireInt_writeInt {v : ℤ} (hlow : -2 ^ 63 ≤ v) (hhigh : v < 2 ^ 63) :
    ∃ n : WireInt, n.value = v ∧ n.element.encode = writeInt v := by
  rw [writeInt]
  split_ifs with hsmall hnegative hbyte hshort hword
  · exact ⟨⟨.fixint, v, by constructor <;> omega⟩, rfl, encode_fixint v⟩
  · exact ⟨⟨.fixint, v, by constructor <;> omega⟩, rfl, encode_fixint v⟩
  · exact ⟨⟨.int 0, v, by constructor <;> simp <;> omega⟩, rfl, encode_int_byte v⟩
  · exact ⟨⟨.int 1, v, by constructor <;> simp <;> omega⟩, rfl, rfl⟩
  · exact ⟨⟨.int 2, v, by constructor <;> simp <;> omega⟩, rfl, rfl⟩
  · exact ⟨⟨.int 3, v, by constructor <;> simp <;> omega⟩, rfl, rfl⟩

theorem toUInt8_eq_ofNat (v : UInt64) : v.toUInt8 = UInt8.ofNat v.toNat := by
  apply UInt8.toNat_inj.mp
  rw [UInt64.toNat_toUInt8, UInt8.toNat_ofNat']

theorem exists_wireInt_writeUInt (v : UInt64) :
    ∃ n : WireInt, n.value = v.toNat ∧ n.element.encode = writeUInt v := by
  have hv := v.toNat_lt
  have hfixint (h : v.toNat ≤ 127) :
      IntFormat.encode (v.toNat : ℤ) .fixint = [UInt8.ofNat v.toNat] := by
    rw [IntFormat.encode, Int.emod_eq_of_lt (by omega) (by omega), Int.toNat_natCast]
  have hbytes (i : Fin 4) : IntFormat.encode (v.toNat : ℤ) (.uint i) =
      UInt8.ofNat (0xCC + i) :: beBytes (2 ^ i.val) v.toNat := rfl
  rw [writeUInt, toUInt8_eq_ofNat]
  simp only [UInt64.le_iff_toNat_le, UInt64.reduceToNat]
  split_ifs with hsmall hbyte hshort hword
  · exact ⟨⟨.fixint, v.toNat, by constructor <;> omega⟩, rfl, hfixint hsmall⟩
  · exact ⟨⟨.uint 0, v.toNat, by constructor <;> simp; omega⟩, rfl, hbytes 0⟩
  · exact ⟨⟨.uint 1, v.toNat, by constructor <;> simp; omega⟩, rfl, hbytes 1⟩
  · exact ⟨⟨.uint 2, v.toNat, by constructor <;> simp; omega⟩, rfl, hbytes 2⟩
  · exact ⟨⟨.uint 3, v.toNat, by constructor <;> simp; omega⟩, rfl, hbytes 3⟩

theorem fixstr_byte {n : ℕ} (h : n ≤ 31) : UInt8.ofNat (0xA0 + n) = 0xA0 ||| UInt8.ofNat n := by
  decide +revert

/-- A text whose length fits the longest format is written in a format that it fits. -/
theorem exists_text_writeString {s : ByteString} (hs : s.length < 2 ^ 32) :
    ∃ e : Element, e.WellFormed ∧ e.text? = some s ∧ e.encode = writeString s := by
  rw [writeString]
  split_ifs with hfix hbyte hshort
  · refine ⟨.blob .fixstr s, Nat.lt_succ_of_le hfix, rfl, ?_⟩
    rw [Element.encode, BlobFormat.head, fixstr_byte hfix]
  · exact ⟨.blob (.str 0) s, Nat.lt_succ_of_le hbyte, rfl, rfl⟩
  · exact ⟨.blob (.str 1) s, Nat.lt_succ_of_le hshort, rfl, rfl⟩
  · exact ⟨.blob (.str 2) s, hs, rfl, rfl⟩

/-- The values that the publish calls send, with their types. -/
inductive Publishes : NT4TypeCode → TopicValue → Prop
  | bool (b : Bool) : Publishes .boolean (.bool b)
  | double (bits : DoubleBits) : Publishes .double (.double bits)
  | string (s : ByteString) (h : s.length < 2 ^ 32) : Publishes .string (.string s)

/-- A value frame is the message `[pubuid, timestamp, type, value]`, and its value no integer. -/
theorem exists_message_buildValueFrame (conversions : DoubleConversions) (timestamp : UInt64)
    (pubuid : Int32) {typeCode : NT4TypeCode} {value : TopicValue} (h : Publishes typeCode value) :
    ∃ m : Message, m.encode = buildValueFrame timestamp pubuid typeCode value ∧
      m.topicId.value = pubuid.toInt ∧ m.timestamp.value = timestamp.toNat ∧
      m.typeCode.value = typeCode.toByte.toNat ∧
      valueOf conversions m.value typeCode = some value ∧ m.value.integer? = none := by
  have hid := pubuid.le_toInt
  have hid' := pubuid.toInt_lt
  obtain ⟨topicId, htopicId, hidBytes⟩ :=
    exists_wireInt_writeInt (show -2 ^ 63 ≤ pubuid.toInt by omega) (by omega)
  obtain ⟨time, htime, htimeBytes⟩ := exists_wireInt_writeUInt timestamp
  have hbyte := typeCode.toByte.toNat_lt
  obtain ⟨code, hcode, hcodeBytes⟩ :=
    exists_wireInt_writeInt (show -2 ^ 63 ≤ (typeCode.toByte.toNat : ℤ) by omega) (by omega)
  have hencode (e : Element) (hwf : e.WellFormed) :
      (Message.mk .fix topicId time code e hwf).encode = 0x94 :: writeInt pubuid.toInt ++
        writeUInt timestamp ++ writeInt typeCode.toByte.toNat ++ e.encode := by
    rw [Message.encode, Element.encode_array, ← hidBytes, ← htimeBytes, ← hcodeBytes]
    simp [CountFormat.head]
  cases h with
  | bool b => exact ⟨⟨.fix, topicId, time, code, .bool b, trivial⟩, hencode _ _, htopicId, htime,
      hcode, rfl, rfl⟩
  | double bits => exact ⟨⟨.fix, topicId, time, code, .float64 bits, trivial⟩, hencode _ _,
      htopicId, htime, hcode, rfl, rfl⟩
  | string s hs =>
    obtain ⟨e, hwf, htext, hbytes⟩ := exists_text_writeString hs
    refine ⟨⟨.fix, topicId, time, code, e, hwf⟩, ?_, htopicId, htime, hcode, ?_, ?_⟩
    · rw [hencode, hbytes]
      rfl
    · rw [valueOf, htext]
      rfl
    · cases e with
      | int => cases htext
      | nil | bool | float32 | float64 | blob | ext | array | map => rfl

/-! ## What the claim table has to do -/

/-- Every value frame comes after a publish message that claims its pubuid for its type, and no
pubuid is used for two topics. -/
structure Orderly (sent : List Sent) : Prop where
  claimed : ∀ front ntPath timestamp pubuid typeCode value back,
    sent = front ++ .value ntPath timestamp pubuid typeCode value :: back →
      ∃ topic, Sent.publish topic typeCode pubuid ∈ front
  unshared : ∀ m ∈ sent, ∀ m' ∈ sent, ∀ topic topic' pubuid,
    m.use? = some (topic, pubuid) → m'.use? = some (topic', pubuid) → topic = topic'

/-- The key and the type of a publish call. -/
def Action.publication? : Action → Option (ByteString × NT4TypeCode)
  | .publishBool key _ _ => some (key, .boolean)
  | .publishDouble key _ _ => some (key, .double)
  | .publishString key _ _ => some (key, .string)
  | _ => none

/-- The client after a sequence of calls and events. -/
def clientAfter (actions : List Action) : NT4Client :=
  after NT4Client.step NT4Client.new actions

/-- A call made while connected that published `key` as `typeCode`, and `since` it neither a
`Close` nor a `Start`. -/
structure Standing (actions : List Action) (key : ByteString) (typeCode : NT4TypeCode)
    (since : List Action) : Prop where
  call : ∃ before a, actions = before ++ a :: since ∧ a.publication? = some (key, typeCode) ∧
    (clientAfter before).connected = true
  kept : .event .close ∉ since ∧ .start ∉ since

/-- While connected a key is published with the type of every earlier call for it that no `Close`
and no `Start` has followed, and no `Open` has followed such a call either. No connection has more
keys than there are pubuids. -/
structure Consistent (actions : List Action) : Prop where
  repeated : ∀ before a back key typeCode, actions = before ++ a :: back →
    a.publication? = some (key, typeCode) → (clientAfter before).connected = true →
      ∀ typeCode' since, Standing before key typeCode' since →
        typeCode' = typeCode ∧ .event .open ∉ since
  few : ∀ before since back, actions = before ++ .event .open :: since ++ back →
    .event .open ∉ since → (clientAfter (before ++ .event .open :: since)).connected = true →
      ((since.filterMap Action.publication?).map Prod.fst).dedup.length ≤ 2 ^ 32

/-! ## The invariant -/

theorem clientAfter_concat (actions : List Action) (a : Action) :
    clientAfter (actions ++ [a]) = ((clientAfter actions).step a).1 := by
  rw [clientAfter, after_append]
  rfl

/-- The topics that were claimed on the connection, with their pubuids. -/
def claims (sent : List Sent) : List (ByteString × Int32) :=
  sent.filterMap Sent.claim?

theorem claims_value (sent : List Sent) (ntPath : ByteString) (timestamp : UInt64)
    (pubuid : Int32) (typeCode : NT4TypeCode) (value : TopicValue) :
    claims (sent ++ [.value ntPath timestamp pubuid typeCode value]) = claims sent := by
  rw [claims, List.filterMap_append]
  exact List.append_nil _

theorem claims_publish (sent : List Sent) (ntPath : ByteString) (typeCode : NT4TypeCode)
    (pubuid : Int32) :
    claims (sent ++ [.publish ntPath typeCode pubuid]) = claims sent ++ [(ntPath, pubuid)] := by
  rw [claims, List.filterMap_append]
  rfl

/-- What was sent on a connection, and the next pubuid: the claims have distinct topics and number
them in a row, and every value is of a claimed topic and type. -/
structure Log (sent : List Sent) (nextPubUid : Int32) : Prop where
  topics : ((claims sent).map Prod.fst).Nodup
  numbered : ∃ first : Int32, nextPubUid = first + Int32.ofNat (claims sent).length ∧
    (claims sent).map Prod.snd = (List.range (claims sent).length).map fun i =>
      first + Int32.ofNat i
  values : ∀ front ntPath timestamp pubuid typeCode value back,
    sent = front ++ .value ntPath timestamp pubuid typeCode value :: back →
      Sent.publish ntPath typeCode pubuid ∈ front

theorem log_subscribe (nextPubUid : Int32) : Log [.subscribe] nextPubUid where
  topics := List.nodup_nil
  numbered := ⟨nextPubUid, (Int32.add_zero nextPubUid).symm, rfl⟩
  values front ntPath timestamp pubuid typeCode value back h := by
    have hmem : Sent.value ntPath timestamp pubuid typeCode value ∈ [Sent.subscribe] := by
      rw [h]
      exact List.mem_append_right _ List.mem_cons_self
    simp at hmem

/-- A topic that was not claimed yet takes the next pubuid. -/
theorem Log.publish {sent : List Sent} {nextPubUid : Int32} (h : Log sent nextPubUid)
    {ntPath : ByteString} (hnew : ntPath ∉ (claims sent).map Prod.fst) (typeCode : NT4TypeCode) :
    Log (sent ++ [.publish ntPath typeCode nextPubUid]) (nextPubUid + 1) := by
  have hclaims := claims_publish sent ntPath typeCode nextPubUid
  refine ⟨?_, ?_, ?_⟩
  · rw [hclaims, List.map_append, List.nodup_append]
    refine ⟨h.topics, by simp, ?_⟩
    rintro topic htopic _ hlast rfl
    simp only [List.map_cons, List.map_nil, List.mem_singleton] at hlast
    exact hnew (hlast ▸ htopic)
  · obtain ⟨first, hnext, hnumbers⟩ := h.numbered
    refine ⟨first, ?_, ?_⟩
    · rw [hclaims, List.length_append, List.length_singleton, hnext, Int32.ofNat_add,
        ← Int32.add_assoc]
      rfl
    · rw [hclaims, List.map_append, List.length_append, List.length_singleton, List.range_succ,
        List.map_append, hnumbers, hnext]
      rfl
  · intro front path timestamp pubuid code value back hsplit
    obtain ⟨back', -, hsent⟩ | ⟨-, hlast, -⟩ := append_singleton_split hsplit
    · exact h.values front path timestamp pubuid code value back' hsent
    · cases hlast

/-- A value of a topic that was claimed for its type. -/
theorem Log.value {sent : List Sent} {nextPubUid : Int32} (h : Log sent nextPubUid)
    {ntPath : ByteString} {typeCode : NT4TypeCode} {pubuid : Int32}
    (hclaim : Sent.publish ntPath typeCode pubuid ∈ sent) (timestamp : UInt64)
    (value : TopicValue) :
    Log (sent ++ [.value ntPath timestamp pubuid typeCode value]) nextPubUid := by
  have hclaims := claims_value sent ntPath timestamp pubuid typeCode value
  refine ⟨hclaims ▸ h.topics, hclaims ▸ h.numbered, ?_⟩
  intro front path timestamp' pubuid' code value' back hsplit
  obtain ⟨back', -, hsent⟩ | ⟨-, hlast, rfl⟩ := append_singleton_split hsplit
  · exact h.values front path timestamp' pubuid' code value' back' hsent
  · cases hlast
    exact hclaim

theorem mem_claims {sent : List Sent} {ntPath : ByteString} {pubuid : Int32} :
    (ntPath, pubuid) ∈ claims sent ↔ ∃ typeCode, Sent.publish ntPath typeCode pubuid ∈ sent := by
  rw [claims, List.mem_filterMap]
  constructor
  · rintro ⟨m, hm, hclaim⟩
    cases m with
    | publish path typeCode uid =>
      cases hclaim
      exact ⟨typeCode, hm⟩
    | subscribe | value => cases hclaim
  · rintro ⟨typeCode, hm⟩
    exact ⟨_, hm, rfl⟩

/-- As many claims as there are pubuids have pubuids of their own. -/
theorem Log.nodup_pubuids {sent : List Sent} {nextPubUid : Int32} (h : Log sent nextPubUid)
    (hfew : (claims sent).length ≤ 2 ^ 32) : ((claims sent).map Prod.snd).Nodup := by
  obtain ⟨first, -, hnumbers⟩ := h.numbered
  rw [hnumbers]
  refine List.Nodup.map_on (fun i hi j hj hij => ?_) List.nodup_range
  rw [List.mem_range] at hi hj
  have hbits := congrArg (fun n => n.toBitVec.toNat) ((Int32.add_right_inj first).mp hij)
  simp only [Int32.toBitVec_ofNat', BitVec.toNat_ofNat] at hbits
  rwa [Nat.mod_eq_of_lt (hi.trans_le hfew), Nat.mod_eq_of_lt (hj.trans_le hfew)] at hbits

theorem Log.orderly {sent : List Sent} {nextPubUid : Int32} (h : Log sent nextPubUid)
    (hfew : (claims sent).length ≤ 2 ^ 32) : Orderly sent where
  claimed front ntPath timestamp pubuid typeCode value back hsplit :=
    ⟨ntPath, h.values front ntPath timestamp pubuid typeCode value back hsplit⟩
  unshared := by
    have huse (m : Sent) (hm : m ∈ sent) (topic : ByteString) (pubuid : Int32)
        (h' : m.use? = some (topic, pubuid)) : (topic, pubuid) ∈ claims sent := by
      cases m with
      | subscribe => cases h'
      | publish path typeCode uid =>
        cases h'
        exact mem_claims.mpr ⟨typeCode, hm⟩
      | value path timestamp uid typeCode v =>
        cases h'
        obtain ⟨front, back, hsplit⟩ := List.append_of_mem hm
        have hclaim := h.values front _ _ _ _ _ back hsplit
        exact mem_claims.mpr ⟨typeCode, hsplit ▸ List.mem_append_left _ hclaim⟩
    intro m hm m' hm' topic topic' pubuid hfirst hsecond
    have hpair := List.inj_on_of_nodup_map (h.nodup_pubuids hfew)
      (huse m hm topic pubuid hfirst) (huse m' hm' topic' pubuid hsecond) rfl
    exact congrArg Prod.fst hpair

/-- What a sequence of calls and events has made of the client. The claims of the table stand since
a call that made them, and were sent on this connection if no `Open` came since. While connected,
the log is that of the calls since the last `Open`. -/
structure Tracks (actions : List Action) (client : NT4Client) : Prop where
  orderly : Orderly client.sent
  stopped : client.stopping = true → client.connected = false
  table : client.stopping = false → ∀ ntPath pubuid, client.publishedTopics ntPath = some pubuid →
    ∃ key typeCode since, ntPath = kPrefix ++ key ∧ Standing actions key typeCode since ∧
      (.event .open ∉ since → Sent.publish ntPath typeCode pubuid ∈ client.sent)
  log : client.connected = true → Log client.sent client.nextPubUid
  claimed : client.connected = true → ∀ ntPath ∈ (claims client.sent).map Prod.fst,
    (client.publishedTopics ntPath).isSome
  called : client.connected = true → ∃ before since, actions = before ++ .event .open :: since ∧
    .event .open ∉ since ∧ ∀ ntPath ∈ (claims client.sent).map Prod.fst,
      ∃ key ∈ (since.filterMap Action.publication?).map Prod.fst, ntPath = kPrefix ++ key

theorem tracks_nil : Tracks [] NT4Client.new where
  orderly := ⟨fun front _ _ _ _ _ _ h => by simp [NT4Client.new] at h, fun m hm => by cases hm⟩
  stopped h := by cases h
  table _ _ _ h := by cases h
  log h := by cases h
  claimed h := by cases h
  called h := by cases h

theorem Standing.concat {actions since : List Action} {key : ByteString} {typeCode : NT4TypeCode}
    (h : Standing actions key typeCode since) {a : Action} (hclose : a ≠ .event .close)
    (hstart : a ≠ .start) : Standing (actions ++ [a]) key typeCode (since ++ [a]) where
  call := by
    obtain ⟨before, b, rfl, hb, hconnected⟩ := h.call
    exact ⟨before, b, by simp, hb, hconnected⟩
  kept := by
    simp only [List.mem_append, List.mem_singleton, not_or]
    exact ⟨⟨h.kept.1, hclose.symm⟩, ⟨h.kept.2, hstart.symm⟩⟩

section Events

variable {actions : List Action} {client : NT4Client}

theorem Tracks.start (h : Tracks actions client) : Tracks (actions ++ [.start]) client.start where
  orderly := h.orderly
  stopped _ := rfl
  table _ _ _ hentry := by cases hentry
  log hconnected := by cases hconnected
  claimed hconnected := by cases hconnected
  called hconnected := by cases hconnected

theorem Tracks.stop (h : Tracks actions client) : Tracks (actions ++ [.stop]) client.stop where
  orderly := h.orderly
  stopped _ := rfl
  table hstopping := by cases hstopping
  log hconnected := by cases hconnected
  claimed hconnected := by cases hconnected
  called hconnected := by cases hconnected

/-- An action that leaves the client as it is while it is not connected. -/
theorem Tracks.idle (h : Tracks actions client) (hconnected : client.connected = false) {a : Action}
    (hkeeps : client.stopping = false → a ≠ .event .close ∧ a ≠ .start) :
    Tracks (actions ++ [a]) client where
  orderly := h.orderly
  stopped := h.stopped
  table hstopping ntPath pubuid hentry := by
    obtain ⟨key, typeCode, since, hpath, hstanding, hsent⟩ := h.table hstopping ntPath pubuid hentry
    obtain ⟨hclose, hstart⟩ := hkeeps hstopping
    exact ⟨key, typeCode, since ++ [a], hpath, hstanding.concat hclose hstart,
      fun hopen => hsent fun hmem => hopen (List.mem_append_left _ hmem)⟩
  log h' := by rw [hconnected] at h'; cases h'
  claimed h' := by rw [hconnected] at h'; cases h'
  called h' := by rw [hconnected] at h'; cases h'

theorem Tracks.open (h : Tracks actions client) (hstopping : client.stopping = false) :
    Tracks (actions ++ [.event .open]) { client with connected := true, sent := [.subscribe] } where
  orderly := (log_subscribe client.nextPubUid).orderly (Nat.zero_le _)
  stopped h' := by
    simp only at h'
    rw [hstopping] at h'
    cases h'
  table _ ntPath pubuid hentry := by
    obtain ⟨key, typeCode, since, hpath, hstanding, -⟩ := h.table hstopping ntPath pubuid hentry
    exact ⟨key, typeCode, since ++ [.event .open], hpath,
      hstanding.concat (by simp) (by simp),
      fun hopen => absurd (List.mem_append_right _ List.mem_cons_self) hopen⟩
  log _ := log_subscribe client.nextPubUid
  claimed _ := by simp [claims, Sent.claim?]
  called _ := ⟨actions, [], rfl, List.not_mem_nil, by simp [claims, Sent.claim?]⟩

theorem Tracks.error (h : Tracks actions client) :
    Tracks (actions ++ [.event .error]) { client with connected := false } := by
  have hquiet : Tracks actions { client with connected := false } :=
    { orderly := h.orderly
      stopped := fun _ => rfl
      table := h.table
      log := fun h' => by cases h'
      claimed := fun h' => by cases h'
      called := fun h' => by cases h' }
  exact hquiet.idle rfl fun _ => ⟨by simp, by simp⟩

theorem Tracks.onMessage (h : Tracks actions client) (type : WebSocketMessageType) :
    Tracks (actions ++ [.event type]) (client.onMessage type) := by
  cases hstopping : client.stopping with
  | true =>
    unfold NT4Client.onMessage
    rw [if_pos hstopping]
    refine h.idle (h.stopped hstopping) fun hrunning => ?_
    rw [hstopping] at hrunning
    cases hrunning
  | false =>
    unfold NT4Client.onMessage
    rw [if_neg (by simp [hstopping])]
    cases type with
    | «open» => exact h.open hstopping
    | close =>
      exact
        { orderly := h.orderly
          stopped := fun _ => rfl
          table := fun _ _ _ hentry => by cases hentry
          log := fun h' => by cases h'
          claimed := fun h' => by cases h'
          called := fun h' => by cases h' }
    | error => exact h.error

/-- A publish call while connected uses the claim of its topic, or makes one. -/
theorem publish_cases (hconnected : client.connected = true) (key : ByteString)
    (timestamp : UInt64) (typeCode : NT4TypeCode) (value : TopicValue) :
    (∃ pubuid, client.publishedTopics (kPrefix ++ key) = some pubuid ∧
      (client.publish key timestamp typeCode value).1 =
        { client with
          sent := client.sent ++ [.value (kPrefix ++ key) timestamp pubuid typeCode value] }) ∨
    client.publishedTopics (kPrefix ++ key) = none ∧
      (client.publish key timestamp typeCode value).1 =
        { client with
          nextPubUid := client.nextPubUid + 1
          sent := client.sent ++ [.publish (kPrefix ++ key) typeCode client.nextPubUid] ++
            [.value (kPrefix ++ key) timestamp client.nextPubUid typeCode value]
          publishedTopics := fun path =>
            if path = kPrefix ++ key then some client.nextPubUid
            else client.publishedTopics path } := by
  rw [NT4Client.publish, if_neg (by simp [hconnected]), NT4Client.ensurePublished]
  cases htable : client.publishedTopics (kPrefix ++ key) with
  | some pubuid => exact .inl ⟨pubuid, rfl, rfl⟩
  | none => exact .inr ⟨rfl, rfl⟩

/-- Topics claimed on a connection are keys called since it opened, so they are no more than
these. -/
theorem length_claims_le {sent : List Sent} {nextPubUid : Int32} {since : List Action}
    (hlog : Log sent nextPubUid)
    (hcalled : ∀ ntPath ∈ (claims sent).map Prod.fst,
      ∃ key ∈ (since.filterMap Action.publication?).map Prod.fst, ntPath = kPrefix ++ key) :
    (claims sent).length ≤
      ((since.filterMap Action.publication?).map Prod.fst).dedup.length := by
  have hsub : (claims sent).map Prod.fst ⊆
      (((since.filterMap Action.publication?).map Prod.fst).dedup).map (kPrefix ++ ·) := by
    intro ntPath hpath
    obtain ⟨key, hkey, rfl⟩ := hcalled ntPath hpath
    exact List.mem_map_of_mem (List.mem_dedup.mpr hkey)
  have hlength := (List.Nodup.subperm hlog.topics hsub).length_le
  rwa [List.length_map, List.length_map] at hlength

/-- The log after a publish call while connected, and what it says of the client. -/
theorem Tracks.of_log {a : Action} {key : ByteString} {typeCode : NT4TypeCode}
    (h : Tracks actions client) (ha : a.publication? = some (key, typeCode))
    (hconnected : client.connected = true) {next : NT4Client}
    (hnext : clientAfter (actions ++ [a]) = next) (hconsistent : Consistent (actions ++ [a]))
    (hstill : next.connected = true) (hrunning : next.stopping = false)
    (hlog : Log next.sent next.nextPubUid)
    (htable : ∀ ntPath pubuid, next.publishedTopics ntPath = some pubuid →
      ∃ key typeCode since, ntPath = kPrefix ++ key ∧
        Standing (actions ++ [a]) key typeCode since ∧
        (.event .open ∉ since → Sent.publish ntPath typeCode pubuid ∈ next.sent))
    (hclaimed : ∀ ntPath ∈ (claims next.sent).map Prod.fst,
      (next.publishedTopics ntPath).isSome ∧
        (ntPath ∈ (claims client.sent).map Prod.fst ∨ ntPath = kPrefix ++ key)) :
    Tracks (actions ++ [a]) next := by
  obtain ⟨before, since, hactions, hsince, hcalled⟩ := h.called hconnected
  have hopen : a ≠ .event .open := by rintro rfl; cases ha
  have hsplit : actions ++ [a] = before ++ .event .open :: (since ++ [a]) := by
    rw [hactions, List.append_assoc, List.cons_append]
  have hnoOpen : .event .open ∉ since ++ [a] := by
    rw [List.mem_append, List.mem_singleton, not_or]
    exact ⟨hsince, hopen.symm⟩
  have hcalled' : ∀ ntPath ∈ (claims next.sent).map Prod.fst,
      ∃ key ∈ ((since ++ [a]).filterMap Action.publication?).map Prod.fst,
        ntPath = kPrefix ++ key := by
    intro ntPath hpath
    rw [List.filterMap_append, List.map_append]
    rcases (hclaimed ntPath hpath).2 with hold | hnew
    · obtain ⟨key', hkey', hpath'⟩ := hcalled ntPath hold
      exact ⟨key', List.mem_append_left _ hkey', hpath'⟩
    · exact ⟨key, List.mem_append_right _ (by simp [ha]), hnew⟩
  have hfew := hconsistent.few before (since ++ [a]) [] (by rw [List.append_nil, hsplit]) hnoOpen
    (by rw [← hsplit, hnext, hstill])
  exact
    { orderly := hlog.orderly ((length_claims_le hlog hcalled').trans hfew)
      stopped := fun hstopping => by rw [hrunning] at hstopping; cases hstopping
      table := fun _ => htable
      log := fun _ => hlog
      claimed := fun _ ntPath hpath => (hclaimed ntPath hpath).1
      called := fun _ => ⟨before, since ++ [a], hsplit, hnoOpen, hcalled'⟩ }

theorem Tracks.publish (h : Tracks actions client) {a : Action} {key : ByteString}
    {typeCode : NT4TypeCode} (ha : a.publication? = some (key, typeCode))
    (hclient : clientAfter actions = client) (timestamp : UInt64) (value : TopicValue)
    (hnext : clientAfter (actions ++ [a]) = (client.publish key timestamp typeCode value).1)
    (hconsistent : Consistent (actions ++ [a])) :
    Tracks (actions ++ [a]) (client.publish key timestamp typeCode value).1 := by
  have hclose : a ≠ .event .close := by rintro rfl; cases ha
  have hstart : a ≠ .start := by rintro rfl; cases ha
  cases hconnected : client.connected with
  | false =>
    rw [NT4Client.publish, if_pos hconnected]
    exact h.idle hconnected fun _ => ⟨hclose, hstart⟩
  | true =>
    have hrunning : client.stopping = false := by
      by_contra hstopping
      rw [h.stopped (by simpa using hstopping)] at hconnected
      cases hconnected
    have holdTable (ntPath : ByteString) (pubuid : Int32)
        (hentry : client.publishedTopics ntPath = some pubuid) :
        ∃ key typeCode since, ntPath = kPrefix ++ key ∧
          Standing (actions ++ [a]) key typeCode since ∧
          (.event .open ∉ since → Sent.publish ntPath typeCode pubuid ∈ client.sent) := by
      obtain ⟨key', typeCode', since, hpath, hstanding, hsent⟩ :=
        h.table hrunning ntPath pubuid hentry
      exact ⟨key', typeCode', since ++ [a], hpath, hstanding.concat hclose hstart,
        fun hopen => hsent fun hmem => hopen (List.mem_append_left _ hmem)⟩
    rcases publish_cases hconnected key timestamp typeCode value with
      ⟨pubuid, hentry, heq⟩ | ⟨hentry, heq⟩
    · -- The claim that is used was made for this type on this connection.
      have hclaim : Sent.publish (kPrefix ++ key) typeCode pubuid ∈ client.sent := by
        obtain ⟨key', typeCode', since, hpath, hstanding, hsent⟩ :=
          h.table hrunning _ pubuid hentry
        obtain rfl := List.append_cancel_left hpath
        obtain ⟨rfl, hopen⟩ := hconsistent.repeated actions a [] key typeCode rfl ha
          (by rw [hclient, hconnected]) typeCode' since hstanding
        exact hsent hopen
      rw [heq] at hnext ⊢
      refine h.of_log ha hconnected hnext hconsistent hconnected hrunning
        ((h.log hconnected).value hclaim timestamp value) (fun ntPath uid hold => ?_)
        (fun ntPath hpath => ?_)
      · obtain ⟨key', typeCode', since, hpath, hstanding, hsent⟩ := holdTable ntPath uid hold
        exact ⟨key', typeCode', since, hpath, hstanding,
          fun hopen => List.mem_append_left _ (hsent hopen)⟩
      · simp only [claims_value] at hpath
        exact ⟨h.claimed hconnected ntPath hpath, .inl hpath⟩
    · have hnew : kPrefix ++ key ∉ (claims client.sent).map Prod.fst := by
        intro hold
        have hsome := h.claimed hconnected _ hold
        rw [hentry] at hsome
        cases hsome
      rw [heq] at hnext ⊢
      refine h.of_log ha hconnected hnext hconsistent hconnected hrunning
        (((h.log hconnected).publish hnew typeCode).value
          (List.mem_append_right _ List.mem_cons_self) timestamp value) (fun ntPath uid hold => ?_)
        (fun ntPath hpath => ?_)
      · by_cases hpath : ntPath = kPrefix ++ key
        · subst hpath
          simp only [if_true, Option.some.injEq] at hold
          subst hold
          exact ⟨key, typeCode, [], rfl, ⟨⟨actions, a, rfl, ha, by rw [hclient, hconnected]⟩,
            List.not_mem_nil, List.not_mem_nil⟩, fun _ => by simp⟩
        · simp only [if_neg hpath] at hold
          obtain ⟨key', typeCode', since, hpath', hstanding, hsent⟩ := holdTable ntPath uid hold
          exact ⟨key', typeCode', since, hpath', hstanding, fun hopen => by simp [hsent hopen]⟩
      · simp only [claims_value, claims_publish, List.map_append, List.mem_append, List.map_cons,
          List.map_nil, List.mem_singleton] at hpath
        rcases hpath with hold | rfl
        · refine ⟨?_, .inl hold⟩
          simp only
          split
          · rfl
          · exact h.claimed hconnected ntPath hold
        · exact ⟨by simp, .inr rfl⟩

end Events

/-- One more call or event of a consistent sequence. -/
theorem Tracks.step {actions : List Action} {a : Action}
    (h : Tracks actions (clientAfter actions)) (hconsistent : Consistent (actions ++ [a])) :
    Tracks (actions ++ [a]) (clientAfter (actions ++ [a])) := by
  have hnext := clientAfter_concat actions a
  cases a with
  | start => rw [hnext]; exact h.start
  | stop => rw [hnext]; exact h.stop
  | event type => rw [hnext]; exact h.onMessage type
  | publishBool key timestamp value =>
    rw [hnext]
    exact h.publish rfl rfl timestamp (.bool value) hnext hconsistent
  | publishDouble key timestamp value =>
    rw [hnext]
    exact h.publish rfl rfl timestamp (.double value) hnext hconsistent
  | publishString key timestamp value =>
    rw [hnext]
    exact h.publish rfl rfl timestamp (.string value) hnext hconsistent

theorem Consistent.of_append {front back : List Action} (h : Consistent (front ++ back)) :
    Consistent front where
  repeated before a rest key typeCode hsplit :=
    h.repeated before a (rest ++ back) key typeCode (by rw [hsplit]; simp)
  few before since rest hsplit :=
    h.few before since (rest ++ back) (by rw [hsplit]; simp)

theorem tracks_of_consistent {actions : List Action} (h : Consistent actions) :
    Tracks actions (clientAfter actions) := by
  induction actions using List.reverseRecOn with
  | nil => exact tracks_nil
  | append_singleton actions a ih => exact (ih h.of_append).step h

/-- A client that publishes on one connection only and gives every key one type is consistent. -/
theorem Consistent.of_pairwise {actions : List Action}
    (hopen : actions.Pairwise fun a b => a.publication?.isSome → b ≠ .event .open)
    (htypes : ∀ a ∈ actions, ∀ b ∈ actions,
      a.publication?.map Prod.fst = b.publication?.map Prod.fst → a.publication? = b.publication?)
    (hfew : (actions.filterMap Action.publication?).length ≤ 2 ^ 32) : Consistent actions where
  repeated before a back key typeCode hsplit ha _ typeCode' since hstanding := by
    obtain ⟨before', b, rfl, hb, -⟩ := hstanding.call
    subst hsplit
    constructor
    · have htype := htypes a (by simp) b (by simp) (by rw [ha, hb]; rfl)
      rw [ha, hb] at htype
      exact (congrArg Prod.snd (Option.some.inj htype)).symm
    · intro hmem
      rw [List.append_assoc, List.pairwise_append] at hopen
      have hlater := (List.pairwise_cons.mp hopen.2.1).1
      exact hlater (.event .open) (List.mem_append_left _ hmem) (by rw [hb]; rfl) rfl
  few before since back hsplit _ _ := by
    have hsublist : (since.filterMap Action.publication?).Sublist
        (actions.filterMap Action.publication?) := by
      refine List.Sublist.filterMap _ ?_
      rw [hsplit, List.append_assoc]
      exact List.sublist_append_of_sublist_right (List.sublist_cons_of_sublist _
        (List.sublist_append_left _ _))
    have hdedup := (List.dedup_sublist
      ((since.filterMap Action.publication?).map Prod.fst)).length_le
    rw [List.length_map] at hdedup
    exact hdedup.trans (hsublist.length_le.trans hfew)

def keyA : ByteString := [0x41]

end SmartDashboard.NT4
