import SmartDashboard.NativeLink.ValueCodec

/-!
# What the decoders of a message read

A message is a block of memory with three arrays at its end, the path, the client id and the
payload. The client turns it into an envelope and reads the texts with `memchr`, within their
arrays. The authority hands the path on as a C string. Both decode as many bytes of the payload as
`flags` says, a number that the sender chose.

## Main definitions

- `clientReads`, `serverReads`: the bytes that `MessageToEnvelope` and `HandleClientWriteLocked`
  read, by the array they read them through
- `InsideArrays`: no array is read behind its end
- `PayloadFits`: `flags` leads no decoder out of the payload
- `Undecoded`: the authority drops the message before it looks at the path

## Main results

- `insideArrays_clientReads_iff`, `insideArrays_serverReads_iff`: when the two stay inside
- `message_insideArrays_iff`: both of them
-/

namespace SmartDashboard.NativeLink

open LittleEndian CircularMemory

/-- The byte arrays of a message. -/
inductive MessageArray
  | topicPath
  | sourceClientId
  | payload
  deriving DecidableEq, Repr

def MessageArray.size : MessageArray → ℕ
  | .topicPath => topicPathBytes
  | .sourceClientId => clientIdBytes
  | .payload => kMaxPayloadBytes

/-- The memory from an array on, with what lies behind the array. -/
def ByteBlock.memory {n : ℕ} (block : ByteBlock n) (beyond : ℕ → UInt8) : ℕ → UInt8 := fun a =>
  block.1[a]?.getD (beyond (a - n))

/-- The bytes that `strlen` reads, from the start of a text on: all up to its NUL. -/
def strlenReads (mem : ℕ → UInt8) (a : ℕ) : Prop := ∀ b < a, mem b ≠ 0

/-- The bytes that `memchr` reads in its search for a NUL among the first `count` bytes. -/
def memchrReads (mem : ℕ → UInt8) (count a : ℕ) : Prop := a < count ∧ strlenReads mem a

namespace SharedMessage

section Reads

variable (message : SharedMessage) (beyond : ℕ → UInt8)

/-- The memory from the payload on. The payload is the last field of a message. -/
def payloadMemory : ℕ → UInt8 := message.payload.memory beyond

def sourceClientIdMemory : ℕ → UInt8 :=
  message.sourceClientId.memory (message.payloadMemory beyond)

def topicPathMemory : ℕ → UInt8 := message.topicPath.memory (message.sourceClientIdMemory beyond)

/-- What `DeserializeValue(message.valueType, message.payload, message.flags, …)` reads. -/
def payloadReads (a : ℕ) : Prop :=
  a ∈ valueAddresses (ValueType.ofNumber message.valueType) (message.payloadMemory beyond)
    message.flags.toNat

/-- The result of `DeserializeValue`, which takes its bytes from the memory. -/
def decoded : Bool :=
  (deserializeValue (ValueType.ofNumber message.valueType)
    (load (message.payloadMemory beyond) 0 message.flags.toNat)).1

/-- What `MessageToEnvelope` reads. -/
def clientReads : MessageArray → ℕ → Prop
  | .topicPath => memchrReads (message.topicPathMemory beyond) topicPathBytes
  | .sourceClientId => memchrReads (message.sourceClientIdMemory beyond) clientIdBytes
  | .payload => message.payloadReads beyond

/-- What `HandleClientWriteLocked` reads. The path becomes a `std::string` once or more, unless the
function returns because the value is not decoded; the client id is that of the connection. -/
def serverReads : MessageArray → ℕ → Prop
  | .topicPath => fun a => message.decoded beyond = true ∧
      strlenReads (message.topicPathMemory beyond) a
  | .sourceClientId => fun _ => False
  | .payload => message.payloadReads beyond

end Reads

/-- No array is read behind its end. -/
def InsideArrays (reads : MessageArray → ℕ → Prop) : Prop :=
  ∀ array a, reads array a → a < array.size

/-- The bytes that `flags` counts are bytes of the payload, where the decoder goes by `flags`. For
a list of texts it is enough that the list ends in the payload: complete texts are followed there
by fewer counted bytes than a length has, or by a length that goes beyond them. -/
def PayloadFits (message : SharedMessage) : Prop :=
  let flags := message.flags.toNat
  match ValueType.ofNumber message.valueType with
  | none => True
  | some .bool => True
  | some .double => True
  | some .string => flags ≤ kMaxPayloadBytes
  | some .stringArray => flags ≤ kMaxPayloadBytes ∨
      ∃ items, LengthPrefixed.encode 4 items <+: message.payload.1 ∧
        let next := (LengthPrefixed.encode 4 items).length
        flags < next + 4 ∨ next + 4 ≤ kMaxPayloadBytes ∧
          flags < next + 4 + leValue ((message.payload.1.drop next).take 4)

/-- There is no value in the bytes of the payload that `flags` counts. -/
def Undecoded (message : SharedMessage) : Prop :=
  let flags := message.flags.toNat
  match ValueType.ofNumber message.valueType with
  | none => True
  | some .bool => flags < 1
  | some .double => flags < 8
  | some .string => False
  | some .stringArray =>
      ¬ (flags ≤ kMaxPayloadBytes ∧ ∃ items, LengthPrefixed.encode 4 items = message.payloadBytes)

/-! ### Reads of an array -/

section Memory

variable {n : ℕ} (block : ByteBlock n) (beyond : ℕ → UInt8)

theorem memory_eq_getElem (i : ℕ) (hi : i < block.1.length) :
    block.memory beyond i = block.1[i] := by
  rw [ByteBlock.memory, List.getElem?_eq_getElem hi]
  rfl

theorem load_memory_from {a k : ℕ} (hk : a + k ≤ n) :
    load (block.memory beyond) a k = (block.1.drop a).take k :=
  load_of_getElem _ (memory_eq_getElem block beyond) (by rwa [block.2])

theorem load_memory {k : ℕ} (hk : k ≤ n) :
    load (block.memory beyond) 0 k = block.1.take k :=
  load_memory_from block beyond (by rwa [Nat.zero_add])

/-- `strlen` stays inside an array exactly if the array has a NUL. -/
theorem strlenReads_lt_iff :
    (∀ a, strlenReads (block.memory beyond) a → a < n) ↔ 0 ∈ block.1 := by
  constructor
  · intro h
    by_contra hnul
    refine absurd (h n fun b hb hzero => hnul ?_) (Nat.lt_irrefl n)
    have hb : b < block.1.length := by rwa [block.2]
    rw [← hzero, memory_eq_getElem block beyond b hb]
    exact List.getElem_mem _
  · intro hnul a hreads
    obtain ⟨i, hi, hzero⟩ := List.mem_iff_getElem.mp hnul
    have hlen := block.2
    by_contra hlong
    exact hreads i (by omega) ((memory_eq_getElem block beyond i hi).trans hzero)

end Memory

/-! ### The payload -/

section Payload

variable {message : SharedMessage} {beyond : ℕ → UInt8}

/-- Where a list of texts ends in the payload. -/
theorem endsBelow_payload_iff {items : List ByteString} :
    LengthPrefixed.EndsBelow 4 (message.payloadMemory beyond) message.flags.toNat
        kMaxPayloadBytes 0 items ↔
      LengthPrefixed.encode 4 items <+: message.payload.1 ∧
        let next := (LengthPrefixed.encode 4 items).length
        message.flags.toNat < next + 4 ∨ next + 4 ≤ kMaxPayloadBytes ∧
          message.flags.toNat < next + 4 + leValue ((message.payload.1.drop next).take 4) := by
  have hlen : message.payload.1.length = kMaxPayloadBytes := message.payload.2
  simp only [LengthPrefixed.EndsBelow, Nat.zero_add, payloadMemory]
  constructor
  · rintro ⟨hitems, hlimit, hend⟩
    rw [load_memory _ _ hlimit] at hitems
    refine ⟨List.prefix_iff_eq_take.mpr hitems.symm, hend.imp_right fun hrest => ?_⟩
    have hcount := hrest.2
    rw [load_memory_from _ _ hrest.1] at hcount
    exact ⟨hrest.1, hcount⟩
  · rintro ⟨hitems, hend⟩
    have hlimit := hitems.length_le
    rw [hlen] at hlimit
    refine ⟨?_, hlimit, hend.imp_right fun hrest => ⟨hrest.1, ?_⟩⟩
    · rw [load_memory _ _ hlimit]
      exact (List.prefix_iff_eq_take.mp hitems).symm
    · rw [load_memory_from _ _ hrest.1]
      exact hrest.2

theorem payloadReads_lt_iff :
    (∀ a, message.payloadReads beyond a → a < kMaxPayloadBytes) ↔ message.PayloadFits := by
  unfold payloadReads PayloadFits
  rcases ValueType.ofNumber message.valueType with _ | _ | _ | _ | _
  · simp [valueAddresses]
  · refine iff_of_true (fun a ha => ?_) trivial
    simp only [valueAddresses] at ha
    split_ifs at ha
    · simp at ha
    · rw [List.mem_singleton.mp ha]
      decide
  · refine iff_of_true (fun a ha => ?_) trivial
    simp only [valueAddresses] at ha
    split_ifs at ha
    · simp at ha
    · have := List.mem_range'_1.mp ha
      simp only [kMaxPayloadBytes]
      omega
  · simp only [valueAddresses, List.mem_range'_1]
    constructor
    · intro h
      by_contra hlong
      have := h kMaxPayloadBytes (by omega)
      omega
    · intro h a ha
      omega
  · constructor
    · intro h
      obtain ⟨items, -, hends⟩ := (LengthPrefixed.addresses_lt_iff (Nat.zero_le _)).mp h
      exact .inr ⟨items, endsBelow_payload_iff.mp hends⟩
    · rintro (hflags | ⟨items, hends⟩)
      · intro a ha
        exact lt_of_lt_of_le (LengthPrefixed.addresses_lt a ha) hflags
      · refine (LengthPrefixed.addresses_lt_iff (Nat.zero_le _)).mpr
          ⟨items, fun item hitem => ?_, endsBelow_payload_iff.mpr hends⟩
        have hitem := LengthPrefixed.length_le_length_encode 4 hitem
        have hroom := hends.1.length_le
        rw [message.payload.2, kMaxPayloadBytes] at hroom
        omega

/-- A decoder that stays in the payload finds a value if and only if there is one. -/
theorem decoded_iff (hfits : message.PayloadFits) :
    message.decoded beyond = true ↔ ¬ message.Undecoded := by
  have hreads := (@payloadReads_lt_iff message beyond).mpr hfits
  revert hreads
  unfold payloadReads decoded Undecoded
  rcases ValueType.ofNumber message.valueType with _ | _ | _ | _ | _ <;> intro hreads
  · simp [deserializeValue]
  · have hflag : ∀ bytes, (deserializeValue (some .bool) bytes).1 = true ↔ ¬ bytes.length < 1 := by
      rintro (_ | ⟨b, bytes⟩) <;> simp [deserializeValue]
    rw [hflag, length_load]
  · simp only [deserializeValue, length_load]
    split_ifs with hshort <;> simp [hshort]
  · simp [deserializeValue]
  · simp only [deserializeValue, not_not]
    constructor
    · intro haccepted
      have hflags : message.flags.toNat ≤ kMaxPayloadBytes := by
        by_contra hlong
        have hread := LengthPrefixed.mem_addresses_of_decode (Nat.zero_le kMaxPayloadBytes)
          (Nat.lt_of_not_le hlong) [] haccepted
        exact absurd (hreads _ hread) (Nat.lt_irrefl _)
      refine ⟨hflags, ?_⟩
      rw [payloadMemory, load_memory _ _ hflags] at haccepted
      obtain ⟨items, -, hbytes⟩ := LengthPrefixed.decode_fst_iff.mp haccepted
      exact ⟨items, hbytes⟩
    · rintro ⟨hflags, items, hbytes⟩
      rw [payloadMemory, load_memory _ _ hflags]
      refine LengthPrefixed.decode_fst_iff.mpr ⟨items, fun item hitem => ?_, hbytes⟩
      have hitem := LengthPrefixed.length_le_length_encode 4 hitem
      have hroom : message.payloadBytes.length ≤ kMaxPayloadBytes := by
        rw [payloadBytes, List.length_take, message.payload.2]
        omega
      rw [← hbytes, kMaxPayloadBytes] at hroom
      omega

end Payload

/-! ### A message -/

variable (message : SharedMessage) (beyond : ℕ → UInt8)

theorem insideArrays_clientReads_iff :
    InsideArrays (message.clientReads beyond) ↔ message.PayloadFits := by
  rw [← @payloadReads_lt_iff message beyond]
  constructor
  · intro h
    exact h .payload
  · intro hpayload array a ha
    cases array with
    | topicPath => exact ha.1
    | sourceClientId => exact ha.1
    | payload => exact hpayload a ha

theorem insideArrays_serverReads_iff :
    InsideArrays (message.serverReads beyond) ↔
      message.PayloadFits ∧ (message.Undecoded ∨ 0 ∈ message.topicPath.1) := by
  rw [← strlenReads_lt_iff message.topicPath (message.sourceClientIdMemory beyond)]
  constructor
  · intro h
    have hfits := payloadReads_lt_iff.mp (h .payload)
    refine ⟨hfits, ?_⟩
    by_contra hneither
    obtain ⟨hdecoded, hpath⟩ := not_or.mp hneither
    exact hpath fun a ha => h .topicPath a ⟨(decoded_iff hfits).mpr hdecoded, ha⟩
  · rintro ⟨hfits, hpath⟩ array a ha
    cases array with
    | topicPath =>
      rcases hpath with hundecoded | hpath
      · exact absurd hundecoded ((decoded_iff hfits).mp ha.1)
      · exact hpath a ha.2
    | sourceClientId => exact absurd ha id
    | payload => exact payloadReads_lt_iff.mpr hfits a ha

/-- Whatever a message holds and whatever lies behind it in memory: the client stays inside the
arrays of the message if and only if `flags` leads no decoder out of the payload, and the authority
if and only if moreover the path has a NUL or is not looked at. -/
theorem message_insideArrays_iff :
    (InsideArrays (message.clientReads beyond) ↔ message.PayloadFits) ∧
      (InsideArrays (message.serverReads beyond) ↔
        message.PayloadFits ∧ (message.Undecoded ∨ 0 ∈ message.topicPath.1)) :=
  ⟨insideArrays_clientReads_iff message beyond, insideArrays_serverReads_iff message beyond⟩

/-- A text that is said to be one byte longer than the payload. -/
def longText : SharedMessage := { valueType := 2, flags := 1025 }

theorem longText_not_insideArrays :
    ¬ ∀ (message : SharedMessage) beyond, InsideArrays (message.clientReads beyond) ∧
      InsideArrays (message.serverReads beyond) := by
  intro h
  have hfits := (insideArrays_clientReads_iff longText fun _ => 0).mp (h longText _).1
  exact absurd (show 1025 ≤ 1024 from hfits) (by decide)

end SharedMessage

end SmartDashboard.NativeLink
