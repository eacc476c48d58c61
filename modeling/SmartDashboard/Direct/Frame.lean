import SmartDashboard.Direct.Ring

/-!
# Frames

What a frame is as a byte string, and the agreement of the two loops that handle it: `WriteUpsert`
lays exactly `frameBytes` on the circle, in as many bytes as its length computation says, and
`ReadNextUpsert` turns them back into the normalised update, wherever the frame wraps.

## Main definitions

- `VariableUpdate.frameBytes`: header, key and value of a frame
- `VariableUpdate.normalise`: what is left of an update after the size limits
- `IsIndex`: an index of the ring stands for a position of the circle
-/

namespace SmartDashboard.Direct

open CircularMemory LittleEndian

/-- Capacities of the ring for which no index computation of the two functions overflows. -/
def IsCapacity (capacity : UInt32) : Prop := 0 < capacity.toNat ∧ capacity.toNat ≤ 2 ^ 31

/-- `index` is the cell of the position `p`. -/
def IsIndex (capacity index : UInt32) (p : ℕ) : Prop := index.toNat = p % capacity.toNat

def itemBytes (item : ByteString) : ByteString :=
  leBytes 2 (min item.length kStringMax) ++ item.take kStringMax

def arrayBytes (items : List ByteString) : ByteString :=
  UInt8.ofNat (min items.length kStringArrayMaxCount) ::
    (items.take kStringArrayMaxCount).flatMap itemBytes

namespace VariableUpdate

def valueBytes (u : VariableUpdate) : ByteString :=
  match u.type with
  | .bool => [if u.value.boolValue then 1 else 0]
  | .double => leBytes 8 u.value.doubleValue.toNat
  | .string => u.value.stringValue.take kStringMax
  | .stringArray => arrayBytes u.value.stringArrayValue

/-- A frame: header, key, value. -/
def frameBytes (u : VariableUpdate) : ByteString :=
  u.messageHeader.toBytes ++ u.key.take kKeyMax ++ u.valueBytes

/-- The field that belongs to the type, within the size limits; the others at their defaults. -/
def normalValue (u : VariableUpdate) : VariableValue :=
  match u.type with
  | .bool => { boolValue := u.value.boolValue }
  | .double => { doubleValue := u.value.doubleValue }
  | .string => { stringValue := u.value.stringValue.take kStringMax }
  | .stringArray =>
    { stringArrayValue :=
        (u.value.stringArrayValue.take kStringArrayMaxCount).map (·.take kStringMax) }

/-- The update as a subscriber sees it. -/
def normalise (u : VariableUpdate) : VariableUpdate :=
  { u with key := u.key.take kKeyMax, value := u.normalValue }

end VariableUpdate

/-! ### The length computation agrees with the encoder -/

section Lengths

@[simp] theorem length_itemBytes (item : ByteString) :
    (itemBytes item).length = 2 + min item.length kStringMax := by
  rw [itemBytes, List.length_append, length_leBytes, List.length_take, Nat.min_comm]

/-- The fold of `ComputeValueLen` counts the bytes of the items. -/
theorem foldl_itemLen (items : List ByteString) (total : ℕ) :
    items.foldl (fun total item => total + 2 + min item.length kStringMax) total =
      total + (items.flatMap itemBytes).length := by
  induction items generalizing total with
  | nil => rfl
  | cons item items ih =>
    rw [List.foldl_cons, ih, List.flatMap_cons, List.length_append, length_itemBytes]
    omega

theorem length_items_le (items : List ByteString) :
    (items.flatMap itemBytes).length ≤ 258 * items.length := by
  induction items with
  | nil => simp
  | cons item items ih =>
    have hitem : min item.length kStringMax ≤ 256 := Nat.min_le_right ..
    rw [List.flatMap_cons, List.length_append, length_itemBytes, List.length_cons]
    omega

theorem length_arrayBytes (items : List ByteString) :
    (arrayBytes items).length =
      1 + ((items.take kStringArrayMaxCount).flatMap itemBytes).length := by
  rw [arrayBytes, List.length_cons, Nat.add_comm]

namespace VariableUpdate

variable (u : VariableUpdate)

theorem length_valueBytes_le : u.valueBytes.length ≤ 8257 := by
  obtain ⟨key, type, value, seq, ts⟩ := u
  cases type with
  | bool => simp [valueBytes]
  | double => simp [valueBytes]
  | string =>
    have h : (value.stringValue.take kStringMax).length ≤ 256 := List.length_take_le ..
    simp only [valueBytes]
    omega
  | stringArray =>
    have hitems := length_items_le (value.stringArrayValue.take kStringArrayMaxCount)
    have hcount : (value.stringArrayValue.take kStringArrayMaxCount).length ≤ 32 :=
      List.length_take_le ..
    simp only [valueBytes, length_arrayBytes]
    omega

theorem toNat_keyLen : u.keyLen.toNat = (u.key.take kKeyMax).length := by
  have h : min u.key.length kKeyMax ≤ 128 := Nat.min_le_right ..
  rw [keyLen, UInt16.toNat_ofNat', Nat.mod_eq_of_lt (by omega), List.length_take, Nat.min_comm]

theorem toNat_valueLen : u.valueLen.toNat = u.valueBytes.length := by
  have hle := u.length_valueBytes_le
  obtain ⟨key, type, value, seq, ts⟩ := u
  cases type with
  | bool => rfl
  | double => rw [valueBytes, length_leBytes]; rfl
  | string =>
    have h : min value.stringValue.length kStringMax ≤ 256 := Nat.min_le_right ..
    simp only [valueLen, computeValueLen, valueBytes]
    rw [UInt16.toNat_ofNat', Nat.mod_eq_of_lt (by omega), List.length_take, Nat.min_comm]
  | stringArray =>
    simp only [valueBytes, length_arrayBytes] at hle
    simp only [valueLen, computeValueLen, valueBytes, foldl_itemLen, length_arrayBytes]
    rw [UInt16.toNat_ofNat', Nat.mod_eq_of_lt (by omega)]

@[simp] theorem length_toBytes (msg : MessageHeader) :
    msg.toBytes.length = messageHeaderSize := by
  simp [MessageHeader.toBytes, messageHeaderSize]

theorem length_frameBytes :
    u.frameBytes.length = messageHeaderSize + u.keyLen.toNat + u.valueLen.toNat := by
  rw [frameBytes, List.length_append, List.length_append, length_toBytes, toNat_keyLen,
    toNat_valueLen]

theorem length_frameBytes_le : u.frameBytes.length ≤ 8417 := by
  have hkey : (u.key.take kKeyMax).length ≤ 128 := List.length_take_le ..
  have hvalue := u.length_valueBytes_le
  rw [length_frameBytes, toNat_keyLen, toNat_valueLen, messageHeaderSize]
  omega

theorem length_frameBytes_pos : 0 < u.frameBytes.length := by
  rw [length_frameBytes, messageHeaderSize]
  omega

/-- The length that is compared with the free space is the length of the frame. -/
theorem toNat_totalBytes : u.totalBytes.toNat = u.frameBytes.length := by
  have hle := u.length_frameBytes_le
  rw [length_frameBytes] at hle ⊢
  rw [totalBytes, UInt32.toNat_ofNat', Nat.mod_eq_of_lt (by omega)]

theorem toNat_messageBytes : u.messageHeader.messageBytes.toNat = u.frameBytes.length := by
  have hle := u.length_frameBytes_le
  rw [messageHeader, UInt32.toNat_toUInt16, toNat_totalBytes, Nat.mod_eq_of_lt (by omega)]

theorem take_keyLen : u.key.take u.keyLen.toNat = u.key.take kKeyMax := by
  rw [toNat_keyLen, List.length_take, List.take_eq_take_iff]
  omega

end VariableUpdate

end Lengths

/-! ### The encoder -/

section Encoder

variable {capacity : UInt32} {payload : ℕ → UInt8} {index : UInt32} {p : ℕ}

theorem IsIndex.lt (hcap : IsCapacity capacity) (hindex : IsIndex capacity index p) :
    index.toNat < capacity.toNat := by
  rw [hindex]
  exact Nat.mod_lt p hcap.1

/-- Moving an index forward by less than a turn moves its position. -/
theorem IsIndex.add (hcap : IsCapacity capacity) (hindex : IsIndex capacity index p) {n : ℕ}
    (hn : n ≤ capacity.toNat) :
    IsIndex capacity ((index + UInt32.ofNat n) % capacity) (p + n) := by
  have hlt := hindex.lt hcap
  have hbound := hcap.2
  have hofNat : (UInt32.ofNat n).toNat = n := by
    rw [UInt32.toNat_ofNat', Nat.mod_eq_of_lt (by omega)]
  have hsum : (index.toNat + n) % 2 ^ 32 = index.toNat + n := Nat.mod_eq_of_lt (by omega)
  rw [IsIndex, UInt32.toNat_mod, UInt32.toNat_add, hofNat, hsum, hindex, Nat.mod_add_mod]

namespace Ring

/-- The two-segment copy writes its bytes on the circle. -/
theorem copyToRing_eq (hcap : IsCapacity capacity) (hindex : IsIndex capacity index p)
    {bytes : ByteString} (hlen : bytes.length ≤ capacity.toNat) :
    copyToRing capacity payload index bytes = blit capacity.toNat payload p bytes := by
  have hlt := hindex.lt hcap
  have hsub : (capacity - index).toNat = capacity.toNat - index.toNat :=
    UInt32.toNat_sub_of_le _ _ (UInt32.le_iff_toNat_le.mpr (by omega))
  have hblit : blit capacity.toNat payload p bytes =
      blit capacity.toNat payload index.toNat bytes :=
    blit_congr_mod _ (by rw [hindex, Nat.mod_mod]) _
  rw [hblit, blit_eq_store_store payload (by omega) hlen]
  simp only [copyToRing, hsub]
  by_cases hwrap : bytes.length ≤ capacity.toNat - index.toNat
  · -- one segment: there is nothing left to copy to the start
    have hstore : ∀ mem : ℕ → UInt8, store mem 0 [] = mem := fun mem => by
      funext b
      simp [store]
    rw [Nat.min_eq_left hwrap, List.take_of_length_le hwrap, List.drop_eq_nil_of_le hwrap,
      hstore, List.take_of_length_le (Nat.le_refl _), if_neg (Nat.lt_irrefl _)]
    split_ifs with hzero
    · rw [List.length_eq_zero_iff.mp hzero]
      funext b
      simp [store]
    · rfl
  · rw [Nat.min_eq_right (by omega), if_neg (by omega), if_pos (by omega)]

/-- The two-segment copy reads a span of the circle. -/
theorem copyFromRing_eq (hcap : IsCapacity capacity) (hindex : IsIndex capacity index p)
    {count : ℕ} (hlen : count ≤ capacity.toNat) :
    copyFromRing capacity payload index count = window capacity.toNat payload p count := by
  have hlt := hindex.lt hcap
  have hsub : (capacity - index).toNat = capacity.toNat - index.toNat :=
    UInt32.toNat_sub_of_le _ _ (UInt32.le_iff_toNat_le.mpr (by omega))
  have hwindow : window capacity.toNat payload p count =
      window capacity.toNat payload index.toNat count := by
    rw [hindex, window_mod]
  rw [hwindow, window_eq_load_load payload (by omega) hlen]
  simp only [copyFromRing, hsub]
  by_cases hwrap : count ≤ capacity.toNat - index.toNat
  · rw [Nat.min_eq_left hwrap, Nat.sub_self, if_neg (Nat.lt_irrefl _)]
    split_ifs with hzero
    · rw [hzero]
      rfl
    · simp [load]
  · rw [Nat.min_eq_right (by omega), if_neg (by omega), if_pos (by omega)]

/-- The bytes written so far, and the cursor behind them. -/
def IsWritten (capacity : UInt32) (payload : ℕ → UInt8) (p : ℕ) (bytes : ByteString)
    (dest : (ℕ → UInt8) × UInt32) : Prop :=
  dest.1 = blit capacity.toNat payload p bytes ∧ IsIndex capacity dest.2 (p + bytes.length)

variable {dest : (ℕ → UInt8) × UInt32} {bytes : ByteString}

theorem IsWritten.putBytes (hcap : IsCapacity capacity)
    (hdest : IsWritten capacity payload p bytes dest) (more : ByteString)
    (hlen : more.length ≤ capacity.toNat) :
    IsWritten capacity payload p (bytes ++ more) (putBytes capacity dest more) := by
  obtain ⟨hpayload, hcursor⟩ := hdest
  refine ⟨?_, ?_⟩
  · rw [Ring.putBytes, copyToRing_eq hcap hcursor hlen, hpayload, blit_append]
  · rw [List.length_append, ← Nat.add_assoc]
    exact hcursor.add hcap hlen

theorem IsWritten.putItem (hcap : IsCapacity capacity)
    (hdest : IsWritten capacity payload p bytes dest) {item : ByteString}
    (hlen : (itemBytes item).length ≤ capacity.toNat) :
    IsWritten capacity payload p (bytes ++ itemBytes item) (putItem capacity dest item) := by
  rw [length_itemBytes] at hlen
  have hitemLen := hdest.putBytes hcap (leBytes 2 (min item.length kStringMax))
    (by rw [length_leBytes]; omega)
  have htake : item.take (min item.length kStringMax) = item.take kStringMax := by
    rw [List.take_eq_take_iff]
    omega
  rw [itemBytes, ← List.append_assoc, Ring.putItem]
  by_cases hempty : 0 < min item.length kStringMax
  · simp only [if_pos hempty, htake]
    apply hitemLen.putBytes hcap
    rw [List.length_take]
    omega
  · have hnil : item.take kStringMax = [] := by
      rw [← htake, Nat.eq_zero_of_not_pos hempty, List.take_zero]
    simpa only [if_neg hempty, hnil, List.append_nil] using hitemLen

theorem IsWritten.putItems (hcap : IsCapacity capacity)
    (hdest : IsWritten capacity payload p bytes dest) (items : List ByteString)
    (hlen : (items.flatMap itemBytes).length ≤ capacity.toNat) :
    IsWritten capacity payload p (bytes ++ items.flatMap itemBytes)
      (items.foldl (Ring.putItem capacity) dest) := by
  induction items generalizing dest bytes with
  | nil => simpa using hdest
  | cons item items ih =>
    rw [List.flatMap_cons, List.length_append] at hlen
    rw [List.flatMap_cons, ← List.append_assoc]
    exact ih (hdest.putItem hcap (by omega)) (by omega)

theorem IsWritten.putValue (hcap : IsCapacity capacity)
    (hdest : IsWritten capacity payload p bytes dest) {u : VariableUpdate}
    (hlen : u.valueBytes.length ≤ capacity.toNat) :
    IsWritten capacity payload p (bytes ++ u.valueBytes) (putValue capacity dest u) := by
  have hvalueLen := u.toNat_valueLen
  rw [Ring.putValue]
  by_cases hempty : 0 < u.valueLen
  · -- each type takes as many bytes as the length computation counted
    rw [if_pos hempty]
    obtain ⟨key, type, value, seq, ts⟩ := u
    cases type with
    | bool => exact hdest.putBytes hcap _ hlen
    | double => exact hdest.putBytes hcap _ hlen
    | string =>
      have htake : value.stringValue.take
          (VariableUpdate.valueLen ⟨key, .string, value, seq, ts⟩).toNat =
          value.stringValue.take kStringMax := by
        have hstring : (VariableUpdate.valueLen ⟨key, .string, value, seq, ts⟩).toNat =
            (value.stringValue.take kStringMax).length := hvalueLen
        rw [hstring, List.length_take, List.take_eq_take_iff]
        omega
      simp only [htake]
      exact hdest.putBytes hcap _ hlen
    | stringArray =>
      have hcount := hdest.putBytes hcap
        [UInt8.ofNat (min value.stringArrayValue.length kStringArrayMaxCount)] hcap.1
      have htake : value.stringArrayValue.take
          (min value.stringArrayValue.length kStringArrayMaxCount) =
          value.stringArrayValue.take kStringArrayMaxCount := by
        rw [List.take_eq_take_iff]
        omega
      simp only [VariableUpdate.valueBytes, length_arrayBytes] at hlen
      simp only [htake]
      have hitems := hcount.putItems hcap
        (value.stringArrayValue.take kStringArrayMaxCount) (by omega)
      rwa [List.append_assoc] at hitems
  · have hzero : u.valueLen.toNat = 0 := by
      rw [UInt16.lt_iff_toNat_lt] at hempty
      exact Nat.eq_zero_of_not_pos hempty
    have hnil : u.valueBytes = [] := List.length_eq_zero_iff.mp (hvalueLen ▸ hzero)
    rwa [if_neg hempty, hnil, List.append_nil]

/-- `WriteUpsert` lays the frame on the circle and leaves its cursor behind it. -/
theorem copyFrame_eq {ring : Ring} (hcap : IsCapacity ring.capacity)
    (hindex : IsIndex ring.capacity index p) {u : VariableUpdate}
    (hlen : u.frameBytes.length ≤ ring.capacity.toNat) :
    (ring.copyFrame u index).1 =
        { ring with payload := blit ring.capacity.toNat ring.payload p u.frameBytes } ∧
      IsIndex ring.capacity (ring.copyFrame u index).2 (p + u.frameBytes.length) := by
  simp only [VariableUpdate.frameBytes, List.length_append] at hlen
  -- header, key and value, one behind the other
  have hstart : IsWritten ring.capacity ring.payload p [] (ring.payload, index) := ⟨rfl, hindex⟩
  have hheader := hstart.putBytes hcap u.messageHeader.toBytes (by omega)
  have hkey : IsWritten ring.capacity ring.payload p
      (u.messageHeader.toBytes ++ u.key.take kKeyMax)
      (if 0 < u.keyLen then
        Ring.putBytes ring.capacity
          (Ring.putBytes ring.capacity (ring.payload, index) u.messageHeader.toBytes)
          (u.key.take u.keyLen.toNat)
      else Ring.putBytes ring.capacity (ring.payload, index) u.messageHeader.toBytes) := by
    by_cases hempty : 0 < u.keyLen
    · rw [if_pos hempty, u.take_keyLen]
      exact hheader.putBytes hcap _ (by omega)
    · have hzero : u.keyLen.toNat = 0 := by
        rw [UInt16.lt_iff_toNat_lt] at hempty
        exact Nat.eq_zero_of_not_pos hempty
      have hnil : u.key.take kKeyMax = [] := by
        rw [← u.take_keyLen, hzero, List.take_zero]
      rwa [if_neg hempty, hnil, List.append_nil]
  obtain ⟨hpayload, hcursor⟩ := hkey.putValue hcap (u := u) (by omega)
  refine ⟨?_, ?_⟩
  · exact congrArg (fun payload => ({ ring with payload := payload } : Ring)) hpayload
  · exact hcursor

end Ring

end Encoder

/-! ### The decoder -/

section Decoder

/-- The header that is read is the header that was written. -/
theorem MessageHeader.ofBytes_toBytes (msg : MessageHeader) :
    MessageHeader.ofBytes msg.toBytes = msg := by
  obtain ⟨messageBytes, messageType, valueType, seq, ts, keyLen, valueLen⟩ := msg
  have h16 : ∀ n : UInt16, leValue (leBytes 2 n.toNat) = n.toNat := fun n =>
    leValue_leBytes_of_lt n.toNat_lt
  have h64 : ∀ n : UInt64, leValue (leBytes 8 n.toNat) = n.toNat := fun n =>
    leValue_leBytes_of_lt n.toNat_lt
  simp [MessageHeader.toBytes, MessageHeader.ofBytes, List.drop_append,
    List.drop_eq_nil_of_le, leValue, h16, h64]

@[simp] theorem fromWireType_toWireType (type : ValueType) :
    fromWireType (toWireType type) = type := by
  cases type <;> rfl

namespace Ring

/-- The item loop of the decoder inverts the item loop of the encoder. -/
theorem readItems_flatMap (items : List ByteString) :
    readItems items.length (items.flatMap itemBytes) = items.map (·.take kStringMax) := by
  induction items with
  | nil => rfl
  | cons item items ih =>
    have hlen : (item.take kStringMax).length = min item.length kStringMax := by
      rw [List.length_take, Nat.min_comm]
    have hmax : min item.length kStringMax ≤ 256 := Nat.min_le_right ..
    have hread : leValue (leBytes 2 (min item.length kStringMax)) =
        (item.take kStringMax).length := by
      rw [leValue_leBytes_of_lt (by omega), hlen]
    have hprefix := length_leBytes 2 (min item.length kStringMax)
    rw [List.flatMap_cons, itemBytes, List.append_assoc, List.length_cons, List.map_cons]
    simp only [readItems]
    rw [if_pos (by rw [List.length_append, hprefix]; omega), List.take_left' hprefix,
      List.drop_left' hprefix, hread, List.length_append, Nat.min_eq_left (by omega),
      List.take_left, List.drop_left, ih]

variable {ring : Ring} {index : UInt32} {p : ℕ} {u : VariableUpdate}

/-- A value that lies on the circle is read as the normal value. -/
theorem readValue_eq (hcap : IsCapacity ring.capacity) (hindex : IsIndex ring.capacity index p)
    (hlen : u.valueBytes.length ≤ ring.capacity.toNat)
    (hvalue : window ring.capacity.toNat ring.payload p u.valueBytes.length = u.valueBytes) :
    ring.readValue index u.type u.valueLen.toNat = u.normalValue := by
  have hcopy : copyFromRing ring.capacity ring.payload index u.valueBytes.length =
      u.valueBytes := (copyFromRing_eq hcap hindex hlen).trans hvalue
  rw [u.toNat_valueLen]
  obtain ⟨key, type, value, seq, ts⟩ := u
  cases type with
  | bool =>
    have hbyte : copyFromRing ring.capacity ring.payload index 1 =
        [if value.boolValue then 1 else 0] := hcopy
    cases hbool : value.boolValue <;>
      simp [readValue, VariableUpdate.valueBytes, VariableUpdate.normalValue, hbyte, hbool]
  | double =>
    have hbytes : copyFromRing ring.capacity ring.payload index 8 =
        leBytes 8 value.doubleValue.toNat := by
      simpa [VariableUpdate.valueBytes] using hcopy
    have hread : leValue (leBytes 8 value.doubleValue.toNat) = value.doubleValue.toNat :=
      leValue_leBytes_of_lt value.doubleValue.toNat_lt
    simp [readValue, VariableUpdate.valueBytes, VariableUpdate.normalValue, hbytes, hread]
  | string =>
    simp only [readValue, hcopy]
    rfl
  | stringArray =>
    have hcount : (UInt8.ofNat (min value.stringArrayValue.length kStringArrayMaxCount)).toNat =
        (value.stringArrayValue.take kStringArrayMaxCount).length := by
      have hmax : min value.stringArrayValue.length kStringArrayMaxCount ≤ 32 :=
        Nat.min_le_right ..
      rw [UInt8.toNat_ofNat', Nat.mod_eq_of_lt (by omega), List.length_take, Nat.min_comm]
    simp only [readValue, hcopy]
    simp only [VariableUpdate.valueBytes, arrayBytes, hcount, readItems_flatMap]
    rfl

/-- A frame that lies on the circle is read as the normalised update, and the cursor moves
behind it. -/
theorem readFrame_eq (hcap : IsCapacity ring.capacity) (hindex : IsIndex ring.capacity index p)
    (hlen : u.frameBytes.length ≤ ring.capacity.toNat)
    (hframe : window ring.capacity.toNat ring.payload p u.frameBytes.length = u.frameBytes)
    (writeIndex : UInt32) :
    ∃ cursor, ring.readFrame index writeIndex = (cursor, some u.normalise) ∧
      IsIndex ring.capacity cursor (p + u.frameBytes.length) := by
  have htotal : u.frameBytes.length =
      messageHeaderSize + ((u.key.take kKeyMax).length + u.valueBytes.length) := by
    rw [u.length_frameBytes, u.toNat_keyLen, u.toNat_valueLen, Nat.add_assoc]
  -- the three parts of the frame, where they lie
  have hparts : window ring.capacity.toNat ring.payload p u.frameBytes.length =
      (u.messageHeader.toBytes ++ u.key.take kKeyMax) ++ u.valueBytes := hframe
  obtain ⟨hfront, hvalue⟩ := window_of_append _ _ hparts
  obtain ⟨hheader, hkey⟩ := window_of_append _ _ hfront
  simp only [List.length_append, VariableUpdate.length_toBytes, Nat.add_sub_cancel_left]
    at hheader hkey hvalue
  have hvalueLen : u.frameBytes.length - (messageHeaderSize + (u.key.take kKeyMax).length) =
      u.valueBytes.length := by omega
  rw [hvalueLen, ← Nat.add_assoc] at hvalue
  have hheaderCopy : copyFromRing ring.capacity ring.payload index messageHeaderSize =
      u.messageHeader.toBytes := (copyFromRing_eq hcap hindex (by omega)).trans hheader
  -- the cursors behind the header, the key and the value
  have hcursor := hindex.add hcap (n := messageHeaderSize) (by omega)
  have hkeyCopy : copyFromRing ring.capacity ring.payload
      ((index + UInt32.ofNat messageHeaderSize) % ring.capacity) u.keyLen.toNat =
        u.key.take kKeyMax := by
    rw [u.toNat_keyLen]
    exact (copyFromRing_eq hcap hcursor (by omega)).trans hkey
  have hcursor' : IsIndex ring.capacity
      (if 0 < u.keyLen then
        ((index + UInt32.ofNat messageHeaderSize) % ring.capacity + u.keyLen.toUInt32) %
          ring.capacity
      else (index + UInt32.ofNat messageHeaderSize) % ring.capacity)
      (p + messageHeaderSize + (u.key.take kKeyMax).length) := by
    rw [← u.toNat_keyLen]
    by_cases hempty : 0 < u.keyLen
    · rw [if_pos hempty]
      rw [← UInt32.ofNat_uInt16ToNat]
      exact hcursor.add hcap (by rw [u.toNat_keyLen]; omega)
    · have hzero : u.keyLen.toNat = 0 := by
        rw [UInt16.lt_iff_toNat_lt] at hempty
        exact Nat.eq_zero_of_not_pos hempty
      rwa [if_neg hempty, hzero]
  have hvalueRead := readValue_eq hcap hcursor' (u := u) (by omega) hvalue
  have hend := hcursor'.add hcap (n := u.valueLen.toNat) (by rw [u.toNat_valueLen]; omega)
  rw [UInt32.ofNat_uInt16ToNat, u.toNat_valueLen, Nat.add_assoc, Nat.add_assoc, ← htotal] at hend
  refine ⟨_, ?_, hend⟩
  -- the header passes the three tests of the decoder
  have hmessage := u.toNat_messageBytes
  simp only [readFrame, hheaderCopy, MessageHeader.ofBytes_toBytes]
  rw [if_neg (by omega), if_neg (by simp [VariableUpdate.messageHeader]), if_neg ?_]
  · simp only [VariableUpdate.messageHeader, fromWireType_toWireType, hkeyCopy,
      VariableUpdate.normalise, ← hvalueRead]
    rfl
  · rw [hmessage, htotal, ← u.toNat_keyLen, ← u.toNat_valueLen]
    exact fun h => h rfl

/-- A frame is read back from where it was written, whatever has become of the header. -/
theorem readFrame_copyFrame {written : Ring} (hcap : IsCapacity ring.capacity)
    (hindex : IsIndex ring.capacity index p) (hlen : u.frameBytes.length ≤ ring.capacity.toNat)
    (hcapacity : written.capacity = ring.capacity)
    (hpayload : written.payload = (ring.copyFrame u index).1.payload) (writeIndex : UInt32) :
    written.readFrame index writeIndex = ((ring.copyFrame u index).2, some u.normalise) := by
  obtain ⟨hring, hcursor⟩ := copyFrame_eq hcap hindex hlen
  have hframe : window written.capacity.toNat written.payload p u.frameBytes.length =
      u.frameBytes := by
    rw [hcapacity, hpayload, hring]
    exact window_blit_self _ hlen
  rw [← hcapacity] at hcap hindex hlen hcursor
  obtain ⟨cursor, hread, hcursor'⟩ := readFrame_eq hcap hindex hlen hframe writeIndex
  rw [hread, UInt32.toNat_inj.mp (hcursor'.trans hcursor.symm)]

end Ring

end Decoder

end SmartDashboard.Direct
