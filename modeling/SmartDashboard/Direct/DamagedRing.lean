import SmartDashboard.Direct.Ring

/-!
# Reading a damaged ring

The drain loop of `RunLoop` on a ring whose payload, indices and capacity are arbitrary and whose
writer stands still. `ReadNextUpsert` compares the length of a frame with its own key and value
lengths, not with the bytes that are left up to `writeIndex`.

## Main definitions

- `frameAddresses`: the payload bytes that one call reads
- `drain`: the calls of the loop until one returns `false`
- `Drains`: the loop ends, reads inside the payload, stops at the writer, and delivers no more
  frames than there was room for
- `FramesFit`: the frames from the cursor on, each within the bytes that are left

## Main results

- `readFrame_congr`: a call reads no other bytes
- `drains_iff`: the loop drains the ring if and only if its frames fit
-/

namespace SmartDashboard.Direct

open CircularMemory

namespace Ring

/-! ### The bytes that are read -/

/-- The addresses of the two-segment copy out of the ring. -/
def copyAddresses (capacity index : UInt32) (count : ℕ) : List ℕ :=
  if count = 0 then []
  else
    let firstPart := min count (capacity - index).toNat
    let addresses := (List.range firstPart).map (index.toNat + ·)
    if firstPart < count then addresses ++ List.range (count - firstPart) else addresses

/-- The header that is read at a cursor. -/
def headerAt (ring : Ring) (readIndex : UInt32) : MessageHeader :=
  MessageHeader.ofBytes (copyFromRing ring.capacity ring.payload readIndex messageHeaderSize)

/-- What `ReadNextUpsert` takes a header for. -/
inductive FrameKind
  | malformed
  | unsupported
  | upsert
  deriving DecidableEq, Repr

def frameKind (msg : MessageHeader) : FrameKind :=
  if msg.messageBytes.toNat < messageHeaderSize then .malformed
  else if msg.messageType ≠ msgTypeUpsert then .unsupported
  else if msg.messageBytes.toNat ≠ messageHeaderSize + (msg.keyLen.toNat + msg.valueLen.toNat) then
    .malformed
  else .upsert

/-- Where the value of a frame begins. -/
def valueCursor (capacity readIndex : UInt32) (msg : MessageHeader) : UInt32 :=
  let cursor := (readIndex + UInt32.ofNat messageHeaderSize) % capacity
  if 0 < msg.keyLen then (cursor + msg.keyLen.toUInt32) % capacity else cursor

/-- How many bytes of the value are read. -/
def valueReads (type : ValueType) (valueLen : ℕ) : ℕ :=
  match type with
  | .bool => if 1 ≤ valueLen then 1 else 0
  | .double => if 8 ≤ valueLen then 8 else 0
  | .string => valueLen
  | .stringArray => valueLen

/-- The addresses that are read behind the header. -/
def bodyAddresses (capacity readIndex : UInt32) (msg : MessageHeader) : List ℕ :=
  copyAddresses capacity ((readIndex + UInt32.ofNat messageHeaderSize) % capacity)
      msg.keyLen.toNat ++
    copyAddresses capacity (valueCursor capacity readIndex msg)
      (valueReads (fromWireType msg.valueType) msg.valueLen.toNat)

/-- The addresses that are read of the frame at a cursor. -/
def frameAddresses (ring : Ring) (readIndex : UInt32) : List ℕ :=
  copyAddresses ring.capacity readIndex messageHeaderSize ++
    if frameKind (ring.headerAt readIndex) = .upsert then
      bodyAddresses ring.capacity readIndex (ring.headerAt readIndex)
    else []

theorem copyFromRing_eq_map (capacity : UInt32) (payload : ℕ → UInt8) (index : UInt32)
    (count : ℕ) :
    copyFromRing capacity payload index count =
      (copyAddresses capacity index count).map payload := by
  unfold copyFromRing copyAddresses
  split_ifs with hzero
  · rfl
  dsimp only
  split_ifs
  · rw [List.map_append, List.map_map]
    simp [load, Function.comp_def]
  · rw [List.map_map]
    rfl

theorem copyFromRing_congr {capacity : UInt32} {payload payload' : ℕ → UInt8} {index : UInt32}
    {count : ℕ} (h : ∀ a ∈ copyAddresses capacity index count, payload a = payload' a) :
    copyFromRing capacity payload index count = copyFromRing capacity payload' index count := by
  rw [copyFromRing_eq_map, copyFromRing_eq_map]
  exact List.map_congr_left h

/-- A copy of fewer than two laps stays inside the payload. -/
theorem copyAddresses_lt_iff {capacity index : UInt32} (hindex : index < capacity) (count : ℕ) :
    (∀ a ∈ copyAddresses capacity index count, a < capacity.toNat) ↔
      index.toNat + count ≤ 2 * capacity.toNat := by
  have hlt := UInt32.lt_iff_toNat_lt.mp hindex
  have hsub : (capacity - index).toNat = capacity.toNat - index.toNat :=
    UInt32.toNat_sub_of_le _ _ (UInt32.le_iff_toNat_le.mpr hlt.le)
  unfold copyAddresses
  rw [hsub]
  split_ifs with hzero
  · exact iff_of_true (by simp) (by omega)
  dsimp only
  have hfirst : ∀ a ∈ (List.range (min count (capacity.toNat - index.toNat))).map
      (index.toNat + ·), a < capacity.toNat := by
    intro a ha
    obtain ⟨i, hi, rfl⟩ := List.mem_map.mp ha
    have hi := List.mem_range.mp hi
    omega
  split_ifs with hwrap
  · rw [List.forall_mem_append, and_iff_right hfirst]
    constructor
    · intro h
      by_contra hlong
      have hlast := h (count - min count (capacity.toNat - index.toNat) - 1)
        (List.mem_range.mpr (by omega))
      omega
    · intro h a ha
      have ha := List.mem_range.mp ha
      omega
  · exact iff_of_true hfirst (by omega)

/-! ### One frame -/

/-- Where an upsert leaves the cursor. -/
def nextCursor (ring : Ring) (readIndex : UInt32) : UInt32 :=
  (valueCursor ring.capacity readIndex (ring.headerAt readIndex) +
    (ring.headerAt readIndex).valueLen.toUInt32) % ring.capacity

/-- The update that is delivered for an upsert. -/
def frameUpdate (ring : Ring) (readIndex : UInt32) : VariableUpdate :=
  let msg := ring.headerAt readIndex
  let type := fromWireType msg.valueType
  { key := copyFromRing ring.capacity ring.payload
      ((readIndex + UInt32.ofNat messageHeaderSize) % ring.capacity) msg.keyLen.toNat
    type := type
    value := ring.readValue (valueCursor ring.capacity readIndex msg) type msg.valueLen.toNat
    seq := msg.seq
    sourceTimestampUs := msg.sourceTimestampUs }

section Frame

variable {ring ring' : Ring} {readIndex writeIndex : UInt32}

theorem readFrame_malformed (h : frameKind (ring.headerAt readIndex) = .malformed) :
    ring.readFrame readIndex writeIndex = (writeIndex, none) := by
  unfold frameKind headerAt at h
  rw [readFrame]
  split_ifs at h with hshort hother hlengths
  · exact if_pos hshort
  · dsimp only
    rw [if_neg hshort, if_neg hother, if_pos hlengths]

theorem readFrame_unsupported (h : frameKind (ring.headerAt readIndex) = .unsupported) :
    ring.readFrame readIndex writeIndex =
      ((readIndex + (ring.headerAt readIndex).messageBytes.toUInt32) % ring.capacity, none) := by
  unfold frameKind headerAt at h
  rw [readFrame]
  split_ifs at h with hshort hother hlengths
  dsimp only
  rw [if_neg hshort, if_pos hother]
  rfl

theorem readFrame_upsert (h : frameKind (ring.headerAt readIndex) = .upsert) :
    ring.readFrame readIndex writeIndex =
      (ring.nextCursor readIndex, some (ring.frameUpdate readIndex)) := by
  unfold frameKind headerAt at h
  rw [readFrame]
  split_ifs at h with hshort hother hlengths
  dsimp only
  rw [if_neg hshort, if_neg hother, if_neg hlengths]
  rfl

theorem messageBytes_of_upsert (h : frameKind (ring.headerAt readIndex) = .upsert) :
    (ring.headerAt readIndex).messageBytes.toNat = messageHeaderSize +
      ((ring.headerAt readIndex).keyLen.toNat + (ring.headerAt readIndex).valueLen.toNat) := by
  unfold frameKind at h
  split_ifs at h with hshort hother hlengths
  exact not_not.mp hlengths

theorem readValue_congr (hcapacity : ring.capacity = ring'.capacity) {cursor : UInt32}
    {type : ValueType} {valueLen : ℕ}
    (h : ∀ a ∈ copyAddresses ring.capacity cursor (valueReads type valueLen),
      ring.payload a = ring'.payload a) :
    ring.readValue cursor type valueLen = ring'.readValue cursor type valueLen := by
  unfold readValue
  rw [← hcapacity]
  cases type with
  | bool =>
    dsimp only [valueReads] at h ⊢
    split_ifs at h ⊢ with hlen
    · rw [copyFromRing_congr h]
    · rfl
  | double =>
    dsimp only [valueReads] at h ⊢
    split_ifs at h ⊢ with hlen
    · rw [copyFromRing_congr h]
    · rfl
  | string =>
    dsimp only [valueReads] at h ⊢
    rw [copyFromRing_congr h]
  | stringArray =>
    dsimp only [valueReads] at h ⊢
    rw [copyFromRing_congr h]

/-- What a call does depends on the bytes at `frameAddresses` only. -/
theorem readFrame_congr (hcapacity : ring.capacity = ring'.capacity)
    (h : ∀ a ∈ ring.frameAddresses readIndex, ring.payload a = ring'.payload a) :
    ring.readFrame readIndex writeIndex = ring'.readFrame readIndex writeIndex := by
  rw [frameAddresses, List.forall_mem_append] at h
  obtain ⟨hheader, hbody⟩ := h
  have hmsg : ring.headerAt readIndex = ring'.headerAt readIndex := by
    rw [headerAt, headerAt, copyFromRing_congr hheader, hcapacity]
  cases hkind : frameKind (ring.headerAt readIndex) with
  | malformed => rw [readFrame_malformed hkind, readFrame_malformed (hmsg ▸ hkind)]
  | unsupported =>
    rw [readFrame_unsupported hkind, readFrame_unsupported (hmsg ▸ hkind), hmsg, hcapacity]
  | upsert =>
    rw [if_pos hkind, bodyAddresses, List.forall_mem_append] at hbody
    rw [readFrame_upsert hkind, readFrame_upsert (hmsg ▸ hkind), nextCursor, nextCursor,
      frameUpdate, frameUpdate, copyFromRing_congr hbody.1, readValue_congr hcapacity hbody.2,
      ← hmsg, ← hcapacity]

end Frame

/-! ### The drain loop -/

/-- One call of the loop. -/
structure ReadCall where
  before : UInt32
  after : UInt32
  update : Option VariableUpdate
  deriving DecidableEq, Repr

/-- `while (ReadNextUpsert(ring, cursor, update))` with at most so many calls; the clock is read in
each of them. -/
def drain (clock : ℕ → UInt64) : ℕ → Ring → UInt32 → Option (List ReadCall)
  | 0, _, _ => none
  | fuel + 1, ring, readCursor =>
    match ring.readNextUpsert readCursor (clock 0) with
    | (_, cursor, none) => some [⟨readCursor, cursor, none⟩]
    | (ring, cursor, some u) =>
      (drain (fun k => clock (k + 1)) fuel ring cursor).map (⟨readCursor, cursor, some u⟩ :: ·)

/-- By how many bytes a call moves the cursor on. -/
def movedBy (ring : Ring) (readIndex : UInt32) : ℕ :=
  if frameKind (ring.headerAt readIndex) = .malformed then (ring.usedFrom readIndex).toNat
  else (ring.headerAt readIndex).messageBytes.toNat

/-- A call that has a frame to read reads inside the payload and does not pass the writer. -/
structure Inside (ring : Ring) (call : ReadCall) : Prop where
  reads : call.before ≠ ring.header.writeIndex →
    ∀ a ∈ ring.frameAddresses call.before, a < ring.capacity.toNat
  stops : call.before ≠ ring.header.writeIndex →
    ring.movedBy call.before ≤ (ring.usedFrom call.before).toNat

def delivered (calls : List ReadCall) : List VariableUpdate := calls.filterMap ReadCall.update

/-- The loop ends, every call of it is `Inside`, and each update that it delivers had room for a
header in the bytes that were left. -/
def Drains (ring : Ring) (clock : ℕ → UInt64) (readCursor : UInt32) : Prop :=
  ∃ fuel calls, drain clock fuel ring readCursor = some calls ∧ (∀ call ∈ calls, ring.Inside call) ∧
    messageHeaderSize * (delivered calls).length ≤ (ring.usedFrom readCursor).toNat

/-- The header lies within two laps, and the frame that it announces, if any, within the bytes that
are left. -/
structure FrameFits (ring : Ring) (readIndex : UInt32) : Prop where
  header : readIndex.toNat + messageHeaderSize ≤ 2 * ring.capacity.toNat
  length : frameKind (ring.headerAt readIndex) ≠ .malformed →
    (ring.headerAt readIndex).messageBytes.toNat ≤ (ring.usedFrom readIndex).toNat

/-- So many upserts that fit, up to the writer or to a frame that is none. -/
inductive FramesFit (ring : Ring) : UInt32 → ℕ → Prop
  | done : FramesFit ring ring.header.writeIndex 0
  | stop {readIndex : UInt32} (hne : readIndex ≠ ring.header.writeIndex)
    (hfits : ring.FrameFits readIndex)
    (hkind : frameKind (ring.headerAt readIndex) ≠ .upsert) : FramesFit ring readIndex 0
  | frame {readIndex : UInt32} {n : ℕ} (hne : readIndex ≠ ring.header.writeIndex)
    (hfits : ring.FrameFits readIndex) (hkind : frameKind (ring.headerAt readIndex) = .upsert)
    (hrest : FramesFit ring (ring.nextCursor readIndex) n) : FramesFit ring readIndex (n + 1)

section Drain

variable {ring : Ring} {readIndex : UInt32} {clock : ℕ → UInt64} {fuel n : ℕ}
variable {calls : List ReadCall}

theorem toNat_usedFrom_cases (hindex : readIndex < ring.capacity) :
    (ring.usedFrom readIndex).toNat =
      if readIndex.toNat ≤ ring.header.writeIndex.toNat then
        ring.header.writeIndex.toNat - readIndex.toNat
      else ring.capacity.toNat - (readIndex.toNat - ring.header.writeIndex.toNat) := by
  have hindex := UInt32.lt_iff_toNat_lt.mp hindex
  unfold usedFrom
  simp only [UInt32.le_iff_toNat_le]
  split_ifs with hle
  · exact UInt32.toNat_sub_of_le _ _ (UInt32.le_iff_toNat_le.mpr hle)
  · have hdiff : (readIndex - ring.header.writeIndex).toNat =
        readIndex.toNat - ring.header.writeIndex.toNat :=
      UInt32.toNat_sub_of_le _ _ (UInt32.le_iff_toNat_le.mpr (by omega))
    rw [UInt32.toNat_sub_of_le _ _ (UInt32.le_iff_toNat_le.mpr (by omega)), hdiff]

theorem toNat_usedFrom_lt (hindex : readIndex < ring.capacity)
    (hwrite : ring.header.writeIndex < ring.capacity) :
    (ring.usedFrom readIndex).toNat < ring.capacity.toNat := by
  rw [toNat_usedFrom_cases hindex]
  have hindex := UInt32.lt_iff_toNat_lt.mp hindex
  have hwrite := UInt32.lt_iff_toNat_lt.mp hwrite
  split_ifs <;> omega

theorem capacity_ne_zero (hindex : readIndex < ring.capacity) : ring.capacity ≠ 0 := by
  intro hzero
  have hlt := UInt32.lt_iff_toNat_lt.mp hindex
  rw [hzero] at hlt
  exact absurd hlt (Nat.not_lt_zero _)

theorem mod_lt (hindex : readIndex < ring.capacity) (cursor : UInt32) :
    cursor % ring.capacity < ring.capacity := by
  have hlt := UInt32.lt_iff_toNat_lt.mp hindex
  rw [UInt32.lt_iff_toNat_lt, UInt32.toNat_mod]
  exact Nat.mod_lt _ (by omega)

theorem valueReads_le (type : ValueType) (valueLen : ℕ) : valueReads type valueLen ≤ valueLen := by
  cases type with
  | bool =>
    unfold valueReads
    dsimp only
    split_ifs <;> omega
  | double =>
    unfold valueReads
    dsimp only
    split_ifs <;> omega
  | string => exact le_rfl
  | stringArray => exact le_rfl

/-- The key and the value of a frame that is shorter than a lap. -/
theorem bodyAddresses_lt (hindex : readIndex < ring.capacity)
    (hkind : frameKind (ring.headerAt readIndex) = .upsert)
    (hlength : (ring.headerAt readIndex).messageBytes.toNat < ring.capacity.toNat) :
    ∀ a ∈ bodyAddresses ring.capacity readIndex (ring.headerAt readIndex),
      a < ring.capacity.toNat := by
  have hbytes := messageBytes_of_upsert hkind
  have hvalue := valueReads_le (fromWireType (ring.headerAt readIndex).valueType)
    (ring.headerAt readIndex).valueLen.toNat
  have hbody := mod_lt hindex (readIndex + UInt32.ofNat messageHeaderSize)
  have hcursor : valueCursor ring.capacity readIndex (ring.headerAt readIndex) <
      ring.capacity := by
    unfold valueCursor
    dsimp only
    split_ifs
    · exact mod_lt hindex _
    · exact hbody
  rw [bodyAddresses, List.forall_mem_append, copyAddresses_lt_iff hbody,
    copyAddresses_lt_iff hcursor]
  have hbody := UInt32.lt_iff_toNat_lt.mp hbody
  have hcursor := UInt32.lt_iff_toNat_lt.mp hcursor
  constructor <;> omega

/-- A frame is read inside the payload and not past the writer exactly if it fits. -/
theorem inside_iff (hindex : readIndex < ring.capacity)
    (hwrite : ring.header.writeIndex < ring.capacity) (hne : readIndex ≠ ring.header.writeIndex)
    (after : UInt32) (update : Option VariableUpdate) :
    ring.Inside ⟨readIndex, after, update⟩ ↔ ring.FrameFits readIndex := by
  have hused := toNat_usedFrom_lt hindex hwrite
  constructor
  · rintro ⟨hreads, hstops⟩
    have hheader := (List.forall_mem_append.mp (hreads hne)).1
    refine ⟨(copyAddresses_lt_iff hindex _).mp hheader, fun hkind => ?_⟩
    have hmoved := hstops hne
    rwa [movedBy, if_neg hkind] at hmoved
  · rintro ⟨hheader, hlength⟩
    have hreads : ∀ a ∈ ring.frameAddresses readIndex, a < ring.capacity.toNat := by
      rw [frameAddresses, List.forall_mem_append, copyAddresses_lt_iff hindex]
      refine ⟨hheader, ?_⟩
      split_ifs with hkind
      · have hlength := hlength (by rw [hkind]; decide)
        exact bodyAddresses_lt hindex hkind (by omega)
      · simp
    have hstops : ring.movedBy readIndex ≤ (ring.usedFrom readIndex).toNat := by
      unfold movedBy
      split_ifs with hkind
      · exact le_rfl
      · exact hlength hkind
    exact ⟨fun _ => hreads, fun _ => hstops⟩

theorem inside_of_eq (after : UInt32) (update : Option VariableUpdate) :
    ring.Inside ⟨ring.header.writeIndex, after, update⟩ :=
  ⟨fun hne => absurd rfl hne, fun hne => absurd rfl hne⟩

/-! ### The loop, call by call -/

theorem drain_of_eq (hwrite : ring.header.writeIndex < ring.capacity) :
    drain clock (fuel + 1) ring ring.header.writeIndex =
      some [⟨ring.header.writeIndex, ring.header.writeIndex, none⟩] := by
  rw [drain, readNextUpsert, if_neg (capacity_ne_zero hwrite), if_pos rfl]

theorem readNextUpsert_of_ne (hindex : readIndex < ring.capacity)
    (hne : readIndex ≠ ring.header.writeIndex) (now : UInt64) :
    ring.readNextUpsert readIndex now =
      match ring.readFrame readIndex ring.header.writeIndex with
      | (cursor, none) => (ring, cursor, none)
      | (cursor, some u) => (ring.storeConsumerHeartbeat now, cursor, some u) := by
  unfold readNextUpsert
  exact (if_neg (capacity_ne_zero hindex)).trans (if_neg hne)

/-- A call that returns `false` ends the loop. -/
theorem drain_of_kind (hindex : readIndex < ring.capacity)
    (hne : readIndex ≠ ring.header.writeIndex)
    (hkind : frameKind (ring.headerAt readIndex) ≠ .upsert) :
    drain clock (fuel + 1) ring readIndex =
      some [⟨readIndex, (ring.readFrame readIndex ring.header.writeIndex).1, none⟩] := by
  rw [drain, readNextUpsert_of_ne hindex hne]
  cases hcase : frameKind (ring.headerAt readIndex) with
  | malformed => rw [readFrame_malformed hcase]
  | unsupported => rw [readFrame_unsupported hcase]
  | upsert => exact absurd hcase hkind

theorem drain_step (hindex : readIndex < ring.capacity) (hne : readIndex ≠ ring.header.writeIndex)
    (hkind : frameKind (ring.headerAt readIndex) = .upsert) :
    drain clock (fuel + 1) ring readIndex =
      (drain (fun k => clock (k + 1)) fuel (ring.storeConsumerHeartbeat (clock 0))
        (ring.nextCursor readIndex)).map
          (⟨readIndex, ring.nextCursor readIndex, some (ring.frameUpdate readIndex)⟩ :: ·) := by
  rw [drain, readNextUpsert_of_ne hindex hne, readFrame_upsert hkind]

/-- The heartbeat of the consumer does not change what is read. -/
theorem drain_storeConsumerHeartbeat (hindex : readIndex < ring.capacity)
    (hwrite : ring.header.writeIndex < ring.capacity) (now : UInt64) :
    drain clock fuel (ring.storeConsumerHeartbeat now) readIndex =
      drain clock fuel ring readIndex := by
  cases fuel with
  | zero => rfl
  | succ fuel =>
    by_cases hne : readIndex = ring.header.writeIndex
    · rw [hne, drain_of_eq hwrite]
      exact @drain_of_eq (ring.storeConsumerHeartbeat now) clock fuel hwrite
    by_cases hkind : frameKind (ring.headerAt readIndex) = .upsert
    · rw [drain_step hindex hne hkind]
      exact @drain_step (ring.storeConsumerHeartbeat now) readIndex clock fuel hindex hne hkind
    · rw [drain_of_kind hindex hne hkind]
      exact @drain_of_kind (ring.storeConsumerHeartbeat now) readIndex clock fuel hindex hne hkind

theorem drain_of_upsert (hindex : readIndex < ring.capacity)
    (hwrite : ring.header.writeIndex < ring.capacity) (hne : readIndex ≠ ring.header.writeIndex)
    (hkind : frameKind (ring.headerAt readIndex) = .upsert) :
    drain clock (fuel + 1) ring readIndex =
      (drain (fun k => clock (k + 1)) fuel ring (ring.nextCursor readIndex)).map
        (⟨readIndex, ring.nextCursor readIndex, some (ring.frameUpdate readIndex)⟩ :: ·) := by
  have hnext : ring.nextCursor readIndex < ring.capacity := mod_lt hindex _
  rw [drain_step hindex hne hkind, drain_storeConsumerHeartbeat hnext hwrite]

/-- The loop ends after calls that are `Inside` exactly if the frames fit, and it delivers them. -/
theorem framesFit_of_drain (hindex : readIndex < ring.capacity)
    (hwrite : ring.header.writeIndex < ring.capacity)
    (h : drain clock fuel ring readIndex = some calls)
    (hinside : ∀ call ∈ calls, ring.Inside call) :
    FramesFit ring readIndex (delivered calls).length := by
  induction fuel generalizing clock readIndex calls with
  | zero => cases h
  | succ fuel ih =>
    by_cases hne : readIndex = ring.header.writeIndex
    · subst hne
      rw [drain_of_eq hwrite] at h
      obtain rfl := Option.some.inj h
      exact .done
    by_cases hkind : frameKind (ring.headerAt readIndex) = .upsert
    · rw [drain_of_upsert hindex hwrite hne hkind] at h
      obtain ⟨more, hmore, rfl⟩ := Option.map_eq_some_iff.mp h
      obtain ⟨hfirst, hinside⟩ := List.forall_mem_cons.mp hinside
      exact .frame hne ((inside_iff hindex hwrite hne _ _).mp hfirst) hkind
        (ih (mod_lt hindex _) hmore hinside)
    · rw [drain_of_kind hindex hne hkind] at h
      obtain rfl := Option.some.inj h
      exact .stop hne ((inside_iff hindex hwrite hne _ _).mp (hinside _ List.mem_cons_self)) hkind

theorem FramesFit.exists_drain (h : FramesFit ring readIndex n) (hindex : readIndex < ring.capacity)
    (hwrite : ring.header.writeIndex < ring.capacity) :
    ∃ fuel calls, drain clock fuel ring readIndex = some calls ∧
      (∀ call ∈ calls, ring.Inside call) ∧ (delivered calls).length = n := by
  induction h generalizing clock with
  | done =>
    refine ⟨1, _, drain_of_eq hwrite, ?_, rfl⟩
    exact List.forall_mem_singleton.mpr (inside_of_eq _ _)
  | stop hne hfits hkind =>
    refine ⟨1, _, drain_of_kind hindex hne hkind, ?_, rfl⟩
    exact List.forall_mem_singleton.mpr ((inside_iff hindex hwrite hne _ _).mpr hfits)
  | @frame readIndex n hne hfits hkind hrest ih =>
    obtain ⟨fuel, calls, hdrain, hinside, rfl⟩ :=
      @ih (fun k => clock (k + 1)) (mod_lt hindex _)
    refine ⟨fuel + 1,
      ⟨readIndex, ring.nextCursor readIndex, some (ring.frameUpdate readIndex)⟩ :: calls,
      ?_, ?_, rfl⟩
    · rw [drain_of_upsert hindex hwrite hne hkind, hdrain, Option.map_some]
    · exact List.forall_mem_cons.mpr ⟨(inside_iff hindex hwrite hne _ _).mpr hfits, hinside⟩

/-! ### The number of frames -/

theorem toNat_add_mod (hcapacity : ring.capacity.toNat + 2 ^ 16 ≤ 2 ^ 32)
    (hindex : readIndex < ring.capacity) {k : UInt32} (hk : k.toNat < 2 ^ 16) :
    ((readIndex + k) % ring.capacity).toNat =
      (readIndex.toNat + k.toNat) % ring.capacity.toNat := by
  have hindex := UInt32.lt_iff_toNat_lt.mp hindex
  rw [UInt32.toNat_mod, UInt32.toNat_add, Nat.mod_eq_of_lt (by omega : _ < 2 ^ 32)]

/-- Where 32 bits are enough for the sums, an upsert moves the cursor behind its own bytes. -/
theorem toNat_nextCursor (hcapacity : ring.capacity.toNat + 2 ^ 16 ≤ 2 ^ 32)
    (hindex : readIndex < ring.capacity)
    (hkind : frameKind (ring.headerAt readIndex) = .upsert) :
    (ring.nextCursor readIndex).toNat =
      (readIndex.toNat + (ring.headerAt readIndex).messageBytes.toNat) % ring.capacity.toNat := by
  have hbytes := messageBytes_of_upsert hkind
  have hbody := mod_lt hindex (readIndex + UInt32.ofNat messageHeaderSize)
  have hheader := toNat_add_mod hcapacity hindex
    (by decide : (UInt32.ofNat messageHeaderSize).toNat < 2 ^ 16)
  have hsize : (UInt32.ofNat messageHeaderSize).toNat = messageHeaderSize := rfl
  set msg := ring.headerAt readIndex with hmsg
  have hkey : (valueCursor ring.capacity readIndex msg).toNat =
      (readIndex.toNat + messageHeaderSize + msg.keyLen.toNat) % ring.capacity.toNat := by
    unfold valueCursor
    dsimp only
    split_ifs with hpos
    · rw [toNat_add_mod hcapacity hbody (by simpa using msg.keyLen.toNat_lt), hheader, hsize,
        UInt16.toNat_toUInt32, Nat.mod_add_mod]
    · have hzero : msg.keyLen.toNat = 0 := by
        rw [UInt16.lt_iff_toNat_lt] at hpos
        exact Nat.eq_zero_of_not_pos hpos
      rw [hheader, hsize, hzero, Nat.add_zero]
  have hvalue : valueCursor ring.capacity readIndex msg < ring.capacity := by
    rw [UInt32.lt_iff_toNat_lt, hkey]
    exact Nat.mod_lt _ (by have := UInt32.lt_iff_toNat_lt.mp hindex; omega)
  rw [nextCursor, ← hmsg, toNat_add_mod hcapacity hvalue (by simpa using msg.valueLen.toNat_lt),
    hkey, UInt16.toNat_toUInt32, Nat.mod_add_mod, hbytes]
  congr 1
  omega

theorem FramesFit.le_usedFrom (hcapacity : ring.capacity.toNat + 2 ^ 16 ≤ 2 ^ 32)
    (h : FramesFit ring readIndex n) (hindex : readIndex < ring.capacity)
    (hwrite : ring.header.writeIndex < ring.capacity) :
    messageHeaderSize * n ≤ (ring.usedFrom readIndex).toNat := by
  induction h with
  | done => exact Nat.zero_le _
  | stop hne hfits hkind => exact Nat.zero_le _
  | @frame readIndex n hne hfits hkind hrest ih =>
    have hlength := hfits.length (by rw [hkind]; decide)
    have hbytes := messageBytes_of_upsert hkind
    have hnext := toNat_nextCursor hcapacity hindex hkind
    have hlt : ring.nextCursor readIndex < ring.capacity := mod_lt hindex _
    have ih := ih hlt
    have hsame : readIndex.toNat ≠ ring.header.writeIndex.toNat :=
      fun heq => hne (UInt32.toNat_inj.mp heq)
    rw [toNat_usedFrom_cases hlt, hnext] at ih
    rw [toNat_usedFrom_cases hindex] at hlength ⊢
    have hindex := UInt32.lt_iff_toNat_lt.mp hindex
    have hwrite := UInt32.lt_iff_toNat_lt.mp hwrite
    have hmod : (readIndex.toNat + (ring.headerAt readIndex).messageBytes.toNat) %
        ring.capacity.toNat =
          if readIndex.toNat + (ring.headerAt readIndex).messageBytes.toNat <
              ring.capacity.toNat then
            readIndex.toNat + (ring.headerAt readIndex).messageBytes.toNat
          else readIndex.toNat + (ring.headerAt readIndex).messageBytes.toNat -
            ring.capacity.toNat := by
      split_ifs with hwrap
      · exact Nat.mod_eq_of_lt hwrap
      · rw [Nat.mod_eq_sub_mod (by omega), Nat.mod_eq_of_lt]
        split_ifs at hlength <;> omega
    rw [hmod] at ih
    rw [Nat.mul_succ]
    split_ifs at hlength ih ⊢ <;> omega

end Drain

/-- The loop drains the ring if and only if the frames from the cursor on fit. With a capacity near
the end of 32 bits, where the sums of the cursor wrap, there must not be too many of them either. -/
theorem drains_iff {ring : Ring} {readCursor : UInt32} (hcursor : readCursor < ring.capacity)
    (hwrite : ring.header.writeIndex < ring.capacity) (clock : ℕ → UInt64) :
    ring.Drains clock readCursor ↔
      ∃ n, ring.FramesFit readCursor n ∧ (2 ^ 32 < ring.capacity.toNat + 2 ^ 16 →
        messageHeaderSize * n ≤ (ring.usedFrom readCursor).toNat) := by
  constructor
  · rintro ⟨fuel, calls, hdrain, hinside, hcount⟩
    exact ⟨_, framesFit_of_drain hcursor hwrite hdrain hinside, fun _ => hcount⟩
  · rintro ⟨n, hfits, hcount⟩
    obtain ⟨fuel, calls, hdrain, hinside, rfl⟩ := @FramesFit.exists_drain ring _ clock _ hfits
      hcursor hwrite
    refine ⟨fuel, calls, hdrain, hinside, ?_⟩
    rcases Nat.lt_or_ge (2 ^ 32) (ring.capacity.toNat + 2 ^ 16) with hlarge | hsmall
    · exact hcount hlarge
    · exact hfits.le_usedFrom hsmall hcursor hwrite

/-! ### Two rings -/

/-- Two empty upserts that fill the ring. -/
def twoFrames : Ring where
  capacity := 64
  header := { writeIndex := 10 }
  payload a := if a % 32 = 0 then 32 else if a % 32 = 2 then 1 else 0

/-- The reader goes round and round, since no frame ends at the writer. -/
theorem twoFrames_not_drains : ¬twoFrames.Drains (fun _ => 0) 0 := by
  have hrounds : ∀ fuel clock, drain clock fuel twoFrames 0 = none ∧
      drain clock fuel twoFrames 32 = none := by
    intro fuel
    induction fuel with
    | zero => exact fun clock => ⟨rfl, rfl⟩
    | succ fuel ih =>
      intro clock
      have hfirst : twoFrames.nextCursor 0 = 32 := by decide
      have hsecond : twoFrames.nextCursor 32 = 0 := by decide
      rw [drain_of_upsert (by decide) (by decide) (by decide) (by decide), hfirst, (ih _).2,
        drain_of_upsert (by decide) (by decide) (by decide) (by decide), hsecond, (ih _).1]
      exact ⟨rfl, rfl⟩
  rintro ⟨fuel, calls, hdrain, -⟩
  rw [(hrounds fuel _).1] at hdrain
  cases hdrain

/-- The same frames before a writer that stands behind the first. -/
def oneFrame : Ring := { twoFrames with header := { writeIndex := 32 } }

theorem oneFrame_drains : oneFrame.Drains (fun _ => 0) 0 := by
  have hnext : oneFrame.nextCursor 0 = oneFrame.header.writeIndex := by decide
  have hfits : oneFrame.FramesFit 0 1 := by
    refine .frame (by decide) ⟨by decide, fun _ => by decide⟩ (by decide) ?_
    rw [hnext]
    exact .done
  exact (drains_iff (by decide) (by decide) _).mpr ⟨1, hfits, fun h => absurd h (by decide)⟩

end Ring

end SmartDashboard.Direct
