import Mathlib.Data.Fintype.Basic
import SmartDashboard.Direct.Ring
import SmartDashboard.Library.Execution

/-!
# Attaching to the mapping

Publishers and subscribers that open one mapping and attach to the ring in it. Whoever attaches and
does not find the ring it asks for sets the memory up anew. Each endpoint keeps the capacity that
it attached with.

A mapping is there while an endpoint has it open, and a view of it can be had up to its size.
Attaching is one step here, a call of `WriteUpsert` and of `ReadNextUpsert` too; what a publisher
flushes and whom a subscriber calls back is left out.

## Main definitions

- `Mapping`, `attachRing`: the memory and what an endpoint does with it when it attaches
- `Endpoints`, `next`: the endpoints and their steps
- `Agree`, `Undisturbed`: what an endpoint relies on while it is attached
- `SameSize`: the starts that ask for the ring that is there
-/

namespace SmartDashboard.Direct

open Execution

def kMagic : UInt32 := 0x53444442

def kVersion : UInt16 := 1

def kDefaultCapacityBytes : UInt32 := 1048576

/-- `sizeof(wire::RingHeader)`. -/
def kHeaderSize : ℕ := 72

/-- Fresh memory is zero. -/
structure Mapping where
  size : ℕ
  magic : UInt32 := 0
  version : UInt16 := 0
  capacityBytes : UInt32 := 0
  header : RingHeader := {}
  payload : ℕ → UInt8 := fun _ => 0

namespace Mapping

def needsInit (m : Mapping) (payloadCapacity : UInt32) : Bool :=
  m.magic ≠ kMagic ∨ m.version ≠ kVersion ∨ m.capacityBytes ≠ payloadCapacity

/-- What `AttachRing` does to memory without the ring: the view is cleared and the header
written. -/
def setUp (m : Mapping) (mappingBytes : ℕ) (payloadCapacity : UInt32) (nowUs : UInt64) :
    Mapping :=
  { m with
    magic := kMagic
    version := kVersion
    capacityBytes := payloadCapacity
    header := { lastProducerHeartbeatUs := nowUs, lastConsumerHeartbeatUs := nowUs }
    payload := fun a => if a < mappingBytes - kHeaderSize then 0 else m.payload a }

/-- The memory afterwards, and the capacity the endpoint goes by. -/
def attachRing (m : Mapping) (mappingBytes : ℕ) (initializeIfNeeded : Bool) (nowUs : UInt64) :
    Option (Mapping × UInt32) :=
  if mappingBytes ≤ kHeaderSize then none
  else
    let payloadCapacity := UInt32.ofNat (mappingBytes - kHeaderSize)
    if m.needsInit payloadCapacity then
      if initializeIfNeeded then
        let m := m.setUp mappingBytes payloadCapacity nowUs
        some (m, m.capacityBytes)
      else none
    else some (m, m.capacityBytes)

def storeConsumerReadIndex (m : Mapping) (readCursor : UInt32) : Mapping :=
  { m with header := { m.header with consumerReadIndex := readCursor } }

/-- There is a ring of this capacity in the memory. -/
def Formatted (m : Mapping) (capacity : UInt32) : Prop :=
  m.magic = kMagic ∧ m.version = kVersion ∧ m.capacityBytes = capacity

/-- The ring as an endpoint with this capacity sees it. -/
def ring (m : Mapping) (capacity : UInt32) : Ring where
  capacity := capacity
  header := m.header
  payload := m.payload

def withRing (m : Mapping) (ring : Ring) : Mapping :=
  { m with header := ring.header, payload := ring.payload }

/-! ### AttachRing -/

theorem needsInit_eq_false {m : Mapping} {bytes : UInt32} :
    m.needsInit bytes = false ↔ m.Formatted bytes := by
  simp [needsInit, Formatted]

theorem setUp_formatted (m : Mapping) (mappingBytes : ℕ) (bytes : UInt32) (nowUs : UInt64) :
    (m.setUp mappingBytes bytes nowUs).Formatted bytes :=
  ⟨rfl, rfl, rfl⟩

theorem attachRing_zero (m : Mapping) (nowUs : UInt64) :
    m.attachRing (kHeaderSize + (0 : UInt32).toNat) true nowUs = none :=
  if_pos le_rfl

/-- Attaching leaves a ring of the capacity that was asked for, whatever was there. -/
theorem attachRing_eq (m : Mapping) {bytes : UInt32} (hbytes : bytes ≠ 0) (nowUs : UInt64) :
    m.attachRing (kHeaderSize + bytes.toNat) true nowUs =
      some (if m.needsInit bytes then m.setUp (kHeaderSize + bytes.toNat) bytes nowUs else m,
        bytes) := by
  have hpos : 0 < bytes.toNat := Nat.pos_of_ne_zero fun h => hbytes (UInt32.toNat_inj.mp h)
  have hcapacity : UInt32.ofNat (kHeaderSize + bytes.toNat - kHeaderSize) = bytes := by
    rw [Nat.add_sub_cancel_left, UInt32.ofNat_toNat]
  refine (if_neg (by omega)).trans ?_
  rw [hcapacity]
  cases hinit : m.needsInit bytes with
  | true =>
    simp only [hinit, if_true]
    rfl
  | false =>
    have hformatted := needsInit_eq_false.mp hinit
    simp only [hinit, Bool.false_eq_true, if_false, hformatted.2.2]

theorem attachRing_eq_self {m : Mapping} {bytes : UInt32} (hbytes : bytes ≠ 0)
    (h : m.Formatted bytes) (nowUs : UInt64) :
    m.attachRing (kHeaderSize + bytes.toNat) true nowUs = some (m, bytes) := by
  rw [attachRing_eq m hbytes, needsInit_eq_false.mpr h, if_neg Bool.false_ne_true]

theorem exists_attachRing (m : Mapping) {bytes : UInt32} (hbytes : bytes ≠ 0) (nowUs : UInt64) :
    ∃ m' : Mapping, m.attachRing (kHeaderSize + bytes.toNat) true nowUs = some (m', bytes) ∧
      m'.Formatted bytes := by
  refine ⟨_, attachRing_eq m hbytes nowUs, ?_⟩
  cases hinit : m.needsInit bytes with
  | true => exact setUp_formatted ..
  | false => exact needsInit_eq_false.mp hinit

end Mapping

inductive ConnectionState
  | disconnected
  | connecting
  | connected
  | stale
  deriving DecidableEq, Repr

/-- A subscriber; `capacity` is there while it runs. -/
structure DirectSubscriberStub where
  staleTimeoutMs : UInt64
  capacity : Option UInt32 := none
  connectionState : ConnectionState := .disconnected
  instanceId : UInt64 := 0
  readCursor : UInt32 := 0
  lastProducerHeartbeatUs : UInt64 := 0
  lastHeartbeatChangeUs : UInt64 := 0
  deriving DecidableEq, Repr

/-- A publisher is given by the capacity it runs with. -/
structure Endpoints (κ ι : Type*) where
  mapping : Option Mapping := none
  publishers : κ → Option UInt32 := fun _ => none
  subscribers : ι → DirectSubscriberStub

/-- `slack` is what a new mapping has beyond what was asked for, `eventsOpen` whether the events
could be had, `nowUs` the reading of the clock. -/
inductive EndpointAction (κ ι : Type*)
  | startPublisher (k : κ) (ringBufferBytes : UInt32) (slack : ℕ) (nowUs : UInt64)
      (eventsOpen : Bool)
  | writeUpsert (k : κ) (update : VariableUpdate) (nowUs : UInt64)
  | endFlush (k : κ) (nowUs : UInt64)
  | stopPublisher (k : κ)
  | startSubscriber (i : ι) (instanceId : UInt64) (slack : ℕ) (nowUs : UInt64) (eventsOpen : Bool)
  | readNextUpsert (i : ι) (nowUs : UInt64)
  | endIteration (i : ι) (nowUs : UInt64)
  | stopSubscriber (i : ι)
  deriving DecidableEq

/-- Somebody starts, or tries to. -/
def EndpointAction.IsStart {κ ι : Type*} : EndpointAction κ ι → Prop
  | .startPublisher .. | .startSubscriber .. => True
  | _ => False

namespace DirectSubscriberStub

/-- What `Start` resets. -/
def beginStart (sub : DirectSubscriberStub) (instanceId : UInt64) : DirectSubscriberStub :=
  { sub with
    instanceId := instanceId
    lastProducerHeartbeatUs := 0
    lastHeartbeatChangeUs := 0
    connectionState := .connecting }

/-- What the loop makes of the heartbeat it finds. -/
def observe (sub : DirectSubscriberStub) (producerHeartbeatUs nowUs : UInt64) :
    DirectSubscriberStub :=
  let staleLimitUs := sub.staleTimeoutMs * 1000
  let sub :=
    if producerHeartbeatUs ≠ sub.lastProducerHeartbeatUs then
      { sub with lastProducerHeartbeatUs := producerHeartbeatUs, lastHeartbeatChangeUs := nowUs }
    else sub
  if producerHeartbeatUs = 0 then { sub with connectionState := .connecting }
  else if staleLimitUs < nowUs - producerHeartbeatUs then
    let heartbeatQuietUs :=
      if sub.lastHeartbeatChangeUs = 0 then nowUs - producerHeartbeatUs
      else nowUs - sub.lastHeartbeatChangeUs
    if staleLimitUs < heartbeatQuietUs then { sub with connectionState := .stale }
    else { sub with connectionState := .connected }
  else { sub with connectionState := .connected }

/-- The stores at the end of an iteration. -/
def claim (sub : DirectSubscriberStub) (header : RingHeader) (nowUs : UInt64) : RingHeader :=
  { header with
    consumerInstanceId := sub.instanceId
    consumerReadIndex := sub.readCursor
    lastConsumerHeartbeatUs := nowUs }

def stop (sub : DirectSubscriberStub) : DirectSubscriberStub :=
  { sub with
    capacity := none
    lastProducerHeartbeatUs := 0
    lastHeartbeatChangeUs := 0
    connectionState := .disconnected }

@[simp] theorem observe_capacity (sub : DirectSubscriberStub)
    (producerHeartbeatUs nowUs : UInt64) :
    (sub.observe producerHeartbeatUs nowUs).capacity = sub.capacity := by
  simp only [observe]
  split_ifs <;> rfl

end DirectSubscriberStub

namespace Endpoints

variable {κ ι : Type*}

/-- Nobody has started yet. -/
def initial (staleTimeoutMs : ι → UInt64) : Endpoints κ ι where
  subscribers i := { staleTimeoutMs := staleTimeoutMs i }

/-- Some endpoint goes by this capacity. -/
def Attached (s : Endpoints κ ι) (capacity : UInt32) : Prop :=
  (∃ k, s.publishers k = some capacity) ∨ ∃ i, (s.subscribers i).capacity = some capacity

/-- The mapping with a view of so many bytes, if it can be had. -/
def openMapping (s : Endpoints κ ι) (bytes slack : ℕ) : Option Mapping :=
  match s.mapping with
  | some m => if bytes ≤ m.size then some m else none
  | none => some { size := bytes + slack }

section Steps

variable [Fintype κ] [Fintype ι]

/-- The mapping goes with the last endpoint. -/
def release (s : Endpoints κ ι) : Endpoints κ ι :=
  if (∃ k, (s.publishers k).isSome) ∨ ∃ i, (s.subscribers i).capacity.isSome then s
  else { s with mapping := none }

variable [DecidableEq κ] [DecidableEq ι]

def startPublisher (s : Endpoints κ ι) (k : κ) (ringBufferBytes : UInt32) (slack : ℕ)
    (nowUs : UInt64) (eventsOpen : Bool) : Endpoints κ ι :=
  if (s.publishers k).isSome then s
  else
    let mappingBytes := kHeaderSize + ringBufferBytes.toNat
    match s.openMapping mappingBytes slack with
    | none => s
    | some m =>
      match m.attachRing mappingBytes true nowUs with
      | none => release { s with mapping := some m }
      | some (m, capacity) =>
        if eventsOpen then
          { s with
            mapping := some m
            publishers := Function.update s.publishers k (some capacity) }
        else release { s with mapping := some m }

def startSubscriber (s : Endpoints κ ι) (i : ι) (instanceId : UInt64) (slack : ℕ)
    (nowUs : UInt64) (eventsOpen : Bool) : Endpoints κ ι :=
  if (s.subscribers i).capacity.isSome then s
  else
    let sub := (s.subscribers i).beginStart instanceId
    let failed : Endpoints κ ι :=
      { s with
        subscribers := Function.update s.subscribers i
          { sub with connectionState := .disconnected } }
    let mappingBytes := kHeaderSize + kDefaultCapacityBytes.toNat
    match s.openMapping mappingBytes slack with
    | none => failed
    | some m =>
      match m.attachRing mappingBytes true nowUs with
      | none => release { failed with mapping := some m }
      | some (m, capacity) =>
        let readCursor := m.header.writeIndex
        let m := m.storeConsumerReadIndex readCursor
        if eventsOpen then
          { s with
            mapping := some m
            subscribers := Function.update s.subscribers i
              { sub with capacity := some capacity, readCursor := readCursor } }
        else
          release
            { s with
              mapping := some m
              subscribers := Function.update s.subscribers i
                { sub with connectionState := .disconnected, readCursor := readCursor } }

/-- Only an endpoint that runs takes the steps other than `Start`. -/
def next (s : Endpoints κ ι) : EndpointAction κ ι → Option (Endpoints κ ι)
  | .startPublisher k ringBufferBytes slack nowUs eventsOpen =>
    some (s.startPublisher k ringBufferBytes slack nowUs eventsOpen)
  | .writeUpsert k update nowUs =>
    match s.mapping, s.publishers k with
    | some m, some capacity =>
      some { s with mapping := some (m.withRing ((m.ring capacity).writeUpsert update nowUs).1) }
    | _, _ => none
  | .endFlush k nowUs =>
    match s.mapping, s.publishers k with
    | some m, some _ =>
      some { s with
        mapping := some { m with header := { m.header with lastProducerHeartbeatUs := nowUs } } }
    | _, _ => none
  | .stopPublisher k =>
    if (s.publishers k).isSome then
      some (release { s with publishers := Function.update s.publishers k none })
    else none
  | .startSubscriber i instanceId slack nowUs eventsOpen =>
    some (s.startSubscriber i instanceId slack nowUs eventsOpen)
  | .readNextUpsert i nowUs =>
    match s.mapping, (s.subscribers i).capacity with
    | some m, some capacity =>
      let (ring, readCursor, _) :=
        (m.ring capacity).readNextUpsert (s.subscribers i).readCursor nowUs
      some { s with
        mapping := some (m.withRing ring)
        subscribers := Function.update s.subscribers i
          { s.subscribers i with readCursor := readCursor } }
    | _, _ => none
  | .endIteration i nowUs =>
    match s.mapping, (s.subscribers i).capacity with
    | some m, some _ =>
      let sub := (s.subscribers i).observe m.header.lastProducerHeartbeatUs nowUs
      some { s with
        mapping := some { m with header := sub.claim m.header nowUs }
        subscribers := Function.update s.subscribers i sub }
    | _, _ => none
  | .stopSubscriber i =>
    if (s.subscribers i).capacity.isSome then
      some (release
        { s with
          subscribers := Function.update s.subscribers i (s.subscribers i).stop })
    else none

end Steps

/-! ### Agreement -/

/-- Everybody who is attached goes by the capacity that the header has. -/
def Agree (s : Endpoints κ ι) : Prop :=
  ∀ capacity, s.Attached capacity → ∃ m ∈ s.mapping, m.capacityBytes = capacity

/-- Somebody who was attached before finds the memory as it was, but for the read index, which a
subscriber brings to the write index. -/
def Undisturbed (s s' : Endpoints κ ι) : Prop :=
  ∀ capacity, s.Attached capacity → ∀ m ∈ s.mapping, ∃ m' ∈ s'.mapping,
    m' = m ∨ m' = m.storeConsumerReadIndex m.header.writeIndex

/-- The ring that is in the mapping, if a view of so many bytes can be had of it, is of that
capacity. -/
def AsksForRing (s : Endpoints κ ι) (bytes : UInt32) : Prop :=
  ∀ m ∈ s.mapping, kHeaderSize + bytes.toNat ≤ m.size → bytes = m.capacityBytes

instance (s : Endpoints κ ι) (bytes : UInt32) : Decidable (s.AsksForRing bytes) :=
  inferInstanceAs (Decidable (∀ m ∈ s.mapping, _))

/-- A start asks for the ring that is there. -/
def SameSize (s : Endpoints κ ι) : EndpointAction κ ι → Prop
  | .startPublisher k ringBufferBytes _ _ _ =>
    s.publishers k = none → ringBufferBytes ≠ 0 → s.AsksForRing ringBufferBytes
  | .startSubscriber i _ _ _ _ =>
    (s.subscribers i).capacity = none → s.AsksForRing kDefaultCapacityBytes
  | _ => True

instance (s : Endpoints κ ι) : DecidablePred s.SameSize
  | .startPublisher .. => inferInstanceAs (Decidable (_ → _ → _))
  | .startSubscriber .. => inferInstanceAs (Decidable (_ → _))
  | .writeUpsert .. | .endFlush .. | .stopPublisher .. | .readNextUpsert .. | .endIteration ..
  | .stopSubscriber .. => isTrue trivial

/-- After the step everybody agrees, and a start has disturbed nobody. -/
def Meets [Fintype κ] [Fintype ι] [DecidableEq κ] [DecidableEq ι] (s : Endpoints κ ι)
    (a : EndpointAction κ ι) : Prop :=
  ∀ s', s.next a = some s' → s'.Agree ∧ (a.IsStart → s.Undisturbed s')

/-- The invariant: there is a ring in the mapping, for as long as somebody is attached to it. -/
structure Sound (s : Endpoints κ ι) : Prop where
  agree : s.Agree
  formatted : ∀ m ∈ s.mapping, m.Formatted m.capacityBytes
  occupied : s.mapping.isSome → ∃ capacity, s.Attached capacity

variable {s s' : Endpoints κ ι} {capacity bytes : UInt32}

theorem Agree.capacityBytes_eq (h : s.Agree) {m : Mapping} (hm : s.mapping = some m)
    (hcapacity : s.Attached capacity) : m.capacityBytes = capacity := by
  obtain ⟨m', hm', heq⟩ := h capacity hcapacity
  obtain rfl : m = m' := Option.some.inj (hm.symm.trans hm')
  exact heq

/-- Agreement goes over to a state with the same ring and nobody new. -/
theorem Agree.congr (h : s.Agree) (hattached : ∀ capacity, s'.Attached capacity →
      s.Attached capacity)
    (hmapping : ∀ m ∈ s.mapping, ∃ m' ∈ s'.mapping, m'.capacityBytes = m.capacityBytes) :
    s'.Agree := by
  intro capacity hcapacity
  obtain ⟨m, hm, rfl⟩ := h capacity (hattached capacity hcapacity)
  exact hmapping m hm

/-- The mapping that is opened is the one that was there, or it is new and nobody was attached. -/
theorem openMapping_eq_some {slack n : ℕ} {m : Mapping} (h : s.openMapping n slack = some m) :
    (s.mapping = some m ∧ n ≤ m.size) ∨ (s.mapping = none ∧ m = { size := n + slack }) := by
  cases hs : s.mapping with
  | none =>
    simp only [openMapping, hs, Option.some.injEq] at h
    exact .inr ⟨rfl, h.symm⟩
  | some m₀ =>
    simp only [openMapping, hs, Option.ite_none_right_eq_some, Option.some.injEq] at h
    obtain ⟨hsize, rfl⟩ := h
    exact .inl ⟨rfl, hsize⟩

theorem openMapping_of_some {slack n : ℕ} {m : Mapping} (hm : s.mapping = some m)
    (hsize : n ≤ m.size) : s.openMapping n slack = some m := by
  simp only [openMapping, hm, hsize, if_true]

theorem asksForRing_of_openMapping {slack : ℕ}
    (hopen : s.openMapping (kHeaderSize + bytes.toNat) slack = none) : s.AsksForRing bytes := by
  intro m hm hsize
  rw [openMapping_of_some hm hsize] at hopen
  cases hopen

theorem sound_initial (staleTimeoutMs : ι → UInt64) :
    (initial staleTimeoutMs : Endpoints κ ι).Sound where
  agree capacity h := by
    rcases h with ⟨k, hk⟩ | ⟨i, hi⟩
    · cases hk
    · cases hi
  formatted := by rintro _ ⟨⟩
  occupied := by rintro ⟨⟩

section Release

variable [Fintype κ] [Fintype ι]

theorem release_of_attached (h : s.Attached capacity) : s.release = s := by
  refine if_pos ?_
  rcases h with ⟨k, hk⟩ | ⟨i, hi⟩
  · exact .inl ⟨k, Option.isSome_of_eq_some hk⟩
  · exact .inr ⟨i, Option.isSome_of_eq_some hi⟩

theorem release_of_not_attached (h : ∀ capacity, ¬s.Attached capacity) :
    s.release = { s with mapping := none } := by
  refine if_neg ?_
  simp only [Option.isSome_iff_exists]
  rintro (⟨k, capacity, hk⟩ | ⟨i, capacity, hi⟩)
  · exact h capacity (.inl ⟨k, hk⟩)
  · exact h capacity (.inr ⟨i, hi⟩)

theorem attached_release : s.release.Attached capacity ↔ s.Attached capacity := by
  unfold release
  split <;> rfl

/-- Whoever leaves, what remains is sound. -/
theorem sound_release (hagree : s.Agree) (hformatted : ∀ m ∈ s.mapping,
    m.Formatted m.capacityBytes) : s.release.Sound := by
  unfold release
  split
  case isTrue h =>
    refine ⟨hagree, hformatted, fun _ => ?_⟩
    simp only [Option.isSome_iff_exists] at h
    rcases h with ⟨k, capacity, hk⟩ | ⟨i, capacity, hi⟩
    · exact ⟨capacity, .inl ⟨k, hk⟩⟩
    · exact ⟨capacity, .inr ⟨i, hi⟩⟩
  case isFalse h =>
    refine ⟨fun capacity hcapacity => absurd ?_ h, by rintro _ ⟨⟩, by rintro ⟨⟩⟩
    rcases hcapacity with ⟨k, hk⟩ | ⟨i, hi⟩
    · exact .inl ⟨k, Option.isSome_of_eq_some hk⟩
    · exact .inr ⟨i, Option.isSome_of_eq_some hi⟩

end Release

theorem update_of_eq_none {α β : Type*} [DecidableEq α] {f : α → Option β} {a j : α} {b : β}
    {x : Option β} (ha : f a = none) (hj : f j = some b) : Function.update f a x j = some b := by
  have hja : j ≠ a := by
    rintro rfl
    rw [ha] at hj
    cases hj
  rw [Function.update_of_ne hja, hj]

theorem eq_some_or_of_update {α β : Type*} [DecidableEq α] {f : α → Option β} {a j : α} {b b' : β}
    {x : Option β} (hx : ∀ c ∈ x, c = b) (hj : Function.update f a x j = some b') :
    f j = some b' ∨ b' = b := by
  by_cases hja : j = a
  · subst hja
    rw [Function.update_self] at hj
    exact .inr (hx b' hj)
  · rw [Function.update_of_ne hja] at hj
    exact .inl hj

theorem eq_some_of_update_none {α β : Type*} [DecidableEq α] {f : α → Option β} {a j : α} {b : β}
    (hj : Function.update f a none j = some b) : f j = some b := by
  by_cases hja : j = a
  · subst hja
    rw [Function.update_self] at hj
    cases hj
  · rwa [Function.update_of_ne hja] at hj

theorem capacity_update [DecidableEq ι] (i : ι) (sub : DirectSubscriberStub) (j : ι) :
    (Function.update s.subscribers i sub j).capacity =
      Function.update (fun j => (s.subscribers j).capacity) i sub.capacity j :=
  Function.apply_update (fun _ => DirectSubscriberStub.capacity) s.subscribers i sub j

theorem attached_update_subscriber [DecidableEq ι] {i : ι} {sub : DirectSubscriberStub}
    (mapping : Option Mapping) (hsub : sub.capacity = (s.subscribers i).capacity) :
    Attached
        { s with mapping := mapping, subscribers := Function.update s.subscribers i sub }
        capacity ↔ s.Attached capacity := by
  refine or_congr_right (exists_congr fun j => ?_)
  rw [capacity_update, hsub, Function.update_eq_self]

theorem attached_of_stop [DecidableEq ι] {i : ι} (h : Attached
    { s with subscribers := Function.update s.subscribers i (s.subscribers i).stop } capacity) :
    s.Attached capacity := by
  refine h.imp_right fun ⟨j, hj⟩ => ⟨j, ?_⟩
  have hj' := (capacity_update i (s.subscribers i).stop j).symm.trans hj
  exact eq_some_of_update_none (f := fun j => (s.subscribers j).capacity) hj'

/-- The ring stays and so do those who are attached, whatever is written and read. -/
theorem Sound.keep {m m' : Mapping} (hs : s.Sound) (hm : s.mapping = some m)
    (hm' : s'.mapping = some m') (hsame : m'.magic = m.magic ∧ m'.version = m.version ∧
      m'.capacityBytes = m.capacityBytes)
    (hattached : ∀ capacity, s'.Attached capacity ↔ s.Attached capacity) : s'.Sound := by
  obtain ⟨hmagic, hversion, hcapacity⟩ := hsame
  refine ⟨?_, fun m₁ hm₁ => ?_, fun _ => ?_⟩
  · refine hs.agree.congr (fun capacity => (hattached capacity).mp) fun m₁ hm₁ => ?_
    obtain rfl : m = m₁ := Option.some.inj (hm.symm.trans hm₁)
    exact ⟨m', hm', hcapacity⟩
  · obtain rfl : m' = m₁ := Option.some.inj (hm'.symm.trans hm₁)
    obtain ⟨hmagic', hversion', -⟩ := hs.formatted m hm
    exact ⟨hmagic.trans hmagic', hversion.trans hversion', rfl⟩
  · obtain ⟨capacity, h⟩ := hs.occupied (Option.isSome_of_eq_some hm)
    exact ⟨capacity, (hattached capacity).mpr h⟩

/-- A start that has got hold of the memory leaves `m` in it and adds nobody but the newcomer. -/
structure Joins (s s' : Endpoints κ ι) (m : Mapping) (bytes : UInt32) : Prop where
  mapping : s'.mapping = some m
  kept : ∀ capacity, s.Attached capacity → s'.Attached capacity
  joined : ∀ capacity, s'.Attached capacity → s.Attached capacity ∨ capacity = bytes

theorem joins_update_publisher [DecidableEq κ] {k : κ} (m : Mapping)
    (hk : s.publishers k = none) :
    s.Joins
      { s with mapping := some m, publishers := Function.update s.publishers k (some bytes) }
      m bytes where
  mapping := rfl
  kept _ := Or.imp_left fun ⟨j, hj⟩ => ⟨j, update_of_eq_none hk hj⟩
  joined capacity := by
    rintro (⟨j, hj⟩ | hi)
    · exact (eq_some_or_of_update (by simp) hj).imp_left fun hj => .inl ⟨j, hj⟩
    · exact .inl (.inr hi)

theorem joins_update_subscriber [DecidableEq ι] {i : ι} {sub : DirectSubscriberStub} (m : Mapping)
    (hi : (s.subscribers i).capacity = none) (hsub : ∀ capacity ∈ sub.capacity, capacity = bytes) :
    s.Joins { s with mapping := some m, subscribers := Function.update s.subscribers i sub }
      m bytes := by
  refine ⟨rfl, fun capacity => Or.imp_right fun ⟨j, hj⟩ => ⟨j, ?_⟩, fun capacity => ?_⟩
  · exact (capacity_update i sub j).trans (update_of_eq_none hi hj)
  · rintro (hk | ⟨j, hj⟩)
    · exact .inl (.inl hk)
    · have hj' := eq_some_or_of_update hsub ((capacity_update i sub j).symm.trans hj)
      exact hj'.imp_left fun hj => .inr ⟨j, hj⟩

/-- Nobody came or went, and nothing is different in the memory. -/
structure Idle (s s' : Endpoints κ ι) : Prop where
  mapping : s'.mapping = s.mapping
  attached : ∀ capacity, s'.Attached capacity ↔ s.Attached capacity

theorem Idle.refl (s : Endpoints κ ι) : s.Idle s := ⟨rfl, fun _ => .rfl⟩

theorem Idle.sound (h : s.Idle s') (hs : s.Sound) : s'.Sound where
  agree capacity hcapacity := by
    rw [h.mapping]
    exact hs.agree capacity ((h.attached capacity).mp hcapacity)
  formatted := by
    rw [h.mapping]
    exact hs.formatted
  occupied := by
    rw [h.mapping]
    intro hm
    obtain ⟨capacity, hcapacity⟩ := hs.occupied hm
    exact ⟨capacity, (h.attached capacity).mpr hcapacity⟩

theorem Idle.undisturbed (h : s.Idle s') : s.Undisturbed s' :=
  fun _ _ m hm => ⟨m, h.mapping.trans hm, .inl rfl⟩

section Starts

variable [Fintype κ] [Fintype ι]

theorem Joins.sound {m : Mapping} (h : s.Joins s' m bytes) (hs : s.Sound)
    (hformatted : m.Formatted bytes) (hsame : ∀ m₀ ∈ s.mapping, bytes = m₀.capacityBytes) :
    s'.release.Sound := by
  refine sound_release (fun capacity hcapacity => ⟨m, h.mapping, ?_⟩) fun m' hm' => ?_
  · rcases h.joined capacity hcapacity with hold | rfl
    · obtain ⟨m₀, hm₀, rfl⟩ := hs.agree capacity hold
      exact hformatted.2.2.trans (hsame m₀ hm₀)
    · exact hformatted.2.2
  · obtain rfl : m = m' := Option.some.inj (h.mapping.symm.trans hm')
    exact ⟨hformatted.1, hformatted.2.1, rfl⟩

/-- With somebody there already, those who agree afterwards have agreed on the old capacity. -/
theorem Joins.capacityBytes_eq {m m₀ : Mapping} (h : s.Joins s' m bytes) (hs : s.Sound)
    (hm₀ : s.mapping = some m₀) (hformatted : m.Formatted bytes) (hagree : s'.release.Agree) :
    bytes = m₀.capacityBytes := by
  obtain ⟨capacity, hcapacity⟩ := hs.occupied (Option.isSome_of_eq_some hm₀)
  have hold := hs.agree.capacityBytes_eq hm₀ hcapacity
  rw [release_of_attached (h.kept capacity hcapacity)] at hagree
  have hnew := hagree.capacityBytes_eq h.mapping (h.kept capacity hcapacity)
  exact (hformatted.2.2.symm.trans hnew).trans hold.symm

theorem startPublisher_joins [DecidableEq κ] {k : κ} {slack : ℕ} {nowUs : UInt64}
    {m m' : Mapping} (hk : s.publishers k = none)
    (hopen : s.openMapping (kHeaderSize + bytes.toNat) slack = some m)
    (hattach : m.attachRing (kHeaderSize + bytes.toNat) true nowUs = some (m', bytes))
    (eventsOpen : Bool) : ∃ s', s.Joins s' m' bytes ∧
      s.startPublisher k bytes slack nowUs eventsOpen = s'.release := by
  have hstart : s.startPublisher k bytes slack nowUs eventsOpen =
      if eventsOpen then
        { s with mapping := some m', publishers := Function.update s.publishers k (some bytes) }
      else release { s with mapping := some m' } := by
    simp only [startPublisher, hk, Option.isSome_none, Bool.false_eq_true, if_false, hopen,
      hattach]
  rw [hstart]
  cases eventsOpen with
  | false => exact ⟨{ s with mapping := some m' }, ⟨rfl, fun _ => id, fun _ => .inl⟩, rfl⟩
  | true =>
    refine ⟨_, joins_update_publisher m' hk, (@release_of_attached _ _ _ bytes _ _ ?_).symm⟩
    exact .inl ⟨k, Function.update_self ..⟩

theorem startSubscriber_joins [DecidableEq ι] {i : ι} {slack : ℕ} {nowUs : UInt64}
    {m m' : Mapping} (instanceId : UInt64) (hi : (s.subscribers i).capacity = none)
    (hopen : s.openMapping (kHeaderSize + kDefaultCapacityBytes.toNat) slack = some m)
    (hattach : m.attachRing (kHeaderSize + kDefaultCapacityBytes.toNat) true nowUs =
      some (m', kDefaultCapacityBytes)) (eventsOpen : Bool) :
    ∃ s', s.Joins s' (m'.storeConsumerReadIndex m'.header.writeIndex) kDefaultCapacityBytes ∧
      s.startSubscriber i instanceId slack nowUs eventsOpen = s'.release := by
  have hstart : ∃ state, s.startSubscriber i instanceId slack nowUs eventsOpen = release
      { s with
        mapping := some (m'.storeConsumerReadIndex m'.header.writeIndex)
        subscribers := Function.update s.subscribers i
          { (s.subscribers i).beginStart instanceId with
            capacity := if eventsOpen then some kDefaultCapacityBytes else none
            connectionState := state
            readCursor := m'.header.writeIndex } } := by
    simp only [startSubscriber, hi, Option.isSome_none, Bool.false_eq_true, if_false, hopen,
      hattach]
    cases eventsOpen with
    | false =>
      refine ⟨.disconnected, ?_⟩
      simp only [Bool.false_eq_true, if_false, DirectSubscriberStub.beginStart, hi]
    | true =>
      simp only [if_true]
      refine ⟨.connecting, (@release_of_attached _ _ _ kDefaultCapacityBytes _ _ ?_).symm⟩
      exact .inr ⟨i, by simp only [Function.update_self]⟩
  obtain ⟨state, hstart⟩ := hstart
  refine ⟨_, joins_update_subscriber _ hi ?_, hstart⟩
  cases eventsOpen <;> simp

/-- A mapping that was opened and let go again leaves everything as it was. -/
theorem Sound.idle_release_of_openMapping {slack n : ℕ} {m : Mapping} (hs : s.Sound)
    (hopen : s.openMapping n slack = some m) : s.Idle (release { s with mapping := some m }) := by
  refine ⟨?_, fun capacity => attached_release⟩
  rcases openMapping_eq_some hopen with ⟨hm, -⟩ | ⟨hm, -⟩
  · obtain ⟨capacity, hcapacity⟩ := hs.occupied (Option.isSome_of_eq_some hm)
    rw [release_of_attached (s := { s with mapping := some m }) hcapacity]
    exact hm.symm
  · rw [release_of_not_attached, hm]
    rintro capacity hcapacity
    obtain ⟨_, hm', -⟩ := hs.agree capacity hcapacity
    rw [hm] at hm'
    cases hm'

theorem startPublisher_idle [DecidableEq κ] {k : κ} {slack : ℕ} (hs : s.Sound)
    (nowUs : UInt64) (eventsOpen : Bool) (h : s.publishers k = none → bytes ≠ 0 →
      s.openMapping (kHeaderSize + bytes.toNat) slack = none) :
    s.Idle (s.startPublisher k bytes slack nowUs eventsOpen) := by
  cases hk : s.publishers k with
  | some capacity =>
    rw [startPublisher, hk]
    exact .refl s
  | none =>
    by_cases hbytes : bytes = 0
    · subst hbytes
      cases hopen : s.openMapping (kHeaderSize + (0 : UInt32).toNat) slack with
      | none =>
        simp only [startPublisher, hk, hopen, Option.isSome_none, Bool.false_eq_true, if_false]
        exact .refl s
      | some m =>
        simp only [startPublisher, hk, hopen, Option.isSome_none, Bool.false_eq_true, if_false,
          Mapping.attachRing_zero]
        exact hs.idle_release_of_openMapping hopen
    · simp only [startPublisher, hk, h hk hbytes, Option.isSome_none, Bool.false_eq_true,
        if_false]
      exact .refl s

theorem startSubscriber_idle [DecidableEq ι] {i : ι} {slack : ℕ} (instanceId nowUs : UInt64)
    (eventsOpen : Bool) (h : (s.subscribers i).capacity = none →
      s.openMapping (kHeaderSize + kDefaultCapacityBytes.toNat) slack = none) :
    s.Idle (s.startSubscriber i instanceId slack nowUs eventsOpen) := by
  cases hi : (s.subscribers i).capacity with
  | some capacity =>
    rw [startSubscriber, hi]
    exact .refl s
  | none =>
    simp only [startSubscriber, hi, h hi, Option.isSome_none, Bool.false_eq_true, if_false]
    exact ⟨rfl, fun capacity => attached_update_subscriber s.mapping rfl⟩

/-- What a start does that gets hold of the memory. -/
theorem Sound.start {slack : ℕ} {m : Mapping} (hs : s.Sound) (nowUs : UInt64)
    (hbytes : bytes ≠ 0) (hopen : s.openMapping (kHeaderSize + bytes.toNat) slack = some m)
    (hreach : ∀ m' : Mapping,
      m.attachRing (kHeaderSize + bytes.toNat) true nowUs = some (m', bytes) →
      ∃ t, (s.Joins t m' bytes ∨
          s.Joins t (m'.storeConsumerReadIndex m'.header.writeIndex) bytes) ∧
        s' = t.release) :
    (s'.Agree → s.AsksForRing bytes) ∧
      (s.AsksForRing bytes → s'.Sound ∧ s.Undisturbed s') := by
  obtain ⟨m', hattach, hformatted⟩ := m.exists_attachRing hbytes nowUs
  obtain ⟨t, hjoins, rfl⟩ := hreach m' hattach
  refine ⟨fun hagree m₀ hm₀ hsize => ?_, fun hsame => ?_⟩
  · rcases hjoins with hjoins | hjoins
    · exact hjoins.capacityBytes_eq hs hm₀ hformatted hagree
    · exact hjoins.capacityBytes_eq hs hm₀ hformatted hagree
  -- whoever opens the mapping that is there finds its ring and leaves it
  have hold : ∀ m₀ ∈ s.mapping, bytes = m₀.capacityBytes ∧ m' = m₀ := by
    intro m₀ hm₀
    rcases openMapping_eq_some hopen with ⟨hm, hsize⟩ | ⟨hm, -⟩
    · obtain rfl : m = m₀ := Option.some.inj (hm.symm.trans hm₀)
      have hbytes_eq := hsame m hm hsize
      refine ⟨hbytes_eq, ?_⟩
      have hthere := hs.formatted m hm
      rw [← hbytes_eq] at hthere
      rw [Mapping.attachRing_eq_self hbytes hthere] at hattach
      exact (congrArg Prod.fst (Option.some.inj hattach)).symm
    · rw [hm] at hm₀
      cases hm₀
  refine ⟨?_, fun capacity hcapacity m₀ hm₀ => ?_⟩
  · rcases hjoins with hjoins | hjoins
    · exact hjoins.sound hs hformatted fun m₀ hm₀ => (hold m₀ hm₀).1
    · exact hjoins.sound hs hformatted fun m₀ hm₀ => (hold m₀ hm₀).1
  · obtain rfl := (hold m₀ hm₀).2
    rcases hjoins with hjoins | hjoins
    · rw [release_of_attached (hjoins.kept capacity hcapacity)]
      exact ⟨m', hjoins.mapping, .inl rfl⟩
    · rw [release_of_attached (hjoins.kept capacity hcapacity)]
      exact ⟨_, hjoins.mapping, .inr rfl⟩

theorem Sound.startPublisher [DecidableEq κ] {k : κ} {slack : ℕ} {nowUs : UInt64}
    {eventsOpen : Bool} (hs : s.Sound)
    (hs' : s.startPublisher k bytes slack nowUs eventsOpen = s') :
    (s'.Agree → s.publishers k = none → bytes ≠ 0 → s.AsksForRing bytes) ∧
      ((s.publishers k = none → bytes ≠ 0 → s.AsksForRing bytes) →
        s'.Sound ∧ s.Undisturbed s') := by
  subst hs'
  by_cases hidle : s.publishers k = none → bytes ≠ 0 →
      s.openMapping (kHeaderSize + bytes.toNat) slack = none
  · have h := startPublisher_idle hs nowUs eventsOpen hidle
    exact ⟨fun _ hk hbytes => asksForRing_of_openMapping (hidle hk hbytes),
      fun _ => ⟨h.sound hs, h.undisturbed⟩⟩
  · push Not at hidle
    obtain ⟨hk, hbytes, hopen⟩ := hidle
    obtain ⟨m, hopen⟩ := Option.ne_none_iff_exists'.mp hopen
    have h := hs.start nowUs hbytes hopen fun m' hattach =>
      (startPublisher_joins hk hopen hattach eventsOpen).imp fun _ ht => ⟨.inl ht.1, ht.2⟩
    exact ⟨fun hagree _ _ => h.1 hagree, fun hsame => h.2 (hsame hk hbytes)⟩

theorem Sound.startSubscriber [DecidableEq ι] {i : ι} {instanceId : UInt64} {slack : ℕ}
    {nowUs : UInt64} {eventsOpen : Bool} (hs : s.Sound)
    (hs' : s.startSubscriber i instanceId slack nowUs eventsOpen = s') :
    (s'.Agree → (s.subscribers i).capacity = none → s.AsksForRing kDefaultCapacityBytes) ∧
      (((s.subscribers i).capacity = none → s.AsksForRing kDefaultCapacityBytes) →
        s'.Sound ∧ s.Undisturbed s') := by
  subst hs'
  by_cases hidle : (s.subscribers i).capacity = none →
      s.openMapping (kHeaderSize + kDefaultCapacityBytes.toNat) slack = none
  · have h := startSubscriber_idle instanceId nowUs eventsOpen hidle
    exact ⟨fun _ hi => asksForRing_of_openMapping (hidle hi),
      fun _ => ⟨h.sound hs, h.undisturbed⟩⟩
  · push Not at hidle
    obtain ⟨hi, hopen⟩ := hidle
    obtain ⟨m, hopen⟩ := Option.ne_none_iff_exists'.mp hopen
    have h := hs.start nowUs (by decide) hopen fun m' hattach =>
      (startSubscriber_joins instanceId hi hopen hattach eventsOpen).imp
        fun _ ht => ⟨.inr ht.1, ht.2⟩
    exact ⟨fun hagree _ => h.1 hagree, fun hsame => h.2 (hsame hi)⟩

variable [DecidableEq κ] [DecidableEq ι] {a : EndpointAction κ ι}

/-- The other steps leave the ring and those who are attached, or take somebody away. -/
theorem Sound.next_of_not_isStart (hs : s.Sound) (ha : ¬a.IsStart) (hnext : s.next a = some s') :
    s'.Sound := by
  cases a with
  | startPublisher => exact absurd trivial ha
  | startSubscriber => exact absurd trivial ha
  | writeUpsert k update nowUs =>
    simp only [Endpoints.next] at hnext
    split at hnext
    case h_1 m capacity hm hk =>
      cases hnext
      exact hs.keep hm rfl ⟨rfl, rfl, rfl⟩ fun _ => .rfl
    case h_2 => cases hnext
  | endFlush k nowUs =>
    simp only [Endpoints.next] at hnext
    split at hnext
    case h_1 m capacity hm hk =>
      cases hnext
      exact hs.keep hm rfl ⟨rfl, rfl, rfl⟩ fun _ => .rfl
    case h_2 => cases hnext
  | stopPublisher k =>
    obtain ⟨-, hnext⟩ := Option.ite_none_right_eq_some.mp hnext
    cases hnext
    refine sound_release (hs.agree.congr (fun capacity => ?_) fun m hm => ⟨m, hm, rfl⟩)
      hs.formatted
    exact Or.imp_left fun ⟨j, hj⟩ => ⟨j, eq_some_of_update_none hj⟩
  | readNextUpsert i nowUs =>
    simp only [Endpoints.next] at hnext
    split at hnext
    case h_1 m capacity hm hi =>
      cases hnext
      exact hs.keep hm rfl ⟨rfl, rfl, rfl⟩ fun _ => attached_update_subscriber _ rfl
    case h_2 => cases hnext
  | endIteration i nowUs =>
    simp only [Endpoints.next] at hnext
    split at hnext
    case h_1 m capacity hm hi =>
      cases hnext
      refine hs.keep hm rfl ⟨rfl, rfl, rfl⟩ fun _ => attached_update_subscriber _ ?_
      exact DirectSubscriberStub.observe_capacity ..
    case h_2 => cases hnext
  | stopSubscriber i =>
    obtain ⟨-, hnext⟩ := Option.ite_none_right_eq_some.mp hnext
    cases hnext
    exact sound_release (hs.agree.congr (fun _ => attached_of_stop) fun m hm => ⟨m, hm, rfl⟩)
      hs.formatted

/-- In a sound state a step meets what is asked of it just if it does not start with another
size, and then the next state is sound. -/
theorem Sound.next (hs : s.Sound) (hnext : s.next a = some s') :
    (s'.Agree → s.SameSize a) ∧
      (s.SameSize a → s'.Sound ∧ (a.IsStart → s.Undisturbed s')) := by
  cases a with
  | startPublisher k bytes slack nowUs eventsOpen =>
    have h := hs.startPublisher (Option.some.inj hnext)
    exact ⟨h.1, fun ha => (h.2 ha).imp_right fun h _ => h⟩
  | startSubscriber i instanceId slack nowUs eventsOpen =>
    have h := hs.startSubscriber (Option.some.inj hnext)
    exact ⟨h.1, fun ha => (h.2 ha).imp_right fun h _ => h⟩
  | _ =>
    refine ⟨fun _ => trivial, fun _ => ⟨hs.next_of_not_isStart ?_ hnext, ?_⟩⟩
    · exact id
    · exact False.elim

theorem Sound.meets_iff (hs : s.Sound) : s.Meets a ↔ s.SameSize a := by
  constructor
  · intro h
    by_contra hsame
    cases hnext : s.next a with
    | none =>
      cases a with
      | startPublisher => cases hnext
      | startSubscriber => cases hnext
      | _ => exact hsame trivial
    | some s' => exact hsame ((hs.next hnext).1 (h s' hnext).1)
  · intro ha s' hnext
    obtain ⟨hsound, hstart⟩ := (hs.next hnext).2 ha
    exact ⟨hsound.agree, hstart⟩

theorem Sound.everyStep_meets_iff (hs : s.Sound) (actions : List (EndpointAction κ ι)) :
    EveryStep Endpoints.next Meets s actions ↔ EveryStep Endpoints.next SameSize s actions :=
  everyStep_congr (P := Sound) (fun _ _ _ hs => hs.meets_iff)
    (fun _ _ _ _ hs ha hnext => ((hs.next hnext).2 ha).1) hs

/-- In every run, the endpoints agree and are left alone just if all starts ask for the ring that
is there. -/
theorem agree_throughout_iff (staleTimeoutMs : ι → UInt64)
    (actions : List (EndpointAction κ ι)) :
    EveryStep next Meets (initial staleTimeoutMs) actions ↔
      EveryStep next SameSize (initial staleTimeoutMs) actions :=
  (sound_initial staleTimeoutMs).everyStep_meets_iff actions

/-- A subscriber is there with its ring of the default size, and a publisher is configured with a
smaller one. -/
def smallerRing : List (EndpointAction Unit Unit) :=
  [.startSubscriber () 1 0 5 true, .startPublisher () 65536 0 7 true]

theorem smallerRing_not_agree_throughout :
    ¬EveryStep next Meets (initial fun _ => 1000) smallerRing := by
  rw [(sound_initial fun _ => 1000).everyStep_meets_iff]
  decide +kernel

end Starts

end Endpoints

end SmartDashboard.Direct
