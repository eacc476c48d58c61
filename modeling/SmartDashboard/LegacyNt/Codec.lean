import Mathlib.Data.List.Induction
import Mathlib.Data.List.TakeWhile
import SmartDashboard.Library.Execution
import SmartDashboard.LegacyNt.Entries

/-!
# Sending and receiving legacy NetworkTables entries

What an instance sends names a key once, with the type of its first value; later values carry the
entry's id only. The receiving side reads them with the type and under the key that it last saw for
that id, so its tables have to agree with the sender's, which chooses ids from a 16-bit counter.

## Main definitions

- `Arrives`: a fresh instance gets the keys and values that were published, and never fails
- `InStep`: no key is known from elsewhere, every later value of a key has the type of its first,
  and its id was not given away
- `InSync`: the tables of the two sides after a sequence of calls

## Main results

- `arrives_iff_inStep`: published values arrive exactly when they are in step
-/

namespace SmartDashboard.LegacyNt

open ByteReader BigEndian Direct Execution

/-- A key without the prefix that leaves room for it, and a text that its length can count. -/
structure Call.Admissible (c : Call) : Prop where
  key : kPrefix.isPrefixOf c.key = false
  length : c.key.length ≤ 60000
  text : ∀ key value, c = .string key value → value.bytes.length ≤ 65535

def Update.content (u : Update) : ByteString × Value := (u.key, u.value)

def Call.content (c : Call) : ByteString × Value := (c.key, c.value)

/-- The bytes that a connected instance sends for a sequence of calls. -/
def sentBytes (inst : Instance) (calls : List Call) : ByteString :=
  (history Instance.publish inst calls).flatMap Record.output

/-- A fresh instance's loop over the bytes that were sent. -/
def received (bytes : ByteString) : List Update × Option Instance :=
  drain Instance.processOneMessage bytes.length {} bytes

def Arrives (inst : Instance) (calls : List Call) : Prop :=
  (received (sentBytes inst calls)).1.map Update.content = calls.map Call.content ∧
    (received (sentBytes inst calls)).2.isSome

/-- The keys of a sequence of calls, in the order of their first calls. -/
def keysOf (calls : List Call) : List ByteString :=
  calls.foldl (fun keys c => if c.key ∈ keys then keys else keys ++ [c.key]) []

def firstTypeId (calls : List Call) (key : ByteString) : Option UInt8 :=
  (calls.find? fun c => c.key = key).map Call.typeId

/-- After `front`, a call for a key of which `inst` had no entry to begin with: it is the first of
its key, or has the type of the first, and fewer than 65536 keys came first after that one. -/
def Follows (inst : Instance) (front : List Call) (c : Call) : Prop :=
  inst.keyToEntry c.key = none ∧
    (c.key ∈ keysOf front → firstTypeId front c.key = some c.typeId ∧
      (keysOf front).length ≤ (keysOf front).idxOf c.key + 65536)

def InStep (inst : Instance) (calls : List Call) : Prop :=
  ∀ front c back, calls = front ++ c :: back → Follows inst front c

/-! ## Keys in the order of their first calls -/

theorem keysOf_concat (calls : List Call) (c : Call) :
    keysOf (calls ++ [c]) =
      if c.key ∈ keysOf calls then keysOf calls else keysOf calls ++ [c.key] := by
  rw [keysOf, List.foldl_append]
  rfl

theorem keysOf_concat_of_mem {calls : List Call} {c : Call} (h : c.key ∈ keysOf calls) :
    keysOf (calls ++ [c]) = keysOf calls := by
  rw [keysOf_concat, if_pos h]

theorem keysOf_concat_of_notMem {calls : List Call} {c : Call} (h : c.key ∉ keysOf calls) :
    keysOf (calls ++ [c]) = keysOf calls ++ [c.key] := by
  rw [keysOf_concat, if_neg h]

theorem mem_keysOf {calls : List Call} {key : ByteString} :
    key ∈ keysOf calls ↔ ∃ c ∈ calls, c.key = key := by
  induction calls using List.reverseRecOn with
  | nil => simp [keysOf]
  | append_singleton calls c ih =>
    have hmem : key ∈ keysOf (calls ++ [c]) ↔ key ∈ keysOf calls ∨ c.key = key := by
      rw [keysOf_concat]
      split
      · next hold =>
        refine ⟨Or.inl, ?_⟩
        rintro (h | rfl)
        · exact h
        · exact hold
      · rw [List.mem_append, List.mem_singleton, eq_comm (a := key)]
    rw [hmem, ih]
    simp only [List.mem_append, List.mem_singleton]
    constructor
    · rintro (⟨d, hd, hkey⟩ | hkey)
      · exact ⟨d, .inl hd, hkey⟩
      · exact ⟨c, .inr rfl, hkey⟩
    · rintro ⟨d, hd | rfl, hkey⟩
      · exact .inl ⟨d, hd, hkey⟩
      · exact .inr hkey

theorem firstTypeId_eq_none {calls : List Call} {key : ByteString} (h : key ∉ keysOf calls) :
    firstTypeId calls key = none := by
  rw [firstTypeId, Option.map_eq_none_iff, List.find?_eq_none]
  intro c hc hkey
  exact h (mem_keysOf.mpr ⟨c, hc, by simpa using hkey⟩)

theorem exists_firstTypeId {calls : List Call} {key : ByteString} (h : key ∈ keysOf calls) :
    ∃ typeId, firstTypeId calls key = some typeId := by
  obtain ⟨c, hc, hkey⟩ := mem_keysOf.mp h
  rw [firstTypeId]
  cases hfind : calls.find? fun c => c.key = key with
  | none =>
    rw [List.find?_eq_none] at hfind
    exact absurd (by simpa using hkey) (hfind c hc)
  | some d => exact ⟨d.typeId, rfl⟩

theorem firstTypeId_concat (calls : List Call) (c : Call) (key : ByteString) :
    firstTypeId (calls ++ [c]) key =
      (firstTypeId calls key).or (if c.key = key then some c.typeId else none) := by
  rw [firstTypeId, firstTypeId, List.find?_append]
  cases calls.find? fun c => c.key = key with
  | some d => rfl
  | none =>
    by_cases hkey : c.key = key
    · simp [hkey]
    · simp [hkey]

/-! ## Values -/

def Value.typeId : Value → UInt8
  | .bool _ => 0x00
  | .double _ => 0x01
  | .string _ => 0x02
  | .stringArray _ => 0x12

theorem Call.typeId_value (c : Call) : c.value.typeId = c.typeId := by
  cases c <;> rfl

theorem cString_eq_self {s : ByteString} (h : 0 ∉ s) : cString s = s := by
  rw [cString, List.takeWhile_eq_self_iff]
  intro b hb
  simp only [ne_eq, decide_eq_true_eq]
  rintro rfl
  exact h hb

theorem reads_readU16 (n : UInt16) : Reads readU16 (writeU16 n) n := by
  have hfit : n.toNat < 256 ^ 2 := n.toNat_lt
  have hread := (reads_number hfit).map UInt16.ofNat
  rwa [UInt16.ofNat_toNat] at hread

theorem reads_readBytes {s : ByteString} (h : s.length ≤ 65535) :
    Reads readBytes (writeU16 (UInt16.ofNat s.length) ++ s) s := by
  refine (reads_readU16 _).bind (reads_take ?_)
  rw [UInt16.toNat_ofNat', Nat.mod_eq_of_lt (by omega)]

/-- The payload of a call is read with the type of the call. -/
theorem reads_payload {c : Call} (h : c.Admissible) :
    Reads (readTypedValue c.typeId) c.payload c.value := by
  cases c with
  | bool key value =>
    have hread : Reads (readTypedValue 0x00) [if value ≠ 0 then 1 else 0]
        (.bool ((if value ≠ 0 then (1 : UInt8) else 0) ≠ 0)) :=
      (reads_byte _).map fun b => Value.bool (b ≠ 0)
    by_cases hvalue : value = 0
    · simpa [Call.typeId, Call.payload, Call.value, hvalue] using hread
    · simpa [Call.typeId, Call.payload, Call.value, hvalue] using hread
  | double key value =>
    have hfit : value.toNat < 256 ^ 8 := value.toNat_lt
    have hread := (reads_number hfit).map fun bits => Value.double (UInt64.ofNat bits)
    rw [UInt64.ofNat_toNat] at hread
    exact hread
  | string key value =>
    have hlength := h.text key value rfl
    have hread := (reads_readBytes hlength).map fun bytes => Value.string (cString bytes)
    rw [cString_eq_self value.noTerminator] at hread
    rw [Call.payload, Nat.min_eq_left hlength, List.take_length]
    exact hread

/-- Whatever is read with a type has that type. -/
theorem typeId_of_readTypedValue {typeId : UInt8} {bytes rest : ByteString} {value : Value}
    (h : readTypedValue typeId bytes = (some value, rest)) : value.typeId = typeId := by
  rw [readTypedValue] at h
  split at h
  · next htype =>
    obtain ⟨b, -, rfl⟩ := exists_of_map_eq h
    exact htype.symm
  split at h
  · next htype =>
    obtain ⟨bits, -, rfl⟩ := exists_of_map_eq h
    exact htype.symm
  split at h
  · next htype =>
    obtain ⟨s, -, rfl⟩ := exists_of_map_eq h
    exact htype.symm
  split at h
  · next htype =>
    obtain ⟨elementCount, mid, -, hvalues⟩ := exists_of_bind_eq h
    obtain ⟨values, -, rfl⟩ := exists_of_map_eq hvalues
    exact htype.symm
  · cases h

theorem normalizeIncomingKey_toWireKey {key : ByteString} (h : kPrefix.isPrefixOf key = false) :
    normalizeIncomingKey (toWireKey key) = key := by
  have hpre : kPrefix.isPrefixOf (kPrefix ++ key) = true := by
    rw [List.isPrefixOf_iff_prefix]
    exact List.prefix_append _ _
  rw [toWireKey, if_neg (by simp [h]), normalizeIncomingKey, if_pos hpre, List.drop_left]

/-! ## Messages -/

theorem Call.zero_notMem_key (c : Call) : 0 ∉ c.key := by
  cases c with
  | bool key value => exact key.noTerminator
  | double key value => exact key.noTerminator
  | string key value => exact key.noTerminator

theorem reads_update {c : Call} (h : c.Admissible) (seq : UInt16) :
    Reads (readTypedValueAndPublish c.key seq c.typeId) c.payload
      { key := c.key, value := c.value, seq := seq.toUInt64 } := by
  rw [readTypedValueAndPublish, cString_eq_self c.zero_notMem_key]
  exact (reads_payload h).map fun value =>
    ({ key := c.key, value, seq := seq.toUInt64 } : Update)

/-- The packet of a key's first call is received as an entry of the sender's id and type. -/
theorem reads_assignment {c : Call} (h : c.Admissible) (sender receiver : Instance)
    (hnew : sender.keyToEntry c.key = none) :
    Reads receiver.processOneMessage (sender.publish c).2
      (receiver.setEntry c.key
        { id := sender.nextEntryId, seq := 1, typeId := c.typeId, wireKey := toWireKey c.key },
        [{ key := c.key, value := c.value, seq := 1 }]) := by
  have hlength : (toWireKey c.key).length ≤ 65535 := by
    have hpre : kPrefix.length = 16 := rfl
    have hkey := h.length
    rw [toWireKey, if_neg (by simp [h.key]), List.length_append, hpre]
    omega
  have hpacket : (sender.publish c).2 = 0x10 ::
      ((writeU16 (UInt16.ofNat (toWireKey c.key).length) ++ toWireKey c.key) ++
        ([c.typeId] ++ (writeU16 sender.nextEntryId ++ (writeU16 1 ++ c.payload)))) := by
    rw [Instance.publish_eq, Instance.sendEntryAssignment, hnew]
    simp [Nat.min_eq_left hlength]
  rw [hpacket]
  refine reads_byte_bind ?_
  change Reads receiver.handleEntryAssignment _ _
  refine (reads_readBytes hlength).bind ((reads_byte c.typeId).bind
    ((reads_readU16 sender.nextEntryId).bind ((reads_readU16 1).bind ?_)))
  rw [normalizeIncomingKey_toWireKey h.key]
  exact (reads_update h 1).map fun update => (receiver.setEntry c.key _, [update])

/-- What a field update's packet leads to: the entry that the receiver has for its id is read with
the type that it has there. -/
theorem processOneMessage_update (receiver : Instance) (id seq : UInt16) {holder : ByteString}
    {entry : EntryMeta} (hholder : receiver.idToKey id = some holder)
    (hentry : receiver.keyToEntry holder = some entry) (bytes : ByteString) :
    receiver.processOneMessage (0x11 :: writeU16 id ++ writeU16 seq ++ bytes) =
      (do
        let update ← readTypedValueAndPublish holder seq entry.typeId
        pure (receiver.setSeq holder entry seq, [update]) :
          ByteReader (Instance × List Update)) bytes := by
  have hid := reads_readU16 id (writeU16 seq ++ bytes)
  have hseq := reads_readU16 seq bytes
  change receiver.handleFieldUpdate ((writeU16 id ++ writeU16 seq) ++ bytes) = _
  rw [List.append_assoc, Instance.handleFieldUpdate, bind_apply, hid]
  simp only [bind_apply, hseq, hholder, hentry]

/-- A field update that comes to an entry of another key or another type is not the call's. -/
theorem content_ne_of_update {receiver s' : Instance} {c : Call} {id seq : UInt16}
    {holder : ByteString} {entry : EntryMeta} (hholder : receiver.idToKey id = some holder)
    (hentry : receiver.keyToEntry holder = some entry) (hnul : 0 ∉ holder)
    (hbad : holder = c.key → entry.typeId ≠ c.typeId) {bytes rest : ByteString}
    {given : List Update}
    (h : receiver.processOneMessage (0x11 :: writeU16 id ++ writeU16 seq ++ bytes) =
      (some (s', given), rest)) :
    ∃ u, given = [u] ∧ u.content ≠ c.content := by
  rw [processOneMessage_update receiver id seq hholder hentry] at h
  obtain ⟨u, hupdate, hresult⟩ := exists_of_map_eq h
  obtain ⟨value, hvalue, rfl⟩ := exists_of_map_eq hupdate
  refine ⟨_, congrArg Prod.snd hresult, ?_⟩
  intro hcontent
  obtain ⟨hkey, hval⟩ := Prod.mk.inj hcontent
  simp only at hkey hval
  rw [cString_eq_self hnul] at hkey
  refine hbad hkey ?_
  rw [← typeId_of_readTypedValue hvalue, hval, Call.typeId_value]

/-! ## Tables in step -/

/-- The id that the `n`-th new key gets from an instance. -/
def entryId (inst : Instance) (n : ℕ) : UInt16 := inst.nextEntryId + UInt16.ofNat n

section Sync

variable {start : Instance}

theorem entryId_succ (n : ℕ) : entryId start (n + 1) = entryId start n + 1 := by
  rw [entryId, entryId, UInt16.ofNat_add, ← UInt16.add_assoc]
  rfl

theorem entryId_inj {m n : ℕ} : entryId start m = entryId start n ↔ m % 65536 = n % 65536 := by
  rw [entryId, entryId, UInt16.add_right_inj, ← UInt16.toNat_inj, UInt16.toNat_ofNat',
    UInt16.toNat_ofNat']

/-- The tables of the two sides after a sequence of calls whose packets have all arrived. The
receiver has the id of a key under that key as long as no later key has got it again. -/
structure InSync (start : Instance) (calls : List Call) (sender receiver : Instance) : Prop where
  next : sender.nextEntryId = entryId start (keysOf calls).length
  unseen : ∀ key ∈ keysOf calls, start.keyToEntry key = none
  kept : ∀ key, key ∉ keysOf calls → sender.keyToEntry key = start.keyToEntry key
  sent : ∀ key ∈ keysOf calls, ∃ entry, sender.keyToEntry key = some entry ∧
    entry.id = entryId start ((keysOf calls).idxOf key)
  types : ∀ key, (receiver.keyToEntry key).map EntryMeta.typeId = firstTypeId calls key
  known : ∀ id holder, receiver.idToKey id = some holder → holder ∈ keysOf calls
  ids : ∀ key ∈ keysOf calls, ∃ holder,
    receiver.idToKey (entryId start ((keysOf calls).idxOf key)) = some holder ∧
      (holder = key ↔ (keysOf calls).length ≤ (keysOf calls).idxOf key + 65536)

theorem inSync_nil (start : Instance) : InSync start [] start {} where
  next := (UInt16.add_zero _).symm
  unseen key hkey := by cases hkey
  kept _ _ := rfl
  sent key hkey := by cases hkey
  types _ := rfl
  known id holder h := by cases h
  ids key hkey := by cases hkey

variable {calls : List Call} {sender receiver : Instance} {c : Call}

/-- The receiver's side of `InSync.ids` when a new key comes last. -/
theorem InSync.ids_first (h : InSync start calls sender receiver) (hnew : c.key ∉ keysOf calls)
    {key : ByteString} (hold : key ∈ keysOf calls) :
    ∃ holder, (if entryId start ((keysOf calls).idxOf key) = sender.nextEntryId then some c.key
        else receiver.idToKey (entryId start ((keysOf calls).idxOf key))) = some holder ∧
      (holder = key ↔ (keysOf calls).length + 1 ≤ (keysOf calls).idxOf key + 65536) := by
  obtain ⟨holder, hfound, hiff⟩ := h.ids key hold
  have hlt : (keysOf calls).idxOf key < (keysOf calls).length := List.idxOf_lt_length_iff.mpr hold
  by_cases hid : entryId start ((keysOf calls).idxOf key) = sender.nextEntryId
  · -- The new key takes the id of this one, so a whole turn of ids lies between them.
    have hmod := entryId_inj.mp (hid.trans h.next)
    refine ⟨c.key, if_pos hid, ?_⟩
    constructor
    · rintro rfl
      exact absurd hold hnew
    · intro hlen
      omega
  · have hmod : (keysOf calls).idxOf key % 65536 ≠ (keysOf calls).length % 65536 := by
      intro hmod
      exact hid ((entryId_inj.mpr hmod).trans h.next.symm)
    refine ⟨holder, (if_neg hid).trans hfound, hiff.trans ?_⟩
    constructor
    · intro hlen
      by_contra hlen'
      have : (keysOf calls).length = (keysOf calls).idxOf key + 65536 := by omega
      omega
    · omega

/-- The first call of a key: both sides have a new entry, and a key whose id it got again is no
longer found under that id. -/
theorem InSync.first (h : InSync start calls sender receiver) (hnew : c.key ∉ keysOf calls)
    (hunseen : start.keyToEntry c.key = none) :
    InSync start (calls ++ [c]) (sender.publish c).1
      (receiver.setEntry c.key
        { id := sender.nextEntryId, seq := 1, typeId := c.typeId
          wireKey := toWireKey c.key }) := by
  have hkeys := keysOf_concat_of_notMem hnew
  have hunknown : sender.keyToEntry c.key = none := (h.kept c.key hnew).trans hunseen
  have hindex (key : ByteString) (hkey : key ∈ keysOf calls) :
      (keysOf calls ++ [c.key]).idxOf key = (keysOf calls).idxOf key :=
    List.idxOf_append_of_mem hkey
  have hlast : (keysOf calls ++ [c.key]).idxOf c.key = (keysOf calls).length := by
    rw [List.idxOf_append_of_notMem hnew, List.idxOf_cons_self, Nat.add_zero]
  have hpublish : (sender.publish c).1 = { sender.setEntry c.key
      { id := sender.nextEntryId, seq := 1, typeId := c.typeId, wireKey := toWireKey c.key } with
        nextEntryId := sender.nextEntryId + 1 } := by
    rw [Instance.publish_eq, Instance.sendEntryAssignment, hunknown]
    rfl
  have hmem {key : ByteString} :
      key ∈ keysOf (calls ++ [c]) ↔ key ∈ keysOf calls ∨ key = c.key := by
    rw [hkeys, List.mem_append, List.mem_singleton]
  have hne {key : ByteString} (hold : key ∈ keysOf calls) : key ≠ c.key := by
    rintro rfl
    exact hnew hold
  rw [hpublish]
  refine ⟨?_, fun key hkey => ?_, fun key hkey => ?_, fun key hkey => ?_, fun key => ?_,
    fun id holder hfound => ?_, fun key hkey => ?_⟩
  · rw [hkeys, List.length_append, List.length_singleton, entryId_succ, ← h.next]
  · rcases hmem.mp hkey with hold | rfl
    · exact h.unseen key hold
    · exact hunseen
  · rw [hmem, not_or] at hkey
    simpa [Instance.setEntry, hkey.2] using h.kept key hkey.1
  · rcases hmem.mp hkey with hold | rfl
    · obtain ⟨entry, hentry, hid⟩ := h.sent key hold
      refine ⟨entry, by simpa [Instance.setEntry, hne hold] using hentry, ?_⟩
      rw [hkeys, hindex key hold, hid]
    · refine ⟨_, if_pos rfl, ?_⟩
      rw [hkeys, hlast, h.next]
  · rw [firstTypeId_concat]
    by_cases hkey : key = c.key
    · subst hkey
      simp [Instance.setEntry, firstTypeId_eq_none hnew]
    · simp [Instance.setEntry, hkey, Ne.symm hkey, h.types key]
  · rw [hmem]
    simp only [Instance.setEntry] at hfound
    split at hfound
    · exact .inr (Option.some.inj hfound).symm
    · exact .inl (h.known id holder hfound)
  · rcases hmem.mp hkey with hold | rfl
    · rw [hkeys, List.length_append, List.length_singleton, hindex key hold]
      exact h.ids_first hnew hold
    · rw [hkeys, List.length_append, List.length_singleton, hlast]
      refine ⟨c.key, ?_, ?_⟩
      · simp [Instance.setEntry, h.next]
      · simp

/-- A later call of a key changes no id and no type of the receiver's. -/
theorem InSync.later (h : InSync start calls sender receiver) (hold : c.key ∈ keysOf calls)
    {holder : ByteString} {entry : EntryMeta} (hentry : receiver.keyToEntry holder = some entry)
    (seq : UInt16) :
    InSync start (calls ++ [c]) (sender.publish c).1 (receiver.setSeq holder entry seq) := by
  have hkeys := keysOf_concat_of_mem hold
  obtain ⟨mine, hmine, hid⟩ := h.sent c.key hold
  obtain ⟨first, hfirst⟩ := exists_firstTypeId hold
  have hpublish (key : ByteString) (hkey : key ≠ c.key) :
      (sender.publish c).1.keyToEntry key = sender.keyToEntry key := by
    rw [Instance.publish_eq, Instance.sendEntryAssignment, hmine]
    exact if_neg hkey
  refine ⟨?_, fun key hkey => ?_, fun key hkey => ?_, fun key hkey => ?_, fun key => ?_,
    fun id holder hfound => ?_, fun key hkey => ?_⟩
  · rw [hkeys, Instance.publish_eq, Instance.sendEntryAssignment, hmine]
    exact h.next
  · exact h.unseen key (hkeys ▸ hkey)
  · rw [hkeys] at hkey
    have hne : key ≠ c.key := by
      rintro rfl
      exact hkey hold
    rw [hpublish key hne, h.kept key hkey]
  · rw [hkeys] at hkey ⊢
    by_cases hne : key = c.key
    · subst hne
      rw [Instance.publish_eq, Instance.sendEntryAssignment, hmine]
      exact ⟨_, if_pos rfl, hid⟩
    · rw [hpublish key hne]
      exact h.sent key hkey
  · have htype : ((receiver.setSeq holder entry seq).keyToEntry key).map EntryMeta.typeId =
        (receiver.keyToEntry key).map EntryMeta.typeId := by
      by_cases hkey : key = holder
      · subst hkey
        simp [Instance.setSeq, hentry]
      · simp [Instance.setSeq, hkey]
    rw [htype, h.types key, firstTypeId_concat]
    by_cases hkey : c.key = key
    · subst hkey
      rw [hfirst]
      rfl
    · simp [hkey]
  · rw [hkeys]
    exact h.known id holder hfound
  · rw [hkeys] at hkey ⊢
    exact h.ids key hkey

/-- A key that the receiver has under some id has an entry with the type of its first call. -/
theorem InSync.exists_entry (h : InSync start calls sender receiver) {id : UInt16}
    {holder : ByteString} (hholder : receiver.idToKey id = some holder) :
    ∃ entry, receiver.keyToEntry holder = some entry ∧
      firstTypeId calls holder = some entry.typeId := by
  obtain ⟨typeId, htype⟩ := exists_firstTypeId (h.known id holder hholder)
  have htypes := h.types holder
  rw [htype, Option.map_eq_some_iff] at htypes
  obtain ⟨entry, hentry, rfl⟩ := htypes
  exact ⟨entry, hentry, htype⟩

theorem zero_notMem_of_mem_keysOf {key : ByteString} (h : key ∈ keysOf calls) : 0 ∉ key := by
  obtain ⟨c, -, rfl⟩ := mem_keysOf.mp h
  exact c.zero_notMem_key

/-- The packet of a key that the sender knows. -/
theorem publish_of_known {entry : EntryMeta} (h : sender.keyToEntry c.key = some entry) :
    (sender.publish c).2 = 0x11 :: writeU16 entry.id ++ writeU16 (entry.seq + 1) ++ c.payload := by
  rw [Instance.publish_eq, Instance.sendEntryAssignment, h]

/-- A call that follows the calls before it arrives, and keeps the tables in step. -/
theorem InSync.reads_publish (h : InSync start calls sender receiver) (hadm : c.Admissible)
    (hfollows : Follows start calls c) :
    ∃ receiver' update, Reads receiver.processOneMessage (sender.publish c).2
        (receiver', [update]) ∧ update.content = c.content ∧
      InSync start (calls ++ [c]) (sender.publish c).1 receiver' := by
  by_cases hold : c.key ∈ keysOf calls
  · obtain ⟨hfirst, hfew⟩ := hfollows.2 hold
    obtain ⟨mine, hmine, hid⟩ := h.sent c.key hold
    obtain ⟨holder, hholder, hiff⟩ := h.ids c.key hold
    obtain ⟨entry, hentry, htype⟩ := h.exists_entry hholder
    obtain rfl := hiff.mpr hfew
    rw [hfirst, Option.some.injEq] at htype
    refine ⟨_, { key := c.key, value := c.value, seq := (mine.seq + 1).toUInt64 }, fun rest => ?_,
      rfl, h.later hold hentry (mine.seq + 1)⟩
    have hread := (reads_update hadm (mine.seq + 1)).map (fun update =>
      (receiver.setSeq c.key entry (mine.seq + 1), [update])) rest
    rw [publish_of_known hmine, List.append_assoc,
      processOneMessage_update receiver _ _ (hid ▸ hholder) hentry, ← htype]
    exact hread
  · have hunknown : sender.keyToEntry c.key = none := (h.kept c.key hold).trans hfollows.1
    exact ⟨_, _, reads_assignment hadm sender receiver hunknown, rfl, h.first hold hfollows.1⟩

/-- A call that does not follow is refused, or comes as another content. -/
theorem InSync.content_ne (h : InSync start calls sender receiver) (hbad : ¬ Follows start calls c)
    {receiver' : Instance} {bytes rest : ByteString} {given : List Update}
    (hmessage : receiver.processOneMessage ((sender.publish c).2 ++ bytes) =
      (some (receiver', given), rest)) :
    ∃ u, given = [u] ∧ u.content ≠ c.content := by
  by_cases hold : c.key ∈ keysOf calls
  · -- The receiver has another key under the id, or an entry of another type.
    obtain ⟨mine, hmine, hid⟩ := h.sent c.key hold
    obtain ⟨holder, hholder, hiff⟩ := h.ids c.key hold
    obtain ⟨entry, hentry, htype⟩ := h.exists_entry hholder
    rw [publish_of_known hmine, List.append_assoc] at hmessage
    refine content_ne_of_update (hid ▸ hholder) hentry
      (zero_notMem_of_mem_keysOf (h.known _ holder hholder)) ?_ hmessage
    intro hkey heq
    refine hbad ⟨h.unseen c.key hold, fun _ => ⟨?_, hiff.mp hkey⟩⟩
    rw [← hkey, htype, heq]
  · -- The sender has an entry of its own, which the receiver was never told.
    have hseen : start.keyToEntry c.key ≠ none := fun hunseen =>
      hbad ⟨hunseen, fun hmem => absurd hmem hold⟩
    obtain ⟨mine, hmine⟩ := Option.ne_none_iff_exists'.mp hseen
    have hknown := (h.kept c.key hold).trans hmine
    rw [publish_of_known hknown, List.append_assoc] at hmessage
    cases hholder : receiver.idToKey mine.id with
    | none =>
      have hid := reads_readU16 mine.id (writeU16 (mine.seq + 1) ++ (c.payload ++ bytes))
      have hseq := reads_readU16 (mine.seq + 1) (c.payload ++ bytes)
      change receiver.handleFieldUpdate
        ((writeU16 mine.id ++ writeU16 (mine.seq + 1)) ++ (c.payload ++ bytes)) = _ at hmessage
      rw [List.append_assoc, Instance.handleFieldUpdate, bind_apply, hid] at hmessage
      simp only [bind_apply, hseq, hholder] at hmessage
      cases hmessage
    | some holder =>
      obtain ⟨entry, hentry, htype⟩ := h.exists_entry hholder
      refine content_ne_of_update hholder hentry
        (zero_notMem_of_mem_keysOf (h.known _ holder hholder)) ?_ hmessage
      rintro rfl
      exact absurd (h.known _ _ hholder) hold

theorem publish_ne_nil (inst : Instance) (c : Call) : (inst.publish c).2 ≠ [] := by
  rw [Instance.publish_eq, Instance.sendEntryAssignment]
  cases inst.keyToEntry c.key with
  | none => exact List.cons_ne_nil _ _
  | some known => exact List.cons_ne_nil _ _

theorem sentBytes_cons (inst : Instance) (c : Call) (calls : List Call) :
    sentBytes inst (c :: calls) =
      (inst.publish c).2 ++ sentBytes (inst.publish c).1 calls := rfl

/-- From tables in step, the rest of the calls arrives exactly if each of them follows. -/
theorem InSync.drain_iff {front back : List Call} (h : InSync start front sender receiver)
    (hadm : ∀ c ∈ back, c.Admissible) {turns : ℕ}
    (hturns : (sentBytes sender back).length ≤ turns) :
    ((drain Instance.processOneMessage turns receiver (sentBytes sender back)).1.map
          Update.content = back.map Call.content ∧
        (drain Instance.processOneMessage turns receiver (sentBytes sender back)).2.isSome) ↔
      ∀ pre c post, back = pre ++ c :: post → Follows start (front ++ pre) c := by
  induction back generalizing front sender receiver turns with
  | nil =>
    have hnil : drain Instance.processOneMessage turns receiver [] = ([], some receiver) := by
      cases turns <;> rfl
    refine ⟨fun _ pre c post hsplit => ?_, fun _ => ?_⟩
    · simp at hsplit
    · rw [sentBytes, history_nil, List.flatMap_nil, hnil]
      exact ⟨rfl, rfl⟩
  | cons c back ih =>
    rw [List.forall_mem_cons] at hadm
    have hne := publish_ne_nil sender c
    have hpos := List.length_pos_iff.mpr hne
    rw [sentBytes_cons, List.length_append] at hturns
    rw [sentBytes_cons]
    obtain ⟨turns, rfl⟩ : ∃ t, turns = t + 1 := ⟨turns - 1, by omega⟩
    have hsplits :
        (∀ pre c' post, c :: back = pre ++ c' :: post → Follows start (front ++ pre) c') ↔
        Follows start front c ∧
          ∀ pre c' post, back = pre ++ c' :: post → Follows start (front ++ [c] ++ pre) c' := by
      constructor
      · intro hall
        refine ⟨by simpa using hall [] c back rfl, fun pre c' post hsplit => ?_⟩
        have := hall (c :: pre) c' post (by rw [hsplit]; rfl)
        rwa [List.append_cons] at this
      · rintro ⟨hfirst, hrest⟩ pre c' post hsplit
        cases pre with
        | nil =>
          obtain ⟨rfl, rfl⟩ := List.cons.inj hsplit
          rwa [List.append_nil]
        | cons d pre =>
          obtain ⟨rfl, hsplit'⟩ := List.cons.inj hsplit
          rw [List.append_cons]
          exact hrest pre c' post hsplit'
    rw [hsplits]
    by_cases hfollows : Follows start front c
    · obtain ⟨receiver', update, hread, hcontent, hsync⟩ := h.reads_publish hadm.1 hfollows
      have hrest := ih hsync hadm.2 (show _ ≤ turns by omega)
      rw [drain_reads hread hne, ← hrest]
      simp [hcontent, hfollows]
    · -- The first call that does not follow is where what arrives goes wrong.
      refine iff_of_false ?_ fun hall => hfollows hall.1
      rintro ⟨hcontents, hsome⟩
      cases hbytes : (sender.publish c).2 ++ sentBytes (sender.publish c).1 back with
      | nil => exact hne (List.append_eq_nil_iff.mp hbytes).1
      | cons b bytes =>
        rw [hbytes, drain_cons] at hcontents hsome
        cases hmessage : receiver.processOneMessage (b :: bytes) with
        | mk result rest =>
          rw [hmessage] at hcontents hsome
          cases result with
          | none => cases hsome
          | some result =>
            rw [← hbytes] at hmessage
            obtain ⟨u, hgiven, hdiffers⟩ := h.content_ne hfollows hmessage
            simp only [hgiven, List.map_cons, List.cons_append, List.nil_append] at hcontents
            exact hdiffers (List.cons.inj hcontents).1

end Sync

theorem length_keysOf_le (calls : List Call) : (keysOf calls).length ≤ calls.length := by
  induction calls using List.reverseRecOn with
  | nil => exact le_rfl
  | append_singleton calls c ih =>
    rw [keysOf_concat, List.length_append, List.length_singleton]
    split
    · exact ih.trans (Nat.le_succ _)
    · rw [List.length_append, List.length_singleton]
      exact Nat.succ_le_succ ih

/-- From a freshly connected instance, calls that give every key one type are in step, as long as
they are no more than there are ids. -/
theorem inStep_of_types {calls : List Call}
    (htypes : ∀ a ∈ calls, ∀ b ∈ calls, a.key = b.key → a.typeId = b.typeId)
    (hfew : calls.length ≤ 65536) : InStep {} calls := by
  rintro front c back rfl
  refine ⟨rfl, fun hold => ⟨?_, ?_⟩⟩
  · obtain ⟨typeId, htype⟩ := exists_firstTypeId hold
    obtain ⟨first, hfirst, rfl⟩ := Option.map_eq_some_iff.mp htype
    have hkey : first.key = c.key := by simpa using List.find?_some hfirst
    rw [htype, htypes first (List.mem_append_left _ (List.mem_of_find?_eq_some hfirst)) c
      (List.mem_append_right _ List.mem_cons_self) hkey]
  · have hlength := length_keysOf_le front
    rw [List.length_append] at hfew
    omega

/-- What a connected instance publishes arrives exactly if it knew none of the keys before, every
later value of a key has the type of its first, and its id was not given to a later key. -/
theorem arrives_iff_inStep (inst : Instance) (calls : List Call)
    (h : ∀ c ∈ calls, c.Admissible) : Arrives inst calls ↔ InStep inst calls := by
  rw [Arrives, received, (inSync_nil inst).drain_iff h le_rfl]
  rfl

def keyA : CString := ⟨[0x41], by decide⟩

def keyB : CString := ⟨[0x42], by decide⟩

theorem admissible_bool {key : CString} (hpre : kPrefix.isPrefixOf key.bytes = false)
    (hlength : key.bytes.length ≤ 60000) (value : Int32) : (Call.bool key value).Admissible :=
  ⟨hpre, hlength, fun _ _ h => by cases h⟩

theorem admissible_double {key : CString} (hpre : kPrefix.isPrefixOf key.bytes = false)
    (hlength : key.bytes.length ≤ 60000) (value : DoubleBits) :
    (Call.double key value).Admissible :=
  ⟨hpre, hlength, fun _ _ h => by cases h⟩

theorem arrives_of_two_keys :
    Arrives {} [.bool keyA 1, .double keyB 0, .bool keyA 0] :=
  (arrives_iff_inStep {} [.bool keyA 1, .double keyB 0, .bool keyA 0] (by
    simp only [List.forall_mem_cons]
    exact ⟨admissible_bool (by decide) (by decide) 1, admissible_double (by decide) (by decide) 0,
      admissible_bool (by decide) (by decide) 0, fun _ h => by cases h⟩)).mpr
    (inStep_of_types (by decide) (by decide))

/-- A double under a key that was first a boolean is read as a boolean, and its second byte as a
message. -/
theorem double_after_bool_is_lost :
    ¬ ∀ (inst : Instance) (calls : List Call),
        (∀ c ∈ calls, c.Admissible) → Arrives inst calls := by
  intro h
  have harrives := h {} [.bool keyA 1, .double keyA 0x3FF0000000000000] (by
    simp only [List.forall_mem_cons]
    exact ⟨admissible_bool (by decide) (by decide) 1,
      admissible_double (by decide) (by decide) _, fun _ h => by cases h⟩)
  revert harrives
  unfold Arrives
  decide

end SmartDashboard.LegacyNt
