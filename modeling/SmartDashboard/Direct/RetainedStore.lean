import Mathlib.Data.List.TakeWhile
import SmartDashboard.Direct.Ring

/-!
# The retained store

A table of latest values in shared memory, one fixed-size entry for each key. A write takes the
entry of its key, else a free one, else the one with the lowest sequence number; keys and texts are
cut to the arrays they are kept in and end at their first NUL.

## Main definitions

- `RetainedEntry`, `RetainedStore`: the table
- `put`, `tryGet`: its operations
- `Storable`: the keys and values that the arrays can hold
-/

namespace SmartDashboard.Direct

/-- A value together with its type, as the calls of the client take and give them. -/
inductive TypedValue
  | bool (value : Bool)
  | double (value : DoubleBits)
  | string (value : ByteString)
  | stringArray (value : List ByteString)
  deriving DecidableEq, Repr

namespace TypedValue

def type : TypedValue → ValueType
  | .bool _ => .bool
  | .double _ => .double
  | .string _ => .string
  | .stringArray _ => .stringArray

/-- An update carries the value in the field of its type. -/
def toValue : TypedValue → VariableValue
  | .bool value => { boolValue := value }
  | .double value => { doubleValue := value }
  | .string value => { stringValue := value }
  | .stringArray value => { stringArrayValue := value }

end TypedValue

def VariableValue.readAs (value : VariableValue) : ValueType → TypedValue
  | .bool => .bool value.boolValue
  | .double => .double value.doubleValue
  | .string => .string value.stringValue
  | .stringArray => .stringArray value.stringArrayValue

@[simp] theorem TypedValue.readAs_toValue (value : TypedValue) :
    value.toValue.readAs value.type = value := by
  cases value <;> rfl

def kMaxKeyBytes : ℕ := 191

def kMaxStringBytes : ℕ := 511

/-- What a reader of a `char` array with these bytes in front of its terminator sees. -/
def cString (bytes : ByteString) : ByteString := bytes.takeWhile fun b => b ≠ 0

/-- The character between the items of a string array. -/
def itemSeparator : UInt8 := 0x1f

/-- The arrays are given by the bytes in front of the terminator that was written; of the union
and the array of items an entry uses what its type says. -/
structure RetainedEntry where
  occupied : Bool := false
  type : UInt8 := 0
  seq : UInt64 := 0
  sourceTimestampUs : UInt64 := 0
  key : ByteString := []
  boolValue : Bool := false
  doubleValue : DoubleBits := 0
  stringValue : ByteString := []
  stringArrayValue : ByteString := []
  deriving DecidableEq, Repr

namespace RetainedEntry

def ofUpdate (update : VariableUpdate) : RetainedEntry :=
  let entry : RetainedEntry :=
    { occupied := true
      type := toWireType update.type
      seq := update.seq
      sourceTimestampUs := update.sourceTimestampUs
      key := update.key.take kMaxKeyBytes }
  match update.type with
  | .bool => { entry with boolValue := update.value.boolValue }
  | .double => { entry with doubleValue := update.value.doubleValue }
  | .stringArray =>
    let joined := [itemSeparator].intercalate update.value.stringArrayValue
    { entry with stringArrayValue := joined.take kMaxStringBytes }
  | .string => { entry with stringValue := update.value.stringValue.take kMaxStringBytes }

def hasKey (entry : RetainedEntry) (key : ByteString) : Bool :=
  entry.occupied ∧ cString entry.key = key

def readAs (entry : RetainedEntry) : ValueType → TypedValue
  | .bool => .bool entry.boolValue
  | .double => .double entry.doubleValue
  | .stringArray => .stringArray ((cString entry.stringArrayValue).splitOn itemSeparator)
  | .string => .string (cString entry.stringValue)

@[simp] theorem occupied_ofUpdate (update : VariableUpdate) :
    (ofUpdate update).occupied = true := by
  unfold ofUpdate
  split <;> rfl

@[simp] theorem type_ofUpdate (update : VariableUpdate) :
    (ofUpdate update).type = toWireType update.type := by
  unfold ofUpdate
  split <;> simp [*]

@[simp] theorem key_ofUpdate (update : VariableUpdate) :
    (ofUpdate update).key = update.key.take kMaxKeyBytes := by
  unfold ofUpdate
  split <;> rfl

end RetainedEntry

/-- The open store. There are at least 16 entries, and a key has to leave room for the
terminator. -/
structure RetainedStore where
  entries : List RetainedEntry
  entries_ne_nil : entries ≠ []
  key_fits : ∀ entry ∈ entries, entry.key.length ≤ kMaxKeyBytes

/-- The variables of the loop in `Put`. -/
structure Scan where
  found : Option ℕ := none
  freeIdx : Option ℕ := none
  oldestSeq : UInt64 := 0xFFFFFFFFFFFFFFFF
  oldestIdx : ℕ := 0

namespace Scan

def index (scan : Scan) : ℕ := scan.found.getD (scan.freeIdx.getD scan.oldestIdx)

/-- The loop from the entry with number `i` on; it ends at the first entry of the key. -/
def loop (key : ByteString) : ℕ → List RetainedEntry → Scan → Scan
  | _, [], scan => scan
  | i, entry :: rest, scan =>
    if entry.occupied = false then
      loop key (i + 1) rest { scan with freeIdx := scan.freeIdx.or (some i) }
    else
      let scan :=
        if entry.seq < scan.oldestSeq then { scan with oldestSeq := entry.seq, oldestIdx := i }
        else scan
      if cString entry.key = key then { scan with found := some i }
      else loop key (i + 1) rest scan

end Scan

namespace RetainedStore

/-- The store of `maxEntries` entries that `OpenOrCreate` clears. -/
def empty (maxEntries : ℕ) : RetainedStore where
  entries := List.replicate (max 16 maxEntries) {}
  entries_ne_nil := by simp
  key_fits entry hentry := by
    rw [List.eq_of_mem_replicate hentry]
    exact Nat.zero_le _

def slot (store : RetainedStore) (key : ByteString) : ℕ :=
  (Scan.loop key 0 store.entries {}).index

def put (store : RetainedStore) (update : VariableUpdate) : RetainedStore where
  entries := store.entries.set (store.slot update.key) (.ofUpdate update)
  entries_ne_nil := by
    rw [ne_eq, List.set_eq_nil_iff]
    exact store.entries_ne_nil
  key_fits entry hentry := by
    rcases List.mem_or_eq_of_mem_set hentry with hold | rfl
    · exact store.key_fits entry hold
    · rw [RetainedEntry.key_ofUpdate]
      exact List.length_take_le _ _

def tryGet (store : RetainedStore) (key : ByteString) (type : ValueType) : Option TypedValue :=
  (store.entries.find? fun entry => entry.hasKey key && entry.type = toWireType type).map
    fun entry => entry.readAs type

end RetainedStore

/-! ### What the arrays hold -/

/-- A key or a text that its array holds as a whole. -/
def FitsArray (capacity : ℕ) (bytes : ByteString) : Prop := bytes.length ≤ capacity ∧ 0 ∉ bytes

instance (capacity : ℕ) (bytes : ByteString) : Decidable (FitsArray capacity bytes) :=
  inferInstanceAs (Decidable (_ ∧ _))

/-- The store gives the value of the key back as it was. -/
def Storable (key : ByteString) (value : TypedValue) : Prop :=
  FitsArray kMaxKeyBytes key ∧
    match value with
    | .bool _ | .double _ => True
    | .string text => FitsArray kMaxStringBytes text
    | .stringArray items =>
      items ≠ [] ∧ FitsArray kMaxStringBytes ([itemSeparator].intercalate items) ∧
        ∀ item ∈ items, itemSeparator ∉ item

instance (key : ByteString) : ∀ value, Decidable (Storable key value)
  | .bool _ => inferInstanceAs (Decidable (_ ∧ True))
  | .double _ => inferInstanceAs (Decidable (_ ∧ True))
  | .string _ => inferInstanceAs (Decidable (_ ∧ FitsArray _ _))
  | .stringArray items =>
    inferInstanceAs (Decidable (_ ∧ items ≠ [] ∧ FitsArray _ _ ∧ ∀ item ∈ items, _))

theorem zero_notMem_cString (bytes : ByteString) : 0 ∉ cString bytes := by
  intro hzero
  have hne := List.mem_takeWhile_imp hzero
  simp at hne

theorem cString_eq_self_iff {bytes : ByteString} : cString bytes = bytes ↔ 0 ∉ bytes := by
  constructor
  · intro heq
    rw [← heq]
    exact zero_notMem_cString _
  · intro hzero
    rw [cString, List.takeWhile_eq_self_iff]
    intro b hb
    simpa using fun heq : b = 0 => hzero (heq ▸ hb)

theorem cString_take_eq_iff {capacity : ℕ} {bytes : ByteString} :
    cString (bytes.take capacity) = bytes ↔ FitsArray capacity bytes := by
  constructor
  · intro heq
    constructor
    · calc bytes.length = (cString (bytes.take capacity)).length := by rw [heq]
        _ ≤ (bytes.take capacity).length := (List.takeWhile_prefix _).length_le
        _ ≤ capacity := List.length_take_le _ _
    · rw [← heq]
      exact zero_notMem_cString _
  · rintro ⟨hlength, hzero⟩
    rw [List.take_of_length_le hlength, cString_eq_self_iff.mpr hzero]

theorem separator_notMem_of_mem_splitOn {bytes item : ByteString} {separator : UInt8}
    (h : item ∈ bytes.splitOn separator) : separator ∉ item := by
  induction bytes generalizing item with
  | nil =>
    rw [List.splitOn_nil, List.mem_singleton] at h
    simp [h]
  | cons b bytes ih =>
    rw [List.splitOn_cons_eq_if_modifyHead] at h
    split at h
    · rcases List.mem_cons.mp h with rfl | h
      · simp
      · exact ih h
    · next hne =>
      obtain ⟨first, rest, hsplit⟩ :=
        List.exists_cons_of_ne_nil (List.splitOn_ne_nil separator bytes)
      rw [hsplit] at ih h
      rw [List.modifyHead_cons] at h
      rcases List.mem_cons.mp h with rfl | h
      · have hfirst := ih List.mem_cons_self
        simpa [Ne.symm (by simpa using hne : b ≠ separator)] using hfirst
      · exact ih (List.mem_cons_of_mem _ h)

/-- Items come back from the array if they are not cut and can be told apart. -/
theorem splitOn_cString_eq_iff {items : List ByteString} :
    (cString (([itemSeparator].intercalate items).take kMaxStringBytes)).splitOn itemSeparator =
        items ↔
      items ≠ [] ∧ FitsArray kMaxStringBytes ([itemSeparator].intercalate items) ∧
        ∀ item ∈ items, itemSeparator ∉ item := by
  constructor
  · intro heq
    have hwhole := congrArg ([itemSeparator].intercalate ·) heq
    rw [List.intercalate_splitOn, cString_take_eq_iff] at hwhole
    refine ⟨?_, hwhole, fun item hitem => ?_⟩
    · rw [← heq]
      exact List.splitOn_ne_nil _ _
    · rw [← heq] at hitem
      exact separator_notMem_of_mem_splitOn hitem
  · rintro ⟨hne, hwhole, hitems⟩
    rw [cString_take_eq_iff.mpr hwhole, List.splitOn_intercalate itemSeparator hitems hne]

/-- An entry that was written for a value gives it back if nothing of it was lost. -/
theorem RetainedEntry.readAs_ofUpdate_iff {update : VariableUpdate} {value : TypedValue}
    (htype : update.type = value.type) (hvalue : update.value = value.toValue)
    (hkey : FitsArray kMaxKeyBytes update.key) :
    (RetainedEntry.ofUpdate update).readAs value.type = value ↔ Storable update.key value := by
  unfold Storable
  rw [and_iff_right hkey]
  cases value with
  | bool value => simp [RetainedEntry.ofUpdate, htype, hvalue, TypedValue.type,
      TypedValue.toValue, RetainedEntry.readAs]
  | double value => simp [RetainedEntry.ofUpdate, htype, hvalue, TypedValue.type,
      TypedValue.toValue, RetainedEntry.readAs]
  | string text =>
    simp only [RetainedEntry.ofUpdate, htype, hvalue, TypedValue.type, TypedValue.toValue,
      RetainedEntry.readAs, TypedValue.string.injEq]
    exact cString_take_eq_iff
  | stringArray items =>
    simp only [RetainedEntry.ofUpdate, htype, hvalue, TypedValue.type, TypedValue.toValue,
      RetainedEntry.readAs, TypedValue.stringArray.injEq]
    exact splitOn_cString_eq_iff

/-! ### What a write changes -/

/-- The entry that the loop finds is the first one of its key; if it finds none, there is none. -/
theorem Scan.loop_found {key : ByteString} (i : ℕ) (entries : List RetainedEntry) (scan : Scan)
    (hnone : scan.found = none) :
    (Scan.loop key i entries scan).found =
      (entries.findIdx? fun entry => entry.hasKey key).map (i + ·) := by
  induction entries generalizing i scan with
  | nil => simp [loop, hnone]
  | cons entry rest ih =>
    have hnext : ((rest.findIdx? fun entry => entry.hasKey key).map fun n => n + 1).map (i + ·) =
        (rest.findIdx? fun entry => entry.hasKey key).map (i + 1 + ·) := by
      rw [Option.map_map]
      congr 1
      funext n
      simp only [Function.comp_apply]
      omega
    rw [loop, List.findIdx?_cons]
    split
    · next hfree =>
      have hkey : entry.hasKey key = false := by simp [RetainedEntry.hasKey, hfree]
      rw [if_neg (by simp [hkey]), hnext]
      exact ih _ _ hnone
    · next hoccupied =>
      have hoccupied' : entry.occupied = true := by simpa using hoccupied
      by_cases hkey : cString entry.key = key
      · have hhas : entry.hasKey key = true := by simp [RetainedEntry.hasKey, hoccupied', hkey]
        simp only [hkey, hhas, if_true]
        rfl
      · have hhas : entry.hasKey key = false := by simp [RetainedEntry.hasKey, hkey]
        simp only [hkey, hhas, if_false, Bool.false_eq_true]
        rw [hnext]
        refine ih _ _ ?_
        split <;> exact hnone

theorem Scan.loop_index_lt {key : ByteString} (i : ℕ) (entries : List RetainedEntry) (scan : Scan)
    {n : ℕ} (hn : i + entries.length = n) (hfound : scan.found = none)
    (hfree : ∀ j ∈ scan.freeIdx, j < n) (holdest : scan.oldestIdx < n) :
    (Scan.loop key i entries scan).index < n := by
  induction entries generalizing i scan with
  | nil =>
    rw [loop, index, hfound, Option.getD_none]
    cases hidx : scan.freeIdx with
    | none => exact holdest
    | some j => exact hfree j hidx
  | cons entry rest ih =>
    rw [List.length_cons] at hn
    rw [loop]
    split
    · refine ih (i + 1) _ (by omega) hfound ?_ holdest
      intro j hj
      cases hidx : scan.freeIdx with
      | none =>
        rw [hidx, Option.none_or] at hj
        cases hj
        omega
      | some j' =>
        rw [hidx, Option.some_or] at hj
        cases hj
        exact hfree _ hidx
    · dsimp only
      split
      · rw [index, Option.getD_some]
        omega
      · refine ih (i + 1) _ (by omega) ?_ ?_ ?_
        · split <;> exact hfound
        · split <;> exact hfree
        · split
          · dsimp only
            omega
          · exact holdest

namespace RetainedStore

variable (store : RetainedStore)

theorem slot_lt (key : ByteString) : store.slot key < store.entries.length := by
  refine Scan.loop_index_lt 0 store.entries {} (Nat.zero_add _) rfl ?_ ?_
  · intro j hj
    cases hj
  · exact List.length_pos_iff.mpr store.entries_ne_nil

/-- No entry in front of the slot of a key has the key. -/
theorem hasKey_eq_false_of_lt_slot {key : ByteString} {j : ℕ} (hj : j < store.slot key)
    (hlength : j < store.entries.length) : store.entries[j].hasKey key = false := by
  have hfound : (Scan.loop key 0 store.entries {}).found =
      (store.entries.findIdx? fun entry => entry.hasKey key).map (0 + ·) :=
    Scan.loop_found 0 store.entries {} rfl
  cases hidx : store.entries.findIdx? fun entry => entry.hasKey key with
  | none =>
    rw [List.findIdx?_eq_none_iff] at hidx
    exact hidx _ (List.getElem_mem hlength)
  | some i =>
    rw [hidx, Option.map_some, Nat.zero_add] at hfound
    rw [slot, Scan.index, hfound, Option.getD_some] at hj
    obtain ⟨_, _, hbefore⟩ := List.findIdx?_eq_some_iff_getElem.mp hidx
    simpa using hbefore j hj

/-- After a write the key is looked up in the entry written, if its array holds it. -/
theorem tryGet_put (update : VariableUpdate) :
    (store.put update).tryGet update.key update.type =
      if FitsArray kMaxKeyBytes update.key then
        some ((RetainedEntry.ofUpdate update).readAs update.type)
      else none := by
  split
  · next hkey =>
    have hhas : ((RetainedEntry.ofUpdate update).hasKey update.key &&
        (RetainedEntry.ofUpdate update).type = toWireType update.type) = true := by
      simp [RetainedEntry.hasKey, cString_take_eq_iff.mpr hkey]
    have hset : (store.put update).entries =
        store.entries.take (store.slot update.key) ++
          RetainedEntry.ofUpdate update :: store.entries.drop (store.slot update.key + 1) :=
      List.set_eq_take_append_cons_drop .. |>.trans (if_pos (store.slot_lt update.key))
    have hbefore : (store.entries.take (store.slot update.key)).find? (fun entry =>
        entry.hasKey update.key && entry.type = toWireType update.type) = none := by
      rw [List.find?_eq_none]
      intro entry hentry
      obtain ⟨j, hj, rfl⟩ := List.mem_take_iff_getElem.mp hentry
      rw [store.hasKey_eq_false_of_lt_slot (by omega) (by omega)]
      simp
    rw [tryGet, hset, List.find?_append, hbefore, Option.none_or, List.find?_cons, hhas]
    rfl
  · next hkey =>
    rw [tryGet, Option.map_eq_none_iff, List.find?_eq_none]
    intro entry hentry hmatch
    rw [Bool.and_eq_true, RetainedEntry.hasKey, decide_eq_true_eq] at hmatch
    refine hkey ?_
    rw [← hmatch.1.2]
    exact ⟨(List.takeWhile_prefix _).length_le.trans ((store.put update).key_fits entry hentry),
      zero_notMem_cString _⟩

end RetainedStore

end SmartDashboard.Direct
