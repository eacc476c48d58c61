import Mathlib.Data.Fintype.Basic
import SmartDashboard.Direct.RetainedFile
import SmartDashboard.Direct.RetainedMap
import SmartDashboard.Library.Execution

/-!
# The retained store in its processes

The objects of several processes that share the table of one mapping. The mapping is there while
one of them has it open; the first to open it again fills it from the file that the last write left.

## Main definitions

- `RetainedSystem`: the mapping, the objects and the files
- `openOrCreate`, `close`, `put`: the calls
- `Sound`: what holds of the table and of the files
-/

namespace SmartDashboard.Direct

open Execution
open RetainedEntry (survivors)
open TextMode (controlZ)

/-- No path stands for a store that is not persisted. -/
structure RetainedStoreConfig where
  persistenceFilePath : ByteString := []
  maxEntries : ℕ := 512
  deriving DecidableEq, Repr

structure RetainedSystem (κ : Type*) where
  mapping : Option RetainedStore := none
  opened : κ → Option RetainedStoreConfig := fun _ => none
  files : ByteString → Option ByteString := fun _ => none

/-- `mapped` says whether the mapping and the mutex could be had, `fileOpens` whether the file could
be opened. -/
inductive StoreCall (κ : Type*)
  | openOrCreate (c : κ) (config : RetainedStoreConfig) (mapped : Bool)
  | put (c : κ) (update : VariableUpdate) (fileOpens : Bool)
  | close (c : κ)

namespace RetainedSystem

variable {κ : Type*} [Fintype κ] [DecidableEq κ] (doubles : DoubleText)

def close (s : RetainedSystem κ) (c : κ) : RetainedSystem κ :=
  { s with
    opened := Function.update s.opened c none
    mapping := if ∃ other, other ≠ c ∧ (s.opened other).isSome then s.mapping else none }

/-- The table behind the mapping, cleared if it is new or has another size. -/
def attachTable (s : RetainedSystem κ) (maxEntries : ℕ) : RetainedStore :=
  match s.mapping with
  | some store =>
    if store.entries.length = max 16 maxEntries then store else .empty maxEntries
  | none => .empty maxEntries

/-- An empty table is filled from the file, if there is one. -/
def loadIfEmpty (s : RetainedSystem κ) (path : ByteString) (table : RetainedStore) :
    Option RetainedStore :=
  if table.occupiedEntries = [] ∧ path ≠ [] then
    match s.files path with
    | some file => table.loadLocked doubles file
    | none => some table
  else some table

/-- There is no next state if loading throws. -/
def openOrCreate (s : RetainedSystem κ) (c : κ) (config : RetainedStoreConfig) (mapped : Bool) :
    Option (RetainedSystem κ) :=
  let s := s.close c
  if mapped then
    (s.loadIfEmpty doubles config.persistenceFilePath (s.attachTable config.maxEntries)).map
      fun table =>
        { s with mapping := some table, opened := Function.update s.opened c (some config) }
  else some s

/-- The write and whether it was persisted. -/
def put (s : RetainedSystem κ) (c : κ) (update : VariableUpdate) (fileOpens : Bool) :
    RetainedSystem κ × Bool :=
  match s.opened c, s.mapping with
  | some config, some store =>
    let path := config.persistenceFilePath
    let store := store.put update
    if path = [] then ({ s with mapping := some store }, true)
    else if fileOpens then
      ({ s with
          mapping := some store
          files := Function.update s.files path (some (store.persistLocked doubles)) }, true)
    else ({ s with mapping := some store }, false)
  | _, _ => (s, false)

def next (s : RetainedSystem κ) : StoreCall κ → Option (RetainedSystem κ)
  | .openOrCreate c config mapped => s.openOrCreate doubles c config mapped
  | .put c update fileOpens => some (s.put doubles c update fileOpens).1
  | .close c => some (s.close c)

/-- What is written into an open store is not changed by the arrays. -/
def WritesIntact (s : RetainedSystem κ) : StoreCall κ → Prop
  | .put c update _ => (s.opened c).isSome → update.Intact
  | .openOrCreate .. | .close _ => True

instance (s : RetainedSystem κ) : DecidablePred s.WritesIntact
  | .put c update _ => inferInstanceAs (Decidable ((s.opened c).isSome → update.Intact))
  | .openOrCreate .. => isTrue trivial
  | .close _ => isTrue trivial

end RetainedSystem

/-! ### Sound tables -/

namespace RetainedStore

variable {doubles : DoubleText} {store : RetainedStore}

theorem uniqueKeys_iff :
    store.UniqueKeys ↔ (store.occupiedEntries.map fun entry => cString entry.key).Nodup := by
  rw [List.Nodup, List.pairwise_map, occupiedEntries, List.pairwise_filter]
  rfl

/-- Every key is there once, and every entry can be written and read. -/
structure Sound (doubles : DoubleText) (store : RetainedStore) : Prop where
  unique : store.UniqueKeys
  readable : ∀ entry ∈ store.occupiedEntries, entry.Readable doubles

theorem occupiedEntries_empty (maxEntries : ℕ) : (empty maxEntries).occupiedEntries = [] := by
  rw [occupiedEntries, List.filter_eq_nil_iff]
  intro entry hentry
  rw [List.eq_of_mem_replicate hentry]
  exact Bool.false_ne_true

theorem sound_of_occupiedEntries_eq_nil (h : store.occupiedEntries = []) : store.Sound doubles where
  unique := by rw [uniqueKeys_iff, h]; exact List.nodup_nil
  readable entry hentry := by rw [h] at hentry; cases hentry

/-- What an intact update is written as has no NUL in its arrays. -/
theorem asWritten_ofUpdate {update : VariableUpdate} (h : update.Intact) :
    (RetainedEntry.ofUpdate update).AsWritten := by
  obtain ⟨hkey, hvalue⟩ := h
  have hkey' : FitsArray kMaxKeyBytes (update.key.take kMaxKeyBytes) := by
    rwa [List.take_of_length_le hkey.1]
  have hnil : FitsArray kMaxStringBytes [] := ⟨Nat.zero_le _, by simp⟩
  rw [VariableUpdate.typedValue] at hvalue
  cases htype : update.type with
  | bool | double =>
    simp only [RetainedEntry.ofUpdate, htype]
    exact ⟨rfl, hkey', hnil, hnil, by simp, by simp, by simp, by simp⟩
  | string =>
    rw [htype] at hvalue
    simp only [RetainedEntry.ofUpdate, htype]
    have htext : FitsArray kMaxStringBytes (update.value.stringValue.take kMaxStringBytes) :=
      ⟨List.length_take_le _ _, hvalue⟩
    exact ⟨rfl, hkey', htext, hnil, by simp, by simp, by simp [toWireType], by simp⟩
  | stringArray =>
    rw [htype] at hvalue
    simp only [RetainedEntry.ofUpdate, htype]
    have hitems : FitsArray kMaxStringBytes
        (([itemSeparator].intercalate update.value.stringArrayValue).take kMaxStringBytes) := by
      refine ⟨List.length_take_le _ _, ?_⟩
      rw [take_intercalate, mem_intercalate (by decide)]
      rintro ⟨item, hitem, hzero⟩
      exact (hvalue.2 item hitem).1 hzero
    exact ⟨rfl, hkey', hnil, hitems, by simp, by simp, by simp, by simp⟩

theorem Sound.put (hdoubles : ∀ value, doubles.Legible value) (h : store.Sound doubles)
    {update : VariableUpdate} (hintact : update.Intact) : (store.put update).Sound doubles where
  unique := h.unique.put hintact.1
  readable entry hentry := by
    rw [occupiedEntries, List.mem_filter] at hentry
    obtain ⟨hmem, hoccupied⟩ := hentry
    rcases List.mem_or_eq_of_mem_set hmem with hold | rfl
    · exact h.readable entry (List.mem_filter.mpr ⟨hold, hoccupied⟩)
    · exact ⟨asWritten_ofUpdate hintact, fun _ => hdoubles _⟩

/-- A table that is read from the file of a sound one is sound. -/
theorem Sound.loadLocked (hdoubles : ∀ value, doubles.Legible value) (h : store.Sound doubles)
    (table : RetainedStore) :
    ∃ loaded, table.loadLocked doubles (store.persistLocked doubles) = some loaded ∧
      loaded.Sound doubles := by
  obtain ⟨loaded, hload, hentries⟩ := store.loadLocked_persistLocked table h.readable
  refine ⟨loaded, hload, ?_, ?_⟩
  · have hkeys : (loaded.occupiedEntries.map fun entry => cString entry.key) =
        (((survivors store.occupiedEntries).take table.entries.length).map
          RetainedEntry.key).map cString := by
      rw [hentries, List.map_map, List.map_map]
      exact List.map_congr_left fun entry _ =>
        congrArg cString (RetainedEntry.key_reread doubles entry)
    -- Only keys that were written come back, and each at most once.
    have hsublist := ((List.take_sublist table.entries.length (survivors store.occupiedEntries)).map
      RetainedEntry.key).trans (RetainedEntry.map_key_survivors_sublist store.occupiedEntries)
    have hunique := uniqueKeys_iff.mp h.unique
    rw [uniqueKeys_iff, hkeys]
    refine (hsublist.map cString).nodup ?_
    rwa [List.map_map]
  · rw [hentries]
    intro entry hentry
    obtain ⟨entry, hmem, rfl⟩ := List.mem_map.mp hentry
    have hreadable := RetainedEntry.readable_of_mem_survivors h.readable entry
      (List.mem_of_mem_take hmem)
    exact ⟨hreadable.1.reread doubles, fun _ => hdoubles _⟩

end RetainedStore

namespace RetainedSystem

variable {κ : Type*} {doubles : DoubleText} {s : RetainedSystem κ}

/-- The table is sound, and every file was written for a sound table. -/
structure Sound (doubles : DoubleText) (s : RetainedSystem κ) : Prop where
  table : ∀ store ∈ s.mapping, store.Sound doubles
  files : ∀ path, ∀ file ∈ s.files path,
    ∃ store : RetainedStore, store.Sound doubles ∧ file = store.persistLocked doubles

theorem Sound.attachTable (h : s.Sound doubles) (maxEntries : ℕ) :
    (s.attachTable maxEntries).Sound doubles := by
  have hempty : (RetainedStore.empty maxEntries).Sound doubles :=
    RetainedStore.sound_of_occupiedEntries_eq_nil (RetainedStore.occupiedEntries_empty maxEntries)
  rw [RetainedSystem.attachTable]
  cases hmapping : s.mapping with
  | none => exact hempty
  | some store =>
    dsimp only
    split_ifs
    · exact h.table store hmapping
    · exact hempty

/-- Loading does not throw, since nothing else writes the files. -/
theorem Sound.loadIfEmpty (hdoubles : ∀ value, doubles.Legible value) (h : s.Sound doubles)
    (path : ByteString) {table : RetainedStore} (htable : table.Sound doubles) :
    ∃ loaded, s.loadIfEmpty doubles path table = some loaded ∧ loaded.Sound doubles := by
  rw [RetainedSystem.loadIfEmpty]
  split_ifs
  · cases hfile : s.files path with
    | none => exact ⟨table, rfl, htable⟩
    | some file =>
      obtain ⟨store, hstore, rfl⟩ := h.files path file hfile
      exact hstore.loadLocked hdoubles table
  · exact ⟨table, rfl, htable⟩

theorem Sound.put (hdoubles : ∀ value, doubles.Legible value) (h : s.Sound doubles) {c : κ}
    {update : VariableUpdate} (hintact : (s.opened c).isSome → update.Intact) (fileOpens : Bool) :
    (s.put doubles c update fileOpens).1.Sound doubles := by
  rw [RetainedSystem.put]
  split
  · next config store hopened hmapping =>
    have hstore := (h.table store hmapping).put hdoubles (hintact (by rw [hopened]; rfl))
    have htable : ∀ store' ∈ some (store.put update), store'.Sound doubles := by
      intro store' hstore'
      obtain rfl := Option.some.inj hstore'
      exact hstore
    dsimp only
    split_ifs
    · exact ⟨htable, h.files⟩
    · refine ⟨htable, fun path file hfile => ?_⟩
      dsimp only at hfile
      by_cases hpath : path = config.persistenceFilePath
      · rw [hpath, Function.update_self] at hfile
        obtain rfl := Option.some.inj hfile
        exact ⟨_, hstore, rfl⟩
      · rw [Function.update_of_ne hpath] at hfile
        exact h.files path file hfile
    · exact ⟨htable, h.files⟩
  · exact h

variable [Fintype κ] [DecidableEq κ]

theorem Sound.close (h : s.Sound doubles) (c : κ) : (s.close c).Sound doubles where
  table store hstore := by
    rw [RetainedSystem.close] at hstore
    dsimp only at hstore
    split_ifs at hstore
    · exact h.table store hstore
    · cases hstore
  files := h.files

theorem Sound.openOrCreate (hdoubles : ∀ value, doubles.Legible value) (h : s.Sound doubles) (c : κ)
    (config : RetainedStoreConfig) (mapped : Bool) :
    ∃ s', s.openOrCreate doubles c config mapped = some s' ∧ s'.Sound doubles := by
  have hclosed := h.close c
  rw [RetainedSystem.openOrCreate]
  split_ifs
  · obtain ⟨loaded, hload, hloaded⟩ := hclosed.loadIfEmpty hdoubles config.persistenceFilePath
      (hclosed.attachTable config.maxEntries)
    rw [hload]
    refine ⟨_, rfl, fun store hstore => ?_, hclosed.files⟩
    obtain rfl := Option.some.inj hstore
    exact hloaded
  · exact ⟨_, rfl, hclosed⟩

theorem Sound.next (hdoubles : ∀ value, doubles.Legible value) (h : s.Sound doubles)
    {call : StoreCall κ} (hintact : s.WritesIntact call) :
    ∃ s', s.next doubles call = some s' ∧ s'.Sound doubles := by
  cases call with
  | openOrCreate c config mapped => exact h.openOrCreate hdoubles c config mapped
  | put c update fileOpens => exact ⟨_, rfl, h.put hdoubles hintact fileOpens⟩
  | close c => exact ⟨_, rfl, h.close c⟩

/-- After any calls that write what the arrays do not change, no two entries have the same key, and
a write keeps its promise exactly if the arrays do not change what it writes. -/
theorem run_boundedMap (hdoubles : ∀ value, doubles.Legible value) {calls : List (StoreCall κ)}
    (hintact : EveryStep (next doubles) WritesIntact {} calls) :
    ∃ s, run (next doubles) {} calls = some s ∧ ∀ store ∈ s.mapping, store.UniqueKeys ∧
      ∀ update, store.PutMeets update ↔ update.Intact := by
  have hstart : Sound doubles ({} : RetainedSystem κ) :=
    ⟨by rintro _ ⟨⟩, by rintro _ _ ⟨⟩⟩
  obtain ⟨s, hrun, hsound⟩ := exists_run_of_everyStep
    (fun _ _ hs hcall => hs.next hdoubles hcall) hstart hintact
  refine ⟨s, hrun, fun store hstore => ?_⟩
  have hunique := (hsound.table store hstore).unique
  exact ⟨hunique, fun update => hunique.putMeets_iff⟩

def testValue : ByteString := "Test/Value".toUTF8.toList

def valueUpdate (key : ByteString) (seq : UInt64) (value : TypedValue) : VariableUpdate :=
  { key := key, type := value.type, value := value.toValue, seq := seq, sourceTimestampUs := 0 }

/-- A client writes, and the next one finds its file. -/
def restart : List (StoreCall Unit) :=
  [.openOrCreate () { persistenceFilePath := testValue } true,
    .put () (valueUpdate testValue 1 (.double 0x3FE0000000000000)) true,
    .put () (valueUpdate testValue 2 (.stringArray [testValue, []])) true,
    .openOrCreate () { persistenceFilePath := testValue } true,
    .put () (valueUpdate testValue 3 (.string testValue)) false]

theorem halfText_legible (value : DoubleBits) : RetainedStore.halfText.Legible value := by
  have hclean : ∀ b ∈ "0.5".toUTF8.toList, needsEscape b = false ∧ b ≠ controlZ := by
    decide +kernel
  have hparse : (RetainedStore.halfText.parse "0.5".toUTF8.toList).isSome = true := by
    decide +kernel
  exact ⟨hparse, hclean⟩

theorem restart_boundedMap :
    ∃ s, run (next RetainedStore.halfText) {} restart = some s ∧
      ∀ store ∈ s.mapping, store.UniqueKeys ∧ ∀ update, store.PutMeets update ↔ update.Intact :=
  run_boundedMap halfText_legible (by decide +kernel)

/-- A key that does not fit its array. -/
def longKey : ByteString := List.replicate 192 0x61

def longKeyTwice : List (StoreCall Unit) :=
  [.openOrCreate () { maxEntries := 16 } true,
    .put () (valueUpdate longKey 1 (.bool true)) true,
    .put () (valueUpdate longKey 2 (.bool false)) true]

theorem longKeyTwice_not_boundedMap :
    ∃ store ∈ (run (next RetainedStore.halfText) {} longKeyTwice).bind RetainedSystem.mapping,
      ¬store.UniqueKeys ∧ store.tryGet longKey .bool = none := by
  decide +kernel

end RetainedSystem

end SmartDashboard.Direct
