import SmartDashboard.Direct.RetainedStore
import SmartDashboard.Library.Execution

/-!
# The client and its cache

`SmartDashboardClient` keeps the latest value of each key. A write of its own counts up `localSeq`,
while an update of the subscriber carries the number its publisher gave it, and the cache takes
what has the higher number. A read that the cache cannot answer in the type asked for goes to the
retained store. What a write publishes and whom it calls back is left out.

## Main definitions

- `SmartDashboardClient`, `handleUpdate`, `put`, `tryGet`, `get`: the client
- `putBoolean`, `tryGetBoolean`, `getBoolean` and so on: the same for each type
- `Keeps`: the writes that the client can read back
-/

namespace SmartDashboard.Direct

open Execution

structure CachedValue where
  type : ValueType
  value : VariableValue
  seq : UInt64
  deriving DecidableEq, Repr

/-- `retainedStore` is there while the store is open. -/
structure SmartDashboardClient where
  enableRetainedStore : Bool := true
  retainedStore : Option RetainedStore := none
  localSeq : UInt64 := 1
  cache : ByteString → Option CachedValue := fun _ => none

namespace SmartDashboardClient

/-- The cache takes the first value of a key, and then what is not older or has no number. -/
def updateCache (client : SmartDashboardClient) (update : VariableUpdate) : SmartDashboardClient :=
  let cached : CachedValue := { type := update.type, value := update.value, seq := update.seq }
  match client.cache update.key with
  | none => { client with cache := Function.update client.cache update.key (some cached) }
  | some old =>
    if update.seq = 0 ∨ old.seq ≤ update.seq then
      { client with cache := Function.update client.cache update.key (some cached) }
    else client

def handleUpdate (client : SmartDashboardClient) (update : VariableUpdate) :
    SmartDashboardClient :=
  let updated := client.updateCache update
  if updated.enableRetainedStore then
    { updated with retainedStore := updated.retainedStore.map fun store => store.put update }
  else updated

/-- `nowUs` is the reading of `GetSteadyNowUs`. -/
def put (client : SmartDashboardClient) (key : ByteString) (value : TypedValue) (nowUs : UInt64) :
    SmartDashboardClient :=
  handleUpdate { client with localSeq := client.localSeq + 1 }
    { key := key
      type := value.type
      value := value.toValue
      seq := client.localSeq
      sourceTimestampUs := nowUs }

def tryReadCached (client : SmartDashboardClient) (key : ByteString) (type : ValueType) :
    Option TypedValue :=
  match client.cache key with
  | none => none
  | some cached => if cached.type = type then some (cached.value.readAs type) else none

def tryGet (client : SmartDashboardClient) (key : ByteString) (type : ValueType) :
    Option TypedValue :=
  match client.tryReadCached key type with
  | some value => some value
  | none =>
    if client.enableRetainedStore then
      client.retainedStore.bind fun store => store.tryGet key type
    else none

/-- The value of the key, or the default, which is written then. -/
def get (client : SmartDashboardClient) (key : ByteString) (defaultValue : TypedValue)
    (nowUs : UInt64) : SmartDashboardClient × TypedValue :=
  match client.tryGet key defaultValue.type with
  | some value => (client, value)
  | none => (client.put key defaultValue nowUs, defaultValue)

/-! The functions of the client, one for each type. -/

def putBoolean (client : SmartDashboardClient) (key : ByteString) (value : Bool) (nowUs : UInt64) :
    SmartDashboardClient :=
  client.put key (.bool value) nowUs

def putDouble (client : SmartDashboardClient) (key : ByteString) (value : DoubleBits)
    (nowUs : UInt64) : SmartDashboardClient :=
  client.put key (.double value) nowUs

def putString (client : SmartDashboardClient) (key value : ByteString) (nowUs : UInt64) :
    SmartDashboardClient :=
  client.put key (.string value) nowUs

def putStringArray (client : SmartDashboardClient) (key : ByteString) (value : List ByteString)
    (nowUs : UInt64) : SmartDashboardClient :=
  client.put key (.stringArray value) nowUs

def tryGetBoolean (client : SmartDashboardClient) (key : ByteString) : Option TypedValue :=
  client.tryGet key .bool

def tryGetDouble (client : SmartDashboardClient) (key : ByteString) : Option TypedValue :=
  client.tryGet key .double

def tryGetString (client : SmartDashboardClient) (key : ByteString) : Option TypedValue :=
  client.tryGet key .string

def tryGetStringArray (client : SmartDashboardClient) (key : ByteString) : Option TypedValue :=
  client.tryGet key .stringArray

def getBoolean (client : SmartDashboardClient) (key : ByteString) (defaultValue : Bool)
    (nowUs : UInt64) : SmartDashboardClient × TypedValue :=
  client.get key (.bool defaultValue) nowUs

def getDouble (client : SmartDashboardClient) (key : ByteString) (defaultValue : DoubleBits)
    (nowUs : UInt64) : SmartDashboardClient × TypedValue :=
  client.get key (.double defaultValue) nowUs

def getString (client : SmartDashboardClient) (key defaultValue : ByteString) (nowUs : UInt64) :
    SmartDashboardClient × TypedValue :=
  client.get key (.string defaultValue) nowUs

def getStringArray (client : SmartDashboardClient) (key : ByteString)
    (defaultValue : List ByteString) (nowUs : UInt64) : SmartDashboardClient × TypedValue :=
  client.get key (.stringArray defaultValue) nowUs

end SmartDashboardClient

/-- What is done with a client: its functions are called, or its subscriber hands it an update. -/
inductive ClientCall
  | putBoolean (key : ByteString) (value : Bool) (nowUs : UInt64)
  | putDouble (key : ByteString) (value : DoubleBits) (nowUs : UInt64)
  | putString (key value : ByteString) (nowUs : UInt64)
  | putStringArray (key : ByteString) (value : List ByteString) (nowUs : UInt64)
  | tryGetBoolean (key : ByteString)
  | tryGetDouble (key : ByteString)
  | tryGetString (key : ByteString)
  | tryGetStringArray (key : ByteString)
  | getBoolean (key : ByteString) (defaultValue : Bool) (nowUs : UInt64)
  | getDouble (key : ByteString) (defaultValue : DoubleBits) (nowUs : UInt64)
  | getString (key defaultValue : ByteString) (nowUs : UInt64)
  | getStringArray (key : ByteString) (defaultValue : List ByteString) (nowUs : UInt64)
  | handleUpdate (update : VariableUpdate)
  deriving DecidableEq, Repr

namespace ClientCall

/-- The key and the value of a write. -/
def written : ClientCall → Option (ByteString × TypedValue)
  | .putBoolean key value _ => some (key, .bool value)
  | .putDouble key value _ => some (key, .double value)
  | .putString key value _ => some (key, .string value)
  | .putStringArray key value _ => some (key, .stringArray value)
  | _ => none

/-- The key and the default of a read that may write it. -/
def defaulted : ClientCall → Option (ByteString × TypedValue)
  | .getBoolean key value _ => some (key, .bool value)
  | .getDouble key value _ => some (key, .double value)
  | .getString key value _ => some (key, .string value)
  | .getStringArray key value _ => some (key, .stringArray value)
  | _ => none

end ClientCall

namespace SmartDashboardClient

/-- A call, with what it returns if it reads. -/
def step (client : SmartDashboardClient) :
    ClientCall → SmartDashboardClient × Option TypedValue
  | .putBoolean key value nowUs => (client.putBoolean key value nowUs, none)
  | .putDouble key value nowUs => (client.putDouble key value nowUs, none)
  | .putString key value nowUs => (client.putString key value nowUs, none)
  | .putStringArray key value nowUs => (client.putStringArray key value nowUs, none)
  | .tryGetBoolean key => (client, client.tryGetBoolean key)
  | .tryGetDouble key => (client, client.tryGetDouble key)
  | .tryGetString key => (client, client.tryGetString key)
  | .tryGetStringArray key => (client, client.tryGetStringArray key)
  | .getBoolean key value nowUs => (client.getBoolean key value nowUs).map id some
  | .getDouble key value nowUs => (client.getDouble key value nowUs).map id some
  | .getString key value nowUs => (client.getString key value nowUs).map id some
  | .getStringArray key value nowUs => (client.getStringArray key value nowUs).map id some
  | .handleUpdate update => (client.handleUpdate update, none)

/-- The client can read a write of this value back. What the cache has of the key is not newer, or
it is the same value, or it has another type and the retained store can hold the value. -/
def Keeps (client : SmartDashboardClient) (key : ByteString) (value : TypedValue) : Prop :=
  ∀ cached ∈ client.cache key, client.localSeq = 0 ∨ cached.seq ≤ client.localSeq ∨
    if cached.type = value.type then cached.value.readAs value.type = value
    else client.enableRetainedStore = true ∧ client.retainedStore.isSome ∧ Storable key value

instance (client : SmartDashboardClient) (key : ByteString) (value : TypedValue) :
    Decidable (client.Keeps key value) :=
  inferInstanceAs (Decidable (∀ cached ∈ client.cache key, _))

/-! ### Reading back -/

section ReadBack

variable {client : SmartDashboardClient} {key : ByteString} {value : TypedValue}
  {update : VariableUpdate} {nowUs : UInt64}

theorem updateCache_frame (client : SmartDashboardClient) (update : VariableUpdate) :
    (client.updateCache update).enableRetainedStore = client.enableRetainedStore ∧
      (client.updateCache update).retainedStore = client.retainedStore := by
  unfold updateCache
  split
  · exact ⟨rfl, rfl⟩
  · split <;> exact ⟨rfl, rfl⟩

/-- The cache has the update afterwards, or still something newer. -/
theorem cache_updateCache :
    (client.updateCache update).cache update.key =
      match client.cache update.key with
      | none => some { type := update.type, value := update.value, seq := update.seq }
      | some old =>
        if update.seq = 0 ∨ old.seq ≤ update.seq then
          some { type := update.type, value := update.value, seq := update.seq }
        else some old := by
  unfold updateCache
  cases hold : client.cache update.key with
  | none => exact Function.update_self ..
  | some old =>
    dsimp only
    split
    · exact Function.update_self ..
    · exact hold

theorem cache_handleUpdate :
    (client.handleUpdate update).cache = (client.updateCache update).cache := by
  unfold handleUpdate
  dsimp only
  split <;> rfl

theorem tryGet_of_cached {cached : CachedValue} {type : ValueType}
    (hcached : client.cache key = some cached) (htype : cached.type = type) :
    client.tryGet key type = some (cached.value.readAs type) := by
  have hread : client.tryReadCached key type = some (cached.value.readAs type) := by
    rw [tryReadCached, hcached]
    exact if_pos htype
  rw [tryGet, hread]

/-- Where the cache has another type, the store decides. -/
theorem tryGet_of_other {cached : CachedValue} {type : ValueType}
    (hcached : client.cache key = some cached) (htype : cached.type ≠ type) :
    client.tryGet key type =
      if client.enableRetainedStore then
        client.retainedStore.bind fun store => store.tryGet key type
      else none := by
  have hread : client.tryReadCached key type = none := by
    rw [tryReadCached, hcached]
    exact if_neg htype
  rw [tryGet, hread]

theorem store_tryGet_put_iff {store : RetainedStore} (htype : update.type = value.type)
    (hvalue : update.value = value.toValue) :
    (store.put update).tryGet update.key value.type = some value ↔
      Storable update.key value := by
  rw [← htype, store.tryGet_put, htype]
  split
  · next hkey =>
    rw [Option.some.injEq]
    exact RetainedEntry.readAs_ofUpdate_iff htype hvalue hkey
  · next hkey =>
    constructor
    · intro hsome
      cases hsome
    · exact fun hstorable => absurd hstorable.1 hkey

theorem cache_put (client : SmartDashboardClient) (key : ByteString) (value : TypedValue)
    (nowUs : UInt64) :
    (client.put key value nowUs).cache key =
      match client.cache key with
      | none => some { type := value.type, value := value.toValue, seq := client.localSeq }
      | some old =>
        if client.localSeq = 0 ∨ old.seq ≤ client.localSeq then
          some { type := value.type, value := value.toValue, seq := client.localSeq }
        else some old := by
  rw [put, cache_handleUpdate]
  exact cache_updateCache

theorem store_handleUpdate (client : SmartDashboardClient) (update : VariableUpdate) :
    (client.handleUpdate update).enableRetainedStore = client.enableRetainedStore ∧
      (client.enableRetainedStore = true → (client.handleUpdate update).retainedStore =
        client.retainedStore.map fun store => store.put update) := by
  obtain ⟨henable, hstore⟩ := client.updateCache_frame update
  unfold handleUpdate
  dsimp only
  rw [← henable, ← hstore]
  split
  · exact ⟨rfl, fun _ => rfl⟩
  · next hoff => exact ⟨rfl, fun hon => absurd hon hoff⟩

/-- A write that the cache did not take can be read from the store, if the cache has another
type. -/
theorem tryGet_put_of_older {old : CachedValue} (hold : client.cache key = some old)
    (hseq : ¬(client.localSeq = 0 ∨ old.seq ≤ client.localSeq)) :
    (client.put key value nowUs).tryGet key value.type = some value ↔
      if old.type = value.type then old.value.readAs value.type = value
      else client.enableRetainedStore = true ∧ client.retainedStore.isSome ∧
        Storable key value := by
  have hkept : (client.put key value nowUs).cache key = some old := by
    rw [cache_put, hold]
    exact if_neg hseq
  obtain ⟨henable, hstore⟩ := store_handleUpdate { client with localSeq := client.localSeq + 1 }
    { key := key, type := value.type, value := value.toValue, seq := client.localSeq
      sourceTimestampUs := nowUs }
  rw [← put] at henable hstore
  dsimp only at henable hstore
  by_cases htype : old.type = value.type
  · rw [if_pos htype, tryGet_of_cached hkept htype, Option.some.injEq]
  rw [if_neg htype, tryGet_of_other hkept htype, henable]
  split
  · next hon =>
    rw [hstore hon, and_iff_right hon]
    cases hopen : client.retainedStore with
    | none => simp
    | some store =>
      rw [Option.map_some, Option.bind_some, Option.isSome_some, and_iff_right rfl]
      exact store_tryGet_put_iff rfl rfl
  · next hoff => simp [hoff]

/-- A write is read back exactly if the client can keep it. -/
theorem tryGet_put_iff :
    (client.put key value nowUs).tryGet key value.type = some value ↔ client.Keeps key value := by
  cases hold : client.cache key with
  | none =>
    have hnew := client.cache_put key value nowUs
    rw [hold] at hnew
    rw [tryGet_of_cached hnew rfl, TypedValue.readAs_toValue]
    refine iff_of_true rfl fun cached hcached => ?_
    cases hold.symm.trans hcached
  | some old =>
    have hkeeps : client.Keeps key value ↔ client.localSeq = 0 ∨ old.seq ≤ client.localSeq ∨
        if old.type = value.type then old.value.readAs value.type = value
        else client.enableRetainedStore = true ∧ client.retainedStore.isSome ∧
          Storable key value := by
      simp [Keeps, hold]
    rw [hkeeps, ← or_assoc]
    by_cases hseq : client.localSeq = 0 ∨ old.seq ≤ client.localSeq
    · have hnew := client.cache_put key value nowUs
      simp only [hold, if_pos hseq] at hnew
      rw [tryGet_of_cached hnew rfl, TypedValue.readAs_toValue]
      exact iff_of_true rfl (.inl hseq)
    · rw [or_iff_right hseq]
      exact tryGet_put_of_older hold hseq

/-- A default that is returned is read afterwards, if it had not to be written or can be kept. -/
theorem tryGet_get_iff :
    (client.get key value nowUs).1.tryGet key value.type = some (client.get key value nowUs).2 ↔
      (client.tryGet key value.type = none → client.Keeps key value) := by
  cases hread : client.tryGet key value.type with
  | some read =>
    have hget : client.get key value nowUs = (client, read) := by rw [get, hread]
    rw [hget]
    exact iff_of_true hread (by simp)
  | none =>
    have hget : client.get key value nowUs = (client.put key value nowUs, value) := by
      rw [get, hread]
    rw [hget, tryGet_put_iff]
    simp

end ReadBack

/-! ### Runs -/

theorem step_of_written (client : SmartDashboardClient) {call : ClientCall} {key : ByteString}
    {value : TypedValue} (h : call.written = some (key, value)) :
    ∃ nowUs, (client.step call).1 = client.put key value nowUs := by
  cases call with
  | putBoolean _ _ nowUs | putDouble _ _ nowUs | putString _ _ nowUs | putStringArray _ _ nowUs =>
    cases h
    exact ⟨nowUs, rfl⟩
  | _ => cases h

theorem step_of_defaulted (client : SmartDashboardClient) {call : ClientCall} {key : ByteString}
    {value : TypedValue} (h : call.defaulted = some (key, value)) :
    ∃ nowUs, client.step call =
      ((client.get key value nowUs).1, some (client.get key value nowUs).2) := by
  cases call with
  | getBoolean _ _ nowUs | getDouble _ _ nowUs | getString _ _ nowUs | getStringArray _ _ nowUs =>
    cases h
    exact ⟨nowUs, rfl⟩
  | _ => cases h

/-- After a write the value written is read, and after a read with a default what that returned. -/
def ReadsBack (r : Record SmartDashboardClient ClientCall (Option TypedValue)) : Prop :=
  (∀ p ∈ r.input.written, (r.before.step r.input).1.tryGet p.1 p.2.type = some p.2) ∧
    ∀ p ∈ r.input.defaulted, (r.before.step r.input).1.tryGet p.1 p.2.type = r.output

instance (r : Record SmartDashboardClient ClientCall (Option TypedValue)) :
    Decidable (ReadsBack r) :=
  inferInstanceAs (Decidable ((∀ p ∈ r.input.written, _) ∧ ∀ p ∈ r.input.defaulted, _))

/-- The client can keep what the call writes. -/
def KeepsWritten (r : Record SmartDashboardClient ClientCall (Option TypedValue)) : Prop :=
  (∀ p ∈ r.input.written, r.before.Keeps p.1 p.2) ∧
    ∀ p ∈ r.input.defaulted, r.before.tryGet p.1 p.2.type = none → r.before.Keeps p.1 p.2

/-- In a run the writes are read back exactly where the client can keep them. -/
theorem reads_own_writes (client : SmartDashboardClient) (calls : List ClientCall) :
    (∀ r ∈ history step client calls, ReadsBack r) ↔
      ∀ r ∈ history step client calls, KeepsWritten r := by
  refine forall₂_congr fun r hr => ?_
  obtain ⟨front, call, _, _, rfl⟩ := exists_split_of_mem_history hr
  set before := after step client front
  have hwritten : ∀ p ∈ call.written,
      (before.step call).1.tryGet p.1 p.2.type = some p.2 ↔ before.Keeps p.1 p.2 := by
    rintro ⟨key, value⟩ hp
    obtain ⟨nowUs, hstep⟩ := before.step_of_written hp
    rw [hstep]
    exact tryGet_put_iff
  have hdefaulted : ∀ p ∈ call.defaulted,
      (before.step call).1.tryGet p.1 p.2.type = (before.step call).2 ↔
        (before.tryGet p.1 p.2.type = none → before.Keeps p.1 p.2) := by
    rintro ⟨key, value⟩ hp
    obtain ⟨nowUs, hstep⟩ := before.step_of_defaulted hp
    rw [hstep]
    exact tryGet_get_iff
  exact and_congr (forall₂_congr hwritten) (forall₂_congr hdefaulted)

def ready : ByteString := "Demo/Ready".toUTF8.toList

/-- An update of a publisher that has counted further than the client, and then a write. -/
def overtaken : List ClientCall :=
  [.handleUpdate
      { key := ready, type := .bool, value := { boolValue := true }, seq := 7
        sourceTimestampUs := 0 },
    .putBoolean ready false 0]

theorem overtaken_not_readsBack :
    ¬∀ r ∈ history step { retainedStore := some (.empty 1024) } overtaken, ReadsBack r := by
  intro h
  have hlast := h _ (List.mem_cons_of_mem _ List.mem_cons_self)
  have hread := hlast.1 (ready, .bool false) rfl
  revert hread
  decide +kernel

end SmartDashboardClient

end SmartDashboard.Direct
