import SmartDashboard.Direct.RetainedMap
import SmartDashboard.Direct.SmartDashboardClient

/-!
# The three views of a client

An update that reaches `HandleUpdate` goes to the cache, to the retained store and to the callbacks
of the key and type. The cache refuses what has a lower number than it has; the other two take
everything.

## Main definitions

- `SubscribedClient`: a client with its callbacks and what they were handed
- `ViewsAgree`: the store and the callbacks have what the cache has
- `Keeps`: the updates that keep the views together
-/

namespace SmartDashboard.Direct

open Execution

structure SubscriptionToken where
  key : ByteString
  type : ValueType
  id : ℕ
  deriving DecidableEq, Repr

/-- `passed` is what the callbacks were handed so far, in order. -/
structure SubscribedClient extends SmartDashboardClient where
  subscribers : ByteString → ValueType → List ℕ := fun _ _ => []
  passed : List (SubscriptionToken × TypedValue) := []

/-! ### What the store gives for a key -/

namespace RetainedStore

variable {store : RetainedStore} {key : ByteString} {type type' : ValueType}

theorem exists_of_tryGet (h : (store.tryGet key type).isSome) :
    ∃ entry ∈ store.entries, entry.hasKey key = true ∧ entry.type = toWireType type := by
  rw [tryGet, Option.isSome_map, Option.isSome_iff_exists] at h
  obtain ⟨entry, hentry⟩ := h
  have hfound := List.find?_some hentry
  rw [Bool.and_eq_true, decide_eq_true_eq] at hfound
  exact ⟨entry, List.mem_of_find?_eq_some hentry, hfound⟩

/-- A key that is read fits its array. -/
theorem fitsArray_of_tryGet (h : (store.tryGet key type).isSome) : FitsArray kMaxKeyBytes key := by
  obtain ⟨entry, hentry, hkey, -⟩ := exists_of_tryGet h
  rw [RetainedEntry.hasKey, decide_eq_true_eq] at hkey
  rw [← hkey.2]
  exact ⟨(List.takeWhile_prefix _).length_le.trans (store.key_fits entry hentry),
    zero_notMem_cString _⟩

/-- A key can be read in one type. -/
theorem UniqueKeys.type_eq (hunique : store.UniqueKeys) (h : (store.tryGet key type).isSome)
    (h' : (store.tryGet key type').isSome) : type = type' := by
  obtain ⟨entry, hentry, hkey, htype⟩ := exists_of_tryGet h
  obtain ⟨entry', hentry', hkey', htype'⟩ := exists_of_tryGet h'
  obtain ⟨i, hi, rfl⟩ := List.mem_iff_getElem.mp hentry
  obtain ⟨j, hj, rfl⟩ := List.mem_iff_getElem.mp hentry'
  obtain rfl := hunique.eq_of_hasKey hi hj hkey hkey'
  have hwire := htype.symm.trans htype'
  cases type <;> cases type' <;> first | rfl | exact absurd hwire (by decide)

/-- Only the value in the field of its type matters to an entry. -/
theorem ofUpdate_typedValue (update : VariableUpdate) :
    RetainedEntry.ofUpdate { update with value := update.typedValue.toValue } =
      RetainedEntry.ofUpdate update := by
  cases htype : update.type <;>
    simp [RetainedEntry.ofUpdate, VariableUpdate.typedValue, VariableValue.readAs,
      TypedValue.toValue, htype]

theorem tryGet_put_eq_iff (store : RetainedStore) (update : VariableUpdate) :
    (store.put update).tryGet update.key update.type = some update.typedValue ↔
      Storable update.key update.typedValue := by
  have htype : update.typedValue.type = update.type := by
    cases htype : update.type <;>
      simp [VariableUpdate.typedValue, VariableValue.readAs, TypedValue.type, htype]
  have hput : store.put { update with value := update.typedValue.toValue } = store.put update := by
    simp only [RetainedStore.put, ofUpdate_typedValue]
  let shown : VariableUpdate := { update with value := update.typedValue.toValue }
  have h : (store.put shown).tryGet update.key update.typedValue.type = some update.typedValue ↔
      Storable update.key update.typedValue :=
    @SmartDashboardClient.store_tryGet_put_iff _ shown store htype.symm rfl
  rwa [hput, htype] at h

end RetainedStore

namespace SubscribedClient

/-- The callbacks of the key for the type of the update, with the value they get. -/
def callbacks (client : SubscribedClient) (update : VariableUpdate) :
    List (SubscriptionToken × TypedValue) :=
  (client.subscribers update.key update.type).map fun id =>
    ({ key := update.key, type := update.type, id := id }, update.typedValue)

def step (client : SubscribedClient) (update : VariableUpdate) : SubscribedClient × Unit :=
  ({ client with
      toSmartDashboardClient := client.toSmartDashboardClient.handleUpdate update
      passed := client.passed ++ client.callbacks update }, ())

def lastPassed (client : SubscribedClient) (token : SubscriptionToken) : Option TypedValue :=
  client.passed.reverse.lookup token

def cachedValue (client : SubscribedClient) (key : ByteString) : Option TypedValue :=
  (client.cache key).map fun cached => cached.value.readAs cached.type

def retainedValue (client : SubscribedClient) (key : ByteString) (type : ValueType) :
    Option TypedValue :=
  client.retainedStore.bind fun store => store.tryGet key type

/-- What is cached of a key is what the store has of it and what the callbacks of its type were
handed last, and it can be read in one type only. -/
structure ViewsAgree (client : SubscribedClient) : Prop where
  stored : ∀ key, ∀ cached ∈ client.cache key,
    client.retainedValue key cached.type = client.cachedValue key
  passed : ∀ key, ∀ cached ∈ client.cache key, ∀ id ∈ client.subscribers key cached.type,
    client.lastPassed { key := key, type := cached.type, id := id } = client.cachedValue key
  single : ∀ key type type', (client.tryGet key type).isSome → (client.tryGet key type').isSome →
    type = type'

/-- An update that is older than what is cached changes nothing of its key. -/
def StaleIgnored (client : SubscribedClient) (update : VariableUpdate) : Prop :=
  (∃ cached ∈ client.cache update.key, update.seq ≠ 0 ∧ update.seq < cached.seq) →
    (client.step update).1.cachedValue update.key = client.cachedValue update.key ∧
      (∀ type, (client.step update).1.retainedValue update.key type =
        client.retainedValue update.key type) ∧
      ∀ type, ∀ id ∈ client.subscribers update.key type,
        (client.step update).1.lastPassed { key := update.key, type := type, id := id } =
          client.lastPassed { key := update.key, type := type, id := id }

/-- The update is not older than what is cached, or it says the same. -/
def Current (client : SubscribedClient) (update : VariableUpdate) : Prop :=
  ∀ cached ∈ client.cache update.key, update.seq = 0 ∨ cached.seq ≤ update.seq ∨
    cached.type = update.type ∧ cached.value.readAs cached.type = update.typedValue

/-- The entry that the store gives to the key of the update is not that of another cached key. -/
def SparesCached (client : SubscribedClient) (update : VariableUpdate) : Prop :=
  ∀ store ∈ client.retainedStore, ∀ entry ∈ store.entries[store.slot update.key]?,
    entry.occupied = true → cString entry.key ≠ update.key → client.cache (cString entry.key) = none

structure Keeps (client : SubscribedClient) (update : VariableUpdate) : Prop where
  storable : Storable update.key update.typedValue
  current : client.Current update
  spares : client.SparesCached update

instance (client : SubscribedClient) : DecidablePred client.Current :=
  fun update => inferInstanceAs (Decidable (∀ cached ∈ client.cache update.key, _))

instance (client : SubscribedClient) : DecidablePred client.SparesCached :=
  fun update => inferInstanceAs (Decidable (∀ store ∈ client.retainedStore,
    ∀ entry ∈ store.entries[store.slot update.key]?, _))

instance (client : SubscribedClient) : DecidablePred client.Keeps := fun update =>
  decidable_of_iff
    (Storable update.key update.typedValue ∧ client.Current update ∧ client.SparesCached update)
    ⟨fun ⟨h₁, h₂, h₃⟩ => ⟨h₁, h₂, h₃⟩, fun ⟨h₁, h₂, h₃⟩ => ⟨h₁, h₂, h₃⟩⟩

/-- A client whose cache is empty and whose store is open; the store has each key once. -/
structure Fresh (client : SubscribedClient) : Prop where
  enabled : client.enableRetainedStore = true
  store : ∃ store, client.retainedStore = some store ∧ store.UniqueKeys
  cache : ∀ key, client.cache key = none

variable {client : SubscribedClient} {update : VariableUpdate}

/-! ### One update -/

theorem lookup_reverse_append (passed more : List (SubscriptionToken × TypedValue))
    (token : SubscriptionToken) :
    (passed ++ more).reverse.lookup token =
      (more.reverse.lookup token).or (passed.reverse.lookup token) := by
  rw [List.reverse_append, List.lookup_append]

/-- The callbacks of the update have its value afterwards. -/
theorem lastPassed_step_self {id : ℕ} (h : id ∈ client.subscribers update.key update.type) :
    (client.step update).1.lastPassed { key := update.key, type := update.type, id := id } =
      some update.typedValue := by
  rw [lastPassed, step, lookup_reverse_append]
  have hsome : ((client.callbacks update).reverse.lookup
      { key := update.key, type := update.type, id := id }).isSome := by
    rw [List.lookup_isSome_iff]
    exact ⟨_, List.mem_reverse.mpr (List.mem_map.mpr ⟨id, h, rfl⟩), by simp⟩
  obtain ⟨value, hvalue⟩ := Option.isSome_iff_exists.mp hsome
  -- All of them are handed the same value.
  obtain ⟨front, back, hsplit, -⟩ := List.lookup_eq_some_iff.mp hvalue
  have hmem : ({ key := update.key, type := update.type, id := id }, value) ∈
      client.callbacks update := by
    rw [← List.mem_reverse, hsplit]
    simp
  obtain ⟨_, -, heq⟩ := List.mem_map.mp hmem
  rw [hvalue, Option.some_or, ← (Prod.mk.inj heq).2]

/-- The other callbacks are not called. -/
theorem lastPassed_step_of_ne {token : SubscriptionToken}
    (h : token.key ≠ update.key ∨ token.type ≠ update.type) :
    (client.step update).1.lastPassed token = client.lastPassed token := by
  have hnone : (client.callbacks update).reverse.lookup token = none := by
    rw [List.lookup_eq_none_iff]
    intro p hp
    obtain ⟨id, -, rfl⟩ := List.mem_map.mp (List.mem_reverse.mp hp)
    rw [bne_iff_ne]
    rintro rfl
    exact h.elim (fun hne => hne rfl) fun hne => hne rfl
  rw [lastPassed, step, lookup_reverse_append, hnone, Option.none_or]
  rfl

theorem cache_step_of_ne {key : ByteString} (h : key ≠ update.key) :
    (client.step update).1.cache key = client.cache key := by
  show (client.toSmartDashboardClient.handleUpdate update).cache key = _
  rw [SmartDashboardClient.cache_handleUpdate, SmartDashboardClient.updateCache]
  split
  · exact Function.update_of_ne h ..
  · split
    · exact Function.update_of_ne h ..
    · rfl

/-- A current update leaves its type and value in the cache. -/
theorem Current.exists_cached (h : client.Current update) :
    ∃ cached ∈ (client.step update).1.cache update.key,
      cached.type = update.type ∧ cached.value.readAs cached.type = update.typedValue := by
  have hcache : (client.step update).1.cache update.key = _ :=
    (congrFun SmartDashboardClient.cache_handleUpdate update.key).trans
      SmartDashboardClient.cache_updateCache
  cases hold : client.cache update.key with
  | none =>
    rw [hold] at hcache
    exact ⟨_, hcache, rfl, rfl⟩
  | some old =>
    rw [hold] at hcache
    dsimp only at hcache
    split_ifs at hcache with htake
    · exact ⟨_, hcache, rfl, rfl⟩
    · obtain hzero | hle | hsame := h old hold
      · exact absurd (.inl hzero) htake
      · exact absurd (.inr hle) htake
      · exact ⟨old, hcache, hsame⟩

/-- The views agree, and the store has each key once. -/
structure Good (client : SubscribedClient) : Prop where
  enabled : client.enableRetainedStore = true
  store : ∃ store, client.retainedStore = some store ∧ store.UniqueKeys
  agree : client.ViewsAgree

theorem store_step (update : VariableUpdate) (henabled : client.enableRetainedStore = true)
    {store : RetainedStore}
    (hstore : client.retainedStore = some store) :
    (client.step update).1.enableRetainedStore = true ∧
      (client.step update).1.retainedStore = some (store.put update) := by
  obtain ⟨henable, hretained⟩ :=
    client.toSmartDashboardClient.store_handleUpdate update
  refine ⟨henable.trans henabled, (hretained henabled).trans ?_⟩
  rw [hstore]
  rfl

theorem retainedValue_of_store {store : RetainedStore}
    (hstore : client.retainedStore = some store) (key : ByteString) (type : ValueType) :
    client.retainedValue key type = store.tryGet key type := by
  rw [retainedValue, hstore, Option.bind_some]

/-- What the client reads is in the store too, so it is read in one type. -/
theorem single_of_stored (henabled : client.enableRetainedStore = true) {store : RetainedStore}
    (hstore : client.retainedStore = some store) (hunique : store.UniqueKeys)
    (hstored : ∀ key, ∀ cached ∈ client.cache key,
      client.retainedValue key cached.type = client.cachedValue key)
    (key : ByteString) (type type' : ValueType) (h : (client.tryGet key type).isSome)
    (h' : (client.tryGet key type').isSome) : type = type' := by
  have hread : ∀ type, (client.tryGet key type).isSome → (store.tryGet key type).isSome := by
    intro type hsome
    cases hcache : client.cache key with
    | some cached =>
      have hvalue : store.tryGet key cached.type = some (cached.value.readAs cached.type) := by
        have heq := hstored key cached hcache
        rwa [retainedValue_of_store hstore, cachedValue, hcache] at heq
      by_cases htype : cached.type = type
      · rw [← htype, hvalue]
        rfl
      · rw [SmartDashboardClient.tryGet_of_other hcache htype, henabled, hstore] at hsome
        exact hsome
    | none =>
      have hcached : client.tryReadCached key type = none := by
        rw [SmartDashboardClient.tryReadCached, hcache]
      rw [SmartDashboardClient.tryGet, hcached, henabled, hstore] at hsome
      exact hsome
  exact hunique.type_eq (hread type h) (hread type' h')

theorem Fresh.good (h : client.Fresh) : client.Good := by
  obtain ⟨store, hstore, hunique⟩ := h.store
  have hnone : ∀ key, ∀ cached ∈ client.cache key, False := by
    intro key cached hcached
    rw [h.cache key] at hcached
    cases hcached
  refine ⟨h.enabled, h.store, fun key cached hc => (hnone key cached hc).elim,
    fun key cached hc => (hnone key cached hc).elim, ?_⟩
  exact single_of_stored h.enabled hstore hunique fun key cached hc => (hnone key cached hc).elim

/-- An update that the client keeps leaves the views together. -/
theorem Good.step (h : client.Good) (hkeeps : client.Keeps update) :
    (client.step update).1.Good := by
  obtain ⟨store, hstore, hunique⟩ := h.store
  obtain ⟨henabled', hstore'⟩ := store_step update h.enabled hstore
  obtain ⟨new, hnew, htype, hvalue⟩ := hkeeps.current.exists_cached
  have hunique' : (store.put update).UniqueKeys := hunique.put hkeeps.storable.1
  have hcached : (client.step update).1.cachedValue update.key = some update.typedValue := by
    rw [cachedValue, hnew, Option.map_some, hvalue]
  have hstored : ∀ key, ∀ cached ∈ (client.step update).1.cache key,
      (client.step update).1.retainedValue key cached.type =
        (client.step update).1.cachedValue key := by
    intro key cached hc
    rw [retainedValue_of_store hstore']
    by_cases hkey : key = update.key
    · subst hkey
      obtain rfl : new = cached := Option.some.inj (hnew.symm.trans hc)
      rw [hcached, htype]
      exact (store.tryGet_put_eq_iff update).mpr hkeeps.storable
    · rw [cache_step_of_ne hkey] at hc
      have hold := h.agree.stored key cached hc
      rw [retainedValue_of_store hstore] at hold
      rw [cachedValue, cache_step_of_ne hkey]
      refine Eq.trans ?_ hold
      obtain ⟨entry, hentry, -⟩ := store.slot_cases update.key
      refine RetainedStore.tryGet_put_of_ne hkeeps.storable.1 hkey hentry ?_ _
      -- The entry that is taken is not that of a cached key.
      rw [RetainedEntry.hasKey, decide_eq_false_iff_not]
      rintro ⟨hoccupied, rfl⟩
      rw [hkeeps.spares store hstore entry hentry hoccupied hkey] at hc
      cases hc
  refine ⟨henabled', ⟨_, hstore', hunique'⟩, hstored, ?_,
    single_of_stored henabled' hstore' hunique' hstored⟩
  intro key cached hc id hid
  by_cases hkey : key = update.key
  · subst hkey
    obtain rfl : new = cached := Option.some.inj (hnew.symm.trans hc)
    rw [hcached, htype]
    rw [htype] at hid
    exact lastPassed_step_self hid
  · rw [lastPassed_step_of_ne (.inl hkey), cachedValue, cache_step_of_ne hkey]
    rw [cache_step_of_ne hkey] at hc
    exact h.agree.passed key cached hc id hid

/-- What is older changes nothing, since it says the same. -/
theorem Good.staleIgnored (h : client.Good) (hkeeps : client.Keeps update) :
    client.StaleIgnored update := by
  rintro ⟨cached, hc, hseq, hlt⟩
  have hafter := h.step hkeeps
  obtain ⟨store, hstore, hunique⟩ := h.store
  obtain ⟨store', hstore', hunique'⟩ := hafter.store
  obtain ⟨htype, hvalue⟩ : cached.type = update.type ∧
      cached.value.readAs cached.type = update.typedValue := by
    rcases hkeeps.current cached hc with hzero | hle | hsame
    · exact absurd hzero hseq
    · exact absurd (UInt64.lt_of_lt_of_le hlt hle) (UInt64.lt_irrefl _)
    · exact hsame
  obtain ⟨new, hnew, hnewType, hnewValue⟩ := hkeeps.current.exists_cached
  have hcached : client.cachedValue update.key = some update.typedValue := by
    rw [cachedValue, hc, Option.map_some, hvalue]
  have hcached' : (client.step update).1.cachedValue update.key = some update.typedValue := by
    rw [cachedValue, hnew, Option.map_some, hnewValue]
  have hold := h.agree.stored update.key cached hc
  have hnow := hafter.agree.stored update.key new hnew
  rw [hcached, htype] at hold
  rw [hcached', hnewType] at hnow
  refine ⟨hcached'.trans hcached.symm, fun type => ?_, fun type id hid => ?_⟩
  · by_cases htype' : type = update.type
    · rw [htype', hold, hnow]
    · -- In another type the key cannot be read, neither before nor after.
      rw [retainedValue_of_store hstore] at hold ⊢
      rw [retainedValue_of_store hstore'] at hnow ⊢
      have hnone : store.tryGet update.key type = none := by
        rw [← Option.not_isSome_iff_eq_none]
        exact fun hsome => htype' (hunique.type_eq hsome (by rw [hold]; rfl))
      have hnone' : store'.tryGet update.key type = none := by
        rw [← Option.not_isSome_iff_eq_none]
        exact fun hsome => htype' (hunique'.type_eq hsome (by rw [hnow]; rfl))
      rw [hnone, hnone']
  · by_cases htype' : type = update.type
    · subst htype'
      rw [lastPassed_step_self hid]
      have hpassed := h.agree.passed update.key cached hc id (by rwa [htype])
      rw [htype, hcached] at hpassed
      exact hpassed.symm
    · exact lastPassed_step_of_ne (.inr htype')

theorem cache_step_self :
    (client.step update).1.cache update.key =
      match client.cache update.key with
      | none => some { type := update.type, value := update.value, seq := update.seq }
      | some old =>
        if update.seq = 0 ∨ old.seq ≤ update.seq then
          some { type := update.type, value := update.value, seq := update.seq }
        else some old :=
  (congrFun SmartDashboardClient.cache_handleUpdate update.key).trans
    SmartDashboardClient.cache_updateCache

/-- Where the views agree before and after, the update was one that the client keeps, if the store
can hold it. -/
theorem Good.keeps_of_agree (h : client.Good) (hagree : (client.step update).1.ViewsAgree)
    (hstorable : Storable update.key update.typedValue) : client.Keeps update := by
  obtain ⟨store, hstore, hunique⟩ := h.store
  obtain ⟨henabled', hstore'⟩ := store_step update h.enabled hstore
  refine ⟨hstorable, fun cached hc => ?_, ?_⟩
  · by_contra hnot
    push Not at hnot
    obtain ⟨hseq, hlt, hdiffers⟩ := hnot
    -- The cache keeps what it has, while the store has the update.
    have hkept : (client.step update).1.cache update.key = some cached := by
      rw [cache_step_self, hc]
      exact if_neg (not_or.mpr ⟨hseq, hlt⟩)
    have hstored := hagree.stored update.key cached hkept
    rw [retainedValue_of_store hstore', cachedValue, hkept, Option.map_some] at hstored
    have hwritten := (store.tryGet_put_eq_iff update).mpr hstorable
    have htype : cached.type = update.type :=
      (hunique.put hstorable.1).type_eq (by rw [hstored]; rfl) (by rw [hwritten]; rfl)
    refine hdiffers htype ?_
    rw [htype] at hstored ⊢
    exact Option.some.inj (hstored.symm.trans hwritten)
  · intro store₀ hstore₀ entry hentry hoccupied hne
    obtain rfl : store = store₀ := Option.some.inj (hstore.symm.trans hstore₀)
    by_contra hcached
    obtain ⟨cached, hc⟩ := Option.ne_none_iff_exists'.mp hcached
    have hc' : (client.step update).1.cache _ = some cached := (cache_step_of_ne hne).trans hc
    have hstored := hagree.stored _ cached hc'
    rw [retainedValue_of_store hstore', cachedValue, hc', Option.map_some] at hstored
    have hkey : entry.hasKey (cString entry.key) = true := by
      rw [RetainedEntry.hasKey, decide_eq_true_eq]
      exact ⟨hoccupied, rfl⟩
    rw [hunique.tryGet_put_of_hasKey hstorable.1 hne hentry hkey] at hstored
    cases hstored

/-- Views that agree after an update agree with a store that has each key once. -/
theorem Good.step_of_agree (h : client.Good) (hagree : (client.step update).1.ViewsAgree) :
    (client.step update).1.Good := by
  obtain ⟨store, hstore, hunique⟩ := h.store
  obtain ⟨henabled', hstore'⟩ := store_step update h.enabled hstore
  obtain ⟨cached, hc⟩ : ∃ cached, (client.step update).1.cache update.key = some cached := by
    rw [cache_step_self]
    split
    · exact ⟨_, rfl⟩
    · split_ifs <;> exact ⟨_, rfl⟩
  have hstored := hagree.stored update.key cached hc
  rw [retainedValue_of_store hstore', cachedValue, hc, Option.map_some] at hstored
  have hkey := RetainedStore.fitsArray_of_tryGet (by rw [hstored]; rfl)
  exact ⟨henabled', ⟨_, hstore', hunique.put hkey⟩, hagree⟩

/-! ### Runs -/

/-- The views agree after every update, and what is older is ignored. -/
def AgreesThroughout (client : SubscribedClient) (updates : List VariableUpdate) : Prop :=
  client.ViewsAgree ∧ ∀ r ∈ history step client updates,
    (r.before.step r.input).1.ViewsAgree ∧ r.before.StaleIgnored r.input

/-- In a run of updates that the client keeps, the views agree throughout; and where they do, it
keeps every update that the store can hold. -/
theorem agreesThroughout (hfresh : client.Fresh) (updates : List VariableUpdate) :
    ((∀ r ∈ history step client updates, r.before.Keeps r.input) →
        client.AgreesThroughout updates) ∧
      (client.AgreesThroughout updates → ∀ r ∈ history step client updates,
        Storable r.input.key r.input.typedValue → r.before.Keeps r.input) := by
  have hgood := hfresh.good
  refine ⟨fun hkeeps => ⟨hgood.agree, ?_⟩, fun hagrees => ?_⟩
  · clear hfresh
    induction updates generalizing client with
    | nil => simp
    | cons update updates ih =>
      rw [history_cons, List.forall_mem_cons] at hkeeps ⊢
      have hnext := hgood.step hkeeps.1
      exact ⟨⟨hnext.agree, hgood.staleIgnored hkeeps.1⟩, ih hnext hkeeps.2⟩
  · replace hagrees := hagrees.2
    clear hfresh
    induction updates generalizing client with
    | nil => simp
    | cons update updates ih =>
      rw [history_cons, List.forall_mem_cons] at hagrees ⊢
      have hnext := hgood.step_of_agree hagrees.1.1
      exact ⟨hgood.keeps_of_agree hagrees.1.1, ih hnext hagrees.2⟩

/-- A client with one callback for each type of each key. -/
def watched : SubscribedClient where
  retainedStore := some (.empty 1024)
  subscribers _ _ := [1]

theorem watched_fresh : watched.Fresh where
  enabled := rfl
  store := ⟨.empty 1024, rfl, by decide +kernel⟩
  cache _ := rfl

def readyUpdate (seq : UInt64) (value : TypedValue) : VariableUpdate :=
  { key := SmartDashboardClient.ready, type := value.type, value := value.toValue, seq := seq
    sourceTimestampUs := 0 }

/-- The second update changes the type, and the third has no number. -/
def currentUpdates : List VariableUpdate :=
  [readyUpdate 5 (.bool true), readyUpdate 5 (.double 0x3FE0000000000000),
    readyUpdate 0 (.string SmartDashboardClient.ready)]

theorem currentUpdates_agree : watched.AgreesThroughout currentUpdates :=
  (agreesThroughout watched_fresh currentUpdates).1 (by decide +kernel)

/-- An older update behind a newer one. -/
def staleUpdates : List VariableUpdate :=
  [readyUpdate 5 (.bool true), readyUpdate 3 (.bool false)]

theorem staleUpdates_disagree : ¬watched.AgreesThroughout staleUpdates := by
  intro h
  have hlast := (h.2 _ (List.mem_cons_of_mem _ List.mem_cons_self)).1
  have hstored := hlast.stored SmartDashboardClient.ready
    { type := .bool, value := { boolValue := true }, seq := 5 } (by decide +kernel)
  revert hstored
  decide +kernel

end SubscribedClient

end SmartDashboard.Direct
