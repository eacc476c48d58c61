import SmartDashboard.Direct.Flush

/-!
# Coalescing

`m_pending` keeps the most recent value of each key for the next flush. A value reaches it in a
second critical section, after `m_retained`, and between the two another call may overtake it. While
no value is overtaken for good, the value last written for a key is the retained one.

## Main definitions

- `InFlight`: a call between its two sections still carries the retained value of a key
- `Current`: the condition on the second section of `StorePending` and on a dropped write
- `StoreInv`: how the calls of `StorePending` and the replay stand to one another
- `Settled`: what the ring will be given for a key
-/

namespace SmartDashboard.Direct

open Execution

/-! ### The maps as lists -/

theorem lookup_map_keyedEntry (entries : List PendingEntry) (key : ByteString) :
    (entries.map keyedEntry).lookup key = (entries.dlookup key).map PendingValue.content := by
  induction entries with
  | nil => rfl
  | cons e entries ih =>
    obtain ⟨key', v⟩ := e
    by_cases hkey : key = key'
    · subst hkey
      simp [keyedEntry, List.dlookup_cons_eq]
    · rw [List.map_cons, List.dlookup_cons_ne _ _ hkey, ← ih, keyedEntry, List.lookup_cons,
        beq_eq_false_iff_ne.mpr hkey]

/-- After the loop each key of the copy has the copy's value. -/
theorem Publisher.lookup_mergeRetained (retainedCopy pending : PendingMap) (key : ByteString) :
    (mergeRetained retainedCopy pending).lookup key =
      (retainedCopy.lookup key).or (pending.lookup key) := by
  obtain ⟨entries, hnodup⟩ := retainedCopy
  show (entries.foldl (fun pending e => pending.insert e.1 e.2) pending).lookup key =
    (entries.dlookup key).or (pending.lookup key)
  induction entries generalizing pending with
  | nil => rfl
  | cons e entries ih =>
    obtain ⟨key', v⟩ := e
    rw [List.nodupKeys_cons] at hnodup
    rw [List.foldl_cons, ih _ hnodup.2]
    by_cases hkey : key = key'
    · subst hkey
      rw [List.dlookup_eq_none.mpr hnodup.1, List.dlookup_cons_eq, AList.lookup_insert]
      rfl
    · rw [List.dlookup_cons_ne _ _ hkey, AList.lookup_insert_ne hkey]

/-- The copy of `m_retained` that a replay still has to merge. -/
def ReplayPc.snapshot : ReplayPc → PendingMap
  | .merging retainedCopy => retainedCopy
  | .idle | .copying => ∅

namespace Publisher

variable {κ ι : Type*}

/-! ### The values of a key -/

def retainedContent (s : Publisher κ ι) (key : ByteString) : Option (ValueType × VariableValue) :=
  (s.retained.lookup key).map PendingValue.content

/-- The last value that `WriteUpsert` accepted for a key. -/
def lastWritten (s : Publisher κ ι) (key : ByteString) : Option (ValueType × VariableValue) :=
  (s.channel.accepted.map VariableUpdate.keyed).reverse.lookup key

/-- The value of a key that is closest to `m_pending` on its way to the ring. -/
def newest (s : Publisher κ ι) (key : ByteString) : Option (ValueType × VariableValue) :=
  ((s.pending.lookup key).map PendingValue.content).or
    (((s.inHand .worker).lookup key).or (s.lastWritten key))

/-- A call between its two sections, of `StorePending` or of the replay, carries the content. -/
def Carries (s : Publisher κ ι) (key : ByteString) (c : ValueType × VariableValue) : Prop :=
  (∃ t, (s.storing t).map keyedEntry = some (key, c)) ∨
    (s.replay.snapshot.lookup key).map PendingValue.content = some c

/-- The retained value of the key still has to be stored into `m_pending`. -/
def InFlight (s : Publisher κ ι) (key : ByteString) : Prop :=
  ∃ c ∈ s.retainedContent key, s.Carries key c

/-- The ring was given the retained value of the key, or will be if no more calls come. -/
def Settled (s : Publisher κ ι) (key : ByteString) : Prop :=
  s.newest key = s.retainedContent key ∨ s.InFlight key

/-! ### The condition -/

/-- `StorePending` stores into `m_pending` while the retained value of the key is still in flight,
and not between the copy and the merge of a replay if it reached `m_retained` after the copy. -/
def CurrentStore (s : Publisher κ ι) : Option PendingEntry → Prop
  | some e => (∀ w ∈ s.replay.snapshot.lookup e.1, e.2.call ≤ w.call) ∧ s.InFlight e.1
  | none => True

/-- A write is dropped only if its key has a pending value, if the retained value is in flight, or
if that is what was written last. -/
def CurrentDrop (s : Publisher κ ι) : WriterPc → Prop
  | .countDrop u =>
    u.key ∈ s.pending ∨ s.InFlight u.key ∨ s.lastWritten u.key = s.retainedContent u.key
  | _ => True

def Current (s : Publisher κ ι) : Action κ ι → Prop
  | .storePending t => s.CurrentStore (s.storing t)
  | .write c _ => s.CurrentDrop (s.channel.writers c)
  | _ => True

section Decidable

variable [DecidableEq κ] [Fintype κ]

instance (s : Publisher κ ι) (key : ByteString) (c : ValueType × VariableValue) :
    Decidable (s.Carries key c) :=
  inferInstanceAs (Decidable ((∃ _, _ = _) ∨ _ = _))

instance (s : Publisher κ ι) (key : ByteString) : Decidable (s.InFlight key) :=
  inferInstanceAs (Decidable (∃ c ∈ s.retainedContent key, s.Carries key c))

instance (s : Publisher κ ι) : DecidablePred s.CurrentStore
  | some e => inferInstanceAs (Decidable
      ((∀ w ∈ s.replay.snapshot.lookup e.1, e.2.call ≤ w.call) ∧ s.InFlight e.1))
  | none => isTrue trivial

instance (s : Publisher κ ι) : DecidablePred s.CurrentDrop
  | .countDrop u => inferInstanceAs (Decidable
      (u.key ∈ s.pending ∨ s.InFlight u.key ∨ s.lastWritten u.key = s.retainedContent u.key))
  | .idle | .testSpace _ | .loadWriteIndex _ | .copyFrame _ _ | .storeWriteIndex _ _
  | .storePublished _ | .returned _ _ => isTrue trivial

instance (s : Publisher κ ι) : DecidablePred s.Current
  | .storePending t => inferInstanceAs (Decidable (s.CurrentStore (s.storing t)))
  | .write c _ => inferInstanceAs (Decidable (s.CurrentDrop (s.channel.writers c)))
  | .storeRetained _ _ _ _ | .replayCheck _ | .replayCopy | .replayMerge | .swap _ _
  | .beginWrite _ _ | .endWrite _ | .endFlush _ _ | .start _ _ | .read _ _ _ | .stop _ =>
    isTrue trivial

end Decidable

/-- The worker is the only caller of `FlushNow`. -/
def Action.OnWorker : Action κ ι → Prop
  | .swap c _ => c = .worker
  | _ => True

instance : DecidablePred (Action.OnWorker : Action κ ι → Prop)
  | .swap c _ => inferInstanceAs (Decidable (c = .worker))
  | .storeRetained _ _ _ _ | .storePending _ | .replayCheck _ | .replayCopy | .replayMerge
  | .beginWrite _ _ | .write _ _ | .endWrite _ | .endFlush _ _ | .start _ _ | .read _ _ _
  | .stop _ => isTrue trivial

/-! ### The property -/

/-- A publisher that has just been constructed and started. -/
structure Constructed (s : Publisher κ ι) : Prop extends s.Started where
  pending : s.pending = ∅
  retained : s.retained = ∅

/-- All calls have finished, and a flush has taken whatever they left in `m_pending`. -/
structure Flushed (s : Publisher κ ι) : Prop where
  storing : ∀ t, s.storing t = none
  replay : s.replay = .idle
  flush : ∀ c, s.flush c = none
  pending : s.pending = ∅

/-- The value last written for each key is the retained one. -/
def WritesRetained (s : Publisher κ ι) : Prop :=
  ∀ key, s.lastWritten key = s.retainedContent key

/-- The merge of a replay replaces no pending value by an older one. -/
def KeepsNewer [DecidableEq κ] [DecidableEq ι] (s : Publisher κ ι) : Prop :=
  ∀ s', s.next .replayMerge = some s' → ∀ key, ∀ v ∈ s.pending.lookup key,
    ∃ v' ∈ s'.pending.lookup key, v.call ≤ v'.call

/-! ### StorePending against the replay -/

/-- The retained value of the key is at least as new. -/
def Behind (retained : PendingMap) (key : ByteString) (v : PendingValue) : Prop :=
  ∃ r ∈ retained.lookup key, v.call ≤ r.call

/-- What is pending or in flight is not ahead of `m_retained`; what a replay carries is retained
still, or will be followed by the value that replaced it. -/
structure StoreInv (s : Publisher κ ι) : Prop where
  numbered : ∀ key, ∀ r ∈ s.retained.lookup key, r.call < s.calls
  storing : ∀ t, ∀ e ∈ s.storing t, Behind s.retained e.1 e.2
  pending : ∀ key, ∀ v ∈ s.pending.lookup key, Behind s.retained key v
  snapshot : ∀ key, ∀ w ∈ s.replay.snapshot.lookup key, ∃ r ∈ s.retained.lookup key,
    r = w ∨ w.call < r.call ∧ ∃ t, s.storing t = some ⟨key, r⟩
  ordered : ∀ key, ∀ v ∈ s.pending.lookup key, ∀ w ∈ s.replay.snapshot.lookup key, v.call ≤ w.call

variable {s₀ s s' : Publisher κ ι}

/-- Steps that do not touch the maps. -/
theorem StoreInv.congr (h : s.StoreInv) (hretained : s'.retained = s.retained)
    (hpending : s'.pending = s.pending) (hstoring : s'.storing = s.storing)
    (hreplay : s'.replay.snapshot = s.replay.snapshot) (hcalls : s'.calls = s.calls) :
    s'.StoreInv := by
  obtain ⟨numbered, storing, pending, snapshot, ordered⟩ := h
  refine ⟨?_, ?_, ?_, ?_, ?_⟩
  · rwa [hretained, hcalls]
  · rwa [hretained, hstoring]
  · rwa [hretained, hpending]
  · rwa [hretained, hstoring, hreplay]
  · rwa [hpending, hreplay]

variable [DecidableEq κ] [DecidableEq ι]

theorem StoreInv.storeRetained (h : s.StoreInv) {t : κ} {key : ByteString} {type : ValueType}
    {value : VariableValue} (hnext : s.next (.storeRetained t key type value) = some s') :
    s'.StoreInv := by
  obtain ⟨hstoring, rfl⟩ := next_storeRetained hnext
  -- the new value is ahead of all others
  have hbehind : ∀ key' v, Behind s.retained key' v → Behind
      (s.retained.insert key { type := type, value := value, call := s.calls }) key' v := by
    intro key' v ⟨r, hr, hle⟩
    by_cases hkey : key' = key
    · subst hkey
      have hlt := h.numbered key' r hr
      exact ⟨_, AList.lookup_insert _, by show v.call ≤ s.calls; omega⟩
    · exact ⟨r, by rwa [AList.lookup_insert_ne hkey], hle⟩
  refine ⟨?_, ?_, fun key' v hv => hbehind key' v (h.pending key' v hv), ?_, h.ordered⟩
  · intro key' r hr
    by_cases hkey : key' = key
    · subst hkey
      rw [AList.lookup_insert] at hr
      obtain rfl := Option.some.inj hr
      show s.calls < s.calls + 1
      omega
    · rw [AList.lookup_insert_ne hkey] at hr
      have hlt := h.numbered key' r hr
      show r.call < s.calls + 1
      omega
  · intro t' e he
    by_cases ht : t' = t
    · subst ht
      simp only [Function.update_self] at he
      obtain rfl := Option.some.inj he
      exact ⟨_, AList.lookup_insert _, Nat.le_refl _⟩
    · simp only [Function.update_of_ne ht] at he
      exact hbehind e.1 e.2 (h.storing t' e he)
  · intro key' w hw
    obtain ⟨r, hr, hcase⟩ := h.snapshot key' w hw
    by_cases hkey : key' = key
    · subst hkey
      have hlt := h.numbered key' r hr
      -- the copy is out of date, and the new value follows it
      refine ⟨_, AList.lookup_insert _, .inr ⟨?_, t, Function.update_self ..⟩⟩
      show w.call < s.calls
      rcases hcase with rfl | ⟨hnew, -⟩ <;> omega
    · refine ⟨r, by rwa [AList.lookup_insert_ne hkey], hcase.imp id ?_⟩
      rintro ⟨hnew, t', ht'⟩
      refine ⟨hnew, t', ?_⟩
      have hne : t' ≠ t := by
        rintro rfl
        simp [hstoring] at ht'
      simpa only [Function.update_of_ne hne] using ht'

theorem StoreInv.storePending (h : s.StoreInv) {t : κ} (hcurrent : s.CurrentStore (s.storing t))
    (hnext : s.next (.storePending t) = some s') : s'.StoreInv := by
  obtain ⟨key, v, hstoring, rfl⟩ := next_storePending hnext
  rw [hstoring] at hcurrent
  refine ⟨h.numbered, ?_, ?_, ?_, ?_⟩
  · intro t' e he
    by_cases ht : t' = t
    · simp [ht] at he
    · exact h.storing t' e (by simpa [ht] using he)
  · intro key' v' hv'
    by_cases hkey : key' = key
    · subst hkey
      rw [AList.lookup_insert] at hv'
      obtain rfl := Option.some.inj hv'
      exact h.storing t ⟨key', v⟩ hstoring
    · rw [AList.lookup_insert_ne hkey] at hv'
      exact h.pending key' v' hv'
  · intro key' w hw
    obtain ⟨r, hr, hcase⟩ := h.snapshot key' w hw
    refine ⟨r, hr, hcase.imp id ?_⟩
    rintro ⟨hnew, t', ht'⟩
    refine ⟨hnew, t', ?_⟩
    -- a value newer than the copy is not stored before the merge
    have hne : t' ≠ t := by
      rintro rfl
      rw [hstoring] at ht'
      obtain ⟨rfl, hv⟩ := Sigma.mk.inj (Option.some.inj ht')
      obtain rfl := eq_of_heq hv
      have hle : v.call ≤ w.call := hcurrent.1 w hw
      omega
    simpa only [Function.update_of_ne hne] using ht'
  · intro key' v' hv' w hw
    by_cases hkey : key' = key
    · subst hkey
      rw [AList.lookup_insert] at hv'
      obtain rfl := Option.some.inj hv'
      exact hcurrent.1 w hw
    · rw [AList.lookup_insert_ne hkey] at hv'
      exact h.ordered key' v' hv' w hw

theorem StoreInv.replayCopy (h : s.StoreInv) (hnext : s.next .replayCopy = some s') :
    s'.StoreInv := by
  obtain ⟨-, rfl⟩ := next_replayCopy hnext
  have hsnapshot : ∀ key, ∀ w ∈ (ReplayPc.snapshot (if s.retained.entries.isEmpty then .idle
      else .merging s.retained)).lookup key, s.retained.lookup key = some w := by
    intro key w hw
    split_ifs at hw
    · simp [ReplayPc.snapshot] at hw
    · exact hw
  refine ⟨h.numbered, h.storing, h.pending, fun key w hw => ⟨w, hsnapshot key w hw, .inl rfl⟩,
    ?_⟩
  intro key v hv w hw
  obtain ⟨r, hr, hle⟩ := h.pending key v hv
  rw [Option.mem_def, hsnapshot key w hw] at hr
  obtain rfl := Option.some.inj hr
  exact hle

theorem StoreInv.replayMerge (h : s.StoreInv) (hnext : s.next .replayMerge = some s') :
    s'.StoreInv := by
  obtain ⟨retainedCopy, hreplay, rfl⟩ := next_replayMerge hnext
  refine ⟨h.numbered, h.storing, ?_, ?_, ?_⟩
  · intro key v hv
    rw [Option.mem_def, lookup_mergeRetained, Option.or_eq_some_iff] at hv
    rcases hv with hv | ⟨-, hv⟩
    · -- the merged value comes from the copy, which is not ahead of what is retained
      obtain ⟨r, hr, hcase⟩ := h.snapshot key v (by rw [hreplay]; exact hv)
      refine ⟨r, hr, ?_⟩
      rcases hcase with rfl | ⟨hlt, -⟩
      · exact Nat.le_refl _
      · exact Nat.le_of_lt hlt
    · exact h.pending key v hv
  · intro key w hw
    simp [ReplayPc.snapshot] at hw
  · intro key v hv w hw
    simp [ReplayPc.snapshot] at hw

theorem StoreInv.step (h : s.StoreInv) {a : Action κ ι} (hcurrent : s.Current a)
    (hnext : s.next a = some s') : s'.StoreInv := by
  cases a with
  | storeRetained t key type value => exact h.storeRetained hnext
  | storePending t => exact h.storePending hcurrent hnext
  | replayCheck nowUs =>
    obtain ⟨hidle, -, active, observed, replay, hreplay, rfl⟩ := next_replayCheck hnext
    refine h.congr rfl rfl rfl ?_ rfl
    rw [hidle]
    rcases hreplay with rfl | rfl <;> rfl
  | replayCopy => exact h.replayCopy hnext
  | replayMerge => exact h.replayMerge hnext
  | swap c order =>
    obtain ⟨-, rfl⟩ := next_swap hnext
    exact ⟨h.numbered, h.storing, fun key v hv => by simp at hv, h.snapshot,
      fun key v hv => by simp at hv⟩
  | beginWrite c nowUs =>
    obtain ⟨e, rest, channel, -, -, rfl⟩ := next_beginWrite hnext
    exact h.congr rfl rfl rfl rfl rfl
  | endWrite c =>
    obtain ⟨droppedCount, channel, -, rfl⟩ := next_endWrite hnext
    exact h.congr rfl rfl rfl rfl rfl
  | endFlush c nowUs =>
    obtain ⟨-, -, rfl⟩ := next_endFlush hnext
    exact h.congr rfl rfl rfl rfl rfl
  | write _ _ | start _ _ | read _ _ _ | stop _ =>
    obtain ⟨channel, -, rfl⟩ := next_onChannel hnext
    exact h.congr rfl rfl rfl rfl rfl

/-- A replay that has not been overtaken overtakes nobody. -/
theorem StoreInv.keepsNewer (h : s.StoreInv) : s.KeepsNewer := by
  intro s' hnext key v hv
  obtain ⟨retainedCopy, hreplay, rfl⟩ := next_replayMerge hnext
  have hordered := h.ordered key v hv
  rw [hreplay] at hordered
  simp only [Option.mem_def, lookup_mergeRetained]
  cases hcopy : retainedCopy.lookup key with
  | none => exact ⟨v, hv, Nat.le_refl _⟩
  | some w => exact ⟨w, rfl, hordered w hcopy⟩

end Publisher

end SmartDashboard.Direct
