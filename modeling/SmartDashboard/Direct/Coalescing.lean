import SmartDashboard.Direct.Retained

/-!
# What is written last

The values of a key stand in line: pending, in the worker's hand, written. With the worker as the
only caller of `FlushNow` the line keeps its order, so the foremost value of the line is what the
ring will have been given last. As long as every step is current, that is the retained value or the
retained value still has to join the line.
-/

namespace SmartDashboard.Direct

open Execution

theorem lookup_eq_none_of_notMem {entries : List KeyedValue} {key : ByteString}
    (hkey : key ∉ entries.map Prod.fst) : entries.lookup key = none := by
  rw [List.lookup_eq_none_iff]
  intro p hp
  rw [bne_iff_ne]
  intro heq
  exact hkey (List.mem_map.mpr ⟨p, hp, heq.symm⟩)

namespace Publisher

variable {κ ι : Type*} {s₀ s s' : Publisher κ ι}

/-- The line between `m_pending` and the ring, and the values of its keys. -/
structure LineInv (s : Publisher κ ι) : Prop where
  idleOutside : s.IdleOutside
  application : s.flush .application = none
  nodup : ((s.inHand .worker).map Prod.fst).Nodup
  settled : ∀ key, s.Settled key

/-- The part of the line behind `m_pending`. -/
def written (s : Publisher κ ι) (key : ByteString) : Option (ValueType × VariableValue) :=
  ((s.inHand .worker).lookup key).or (s.lastWritten key)

/-- A step that leaves the maps alone and the line in order. -/
theorem Settled.congr {key : ByteString} (h : s.Settled key) (hpending : s'.pending = s.pending)
    (hretained : s'.retained = s.retained) (hstoring : s'.storing = s.storing)
    (hreplay : s'.replay = s.replay) (hwritten : s'.written key = s.written key) :
    s'.Settled key := by
  have hnewest : s'.newest key = s.newest key := by
    rw [newest, newest, hpending]
    exact congrArg _ hwritten
  simpa only [Settled, InFlight, Carries, retainedContent, hnewest, hretained, hstoring, hreplay]
    using h

/-- A step that leaves the maps and the line alone. -/
theorem LineInv.congr (h : s.LineInv) (hidle : s'.IdleOutside)
    (happlication : s'.flush .application = none) (hpending : s'.pending = s.pending)
    (hretained : s'.retained = s.retained) (hstoring : s'.storing = s.storing)
    (hreplay : s'.replay = s.replay) (hhand : s'.inHand .worker = s.inHand .worker)
    (haccepted : s'.channel.accepted = s.channel.accepted) : s'.LineInv := by
  refine ⟨hidle, happlication, by rw [hhand]; exact h.nodup, ?_⟩
  intro key
  refine (h.settled key).congr hpending hretained hstoring hreplay ?_
  rw [written, written, hhand, lastWritten, lastWritten, haccepted]

/-! ### The line moves -/

section Line

variable {entries : List KeyedValue} {u : VariableUpdate}

/-- The front of the line is written: it becomes the last value of its key. -/
theorem written_of_publish (hhand : s.inHand .worker = u.keyed :: entries)
    (hhand' : s'.inHand .worker = entries) (hnodup : ((s.inHand .worker).map Prod.fst).Nodup)
    (haccepted : s'.channel.accepted = s.channel.accepted ++ [u]) (key : ByteString) :
    s'.written key = s.written key := by
  rw [hhand, List.map_cons, List.nodup_cons] at hnodup
  rw [written, written, hhand, hhand', lastWritten, lastWritten, haccepted, List.map_append,
    List.reverse_append]
  show _ = (List.lookup key (u.keyed :: entries)).or _
  by_cases hkey : key = u.key
  · -- no other entry of the hand has the key
    subst hkey
    have hnone : entries.lookup u.key = none := lookup_eq_none_of_notMem hnodup.1
    simp [hnone, VariableUpdate.keyed]
  · have hbeq : (key == u.key) = false := beq_eq_false_iff_ne.mpr hkey
    simp [VariableUpdate.keyed, List.lookup_cons, hbeq]

/-- The front of the line is dropped: other keys do not notice. -/
theorem written_of_drop (hhand : s.inHand .worker = u.keyed :: entries)
    (hhand' : s'.inHand .worker = entries)
    (haccepted : s'.channel.accepted = s.channel.accepted) {key : ByteString}
    (hkey : key ≠ u.key) : s'.written key = s.written key := by
  have hbeq : (key == u.key) = false := beq_eq_false_iff_ne.mpr hkey
  rw [written, written, hhand, hhand', lastWritten, lastWritten, haccepted, List.lookup_cons]
  simp [VariableUpdate.keyed, hbeq]

end Line

/-- A value that is dropped is pending or in flight again, or was written before. -/
theorem Settled.drop {u : VariableUpdate} {entries : List KeyedValue}
    (hhand : s.inHand .worker = u.keyed :: entries) (hhand' : s'.inHand .worker = entries)
    (hnodup : ((s.inHand .worker).map Prod.fst).Nodup)
    (hcurrent : s.CurrentDrop (.countDrop u)) (hpending : s'.pending = s.pending)
    (hretained : s'.retained = s.retained) (hstoring : s'.storing = s.storing)
    (hreplay : s'.replay = s.replay) (haccepted : s'.channel.accepted = s.channel.accepted)
    {key : ByteString} (h : s.Settled key) : s'.Settled key := by
  by_cases hkey : key = u.key
  · subst hkey
    have hflight : s.InFlight u.key → s'.InFlight u.key := by
      simp only [InFlight, Carries, retainedContent, hretained, hstoring, hreplay]
      exact id
    cases hlookup : s.pending.lookup u.key with
    | some v =>
      -- the pending value is in front of the dropped one
      refine h.imp ?_ hflight
      intro hnewest
      rw [newest, hlookup] at hnewest
      rw [newest, hpending, hlookup, retainedContent, hretained]
      exact hnewest
    | none =>
      rcases hcurrent with hmem | hcarried | hlast
      · rw [← AList.lookup_isSome, hlookup] at hmem
        exact absurd hmem (by simp)
      · exact .inr (hflight hcarried)
      · -- nothing else of the key stands between m_pending and the ring
        have hnone : entries.lookup u.key = none := by
          rw [hhand, List.map_cons, List.nodup_cons] at hnodup
          exact lookup_eq_none_of_notMem hnodup.1
        refine .inl ?_
        rw [newest, hpending, hlookup, hhand', hnone, lastWritten, haccepted, retainedContent,
          hretained]
        exact hlast
  · exact h.congr hpending hretained hstoring hreplay (written_of_drop hhand hhand' haccepted hkey)

/-! ### Both ends of a run -/

theorem Constructed.storeInv (h : s.Constructed) : s.StoreInv := by
  have hsnapshot : s.replay.snapshot = ∅ := by rw [h.replay]; rfl
  refine ⟨?_, ?_, ?_, ?_, ?_⟩
  · intro key r hr
    simp [h.retained] at hr
  · intro t e he
    simp [h.storing] at he
  · intro key v hv
    simp [h.pending] at hv
  · intro key w hw
    simp [hsnapshot] at hw
  · intro key v hv
    simp [h.pending] at hv

theorem Constructed.lineInv (h : s.Constructed) : s.LineInv := by
  refine ⟨fun c _ => h.opened.writers c, h.flush _, ?_, fun key => .inl ?_⟩
  · simp [inHand, h.flush, h.opened.writers, WriterPc.holds]
  · simp [newest, retainedContent, lastWritten, inHand, h.pending, h.retained, h.flush,
      h.opened.writers, h.opened.accepted, WriterPc.holds]

/-- Once all calls have finished and nothing is pending, the line is empty. -/
theorem LineInv.writesRetained (h : s.LineInv) (hflushed : s.Flushed) : s.WritesRetained := by
  intro key
  have hhand : s.inHand .worker = [] := by
    simp [inHand, hflushed.flush, h.idleOutside .worker (hflushed.flush .worker), WriterPc.holds]
  -- nobody carries a value, so what is foremost in the line was written
  rcases h.settled key with hnewest | ⟨c, -, ⟨t, ht⟩ | hcarries⟩
  · rw [newest, hflushed.pending, hhand] at hnewest
    simpa using hnewest
  · simp [hflushed.storing] at ht
  · simp [hflushed.replay, ReplayPc.snapshot] at hcarries

variable [DecidableEq κ] [DecidableEq ι]

/-! ### Values join the line -/

theorem Settled.storeRetained {t : κ} {key : ByteString} {type : ValueType}
    {value : VariableValue} (hnext : s.next (.storeRetained t key type value) = some s')
    (h : ∀ key, s.Settled key) (key' : ByteString) : s'.Settled key' := by
  obtain ⟨hstoring, rfl⟩ := next_storeRetained hnext
  by_cases hkey : key' = key
  · -- the new value is in flight
    subst hkey
    refine .inr ⟨(type, value), ?_, .inl ⟨t, ?_⟩⟩
    · simp [retainedContent, AList.lookup_insert, PendingValue.content]
    · simp [keyedEntry, PendingValue.content]
  · have hretained :
        (s.retained.insert key { type := type, value := value, call := s.calls }).lookup key' =
          s.retained.lookup key' := AList.lookup_insert_ne hkey
    rcases h key' with hnewest | ⟨c, hc, hcarries⟩
    · refine .inl ?_
      rw [retainedContent, hretained]
      exact hnewest
    · refine .inr ⟨c, ?_, hcarries.imp ?_ id⟩
      · rw [retainedContent, hretained]
        exact hc
      · rintro ⟨t', ht'⟩
        have hne : t' ≠ t := by
          rintro rfl
          simp [hstoring] at ht'
        exact ⟨t', by simpa only [Function.update_of_ne hne] using ht'⟩

theorem Settled.storePending {t : κ} (hnext : s.next (.storePending t) = some s')
    (hcurrent : s.CurrentStore (s.storing t)) (h : ∀ key, s.Settled key) (key' : ByteString) :
    s'.Settled key' := by
  obtain ⟨key, v, hstoring, rfl⟩ := next_storePending hnext
  rw [hstoring] at hcurrent
  -- whoever else carries a value carries it still
  have hcarries : ∀ c, c ≠ v.content ∨ key' ≠ key → s.Carries key' c → Carries { s with
      pending := s.pending.insert key v
      storing := Function.update s.storing t none } key' c := by
    intro c hc hcarries
    refine hcarries.imp ?_ id
    rintro ⟨t', ht'⟩
    have hne : t' ≠ t := by
      rintro rfl
      rw [hstoring, Option.map_some, Option.some.injEq, keyedEntry, Prod.mk.injEq] at ht'
      rcases hc with hc | hc
      · exact hc ht'.2.symm
      · exact hc ht'.1.symm
    exact ⟨t', by simpa only [Function.update_of_ne hne] using ht'⟩
  by_cases hkey : key' = key
  · subst hkey
    obtain ⟨c, hc, hflight⟩ := hcurrent.2
    by_cases hv : c = v.content
    · -- this call brings the retained value itself
      refine .inl ?_
      have hnewest : newest { s with
          pending := s.pending.insert key' v
          storing := Function.update s.storing t none } key' = some v.content := by
        simp [newest, AList.lookup_insert]
      rw [hnewest, ← hv]
      exact hc.symm
    · exact .inr ⟨c, hc, hcarries c (.inl hv) hflight⟩
  · rcases h key' with hnewest | ⟨c, hc, hflight⟩
    · refine .inl (Eq.trans ?_ hnewest)
      simp only [newest, AList.lookup_insert_ne hkey]
      rfl
    · exact .inr ⟨c, hc, hcarries c (.inr hkey) hflight⟩

theorem Settled.replayCopy (hnext : s.next .replayCopy = some s') {key : ByteString}
    (h : s.Settled key) : s'.Settled key := by
  obtain ⟨hreplay, rfl⟩ := next_replayCopy hnext
  refine h.imp id ?_
  rintro ⟨c, hc, hcarries⟩
  refine ⟨c, hc, .inl (hcarries.resolve_right ?_)⟩
  rw [hreplay]
  simp [ReplayPc.snapshot]

theorem Settled.replayMerge (hstore : s.StoreInv) (hnext : s.next .replayMerge = some s')
    {key : ByteString} (h : s.Settled key) : s'.Settled key := by
  obtain ⟨retainedCopy, hreplay, rfl⟩ := next_replayMerge hnext
  cases hcopy : retainedCopy.lookup key with
  | some w =>
    obtain ⟨r, hr, hcase⟩ := hstore.snapshot key w (by rw [hreplay]; exact hcopy)
    rcases hcase with rfl | ⟨-, t, ht⟩
    · -- the copy is what is retained
      refine .inl ?_
      simp [newest, retainedContent, lookup_mergeRetained, hcopy, Option.mem_def.mp hr]
    · -- the value that replaced it follows
      refine .inr ⟨r.content, ?_, .inl ⟨t, ?_⟩⟩
      · simp [retainedContent, Option.mem_def.mp hr]
      · simp [ht, keyedEntry]
  | none =>
    rcases h with hnewest | ⟨c, hc, hcarries⟩
    · refine .inl (Eq.trans ?_ hnewest)
      simp only [newest, lookup_mergeRetained, hcopy, Option.none_or]
      rfl
    · refine .inr ⟨c, hc, .inl (hcarries.resolve_right ?_)⟩
      rw [hreplay]
      simp [ReplayPc.snapshot, hcopy]

/-! ### The line moves forward -/

/-- The worker swaps the pending values out. -/
theorem LineInv.swap (h : s.LineInv) {order : List PendingEntry}
    (hnext : s.next (.swap .worker order) = some s') : s'.LineInv := by
  have hidle := h.idleOutside.step hnext
  obtain ⟨⟨hflush, -, hperm⟩, rfl⟩ := next_swap hnext
  have hpc := h.idleOutside .worker hflush
  have hnodup : order.keys.Nodup := (hperm.map Sigma.fst).nodup_iff.mpr s.pending.keys_nodup
  have hhand : s.inHand .worker = [] := by simp [inHand, hflush, hpc, WriterPc.holds]
  have hhand' : inHand { s with
      pending := ∅
      flush := Function.update s.flush .worker (some order)
      taken := s.taken ++ order } .worker = order.map keyedEntry := by
    simp [inHand, hpc, WriterPc.holds]
  refine ⟨hidle, by simpa using h.application, ?_, ?_⟩
  · rw [hhand', List.map_map]
    exact hnodup
  · intro key
    -- each key occurs once, whatever the order of iteration
    have horder : (order.map keyedEntry).lookup key =
        (s.pending.lookup key).map PendingValue.content := by
      rw [lookup_map_keyedEntry, List.perm_dlookup key hnodup hperm]
      rfl
    refine (h.settled key).imp (fun hnewest => Eq.trans ?_ hnewest) id
    rw [newest, newest, hhand', horder, hhand]
    simp [lastWritten]

/-- The worker takes a step inside `WriteUpsert`. -/
theorem LineInv.write (h : s.LineInv) {nowUs : UInt64}
    (hcurrent : s.CurrentDrop (s.channel.writers .worker))
    (hnext : s.next (.write .worker nowUs) = some s') : s'.LineInv := by
  have hidle := h.idleOutside.step hnext
  obtain ⟨channel, hwrite, hs'⟩ := next_onChannel hnext
  obtain ⟨ring, pc, hstep, rfl⟩ := Channel.next_write hwrite
  have hhand : s.inHand .worker = ((s.channel.writers .worker).publishes ++
      (s.channel.writers .worker).drops).map VariableUpdate.keyed ++ s'.inHand .worker := by
    rw [hs']
    simp [inHand, Channel.holds_writeStep hstep]
  have haccepted : s'.channel.accepted =
      s.channel.accepted ++ (s.channel.writers .worker).publishes := by
    rw [hs']
  have hflush : s'.flush = s.flush := by rw [hs']
  have hpending : s'.pending = s.pending := by rw [hs']
  have hretained : s'.retained = s.retained := by rw [hs']
  have hstoring : s'.storing = s.storing := by rw [hs']
  have hreplay : s'.replay = s.replay := by rw [hs']
  have hnodup := h.nodup
  rw [hhand, List.map_append] at hnodup
  refine ⟨hidle, by rw [hflush]; exact h.application, hnodup.of_append_right, ?_⟩
  intro key
  cases hpc : s.channel.writers .worker with
  | storeWriteIndex u cursor =>
    rw [hpc] at hhand haccepted
    exact (h.settled key).congr hpending hretained hstoring hreplay
      (written_of_publish hhand rfl h.nodup haccepted key)
  | countDrop u =>
    rw [hpc] at hhand haccepted hcurrent
    exact (h.settled key).drop hhand rfl h.nodup hcurrent hpending hretained hstoring hreplay
      (haccepted.trans (List.append_nil _))
  | idle | testSpace _ | loadWriteIndex _ | copyFrame _ _ | storePublished _ | returned _ _ =>
    rw [hpc] at hhand haccepted
    refine (h.settled key).congr hpending hretained hstoring hreplay ?_
    have haccepted := haccepted.trans (List.append_nil _)
    rw [written, written, hhand, lastWritten, lastWritten, haccepted]
    rfl

theorem LineInv.step (h : s.LineInv) (hstore : s.StoreInv) {a : Action κ ι}
    (hworker : a.OnWorker) (hcurrent : s.Current a) (hnext : s.next a = some s') :
    s'.LineInv := by
  have hidle := h.idleOutside.step hnext
  cases a with
  | storeRetained t key type value =>
    have hsettled := Settled.storeRetained hnext h.settled
    obtain ⟨-, rfl⟩ := next_storeRetained hnext
    exact ⟨hidle, h.application, h.nodup, hsettled⟩
  | storePending t =>
    have hsettled := Settled.storePending hnext hcurrent h.settled
    obtain ⟨key, v, -, rfl⟩ := next_storePending hnext
    exact ⟨hidle, h.application, h.nodup, hsettled⟩
  | replayCheck nowUs =>
    obtain ⟨hreplay, -, active, observed, replay, hcase, rfl⟩ := next_replayCheck hnext
    refine ⟨hidle, h.application, h.nodup, ?_⟩
    intro key
    have hsettled := h.settled key
    rw [Settled, InFlight] at hsettled ⊢
    simp only [Carries, hreplay] at hsettled ⊢
    rcases hcase with rfl | rfl <;> exact hsettled
  | replayCopy =>
    have hsettled := fun key => (h.settled key).replayCopy hnext
    obtain ⟨-, rfl⟩ := next_replayCopy hnext
    exact ⟨hidle, h.application, h.nodup, hsettled⟩
  | replayMerge =>
    have hsettled := fun key => (h.settled key).replayMerge hstore hnext
    obtain ⟨retainedCopy, -, rfl⟩ := next_replayMerge hnext
    exact ⟨hidle, h.application, h.nodup, hsettled⟩
  | swap c order =>
    obtain rfl : c = .worker := hworker
    exact h.swap hnext
  | write c nowUs =>
    cases c with
    | worker => exact h.write hcurrent hnext
    -- the application is outside `FlushNow` and takes no step
    | application =>
      obtain ⟨channel, hwrite, -⟩ := next_onChannel hnext
      obtain ⟨ring, pc, hstep, -⟩ := Channel.next_write hwrite
      rw [h.idleOutside .application h.application] at hstep
      exact absurd hstep (by simp [writeStep])
  | beginWrite c nowUs =>
    obtain ⟨e, rest, channel, hflush, hcall, rfl⟩ := next_beginWrite hnext
    obtain ⟨hpc, rfl⟩ := Channel.next_call hcall
    cases c with
    | worker =>
      refine h.congr hidle (by simpa using h.application) rfl rfl rfl rfl ?_ rfl
      simp [inHand, hflush, hpc, WriterPc.holds]
    | application => simp [h.application] at hflush
  | endWrite c =>
    obtain ⟨droppedCount, channel, hleave, rfl⟩ := next_endWrite hnext
    obtain ⟨wrote, dropped, hpc, rfl⟩ := Channel.next_leave hleave
    cases c with
    | worker =>
      refine h.congr hidle h.application rfl rfl rfl rfl ?_ rfl
      simp [inHand, hpc, WriterPc.holds]
    | application => simp [h.idleOutside .application h.application] at hpc
  | endFlush c nowUs =>
    obtain ⟨hflush, hpc, rfl⟩ := next_endFlush hnext
    cases c with
    | worker =>
      refine h.congr hidle (by simpa using h.application) rfl rfl rfl rfl ?_ rfl
      simp [inHand, hflush]
    | application => simp [h.application] at hflush
  | start _ _ | read _ _ _ | stop _ =>
    obtain ⟨channel, hstep, rfl⟩ := next_onChannel hnext
    obtain ⟨hwriters, haccepted, -⟩ := Channel.next_of_caller_eq_none rfl hstep
    refine h.congr hidle h.application rfl rfl rfl rfl ?_ haccepted
    rw [inHand, inHand, hwriters]

/-! ### The run -/

/-- With the worker as the only caller of `FlushNow`, in every run whose steps are all current: once
all calls have finished and a flush has taken what they left, the value last written for each key is
the retained one; and no replay replaces a pending value by an older one. -/
theorem retained_written (hstart : s₀.Constructed) {actions : List (Action κ ι)}
    (hworker : ∀ a ∈ actions, a.OnWorker) (hcurrent : EveryStep next Current s₀ actions)
    (hrun : run next s₀ actions = some s) :
    (s.Flushed → s.WritesRetained) ∧ s.KeepsNewer := by
  have h : s.StoreInv ∧ s.LineInv :=
    run_induction_of_everyStep (P := fun s : Publisher κ ι => s.StoreInv ∧ s.LineInv)
      (fun _ _ _ hs ha hnext => ⟨hs.1.step ha.2 hnext, hs.2.step hs.1 ha.1 ha.2 hnext⟩)
      ⟨hstart.storeInv, hstart.lineInv⟩ ((everyStep_of_forall_mem hworker).and hcurrent) hrun
  exact ⟨h.2.writesRetained, h.1.keepsNewer⟩

/-! ### A replay overtaken -/

theorem attachedPublisher_constructed : attachedPublisher.Constructed :=
  ⟨attachedPublisher_started, rfl, rfl⟩

/-- A flag is published. -/
def flagStored (value : Bool) : List (Action Unit Unit) :=
  [.storeRetained () [97] .bool { boolValue := value }, .storePending ()]

/-- The subscriber takes a turn and the worker finds it active. -/
def consumerFound : List (Action Unit Unit) :=
  List.replicate 3 (.read () false 1) ++ [.replayCheck 2, .replayCopy]

/-- The worker merges its copy and flushes the one flag that is pending. -/
def flagReplayed (value : Bool) (call : ℕ) : List (Action Unit Unit) :=
  [.replayMerge,
    .swap .worker [⟨[97], { type := .bool, value := { boolValue := value }, call := call }⟩]] ++
    flagFlushed .worker

theorem retained_written_replayed :
    ((run next attachedPublisher (flagStored true ++ consumerFound ++ flagReplayed true 0)).get
      (by decide)).WritesRetained :=
  (retained_written attachedPublisher_constructed (by decide) (by decide)
    (Option.some_get _).symm).1 ⟨by decide, by decide, by decide, AList.ext (by decide)⟩

/-- The claim that the ring ends up with the retained values, whoever overtakes whom. -/
def EveryRunWritesRetained (κ ι : Type) [DecidableEq κ] [DecidableEq ι] : Prop :=
  ∀ (s₀ s : Publisher κ ι) (actions : List (Action κ ι)), s₀.Constructed →
    (∀ a ∈ actions, a.OnWorker) → run next s₀ actions = some s → s.channel.refused = [] →
    (s.Flushed → s.WritesRetained) ∧ s.KeepsNewer

/-- The flag changes between the copy of a replay and its merge: the ring keeps the old value. -/
theorem replay_loses_newer_value : ¬ EveryRunWritesRetained Unit Unit := by
  intro hall
  let actions := flagStored true ++ consumerFound ++ flagStored false ++ flagReplayed true 0
  let s := (run next attachedPublisher actions).get (by decide)
  have hwritten := (hall attachedPublisher s actions attachedPublisher_constructed (by decide)
    (Option.some_get _).symm (by decide)).1 ⟨by decide, by decide, by decide, AList.ext (by decide)⟩
  exact absurd (hwritten [97]) (by decide)

end Publisher

end SmartDashboard.Direct
