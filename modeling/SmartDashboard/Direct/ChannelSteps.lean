import SmartDashboard.Direct.ChannelInvariant

/-!
# The steps of the direct channel

Every exclusive and covered step keeps the invariant. The copy of a frame then lands on bytes that
nobody reads, and its publication appends it to what each subscriber has in front of it.
-/

namespace SmartDashboard.Direct

open CircularMemory Execution

namespace Channel

variable {τ ι : Type*} {base : ℕ} {s s' : Channel τ ι}

/-! ### Callers of WriteUpsert -/

section Writers

variable [DecidableEq τ]

/-- Bytes are copied behind the accepted frames by the only caller in the copy. -/
theorem Inv.replacePayload (h : Inv base s) {t : τ} {u : VariableUpdate} {payload : ℕ → UInt8}
    {cursor : UInt32} (hself : (s.writers t).InCopy)
    (hlen : u.frameBytes.length < s.ring.capacity.toNat)
    (hcursor : IsIndex s.ring.capacity cursor
      (base + streamLength s.accepted + u.frameBytes.length))
    (hframe : window s.ring.capacity.toNat payload (base + streamLength s.accepted)
      u.frameBytes.length = u.frameBytes)
    (hkept : ∀ i front back, s.accepted = front ++ back → (s.subscribers i).pc ≠ .stopped →
      Tracks base s.ring (s.subscribers i).readCursor front back →
      Tracks base { s.ring with payload := payload } (s.subscribers i).readCursor front back) :
    Inv base { s with
      ring := { s.ring with payload := payload }
      writers := Function.update s.writers t (.storeWriteIndex u cursor) } := by
  -- nobody else is in the copy, so nobody else relies on the payload
  have hother : ∀ t', t' ≠ t → ¬ (s.writers t').InCopy := fun t' ht hcopy =>
    ht (h.exclusive t' t hcopy hself)
  have hmine : ∀ {t'}, WriterPc.InCopy
      (Function.update s.writers t (.storeWriteIndex u cursor) t') → t' = t := by
    intro t' hcopy
    by_contra ht
    rw [Function.update_of_ne ht] at hcopy
    exact hother t' ht hcopy
  refine ⟨h.capacity, h.writeIndex, ?_, ?_, fun t₁ t₂ h₁ h₂ =>
    (hmine h₁).trans (hmine h₂).symm⟩
  · intro i
    obtain ⟨seen, back, haccepted, hdelivered, htracks, hread⟩ := h.subscribers i
    exact ⟨seen, back, haccepted, hdelivered,
      fun hrun => hkept i _ _ haccepted hrun (htracks hrun), hread⟩
  · intro t'
    by_cases ht : t' = t
    · subst ht
      simp only [Function.update_self]
      exact ⟨hlen, hcursor, hframe⟩
    · simp only [Function.update_of_ne ht]
      refine WriterInv.of_not_inCopy (s := s) ?_ (hother t' ht) (h.writers t')
      rfl

/-- The copy of a frame. -/
theorem Inv.copyFrame (h : Inv base s) {t : τ} {u : VariableUpdate} {writeIndex : UInt32}
    (hpc : s.writers t = .copyFrame u writeIndex)
    (hcovered : ∀ i, unreadBytes s.ring (s.subscribers i) + u.frameBytes.length ≤
      s.ring.capacity.toNat) :
    Inv base { s with
      ring := (s.ring.copyFrame u writeIndex).1
      writers := Function.update s.writers t
        (.storeWriteIndex u (s.ring.copyFrame u writeIndex).2) } := by
  obtain ⟨hlen, hindex⟩ : s.WriterInv base (.copyFrame u writeIndex) := hpc ▸ h.writers t
  obtain ⟨hring, hcursor⟩ := Ring.copyFrame_eq h.capacity hindex (Nat.le_of_lt hlen)
  have hself : (s.writers t).InCopy := by rw [hpc]; exact trivial
  rw [hring]
  refine h.replacePayload hself hlen hcursor (window_blit_self _ (Nat.le_of_lt hlen)) ?_
  intro i front back haccepted hrun htracks
  have hroom := hcovered i
  rw [h.unreadBytes_eq hrun haccepted htracks] at hroom
  rw [haccepted]
  exact htracks.blit hroom

/-- The publication of a frame. -/
theorem Inv.storeWriteIndex (h : Inv base s) {t : τ} {u : VariableUpdate} {cursor : UInt32}
    (hpc : s.writers t = .storeWriteIndex u cursor)
    (hcovered : ∀ i, unreadBytes s.ring (s.subscribers i) + u.frameBytes.length <
      s.ring.capacity.toNat) :
    Inv base { s with
      ring := s.ring.storeWriteIndex cursor
      writers := Function.update s.writers t (.storePublished u)
      accepted := s.accepted ++ [u] } := by
  obtain ⟨-, hcursor, hframe⟩ : s.WriterInv base (.storeWriteIndex u cursor) :=
    hpc ▸ h.writers t
  have hself : (s.writers t).InCopy := by rw [hpc]; exact trivial
  have hother : ∀ t', ¬ WriterPc.InCopy (Function.update s.writers t (.storePublished u) t') := by
    intro t' hcopy
    by_cases ht : t' = t
    · subst ht
      rw [Function.update_self] at hcopy
      exact hcopy
    · rw [Function.update_of_ne ht] at hcopy
      exact ht (h.exclusive t' t hcopy hself)
  refine ⟨h.capacity, ?_, ?_, ?_, fun t₁ _ h₁ _ => absurd h₁ (hother t₁)⟩
  · show IsIndex s.ring.capacity cursor (base + streamLength (s.accepted ++ [u]))
    rw [streamLength_append, streamLength_cons, streamLength_nil, Nat.add_zero, ← Nat.add_assoc]
    exact hcursor
  · intro i
    obtain ⟨seen, back, haccepted, hdelivered, htracks, hread⟩ := h.subscribers i
    refine ⟨seen, back ++ [u], ?_, hdelivered, fun hrun => ?_, fun _ _ => by simp⟩
    · show s.accepted ++ [u] = _
      rw [haccepted, List.append_assoc _ back]
    · have hroom := hcovered i
      rw [h.unreadBytes_eq hrun haccepted (htracks hrun)] at hroom
      rw [haccepted] at hframe
      exact ((htracks hrun).publish hroom hframe).congr rfl rfl
  · intro t'
    have hnot := hother t'
    by_cases ht : t' = t
    · subst ht
      simp only [Function.update_self]
      exact trivial
    · simp only [Function.update_of_ne ht] at hnot ⊢
      refine WriterInv.of_not_inCopy (s := s) ?_ hnot (h.writers t')
      rfl

/-- A step inside `WriteUpsert`. -/
theorem Inv.write [DecidableEq ι] (h : Inv base s) {t : τ} {nowUs : UInt64}
    (hexclusive : s.ExclusiveAt (s.writers t)) (hcovered : s.CoveredAt (s.writers t))
    (hnext : s.next (.write t nowUs) = some s') : Inv base s' := by
  have hpassed := h.writers t
  rcases next_write_cases hnext with ⟨u, hpc, rfl⟩ | ⟨u, hpc, rfl⟩ | ⟨u, hpc, rfl⟩ |
    ⟨u, writeIndex, hpc, rfl⟩ | ⟨u, cursor, hpc, rfl⟩ | ⟨u, hpc, rfl⟩
  · -- a frame that passes the test is shorter than the ring
    refine h.updateWriter (SameFrames.refl _) ?_ ?_
    · split_ifs with hfits
      · simp only [Ring.frameFits, Bool.and_eq_true, decide_eq_true_eq] at hfits
        have hlen := UInt32.lt_iff_toNat_lt.mp hfits.1
        rwa [u.toNat_totalBytes] at hlen
      · exact trivial
    · split_ifs <;> exact fun hcopy => absurd hcopy id
  · -- the drop is counted
    exact h.updateWriter ⟨rfl, rfl, rfl⟩ trivial fun hcopy => absurd hcopy id
  · -- the loaded index is the end of the accepted frames, and nobody else is about to move it
    rw [hpc] at hexclusive hpassed
    refine h.updateWriter (SameFrames.refl _) ⟨hpassed, h.writeIndex⟩ ?_
    intro _ t' _
    exact hexclusive t'
  · -- the frame is copied onto bytes that nobody has to read
    rw [hpc] at hcovered
    apply h.copyFrame hpc
    intro i
    rw [← u.toNat_totalBytes]
    exact hcovered i
  · -- the frame is published
    rw [hpc] at hcovered
    apply h.storeWriteIndex hpc
    intro i
    rw [← u.toNat_totalBytes]
    exact hcovered i
  · -- the sequence number and the heartbeat follow
    exact h.updateWriter ⟨rfl, rfl, rfl⟩ trivial fun hcopy => absurd hcopy id

end Writers

/-! ### Subscribers -/

section Subscribers

variable [DecidableEq ι]

theorem Inv.start [DecidableEq τ] (h : Inv base s) {i : ι} {instanceId : UInt64}
    (hnext : s.next (.start i instanceId) = some s') : Inv base s' := by
  obtain ⟨-, rfl⟩ := next_start hnext
  have htracks : Tracks base s.ring s.ring.header.writeIndex (s.accepted ++ []) [] := by
    rw [List.append_nil]
    exact ⟨h.writeIndex, rfl, h.capacity.1⟩
  refine h.updateSubscriber (SameFrames.refl _) ?_
  exact ⟨[], [], by simp, rfl, fun _ => htracks, fun _ hread => by simp at hread⟩

theorem Inv.stop [DecidableEq τ] (h : Inv base s) {i : ι} (hnext : s.next (.stop i) = some s') :
    Inv base s' := by
  obtain ⟨hpc, rfl⟩ := next_stop hnext
  obtain ⟨seen, back, haccepted, hdelivered, -, -⟩ := h.subscribers i
  rw [hpc] at hdelivered
  refine h.updateSubscriber (SameFrames.refl _) ?_
  exact ⟨seen, back, haccepted, hdelivered, fun hrun => absurd rfl hrun,
    fun _ hread => by simp at hread⟩

/-- A subscriber moves on without moving its cursor. -/
theorem Inv.movePc (h : Inv base s) {i : ι} {ring : Ring} (hframes : SameFrames s.ring ring)
    {pc : SubscriberPc} (hrun : (s.subscribers i).pc ≠ .stopped)
    (hholds : pc.holds = (s.subscribers i).pc.holds)
    (hread : ∀ writeIndex, pc = .copyFrame writeIndex →
      (s.subscribers i).readCursor ≠ s.ring.header.writeIndex) :
    Inv base { s with
      ring := ring
      subscribers := Function.update s.subscribers i { s.subscribers i with pc := pc } } := by
  obtain ⟨seen, back, haccepted, hdelivered, htracks, -⟩ := h.subscribers i
  refine h.updateSubscriber hframes ⟨seen, back, haccepted, hholds ▸ hdelivered,
    fun _ => htracks hrun, ?_⟩
  intro writeIndex hpc hback
  -- a cursor with nothing in front of it is the writer's
  have hwrite := h.writeIndex
  have hindex := (htracks hrun).index
  rw [haccepted, hback, List.append_nil] at hwrite
  exact hread writeIndex hpc (UInt32.toNat_inj.mp (hindex.trans hwrite.symm))

omit [DecidableEq ι] in
/-- What a subscriber finds when it copies a frame out. -/
theorem Inv.frameInFront (h : Inv base s) {i : ι} {writeIndex : UInt32}
    (hpc : (s.subscribers i).pc = .copyFrame writeIndex) :
    ∃ seen u rest cursor, s.accepted = (s.subscribers i).missed ++ (seen ++ [u]) ++ rest ∧
      (s.subscribers i).delivered = seen.map VariableUpdate.normalise ∧
      s.ring.readFrame (s.subscribers i).readCursor writeIndex = (cursor, some u.normalise) ∧
      Tracks base s.ring cursor ((s.subscribers i).missed ++ (seen ++ [u])) rest ∧
      (s.ring.usedFrom cursor).toNat ≤ unreadBytes s.ring (s.subscribers i) := by
  obtain ⟨seen, back, haccepted, hdelivered, htracks, hread⟩ := h.subscribers i
  have htracks := htracks (by simp [hpc])
  cases back with
  | nil => exact absurd rfl (hread writeIndex hpc)
  | cons u rest =>
    obtain ⟨cursor, hframe, htracks'⟩ := htracks.readFrame h.capacity writeIndex
    rw [List.append_assoc] at htracks'
    have haccepted' : s.accepted = (s.subscribers i).missed ++ (seen ++ [u]) ++ rest := by
      rw [haccepted]
      simp
    rw [hpc] at hdelivered
    refine ⟨seen, u, rest, cursor, haccepted', by simpa [SubscriberPc.holds] using hdelivered,
      hframe, htracks', ?_⟩
    have hwrite := h.writeIndex
    rw [haccepted'] at hwrite
    rw [htracks'.toNat_usedFrom h.capacity hwrite,
      h.unreadBytes_eq (by simp [hpc]) haccepted htracks, streamLength_cons]
    omega

/-- A step of a started subscriber. -/
theorem Inv.read [DecidableEq τ] (h : Inv base s) {i : ι} {waitFailed : Bool} {nowUs : UInt64}
    (hnext : s.next (.read i waitFailed nowUs) = some s') : Inv base s' := by
  cases hpc : (s.subscribers i).pc with
  | stopped => simp [next, readStep, hpc] at hnext
  | starting =>
    simp only [next, readStep, hpc, Option.map_some, Option.some.injEq] at hnext
    subst hnext
    refine h.movePc (SameFrames.storeReadIndex s.ring _) ?_ ?_ ?_ <;>
      simp [hpc, SubscriberPc.holds]
  | waiting =>
    simp only [next, readStep, hpc, Option.map_some, Option.some.injEq] at hnext
    subst hnext
    cases waitFailed <;>
      exact h.movePc (SameFrames.refl _) (by simp [hpc]) (by rw [hpc]; rfl) (by simp)
  | loadWriteIndex =>
    simp only [next, readStep, hpc, Option.map_some, Option.some.injEq] at hnext
    subst hnext
    split_ifs with hempty
    · exact h.movePc (SameFrames.refl _) (by simp [hpc]) (by rw [hpc]; rfl) (by simp)
    · exact h.movePc (SameFrames.refl _) (by simp [hpc]) (by rw [hpc]; rfl)
        fun _ _ => hempty
  | copyFrame writeIndex =>
    -- the frame in front of the cursor joins what was read
    obtain ⟨seen, u, rest, cursor, haccepted, hdelivered, hframe, htracks, -⟩ :=
      h.frameInFront hpc
    simp only [next, readStep, hpc, hframe, Option.map_some, Option.some.injEq] at hnext
    subst hnext
    refine h.updateSubscriber (SameFrames.storeConsumerHeartbeat _ _) ⟨seen ++ [u], rest,
      haccepted, ?_, fun _ => htracks, fun _ hread => by simp at hread⟩
    simp [SubscriberPc.holds, hdelivered]
  | deliver u =>
    -- the update moves from the subscriber's hand to its callback
    obtain ⟨seen, back, haccepted, hdelivered, htracks, -⟩ := h.subscribers i
    simp only [next, readStep, hpc, Option.map_some, Option.some.injEq] at hnext
    subst hnext
    refine h.updateSubscriber (SameFrames.refl _) ⟨seen, back, haccepted, ?_,
      fun _ => htracks (by simp [hpc]), fun _ hread => by simp at hread⟩
    rw [hpc] at hdelivered
    simpa [SubscriberPc.holds] using hdelivered
  | storeReadIndex =>
    simp only [next, readStep, hpc, Option.map_some, Option.some.injEq] at hnext
    subst hnext
    refine h.movePc (SameFrames.storeConsumer s.ring _ _ _) ?_ ?_ ?_ <;>
      simp [hpc, SubscriberPc.holds]

end Subscribers

/-- One step of anybody. -/
theorem Inv.step [DecidableEq τ] [DecidableEq ι] (h : Inv base s) {a : Action τ ι}
    (hexclusive : s.Exclusive a) (hcovered : s.Covered a) (hnext : s.next a = some s') :
    Inv base s' := by
  cases a with
  | call t u =>
    obtain ⟨-, rfl⟩ := next_call hnext
    exact h.updateWriter (SameFrames.refl _) trivial fun hcopy => absurd hcopy id
  | write t nowUs => exact h.write hexclusive hcovered hnext
  | leave t =>
    obtain ⟨-, -, -, rfl⟩ := next_leave hnext
    exact h.updateWriter (SameFrames.refl _) trivial fun hcopy => absurd hcopy id
  | start i instanceId => exact h.start hnext
  | read i waitFailed nowUs => exact h.read hnext
  | stop i => exact h.stop hnext

/-! ### What every step leaves alone -/

/-- A single caller is always alone. -/
theorem exclusive_of_subsingleton {τ ι : Type*} [Subsingleton τ] (s : Channel τ ι)
    (a : Action τ ι) : s.Exclusive a := by
  cases a with
  | write t nowUs =>
    show s.ExclusiveAt (s.writers t)
    cases hpc : s.writers t with
    | loadWriteIndex u =>
      intro t' hcopy
      rw [Subsingleton.elim t' t, hpc] at hcopy
      exact hcopy
    | idle | testSpace _ | countDrop _ | copyFrame _ _ | storeWriteIndex _ _ | storePublished _
    | returned _ _ => exact trivial
  | call _ _ | leave _ | start _ _ | read _ _ _ | stop _ => exact trivial

section Frames

variable [DecidableEq τ] [DecidableEq ι]

/-- Only the copy of a frame writes to the payload. -/
theorem payload_next {a : Action τ ι} (hnext : s.next a = some s') :
    s'.ring.payload = s.ring.payload ∨
      ∃ t u writeIndex, s.writers t = .copyFrame u writeIndex ∧
        s'.ring.payload = (s.ring.copyFrame u writeIndex).1.payload := by
  cases a with
  | call t u =>
    obtain ⟨-, rfl⟩ := next_call hnext
    exact .inl rfl
  | write t nowUs =>
    rcases next_write_cases hnext with ⟨u, -, rfl⟩ | ⟨u, -, rfl⟩ | ⟨u, -, rfl⟩ |
      ⟨u, writeIndex, hpc, rfl⟩ | ⟨u, cursor, -, rfl⟩ | ⟨u, -, rfl⟩
    · exact .inl rfl
    · exact .inl rfl
    · exact .inl rfl
    · exact .inr ⟨t, u, writeIndex, hpc, rfl⟩
    · exact .inl rfl
    · exact .inl rfl
  | leave t =>
    obtain ⟨-, -, -, rfl⟩ := next_leave hnext
    exact .inl rfl
  | start i instanceId =>
    obtain ⟨-, rfl⟩ := next_start hnext
    exact .inl rfl
  | read i waitFailed nowUs =>
    obtain ⟨ring, sub, hstep, rfl⟩ := next_read hnext
    exact .inl (sameFrames_readStep hstep).1.payload
  | stop i =>
    obtain ⟨-, rfl⟩ := next_stop hnext
    exact .inl rfl

/-- `droppedCount` counts the refused writes. -/
theorem droppedCount_next {a : Action τ ι} (hnext : s.next a = some s') :
    ∃ drops, s'.refused = s.refused ++ drops ∧
      s'.ring.header.droppedCount =
        s.ring.header.droppedCount + UInt64.ofNat drops.length := by
  have hnone : ∀ {s' : Channel τ ι}, s'.refused = s.refused →
      s'.ring.header.droppedCount = s.ring.header.droppedCount →
      ∃ drops, s'.refused = s.refused ++ drops ∧
        s'.ring.header.droppedCount =
          s.ring.header.droppedCount + UInt64.ofNat drops.length :=
    fun hrefused hcount => ⟨[], by simpa using hrefused, by simpa using hcount⟩
  cases a with
  | call t u =>
    obtain ⟨-, rfl⟩ := next_call hnext
    exact hnone rfl rfl
  | write t nowUs =>
    rcases next_write_cases hnext with ⟨u, -, rfl⟩ | ⟨u, -, rfl⟩ | ⟨u, -, rfl⟩ |
      ⟨u, writeIndex, -, rfl⟩ | ⟨u, cursor, -, rfl⟩ | ⟨u, -, rfl⟩
    · exact hnone rfl rfl
    · exact ⟨[u], rfl, rfl⟩
    · exact hnone rfl rfl
    · exact hnone rfl rfl
    · exact hnone rfl rfl
    · exact hnone rfl rfl
  | leave t =>
    obtain ⟨-, -, -, rfl⟩ := next_leave hnext
    exact hnone rfl rfl
  | start i instanceId =>
    obtain ⟨-, rfl⟩ := next_start hnext
    exact hnone rfl rfl
  | read i waitFailed nowUs =>
    obtain ⟨ring, sub, hstep, rfl⟩ := next_read hnext
    exact hnone rfl (sameFrames_readStep hstep).2
  | stop i =>
    obtain ⟨-, rfl⟩ := next_stop hnext
    exact hnone rfl rfl

theorem droppedCount_run {s₀ s : Channel τ ι} {actions : List (Action τ ι)}
    (hrun : run next s₀ actions = some s) :
    s.ring.header.droppedCount + UInt64.ofNat s₀.refused.length =
      s₀.ring.header.droppedCount + UInt64.ofNat s.refused.length := by
  refine run_induction (P := fun s : Channel τ ι =>
    s.ring.header.droppedCount + UInt64.ofNat s₀.refused.length =
      s₀.ring.header.droppedCount + UInt64.ofNat s.refused.length) ?_ rfl hrun
  intro s a s' hs hnext
  obtain ⟨drops, hrefused, hcount⟩ := droppedCount_next hnext
  rw [hcount, hrefused, List.length_append, UInt64.ofNat_add, ← UInt64.add_assoc, ← hs,
    UInt64.add_assoc, UInt64.add_assoc, UInt64.add_comm (UInt64.ofNat drops.length)]

end Frames

end Channel

end SmartDashboard.Direct
