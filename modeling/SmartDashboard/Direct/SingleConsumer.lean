import SmartDashboard.Direct.ChannelSteps

/-!
# One producer, one subscriber

With a single subscriber the shared `consumerReadIndex` trails its cursor, so what the producer's
test leaves free is free, however stale the index was. Every step of the producer is then covered
and the channel delivers the accepted writes in order.

## Main definitions

- `Trails`: the shared index and the frame that has passed the test, relative to the cursor
- `Attached`: the state in which both parties start
-/

namespace SmartDashboard.Direct

open CircularMemory Execution

/-- The frame that has passed the free-space test and is not published yet. -/
def WriterPc.passed : WriterPc → List VariableUpdate
  | .loadWriteIndex u | .copyFrame u _ | .storeWriteIndex u _ => [u]
  | _ => []

namespace Channel

/-- The channel of one caller and one subscriber. -/
abbrev Pair := Channel Unit Unit

/-- The shared index stands behind the frames `acked`; what follows them covers what the
subscriber has not read, and leaves room for a frame that has passed the test. -/
def Trails (base : ℕ) (s : Pair) : Prop :=
  ∃ acked tail, s.accepted = acked ++ tail ∧
    IsIndex s.ring.capacity s.ring.header.consumerReadIndex (base + streamLength acked) ∧
    unreadBytes s.ring (s.subscribers ()) ≤ streamLength tail ∧
    streamLength tail + streamLength (s.writers ()).passed < s.ring.capacity.toNat

/-- Both parties are attached and idle, and the three indices agree. -/
structure Attached (s : Pair) : Prop extends s.Opened where
  consumerReadIndex : s.ring.header.consumerReadIndex = s.ring.header.writeIndex
  waiting : (s.subscribers ()).pc = .waiting
  readCursor : (s.subscribers ()).readCursor = s.ring.header.writeIndex

/-- The invariant of the pair while its subscriber is not stopped. -/
structure PairInv (base : ℕ) (s : Pair) : Prop where
  inv : Inv base s
  trails : s.Trails base
  running : (s.subscribers ()).pc ≠ .stopped
  missed : (s.subscribers ()).missed = []

variable {base : ℕ} {s s' : Pair}

theorem Attached.pairInv (h : Attached s) : PairInv s.ring.header.writeIndex.toNat s := by
  have hinv := h.toOpened.inv
  have hrun : (s.subscribers ()).pc ≠ .stopped := by simp [h.waiting]
  have hindex := hinv.writeIndex
  have htracks : Tracks s.ring.header.writeIndex.toNat s.ring (s.subscribers ()).readCursor
      s.accepted [] := by
    rw [h.readCursor]
    exact ⟨hindex, rfl, hinv.capacity.1⟩
  refine ⟨hinv, ⟨s.accepted, [], (List.append_nil _).symm, ?_, ?_, ?_⟩, hrun, h.missed ()⟩
  · rw [h.consumerReadIndex]
    exact hindex
  · exact Nat.le_of_eq (hinv.unreadBytes_eq hrun (List.append_nil _).symm htracks)
  · rw [h.writers]
    exact hinv.capacity.1

/-- With one subscriber behind a trailing index the free-space test is honest. -/
theorem PairInv.covered (h : PairInv base s) (a : Action Unit Unit) : s.Covered a := by
  cases a with
  | write t nowUs =>
    obtain ⟨acked, tail, -, -, hunread, hroom⟩ := h.trails
    show s.CoveredAt (s.writers ())
    cases hpc : s.writers () with
    | copyFrame u _ | storeWriteIndex u _ =>
      intro i
      have hunread : unreadBytes s.ring (s.subscribers i) ≤ streamLength tail := hunread
      rw [hpc, WriterPc.passed, streamLength_cons, streamLength_nil] at hroom
      rw [u.toNat_totalBytes]
      omega
    | idle | testSpace _ | countDrop _ | loadWriteIndex _ | storePublished _ | returned _ _ =>
      exact trivial
  | call _ _ | leave _ | start _ _ | read _ _ _ | stop _ => exact trivial

/-! ### The shared index keeps trailing -/

/-- A step of the caller that publishes nothing. -/
theorem Trails.updateWriter (h : s.Trails base) {pc : WriterPc} {ring : Ring}
    {refused : List VariableUpdate} (hcap : ring.capacity = s.ring.capacity)
    (hheader : ring.header.writeIndex = s.ring.header.writeIndex ∧
      ring.header.consumerReadIndex = s.ring.header.consumerReadIndex)
    (hpassed : ∀ acked tail, s.accepted = acked ++ tail →
      IsIndex s.ring.capacity s.ring.header.consumerReadIndex (base + streamLength acked) →
      streamLength tail + streamLength (s.writers ()).passed < s.ring.capacity.toNat →
      streamLength tail + streamLength pc.passed < s.ring.capacity.toNat) :
    Trails base { s with
      ring := ring, writers := Function.update s.writers () pc, refused := refused } := by
  obtain ⟨acked, tail, haccepted, hindex, hunread, hroom⟩ := h
  refine ⟨acked, tail, haccepted, ?_, ?_, ?_⟩
  · rw [hcap, hheader.2]
    exact hindex
  · have hused : ∀ cursor, ring.usedFrom cursor = s.ring.usedFrom cursor := fun cursor => by
      rw [Ring.usedFrom, Ring.usedFrom, hcap, hheader.1]
    simpa only [unreadBytes, hused] using hunread
  · simp only [Function.update_self, hcap]
    exact hpassed acked tail haccepted hindex hroom

/-- The same for a step that leaves the frame that has passed the test as it is. -/
theorem Trails.updateWriter_of_passed (h : s.Trails base) {pc : WriterPc} {ring : Ring}
    {refused : List VariableUpdate} (hcap : ring.capacity = s.ring.capacity)
    (hheader : ring.header.writeIndex = s.ring.header.writeIndex ∧
      ring.header.consumerReadIndex = s.ring.header.consumerReadIndex)
    (hpassed : pc.passed = (s.writers ()).passed) :
    Trails base { s with
      ring := ring, writers := Function.update s.writers () pc, refused := refused } := by
  refine h.updateWriter hcap hheader ?_
  intro _ _ _ _ hroom
  rw [hpassed]
  exact hroom

/-- A step of the subscriber that leaves the shared index alone. -/
theorem Trails.updateSubscriber (h : s.Trails base) {sub : Subscriber} {ring : Ring}
    (hframes : SameFrames s.ring ring)
    (hheader : ring.header.consumerReadIndex = s.ring.header.consumerReadIndex)
    (hunread : unreadBytes s.ring sub ≤ unreadBytes s.ring (s.subscribers ())) :
    Trails base { s with
      ring := ring, subscribers := Function.update s.subscribers () sub } := by
  obtain ⟨acked, tail, haccepted, hindex, hold, hroom⟩ := h
  refine ⟨acked, tail, haccepted, ?_, ?_, ?_⟩
  · rw [hframes.capacity, hheader]
    exact hindex
  · simp only [Function.update_self]
    rw [hframes.unreadBytes]
    exact hunread.trans hold
  · rw [hframes.capacity]
    exact hroom

/-- The subscriber stores its cursor: the shared index catches up. -/
theorem PairInv.acknowledge (h : PairInv base s) {ring : Ring} {pc : SubscriberPc}
    (hframes : SameFrames s.ring ring) (hpc : pc ≠ .stopped)
    (hheader : ring.header.consumerReadIndex = (s.subscribers ()).readCursor) :
    Trails base { s with
      ring := ring
      subscribers := Function.update s.subscribers () { s.subscribers () with pc := pc } } := by
  obtain ⟨seen, back, haccepted, -, htracks, -⟩ := h.inv.subscribers ()
  have htracks := htracks h.running
  obtain ⟨acked, tail, -, -, hunread, hroom⟩ := h.trails
  have hback := h.inv.unreadBytes_eq h.running haccepted htracks
  refine ⟨(s.subscribers ()).missed ++ seen, back, haccepted, ?_, ?_, ?_⟩
  · rw [hframes.capacity, hheader]
    exact htracks.index
  · simp only [Function.update_self]
    rw [hframes.unreadBytes, ← hback]
    simp [unreadBytes, hpc, h.running]
  · rw [hframes.capacity]
    show streamLength back + streamLength (s.writers ()).passed < _
    omega

/-- The caller publishes its frame: it joins what follows the shared index. -/
theorem PairInv.publish (h : PairInv base s) {u : VariableUpdate} {cursor : UInt32}
    (hpc : s.writers () = .storeWriteIndex u cursor) :
    Trails base { s with
      ring := s.ring.storeWriteIndex cursor
      writers := Function.update s.writers () (.storePublished u)
      accepted := s.accepted ++ [u] } := by
  obtain ⟨acked, tail, haccepted, hindex, hunread, hroom⟩ := h.trails
  obtain ⟨seen, back, hparts, -, htracks, -⟩ := h.inv.subscribers ()
  have htracks := htracks h.running
  obtain ⟨-, hcursor, -⟩ : s.WriterInv base (.storeWriteIndex u cursor) := hpc ▸ h.inv.writers ()
  have hback := h.inv.unreadBytes_eq h.running hparts htracks
  rw [hpc, WriterPc.passed, streamLength_cons, streamLength_nil, Nat.add_zero] at hroom
  refine ⟨acked, tail ++ [u], ?_, hindex, ?_, ?_⟩
  · show s.accepted ++ [u] = _
    rw [haccepted, List.append_assoc]
  · -- what the subscriber has not read grows by the frame as well
    have hwrite : IsIndex s.ring.capacity cursor
        (base + streamLength ((s.subscribers ()).missed ++ seen) +
          (streamLength back + u.frameBytes.length)) := by
      rw [hparts, streamLength_append] at hcursor
      simpa only [Nat.add_assoc] using hcursor
    have hused : ((s.ring.storeWriteIndex cursor).usedFrom
        (s.subscribers ()).readCursor).toNat = streamLength back + u.frameBytes.length :=
      toNat_usedFrom h.inv.capacity htracks.index hwrite
        (show _ < s.ring.capacity.toNat by omega)
    simp only [unreadBytes, if_neg h.running, hused, streamLength_append, streamLength_cons,
      streamLength_nil]
    omega
  · simp only [Function.update_self, WriterPc.passed, streamLength_nil, streamLength_append,
      streamLength_cons]
    exact hroom

/-- A step inside `WriteUpsert` keeps the shared index trailing. -/
theorem PairInv.trails_write (h : PairInv base s) {nowUs : UInt64}
    (hnext : s.next (.write () nowUs) = some s') : s'.Trails base := by
  rcases next_write_cases hnext with ⟨u, hpc, rfl⟩ | ⟨u, hpc, rfl⟩ | ⟨u, hpc, rfl⟩ |
    ⟨u, writeIndex, hpc, rfl⟩ | ⟨u, cursor, hpc, rfl⟩ | ⟨u, hpc, rfl⟩
  · refine h.trails.updateWriter rfl ⟨rfl, rfl⟩ ?_
    intro acked tail haccepted hindex hroom
    rw [hpc] at hroom
    split_ifs with hfits
    · -- the test leaves room behind the shared index
      have hwrite := h.inv.writeIndex
      rw [haccepted, streamLength_append, ← Nat.add_assoc] at hwrite
      have hfree := toNat_freeFrom h.inv.capacity hindex hwrite (Nat.lt_of_le_of_lt
        (Nat.le_add_right _ _) hroom)
      simp only [Ring.frameFits, Bool.and_eq_true, decide_eq_true_eq, Ring.ringFree] at hfits
      have hle := UInt32.le_iff_toNat_le.mp (of_decide_eq_true hfits.2)
      rw [u.toNat_totalBytes, hfree] at hle
      have hpos := u.length_frameBytes_pos
      simp only [WriterPc.passed, streamLength_cons, streamLength_nil]
      omega
    · exact hroom
  · exact h.trails.updateWriter_of_passed rfl ⟨rfl, rfl⟩ (by rw [hpc]; rfl)
  · exact h.trails.updateWriter_of_passed rfl ⟨rfl, rfl⟩ (by rw [hpc]; rfl)
  · exact h.trails.updateWriter_of_passed rfl ⟨rfl, rfl⟩ (by rw [hpc]; rfl)
  · -- the frame that had passed the test is now unread
    exact h.publish hpc
  · exact h.trails.updateWriter_of_passed rfl ⟨rfl, rfl⟩ (by rw [hpc]; rfl)

/-- A step of the subscriber keeps the shared index trailing and the subscriber running. -/
theorem PairInv.read (h : PairInv base s) {waitFailed : Bool} {nowUs : UInt64}
    (hnext : s.next (.read () waitFailed nowUs) = some s') :
    s'.Trails base ∧ (s'.subscribers ()).pc ≠ .stopped ∧ (s'.subscribers ()).missed = [] := by
  have hmissed := h.missed
  cases hpc : (s.subscribers ()).pc with
  | stopped => exact absurd hpc h.running
  | starting =>
    simp only [next, readStep, hpc, Option.map_some, Option.some.injEq] at hnext
    subst hnext
    exact ⟨h.acknowledge (SameFrames.storeReadIndex _ _) (by simp) rfl, by simp, hmissed⟩
  | waiting =>
    simp only [next, readStep, hpc, Option.map_some, Option.some.injEq] at hnext
    subst hnext
    refine ⟨h.trails.updateSubscriber (SameFrames.refl _) rfl ?_, ?_, hmissed⟩
    · cases waitFailed <;> simp [unreadBytes, hpc]
    · cases waitFailed <;> simp
  | loadWriteIndex =>
    simp only [next, readStep, hpc, Option.map_some, Option.some.injEq] at hnext
    subst hnext
    refine ⟨h.trails.updateSubscriber (SameFrames.refl _) rfl ?_, ?_, hmissed⟩
    · split_ifs <;> simp [unreadBytes, hpc]
    · simp only [Function.update_self]
      split_ifs <;> simp
  | copyFrame writeIndex =>
    -- the cursor moves towards the writer, the shared index stays behind it
    obtain ⟨seen, u, rest, cursor, -, -, hframe, -, hle⟩ := h.inv.frameInFront hpc
    simp only [next, readStep, hpc, hframe, Option.map_some, Option.some.injEq] at hnext
    subst hnext
    refine ⟨h.trails.updateSubscriber (SameFrames.storeConsumerHeartbeat _ _) rfl ?_, by simp,
      hmissed⟩
    simpa [unreadBytes] using hle
  | deliver u =>
    simp only [next, readStep, hpc, Option.map_some, Option.some.injEq] at hnext
    subst hnext
    refine ⟨h.trails.updateSubscriber (SameFrames.refl _) rfl ?_, by simp, hmissed⟩
    simp [unreadBytes, hpc]
  | storeReadIndex =>
    simp only [next, readStep, hpc, Option.map_some, Option.some.injEq] at hnext
    subst hnext
    exact ⟨h.acknowledge (SameFrames.storeConsumer _ _ _ _) (by simp) rfl, by simp, hmissed⟩

/-- Every step of the pair but a stop of the subscriber keeps the invariant. -/
theorem PairInv.step (h : PairInv base s) {a : Action Unit Unit} (hstop : a ≠ .stop ())
    (hnext : s.next a = some s') : PairInv base s' := by
  have hinv := h.inv.step (exclusive_of_subsingleton s a) (h.covered a) hnext
  cases a with
  | call t u =>
    obtain ⟨hpc, rfl⟩ := next_call hnext
    exact ⟨hinv, h.trails.updateWriter_of_passed rfl ⟨rfl, rfl⟩ (by rw [hpc]; rfl), h.running,
      h.missed⟩
  | write t nowUs =>
    have htrails := h.trails_write hnext
    obtain ⟨ring, pc, -, rfl⟩ := next_write hnext
    exact ⟨hinv, htrails, h.running, h.missed⟩
  | leave t =>
    obtain ⟨wrote, dropped, hpc, rfl⟩ := next_leave hnext
    exact ⟨hinv, h.trails.updateWriter_of_passed rfl ⟨rfl, rfl⟩ (by rw [hpc]; rfl), h.running,
      h.missed⟩
  | start i instanceId =>
    obtain ⟨hpc, -⟩ := next_start hnext
    exact absurd hpc h.running
  | read i waitFailed nowUs =>
    obtain ⟨htrails, hrunning, hmissed⟩ := h.read hnext
    exact ⟨hinv, htrails, hrunning, hmissed⟩
  | stop i => exact absurd rfl hstop

/-- In a run without a stop the invariant of the pair holds at its end. -/
theorem Attached.run (h : Attached s) {actions : List (Action Unit Unit)}
    (hstop : ∀ a ∈ actions, a ≠ .stop ()) (hrun : Execution.run next s actions = some s') :
    PairInv s.ring.header.writeIndex.toNat s' := by
  exact run_induction_of_everyStep (fun _ _ _ hs ha hnext => hs.step ha hnext) h.pairInv
    (everyStep_of_forall_mem hstop) hrun

/-- No step writes to a byte between the cursor and the writer. -/
theorem PairInv.unread_preserved (h : PairInv base s) {a : Action Unit Unit}
    (hnext : s.next a = some s') {k : ℕ}
    (hk : k < (s.ring.usedFrom (s.subscribers ()).readCursor).toNat) :
    s'.ring.payload (((s.subscribers ()).readCursor.toNat + k) % s.ring.capacity.toNat) =
      s.ring.payload (((s.subscribers ()).readCursor.toNat + k) % s.ring.capacity.toNat) := by
  rcases payload_next hnext with hsame | ⟨t, u, writeIndex, hpc, hcopy⟩
  · rw [hsame]
  · -- the frame and the unread bytes together are less than a turn
    obtain ⟨hlen, hindex⟩ : s.WriterInv base (.copyFrame u writeIndex) := hpc ▸ h.inv.writers t
    obtain ⟨seen, back, haccepted, -, htracks, -⟩ := h.inv.subscribers ()
    have htracks := htracks h.running
    have hused := h.inv.unreadBytes_eq h.running haccepted htracks
    have hcovered : s.CoveredAt (s.writers t) := h.covered (.write t 0)
    rw [hpc] at hcovered
    have hroom := hcovered ()
    rw [u.toNat_totalBytes] at hroom
    rw [unreadBytes, if_neg h.running] at hused hroom
    rw [hcopy, (Ring.copyFrame_eq h.inv.capacity hindex (Nat.le_of_lt hlen)).1,
      htracks.index, Nat.mod_add_mod]
    apply blit_apply_of_ne _
    intro j hj
    rw [haccepted, streamLength_append]
    exact (mod_ne_mod (by omega) (by omega)).symm

/-- One producer, one subscriber, any interleaving: what is delivered is a prefix of the accepted
writes, normalised; no step writes to a byte between the cursor and the writer; and a refused
write leaves the ring as it is but for one more dropped frame. -/
theorem direct_delivery {s₀ s : Pair} (hstart : s₀.Attached) {actions : List (Action Unit Unit)}
    (hstop : ∀ a ∈ actions, a ≠ .stop ()) (hrun : Execution.run next s₀ actions = some s) :
    (s.subscribers ()).delivered <+: s.accepted.map VariableUpdate.normalise ∧
      (∀ a s', s.next a = some s' →
        ∀ k < (s.ring.usedFrom (s.subscribers ()).readCursor).toNat,
          s'.ring.payload (((s.subscribers ()).readCursor.toNat + k) % s.ring.capacity.toNat) =
            s.ring.payload
              (((s.subscribers ()).readCursor.toNat + k) % s.ring.capacity.toNat)) ∧
      s.ring.header.droppedCount =
        s₀.ring.header.droppedCount + UInt64.ofNat s.refused.length ∧
      ∀ u nowUs s', s.next (.write () nowUs) = some s' →
        (s.writers () = .testSpace u → s'.ring = s.ring ∧
          s'.writers () = if s.ring.frameFits u then .loadWriteIndex u else .countDrop u) ∧
        (s.writers () = .countDrop u → s'.ring = s.ring.countDrop ∧
          s'.refused = s.refused ++ [u] ∧
          s'.writers () = .returned false (s.ring.header.droppedCount + 1)) := by
  have h := hstart.run hstop hrun
  refine ⟨?_, fun a s' hnext k hk => h.unread_preserved hnext hk, ?_, fun u nowUs s' hnext =>
    ⟨?_, ?_⟩⟩
  · obtain ⟨seen, back, haccepted, hdelivered, -, -⟩ := h.inv.subscribers ()
    rw [haccepted, h.missed, List.nil_append, List.map_append, ← hdelivered, List.append_assoc]
    exact List.prefix_append ..
  · have hcount := droppedCount_run hrun
    rw [hstart.refused, List.length_nil] at hcount
    simpa using hcount
  · intro hpc
    simp only [next, writeStep, hpc, Option.map_some, Option.some.injEq] at hnext
    subst hnext
    simp
  · intro hpc
    simp only [next, writeStep, hpc, Option.map_some, Option.some.injEq] at hnext
    subst hnext
    simp [WriterPc.drops]

section Example

/-- A ring on which the second frame wraps. -/
def smallPair : Pair where
  ring := { capacity := 60, header := { writeIndex := 40, consumerReadIndex := 40 },
            payload := fun _ => 0 }
  writers := fun _ => .idle
  subscribers := fun _ => { pc := .waiting, readCursor := 40 }

/-- A flag under a one-letter key: 34 bytes. -/
def flagUpdate (seq : UInt64) : VariableUpdate :=
  { key := [97], type := .bool, value := { boolValue := true }, seq := seq,
    sourceTimestampUs := 7 }

/-- The flag is written and read, then written again and refused for want of an acknowledgement. -/
def flagRun : List (Action Unit Unit) :=
  .call () (flagUpdate 1) :: List.replicate 5 (.write () 0) ++ .leave () ::
    List.replicate 4 (.read () false 0) ++ .call () (flagUpdate 2) :: List.replicate 2 (.write () 0)

theorem smallPair_attached : smallPair.Attached :=
  ⟨⟨by decide, by decide, fun _ => rfl, fun _ => .inr ⟨rfl, rfl⟩, fun _ => rfl, fun _ => rfl, rfl,
    rfl⟩, rfl, rfl, rfl⟩

theorem direct_delivery_flagRun :
    ((Execution.run next smallPair flagRun).get (by decide)).ring.header.droppedCount = 0 + 1 := by
  have hrun : Execution.run next smallPair flagRun =
      some ((Execution.run next smallPair flagRun).get (by decide)) := (Option.some_get _).symm
  exact (direct_delivery smallPair_attached (by simp [flagRun]) hrun).2.2.1.trans (by decide)

end Example

end Channel

end SmartDashboard.Direct
