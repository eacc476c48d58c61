import SmartDashboard.Direct.ChannelSteps

/-!
# One producer, several subscribers

All subscribers store their cursors into the one `consumerReadIndex`, and the producer's test
believes the last one. Where every frame fits before the slowest running subscriber, each of them
delivers a contiguous part of the accepted writes. Where one does not, a lagging cursor ends up in
the middle of newer frames and delivers an update nobody wrote.
-/

namespace SmartDashboard.Direct

open CircularMemory Execution

namespace Channel

variable {τ ι : Type*}

/-- Every subscriber delivers updates the producer wrote, intact and in the order of writing. -/
def DeliversWrites (s : Channel τ ι) : Prop :=
  ∀ i, (s.subscribers i).delivered.Sublist (s.accepted.map VariableUpdate.normalise)

/-- With one producer and any number of subscribers, if every frame fits before the cursor of every
running subscriber when it is copied and when it is published, each subscriber delivers a contiguous
part of the accepted writes, normalised and in order. Each of them stores its own cursor into the
shared `consumerReadIndex`. -/
theorem covered_delivery {ι : Type*} [DecidableEq ι] {s₀ s : Channel Unit ι} (hstart : s₀.Opened)
    {actions : List (Action Unit ι)} (hcovered : EveryStep next Covered s₀ actions)
    (hrun : run next s₀ actions = some s) :
    (∀ i, (s.subscribers i).delivered <:+: s.accepted.map VariableUpdate.normalise) ∧
      s.DeliversWrites ∧
      ∀ i waitFailed nowUs s', s.next (.read i waitFailed nowUs) = some s' →
        (s.subscribers i).pc = .starting ∨ (s.subscribers i).pc = .storeReadIndex →
        s'.ring.header.consumerReadIndex = (s.subscribers i).readCursor := by
  have h : Inv s₀.ring.header.writeIndex.toNat s :=
    run_induction_of_everyStep (fun _ a _ hs ha hnext =>
      hs.step (exclusive_of_subsingleton _ a) ha hnext) hstart.inv hcovered hrun
  have hpart : ∀ i, (s.subscribers i).delivered <:+:
      s.accepted.map VariableUpdate.normalise := by
    intro i
    obtain ⟨seen, back, haccepted, hdelivered, -, -⟩ := h.subscribers i
    have hprefix : (s.subscribers i).delivered <+: seen.map VariableUpdate.normalise := by
      rw [← hdelivered]
      exact List.prefix_append ..
    rw [haccepted, List.map_append, List.map_append]
    exact hprefix.isInfix.trans (List.infix_append ..)
  refine ⟨hpart, fun i => (hpart i).sublist, ?_⟩
  intro i waitFailed nowUs s' hnext hpc
  rcases hpc with hpc | hpc
  all_goals
    simp only [next, readStep, hpc, Option.map_some, Option.some.injEq] at hnext
    subst hnext
    rfl

/-! ### A lap -/

inductive Viewer
  | slow
  | fast
  deriving DecidableEq

instance : Fintype Viewer := ⟨{.slow, .fast}, fun v => by cases v <;> decide⟩

/-- A flag under a one-letter key, 34 bytes, 16.8 seconds after the clock started. -/
def lapFlag (k : ℕ) : VariableUpdate :=
  { key := [97], type := .bool, value := { boolValue := true }, seq := UInt64.ofNat (k + 1),
    sourceTimestampUs := 16842786 }

def lapFlags (n : ℕ) : List VariableUpdate := (List.range n).map lapFlag

/-- The default channel before anybody has started. -/
def defaultChannel : Channel Unit Viewer where
  ring := { capacity := 1048576, header := {}, payload := fun _ => 0 }
  writers := fun _ => .idle
  subscribers := fun _ => {}

theorem defaultChannel_opened : defaultChannel.Opened :=
  ⟨by decide, by decide, fun _ => rfl, fun _ => .inl rfl, fun _ => rfl, fun _ => rfl, rfl, rfl⟩

/-- Both viewers start. -/
def bothStart : List (Action Unit Viewer) :=
  [.start .slow 1, .read .slow false 0, .start .fast 2, .read .fast false 0]

/-- A write, and the iteration in which the fast viewer reads and acknowledges it. -/
def lapRound (u : VariableUpdate) : List (Action Unit Viewer) :=
  .call () u :: List.replicate 5 (.write () 0) ++ .leave () ::
    List.replicate 6 (.read .fast false 0)

/-- The iteration in which the slow viewer reads its first frame. -/
def slowRead : List (Action Unit Viewer) := List.replicate 4 (.read .slow false 0)

theorem covered_delivery_bothViewers :
    ((run next defaultChannel (bothStart ++ lapRound (lapFlag 0) ++ slowRead)).get
      (by decide)).DeliversWrites :=
  (covered_delivery defaultChannel_opened (by decide)
    (Option.some_get _).symm).2.1

/-- `n` flags were written and acknowledged by the fast viewer; the slow one has not moved. -/
structure AfterLap (n : ℕ) (s : Channel Unit Viewer) : Prop where
  capacity : s.ring.capacity = 1048576
  payload : s.ring.payload = blit 1048576 (fun _ => 0) 0 (streamBytes (lapFlags n))
  writeIndex : IsIndex s.ring.capacity s.ring.header.writeIndex (34 * n)
  consumerReadIndex : s.ring.header.consumerReadIndex = s.ring.header.writeIndex
  writer : s.writers () = .idle
  slow : s.subscribers .slow = { pc := .waiting, instanceId := 1 }
  fast : (s.subscribers .fast).pc = .waiting
  readCursor : (s.subscribers .fast).readCursor = s.ring.header.writeIndex
  accepted : s.accepted = lapFlags n

theorem lapFlags_succ (n : ℕ) : lapFlags (n + 1) = lapFlags n ++ [lapFlag n] := by
  rw [lapFlags, List.range_succ, List.map_append]
  rfl

theorem lapFlags_eq_cons (n : ℕ) :
    lapFlags (n + 1) = lapFlag 0 :: (List.range n).map fun k => lapFlag (k + 1) := by
  rw [lapFlags, List.range_succ_eq_map, List.map_cons, List.map_map]
  rfl

theorem length_lapFlag (k : ℕ) : (lapFlag k).frameBytes.length = 34 := by
  rw [VariableUpdate.length_frameBytes]
  rfl

theorem streamLength_lapFlags (n : ℕ) : streamLength (lapFlags n) = 34 * n := by
  induction n with
  | zero => rfl
  | succ n ih =>
    rw [lapFlags_succ, streamLength_append, ih, streamLength_cons, length_lapFlag,
      streamLength_nil]
    omega

section Rounds

variable {s : Channel τ ι}

section Write

variable [DecidableEq τ]

/-- The channel after an undisturbed write of a frame that fits. -/
def published (s : Channel τ ι) (t : τ) (u : VariableUpdate) : Channel τ ι :=
  { s with
    ring := ((s.ring.copyFrame u s.ring.header.writeIndex).1.storeWriteIndex
      (s.ring.copyFrame u s.ring.header.writeIndex).2).storePublished u.seq 0
    writers := Function.update s.writers t .idle
    accepted := s.accepted ++ [u] }

@[simp] theorem published_capacity (t : τ) (u : VariableUpdate) :
    (s.published t u).ring.capacity = s.ring.capacity := rfl

@[simp] theorem published_payload (t : τ) (u : VariableUpdate) :
    (s.published t u).ring.payload = (s.ring.copyFrame u s.ring.header.writeIndex).1.payload := rfl

@[simp] theorem published_writeIndex (t : τ) (u : VariableUpdate) :
    (s.published t u).ring.header.writeIndex =
      (s.ring.copyFrame u s.ring.header.writeIndex).2 := rfl

end Write

section Read

variable [DecidableEq ι]

/-- The channel after an undisturbed iteration of a subscriber that finds one frame. -/
def acknowledged (s : Channel τ ι) (i : ι) (u : VariableUpdate) : Channel τ ι :=
  { s with
    ring := s.ring.storeConsumer (s.subscribers i).instanceId s.ring.header.writeIndex 0
    subscribers := Function.update s.subscribers i
      { s.subscribers i with
        pc := .waiting
        readCursor := s.ring.header.writeIndex
        delivered := (s.subscribers i).delivered ++ [u] } }

@[simp] theorem acknowledged_capacity (i : ι) (u : VariableUpdate) :
    (s.acknowledged i u).ring.capacity = s.ring.capacity := rfl

@[simp] theorem acknowledged_payload (i : ι) (u : VariableUpdate) :
    (s.acknowledged i u).ring.payload = s.ring.payload := rfl

@[simp] theorem acknowledged_writeIndex (i : ι) (u : VariableUpdate) :
    (s.acknowledged i u).ring.header.writeIndex = s.ring.header.writeIndex := rfl

@[simp] theorem acknowledged_consumerReadIndex (i : ι) (u : VariableUpdate) :
    (s.acknowledged i u).ring.header.consumerReadIndex = s.ring.header.writeIndex := rfl

end Read

variable [DecidableEq τ] [DecidableEq ι]

theorem run_published {t : τ} {u : VariableUpdate} (hpc : s.writers t = .idle)
    (hfits : s.ring.frameFits u = true) :
    run next s (.call t u :: List.replicate 5 (.write t 0) ++ [.leave t]) =
      some (s.published t u) := by
  simp [run, next, writeStep, List.replicate, hpc, hfits, WriterPc.publishes, WriterPc.drops,
    published]

theorem run_acknowledged {i : ι} {u : VariableUpdate} (hpc : (s.subscribers i).pc = .waiting)
    (hmoved : (s.subscribers i).readCursor ≠ s.ring.header.writeIndex)
    (hread : s.ring.readFrame (s.subscribers i).readCursor s.ring.header.writeIndex =
      (s.ring.header.writeIndex, some u)) :
    run next s (List.replicate 6 (.read i false 0)) = some (s.acknowledged i u) := by
  simp [run, next, readStep, List.replicate, hpc, hmoved, hread, Ring.storeConsumerHeartbeat,
    Ring.storeConsumer, acknowledged]

end Rounds

/-- One round writes one flag behind the others. -/
theorem AfterLap.round {n : ℕ} {s : Channel Unit Viewer} (h : AfterLap n s) :
    ∃ s', run next s (lapRound (lapFlag n)) = some s' ∧ AfterLap (n + 1) s' := by
  have hN : s.ring.capacity.toNat = 1048576 := by rw [h.capacity]; rfl
  have hcap : IsCapacity s.ring.capacity := ⟨by omega, by omega⟩
  have hlen := length_lapFlag n
  have hlt := Nat.le_of_lt (show (lapFlag n).frameBytes.length < s.ring.capacity.toNat by omega)
  -- the ring looks empty to the producer
  have hfits : s.ring.frameFits (lapFlag n) = true := by
    have hfree := toNat_freeFrom (n := 0) hcap (h.consumerReadIndex ▸ h.writeIndex) h.writeIndex
      hcap.1
    have htotal := (lapFlag n).toNat_totalBytes
    simp only [Ring.frameFits, Ring.ringFree, Bool.and_eq_true, decide_eq_true_eq,
      UInt32.lt_iff_toNat_lt, UInt32.le_iff_toNat_le, hfree, htotal]
    omega
  obtain ⟨hcopied, hcursor⟩ := Ring.copyFrame_eq hcap h.writeIndex hlt
  rw [hlen] at hcursor
  have hmoved : (s.subscribers .fast).readCursor ≠
      (s.ring.copyFrame (lapFlag n) s.ring.header.writeIndex).2 := by
    intro heq
    have hsame : (34 * n) % s.ring.capacity.toNat = (34 * n + 34) % s.ring.capacity.toNat := by
      rw [← h.writeIndex, ← hcursor, ← heq, h.readCursor]
    exact mod_ne_mod (by omega) (by omega) hsame
  -- the fast viewer reads what was just written
  have hread : (s.published () (lapFlag n)).ring.readFrame (s.subscribers .fast).readCursor
      (s.ring.copyFrame (lapFlag n) s.ring.header.writeIndex).2 =
        ((s.ring.copyFrame (lapFlag n) s.ring.header.writeIndex).2,
          some (lapFlag n).normalise) := by
    rw [h.readCursor]
    exact Ring.readFrame_copyFrame hcap h.writeIndex hlt (published_capacity ..)
      (published_payload ..) _
  have hround : run next s (lapRound (lapFlag n)) =
      some ((s.published () (lapFlag n)).acknowledged .fast (lapFlag n).normalise) := by
    show run next s ((.call () (lapFlag n) :: List.replicate 5 (.write () 0) ++ [.leave ()]) ++
      List.replicate 6 (.read .fast false 0)) = _
    rw [run_append, run_published h.writer hfits, Option.bind_some]
    exact run_acknowledged h.fast hmoved hread
  refine ⟨_, hround, ?_, ?_, ?_, ?_, ?_, ?_, ?_, ?_, ?_⟩
  · rw [acknowledged_capacity, published_capacity, h.capacity]
  · have hstream : (streamBytes (lapFlags n)).length = 34 * n := streamLength_lapFlags n
    rw [acknowledged_payload, published_payload, hcopied, hN, h.payload, lapFlags_succ,
      streamBytes_append, blit_append, Nat.zero_add, hstream]
    simp [streamBytes]
  · rw [acknowledged_capacity, published_capacity, acknowledged_writeIndex, published_writeIndex,
      Nat.mul_add, Nat.mul_one]
    exact hcursor
  · rw [acknowledged_consumerReadIndex, acknowledged_writeIndex]
  · simp [acknowledged, published]
  · simp [acknowledged, published, h.slow]
  · simp [acknowledged]
  · simp [acknowledged, Ring.storeConsumer]
  · show s.accepted ++ [lapFlag n] = _
    rw [h.accepted, lapFlags_succ]

/-- `n` rounds after both viewers have started. -/
def lapActions (n : ℕ) : List (Action Unit Viewer) :=
  bothStart ++ (List.range n).flatMap fun k => lapRound (lapFlag k)

theorem afterLap (n : ℕ) : ∃ s, run next defaultChannel (lapActions n) = some s ∧ AfterLap n s := by
  induction n with
  | zero =>
    refine ⟨_, rfl, rfl, rfl, rfl, rfl, rfl, rfl, rfl, rfl, rfl⟩
  | succ n ih =>
    obtain ⟨s, hrun, hs⟩ := ih
    obtain ⟨s', hround, hs'⟩ := hs.round
    refine ⟨s', ?_, hs'⟩
    have hactions : lapActions (n + 1) = lapActions n ++ lapRound (lapFlag n) := by
      simp [lapActions, List.range_succ]
    rw [hactions, run_append, hrun]
    exact hround

/-- What the bytes at the slow viewer's cursor spell after a lap: the tail of the newest frame
and the tail of the oldest one make up a frame of their own. -/
def forgedFlag : VariableUpdate :=
  { lapFlag 0 with seq := 65537, sourceTimestampUs := 16843105 }

theorem forgedFlag_eq :
    forgedFlag.frameBytes =
      (lapFlag 30840).frameBytes.drop 16 ++ (lapFlag 0).frameBytes.drop 18 := by
  decide

/-- A flag that was written last is the end of the line. -/
theorem AfterLap.newest {n : ℕ} {s : Channel Unit Viewer} (h : AfterLap (n + 1) s) :
    window 1048576 s.ring.payload (34 * n) 34 = (lapFlag n).frameBytes := by
  have hstream : (streamBytes (lapFlags n)).length = 34 * n := streamLength_lapFlags n
  have hlen : (lapFlag n).frameBytes.length ≤ 1048576 := by
    rw [length_lapFlag]
    omega
  have hself := window_blit_self (blit 1048576 (fun _ => 0) 0 (streamBytes (lapFlags n)))
    (p := 34 * n) hlen
  rw [h.payload, lapFlags_succ, streamBytes_append, blit_append, hstream, Nat.zero_add]
  rw [length_lapFlag] at hself
  simpa [streamBytes] using hself

/-- Until the line has made a turn, what it has not reached of the first flag is there. -/
theorem AfterLap.oldest {n k : ℕ} {s : Channel Unit Viewer} (h : AfterLap (n + 1) s)
    (hk : k ≤ 34) (hturn : 34 * (n + 1) ≤ k + 1048576) :
    window 1048576 s.ring.payload k (34 - k) = (lapFlag 0).frameBytes.drop k := by
  have hrest : (streamBytes ((List.range n).map fun k => lapFlag (k + 1))).length = 34 * n := by
    have hall := streamLength_lapFlags (n + 1)
    rw [lapFlags_eq_cons, streamLength_cons, length_lapFlag, streamLength] at hall
    omega
  have hlen : (lapFlag 0).frameBytes.length ≤ 1048576 := by
    rw [length_lapFlag]
    omega
  have hself := window_blit_self (fun _ => 0) (p := 0) hlen
  rw [length_lapFlag] at hself
  have hstream : streamBytes (lapFlags (n + 1)) = (lapFlag 0).frameBytes ++
      streamBytes ((List.range n).map fun k => lapFlag (k + 1)) := by
    rw [lapFlags_eq_cons]
    rfl
  have hdrop := congrArg (List.drop k) hself
  rw [drop_window _ _ _ hk, Nat.zero_add] at hdrop
  rw [h.payload, hstream, blit_append, length_lapFlag, Nat.zero_add,
    window_blit_of_disjoint _ (by omega) (by omega)]
  exact hdrop

/-- 30841 flags are one turn of the default ring and 18 bytes. -/
theorem AfterLap.forged {s : Channel Unit Viewer} (h : AfterLap 30841 s) :
    window 1048576 s.ring.payload 0 34 = forgedFlag.frameBytes := by
  have hnewest : window 1048576 s.ring.payload 0 18 = (lapFlag 30840).frameBytes.drop 16 := by
    rw [← h.newest (n := 30840), drop_window _ _ _ (by omega), ← window_mod]
    exact (window_mod 1048576 s.ring.payload (34 * 30840 + 16) 18).symm
  have holdest := h.oldest (n := 30840) (k := 18) (by omega) (by omega)
  rw [forgedFlag_eq, ← hnewest, ← holdest]
  exact window_add 1048576 s.ring.payload 0 18 16

/-- The slow viewer wakes up and delivers the forgery. -/
theorem AfterLap.slowRead {s : Channel Unit Viewer} (h : AfterLap 30841 s) :
    ∃ s', run next s slowRead = some s' ∧ s'.accepted = lapFlags 30841 ∧
      (s'.subscribers .slow).delivered = [forgedFlag.normalise] := by
  have hN : s.ring.capacity.toNat = 1048576 := by rw [h.capacity]; rfl
  have hcap : IsCapacity s.ring.capacity := ⟨by omega, by omega⟩
  have hlen : forgedFlag.frameBytes.length = 34 := by decide
  have hindex : IsIndex s.ring.capacity 0 0 := (Nat.zero_mod _).symm
  have hmoved : (0 : UInt32) ≠ s.ring.header.writeIndex := by
    intro heq
    have hwrite := h.writeIndex
    rw [IsIndex, hN, ← heq] at hwrite
    exact absurd hwrite (by decide)
  obtain ⟨cursor, hread, -⟩ := Ring.readFrame_eq hcap hindex (u := forgedFlag) (by omega)
    (by rw [hN, hlen]; exact h.forged) s.ring.header.writeIndex
  refine ⟨{ s with
    ring := s.ring.storeConsumerHeartbeat 0
    subscribers := Function.update s.subscribers .slow
      { pc := .loadWriteIndex
        instanceId := 1
        readCursor := cursor
        delivered := [forgedFlag.normalise] } }, ?_, h.accepted, by simp⟩
  simp [SmartDashboard.Direct.Channel.slowRead, run, next, readStep, List.replicate, h.slow,
    hmoved, hread]

/-- The claim that every run of a channel delivers what was written. -/
def EveryRunDelivers (ι : Type) [DecidableEq ι] : Prop :=
  ∀ (s₀ s : Channel Unit ι) (actions : List (Action Unit ι)), s₀.Opened →
    run next s₀ actions = some s → s.DeliversWrites

/-- A viewer that is lapped delivers an update that was never written. -/
theorem lapped_viewer_delivers_forgery : ¬ EveryRunDelivers Viewer := by
  intro hall
  obtain ⟨s, hrun, hs⟩ := afterLap 30841
  obtain ⟨s', hslow, haccepted, hdelivered⟩ := hs.slowRead
  have hsub := hall defaultChannel s' (lapActions 30841 ++ slowRead)
    defaultChannel_opened
    (by rw [run_append, hrun]; exact hslow) .slow
  rw [hdelivered, haccepted, List.singleton_sublist, lapFlags, List.map_map] at hsub
  obtain ⟨k, hk, hforged⟩ := List.mem_map.mp hsub
  have hseq : UInt64.ofNat (k + 1) = 65537 := congrArg VariableUpdate.seq hforged
  have hk := List.mem_range.mp hk
  have htoNat := congrArg UInt64.toNat hseq
  rw [UInt64.toNat_ofNat', Nat.mod_eq_of_lt (by omega)] at htoNat
  exact absurd htoNat (by show k + 1 ≠ 65537; omega)

end Channel

end SmartDashboard.Direct
