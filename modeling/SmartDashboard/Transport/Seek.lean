import SmartDashboard.Transport.Replay

/-!
# Seeking in a replay session

What `SeekPlaybackUs` publishes against the plain replay of the events before its target. The
checkpoint at index `i` already holds event `i`, so the two differ at a target on the checkpoint
stride whose event changes the last value of its key.

## Main definitions

- `dataUpdates`: the updates of the data events
- `plainReplay`: the values at a target, from the first event on and without checkpoints
- `ReplaysPlainly`: a seek publishes the last update of every key before its target
- `BoundaryRedundant`: the target event, if a checkpoint holds it, changes nothing
-/

namespace SmartDashboard.Transport.Replay

open Direct (ByteString)
open LastWrite (writes last)

/-- The updates of the data events, in order. -/
def dataUpdates (events : List ReplayEvent) : List VariableUpdate :=
  (events.filter fun event => event.kind = .data).map ReplayEvent.update

/-- The last update of each key among the events before the target, folded from the first one. -/
def plainReplay (events : List ReplayEvent) (targetIndex : ℕ) : LatestByKey :=
  (events.take targetIndex).foldl latestByKeyStep []

@[simp] theorem dataUpdates_nil : dataUpdates [] = [] := rfl

@[simp] theorem dataUpdates_append (es fs : List ReplayEvent) :
    dataUpdates (es ++ fs) = dataUpdates es ++ dataUpdates fs := by
  rw [dataUpdates, List.filter_append, List.map_append]
  rfl

theorem dataUpdates_cons (event : ReplayEvent) (events : List ReplayEvent) :
    dataUpdates (event :: events) = dataUpdates [event] ++ dataUpdates events :=
  dataUpdates_append [event] events

theorem dataUpdates_singleton (event : ReplayEvent) :
    dataUpdates [event] = if event.kind = .data then [event.update] else [] := by
  cases hkind : event.kind
  all_goals simp [dataUpdates, hkind]

/-! ### The loop over the events -/

abbrev OrderedByKey : LatestByKey → Prop := LastWrite.Ordered VariableUpdate.key (· < ·)

theorem latestByKeyStep_eq_foldl (m : LatestByKey) (event : ReplayEvent) :
    latestByKeyStep m event =
      (dataUpdates [event]).foldl (LastWrite.insert VariableUpdate.key (· < ·)) m := by
  rw [latestByKeyStep, dataUpdates_singleton]
  cases event.kind
  all_goals rfl

/-- The loop is the map's own loop over the data updates. -/
theorem foldl_latestByKeyStep (m : LatestByKey) (events : List ReplayEvent) :
    events.foldl latestByKeyStep m =
      (dataUpdates events).foldl (LastWrite.insert VariableUpdate.key (· < ·)) m := by
  induction events generalizing m with
  | nil => rfl
  | cons event events ih =>
    rw [List.foldl_cons, ih, latestByKeyStep_eq_foldl, dataUpdates_cons event events,
      List.foldl_append]

theorem ordered_foldl {m : LatestByKey} (hm : OrderedByKey m) (events : List ReplayEvent) :
    OrderedByKey (events.foldl latestByKeyStep m) := by
  rw [foldl_latestByKeyStep]
  exact LastWrite.overwrites_insert.valid_foldl hm _

theorem writes_foldl {m : LatestByKey} (hm : OrderedByKey m) (events : List ReplayEvent)
    (k : ByteString) :
    writes VariableUpdate.key k (events.foldl latestByKeyStep m) =
      (last VariableUpdate.key k (m ++ dataUpdates events)).toList := by
  rw [foldl_latestByKeyStep]
  exact LastWrite.overwrites_insert.writes_foldl hm _

theorem ordered_nil : OrderedByKey [] := List.Pairwise.nil

theorem writes_plainReplay (events : List ReplayEvent) (targetIndex : ℕ) (k : ByteString) :
    writes VariableUpdate.key k (plainReplay events targetIndex) =
      (last VariableUpdate.key k (dataUpdates (events.take targetIndex))).toList :=
  writes_foldl ordered_nil _ k

/-! ### The checkpoint a seek finds -/

/-- A checkpoint of the loop from event `i` on holds its own event, and there is none between it
and the target. -/
structure Found (i : ℕ) (m : LatestByKey) (events : List ReplayEvent) (target : ℕ)
    (cp : Checkpoint) : Prop where
  from_le : i ≤ cp.eventIndex
  le_target : cp.eventIndex ≤ target
  lt_size : cp.eventIndex < i + events.length
  onStride : cp.eventIndex % checkpointStride = 0
  holds : cp.latestByKey = (events.take (cp.eventIndex + 1 - i)).foldl latestByKeyStep m
  next : ∀ j, cp.eventIndex < j → j ≤ target → j < i + events.length → j % checkpointStride ≠ 0

/-- No event from `i` on at or before the target is on the stride. -/
def NoneOnStride (i : ℕ) (events : List ReplayEvent) (target : ℕ) : Prop :=
  ∀ j, i ≤ j → j ≤ target → j < i + events.length → j % checkpointStride ≠ 0

variable {i target : ℕ} {m : LatestByKey} {event : ReplayEvent} {events : List ReplayEvent}
  {cp : Checkpoint}

/-- A checkpoint found from the next event on is found from this one on. -/
theorem Found.cons (h : Found (i + 1) (latestByKeyStep m event) events target cp) :
    Found i m (event :: events) target cp where
  from_le := (Nat.le_succ i).trans h.from_le
  le_target := h.le_target
  lt_size := by
    have hlt := h.lt_size
    rw [List.length_cons]
    omega
  onStride := h.onStride
  holds := by
    have hle := h.from_le
    have htake : cp.eventIndex + 1 - i = (cp.eventIndex + 1 - (i + 1)) + 1 := by omega
    rw [htake, List.take_succ_cons, List.foldl_cons]
    exact h.holds
  next j hj hjt hlt := h.next j hj hjt (by rw [List.length_cons] at hlt; omega)

/-- The checkpoint of an event on the stride is found if none follows it before the target. -/
theorem found_here (hi : i % checkpointStride = 0) (hle : i ≤ target)
    (hnone : NoneOnStride (i + 1) events target) :
    Found i m (event :: events) target ⟨i, latestByKeyStep m event⟩ where
  from_le := Nat.le_refl i
  le_target := hle
  lt_size := by
    show i < i + (events.length + 1)
    omega
  onStride := hi
  holds := by
    rw [show i + 1 - i = 1 by omega]
    rfl
  next j hj hjt hlt := hnone j hj hjt (by rw [List.length_cons] at hlt; omega)

theorem NoneOnStride.cons (hnone : NoneOnStride (i + 1) events target)
    (hi : i ≤ target → i % checkpointStride ≠ 0) : NoneOnStride i (event :: events) target := by
  intro j hij hjt hlt
  rw [List.length_cons] at hlt
  obtain rfl | hne := eq_or_ne i j
  · exact hi hjt
  · exact hnone j (by omega) hjt (by omega)

/-- The search over the checkpoints of the loop from event `i` on. -/
theorem findCheckpointFrom_buildCheckpointsFrom (i target : ℕ) (m : LatestByKey)
    (events : List ReplayEvent) (candidate : Option Checkpoint) :
    (NoneOnStride i events target ∧
      findCheckpointFrom target candidate (buildCheckpointsFrom i m events) = candidate) ∨
    ∃ cp, Found i m events target cp ∧
      findCheckpointFrom target candidate (buildCheckpointsFrom i m events) = some cp := by
  induction events generalizing i m candidate with
  | nil =>
    left
    refine ⟨?_, rfl⟩
    intro j hij _ hlt
    rw [List.length_nil] at hlt
    omega
  | cons event events ih =>
    by_cases hi : i % checkpointStride = 0
    · rw [buildCheckpointsFrom, if_pos (.inr hi), findCheckpointFrom]
      by_cases hlt : target < i
      · left
        refine ⟨?_, if_pos hlt⟩
        intro j hij hjt _
        omega
      · right
        rw [if_neg hlt]
        obtain ⟨hnone, hfind⟩ | ⟨cp, hfound, hfind⟩ :=
          ih (i + 1) (latestByKeyStep m event) (some ⟨i, latestByKeyStep m event⟩)
        · exact ⟨_, found_here hi (Nat.le_of_not_lt hlt) hnone, hfind⟩
        · exact ⟨cp, hfound.cons, hfind⟩
    · have hzero : ¬(i = 0 ∨ i % checkpointStride = 0) := by
        rintro (rfl | hmod)
        · exact hi (Nat.zero_mod _)
        · exact hi hmod
      rw [buildCheckpointsFrom, if_neg hzero]
      obtain ⟨hnone, hfind⟩ | ⟨cp, hfound, hfind⟩ :=
        ih (i + 1) (latestByKeyStep m event) candidate
      · exact .inl ⟨hnone.cons fun _ => hi, hfind⟩
      · exact .inr ⟨cp, hfound.cons, hfind⟩

/-- A session with an event has a checkpoint for every target. -/
theorem exists_found (hne : events ≠ []) (target : ℕ) :
    ∃ cp, Found 0 [] events target cp ∧
      findCheckpointForEvent (buildCheckpoints events) target = some cp := by
  obtain ⟨hnone, _⟩ | hfound :=
    findCheckpointFrom_buildCheckpointsFrom 0 target [] events none
  · have hpos : 0 < events.length := List.length_pos_of_ne_nil hne
    exact absurd (Nat.zero_mod _) (hnone 0 (Nat.zero_le 0) (Nat.zero_le target) (by omega))
  · exact hfound

/-! ### What a seek reconstructs -/

theorem ordered_plainReplay (events : List ReplayEvent) (targetIndex : ℕ) :
    OrderedByKey (plainReplay events targetIndex) :=
  ordered_foldl ordered_nil _

/-- Two replays agree when they agree on the last update of every key. -/
theorem plainReplay_eq_iff {fs : List ReplayEvent} {j : ℕ} :
    plainReplay events i = plainReplay fs j ↔
      ∀ k, last VariableUpdate.key k (dataUpdates (events.take i)) =
        last VariableUpdate.key k (dataUpdates (fs.take j)) := by
  constructor
  · intro h k
    have hwrites := writes_plainReplay events i k
    rw [h, writes_plainReplay] at hwrites
    have hhead := congrArg List.head? hwrites
    rwa [Option.head?_toList, Option.head?_toList, eq_comm] at hhead
  · intro h
    refine (ordered_plainReplay events i).ext (ordered_plainReplay fs j) ?_
    intro k
    rw [writes_plainReplay, writes_plainReplay, h]

theorem last_foldl {m : LatestByKey} (hm : OrderedByKey m) (events : List ReplayEvent)
    (k : ByteString) :
    last VariableUpdate.key k (events.foldl latestByKeyStep m) =
      last VariableUpdate.key k (m ++ dataUpdates events) := by
  rw [foldl_latestByKeyStep]
  exact LastWrite.overwrites_insert.last_foldl hm _

/-- Applying a stretch of updates twice in a row changes nothing. -/
theorem last_append_twice {l x r : List VariableUpdate} (k : ByteString) :
    last VariableUpdate.key k (l ++ x ++ (x ++ r)) = last VariableUpdate.key k (l ++ (x ++ r)) := by
  simp only [LastWrite.last_append]
  cases last VariableUpdate.key k r with
  | none =>
    cases last VariableUpdate.key k x with
    | none => rfl
    | some u => rfl
  | some u => rfl

/-- A checkpoint before the target: its own event is applied twice, which changes nothing. -/
theorem Found.foldl_eq (h : Found 0 [] events target cp) (hlt : cp.eventIndex < target) :
    ((events.drop cp.eventIndex).take (target - cp.eventIndex)).foldl latestByKeyStep
      cp.latestByKey = plainReplay events target := by
  have hsize : cp.eventIndex < events.length := by
    have := h.lt_size
    omega
  obtain ⟨n, hn⟩ : ∃ n, target - cp.eventIndex = n + 1 := ⟨target - cp.eventIndex - 1, by omega⟩
  have hslice : (events.drop cp.eventIndex).take (target - cp.eventIndex) =
      [events[cp.eventIndex]] ++ (events.drop (cp.eventIndex + 1)).take n := by
    rw [hn, List.drop_eq_getElem_cons hsize, List.take_succ_cons]
    rfl
  have htake : events.take target = events.take cp.eventIndex ++
      (events.drop cp.eventIndex).take (target - cp.eventIndex) := by
    rw [← List.take_add]
    congr 1
    omega
  have hholds : cp.latestByKey = (events.take (cp.eventIndex + 1)).foldl latestByKeyStep [] :=
    h.holds
  have hord : OrderedByKey cp.latestByKey := hholds ▸ ordered_foldl ordered_nil _
  refine (ordered_foldl hord _).ext (ordered_plainReplay events target) ?_
  intro k
  rw [writes_foldl hord, writes_plainReplay, htake, hslice, LastWrite.last_append, hholds,
    last_foldl ordered_nil, ← LastWrite.last_append, List.nil_append,
    List.take_succ_eq_append_getElem hsize]
  simp only [dataUpdates_append]
  rw [last_append_twice]

/-- A target on the stride finds the checkpoint of its own event. -/
theorem Found.eventIndex_eq (h : Found 0 [] events target cp)
    (hmod : target % checkpointStride = 0) (hlt : target < events.length) :
    cp.eventIndex = target := by
  by_contra hne
  have hle := h.le_target
  exact h.next target (by omega) (Nat.le_refl target) (by omega) hmod

theorem reconstruct_of_boundary (hmod : target % checkpointStride = 0)
    (hlt : target < events.length) :
    reconstruct events target = plainReplay events (target + 1) := by
  have hne : events ≠ [] := List.ne_nil_of_length_pos (by omega)
  obtain ⟨cp, hfound, hfind⟩ := exists_found hne target
  have heq := hfound.eventIndex_eq hmod hlt
  rw [reconstruct, hfind]
  show ((events.drop cp.eventIndex).take (target - cp.eventIndex)).foldl latestByKeyStep
    cp.latestByKey = plainReplay events (target + 1)
  rw [hfound.holds, heq, Nat.sub_self, List.take_zero]
  rfl

theorem reconstruct_of_not_boundary
    (hnot : ¬(target % checkpointStride = 0 ∧ target < events.length)) :
    reconstruct events target = plainReplay events target := by
  by_cases hne : events = []
  · subst hne
    simp only [reconstruct, plainReplay, List.take_nil]
    rfl
  · obtain ⟨cp, hfound, hfind⟩ := exists_found hne target
    have hlt : cp.eventIndex < target := by
      have hle := hfound.le_target
      have hstride := hfound.onStride
      have hsize := hfound.lt_size
      by_contra hge
      have heq : cp.eventIndex = target := by omega
      exact hnot ⟨heq ▸ hstride, by omega⟩
    rw [reconstruct, hfind]
    exact hfound.foldl_eq hlt

/-! ### A seek against plain replay -/

/-- The target event, where the checkpoint stride makes a seek take it in, is not a data event or
repeats the last update of its key. -/
def BoundaryRedundant (events : List ReplayEvent) (targetIndex : ℕ) : Prop :=
  targetIndex % checkpointStride = 0 → ∀ event ∈ events[targetIndex]?, event.kind = .data →
    last VariableUpdate.key event.update.key (dataUpdates (events.take targetIndex)) =
      some event.update

/-- For each key the seek publishes the last data update before the target and nothing for keys
with none: the map of plain replay. -/
def ReplaysPlainly (events : List ReplayEvent) (targetIndex : ℕ)
    (published : List VariableUpdate) : Prop :=
  (∀ k, writes VariableUpdate.key k published =
    (last VariableUpdate.key k (dataUpdates (events.take targetIndex))).toList) ∧
  published = plainReplay events targetIndex

theorem replaysPlainly_iff {published : List VariableUpdate} :
    ReplaysPlainly events target published ↔ published = plainReplay events target := by
  constructor
  · exact fun h => h.2
  · rintro rfl
    exact ⟨writes_plainReplay events target, rfl⟩

/-- One more event leaves the replay as it is exactly when it is redundant. -/
theorem plainReplay_succ_eq_iff (hlt : target < events.length) :
    plainReplay events (target + 1) = plainReplay events target ↔
      (events[target].kind = .data →
        last VariableUpdate.key events[target].update.key (dataUpdates (events.take target)) =
          some events[target].update) := by
  rw [plainReplay_eq_iff, List.take_succ_eq_append_getElem hlt]
  simp only [dataUpdates_append, LastWrite.last_append, dataUpdates_singleton]
  constructor
  · intro h hkind
    have hkey := h events[target].update.key
    rw [if_pos hkind, LastWrite.last_singleton, if_pos rfl] at hkey
    exact hkey.symm
  · intro h k
    split_ifs with hkind
    · rw [LastWrite.last_singleton]
      split_ifs with hkey
      · rw [← hkey, h hkind]
        rfl
      · rfl
    · rfl

/-- A seek publishes what plain replay would exactly when the checkpoint on its target, if there
is one, adds nothing. -/
theorem seek_replaysPlainly_iff {Rate : Type*} (session : Session) (s : State Rate)
    (cursorUs nowUs : ℤ) :
    ReplaysPlainly session.events
        (findFirstEventAfterTime session.events (clamp cursorUs 0 session.durationUs))
        (seek session s cursorUs nowUs).2 ↔
      BoundaryRedundant session.events
        (findFirstEventAfterTime session.events (clamp cursorUs 0 session.durationUs)) := by
  rw [replaysPlainly_iff]
  show reconstruct session.events _ = _ ↔ _
  generalize findFirstEventAfterTime session.events (clamp cursorUs 0 session.durationUs) = target
  by_cases hboundary : target % checkpointStride = 0 ∧ target < session.events.length
  · obtain ⟨hmod, hlt⟩ := hboundary
    rw [reconstruct_of_boundary hmod hlt, plainReplay_succ_eq_iff hlt, BoundaryRedundant,
      List.getElem?_eq_getElem hlt]
    constructor
    · rintro h _ event ⟨⟩
      exact h
    · exact fun h => h hmod _ rfl
  · rw [reconstruct_of_not_boundary hboundary]
    refine iff_of_true rfl ?_
    intro hmod event hevent
    obtain ⟨hlt, _⟩ := List.getElem?_eq_some_iff.mp hevent
    exact absurd ⟨hmod, hlt⟩ hboundary

/-- A session whose only sample comes 5 µs after its start. -/
def lateSession : Session where
  events := [⟨.data, 5, ⟨[65], 1, .double 0, 1⟩⟩]
  sorted := List.pairwise_singleton _ _

/-- Seeking to its start publishes the sample. -/
theorem seek_takes_in_boundary_event :
    ¬ReplaysPlainly lateSession.events
      (findFirstEventAfterTime lateSession.events (clamp 0 0 lateSession.durationUs))
      (seek lateSession ⟨true, false, 1, 0, 0, 0⟩ 0 0).2 := by
  intro h
  have hkey := h.1 [65]
  revert hkey
  decide

end SmartDashboard.Transport.Replay
