import SmartDashboard.Library.SortTies
import SmartDashboard.Transport.CaptureSession
import SmartDashboard.Transport.Playback

/-!
# Events of one time in a replay file

`LoadReplayFile` sorts the events of a file by their timestamps with `std::sort`, which may leave
events of one timestamp in any order. Data events of one key and one timestamp stay in file order
only if no two of them differ; a seek then finds the one that is recorded last.

## Main definitions

- `loadEvents`: the events of a file, before they are sorted
- `simultaneous`: the data events of a key at a time
- `KeepsFileOrder`: a sorted session keeps the file order, and its seeks find what is recorded last
- `TieFree`: no two different data events of one key share a timestamp
- `BoundaryHarmless`: the event a checkpoint adds to a seek does not change the value of its key

## Main results

- `keepsFileOrder_iff`: when every session that the sort may leave keeps the file order
-/

namespace SmartDashboard.Transport.Replay

open App (text)
open Direct (ByteString)
open LastWrite (writes last)
open SortTies (SortsTo)

/-- The events `LoadReplayFile` collects in `loaded`: those of a capture session or of the one
event that the whole text is, otherwise those of its lines. -/
def loadEvents (qt : QtNumbers) (fromJson : ByteString → Option JsonObject) (raw : ByteString) :
    List ReplayEvent :=
  if trimmed raw = [] then []
  else
    let loaded :=
      match fromJson raw with
      | none => []
      | some root =>
        match tryParseCaptureSession qt root with
        | some loaded => loaded
        | none => (parseReplayEvent qt root).toList
    if loaded = [] then loadReplayLines qt fromJson raw else loaded

/-- A data event of the key `k` at the time `tUs`. -/
def isRecord (k : ByteString) (tUs : ℤ) (event : ReplayEvent) : Bool :=
  event.kind = .data ∧ event.update.key = k ∧ event.timestampUs = tUs

def simultaneous (k : ByteString) (tUs : ℤ) (events : List ReplayEvent) : List ReplayEvent :=
  events.filter (isRecord k tUs)

/-- The last time before the cursor at which a value of the key `k` is recorded. -/
structure LastTime (events : List ReplayEvent) (k : ByteString) (tUs cursorUs : ℤ) : Prop where
  lt : tUs < cursorUs
  recorded : simultaneous k tUs events ≠ []
  latest : ∀ event ∈ events, event.kind = .data → event.update.key = k →
    event.timestampUs < cursorUs → event.timestampUs ≤ tUs

/-- The session has the data events of one key and one time in the order of the file, and for every
cursor a seek can reach it publishes of a key the value that the file records last before it. -/
structure KeepsFileOrder (loaded : List ReplayEvent) (session : Session) : Prop where
  order : ∀ k tUs, simultaneous k tUs session.events = simultaneous k tUs loaded
  state : ∀ k tUs cursorUs, 0 ≤ cursorUs → cursorUs ≤ session.durationUs →
    LastTime loaded k tUs cursorUs →
      writes VariableUpdate.key k
          (reconstruct session.events (findFirstEventAfterTime session.events cursorUs)) =
        ((simultaneous k tUs loaded).map ReplayEvent.update).getLast?.toList

/-- No two different data events of one key share a timestamp. -/
def TieFree (loaded : List ReplayEvent) : Prop :=
  ∀ a ∈ loaded, ∀ b ∈ loaded, a.kind = .data → b.kind = .data → a.update.key = b.update.key →
    a.timestampUs = b.timestampUs → a = b

/-- The event at the target, where the checkpoint stride makes a seek take it in, repeats the last
update of its key, if there is one. -/
def BoundaryHarmless (events : List ReplayEvent) (targetIndex : ℕ) : Prop :=
  targetIndex % checkpointStride = 0 → ∀ event ∈ events[targetIndex]?, event.kind = .data →
    ∀ update ∈ last VariableUpdate.key event.update.key (dataUpdates (events.take targetIndex)),
      update = event.update

/-! ### The last value before a cursor -/

section Last

variable {events loaded : List ReplayEvent} {k : ByteString} {tUs cursorUs : ℤ}

theorem isRecord_iff {event : ReplayEvent} : isRecord k tUs event = true ↔
    event.kind = .data ∧ event.update.key = k ∧ event.timestampUs = tUs :=
  decide_eq_true_iff

theorem LastTime.of_perm (h : LastTime loaded k tUs cursorUs) (hperm : events.Perm loaded) :
    LastTime events k tUs cursorUs where
  lt := h.lt
  recorded hnil := h.recorded ((hperm.filter _).symm.trans (.of_eq hnil)).eq_nil
  latest event hevent := h.latest event (hperm.subset hevent)

theorem writes_dataUpdates (events : List ReplayEvent) (k : ByteString) :
    writes VariableUpdate.key k (dataUpdates events) =
      (events.filter fun event => event.kind = .data ∧ event.update.key = k).map
        ReplayEvent.update := by
  rw [writes, dataUpdates, List.filter_map, List.filter_filter]
  congr 1
  refine List.filter_congr fun event _ => ?_
  simp [Bool.and_comm]

/-- In a sorted session the updates of a key before a cursor end with those of its last time. -/
theorem last_eventsBefore (hsorted : Sorted events) (h : LastTime events k tUs cursorUs) :
    last VariableUpdate.key k (dataUpdates (eventsBefore events cursorUs)) =
      ((simultaneous k tUs events).map ReplayEvent.update).getLast? := by
  have hcut := (hsorted.before cursorUs).append_eq tUs
  have htail : writes VariableUpdate.key k
      (dataUpdates (eventsFrom (eventsBefore events cursorUs) tUs)) =
      (simultaneous k tUs events).map ReplayEvent.update := by
    rw [writes_dataUpdates, eventsFrom, eventsBefore, List.filter_filter, List.filter_filter,
      simultaneous]
    congr 1
    refine List.filter_congr fun event hevent => ?_
    have hlatest := h.latest event hevent
    have hlt := h.lt
    rw [Bool.eq_iff_iff, isRecord_iff]
    simp only [Bool.and_eq_true, decide_eq_true_eq]
    constructor
    · rintro ⟨⟨⟨hkind, hkey⟩, hge⟩, hbefore⟩
      have := hlatest hkind hkey hbefore
      exact ⟨hkind, hkey, by omega⟩
    · rintro ⟨hkind, hkey, htime⟩
      exact ⟨⟨⟨hkind, hkey⟩, by omega⟩, by omega⟩
  rw [← hcut, dataUpdates_append, LastWrite.last_append, last, htail]
  obtain ⟨u, hu⟩ : ∃ u, ((simultaneous k tUs events).map ReplayEvent.update).getLast? = some u := by
    rw [← Option.isSome_iff_exists, List.getLast?_isSome]
    exact fun hnil => h.recorded (List.map_eq_nil_iff.mp hnil)
  rw [hu]
  rfl

/-- A key with a value before the cursor has a last time before it. -/
theorem exists_lastTime (hsorted : Sorted events) {update : VariableUpdate}
    (h : last VariableUpdate.key k (dataUpdates (eventsBefore events cursorUs)) = some update) :
    ∃ tUs, LastTime events k tUs cursorUs := by
  -- the last event of the key is at its last time
  let recorded := (eventsBefore events cursorUs).filter fun event =>
    event.kind = .data ∧ event.update.key = k
  have hupdate : (recorded.map ReplayEvent.update).getLast? = some update := by
    rwa [last, writes_dataUpdates] at h
  have hne : recorded ≠ [] := by
    intro hnil
    rw [hnil] at hupdate
    cases hupdate
  have hsortedRecorded : Sorted recorded := (hsorted.before cursorUs).filter _
  have hmem : ∀ event, event ∈ recorded ↔ event ∈ events ∧ event.timestampUs < cursorUs ∧
      event.kind = .data ∧ event.update.key = k := by
    intro event
    simp only [recorded, eventsBefore, List.mem_filter, decide_eq_true_eq, and_assoc]
  obtain ⟨hlast, hbefore, hkind, hkey⟩ := (hmem _).mp (List.getLast_mem hne)
  refine ⟨(recorded.getLast hne).timestampUs, hbefore, ?_, ?_⟩
  · exact List.ne_nil_of_mem (List.mem_filter.mpr ⟨hlast, isRecord_iff.mpr ⟨hkind, hkey, rfl⟩⟩)
  · intro event hevent hkind hkey hbefore
    have hevent : event ∈ recorded := (hmem event).mpr ⟨hevent, hbefore, hkind, hkey⟩
    rw [← List.dropLast_append_getLast hne] at hevent hsortedRecorded
    obtain hfront | hback := List.mem_append.mp hevent
    · exact (List.pairwise_append.mp hsortedRecorded).2.2 event hfront _ List.mem_cons_self
    · rw [List.mem_singleton.mp hback]

end Last

/-! ### What a seek publishes -/

section Seek

variable {loaded : List ReplayEvent} {session : Session} {k : ByteString} {cursorUs : ℤ}

/-- What a seek publishes of a key: what is recorded before the cursor, and the event that a
checkpoint at the target adds. -/
theorem writes_reconstruct (session : Session) (k : ByteString) (cursorUs : ℤ) :
    let target := findFirstEventAfterTime session.events cursorUs
    writes VariableUpdate.key k (reconstruct session.events target) =
      (last VariableUpdate.key k
        (dataUpdates (eventsBefore session.events cursorUs) ++
          if target % checkpointStride = 0 then
            dataUpdates (session.events[target]?).toList
          else [])).toList := by
  intro target
  have htake : session.events.take target = eventsBefore session.events cursorUs :=
    (Sorted.split session.sorted cursorUs).1
  by_cases hboundary : target % checkpointStride = 0 ∧ target < session.events.length
  · obtain ⟨hmod, hlt⟩ := hboundary
    rw [reconstruct_of_boundary hmod hlt, writes_plainReplay, if_pos hmod,
      List.take_succ_eq_append_getElem hlt, dataUpdates_append, htake,
      List.getElem?_eq_getElem hlt]
    rfl
  · rw [reconstruct_of_not_boundary hboundary, writes_plainReplay, htake]
    split_ifs with hmod
    · have hlen : session.events[target]? = none :=
        List.getElem?_eq_none (Nat.le_of_not_lt fun hlt => hboundary ⟨hmod, hlt⟩)
      rw [hlen]
      exact (congrArg (fun l => (last VariableUpdate.key k l).toList) (List.append_nil _)).symm
    · rw [List.append_nil]

/-- The order of simultaneous events survives every sort if and only if there are no ties. -/
theorem forall_order_iff :
    (∀ session : Session, session.events.Perm loaded →
      ∀ k tUs, simultaneous k tUs session.events = simultaneous k tUs loaded) ↔ TieFree loaded := by
  have hties : ∀ k tUs, ∀ a b : ReplayEvent, isRecord k tUs a = true → isRecord k tUs b = true →
      a.timestampUs = b.timestampUs := by
    intro k tUs a b ha hb
    exact (isRecord_iff.mp ha).2.2.trans (isRecord_iff.mp hb).2.2.symm
  constructor
  · intro horder a ha b hb hkind hkind' hkey htime
    have hkeep : ∀ m, SortsTo ReplayEvent.timestampUs loaded m →
        m.filter (isRecord a.update.key a.timestampUs) =
          loaded.filter (isRecord a.update.key a.timestampUs) :=
      fun m hm => horder ⟨m, hm.sorted⟩ hm.perm a.update.key a.timestampUs
    exact (SortTies.forall_filter_eq_iff (hties _ _)).mp hkeep a ha b hb
      (isRecord_iff.mpr ⟨hkind, rfl, rfl⟩) (isRecord_iff.mpr ⟨hkind', hkey.symm, htime.symm⟩)
  · intro hfree session hperm k tUs
    have hsorts : SortsTo ReplayEvent.timestampUs loaded session.events := ⟨hperm, session.sorted⟩
    refine hsorts.filter_eq ?_
    intro a ha b hb hpa hpb
    obtain ⟨hkind, hkey, htime⟩ := isRecord_iff.mp hpa
    obtain ⟨hkind', hkey', htime'⟩ := isRecord_iff.mp hpb
    exact hfree a ha b hb hkind hkind' (hkey.trans hkey'.symm) (htime.trans htime'.symm)

/-- A session in file order publishes what is recorded last, if the events that checkpoints add do
no harm. -/
theorem state_iff (hperm : session.events.Perm loaded)
    (horder : ∀ k tUs, simultaneous k tUs session.events = simultaneous k tUs loaded) :
    (∀ k tUs, LastTime loaded k tUs cursorUs →
      writes VariableUpdate.key k
          (reconstruct session.events (findFirstEventAfterTime session.events cursorUs)) =
        ((simultaneous k tUs loaded).map ReplayEvent.update).getLast?.toList) ↔
      BoundaryHarmless session.events (findFirstEventAfterTime session.events cursorUs) := by
  have hsorted : Sorted session.events := session.sorted
  have htake := (hsorted.split cursorUs).1
  have hlast : ∀ k tUs, LastTime loaded k tUs cursorUs →
      last VariableUpdate.key k (dataUpdates (eventsBefore session.events cursorUs)) =
        ((simultaneous k tUs loaded).map ReplayEvent.update).getLast? := by
    intro k tUs h
    rw [last_eventsBefore hsorted (h.of_perm hperm), horder]
  constructor
  · intro hstate hmod event hevent hkind update hupdate
    rw [htake] at hupdate
    obtain ⟨tUs, htime⟩ := exists_lastTime hsorted hupdate
    have htime := htime.of_perm hperm.symm
    have hpublished := hstate _ tUs htime
    rw [writes_reconstruct, if_pos hmod, ← hlast _ tUs htime, hupdate, hevent,
      Option.toList_some, dataUpdates_singleton, if_pos hkind, LastWrite.last_append,
      LastWrite.last_singleton, if_pos rfl] at hpublished
    exact (List.cons.inj hpublished).1.symm
  · intro hharmless k tUs htime
    rw [writes_reconstruct, ← hlast k tUs htime]
    split_ifs with hmod
    · cases hevent : session.events[findFirstEventAfterTime session.events cursorUs]? with
      | none => rw [Option.toList_none, dataUpdates_nil, List.append_nil]
      | some event =>
        rw [Option.toList_some, dataUpdates_singleton]
        split_ifs with hkind
        · rw [LastWrite.last_append, LastWrite.last_singleton]
          split_ifs with hkey
          · -- the added event repeats what is there
            have hvalue : ∃ u, last VariableUpdate.key k
                (dataUpdates (eventsBefore session.events cursorUs)) = some u := by
              rw [hlast k tUs htime, ← Option.isSome_iff_exists, List.getLast?_isSome]
              exact fun hnil => htime.recorded (List.map_eq_nil_iff.mp hnil)
            obtain ⟨u, hu⟩ := hvalue
            have hsame := hharmless hmod event hevent hkind u (by rw [htake, hkey]; exact hu)
            rw [hu, hsame]
            rfl
          · rfl
        · rw [List.append_nil]
    · rw [List.append_nil]

theorem forall_keepsFileOrder_iff :
    (∀ session : Session, session.events.Perm loaded → KeepsFileOrder loaded session) ↔
      TieFree loaded ∧ ∀ session : Session, session.events.Perm loaded → ∀ cursorUs, 0 ≤ cursorUs →
        cursorUs ≤ session.durationUs →
          BoundaryHarmless session.events (findFirstEventAfterTime session.events cursorUs) := by
  constructor
  · intro hkeeps
    refine ⟨forall_order_iff.mp fun session hperm => (hkeeps session hperm).order, ?_⟩
    intro session hperm cursorUs hnonneg hle
    have h := hkeeps session hperm
    exact (state_iff hperm h.order).mp fun k tUs => h.state k tUs cursorUs hnonneg hle
  · rintro ⟨hfree, hharmless⟩ session hperm
    have horder := forall_order_iff.mpr hfree session hperm
    refine ⟨horder, fun k tUs cursorUs hnonneg hle htime => ?_⟩
    exact (state_iff hperm horder).mpr (hharmless session hperm cursorUs hnonneg hle) k tUs htime

end Seek

/-- Of a replay file every session that the sort may leave keeps the file order, and its seeks find
what is recorded last, if and only if no two different data events of one key share a timestamp and
no event that a checkpoint adds to a seek changes the value of its key. -/
theorem keepsFileOrder_iff (qt : QtNumbers) (fromJson : ByteString → Option JsonObject)
    (raw : ByteString) :
    (∀ session : Session, session.events.Perm (loadEvents qt fromJson raw) →
      KeepsFileOrder (loadEvents qt fromJson raw) session) ↔
      TieFree (loadEvents qt fromJson raw) ∧
        ∀ session : Session, session.events.Perm (loadEvents qt fromJson raw) →
          ∀ cursorUs, 0 ≤ cursorUs → cursorUs ≤ session.durationUs →
            BoundaryHarmless session.events (findFirstEventAfterTime session.events cursorUs) :=
  forall_keepsFileOrder_iff

section Example

/-- A line of a file in which `A` gets a value at 5 µs. -/
def tiedLine (value : String) : ByteString :=
  text ("\x7b\"timestampUs\":5,\"key\":\"A\",\"valueType\":1,\"value\":" ++ value ++ "\x7d")

/-- What Qt makes of the two lines, and of everything else in the file. -/
def tiedJson (bytes : ByteString) : Option JsonObject :=
  let fields (value : Bool) : JsonObject :=
    [(text "key", .string (text "A")), (text "timestampUs", .integer 5),
      (text "value", .bool value), (text "valueType", .integer 1)]
  if bytes = tiedLine "false" then some (fields false)
  else if bytes = tiedLine "true" then some (fields true)
  else none

def tiedFile : ByteString := [tiedLine "false", tiedLine "true"].flatMap fun line => line ++ [10]

theorem loadEvents_tiedFile (qt : QtNumbers) :
    loadEvents qt tiedJson tiedFile =
      [⟨.data, 5, ⟨text "A", 1, .bool false, 0⟩⟩, ⟨.data, 5, ⟨text "A", 1, .bool true, 0⟩⟩] := by
  have hlines : ∀ line ∈ [tiedLine "false", tiedLine "true"],
      line ≠ [] ∧ 10 ∉ line ∧ trimmed line = line := by
    decide
  have hraw : trimmed tiedFile ≠ [] := by decide
  have hdocument : tiedJson tiedFile = none := by decide
  rw [loadEvents, if_neg hraw, hdocument]
  dsimp only
  rw [if_pos rfl, tiedFile, loadReplayLines_lines qt hlines]
  rfl

/-- The sort may leave the two lines the other way round. -/
theorem tiedFile_not_keepsFileOrder :
    ¬ ∀ (qt : QtNumbers) (fromJson : ByteString → Option JsonObject) (raw : ByteString)
      (session : Session), session.events.Perm (loadEvents qt fromJson raw) →
        KeepsFileOrder (loadEvents qt fromJson raw) session := by
  intro hkeeps
  have hfree := (forall_keepsFileOrder_iff.mp
    (hkeeps ⟨fun _ => 0, fun _ => 0, fun _ => 0, fun _ => []⟩ tiedJson tiedFile)).1
  rw [loadEvents_tiedFile] at hfree
  have hsame := hfree _ List.mem_cons_self _ (List.mem_cons_of_mem _ List.mem_cons_self) rfl rfl
    rfl rfl
  exact absurd hsame (by decide)

end Example

end SmartDashboard.Transport.Replay
