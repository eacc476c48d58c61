import SmartDashboard.Library.Execution
import SmartDashboard.Transport.Seek

/-!
# Playing a replay session to its end

The updates that the playback loop publishes between a seek and the iteration that stops it. Each
iteration publishes the data events from the old cursor up to, but not at, the new one, and the
last cursor is the duration; so the events at the very end are never published, nor are events
with a negative timestamp.

## Main definitions

- `Action`, `step`: the iterations of the loop and the calls that pause it or change its rate
- `between`: the data updates of a span of time
- `Tracking`: the index of the next event is the one the cursor points to
- `PlaysThrough`: the run publishes the data events from the target of the seek on, each once
-/

namespace SmartDashboard.Transport.Replay

open Execution (after history)

/-! ### Spans of a sorted session -/

section Spans

variable {events : List ReplayEvent} {a b c : ℤ}

/-- The events before a time. -/
def eventsBefore (events : List ReplayEvent) (b : ℤ) : List ReplayEvent :=
  events.filter fun event => event.timestampUs < b

/-- The events at or after a time. -/
def eventsFrom (events : List ReplayEvent) (a : ℤ) : List ReplayEvent :=
  events.filter fun event => a ≤ event.timestampUs

/-- The data updates from one time up to another. -/
def between (events : List ReplayEvent) (a b : ℤ) : List VariableUpdate :=
  dataUpdates (eventsFrom (eventsBefore events b) a)

abbrev Sorted (events : List ReplayEvent) : Prop :=
  events.Pairwise fun a b => a.timestampUs ≤ b.timestampUs

theorem Sorted.before (h : Sorted events) (b : ℤ) : Sorted (eventsBefore events b) :=
  List.Pairwise.filter _ h

/-- `std::lower_bound` cuts a sorted list where the timestamps reach the cursor. -/
theorem Sorted.split (h : Sorted events) (b : ℤ) :
    events.take (findFirstEventAfterTime events b) = eventsBefore events b ∧
      events.drop (findFirstEventAfterTime events b) = eventsFrom events b := by
  induction events with
  | nil => exact ⟨rfl, rfl⟩
  | cons event events ih =>
    obtain ⟨hhead, htail⟩ := List.pairwise_cons.mp h
    obtain ⟨htake, hdrop⟩ := ih htail
    by_cases hlt : event.timestampUs < b
    · have hindex : findFirstEventAfterTime (event :: events) b =
          findFirstEventAfterTime events b + 1 := by
        rw [findFirstEventAfterTime, List.takeWhile_cons_of_pos (by simpa using hlt)]
        rfl
      rw [hindex]
      constructor
      · rw [List.take_succ_cons, htake, eventsBefore, eventsBefore,
          List.filter_cons_of_pos (by simpa using hlt)]
      · rw [List.drop_succ_cons, hdrop, eventsFrom, eventsFrom,
          List.filter_cons_of_neg (by simpa using hlt)]
    · have hindex : findFirstEventAfterTime (event :: events) b = 0 := by
        rw [findFirstEventAfterTime, List.takeWhile_cons_of_neg (by simpa using hlt)]
        rfl
      have hall : ∀ e ∈ event :: events, b ≤ e.timestampUs := by
        intro e he
        obtain rfl | he := List.mem_cons.mp he
        · exact Int.not_lt.mp hlt
        · exact (Int.not_lt.mp hlt).trans (hhead e he)
      rw [hindex]
      constructor
      · symm
        rw [List.take_zero, eventsBefore, List.filter_eq_nil_iff]
        intro e he
        have := hall e he
        simpa using this
      · symm
        rw [List.drop_zero, eventsFrom, List.filter_eq_self]
        intro e he
        have := hall e he
        simpa using this

theorem Sorted.findFirst_eq (h : Sorted events) (b : ℤ) :
    findFirstEventAfterTime events b = (eventsBefore events b).length := by
  rw [← (h.split b).1, List.length_take, Nat.min_eq_left]
  exact (List.takeWhile_prefix _).length_le

theorem Sorted.append_eq (h : Sorted events) (b : ℤ) :
    eventsBefore events b ++ eventsFrom events b = events := by
  rw [← (h.split b).1, ← (h.split b).2, List.take_append_drop]

theorem eventsBefore_eventsBefore (hab : a ≤ b) :
    eventsBefore (eventsBefore events b) a = eventsBefore events a := by
  rw [eventsBefore, eventsBefore, eventsBefore, List.filter_filter]
  refine List.filter_congr ?_
  intro event _
  rw [← Bool.decide_and, decide_eq_decide]
  omega

theorem findFirst_eventsBefore (h : Sorted events) (hab : a ≤ b) :
    findFirstEventAfterTime (eventsBefore events b) a = findFirstEventAfterTime events a := by
  rw [(h.before b).findFirst_eq, h.findFirst_eq, eventsBefore_eventsBefore hab]

/-- What lies between two cuts of a sorted list is what lies between their times. -/
theorem Sorted.slice_eq (h : Sorted events) (hab : a ≤ b) :
    (events.drop (findFirstEventAfterTime events a)).take
        (findFirstEventAfterTime events b - findFirstEventAfterTime events a) =
      eventsFrom (eventsBefore events b) a := by
  rw [← List.drop_take, (h.split b).1, ← findFirst_eventsBefore h hab, ((h.before b).split a).2]

theorem Sorted.findFirst_mono (h : Sorted events) (hab : a ≤ b) :
    findFirstEventAfterTime events a ≤ findFirstEventAfterTime events b := by
  rw [h.findFirst_eq, h.findFirst_eq, ← eventsBefore_eventsBefore hab]
  exact List.length_filter_le _ _

/-- Consecutive spans make one span. -/
theorem Sorted.between_append (h : Sorted events) (hab : a ≤ b) (hbc : b ≤ c) :
    between events a b ++ between events b c = between events a c := by
  have hspan : eventsFrom (eventsBefore events c) a =
      eventsFrom (eventsBefore events b) a ++ eventsFrom (eventsBefore events c) b := by
    have hsorted : Sorted (eventsFrom (eventsBefore events c) a) :=
      List.Pairwise.filter _ (h.before c)
    have hcut := hsorted.append_eq b
    rw [← hcut]
    congr 1
    · have hswap : eventsBefore (eventsFrom (eventsBefore events c) a) b =
          eventsFrom (eventsBefore (eventsBefore events c) b) a := List.filter_comm ..
      rw [hswap, eventsBefore_eventsBefore hbc]
    · rw [eventsFrom, eventsFrom, List.filter_filter]
      refine List.filter_congr ?_
      intro event _
      rw [← Bool.decide_and, decide_eq_decide]
      omega
  rw [between, between, between, hspan, dataUpdates_append]

theorem between_self (events : List ReplayEvent) (a : ℤ) : between events a a = [] := by
  have hnil : eventsFrom (eventsBefore events a) a = [] := by
    rw [eventsFrom, List.filter_eq_nil_iff]
    intro event hevent
    have hlt := of_decide_eq_true (List.mem_filter.mp hevent).2
    simpa using hlt
  rw [between, hnil]
  rfl

end Spans

/-! ### The playback loop -/

inductive Action (Rate : Type*)
  | tick (nowUs : ℤ)
  | setPlaybackPlaying (isPlaying : Bool) (nowUs : ℤ)
  | setPlaybackRate (rate : Rate) (nowUs : ℤ)

variable {Rate : Type*} (playbackDelta : Rate → ℤ → ℤ) (session : Session)

/-- One iteration or call, with the updates it publishes. -/
def step (s : State Rate) : Action Rate → State Rate × List VariableUpdate
  | .tick nowUs => tick playbackDelta session s nowUs
  | .setPlaybackPlaying isPlaying nowUs => (setPlaybackPlaying s isPlaying nowUs, [])
  | .setPlaybackRate rate nowUs => (setPlaybackRate s rate nowUs, [])

/-- What a sequence of iterations and calls publishes. -/
def published (s : State Rate) (actions : List (Action Rate)) : List VariableUpdate :=
  (history (step playbackDelta session) s actions).flatMap Execution.Record.output

/-- The cursor lies in the session and the next event is the first one at or after it. -/
structure Tracking (s : State Rate) : Prop where
  cursor_nonneg : 0 ≤ s.cursorUs
  cursor_le : s.cursorUs ≤ session.durationUs
  nextEventIndex : s.nextEventIndex = findFirstEventAfterTime session.events s.cursorUs

variable {playbackDelta} {session} {s : State Rate}

theorem Session.durationUs_nonneg (session : Session) : 0 ≤ session.durationUs := by
  rw [Session.durationUs]
  cases session.events.getLast? with
  | none => exact le_refl 0
  | some event => exact le_max_left 0 event.timestampUs

theorem clamp_bounds {value high : ℤ} (hhigh : 0 ≤ high) :
    0 ≤ clamp value 0 high ∧ clamp value 0 high ≤ high := by
  rw [clamp]
  split_ifs <;> omega

theorem tracking_seek (s : State Rate) (cursorUs nowUs : ℤ) :
    Tracking session (seek session s cursorUs nowUs).1 where
  cursor_nonneg := (clamp_bounds session.durationUs_nonneg).1
  cursor_le := (clamp_bounds session.durationUs_nonneg).2
  nextEventIndex := rfl

/-- An iteration or call moves the cursor forward and publishes what lies between. -/
structure Advances (session : Session) (s t : State Rate) (updates : List VariableUpdate) :
    Prop where
  tracking : Tracking session t
  cursor_le : s.cursorUs ≤ t.cursorUs
  updates_eq : updates = between session.events s.cursorUs t.cursorUs

theorem advances_of_same_position {t : State Rate} (h : Tracking session s)
    (hcursor : t.cursorUs = s.cursorUs) (hindex : t.nextEventIndex = s.nextEventIndex) :
    Advances session s t [] where
  tracking := ⟨hcursor ▸ h.cursor_nonneg, hcursor ▸ h.cursor_le,
    by rw [hindex, hcursor, h.nextEventIndex]⟩
  cursor_le := hcursor.ge
  updates_eq := by rw [hcursor, between_self]

/-- No event that an iteration walks over lies before the old cursor. -/
theorem collected_eventsFrom (events : List ReplayEvent) (a : ℤ) :
    collected a (eventsFrom events a) = dataUpdates (eventsFrom events a) := by
  rw [collected, dataUpdates]
  congr 1
  refine List.filter_congr ?_
  intro event hevent
  have hle : a ≤ event.timestampUs := of_decide_eq_true (List.mem_filter.mp hevent).2
  rw [decide_eq_decide]
  exact and_iff_left hle

theorem collected_walked (h : Tracking session s) {cursorUs : ℤ} (hle : s.cursorUs ≤ cursorUs) :
    collected s.cursorUs (walked session s (findFirstEventAfterTime session.events cursorUs)) =
      between session.events s.cursorUs cursorUs := by
  have hsorted : Sorted session.events := session.sorted
  rw [walked, h.nextEventIndex, hsorted.slice_eq hle, collected_eventsFrom]
  rfl

/-- Where an iteration takes the cursor. -/
def nextCursorUs (playbackDelta : Rate → ℤ → ℤ) (session : Session) (s : State Rate) (nowUs : ℤ) :
    ℤ :=
  clamp (s.cursorUs + playbackDelta s.playbackRate (max 0 (nowUs - s.lastTickUs))) 0
    session.durationUs

/-- The three kinds of iteration: after a stop, paused and playing. -/
theorem tick_cases (playbackDelta : Rate → ℤ → ℤ) (session : Session) (s : State Rate)
    (nowUs : ℤ) :
    (∃ t, tick playbackDelta session s nowUs = (t, []) ∧ t.playing = s.playing ∧
      t.cursorUs = s.cursorUs ∧ t.nextEventIndex = s.nextEventIndex) ∨
    ∃ t, s.playing = true ∧
      tick playbackDelta session s nowUs = (t, collected s.cursorUs (walked session s
        (findFirstEventAfterTime session.events (nextCursorUs playbackDelta session s nowUs)))) ∧
      t.cursorUs = nextCursorUs playbackDelta session s nowUs ∧
      t.nextEventIndex = max s.nextEventIndex (findFirstEventAfterTime session.events t.cursorUs) ∧
      (t.playing = false ↔ session.durationUs ≤ t.cursorUs) := by
  by_cases hrun : s.running = true
  · by_cases hplay : s.playing = true
    · right
      refine ⟨(tick playbackDelta session s nowUs).1, hplay, ?_⟩
      rw [tick, if_neg (not_not_intro hrun), if_neg (not_not_intro hplay)]
      refine ⟨rfl, rfl, rfl, ?_⟩
      show (if session.durationUs ≤ nextCursorUs playbackDelta session s nowUs then false
        else s.playing) = false ↔ _
      rw [hplay]
      split_ifs with hend
      · exact iff_of_true rfl hend
      · exact iff_of_false (by simp) hend
    · left
      refine ⟨{ s with lastTickUs := nowUs }, ?_, rfl, rfl, rfl⟩
      rw [tick, if_neg (not_not_intro hrun), if_pos hplay]
  · left
    refine ⟨s, ?_, rfl, rfl, rfl⟩
    rw [tick, if_pos hrun]

theorem cursorUs_le_nextCursorUs
    (hdelta : ∀ rate delta, 0 ≤ delta → 0 ≤ playbackDelta rate delta) (h : Tracking session s)
    (nowUs : ℤ) : s.cursorUs ≤ nextCursorUs playbackDelta session s nowUs := by
  have hpos := hdelta s.playbackRate (max 0 (nowUs - s.lastTickUs)) (le_max_left _ _)
  have hnonneg := h.cursor_nonneg
  have hdur := h.cursor_le
  rw [nextCursorUs, clamp]
  split_ifs <;> omega

/-- The step lemma of the loop. -/
theorem advances_tick (hdelta : ∀ rate delta, 0 ≤ delta → 0 ≤ playbackDelta rate delta)
    (h : Tracking session s) (nowUs : ℤ) :
    Advances session s (tick playbackDelta session s nowUs).1
      (tick playbackDelta session s nowUs).2 := by
  obtain ⟨t, htick, -, hcursor, hindex⟩ | ⟨t, -, htick, hcursor, hindex, -⟩ :=
    tick_cases playbackDelta session s nowUs
  · rw [htick]
    exact advances_of_same_position h hcursor hindex
  · have hle : s.cursorUs ≤ t.cursorUs := hcursor ▸ cursorUs_le_nextCursorUs hdelta h nowUs
    have hbounds : 0 ≤ t.cursorUs ∧ t.cursorUs ≤ session.durationUs :=
      hcursor ▸ clamp_bounds session.durationUs_nonneg
    have hmono := Sorted.findFirst_mono session.sorted hle
    rw [htick, ← hcursor]
    refine ⟨⟨hbounds.1, hbounds.2, ?_⟩, hle, collected_walked h hle⟩
    rw [hindex, h.nextEventIndex, max_eq_right hmono]

theorem advances_step (hdelta : ∀ rate delta, 0 ≤ delta → 0 ≤ playbackDelta rate delta)
    (h : Tracking session s) (action : Action Rate) :
    Advances session s (step playbackDelta session s action).1
      (step playbackDelta session s action).2 := by
  cases action with
  | tick nowUs => exact advances_tick hdelta h nowUs
  | setPlaybackPlaying isPlaying nowUs =>
    show Advances session s (setPlaybackPlaying s isPlaying nowUs) []
    rw [setPlaybackPlaying]
    split_ifs
    · exact advances_of_same_position h rfl rfl
    · exact advances_of_same_position h rfl rfl
  | setPlaybackRate rate nowUs =>
    show Advances session s (setPlaybackRate s rate nowUs) []
    rw [setPlaybackRate]
    split_ifs
    · exact advances_of_same_position h rfl rfl
    · exact advances_of_same_position h rfl rfl

/-- The run lemma: a run publishes exactly what lies between its first cursor and its last. -/
theorem advances_run (hdelta : ∀ rate delta, 0 ≤ delta → 0 ≤ playbackDelta rate delta)
    (h : Tracking session s) (actions : List (Action Rate)) :
    Advances session s (after (step playbackDelta session) s actions)
      (published playbackDelta session s actions) := by
  induction actions generalizing s with
  | nil => exact advances_of_same_position h rfl rfl
  | cons action actions ih =>
    have hfirst := advances_step hdelta h action
    have hrest := ih hfirst.tracking
    refine ⟨hrest.tracking, hfirst.cursor_le.trans hrest.cursor_le, ?_⟩
    have hcons : published playbackDelta session s (action :: actions) =
        (step playbackDelta session s action).2 ++
          published playbackDelta session (step playbackDelta session s action).1 actions := rfl
    rw [hcons, hfirst.updates_eq, hrest.updates_eq]
    exact Sorted.between_append session.sorted hfirst.cursor_le hrest.cursor_le

/-- Only the iteration that reaches the duration stops the loop. -/
theorem cursorUs_of_stopped {t : State Rate} {nowUs : ℤ}
    (h : Tracking session (tick playbackDelta session t nowUs).1) (hplaying : t.playing = true)
    (hstopped : (tick playbackDelta session t nowUs).1.playing = false) :
    (tick playbackDelta session t nowUs).1.cursorUs = session.durationUs := by
  refine h.cursor_le.antisymm ?_
  obtain ⟨u, htick, hkept, -⟩ | ⟨u, -, htick, -, -, hend⟩ :=
    tick_cases playbackDelta session t nowUs
  · rw [htick] at hstopped
    exact absurd (hplaying.symm.trans (hkept.symm.trans hstopped)) Bool.true_eq_false.mp
  · rw [htick] at hstopped ⊢
    exact hend.mp hstopped

/-! ### Complete playback -/

/-- After a seek to a cursor, the updates of a run are those of the data events at or after it,
each once and in order; throughout, the next event is the first one not before the cursor. -/
def PlaysThrough (playbackDelta : Rate → ℤ → ℤ) (session : Session) (s : State Rate)
    (cursorUs : ℤ) (actions : List (Action Rate)) : Prop :=
  published playbackDelta session s actions = dataUpdates (eventsFrom session.events cursorUs) ∧
  ∀ front, front <+: actions →
    (after (step playbackDelta session) s front).nextEventIndex =
      session.events.countP fun event =>
        event.timestampUs < (after (step playbackDelta session) s front).cursorUs

theorem Tracking.nextEventIndex_eq_countP (h : Tracking session s) :
    s.nextEventIndex =
      session.events.countP fun event => event.timestampUs < s.cursorUs := by
  rw [h.nextEventIndex, Sorted.findFirst_eq session.sorted, List.countP_eq_length_filter]
  rfl

/-- Leaving events out shows in the updates unless none of them was a data event. -/
theorem dataUpdates_filter_eq_iff (events : List ReplayEvent) (p : ReplayEvent → Bool) :
    dataUpdates (events.filter p) = dataUpdates events ↔
      ∀ event ∈ events, event.kind = .data → p event := by
  have hcomm : dataUpdates (events.filter p) =
      ((events.filter fun event => event.kind = .data).filter p).map ReplayEvent.update :=
    congrArg _ (List.filter_comm ..)
  rw [hcomm]
  constructor
  · intro heq event hevent hkind
    have hlength := congrArg List.length heq
    rw [List.length_map, dataUpdates, List.length_map, List.length_filter_eq_length_iff] at hlength
    exact hlength event (List.mem_filter.mpr ⟨hevent, decide_eq_true hkind⟩)
  · intro hall
    rw [dataUpdates, List.filter_eq_self.mpr]
    intro event hevent
    obtain ⟨hmem, hkind⟩ := List.mem_filter.mp hevent
    exact hall event hmem (of_decide_eq_true hkind)

/-- What a run from a cursor to the duration publishes, of the data events from that cursor on. -/
theorem between_clamp (session : Session) (c : ℤ) :
    between session.events (clamp c 0 session.durationUs) session.durationUs =
      dataUpdates ((eventsFrom session.events c).filter fun event =>
        0 ≤ event.timestampUs ∧ event.timestampUs < session.durationUs) := by
  have hdur := session.durationUs_nonneg
  rw [between, eventsFrom, eventsBefore, List.filter_filter, eventsFrom, List.filter_filter]
  congr 1
  refine List.filter_congr ?_
  intro event _
  rw [← Bool.decide_and, ← Bool.decide_and, decide_eq_decide, clamp]
  split_ifs <;> omega

/-- The product of a time span with a rate given in percent. -/
def percentDelta (percent : ℕ) (deltaUs : ℤ) : ℤ := deltaUs * percent / 100

theorem percentDelta_nonneg (percent : ℕ) (deltaUs : ℤ) (h : 0 ≤ deltaUs) :
    0 ≤ percentDelta percent deltaUs :=
  Int.ediv_nonneg (Int.mul_nonneg h (Int.natCast_nonneg percent)) (by decide)

/-- A session that ends with a marker. -/
def markedSession : Session where
  events := [⟨.data, 5, ⟨[65], 1, .double 0, 1⟩⟩, ⟨.marker, 9, ⟨[], 0, .invalid, 0⟩⟩]
  sorted := by decide

end SmartDashboard.Transport.Replay
