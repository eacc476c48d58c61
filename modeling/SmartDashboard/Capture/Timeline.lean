import SmartDashboard.Capture.Series
import SmartDashboard.Library.Execution

/-!
# The timeline of a capture

`main` of the capture tool beside the callbacks of its subscriber. `main` subscribes to one channel
candidate after the other until it is connected, waits for the start delay, reads the clock and
moves the start of the capture there, waits for the capture window to pass and stops the
subscriber. The subscriber has been handing over updates since it was started: its callback reads
the clock and then calls `AddUpdate`.

## Main definitions

- `State`, `next`: the steps of `main`, of the callback and of the clock
- `Timeline`: every sample lies in the capture and stands at its time since the start
- `InWindow`: an update is captured only if it was received after the start was moved

## Main results

- `run_timeline`: a run whose steps are all `InWindow` keeps the `Timeline`
-/

namespace SmartDashboard.Capture

open Direct (ByteString VariableUpdate)
open Execution

/-- A reading of the steady clock: a non-negative count of 64 bits with a sign. -/
abbrev SteadyNs := {ns : ℕ // ns < 2 ^ 63}

/-- Where `main` is. -/
inductive MainPc
  | connecting (subscribed : Bool)
  /-- The clock is read for the start of the capture, which is not moved yet. -/
  | starting (start : SteadyNs)
  | capturing
  | stopped
  deriving DecidableEq, Repr

structure State where
  capture : CaptureState
  clock : SteadyNs
  main : MainPc := .connecting false
  /-- A callback that has read the clock and not called `AddUpdate`. -/
  callback : Option Received := none
  /-- The updates that were captured, in order. -/
  captured : List Received := []
  deriving DecidableEq, Repr

/-- `main` before it subscribes for the first time. -/
def initial (filterSignals : List ByteString) (useFilter : Bool) (sampleMs : Int32)
    (clock : SteadyNs) : State where
  capture :=
    { filterSignals := filterSignals
      useFilter := useFilter
      sampleMs := sampleMs
      captureStartSteady := clock.val }
  clock := clock

inductive Action
  | tick (clock : SteadyNs)
  | callback (update : VariableUpdate)
  | addUpdate
  /-- The loop over the channel candidates. -/
  | subscribe
  | unsubscribe
  | readStart
  | storeStart
  | stop
  deriving DecidableEq, Repr

/-- The subscriber hands over updates from its start until it is stopped. -/
def MainPc.Subscribed : MainPc → Prop
  | .connecting subscribed => subscribed = true
  | .starting _ => True
  | .capturing => True
  | .stopped => False

instance (main : MainPc) : Decidable main.Subscribed :=
  match main with
  | .connecting subscribed => inferInstanceAs (Decidable (subscribed = true))
  | .starting _ => isTrue trivial
  | .capturing => isTrue trivial
  | .stopped => isFalse id

/-- Stopping the subscriber waits for a callback that is running. -/
def next (s : State) : Action → Option State
  | .tick clock => if s.clock.val ≤ clock.val then some { s with clock := clock } else none
  | .callback update =>
    if s.main.Subscribed ∧ s.callback = none then
      some { s with callback := some ⟨update, s.clock.val⟩ }
    else none
  | .addUpdate =>
    s.callback.map fun r =>
      { s with
        capture := addUpdate s.capture r
        callback := none
        captured :=
          if isCaptureEnabledForSignal s.capture r.key = true then s.captured ++ [r]
          else s.captured }
  | .subscribe =>
    if s.main = .connecting false then some { s with main := .connecting true } else none
  | .unsubscribe =>
    if s.main = .connecting true ∧ s.callback = none then
      some { s with main := .connecting false }
    else none
  | .readStart =>
    if s.main = .connecting true then some { s with main := .starting s.clock } else none
  | .storeStart =>
    match s.main with
    | .starting start =>
      some { s with
        main := .capturing, capture := { s.capture with captureStartSteady := start.val } }
    | _ => none
  | .stop =>
    if s.main = .capturing ∧ s.callback = none then some { s with main := .stopped } else none

/-! ### The timeline -/

/-- The microseconds from the start of the capture to the receipt of an update. -/
def microsSince (captureStartSteady : ℤ) (r : Received) : ℤ :=
  (r.now - captureStartSteady) / 1000

/-- The bucket of the capture window in which an update was received. -/
def windowBucket (sampleMs : Int32) (captureStartSteady : ℤ) (r : Received) : ℤ :=
  microsSince captureStartSteady r / (sampleMs.toInt * 1000)

/-- A sample that was made of an update that was received at or after the start, at the time since
the start. -/
structure SampledAt (captureStartSteady : ℤ) (point : SamplePoint) (r : Received) :
    Prop where
  received : captureStartSteady ≤ r.now
  tUs : (point.tUs.toNat : ℤ) = microsSince captureStartSteady r
  value : point.value = sampleValue r.update

/-- What the output of a capture says about the updates that were captured. -/
structure Timeline (s : State) : Prop where
  sampled : ∀ series ∈ s.capture.seriesByKey, ∀ point ∈ outputSamples s.capture.sampleMs series,
    ∃ r ∈ s.captured, r.key = series.key ∧ SampledAt s.capture.captureStartSteady point r
  nondecreasing : ∀ series ∈ s.capture.seriesByKey,
    (outputSamples s.capture.sampleMs series).Pairwise fun a b => a.tUs ≤ b.tUs
  buckets : 0 < s.capture.sampleMs → ∀ series ∈ s.capture.seriesByKey, ∀ bucket : UInt64,
    LastWrite.last Prod.fst bucket series.bucketedSamples =
      (s.captured.filter fun r => r.key = series.key ∧
        windowBucket s.capture.sampleMs s.capture.captureStartSteady r = bucket.toNat).getLast?.map
          fun r => (bucket, samplePoint s.capture.captureStartSteady r)

/-- An update is captured only while the capture runs, and if it was received since its start. -/
def InWindow (s : State) : Action → Prop
  | .addUpdate => ∀ r ∈ s.callback, isCaptureEnabledForSignal s.capture r.key = true →
      s.main = .capturing ∧ s.capture.captureStartSteady ≤ r.now
  | _ => True

instance (s : State) (a : Action) : Decidable (InWindow s a) :=
  match a with
  | .addUpdate => inferInstanceAs (Decidable (∀ r ∈ s.callback,
      isCaptureEnabledForSignal s.capture r.key = true →
        s.main = .capturing ∧ s.capture.captureStartSteady ≤ r.now))
  | .tick _ | .callback _ | .subscribe | .unsubscribe | .readStart | .storeStart | .stop =>
    isTrue trivial

/-! ### Samples and buckets -/

theorem toNat_ofInt {x : ℤ} (h0 : 0 ≤ x) (hlt : x < 2 ^ 64) :
    ((UInt64.ofInt x).toNat : ℤ) = x := by
  rw [UInt64.ofInt, UInt64.toNat_ofNat']
  omega

section Samples

variable {sampleMs : Int32} {captureStartSteady : ℤ} {r : Received}

/-- An update that was received in the capture is measured without underflow. -/
theorem sampledAt_samplePoint (h0 : 0 ≤ captureStartSteady) (hstart : captureStartSteady ≤ r.now)
    (hclock : r.now < 2 ^ 63) :
    SampledAt captureStartSteady (samplePoint captureStartSteady r) r where
  received := hstart
  tUs := by
    have hdiv : (r.now - captureStartSteady).tdiv 1000 = microsSince captureStartSteady r :=
      Int.tdiv_eq_ediv_of_nonneg (by omega)
    have hle : microsSince captureStartSteady r ≤ r.now - captureStartSteady :=
      Int.ediv_le_self _ (by omega)
    show ((UInt64.ofInt _).toNat : ℤ) = _
    rw [hdiv]
    exact toNat_ofInt (Int.ediv_nonneg (by omega) (by decide)) (by omega)
  value := rfl

theorem toNat_bucketOf (hsample : 0 < sampleMs) (tUs : UInt64) :
    ((bucketOf sampleMs tUs).toNat : ℤ) = tUs.toNat / (sampleMs.toInt * 1000) := by
  have hpos : 0 < sampleMs.toInt := Int32.lt_iff_toInt_lt.mp hsample
  have hlt := Int32.toInt_lt sampleMs
  have hms := toNat_ofInt hpos.le (by omega : sampleMs.toInt < 2 ^ 64)
  have hus : ((UInt64.ofInt sampleMs.toInt * 1000).toNat : ℤ) = sampleMs.toInt * 1000 := by
    rw [UInt64.toNat_mul]
    show (((UInt64.ofInt sampleMs.toInt).toNat * 1000 % 2 ^ 64 : ℕ) : ℤ) = _
    omega
  have hne : UInt64.ofInt sampleMs.toInt * 1000 ≠ 0 := by
    intro hzero
    rw [hzero] at hus
    have hzero' : (0 : ℤ) = sampleMs.toInt * 1000 := hus
    omega
  rw [bucketOf]
  simp only [if_neg hne]
  rw [UInt64.toNat_div, Int.natCast_ediv, hus]

theorem bucketOf_le (hsample : 0 < sampleMs) {a b : UInt64} (hle : a ≤ b) :
    bucketOf sampleMs a ≤ bucketOf sampleMs b := by
  have hpos : 0 < sampleMs.toInt := Int32.lt_iff_toInt_lt.mp hsample
  have hdiv : (a.toNat : ℤ) / (sampleMs.toInt * 1000) ≤ b.toNat / (sampleMs.toInt * 1000) :=
    Int.ediv_le_ediv (by omega) (Int.ofNat_le.mpr (UInt64.le_iff_toNat_le.mp hle))
  rw [← toNat_bucketOf hsample, ← toNat_bucketOf hsample] at hdiv
  exact UInt64.le_iff_toNat_le.mpr (Int.ofNat_le.mp hdiv)

end Samples

/-! ### The invariant -/

/-- The start of the capture is where the window begins. -/
def MainPc.Started : MainPc → Prop
  | .capturing => True
  | .stopped => True
  | _ => False

structure Inv (s : State) : Prop where
  ordered : OrderedByKey s.capture.seriesByKey
  series : ∀ key, LastWrite.last SignalSeries.key key s.capture.seriesByKey =
    seriesOf s.capture.sampleMs s.capture.captureStartSteady
      (LastWrite.writes Received.key key s.captured)
  early : ¬s.main.Started → s.captured = []
  start : 0 ≤ s.capture.captureStartSteady
  received : ∀ r ∈ s.captured, s.capture.captureStartSteady ≤ r.now ∧ r.now ≤ s.clock.val
  times : s.captured.Pairwise fun a b => a.now ≤ b.now
  pending : ∀ r, s.callback = some r → r.now ≤ s.clock.val ∧ ∀ a ∈ s.captured, a.now ≤ r.now

theorem inv_initial (filterSignals : List ByteString) (useFilter : Bool) (sampleMs : Int32)
    (clock : SteadyNs) : Inv (initial filterSignals useFilter sampleMs clock) where
  ordered := List.Pairwise.nil
  series _ := rfl
  early _ := rfl
  start := Int.natCast_nonneg clock.val
  received _ hr := by cases hr
  times := List.Pairwise.nil
  pending _ hr := by cases hr

variable {s t : State} {a : Action}

/-- A step of `main` that leaves the start where it is. -/
theorem Inv.move (h : Inv s) {main : MainPc} (hmain : s.main.Started → main.Started) :
    Inv { s with main := main } :=
  ⟨h.ordered, h.series, fun hnot => h.early fun hstarted => hnot (hmain hstarted), h.start,
    h.received, h.times, h.pending⟩

theorem Inv.addUpdate (h : Inv s) {r : Received} (hcallback : s.callback = some r)
    (hwindow : isCaptureEnabledForSignal s.capture r.key = true →
      s.main = .capturing ∧ s.capture.captureStartSteady ≤ r.now) :
    Inv { s with
      capture := Capture.addUpdate s.capture r
      callback := none
      captured :=
        if isCaptureEnabledForSignal s.capture r.key = true then s.captured ++ [r]
        else s.captured } := by
  obtain ⟨hordered, hseries, hearly, hstart, hreceived, htimes, hpending⟩ := id h
  obtain ⟨hclock, hlater⟩ := hpending r hcallback
  have hconfig : (Capture.addUpdate s.capture r).sampleMs = s.capture.sampleMs ∧
      (Capture.addUpdate s.capture r).captureStartSteady = s.capture.captureStartSteady := by
    rw [Capture.addUpdate]
    split_ifs <;> exact ⟨rfl, rfl⟩
  by_cases henabled : isCaptureEnabledForSignal s.capture r.key = true
  · obtain ⟨hmain, hwindow⟩ := hwindow henabled
    simp only [henabled]
    refine ⟨hordered.addUpdate r, ?_, ?_, ?_, ?_, ?_, by rintro r ⟨⟩⟩
    · rw [hconfig.1, hconfig.2]
      exact last_addUpdate hordered hseries henabled
    · intro hnot
      exact absurd (by rw [hmain]; trivial) hnot
    · rw [hconfig.2]
      exact hstart
    · rw [hconfig.2]
      intro r' hr'
      rcases List.mem_append.mp hr' with hr' | hr'
      · exact hreceived r' hr'
      · rw [List.mem_singleton.mp hr']
        exact ⟨hwindow, hclock⟩
    · refine List.pairwise_append.mpr ⟨htimes, List.pairwise_singleton _ _, ?_⟩
      intro a ha b hb
      rw [List.mem_singleton.mp hb]
      exact hlater a ha
  · have hsame := addUpdate_of_not_enabled (Bool.not_eq_true _ ▸ henabled)
    simp only [henabled]
    refine ⟨?_, ?_, hearly, ?_, ?_, htimes, by rintro r ⟨⟩⟩
    · rw [hsame]
      exact hordered
    · rw [hsame, hconfig.1, hconfig.2]
      exact hseries
    · rw [hconfig.2]
      exact hstart
    · rw [hconfig.2]
      exact hreceived

theorem Inv.next (h : Inv s) (hwindow : InWindow s a) (hnext : Capture.next s a = some t) :
    Inv t := by
  cases a with
  | tick clock =>
    obtain ⟨hle, hnext⟩ := Option.ite_none_right_eq_some.mp hnext
    obtain rfl := Option.some.inj hnext
    refine ⟨h.ordered, h.series, h.early, h.start, fun r hr => ⟨(h.received r hr).1, ?_⟩, h.times,
      fun r hr => ⟨?_, (h.pending r hr).2⟩⟩
    · exact (h.received r hr).2.trans (Int.ofNat_le.mpr hle)
    · exact (h.pending r hr).1.trans (Int.ofNat_le.mpr hle)
  | callback update =>
    obtain ⟨-, hnext⟩ := Option.ite_none_right_eq_some.mp hnext
    obtain rfl := Option.some.inj hnext
    refine ⟨h.ordered, h.series, h.early, h.start, h.received, h.times, fun r hr => ?_⟩
    obtain rfl := Option.some.inj hr
    exact ⟨le_rfl, fun r hr => (h.received r hr).2⟩
  | addUpdate =>
    obtain ⟨r, hcallback, rfl⟩ := Option.map_eq_some_iff.mp hnext
    exact h.addUpdate hcallback (hwindow r hcallback)
  | subscribe =>
    obtain ⟨hmain, hnext⟩ := Option.ite_none_right_eq_some.mp hnext
    exact Option.some.inj hnext ▸ h.move (by rw [hmain]; exact id)
  | unsubscribe =>
    obtain ⟨⟨hmain, -⟩, hnext⟩ := Option.ite_none_right_eq_some.mp hnext
    exact Option.some.inj hnext ▸ h.move (by rw [hmain]; exact id)
  | readStart =>
    obtain ⟨hmain, hnext⟩ := Option.ite_none_right_eq_some.mp hnext
    exact Option.some.inj hnext ▸ h.move (by rw [hmain]; exact id)
  | storeStart =>
    cases hmain : s.main with
    | starting start =>
      rw [Capture.next, hmain] at hnext
      obtain rfl := Option.some.inj hnext
      -- Nothing is captured yet, so nothing is measured from the old start.
      have hempty : s.captured = [] := h.early (by rw [hmain]; exact id)
      refine ⟨h.ordered, fun key => ?_, fun hnot => absurd trivial hnot,
        Int.natCast_nonneg start.val, fun r hr => ?_, h.times, h.pending⟩
      · have hseries := h.series key
        rw [hempty] at hseries
        show LastWrite.last _ key s.capture.seriesByKey =
          seriesOf _ _ (LastWrite.writes _ key s.captured)
        rw [hempty]
        exact hseries
      · have hr' : r ∈ s.captured := hr
        rw [hempty] at hr'
        cases hr'
    | _ => simp [Capture.next, hmain] at hnext
  | stop =>
    obtain ⟨⟨hmain, -⟩, hnext⟩ := Option.ite_none_right_eq_some.mp hnext
    exact Option.some.inj hnext ▸ h.move fun _ => trivial

/-! ### The output -/

/-- The updates of one series. -/
theorem Inv.samples (h : Inv s) {series : SignalSeries}
    (hseries : series ∈ s.capture.seriesByKey) :
    outputSamples s.capture.sampleMs series =
        (if 0 < s.capture.sampleMs then series.bucketedSamples.map Prod.snd
        else (LastWrite.writes Received.key series.key s.captured).map
          (samplePoint s.capture.captureStartSteady)) ∧
      (0 < s.capture.sampleMs → series.bucketedSamples =
        bucketsOf s.capture.sampleMs s.capture.captureStartSteady
          (LastWrite.writes Received.key series.key s.captured)) := by
  have hlast := h.ordered.distinct.last_of_mem hseries
  rw [h.series, seriesOf, Option.map_eq_some_iff] at hlast
  obtain ⟨r, -, heq⟩ := hlast
  have hsamples := congrArg SignalSeries.samples heq
  have hbuckets := congrArg SignalSeries.bucketedSamples heq
  simp only at hsamples hbuckets
  rw [outputSamples]
  constructor
  · split_ifs with hbucketed
    · rfl
    · rw [if_neg hbucketed] at hsamples
      exact hsamples.symm
  · intro hbucketed
    rw [if_pos hbucketed] at hbuckets
    exact hbuckets.symm

theorem Inv.sampledAt (h : Inv s) {r : Received} (hr : r ∈ s.captured) :
    SampledAt s.capture.captureStartSteady (samplePoint s.capture.captureStartSteady r) r := by
  obtain ⟨hstart, hclock⟩ := h.received r hr
  have hlt := s.clock.property
  exact sampledAt_samplePoint h.start hstart (by omega)

/-- Later updates have later samples. -/
theorem Inv.tUs_le (h : Inv s) {a b : Received} (ha : a ∈ s.captured) (hb : b ∈ s.captured)
    (hle : a.now ≤ b.now) :
    (samplePoint s.capture.captureStartSteady a).tUs ≤
      (samplePoint s.capture.captureStartSteady b).tUs := by
  have hmicros : microsSince s.capture.captureStartSteady a ≤
      microsSince s.capture.captureStartSteady b := Int.ediv_le_ediv (by decide) (by omega)
  rw [← (h.sampledAt ha).tUs, ← (h.sampledAt hb).tUs] at hmicros
  exact UInt64.le_iff_toNat_le.mpr (Int.ofNat_le.mp hmicros)

/-- The bucket that the code computes is the bucket of the window. -/
theorem Inv.bucketOf_eq_iff (h : Inv s) (hbucketed : 0 < s.capture.sampleMs) {r : Received}
    (hr : r ∈ s.captured) (bucket : UInt64) :
    bucketOf s.capture.sampleMs (samplePoint s.capture.captureStartSteady r).tUs = bucket ↔
      windowBucket s.capture.sampleMs s.capture.captureStartSteady r = bucket.toNat := by
  rw [windowBucket, ← (h.sampledAt hr).tUs, ← toNat_bucketOf hbucketed, Int.ofNat_inj,
    UInt64.toNat_inj]

theorem Inv.timeline (h : Inv s) : Timeline s where
  sampled := by
    intro series hseries point hpoint
    obtain ⟨hsamples, hbuckets⟩ := h.samples hseries
    rw [hsamples] at hpoint
    have hmade : ∃ r ∈ LastWrite.writes Received.key series.key s.captured,
        samplePoint s.capture.captureStartSteady r = point := by
      split_ifs at hpoint with hbucketed
      · obtain ⟨entry, hentry, rfl⟩ := List.mem_map.mp hpoint
        rw [hbuckets hbucketed] at hentry
        obtain ⟨r, hr, hpoint, -⟩ := exists_of_mem_bucketsOf hentry
        exact ⟨r, hr, hpoint⟩
      · exact List.mem_map.mp hpoint
    obtain ⟨r, hr, rfl⟩ := hmade
    obtain ⟨hmem, hkey⟩ := LastWrite.mem_writes.mp hr
    exact ⟨r, hmem, hkey, h.sampledAt hmem⟩
  nondecreasing := by
    intro series hseries
    obtain ⟨hsamples, hbuckets⟩ := h.samples hseries
    have hmem : ∀ r ∈ LastWrite.writes Received.key series.key s.captured, r ∈ s.captured :=
      fun r hr => (LastWrite.mem_writes.mp hr).1
    rw [hsamples]
    split_ifs with hbucketed
    · rw [hbuckets hbucketed, List.pairwise_map]
      refine (orderedBuckets _).imp_of_mem ?_
      intro a b ha hb hlt
      -- A sample of an earlier bucket cannot be the later one.
      obtain ⟨r, hr, hrpoint, hrbucket⟩ := exists_of_mem_bucketsOf ha
      obtain ⟨r', hr', hrpoint', hrbucket'⟩ := exists_of_mem_bucketsOf hb
      rcases le_total r.now r'.now with hle | hle
      · rw [← hrpoint, ← hrpoint']
        exact h.tUs_le (hmem r hr) (hmem r' hr') hle
      · have htUs := h.tUs_le (hmem r' hr') (hmem r hr) hle
        rw [hrpoint, hrpoint'] at htUs
        have hbucket := bucketOf_le hbucketed htUs
        rw [hrbucket, hrbucket'] at hbucket
        exact absurd hlt (UInt64.not_lt.mpr hbucket)
    · rw [List.pairwise_map]
      refine (h.times.filter _).imp_of_mem ?_
      intro a b ha hb hle
      exact h.tUs_le (hmem a ha) (hmem b hb) hle
  buckets := by
    intro hbucketed series hseries bucket
    obtain ⟨-, hbuckets⟩ := h.samples hseries
    have hfilter : ((LastWrite.writes Received.key series.key s.captured).filter fun r =>
          bucketOf s.capture.sampleMs (samplePoint s.capture.captureStartSteady r).tUs = bucket) =
        s.captured.filter fun r => r.key = series.key ∧
          windowBucket s.capture.sampleMs s.capture.captureStartSteady r = bucket.toNat := by
      rw [LastWrite.writes, List.filter_filter]
      apply List.filter_congr
      intro r hr
      simp only [h.bucketOf_eq_iff hbucketed hr bucket, Bool.decide_and, Bool.and_comm]
    rw [hbuckets hbucketed, last_bucketsOf, hfilter]

/-- In a run whose captured updates were all received since the start and added after it was moved,
every sample lies on the timeline of the capture. -/
theorem run_timeline {filterSignals : List ByteString} {useFilter : Bool} {sampleMs : Int32}
    {clock : SteadyNs} {as : List Action}
    (hwindow : EveryStep next InWindow (initial filterSignals useFilter sampleMs clock) as)
    (hrun : run next (initial filterSignals useFilter sampleMs clock) as = some s) :
    Timeline s :=
  Inv.timeline (run_induction_of_everyStep (fun _ _ _ h hwindow hnext => h.next hwindow hnext)
    (inv_initial filterSignals useFilter sampleMs clock) hwindow hrun)

def armUpdate : VariableUpdate where
  key := [65, 114, 109]
  type := .bool
  value := { boolValue := true }
  seq := 1
  sourceTimestampUs := 0

/-- The start is moved to 5 ms, the update received at 8 ms. -/
def oneSample : List Action :=
  [.subscribe, .tick ⟨5000000, by decide⟩, .readStart, .storeStart, .tick ⟨8000000, by decide⟩,
    .callback armUpdate, .addUpdate, .stop]

theorem run_oneSample :
    ∃ s, run next (initial [] false 0 ⟨0, by decide⟩) oneSample = some s ∧ s.main = .stopped ∧
      Timeline s := by
  have hwindow : EveryStep next InWindow (initial [] false 0 ⟨0, by decide⟩) oneSample := by
    decide
  exact ⟨_, rfl, rfl, run_timeline hwindow rfl⟩

/-- The update is received at 3 ms and added after the start was moved to 5 ms. -/
def earlySample : List Action :=
  [.subscribe, .tick ⟨3000000, by decide⟩, .callback armUpdate, .tick ⟨5000000, by decide⟩,
    .readStart, .storeStart, .addUpdate, .stop]

/-- Its sample stands two milliseconds before the start, which is no unsigned number. -/
theorem run_earlySample :
    ∃ s, run next (initial [] false 0 ⟨0, by decide⟩) earlySample = some s ∧ s.main = .stopped ∧
      s.capture.seriesByKey.map (outputSamples 0) = [[⟨2 ^ 64 - 2000, .bool true⟩]] ∧
      ¬Timeline s := by
  refine ⟨_, rfl, rfl, by decide +kernel, fun h => ?_⟩
  obtain ⟨r, hr, -, hsampled⟩ := h.sampled _ List.mem_cons_self _ List.mem_cons_self
  obtain rfl := List.mem_singleton.mp hr
  exact absurd hsampled.received (by decide)

end SmartDashboard.Capture
