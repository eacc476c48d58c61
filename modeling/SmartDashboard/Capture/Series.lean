import Mathlib.Data.UInt
import Mathlib.Order.Lattice
import SmartDashboard.Direct.Types
import SmartDashboard.Library.LastWrite

/-!
# Captured series

The state of the capture tool. `AddUpdate` files every update that it is handed under its key, at
the time since the start of the capture: as a further sample, or in the bucket of that time when
the samples are coalesced. `BuildRunJson` writes the series out, in the order of their keys. A
point of the steady clock is its nanoseconds.

## Main definitions

- `CaptureState`, `addUpdate`: the state and what an update does to it
- `outputSamples`: the samples of a series as they are written out
- `seriesOf`: what a list of received updates leaves under one key

## Main results

- `last_addUpdate`: the series of a key after one more update
-/

namespace SmartDashboard.Capture

open Direct (ByteString DoubleBits ValueType VariableUpdate)

inductive SampleValue
  | bool (value : Bool)
  | double (value : DoubleBits)
  | string (value : ByteString)
  deriving DecidableEq, Repr

structure SamplePoint where
  tUs : UInt64
  value : SampleValue
  deriving DecidableEq, Repr

structure SignalSeries where
  key : ByteString
  type : ValueType := .string
  samples : List SamplePoint := []
  bucketedSamples : List (UInt64 × SamplePoint) := []
  deriving DecidableEq, Repr

structure CaptureState where
  seriesByKey : List SignalSeries := []
  discoveredSignals : List ByteString := []
  filterSignals : List ByteString := []
  useFilter : Bool := false
  sampleMs : Int32 := 0
  captureStartSteady : ℤ
  totalUpdates : UInt64 := 0
  deriving DecidableEq, Repr

def isCaptureEnabledForSignal (state : CaptureState) (key : ByteString) : Bool :=
  if state.useFilter = false then true else key ∈ state.filterSignals

/-- The count of microseconds since the start, as an unsigned number. -/
def elapsedUs (captureStartSteady now : ℤ) : UInt64 :=
  UInt64.ofInt ((now - captureStartSteady).tdiv 1000)

/-- A string array has no case of its own, and its `stringValue` is not set. -/
def sampleValue (update : VariableUpdate) : SampleValue :=
  match update.type with
  | .bool => .bool update.value.boolValue
  | .double => .double update.value.doubleValue
  | .string => .string update.value.stringValue
  | .stringArray => .string update.value.stringValue

def bucketOf (sampleMs : Int32) (tUs : UInt64) : UInt64 :=
  let bucketUs := UInt64.ofInt sampleMs.toInt * 1000
  if bucketUs = 0 then 0 else tUs / bucketUs

/-- An update with the time at which its callback read the clock. -/
structure Received where
  update : VariableUpdate
  now : ℤ
  deriving DecidableEq, Repr

abbrev Received.key (r : Received) : ByteString := r.update.key

/-- The sample that is made of an update. -/
def samplePoint (captureStartSteady : ℤ) (r : Received) : SamplePoint where
  tUs := elapsedUs captureStartSteady r.now
  value := sampleValue r.update

/-- The series with one more update in it. -/
def record (sampleMs : Int32) (captureStartSteady : ℤ) (series : SignalSeries)
    (r : Received) : SignalSeries :=
  let point := samplePoint captureStartSteady r
  if 0 < sampleMs then
    { series with
      key := r.key
      type := r.update.type
      bucketedSamples := LastWrite.insert Prod.fst (· < ·) series.bucketedSamples
        (bucketOf sampleMs point.tUs, point) }
  else
    { series with key := r.key, type := r.update.type, samples := series.samples ++ [point] }

/-- `AddUpdate`. The `std::map` and the `std::set` keep the order of their keys. -/
def addUpdate (state : CaptureState) (r : Received) : CaptureState :=
  let discovered :=
    { state with discoveredSignals := LastWrite.insert id (· < ·) state.discoveredSignals r.key }
  if isCaptureEnabledForSignal state r.key = false then discovered
  else
    let series := (LastWrite.last SignalSeries.key r.key state.seriesByKey).getD { key := r.key }
    { discovered with
      seriesByKey := LastWrite.insert SignalSeries.key (· < ·) state.seriesByKey
        (record state.sampleMs state.captureStartSteady series r)
      totalUpdates := state.totalUpdates + 1 }

/-- The samples that `BuildRunJson` writes for a series. -/
def outputSamples (sampleMs : Int32) (series : SignalSeries) : List SamplePoint :=
  if 0 < sampleMs then series.bucketedSamples.map Prod.snd else series.samples

/-! ### The series of a key -/

variable {sampleMs : Int32} {captureStartSteady : ℤ}

theorem key_record (series : SignalSeries) (r : Received) :
    (record sampleMs captureStartSteady series r).key = r.key := by
  rw [record]
  split_ifs <;> rfl

abbrev OrderedByKey : List SignalSeries → Prop := LastWrite.Ordered SignalSeries.key (· < ·)

theorem OrderedByKey.addUpdate {state : CaptureState} (h : OrderedByKey state.seriesByKey)
    (r : Received) : OrderedByKey (addUpdate state r).seriesByKey := by
  rw [Capture.addUpdate]
  split_ifs
  · exact h
  · exact LastWrite.Ordered.insert h _

/-- The buckets of a list of received updates, the last one in each of them. -/
def bucketsOf (sampleMs : Int32) (captureStartSteady : ℤ) (received : List Received) :
    List (UInt64 × SamplePoint) :=
  (received.map fun r =>
    let point := samplePoint captureStartSteady r
    (bucketOf sampleMs point.tUs, point)).foldl (LastWrite.insert Prod.fst (· < ·)) []

/-- What a list of received updates leaves under a key, all of them updates of it. -/
def seriesOf (sampleMs : Int32) (captureStartSteady : ℤ) (received : List Received) :
    Option SignalSeries :=
  received.getLast?.map fun r =>
    { key := r.key
      type := r.update.type
      samples := if 0 < sampleMs then [] else received.map (samplePoint captureStartSteady)
      bucketedSamples := if 0 < sampleMs then bucketsOf sampleMs captureStartSteady received
        else [] }

theorem bucketsOf_concat (received : List Received) (r : Received) :
    bucketsOf sampleMs captureStartSteady (received ++ [r]) =
      LastWrite.insert Prod.fst (· < ·) (bucketsOf sampleMs captureStartSteady received)
        (bucketOf sampleMs (samplePoint captureStartSteady r).tUs,
          samplePoint captureStartSteady r) := by
  rw [bucketsOf, List.map_append, List.foldl_append]
  rfl

/-- The series that an update is put into, the empty one if there is none. -/
theorem getD_seriesOf (received : List Received) (key : ByteString) :
    ((seriesOf sampleMs captureStartSteady received).getD { key := key }).samples =
        (if 0 < sampleMs then [] else received.map (samplePoint captureStartSteady)) ∧
      ((seriesOf sampleMs captureStartSteady received).getD { key := key }).bucketedSamples =
        if 0 < sampleMs then bucketsOf sampleMs captureStartSteady received else [] := by
  cases hlast : received.getLast? with
  | none =>
    obtain rfl := List.getLast?_eq_none_iff.mp hlast
    constructor
    · split_ifs <;> rfl
    · split_ifs <;> rfl
  | some r =>
    rw [seriesOf, hlast]
    exact ⟨rfl, rfl⟩

theorem seriesOf_concat (received : List Received) (r : Received) :
    seriesOf sampleMs captureStartSteady (received ++ [r]) =
      some (record sampleMs captureStartSteady
        ((seriesOf sampleMs captureStartSteady received).getD { key := r.key }) r) := by
  obtain ⟨hsamples, hbuckets⟩ := @getD_seriesOf sampleMs captureStartSteady received r.key
  have hlast : (received ++ [r]).getLast? = some r := List.getLast?_concat
  rw [seriesOf, hlast, record]
  split_ifs with hbucketed
  · rw [if_pos hbucketed] at hsamples hbuckets
    rw [hsamples, hbuckets, bucketsOf_concat]
    rfl
  · rw [if_neg hbucketed] at hsamples hbuckets
    rw [hsamples, hbuckets, List.map_append]
    rfl

/-- The series of a key after one more update: one update longer if the update is captured and is
of the key. -/
theorem last_addUpdate {state : CaptureState} (hordered : OrderedByKey state.seriesByKey)
    {received : List Received}
    (hseries : ∀ key, LastWrite.last SignalSeries.key key state.seriesByKey =
      seriesOf state.sampleMs state.captureStartSteady (LastWrite.writes Received.key key received))
    {r : Received} (henabled : isCaptureEnabledForSignal state r.key = true) (key : ByteString) :
    LastWrite.last SignalSeries.key key (addUpdate state r).seriesByKey =
      seriesOf state.sampleMs state.captureStartSteady
        (LastWrite.writes Received.key key (received ++ [r])) := by
  have hadd : (addUpdate state r).seriesByKey =
      LastWrite.insert SignalSeries.key (· < ·) state.seriesByKey
        (record state.sampleMs state.captureStartSteady
          ((LastWrite.last SignalSeries.key r.key state.seriesByKey).getD { key := r.key }) r) := by
    rw [addUpdate, if_neg (by rw [henabled]; exact Bool.true_eq_false.mp)]
  rw [hadd, LastWrite.overwrites_insert.last_step hordered, LastWrite.last_append,
    LastWrite.last_singleton, key_record, LastWrite.writes_append, LastWrite.writes_singleton]
  split_ifs with hkey
  · subst hkey
    rw [hseries, seriesOf_concat]
    rfl
  · rw [List.append_nil, hseries]
    rfl

theorem addUpdate_of_not_enabled {state : CaptureState} {r : Received}
    (hnot : isCaptureEnabledForSignal state r.key = false) :
    (addUpdate state r).seriesByKey = state.seriesByKey := by
  rw [addUpdate, if_pos hnot]

/-! ### The buckets -/

theorem orderedBuckets (received : List Received) :
    LastWrite.Ordered Prod.fst (· < ·) (bucketsOf sampleMs captureStartSteady received) :=
  LastWrite.overwrites_insert.valid_foldl List.Pairwise.nil _

/-- A bucket holds the last update in it. -/
theorem last_bucketsOf (received : List Received) (bucket : UInt64) :
    LastWrite.last Prod.fst bucket (bucketsOf sampleMs captureStartSteady received) =
      (received.filter fun r =>
        bucketOf sampleMs (samplePoint captureStartSteady r).tUs = bucket).getLast?.map
          fun r => (bucket, samplePoint captureStartSteady r) := by
  rw [bucketsOf, LastWrite.overwrites_insert.last_foldl List.Pairwise.nil, List.nil_append,
    LastWrite.last, LastWrite.writes, List.filter_map, List.getLast?_map]
  apply Option.map_congr
  intro r hr
  have hmem := List.mem_of_getLast? hr
  have hbucket := of_decide_eq_true (List.mem_filter.mp hmem).2
  exact congrArg (fun b => (b, samplePoint captureStartSteady r)) hbucket

/-- What stands in a bucket was made of an update in it. -/
theorem exists_of_mem_bucketsOf {received : List Received} {entry : UInt64 × SamplePoint}
    (h : entry ∈ bucketsOf sampleMs captureStartSteady received) :
    ∃ r ∈ received, samplePoint captureStartSteady r = entry.2 ∧
      bucketOf sampleMs entry.2.tUs = entry.1 := by
  have hlast := (orderedBuckets received).distinct.last_of_mem h
  rw [last_bucketsOf, Option.map_eq_some_iff] at hlast
  obtain ⟨r, hr, hentry⟩ := hlast
  obtain ⟨hmem, hbucket⟩ := List.mem_filter.mp (List.mem_of_getLast? hr)
  have hpoint : samplePoint captureStartSteady r = entry.2 := congrArg Prod.snd hentry
  exact ⟨r, hmem, hpoint, hpoint ▸ of_decide_eq_true hbucket⟩

end SmartDashboard.Capture
