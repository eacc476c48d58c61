import SmartDashboard.Transport.ReplayFile

/-!
# Recorded events

The lines that a session recording is made of, written by `RecordVariableEvent`, and what
`ParseReplayEvent` makes of them. The format has three value types, `bool`, `double` and `string`:
an update of any other type is recorded as a string, the `QVariant::toString` of its value.

`QJsonDocument`'s compact text and its parser are parameters.

## Main definitions

- `recordVariableEvent`: one call while the recording runs
- `ReadsBack`: what is relied on about the JSON text of a line
- `replayed`: the update that a recorded update replays as

## Main results

- `replays`: a recording replays as the updates it was made of, each as `replayed`
-/

namespace SmartDashboard.Transport.Variant

open Direct (ByteString DoubleBits)
open App (text)

/-- `QVariant::toBool`. -/
def toBool : Variant → Bool
  | .bool value => value
  | .double value => value &&& 0x7FFFFFFFFFFFFFFF ≠ 0
  | .string value => ¬(value = [] ∨ value = text "0" ∨ toLower value = text "false")
  | _ => false

/-- `QVariant::toDouble`. -/
def toDouble (qt : QtNumbers) : Variant → DoubleBits
  | .bool value => if value then 0x3FF0000000000000 else 0
  | .double value => value
  | .string value => qt.stringToDouble value
  | _ => 0

/-- `QVariant::toString`. A list has a text only if it has exactly one item. -/
def toString (qt : QtNumbers) : Variant → ByteString
  | .bool value => if value then text "true" else text "false"
  | .double value => qt.doubleToString value
  | .string value => value
  | .stringList [value] => value
  | _ => []

end SmartDashboard.Transport.Variant

namespace SmartDashboard.App.Recording

open Direct (ByteString DoubleBits)
open Transport Transport.Replay

/-! ### The recorder -/

/-- The time since the start. -/
def elapsedUs (startSteadyUs nowSteadyUs : UInt64) : UInt64 :=
  if startSteadyUs ≤ nowSteadyUs then nowSteadyUs - startSteadyUs else 0

/-- The timestamp of an event: the time since the start, never before the last event's. -/
def eventTimestampUs (startSteadyUs lastTimestampUs nowSteadyUs : UInt64) : UInt64 :=
  let timestampUs := elapsedUs startSteadyUs nowSteadyUs
  if timestampUs < lastTimestampUs then lastTimestampUs else timestampUs

variable (qt : QtNumbers)

/-- The JSON object of an update. -/
def variableObject (timestampUs : UInt64) (update : VariableUpdate) : JsonObject :=
  let typeString :=
    if update.valueType = 1 then text "bool"
    else if update.valueType = 2 then text "double"
    else text "string"
  [(text "eventKind", .string (text "data")),
    (text "key", .string update.key),
    (text "valueType", .string typeString),
    (text "seq", .string (Decimal.decimal update.seq.toNat)),
    (text "value",
      if typeString = text "bool" then .bool update.value.toBool
      else if typeString = text "double" then .double (update.value.toDouble qt)
      else .string (update.value.toString qt)),
    (text "timestampUs", .integer timestampUs.toInt64.toInt)]

/-- The members of the window that `RecordVariableEvent` uses. -/
structure Recorder where
  transportRecords : Bool
  startSteadyUs : UInt64
  lastTimestampUs : UInt64
  threadRunning : Bool
  stopRequested : Bool
  queue : List ByteString

/-- The recorder as `StartSessionRecording` leaves it. -/
def startSessionRecording (startSteadyUs : UInt64) : Recorder where
  transportRecords := true
  startSteadyUs := startSteadyUs
  lastTimestampUs := 0
  threadRunning := true
  stopRequested := false
  queue := []

variable (toJson : JsonObject → ByteString) (fromJson : ByteString → Option JsonObject)

def recordVariableEvent (r : Recorder) (nowSteadyUs : UInt64) (update : VariableUpdate) :
    Recorder :=
  if r.transportRecords = false then r
  else if r.threadRunning = false ∨ r.stopRequested = true then r
  else
    let timestampUs := eventTimestampUs r.startSteadyUs r.lastTimestampUs nowSteadyUs
    { r with
      lastTimestampUs := timestampUs
      queue := r.queue ++ [toJson (variableObject qt timestampUs update)] }

/-- A sequence of calls, each with its reading of the clock. -/
def recordAll (r : Recorder) (calls : List (UInt64 × VariableUpdate)) : Recorder :=
  calls.foldl (fun r call => recordVariableEvent qt toJson r call.1 call.2) r

/-- What the writer thread makes of the queue. -/
def written (queue : List ByteString) : ByteString := queue.flatMap fun line => line ++ [10]

/-- The updates of the calls with the timestamps that are recorded for them. -/
def timestamped (startSteadyUs : UInt64) :
    UInt64 → List (UInt64 × VariableUpdate) → List (UInt64 × VariableUpdate)
  | _, [] => []
  | lastTimestampUs, (nowSteadyUs, update) :: calls =>
    let timestampUs := eventTimestampUs startSteadyUs lastTimestampUs nowSteadyUs
    (timestampUs, update) :: timestamped startSteadyUs timestampUs calls

theorem map_snd_timestamped (startSteadyUs lastTimestampUs : UInt64)
    (calls : List (UInt64 × VariableUpdate)) :
    (timestamped startSteadyUs lastTimestampUs calls).map Prod.snd = calls.map Prod.snd := by
  induction calls generalizing lastTimestampUs with
  | nil => rfl
  | cons call calls ih => rw [timestamped, List.map_cons, List.map_cons, ih]

theorem queue_recordAll {r : Recorder} (htransport : r.transportRecords = true)
    (hrunning : r.threadRunning = true) (hstop : r.stopRequested = false)
    (calls : List (UInt64 × VariableUpdate)) :
    (recordAll qt toJson r calls).queue = r.queue ++
      (timestamped r.startSteadyUs r.lastTimestampUs calls).map
        fun entry => toJson (variableObject qt entry.1 entry.2) := by
  induction calls generalizing r with
  | nil => exact (List.append_nil _).symm
  | cons call calls ih =>
    have hstep : recordVariableEvent qt toJson r call.1 call.2 =
        { r with
          lastTimestampUs := eventTimestampUs r.startSteadyUs r.lastTimestampUs call.1
          queue := r.queue ++ [toJson (variableObject qt
            (eventTimestampUs r.startSteadyUs r.lastTimestampUs call.1) call.2)] } := by
      rw [recordVariableEvent, if_neg (by simp [htransport]), if_neg (by simp [hrunning, hstop])]
    show (recordAll qt toJson (recordVariableEvent qt toJson r call.1 call.2) calls).queue = _
    rw [ih (by rw [hstep]; exact htransport) (by rw [hstep]; exact hrunning)
      (by rw [hstep]; exact hstop), hstep, timestamped, List.map_cons, List.append_assoc]
    rfl

/-! ### Reading back -/

/-- The value that Qt reads for a value it wrote. A number may come back as an integer, and then
with the same `double`. -/
def SameValue (value value' : JsonValue) : Prop :=
  match value with
  | .double bits => value'.toDouble qt = bits
  | _ => value' = value

/-- The compact text of an object is one line and is read back as the object. -/
structure ReadsBack (object : JsonObject) : Prop where
  nonempty : toJson object ≠ []
  oneLine : 10 ∉ toJson object
  trimmed : trimmed (toJson object) = toJson object
  parses : ∃ object', fromJson (toJson object) = some object' ∧
    ∀ name, SameValue qt (object.value name) (object'.value name)

/-- JSON has no text for an infinity or a NaN. -/
def FiniteDoubles (object : JsonObject) : Prop :=
  ∀ field ∈ object, ∀ bits, field.2 = .double bits → isFinite bits = true

/-- An update as the transports hand them over: its value is of the type it names. -/
def Recordable (update : VariableUpdate) : Prop :=
  update.key ≠ [] ∧
    match update.value with
    | .bool _ => update.valueType = 1
    | .double bits => update.valueType = 2 ∧ isFinite bits = true
    | .string _ => update.valueType = 3
    | .stringList _ => update.valueType = 4
    | .invalid => False

/-- What an update replays as. The format has no string arrays: one is carried as a string, its
item if it has only one, and empty otherwise. -/
def replayed (update : VariableUpdate) : VariableUpdate :=
  match update.value with
  | .stringList [item] => { update with valueType := 3, value := .string item }
  | .stringList _ => { update with valueType := 3, value := .string [] }
  | _ => update

theorem value_value (timestampUs : UInt64) (update : VariableUpdate) :
    (variableObject qt timestampUs update).value (text "value") =
    if update.valueType = 1 then .bool update.value.toBool
    else if update.valueType = 2 then .double (update.value.toDouble qt)
    else .string (update.value.toString qt) := by
  have hvalue : (variableObject qt timestampUs update).value (text "value") =
      if (if update.valueType = 1 then text "bool"
        else if update.valueType = 2 then text "double" else text "string") = text "bool" then
        .bool update.value.toBool
      else if (if update.valueType = 1 then text "bool"
        else if update.valueType = 2 then text "double" else text "string") = text "double" then
        .double (update.value.toDouble qt)
      else .string (update.value.toString qt) := rfl
  rw [hvalue]
  split_ifs with hbool hdouble <;> first | rfl | contradiction

/-- The type that is read for the type that was written. -/
theorem replayValueType_valueType (valueType : Int32) :
    replayValueType qt (.string (if valueType = 1 then text "bool"
      else if valueType = 2 then text "double" else text "string")) =
      if valueType = 1 then 1 else if valueType = 2 then 2 else 3 := by
  split_ifs <;> rfl

/-- The value that is read for the value that was written, by the type that was written. -/
theorem replayValue_value {update : VariableUpdate} (hupdate : Recordable update)
    {value' : JsonValue}
    (hsame : SameValue qt (if update.valueType = 1 then .bool update.value.toBool
      else if update.valueType = 2 then .double (update.value.toDouble qt)
      else .string (update.value.toString qt)) value') :
    replayValue qt (if update.valueType = 1 then 1 else if update.valueType = 2 then 2 else 3)
        value' = (replayed update).value ∧
      (if update.valueType = 1 then 1 else if update.valueType = 2 then 2 else 3) =
        (replayed update).valueType := by
  obtain ⟨-, hvariant⟩ := hupdate
  obtain ⟨key, valueType, value, seq⟩ := update
  -- The type of the value decides what was written, and so what is read.
  cases value with
  | invalid => exact hvariant.elim
  | bool b =>
    obtain rfl : valueType = 1 := hvariant
    obtain rfl : value' = .bool b := hsame
    exact ⟨rfl, rfl⟩
  | double bits =>
    obtain rfl : valueType = 2 := hvariant.1
    have hdouble : value'.toDouble qt = bits := hsame
    exact ⟨congrArg Variant.double hdouble, rfl⟩
  | string s =>
    obtain rfl : valueType = 3 := hvariant
    obtain rfl : value' = .string s := hsame
    exact ⟨rfl, rfl⟩
  | stringList items =>
    obtain rfl : valueType = 4 := hvariant
    obtain rfl : value' = .string (Variant.toString qt (.stringList items)) := hsame
    rcases items with _ | ⟨item, _ | ⟨item', items⟩⟩
    · exact ⟨rfl, rfl⟩
    · exact ⟨rfl, rfl⟩
    · exact ⟨rfl, rfl⟩

theorem replayed_key (update : VariableUpdate) : (replayed update).key = update.key := by
  unfold replayed
  split <;> rfl

theorem replayed_seq (update : VariableUpdate) : (replayed update).seq = update.seq := by
  unfold replayed
  split <;> rfl

/-- An object with the values that were written for an update is parsed as its event. -/
theorem parseReplayEvent_variableObject {timestampUs : UInt64} {update : VariableUpdate}
    (hupdate : Recordable update) {object' : JsonObject}
    (hsame : ∀ name, SameValue qt ((variableObject qt timestampUs update).value name)
      (object'.value name)) :
    parseReplayEvent qt object' =
      some { timestampUs := timestampUs.toInt64.toInt, update := replayed update } := by
  have heventKind : object'.value (text "eventKind") = .string (text "data") :=
    hsame (text "eventKind")
  have hkey : object'.value (text "key") = .string update.key := hsame (text "key")
  have hseq : object'.value (text "seq") = .string (Decimal.decimal update.seq.toNat) :=
    hsame (text "seq")
  have htimestamp : object'.value (text "timestampUs") = .integer timestampUs.toInt64.toInt :=
    hsame (text "timestampUs")
  have hvalueType : object'.value (text "valueType") =
      .string (if update.valueType = 1 then text "bool"
        else if update.valueType = 2 then text "double" else text "string") :=
    hsame (text "valueType")
  have hvalue := hsame (text "value")
  rw [value_value] at hvalue
  obtain ⟨hvalue, htype⟩ := replayValue_value qt hupdate hvalue
  have hseq' : (object'.value (text "seq")).toULongLong qt = update.seq := by
    rw [hseq, JsonValue.toULongLong, stringToULongLong_decimal update.seq.toNat_lt,
      UInt64.ofNat_toNat]
  simp only [parseReplayEvent]
  rw [heventKind, hkey, hvalueType, htimestamp, replayValueType_valueType, hseq', hvalue, htype,
    if_neg (by decide), if_neg (by decide)]
  refine (if_neg hupdate.1).trans ?_
  rw [← replayed_key update, ← replayed_seq update]
  rfl

/-- Only the value of a `double` is written as one. -/
theorem valueType_of_double {timestampUs : UInt64} {update : VariableUpdate}
    {field : ByteString × JsonValue} (hfield : field ∈ variableObject qt timestampUs update)
    {bits : DoubleBits} (hbits : field.2 = .double bits) :
    update.valueType = 2 ∧ update.value.toDouble qt = bits := by
  simp only [variableObject, List.mem_cons, List.not_mem_nil, or_false] at hfield
  rcases hfield with rfl | rfl | rfl | rfl | rfl | rfl
  · cases hbits
  · cases hbits
  · cases hbits
  · cases hbits
  · by_cases hbool : update.valueType = 1
    · simp only [hbool] at hbits
      cases hbits
    · by_cases hdouble : update.valueType = 2
      · refine ⟨hdouble, ?_⟩
        simp only [hdouble] at hbits
        exact JsonValue.double.inj hbits
      · simp only [hbool, hdouble] at hbits
        cases hbits
  · cases hbits

theorem finiteDoubles_variableObject {timestampUs : UInt64} {update : VariableUpdate}
    (hupdate : Recordable update) : FiniteDoubles (variableObject qt timestampUs update) := by
  intro field hfield bits hbits
  obtain ⟨htype, hdouble⟩ := valueType_of_double qt hfield hbits
  obtain ⟨-, hvariant⟩ := hupdate
  cases hvalue : update.value with
  | double value =>
    rw [hvalue] at hvariant hdouble
    obtain rfl : value = bits := hdouble
    exact hvariant.2
  | invalid =>
    rw [hvalue] at hvariant
    exact hvariant.elim
  | bool _ | string _ | stringList _ =>
    rw [hvalue] at hvariant
    exact absurd (htype.symm.trans hvariant) (by decide)

/-! ### The recording -/

/-- The events of a recording are the updates it was made of, in their order and at the timestamps
they were recorded with, each as it is `replayed`. -/
theorem replays (startSteadyUs : UInt64) (calls : List (UInt64 × VariableUpdate))
    (hcalls : ∀ call ∈ calls, Recordable call.2)
    (hjson : ∀ entry ∈ timestamped startSteadyUs 0 calls,
      FiniteDoubles (variableObject qt entry.1 entry.2) →
        ReadsBack qt toJson fromJson (variableObject qt entry.1 entry.2)) :
    loadReplayLines qt fromJson
        (written (recordAll qt toJson (startSessionRecording startSteadyUs) calls).queue) =
      (timestamped startSteadyUs 0 calls).map fun entry =>
        { timestampUs := entry.1.toInt64.toInt, update := replayed entry.2 } := by
  have hrecordable : ∀ entry ∈ timestamped startSteadyUs 0 calls, Recordable entry.2 := by
    intro entry hentry
    have hupdate : entry.2 ∈ calls.map Prod.snd := by
      rw [← map_snd_timestamped startSteadyUs 0]
      exact List.mem_map_of_mem hentry
    obtain ⟨call, hcall, heq⟩ := List.mem_map.mp hupdate
    exact heq ▸ hcalls call hcall
  have hreads : ∀ entry ∈ timestamped startSteadyUs 0 calls,
      ReadsBack qt toJson fromJson (variableObject qt entry.1 entry.2) := fun entry hentry =>
    hjson entry hentry (finiteDoubles_variableObject qt (hrecordable entry hentry))
  rw [queue_recordAll qt toJson rfl rfl rfl, written]
  show loadReplayLines qt fromJson (((timestamped startSteadyUs 0 calls).map _).flatMap _) = _
  rw [loadReplayLines_lines]
  · rw [List.filterMap_map, ← List.filterMap_eq_map]
    apply List.filterMap_congr
    intro entry hentry
    obtain ⟨object', hparse, hsame⟩ := (hreads entry hentry).parses
    show (fromJson _).bind _ = _
    rw [hparse]
    exact parseReplayEvent_variableObject qt (hrecordable entry hentry) hsame
  · intro line hline
    obtain ⟨entry, hentry, rfl⟩ := List.mem_map.mp hline
    have h := hreads entry hentry
    exact ⟨h.nonempty, h.oneLine, h.trimmed⟩

theorem sameValue_refl (value : JsonValue) : SameValue qt value value := by
  cases value <;> rfl

/-- No number of the lines below is converted. -/
def unusedNumbers : QtNumbers where
  doubleToLongLong _ := 0
  longLongToDouble _ := 0
  stringToDouble _ := 0
  doubleToString _ := []

/-- The parser, on one line. -/
def parserOf (line : ByteString) (object : JsonObject) : ByteString → Option JsonObject :=
  fun raw => if raw = line then some object else none

theorem readsBack_parserOf {line : ByteString} {object : JsonObject} (hne : line ≠ [])
    (hnewline : 10 ∉ line) (htrimmed : Transport.trimmed line = line) :
    ReadsBack qt (fun _ => line) (parserOf line object) object where
  nonempty := hne
  oneLine := hnewline
  trimmed := htrimmed
  parses := ⟨object, if_pos rfl, fun name => sameValue_refl qt (object.value name)⟩

def armUpdate : VariableUpdate where
  key := text "Arm"
  valueType := 1
  value := .bool true
  seq := 7

def armLine : ByteString :=
  text "\x7b\"eventKind\":\"data\",\"key\":\"Arm\",\"seq\":\"7\",\"timestampUs\":1500," ++
    text "\"value\":true,\"valueType\":\"bool\"\x7d"

theorem replays_armUpdate :
    loadReplayLines unusedNumbers
        (parserOf armLine (variableObject unusedNumbers 1500 armUpdate))
        (written (recordAll unusedNumbers (fun _ => armLine) (startSessionRecording 1000)
          [(2500, armUpdate)]).queue) =
      [{ timestampUs := 1500, update := armUpdate }] := by
  refine replays unusedNumbers _ _ 1000 [(2500, armUpdate)] ?_ ?_
  · intro call hcall
    rw [List.mem_singleton.mp hcall]
    exact ⟨by decide, rfl⟩
  · intro entry hentry _
    obtain rfl : entry = (1500, armUpdate) := List.mem_singleton.mp hentry
    exact readsBack_parserOf _ (by decide) (by decide) (by decide)

def optionsUpdate : VariableUpdate where
  key := text "Options"
  valueType := 4
  value := .stringList [text "Left", text "Right"]
  seq := 7

def optionsLine : ByteString :=
  text "\x7b\"eventKind\":\"data\",\"key\":\"Options\",\"seq\":\"7\",\"timestampUs\":1500," ++
    text "\"value\":\"\",\"valueType\":\"string\"\x7d"

/-- A string array comes back as a string, without its items. -/
theorem stringArray_replayed_as_string :
    Recordable optionsUpdate ∧
      ReadsBack unusedNumbers (fun _ => optionsLine)
        (parserOf optionsLine (variableObject unusedNumbers 1500 optionsUpdate))
        (variableObject unusedNumbers 1500 optionsUpdate) ∧
      loadReplayLines unusedNumbers
          (parserOf optionsLine (variableObject unusedNumbers 1500 optionsUpdate))
          (written (recordAll unusedNumbers (fun _ => optionsLine) (startSessionRecording 1000)
            [(2500, optionsUpdate)]).queue) ≠
        [{ timestampUs := 1500, update := optionsUpdate }] := by
  refine ⟨⟨by decide, rfl⟩, readsBack_parserOf _ (by decide) (by decide) (by decide), ?_⟩
  decide

end SmartDashboard.App.Recording
