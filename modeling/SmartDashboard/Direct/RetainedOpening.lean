import Mathlib.Logic.Function.Basic
import SmartDashboard.Direct.RetainedSystem

/-!
# Opening the retained store

`OpenOrCreate` loads the file into an empty table while it owns the mutex. The numbers of a line
are converted by functions that throw, after its slot has been marked occupied and without anything
that would release the mutex on the way out. A line with five fields that is no record is therefore
not skipped: it ends the call, or it is loaded with whatever number it begins with.

## Main definitions

- `fillEntry`, `loadLine`, `loadLocked`: the loop over the lines, with what a throw leaves behind
- `Opening`, `openOrCreate`: the call with what it finds
- `WellFormed`: the lines that are records
- `Tolerates`: the call returns without the mutex, and other lines are skipped

## Main results

- `runLines_eq_loadLines`: what is loaded if nothing throws
- `tolerates_iff`: the files that are tolerated
-/

namespace SmartDashboard.Direct

open Decimal (IsDigit)

/-! ### Loading -/

/-- What a line of five fields leaves in its slot, and whether a conversion threw. -/
def fillEntry (doubles : DoubleText)
    (typeText seqText timestampText keyText valueText : ByteString) : RetainedEntry × Bool :=
  let entry : RetainedEntry := { occupied := true }
  match stoi typeText with
  | none => (entry, true)
  | some type =>
    let entry := { entry with type := UInt8.ofInt type }
    match stoull seqText with
    | none => (entry, true)
    | some seq =>
      let entry := { entry with seq := seq }
      match stoull timestampText with
      | none => (entry, true)
      | some sourceTimestampUs =>
        let entry :=
          { entry with
            sourceTimestampUs := sourceTimestampUs
            key := keyText.take kMaxKeyBytes }
        if entry.type = toWireType .bool then
          ({ entry with boolValue := valueText = [0x31] }, false)
        else if entry.type = toWireType .double then
          match doubles.parse valueText with
          | none => (entry, true)
          | some doubleValue => ({ entry with doubleValue := doubleValue }, false)
        else if entry.type = toWireType .stringArray then
          ({ entry with stringArrayValue := valueText.take kMaxStringBytes }, false)
        else ({ entry with stringValue := valueText.take kMaxStringBytes }, false)

/-- The slots of the table and the next one, and whether the loop was left by a throw. -/
structure LoadState where
  entries : ℕ → RetainedEntry
  idx : ℕ := 0
  thrown : Bool := false

/-- One turn of the loop, in a table of `count` slots. -/
def loadLine (doubles : DoubleText) (count : ℕ) (state : LoadState) (line : ByteString) :
    LoadState :=
  if state.thrown = true ∨ count ≤ state.idx then state
  else
    match splitEscaped line with
    | [type, seq, timestamp, key, value] =>
      let (entry, threw) := fillEntry doubles type seq timestamp key value
      { entries := Function.update state.entries state.idx entry
        idx := if threw then state.idx else state.idx + 1
        thrown := threw }
    | _ => state

def runLines (doubles : DoubleText) (count : ℕ) (state : LoadState) (lines : List ByteString) :
    LoadState :=
  lines.foldl (loadLine doubles count) state

/-! ### Opening -/

structure RetainedHeader where
  magic : UInt32 := 0
  version : UInt32 := 0
  maxEntries : UInt32 := 0
  deriving DecidableEq

namespace RetainedHeader

def kMagic : UInt32 := 0x53445254

def kVersion : UInt32 := 1

end RetainedHeader

/-- The shared memory. A new one is all zeros. -/
structure RetainedRegion where
  header : RetainedHeader := {}
  entries : ℕ → RetainedEntry := fun _ => {}

namespace RetainedRegion

/-- The region is cleared unless it is one of this size already. -/
def attach (region : RetainedRegion) (maxEntries : ℕ) : RetainedRegion :=
  if region.header.magic ≠ RetainedHeader.kMagic ∨
      region.header.version ≠ RetainedHeader.kVersion ∨
      region.header.maxEntries ≠ UInt32.ofNat maxEntries then
    { header :=
        { magic := RetainedHeader.kMagic
          version := RetainedHeader.kVersion
          maxEntries := UInt32.ofNat maxEntries } }
  else region

variable (region : RetainedRegion)

/-- How many slots the loops go through. -/
def count : ℕ := region.header.maxEntries.toNat

def allEmpty : Bool := (List.range region.count).all fun i => !(region.entries i).occupied

/-- Where the loop over the lines begins. -/
def cleared : LoadState where
  entries i := if i < region.count then {} else region.entries i

end RetainedRegion

/-- What `OpenOrCreate` finds: the region and the file, if they can be opened, and whether the mutex
can be created and waited for. -/
structure Opening where
  config : RetainedStoreConfig
  region : Option RetainedRegion
  mutexOpens : Bool
  waits : Bool
  file : Option ByteString

inductive Ending
  | returned (ok : Bool)
  | thrown
  deriving DecidableEq

structure Opened where
  ending : Ending
  mutexHeld : Bool
  region : Option RetainedRegion

namespace Opening

variable (doubles : DoubleText) (opening : Opening)

/-- The lines that `std::getline` reads. -/
def lines : List ByteString :=
  match opening.file with
  | some file => TextMode.lines (TextMode.ofFile file)
  | none => []

/-- The region that an attached one becomes, and whether loading threw. -/
def loadLocked (region : RetainedRegion) : RetainedRegion × Bool :=
  if opening.config.persistenceFilePath = [] ∨ opening.file = none then (region, false)
  else
    let state := runLines doubles region.count region.cleared opening.lines
    ({ region with entries := state.entries }, state.thrown)

def openOrCreate : Opened :=
  let maxEntries := max 16 opening.config.maxEntries
  match opening.region with
  | none => { ending := .returned false, mutexHeld := false, region := none }
  | some region =>
    if opening.mutexOpens = false ∨ opening.waits = false then
      { ending := .returned false, mutexHeld := false, region := some region }
    else
      let region := region.attach maxEntries
      if region.allEmpty = true then
        let (region, threw) := opening.loadLocked doubles region
        if threw then { ending := .thrown, mutexHeld := true, region := some region }
        else { ending := .returned true, mutexHeld := false, region := some region }
      else { ending := .returned true, mutexHeld := false, region := some region }

/-- The call gets to loading the file, into this region. -/
def LoadsInto (region : RetainedRegion) : Prop :=
  (∃ mapped, opening.region = some mapped ∧
    region = mapped.attach (max 16 opening.config.maxEntries)) ∧
  opening.mutexOpens = true ∧ opening.waits = true ∧ region.allEmpty = true ∧
    opening.config.persistenceFilePath ≠ [] ∧ opening.file ≠ none

end Opening

/-! ### Records -/

/-- A text that is a number as a whole: digits, behind white space and a sign if there are any. -/
def IsNumeric (text : ByteString) : Prop :=
  (takeSign (text.dropWhile isBlank)).2 ≠ [] ∧
    ∀ b ∈ (takeSign (text.dropWhile isBlank)).2, IsDigit b

/-- The three numbers of a record, which the conversions accept. -/
def Numbers (type seq timestamp : ByteString) : Prop :=
  (IsNumeric type ∧ (stoi type).isSome = true) ∧ (IsNumeric seq ∧ (stoull seq).isSome = true) ∧
    (IsNumeric timestamp ∧ (stoull timestamp).isSome = true)

def WellFormed (line : ByteString) : Prop :=
  ∃ type seq timestamp key value, splitEscaped line = [type, seq, timestamp, key, value] ∧
    Numbers type seq timestamp

def RetainedEntry.HasValueType (entry : RetainedEntry) : Prop :=
  ∃ type, entry.type = toWireType type

/-- A record of one of the four types, with a number for its value if it is a double. -/
def Loadable (doubles : DoubleText) (line : ByteString) : Prop :=
  ∃ type seq timestamp key value, splitEscaped line = [type, seq, timestamp, key, value] ∧
    Numbers type seq timestamp ∧ ∃ valueType,
      (stoi type).map UInt8.ofInt = some (toWireType valueType) ∧
        (valueType = .double → (doubles.parse value).isSome = true)

def isRecord (line : ByteString) : Bool := (splitEscaped line).length = 5

/-- Whatever the file has in it, the call returns and has released the mutex, a line that is no
record leaves the loop as it was, and what is loaded has one of the four types. -/
structure Tolerates (doubles : DoubleText) (opening : Opening) : Prop where
  returns : ∃ ok, (opening.openOrCreate doubles).ending = .returned ok
  released : (opening.openOrCreate doubles).mutexHeld = false
  skips : ∀ region, opening.LoadsInto region → ∀ before line after,
    opening.lines = before ++ line :: after → ¬WellFormed line →
      loadLine doubles region.count (runLines doubles region.count region.cleared before) line =
        runLines doubles region.count region.cleared before
  types : ∀ region, opening.LoadsInto region → ∀ loaded,
    (opening.openOrCreate doubles).region = some loaded → ∀ i < region.count,
      (loaded.entries i).occupied = true → (loaded.entries i).HasValueType

theorem Loadable.wellFormed {doubles : DoubleText} {line : ByteString}
    (h : Loadable doubles line) : WellFormed line := by
  obtain ⟨type, seq, timestamp, key, value, hsplit, hnumbers, -⟩ := h
  exact ⟨type, seq, timestamp, key, value, hsplit, hnumbers⟩

theorem exists_fields {line : ByteString} (h : isRecord line = true) :
    ∃ type seq timestamp key value, splitEscaped line = [type, seq, timestamp, key, value] := by
  rw [isRecord, decide_eq_true_eq] at h
  rcases hsplit : splitEscaped line with
    _ | ⟨type, _ | ⟨seq, _ | ⟨timestamp, _ | ⟨key, _ | ⟨value, _ | ⟨more, rest⟩⟩⟩⟩⟩⟩
  case cons.cons.cons.cons.cons.nil => exact ⟨type, seq, timestamp, key, value, rfl⟩
  all_goals
    rw [hsplit] at h
    simp at h

/-! ### One line -/

section Line

variable {doubles : DoubleText} {type seq timestamp key value line : ByteString} {count : ℕ}
  {state : LoadState}

/-- What a line that is loaded has been converted to. -/
theorem fillEntry_spec (h : (fillEntry doubles type seq timestamp key value).2 = false) :
    ∃ n, stoi type = some n ∧ (stoull seq).isSome = true ∧ (stoull timestamp).isSome = true ∧
      (fillEntry doubles type seq timestamp key value).1.occupied = true ∧
      (fillEntry doubles type seq timestamp key value).1.type = UInt8.ofInt n ∧
      (UInt8.ofInt n = toWireType .double → (doubles.parse value).isSome = true) := by
  unfold fillEntry at h ⊢
  cases hn : stoi type with
  | none => simp [hn] at h
  | some n =>
    cases hs : stoull seq with
    | none => simp [hn, hs] at h
    | some s =>
      cases ht : stoull timestamp with
      | none => simp [hn, hs, ht] at h
      | some t =>
        simp only [hn, hs, ht] at h ⊢
        refine ⟨n, rfl, rfl, rfl, ?_⟩
        split_ifs at h ⊢ with hbool hdouble harray
        · exact ⟨rfl, rfl, fun heq => absurd (hbool.symm.trans heq) (by decide)⟩
        · cases hparse : doubles.parse value with
          | none => simp [hparse] at h
          | some d => exact ⟨rfl, rfl, fun _ => rfl⟩
        · exact ⟨rfl, rfl, fun heq => absurd heq hdouble⟩
        · exact ⟨rfl, rfl, fun heq => absurd heq hdouble⟩

theorem fillEntry_of_numbers (hnumbers : Numbers type seq timestamp) {valueType : ValueType}
    (htype : (stoi type).map UInt8.ofInt = some (toWireType valueType))
    (hdouble : valueType = .double → (doubles.parse value).isSome = true) :
    (fillEntry doubles type seq timestamp key value).2 = false := by
  obtain ⟨⟨-, hn⟩, ⟨-, hs⟩, -, ht⟩ := hnumbers
  obtain ⟨n, hn⟩ := Option.isSome_iff_exists.mp hn
  obtain ⟨s, hs⟩ := Option.isSome_iff_exists.mp hs
  obtain ⟨t, ht⟩ := Option.isSome_iff_exists.mp ht
  rw [hn, Option.map_some, Option.some_inj] at htype
  unfold fillEntry
  simp only [hn, hs, ht]
  split_ifs with hbool hdouble' harray
  · rfl
  · have hvalue : valueType = .double := by
      rw [htype] at hdouble'
      cases valueType <;> first | rfl | exact absurd hdouble' (by decide)
    obtain ⟨d, hparse⟩ := Option.isSome_iff_exists.mp (hdouble hvalue)
    rw [hparse]
  · rfl
  · rfl

theorem loadLine_ended (h : state.thrown = true ∨ count ≤ state.idx) :
    loadLine doubles count state line = state := by
  rw [loadLine, if_pos h]

theorem loadLine_skipped (h : isRecord line = false) :
    loadLine doubles count state line = state := by
  rw [loadLine]
  split_ifs
  · rfl
  · split
    · next hsplit => simp [isRecord, hsplit] at h
    · rfl

theorem loadLine_record (hthrown : state.thrown = false) (hidx : state.idx < count)
    (hsplit : splitEscaped line = [type, seq, timestamp, key, value]) :
    loadLine doubles count state line =
      { entries := Function.update state.entries state.idx
          (fillEntry doubles type seq timestamp key value).1
        idx := if (fillEntry doubles type seq timestamp key value).2 then state.idx
          else state.idx + 1
        thrown := (fillEntry doubles type seq timestamp key value).2 } := by
  rw [loadLine, if_neg, hsplit]
  rw [hthrown]
  rintro (h | h)
  · cases h
  · omega

end Line

/-! ### The loop -/

section Loop

variable {doubles : DoubleText} {line : ByteString} {lines : List ByteString} {count : ℕ}
  {state : LoadState}

/-- Every slot that is in use has one of the four types. -/
def LoadState.Typed (count : ℕ) (state : LoadState) : Prop :=
  ∀ i < count, (state.entries i).occupied = true → (state.entries i).HasValueType

theorem runLines_cons (line : ByteString) (lines : List ByteString) :
    runLines doubles count state (line :: lines) =
      runLines doubles count (loadLine doubles count state line) lines := rfl

theorem runLines_ended (h : state.thrown = true ∨ count ≤ state.idx) (lines : List ByteString) :
    runLines doubles count state lines = state := by
  induction lines with
  | nil => rfl
  | cons line lines ih => rw [runLines_cons, loadLine_ended h, ih]

/-- The loop does not come back to a slot. -/
theorem runLines_entries {i : ℕ} (hi : i < state.idx) (lines : List ByteString) :
    (runLines doubles count state lines).entries i = state.entries i := by
  induction lines generalizing state with
  | nil => rfl
  | cons line lines ih =>
    rw [runLines_cons]
    by_cases hended : state.thrown = true ∨ count ≤ state.idx
    · rw [loadLine_ended hended, ih hi]
    · rw [not_or, Bool.not_eq_true, not_le] at hended
      cases hrecord : isRecord line with
      | false => rw [loadLine_skipped hrecord, ih hi]
      | true =>
        obtain ⟨type, seq, timestamp, key, value, hsplit⟩ := exists_fields hrecord
        rw [loadLine_record hended.1 hended.2 hsplit, ih]
        · exact Function.update_of_ne (by omega) _ _
        · dsimp only
          split_ifs <;> omega

/-- Records of the four types are loaded one after the other, and every other line is skipped. -/
theorem runLines_of_loadable (hthrown : state.thrown = false) (htyped : state.Typed count)
    (h : ∀ line ∈ (lines.filter isRecord).take (count - state.idx), Loadable doubles line) :
    (runLines doubles count state lines).thrown = false ∧
      (runLines doubles count state lines).Typed count ∧
      ∀ before line after, lines = before ++ line :: after → ¬WellFormed line →
        loadLine doubles count (runLines doubles count state before) line =
          runLines doubles count state before := by
  induction lines generalizing state with
  | nil => exact ⟨hthrown, htyped, fun before line after hsplit => by simp at hsplit⟩
  | cons first lines ih =>
    -- a line in front either is the one in question or has been read before it
    have hskips (hfirst : ¬WellFormed first → loadLine doubles count state first = state)
        (hrest : ∀ before line after, lines = before ++ line :: after → ¬WellFormed line →
          loadLine doubles count
              (runLines doubles count (loadLine doubles count state first) before) line =
            runLines doubles count (loadLine doubles count state first) before) :
        ∀ before line after, first :: lines = before ++ line :: after → ¬WellFormed line →
          loadLine doubles count (runLines doubles count state before) line =
            runLines doubles count state before := by
      intro before line after hsplit hline
      cases before with
      | nil =>
        obtain ⟨rfl, -⟩ := List.cons.inj hsplit
        exact hfirst hline
      | cons b before =>
        obtain ⟨rfl, htail⟩ := List.cons.inj hsplit
        exact hrest before line after htail hline
    by_cases hidx : count ≤ state.idx
    · rw [runLines_ended (.inr hidx)]
      refine ⟨hthrown, htyped, fun before line after _ _ => ?_⟩
      rw [runLines_ended (.inr hidx), loadLine_ended (.inr hidx)]
    rw [runLines_cons]
    cases hrecord : isRecord first with
    | false =>
      rw [List.filter_cons_of_neg (by simp [hrecord])] at h
      have hstep := @loadLine_skipped doubles first count state hrecord
      rw [hstep] at hskips ⊢
      obtain ⟨hreturns, hfinal, hrest⟩ := ih hthrown htyped h
      exact ⟨hreturns, hfinal, hskips (fun _ => rfl) hrest⟩
    | true =>
      have hroom : count - state.idx = count - (state.idx + 1) + 1 := by omega
      rw [List.filter_cons_of_pos hrecord, hroom, List.take_succ_cons, List.forall_mem_cons] at h
      obtain ⟨hfirst, hmore⟩ := h
      have hwell := hfirst.wellFormed
      obtain ⟨type, seq, timestamp, key, value, hsplit, hnumbers, valueType, htype, hdouble⟩ :=
        hfirst
      have hfill := @fillEntry_of_numbers doubles _ _ _ key _ hnumbers valueType htype hdouble
      obtain ⟨n, hn, -, -, -, hentry, -⟩ := fillEntry_spec hfill
      have hstep := @loadLine_record doubles _ _ _ _ _ _ _ _ hthrown (Nat.not_le.mp hidx) hsplit
      rw [hfill, if_neg Bool.false_ne_true] at hstep
      rw [hstep] at hskips ⊢
      have htyped' : LoadState.Typed count
          { entries := Function.update state.entries state.idx
              (fillEntry doubles type seq timestamp key value).1
            idx := state.idx + 1
            thrown := false } := by
        intro i hi hoccupied
        dsimp only at hoccupied ⊢
        by_cases heq : i = state.idx
        · rw [heq, Function.update_self, RetainedEntry.HasValueType, hentry]
          rw [hn, Option.map_some, Option.some_inj] at htype
          exact ⟨valueType, htype⟩
        · rw [Function.update_of_ne heq] at hoccupied ⊢
          exact htyped i hi hoccupied
      obtain ⟨hreturns, hfinal, hrest⟩ := ih rfl htyped' hmore
      exact ⟨hreturns, hfinal, hskips (fun hline => absurd hwell hline) hrest⟩

/-- A loop that has gone well has met no line of five fields that is no record. -/
theorem loadable_of_runLines (hthrown : state.thrown = false)
    (hreturns : (runLines doubles count state lines).thrown = false)
    (htyped : (runLines doubles count state lines).Typed count)
    (hskips : ∀ before line after, lines = before ++ line :: after → ¬WellFormed line →
      loadLine doubles count (runLines doubles count state before) line =
        runLines doubles count state before) :
    ∀ line ∈ (lines.filter isRecord).take (count - state.idx), Loadable doubles line := by
  induction lines generalizing state with
  | nil => simp
  | cons first lines ih =>
    by_cases hidx : count ≤ state.idx
    · rw [Nat.sub_eq_zero_of_le hidx, List.take_zero]
      exact List.forall_mem_nil _
    have hrest : ∀ before line after, lines = before ++ line :: after → ¬WellFormed line →
        loadLine doubles count
            (runLines doubles count (loadLine doubles count state first) before) line =
          runLines doubles count (loadLine doubles count state first) before := by
      intro before line after hsplit hline
      exact hskips (first :: before) line after (by rw [hsplit]; rfl) hline
    rw [runLines_cons] at hreturns htyped
    cases hrecord : isRecord first with
    | false =>
      rw [List.filter_cons_of_neg (by simp [hrecord])]
      rw [loadLine_skipped hrecord] at hreturns htyped hrest
      exact ih hthrown hreturns htyped hrest
    | true =>
      have hroom : count - state.idx = count - (state.idx + 1) + 1 := by omega
      obtain ⟨type, seq, timestamp, key, value, hsplit⟩ := exists_fields hrecord
      have hstep := @loadLine_record doubles _ _ _ _ _ _ _ _ hthrown (Nat.not_le.mp hidx) hsplit
      have hfill : (fillEntry doubles type seq timestamp key value).2 = false := by
        cases hthrew : (fillEntry doubles type seq timestamp key value).2 with
        | false => rfl
        | true =>
          rw [hstep, hthrew, runLines_ended (.inl rfl)] at hreturns
          cases hreturns
      rw [hfill, if_neg Bool.false_ne_true] at hstep
      obtain ⟨n, hn, -, -, hoccupied, hentry, hdouble⟩ := fillEntry_spec hfill
      rw [hstep] at hreturns htyped hrest
      rw [List.filter_cons_of_pos hrecord, hroom, List.take_succ_cons, List.forall_mem_cons]
      refine ⟨?_, ih rfl hreturns htyped hrest⟩
      have hnumbers : Numbers type seq timestamp := by
        by_contra hnot
        have hwell : ¬WellFormed first := by
          rintro ⟨type', seq', timestamp', key', value', hsplit', hnumbers⟩
          rw [hsplit] at hsplit'
          cases hsplit'
          exact hnot hnumbers
        -- a line that is loaded takes a slot
        have hsame := congrArg LoadState.idx (hskips [] first lines rfl hwell)
        rw [runLines, List.foldl_nil, hstep] at hsame
        exact absurd hsame (Nat.succ_ne_self _)
      have htype : (fillEntry doubles type seq timestamp key value).1.HasValueType := by
        have hslot := htyped state.idx (Nat.not_le.mp hidx)
        rw [runLines_entries (Nat.lt_succ_self _)] at hslot
        dsimp only at hslot
        rw [Function.update_self] at hslot
        exact hslot hoccupied
      obtain ⟨valueType, hvalueType⟩ := htype
      rw [hentry] at hvalueType
      refine ⟨type, seq, timestamp, key, value, hsplit, hnumbers, valueType, ?_, ?_⟩
      · rw [hn, Option.map_some, hvalueType]
      · rintro rfl
        exact hdouble hvalueType

/-- A slot is filled as the fields are converted, if nothing throws. -/
theorem ofFields_eq_fillEntry (type seq timestamp key value : ByteString) :
    RetainedEntry.ofFields doubles type seq timestamp key value =
      if (fillEntry doubles type seq timestamp key value).2 = true then none
      else some (fillEntry doubles type seq timestamp key value).1 := by
  unfold RetainedEntry.ofFields fillEntry
  cases stoi type with
  | none => rfl
  | some n =>
    cases stoull seq with
    | none => rfl
    | some s =>
      cases stoull timestamp with
      | none => rfl
      | some t =>
        simp only [Option.bind_eq_bind, Option.bind_some, Option.pure_def]
        by_cases hbool : UInt8.ofInt n = toWireType .bool
        · simp only [if_pos hbool]
          rfl
        by_cases hdouble : UInt8.ofInt n = toWireType .double
        · simp only [if_neg hbool, if_pos hdouble]
          cases doubles.parse value <;> rfl
        by_cases harray : UInt8.ofInt n = toWireType .stringArray
        · simp only [if_neg hbool, if_neg hdouble, if_pos harray]
          rfl
        · simp only [if_neg hbool, if_neg hdouble, if_neg harray]
          rfl

/-- The entries that the loop leaves are those of `loadLines`, which has no result if it throws. -/
theorem loadLines_eq_runLines (hthrown : state.thrown = false) :
    (loadLines doubles (count - state.idx) lines).map
        ((List.range state.idx).map state.entries ++ ·) =
      if (runLines doubles count state lines).thrown = true then none
      else some ((List.range (runLines doubles count state lines).idx).map
        (runLines doubles count state lines).entries) := by
  induction lines generalizing state with
  | nil =>
    have hnil : loadLines doubles (count - state.idx) [] = some [] := by
      cases count - state.idx <;> rfl
    rw [hnil, runLines, List.foldl_nil, if_neg (by simp [hthrown]), Option.map_some,
      List.append_nil]
  | cons line lines ih =>
    by_cases hidx : count ≤ state.idx
    · have hfull : loadLines doubles 0 (line :: lines) = some [] := by
        rw [loadLines]
        exact List.cons_ne_nil line lines
      rw [runLines_ended (.inr hidx), Nat.sub_eq_zero_of_le hidx, if_neg (by simp [hthrown]),
        hfull, Option.map_some, List.append_nil]
    have hroom : count - state.idx = count - (state.idx + 1) + 1 := by omega
    rw [runLines_cons, hroom]
    cases hrecord : isRecord line with
    | false =>
      have hskip : ∀ room, loadLines doubles (room + 1) (line :: lines) =
          loadLines doubles (room + 1) lines := by
        intro room
        rw [loadLines]
        split
        · next hsplit => simp [isRecord, hsplit] at hrecord
        · rfl
      rw [loadLine_skipped hrecord, ← ih hthrown, hskip, hroom]
    | true =>
      obtain ⟨type, seq, timestamp, key, value, hsplit⟩ := exists_fields hrecord
      have hstep := @loadLine_record doubles _ _ _ _ _ _ _ _ hthrown (Nat.not_le.mp hidx) hsplit
      rw [loadLines, hsplit]
      dsimp only
      rw [ofFields_eq_fillEntry]
      cases hthrew : (fillEntry doubles type seq timestamp key value).2 with
      | true =>
        rw [hthrew] at hstep
        rw [hstep, runLines_ended (.inl rfl)]
        rfl
      | false =>
        rw [hthrew, if_neg Bool.false_ne_true] at hstep
        have hslots (entry : RetainedEntry) : (List.range (state.idx + 1)).map
            (Function.update state.entries state.idx entry) =
              (List.range state.idx).map state.entries ++ [entry] := by
          rw [List.range_succ, List.map_append, List.map_singleton, Function.update_self]
          congr 1
          refine List.map_congr_left fun i hi => ?_
          exact Function.update_of_ne (Nat.ne_of_lt (List.mem_range.mp hi)) _ _
        rw [hstep, ← ih rfl, if_neg Bool.false_ne_true]
        dsimp only
        rw [hslots, Option.bind_eq_bind, Option.bind_some]
        cases loadLines doubles (count - (state.idx + 1)) lines with
        | none => rfl
        | some loaded => simp

end Loop

/-! ### Opening -/

section Opening

variable {doubles : DoubleText} {opening : Opening} {region : RetainedRegion}

theorem typed_cleared (region : RetainedRegion) : region.cleared.Typed region.count := by
  intro i hi hoccupied
  have hslot : region.cleared.entries i = {} := if_pos hi
  rw [hslot] at hoccupied
  cases hoccupied

theorem openOrCreate_of_loadsInto (h : opening.LoadsInto region) :
    opening.openOrCreate doubles =
      if (runLines doubles region.count region.cleared opening.lines).thrown = true then
        { ending := .thrown
          mutexHeld := true
          region := some { region with
            entries := (runLines doubles region.count region.cleared opening.lines).entries } }
      else
        { ending := .returned true
          mutexHeld := false
          region := some { region with
            entries :=
              (runLines doubles region.count region.cleared opening.lines).entries } } := by
  obtain ⟨⟨mapped, hmapped, hregion⟩, hmutex, hwaits, hempty, hpath, hfile⟩ := h
  have hload : opening.loadLocked doubles region =
      ({ region with
          entries := (runLines doubles region.count region.cleared opening.lines).entries },
        (runLines doubles region.count region.cleared opening.lines).thrown) := by
    rw [Opening.loadLocked, if_neg (by simp [hpath, hfile])]
  rw [Opening.openOrCreate, hmapped]
  dsimp only
  rw [if_neg (by simp [hmutex, hwaits]), ← hregion, if_pos hempty, hload]

/-- Without loading there is nothing that throws. -/
theorem openOrCreate_returns (h : ∀ region, ¬opening.LoadsInto region) :
    (∃ ok, (opening.openOrCreate doubles).ending = .returned ok) ∧
      (opening.openOrCreate doubles).mutexHeld = false := by
  rw [Opening.openOrCreate]
  cases hmapped : opening.region with
  | none => exact ⟨⟨false, rfl⟩, rfl⟩
  | some mapped =>
    dsimp only
    by_cases hcalls : opening.mutexOpens = false ∨ opening.waits = false
    · rw [if_pos hcalls]
      exact ⟨⟨false, rfl⟩, rfl⟩
    by_cases hempty : (mapped.attach (max 16 opening.config.maxEntries)).allEmpty = true
    · rw [not_or, Bool.not_eq_false, Bool.not_eq_false] at hcalls
      have hskip : opening.config.persistenceFilePath = [] ∨ opening.file = none := by
        by_contra hboth
        rw [not_or] at hboth
        exact h _ ⟨⟨mapped, hmapped, rfl⟩, hcalls.1, hcalls.2, hempty, hboth⟩
      have hload : opening.loadLocked doubles (mapped.attach (max 16 opening.config.maxEntries)) =
          (mapped.attach (max 16 opening.config.maxEntries), false) := if_pos hskip
      rw [if_neg (by simp [hcalls]), if_pos hempty, hload]
      exact ⟨⟨true, rfl⟩, rfl⟩
    · rw [if_neg hcalls, if_neg hempty]
      exact ⟨⟨true, rfl⟩, rfl⟩

/-- A file is tolerated if it is not loaded, or if the lines of five fields that there is room for
are records that can be loaded. -/
theorem tolerates_iff (doubles : DoubleText) (opening : Opening) :
    Tolerates doubles opening ↔
      ∀ region, opening.LoadsInto region →
        ∀ line ∈ (opening.lines.filter isRecord).take region.count, Loadable doubles line := by
  constructor
  · intro h region hloads
    have hcall := @openOrCreate_of_loadsInto doubles _ _ hloads
    have hreturns :
        (runLines doubles region.count region.cleared opening.lines).thrown = false := by
      cases hthrown : (runLines doubles region.count region.cleared opening.lines).thrown with
      | false => rfl
      | true =>
        obtain ⟨ok, hok⟩ := h.returns
        rw [hcall, if_pos hthrown] at hok
        cases hok
    have htyped :
        (runLines doubles region.count region.cleared opening.lines).Typed region.count := by
      rw [if_neg (by simp [hreturns])] at hcall
      exact h.types region hloads _ (by rw [hcall])
    exact loadable_of_runLines rfl hreturns htyped (h.skips region hloads)
  · intro h
    by_cases hloads : ∃ region, opening.LoadsInto region
    · obtain ⟨region, hloads⟩ := hloads
      have hunique : ∀ region', opening.LoadsInto region' → region' = region := by
        rintro region' ⟨⟨mapped', hmapped', rfl⟩, -⟩
        obtain ⟨⟨mapped, hmapped, rfl⟩, -⟩ := hloads
        rw [hmapped] at hmapped'
        rw [Option.some.inj hmapped']
      obtain ⟨hreturns, htyped, hskips⟩ :=
        runLines_of_loadable rfl (typed_cleared region) (h region hloads)
      have hcall := @openOrCreate_of_loadsInto doubles _ _ hloads
      rw [if_neg (by simp [hreturns])] at hcall
      refine ⟨⟨true, by rw [hcall]⟩, by rw [hcall], ?_, ?_⟩
      · intro region' hloads'
        obtain rfl := hunique region' hloads'
        exact hskips
      · intro region' hloads' loaded hloaded
        obtain rfl := hunique region' hloads'
        rw [hcall] at hloaded
        rw [← Option.some.inj hloaded]
        exact htyped
    · rw [not_exists] at hloads
      obtain ⟨hreturns, hreleased⟩ := @openOrCreate_returns doubles _ hloads
      exact ⟨hreturns, hreleased, fun region hregion => absurd hregion (hloads region),
        fun region hregion => absurd hregion (hloads region)⟩

end Opening

/-- A new table and a file of one line, the type of which is no number. -/
def lettersOpening : Opening where
  config := { persistenceFilePath := [0x66] }
  region := some {}
  mutexOpens := true
  waits := true
  file := some [0x78, 0x7C, 0x31, 0x7C, 0x32, 0x7C, 0x6B, 0x7C, 0x76]

/-- Loading it throws with the mutex held. -/
theorem lettersOpening_not_tolerates :
    ¬Tolerates RetainedStore.halfText lettersOpening ∧
      (lettersOpening.openOrCreate RetainedStore.halfText).ending = .thrown ∧
      (lettersOpening.openOrCreate RetainedStore.halfText).mutexHeld = true := by
  have hending : (lettersOpening.openOrCreate RetainedStore.halfText).ending = .thrown := by
    decide +kernel
  refine ⟨fun h => ?_, hending, by decide +kernel⟩
  obtain ⟨ok, hok⟩ := h.returns
  rw [hending] at hok
  cases hok

end SmartDashboard.Direct
