import Mathlib.Logic.Function.Basic
import SmartDashboard.Library.Execution
import SmartDashboard.Transport.Types

/-!
# The two sequence gates

`VariableStore::Upsert` keeps an update only if its sequence number is not below that of the record
of its key, and `MainWindow::OnVariableUpdateReceived` lifts all these gates when the sequence
number of a call falls below that of the call before. The second gate skips every 0, so an update
is suppressed when a 0 hides the fall.

## Main definitions

- `VariableRecord`, `upsert`, `resetSequenceTracking`: the store
- `Window`, `Call`, `step`: the members of the window that the gates use and the calls that
  move them
- `Recorded`: a call left its type and value in the record of its key
- `Admitted`: neither gate keeps a new value out
-/

namespace SmartDashboard.App

open Direct (ByteString)
open Execution (after history)
open Transport (ConnectionState TransportKind Variant VariableUpdate)

/-! ### The store -/

inductive VariableType
  | bool
  | double
  | string
  deriving DecidableEq, Repr

structure VariableRecord where
  key : ByteString
  type : VariableType := .string
  value : Variant := .invalid
  seq : UInt64 := 0
  deriving DecidableEq, Repr

/-- `m_records`. -/
abbrev VariableStore := ByteString → Option VariableRecord

def upsert (records : VariableStore) (key : ByteString) (type : VariableType) (value : Variant)
    (seq : UInt64) : VariableStore :=
  match records key with
  | none => Function.update records key (some ⟨key, type, value, seq⟩)
  | some record =>
    if record.seq ≤ seq then
      Function.update records key (some { record with type := type, value := value, seq := seq })
    else records

/-- The values stay, the gates open. -/
def resetSequenceTracking (records : VariableStore) : VariableStore :=
  fun key => (records key).map fun record => { record with seq := 0 }

/-! ### The window -/

/-- `ToVariableType`, on the numbers of `sd::direct::ValueType`. -/
def toVariableType (valueType : Int32) : VariableType :=
  if valueType = 1 then .bool else if valueType = 2 then .double else .string

structure Window where
  variableStore : VariableStore
  lastTransportSeq : UInt64 := 0
  kind : TransportKind
  supportsChooser : Bool

/-- A number or a boolean does not print as any of the texts this is asked for. -/
def toStringIs (text : ByteString) : Variant → Bool
  | .string value => value = text
  | .stringList [value] => value = text
  | _ => false

/-- The bytes of an ASCII literal. -/
def text (s : String) : ByteString := s.toList.map fun c => c.toNat.toUInt8

/-- The branches of `OnVariableUpdateReceived` that return before the store. -/
def takenByChooser (w : Window) (update : VariableUpdate) : Prop :=
  (update.valueType = 3 ∨ update.valueType = 4) ∧
    ((w.kind = .direct ∧ update.key = text "AutonTest") ∨
      (w.supportsChooser = true ∧
        ((text "/.type" <:+ update.key ∧ toStringIs (text "String Chooser") update.value = true) ∨
          text "/options" <:+ update.key ∨ text "/active" <:+ update.key ∨
          text "/selected" <:+ update.key ∨ text "/default" <:+ update.key)))

instance (w : Window) (update : VariableUpdate) : Decidable (takenByChooser w update) :=
  inferInstanceAs (Decidable (_ ∧ _))

/-- The publisher of the update counts from a lower number than the call before did. -/
def rollsBack (w : Window) (update : VariableUpdate) : Prop :=
  update.seq ≠ 0 ∧ w.lastTransportSeq ≠ 0 ∧ update.seq < w.lastTransportSeq

instance (w : Window) (update : VariableUpdate) : Decidable (rollsBack w update) :=
  inferInstanceAs (Decidable (_ ∧ _))

def onVariableUpdateReceived (w : Window) (update : VariableUpdate) : Window :=
  if takenByChooser w update then w
  else
    let variableStore :=
      if rollsBack w update then resetSequenceTracking w.variableStore else w.variableStore
    { w with
      lastTransportSeq := update.seq
      variableStore :=
        upsert variableStore update.key (toVariableType update.valueType) update.value update.seq }

/-- What `OnConnectionStateChanged` does to the store. -/
def onConnectionStateChanged (w : Window) (state : ConnectionState) : Window :=
  if state = .connected then { w with variableStore := resetSequenceTracking w.variableStore }
  else w

inductive Call
  | variableUpdate (update : VariableUpdate)
  | connectionState (state : ConnectionState)

def step (w : Window) : Call → Window × Unit
  | .variableUpdate update => (onVariableUpdateReceived w update, ())
  | .connectionState state => (onConnectionStateChanged w state, ())

/-! ### What a call leaves in the store -/

/-- The record of the key holds the type and value of the call. -/
def Recorded (w : Window) (update : VariableUpdate) : Prop :=
  ∃ record ∈ w.variableStore update.key,
    record.type = toVariableType update.valueType ∧ record.value = update.value

/-- The key is new, its record has no higher sequence number, the call rolls back, or it repeats
what the record holds. -/
def Admitted (w : Window) (update : VariableUpdate) : Prop :=
  ∀ record ∈ w.variableStore update.key, record.seq ≤ update.seq ∨ rollsBack w update ∨
    (record.type = toVariableType update.valueType ∧ record.value = update.value)

instance (w : Window) (update : VariableUpdate) : Decidable (Recorded w update) :=
  inferInstanceAs (Decidable (∃ record ∈ w.variableStore update.key, _))

instance (w : Window) (update : VariableUpdate) : Decidable (Admitted w update) :=
  inferInstanceAs (Decidable (∀ record ∈ w.variableStore update.key, _))

variable {w : Window} {update : VariableUpdate} {records : VariableStore} {key : ByteString}
  {type : VariableType} {value : Variant} {seq : UInt64} {record : VariableRecord}

theorem upsert_of_ne {k : ByteString} (h : k ≠ key) :
    upsert records key type value seq k = records k := by
  rw [upsert]
  cases records key with
  | none => exact Function.update_of_ne h _ _
  | some record =>
    show (if record.seq ≤ seq then _ else records) k = records k
    split_ifs
    · exact Function.update_of_ne h _ _
    · rfl

theorem upsert_of_none (h : records key = none) :
    upsert records key type value seq key = some ⟨key, type, value, seq⟩ := by
  rw [upsert, h]
  exact Function.update_self ..

theorem upsert_of_le (h : records key = some record) (hle : record.seq ≤ seq) :
    upsert records key type value seq key =
      some { record with type := type, value := value, seq := seq } := by
  rw [upsert, h]
  show (if record.seq ≤ seq then _ else records) key = _
  rw [if_pos hle]
  exact Function.update_self ..

theorem upsert_of_not_le (h : records key = some record) (hle : ¬record.seq ≤ seq) :
    upsert records key type value seq = records := by
  rw [upsert, h]
  exact if_neg hle

theorem resetSequenceTracking_eq_some (h : records key = some record) :
    resetSequenceTracking records key = some { record with seq := 0 } := by
  rw [resetSequenceTracking, h]
  rfl

/-- A call that reaches the store, with the records it meets there. -/
theorem onVariableUpdateReceived_of_reaches (hreach : ¬takenByChooser w update) :
    onVariableUpdateReceived w update =
      { w with
        lastTransportSeq := update.seq
        variableStore := upsert
          (if rollsBack w update then resetSequenceTracking w.variableStore else w.variableStore)
          update.key (toVariableType update.valueType) update.value update.seq } := by
  rw [onVariableUpdateReceived, if_neg hreach]

/-- The step lemma: a call that reaches the store is recorded exactly when it is admitted. -/
theorem recorded_iff_admitted (hreach : ¬takenByChooser w update) :
    Recorded (onVariableUpdateReceived w update) update ↔ Admitted w update := by
  rw [onVariableUpdateReceived_of_reaches hreach, Recorded, Admitted]
  cases hrecord : w.variableStore update.key with
  | none =>
    have hnone : (if rollsBack w update then resetSequenceTracking w.variableStore
        else w.variableStore) update.key = none := by
      split_ifs
      · rw [resetSequenceTracking, hrecord]
        rfl
      · exact hrecord
    refine iff_of_true ⟨_, upsert_of_none hnone, rfl, rfl⟩ ?_
    intro record hmem
    cases hmem
  | some record =>
    by_cases hback : rollsBack w update
    · rw [if_pos hback]
      have hreset := resetSequenceTracking_eq_some hrecord
      refine iff_of_true ⟨_, upsert_of_le hreset UInt64.zero_le, rfl, rfl⟩ ?_
      exact fun _ _ => .inr (.inl hback)
    · rw [if_neg hback]
      by_cases hle : record.seq ≤ update.seq
      · refine iff_of_true ⟨_, upsert_of_le hrecord hle, rfl, rfl⟩ ?_
        intro record' hmem
        obtain rfl := Option.some.inj hmem
        exact .inl hle
      · rw [upsert_of_not_le hrecord hle]
        constructor
        · rintro ⟨record', hmem, hsame⟩ record'' hmem'
          obtain rfl := Option.some.inj (hrecord.symm.trans hmem)
          obtain rfl := Option.some.inj hmem'
          exact .inr (.inr hsame)
        · intro h
          obtain hle' | hback' | hsame := h record rfl
          · exact absurd hle' hle
          · exact absurd hback' hback
          · exact ⟨record, hrecord, hsame⟩

/-- For every sequence of calls: each one that reaches the store is recorded exactly when each of
them meets a gate that admits it. -/
theorem history_recorded_iff (w : Window) (calls : List Call) :
    (∀ r ∈ history step w calls, ∀ update, r.input = .variableUpdate update →
      ¬takenByChooser r.before update → Recorded (step r.before r.input).1 update) ↔
    ∀ r ∈ history step w calls, ∀ update, r.input = .variableUpdate update →
      ¬takenByChooser r.before update → Admitted r.before update := by
  refine forall₂_congr fun r _ => forall₃_congr fun update hinput hreach => ?_
  rw [hinput]
  exact recorded_iff_admitted hreach

/-- The window before its first call. -/
def Window.initial (kind : TransportKind) (supportsChooser : Bool) : Window :=
  { variableStore := fun _ => none, kind := kind, supportsChooser := supportsChooser }

/-- A value published before the first snapshot value of another key, which carries 0, hides that
the publisher has started over. -/
theorem zero_hides_rollback :
    ¬∀ r ∈ history step (Window.initial .plugin true)
      [.variableUpdate ⟨text "A", 2, .double 1, 5⟩, .variableUpdate ⟨text "B", 2, .double 2, 0⟩,
        .variableUpdate ⟨text "A", 2, .double 3, 1⟩],
      ∀ update, r.input = .variableUpdate update → ¬takenByChooser r.before update →
        Recorded (step r.before r.input).1 update := by
  intro h
  have hlast := h _ (List.mem_cons_of_mem _ (List.mem_cons_of_mem _ List.mem_cons_self)) _ rfl
    (by decide)
  revert hlast
  decide

/-! ### Publishers that never send 0 -/

/-- No record has a higher sequence number than the last call. -/
def Gated (w : Window) : Prop :=
  ∀ key, ∀ record ∈ w.variableStore key, record.seq ≤ w.lastTransportSeq

theorem Gated.reset (w : Window) (seq : UInt64) :
    Gated { w with
      lastTransportSeq := seq, variableStore := resetSequenceTracking w.variableStore } := by
  intro key record hrecord
  obtain ⟨old, -, rfl⟩ := Option.map_eq_some_iff.mp hrecord
  exact UInt64.zero_le

/-- A store whose records are all below the call keeps it, and stays below it. -/
theorem le_of_mem_upsert {k : ByteString} (h : ∀ key, ∀ record ∈ records key, record.seq ≤ seq)
    (hrecord : record ∈ upsert records key type value seq k) : record.seq ≤ seq := by
  by_cases hk : k = key
  · subst hk
    cases hold : records k with
    | none =>
      rw [upsert_of_none hold] at hrecord
      obtain rfl := Option.some.inj hrecord
      exact UInt64.le_refl seq
    | some old =>
      rw [upsert_of_le hold (h k old hold)] at hrecord
      obtain rfl := Option.some.inj hrecord
      exact UInt64.le_refl seq
  · rw [upsert_of_ne hk] at hrecord
    exact h k record hrecord

/-- The records that a call with a number other than 0 meets are below it. -/
theorem Gated.le_of_ne_zero (h : Gated w) (hseq : update.seq ≠ 0) (key : ByteString)
    (record : VariableRecord) (hrecord : record ∈ (if rollsBack w update then
      resetSequenceTracking w.variableStore else w.variableStore) key) :
    record.seq ≤ update.seq := by
  by_cases hback : rollsBack w update
  · rw [if_pos hback] at hrecord
    obtain ⟨old, -, rfl⟩ := Option.map_eq_some_iff.mp hrecord
    exact UInt64.zero_le
  · rw [if_neg hback] at hrecord
    have hold := h key record hrecord
    by_cases hzero : w.lastTransportSeq = 0
    · rw [hzero] at hold
      exact UInt64.le_trans hold UInt64.zero_le
    · have hnot : ¬update.seq < w.lastTransportSeq := fun hlt => hback ⟨hseq, hzero, hlt⟩
      exact UInt64.le_trans hold (UInt64.not_lt.mp hnot)

theorem Gated.received (h : Gated w) (hseq : update.seq ≠ 0) :
    Gated (onVariableUpdateReceived w update) := by
  by_cases hreach : takenByChooser w update
  · rw [onVariableUpdateReceived, if_pos hreach]
    exact h
  · rw [onVariableUpdateReceived_of_reaches hreach]
    intro key record hrecord
    exact le_of_mem_upsert (h.le_of_ne_zero hseq) hrecord

theorem Gated.admitted (h : Gated w) (hseq : update.seq ≠ 0) : Admitted w update := by
  intro record hrecord
  by_cases hback : rollsBack w update
  · exact .inr (.inl hback)
  · exact .inl (h.le_of_ne_zero hseq update.key record (by rwa [if_neg hback]))

theorem Gated.stateChanged (h : Gated w) (state : ConnectionState) :
    Gated (onConnectionStateChanged w state) := by
  rw [onConnectionStateChanged]
  split_ifs
  · exact Gated.reset w w.lastTransportSeq
  · exact h

/-- As long as no call carries 0, the two gates never suppress one: wrapped and restarted counts
included. -/
theorem recorded_of_ne_zero (h : Gated w) {calls : List Call}
    (hcalls : ∀ update, .variableUpdate update ∈ calls → update.seq ≠ 0) :
    ∀ r ∈ history step w calls, ∀ update, r.input = .variableUpdate update →
      ¬takenByChooser r.before update → Recorded (step r.before r.input).1 update := by
  intro r hr update hinput hreach
  obtain ⟨front, call, back, rfl, rfl⟩ := Execution.exists_split_of_mem_history hr
  have hgated : Gated (after step w front) := by
    refine Execution.after_induction_mem ?_ h
    intro v call hcall hv
    cases call with
    | variableUpdate update =>
      exact hv.received (hcalls update (List.mem_append_left _ hcall))
    | connectionState state => exact hv.stateChanged state
  obtain rfl : call = .variableUpdate update := hinput
  have hseq := hcalls update (List.mem_append_right _ List.mem_cons_self)
  exact (recorded_iff_admitted hreach).mpr (hgated.admitted hseq)

end SmartDashboard.App
