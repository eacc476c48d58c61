import SmartDashboard.App.VariableStore
import SmartDashboard.Library.HighestWrite

/-!
# Updates in any order

`VariableStore::Upsert` takes the first update of a key as it comes and a later one only if its
sequence number is no lower. Without a reset in between the store ends with the highest update of
every key, whichever order the updates came in, as long as no two updates of a key carry one
number.

## Main definitions

- `upsertAll`: the updates applied to an empty store
- `Keyed`: every record stands under its own key
- `DistinctSeqs`: no two updates of a key carry one number
- `IsHighest`: an update of the key that none is above
-/

namespace SmartDashboard.App

open Direct (ByteString)
open HighestWrite (Separates foldl_keep highest highest_eq_none_iff keep)

/-- One `Upsert`. The update is the record that it makes of a new key. -/
def upsertRecord (records : VariableStore) (update : VariableRecord) : VariableStore :=
  upsert records update.key update.type update.value update.seq

/-- The updates, applied one after the other to an empty store. -/
def upsertAll (updates : List VariableRecord) : VariableStore :=
  updates.foldl upsertRecord fun _ => none

/-- Updates of one key carry different sequence numbers. -/
def DistinctSeqs (updates : List VariableRecord) : Prop :=
  updates.Pairwise fun a b => a.key = b.key → a.seq ≠ b.seq

instance (updates : List VariableRecord) : Decidable (DistinctSeqs updates) :=
  inferInstanceAs (Decidable (List.Pairwise _ _))

/-- One of the updates of the key, with the largest sequence number of them. -/
def IsHighest (updates : List VariableRecord) (key : ByteString) (update : VariableRecord) : Prop :=
  (update ∈ updates ∧ update.key = key) ∧
    ∀ other ∈ updates, other.key = key → other.seq ≤ update.seq

/-- Every record stands under its own key. -/
def Keyed (records : VariableStore) : Prop := ∀ key, ∀ record ∈ records key, record.key = key

variable {records : VariableStore} {updates updates' : List VariableRecord}

theorem keyed_empty : Keyed fun _ => none := by
  intro key record hrecord
  cases hrecord

/-- An accepted update leaves no field of the record it meets but the key, which is its own. -/
theorem Keyed.upsertRecord_eq_keep (h : Keyed records) (update : VariableRecord) :
    upsertRecord records update =
      keep VariableRecord.key (fun r => r.seq.toNat) records update := by
  rw [upsertRecord, upsert, keep]
  cases hold : records update.key with
  | none => rfl
  | some record =>
    have hkey : record.key = update.key := h update.key record hold
    show (if record.seq ≤ update.seq then _ else _) = if _ then _ else _
    simp only [UInt64.le_iff_toNat_le, hkey]

theorem Keyed.upsertRecord (h : Keyed records) (update : VariableRecord) :
    Keyed (upsertRecord records update) := by
  intro key record hrecord
  by_cases hkey : key = update.key
  · subst hkey
    rw [App.upsertRecord] at hrecord
    cases hold : records update.key with
    | none =>
      rw [upsert_of_none hold] at hrecord
      obtain rfl := Option.some.inj hrecord
      rfl
    | some old =>
      by_cases hle : old.seq ≤ update.seq
      · rw [upsert_of_le hold hle] at hrecord
        obtain rfl := Option.some.inj hrecord
        exact h update.key old hold
      · rw [upsert_of_not_le hold hle] at hrecord
        exact h update.key record hrecord
  · rw [App.upsertRecord, upsert_of_ne hkey] at hrecord
    exact h key record hrecord

/-- The store refines the map of the highest writes. -/
theorem Keyed.foldl_upsertRecord (h : Keyed records) (updates : List VariableRecord) :
    updates.foldl App.upsertRecord records =
      updates.foldl (keep VariableRecord.key fun r => r.seq.toNat) records := by
  induction updates generalizing records with
  | nil => rfl
  | cons update updates ih =>
    rw [List.foldl_cons, List.foldl_cons, ← h.upsertRecord_eq_keep update]
    exact ih (h.upsertRecord update)

theorem upsertAll_eq_highest (updates : List VariableRecord) :
    upsertAll updates =
      fun key => highest VariableRecord.key (fun r => r.seq.toNat) key updates := by
  rw [upsertAll, keyed_empty.foldl_upsertRecord, foldl_keep]

theorem DistinctSeqs.separates (h : DistinctSeqs updates) :
    Separates VariableRecord.key (fun r => r.seq.toNat) updates :=
  h.imp fun hab hkey hseq => hab hkey (UInt64.toNat_inj.mp hseq)

theorem upsertAll_eq_none_iff {key : ByteString} :
    upsertAll updates key = none ↔ ∀ update ∈ updates, update.key ≠ key := by
  rw [upsertAll_eq_highest]
  exact highest_eq_none_iff

theorem DistinctSeqs.upsertAll_eq_some_iff (h : DistinctSeqs updates) {key : ByteString}
    {record : VariableRecord} :
    upsertAll updates key = some record ↔ IsHighest updates key record := by
  rw [upsertAll_eq_highest, IsHighest]
  simp only [UInt64.le_iff_toNat_le]
  exact h.separates.highest_eq_some_iff

/-- For every list of updates whose keys tell their numbers apart: the store is the same in every
order of them, and holds of every key the update with the largest number, and no other. -/
theorem upsertAll_of_perm (hdistinct : DistinctSeqs updates) (hperm : updates.Perm updates') :
    upsertAll updates' = upsertAll updates ∧
      ∀ key, (upsertAll updates key = none ↔ ∀ update ∈ updates, update.key ≠ key) ∧
        ∀ record, upsertAll updates key = some record ↔ IsHighest updates key record := by
  refine ⟨?_, fun key => ⟨upsertAll_eq_none_iff, fun record => hdistinct.upsertAll_eq_some_iff⟩⟩
  rw [upsertAll_eq_highest, upsertAll_eq_highest]
  funext key
  exact (hdistinct.separates.highest_of_perm hperm).symm

/-- Two keys, the updates of one of them out of order and then in order. -/
theorem upsertAll_two_keys :
    upsertAll [⟨text "A", .double, .double 1, 5⟩, ⟨text "B", .bool, .bool true, 5⟩,
        ⟨text "A", .double, .double 2, 9⟩] =
      upsertAll [⟨text "A", .double, .double 2, 9⟩, ⟨text "A", .double, .double 1, 5⟩,
        ⟨text "B", .bool, .bool true, 5⟩] ∧
    upsertAll [⟨text "A", .double, .double 2, 9⟩, ⟨text "A", .double, .double 1, 5⟩,
      ⟨text "B", .bool, .bool true, 5⟩] (text "A") = some ⟨text "A", .double, .double 2, 9⟩ := by
  have h := @upsertAll_of_perm
    [⟨text "A", .double, .double 2, 9⟩, ⟨text "A", .double, .double 1, 5⟩,
      ⟨text "B", .bool, .bool true, 5⟩]
    [⟨text "A", .double, .double 1, 5⟩, ⟨text "B", .bool, .bool true, 5⟩,
      ⟨text "A", .double, .double 2, 9⟩] (by decide) (by decide)
  refine ⟨h.1, ((h.2 (text "A")).2 _).mpr ?_⟩
  unfold IsHighest
  decide

end SmartDashboard.App
