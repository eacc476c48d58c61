import Mathlib.Data.List.Basic
import Mathlib.Data.List.Sort

/-!
# Maps that list their keys

A finite map from keys to values together with the order in which a walk over it meets the keys.
A walk that changes values, one that inserts and one that removes are all that a container of
objects needs; the keys listed are those that are bound, by construction.

## Main definitions

- `KeyedMap`: the map, `find` and `keys`
- `insert`, `insertSorted`, `erase`, `mapValues`: its operations
-/

variable {κ α : Type*}

structure KeyedMap (κ α : Type*) where
  find : κ → Option α
  keys : List κ
  mem_keys : ∀ key, key ∈ keys ↔ (find key).isSome

namespace KeyedMap

def empty : KeyedMap κ α where
  find _ := none
  keys := []
  mem_keys _ := by simp

/-- Every value, with its key, is replaced. -/
def mapValues (f : κ → α → α) (m : KeyedMap κ α) : KeyedMap κ α where
  find key := (m.find key).map (f key)
  keys := m.keys
  mem_keys key := by rw [m.mem_keys, Option.isSome_map]

@[simp] theorem find_empty (key : κ) : (empty : KeyedMap κ α).find key = none := rfl

@[simp] theorem keys_empty : (empty : KeyedMap κ α).keys = [] := rfl

@[simp] theorem find_mapValues (f : κ → α → α) (m : KeyedMap κ α) (key : κ) :
    (m.mapValues f).find key = (m.find key).map (f key) := rfl

@[simp] theorem keys_mapValues (f : κ → α → α) (m : KeyedMap κ α) :
    (m.mapValues f).keys = m.keys := rfl

theorem mem_keys_of_find {m : KeyedMap κ α} {key : κ} {value : α}
    (h : m.find key = some value) : key ∈ m.keys := by
  rw [m.mem_keys, h, Option.isSome_some]

theorem exists_find_of_mem_keys {m : KeyedMap κ α} {key : κ} (h : key ∈ m.keys) :
    ∃ value, m.find key = some value :=
  Option.isSome_iff_exists.mp ((m.mem_keys key).mp h)

/-- No keys, no bindings. -/
theorem eq_empty_of_keys {m : KeyedMap κ α} (h : m.keys = []) : m = empty := by
  have hfind : m.find = fun _ => none := by
    funext key
    have hmem := (m.mem_keys key).not
    rw [h] at hmem
    simpa using hmem
  cases m with
  | mk find keys mem_keys =>
    obtain rfl : keys = [] := h
    obtain rfl : find = fun _ => none := hfind
    rfl

variable [DecidableEq κ]

/-- A key that is new comes last. -/
def insert (key : κ) (value : α) (m : KeyedMap κ α) : KeyedMap κ α where
  find key' := if key' = key then some value else m.find key'
  keys := if key ∈ m.keys then m.keys else m.keys ++ [key]
  mem_keys key' := by
    have hkeys := m.mem_keys key'
    by_cases hkey : key' = key
    · by_cases hmem : key ∈ m.keys <;> simp [hkey, hmem]
    · by_cases hmem : key ∈ m.keys <;> simp [hkey, hmem, hkeys]

/-- A key that is new comes before the first that is not smaller. -/
def insertSorted (le : κ → κ → Prop) [DecidableRel le] (key : κ) (value : α) (m : KeyedMap κ α) :
    KeyedMap κ α where
  find := (m.insert key value).find
  keys := if key ∈ m.keys then m.keys else m.keys.orderedInsert le key
  mem_keys key' := by
    rw [← (m.insert key value).mem_keys, insert]
    by_cases hmem : key ∈ m.keys
    · simp only [hmem, if_true]
    · simp only [hmem, if_false, List.mem_orderedInsert, List.mem_append, List.mem_singleton,
        or_comm]

def erase (key : κ) (m : KeyedMap κ α) : KeyedMap κ α where
  find key' := if key' = key then none else m.find key'
  keys := m.keys.filter fun key' => key' ≠ key
  mem_keys key' := by
    have hkeys := m.mem_keys key'
    by_cases hkey : key' = key <;> simp [hkey, hkeys]

theorem find_insert (key key' : κ) (value : α) (m : KeyedMap κ α) :
    (m.insert key value).find key' = if key' = key then some value else m.find key' := rfl

@[simp] theorem find_insert_self (key : κ) (value : α) (m : KeyedMap κ α) :
    (m.insert key value).find key = some value := by
  rw [find_insert, if_pos rfl]

theorem find_insert_of_ne {key key' : κ} (h : key' ≠ key) (value : α) (m : KeyedMap κ α) :
    (m.insert key value).find key' = m.find key' := by
  rw [find_insert, if_neg h]

@[simp] theorem find_insertSorted (le : κ → κ → Prop) [DecidableRel le] (key : κ) (value : α)
    (m : KeyedMap κ α) : (m.insertSorted le key value).find = (m.insert key value).find := rfl

theorem find_erase (key key' : κ) (m : KeyedMap κ α) :
    (m.erase key).find key' = if key' = key then none else m.find key' := rfl

end KeyedMap
