import Mathlib.Data.Finset.SDiff
import Mathlib.Data.Finset.Union
import SmartDashboard.Direct.Types

/-!
# The Run Browser dock

The tree of check boxes and the two sets of keys beside it. A key is split at the slashes; all
segments but the last are groups. A leaf is checked or not, the state of a group or of the root
is worked out from its rows by some of the operations and left as it is by others. What the dock
reports as checked are the leaves, and nothing while the root is unchecked.

The rows of an item are sorted in the source; only their order depends on it, which nothing here
does.

## Main definitions

- `Rows`: the rows under an item, with `signals`, their leaves
- `updatedState`: the tri-state of an item, from its rows
- `Dock`: the dock, in reading or in streaming mode
- `onTileAdded`, `onTileRemoved`, `clearDiscoveredKeys`, `setStreamingRootLabel`,
  `setHiddenDiscoveredKeys`, `uncheckSignalsByKeys`, `clearAllRuns`: its operations, each with the
  set of keys it emits, if it emits any
- `Rows.Sound`: an unchecked group holds no checked leaf
-/

namespace SmartDashboard.App.RunBrowser

open Direct (ByteString)

inductive CheckState
  | unchecked
  | partiallyChecked
  | checked
  deriving DecidableEq, Repr

inductive Rows
  | nil
  | signal (key : ByteString) (state : CheckState) (rest : Rows)
  | group (name : ByteString) (state : CheckState) (children rest : Rows)
  deriving DecidableEq, Repr

/-- `split('/', Qt::SkipEmptyParts)`. -/
def segments (key : ByteString) : List ByteString := (key.splitOn 0x2F).filter fun part => part ≠ []

namespace Rows

def states : Rows → List CheckState
  | nil => []
  | signal _ state rest => state :: rest.states
  | group _ state _ rest => state :: rest.states

/-- `UpdateGroupCheckState` and `UpdateRunCheckState`. -/
def updatedState (rows : Rows) : CheckState :=
  if rows.states = [] then .unchecked
  else if ∀ state ∈ rows.states, state = .checked then .checked
  else if ∃ state ∈ rows.states, state ≠ .unchecked then .partiallyChecked
  else .unchecked

def signals : Rows → List (ByteString × CheckState)
  | nil => []
  | signal key state rest => (key, state) :: rest.signals
  | group _ _ children rest => children.signals ++ rest.signals

def checkedKeys (rows : Rows) : Finset ByteString :=
  ((rows.signals.filter fun leaf => leaf.1 ≠ [] ∧ leaf.2 = .checked).map Prod.fst).toFinset

section Insertion

-- `update`: the states of the groups on the way are worked out anew
variable (update : Bool) (key : ByteString) (state : CheckState)

def groupState (old : CheckState) (children : Rows) : CheckState :=
  if update then children.updatedState else old

/-- A leaf under groups that are all new, and start checked. -/
def newSignal : List ByteString → Rows
  | [] => signal key state nil
  | name :: names =>
    group name (groupState update .checked (newSignal names)) (newSignal names) nil

def addSignal : Rows → List ByteString → Rows
  | nil, names => newSignal update key state names
  | signal key' state' rest, names => signal key' state' (rest.addSignal names)
  | group name state' children rest, [] => group name state' children (rest.addSignal [])
  | group name state' children rest, name' :: names =>
    if name = name' then
      group name (groupState update state' (children.addSignal names)) (children.addSignal names)
        rest
    else group name state' children (rest.addSignal (name' :: names))

end Insertion

/-- `RemoveStreamingLeafAndPruneAncestors`: the first leaf of the key, if there is one, and the
groups that it leaves empty. -/
def removeSignal (key : ByteString) : Rows → Option Rows
  | nil => none
  | signal key' state rest =>
    if key' = key then some rest else (rest.removeSignal key).map (signal key' state)
  | group name state children rest =>
    match children.removeSignal key with
    | some nil => some rest
    | some children => some (group name state children rest)
    | none => (rest.removeSignal key).map (group name state children)

/-- The walk of `SetHiddenDiscoveredKeys`. -/
def applyHidden (hiddenKeys : Finset ByteString) : Rows → Rows
  | nil => nil
  | signal key state rest =>
    signal key (if key ∈ hiddenKeys then .unchecked else state) (rest.applyHidden hiddenKeys)
  | group name _ children rest =>
    let children := children.applyHidden hiddenKeys
    group name children.updatedState children (rest.applyHidden hiddenKeys)

/-- Some leaf of these keys is not yet unchecked. -/
def unchecks (keys : Finset ByteString) (rows : Rows) : Bool :=
  rows.signals.any fun leaf => leaf.1 ∈ keys ∧ leaf.2 ≠ .unchecked

/-- The walk of `UncheckSignalsByKeys`, its groups from the inside out. -/
def uncheck (keys : Finset ByteString) : Rows → Rows
  | nil => nil
  | signal key state rest =>
    signal key (if key ∈ keys then .unchecked else state) (rest.uncheck keys)
  | group name state children rest =>
    group name (groupState (children.unchecks keys) state (children.uncheck keys))
      (children.uncheck keys) (rest.uncheck keys)

end Rows

/-- A row at the top of the tree: a run, or the root of the live transport. -/
structure RunItem where
  checkState : CheckState := .checked
  rows : Rows := .nil
  deriving DecidableEq, Repr

def RunItem.checkedKeys (item : RunItem) : Finset ByteString :=
  if item.checkState = .unchecked then ∅ else item.rows.checkedKeys

/-- The item with these rows, after `UpdateRunCheckState`. -/
def RunItem.updated (rows : Rows) : RunItem := ⟨rows.updatedState, rows⟩

def RunItem.uncheck (keys : Finset ByteString) (item : RunItem) : RunItem :=
  if item.rows.unchecks keys then .updated (item.rows.uncheck keys) else item

/-- `m_streamingMode`, `m_streamingRootItem` and the rows of the model. -/
inductive Tree
  | reading (runs : List RunItem)
  | streaming (root : RunItem)
  deriving DecidableEq, Repr

structure Dock where
  tree : Tree := .reading []
  discoveredKeys : Finset ByteString := ∅
  streamingHiddenKeys : Finset ByteString := ∅
  deriving DecidableEq

namespace Dock

def streamingMode (dock : Dock) : Bool :=
  match dock.tree with
  | .reading _ => false
  | .streaming _ => true

def checkedSignalKeys (dock : Dock) : Finset ByteString :=
  match dock.tree with
  | .reading runs => runs.foldr (fun run keys => run.checkedKeys ∪ keys) ∅
  | .streaming root => root.checkedKeys

/-- The dock after an operation and what `CheckedSignalsChanged` carries, if it is emitted. -/
abbrev Answer := Dock × Option (Finset ByteString)

def collectAndEmitCheckedSignals (dock : Dock) : Answer := (dock, some dock.checkedSignalKeys)

def hiddenDiscoveredKeys (dock : Dock) : Finset ByteString :=
  match dock.tree with
  | .reading _ => ∅
  | .streaming _ => dock.discoveredKeys \ dock.checkedSignalKeys

def setStreamingRootLabel (dock : Dock) : Dock :=
  { dock with tree := .streaming {}, discoveredKeys := ∅ }

def onTileAdded (dock : Dock) (key : ByteString) : Answer :=
  if key = [] then (dock, none)
  else
    match dock.tree with
    | .reading _ => (dock, none)
    | .streaming root =>
      if key ∈ dock.discoveredKeys then (dock, none)
      else if segments key = [] then
        ({ dock with discoveredKeys := insert key dock.discoveredKeys }, none)
      else
        let state := if key ∈ dock.streamingHiddenKeys then .unchecked else .checked
        let rows := root.rows.addSignal (dock.streamingHiddenKeys ≠ ∅) key state
          (segments key).dropLast
        collectAndEmitCheckedSignals
          { dock with
            tree := .streaming (.updated rows)
            discoveredKeys := insert key dock.discoveredKeys }

def clearDiscoveredKeys (dock : Dock) : Answer :=
  match dock.tree with
  | .reading _ => (dock, none)
  | .streaming _ => ({ tree := .streaming {} }, some ∅)

def onTileRemoved (dock : Dock) (key : ByteString) : Answer :=
  match dock.tree with
  | .reading _ => (dock, none)
  | .streaming root =>
    if key = [] ∨ key ∉ dock.discoveredKeys then (dock, none)
    else
      collectAndEmitCheckedSignals
        { tree := .streaming (((root.rows.removeSignal key).map RunItem.updated).getD root)
          discoveredKeys := dock.discoveredKeys.erase key
          streamingHiddenKeys := dock.streamingHiddenKeys.erase key }

def setHiddenDiscoveredKeys (dock : Dock) (hiddenKeys : Finset ByteString) : Answer :=
  let dock := { dock with streamingHiddenKeys := hiddenKeys }
  match dock.tree with
  | .reading _ => (dock, none)
  | .streaming root =>
    if hiddenKeys = ∅ then (dock, none)
    else
      collectAndEmitCheckedSignals
        { dock with tree := .streaming (.updated (root.rows.applyHidden hiddenKeys)) }

/-- The rows of the model, whatever the mode is. -/
def items (dock : Dock) : List RunItem :=
  match dock.tree with
  | .reading runs => runs
  | .streaming root => [root]

def uncheckSignalsByKeys (dock : Dock) (keys : Finset ByteString) : Answer :=
  if dock.items.any fun item => item.rows.unchecks keys then
    collectAndEmitCheckedSignals
      { dock with
        tree :=
          match dock.tree with
          | .reading runs => .reading (runs.map (RunItem.uncheck keys))
          | .streaming root => .streaming (root.uncheck keys) }
  else (dock, none)

def clearAllRuns : Answer := ({}, some ∅)

end Dock

/-! ### The leaves and the states -/

namespace Rows

theorem mem_checkedKeys {rows : Rows} {key : ByteString} :
    key ∈ rows.checkedKeys ↔ key ≠ [] ∧ (key, .checked) ∈ rows.signals := by
  simp only [checkedKeys, List.mem_toFinset, List.mem_map, List.mem_filter, decide_eq_true_eq,
    Prod.exists]
  constructor
  · rintro ⟨_, _, ⟨hmem, hkey, rfl⟩, rfl⟩
    exact ⟨hkey, hmem⟩
  · rintro ⟨hkey, hmem⟩
    exact ⟨key, .checked, ⟨hmem, hkey, rfl⟩, rfl⟩

theorem updatedState_eq_unchecked {rows : Rows} :
    rows.updatedState = .unchecked ↔ ∀ state ∈ rows.states, state = .unchecked := by
  unfold updatedState
  split
  · next hnil => simp [hnil]
  split
  · next hall =>
    -- a row that is checked is there, so not every row is unchecked
    obtain ⟨state, hmem⟩ := List.exists_mem_of_ne_nil _ (by assumption)
    constructor
    · intro h
      cases h
    · intro h
      have hstate := hall state hmem
      rw [h state hmem] at hstate
      cases hstate
  split
  · next hsome =>
    obtain ⟨state, hmem, hne⟩ := hsome
    constructor
    · intro h
      cases h
    · intro h
      exact absurd (h state hmem) hne
  · next hnone =>
    push Not at hnone
    exact ⟨fun _ => hnone, fun _ => rfl⟩

/-- An unchecked group holds no checked leaf. -/
def Sound : Rows → Prop
  | nil => True
  | signal _ _ rest => rest.Sound
  | group _ state children rest =>
    (state = .unchecked → ∀ leaf ∈ children.signals, leaf.2 ≠ .checked) ∧ children.Sound ∧
      rest.Sound

theorem Sound.not_checked {rows : Rows} (h : rows.Sound)
    (hstates : ∀ state ∈ rows.states, state = .unchecked) :
    ∀ leaf ∈ rows.signals, leaf.2 ≠ .checked := by
  induction rows with
  | nil => simp [signals]
  | signal key state rest ih =>
    rw [states, List.forall_mem_cons] at hstates
    rw [signals, List.forall_mem_cons]
    exact ⟨by simp [hstates.1], ih h hstates.2⟩
  | group name state children rest _ ih =>
    rw [states, List.forall_mem_cons] at hstates
    rw [signals, List.forall_mem_append]
    exact ⟨h.1 hstates.1, ih h.2.2 hstates.2⟩

theorem Sound.updated {rows : Rows} (h : rows.Sound) (hstate : rows.updatedState = .unchecked) :
    ∀ leaf ∈ rows.signals, leaf.2 ≠ .checked :=
  h.not_checked (updatedState_eq_unchecked.mp hstate)

/-! ### A new leaf -/

variable {update : Bool} {key : ByteString} {state : CheckState}

theorem mem_signals_newSignal {names : List ByteString} {leaf : ByteString × CheckState} :
    leaf ∈ (newSignal update key state names).signals ↔ leaf = (key, state) := by
  induction names with
  | nil => simp [newSignal, signals]
  | cons name names ih => simp [newSignal, signals, ih]

theorem mem_signals_addSignal {rows : Rows} {names : List ByteString}
    {leaf : ByteString × CheckState} :
    leaf ∈ (rows.addSignal update key state names).signals ↔
      leaf = (key, state) ∨ leaf ∈ rows.signals := by
  induction rows generalizing names with
  | nil => simp [addSignal, mem_signals_newSignal, signals]
  | signal key' state' rest ih =>
    simp only [addSignal, signals, List.mem_cons, ih]
    tauto
  | group name state' children rest ihchildren ih =>
    cases names with
    | nil =>
      simp only [addSignal, signals, List.mem_append, ih]
      tauto
    | cons name' names =>
      by_cases hname : name = name'
      · simp only [addSignal, if_pos hname, signals, List.mem_append, ihchildren]
        tauto
      · simp only [addSignal, if_neg hname, signals, List.mem_append, ih]
        tauto

theorem sound_newSignal (names : List ByteString) : (newSignal true key state names).Sound := by
  induction names with
  | nil => exact trivial
  | cons name names ih => exact ⟨fun h => ih.updated h, ih, trivial⟩

/-- The groups on the way to the leaf are worked out anew, so they are sound whatever it is. -/
theorem Sound.addSignal {rows : Rows} (h : rows.Sound) (names : List ByteString) :
    (rows.addSignal true key state names).Sound := by
  induction rows generalizing names with
  | nil => exact sound_newSignal names
  | signal key' state' rest ih => exact ih h names
  | group name state' children rest ihchildren ih =>
    cases names with
    | nil => exact ⟨h.1, h.2.1, ih h.2.2 []⟩
    | cons name' names =>
      by_cases hname : name = name'
      · have hchildren := ihchildren h.2.1 names
        rw [Rows.addSignal, if_pos hname]
        exact ⟨fun hstate => hchildren.updated hstate, hchildren, h.2.2⟩
      · rw [Rows.addSignal, if_neg hname]
        exact ⟨h.1, h.2.1, ih h.2.2 _⟩

def groupNames : Rows → List ByteString
  | nil => []
  | signal _ _ rest => rest.groupNames
  | group name _ _ rest => name :: rest.groupNames

theorem groupNames_of_states_nil {rows : Rows} (h : rows.states = []) : rows.groupNames = [] := by
  cases rows with
  | nil => rfl
  | signal key state rest => cases h
  | group name state children rest => cases h

/-- Where no group is worked out anew, a checked leaf shows only if it does not go into one of the
groups of an item whose rows are all unchecked. -/
def ShowsNew (rows : Rows) (names : List ByteString) : Prop :=
  (∀ name ∈ names.head?, name ∉ rows.groupNames) ∨ ∃ state ∈ rows.states, state ≠ .unchecked

instance (rows : Rows) (names : List ByteString) : Decidable (rows.ShowsNew names) :=
  inferInstanceAs (Decidable (_ ∨ _))

theorem states_addSignal_false (rows : Rows) (key : ByteString) (names : List ByteString) :
    (rows.addSignal false key .checked names).states = rows.states ∨
      (rows.addSignal false key .checked names).states = rows.states ++ [.checked] := by
  induction rows generalizing names with
  | nil =>
    right
    cases names <;> rfl
  | signal key' state' rest ih =>
    simpa only [addSignal, states, List.cons_append, List.cons.injEq, true_and] using ih names
  | group name state' children rest _ ih =>
    cases names with
    | nil =>
      simpa only [addSignal, states, List.cons_append, List.cons.injEq, true_and] using ih []
    | cons name' names =>
      by_cases hname : name = name'
      · left
        simp only [addSignal, if_pos hname, states]
        rfl
      · simpa only [addSignal, if_neg hname, states, List.cons_append, List.cons.injEq, true_and]
          using ih (name' :: names)

theorem states_addSignal_false_of_new {rows : Rows} {names : List ByteString}
    (h : ∀ name ∈ names.head?, name ∉ rows.groupNames) :
    (rows.addSignal false key .checked names).states = rows.states ++ [.checked] := by
  induction rows with
  | nil => cases names <;> rfl
  | signal key' state' rest ih => rw [addSignal, states, ih h, states, List.cons_append]
  | group name state' children rest _ ih =>
    cases names with
    | nil => rw [addSignal, states, ih (by simp), states, List.cons_append]
    | cons name' names =>
      simp only [List.head?_cons, Option.mem_some_iff, forall_eq', groupNames,
        List.mem_cons, not_or] at h
      rw [addSignal, if_neg (Ne.symm h.1), states, ih (by simpa using h.2), states,
        List.cons_append]

theorem ShowsNew.addSignal {rows : Rows} {names : List ByteString} (h : rows.ShowsNew names) :
    (rows.addSignal false key .checked names).updatedState ≠ .unchecked := by
  rw [Ne, updatedState_eq_unchecked]
  intro hall
  rcases h with hnew | ⟨state', hmem, hne⟩
  · rw [states_addSignal_false_of_new hnew] at hall
    cases hall .checked (by simp)
  · rcases states_addSignal_false rows key names with heq | heq
    · rw [heq] at hall
      exact hne (hall state' hmem)
    · rw [heq] at hall
      exact hne (hall state' (by simp [hmem]))

end Rows

end SmartDashboard.App.RunBrowser
