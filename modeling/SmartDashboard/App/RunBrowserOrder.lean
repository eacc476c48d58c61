import Mathlib.Data.List.Lex
import Mathlib.Data.List.Sort
import SmartDashboard.App.RunBrowserDock
import SmartDashboard.Library.Execution

/-!
# The order of the rows in the Run Browser

Where a new row goes: groups stand before leaves, and each kind is in the order of its names
without regard to case. With it, what the tree of the live transport looks like after any sequence
of tiles that come and go.

## Main definitions

- `findSortedInsertionRow`, `placeSignal`: the row of a new leaf, and of the groups over it
- `Dock.placeTile`: `OnTileAdded` with the rows in their places
- `Rows.Level`, `Rows.InOrder`: what holds of the rows under one item, and of all rows under it
- `Dock.MirrorsTiles`: the leaves are the discovered keys, each in its place
-/

namespace SmartDashboard.App.RunBrowser

open Direct (ByteString)
open Execution

/-- The text of a leaf, the last segment of its key. -/
def leafName (key : ByteString) : ByteString := (segments key).getLast?.getD []

namespace Rows

section Insertion

-- names are compared as `Qt::CaseInsensitive` compares them
variable {ν : Type*} [LinearOrder ν] (caseFold : ByteString → ν)

def findSortedInsertionRow (newIsGroup : Bool) (newName : ByteString) : Rows → ℕ
  | nil => 0
  | signal key _ rest =>
    if newIsGroup ∨ caseFold newName < caseFold (leafName key) then 0
    else rest.findSortedInsertionRow newIsGroup newName + 1
  | group name _ _ rest =>
    if newIsGroup ∧ caseFold newName < caseFold name then 0
    else rest.findSortedInsertionRow newIsGroup newName + 1

/-- `new` puts a row in front of the rows from there on. -/
def insertRow (new : Rows → Rows) : Rows → ℕ → Rows
  | rows, 0 => new rows
  | nil, _ + 1 => new nil
  | signal key state rest, row + 1 => signal key state (rest.insertRow new row)
  | group name state children rest, row + 1 => group name state children (rest.insertRow new row)

/-- The rows of the first group of the name are replaced. -/
def modifyGroup (update : Bool) (name : ByteString) (f : Rows → Rows) : Rows → Rows
  | nil => nil
  | signal key state rest => signal key state (rest.modifyGroup update name f)
  | group name' state children rest =>
    if name' = name then group name' (groupState update state (f children)) (f children) rest
    else group name' state children (rest.modifyGroup update name f)

/-- A leaf under the groups of these names, which `GetOrCreateGroupItemForStreaming` finds or makes;
with `update`, their states are worked out anew. -/
def placeSignal (update : Bool) (key : ByteString) (state : CheckState) :
    List ByteString → Rows → Rows
  | [], rows =>
    rows.insertRow (signal key state) (rows.findSortedInsertionRow caseFold false (leafName key))
  | name :: names, rows =>
    if name ∈ rows.groupNames then
      rows.modifyGroup update name (placeSignal update key state names)
    else
      let children := placeSignal update key state names nil
      rows.insertRow (group name (groupState update .checked children) children)
        (rows.findSortedInsertionRow caseFold true name)

end Insertion

end Rows

namespace Dock

variable {ν : Type*} [LinearOrder ν] (caseFold : ByteString → ν)

/-- `OnTileAdded`, with every row where it stands in the tree. -/
def placeTile (dock : Dock) (key : ByteString) : Answer :=
  if key = [] then (dock, none)
  else
    match dock.tree with
    | .reading _ => (dock, none)
    | .streaming root =>
      if key ∈ dock.discoveredKeys then (dock, none)
      else if segments key = [] then
        ({ dock with discoveredKeys := insert key dock.discoveredKeys }, none)
      else
        let state := if key ∈ dock.streamingHiddenKeys then .unchecked else .checked
        let rows := root.rows.placeSignal caseFold (dock.streamingHiddenKeys ≠ ∅) key state
          (segments key).dropLast
        collectAndEmitCheckedSignals
          { dock with
            tree := .streaming (.updated rows)
            discoveredKeys := insert key dock.discoveredKeys }

end Dock

/-! ### The rows under one item -/

/-- An element put before the first that is greater keeps a list in order. -/
theorem pairwise_orderedInsert_lt {α ν : Type*} [LinearOrder ν] (f : α → ν) (a : α) {l : List α}
    (h : l.Pairwise fun b c => f b ≤ f c) :
    (l.orderedInsert (fun b c => f b < f c) a).Pairwise fun b c => f b ≤ f c := by
  induction l with
  | nil => simp
  | cons b l ih =>
    rw [List.pairwise_cons] at h
    rw [List.orderedInsert_cons]
    split
    · next hlt =>
      refine List.pairwise_cons.mpr ⟨?_, List.pairwise_cons.mpr h⟩
      intro c hc
      rcases List.mem_cons.mp hc with rfl | hc
      · exact hlt.le
      · exact hlt.le.trans (h.1 c hc)
    · next hle =>
      refine List.pairwise_cons.mpr ⟨?_, ih h.2⟩
      intro c hc
      rcases (List.mem_orderedInsert _).mp hc with rfl | hc
      · exact not_lt.mp hle
      · exact h.1 c hc

namespace Rows

/-- The keys of the leaves that stand directly under the item. -/
def leafKeys : Rows → List ByteString
  | nil => []
  | signal key _ rest => key :: rest.leafKeys
  | group _ _ _ rest => rest.leafKeys

def GroupsFirst : Rows → Prop
  | nil => True
  | signal _ _ rest => rest.groupNames = []
  | group _ _ _ rest => rest.GroupsFirst

section Insertion

variable {ν : Type*} [LinearOrder ν] {caseFold : ByteString → ν}
variable {name : ByteString} {key : ByteString} {state : CheckState} {children : Rows}

/-- What holds of rows whatever stands behind each of them still holds with one more. -/
theorem insertRow_induction {P : Rows → Prop} {new : Rows → Rows} {rows : Rows}
    (hnew : ∀ rest, P rest → P (new rest))
    (hsignal : ∀ key state rest, P (signal key state rest) →
      P rest ∧ ∀ rest', P rest' → P (signal key state rest'))
    (hgroup : ∀ name state children rest, P (group name state children rest) →
      P rest ∧ ∀ rest', P rest' → P (group name state children rest'))
    (h : P rows) (row : ℕ) : P (rows.insertRow new row) := by
  induction rows generalizing row with
  | nil => cases row <;> exact hnew nil h
  | signal key state rest ih =>
    cases row with
    | zero => exact hnew _ h
    | succ row =>
      obtain ⟨hrest, hbefore⟩ := hsignal key state rest h
      exact hbefore _ (ih hrest row)
  | group name state children rest _ ih =>
    cases row with
    | zero => exact hnew _ h
    | succ row =>
      obtain ⟨hrest, hbefore⟩ := hgroup name state children rest h
      exact hbefore _ (ih hrest row)

theorem groupNames_insertRow_signal (rows : Rows) (row : ℕ) :
    (rows.insertRow (signal key state) row).groupNames = rows.groupNames := by
  induction rows generalizing row with
  | nil => cases row <;> rfl
  | signal key' state' rest ih =>
    cases row with
    | zero => rfl
    | succ row => exact ih row
  | group name' state' children' rest _ ih =>
    cases row with
    | zero => rfl
    | succ row => exact congrArg (name' :: ·) (ih row)

theorem leafKeys_insertRow_group (rows : Rows) (row : ℕ) :
    (rows.insertRow (group name state children) row).leafKeys = rows.leafKeys := by
  induction rows generalizing row with
  | nil => cases row <;> rfl
  | signal key' state' rest ih =>
    cases row with
    | zero => rfl
    | succ row => exact congrArg (key' :: ·) (ih row)
  | group name' state' children' rest _ ih =>
    cases row with
    | zero => rfl
    | succ row => exact ih row

/-- The row of a new group among the groups. -/
theorem groupNames_insertRow_group {rows : Rows} (h : rows.GroupsFirst) :
    (rows.insertRow (group name state children)
        (rows.findSortedInsertionRow caseFold true name)).groupNames =
      rows.groupNames.orderedInsert (fun a b => caseFold a < caseFold b) name := by
  induction rows with
  | nil => rfl
  | signal key' state' rest ih =>
    simp [findSortedInsertionRow, insertRow, groupNames, show rest.groupNames = [] from h]
  | group name' state' children' rest _ ih =>
    rw [findSortedInsertionRow, groupNames, List.orderedInsert_cons]
    by_cases hlt : caseFold name < caseFold name'
    · simp [hlt, insertRow, groupNames]
    · simp [hlt, insertRow, groupNames, ih h]

/-- The row of a new leaf among the leaves. -/
theorem leafKeys_insertRow_signal (rows : Rows) :
    (rows.insertRow (signal key state)
        (rows.findSortedInsertionRow caseFold false (leafName key))).leafKeys =
      rows.leafKeys.orderedInsert
        (fun a b => caseFold (leafName a) < caseFold (leafName b)) key := by
  induction rows with
  | nil => rfl
  | signal key' state' rest ih =>
    rw [findSortedInsertionRow, leafKeys, List.orderedInsert_cons]
    by_cases hlt : caseFold (leafName key) < caseFold (leafName key')
    · simp [hlt, insertRow, leafKeys]
    · simp [hlt, insertRow, leafKeys, ih]
  | group name' state' children' rest _ ih =>
    simpa [findSortedInsertionRow, insertRow, leafKeys] using ih

theorem GroupsFirst.insertRow_group {rows : Rows} (h : rows.GroupsFirst) :
    (rows.insertRow (group name state children)
      (rows.findSortedInsertionRow caseFold true name)).GroupsFirst := by
  induction rows with
  | nil => exact trivial
  | signal key' state' rest ih =>
    simpa [findSortedInsertionRow, Rows.insertRow, GroupsFirst] using h
  | group name' state' children' rest _ ih =>
    rw [findSortedInsertionRow]
    by_cases hlt : caseFold name < caseFold name'
    · simpa [hlt, Rows.insertRow, GroupsFirst] using h
    · simpa [hlt, Rows.insertRow, GroupsFirst] using ih h

theorem GroupsFirst.insertRow_signal {rows : Rows} (h : rows.GroupsFirst) :
    (rows.insertRow (signal key state)
      (rows.findSortedInsertionRow caseFold false (leafName key))).GroupsFirst := by
  induction rows with
  | nil => exact rfl
  | signal key' state' rest ih =>
    rw [findSortedInsertionRow]
    by_cases hlt : caseFold (leafName key) < caseFold (leafName key')
    · simpa [hlt, Rows.insertRow, GroupsFirst, groupNames] using h
    · simpa [hlt, Rows.insertRow, GroupsFirst, groupNames_insertRow_signal] using h
  | group name' state' children' rest _ ih =>
    simpa [findSortedInsertionRow, Rows.insertRow, GroupsFirst] using ih h

theorem signals_insertRow {new : Rows → Rows} {added : List (ByteString × CheckState)}
    (hnew : ∀ rest, (new rest).signals = added ++ rest.signals) (rows : Rows) (row : ℕ) :
    (rows.insertRow new row).signals.Perm (added ++ rows.signals) := by
  induction rows generalizing row with
  | nil =>
    cases row <;> simp only [insertRow, hnew] <;> exact List.Perm.refl _
  | signal key' state' rest ih =>
    cases row with
    | zero => rw [insertRow, hnew]
    | succ row => exact ((ih row).cons _).trans List.perm_middle.symm
  | group name' state' children' rest _ ih =>
    cases row with
    | zero => rw [insertRow, hnew]
    | succ row =>
      -- what is added passes over the leaves of the group
      refine ((ih row).append_left children'.signals).trans ?_
      rw [signals, ← List.append_assoc, ← List.append_assoc]
      exact List.perm_append_comm.append_right _

end Insertion

/-! ### The rows of a group -/

variable {update : Bool} {name : ByteString} {f : Rows → Rows}

theorem groupNames_modifyGroup (rows : Rows) :
    (rows.modifyGroup update name f).groupNames = rows.groupNames := by
  induction rows with
  | nil => rfl
  | signal key state rest ih => exact ih
  | group name' state children rest _ ih =>
    rw [modifyGroup]
    split
    · rfl
    · exact congrArg (name' :: ·) ih

theorem leafKeys_modifyGroup (rows : Rows) :
    (rows.modifyGroup update name f).leafKeys = rows.leafKeys := by
  induction rows with
  | nil => rfl
  | signal key state rest ih => exact congrArg (key :: ·) ih
  | group name' state children rest _ ih =>
    rw [modifyGroup]
    split
    · rfl
    · exact ih

theorem GroupsFirst.modifyGroup {rows : Rows} (h : rows.GroupsFirst) :
    (rows.modifyGroup update name f).GroupsFirst := by
  induction rows with
  | nil => exact trivial
  | signal key state rest ih =>
    rw [Rows.modifyGroup, GroupsFirst, groupNames_modifyGroup]
    exact h
  | group name' state children rest _ ih =>
    rw [Rows.modifyGroup]
    split
    · exact h
    · exact ih h

theorem signals_modifyGroup {leaf : ByteString × CheckState} {rows : Rows}
    (hmem : name ∈ rows.groupNames)
    (hf : ∀ children, (f children).signals.Perm (leaf :: children.signals)) :
    (rows.modifyGroup update name f).signals.Perm (leaf :: rows.signals) := by
  induction rows with
  | nil => simp [groupNames] at hmem
  | signal key state rest ih =>
    exact ((ih hmem).cons _).trans (List.Perm.swap _ _ _)
  | group name' state children rest _ ih =>
    rw [modifyGroup]
    split
    · exact (hf children).append_right rest.signals
    · next hne =>
      -- the group is further down, the leaf passes over the leaves of this one
      have hrest := ih ((List.mem_cons.mp hmem).resolve_left (Ne.symm hne))
      exact (hrest.append_left children.signals).trans List.perm_middle

theorem signals_placeSignal {ν : Type*} [LinearOrder ν] (caseFold : ByteString → ν)
    (update : Bool) (key : ByteString) (state : CheckState) (names : List ByteString)
    (rows : Rows) :
    (rows.placeSignal caseFold update key state names).signals.Perm
      ((key, state) :: rows.signals) := by
  induction names generalizing rows with
  | nil =>
    have hnew (rest : Rows) :
        (signal key state rest).signals = [(key, state)] ++ rest.signals := rfl
    exact signals_insertRow hnew rows _
  | cons name names ih =>
    rw [placeSignal]
    split
    · next hmem => exact signals_modifyGroup hmem ih
    · refine (signals_insertRow (fun rest => rfl) rows _).trans ?_
      exact (ih nil).append_right rows.signals

/-! ### A leaf that goes -/

/-- The first leaf of the key goes, with the groups that it leaves empty. -/
theorem removeSignal_induction {key : ByteString} {P : Rows → Rows → Prop}
    (here : ∀ state rest, P (signal key state rest) rest)
    (belowSignal : ∀ key' state rest rest', key' ≠ key → rest.removeSignal key = some rest' →
      P rest rest' → P (signal key' state rest) (signal key' state rest'))
    (pruned : ∀ name state children rest, children.removeSignal key = some nil → P children nil →
      P (group name state children rest) rest)
    (inside : ∀ name state children children' rest, children.removeSignal key = some children' →
      children' ≠ nil → P children children' →
      P (group name state children rest) (group name state children' rest))
    (belowGroup : ∀ name state children rest rest', children.removeSignal key = none →
      rest.removeSignal key = some rest' → P rest rest' →
      P (group name state children rest) (group name state children rest'))
    {rows rows' : Rows} (h : rows.removeSignal key = some rows') : P rows rows' := by
  induction rows generalizing rows' with
  | nil => cases h
  | signal key' state rest ih =>
    rw [removeSignal] at h
    split at h
    · next heq =>
      obtain rfl := Option.some.inj h
      exact heq ▸ here state rest
    · next hne =>
      obtain ⟨rest', hrest, rfl⟩ := Option.map_eq_some_iff.mp h
      exact belowSignal _ _ _ _ hne hrest (ih hrest)
  | group name state children rest ihchildren ih =>
    rw [removeSignal] at h
    split at h
    · next hchildren =>
      obtain rfl := Option.some.inj h
      exact pruned _ _ _ _ hchildren (ihchildren hchildren)
    · next children' hne hchildren =>
      obtain rfl := Option.some.inj h
      exact inside _ _ _ _ _ hchildren hne (ihchildren hchildren)
    · next hnone =>
      obtain ⟨rest', hrest, rfl⟩ := Option.map_eq_some_iff.mp h
      exact belowGroup _ _ _ _ _ hnone hrest (ih hrest)

variable {key : ByteString} {rows rows' : Rows}

theorem exists_removeSignal (h : key ∈ rows.signals.map Prod.fst) :
    ∃ rows', rows.removeSignal key = some rows' := by
  induction rows with
  | nil => simp [signals] at h
  | signal key' state rest ih =>
    rw [removeSignal]
    split
    · exact ⟨rest, rfl⟩
    · next hne =>
      have hrest : key ∈ rest.signals.map Prod.fst :=
        (List.mem_cons.mp h).resolve_left (Ne.symm hne)
      obtain ⟨rest', hrest'⟩ := ih hrest
      exact ⟨_, by rw [hrest', Option.map_some]⟩
  | group name state children rest ihchildren ih =>
    rw [signals, List.map_append, List.mem_append] at h
    rw [removeSignal]
    split
    · exact ⟨_, rfl⟩
    · exact ⟨_, rfl⟩
    · next hnone =>
      have hrest := h.resolve_left fun hmem => by
        obtain ⟨children', hchildren⟩ := ihchildren hmem
        rw [hchildren] at hnone
        cases hnone
      obtain ⟨rest', hrest'⟩ := ih hrest
      exact ⟨_, by rw [hrest', Option.map_some]⟩

theorem signals_removeSignal (h : rows.removeSignal key = some rows') :
    ∃ state, rows.signals.Perm ((key, state) :: rows'.signals) := by
  refine removeSignal_induction (P := fun rows rows' =>
    ∃ state, rows.signals.Perm ((key, state) :: rows'.signals)) ?here ?belowSignal ?pruned
    ?inside ?belowGroup h
  case here =>
    intro state rest
    exact ⟨state, List.Perm.refl _⟩
  case belowSignal =>
    rintro key' state' rest rest' - - ⟨state, hperm⟩
    exact ⟨state, (hperm.cons _).trans (List.Perm.swap _ _ _)⟩
  case pruned =>
    rintro name state' children rest - ⟨state, hperm⟩
    exact ⟨state, hperm.append_right rest.signals⟩
  case inside =>
    rintro name state' children children' rest - - ⟨state, hperm⟩
    exact ⟨state, hperm.append_right rest.signals⟩
  case belowGroup =>
    rintro name state' children rest rest' - - ⟨state, hperm⟩
    exact ⟨state, (hperm.append_left children.signals).trans List.perm_middle⟩

theorem groupNames_removeSignal (h : rows.removeSignal key = some rows') :
    rows'.groupNames.Sublist rows.groupNames := by
  refine removeSignal_induction (P := fun rows rows' =>
    rows'.groupNames.Sublist rows.groupNames) ?here ?belowSignal ?pruned
    ?inside ?belowGroup h
  case here =>
    intro state rest
    exact List.Sublist.refl _
  case belowSignal =>
    intro key' state rest rest' _ _ hsub
    exact hsub
  case pruned =>
    intro name state children rest _ _
    exact List.sublist_cons_self _ _
  case inside =>
    intro name state children children' rest _ _ _
    exact List.Sublist.refl _
  case belowGroup =>
    intro name state children rest rest' _ _ hsub
    exact hsub.cons_cons name

theorem leafKeys_removeSignal (h : rows.removeSignal key = some rows') :
    rows'.leafKeys.Sublist rows.leafKeys := by
  refine removeSignal_induction (P := fun rows rows' =>
    rows'.leafKeys.Sublist rows.leafKeys) ?here ?belowSignal ?pruned
    ?inside ?belowGroup h
  case here =>
    intro state rest
    exact List.sublist_cons_self _ _
  case belowSignal =>
    intro key' state rest rest' _ _ hsub
    exact hsub.cons_cons key'
  case pruned =>
    intro name state children rest _ _
    exact List.Sublist.refl _
  case inside =>
    intro name state children children' rest _ _ _
    exact List.Sublist.refl _
  case belowGroup =>
    intro name state children rest rest' _ _ hsub
    exact hsub

theorem groupsFirst_of_groupNames (h : rows.groupNames = []) : rows.GroupsFirst := by
  cases rows with
  | nil => exact trivial
  | signal key state rest => exact h
  | group name state children rest => cases h

theorem GroupsFirst.removeSignal (hfirst : rows.GroupsFirst)
    (h : rows.removeSignal key = some rows') : rows'.GroupsFirst := by
  refine removeSignal_induction (P := fun rows rows' => rows.GroupsFirst → rows'.GroupsFirst)
    ?here ?belowSignal ?pruned ?inside ?belowGroup h hfirst
  case here =>
    intro state rest hfirst
    exact groupsFirst_of_groupNames hfirst
  case belowSignal =>
    intro key' state rest rest' _ hrest _ hfirst
    have hnil : rest.groupNames = [] := hfirst
    exact List.sublist_nil.mp (hnil ▸ groupNames_removeSignal hrest)
  case pruned =>
    intro name state children rest _ _ hfirst
    exact hfirst
  case inside =>
    intro name state children children' rest _ _ _ hfirst
    exact hfirst
  case belowGroup =>
    intro name state children rest rest' _ _ ih hfirst
    exact ih hfirst

/-! ### Rows in order -/

section Order

variable {ν : Type*} [LinearOrder ν] (caseFold : ByteString → ν)

/-- The rows directly under the item at this path. -/
structure Level (path : List ByteString) (rows : Rows) : Prop where
  groupsFirst : rows.GroupsFirst
  groupNames_nodup : rows.groupNames.Nodup
  groupNames_sorted : rows.groupNames.Pairwise fun a b => caseFold a ≤ caseFold b
  leafKeys_sorted :
    rows.leafKeys.Pairwise fun a b => caseFold (leafName a) ≤ caseFold (leafName b)
  segments_leafKey : ∀ key ∈ rows.leafKeys, segments key = path ++ [leafName key]

/-- No group under the item is empty, and the rows under each of them are as they should be. -/
def Inside (path : List ByteString) : Rows → Prop
  | nil => True
  | signal _ _ rest => rest.Inside path
  | group name _ children rest =>
    (children ≠ nil ∧ Level caseFold (path ++ [name]) children ∧
      children.Inside (path ++ [name])) ∧ rest.Inside path

/-- All rows under the item at this path. -/
def InOrder (path : List ByteString) (rows : Rows) : Prop :=
  rows.Level caseFold path ∧ rows.Inside caseFold path

variable {caseFold}

theorem inOrder_nil (path : List ByteString) : nil.InOrder caseFold path :=
  ⟨⟨trivial, List.nodup_nil, .nil, .nil, by simp [leafKeys]⟩, trivial⟩

variable {update : Bool} {name : ByteString} {state : CheckState} {path : List ByteString}
  {children : Rows} {f : Rows → Rows}

theorem Inside.insertRow_signal (h : rows.Inside caseFold path) (row : ℕ) :
    (rows.insertRow (signal key state) row).Inside caseFold path := by
  refine insertRow_induction ?_ ?_ ?_ h row
  · intro rest hrest
    exact hrest
  · intro key' state' rest hrows
    exact ⟨hrows, fun rest' hrest => hrest⟩
  · intro name' state' children' rest hrows
    exact ⟨hrows.2, fun rest' hrest => ⟨hrows.1, hrest⟩⟩

theorem Inside.insertRow_group (h : rows.Inside caseFold path) (hne : children ≠ nil)
    (hchildren : children.InOrder caseFold (path ++ [name])) (row : ℕ) :
    (rows.insertRow (group name state children) row).Inside caseFold path := by
  refine insertRow_induction ?_ ?_ ?_ h row
  · intro rest hrest
    exact ⟨⟨hne, hchildren⟩, hrest⟩
  · intro key' state' rest hrows
    exact ⟨hrows, fun rest' hrest => hrest⟩
  · intro name' state' children' rest hrows
    exact ⟨hrows.2, fun rest' hrest => ⟨hrows.1, hrest⟩⟩

theorem Inside.modifyGroup (h : rows.Inside caseFold path)
    (hf : ∀ children, children.InOrder caseFold (path ++ [name]) →
      f children ≠ nil ∧ (f children).InOrder caseFold (path ++ [name])) :
    (rows.modifyGroup update name f).Inside caseFold path := by
  induction rows with
  | nil => exact trivial
  | signal key' state' rest ih => exact ih h
  | group name' state' children' rest _ ih =>
    rw [Rows.modifyGroup]
    split
    · next heq =>
      subst heq
      exact ⟨hf children' h.1.2, h.2⟩
    · exact ⟨h.1, ih h.2⟩

theorem placeSignal_ne_nil (names : List ByteString) (rows : Rows) :
    rows.placeSignal caseFold update key state names ≠ nil := by
  intro hnil
  have hperm := signals_placeSignal caseFold update key state names rows
  rw [hnil] at hperm
  exact absurd hperm.length_eq (by simp [signals])

/-- A new leaf goes to its place, with the groups on the way to it. -/
theorem InOrder.placeSignal {names : List ByteString} (h : rows.InOrder caseFold path)
    (hkey : segments key = path ++ names ++ [leafName key]) :
    (rows.placeSignal caseFold update key state names).InOrder caseFold path := by
  obtain ⟨hlevel, hinside⟩ := h
  induction names generalizing path rows with
  | nil =>
    refine ⟨⟨hlevel.groupsFirst.insertRow_signal, ?_, ?_, ?_, ?_⟩, hinside.insertRow_signal _⟩
    · rw [Rows.placeSignal, groupNames_insertRow_signal]
      exact hlevel.groupNames_nodup
    · rw [Rows.placeSignal, groupNames_insertRow_signal]
      exact hlevel.groupNames_sorted
    · rw [Rows.placeSignal, leafKeys_insertRow_signal]
      exact pairwise_orderedInsert_lt (fun key => caseFold (leafName key)) key
        hlevel.leafKeys_sorted
    · rw [Rows.placeSignal, leafKeys_insertRow_signal]
      intro key' hmem
      rcases (List.mem_orderedInsert _).mp hmem with rfl | hmem
      · simpa using hkey
      · exact hlevel.segments_leafKey key' hmem
  | cons name names ih =>
    have hinner {children : Rows} (h : children.InOrder caseFold (path ++ [name])) :
        (children.placeSignal caseFold update key state names).InOrder caseFold
          (path ++ [name]) := ih (by simpa using hkey) h.1 h.2
    rw [Rows.placeSignal]
    split
    · refine ⟨⟨hlevel.groupsFirst.modifyGroup, ?_, ?_, ?_, ?_⟩,
        hinside.modifyGroup fun children h => ⟨placeSignal_ne_nil names children, hinner h⟩⟩
      · rw [groupNames_modifyGroup]
        exact hlevel.groupNames_nodup
      · rw [groupNames_modifyGroup]
        exact hlevel.groupNames_sorted
      · rw [leafKeys_modifyGroup]
        exact hlevel.leafKeys_sorted
      · rw [leafKeys_modifyGroup]
        exact hlevel.segments_leafKey
    · next hnew =>
      refine ⟨⟨hlevel.groupsFirst.insertRow_group, ?_, ?_, ?_, ?_⟩,
        hinside.insertRow_group (placeSignal_ne_nil names nil) (hinner (inOrder_nil _)) _⟩
      · rw [groupNames_insertRow_group hlevel.groupsFirst,
          (List.perm_orderedInsert _ name rows.groupNames).nodup_iff]
        exact List.nodup_cons.mpr ⟨hnew, hlevel.groupNames_nodup⟩
      · rw [groupNames_insertRow_group hlevel.groupsFirst]
        exact pairwise_orderedInsert_lt caseFold name hlevel.groupNames_sorted
      · rw [leafKeys_insertRow_group]
        exact hlevel.leafKeys_sorted
      · rw [leafKeys_insertRow_group]
        exact hlevel.segments_leafKey

theorem Level.removeSignal (h : rows.Level caseFold path)
    (hremove : rows.removeSignal key = some rows') : rows'.Level caseFold path where
  groupsFirst := h.groupsFirst.removeSignal hremove
  groupNames_nodup := h.groupNames_nodup.sublist (groupNames_removeSignal hremove)
  groupNames_sorted := h.groupNames_sorted.sublist (groupNames_removeSignal hremove)
  leafKeys_sorted := h.leafKeys_sorted.sublist (leafKeys_removeSignal hremove)
  segments_leafKey key' hmem :=
    h.segments_leafKey key' ((leafKeys_removeSignal hremove).subset hmem)

theorem Inside.removeSignal (hinside : rows.Inside caseFold path)
    (hremove : rows.removeSignal key = some rows') : rows'.Inside caseFold path := by
  refine removeSignal_induction (P := fun rows rows' =>
    ∀ path, rows.Inside caseFold path → rows'.Inside caseFold path) ?here ?belowSignal ?pruned
    ?inside ?belowGroup hremove path hinside
  case here =>
    intro state rest path h
    exact h
  case belowSignal =>
    intro key' state rest rest' _ _ ih path h
    exact ih path h
  case pruned =>
    intro name state children rest _ _ path h
    exact h.2
  case inside =>
    intro name state children children' rest hchildren hne ih path h
    exact ⟨⟨hne, h.1.2.1.removeSignal hchildren, ih _ h.1.2.2⟩, h.2⟩
  case belowGroup =>
    intro name state children rest rest' _ _ ih path h
    exact ⟨h.1, ih path h.2⟩

end Order

end Rows

theorem segments_eq {key : ByteString} (h : segments key ≠ []) :
    segments key = (segments key).dropLast ++ [leafName key] := by
  rw [leafName, List.getLast?_eq_some_getLast h, Option.getD_some, List.dropLast_append_getLast h]

/-! ### The tree of the live transport -/

/-- What changes the rows of the tree. -/
inductive TileAction
  | setStreamingRootLabel
  | onTileAdded (key : ByteString)
  | onTileRemoved (key : ByteString)
  | clearDiscoveredKeys
  deriving DecidableEq

/-- The key of the tile has a segment. -/
def TileAction.Named : TileAction → Prop
  | onTileAdded key | onTileRemoved key => segments key ≠ []
  | _ => True

instance : ∀ action : TileAction, Decidable action.Named
  | .onTileAdded _ | .onTileRemoved _ => inferInstanceAs (Decidable (_ ≠ _))
  | .setStreamingRootLabel | .clearDiscoveredKeys => inferInstanceAs (Decidable True)

namespace Dock

variable {ν : Type*} [LinearOrder ν] (caseFold : ByteString → ν)

def tileStep (dock : Dock) : TileAction → Answer
  | .setStreamingRootLabel => (dock.setStreamingRootLabel, none)
  | .onTileAdded key => dock.placeTile caseFold key
  | .onTileRemoved key => dock.onTileRemoved key
  | .clearDiscoveredKeys => dock.clearDiscoveredKeys

/-- In streaming mode the leaves are the discovered keys, each once and in its place, and all rows
are in order. -/
def MirrorsTiles (dock : Dock) : Prop :=
  ∀ root, dock.tree = .streaming root →
    root.rows.InOrder caseFold [] ∧ (root.rows.signals.map Prod.fst).Nodup ∧
      ∀ key, key ∈ root.rows.signals.map Prod.fst ↔ key ∈ dock.discoveredKeys

variable {caseFold} {dock : Dock}

theorem mirrorsTiles_empty {root : RunItem} {hiddenKeys : Finset ByteString}
    (hroot : root.rows = .nil) :
    MirrorsTiles caseFold
      { tree := .streaming root, discoveredKeys := ∅, streamingHiddenKeys := hiddenKeys } := by
  rintro _ ⟨⟩
  rw [hroot]
  exact ⟨Rows.inOrder_nil [], List.nodup_nil, by simp [Rows.signals]⟩

theorem ne_nil_of_segments {key : ByteString} (h : segments key ≠ []) : key ≠ [] := by
  rintro rfl
  exact h rfl

/-- A tile whose key is not yet there. -/
theorem placeTile_of_new {root : RunItem} {key : ByteString} (htree : dock.tree = .streaming root)
    (hkey : segments key ≠ []) (hnew : key ∉ dock.discoveredKeys) :
    dock.placeTile caseFold key =
      collectAndEmitCheckedSignals
        { dock with
          tree := .streaming (.updated (root.rows.placeSignal caseFold
            (dock.streamingHiddenKeys ≠ ∅) key
            (if key ∈ dock.streamingHiddenKeys then .unchecked else .checked)
            (segments key).dropLast))
          discoveredKeys := insert key dock.discoveredKeys } := by
  simp only [placeTile, if_neg (ne_nil_of_segments hkey), htree, if_neg hnew, if_neg hkey]

/-- A tile that is there, or comes while there is no live transport. -/
theorem placeTile_of_known {key : ByteString}
    (h : dock.streamingMode = true → key ∈ dock.discoveredKeys) :
    dock.placeTile caseFold key = (dock, none) := by
  rw [placeTile]
  split
  · rfl
  cases htree : dock.tree with
  | reading runs => rfl
  | streaming root =>
    rw [streamingMode, htree] at h
    exact if_pos (h rfl)

theorem MirrorsTiles.placeTile (h : dock.MirrorsTiles caseFold) {key : ByteString}
    (hkey : segments key ≠ []) : (dock.placeTile caseFold key).1.MirrorsTiles caseFold := by
  by_cases hknown : dock.streamingMode = true → key ∈ dock.discoveredKeys
  · rw [placeTile_of_known hknown]
    exact h
  push Not at hknown
  obtain ⟨hmode, hnew⟩ := hknown
  cases htree : dock.tree with
  | reading runs =>
    rw [streamingMode, htree] at hmode
    cases hmode
  | streaming root =>
    obtain ⟨horder, hnodup, hkeys⟩ := h root htree
    rw [placeTile_of_new htree hkey hnew]
    rintro _ ⟨⟩
    -- the leaves are those before with the new one
    have hperm (state : CheckState) := (Rows.signals_placeSignal caseFold
      (dock.streamingHiddenKeys ≠ ∅) key state (segments key).dropLast root.rows).map Prod.fst
    refine ⟨horder.placeSignal (segments_eq hkey), ?_, ?_⟩
    · refine (hperm _).nodup_iff.mpr (List.nodup_cons.mpr ⟨?_, hnodup⟩)
      rw [hkeys]
      exact hnew
    · intro key'
      refine (hperm _).mem_iff.trans ?_
      rw [List.map_cons, List.mem_cons, hkeys]
      exact Finset.mem_insert.symm

theorem MirrorsTiles.onTileRemoved (h : dock.MirrorsTiles caseFold) (key : ByteString) :
    (dock.onTileRemoved key).1.MirrorsTiles caseFold := by
  rw [Dock.onTileRemoved]
  cases htree : dock.tree with
  | reading runs => exact h
  | streaming root =>
    dsimp only
    split_ifs with hknown
    · exact h
    · push Not at hknown
      obtain ⟨horder, hnodup, hkeys⟩ := h root htree
      obtain ⟨rows, hremove⟩ := Rows.exists_removeSignal ((hkeys key).mpr hknown.2)
      obtain ⟨state, hperm⟩ := Rows.signals_removeSignal hremove
      have hperm := hperm.map Prod.fst
      rw [List.map_cons] at hperm
      obtain ⟨hgone, hnodup⟩ := List.nodup_cons.mp (hperm.nodup_iff.mp hnodup)
      rintro _ ⟨⟩
      rw [hremove]
      refine ⟨⟨horder.1.removeSignal hremove, horder.2.removeSignal hremove⟩, hnodup, ?_⟩
      intro key'
      change key' ∈ rows.signals.map Prod.fst ↔ key' ∈ dock.discoveredKeys.erase key
      rw [Finset.mem_erase, ← hkeys, hperm.mem_iff, List.mem_cons]
      constructor
      · intro hmem
        exact ⟨fun heq => hgone (heq ▸ hmem), .inr hmem⟩
      · rintro ⟨hne, hmem⟩
        exact hmem.resolve_left hne

theorem MirrorsTiles.tileStep (h : dock.MirrorsTiles caseFold) {action : TileAction}
    (haction : action.Named) : (dock.tileStep caseFold action).1.MirrorsTiles caseFold := by
  cases action with
  | setStreamingRootLabel => exact mirrorsTiles_empty rfl
  | onTileAdded key => exact h.placeTile haction
  | onTileRemoved key => exact h.onTileRemoved key
  | clearDiscoveredKeys =>
    rw [Dock.tileStep, Dock.clearDiscoveredKeys]
    cases htree : dock.tree with
    | reading runs => exact h
    | streaming root => exact mirrorsTiles_empty rfl

theorem mirrorsTiles_after_tiles (hdock : dock.streamingMode = false) {actions : List TileAction}
    (h : ∀ action ∈ actions, action.Named) :
    (after (tileStep caseFold) dock actions).MirrorsTiles caseFold := by
  refine after_induction_mem (fun dock action hmem hdock => hdock.tileStep (h action hmem)) ?_
  intro root htree
  rw [streamingMode, htree] at hdock
  cases hdock

/-- The names in ASCII, the capital letters as small ones. -/
def asciiCaseFold (name : ByteString) : List ℕ :=
  name.map fun char => if 0x41 ≤ char ∧ char ≤ 0x5A then char.toNat + 0x20 else char.toNat

-- the keys "b", "a/y", "B/x" and "a/Z/c", the second of which goes again
theorem mirrorsTiles_after_tiles_of_four :
    (after (tileStep asciiCaseFold) {}
      [.setStreamingRootLabel, .onTileAdded [0x62], .onTileAdded [0x61, 0x2F, 0x79],
        .onTileAdded [0x42, 0x2F, 0x78], .onTileAdded [0x61, 0x2F, 0x5A, 0x2F, 0x63],
        .onTileRemoved [0x61, 0x2F, 0x79]]).MirrorsTiles asciiCaseFold :=
  mirrorsTiles_after_tiles rfl (by decide)

end Dock

end SmartDashboard.App.RunBrowser
