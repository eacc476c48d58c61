import SmartDashboard.App.RunBrowserOrder

/-!
# The check boxes of the Run Browser

What a check does to the boxes over and under it. A box over others should be worked out from
those directly under it after every operation; each operation does so along its own way through the
tree, and some of them leave out a group.

## Main definitions

- `setLeaf`, `toggleAt`, `updateGroup`: one leaf checked by its key, one row clicked, one group
  worked out anew
- `Dock.uncheckSignalByKey`, `Dock.checkSignalByKey`, `Dock.toggle`,
  `Dock.uncheckSignalsInOrder`: the operations
- `Rows.RolledUp`, `Rows.Settled`: every group is as its rows roll up; the same with no group that
  is empty
- `Rows.SettledExcept`: the same but for the groups at these places, which wait for their turn
-/

namespace SmartDashboard.App.RunBrowser

open Direct (ByteString)

/-- What a click makes of a box. -/
def CheckState.toggled : CheckState → CheckState
  | .checked => .unchecked
  | .unchecked | .partiallyChecked => .checked

namespace Rows

/-- The state of the first leaf of the key. -/
def findLeaf (key : ByteString) : Rows → Option CheckState
  | nil => none
  | signal key' state rest => if key' = key then some state else rest.findLeaf key
  | group _ _ children rest => (children.findLeaf key).or (rest.findLeaf key)

/-- The first leaf of the key gets the state, the groups over it are worked out anew. -/
def setLeaf (key : ByteString) (new : CheckState) : Rows → Rows
  | nil => nil
  | signal key' state rest =>
    if key' = key then signal key' new rest else signal key' state (rest.setLeaf key new)
  | group name state children rest =>
    if (children.findLeaf key).isSome then
      group name (children.setLeaf key new).updatedState (children.setLeaf key new) rest
    else group name state children (rest.setLeaf key new)

def pushCheckStateToDescendants (new : CheckState) : Rows → Rows
  | nil => nil
  | signal key _ rest => signal key new (rest.pushCheckStateToDescendants new)
  | group name _ children rest =>
    group name new (children.pushCheckStateToDescendants new)
      (rest.pushCheckStateToDescendants new)

/-- `OnModelItemChanged` for the leaf or the group at this place, if there is one: the number of
its row after those of the groups over it. -/
def toggleAt : Rows → List ℕ → Option Rows
  | nil, _ => none
  | signal _ _ _, [] => none
  | signal key state rest, 0 :: place =>
    if place = [] then some (signal key state.toggled rest) else none
  | signal key state rest, (row + 1) :: place =>
    (rest.toggleAt (row :: place)).map (signal key state)
  | group _ _ _ _, [] => none
  | group name state children rest, 0 :: place =>
    if place = [] then
      some (group name state.toggled (children.pushCheckStateToDescendants state.toggled) rest)
    else
      (children.toggleAt place).map fun children => group name children.updatedState children rest
  | group name state children rest, (row + 1) :: place =>
    (rest.toggleAt (row :: place)).map (group name state children)

/-- The leaves of these keys, unchecked; no group is touched. -/
def uncheckLeaves (keys : Finset ByteString) : Rows → Rows
  | nil => nil
  | signal key state rest =>
    signal key (if key ∈ keys then .unchecked else state) (rest.uncheckLeaves keys)
  | group name state children rest =>
    group name state (children.uncheckLeaves keys) (rest.uncheckLeaves keys)

/-- The same place, one row further down. -/
def nextRow : List ℕ → List ℕ
  | [] => []
  | row :: place => (row + 1) :: place

/-- `affectedAncestors`: the places of the groups over a leaf that is unchecked. -/
def affectedGroups (keys : Finset ByteString) : Rows → List (List ℕ)
  | nil => []
  | signal _ _ rest => (rest.affectedGroups keys).map nextRow
  | group _ _ children rest =>
    (if children.unchecks keys then [0] :: (children.affectedGroups keys).map (0 :: ·) else []) ++
      (rest.affectedGroups keys).map nextRow

/-- `UpdateGroupCheckState` for the group at this place. -/
def updateGroup : Rows → List ℕ → Rows
  | nil, _ => nil
  | signal key state rest, (row + 1) :: place => signal key state (rest.updateGroup (row :: place))
  | group name state children rest, 0 :: place =>
    if place = [] then group name children.updatedState children rest
    else group name state (children.updateGroup place) rest
  | group name state children rest, (row + 1) :: place =>
    group name state children (rest.updateGroup (row :: place))
  | rows, _ => rows

end Rows

/-- `OnModelItemChanged` for the item itself or for the row at this place under it. -/
def RunItem.toggle (item : RunItem) : List ℕ → Option RunItem
  | [] =>
    let newState := item.checkState.toggled
    let childState := if newState = .partiallyChecked then .checked else newState
    some ⟨childState, item.rows.pushCheckStateToDescendants childState⟩
  | row :: place => (item.rows.toggleAt (row :: place)).map .updated

/-- `UncheckSignalsByKeys` for one item. The groups are worked out in this order, then the item. -/
def RunItem.uncheckInOrder (keys : Finset ByteString) (order : List (List ℕ)) (item : RunItem) :
    RunItem :=
  if item.rows.unchecks keys then
    .updated (order.foldl Rows.updateGroup (item.rows.uncheckLeaves keys))
  else item

namespace Dock

/-- The walk from the first leaf of the key to the run or the root over it. -/
def setSignalByKey (new : CheckState) (dock : Dock) (key : ByteString) : Answer :=
  match dock.items.findSome? fun item => item.rows.findLeaf key with
  | none => (dock, none)
  | some state =>
    if state = new then (dock, none)
    else
      collectAndEmitCheckedSignals
        { dock with
          tree :=
            match dock.tree with
            | .reading runs =>
              .reading (runs.modify (runs.findIdx fun run => (run.rows.findLeaf key).isSome)
                fun run => .updated (run.rows.setLeaf key new))
            | .streaming root => .streaming (.updated (root.rows.setLeaf key new)) }

def uncheckSignalByKey (dock : Dock) (key : ByteString) : Answer :=
  dock.setSignalByKey .unchecked key

def checkSignalByKey (dock : Dock) (key : ByteString) : Answer :=
  dock.setSignalByKey .checked key

/-- A click on the box at a place under the item in this row of the model. -/
def toggle (dock : Dock) (row : ℕ) (place : List ℕ) : Answer :=
  match dock.items[row]?.bind fun item => item.toggle place with
  | none => (dock, none)
  | some item =>
    collectAndEmitCheckedSignals
      { dock with
        tree :=
          match dock.tree with
          | .reading runs => .reading (runs.set row item)
          | .streaming _ => .streaming item }

/-- `UncheckSignalsByKeys`, the groups under the item in each row in the order in which the set of
items gives them. -/
def uncheckSignalsInOrder (dock : Dock) (keys : Finset ByteString)
    (order : ℕ → List (List ℕ)) : Answer :=
  if dock.items.any fun item => item.rows.unchecks keys then
    collectAndEmitCheckedSignals
      { dock with
        tree :=
          match dock.tree with
          | .reading runs =>
            .reading (runs.mapIdx fun row => RunItem.uncheckInOrder keys (order row))
          | .streaming root => .streaming (root.uncheckInOrder keys (order 0)) }
  else (dock, none)

end Dock

/-! ### What the rows roll up to -/

namespace Rows

variable {rows rows' : Rows}

theorem states_eq_nil : rows.states = [] ↔ rows = nil := by
  cases rows <;> simp [states]

theorem updatedState_eq_checked :
    rows.updatedState = .checked ↔ rows ≠ nil ∧ ∀ state ∈ rows.states, state = .checked := by
  rw [updatedState, Ne, ← states_eq_nil]
  split_ifs with hnil hall
  · simp [hnil]
  · exact ⟨fun _ => ⟨hnil, hall⟩, fun _ => rfl⟩
  · simp [hall]
  · simp [hall]

theorem updatedState_eq_partiallyChecked :
    rows.updatedState = .partiallyChecked ↔
      (∃ state ∈ rows.states, state ≠ .checked) ∧ ∃ state ∈ rows.states, state ≠ .unchecked := by
  rw [updatedState]
  split_ifs with hnil hall hsome
  · simp [hnil]
  · have : ¬∃ state ∈ rows.states, state ≠ .checked := by simpa using hall
    simp [this]
  · simp only [true_iff]
    push Not at hall
    exact ⟨hall, hsome⟩
  · simp [hsome]

theorem updatedState_congr (h : ∀ state, state ∈ rows.states ↔ state ∈ rows'.states) :
    rows.updatedState = rows'.updatedState := by
  have hnil : rows.states = [] ↔ rows'.states = [] := by
    simp only [List.eq_nil_iff_forall_not_mem, h]
  simp only [updatedState, hnil, h]

/-- One more row that is checked. -/
theorem updatedState_cons_checked (h : rows.updatedState ≠ .unchecked)
    (hperm : rows'.states.Perm (.checked :: rows.states)) :
    rows'.updatedState = rows.updatedState := by
  cases hstate : rows.updatedState with
  | unchecked => exact absurd hstate h
  | checked =>
    obtain ⟨hne, hall⟩ := updatedState_eq_checked.mp hstate
    refine updatedState_eq_checked.mpr ⟨?_, ?_⟩
    · rintro rfl
      exact absurd hperm.length_eq (by simp [states])
    · intro state hmem
      rcases List.mem_cons.mp (hperm.mem_iff.mp hmem) with rfl | hmem
      · rfl
      · exact hall state hmem
  | partiallyChecked =>
    obtain ⟨⟨state, hmem, hne⟩, state', hmem', hne'⟩ := updatedState_eq_partiallyChecked.mp hstate
    exact updatedState_eq_partiallyChecked.mpr
      ⟨⟨state, hperm.mem_iff.mpr (List.mem_cons_of_mem _ hmem), hne⟩,
        state', hperm.mem_iff.mpr (List.mem_cons_of_mem _ hmem'), hne'⟩

/-- Rows that are all the same. -/
theorem updatedState_of_forall {state : CheckState} (hne : rows ≠ nil)
    (hstate : state ≠ .partiallyChecked) (h : ∀ state' ∈ rows.states, state' = state) :
    rows.updatedState = state := by
  cases state with
  | unchecked => exact updatedState_eq_unchecked.mpr h
  | partiallyChecked => exact absurd rfl hstate
  | checked => exact updatedState_eq_checked.mpr ⟨hne, h⟩

/-- Every group that has children is as they roll up. -/
def RolledUp : Rows → Prop
  | nil => True
  | signal _ _ rest => rest.RolledUp
  | group _ state children rest =>
    (children ≠ nil → state = children.updatedState) ∧ children.RolledUp ∧ rest.RolledUp

instance decidableRolledUp : ∀ rows : Rows, Decidable rows.RolledUp
  | nil => isTrue trivial
  | signal _ _ rest => decidableRolledUp rest
  | group _ state children rest =>
    have := decidableRolledUp children
    have := decidableRolledUp rest
    inferInstanceAs (Decidable ((children ≠ nil → state = children.updatedState) ∧
      children.RolledUp ∧ rest.RolledUp))

/-- No group is empty, every group is as its rows roll up, and no leaf is without a key. -/
def Settled : Rows → Prop
  | nil => True
  | signal key _ rest => key ≠ [] ∧ rest.Settled
  | group _ state children rest =>
    (children ≠ nil ∧ state = children.updatedState ∧ children.Settled) ∧ rest.Settled

theorem Settled.rolledUp (h : rows.Settled) : rows.RolledUp := by
  induction rows with
  | nil => exact trivial
  | signal key state rest ih => exact ih h.2
  | group name state children rest ihchildren ih =>
    exact ⟨fun _ => h.1.2.1, ihchildren h.1.2.2, ih h.2⟩

theorem Settled.sound (h : rows.Settled) : rows.Sound := by
  induction rows with
  | nil => exact trivial
  | signal key state rest ih => exact ih h.2
  | group name state children rest ihchildren ih =>
    have hchildren := ihchildren h.1.2.2
    exact ⟨fun hstate => hchildren.updated (h.1.2.1 ▸ hstate), hchildren, ih h.2⟩

theorem Settled.key_ne_nil (h : rows.Settled) : ∀ leaf ∈ rows.signals, leaf.1 ≠ [] := by
  induction rows with
  | nil => simp [signals]
  | signal key state rest ih =>
    rw [signals, List.forall_mem_cons]
    exact ⟨h.1, ih h.2⟩
  | group name state children rest ihchildren ih =>
    rw [signals, List.forall_mem_append]
    exact ⟨ihchildren h.1.2.2, ih h.2⟩

/-! ### A new leaf -/

def findGroup (name : ByteString) : Rows → Option (CheckState × Rows)
  | nil => none
  | signal _ _ rest => rest.findGroup name
  | group name' state children rest =>
    if name' = name then some (state, children) else rest.findGroup name

/-- The states of the groups that are there on the way down these names. -/
def pathStates : List ByteString → Rows → List CheckState
  | [], _ => []
  | name :: names, rows =>
    match rows.findGroup name with
    | none => []
    | some (state, children) => state :: pathStates names children

section Insertion

variable {ν : Type*} [LinearOrder ν] {caseFold : ByteString → ν}
variable {update : Bool} {name key : ByteString} {state : CheckState} {children : Rows}
  {f : Rows → Rows}

theorem Settled.insertRow_signal (h : rows.Settled) (hkey : key ≠ []) (row : ℕ) :
    (rows.insertRow (signal key state) row).Settled := by
  refine insertRow_induction ?_ ?_ ?_ h row
  · intro rest hrest
    exact ⟨hkey, hrest⟩
  · intro key' state' rest hrows
    exact ⟨hrows.2, fun rest' hrest => ⟨hrows.1, hrest⟩⟩
  · intro name' state' children' rest hrows
    exact ⟨hrows.2, fun rest' hrest => ⟨hrows.1, hrest⟩⟩

theorem Settled.insertRow_group (h : rows.Settled)
    (hgroup : children ≠ nil ∧ state = children.updatedState ∧ children.Settled) (row : ℕ) :
    (rows.insertRow (group name state children) row).Settled := by
  refine insertRow_induction ?_ ?_ ?_ h row
  · intro rest hrest
    exact ⟨hgroup, hrest⟩
  · intro key' state' rest hrows
    exact ⟨hrows.2, fun rest' hrest => ⟨hrows.1, hrest⟩⟩
  · intro name' state' children' rest hrows
    exact ⟨hrows.2, fun rest' hrest => ⟨hrows.1, hrest⟩⟩

theorem Settled.modifyGroup (h : rows.Settled)
    (hf : ∀ state children, rows.findGroup name = some (state, children) → children ≠ nil →
      state = children.updatedState → children.Settled →
      f children ≠ nil ∧ groupState update state (f children) = (f children).updatedState ∧
        (f children).Settled) :
    (rows.modifyGroup update name f).Settled := by
  induction rows with
  | nil => exact trivial
  | signal key' state' rest ih => exact ⟨h.1, ih h.2 hf⟩
  | group name' state' children' rest _ ih =>
    rw [Rows.modifyGroup]
    rw [findGroup] at hf
    split
    · next heq =>
      rw [if_pos heq] at hf
      exact ⟨hf state' children' rfl h.1.1 h.1.2.1 h.1.2.2, h.2⟩
    · next hne =>
      rw [if_neg hne] at hf
      exact ⟨h.1, ih h.2 hf⟩

theorem states_insertRow {new : Rows → Rows}
    (hnew : ∀ rest, (new rest).states = state :: rest.states) (rows : Rows) (row : ℕ) :
    (rows.insertRow new row).states.Perm (state :: rows.states) := by
  induction rows generalizing row with
  | nil => cases row <;> rw [insertRow, hnew]
  | signal key' state' rest ih =>
    cases row with
    | zero => rw [insertRow, hnew]
    | succ row => exact ((ih row).cons _).trans (List.Perm.swap _ _ _)
  | group name' state' children' rest _ ih =>
    cases row with
    | zero => rw [insertRow, hnew]
    | succ row => exact ((ih row).cons _).trans (List.Perm.swap _ _ _)

theorem states_modifyGroup (rows : Rows) :
    (rows.modifyGroup false name f).states = rows.states := by
  induction rows with
  | nil => rfl
  | signal key' state' rest ih => exact congrArg (state' :: ·) ih
  | group name' state' children' rest _ ih =>
    rw [modifyGroup]
    split
    · rfl
    · exact congrArg (state' :: ·) ih

/-- Where no group is worked out anew, a checked leaf goes into a group or is a checked row more. -/
theorem states_placeSignal (caseFold : ByteString → ν) (key : ByteString)
    (names : List ByteString) (rows : Rows) :
    (rows.placeSignal caseFold false key .checked names).states.Perm rows.states ∨
      (rows.placeSignal caseFold false key .checked names).states.Perm
        (.checked :: rows.states) := by
  cases names with
  | nil => exact .inr (states_insertRow (fun rest => rfl) rows _)
  | cons name names =>
    rw [placeSignal]
    split
    · left
      rw [states_modifyGroup]
    · exact .inr (states_insertRow (fun rest => rfl) rows _)

/-- A new group with a checked leaf in it starts checked, and rightly so. -/
theorem groupState_placeSignal_nil (names : List ByteString) :
    groupState update .checked (nil.placeSignal caseFold update key .checked names) =
      (nil.placeSignal caseFold update key .checked names).updatedState := by
  cases update with
  | true => rfl
  | false =>
    have hne : nil.placeSignal caseFold false key .checked names ≠ nil :=
      placeSignal_ne_nil names nil
    have hall : (nil.placeSignal caseFold false key .checked names).updatedState = .checked := by
      refine updatedState_of_forall hne (by decide) fun state hmem => ?_
      rcases states_placeSignal caseFold key names nil with hnil | hone
      · exact absurd (states_eq_nil.mp hnil.eq_nil) hne
      · exact List.mem_singleton.mp (hone.mem_iff.mp hmem)
    exact hall.symm

theorem pathStates_nil (names : List ByteString) : nil.pathStates names = [] := by
  cases names <;> rfl

/-- The groups on the way are worked out anew, or the leaf is checked and none of them was
unchecked. -/
theorem Settled.placeSignal {names : List ByteString} (h : rows.Settled) (hkey : key ≠ [])
    (hstates : update = true ∨ state = .checked ∧ .unchecked ∉ rows.pathStates names) :
    (rows.placeSignal caseFold update key state names).Settled := by
  induction names generalizing rows with
  | nil => exact h.insertRow_signal hkey _
  | cons name names ih =>
    rw [Rows.placeSignal]
    split
    · refine h.modifyGroup fun state' children hfind hne hstate hchildren => ?_
      rcases hstates with rfl | ⟨rfl, hstates⟩
      · exact ⟨placeSignal_ne_nil names children, rfl, ih hchildren (.inl rfl)⟩
      -- the group keeps its state, and that is still right
      rw [pathStates, hfind, List.mem_cons, not_or] at hstates
      refine ⟨placeSignal_ne_nil names children, ?_, ih hchildren (.inr ⟨rfl, hstates.2⟩)⟩
      have hold : children.updatedState ≠ .unchecked := hstate ▸ Ne.symm hstates.1
      cases update with
      | true => rfl
      | false =>
        refine hstate.trans ?_
        rcases states_placeSignal caseFold key names children with hsame | hmore
        · exact updatedState_congr fun _ => hsame.mem_iff.symm
        · exact (updatedState_cons_checked hold hmore).symm
    · refine h.insertRow_group ⟨placeSignal_ne_nil names nil, ?_, ?_⟩ _
      · rcases hstates with rfl | ⟨rfl, -⟩
        · rfl
        · exact groupState_placeSignal_nil names
      · refine ih trivial (hstates.imp_right fun h => ⟨h.1, ?_⟩)
        rw [pathStates_nil]
        exact List.not_mem_nil

end Insertion

/-! ### A leaf that goes -/

section Removal

variable {key : ByteString}

/-- The states of the rows but the one on the way to the leaf. -/
def besides (key : ByteString) : Rows → List CheckState
  | nil => []
  | signal key' state rest => if key' = key then rest.states else state :: rest.besides key
  | group _ state children rest =>
    if (children.findLeaf key).isSome then rest.states else state :: rest.besides key

/-- The innermost group on the way to the leaf that has another row: its state and the states of
its other rows. -/
def innermost (key : ByteString) : Rows → Option (CheckState × List CheckState)
  | nil => none
  | signal key' _ rest => if key' = key then none else rest.innermost key
  | group _ state children rest =>
    if (children.findLeaf key).isSome then
      (children.innermost key).or
        (if children.besides key = [] then none else some (state, children.besides key))
    else rest.innermost key

theorem isSome_removeSignal (rows : Rows) :
    (rows.removeSignal key).isSome = (rows.findLeaf key).isSome := by
  induction rows with
  | nil => rfl
  | signal key' state rest ih =>
    rw [removeSignal, findLeaf]
    split
    · rfl
    · rw [Option.isSome_map, ih]
  | group name state children rest ihchildren ih =>
    rw [removeSignal, findLeaf, Option.isSome_or, ← ihchildren, ← ih]
    cases children.removeSignal key with
    | none => simp
    | some children' => cases children' <;> simp

theorem isSome_findLeaf_of_removeSignal (h : rows.removeSignal key = some rows') :
    (rows.findLeaf key).isSome = true := by
  rw [← isSome_removeSignal, h, Option.isSome_some]

theorem isSome_findLeaf_of_removeSignal_none (h : rows.removeSignal key = none) :
    (rows.findLeaf key).isSome ≠ true := by
  rw [← isSome_removeSignal, h]
  decide

theorem besides_sublist (rows : Rows) : (rows.besides key).Sublist rows.states := by
  induction rows with
  | nil => exact List.Sublist.refl _
  | signal key' state rest ih =>
    rw [besides]
    split
    · exact List.sublist_cons_self _ _
    · exact ih.cons_cons state
  | group name state children rest _ ih =>
    rw [besides]
    split
    · exact List.sublist_cons_self _ _
    · exact ih.cons_cons state

/-- Either the row on the way goes, and no group on it has another row, or the rows stay. -/
theorem states_removeSignal (h : rows.removeSignal key = some rows') :
    rows.innermost key = none ∧ rows'.states = rows.besides key ∨
      rows.innermost key ≠ none ∧ rows'.states = rows.states := by
  refine removeSignal_induction (P := fun rows rows' =>
    rows.innermost key = none ∧ rows'.states = rows.besides key ∨
      rows.innermost key ≠ none ∧ rows'.states = rows.states)
    ?here ?belowSignal ?pruned ?inside ?belowGroup h
  case here =>
    intro state rest
    exact .inl ⟨if_pos rfl, (if_pos rfl).symm⟩
  case belowSignal =>
    intro key' state rest rest' hne _ ih
    rw [innermost, if_neg hne, besides, if_neg hne]
    exact ih.imp (And.imp_right (congrArg (state :: ·))) (And.imp_right (congrArg (state :: ·)))
  case pruned =>
    intro name state children rest hchildren ih
    rw [innermost, besides, if_pos (isSome_findLeaf_of_removeSignal hchildren),
      if_pos (isSome_findLeaf_of_removeSignal hchildren)]
    rcases ih with ⟨hnone, hstates⟩ | ⟨-, hstates⟩
    · left
      rw [hnone, if_pos (show children.besides key = [] from hstates.symm)]
      exact ⟨rfl, rfl⟩
    · -- a group without rows has no leaf
      rw [states_eq_nil.mp hstates.symm] at hchildren
      cases hchildren
  case inside =>
    intro name state children children' rest hchildren hne ih
    right
    rw [innermost, if_pos (isSome_findLeaf_of_removeSignal hchildren)]
    refine ⟨?_, rfl⟩
    rcases ih with ⟨hnone, hstates⟩ | ⟨hsome, -⟩
    · rw [hnone, ← hstates, if_neg (mt states_eq_nil.mp hne)]
      exact Option.some_ne_none _
    · intro hnone
      exact hsome (Option.or_eq_none_iff.mp hnone).1
  case belowGroup =>
    intro name state children rest rest' hnone _ ih
    have hleaf := isSome_findLeaf_of_removeSignal_none hnone
    rw [innermost, if_neg hleaf, besides, if_neg hleaf]
    exact ih.imp (And.imp_right (congrArg (state :: ·))) (And.imp_right (congrArg (state :: ·)))

/-- A group that is partly checked is so still among the rows it keeps. -/
def StaysPartial (found : CheckState × List CheckState) : Prop :=
  found.1 = .partiallyChecked →
    (∃ state ∈ found.2, state ≠ .checked) ∧ ∃ state ∈ found.2, state ≠ .unchecked

instance (found : CheckState × List CheckState) : Decidable (StaysPartial found) :=
  inferInstanceAs (Decidable (_ → _))

/-- A group that loses a row, not its last, keeps its state. -/
theorem updatedState_of_besides (hne : rows' ≠ nil) (hstates : rows'.states = rows.besides key)
    (h : StaysPartial (rows.updatedState, rows.besides key)) :
    rows'.updatedState = rows.updatedState := by
  have hsub : ∀ state ∈ rows'.states, state ∈ rows.states := by
    rw [hstates]
    exact fun state hmem => (besides_sublist rows).subset hmem
  cases hstate : rows.updatedState with
  | unchecked =>
    rw [updatedState_eq_unchecked] at hstate ⊢
    exact fun state hmem => hstate state (hsub state hmem)
  | checked =>
    rw [updatedState_eq_checked] at hstate ⊢
    exact ⟨hne, fun state hmem => hstate.2 state (hsub state hmem)⟩
  | partiallyChecked =>
    rw [updatedState_eq_partiallyChecked, hstates]
    exact h hstate

theorem Settled.removeSignal (h : rows.Settled) (hremove : rows.removeSignal key = some rows')
    (hfound : ∀ found ∈ rows.innermost key, StaysPartial found) : rows'.Settled := by
  refine removeSignal_induction (P := fun rows rows' => rows.Settled →
    (∀ found ∈ rows.innermost key, StaysPartial found) → rows'.Settled)
    ?here ?belowSignal ?pruned ?inside ?belowGroup hremove h hfound
  case here =>
    intro state rest h _
    exact h.2
  case belowSignal =>
    intro key' state rest rest' hne _ ih h hfound
    rw [innermost, if_neg hne] at hfound
    exact ⟨h.1, ih h.2 hfound⟩
  case pruned =>
    intro name state children rest _ _ h _
    exact h.2
  case inside =>
    intro name state children children' rest hchildren hne ih h hfound
    obtain ⟨⟨-, hstate, hsettled⟩, hrest⟩ := h
    rw [innermost, if_pos (isSome_findLeaf_of_removeSignal hchildren)] at hfound
    refine ⟨⟨hne, ?_, ih hsettled fun found hmem => hfound found ?_⟩, hrest⟩
    · rcases states_removeSignal hchildren with ⟨hnone, hstates⟩ | ⟨-, hstates⟩
      · -- this group is the innermost one
        have hbesides : children.besides key ≠ [] := hstates ▸ mt states_eq_nil.mp hne
        rw [hnone, if_neg hbesides, Option.none_or, hstate] at hfound
        exact hstate.trans (updatedState_of_besides hne hstates (hfound _ rfl)).symm
      · exact hstate.trans (updatedState_congr fun _ => by rw [hstates])
    · rw [Option.mem_def.mp hmem]
      rfl
  case belowGroup =>
    intro name state children rest rest' hnone _ ih h hfound
    rw [innermost, if_neg (isSome_findLeaf_of_removeSignal_none hnone)] at hfound
    exact ⟨h.1, ih h.2 hfound⟩

end Removal

/-! ### The walks that work out every group on their way -/

theorem Settled.applyHidden (hiddenKeys : Finset ByteString) (h : rows.Settled) :
    (rows.applyHidden hiddenKeys).Settled := by
  induction rows with
  | nil => exact trivial
  | signal key state rest ih => exact ⟨h.1, ih h.2⟩
  | group name state children rest ihchildren ih =>
    refine ⟨⟨?_, rfl, ihchildren h.1.2.2⟩, ih h.2⟩
    cases children with
    | nil => exact h.1.1
    | signal key state rest => rintro ⟨⟩
    | group name state children rest => rintro ⟨⟩

theorem setLeaf_ne_nil (key : ByteString) (new : CheckState) (hne : rows ≠ nil) :
    rows.setLeaf key new ≠ nil := by
  cases rows with
  | nil => exact hne
  | signal key' state rest =>
    rw [setLeaf]
    split <;> rintro ⟨⟩
  | group name state children rest =>
    rw [setLeaf]
    split <;> rintro ⟨⟩

theorem Settled.setLeaf (key : ByteString) (new : CheckState) (h : rows.Settled) :
    (rows.setLeaf key new).Settled := by
  induction rows with
  | nil => exact trivial
  | signal key' state rest ih =>
    rw [Rows.setLeaf]
    split
    · exact h
    · exact ⟨h.1, ih h.2⟩
  | group name state children rest ihchildren ih =>
    rw [Rows.setLeaf]
    split
    · exact ⟨⟨setLeaf_ne_nil key new h.1.1, rfl, ihchildren h.1.2.2⟩, h.2⟩
    · exact ⟨h.1, ih h.2⟩

theorem states_push {new state : CheckState}
    (h : state ∈ (rows.pushCheckStateToDescendants new).states) : state = new := by
  induction rows with
  | nil => simp [pushCheckStateToDescendants, states] at h
  | signal key' state' rest ih => exact (List.mem_cons.mp h).elim id ih
  | group name state' children rest _ ih => exact (List.mem_cons.mp h).elim id ih

theorem push_ne_nil (new : CheckState) (hne : rows ≠ nil) :
    rows.pushCheckStateToDescendants new ≠ nil := by
  cases rows with
  | nil => exact hne
  | signal key state rest => rintro ⟨⟩
  | group name state children rest => rintro ⟨⟩

theorem updatedState_push {new : CheckState} (hnew : new ≠ .partiallyChecked) (hne : rows ≠ nil) :
    (rows.pushCheckStateToDescendants new).updatedState = new :=
  updatedState_of_forall (push_ne_nil new hne) hnew fun _ => states_push

theorem Settled.push {new : CheckState} (hnew : new ≠ .partiallyChecked) (h : rows.Settled) :
    (rows.pushCheckStateToDescendants new).Settled := by
  induction rows with
  | nil => exact trivial
  | signal key state rest ih => exact ⟨h.1, ih h.2⟩
  | group name state children rest ihchildren ih =>
    exact ⟨⟨push_ne_nil new h.1.1, (updatedState_push hnew h.1.1).symm, ihchildren h.1.2.2⟩,
      ih h.2⟩

theorem toggled_ne_partiallyChecked (state : CheckState) : state.toggled ≠ .partiallyChecked := by
  cases state <;> decide

theorem toggleAt_ne_nil {place : List ℕ} (h : rows.toggleAt place = some rows') : rows' ≠ nil := by
  rintro rfl
  fun_cases rows.toggleAt place <;> simp_all [toggleAt]

/-- A click on a leaf or on a group, whose rows get its state. -/
theorem Settled.toggleAt {place : List ℕ} (h : rows.Settled)
    (hplace : rows.toggleAt place = some rows') : rows'.Settled := by
  induction rows generalizing place rows' with
  | nil => cases hplace
  | signal key state rest ih =>
    rcases place with _ | ⟨_ | row, place⟩
    · cases hplace
    · rw [Rows.toggleAt] at hplace
      split at hplace
      · obtain rfl := Option.some.inj hplace
        exact h
      · cases hplace
    · obtain ⟨rest', hrest, rfl⟩ := Option.map_eq_some_iff.mp hplace
      exact ⟨h.1, ih h.2 hrest⟩
  | group name state children rest ihchildren ih =>
    rcases place with _ | ⟨_ | row, place⟩
    · cases hplace
    · rw [Rows.toggleAt] at hplace
      split at hplace
      · obtain rfl := Option.some.inj hplace
        have hnew := toggled_ne_partiallyChecked state
        exact ⟨⟨push_ne_nil _ h.1.1, (updatedState_push hnew h.1.1).symm, h.1.2.2.push hnew⟩, h.2⟩
      · obtain ⟨children', hchildren, rfl⟩ := Option.map_eq_some_iff.mp hplace
        exact ⟨⟨toggleAt_ne_nil hchildren, rfl, ihchildren h.1.2.2 hchildren⟩, h.2⟩
    · obtain ⟨rest', hrest, rfl⟩ := Option.map_eq_some_iff.mp hplace
      exact ⟨h.1, ih h.2 hrest⟩

/-! ### The groups in any order -/

/-- The rows are settled but for the groups at these places, which wait to be worked out. -/
def SettledExcept (pending : List ℕ → Prop) : Rows → Prop
  | nil => True
  | signal key _ rest => key ≠ [] ∧ rest.SettledExcept fun place => pending (nextRow place)
  | group _ state children rest =>
    (children ≠ nil ∧ (state = children.updatedState ∨ pending [0]) ∧
      children.SettledExcept fun place => pending (0 :: place)) ∧
      rest.SettledExcept fun place => pending (nextRow place)

theorem SettledExcept.mono {pending pending' : List ℕ → Prop} (h : rows.SettledExcept pending)
    (himp : ∀ place ≠ [], pending place → pending' place) : rows.SettledExcept pending' := by
  induction rows generalizing pending pending' with
  | nil => exact trivial
  | signal key state rest ih =>
    refine ⟨h.1, ih h.2 fun place hne => himp (nextRow place) ?_⟩
    cases place with
    | nil => exact absurd rfl hne
    | cons row place => exact List.cons_ne_nil _ _
  | group name state children rest ihchildren ih =>
    refine ⟨⟨h.1.1, h.1.2.1.imp_right (himp _ (List.cons_ne_nil _ _)),
      ihchildren h.1.2.2 fun place _ => himp (0 :: place) (List.cons_ne_nil _ _)⟩,
      ih h.2 fun place hne => himp (nextRow place) ?_⟩
    cases place with
    | nil => exact absurd rfl hne
    | cons row place => exact List.cons_ne_nil _ _

theorem Settled.settledExcept (h : rows.Settled) (pending : List ℕ → Prop) :
    rows.SettledExcept pending := by
  induction rows generalizing pending with
  | nil => exact trivial
  | signal key state rest ih => exact ⟨h.1, ih h.2 _⟩
  | group name state children rest ihchildren ih =>
    exact ⟨⟨h.1.1, .inl h.1.2.1, ihchildren h.1.2.2 _⟩, ih h.2 _⟩

theorem SettledExcept.settled {pending : List ℕ → Prop} (h : rows.SettledExcept pending)
    (hnone : ∀ place, ¬pending place) : rows.Settled := by
  induction rows generalizing pending with
  | nil => exact trivial
  | signal key state rest ih => exact ⟨h.1, ih h.2 fun place => hnone _⟩
  | group name state children rest ihchildren ih =>
    exact ⟨⟨h.1.1, h.1.2.1.resolve_right (hnone _), ihchildren h.1.2.2 fun place => hnone _⟩,
      ih h.2 fun place => hnone _⟩

theorem uncheckLeaves_ne_nil (keys : Finset ByteString) (hne : rows ≠ nil) :
    rows.uncheckLeaves keys ≠ nil := by
  cases rows with
  | nil => exact hne
  | signal key state rest => rintro ⟨⟩
  | group name state children rest => rintro ⟨⟩

theorem uncheckLeaves_of_not_unchecks {keys : Finset ByteString}
    (h : rows.unchecks keys = false) : rows.uncheckLeaves keys = rows := by
  induction rows with
  | nil => rfl
  | signal key state rest ih =>
    simp only [unchecks, signals, List.any_cons, Bool.or_eq_false_iff, decide_eq_false_iff_not,
      not_and, not_not] at h
    rw [uncheckLeaves, ih h.2]
    split
    · next hmem => rw [h.1 hmem]
    · rfl
  | group name state children rest ihchildren ih =>
    simp only [unchecks, signals, List.any_append, Bool.or_eq_false_iff] at h
    rw [uncheckLeaves, ihchildren h.1, ih h.2]

/-- Once the leaves are unchecked, the groups over them wait. -/
theorem Settled.uncheckLeaves (keys : Finset ByteString) (h : rows.Settled) :
    (rows.uncheckLeaves keys).SettledExcept (· ∈ rows.affectedGroups keys) := by
  induction rows with
  | nil => exact trivial
  | signal key state rest ih =>
    exact ⟨h.1, (ih h.2).mono fun place _ hmem => List.mem_map_of_mem hmem⟩
  | group name state children rest ihchildren ih =>
    refine ⟨⟨uncheckLeaves_ne_nil keys h.1.1, ?_⟩,
      (ih h.2).mono fun place _ hmem =>
        List.mem_append_right _ (List.mem_map_of_mem hmem)⟩
    by_cases hchildren : children.unchecks keys
    · refine ⟨.inr ?_, (ihchildren h.1.2.2).mono fun place _ hmem => ?_⟩
      · simp [affectedGroups, hchildren]
      · simp [affectedGroups, hchildren, hmem]
    · have hsame := uncheckLeaves_of_not_unchecks (Bool.eq_false_iff.mpr hchildren)
      rw [hsame]
      exact ⟨.inl h.1.2.1, h.1.2.2.settledExcept _⟩

theorem dropLast_nextRow (place : List ℕ) : (nextRow place).dropLast = nextRow place.dropLast := by
  rcases place with _ | ⟨row, _ | ⟨row', place⟩⟩ <;> rfl

/-- Over an affected group, every group is affected. -/
theorem dropLast_mem_affectedGroups {keys : Finset ByteString} {place : List ℕ}
    (h : place ∈ rows.affectedGroups keys) :
    place.dropLast = [] ∨ place.dropLast ∈ rows.affectedGroups keys := by
  induction rows generalizing place with
  | nil => simp [affectedGroups] at h
  | signal key state rest ih =>
    obtain ⟨inner, hinner, rfl⟩ := List.mem_map.mp h
    rw [dropLast_nextRow]
    exact (ih hinner).imp (fun hnil => by rw [hnil]; rfl) List.mem_map_of_mem
  | group name state children rest ihchildren ih =>
    rcases List.mem_append.mp h with h | h
    · split at h
      · next hchildren =>
        rcases List.mem_cons.mp h with rfl | h
        · exact .inl rfl
        obtain ⟨inner, hinner, rfl⟩ := List.mem_map.mp h
        cases inner with
        | nil => exact .inl rfl
        | cons row inner =>
          -- the group over it is this one or one inside
          right
          rw [List.dropLast_cons_of_ne_nil (List.cons_ne_nil _ _), affectedGroups, if_pos hchildren]
          refine List.mem_append_left _ ?_
          rcases ihchildren hinner with hnil | hmem
          · rw [hnil]
            exact List.mem_cons_self
          · exact List.mem_cons_of_mem _ (List.mem_map_of_mem hmem)
      · cases h
    · obtain ⟨inner, hinner, rfl⟩ := List.mem_map.mp h
      rw [dropLast_nextRow]
      exact (ih hinner).imp (fun hnil => by rw [hnil]; rfl)
        fun hmem => List.mem_append_right _ (List.mem_map_of_mem hmem)

theorem updateGroup_ne_nil (place : List ℕ) (hne : rows ≠ nil) : rows.updateGroup place ≠ nil := by
  fun_cases rows.updateGroup place <;> simp_all

/-- Only a group that stands directly under the item changes the states of its rows. -/
theorem states_updateGroup {place : List ℕ} (h : place.dropLast ≠ []) :
    (rows.updateGroup place).states = rows.states := by
  induction rows generalizing place with
  | nil => cases place <;> rfl
  | signal key state rest ih =>
    rcases place with _ | ⟨_ | row, _ | ⟨row', place⟩⟩
    · rfl
    · rfl
    · rfl
    · exact absurd rfl h
    · exact congrArg (state :: ·) (ih (List.cons_ne_nil _ _))
  | group name state children rest _ ih =>
    rcases place with _ | ⟨_ | row, _ | ⟨row', place⟩⟩
    · rfl
    · exact absurd rfl h
    · rfl
    · exact absurd rfl h
    · exact congrArg (state :: ·) (ih (List.cons_ne_nil _ _))

theorem nextRow_ne_cons_zero (place place' : List ℕ) : nextRow place ≠ 0 :: place' := by
  cases place with
  | nil => rintro ⟨⟩
  | cons row place => simp [nextRow]

theorem nextRow_injective : Function.Injective nextRow := by
  rintro (_ | ⟨row, place⟩) (_ | ⟨row', place'⟩) h
  · rfl
  · cases h
  · cases h
  · simpa [nextRow] using h

/-- What waits once this group is worked out: it no longer, the one over it perhaps. -/
def Awaits (pending : List ℕ → Prop) (place : List ℕ) : List ℕ → Prop :=
  fun place' => pending place' ∧ place' ≠ place ∨ place' = place.dropLast

/-- In the rows that come after, the same group has another row number. -/
theorem Awaits.nextRow {pending : List ℕ → Prop} {place place' : List ℕ}
    (h : Awaits (fun place => pending (Rows.nextRow place)) place place') :
    Awaits pending (Rows.nextRow place) (Rows.nextRow place') := by
  rcases h with ⟨h, hne⟩ | rfl
  · exact .inl ⟨h, nextRow_injective.ne hne⟩
  · exact .inr (dropLast_nextRow place).symm

theorem SettledExcept.updateGroup {pending : List ℕ → Prop} (h : rows.SettledExcept pending)
    (place : List ℕ) : (rows.updateGroup place).SettledExcept (Awaits pending place) := by
  induction rows generalizing place pending with
  | nil => cases place <;> exact trivial
  | signal key state rest ih =>
    rcases place with _ | ⟨_ | row, place⟩
    · exact h.mono fun place' hne hwait => .inl ⟨hwait, hne⟩
    · exact ⟨h.1, h.2.mono fun place' _ hwait => .inl ⟨hwait, nextRow_ne_cons_zero _ _⟩⟩
    · exact ⟨h.1, (ih h.2 (row :: place)).mono fun place' _ hwait => hwait.nextRow⟩
  | group name state children rest ihchildren ih =>
    have hrows := h
    obtain ⟨⟨hne, hstate, hchildren⟩, hrest⟩ := h
    rcases place with _ | ⟨_ | row, place⟩
    · exact hrows.mono fun place' hne hwait => .inl ⟨hwait, hne⟩
    · have hrest' : rest.SettledExcept fun place' =>
          Awaits pending (0 :: place) (Rows.nextRow place') :=
        hrest.mono fun place' _ hwait => .inl ⟨hwait, nextRow_ne_cons_zero _ _⟩
      rw [Rows.updateGroup]
      split
      · next hnil =>
        subst hnil
        refine ⟨⟨hne, .inl rfl, hchildren.mono fun place' hne' hwait => .inl ⟨hwait, ?_⟩⟩, hrest'⟩
        simpa using hne'
      · next hplace =>
        refine ⟨⟨updateGroup_ne_nil place hne, ?_, (ihchildren hchildren place).mono ?_⟩, hrest'⟩
        · by_cases hlast : place.dropLast = []
          · -- the group that is worked out stands directly under this one
            right
            right
            rw [List.dropLast_cons_of_ne_nil hplace, hlast]
          · refine hstate.imp (fun hstate => ?_) fun hwait => .inl ⟨hwait, ?_⟩
            · exact hstate.trans (updatedState_congr fun _ => by rw [states_updateGroup hlast])
            · simpa using Ne.symm hplace
        · rintro place' - (⟨hwait, hne'⟩ | rfl)
          · exact .inl ⟨hwait, by simpa using hne'⟩
          · exact .inr (List.dropLast_cons_of_ne_nil hplace).symm
    · refine ⟨⟨hne, hstate.imp_right fun hwait => .inl ⟨hwait, by simp⟩,
        hchildren.mono fun place' _ hwait => .inl ⟨hwait, by simp⟩⟩, ?_⟩
      exact (ih hrest (row :: place)).mono fun place' _ hwait => hwait.nextRow

/-- No group is worked out before one that is inside it. -/
def InsideOut (order : List (List ℕ)) : Prop :=
  order.Pairwise fun place later => ¬place <+: later

instance (order : List (List ℕ)) : Decidable (InsideOut order) :=
  inferInstanceAs (Decidable (order.Pairwise _))

/-- With every group that waits, those over it are still to come. -/
theorem SettledExcept.foldl_updateGroup {order : List (List ℕ)}
    (h : rows.SettledExcept (· ∈ order)) (horder : InsideOut order)
    (hover : ∀ place ∈ order, place.dropLast = [] ∨ place.dropLast ∈ order) :
    (order.foldl Rows.updateGroup rows).Settled := by
  induction order generalizing rows with
  | nil => exact h.settled fun place => List.not_mem_nil
  | cons place order ih =>
    rw [InsideOut, List.pairwise_cons] at horder
    refine ih ((h.updateGroup place).mono ?_) horder.2 ?_
    · rintro place' hne (⟨hmem, hne'⟩ | rfl)
      · exact (List.mem_cons.mp hmem).resolve_left hne'
      · have hmem := (hover place List.mem_cons_self).resolve_left hne
        refine (List.mem_cons.mp hmem).resolve_left fun heq => ?_
        have hlength := congrArg List.length heq
        have hplace : place ≠ [] := by
          rintro rfl
          exact hne rfl
        have := List.length_pos_iff.mpr hplace
        rw [List.length_dropLast] at hlength
        omega
    · intro later hmem
      refine (hover later (List.mem_cons_of_mem _ hmem)).imp_right fun hmem' => ?_
      refine (List.mem_cons.mp hmem').resolve_left fun heq => ?_
      exact horder.1 later hmem (heq ▸ List.dropLast_prefix later)

end Rows

end SmartDashboard.App.RunBrowser
