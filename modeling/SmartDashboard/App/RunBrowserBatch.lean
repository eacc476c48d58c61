import SmartDashboard.App.RunBrowserGroupOrder

/-!
# Keys that are unchecked together or one after the other

`UncheckSignalsByKeys` unchecks every leaf of its keys, `UncheckSignalByKey` the first leaf of its
key with the groups over it from the inside out. All boxes come out the same just if no key has a
second leaf that is not yet unchecked and no group is worked out so early that it shows.

## Main definitions

- `Rows.boxes`, `itemBoxes`: the states of the leaves of one key
- `OnlyFirst`: all of them but the first are unchecked
- `Dock.uncheckEach`: `UncheckSignalByKey` for one key after the other
-/

namespace SmartDashboard.App.RunBrowser

open Direct (ByteString)
open Execution

namespace Rows

variable {rows children rest : Rows} {keys : Finset ByteString}
variable {name : ByteString} {state : CheckState}

/-! ### The boxes of one key -/

/-- The states of the leaves of the key. -/
def boxes (key : ByteString) (rows : Rows) : List CheckState :=
  (rows.signals.filter fun leaf => leaf.1 = key).map Prod.snd

@[simp]
theorem boxes_nil (key : ByteString) : nil.boxes key = [] := rfl

theorem boxes_signal (key key' : ByteString) :
    (signal key' state rest).boxes key =
      if key' = key then state :: rest.boxes key else rest.boxes key := by
  simp only [boxes, signals, List.filter_cons, decide_eq_true_eq]
  split <;> rfl

@[simp]
theorem boxes_group (key : ByteString) :
    (group name state children rest).boxes key = children.boxes key ++ rest.boxes key := by
  simp [boxes, signals]

theorem findLeaf_eq_head? (key : ByteString) : rows.findLeaf key = (rows.boxes key).head? := by
  induction rows with
  | nil => rfl
  | signal key' state rest ih =>
    rw [findLeaf, boxes_signal]
    split
    · rfl
    · exact ih
  | group name state children rest ihchildren ih =>
    rw [findLeaf, boxes_group, List.head?_append, ihchildren, ih]

theorem isSome_findLeaf (key : ByteString) :
    (rows.findLeaf key).isSome ↔ rows.boxes key ≠ [] := by
  rw [findLeaf_eq_head?, List.isSome_head?]

theorem unchecks_singleton (key : ByteString) :
    rows.unchecks {key} ↔ ∃ state ∈ rows.boxes key, state ≠ .unchecked := by
  simp [unchecks, boxes]

theorem boxes_uncheckLeaves (key : ByteString) :
    (rows.uncheckLeaves keys).boxes key =
      (rows.boxes key).map fun state => if key ∈ keys then .unchecked else state := by
  induction rows with
  | nil => rfl
  | signal key' state rest ih =>
    rw [uncheckLeaves, boxes_signal, boxes_signal, ih]
    split
    · next heq => rw [List.map_cons, heq]
    · rfl
  | group name state children rest ihchildren ih =>
    rw [uncheckLeaves, boxes_group, boxes_group, ihchildren, ih, List.map_append]

theorem boxes_uncheck (key : ByteString) :
    (rows.uncheck keys).boxes key = (rows.uncheckLeaves keys).boxes key := by
  induction rows with
  | nil => rfl
  | signal key' state rest ih => rw [uncheck, uncheckLeaves, boxes_signal, boxes_signal, ih]
  | group name state children rest ihchildren ih =>
    rw [uncheck, uncheckLeaves, boxes_group, boxes_group, ihchildren, ih]

theorem boxes_updateGroup (key : ByteString) (place : List ℕ) :
    (rows.updateGroup place).boxes key = rows.boxes key := by
  induction rows generalizing place with
  | nil => cases place <;> rfl
  | signal key' state rest ih =>
    rcases place with _ | ⟨_ | row, place⟩
    · rfl
    · rfl
    · rw [updateGroup, boxes_signal, boxes_signal, ih]
  | group name state children rest ihchildren ih =>
    rcases place with _ | ⟨_ | row, place⟩
    · rfl
    · rw [updateGroup]
      split
      · rw [boxes_group, boxes_group]
      · rw [boxes_group, boxes_group, ihchildren]
    · rw [updateGroup, boxes_group, boxes_group, ih]

theorem boxes_foldl_updateGroup (key : ByteString) (order : List (List ℕ)) :
    (order.foldl updateGroup rows).boxes key = rows.boxes key := by
  induction order generalizing rows with
  | nil => rfl
  | cons place order ih => rw [List.foldl_cons, ih, boxes_updateGroup]

/-- Only the first of the boxes of the key changes. -/
theorem boxes_setLeaf (key key' : ByteString) (new : CheckState) :
    (rows.setLeaf key new).boxes key' =
      if key' = key then (rows.boxes key').set 0 new else rows.boxes key' := by
  induction rows with
  | nil => simp [setLeaf]
  | signal key'' state rest ih =>
    rw [setLeaf]
    by_cases hkey : key'' = key
    · subst hkey
      rw [if_pos rfl, boxes_signal, boxes_signal]
      by_cases hsame : key'' = key'
      · simp [hsame]
      · simp [hsame, Ne.symm hsame]
    · rw [if_neg hkey, boxes_signal, boxes_signal, ih]
      by_cases hsame : key'' = key'
      · subst hsame
        simp [hkey]
      · simp [hsame]
  | group name state children rest ihchildren ih =>
    rw [setLeaf]
    by_cases hnone : children.boxes key = []
    · have hfind : ¬(children.findLeaf key).isSome := by simp [isSome_findLeaf, hnone]
      rw [if_neg hfind, boxes_group, boxes_group, ih]
      split
      · next hsame => rw [hsame, hnone, List.nil_append, List.nil_append]
      · rfl
    · have hfind := (isSome_findLeaf key).mpr hnone
      have hpos : 0 < (children.boxes key).length := List.length_pos_iff.mpr hnone
      rw [if_pos hfind, boxes_group, boxes_group, ihchildren]
      split
      · next hsame => rw [hsame, List.set_append_left _ _ hpos]
      · rfl

/-! ### Rows that are unchecked once and again -/

theorem uncheck_of_not_unchecks (h : rows.unchecks keys = false) : rows.uncheck keys = rows := by
  induction rows with
  | nil => rfl
  | signal key state rest ih =>
    rw [Bool.eq_false_iff, Ne, unchecks_signal, not_or, not_and, not_not] at h
    rw [uncheck, ih (Bool.eq_false_iff.mpr h.2)]
    split
    · next hmem => rw [h.1 hmem]
    · rfl
  | group name state children rest ihchildren ih =>
    rw [Bool.eq_false_iff, Ne, unchecks_group, not_or] at h
    rw [uncheck, ihchildren (Bool.eq_false_iff.mpr h.1), ih (Bool.eq_false_iff.mpr h.2), groupState,
      if_neg h.1]

theorem unchecks_uncheck {keys' : Finset ByteString} :
    rows.unchecks (keys ∪ keys') ↔
      rows.unchecks keys = true ∨ (rows.uncheck keys).unchecks keys' = true := by
  induction rows with
  | nil => simp [unchecks, uncheck, signals]
  | signal key state rest ih =>
    rw [uncheck, unchecks_signal, unchecks_signal, unchecks_signal, ih, Finset.mem_union]
    by_cases hkey : key ∈ keys
    · rw [if_pos hkey]
      tauto
    · rw [if_neg hkey]
      tauto
  | group name state children rest ihchildren ih =>
    rw [uncheck, unchecks_group, unchecks_group, unchecks_group, ihchildren, ih]
    tauto

theorem groupState_groupState {keys' : Finset ByteString}
    (hsame : (children.uncheck keys).uncheck keys' = children.uncheck (keys ∪ keys')) :
    groupState ((children.uncheck keys).unchecks keys')
        (groupState (children.unchecks keys) state (children.uncheck keys))
        ((children.uncheck keys).uncheck keys') =
      groupState (children.unchecks (keys ∪ keys')) state (children.uncheck (keys ∪ keys')) := by
  simp only [groupState]
  by_cases hlater : (children.uncheck keys).unchecks keys'
  · rw [if_pos hlater, if_pos (unchecks_uncheck.mpr (.inr hlater)), hsame]
  · -- the second time nothing changes
    rw [if_neg hlater, ← hsame, uncheck_of_not_unchecks (Bool.eq_false_iff.mpr hlater)]
    by_cases hfirst : children.unchecks keys
    · rw [if_pos hfirst, if_pos (unchecks_uncheck.mpr (.inl hfirst))]
    · rw [if_neg hfirst, if_neg fun hboth => (unchecks_uncheck.mp hboth).elim hfirst hlater]

theorem uncheck_uncheck (rows : Rows) (keys keys' : Finset ByteString) :
    (rows.uncheck keys).uncheck keys' = rows.uncheck (keys ∪ keys') := by
  induction rows with
  | nil => rfl
  | signal key state rest ih =>
    simp only [uncheck, ih, Finset.mem_union]
    congr 1
    by_cases hkey : key ∈ keys
    · simp [hkey]
    · simp [hkey]
  | group name state children rest ihchildren ih =>
    rw [uncheck, uncheck, uncheck, groupState_groupState ihchildren, ihchildren, ih]

theorem RolledUp.uncheck (h : rows.RolledUp) (keys : Finset ByteString) :
    (rows.uncheck keys).RolledUp := by
  induction rows with
  | nil => exact trivial
  | signal key state rest ih => exact ih h
  | group name state children rest ihchildren ih =>
    refine ⟨fun hne => ?_, ihchildren h.2.1, ih h.2.2⟩
    by_cases hchildren : children.unchecks keys
    · rw [groupState, if_pos hchildren]
    · rw [groupState, if_neg hchildren]
      rw [uncheck_of_not_unchecks (Bool.eq_false_iff.mpr hchildren)] at hne ⊢
      exact h.1 hne

end Rows

/-! ### One key -/

/-- Every box but the first is unchecked. -/
def OnlyFirst (states : List CheckState) : Prop := ∀ state ∈ states.tail, state = .unchecked

instance (states : List CheckState) : Decidable (OnlyFirst states) :=
  inferInstanceAs (Decidable (∀ state ∈ _, _))

section OnlyFirst

variable {states states' : List CheckState}

theorem OnlyFirst.of_append_left (h : OnlyFirst (states ++ states')) : OnlyFirst states := by
  cases states with
  | nil => exact List.forall_mem_nil _
  | cons state states => exact fun state' hmem => h state' (List.mem_append_left _ hmem)

theorem OnlyFirst.of_append_right (h : OnlyFirst (states ++ states')) (hne : states ≠ []) :
    ∀ state ∈ states', state = .unchecked := by
  cases states with
  | nil => exact absurd rfl hne
  | cons state states => exact fun state' hmem => h state' (List.mem_append_right _ hmem)

theorem OnlyFirst.forall_unchecked (h : OnlyFirst states)
    (hhead : ∀ state ∈ states.head?, state = .unchecked) :
    ∀ state ∈ states, state = .unchecked := by
  cases states with
  | nil => exact List.forall_mem_nil _
  | cons state states => exact List.forall_mem_cons.mpr ⟨hhead state rfl, h⟩

theorem OnlyFirst.map_uncheck (h : OnlyFirst states) (p : Prop) [Decidable p] :
    OnlyFirst (states.map fun state => if p then .unchecked else state) := by
  intro state hmem
  rw [← List.map_tail] at hmem
  obtain ⟨state', hmem', rfl⟩ := List.mem_map.mp hmem
  split
  · rfl
  · exact h state' hmem'

end OnlyFirst

namespace Rows

variable {rows : Rows} {key : ByteString}

theorem not_unchecks_singleton (h : ∀ state ∈ rows.boxes key, state = .unchecked) :
    rows.unchecks {key} = false := by
  rw [Bool.eq_false_iff, Ne, unchecks_singleton]
  push Not
  exact h

/-- If there is no second leaf to uncheck, the walk of the batch does the same. -/
theorem RolledUp.setLeaf_unchecked (h : rows.RolledUp) (honly : OnlyFirst (rows.boxes key)) :
    rows.setLeaf key .unchecked = rows.uncheck {key} := by
  induction rows with
  | nil => rfl
  | signal key' state rest ih =>
    rw [boxes_signal] at honly
    rw [setLeaf, Rows.uncheck]
    by_cases hkey : key' = key
    · rw [if_pos hkey] at honly
      rw [if_pos hkey, if_pos (Finset.mem_singleton.mpr hkey),
        uncheck_of_not_unchecks (not_unchecks_singleton honly)]
    · rw [if_neg hkey] at honly
      rw [if_neg hkey, if_neg (by simpa using hkey), ih h honly]
  | group name state children rest ihchildren ih =>
    rw [boxes_group] at honly
    rw [setLeaf, Rows.uncheck]
    by_cases hnone : children.boxes key = []
    · have hfind : ¬(children.findLeaf key).isSome := by simp [isSome_findLeaf, hnone]
      have hsame : children.unchecks {key} = false := not_unchecks_singleton (by simp [hnone])
      rw [hnone, List.nil_append] at honly
      rw [if_neg hfind, uncheck_of_not_unchecks hsame, hsame, ih h.2.2 honly]
      rfl
    · have hfind := (isSome_findLeaf key).mpr hnone
      have hrest := not_unchecks_singleton (honly.of_append_right hnone)
      rw [if_pos hfind, uncheck_of_not_unchecks hrest, ihchildren h.2.1 honly.of_append_left]
      congr 1
      by_cases hunchecks : children.unchecks {key}
      · rw [groupState, if_pos hunchecks]
      · -- the leaf is unchecked already, and the group is as its rows roll up
        have hne : children ≠ nil := by
          rintro rfl
          exact hnone rfl
        rw [groupState, if_neg hunchecks, h.1 hne,
          uncheck_of_not_unchecks (Bool.eq_false_iff.mpr hunchecks)]

end Rows

namespace RunItem

variable {item : RunItem} {keys : Finset ByteString} {key : ByteString}

theorem uncheck_of_not_unchecks (h : item.rows.unchecks keys = false) : item.uncheck keys = item :=
  if_neg (Bool.eq_false_iff.mp h)

theorem rows_uncheck (item : RunItem) (keys : Finset ByteString) :
    (item.uncheck keys).rows = item.rows.uncheck keys := by
  rw [uncheck]
  split
  · rfl
  · next h => rw [Rows.uncheck_of_not_unchecks (Bool.eq_false_iff.mpr h)]

theorem RolledUp.uncheck (h : item.RolledUp) (keys : Finset ByteString) :
    (item.uncheck keys).RolledUp := by
  rw [RunItem.uncheck]
  split
  · exact ⟨fun _ => rfl, h.2.uncheck keys⟩
  · exact h

theorem uncheck_uncheck (item : RunItem) (keys keys' : Finset ByteString) :
    (item.uncheck keys).uncheck keys' = item.uncheck (keys ∪ keys') := by
  by_cases hlater : (item.rows.uncheck keys).unchecks keys'
  · have hboth : item.rows.unchecks (keys ∪ keys') := Rows.unchecks_uncheck.mpr (.inr hlater)
    rw [uncheck, rows_uncheck, if_pos hlater, Rows.uncheck_uncheck, uncheck, if_pos hboth]
  · rw [uncheck_of_not_unchecks (by rw [rows_uncheck]; exact Bool.eq_false_iff.mpr hlater)]
    by_cases hfirst : item.rows.unchecks keys
    · have hboth : item.rows.unchecks (keys ∪ keys') := Rows.unchecks_uncheck.mpr (.inl hfirst)
      rw [uncheck, if_pos hfirst, uncheck, if_pos hboth, ← Rows.uncheck_uncheck,
        Rows.uncheck_of_not_unchecks (Bool.eq_false_iff.mpr hlater)]
    · have hboth : ¬item.rows.unchecks (keys ∪ keys') :=
        fun h => (Rows.unchecks_uncheck.mp h).elim hfirst hlater
      rw [uncheck, if_neg hfirst, uncheck, if_neg hboth]

/-- The item comes out as from the inside out just if none of its groups is too early. -/
theorem RolledUp.uncheckInOrder_iff (h : item.RolledUp) {order : List (List ℕ)}
    (hperm : order.Perm (item.rows.affectedGroups keys)) :
    item.uncheckInOrder keys order = item.uncheck keys ↔ item.rows.Timely keys order := by
  rw [← h.2.foldl_updateGroup_iff hperm, RunItem.uncheckInOrder, RunItem.uncheck]
  split
  · refine ⟨fun heq => (RunItem.mk.inj heq).2, congrArg _⟩
  · next hnot =>
    rw [Bool.not_eq_true] at hnot
    rw [Rows.affectedGroups_of_not_unchecks hnot] at hperm
    obtain rfl := hperm.eq_nil
    refine iff_of_true rfl ?_
    rw [List.foldl_nil, Rows.uncheck_of_not_unchecks hnot, Rows.uncheckLeaves_of_not_unchecks hnot]

theorem boxes_uncheckInOrder (order : List (List ℕ)) :
    (item.uncheckInOrder keys order).rows.boxes key = (item.rows.uncheckLeaves keys).boxes key := by
  rw [uncheckInOrder]
  split
  · exact Rows.boxes_foldl_updateGroup key order
  · next hnot =>
    rw [Bool.not_eq_true] at hnot
    rw [Rows.uncheckLeaves_of_not_unchecks hnot]

/-- The first of the items that has a leaf of the key, with this leaf unchecked. -/
def uncheckFirst (key : ByteString) : List RunItem → List RunItem
  | [] => []
  | item :: items =>
    if (item.rows.findLeaf key).isSome then .updated (item.rows.setLeaf key .unchecked) :: items
    else item :: uncheckFirst key items

theorem modify_findIdx (items : List RunItem) (key : ByteString) :
    items.modify (items.findIdx fun item => (item.rows.findLeaf key).isSome)
        (fun item => .updated (item.rows.setLeaf key .unchecked)) =
      uncheckFirst key items := by
  induction items with
  | nil => rfl
  | cons item items ih =>
    rw [List.findIdx_cons, uncheckFirst]
    cases (item.rows.findLeaf key).isSome with
    | true => rfl
    | false => exact congrArg (item :: ·) ih

end RunItem

/-! ### The items of the dock -/

/-- The states of the leaves of the key under all items. -/
def itemBoxes (key : ByteString) (items : List RunItem) : List CheckState :=
  items.flatMap fun item => item.rows.boxes key

theorem itemBoxes_cons (key : ByteString) (item : RunItem) (items : List RunItem) :
    itemBoxes key (item :: items) = item.rows.boxes key ++ itemBoxes key items :=
  List.flatMap_cons

namespace RunItem

variable {items : List RunItem} {keys : Finset ByteString} {key : ByteString}

theorem map_uncheck_of_unchecked (h : ∀ state ∈ itemBoxes key items, state = .unchecked) :
    items.map (RunItem.uncheck {key}) = items := by
  refine (List.map_congr_left fun item hmem => ?_).trans (List.map_id items)
  refine uncheck_of_not_unchecks (Rows.not_unchecks_singleton fun state hstate => ?_)
  exact h state (List.mem_flatMap.mpr ⟨item, hmem, hstate⟩)

theorem itemBoxes_map_uncheck (items : List RunItem) (key : ByteString) :
    itemBoxes key (items.map (RunItem.uncheck keys)) =
      (itemBoxes key items).map fun state => if key ∈ keys then .unchecked else state := by
  simp only [itemBoxes, List.flatMap_map, List.map_flatMap, rows_uncheck, Rows.boxes_uncheck,
    Rows.boxes_uncheckLeaves]

theorem uncheckFirst_eq_map (hrolled : ∀ item ∈ items, item.RolledUp)
    (honly : OnlyFirst (itemBoxes key items))
    (hhead : ∃ state ∈ (itemBoxes key items).head?, state ≠ .unchecked) :
    uncheckFirst key items = items.map (RunItem.uncheck {key}) := by
  induction items with
  | nil => rfl
  | cons item items ih =>
    rw [List.forall_mem_cons] at hrolled
    rw [itemBoxes_cons] at honly hhead
    rw [uncheckFirst, List.map_cons]
    by_cases hnone : item.rows.boxes key = []
    · have hfind : ¬(item.rows.findLeaf key).isSome := by simp [Rows.isSome_findLeaf, hnone]
      rw [hnone, List.nil_append] at honly hhead
      rw [if_neg hfind, ih hrolled.2 honly hhead,
        uncheck_of_not_unchecks (Rows.not_unchecks_singleton (by simp [hnone]))]
    · have hfind := (Rows.isSome_findLeaf key).mpr hnone
      rw [List.head?_append_of_ne_nil _ hnone] at hhead
      obtain ⟨state, hmem, hne⟩ := hhead
      have hunchecks : item.rows.unchecks {key} :=
        (Rows.unchecks_singleton key).mpr ⟨state, List.mem_of_mem_head? hmem, hne⟩
      rw [if_pos hfind, map_uncheck_of_unchecked (honly.of_append_right hnone), uncheck,
        if_pos hunchecks, hrolled.1.2.setLeaf_unchecked honly.of_append_left]

theorem tail_itemBoxes_uncheckFirst (items : List RunItem) (key key' : ByteString) :
    (itemBoxes key' (uncheckFirst key items)).tail = (itemBoxes key' items).tail := by
  have hall : itemBoxes key' (uncheckFirst key items) =
      if key' = key then (itemBoxes key' items).set 0 .unchecked else itemBoxes key' items := by
    induction items with
    | nil => simp [uncheckFirst, itemBoxes]
    | cons item items ih =>
      rw [uncheckFirst]
      by_cases hnone : item.rows.boxes key = []
      · have hfind : ¬(item.rows.findLeaf key).isSome := by simp [Rows.isSome_findLeaf, hnone]
        rw [if_neg hfind, itemBoxes_cons, itemBoxes_cons, ih]
        split
        · next hsame => rw [hsame, hnone, List.nil_append, List.nil_append]
        · rfl
      · have hfind := (Rows.isSome_findLeaf key).mpr hnone
        have hpos : 0 < (item.rows.boxes key).length := List.length_pos_iff.mpr hnone
        rw [if_pos hfind, itemBoxes_cons, itemBoxes_cons, updated, Rows.boxes_setLeaf]
        split
        · next hsame => rw [hsame, List.set_append_left _ _ hpos]
        · rfl
  rw [hall]
  split
  · cases itemBoxes key' items <;> rfl
  · rfl

end RunItem

namespace Dock

variable {dock : Dock} {keys : Finset ByteString}

theorem findSome?_findLeaf (dock : Dock) (key : ByteString) :
    (dock.items.findSome? fun item => item.rows.findLeaf key) =
      (itemBoxes key dock.items).head? := by
  rw [itemBoxes, List.head?_flatMap]
  simp only [Rows.findLeaf_eq_head?]

theorem items_uncheckSignalByKey (dock : Dock) (key : ByteString) :
    (dock.uncheckSignalByKey key).1.items =
      if ∃ state ∈ (itemBoxes key dock.items).head?, state ≠ .unchecked then
        RunItem.uncheckFirst key dock.items
      else dock.items := by
  rw [uncheckSignalByKey, setSignalByKey, findSome?_findLeaf]
  cases hhead : (itemBoxes key dock.items).head? with
  | none => rw [if_neg (by simp)]
  | some state =>
    dsimp only
    by_cases hstate : state = .unchecked
    · rw [if_pos hstate, if_neg (by simp [hstate])]
    · rw [if_neg hstate, if_pos ⟨state, rfl, hstate⟩, ← RunItem.modify_findIdx,
        collectAndEmitCheckedSignals]
      rw [← findSome?_findLeaf] at hhead
      cases htree : dock.tree with
      | reading runs => simp only [items, htree]
      | streaming root =>
        have hfind : (root.rows.findLeaf key).isSome := by
          simp only [items, htree, List.findSome?_cons, List.findSome?_nil] at hhead
          split at hhead
          · next hsome => simp [hsome]
          · cases hhead
        simp [items, htree, List.findIdx_cons, hfind]

/-- One key after the other. -/
def uncheckEach (dock : Dock) (keys : List ByteString) : Dock :=
  keys.foldl (fun dock key => (dock.uncheckSignalByKey key).1) dock

theorem items_uncheckSignalByKey_of_onlyFirst (hrolled : ∀ item ∈ dock.items, item.RolledUp)
    {key : ByteString} (honly : OnlyFirst (itemBoxes key dock.items)) :
    (dock.uncheckSignalByKey key).1.items = dock.items.map (RunItem.uncheck {key}) := by
  rw [items_uncheckSignalByKey]
  split
  · next hhead => exact RunItem.uncheckFirst_eq_map hrolled honly hhead
  · next hhead =>
    push Not at hhead
    exact (RunItem.map_uncheck_of_unchecked (honly.forall_unchecked hhead)).symm

theorem items_uncheckEach {keys : List ByteString} (hrolled : ∀ item ∈ dock.items, item.RolledUp)
    (honly : ∀ key ∈ keys, OnlyFirst (itemBoxes key dock.items)) :
    (dock.uncheckEach keys).items = dock.items.map (RunItem.uncheck keys.toFinset) := by
  induction keys generalizing dock with
  | nil =>
    have hnone (item : RunItem) : item.uncheck ∅ = item :=
      RunItem.uncheck_of_not_unchecks (by simp [Rows.unchecks])
    exact ((List.map_congr_left fun item _ => hnone item).trans (List.map_id _)).symm
  | cons key keys ih =>
    rw [List.forall_mem_cons] at honly
    have hitems := items_uncheckSignalByKey_of_onlyFirst hrolled honly.1
    have hrest : ((dock.uncheckSignalByKey key).1.uncheckEach keys).items =
        (dock.uncheckSignalByKey key).1.items.map (RunItem.uncheck keys.toFinset) := by
      refine ih ?_ fun key' hmem => ?_
      · rw [hitems, List.forall_mem_map]
        exact fun item hmem => (hrolled item hmem).uncheck {key}
      · rw [hitems, RunItem.itemBoxes_map_uncheck]
        exact (honly.2 key' hmem).map_uncheck _
    rw [uncheckEach, List.foldl_cons, ← uncheckEach, hrest, hitems, List.map_map,
      List.toFinset_cons, Finset.insert_eq]
    exact List.map_congr_left fun item _ => item.uncheck_uncheck {key} keys.toFinset

/-- All boxes of a key but the first stay as they are. -/
theorem tail_itemBoxes_uncheckEach (dock : Dock) (keys : List ByteString) (key : ByteString) :
    (itemBoxes key (dock.uncheckEach keys).items).tail = (itemBoxes key dock.items).tail := by
  induction keys generalizing dock with
  | nil => rfl
  | cons key' keys ih =>
    rw [uncheckEach, List.foldl_cons, ← uncheckEach, ih, items_uncheckSignalByKey]
    split
    · exact RunItem.tail_itemBoxes_uncheckFirst dock.items key' key
    · rfl

theorem items_uncheckSignalsInOrder (dock : Dock) (keys : Finset ByteString)
    (order : ℕ → List (List ℕ)) :
    (dock.uncheckSignalsInOrder keys order).1.items =
      dock.items.zipIdx.map fun entry => entry.1.uncheckInOrder keys (order entry.2) := by
  rw [uncheckSignalsInOrder]
  split
  · rw [collectAndEmitCheckedSignals]
    cases htree : dock.tree with
    | reading runs =>
      simp only [items, htree, List.mapIdx_eq_zipIdx_map]
    | streaming root => simp [items, htree]
  · next hnone =>
    rw [List.any_eq_true] at hnone
    push Not at hnone
    have hsame : ∀ entry ∈ dock.items.zipIdx,
        entry.1.uncheckInOrder keys (order entry.2) = entry.1 := by
      intro entry hmem
      rw [RunItem.uncheckInOrder, if_neg (hnone entry.1 (List.fst_mem_of_mem_zipIdx hmem))]
    rw [List.map_congr_left hsame]
    exact List.zipIdx_map_fst 0 dock.items |>.symm

/-- Unchecked together, every leaf of the keys is. -/
theorem itemBoxes_uncheckSignalsInOrder {order : ℕ → List (List ℕ)} {key : ByteString}
    (hkey : key ∈ keys) :
    ∀ state ∈ itemBoxes key (dock.uncheckSignalsInOrder keys order).1.items,
      state = .unchecked := by
  intro state hmem
  rw [items_uncheckSignalsInOrder, itemBoxes, List.flatMap_map] at hmem
  obtain ⟨entry, -, hmem⟩ := List.mem_flatMap.mp hmem
  rw [RunItem.boxes_uncheckInOrder, Rows.boxes_uncheckLeaves] at hmem
  obtain ⟨state', -, rfl⟩ := List.mem_map.mp hmem
  exact if_pos hkey

theorem uncheckSignalsInOrder_eq_iff (hrolled : ∀ item ∈ dock.items, item.RolledUp)
    {order : ℕ → List (List ℕ)} (hpossible : dock.Possible (.uncheckSignalsByKeys keys order))
    {singles : List ByteString} (hsingles : singles.toFinset = keys) :
    (dock.uncheckSignalsInOrder keys order).1.items = (dock.uncheckEach singles).items ↔
      (∀ key ∈ keys, OnlyFirst (itemBoxes key dock.items)) ∧
        ∀ entry ∈ dock.items.zipIdx, entry.1.rows.Timely keys (order entry.2) := by
  have hfirst : (∀ key ∈ keys, OnlyFirst (itemBoxes key dock.items)) →
      (dock.uncheckEach singles).items = dock.items.zipIdx.map fun entry =>
        entry.1.uncheck keys := by
    intro honly
    have hmem : ∀ key ∈ singles, key ∈ keys := fun key hmem =>
      hsingles ▸ List.mem_toFinset.mpr hmem
    rw [items_uncheckEach hrolled fun key hkey => honly key (hmem key hkey), hsingles]
    conv_lhs => rw [← List.zipIdx_map_fst 0 dock.items, List.map_map]
    rfl
  have hgroups : (dock.uncheckSignalsInOrder keys order).1.items =
        (dock.items.zipIdx.map fun entry => entry.1.uncheck keys) ↔
      ∀ entry ∈ dock.items.zipIdx, entry.1.rows.Timely keys (order entry.2) := by
    rw [items_uncheckSignalsInOrder, List.map_inj_left]
    refine forall₂_congr fun entry hmem => ?_
    exact (hrolled _ (List.fst_mem_of_mem_zipIdx hmem)).uncheckInOrder_iff (hpossible entry hmem)
  constructor
  · intro heq
    have honly : ∀ key ∈ keys, OnlyFirst (itemBoxes key dock.items) := by
      intro key hkey state hmem
      rw [← dock.tail_itemBoxes_uncheckEach singles key, ← heq] at hmem
      exact itemBoxes_uncheckSignalsInOrder hkey state (List.mem_of_mem_tail hmem)
    exact ⟨honly, hgroups.mp (heq.trans (hfirst honly))⟩
  · rintro ⟨honly, htimely⟩
    rw [hgroups.mpr htimely, hfirst honly]

-- "a" is worked out before "a/b" inside it, but "a/y" goes and "a/z" stays
theorem uncheckSignalsInOrder_eq_of_three :
    ((after (checkStep asciiCaseFold) (setStreamingRootLabel {})
          [.onTileAdded [0x61, 0x2F, 0x62, 0x2F, 0x78], .onTileAdded [0x61, 0x2F, 0x79],
            .onTileAdded [0x61, 0x2F, 0x7A]]).uncheckSignalsInOrder
        {[0x61, 0x2F, 0x62, 0x2F, 0x78], [0x61, 0x2F, 0x79]} fun _ => [[0], [0, 0]]).1.items =
      ((after (checkStep asciiCaseFold) (setStreamingRootLabel {})
          [.onTileAdded [0x61, 0x2F, 0x62, 0x2F, 0x78], .onTileAdded [0x61, 0x2F, 0x79],
            .onTileAdded [0x61, 0x2F, 0x7A]]).uncheckEach
        [[0x61, 0x2F, 0x79], [0x61, 0x2F, 0x62, 0x2F, 0x78]]).items :=
  (uncheckSignalsInOrder_eq_iff (by decide +kernel) (by decide +kernel) (by decide)).mpr
    (by decide +kernel)

/-- Under "a/b/x" alone, the group "a" that is worked out first stays checked; and of two runs with
the same key, the walk to one leaf reaches only the first. -/
theorem not_uncheckSignalsInOrder_eq :
    ((∀ item ∈ (after (checkStep asciiCaseFold) (setStreamingRootLabel {})
            [.onTileAdded [0x61, 0x2F, 0x62, 0x2F, 0x78]]).items, item.RolledUp) ∧
        (after (checkStep asciiCaseFold) (setStreamingRootLabel {})
            [.onTileAdded [0x61, 0x2F, 0x62, 0x2F, 0x78]]).Possible
          (.uncheckSignalsByKeys {[0x61, 0x2F, 0x62, 0x2F, 0x78]} fun _ => [[0], [0, 0]]) ∧
        ((after (checkStep asciiCaseFold) (setStreamingRootLabel {})
              [.onTileAdded [0x61, 0x2F, 0x62, 0x2F, 0x78]]).uncheckSignalsInOrder
            {[0x61, 0x2F, 0x62, 0x2F, 0x78]} fun _ => [[0], [0, 0]]).1.items ≠
          ((after (checkStep asciiCaseFold) (setStreamingRootLabel {})
              [.onTileAdded [0x61, 0x2F, 0x62, 0x2F, 0x78]]).uncheckEach
            [[0x61, 0x2F, 0x62, 0x2F, 0x78]]).items) ∧
      (∀ item ∈ (Dock.mk (.reading (.replicate 2 ⟨.checked, .signal [0x78] .checked .nil⟩))
            ∅ ∅).items, item.RolledUp) ∧
        (Dock.mk (.reading (.replicate 2 ⟨.checked, .signal [0x78] .checked .nil⟩))
            ∅ ∅).Possible (.uncheckSignalsByKeys {[0x78]} fun _ => []) ∧
        ((Dock.mk (.reading (.replicate 2 ⟨.checked, .signal [0x78] .checked .nil⟩))
              ∅ ∅).uncheckSignalsInOrder {[0x78]} fun _ => []).1.items ≠
          ((Dock.mk (.reading (.replicate 2 ⟨.checked, .signal [0x78] .checked .nil⟩))
              ∅ ∅).uncheckEach [[0x78]]).items := by
  decide +kernel

end Dock

end SmartDashboard.App.RunBrowser
