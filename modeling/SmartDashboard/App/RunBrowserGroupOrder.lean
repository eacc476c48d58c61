import SmartDashboard.App.RunBrowserRuns

/-!
# Groups that are worked out in any order

`UncheckSignalsByKeys` works out the groups over the leaves that it unchecks in the order in which a
set of items gives them. A group that comes before one directly inside it finds that one as it was.
What it makes of this is what it would have made of it later, or not; the boxes come out as from the
inside out just if they do so for every such group.

## Main definitions

- `Rows.turnStates`: what a group finds when it is worked out
- `Rows.Timely`: no group is worked out so early that it shows
-/

namespace SmartDashboard.App.RunBrowser

open Direct (ByteString)

namespace Rows

/-- A place inside the group in the first row, as it is seen from there. -/
def intoFirst : List ℕ → Option (List ℕ)
  | 0 :: row :: place => some (row :: place)
  | _ => none

/-- A place in the rows after the first, as it is seen from there. -/
def pastFirst : List ℕ → Option (List ℕ)
  | (row + 1) :: place => some (row :: place)
  | _ => none

def orderInside (order : List (List ℕ)) : List (List ℕ) := order.filterMap intoFirst

def orderPast (order : List (List ℕ)) : List (List ℕ) := order.filterMap pastFirst

/-- The group in this row of the first group comes after it. -/
def late (order : List (List ℕ)) (row : ℕ) : Bool :=
  decide (order.idxOf [0] < order.idxOf [0, row])

/-- One of the groups directly here stands over a leaf that is unchecked, and is late. -/
def delays (keys : Finset ByteString) : Rows → (ℕ → Bool) → Bool
  | nil, _ => false
  | signal _ _ rest, late => rest.delays keys fun row => late (row + 1)
  | group _ _ children rest, late =>
    (children.unchecks keys && late 0) || rest.delays keys fun row => late (row + 1)

/-- Something stays that is not unchecked. -/
def keeps (keys : Finset ByteString) : Rows → Bool
  | nil => false
  | signal key state rest => decide (key ∉ keys ∧ state ≠ .unchecked) || rest.keeps keys
  | group _ state children rest =>
    (if children.unchecks keys then children.keeps keys else decide (state ≠ .unchecked)) ||
      rest.keeps keys

/-- One of the rows directly here is not checked, while the late groups still are as they were. -/
def shows (keys : Finset ByteString) : Rows → (ℕ → Bool) → Bool
  | nil, _ => false
  | signal key state rest, late =>
    decide (key ∈ keys ∨ state ≠ .checked) || rest.shows keys fun row => late (row + 1)
  | group _ state children rest, late =>
    decide (state ≠ .checked) || (children.unchecks keys && !late 0) ||
      rest.shows keys fun row => late (row + 1)

/-- A group that is worked out before one of those directly inside it has something that stays, and
shows by then that something goes. -/
def Timely (keys : Finset ByteString) : Rows → List (List ℕ) → Prop
  | nil, _ => True
  | signal _ _ rest, order => rest.Timely keys (orderPast order)
  | group _ _ children rest, order =>
    (children.delays keys (late order) → children.keeps keys ∧ children.shows keys (late order)) ∧
      children.Timely keys (orderInside order) ∧ rest.Timely keys (orderPast order)

instance decidableTimely (keys : Finset ByteString) :
    ∀ (rows : Rows) (order : List (List ℕ)), Decidable (rows.Timely keys order)
  | nil, _ => isTrue trivial
  | signal _ _ rest, order => decidableTimely keys rest (orderPast order)
  | group _ _ children rest, order =>
    have := decidableTimely keys children (orderInside order)
    have := decidableTimely keys rest (orderPast order)
    inferInstanceAs (Decidable
      ((children.delays keys (late order) →
          children.keeps keys ∧ children.shows keys (late order)) ∧
        children.Timely keys (orderInside order) ∧ rest.Timely keys (orderPast order)))

/-! ### What a group finds -/

/-- The states of the rows directly here, while the late groups still are as they were. -/
def turnStates (keys : Finset ByteString) : Rows → (ℕ → Bool) → List CheckState
  | nil, _ => []
  | signal key state rest, late =>
    (if key ∈ keys then .unchecked else state) :: rest.turnStates keys fun row => late (row + 1)
  | group _ state children rest, late =>
    (if late 0 then state
      else groupState (children.unchecks keys) state (children.uncheck keys)) ::
      rest.turnStates keys fun row => late (row + 1)

variable {rows rows' children rest : Rows} {keys : Finset ByteString} {late : ℕ → Bool}
variable {name key : ByteString} {state : CheckState}

theorem updatedState_ne_unchecked :
    rows.updatedState ≠ .unchecked ↔ ∃ state ∈ rows.states, state ≠ .unchecked := by
  rw [Ne, updatedState_eq_unchecked]
  push Not
  exact Iff.rfl

theorem updatedState_ne_checked (h : ∃ state ∈ rows.states, state ≠ .checked) :
    rows.updatedState ≠ .checked := by
  obtain ⟨state, hmem, hne⟩ := h
  rw [Ne, updatedState_eq_checked]
  exact fun hall => hne (hall.2 state hmem)

theorem unchecks_signal :
    (signal key state rest).unchecks keys = true ↔
      (key ∈ keys ∧ state ≠ .unchecked) ∨ rest.unchecks keys = true := by
  simp [unchecks, signals]

theorem unchecks_group :
    (group name state children rest).unchecks keys = true ↔
      children.unchecks keys = true ∨ rest.unchecks keys = true := by
  simp [unchecks, signals]

theorem ne_nil_of_unchecks (h : rows.unchecks keys) : rows ≠ nil := by
  rintro rfl
  cases h

theorem unchecks_of_delays (h : rows.delays keys late) : rows.unchecks keys := by
  induction rows generalizing late with
  | nil => cases h
  | signal key state rest ih => exact unchecks_signal.mpr (.inr (ih h))
  | group name state children rest _ ih =>
    rw [delays, Bool.or_eq_true, Bool.and_eq_true] at h
    exact unchecks_group.mpr (h.imp And.left ih)

/-- Over a leaf that is not yet unchecked, no box is. -/
theorem RolledUp.exists_ne_unchecked (h : rows.RolledUp) (hkeys : rows.unchecks keys) :
    ∃ state ∈ rows.states, state ≠ .unchecked := by
  induction rows with
  | nil => cases hkeys
  | signal key state rest ih =>
    rw [states, List.exists_mem_cons_iff]
    exact (unchecks_signal.mp hkeys).imp And.right (ih h)
  | group name state children rest ihchildren ih =>
    rw [states, List.exists_mem_cons_iff]
    refine (unchecks_group.mp hkeys).imp (fun hchildren => ?_) (ih h.2.2)
    rw [h.1 (ne_nil_of_unchecks hchildren), updatedState_ne_unchecked]
    exact ihchildren h.2.1 hchildren

/-- Over a leaf that is unchecked, no box stays checked. -/
theorem exists_ne_checked_uncheck (hkeys : rows.unchecks keys) :
    ∃ state ∈ (rows.uncheck keys).states, state ≠ .checked := by
  induction rows with
  | nil => cases hkeys
  | signal key state rest ih =>
    rw [uncheck, states, List.exists_mem_cons_iff]
    refine (unchecks_signal.mp hkeys).imp (fun hleaf => ?_) ih
    rw [if_pos hleaf.1]
    rintro ⟨⟩
  | group name state children rest ihchildren ih =>
    rw [uncheck, states, List.exists_mem_cons_iff]
    refine (unchecks_group.mp hkeys).imp (fun hchildren => ?_) ih
    rw [hchildren, groupState, if_pos rfl]
    exact updatedState_ne_checked (ihchildren hchildren)

theorem keeps_iff :
    rows.keeps keys ↔ ∃ state ∈ (rows.uncheck keys).states, state ≠ .unchecked := by
  induction rows with
  | nil => simp [keeps, uncheck, states]
  | signal key state rest ih =>
    rw [keeps, uncheck, states, List.exists_mem_cons_iff, Bool.or_eq_true, ih]
    refine or_congr_left ?_
    by_cases hkey : key ∈ keys
    · simp [hkey]
    · simp [hkey]
  | group name state children rest ihchildren ih =>
    rw [keeps, uncheck, states, List.exists_mem_cons_iff, Bool.or_eq_true, ih]
    refine or_congr_left ?_
    by_cases hchildren : children.unchecks keys
    · rw [if_pos hchildren, ihchildren, hchildren, groupState, if_pos rfl,
        updatedState_ne_unchecked]
    · rw [if_neg hchildren, groupState, if_neg hchildren, decide_eq_true_eq]

theorem shows_iff :
    rows.shows keys late ↔ ∃ state ∈ rows.turnStates keys late, state ≠ .checked := by
  induction rows generalizing late with
  | nil => simp [shows, turnStates]
  | signal key state rest ih =>
    rw [shows, turnStates, List.exists_mem_cons_iff, Bool.or_eq_true, ih]
    refine or_congr_left ?_
    by_cases hkey : key ∈ keys
    · simp [hkey]
    · simp [hkey]
  | group name state children rest _ ih =>
    rw [shows, turnStates, List.exists_mem_cons_iff, Bool.or_eq_true, ih]
    refine or_congr_left ?_
    cases hlate : late 0 with
    | true => simp
    | false =>
      by_cases hchildren : children.unchecks keys
      · -- the group is worked out already, so it is not checked
        have hupdated := updatedState_ne_checked (exists_ne_checked_uncheck hchildren)
        simp [hchildren, groupState, hupdated]
      · simp [hchildren, groupState]

theorem RolledUp.exists_turnStates_ne_unchecked (h : rows.RolledUp)
    (hdelays : rows.delays keys late) :
    ∃ state ∈ rows.turnStates keys late, state ≠ .unchecked := by
  induction rows generalizing late with
  | nil => cases hdelays
  | signal key state rest ih =>
    obtain ⟨state', hmem, hne⟩ := ih h hdelays
    exact ⟨state', List.mem_cons_of_mem _ hmem, hne⟩
  | group name state children rest _ ih =>
    rw [delays, Bool.or_eq_true, Bool.and_eq_true] at hdelays
    rw [turnStates, List.exists_mem_cons_iff]
    refine hdelays.imp (fun hfirst => ?_) (ih h.2.2)
    rw [if_pos hfirst.2, h.1 (ne_nil_of_unchecks hfirst.1), updatedState_ne_unchecked]
    exact h.2.1.exists_ne_unchecked hfirst.1

theorem turnStates_of_not_delays (h : rows.delays keys late = false) :
    rows.turnStates keys late = (rows.uncheck keys).states := by
  induction rows generalizing late with
  | nil => rfl
  | signal key state rest ih => exact congrArg _ (ih h)
  | group name state children rest _ ih =>
    rw [delays, Bool.or_eq_false_iff, Bool.and_eq_false_iff] at h
    rw [turnStates, uncheck, states, ih h.2]
    congr 1
    split
    · next hlate =>
      have hchildren := h.1.resolve_right (by simp [hlate])
      rw [hchildren, groupState, if_neg Bool.false_ne_true]
    · rfl

/-- A group that finds these states comes out as it would from the inside out. -/
theorem RolledUp.updatedState_turn (h : rows.RolledUp)
    (hstates : rows'.states = rows.turnStates keys late) :
    rows'.updatedState = (rows.uncheck keys).updatedState ↔
      (rows.delays keys late → rows.keeps keys ∧ rows.shows keys late) := by
  cases hdelays : rows.delays keys late with
  | false =>
    rw [turnStates_of_not_delays hdelays] at hstates
    refine iff_of_true (updatedState_congr fun state => ?_) (by simp)
    rw [hstates]
  | true =>
    have hstays := h.exists_turnStates_ne_unchecked hdelays
    rw [← hstates] at hstays
    have hgoes := exists_ne_checked_uncheck (unchecks_of_delays hdelays)
    have hshows : rows'.updatedState = .partiallyChecked ↔ rows.shows keys late := by
      rw [updatedState_eq_partiallyChecked, shows_iff, ← hstates]
      exact and_iff_left hstays
    have hkeeps : (rows.uncheck keys).updatedState = .partiallyChecked ↔ rows.keeps keys := by
      rw [updatedState_eq_partiallyChecked, keeps_iff]
      exact and_iff_right hgoes
    have hnever := updatedState_ne_unchecked.mpr hstays
    have hnever' := updatedState_ne_checked hgoes
    rw [← hshows, ← hkeeps]
    constructor
    · intro heq _
      -- neither unchecked nor checked
      cases hstate : rows'.updatedState with
      | unchecked => exact absurd hstate hnever
      | checked => exact absurd (heq.symm.trans hstate) hnever'
      | partiallyChecked => exact ⟨heq.symm.trans hstate, rfl⟩
    · intro hboth
      obtain ⟨hkept, hshown⟩ := hboth rfl
      rw [hkept, hshown]

/-! ### The places of the groups -/

theorem affectedGroups_of_not_unchecks (h : rows.unchecks keys = false) :
    rows.affectedGroups keys = [] := by
  induction rows with
  | nil => rfl
  | signal key state rest ih =>
    rw [Bool.eq_false_iff, Ne, unchecks_signal, not_or] at h
    rw [affectedGroups, ih (Bool.eq_false_iff.mpr h.2), List.map_nil]
  | group name state children rest _ ih =>
    rw [Bool.eq_false_iff, Ne, unchecks_group, not_or] at h
    rw [affectedGroups, if_neg h.1, ih (Bool.eq_false_iff.mpr h.2)]
    rfl

theorem nextRow_ne_nil {place : List ℕ} (h : place ≠ []) : nextRow place ≠ [] := by
  cases place with
  | nil => exact h
  | cons row place => exact List.cons_ne_nil _ _

theorem ne_nil_of_mem_affectedGroups {place : List ℕ} (h : place ∈ rows.affectedGroups keys) :
    place ≠ [] := by
  induction rows generalizing place with
  | nil => cases h
  | signal key state rest ih =>
    obtain ⟨place', hmem, rfl⟩ := List.mem_map.mp h
    exact nextRow_ne_nil (ih hmem)
  | group name state children rest _ ih =>
    rcases List.mem_append.mp h with h | h
    · split at h
      · rcases List.mem_cons.mp h with rfl | h
        · exact List.cons_ne_nil _ _
        · obtain ⟨place', -, rfl⟩ := List.mem_map.mp h
          exact List.cons_ne_nil _ _
      · cases h
    · obtain ⟨place', hmem, rfl⟩ := List.mem_map.mp h
      exact nextRow_ne_nil (ih hmem)

theorem nodup_affectedGroups (rows : Rows) (keys : Finset ByteString) :
    (rows.affectedGroups keys).Nodup := by
  induction rows with
  | nil => exact List.nodup_nil
  | signal key state rest ih => exact ih.map nextRow_injective
  | group name state children rest ihchildren ih =>
    rw [affectedGroups, List.nodup_append]
    refine ⟨?_, ih.map nextRow_injective, ?_⟩
    · split
      · refine List.nodup_cons.mpr
          ⟨fun hmem => ?_, ihchildren.map fun _ _ => List.tail_eq_of_cons_eq⟩
        obtain ⟨place, hplace, heq⟩ := List.mem_map.mp hmem
        exact ne_nil_of_mem_affectedGroups hplace (List.tail_eq_of_cons_eq heq)
      · exact List.nodup_nil
    · intro place hplace _ hnext heq
      obtain ⟨place', -, rfl⟩ := List.mem_map.mp hnext
      split at hplace
      · rcases List.mem_cons.mp hplace with rfl | hplace
        · exact nextRow_ne_cons_zero _ _ heq.symm
        · obtain ⟨inner, -, rfl⟩ := List.mem_map.mp hplace
          exact nextRow_ne_cons_zero _ _ heq.symm
      · cases hplace

variable {order : List (List ℕ)}

theorem orderPast_map_nextRow (h : ∀ place ∈ order, place ≠ []) :
    orderPast (order.map nextRow) = order := by
  induction order with
  | nil => rfl
  | cons place order ih =>
    rw [List.forall_mem_cons] at h
    cases place with
    | nil => exact absurd rfl h.1
    | cons row place => exact congrArg _ (ih h.2)

theorem orderInside_map_nextRow (order : List (List ℕ)) : orderInside (order.map nextRow) = [] := by
  induction order with
  | nil => rfl
  | cons place order ih => cases place <;> exact ih

theorem orderInside_map_cons_zero (h : ∀ place ∈ order, place ≠ []) :
    orderInside (order.map (0 :: ·)) = order := by
  induction order with
  | nil => rfl
  | cons place order ih =>
    rw [List.forall_mem_cons] at h
    cases place with
    | nil => exact absurd rfl h.1
    | cons row place => exact congrArg _ (ih h.2)

theorem orderPast_map_cons_zero (order : List (List ℕ)) :
    orderPast (order.map (0 :: ·)) = [] := by
  induction order with
  | nil => rfl
  | cons place order ih => exact ih

theorem orderInside_append (order order' : List (List ℕ)) :
    orderInside (order ++ order') = orderInside order ++ orderInside order' :=
  List.filterMap_append

theorem orderPast_append (order order' : List (List ℕ)) :
    orderPast (order ++ order') = orderPast order ++ orderPast order' :=
  List.filterMap_append

theorem orderInside_affectedGroups :
    orderInside ((group name state children rest).affectedGroups keys) =
      children.affectedGroups keys := by
  rw [affectedGroups, orderInside_append, orderInside_map_nextRow, List.append_nil]
  split
  · exact orderInside_map_cons_zero fun _ => ne_nil_of_mem_affectedGroups
  · next hchildren =>
    rw [affectedGroups_of_not_unchecks (Bool.eq_false_iff.mpr hchildren)]
    rfl

theorem orderPast_affectedGroups :
    orderPast ((group name state children rest).affectedGroups keys) =
      rest.affectedGroups keys := by
  rw [affectedGroups, orderPast_append,
    orderPast_map_nextRow fun _ => ne_nil_of_mem_affectedGroups]
  split
  · exact congrArg (· ++ _) (orderPast_map_cons_zero _)
  · rfl

theorem intoFirst_eq_some {place place' : List ℕ} {row : ℕ} :
    intoFirst place = some (row :: place') ↔ place = 0 :: row :: place' := by
  rcases place with _ | ⟨_ | row', _ | ⟨row'', place⟩⟩ <;> simp [intoFirst]

theorem mem_orderInside {row : ℕ} {place : List ℕ} :
    row :: place ∈ orderInside order ↔ 0 :: row :: place ∈ order := by
  simp only [orderInside, List.mem_filterMap, intoFirst_eq_some, exists_eq_right]

/-! ### The groups one after the other -/

theorem foldl_updateGroup_signal (order : List (List ℕ)) :
    order.foldl updateGroup (signal key state rest) =
      signal key state ((orderPast order).foldl updateGroup rest) := by
  induction order generalizing rest with
  | nil => rfl
  | cons place order ih => rcases place with _ | ⟨_ | row, place⟩ <;> exact ih

/-- Where it is not among them, the first group stays as it is. -/
theorem foldl_updateGroup_group (h : [0] ∉ order) :
    order.foldl updateGroup (group name state children rest) =
      group name state ((orderInside order).foldl updateGroup children)
        ((orderPast order).foldl updateGroup rest) := by
  induction order generalizing children rest with
  | nil => rfl
  | cons place order ih =>
    rw [List.mem_cons, not_or] at h
    rcases place with _ | ⟨_ | row, _ | ⟨row', place⟩⟩
    · exact ih h.2
    · exact absurd rfl h.1
    · exact ih h.2
    · exact ih h.2
    · exact ih h.2

/-- Its state is worked out from what those before it make of its children. -/
theorem foldl_updateGroup_group_at {before after : List (List ℕ)} (hbefore : [0] ∉ before)
    (hafter : [0] ∉ after) :
    (before ++ [0] :: after).foldl updateGroup (group name state children rest) =
      group name ((orderInside before).foldl updateGroup children).updatedState
        ((orderInside (before ++ [0] :: after)).foldl updateGroup children)
        ((orderPast (before ++ [0] :: after)).foldl updateGroup rest) := by
  rw [List.foldl_append, foldl_updateGroup_group hbefore, List.foldl_cons, updateGroup, if_pos rfl,
    foldl_updateGroup_group hafter, orderInside_append, orderPast_append, List.foldl_append,
    List.foldl_append]
  rfl

theorem getElem?_states_updateGroup {place : List ℕ} {row : ℕ} (h : place ≠ [row]) :
    (rows.updateGroup place).states[row]? = rows.states[row]? := by
  induction rows generalizing place row with
  | nil => cases place <;> rfl
  | signal key state rest ih =>
    rcases place with _ | ⟨_ | row', place⟩
    · rfl
    · rfl
    · cases row with
      | zero => rfl
      | succ row => exact ih fun heq => h (congrArg nextRow heq)
  | group name state children rest _ ih =>
    rcases place with _ | ⟨_ | row', place⟩
    · rfl
    · rw [updateGroup]
      split
      · next hplace =>
        subst hplace
        cases row with
        | zero => exact absurd rfl h
        | succ row => rfl
      · rfl
    · cases row with
      | zero => rfl
      | succ row => exact ih fun heq => h (congrArg nextRow heq)

theorem getElem?_states_foldl {row : ℕ} (h : [row] ∉ order) :
    (order.foldl updateGroup rows).states[row]? = rows.states[row]? := by
  induction order generalizing rows with
  | nil => rfl
  | cons place order ih =>
    rw [List.mem_cons, not_or] at h
    rw [List.foldl_cons, ih h.2, getElem?_states_updateGroup (Ne.symm h.1)]

theorem getElem?_turnStates (row : ℕ) :
    (rows.turnStates keys late)[row]? =
      if late row then (rows.uncheckLeaves keys).states[row]?
      else (rows.uncheck keys).states[row]? := by
  induction rows generalizing late row with
  | nil => simp [turnStates, uncheckLeaves, uncheck, states]
  | signal key state rest ih =>
    cases row with
    | zero => simp [turnStates, uncheckLeaves, uncheck, states]
    | succ row => exact ih row
  | group name state children rest _ ih =>
    cases row with
    | zero =>
      simp only [turnStates, uncheckLeaves, uncheck, states, List.getElem?_cons_zero]
      split <;> rfl
    | succ row => exact ih row

/-- What a group finds after those before it, if all come out as from the inside out. -/
theorem states_foldl_before {before after : List (List ℕ)}
    (hnodup : (orderInside before ++ orderInside after).Nodup)
    (hall : (orderInside before ++ orderInside after).foldl updateGroup (rows.uncheckLeaves keys) =
      rows.uncheck keys)
    (hlate : ∀ row, late row ↔ [0, row] ∉ before) :
    ((orderInside before).foldl updateGroup (rows.uncheckLeaves keys)).states =
      rows.turnStates keys late := by
  refine List.ext_getElem? fun row => ?_
  rw [getElem?_turnStates]
  split
  · next hrow =>
    rw [hlate, ← mem_orderInside] at hrow
    exact getElem?_states_foldl hrow
  · next hrow =>
    rw [hlate, not_not, ← mem_orderInside] at hrow
    have hafter : [row] ∉ orderInside after :=
      fun hmem => (List.nodup_append.mp hnodup).2.2 _ hrow _ hmem rfl
    rw [← hall, List.foldl_append, getElem?_states_foldl hafter]

theorem late_iff {before after : List (List ℕ)} (hbefore : [0] ∉ before) (row : ℕ) :
    Rows.late (before ++ [0] :: after) row ↔ [0, row] ∉ before := by
  rw [Rows.late, decide_eq_true_eq, List.idxOf_append_of_notMem hbefore, List.idxOf_cons_self]
  constructor
  · intro hlt hmem
    rw [List.idxOf_append_of_mem hmem] at hlt
    have := List.idxOf_lt_length_of_mem hmem
    omega
  · intro hnot
    rw [List.idxOf_append_of_notMem hnot, List.idxOf_cons_ne _ (by simp)]
    omega

/-- The groups come out as from the inside out just if none of them is too early. -/
theorem RolledUp.foldl_updateGroup_iff (h : rows.RolledUp)
    (hperm : order.Perm (rows.affectedGroups keys)) :
    order.foldl updateGroup (rows.uncheckLeaves keys) = rows.uncheck keys ↔
      rows.Timely keys order := by
  induction rows generalizing order with
  | nil =>
    obtain rfl := hperm.eq_nil
    exact iff_of_true rfl trivial
  | signal key state rest ih =>
    have hrest : (orderPast order).Perm (rest.affectedGroups keys) := by
      have := hperm.filterMap pastFirst
      rwa [affectedGroups, ← orderPast, ← orderPast,
        orderPast_map_nextRow fun _ => ne_nil_of_mem_affectedGroups] at this
    rw [uncheckLeaves, uncheck, Timely, ← ih h hrest, foldl_updateGroup_signal]
    exact ⟨fun heq => (signal.inj heq).2.2, congrArg _⟩
  | group name state children rest ihchildren ih =>
    have hchildren : (orderInside order).Perm (children.affectedGroups keys) :=
      (hperm.filterMap intoFirst).trans (.of_eq orderInside_affectedGroups)
    have hrest : (orderPast order).Perm (rest.affectedGroups keys) :=
      (hperm.filterMap pastFirst).trans (.of_eq orderPast_affectedGroups)
    have hnodup := hperm.nodup_iff.mpr (nodup_affectedGroups _ keys)
    rw [uncheckLeaves, uncheck, Timely, ← ihchildren h.2.1 hchildren, ← ih h.2.2 hrest]
    by_cases hunchecks : children.unchecks keys
    · have hmem : [0] ∈ order := by
        rw [hperm.mem_iff, affectedGroups, if_pos hunchecks]
        exact List.mem_cons_self
      obtain ⟨before, after, rfl⟩ := List.append_of_mem hmem
      obtain ⟨-, hnodup', hdisjoint⟩ := List.nodup_append.mp hnodup
      have hbefore : [0] ∉ before := fun hmem => hdisjoint _ hmem _ List.mem_cons_self rfl
      have hafter := (List.nodup_cons.mp hnodup').1
      rw [foldl_updateGroup_group_at hbefore hafter, hunchecks, groupState, if_pos rfl,
        group.injEq, eq_self_iff_true, true_and]
      refine and_congr_left fun hall => h.2.1.updatedState_turn ?_
      have hinside : orderInside (before ++ [0] :: after) =
          orderInside before ++ orderInside after := orderInside_append _ _
      rw [hinside] at hall hchildren
      exact states_foldl_before (hchildren.nodup_iff.mpr (nodup_affectedGroups _ keys)) hall.1
        (late_iff hbefore)
    · have hnot : [0] ∉ order := by
        rw [hperm.mem_iff, affectedGroups, if_neg hunchecks]
        intro hmem
        obtain ⟨place, -, heq⟩ := List.mem_map.mp hmem
        exact nextRow_ne_cons_zero _ _ heq
      have hdelays : ¬children.delays keys (Rows.late order) :=
        fun hdelays => hunchecks (unchecks_of_delays hdelays)
      rw [foldl_updateGroup_group hnot, groupState, if_neg hunchecks, group.injEq,
        eq_self_iff_true, true_and, eq_self_iff_true, true_and]
      exact (and_iff_right fun hdelays' => absurd hdelays' hdelays).symm

end Rows

end SmartDashboard.App.RunBrowser
