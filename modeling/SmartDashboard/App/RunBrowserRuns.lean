import SmartDashboard.App.RunBrowserChecks

/-!
# Runs of the Run Browser

The boxes of the live transport over any sequence of operations: the condition under which every
box over others is as they roll up, and what is hidden once the tiles have come again.

## Main definitions

- `RunItem.RolledUp`, `RunItem.Settled`: the same for the root as for the groups
- `CheckAction`: what changes the boxes
- `Dock.Allowed`: an operation that leaves out no group
- `Dock.EmitsChecked`: the keys are those of the leaves whose own box is checked
- `Dock.HidesJust`: the leaves of these keys are unchecked and all others checked
-/

namespace SmartDashboard.App.RunBrowser

open Direct (ByteString)
open Execution

/-! ### The root -/

namespace RunItem

/-- The item, when it has children, and every group under it are as their children roll up. -/
def RolledUp (item : RunItem) : Prop :=
  (item.rows ≠ .nil → item.checkState = item.rows.updatedState) ∧ item.rows.RolledUp

instance (item : RunItem) : Decidable item.RolledUp := inferInstanceAs (Decidable (_ ∧ _))

def Settled (item : RunItem) : Prop :=
  (item.rows ≠ .nil → item.checkState = item.rows.updatedState) ∧ item.rows.Settled

variable {item item' : RunItem}

theorem settled_updated {rows : Rows} (h : rows.Settled) : (updated rows).Settled :=
  ⟨fun _ => rfl, h⟩

theorem Settled.rolledUp (h : item.Settled) : item.RolledUp := ⟨h.1, h.2.rolledUp⟩

/-- What counts as checked are the leaves whose own box is checked. -/
theorem Settled.mem_checkedKeys (h : item.Settled) {key : ByteString} :
    key ∈ item.checkedKeys ↔ (key, .checked) ∈ item.rows.signals := by
  rw [checkedKeys]
  split
  · next hunchecked =>
    simp only [Finset.notMem_empty, false_iff]
    intro hmem
    have hne : item.rows ≠ .nil := by
      intro hnil
      simp [hnil, Rows.signals] at hmem
    exact h.2.sound.updated (h.1 hne ▸ hunchecked) _ hmem rfl
  · rw [Rows.mem_checkedKeys]
    exact ⟨And.right, fun hmem => ⟨h.2.key_ne_nil _ hmem, hmem⟩⟩

theorem Settled.toggle {place : List ℕ} (h : item.Settled)
    (hplace : item.toggle place = some item') : item'.Settled := by
  cases place with
  | nil =>
    obtain rfl := Option.some.inj hplace
    have hnew : item.checkState.toggled ≠ .partiallyChecked :=
      Rows.toggled_ne_partiallyChecked _
    dsimp only [Settled]
    rw [if_neg hnew]
    refine ⟨fun hne => (Rows.updatedState_push hnew ?_).symm, h.2.push hnew⟩
    rintro hnil
    rw [hnil] at hne
    exact hne rfl
  | cons row place =>
    obtain ⟨rows, hrows, rfl⟩ := Option.map_eq_some_iff.mp hplace
    exact settled_updated (h.2.toggleAt hrows)

theorem Settled.uncheckInOrder {keys : Finset ByteString} {order : List (List ℕ)}
    (h : item.Settled) (hperm : order.Perm (item.rows.affectedGroups keys))
    (horder : Rows.InsideOut order) : (item.uncheckInOrder keys order).Settled := by
  rw [RunItem.uncheckInOrder]
  split
  · have hwait := (h.2.uncheckLeaves keys).mono fun place _ hmem => hperm.mem_iff.mpr hmem
    refine settled_updated (hwait.foldl_updateGroup horder fun place hmem => ?_)
    rw [hperm.mem_iff] at hmem
    exact (Rows.dropLast_mem_affectedGroups hmem).imp_right hperm.mem_iff.mpr
  · exact h

end RunItem

/-! ### Runs of the dock -/

/-- What changes the boxes. The groups under each item are worked out in the order that is given. -/
inductive CheckAction
  | onTileAdded (key : ByteString)
  | onTileRemoved (key : ByteString)
  | setHiddenDiscoveredKeys (hiddenKeys : Finset ByteString)
  | uncheckSignalByKey (key : ByteString)
  | uncheckSignalsByKeys (keys : Finset ByteString) (order : ℕ → List (List ℕ))
  | checkSignalByKey (key : ByteString)
  | toggle (row : ℕ) (place : List ℕ)

namespace Dock

variable {ν : Type*} [LinearOrder ν] (caseFold : ByteString → ν)

def checkStep (dock : Dock) : CheckAction → Answer
  | .onTileAdded key => dock.placeTile caseFold key
  | .onTileRemoved key => dock.onTileRemoved key
  | .setHiddenDiscoveredKeys hiddenKeys => dock.setHiddenDiscoveredKeys hiddenKeys
  | .uncheckSignalByKey key => dock.uncheckSignalByKey key
  | .uncheckSignalsByKeys keys order => dock.uncheckSignalsInOrder keys order
  | .checkSignalByKey key => dock.checkSignalByKey key
  | .toggle row place => dock.toggle row place

/-- The set of items gives every group once. -/
def Possible (dock : Dock) : CheckAction → Prop
  | .uncheckSignalsByKeys keys order =>
    ∀ entry ∈ dock.items.zipIdx, (order entry.2).Perm (entry.1.rows.affectedGroups keys)
  | _ => True

/-- The operation leaves out no group: a new leaf that is not hidden goes into no unchecked group, a
leaf that goes leaves no partly checked group with rows that are all the same, and the groups over
several leaves are worked out from the inside out. -/
def Allowed (dock : Dock) : CheckAction → Prop
  | .onTileAdded key =>
    dock.streamingHiddenKeys = ∅ → key ∉ dock.discoveredKeys →
      ∀ root ∈ dock.items, .unchecked ∉ root.rows.pathStates (segments key).dropLast
  | .onTileRemoved key =>
    key ∈ dock.discoveredKeys →
      ∀ root ∈ dock.items, ∀ found ∈ root.rows.innermost key, Rows.StaysPartial found
  | .uncheckSignalsByKeys _ order => ∀ row < dock.items.length, Rows.InsideOut (order row)
  | _ => True

instance (dock : Dock) : ∀ action, Decidable (dock.Possible action)
  | .uncheckSignalsByKeys _ _ => inferInstanceAs (Decidable (∀ entry ∈ _, _))
  | .onTileAdded _ | .onTileRemoved _ | .setHiddenDiscoveredKeys _ | .uncheckSignalByKey _
  | .checkSignalByKey _ | .toggle _ _ => inferInstanceAs (Decidable True)

instance (dock : Dock) : ∀ action, Decidable (dock.Allowed action)
  | .onTileAdded _ | .onTileRemoved _ => inferInstanceAs (Decidable (_ → _))
  | .uncheckSignalsByKeys _ _ => inferInstanceAs (Decidable (∀ row < _, _))
  | .setHiddenDiscoveredKeys _ | .uncheckSignalByKey _ | .checkSignalByKey _ | .toggle _ _ =>
    inferInstanceAs (Decidable True)

/-- In streaming mode the boxes are settled. -/
def Settled (dock : Dock) : Prop := ∀ root, dock.tree = .streaming root → root.Settled

/-- In streaming mode every box over others is as they roll up. -/
def RolledUp (dock : Dock) : Prop := ∀ root, dock.tree = .streaming root → root.RolledUp

instance (dock : Dock) : Decidable dock.RolledUp :=
  match h : dock.tree with
  | .reading _ => isTrue fun root hroot => by
    rw [h] at hroot
    cases hroot
  | .streaming root =>
    decidable_of_iff root.RolledUp
      ⟨fun hroot root' h' => by
        rw [h] at h'
        cases h'
        exact hroot, fun hall => hall root h⟩

/-- The keys are those of the leaves whose own box is checked. -/
def EmitsChecked (dock : Dock) (keys : Finset ByteString) : Prop :=
  ∀ root, dock.tree = .streaming root → ∀ key, key ∈ keys ↔ (key, .checked) ∈ root.rows.signals

variable {caseFold} {dock : Dock}

theorem settled_streaming {root : RunItem} {discoveredKeys hiddenKeys : Finset ByteString}
    (h : root.Settled) :
    Settled
      { tree := .streaming root
        discoveredKeys := discoveredKeys
        streamingHiddenKeys := hiddenKeys } := by
  rintro _ ⟨⟩
  exact h

theorem Settled.placeTile (h : dock.Settled) {key : ByteString}
    (hallowed : dock.Allowed (.onTileAdded key)) : (dock.placeTile caseFold key).1.Settled := by
  by_cases hknown : dock.streamingMode = true → key ∈ dock.discoveredKeys
  · rw [placeTile_of_known hknown]
    exact h
  push Not at hknown
  obtain ⟨hmode, hnew⟩ := hknown
  cases htree : dock.tree with
  | reading runs =>
    rw [streamingMode, htree] at hmode
    cases hmode
  | streaming root =>
    by_cases hkey : segments key = []
    · rw [Dock.placeTile]
      split
      · exact h
      · simp only [htree]
        exact settled_streaming (h root htree)
    · rw [placeTile_of_new htree hkey hnew]
      refine settled_streaming (RunItem.settled_updated ?_)
      refine (h root htree).2.placeSignal (ne_nil_of_segments hkey) ?_
      by_cases hhidden : dock.streamingHiddenKeys = ∅
      · right
        rw [hhidden]
        exact ⟨rfl, hallowed hhidden hnew root (by simp [items, htree])⟩
      · exact .inl (decide_eq_true hhidden)

theorem Settled.onTileRemoved (h : dock.Settled) {key : ByteString}
    (hallowed : dock.Allowed (.onTileRemoved key)) : (dock.onTileRemoved key).1.Settled := by
  rw [Dock.onTileRemoved]
  cases htree : dock.tree with
  | reading runs => exact h
  | streaming root =>
    dsimp only
    split_ifs with hknown
    · exact h
    · push Not at hknown
      refine settled_streaming ?_
      cases hremove : root.rows.removeSignal key with
      | none => exact h root htree
      | some rows =>
        refine RunItem.settled_updated ((h root htree).2.removeSignal hremove ?_)
        exact hallowed hknown.2 root (by simp [items, htree])

theorem Settled.setHiddenDiscoveredKeys (h : dock.Settled) (hiddenKeys : Finset ByteString) :
    (dock.setHiddenDiscoveredKeys hiddenKeys).1.Settled := by
  simp only [Dock.setHiddenDiscoveredKeys]
  cases htree : dock.tree with
  | reading runs => rintro root ⟨⟩
  | streaming root =>
    dsimp only
    split_ifs
    · intro root' hroot
      exact h root' (htree.trans hroot)
    · exact settled_streaming (RunItem.settled_updated ((h root htree).2.applyHidden hiddenKeys))

theorem Settled.setSignalByKey (h : dock.Settled) (new : CheckState) (key : ByteString) :
    (dock.setSignalByKey new key).1.Settled := by
  rw [Dock.setSignalByKey]
  split
  · exact h
  split
  · exact h
  cases htree : dock.tree with
  | reading runs => rintro root ⟨⟩
  | streaming root =>
    exact settled_streaming (RunItem.settled_updated ((h root htree).2.setLeaf key new))

theorem Settled.toggle (h : dock.Settled) (row : ℕ) (place : List ℕ) :
    (dock.toggle row place).1.Settled := by
  rw [Dock.toggle]
  split
  · exact h
  · next item hitem =>
    obtain ⟨root, hroot, hplace⟩ := Option.bind_eq_some_iff.mp hitem
    cases htree : dock.tree with
    | reading runs => rintro root ⟨⟩
    | streaming root' =>
      rw [items, htree] at hroot
      obtain rfl := List.mem_singleton.mp (List.mem_of_getElem? hroot)
      exact settled_streaming ((h root htree).toggle hplace)

theorem Settled.uncheckSignalsInOrder (h : dock.Settled) {keys : Finset ByteString}
    {order : ℕ → List (List ℕ)} (hpossible : dock.Possible (.uncheckSignalsByKeys keys order))
    (hallowed : dock.Allowed (.uncheckSignalsByKeys keys order)) :
    (dock.uncheckSignalsInOrder keys order).1.Settled := by
  rw [Dock.uncheckSignalsInOrder]
  split
  · cases htree : dock.tree with
    | reading runs => rintro root ⟨⟩
    | streaming root =>
      have hperm := hpossible (root, 0) (by simp [items, htree])
      have horder := hallowed 0 (by simp [items, htree])
      exact settled_streaming ((h root htree).uncheckInOrder hperm horder)
  · exact h

theorem Settled.checkStep (h : dock.Settled) {action : CheckAction}
    (hpossible : dock.Possible action) (hallowed : dock.Allowed action) :
    (dock.checkStep caseFold action).1.Settled := by
  cases action with
  | onTileAdded key => exact h.placeTile hallowed
  | onTileRemoved key => exact h.onTileRemoved hallowed
  | setHiddenDiscoveredKeys hiddenKeys => exact h.setHiddenDiscoveredKeys hiddenKeys
  | uncheckSignalByKey key => exact h.setSignalByKey .unchecked key
  | uncheckSignalsByKeys keys order => exact h.uncheckSignalsInOrder hpossible hallowed
  | checkSignalByKey key => exact h.setSignalByKey .checked key
  | toggle row place => exact h.toggle row place

theorem Settled.rolledUp (h : dock.Settled) : dock.RolledUp :=
  fun root htree => (h root htree).rolledUp

/-- What is emitted, if anything is, is what counts as checked after the operation. -/
def Reports (answer : Answer) : Prop := ∀ keys ∈ answer.2, keys = answer.1.checkedSignalKeys

theorem reports_none (dock : Dock) : Reports (dock, none) := by
  rintro _ ⟨⟩

theorem reports_collect (dock : Dock) : Reports dock.collectAndEmitCheckedSignals :=
  fun _ hmem => (Option.some.inj hmem).symm

theorem reports_checkStep (dock : Dock) (action : CheckAction) :
    Reports (dock.checkStep caseFold action) := by
  cases action with
  | onTileAdded key =>
    rw [Dock.checkStep, Dock.placeTile]
    split
    · exact reports_none _
    split
    · exact reports_none _
    · split_ifs
      · exact reports_none _
      · exact reports_none _
      · exact reports_collect _
      · exact reports_collect _
  | onTileRemoved key =>
    rw [Dock.checkStep, Dock.onTileRemoved]
    split
    · exact reports_none _
    · split_ifs
      · exact reports_none _
      · exact reports_collect _
  | setHiddenDiscoveredKeys hiddenKeys =>
    simp only [Dock.checkStep, Dock.setHiddenDiscoveredKeys]
    split
    · exact reports_none _
    · split_ifs
      · exact reports_none _
      · exact reports_collect _
  | uncheckSignalByKey key | checkSignalByKey key =>
    rw [Dock.checkStep]
    simp only [uncheckSignalByKey, checkSignalByKey, setSignalByKey]
    split
    · exact reports_none _
    · split_ifs
      · exact reports_none _
      · exact reports_collect _
  | uncheckSignalsByKeys keys order =>
    rw [Dock.checkStep, Dock.uncheckSignalsInOrder]
    split
    · exact reports_collect _
    · exact reports_none _
  | toggle row place =>
    rw [Dock.checkStep, Dock.toggle]
    split
    · exact reports_none _
    · exact reports_collect _

theorem Settled.emitsChecked (h : dock.Settled) : dock.EmitsChecked dock.checkedSignalKeys := by
  intro root htree key
  rw [checkedSignalKeys, htree]
  exact (h root htree).mem_checkedKeys

theorem rolledUp_after_checks (dock : Dock) {actions : List CheckAction}
    (hpossible : ∀ r ∈ history (checkStep caseFold) dock.setStreamingRootLabel actions,
      r.before.Possible r.input)
    (hallowed : ∀ r ∈ history (checkStep caseFold) dock.setStreamingRootLabel actions,
      r.before.Allowed r.input) :
    (after (checkStep caseFold) dock.setStreamingRootLabel actions).RolledUp ∧
      ∀ r ∈ history (checkStep caseFold) dock.setStreamingRootLabel actions, ∀ keys ∈ r.output,
        (checkStep caseFold r.before r.input).1.EmitsChecked keys := by
  have hstart : dock.setStreamingRootLabel.Settled :=
    settled_streaming ⟨fun h => absurd rfl h, trivial⟩
  have hkeeps : ∀ r ∈ history (checkStep caseFold) dock.setStreamingRootLabel actions,
      r.before.Settled → (checkStep caseFold r.before r.input).1.Settled :=
    fun r hr h => h.checkStep (hpossible r hr) (hallowed r hr)
  refine ⟨(after_induction_history hkeeps hstart).rolledUp, fun r hr keys hkeys => ?_⟩
  rw [output_of_mem_history hr] at hkeys
  rw [reports_checkStep _ _ _ hkeys]
  exact (hkeeps r hr (before_of_mem_history_of_keeps hkeeps hstart hr)).emitsChecked

-- "a/b" and "a/c/d" come, "a/b" is clicked away, all under "a" is hidden and "a/b" goes
theorem rolledUp_after_checks_of_two :
    (after (checkStep asciiCaseFold) (setStreamingRootLabel {})
        [.onTileAdded [0x61, 0x2F, 0x62], .onTileAdded [0x61, 0x2F, 0x63, 0x2F, 0x64],
          .toggle 0 [0, 1], .checkSignalByKey [0x61, 0x2F, 0x62],
          .uncheckSignalsByKeys {[0x61, 0x2F, 0x62], [0x61, 0x2F, 0x63, 0x2F, 0x64]}
            (fun _ => [[0, 0], [0]]),
          .onTileRemoved [0x61, 0x2F, 0x62]]).RolledUp :=
  (rolledUp_after_checks {} (by decide +kernel) (by decide +kernel)).1

/-- The key "a/c" comes to a group whose only leaf is unchecked: the group and the root stay
unchecked over a checked leaf, and nothing is emitted as checked. A leaf goes from a group that was
partly checked; a group is worked out before the one inside it. -/
theorem not_rolledUp_after_checks :
    (¬(after (checkStep asciiCaseFold) (setStreamingRootLabel {})
          [.onTileAdded [0x61, 0x2F, 0x62], .toggle 0 [0, 0],
            .onTileAdded [0x61, 0x2F, 0x63]]).RolledUp ∧
        (checkStep asciiCaseFold
          (after (checkStep asciiCaseFold) (setStreamingRootLabel {})
            [.onTileAdded [0x61, 0x2F, 0x62], .toggle 0 [0, 0]])
          (.onTileAdded [0x61, 0x2F, 0x63])).2 = some ∅) ∧
      ¬(after (checkStep asciiCaseFold) (setStreamingRootLabel {})
          [.onTileAdded [0x61, 0x2F, 0x62], .onTileAdded [0x61, 0x2F, 0x63],
            .uncheckSignalByKey [0x61, 0x2F, 0x62],
            .onTileRemoved [0x61, 0x2F, 0x62]]).RolledUp ∧
      (after (checkStep asciiCaseFold) (setStreamingRootLabel {})
          [.onTileAdded [0x61, 0x2F, 0x62, 0x2F, 0x63]]).Possible
        (.uncheckSignalsByKeys {[0x61, 0x2F, 0x62, 0x2F, 0x63]} (fun _ => [[0], [0, 0]])) ∧
      ¬(after (checkStep asciiCaseFold) (setStreamingRootLabel {})
          [.onTileAdded [0x61, 0x2F, 0x62, 0x2F, 0x63],
            .uncheckSignalsByKeys {[0x61, 0x2F, 0x62, 0x2F, 0x63]}
              (fun _ => [[0], [0, 0]])]).RolledUp := by
  decide +kernel

end Dock

/-! ### Hidden keys that are there before their tiles -/

namespace Rows

variable {rows children : Rows} {name : ByteString} {state : CheckState}

theorem Settled.exists_leaf (h : rows.Settled) (hne : rows ≠ nil) :
    ∃ leaf, leaf ∈ rows.signals := by
  induction rows with
  | nil => exact absurd rfl hne
  | signal key state rest ih => exact ⟨(key, state), List.mem_cons_self⟩
  | group name state children rest ihchildren ih =>
    obtain ⟨leaf, hleaf⟩ := ihchildren h.1.2.2 h.1.1
    exact ⟨leaf, List.mem_append_left _ hleaf⟩

theorem Settled.findGroup (h : rows.Settled)
    (hfind : rows.findGroup name = some (state, children)) :
    (children ≠ nil ∧ state = children.updatedState ∧ children.Settled) ∧
      ∀ leaf ∈ children.signals, leaf ∈ rows.signals := by
  induction rows with
  | nil => cases hfind
  | signal key state' rest ih =>
    obtain ⟨hgroup, hsub⟩ := ih h.2 hfind
    exact ⟨hgroup, fun leaf hleaf => List.mem_cons_of_mem _ (hsub leaf hleaf)⟩
  | group name' state' children' rest _ ih =>
    rw [Rows.findGroup] at hfind
    split at hfind
    · cases hfind
      exact ⟨h.1, fun leaf hleaf => List.mem_append_left _ hleaf⟩
    · obtain ⟨hgroup, hsub⟩ := ih h.2 hfind
      exact ⟨hgroup, fun leaf hleaf => List.mem_append_right _ (hsub leaf hleaf)⟩

/-- Over leaves that are all checked, no group is unchecked. -/
theorem Settled.notMem_pathStates (h : rows.Settled)
    (hleaves : ∀ leaf ∈ rows.signals, leaf.2 = .checked) (names : List ByteString) :
    .unchecked ∉ rows.pathStates names := by
  induction names generalizing rows with
  | nil => exact List.not_mem_nil
  | cons name names ih =>
    rw [pathStates]
    split
    · exact List.not_mem_nil
    · next state children hfind =>
      obtain ⟨⟨hne, hstate, hsettled⟩, hsub⟩ := h.findGroup hfind
      rw [List.mem_cons, not_or]
      refine ⟨fun hunchecked => ?_, ih hsettled fun leaf hleaf => hleaves leaf (hsub leaf hleaf)⟩
      obtain ⟨leaf, hleaf⟩ := hsettled.exists_leaf hne
      refine hsettled.sound.updated ?_ leaf hleaf (hleaves leaf (hsub leaf hleaf))
      rw [← hstate, ← hunchecked]

end Rows

namespace Dock

variable {ν : Type*} [LinearOrder ν] {caseFold : ByteString → ν}
variable {hiddenKeys : Finset ByteString} {dock : Dock} {root : RunItem}

/-- The leaves are the discovered keys, unchecked if they are among those that are hidden. -/
structure HidesJust (hiddenKeys : Finset ByteString) (dock : Dock) (root : RunItem) : Prop where
  tree : dock.tree = .streaming root
  streamingHiddenKeys : dock.streamingHiddenKeys = hiddenKeys
  settled : root.Settled
  keys : ∀ key, key ∈ root.rows.signals.map Prod.fst ↔ key ∈ dock.discoveredKeys
  states : ∀ leaf ∈ root.rows.signals, leaf.2 = if leaf.1 ∈ hiddenKeys then .unchecked else .checked

theorem HidesJust.mem_hiddenDiscoveredKeys (h : dock.HidesJust hiddenKeys root)
    (key : ByteString) :
    key ∈ dock.hiddenDiscoveredKeys ↔ key ∈ dock.discoveredKeys ∧ key ∈ hiddenKeys := by
  rw [hiddenDiscoveredKeys, checkedSignalKeys, h.tree]
  dsimp only
  rw [Finset.mem_sdiff, h.settled.mem_checkedKeys]
  refine and_congr_right fun hmem => ?_
  obtain ⟨leaf, hleaf, rfl⟩ := List.mem_map.mp ((h.keys key).mpr hmem)
  have hstate := h.states leaf hleaf
  by_cases hhidden : leaf.1 ∈ hiddenKeys
  · refine iff_of_true (fun hchecked => ?_) hhidden
    have := h.states _ hchecked
    rw [if_pos hhidden] at this
    cases this
  · refine iff_of_false (not_not_intro ?_) hhidden
    rw [if_neg hhidden] at hstate
    rw [← hstate]
    exact hleaf

theorem HidesJust.placeTile (caseFold : ByteString → ν) (h : dock.HidesJust hiddenKeys root)
    {key : ByteString} (hkey : segments key ≠ []) :
    (∃ root', (dock.placeTile caseFold key).1.HidesJust hiddenKeys root') ∧
      (dock.placeTile caseFold key).1.discoveredKeys = insert key dock.discoveredKeys := by
  by_cases hknown : key ∈ dock.discoveredKeys
  · rw [placeTile_of_known fun _ => hknown, Finset.insert_eq_of_mem hknown]
    exact ⟨⟨root, h⟩, rfl⟩
  rw [placeTile_of_new h.tree hkey hknown]
  refine ⟨⟨_, rfl, h.streamingHiddenKeys, RunItem.settled_updated ?_, ?_, ?_⟩, rfl⟩
  · refine h.settled.2.placeSignal (ne_nil_of_segments hkey) ?_
    by_cases hempty : dock.streamingHiddenKeys = ∅
    · -- nothing is hidden, so every leaf is checked
      right
      have hleaves : ∀ leaf ∈ root.rows.signals, leaf.2 = .checked := by
        intro leaf hleaf
        rw [h.states leaf hleaf, ← h.streamingHiddenKeys, hempty]
        exact if_neg (Finset.notMem_empty _)
      rw [hempty]
      exact ⟨rfl, h.settled.2.notMem_pathStates hleaves _⟩
    · exact .inl (decide_eq_true hempty)
  · intro key'
    refine ((Rows.signals_placeSignal ..).map Prod.fst).mem_iff.trans ?_
    rw [List.map_cons, List.mem_cons, h.keys]
    exact Finset.mem_insert.symm
  · intro leaf hleaf
    rcases List.mem_cons.mp ((Rows.signals_placeSignal ..).mem_iff.mp hleaf) with rfl | hleaf
    · rw [h.streamingHiddenKeys]
    · exact h.states leaf hleaf

theorem HidesJust.placeTiles (caseFold : ByteString → ν) (h : dock.HidesJust hiddenKeys root)
    {keys : List ByteString} (hkeys : ∀ key ∈ keys, segments key ≠ []) :
    (∃ root', (keys.foldl (fun dock key => (dock.placeTile caseFold key).1) dock).HidesJust
        hiddenKeys root') ∧
      (keys.foldl (fun dock key => (dock.placeTile caseFold key).1) dock).discoveredKeys =
        dock.discoveredKeys ∪ keys.toFinset := by
  induction keys generalizing dock root with
  | nil => exact ⟨⟨root, h⟩, by simp⟩
  | cons key keys ih =>
    rw [List.forall_mem_cons] at hkeys
    obtain ⟨⟨root', hroot⟩, hdiscovered⟩ := h.placeTile caseFold hkeys.1
    obtain ⟨hrest, hall⟩ := ih hroot hkeys.2
    refine ⟨hrest, hall.trans ?_⟩
    rw [hdiscovered, List.toFinset_cons, Finset.insert_union, Finset.union_insert]

theorem hidesJust_setHiddenDiscoveredKeys (dock : Dock) (hiddenKeys : Finset ByteString) :
    (∃ root, (dock.setStreamingRootLabel.setHiddenDiscoveredKeys hiddenKeys).1.HidesJust
        hiddenKeys root) ∧
      (dock.setStreamingRootLabel.setHiddenDiscoveredKeys hiddenKeys).1.discoveredKeys = ∅ := by
  have hempty {root : RunItem} (hroot : root.rows = .nil) :
      HidesJust hiddenKeys
        { tree := .streaming root, discoveredKeys := ∅, streamingHiddenKeys := hiddenKeys }
        root := by
    refine ⟨rfl, rfl, ⟨fun hne => absurd hroot hne, hroot ▸ trivial⟩, ?_, ?_⟩
    · simp [hroot, Rows.signals]
    · simp [hroot, Rows.signals]
  simp only [setHiddenDiscoveredKeys, setStreamingRootLabel]
  split_ifs
  · exact ⟨⟨_, hempty rfl⟩, rfl⟩
  · exact ⟨⟨_, hempty rfl⟩, rfl⟩

/-- The dock after a reconnect: the root, the hidden keys, then a tile for each of the keys. -/
def reconnect (caseFold : ByteString → ν) (dock : Dock) (hiddenKeys : Finset ByteString)
    (keys : List ByteString) : Dock :=
  keys.foldl (fun dock key => (dock.placeTile caseFold key).1)
    (dock.setStreamingRootLabel.setHiddenDiscoveredKeys hiddenKeys).1

theorem hiddenDiscoveredKeys_reconnect (dock : Dock) (hiddenKeys : Finset ByteString)
    {keys : List ByteString} (hkeys : ∀ key ∈ keys, segments key ≠ []) :
    (dock.reconnect caseFold hiddenKeys keys).hiddenDiscoveredKeys = keys.toFinset ∩ hiddenKeys ∧
      ∀ keys' : List ByteString, keys'.toFinset = keys.toFinset →
        (dock.reconnect caseFold hiddenKeys keys').hiddenDiscoveredKeys =
          (dock.reconnect caseFold hiddenKeys keys).hiddenDiscoveredKeys := by
  have hall {keys : List ByteString} (hkeys : ∀ key ∈ keys, segments key ≠ []) :
      (dock.reconnect caseFold hiddenKeys keys).hiddenDiscoveredKeys =
        keys.toFinset ∩ hiddenKeys := by
    obtain ⟨⟨root, hroot⟩, hnone⟩ := hidesJust_setHiddenDiscoveredKeys dock hiddenKeys
    obtain ⟨⟨root', hroot'⟩, hdiscovered⟩ := hroot.placeTiles caseFold hkeys
    ext key
    rw [hnone, Finset.empty_union] at hdiscovered
    rw [reconnect, hroot'.mem_hiddenDiscoveredKeys, hdiscovered, Finset.mem_inter]
  refine ⟨hall hkeys, fun keys' hsame => ?_⟩
  have hkeys' : ∀ key ∈ keys', segments key ≠ [] := by
    intro key hmem
    rw [← List.mem_toFinset, hsame, List.mem_toFinset] at hmem
    exact hkeys key hmem
  rw [hall hkeys, hall hkeys', hsame]

theorem hiddenDiscoveredKeys_reconnect_of_three :
    (reconnect asciiCaseFold {} {[0x61, 0x2F, 0x62], [0x7A]}
        [[0x63], [0x61, 0x2F, 0x62], [0x63]]).hiddenDiscoveredKeys =
      [[0x63], [0x61, 0x2F, 0x62], [0x63]].toFinset ∩ {[0x61, 0x2F, 0x62], [0x7A]} :=
  (hiddenDiscoveredKeys_reconnect {} _ (by decide)).1

end Dock

end SmartDashboard.App.RunBrowser
