import SmartDashboard.App.Tiles
import SmartDashboard.Library.Execution

/-!
# Keys that stay hidden

Which tiles are hidden is known twice: to the window, in a set of keys, and to the tree of the
dock, which has a leaf only for the keys that have a tile. Every emission of a live session copies
the second over the first, and every start of a transport fills the second from the first; a hidden
key whose tile is yet to come is lost in between. A tile that comes while the Run Browser is active
shows by what is checked, which is right only if the dock says so.

## Main definitions

- `Sovereign`: the tiles of the hidden keys are hidden and all others are shown
- `Mirrors`: the dock's tree has the tiles of the window, and their check boxes
- `Settled`: a window between two events that shows what its hidden keys say
- `Kept`: no hidden key is lost when a transport starts, and no tile comes at a wrong time
-/

namespace SmartDashboard.App.RunBrowser

open Connection (Outcome)
open Direct (ByteString)
open Execution (EveryStep run)

/-- The tiles of the hidden keys are hidden; those of other keys are shown, unless they are in a
plot or have no segment that could be in the tree. -/
structure Sovereign (hidden : Finset ByteString) (w : Window) : Prop where
  conceals : ∀ key ∈ hidden, ∀ tile, w.tiles.find key = some tile → tile.visible = false
  shown : ∀ key ∉ hidden, segments key ≠ [] → w.plotSourceOwners key = none →
    ∀ tile, w.tiles.find key = some tile → tile.visible = true

/-- The tree under `root` is that of the keys listed, and what it hides is `hidden`. -/
structure Mirrors (hidden : Finset ByteString) (listed : ByteString → Prop) (dock : Dock)
    (root : RunItem) : Prop where
  tree : dock.tree = .streaming root
  discovered : ∀ key, key ∈ dock.discoveredKeys ↔ listed key ∧ key ≠ []
  leaves : ∀ leaf ∈ root.rows.signals, listed leaf.1 ∧ segments leaf.1 ≠ [] ∧
    (leaf.2 = .checked ↔ leaf.1 ∉ hidden)
  covers : ∀ key, listed key → segments key ≠ [] → ∃ state, (key, state) ∈ root.rows.signals
  unchecked : root.checkState = .unchecked → ∀ leaf ∈ root.rows.signals, leaf.2 ≠ .checked
  sound : dock.streamingHiddenKeys ≠ ∅ → root.rows.Sound
  pending : ∀ key, ¬listed key → segments key ≠ [] →
    (key ∈ dock.streamingHiddenKeys ↔ key ∈ hidden)

def Window.listed (w : Window) (key : ByteString) : Prop := (w.tiles.find key).isSome

/-- A window between two events whose tiles are as its hidden keys say, in a live session of the
Run Browser as well as outside one. -/
structure Settled (w : Window) : Prop where
  sovereign : Sovereign w.runBrowserHiddenKeys w
  reading : w.dock.streamingMode = false → w.dock.streamingHiddenKeys = ∅
  mirrors : w.runBrowserActive = true → w.dock.streamingMode = true →
    ∃ root, Mirrors w.runBrowserHiddenKeys w.listed w.dock root
  checked : w.runBrowserActive = true → w.dock.streamingMode = true →
    ∀ key ∈ w.runBrowserCheckedKeys, key ∉ w.runBrowserHiddenKeys

def Tree.ShowsNew : Tree → List ByteString → Prop
  | .reading _, _ => True
  | .streaming root, names => root.rows.ShowsNew names

instance : ∀ (tree : Tree) (names : List ByteString), Decidable (tree.ShowsNew names)
  | .reading _, _ => isTrue trivial
  | .streaming root, names => inferInstanceAs (Decidable (root.rows.ShowsNew names))

/-- A tile that comes in a live session that was set up with no hidden keys does not leave the root
unchecked. -/
def KeepsRoot (w : Window) (key : ByteString) : Prop :=
  w.tiles.find key = none → w.runBrowserActive = true → w.dock.streamingHiddenKeys = ∅ →
    w.dock.tree.ShowsNew (segments key).dropLast

instance (w : Window) (key : ByteString) : Decidable (KeepsRoot w key) :=
  inferInstanceAs (Decidable (_ → _ → _ → _))

/-- A tile that comes while the Run Browser is active but no live session is set up finds its key
checked if it is not hidden, and only then. -/
def RightlyChecked (hidden : Finset ByteString) (w : Window) (key : ByteString) : Prop :=
  w.tiles.find key = none → w.plotSourceOwners key = none → w.runBrowserActive = true →
    w.dock.streamingMode = false →
      (key ∈ hidden → key ∉ w.runBrowserCheckedKeys) ∧
        (key ∉ hidden → segments key ≠ [] → key ∈ w.runBrowserCheckedKeys)

instance (hidden : Finset ByteString) (w : Window) (key : ByteString) :
    Decidable (RightlyChecked hidden w key) :=
  inferInstanceAs (Decidable (_ → _ → _ → _ → _))

/-- No hidden key is lost when the controls are replayed and the live session is set up. -/
def KeepsHidden (hidden : Finset ByteString) : Window → List (ByteString × VariableType) → Prop
  | w, [] => ∀ key ∈ hidden, key ∈ w.runBrowserHiddenKeys
  | w, control :: controls =>
    KeepsRoot w control.1 ∧ KeepsHidden hidden (w.getOrCreateTile control.1 control.2) controls

instance decidableKeepsHidden (hidden : Finset ByteString) :
    ∀ (w : Window) (controls : List (ByteString × VariableType)),
      Decidable (KeepsHidden hidden w controls)
  | w, [] => inferInstanceAs (Decidable (∀ key ∈ hidden, key ∈ w.runBrowserHiddenKeys))
  | w, control :: controls =>
    have := decidableKeepsHidden hidden (w.getOrCreateTile control.1 control.2) controls
    inferInstanceAs (Decidable (_ ∧ _))

def Kept (hidden : Finset ByteString) (w : Window) : TransportEvent → Prop
  | .startTransport retained .started => KeepsHidden hidden w retained
  | .startTransport _ .notCreated => True
  | .startTransport _ .failed => True
  | .stopTransport => True
  | .connectionStateChanged _ => True
  | .variableUpdate key _ => KeepsRoot w key ∧ RightlyChecked hidden w key

instance (hidden : Finset ByteString) (w : Window) :
    ∀ event : TransportEvent, Decidable (Kept hidden w event)
  | .startTransport retained .started => decidableKeepsHidden hidden w retained
  | .startTransport _ .notCreated => isTrue trivial
  | .startTransport _ .failed => isTrue trivial
  | .stopTransport => isTrue trivial
  | .connectionStateChanged _ => isTrue trivial
  | .variableUpdate _ _ => inferInstanceAs (Decidable (_ ∧ _))

def next (w : Window) (event : TransportEvent) : Option Window := some (event.handle w)

/-! ### The dock -/

section Dock

variable {hidden : Finset ByteString} {listed : ByteString → Prop} {dock : Dock} {root : RunItem}
  {key : ByteString}

theorem segments_nil : segments [] = [] := by decide

theorem Mirrors.mem_checkedSignalKeys (h : Mirrors hidden listed dock root) :
    key ∈ dock.checkedSignalKeys ↔ listed key ∧ segments key ≠ [] ∧ key ∉ hidden := by
  have hmem : key ∈ dock.checkedSignalKeys ↔ (key, .checked) ∈ root.rows.signals := by
    simp only [Dock.checkedSignalKeys, h.tree, RunItem.checkedKeys]
    split
    · next hroot =>
      have hnone := h.unchecked hroot (key, .checked)
      simp only [Finset.notMem_empty, false_iff]
      exact fun hleaf => hnone hleaf rfl
    · rw [Rows.mem_checkedKeys, and_iff_right_iff_imp]
      rintro hleaf rfl
      exact (h.leaves _ hleaf).2.1 segments_nil
  rw [hmem]
  constructor
  · intro hleaf
    obtain ⟨hlisted, hsegments, hstate⟩ := h.leaves _ hleaf
    exact ⟨hlisted, hsegments, hstate.mp rfl⟩
  · rintro ⟨hlisted, hsegments, hhidden⟩
    obtain ⟨state, hleaf⟩ := h.covers key hlisted hsegments
    have hstate := (h.leaves _ hleaf).2.2.mpr hhidden
    simp only at hstate
    rwa [← hstate]

theorem Mirrors.streamingMode (h : Mirrors hidden listed dock root) :
    dock.streamingMode = true := by
  simp [Dock.streamingMode, h.tree]

theorem Mirrors.mem_hiddenDiscoveredKeys (h : Mirrors hidden listed dock root)
    (hkey : key ∈ dock.hiddenDiscoveredKeys) : segments key = [] ∨ key ∈ hidden := by
  simp only [Dock.hiddenDiscoveredKeys, h.tree, Finset.mem_sdiff, h.mem_checkedSignalKeys,
    h.discovered] at hkey
  by_contra hnot
  push Not at hnot
  exact hkey.2 ⟨hkey.1.1, hnot⟩

theorem Mirrors.congr (h : Mirrors hidden listed dock root) {listed' : ByteString → Prop}
    (hlisted : ∀ key, listed' key ↔ listed key) : Mirrors hidden listed' dock root := by
  have heq : listed' = listed := by
    ext key
    exact hlisted key
  rwa [heq]

/-- The dock after the tile of a key that has a place in the tree. -/
def Dock.withTile (dock : Dock) (root : RunItem) (key : ByteString) : Dock :=
  { dock with
    tree := .streaming (.updated (root.rows.addSignal (dock.streamingHiddenKeys ≠ ∅) key
      (if key ∈ dock.streamingHiddenKeys then .unchecked else .checked) (segments key).dropLast))
    discoveredKeys := insert key dock.discoveredKeys }

theorem Mirrors.onTileAdded_new (h : Mirrors hidden listed dock root) (hkey : ¬listed key)
    (hsegments : segments key ≠ []) :
    dock.onTileAdded key =
      (dock.withTile root key, some (dock.withTile root key).checkedSignalKeys) := by
  have hne : key ≠ [] := by
    rintro rfl
    exact hsegments segments_nil
  have hdiscovered : key ∉ dock.discoveredKeys := by
    rw [h.discovered]
    exact fun hand => hkey hand.1
  simp only [Dock.onTileAdded, if_neg hne, h.tree, if_neg hdiscovered, if_neg hsegments]
  rfl

theorem Mirrors.onTileAdded_listed (h : Mirrors hidden listed dock root) (hkey : listed key) :
    dock.onTileAdded key = (dock, none) := by
  by_cases hne : key = []
  · rw [Dock.onTileAdded, if_pos hne]
  · have hdiscovered : key ∈ dock.discoveredKeys := (h.discovered key).mpr ⟨hkey, hne⟩
    simp only [Dock.onTileAdded, if_neg hne, h.tree, if_pos hdiscovered]

theorem Dock.onTileAdded_segments_nil (hsegments : segments key = []) :
    (dock.onTileAdded key).2 = none := by
  unfold Dock.onTileAdded
  split
  · rfl
  split
  · rfl
  split
  · rfl
  · rfl

theorem Mirrors.withTile (h : Mirrors hidden listed dock root) (hkey : ¬listed key)
    (hsegments : segments key ≠ [])
    (hshows : dock.streamingHiddenKeys = ∅ → root.rows.ShowsNew (segments key).dropLast) :
    ∃ root', Mirrors hidden (fun key' => listed key' ∨ key' = key) (dock.withTile root key)
      root' := by
  refine ⟨_, rfl, ?_, ?_, ?_, ?_, ?_, ?_⟩
  · -- the discovered keys
    intro key'
    simp only [Dock.withTile, Finset.mem_insert, h.discovered]
    constructor
    · rintro (rfl | ⟨hlisted, hne⟩)
      · refine ⟨.inr rfl, ?_⟩
        rintro rfl
        exact hsegments segments_nil
      · exact ⟨.inl hlisted, hne⟩
    · rintro ⟨hlisted | rfl, hne⟩
      · exact .inr ⟨hlisted, hne⟩
      · exact .inl rfl
  · -- the leaves, of which one is new
    intro leaf hleaf
    rw [RunItem.updated, Rows.mem_signals_addSignal] at hleaf
    rcases hleaf with rfl | hleaf
    · refine ⟨.inr rfl, hsegments, ?_⟩
      rw [← h.pending key hkey hsegments]
      split <;> simp [*]
    · obtain ⟨hlisted, hrest⟩ := h.leaves leaf hleaf
      exact ⟨.inl hlisted, hrest⟩
  · -- a leaf for every listed key
    intro key' hlisted hsegments'
    rcases hlisted with hlisted | rfl
    · obtain ⟨state, hleaf⟩ := h.covers key' hlisted hsegments'
      exact ⟨state, Rows.mem_signals_addSignal.mpr (.inr hleaf)⟩
    · exact ⟨_, Rows.mem_signals_addSignal.mpr (.inl rfl)⟩
  · -- a root without hidden keys is kept checked by the new leaf, and one with them is worked out
    -- from sound groups
    intro hroot
    by_cases hempty : dock.streamingHiddenKeys = ∅
    · refine absurd hroot ?_
      simp only [RunItem.updated, hempty, Finset.notMem_empty, if_false, ne_eq,
        not_true_eq_false, decide_false]
      exact (hshows hempty).addSignal
    · simp only [RunItem.updated, ne_eq, hempty, not_false_eq_true, decide_true] at hroot ⊢
      exact ((h.sound hempty).addSignal _).updated hroot
  · intro hempty
    have hdecide : decide (dock.streamingHiddenKeys ≠ ∅) = true := decide_eq_true hempty
    rw [RunItem.updated, hdecide]
    exact (h.sound hempty).addSignal _
  · -- what is still to come
    intro key' hlisted hsegments'
    exact h.pending key' (fun hmem => hlisted (.inl hmem)) hsegments'

/-- A key without a segment has no place in the tree. -/
theorem Mirrors.discover (h : Mirrors hidden listed dock root) (hsegments : segments key = [])
    {discovered : Finset ByteString}
    (hdiscovered : ∀ key', key' ∈ discovered ↔ (listed key' ∨ key' = key) ∧ key' ≠ []) :
    Mirrors hidden (fun key' => listed key' ∨ key' = key)
      { dock with discoveredKeys := discovered } root := by
  refine ⟨h.tree, hdiscovered, ?_, ?_, h.unchecked, h.sound, ?_⟩
  · exact fun leaf hleaf => ⟨.inl (h.leaves leaf hleaf).1, (h.leaves leaf hleaf).2⟩
  · rintro key' (hlisted | rfl) hsegments'
    · exact h.covers key' hlisted hsegments'
    · exact absurd hsegments hsegments'
  · exact fun key' hlisted => h.pending key' fun hmem => hlisted (.inl hmem)

/-- What the dock is told of a tile keeps it a mirror. -/
theorem Mirrors.onTileAdded (h : Mirrors hidden listed dock root) (key : ByteString)
    (hshows : ¬listed key → dock.streamingHiddenKeys = ∅ →
      root.rows.ShowsNew (segments key).dropLast) :
    ∃ root', Mirrors hidden (fun key' => listed key' ∨ key' = key) (dock.onTileAdded key).1
      root' := by
  by_cases hkey : listed key
  · refine ⟨root, ?_⟩
    rw [h.onTileAdded_listed hkey]
    refine h.congr fun key' => ?_
    rw [or_iff_left_iff_imp]
    rintro rfl
    exact hkey
  by_cases hsegments : segments key = []
  · refine ⟨root, ?_⟩
    by_cases hne : key = []
    · rw [Dock.onTileAdded, if_pos hne]
      refine h.discover hsegments fun key' => ?_
      rw [h.discovered, hne]
      tauto
    · have hdiscovered : key ∉ dock.discoveredKeys := by
        rw [h.discovered]
        exact fun hand => hkey hand.1
      simp only [Dock.onTileAdded, if_neg hne, h.tree, if_neg hdiscovered, if_pos hsegments]
      rw [← h.tree]
      refine h.discover hsegments fun key' => ?_
      rw [Finset.mem_insert, h.discovered]
      constructor
      · rintro (rfl | ⟨hlisted, hne'⟩)
        · exact ⟨.inr rfl, hne⟩
        · exact ⟨.inl hlisted, hne'⟩
      · rintro ⟨hlisted | rfl, hne'⟩
        · exact .inr ⟨hlisted, hne'⟩
        · exact .inl rfl
  · rw [h.onTileAdded_new hkey hsegments]
    exact h.withTile hkey hsegments (hshows hkey)

theorem Dock.onTileAdded_reading (h : dock.streamingMode = false) :
    dock.onTileAdded key = (dock, none) := by
  unfold Dock.streamingMode at h
  unfold Dock.onTileAdded
  split
  · rfl
  split
  · rfl
  · next htree => simp [htree] at h

theorem Dock.streamingMode_onTileAdded :
    (dock.onTileAdded key).1.streamingMode = dock.streamingMode := by
  unfold Dock.onTileAdded
  split
  · rfl
  split
  · rfl
  · next htree =>
    split
    · rfl
    split
    · rfl
    · simp [Dock.collectAndEmitCheckedSignals, Dock.streamingMode, htree]

/-- Without hidden keys to apply, every row is checked. -/
def Dock.Plain (dock : Dock) : Prop :=
  dock.streamingHiddenKeys = ∅ → ∀ root, dock.tree = .streaming root →
    ∀ state ∈ root.rows.states, state = .checked

theorem Dock.Plain.showsNew (h : dock.Plain) (hempty : dock.streamingHiddenKeys = ∅)
    (htree : dock.tree = .streaming root) (names : List ByteString) :
    root.rows.ShowsNew names := by
  have hstates := h hempty root htree
  cases hrows : root.rows.states with
  | nil =>
    left
    have hnames : root.rows.groupNames = [] := Rows.groupNames_of_states_nil hrows
    simp [hnames]
  | cons state states =>
    have hmem : state ∈ root.rows.states := by simp [hrows]
    right
    refine ⟨state, hmem, ?_⟩
    rw [hstates state hmem]
    simp

theorem Dock.Plain.onTileAdded (h : dock.Plain) : (dock.onTileAdded key).1.Plain := by
  unfold Dock.onTileAdded
  split
  · exact h
  split
  · exact h
  · next root htree =>
    split
    · exact h
    split
    · exact h
    · intro hempty root' hroot' state hstate
      simp only [Dock.collectAndEmitCheckedSignals, Tree.streaming.injEq] at hempty hroot'
      subst hroot'
      simp only [RunItem.updated, hempty, Finset.notMem_empty, if_false, ne_eq,
        not_true_eq_false, decide_false] at hstate
      rcases Rows.states_addSignal_false root.rows key (segments key).dropLast
        with heq | heq
      · rw [heq] at hstate
        exact h hempty root htree state hstate
      · rw [heq, List.mem_append, List.mem_singleton] at hstate
        exact hstate.elim (h hempty root htree state) id

end Dock

/-! ### The window -/

/-- What the window wants of the tile of a key is what `hidden` says. -/
structure ShowsRightly (hidden : Finset ByteString) (w : Window) (key : ByteString) : Prop where
  conceals : key ∈ hidden → w.shows key = false
  shown : key ∉ hidden → segments key ≠ [] → w.plotSourceOwners key = none → w.shows key = true

/-- What the tiles of the window do not say: neither set has lost a key that the other needs. -/
structure Intact (hidden : Finset ByteString) (w : Window) : Prop where
  bound : ∀ key ∈ w.runBrowserHiddenKeys, segments key ≠ [] → key ∈ hidden
  kept : w.runBrowserActive = false ∨ w.dock.streamingMode = false →
    ∀ key ∈ hidden, key ∈ w.runBrowserHiddenKeys
  reading : w.dock.streamingMode = false → w.dock.streamingHiddenKeys = ∅
  mirrors : w.runBrowserActive = true → w.dock.streamingMode = true →
    ∃ root, Mirrors hidden w.listed w.dock root
  checked : w.runBrowserActive = true → w.dock.streamingMode = true →
    ∀ key ∈ w.runBrowserCheckedKeys, key ∉ hidden

section Window

variable {hidden : Finset ByteString} {w : Window} {key : ByteString} {type : VariableType}
  {checkedKeys : Finset ByteString}

theorem Settled.intact (h : Settled w) : Intact w.runBrowserHiddenKeys w where
  bound _ hkey _ := hkey
  kept _ _ hkey := hkey
  reading := h.reading
  mirrors := h.mirrors
  checked := h.checked

theorem showsRightly_of_inactive (hactive : w.runBrowserActive = false)
    (hkept : ∀ key ∈ hidden, key ∈ w.runBrowserHiddenKeys)
    (hbound : ∀ key ∈ w.runBrowserHiddenKeys, segments key ≠ [] → key ∈ hidden) :
    ShowsRightly hidden w key where
  conceals hkey := by
    unfold Window.shows
    split
    · rfl
    · simp [hactive, hkept key hkey]
  shown hkey hsegments howner := by
    have hnot : key ∉ w.runBrowserHiddenKeys := fun hmem => hkey (hbound key hmem hsegments)
    simp [Window.shows, howner, hactive, hnot]

theorem showsRightly_of_active (hactive : w.runBrowserActive = true)
    (hconceals : key ∈ hidden → key ∉ w.runBrowserCheckedKeys)
    (hshown : key ∉ hidden → segments key ≠ [] → w.plotSourceOwners key = none →
      key ∈ w.runBrowserCheckedKeys) :
    ShowsRightly hidden w key where
  conceals hkey := by
    unfold Window.shows
    split
    · rfl
    · simp [hconceals hkey]
  shown hkey hsegments howner := by
    simp [Window.shows, howner, hactive, hshown hkey hsegments howner]

/-- After an emission every tile is as the window wants it. -/
theorem sovereign_onRunBrowserCheckedSignalsChanged
    (h : ∀ key, w.listed key →
      ShowsRightly hidden { w with runBrowserCheckedKeys := checkedKeys } key) :
    Sovereign hidden (w.onRunBrowserCheckedSignalsChanged checkedKeys) := by
  have hright : ∀ key tile,
      (w.onRunBrowserCheckedSignalsChanged checkedKeys).tiles.find key = some tile →
        ShowsRightly hidden { w with runBrowserCheckedKeys := checkedKeys } key ∧
          tile.visible =
            Window.shows { w with runBrowserCheckedKeys := checkedKeys } key := by
    intro key tile htile
    rw [Window.find_onRunBrowserCheckedSignalsChanged, Option.map_eq_some_iff] at htile
    obtain ⟨old, hold, rfl⟩ := htile
    have hlisted : w.listed key := by simp [Window.listed, hold]
    exact ⟨h key hlisted, rfl⟩
  constructor
  · intro key hkey tile htile
    obtain ⟨hshows, hvisible⟩ := hright key tile htile
    exact hvisible.trans (hshows.conceals hkey)
  · intro key hkey hsegments howner tile htile
    obtain ⟨hshows, hvisible⟩ := hright key tile htile
    rw [(Window.onRunBrowserCheckedSignalsChanged_frame _ _).2.1] at howner
    exact hvisible.trans (hshows.shown hkey hsegments howner)

theorem Sovereign.congr (h : Sovereign hidden w) {w' : Window}
    (htiles : ∀ key, w'.tiles.find key = w.tiles.find key)
    (howners : w'.plotSourceOwners = w.plotSourceOwners) : Sovereign hidden w' where
  conceals key hkey tile htile := h.conceals key hkey tile ((htiles key).symm.trans htile)
  shown key hkey hsegments howner tile htile :=
    h.shown key hkey hsegments (howners ▸ howner) tile ((htiles key).symm.trans htile)

/-- An emission of a live session. -/
theorem Mirrors.emission {root : RunItem} (h : Mirrors hidden w.listed w.dock root)
    (hactive : w.runBrowserActive = true) :
    Sovereign hidden (w.onRunBrowserCheckedSignalsChanged w.dock.checkedSignalKeys) ∧
      Intact hidden (w.onRunBrowserCheckedSignalsChanged w.dock.checkedSignalKeys) := by
  obtain ⟨_, howners, _, _, hactive', hdock, hchecked⟩ :=
    Window.onRunBrowserCheckedSignalsChanged_frame w w.dock.checkedSignalKeys
  constructor
  · refine sovereign_onRunBrowserCheckedSignalsChanged fun key hlisted => ?_
    refine showsRightly_of_active hactive ?_ ?_
    · intro hkey hmem
      exact (h.mem_checkedSignalKeys.mp hmem).2.2 hkey
    · intro hkey hsegments _
      exact h.mem_checkedSignalKeys.mpr ⟨hlisted, hsegments, hkey⟩
  · refine ⟨?_, ?_, ?_, ?_, ?_⟩
    · intro key hkey hsegments
      rw [Window.hiddenKeys_onRunBrowserCheckedSignalsChanged,
        if_pos ⟨hactive, h.streamingMode⟩] at hkey
      exact (h.mem_hiddenDiscoveredKeys hkey).resolve_left hsegments
    · rw [hactive', hdock, hactive, h.streamingMode]
      simp
    · rw [hdock, h.streamingMode]
      simp
    · intro _ _
      refine ⟨root, ?_⟩
      rw [hdock]
      refine h.congr fun key => ?_
      rw [Window.listed, Window.find_onRunBrowserCheckedSignalsChanged, Option.isSome_map,
        Window.listed]
    · intro _ _ key hkey
      rw [hchecked] at hkey
      exact (h.mem_checkedSignalKeys.mp hkey).2.2

/-! ### A tile that comes -/

theorem Window.listed_withTile {key' : ByteString} :
    (w.withTile key type).listed key' ↔ w.listed key' ∨ key' = key := by
  unfold Window.listed Window.withTile
  rw [KeyedMap.find_insert]
  split
  · next heq => simp [heq]
  · next hne => simp [hne]

theorem Sovereign.withTile (h : Sovereign hidden w) (type : VariableType)
    (hnew : ShowsRightly hidden w key) :
    Sovereign hidden (w.withTile key type) := by
  have hvisible : (w.newTile key type).visible = w.shows key := rfl
  constructor
  · intro key' hkey tile htile
    simp only [Window.withTile, KeyedMap.find_insert] at htile
    split at htile
    · next heq =>
      subst heq
      cases htile
      exact hvisible.trans (hnew.conceals hkey)
    · exact h.conceals key' hkey tile htile
  · intro key' hkey hsegments howner tile htile
    simp only [Window.withTile, KeyedMap.find_insert] at htile
    split at htile
    · next heq =>
      subst heq
      cases htile
      exact hvisible.trans (hnew.shown hkey hsegments howner)
    · exact h.shown key' hkey hsegments howner tile htile

/-- Outside a live session the hidden keys decide, or what was checked in the last one. -/
theorem Intact.showsRightly (h : Intact hidden w)
    (hlive : ¬(w.runBrowserActive = true ∧ w.dock.streamingMode = true))
    (hnone : w.tiles.find key = none) (hright : RightlyChecked hidden w key) :
    ShowsRightly hidden w key := by
  cases hactive : w.runBrowserActive with
  | false => exact showsRightly_of_inactive hactive (h.kept (.inl hactive)) h.bound
  | true =>
    have hstreaming : w.dock.streamingMode = false := by
      rw [hactive] at hlive
      simpa using hlive
    by_cases howner : w.plotSourceOwners key = none
    · obtain ⟨hconceals, hshown⟩ := hright hnone howner hactive hstreaming
      exact showsRightly_of_active hactive hconceals fun hkey hsegments _ => hshown hkey hsegments
    · constructor
      · intro _
        rw [Window.shows, if_pos (Option.isSome_iff_ne_none.mpr howner)]
      · exact fun _ _ hnot => absurd hnot howner

theorem Intact.hear_outside (h : Intact hidden w) {answer : Dock.Answer}
    (hlive : ¬(w.runBrowserActive = true ∧ w.dock.streamingMode = true))
    (hmode : answer.1.streamingMode = w.dock.streamingMode)
    (hreading : answer.1.streamingMode = false → answer.1.streamingHiddenKeys = ∅) :
    Intact hidden (w.hear answer) := by
  have hsafe : w.runBrowserActive = false ∨ answer.1.streamingMode = false := by
    rw [hmode]
    by_contra hnot
    push Not at hnot
    exact hlive (by simpa using hnot)
  have hkeys := Window.hiddenKeys_hear w answer hsafe
  refine ⟨?_, ?_, ?_, ?_, ?_⟩
  · rw [hkeys]
    exact h.bound
  · rw [hkeys, Window.runBrowserActive_hear, Window.dock_hear, hmode]
    exact h.kept
  · rw [Window.dock_hear]
    exact hreading
  · -- the last two are about a live session only
    rw [Window.runBrowserActive_hear, Window.dock_hear, hmode]
    exact fun hactive hstreaming => absurd ⟨hactive, hstreaming⟩ hlive
  · rw [Window.runBrowserActive_hear, Window.dock_hear, hmode]
    exact fun hactive hstreaming => absurd ⟨hactive, hstreaming⟩ hlive

theorem Dock.reading_onTileAdded
    (h : w.dock.streamingMode = false → w.dock.streamingHiddenKeys = ∅)
    (hmode : (w.dock.onTileAdded key).1.streamingMode = false) :
    (w.dock.onTileAdded key).1.streamingHiddenKeys = ∅ := by
  rw [Dock.streamingMode_onTileAdded] at hmode
  rw [Dock.onTileAdded_reading hmode]
  exact h hmode

/-- A new tile in a live session: its leaf and its tile say the same. -/
theorem Intact.getOrCreateTile_live (h : Intact hidden w) (hactive : w.runBrowserActive = true)
    (hstreaming : w.dock.streamingMode = true) (hnone : w.tiles.find key = none)
    (hroot : KeepsRoot w key) :
    (Sovereign hidden w → Sovereign hidden (w.getOrCreateTile key type)) ∧
      Intact hidden (w.getOrCreateTile key type) := by
  obtain ⟨root, hm⟩ := h.mirrors hactive hstreaming
  have hlisted : ¬w.listed key := by simp [Window.listed, hnone]
  obtain ⟨root', hm'⟩ := hm.onTileAdded key fun _ hempty => by
    have hshows := hroot hnone hactive hempty
    rwa [hm.tree] at hshows
  rw [Window.getOrCreateTile_of_none hnone]
  by_cases hsegments : segments key = []
  · -- no leaf and no emission
    rw [Window.hear_eq_of_none (Dock.onTileAdded_segments_nil hsegments)]
    refine ⟨fun hs => (hs.withTile type ?_).congr (fun _ => rfl) rfl, ?_⟩
    · exact showsRightly_of_active hactive
        (fun hkey hmem => h.checked hactive hstreaming key hmem hkey)
        fun _ hnot => absurd hsegments hnot
    · refine ⟨h.bound, ?_, ?_, ?_, fun _ _ => h.checked hactive hstreaming⟩
      · intro hsafe
        rcases hsafe with hsafe | hsafe
        · cases hactive.symm.trans hsafe
        · cases hm'.streamingMode.symm.trans hsafe
      · intro hmode
        cases hm'.streamingMode.symm.trans hmode
      · intro _ _
        exact ⟨root', hm'.congr fun key' => Window.listed_withTile⟩
  · rw [hm.onTileAdded_new hlisted hsegments] at hm' ⊢
    rw [Window.hear_eq_of_some rfl]
    have hmirror := Mirrors.emission
      (w := { w.withTile key type with dock := w.dock.withTile root key })
      (hm'.congr fun key' => Window.listed_withTile) hactive
    exact ⟨fun _ => hmirror.1, hmirror.2⟩

theorem Intact.getOrCreateTile (h : Intact hidden w) (hroot : KeepsRoot w key) :
    Intact hidden (w.getOrCreateTile key type) := by
  cases hfind : w.tiles.find key with
  | some tile =>
    rw [Window.getOrCreateTile_of_some hfind]
    exact h
  | none =>
    by_cases hlive : w.runBrowserActive = true ∧ w.dock.streamingMode = true
    · exact (h.getOrCreateTile_live hlive.1 hlive.2 hfind hroot).2
    · rw [Window.getOrCreateTile_of_none hfind]
      have hw : Intact hidden (w.withTile key type) :=
        ⟨h.bound, h.kept, h.reading, fun ha hs => absurd ⟨ha, hs⟩ hlive, h.checked⟩
      exact hw.hear_outside hlive Dock.streamingMode_onTileAdded
        (Dock.reading_onTileAdded h.reading)

theorem Sovereign.getOrCreateTile (h : Sovereign hidden w) (hi : Intact hidden w)
    (hroot : KeepsRoot w key) (hright : RightlyChecked hidden w key) :
    Sovereign hidden (w.getOrCreateTile key type) := by
  cases hfind : w.tiles.find key with
  | some tile =>
    rw [Window.getOrCreateTile_of_some hfind]
    exact h
  | none =>
    by_cases hlive : w.runBrowserActive = true ∧ w.dock.streamingMode = true
    · exact (hi.getOrCreateTile_live hlive.1 hlive.2 hfind hroot).1 h
    · rw [Window.getOrCreateTile_of_none hfind]
      have hnew := h.withTile type (hi.showsRightly hlive hfind hright)
      cases hanswer : (w.dock.onTileAdded key).2 with
      | none =>
        rw [Window.hear_eq_of_none hanswer]
        exact hnew.congr (fun _ => rfl) rfl
      | some checkedKeys =>
        -- the dock only emits in streaming mode, so the Run Browser is not active
        have hactive : w.runBrowserActive = false := by
          by_contra hnot
          have hmode : w.dock.streamingMode = false := by
            simpa [eq_true_of_ne_false hnot] using hlive
          rw [Dock.onTileAdded_reading hmode] at hanswer
          cases hanswer
        rw [Window.hear_eq_of_some hanswer]
        refine sovereign_onRunBrowserCheckedSignalsChanged fun key' _ => ?_
        exact showsRightly_of_inactive hactive (hi.kept (.inl hactive)) hi.bound

/-! ### A transport that starts -/

/-- The walk of `streamingSetup` over the tiles, `done` of them told to the dock. Until the first
emission the tiles may be anything, but then no key is hidden and none of those told shows. -/
structure SettingUp (hidden : Finset ByteString) (keys : List ByteString) (w : Window)
    (done : List ByteString) : Prop where
  keys : w.tiles.keys = keys
  inactive : w.runBrowserActive = false
  keeps : ∀ key ∈ hidden, key ∈ w.runBrowserHiddenKeys
  bound : ∀ key ∈ w.runBrowserHiddenKeys, segments key ≠ [] → key ∈ hidden
  plain : w.dock.Plain
  mirrors : ∃ root, Mirrors hidden (· ∈ done) w.dock root
  shown : (Sovereign hidden w ∧ ∀ key ∈ w.runBrowserCheckedKeys, key ∉ hidden) ∨
    (hidden = ∅ ∧ ∀ key ∈ done, segments key = [])

variable {keys done : List ByteString}

theorem sovereign_of_emission_inactive (hactive : w.runBrowserActive = false)
    (hkeeps : ∀ key ∈ hidden, key ∈ w.runBrowserHiddenKeys)
    (hbound : ∀ key ∈ w.runBrowserHiddenKeys, segments key ≠ [] → key ∈ hidden) :
    Sovereign hidden (w.onRunBrowserCheckedSignalsChanged checkedKeys) :=
  sovereign_onRunBrowserCheckedSignalsChanged fun _ _ =>
    showsRightly_of_inactive hactive hkeeps hbound

theorem SettingUp.addToDock (h : SettingUp hidden keys w done) (key : ByteString) :
    SettingUp hidden keys (w.addToDock key) (done ++ [key]) := by
  obtain ⟨root, hm⟩ := h.mirrors
  obtain ⟨root', hm'⟩ := hm.onTileAdded key fun _ hempty =>
    h.plain.showsNew hempty hm.tree _
  have hkeys := Window.hiddenKeys_hear w (w.dock.onTileAdded key) (.inl h.inactive)
  refine ⟨?_, ?_, ?_, ?_, ?_, ⟨root', ?_⟩, ?_⟩
  · rw [Window.addToDock, Window.keys_hear, h.keys]
  · rw [Window.addToDock, Window.runBrowserActive_hear, h.inactive]
  · rw [Window.addToDock, hkeys]
    exact h.keeps
  · rw [Window.addToDock, hkeys]
    exact h.bound
  · rw [Window.addToDock, Window.dock_hear]
    exact h.plain.onTileAdded
  · -- the tree of the dock
    rw [Window.addToDock, Window.dock_hear]
    exact hm'.congr fun key' => by rw [List.mem_append, List.mem_singleton]
  · -- what the tiles show
    rw [Window.addToDock]
    by_cases hnew : key ∈ done ∨ segments key = []
    · -- the dock says nothing
      have hnone : (w.dock.onTileAdded key).2 = none := by
        rcases hnew with hdone | hsegments
        · rw [hm.onTileAdded_listed hdone]
        · exact Dock.onTileAdded_segments_nil hsegments
      rw [Window.hear_eq_of_none hnone]
      rcases h.shown with ⟨hs, hchecked⟩ | ⟨hempty, hdone⟩
      · exact .inl ⟨hs.congr (fun _ => rfl) rfl, hchecked⟩
      · refine .inr ⟨hempty, fun key' hmem => ?_⟩
        rw [List.mem_append, List.mem_singleton] at hmem
        rcases hmem with hmem | rfl
        · exact hdone key' hmem
        · exact hnew.elim (hdone key') id
    · push Not at hnew
      left
      rw [hm.onTileAdded_new hnew.1 hnew.2] at hm' ⊢
      rw [Window.hear_eq_of_some rfl]
      refine ⟨sovereign_of_emission_inactive h.inactive h.keeps h.bound, fun key' hkey => ?_⟩
      rw [(Window.onRunBrowserCheckedSignalsChanged_frame _ _).2.2.2.2.2.2] at hkey
      exact (hm'.mem_checkedSignalKeys.mp hkey).2.2

theorem SettingUp.foldl (h : SettingUp hidden keys w done) (rest : List ByteString) :
    SettingUp hidden keys (rest.foldl Window.addToDock w) (done ++ rest) := by
  induction rest generalizing w done with
  | nil => simpa using h
  | cons key rest ih =>
    have hrest := ih (h.addToDock key)
    rwa [List.append_assoc, List.singleton_append] at hrest

theorem Dock.setStreamingRootLabel_clearDiscoveredKeys (dock : Dock)
    (hreading : dock.streamingMode = false → dock.streamingHiddenKeys = ∅) :
    dock.clearDiscoveredKeys.1.setStreamingRootLabel = { tree := .streaming {} } := by
  unfold Dock.clearDiscoveredKeys
  split
  · next htree =>
    have hempty := hreading (by rw [Dock.streamingMode, htree])
    rw [Dock.setStreamingRootLabel, hempty]
  · rfl

theorem mirrors_empty {dock : Dock} {root : RunItem} (htree : dock.tree = .streaming root)
    (hdiscovered : dock.discoveredKeys = ∅) (hrows : root.rows = .nil)
    (hpending : ∀ key, segments key ≠ [] → (key ∈ dock.streamingHiddenKeys ↔ key ∈ hidden)) :
    Mirrors hidden (· ∈ ([] : List ByteString)) dock root where
  tree := htree
  discovered key := by simp [hdiscovered]
  leaves := by simp [hrows, Rows.signals]
  covers := by simp
  unchecked := by simp [hrows, Rows.signals]
  sound _ := by
    rw [hrows]
    trivial
  pending key _ hsegments := hpending key hsegments

theorem restartSession_frame
    (hreading : w.dock.streamingMode = false → w.dock.streamingHiddenKeys = ∅) :
    w.restartSession.tiles.keys = w.tiles.keys ∧ w.restartSession.runBrowserActive = false ∧
      w.restartSession.runBrowserHiddenKeys = w.runBrowserHiddenKeys ∧
      w.restartSession.dock = { tree := .streaming {} } := by
  refine ⟨?_, ?_, ?_, ?_⟩
  · exact Window.keys_hear
  · exact Window.runBrowserActive_hear
  · exact Window.hiddenKeys_hear _ _ (.inl rfl)
  · rw [Window.restartSession, Window.dock_hear]
    exact Dock.setStreamingRootLabel_clearDiscoveredKeys w.dock hreading

/-- Before the first tile is told to the dock. -/
theorem settingUp_hideKeys (hactive : w.runBrowserActive = false)
    (hdock : w.dock = { tree := .streaming {} })
    (hkeeps : ∀ key ∈ hidden, key ∈ w.runBrowserHiddenKeys)
    (hbound : ∀ key ∈ w.runBrowserHiddenKeys, segments key ≠ [] → key ∈ hidden) :
    SettingUp hidden w.tiles.keys w.hideKeys [] := by
  by_cases hempty : w.runBrowserHiddenKeys = ∅
  · -- nothing is hidden, so no key is
    have hnone : hidden = ∅ := by
      rw [Finset.eq_empty_iff_forall_notMem]
      intro key hkey
      have hmem := hkeeps key hkey
      rw [hempty] at hmem
      simp at hmem
    rw [Window.hideKeys, if_pos hempty]
    refine ⟨rfl, hactive, hkeeps, hbound, ?_, ⟨{}, ?_⟩, .inr ⟨hnone, by simp⟩⟩
    · rw [hdock]
      intro _ root hroot
      cases hroot
      simp [Rows.states]
    · rw [hdock]
      exact mirrors_empty rfl rfl rfl (by simp [hnone])
  · have hsets : w.dock.setHiddenDiscoveredKeys w.runBrowserHiddenKeys =
        ({ tree := .streaming { checkState := .unchecked }
           streamingHiddenKeys := w.runBrowserHiddenKeys }, some ∅) := by
      simp only [hdock, Dock.setHiddenDiscoveredKeys, if_neg hempty]
      rfl
    rw [Window.hideKeys, if_neg hempty, hsets]
    have hkeys := Window.hiddenKeys_hear w
      ({ tree := .streaming { checkState := .unchecked }
         streamingHiddenKeys := w.runBrowserHiddenKeys }, some ∅) (.inl hactive)
    refine ⟨Window.keys_hear, Window.runBrowserActive_hear.trans hactive, by rwa [hkeys],
      by rwa [hkeys], ?_, ⟨{ checkState := .unchecked }, ?_⟩, ?_⟩
    · rw [Window.dock_hear]
      intro hnot
      exact absurd hnot hempty
    · rw [Window.dock_hear]
      exact mirrors_empty rfl rfl rfl fun key hsegments =>
        ⟨fun hmem => hbound key hmem hsegments, hkeeps key⟩
    · left
      rw [Window.hear_eq_of_some rfl]
      refine ⟨sovereign_of_emission_inactive hactive hkeeps hbound, ?_⟩
      rw [(Window.onRunBrowserCheckedSignalsChanged_frame _ _).2.2.2.2.2.2]
      simp

/-- After the last one. -/
theorem SettingUp.finish (h : SettingUp hidden keys w keys) :
    Sovereign hidden { w with runBrowserActive := true } ∧
      Intact hidden { w with runBrowserActive := true } := by
  obtain ⟨root, hm⟩ := h.mirrors
  have hlisted : ∀ key, w.listed key ↔ key ∈ keys := by
    intro key
    rw [Window.listed, ← KeyedMap.mem_keys, h.keys]
  constructor
  · rcases h.shown with ⟨hs, _⟩ | ⟨hempty, hdone⟩
    · exact hs.congr (fun _ => rfl) rfl
    · subst hempty
      refine ⟨by simp, fun key _ hsegments _ tile htile => ?_⟩
      have hmem : key ∈ keys := by
        rw [← h.keys]
        exact KeyedMap.mem_keys_of_find htile
      exact absurd (hdone key hmem) hsegments
  · refine ⟨h.bound, ?_, ?_, ?_, ?_⟩
    · intro hsafe
      rcases hsafe with hsafe | hsafe
      · cases hsafe
      · cases hm.streamingMode.symm.trans hsafe
    · intro hmode
      cases hm.streamingMode.symm.trans hmode
    · exact fun _ _ => ⟨root, hm.congr hlisted⟩
    · intro _ _ key hkey
      rcases h.shown with ⟨_, hchecked⟩ | ⟨hempty, _⟩
      · exact hchecked key hkey
      · simp [hempty]

/-- The set-up makes a live session of whatever there was, if the window knows the hidden keys. -/
theorem streamingSetup_intact
    (hbound : ∀ key ∈ w.runBrowserHiddenKeys, segments key ≠ [] → key ∈ hidden)
    (hkeeps : ∀ key ∈ hidden, key ∈ w.runBrowserHiddenKeys)
    (hreading : w.dock.streamingMode = false → w.dock.streamingHiddenKeys = ∅) :
    Sovereign hidden w.streamingSetup ∧ Intact hidden w.streamingSetup := by
  obtain ⟨_, hactive, hhidden, hdock⟩ := restartSession_frame hreading
  have hstart : SettingUp hidden w.restartSession.tiles.keys w.restartSession.hideKeys [] := by
    apply settingUp_hideKeys hactive hdock
    · rwa [hhidden]
    · rwa [hhidden]
  have hend := hstart.foldl w.restartSession.hideKeys.tiles.keys
  rw [List.nil_append, hstart.keys] at hend
  rw [Window.streamingSetup, hstart.keys]
  exact hend.finish

theorem KeepsHidden.setup {retained : List (ByteString × VariableType)} (h : Intact hidden w)
    (hkeeps : KeepsHidden hidden w retained) :
    Intact hidden (w.replayRetainedControls retained) ∧
      ∀ key ∈ hidden, key ∈ (w.replayRetainedControls retained).runBrowserHiddenKeys := by
  induction retained generalizing w with
  | nil => exact ⟨h, hkeeps⟩
  | cons control controls ih => exact ih (h.getOrCreateTile hkeeps.1) hkeeps.2

/-- What an event does to a window that has lost nothing. -/
theorem handle_keepsHidden {event : TransportEvent} (hs : Sovereign hidden w)
    (hi : Intact hidden w) (hkept : Kept hidden w event) :
    Sovereign hidden (event.handle w) ∧ Intact hidden (event.handle w) := by
  cases event with
  | startTransport retained outcome =>
    cases outcome with
    | notCreated => exact ⟨hs, hi⟩
    | failed => exact ⟨hs, hi⟩
    | started =>
      obtain ⟨hi', hkeeps⟩ := KeepsHidden.setup hi hkept
      exact streamingSetup_intact hi'.bound hkeeps hi'.reading
  | stopTransport => exact ⟨hs, hi⟩
  | connectionStateChanged state => exact ⟨hs, hi⟩
  | variableUpdate key type =>
    exact ⟨hs.getOrCreateTile hi hkept.1 hkept.2, hi.getOrCreateTile hkept.1⟩

end Window

/-! ### Runs -/

/-- In a run in which no hidden key is lost, hidden is what was hidden at the start. -/
theorem run_keepsHidden {w u : Window} {events : List TransportEvent} (hw : Settled w)
    (hkept : EveryStep next (Kept w.runBrowserHiddenKeys) w events)
    (hrun : run next w events = some u) : Sovereign w.runBrowserHiddenKeys u := by
  have hinv : Sovereign w.runBrowserHiddenKeys u ∧ Intact w.runBrowserHiddenKeys u := by
    refine Execution.run_induction_of_everyStep
      (P := fun v => Sovereign w.runBrowserHiddenKeys v ∧ Intact w.runBrowserHiddenKeys v)
      ?_ ⟨hw.sovereign, hw.intact⟩ hkept hrun
    intro v event v' hv hevent hnext
    cases hnext
    exact handle_keepsHidden hv.1 hv.2 hevent
  exact hinv.1

theorem settled_initial (hidden : Finset ByteString) :
    Settled { runBrowserHiddenKeys := hidden } where
  sovereign := ⟨by simp, by simp⟩
  reading _ := rfl
  mirrors hactive := by cases hactive
  checked hactive := by cases hactive

/-- A user hides the only leaf of a group in a session without hidden keys. The next tile of the
group leaves the root unchecked, and nothing is shown. -/
example :
    let session := [TransportEvent.startTransport [] .started,
      .variableUpdate (text "motor/RPM") .double].foldl TransportEvent.handle {}
    let hides := session.hear (session.dock.uncheckSignalsByKeys {text "motor/RPM"})
    let comes := TransportEvent.handle hides (.variableUpdate (text "motor/Current") .double)
    (comes.tiles.find (text "motor/Current")).map (fun tile => tile.visible) = some false := by
  decide +kernel

/-- A window that knows one hidden key, from its settings. -/
def hidesRpm : Window := { runBrowserHiddenKeys := {text "motor/RPM"} }

/-- The hidden key arrives in the first session and again after a reconnect. -/
def arrivesAtOnce : List TransportEvent :=
  [.startTransport [] .started, .variableUpdate (text "motor/RPM") .double,
    .variableUpdate (text "motor/Current") .double, .connectionStateChanged .disconnected,
    .startTransport [] .started, .variableUpdate (text "sensor/Temperature") .double]

/-- The hidden key arrives after another key and a reconnect. -/
def arrivesLate : List TransportEvent :=
  [.startTransport [] .started, .variableUpdate (text "motor/Current") .double,
    .connectionStateChanged .disconnected, .startTransport [] .started,
    .variableUpdate (text "motor/RPM") .double]

theorem run_keepsHidden_arrivesAtOnce :
    ∃ u, run next hidesRpm arrivesAtOnce = some u ∧
      Sovereign hidesRpm.runBrowserHiddenKeys u :=
  have hkept : EveryStep next (Kept hidesRpm.runBrowserHiddenKeys) hidesRpm arrivesAtOnce := by
    decide +kernel
  ⟨_, rfl, run_keepsHidden (settled_initial _) hkept rfl⟩

/-- The tile of a hidden key is shown. -/
theorem arrivesLate_shows :
    Settled hidesRpm ∧ ∃ u, run next hidesRpm arrivesLate = some u ∧
      ¬Sovereign hidesRpm.runBrowserHiddenKeys u := by
  refine ⟨settled_initial _, arrivesLate.foldl TransportEvent.handle hidesRpm, rfl, ?_⟩
  intro h
  have hvisible : ((arrivesLate.foldl TransportEvent.handle hidesRpm).tiles.find
      (text "motor/RPM")).map (fun tile => tile.visible) = some true := by
    decide +kernel
  obtain ⟨tile, htile, hshown⟩ := Option.map_eq_some_iff.mp hvisible
  have hhidden := h.conceals (text "motor/RPM") (by decide +kernel) tile htile
  cases hshown.symm.trans hhidden

end SmartDashboard.App.RunBrowser
