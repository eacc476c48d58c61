import SmartDashboard.App.PlotMerging

/-!
# The entries of a layout, over live plots

An entry finds or creates its tile, sets the widget type and puts in the sources. On a plot that
was there before, a widget type that is no line plot disbands it, while another source list simply
takes the place of the old one. `layoutSources` says what the plots list after the entries, and
`EntryStep` what a single entry changes.

## Main definitions

- `layoutSources`, `layoutKeys`, `layoutDock`: the source lists, the tiles and the dock afterwards
- `EntriesSound`: the layouts whose entries do not undo each other
- `EntryStep`: the change that an entry, or the creation of its tile, makes
-/

namespace SmartDashboard.App.RunBrowser

open Direct (ByteString)

namespace LayoutEntry

def sourceKeys (entry : LayoutEntry) : List ByteString := entry.linePlotSources.map PlotSource.key

/-- The entry leaves a line plot one. -/
def KeepsPlot (entry : LayoutEntry) : Prop := entry.widgetType = [] ∨ entry.widgetType = linePlot

instance (entry : LayoutEntry) : Decidable entry.KeepsPlot := inferInstanceAs (Decidable (_ ∨ _))

end LayoutEntry

namespace Window

/-- The series of the tile of a key. -/
def series (w : Window) (key : ByteString) : List PlotSource :=
  match w.tiles.find key with
  | some tile => tile.series
  | none => []

def seriesKeys (w : Window) (key : ByteString) : List ByteString :=
  (w.series key).map PlotSource.key

/-- The type of the tile that an entry is applied to. -/
def entryType (w : Window) (entry : LayoutEntry) : VariableType :=
  match w.tiles.find entry.variableKey with
  | some tile => tile.type
  | none => toVariableTypeFromWidgetType entry.widgetType

/-- The sources of the plot of a key, once the entries are applied. -/
def layoutSources (w : Window) (entries : List LayoutEntry) (key : ByteString) :
    List ByteString :=
  match entries.find? fun entry => entry.variableKey = key with
  | none => w.seriesKeys key
  | some entry =>
    if entry.linePlotSources = [] then if entry.KeepsPlot then w.seriesKeys key else []
    else if w.entryType entry = .double then entry.sourceKeys
    else []

/-- The keys of the tiles, once the entries are applied. -/
def layoutKeys (w : Window) (entries : List LayoutEntry) : List ByteString :=
  w.tiles.keys ++ entries.map LayoutEntry.variableKey

/-- Some plot has the key among its sources, once the entries are applied. -/
def LayoutAbsorbs (w : Window) (entries : List LayoutEntry) (key : ByteString) : Prop :=
  ∃ plot ∈ w.layoutKeys entries, key ∈ w.layoutSources entries plot

instance (w : Window) (entries : List LayoutEntry) (key : ByteString) :
    Decidable (w.LayoutAbsorbs entries key) :=
  inferInstanceAs (Decidable (∃ plot ∈ w.layoutKeys entries, _))

/-- The dock, once it knows the new tiles. -/
def layoutDock (w : Window) (entries : List LayoutEntry) : Dock :=
  entries.foldl
    (fun dock entry =>
      if (w.tiles.find entry.variableKey).isSome then dock
      else (dock.onTileAdded entry.variableKey).1)
    w.dock

/-- The key is a source of a plot that an entry takes apart. -/
def Disbands (w : Window) (entries : List LayoutEntry) (key : ByteString) : Prop :=
  ∃ entry ∈ entries, ¬entry.KeepsPlot ∧ key ∈ w.seriesKeys entry.variableKey

instance (w : Window) (entries : List LayoutEntry) (key : ByteString) :
    Decidable (w.Disbands entries key) :=
  inferInstanceAs (Decidable (∃ entry ∈ entries, _))

/-- The entry makes a line plot of its tile, or finds one that no plot has absorbed. -/
def EntryPlots (w : Window) (entry : LayoutEntry) : Prop :=
  entry.widgetType = linePlot ∨
    (entry.widgetType = [] ∧ w.plotSourceOwners entry.variableKey = none ∧
      ∃ tile ∈ w.tiles.find entry.variableKey, tile.widgetType = linePlot)

instance (w : Window) (entry : LayoutEntry) : Decidable (w.EntryPlots entry) :=
  inferInstanceAs (Decidable (_ ∨ _))

/-- The later entry takes no plot apart that gives the tile of the earlier one a widget type back,
when the earlier one has just put sources into it. -/
def KeepsEarlier (w : Window) (earlier later : LayoutEntry) : Prop :=
  later.KeepsPlot ∨ ∀ source ∈ w.series later.variableKey, source.key = earlier.variableKey →
    source.originalWidgetType = [] ∨ source.originalWidgetType = linePlot ∨
      earlier.linePlotSources = [] ∨ w.entryType earlier ≠ .double

instance (w : Window) (earlier later : LayoutEntry) : Decidable (w.KeepsEarlier earlier later) :=
  inferInstanceAs (Decidable (_ ∨ _))

/-- One entry a key, sources only where there is a line plot to show them, no entry that undoes an
earlier one, and in the end no key with two plots and no plot that is a source. -/
structure EntriesSound (w : Window) (entries : List LayoutEntry) : Prop where
  distinct : (entries.map LayoutEntry.variableKey).Nodup
  plots : ∀ entry ∈ entries, entry.linePlotSources ≠ [] → w.entryType entry = .double →
    w.EntryPlots entry
  order : entries.Pairwise w.KeepsEarlier
  unique : ∀ plot ∈ w.layoutKeys entries, ∀ plot' ∈ w.layoutKeys entries,
    ∀ key ∈ w.layoutSources entries plot, key ∈ w.layoutSources entries plot' → plot = plot'
  apart : ∀ plot ∈ w.layoutKeys entries, w.layoutSources entries plot ≠ [] →
    ¬w.LayoutAbsorbs entries plot

instance (w : Window) (entries : List LayoutEntry) : Decidable (w.EntriesSound entries) :=
  decidable_of_iff ((entries.map LayoutEntry.variableKey).Nodup ∧ _ ∧ _ ∧ _ ∧ _)
    ⟨fun h => ⟨h.1, h.2.1, h.2.2.1, h.2.2.2.1, h.2.2.2.2⟩,
      fun h => ⟨h.distinct, h.plots, h.order, h.unique, h.apart⟩⟩

end Window

/-! ### An entry on its tile -/

section Tile

variable {tile : Tile} {entry : LayoutEntry} {key : ByteString}

theorem Tile.disbands_iff {widgetType : ByteString} :
    tile.disbands widgetType = true ↔ tile.isMultiLinePlot = true ∧ widgetType ≠ linePlot := by
  simp [Tile.disbands]

/-- An entry without sources keeps those that were there, or has them disbanded. -/
theorem Tile.applyLayoutEntry_of_nil (hbare : tile.Bare) (hnil : entry.linePlotSources = []) :
    (tile.applyLayoutEntry entry).Bare ∧
      ∀ key, (tile.applyLayoutEntry entry).absorbs key ↔ entry.KeepsPlot ∧ tile.absorbs key := by
  by_cases htype : entry.widgetType = []
  · have heq : tile.applyLayoutEntry entry =
        { tile with multiLinePlotMode := tile.multiLinePlotMode || entry.multiLinePlotMode } := by
      simp only [Tile.applyLayoutEntry, Tile.restorePlot, htype, hnil, if_true]
    rw [heq]
    exact ⟨hbare, fun key => (and_iff_right (.inl htype)).symm⟩
  have heq : tile.applyLayoutEntry entry =
      { tile.setWidgetType entry.widgetType with
        multiLinePlotMode := tile.multiLinePlotMode || entry.multiLinePlotMode } := by
    simp only [Tile.applyLayoutEntry, Tile.restorePlot, htype, hnil, if_true, if_false]
    rfl
  rw [heq]
  cases hdisbands : tile.disbands entry.widgetType with
  | true =>
    have hne := (Tile.disbands_iff.mp hdisbands).2
    have hnone : (tile.setWidgetType entry.widgetType).plotSources = [] := by
      simp only [Tile.setWidgetType, hdisbands, if_true]
    refine ⟨fun _ _ => hnone, fun key => iff_of_false ?_ ?_⟩
    · exact Tile.not_absorbs_of_plotSources_nil _ key hnone
    · rintro ⟨hkeeps, _⟩
      exact hkeeps.elim htype hne
  | false =>
    have hset : tile.setWidgetType entry.widgetType =
        { tile with widgetType := entry.widgetType } := by
      simp only [Tile.setWidgetType, hdisbands, Bool.false_eq_true, if_false]
    have halike := alike_widgetType hbare hdisbands
    rw [hset]
    refine ⟨halike.bare, fun key => (halike.absorbs key).trans ?_⟩
    constructor
    · intro habs
      refine ⟨.inr ?_, habs⟩
      by_contra hne
      have hlost := Tile.disbands_iff.mpr ⟨Tile.isMultiLinePlot_of_absorbs habs, hne⟩
      rw [hdisbands] at hlost
      cases hlost
    · exact fun hand => hand.2

/-- An entry with sources puts them in, whatever was there. -/
theorem Tile.applyLayoutEntry_of_sources (hsources : entry.linePlotSources ≠ [])
    (hplots : tile.type = .double →
      entry.widgetType = linePlot ∨ (entry.widgetType = [] ∧ tile.widgetType = linePlot)) :
    (tile.applyLayoutEntry entry).Bare ∧
      ∀ key, (tile.applyLayoutEntry entry).absorbs key ↔
        tile.type = .double ∧ key ∈ entry.sourceKeys := by
  have hframe := (tile.applyLayoutEntry_frame entry).2.1
  have hkeys : (tile.applyLayoutEntry entry).plotSources = entry.linePlotSources := by
    simp only [Tile.applyLayoutEntry, Tile.restorePlot, if_neg hsources]
    split <;> rfl
  have hwidget : tile.type = .double → (tile.applyLayoutEntry entry).widgetType = linePlot := by
    intro htype
    unfold Tile.applyLayoutEntry
    rcases hplots htype with hline | ⟨hnone, hline⟩
    · have hne : entry.widgetType ≠ [] := by
        rw [hline]
        decide
      rw [if_neg hne]
      exact hline
    · rw [if_pos hnone]
      exact hline
  constructor
  · intro htype hline
    rw [hframe] at htype
    rw [Tile.isLinePlotWidget_iff.mpr ⟨hframe.trans htype, hwidget htype⟩] at hline
    cases hline
  · intro key
    have hin : key ∈ (tile.applyLayoutEntry entry).sourceKeys ↔ key ∈ entry.sourceKeys := by
      rw [Tile.sourceKeys, hkeys, LayoutEntry.sourceKeys]
    rw [Tile.absorbs, Tile.isLinePlotWidget_iff, hin, hframe]
    constructor
    · rintro ⟨⟨htype, _⟩, hmem⟩
      exact ⟨htype, hmem⟩
    · rintro ⟨htype, hmem⟩
      exact ⟨⟨htype, hwidget htype⟩, hmem⟩

end Tile

/-! ### An entry on the window -/

section Entry

variable {w v : Window} {entry : LayoutEntry} {key : ByteString} {tile : Tile}

theorem not_mem_keys {sources : List PlotSource} (h : ∀ source ∈ sources, source.key ≠ key) :
    key ∉ sources.map PlotSource.key := by
  intro hmem
  obtain ⟨source, hsource, heq⟩ := List.mem_map.mp hmem
  exact h source hsource heq

/-- Where the widget type takes nothing apart, there is nothing that would be freed. -/
theorem Tile.series_eq_nil (hdisbands : tile.disbands entry.widgetType = false)
    (hkeeps : ¬entry.KeepsPlot) : tile.series = [] := by
  have hmulti : ¬tile.isMultiLinePlot = true := by
    intro hmulti
    rw [Tile.disbands_iff.mpr ⟨hmulti, fun heq => hkeeps (.inr heq)⟩] at hdisbands
    cases hdisbands
  rw [Tile.series, if_neg hmulti]

/-- The tile is there, and the entry frees what the plot had, if it takes it apart. -/
theorem applyEntry_frees {found : Window}
    (hfound : v.getOrCreateTile entry.variableKey
      (toVariableTypeFromWidgetType entry.widgetType) = found)
    (htile : found.tiles.find entry.variableKey = some tile)
    (hplain : ¬entry.KeepsPlot → ∀ source ∈ tile.series,
      source.key ≠ entry.variableKey ∧ Plain found source) :
    ∃ v', v.applyEntry entry = some v' ∧
      Frees [entry.variableKey] (if entry.KeepsPlot then [] else tile.series.map PlotSource.key)
        found v' ∧
      v'.tiles.find entry.variableKey = some (tile.applyLayoutEntry entry) := by
  have hnil : Frees [] [] found found := frees_nil found
  unfold Window.applyEntry
  rw [hfound]
  by_cases htype : entry.widgetType = []
  · -- the widget type stays, and with it what the plot lists
    simp only [if_pos htype, Option.map_some]
    refine ⟨_, rfl, ?_, ?_⟩
    · rw [if_pos (.inl htype)]
      exact hnil.modifyTile _ (by simp) (by simp)
    · rw [Window.find_modifyTile_self htile, Tile.applyLayoutEntry, if_pos htype]
  cases hdisbands : tile.disbands entry.widgetType with
  | true =>
    obtain ⟨hmulti, hne⟩ := Tile.disbands_iff.mp hdisbands
    have hkeeps : ¬entry.KeepsPlot := fun hkeeps => hkeeps.elim htype hne
    have hseries : tile.series = tile.plotSources := if_pos hmulti
    rw [hseries] at hplain
    rw [if_neg hkeeps, hseries]
    have hnot : entry.variableKey ∉ tile.sourceKeys :=
      not_mem_keys fun source hsource => (hplain hkeeps source hsource).1
    obtain ⟨depth, hdepth⟩ := Window.exists_depth htile
    obtain ⟨typed, hset, hfrees, htyped⟩ := setWidgetType_frees depth htile hdisbands hnot
      fun source hmem => (hplain hkeeps source hmem).2
    simp only [if_neg htype, hdepth, hset, Option.map_some]
    refine ⟨_, rfl, hfrees.modifyTile _ hnot (by simp), ?_⟩
    rw [Window.find_modifyTile_self htyped, Tile.applyLayoutEntry, if_neg htype,
      Tile.setWidgetType, if_pos hdisbands]
  | false =>
    have hset : found.setWidgetType found.depth entry.variableKey entry.widgetType = _ :=
      setWidgetType_of_not_disbands htile hdisbands
    have hfreed : (if entry.KeepsPlot then [] else tile.series.map PlotSource.key) = [] := by
      split
      · rfl
      · next hkeeps => rw [Tile.series_eq_nil hdisbands hkeeps, List.map_nil]
    simp only [if_neg htype, hset, Option.map_some, hfreed]
    refine ⟨_, rfl, ?_, ?_⟩
    · exact (hnil.modifyTile _ (by simp) (by simp)).modifyTile _ (by simp) (by simp)
    · rw [Window.find_modifyTile_self (Window.find_modifyTile_self htile), Tile.applyLayoutEntry,
        if_neg htype, Tile.setWidgetType, hdisbands]
      rfl

/-- What an entry, or the creation of its tile alone, changes. -/
structure EntryStep (target : ByteString) (freed : List ByteString) (v v' : Window) : Prop where
  active : v'.runBrowserActive = v.runBrowserActive
  saved : v'.savedLayoutByKey = v.savedLayoutByKey
  dock : v'.dock = if (v.tiles.find target).isSome then v.dock else (v.dock.onTileAdded target).1
  checked : (v'.runBrowserCheckedKeys = v.runBrowserCheckedKeys ∧
      v'.dock.checkedSignalKeys = v.dock.checkedSignalKeys) ∨
    v'.runBrowserCheckedKeys = v'.dock.checkedSignalKeys
  keys : ∀ key, (v'.tiles.find key).isSome ↔ (v.tiles.find key).isSome ∨ key = target
  numbered : Numbered v → Numbered v'
  others : ∀ key new, key ≠ target → v'.tiles.find key = some new →
    ∃ old, v.tiles.find key = some old ∧ Alike old new ∧
      (key ∉ freed → new.widgetType = old.widgetType)
  owners : ∀ key, v'.plotSourceOwners key =
    if key ∈ freed then none else v.plotSourceOwners key
  hidden : v.runBrowserActive = false → ∀ key,
    key ∈ v'.runBrowserHiddenKeys ↔ key ∈ v.runBrowserHiddenKeys ∧ key ∉ freed
  shown : v.runBrowserActive = true → ∀ key old new, v.tiles.find key = some old →
    v'.tiles.find key = some new → v'.plotSourceOwners key = none →
      key ∈ freed ∨ old.visible = true ∨ key ∉ v.runBrowserCheckedKeys →
        new.visible = true ∨ key ∉ v'.runBrowserCheckedKeys

theorem Dock.checkedSignalKeys_onTileAdded (dock : Dock) (key : ByteString) :
    ((dock.onTileAdded key).2 = none →
      (dock.onTileAdded key).1.checkedSignalKeys = dock.checkedSignalKeys) ∧
    ∀ checkedKeys, (dock.onTileAdded key).2 = some checkedKeys →
      checkedKeys = (dock.onTileAdded key).1.checkedSignalKeys := by
  unfold Dock.onTileAdded
  split
  · simp
  split
  · simp
  split
  · simp
  split
  · simp [Dock.checkedSignalKeys]
  · simp [Dock.collectAndEmitCheckedSignals]

theorem entryStep_of_some {target : ByteString} (htile : v.tiles.find target = some tile)
    (hbare : ∀ key tile, v.tiles.find key = some tile → tile.Bare) : EntryStep target [] v v := by
  refine ⟨rfl, rfl, by simp [htile], .inl ⟨rfl, rfl⟩, ?_, id, ?_, by simp, by simp, ?_⟩
  · intro key
    constructor
    · exact .inl
    · rintro (hkey | rfl)
      · exact hkey
      · simp [htile]
  · intro key new _ hnew
    exact ⟨new, hnew, .refl (hbare key new hnew), fun _ => rfl⟩
  · intro _ key old new hold hnew _ hshown
    cases hold.symm.trans hnew
    simpa using hshown

/-- A new tile comes with an emission of the dock, if the dock has a live tree. -/
theorem entryStep_of_none {target : ByteString} (type : VariableType)
    (htarget : v.tiles.find target = none)
    (hbare : ∀ key tile, v.tiles.find key = some tile → tile.Bare) :
    EntryStep target [] v (v.getOrCreateTile target type) := by
  rw [Window.getOrCreateTile_of_none htarget]
  set answer := v.dock.onTileAdded target with hdef
  obtain ⟨hsame, hemits⟩ := v.dock.checkedSignalKeys_onTileAdded target
  obtain ⟨f, hf⟩ := (v.withTile target type).exists_find_hear answer
  have hfind : ∀ key, key ≠ target → (v.withTile target type).tiles.find key = v.tiles.find key :=
    fun key hne => KeyedMap.find_insert_of_ne hne _ _
  have hold : ∀ {key new}, key ≠ target →
      ((v.withTile target type).hear answer).tiles.find key = some new →
      ∃ old, v.tiles.find key = some old ∧ new = { old with visible := f key old } := by
    intro key new hne hnew
    rw [hf, hfind key hne, Option.map_eq_some_iff] at hnew
    obtain ⟨old, hold, heq⟩ := hnew
    exact ⟨old, hold, heq.symm⟩
  refine ⟨Window.runBrowserActive_hear, Window.savedLayoutByKey_hear, ?_, ?_, ?_, ?_, ?_, ?_,
    ?_, ?_⟩
  · -- the dock
    rw [Window.dock_hear, htarget]
    rfl
  · -- the checked keys
    cases hanswer : answer.2 with
    | none =>
      left
      rw [Window.hear_eq_of_none hanswer]
      exact ⟨rfl, hsame hanswer⟩
    | some checkedKeys =>
      right
      rw [Window.dock_hear, ← hemits checkedKeys hanswer, Window.hear_eq_of_some hanswer]
      exact (Window.onRunBrowserCheckedSignalsChanged_frame _ checkedKeys).2.2.2.2.2.2
  · -- which tiles there are
    intro key
    rw [Window.isSome_find_hear]
    by_cases hkey : key = target
    · simp [hkey, Window.withTile]
    · rw [hfind key hkey]
      simp [hkey]
  · -- the new id
    intro hnumbered
    refine (hnumbered.withTile target type).of_old (fun key new hnew => ?_) Window.created_hear
    rw [hf, Option.map_eq_some_iff] at hnew
    obtain ⟨old, hold, rfl⟩ := hnew
    exact ⟨old, hold, rfl⟩
  · intro key new hne hnew
    obtain ⟨old, hfind, rfl⟩ := hold hne hnew
    exact ⟨old, hfind, alike_visible (hbare key old hfind) _, fun _ => rfl⟩
  · intro key
    rw [Window.plotSourceOwners_hear]
    rfl
  · -- the hidden keys
    intro hactive key
    rw [Window.hiddenKeys_hear (v.withTile target type) answer (.inl hactive)]
    simp [Window.withTile]
  · -- tiles that are freed: none, so an emission decides
    intro hactive key old new hfind' hnew howner hshown
    have hne : key ≠ target := by
      rintro rfl
      cases htarget.symm.trans hfind'
    cases hanswer : answer.2 with
    | none =>
      rw [Window.hear_eq_of_none hanswer] at hnew ⊢
      have hnew' : v.tiles.find key = some new := (hfind key hne).symm.trans hnew
      cases hfind'.symm.trans hnew'
      exact hshown.resolve_left (by simp)
    | some checkedKeys =>
      rw [Window.plotSourceOwners_hear] at howner
      rcases Window.visible_hear hanswer howner hnew with hvisible | ⟨_, hnot⟩ | ⟨hinactive, _⟩
      · exact .inl hvisible
      · exact .inr hnot
      · cases hactive.symm.trans hinactive

theorem getOrCreateTile_step (target : ByteString) (type : VariableType)
    (hbare : ∀ key tile, v.tiles.find key = some tile → tile.Bare) :
    EntryStep target [] v (v.getOrCreateTile target type) := by
  cases htarget : v.tiles.find target with
  | some tile =>
    rw [Window.getOrCreateTile_of_some htarget]
    exact entryStep_of_some htarget hbare
  | none => exact entryStep_of_none type htarget hbare

theorem EntryStep.frees {target : ByteString} {freed : List ByteString} {found v' : Window}
    {new : Tile} (h : EntryStep target [] v found) (hfrees : Frees [target] freed found v')
    (htarget : found.tiles.find target = some tile) (htarget' : v'.tiles.find target = some new)
    (hid : new.id = tile.id) (hvisible : new.visible = tile.visible) (hnot : target ∉ freed) :
    EntryStep target freed v v' := by
  have hother : ∀ {key}, key ≠ target → key ∉ freed → v'.tiles.find key = found.tiles.find key :=
    fun hne hkey => hfrees.others _ hkey (by simpa using hne)
  have hback : ∀ {key new}, v'.tiles.find key = some new →
      ∃ old, found.tiles.find key = some old := by
    intro key new hnew
    refine KeyedMap.exists_find_of_mem_keys ?_
    rw [← hfrees.rest.keys]
    exact KeyedMap.mem_keys_of_find hnew
  refine ⟨hfrees.rest.active.trans h.active, hfrees.rest.saved.trans h.saved,
    hfrees.rest.dock.trans h.dock, ?_, ?_, ?_, ?_, ?_, ?_, ?_⟩
  · rw [hfrees.rest.checked, hfrees.rest.dock]
    exact h.checked
  · intro key
    rw [← h.keys, ← KeyedMap.mem_keys, ← KeyedMap.mem_keys, hfrees.rest.keys]
  · -- ids
    intro hnumbered
    refine (h.numbered hnumbered).of_old (fun key new' hnew => ?_) hfrees.rest.created
    by_cases hkey : key = target
    · subst hkey
      cases htarget'.symm.trans hnew
      exact ⟨tile, htarget, hid⟩
    obtain ⟨old, hold⟩ := hback hnew
    by_cases hfreed : key ∈ freed
    · obtain ⟨new'', hnew'', halike, _⟩ := hfrees.tiles key hfreed old hold
      cases hnew''.symm.trans hnew
      exact ⟨old, hold, halike.id⟩
    · cases hold.symm.trans ((hother hkey hfreed).symm.trans hnew)
      exact ⟨_, hold, rfl⟩
  · -- the other tiles
    intro key new' hkey hnew
    obtain ⟨middle, hmiddle⟩ := hback hnew
    obtain ⟨old, hold, halike, hwidget⟩ := h.others key middle hkey hmiddle
    refine ⟨old, hold, ?_⟩
    by_cases hfreed : key ∈ freed
    · obtain ⟨new'', hnew'', halike', _⟩ := hfrees.tiles key hfreed middle hmiddle
      cases hnew''.symm.trans hnew
      exact ⟨halike.trans halike', fun hfree => absurd hfreed hfree⟩
    · cases hmiddle.symm.trans ((hother hkey hfreed).symm.trans hnew)
      exact ⟨halike, fun _ => hwidget (by simp)⟩
  · intro key
    rw [hfrees.owners, h.owners]
    simp
  · intro hactive key
    rw [hfrees.hidden, h.hidden hactive]
    simp
  · -- what is shown
    intro hactive key old new' hold hnew howner hshown
    obtain ⟨middle, hmiddle⟩ := hback hnew
    rw [hfrees.owners] at howner
    rw [hfrees.rest.checked]
    by_cases hfreed : key ∈ freed
    · obtain ⟨new'', hnew'', _, hshown'⟩ := hfrees.tiles key hfreed middle hmiddle
      cases hnew''.symm.trans hnew
      exact hshown'.imp_right fun hand => hand.2
    · rw [if_neg hfreed] at howner
      have hshown' := h.shown hactive key old middle hold hmiddle howner
        (.inr (hshown.resolve_left hfreed))
      by_cases hkey : key = target
      · subst hkey
        cases htarget'.symm.trans hnew
        cases htarget.symm.trans hmiddle
        rwa [hvisible]
      · cases hmiddle.symm.trans ((hother hkey hfreed).symm.trans hnew)
        exact hshown'

end Entry

end SmartDashboard.App.RunBrowser
