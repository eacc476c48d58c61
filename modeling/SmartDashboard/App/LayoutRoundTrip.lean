import SmartDashboard.App.PlotRuns

/-!
# A layout, saved and loaded again

The file has an entry for each tile of the canvas and the keys of the hidden ones. The tile of an
absorbed key is left out of the hidden keys, since the entry of its plot lists it; the walk at the
end of a load, however, shows every tile that is not among them.

The containers of the window are unordered, so the walk that works out the owners may meet the tiles
in any order.

## Main definitions

- `LayoutFile`, `saveLayoutToPath`: what is written
- `LayoutFile.entries`, `loadLayoutFromPath`: what is read, and what it makes of a window
- `RestoresLayout`, `KeepsLayout`: the round trip, and the states it succeeds in
-/

namespace SmartDashboard.App.RunBrowser

open Direct (ByteString)
open Execution (run EveryStep)

/-- The entry that `SaveLayout` writes for a tile. -/
def Tile.layoutEntry (key : ByteString) (tile : Tile) : LayoutEntry where
  variableKey := key
  widgetType := tile.widgetType
  linePlotSources := if tile.isMultiLinePlot then tile.plotSources else []
  multiLinePlotMode := tile.isMultiLinePlotDropTarget

/-- The sources that `LoadLayoutEntries` keeps. -/
def LayoutEntry.withNamedSources (entry : LayoutEntry) : LayoutEntry :=
  { entry with linePlotSources := entry.linePlotSources.filter fun source => source.key ≠ [] }

structure LayoutFile where
  widgets : List LayoutEntry
  hiddenKeys : Finset ByteString

namespace LayoutFile

/-- `LoadLayoutEntries`, which skips what has no key. -/
def entries (file : LayoutFile) : List LayoutEntry :=
  (file.widgets.filter fun entry => entry.variableKey ≠ []).map LayoutEntry.withNamedSources

def layoutHiddenKeys (file : LayoutFile) : Finset ByteString := file.hiddenKeys.erase []

end LayoutFile

namespace Window

/-- The tiles that are hidden, but for those of absorbed keys. -/
def savedHiddenKeys (w : Window) : Finset ByteString :=
  (w.tiles.keys.filter fun key =>
    (w.tiles.find key).any fun tile => !tile.visible && (w.plotSourceOwners key).isNone).toFinset

/-- `SaveLayoutToPath`, where `children` are the keys of the tiles in the order of the canvas. -/
def saveLayoutToPath (w : Window) (children : List ByteString) : LayoutFile where
  widgets := children.filterMap fun key => (w.tiles.find key).map (Tile.layoutEntry key)
  hiddenKeys := w.savedHiddenKeys

/-- `RebuildPlotSourceOwners`, which meets the tiles in the order of the walk. -/
def rebuildPlotSourceOwnersAlong (walk : List ByteString) (w : Window) : Window :=
  walk.foldl w.ownSources { w with plotSourceOwners := fun _ => none }

def loadLayoutAlong (walk : Window → List ByteString) (w : Window) (entries : List LayoutEntry)
    (layoutHiddenKeys : Finset ByteString) : Option Window :=
  (entries.foldlM applyEntry
    { w with
      savedLayoutByKey := saveEntries entries
      runBrowserHiddenKeys := layoutHiddenKeys }).map fun applied =>
    ((applied.rebuildPlotSourceOwnersAlong (walk applied)).hideAbsorbed).showLayout
      layoutHiddenKeys

/-- `LoadLayoutFromPath` over existing tiles, from the file. -/
def loadLayoutFromPath (walk : Window → List ByteString) (w : Window) (file : LayoutFile) :
    Option Window :=
  w.loadLayoutAlong walk file.entries file.layoutHiddenKeys

/-- The walk in the order of the keys is the one of `loadLayout`. -/
theorem loadLayoutAlong_keys (w : Window) (entries : List LayoutEntry)
    (layoutHiddenKeys : Finset ByteString) :
    w.loadLayoutAlong (fun v => v.tiles.keys) entries layoutHiddenKeys =
      w.loadLayout entries layoutHiddenKeys :=
  rfl

/-- The map leads from the key to the tile of the plot. -/
def OwnedBy (w : Window) (key plot : ByteString) : Prop :=
  ∃ tile, w.tiles.find plot = some tile ∧ w.plotSourceOwners key = some tile.id

/-- The plot lists the key, which is one that a file can keep. -/
def Lists (w : Window) (plot key : ByteString) : Prop :=
  key ≠ [] ∧ ∃ tile, w.tiles.find plot = some tile ∧ tile.absorbs key

/-- Addresses differ from one window to the next, so plots are compared by their keys. -/
def SameOwners (w w' : Window) : Prop :=
  ∀ key, (w.plotSourceOwners key = none ↔ w'.plotSourceOwners key = none) ∧
    ∀ plot, w.OwnedBy key plot ↔ w'.OwnedBy key plot

end Window

/-- The tiles of the window, each once, in some order. -/
structure Children (w : Window) (children : List ByteString) : Prop where
  nodup : children.Nodup
  mem : ∀ key, key ∈ children ↔ (w.tiles.find key).isSome

/-- No tile, no owner, and no active session. -/
structure Cleared (v : Window) : Prop where
  tiles : v.tiles.keys = []
  owners : ∀ key, v.plotSourceOwners key = none
  active : v.runBrowserActive = false

/-- In whatever order an unordered map is walked. -/
def Walks (walk : Window → List ByteString) : Prop := ∀ v, (walk v).Perm v.tiles.keys

/-- The file of `w` gives a cleared window `v` the same tiles, shown or hidden, and the same owners,
and another save the same hidden keys. -/
def RestoresLayout (w v : Window) (children : List ByteString) : Prop :=
  ∀ walk, Walks walk → ∃ w',
    v.loadLayoutFromPath walk (w.saveLayoutToPath children) = some w' ∧
    (∀ key tile, w.tiles.find key = some tile →
      ∃ tile', w'.tiles.find key = some tile' ∧ tile'.visible = tile.visible) ∧
    w.SameOwners w' ∧ w'.savedHiddenKeys = w.savedHiddenKeys

/-- The states whose layout comes back: the map of owners has what the source lists say, each key in
one plot, and none of the tiles that it knows is hidden. -/
structure KeepsLayout (w : Window) : Prop where
  named : w.tiles.find [] = none
  shown : ∀ key tile, w.tiles.find key = some tile → w.plotSourceOwners key ≠ none →
    tile.visible = true
  unowned : ∀ key, w.plotSourceOwners key = none ↔ ∀ plot, ¬w.Lists plot key
  owned : ∀ key plot, w.OwnedBy key plot ↔ w.Lists plot key
  unique : ∀ key plot plot', w.Lists plot key → w.Lists plot' key → plot = plot'

/-! ### What is written -/

section Saving

variable {w : Window} {children : List ByteString} {key plot : ByteString}

theorem Window.mem_savedHiddenKeys :
    key ∈ w.savedHiddenKeys ↔
      ∃ tile, w.tiles.find key = some tile ∧ tile.visible = false ∧
        w.plotSourceOwners key = none := by
  rw [Window.savedHiddenKeys, List.mem_toFinset, List.mem_filter, w.tiles.mem_keys]
  cases w.tiles.find key <;> simp

/-- The source list of the entry, as it is read, is that of the tile. -/
theorem Tile.mem_sourceKeys_layoutEntry (tile : Tile) :
    key ∈ (tile.layoutEntry plot).withNamedSources.sourceKeys ↔ key ≠ [] ∧ tile.absorbs key := by
  cases hmulti : tile.isMultiLinePlot with
  | true =>
    rw [Tile.absorbs_iff_of_isMultiLinePlot hmulti]
    simp only [LayoutEntry.sourceKeys, LayoutEntry.withNamedSources, Tile.layoutEntry, hmulti,
      if_true, Tile.sourceKeys, List.mem_map, List.mem_filter, decide_eq_true_eq]
    constructor
    · rintro ⟨source, ⟨hmem, hne⟩, rfl⟩
      exact ⟨hne, source, hmem, rfl⟩
    · rintro ⟨hne, source, hmem, rfl⟩
      exact ⟨source, ⟨hmem, hne⟩, rfl⟩
  | false =>
    have hnot := Tile.not_isMultiLinePlot_iff.mp hmulti key
    simp [LayoutEntry.sourceKeys, LayoutEntry.withNamedSources, Tile.layoutEntry, hmulti, hnot]

/-- Only line plots are written with sources. -/
theorem Tile.widgetType_of_sources {tile : Tile}
    (h : (tile.layoutEntry plot).withNamedSources.linePlotSources ≠ []) :
    tile.widgetType = linePlot := by
  have hmulti : tile.isMultiLinePlot = true := by
    by_contra hnot
    simp [LayoutEntry.withNamedSources, Tile.layoutEntry, hnot] at h
  exact (Tile.isLinePlotWidget_iff.mp (Tile.isMultiLinePlot_iff.mp hmulti).1).2

theorem Children.map_variableKey (h : Children w children) :
    (w.saveLayoutToPath children).entries.map LayoutEntry.variableKey =
      children.filter fun key => key ≠ [] := by
  have hwidgets : (w.saveLayoutToPath children).widgets.map LayoutEntry.variableKey = children := by
    simp only [Window.saveLayoutToPath, List.map_filterMap, Option.map_map]
    refine (List.filterMap_congr fun key hmem => ?_).trans List.filterMap_some
    obtain ⟨tile, htile⟩ := Option.isSome_iff_exists.mp ((h.mem key).mp hmem)
    rw [htile]
    rfl
  calc
    _ = ((w.saveLayoutToPath children).widgets.filter
        fun entry => entry.variableKey ≠ []).map LayoutEntry.variableKey := by
      rw [LayoutFile.entries, List.map_map]
      rfl
    _ = ((w.saveLayoutToPath children).widgets.map LayoutEntry.variableKey).filter
        fun key => key ≠ [] := by
      rw [List.filter_map]
      rfl
    _ = _ := by rw [hwidgets]

theorem exists_tile_of_mem_entries {entry : LayoutEntry}
    (h : entry ∈ (w.saveLayoutToPath children).entries) :
    ∃ tile, w.tiles.find entry.variableKey = some tile ∧
      entry = (tile.layoutEntry entry.variableKey).withNamedSources := by
  obtain ⟨written, hmem, rfl⟩ := List.mem_map.mp h
  obtain ⟨key, _, hwritten⟩ := List.mem_filterMap.mp (List.mem_filter.mp hmem).1
  obtain ⟨tile, htile, rfl⟩ := Option.map_eq_some_iff.mp hwritten
  exact ⟨tile, htile, rfl⟩

end Saving

/-! ### What is read into a cleared window -/

section Loading

variable {w v : Window} {children : List ByteString}

theorem cleared_clearWidgets (w : Window) (live : Bool) : Cleared (w.clearWidgets live) := by
  cases live <;> exact ⟨by simp [Window.clearWidgets], by simp [Window.clearWidgets],
    by simp [Window.clearWidgets]⟩

theorem Cleared.find_eq_none (h : Cleared v) (key : ByteString) : v.tiles.find key = none := by
  rw [← Option.not_isSome_iff_eq_none, ← v.tiles.mem_keys, h.tiles]
  simp

/-- The window once the entries are applied: it has the tiles that have a name, and their plots list
what they listed. -/
structure Applied (w u : Window) : Prop extends Numbered u where
  active : u.runBrowserActive = false
  keys : ∀ key, (u.tiles.find key).isSome ↔ key ≠ [] ∧ (w.tiles.find key).isSome
  absorbs : ∀ plot tile, u.tiles.find plot = some tile → ∀ key,
    tile.absorbs key ↔ w.Lists plot key

/-- In a cleared window no entry meets a plot that it could take apart. -/
theorem Cleared.exists_applied (hv : Cleared v) (hc : Children w children)
    (hiddenKeys : Finset ByteString) :
    ∃ u, (w.saveLayoutToPath children).entries.foldlM Window.applyEntry
        { v with
          savedLayoutByKey := Window.saveEntries (w.saveLayoutToPath children).entries
          runBrowserHiddenKeys := hiddenKeys } = some u ∧ Applied w u := by
  set entries := (w.saveLayoutToPath children).entries with hentries
  set start : Window :=
    { v with
      savedLayoutByKey := Window.saveEntries entries
      runBrowserHiddenKeys := hiddenKeys } with hstart
  have hnone : ∀ key, start.tiles.find key = none := hv.find_eq_none
  have hseries : ∀ key, start.series key = [] := fun key => by rw [Window.series, hnone]
  have hs : Stores start := by
    have hinv : Inv { v with savedLayoutByKey := fun _ => none } :=
      inv_of_no_tiles hv.tiles hv.owners fun _ => rfl
    exact ⟨⟨hinv.ids, hinv.created⟩, hinv.owners, hinv.apart, hinv.hidden, hinv.bare⟩
  have hdistinct : (entries.map LayoutEntry.variableKey).Nodup := by
    rw [hentries, hc.map_variableKey]
    exact hc.nodup.filter _
  have hwidget : ∀ entry ∈ entries, entry.linePlotSources ≠ [] →
      entry.widgetType = linePlot := by
    intro entry hmem hne
    obtain ⟨tile, _, heq⟩ := exists_tile_of_mem_entries hmem
    rw [heq] at hne ⊢
    exact Tile.widgetType_of_sources hne
  have hplots : ∀ entry ∈ entries, entry.linePlotSources ≠ [] →
      start.entryType entry = .double → start.EntryPlots entry :=
    fun entry hmem hne _ => .inl (hwidget entry hmem hne)
  have horder : entries.Pairwise start.KeepsEarlier := by
    refine List.pairwise_of_forall fun earlier later => .inr fun source hmem => ?_
    rw [hseries] at hmem
    cases hmem
  have hsaved : ∀ entry ∈ entries, start.savedLayoutByKey entry.variableKey = some entry := by
    intro entry hmem
    have hlast : LastWrite.Distinct LayoutEntry.variableKey entries := hdistinct
    exact (saveEntries_eq entries _).trans (hlast.last_of_mem hmem)
  obtain ⟨u, hfold, hu⟩ := (partway_nil hs).foldlM_applyEntry entries hs hdistinct hplots
    horder hsaved
  rw [List.nil_append] at hu
  have hkeys : ∀ key, key ∈ start.layoutKeys entries ↔ key ≠ [] ∧ (w.tiles.find key).isSome := by
    intro key
    have htiles : start.tiles.keys = [] := hv.tiles
    rw [Window.layoutKeys, htiles, List.nil_append, hentries, hc.map_variableKey, List.mem_filter,
      hc.mem, decide_eq_true_eq, and_comm]
  refine ⟨u, hfold, hu.toNumbered, hu.active.trans hv.active, fun key => ?_, ?_⟩
  · rw [hu.keys, hkeys]
  · -- what the plots list
    intro plot tile htile key
    rw [hu.absorbs plot tile htile]
    obtain ⟨hne, hsome⟩ := (hkeys plot).mp (hu.mem_layoutKeys htile)
    obtain ⟨entry, hfind⟩ : ∃ entry,
        entries.find? (fun entry => entry.variableKey = plot) = some entry := by
      rw [← Option.isSome_iff_exists, List.find?_isSome]
      have hmem : plot ∈ entries.map LayoutEntry.variableKey := by
        rw [hentries, hc.map_variableKey, List.mem_filter, hc.mem]
        exact ⟨hsome, decide_eq_true hne⟩
      obtain ⟨entry, hmem, heq⟩ := List.mem_map.mp hmem
      exact ⟨entry, hmem, decide_eq_true heq⟩
    have hkey := List.find?_some hfind
    rw [decide_eq_true_eq] at hkey
    have hentry := List.mem_of_find?_eq_some hfind
    obtain ⟨saved, hsaved, heq⟩ := exists_tile_of_mem_entries hentry
    rw [hkey] at hsaved heq
    have hlists : w.Lists plot key ↔ key ∈ entry.sourceKeys := by
      rw [heq, saved.mem_sourceKeys_layoutEntry, Window.Lists, hsaved]
      simp
    rw [hlists, Window.layoutSources, hfind]
    dsimp only
    split
    · next hnil =>
      -- without sources it stays what it was created as
      have hempty : start.seriesKeys plot = [] := by rw [Window.seriesKeys, hseries, List.map_nil]
      simp [hempty, LayoutEntry.sourceKeys, hnil]
    · next hsources =>
      have htype : start.entryType entry = .double := by
        rw [Window.entryType, hnone, hwidget entry hentry hsources]
        decide
      rw [if_pos htype]

theorem foldl_ownSources_frame (w : Window) (walk : List ByteString)
    (owners : ByteString → Option ℕ) :
    ∃ owners', walk.foldl w.ownSources { w with plotSourceOwners := owners } =
      { w with plotSourceOwners := owners' } := by
  induction walk generalizing owners with
  | nil => exact ⟨owners, rfl⟩
  | cons plot walk ih =>
    rw [List.foldl_cons, ownSources_eq]
    exact ih _

/-- The plot that the walk meets last has the last word. -/
theorem owner_of_last {walk : List ByteString} {plot key : ByteString} {tile : Tile}
    (htile : w.tiles.find plot = some tile) (habs : tile.absorbs key) :
    (w.rebuildPlotSourceOwnersAlong (walk ++ [plot])).plotSourceOwners key = some tile.id := by
  rw [Window.rebuildPlotSourceOwnersAlong, List.foldl_append, List.foldl_cons, List.foldl_nil,
    ownSources_eq]
  simp only [htile, if_pos habs]

/-- Without a session nothing but the hidden keys counts in the end. -/
theorem find_showLayout {hiddenKeys : Finset ByteString} (hactive : v.runBrowserActive = false)
    (key : ByteString) :
    (v.hideAbsorbed.showLayout hiddenKeys).tiles.find key =
      (v.tiles.find key).map fun tile => { tile with visible := key ∉ hiddenKeys } := by
  have hnot : ¬v.hideAbsorbed.runBrowserActive = true := by
    simp [Window.hideAbsorbed, hactive]
  rw [Window.showLayout, if_neg hnot]
  simp only [Window.hideAbsorbed, KeyedMap.find_mapValues, Option.map_map]
  rfl

theorem plotSourceOwners_showLayout {hiddenKeys : Finset ByteString}
    (hactive : v.runBrowserActive = false) :
    (v.hideAbsorbed.showLayout hiddenKeys).plotSourceOwners = v.plotSourceOwners := by
  have hnot : ¬v.hideAbsorbed.runBrowserActive = true := by
    simp [Window.hideAbsorbed, hactive]
  rw [Window.showLayout, if_neg hnot]
  rfl

/-- What comes of a file. -/
structure Reloaded (w u w' : Window) (walk : List ByteString) : Prop extends Applied w u where
  tiles : ∀ key, w'.tiles.find key =
    (u.tiles.find key).map fun tile => { tile with visible := key ∉ w.savedHiddenKeys.erase [] }
  owners : w'.plotSourceOwners = (u.rebuildPlotSourceOwnersAlong walk).plotSourceOwners

theorem Cleared.exists_reloaded (hv : Cleared v) (hc : Children w children) :
    ∃ u, ∀ walk : Window → List ByteString, ∃ w',
      v.loadLayoutFromPath walk (w.saveLayoutToPath children) = some w' ∧
        Reloaded w u w' (walk u) := by
  obtain ⟨u, hfold, hu⟩ := hv.exists_applied hc (w.saveLayoutToPath children).layoutHiddenKeys
  refine ⟨u, fun walk => ?_⟩
  obtain ⟨owners, howners⟩ := foldl_ownSources_frame u (walk u) fun _ => none
  have hrebuilt : u.rebuildPlotSourceOwnersAlong (walk u) =
      { u with plotSourceOwners := owners } := howners
  have hactive : (u.rebuildPlotSourceOwnersAlong (walk u)).runBrowserActive = false := by
    rw [hrebuilt]
    exact hu.active
  refine ⟨(u.rebuildPlotSourceOwnersAlong (walk u)).hideAbsorbed.showLayout
    (w.saveLayoutToPath children).layoutHiddenKeys, ?_, hu, fun key => ?_,
    plotSourceOwners_showLayout hactive⟩
  · rw [Window.loadLayoutFromPath, Window.loadLayoutAlong, hfold, Option.map_some]
  · rw [find_showLayout hactive, hrebuilt]
    rfl

end Loading

/-! ### The round trip -/

section RoundTrip

variable {w v u w' : Window} {children walk : List ByteString} {key plot plot' : ByteString}

theorem Reloaded.visible (h : Reloaded w u w' walk) {tile : Tile}
    (htile : w'.tiles.find key = some tile) :
    key ≠ [] ∧ (tile.visible = true ↔ key ∉ w.savedHiddenKeys) := by
  rw [h.tiles, Option.map_eq_some_iff] at htile
  obtain ⟨old, hold, rfl⟩ := htile
  have hne := ((h.keys key).mp (by rw [hold, Option.isSome_some])).1
  simp [hne]

theorem Reloaded.exists_tile (h : Reloaded w u w' walk) (hne : key ≠ []) {tile : Tile}
    (htile : w.tiles.find key = some tile) : ∃ tile', w'.tiles.find key = some tile' := by
  have hsome := (h.keys key).mpr ⟨hne, by rw [htile, Option.isSome_some]⟩
  obtain ⟨old, hold⟩ := Option.isSome_iff_exists.mp hsome
  exact ⟨_, by rw [h.tiles, hold, Option.map_some]⟩

theorem Reloaded.exists_old (h : Reloaded w u w' walk) {tile' : Tile}
    (htile : w'.tiles.find key = some tile') :
    key ≠ [] ∧ ∃ tile, w.tiles.find key = some tile := by
  rw [h.tiles, Option.map_eq_some_iff] at htile
  obtain ⟨old, hold, _⟩ := htile
  obtain ⟨hne, hsome⟩ := (h.keys key).mp (by rw [hold, Option.isSome_some])
  exact ⟨hne, Option.isSome_iff_exists.mp hsome⟩

theorem Reloaded.ownedBy_iff (h : Reloaded w u w' walk) :
    w'.OwnedBy key plot ↔ ∃ tile, u.tiles.find plot = some tile ∧
      (u.rebuildPlotSourceOwnersAlong walk).plotSourceOwners key = some tile.id := by
  rw [Window.OwnedBy, h.owners, h.tiles]
  cases u.tiles.find plot <;> simp

theorem Reloaded.ownedBy_unique (h : Reloaded w u w' walk) (howned : w'.OwnedBy key plot)
    (howned' : w'.OwnedBy key plot') : plot = plot' := by
  obtain ⟨tile, htile, hid⟩ := h.ownedBy_iff.mp howned
  obtain ⟨tile', htile', hid'⟩ := h.ownedBy_iff.mp howned'
  exact h.ids plot plot' tile tile' htile htile' (Option.some.inj (hid.symm.trans hid'))

theorem Applied.exists_plot (h : Applied w u) (hlists : w.Lists plot key) (hne : plot ≠ []) :
    ∃ tile, u.tiles.find plot = some tile ∧ tile.absorbs key := by
  have hsome : (w.tiles.find plot).isSome := by
    obtain ⟨_, old, hold, _⟩ := hlists
    rw [hold, Option.isSome_some]
  obtain ⟨tile, htile⟩ := Option.isSome_iff_exists.mp ((h.keys plot).mpr ⟨hne, hsome⟩)
  exact ⟨tile, htile, (h.absorbs plot tile htile key).mpr hlists⟩

theorem Window.Lists.ne_nil (h : w.Lists plot key) (hnamed : w.tiles.find [] = none) :
    plot ≠ [] := by
  rintro rfl
  obtain ⟨_, tile, htile, _⟩ := h
  cases hnamed.symm.trans htile

/-- With one plot for each key every walk finds the same owners. -/
theorem Reloaded.owners_iff (h : Reloaded w u w' walk) (hwalk : walk.Perm u.tiles.keys)
    (hnamed : w.tiles.find [] = none)
    (hunique : ∀ key plot plot', w.Lists plot key → w.Lists plot' key → plot = plot')
    (key : ByteString) :
    (w'.plotSourceOwners key = none ↔ ∀ plot, ¬w.Lists plot key) ∧
      ∀ plot, w'.OwnedBy key plot ↔ w.Lists plot key := by
  obtain ⟨owners, hfold, howners⟩ := foldl_ownSources_eq
    (fun key plot plot' tile tile' htile htile' habs habs' =>
      hunique key plot plot' ((h.absorbs plot tile htile key).mp habs)
        ((h.absorbs plot' tile' htile' key).mp habs')) walk
  have hrebuilt : (u.rebuildPlotSourceOwnersAlong walk).plotSourceOwners = owners := by
    rw [Window.rebuildPlotSourceOwnersAlong, hfold]
  have hlisted : ∀ {plot tile}, u.tiles.find plot = some tile → plot ∈ walk := fun htile =>
    hwalk.mem_iff.mpr (KeyedMap.mem_keys_of_find htile)
  have howned : ∀ plot, w'.OwnedBy key plot ↔ w.Lists plot key := by
    intro plot
    rw [h.ownedBy_iff, hrebuilt]
    constructor
    · rintro ⟨tile, htile, hid⟩
      obtain ⟨plot', _, tile', htile', hid', habs⟩ := (howners key tile.id).mp hid
      have heq := h.ids plot' plot tile' tile htile' htile hid'
      subst heq
      exact (h.absorbs plot' tile' htile' key).mp habs
    · intro hlists
      obtain ⟨tile, htile, habs⟩ := h.exists_plot hlists (hlists.ne_nil hnamed)
      exact ⟨tile, htile, (howners key tile.id).mpr ⟨plot, hlisted htile, tile, htile, rfl, habs⟩⟩
  refine ⟨?_, howned⟩
  constructor
  · intro hnone plot hlists
    obtain ⟨tile, _, hid⟩ := (howned plot).mpr hlists
    cases hnone.symm.trans hid
  · intro hnot
    rw [h.owners, hrebuilt, Option.eq_none_iff_forall_ne_some]
    intro id hid
    obtain ⟨plot, _, tile, htile, _, habs⟩ := (howners key id).mp hid
    exact hnot plot ((h.absorbs plot tile htile key).mp habs)

/-- The order of the keys, but with one key moved to the end. -/
def walkTo (plot : ByteString) (v : Window) : List ByteString :=
  if plot ∈ v.tiles.keys then v.tiles.keys.erase plot ++ [plot] else v.tiles.keys

theorem walks_walkTo (plot : ByteString) : Walks (walkTo plot) := by
  intro v
  unfold walkTo
  split
  · next hmem => exact List.perm_append_singleton .. |>.trans (List.perm_cons_erase hmem).symm
  · exact .refl _

theorem Reloaded.ownedBy_of_walkTo (h : Reloaded w u w' (walkTo plot u))
    (hlists : w.Lists plot key) (hne : plot ≠ []) : w'.OwnedBy key plot := by
  obtain ⟨tile, htile, habs⟩ := h.exists_plot hlists hne
  refine h.ownedBy_iff.mpr ⟨tile, htile, ?_⟩
  rw [walkTo, if_pos (KeyedMap.mem_keys_of_find htile)]
  exact owner_of_last htile habs

theorem RestoresLayout.keepsLayout (hc : Children w children) (hv : Cleared v)
    (h : RestoresLayout w v children) : KeepsLayout w := by
  obtain ⟨u, hload⟩ := hv.exists_reloaded hc
  have hback : ∀ walk, Walks walk → ∃ w', Reloaded w u w' (walk u) ∧
      (∀ key tile, w.tiles.find key = some tile →
        ∃ tile', w'.tiles.find key = some tile' ∧ tile'.visible = tile.visible) ∧
      w.SameOwners w' := by
    intro walk hwalk
    obtain ⟨w', hsome, hreloaded⟩ := hload walk
    obtain ⟨w'', hsome', htiles, howners, _⟩ := h walk hwalk
    cases hsome.symm.trans hsome'
    exact ⟨w', hreloaded, htiles, howners⟩
  obtain ⟨w', hreloaded, htiles, howners⟩ := hback _ (walks_walkTo [])
  have hnamed : w.tiles.find [] = none := by
    by_contra hsome
    obtain ⟨tile, htile⟩ := Option.ne_none_iff_exists'.mp hsome
    obtain ⟨tile', htile', _⟩ := htiles [] tile htile
    exact (hreloaded.exists_old htile').1 rfl
  -- a walk that ends with the plot makes it the owner, so it was the owner before
  have hwalked : ∀ key plot, w.Lists plot key → w.OwnedBy key plot ∧
      ∀ plot', w.OwnedBy key plot' → plot = plot' := by
    intro key plot hlists
    obtain ⟨w', hreloaded, _, howners⟩ := hback _ (walks_walkTo plot)
    have howned := hreloaded.ownedBy_of_walkTo hlists (hlists.ne_nil hnamed)
    refine ⟨((howners key).2 plot).mpr howned, fun plot' howned' => ?_⟩
    exact hreloaded.ownedBy_unique howned (((howners key).2 plot').mp howned')
  have hunique : ∀ key plot plot', w.Lists plot key → w.Lists plot' key → plot = plot' :=
    fun key plot plot' hlists hlists' => (hwalked key plot hlists).2 plot'
      (hwalked key plot' hlists').1
  have hgiven := hreloaded.owners_iff (walks_walkTo [] u) hnamed hunique
  refine ⟨hnamed, fun key tile htile howner => ?_, ?_, ?_, hunique⟩
  · obtain ⟨tile', htile', hvisible⟩ := htiles key tile htile
    rw [← hvisible, (hreloaded.visible htile').2, Window.mem_savedHiddenKeys]
    rintro ⟨_, _, _, hnone⟩
    exact howner hnone
  · intro key
    rw [(howners key).1, (hgiven key).1]
  · intro key plot
    rw [(howners key).2, (hgiven key).2]

theorem KeepsLayout.restoresLayout (hc : Children w children) (hv : Cleared v)
    (h : KeepsLayout w) : RestoresLayout w v children := by
  intro walk hwalk
  obtain ⟨u, hload⟩ := hv.exists_reloaded hc
  obtain ⟨w', hsome, hreloaded⟩ := hload walk
  have howners := hreloaded.owners_iff (hwalk u) h.named h.unique
  have hsame : w.SameOwners w' := fun key =>
    ⟨(h.unowned key).trans (howners key).1.symm, fun plot =>
      (h.owned key plot).trans ((howners key).2 plot).symm⟩
  have hvisible : ∀ {key tile tile'}, w.tiles.find key = some tile →
      w'.tiles.find key = some tile' → tile'.visible = tile.visible := by
    intro key tile tile' htile htile'
    rw [Bool.eq_iff_iff, (hreloaded.visible htile').2, Window.mem_savedHiddenKeys]
    cases hvisible : tile.visible with
    | true => simp [htile, hvisible]
    | false =>
      -- a hidden tile has no owner, so it is among the hidden keys of the file
      have hnone : w.plotSourceOwners key = none := by
        by_contra howner
        cases hvisible.symm.trans (h.shown key tile htile howner)
      simp [htile, hvisible, hnone]
  refine ⟨w', hsome, fun key tile htile => ?_, hsame, ?_⟩
  · have hne : key ≠ [] := by
      rintro rfl
      cases h.named.symm.trans htile
    obtain ⟨tile', htile'⟩ := hreloaded.exists_tile hne htile
    exact ⟨tile', htile', hvisible htile htile'⟩
  · ext key
    rw [Window.mem_savedHiddenKeys, Window.mem_savedHiddenKeys, ← (hsame key).1]
    constructor
    · rintro ⟨tile', htile', hhidden, hnone⟩
      obtain ⟨_, tile, htile⟩ := hreloaded.exists_old htile'
      exact ⟨tile, htile, (hvisible htile htile').symm.trans hhidden, hnone⟩
    · rintro ⟨tile, htile, hhidden, hnone⟩
      have hne : key ≠ [] := by
        rintro rfl
        cases h.named.symm.trans htile
      obtain ⟨tile', htile'⟩ := hreloaded.exists_tile hne htile
      exact ⟨tile', htile', (hvisible htile htile').trans hhidden, hnone⟩

theorem children_keys (h : w.tiles.keys.Nodup) : Children w w.tiles.keys :=
  ⟨h, w.tiles.mem_keys⟩

/-- The layout comes back from exactly those states. -/
theorem restoresLayout_iff (hc : Children w children) (hv : Cleared v) :
    RestoresLayout w v children ↔ KeepsLayout w :=
  ⟨fun h => h.keepsLayout hc hv, fun h => h.restoresLayout hc hv⟩

theorem restoresLayout_iff_dropsCurrent :
    ∃ u, run act {} dropsCurrent = some u ∧
      (RestoresLayout u (u.clearWidgets true) u.tiles.keys ↔ KeepsLayout u) := by
  obtain ⟨u, hrun⟩ : ∃ u, run act {} dropsCurrent = some u :=
    Option.isSome_iff_exists.mp (by decide +kernel)
  have hnodup : ∀ u ∈ run act {} dropsCurrent, u.tiles.keys.Nodup := by decide +kernel
  exact ⟨u, hrun, restoresLayout_iff (children_keys (hnodup u hrun)) (cleared_clearWidgets u true)⟩

/-- A tile is dropped on a plot; when the layout is loaded again, the tile is back. -/
theorem dropsCurrent_not_restored :
    Blank {} ∧ ∃ u, run act {} dropsCurrent = some u ∧ Children u u.tiles.keys ∧
      Cleared (u.clearWidgets true) ∧
      ¬RestoresLayout u (u.clearWidgets true) u.tiles.keys := by
  obtain ⟨u, hrun⟩ : ∃ u, run act {} dropsCurrent = some u :=
    Option.isSome_iff_exists.mp (by decide +kernel)
  have hnodup : ∀ u ∈ run act {} dropsCurrent, u.tiles.keys.Nodup := by decide +kernel
  have hhidden : ∀ u ∈ run act {} dropsCurrent, ∃ tile ∈ u.tiles.find current,
      tile.visible = false ∧ u.plotSourceOwners current ≠ none := by
    decide +kernel
  have hc := children_keys (hnodup u hrun)
  have hv := cleared_clearWidgets u true
  refine ⟨blank_initial false ∅ ∅, u, hrun, hc, hv, fun h => ?_⟩
  obtain ⟨tile, htile, hinvisible, howner⟩ := hhidden u hrun
  cases hinvisible.symm.trans ((h.keepsLayout hc hv).shown current tile htile howner)

/-- Where the stores agree, an absorbed tile is hidden and so does not come back as it was. -/
theorem Inv.keepsLayout_iff (h : Inv w) :
    KeepsLayout w ↔ w.tiles.find [] = none ∧ w.plotSourceOwners [] = none ∧
      ∀ key tile, w.tiles.find key = some tile → w.plotSourceOwners key = none := by
  have howned : ∀ key plot, w.OwnedBy key plot ↔
      ∃ tile, w.tiles.find plot = some tile ∧ tile.absorbs key := by
    intro key plot
    constructor
    · rintro ⟨tile, htile, hid⟩
      obtain ⟨plot', tile', htile', hid', habs⟩ := (h.owners key tile.id).mp hid
      have heq := h.ids plot' plot tile' tile htile' htile hid'
      subst heq
      exact ⟨tile', htile', habs⟩
    · rintro ⟨tile, htile, habs⟩
      exact ⟨tile, htile, h.plotSourceOwners_of_absorbs htile habs⟩
  constructor
  · intro hkeeps
    refine ⟨hkeeps.named, (hkeeps.unowned []).mpr fun plot hlists => hlists.1 rfl, ?_⟩
    intro key tile htile
    by_contra howner
    cases (h.hidden key tile howner htile).symm.trans (hkeeps.shown key tile htile howner)
  · rintro ⟨hnamed, hempty, hfree⟩
    have hlists : ∀ key plot, w.Lists plot key ↔
        ∃ tile, w.tiles.find plot = some tile ∧ tile.absorbs key := by
      intro key plot
      refine and_iff_right_of_imp ?_
      rintro ⟨tile, htile, habs⟩ rfl
      exact h.owner_ne_none htile habs hempty
    refine ⟨hnamed, fun key tile htile howner => absurd (hfree key tile htile) howner, ?_, ?_, ?_⟩
    · intro key
      rw [Option.eq_none_iff_forall_ne_some]
      constructor
      · intro hnone plot hlist
        obtain ⟨tile, htile, habs⟩ := (hlists key plot).mp hlist
        exact hnone tile.id (h.plotSourceOwners_of_absorbs htile habs)
      · intro hnot id hid
        obtain ⟨plot, tile, htile, _, habs⟩ := (h.owners key id).mp hid
        exact hnot plot ((hlists key plot).mpr ⟨tile, htile, habs⟩)
    · intro key plot
      rw [howned, hlists]
    · intro key plot plot' hlist hlist'
      obtain ⟨tile, htile, habs⟩ := (hlists key plot).mp hlist
      obtain ⟨tile', htile', habs'⟩ := (hlists key plot').mp hlist'
      exact h.owned.unique key plot plot' tile tile' htile htile' habs habs'

/-- Over a run of safe actions the layout of the state that is reached comes back unless a plot has
absorbed a tile of it. -/
theorem run_restoresLayout {actions : List LayoutAction} (hw : Blank w)
    (hsafe : EveryStep act Safe w actions) (hrun : run act w actions = some u)
    (hc : Children u children) (hv : Cleared v) :
    RestoresLayout u v children ↔ u.tiles.find [] = none ∧ u.plotSourceOwners [] = none ∧
      ∀ key tile, u.tiles.find key = some tile → u.plotSourceOwners key = none := by
  rw [← (run_inv hw hsafe hrun).keepsLayout_iff]
  exact ⟨fun h => h.keepsLayout hc hv, fun h => h.restoresLayout hc hv⟩

end RoundTrip

end SmartDashboard.App.RunBrowser
