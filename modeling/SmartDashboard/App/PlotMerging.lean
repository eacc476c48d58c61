import SmartDashboard.App.PlotOwners

/-!
# Merging plots and removing tiles

A drop makes a series of a tile and takes over the series the tile had, if it was a plot itself.
Both tiles of a drop are visible, so neither is absorbed. A removal forgets the sources of a plot
but shows none of their tiles; it is left to the dock to emit something.

## Main definitions

- `Grows`: a plot takes keys, and owns them afterwards
- `RemovesSafely`: the removals after which the stores still agree
-/

namespace SmartDashboard.App.RunBrowser

open Direct (ByteString)

/-! ### Series that a plot takes -/

section Sources

variable {tile : Tile} {self key key' widgetType : ByteString}

@[simp] theorem Tile.sourceKeys_recordOriginal :
    (tile.recordOriginal key widgetType).sourceKeys = tile.sourceKeys := by
  rw [Tile.sourceKeys, Tile.sourceKeys, Tile.recordOriginal, List.map_map]
  apply List.map_congr_left
  intro source _
  rw [Function.comp_apply]
  split <;> rfl

theorem Tile.mem_sourceKeys_addPlotSource (hself : key ≠ self) :
    key' ∈ (tile.addPlotSource self key).sourceKeys ↔ key' ∈ tile.sourceKeys ∨ key' = key := by
  unfold Tile.addPlotSource
  split
  · next hskip =>
    have hmem := hskip.resolve_left hself
    constructor
    · exact .inl
    · rintro (hold | rfl)
      · exact hold
      · exact hmem
  · simp [Tile.sourceKeys]

/-- Nothing of the plot changes but its sources. -/
theorem Tile.exists_addPlotSource (tile : Tile) (self key widgetType : ByteString) :
    ∃ sources, (tile.addPlotSource self key).recordOriginal key widgetType =
      { tile with plotSources := sources } := by
  unfold Tile.addPlotSource
  split <;> exact ⟨_, rfl⟩

end Sources

structure Grows (plot : ByteString) (tile : Tile) (keys : List ByteString) (w w' : Window) :
    Prop where
  rest : w.SameRest w'
  hidden : w'.runBrowserHiddenKeys = w.runBrowserHiddenKeys
  others : ∀ key, key ≠ plot → w'.tiles.find key = w.tiles.find key
  plot : ∃ sources, w'.tiles.find plot = some { tile with plotSources := sources } ∧
    ∀ key, key ∈ sources.map PlotSource.key ↔ key ∈ tile.sourceKeys ∨ key ∈ keys
  owners : ∀ key, w'.plotSourceOwners key =
    if key ∈ keys ∧ key ∉ tile.sourceKeys then some tile.id else w.plotSourceOwners key

section Growing

variable {w w' w'' : Window} {plot : ByteString} {tile : Tile} {source : PlotSource}
  {keys : List ByteString}

theorem grows_nil (htile : w.tiles.find plot = some tile) : Grows plot tile [] w w where
  rest := .refl w
  hidden := rfl
  others _ _ := rfl
  plot := ⟨tile.plotSources, htile, by simp [Tile.sourceKeys]⟩
  owners := by simp

theorem Grows.trans {sources : List PlotSource} {keys' : List ByteString}
    (h : Grows plot tile keys w w')
    (hplot : w'.tiles.find plot = some { tile with plotSources := sources })
    (h' : Grows plot { tile with plotSources := sources } keys' w' w'') :
    Grows plot tile (keys ++ keys') w w'' := by
  obtain ⟨sources', hplot', hmem⟩ := h.plot
  rw [hplot] at hplot'
  have hsources : sources = sources' := by simpa using hplot'
  subst hsources
  refine ⟨h.rest.trans h'.rest, h'.hidden.trans h.hidden, ?_, ?_, ?_⟩
  · intro key hne
    exact (h'.others key hne).trans (h.others key hne)
  · obtain ⟨sources', hplot', hmem'⟩ := h'.plot
    refine ⟨sources', hplot', ?_⟩
    intro key
    rw [hmem', Tile.sourceKeys, hmem, List.mem_append, or_assoc]
  · intro key
    have hmem' : key ∈ Tile.sourceKeys { tile with plotSources := sources } ↔
        key ∈ tile.sourceKeys ∨ key ∈ keys := hmem key
    simp only [h'.owners, h.owners, hmem', List.mem_append]
    by_cases hkeys : key ∈ keys <;> by_cases htile : key ∈ tile.sourceKeys <;>
      simp [hkeys, htile]

theorem grows_transfer (htile : w.tiles.find plot = some tile) (hne : source.key ≠ plot) :
    Grows plot tile [source.key] w (w.transfer plot source) := by
  simp only [Window.transfer, htile]
  split
  · next hskip =>
    have hmem := hskip.resolve_right hne
    refine ⟨.refl w, rfl, fun _ _ => rfl, ⟨tile.plotSources, htile, ?_⟩, ?_⟩
    · intro key
      rw [List.mem_singleton, ← Tile.sourceKeys]
      constructor
      · exact .inl
      · rintro (hold | rfl)
        · exact hold
        · exact hmem
    · intro key
      rw [if_neg]
      rintro ⟨hkey, hnot⟩
      rw [List.mem_singleton] at hkey
      exact hnot (hkey ▸ hmem)
  · next hnew =>
    rw [not_or] at hnew
    refine ⟨Window.sameRest_modifyTile.trans Window.sameRest_own,
      Window.runBrowserHiddenKeys_modifyTile, fun key hkey => Window.find_modifyTile_of_ne hkey,
      ?_, ?_⟩
    · obtain ⟨sources, hsources⟩ :=
        tile.exists_addPlotSource plot source.key source.originalWidgetType
      refine ⟨sources, ?_, ?_⟩
      · rw [← hsources]
        exact Window.find_modifyTile_self htile
      · intro key
        have hkeys := congrArg Tile.sourceKeys hsources
        rw [Tile.sourceKeys_recordOriginal] at hkeys
        rw [List.mem_singleton, ← Tile.mem_sourceKeys_addPlotSource hne, hkeys]
        rfl
    · intro key
      rw [Window.plotSourceOwners_own, Window.plotSourceOwners_modifyTile]
      by_cases hkey : key = source.key
      · subst hkey
        rw [if_pos rfl, if_pos ⟨List.mem_singleton.mpr rfl, hnew.1⟩]
      · rw [if_neg hkey, if_neg]
        rintro ⟨hmem, _⟩
        exact hkey (List.mem_singleton.mp hmem)

theorem foldl_transfer_grows {sources : List PlotSource} (htile : w.tiles.find plot = some tile)
    (hne : plot ∉ sources.map PlotSource.key) :
    Grows plot tile (sources.map PlotSource.key) w (sources.foldl (Window.transfer plot) w) := by
  induction sources generalizing w tile with
  | nil => exact grows_nil htile
  | cons source sources ih =>
    rw [List.map_cons, List.mem_cons, not_or] at hne
    have hfirst := grows_transfer htile (Ne.symm hne.1)
    obtain ⟨sources', hplot, _⟩ := hfirst.plot
    exact hfirst.trans hplot (ih hplot hne.2)

end Growing

section Operations

variable {w w' : Window} {plot source key : ByteString} {plotTile sourceTile tile : Tile}

/-- A tile that is seen is not absorbed. -/
theorem Inv.owner_of_visible (h : Inv w) (htile : w.tiles.find key = some tile)
    (hvisible : tile.visible = true) : w.plotSourceOwners key = none := by
  by_contra howner
  have hhidden := h.hidden key tile howner htile
  rw [hvisible] at hhidden
  cases hhidden

/-- The series that the dropped tile brings along. -/
def Tile.series (tile : Tile) : List PlotSource :=
  if tile.isMultiLinePlot then tile.plotSources else []

theorem Tile.absorbs_of_mem_series (hmem : key ∈ tile.series.map PlotSource.key) :
    tile.absorbs key := by
  unfold Tile.series at hmem
  split at hmem
  · next hmulti => exact Tile.absorbs_of_isMultiLinePlot hmulti hmem
  · simp at hmem

theorem Tile.mem_series_of_absorbs (habs : tile.absorbs key) :
    key ∈ tile.series.map PlotSource.key := by
  rw [Tile.series, if_pos (Tile.isMultiLinePlot_of_absorbs habs)]
  exact habs.2

/-- The dropped tile without its series. -/
def Tile.cleared (tile : Tile) : Tile :=
  if tile.isMultiLinePlot then { tile with plotSources := [], multiLinePlotMode := false }
  else tile

theorem Tile.cleared_frame (hbare : tile.Bare) :
    tile.cleared.id = tile.id ∧ tile.cleared.Bare ∧ ∀ key, ¬tile.cleared.absorbs key := by
  unfold Tile.cleared
  split
  · exact ⟨rfl, fun _ _ => rfl, fun key => Tile.not_absorbs_of_plotSources_nil _ key rfl⟩
  · next hmulti =>
    rw [Bool.not_eq_true, Tile.not_isMultiLinePlot_iff] at hmulti
    exact ⟨rfl, hbare, hmulti⟩

/-- The first half of a merge. -/
def Window.absorbSeries (w : Window) (plot source : ByteString) (sourceTile : Tile) : Window :=
  if sourceTile.isMultiLinePlot then
    (sourceTile.plotSources.foldl (Window.transfer plot) w).modifyTile source fun tile =>
      { tile with plotSources := [], multiLinePlotMode := false }
  else w

/-- What a merge comes to. -/
structure Merges (plot source : ByteString) (plotTile sourceTile : Tile) (w w' : Window) :
    Prop where
  rest : w.SameRest w'
  others : ∀ key, key ≠ plot → key ≠ source → w'.tiles.find key = w.tiles.find key
  grown : ∃ sources, w'.tiles.find plot = some { plotTile with plotSources := sources } ∧
    ∀ key, key ∈ sources.map PlotSource.key ↔
      key ∈ plotTile.sourceKeys ∨ key ∈ sourceTile.series.map PlotSource.key ∨ key = source
  merged : w'.tiles.find source = some { sourceTile.cleared with visible := false }
  owners : ∀ key, w'.plotSourceOwners key =
    if (key ∈ sourceTile.series.map PlotSource.key ∨ key = source) ∧ key ∉ plotTile.sourceKeys then
      some plotTile.id
    else w.plotSourceOwners key

theorem absorbSeries_spec (hplot : w.tiles.find plot = some plotTile)
    (hsource : w.tiles.find source = some sourceTile) (hne : source ≠ plot)
    (hseries : plot ∉ sourceTile.series.map PlotSource.key) :
    ∃ grown, Grows plot plotTile (sourceTile.series.map PlotSource.key) w grown ∧
      grown.SameRest (w.absorbSeries plot source sourceTile) ∧
      (w.absorbSeries plot source sourceTile).plotSourceOwners = grown.plotSourceOwners ∧
      (∀ key, key ≠ source →
        (w.absorbSeries plot source sourceTile).tiles.find key = grown.tiles.find key) ∧
      (w.absorbSeries plot source sourceTile).tiles.find source = some sourceTile.cleared := by
  unfold Tile.series at hseries ⊢
  unfold Window.absorbSeries Tile.cleared
  split
  · next hmulti =>
    rw [if_pos hmulti] at hseries
    have hgrows := foldl_transfer_grows hplot hseries
    refine ⟨_, hgrows, Window.sameRest_modifyTile, Window.plotSourceOwners_modifyTile,
      fun key hkey => Window.find_modifyTile_of_ne hkey, ?_⟩
    exact Window.find_modifyTile_self ((hgrows.others source hne).trans hsource)
  · exact ⟨w, grows_nil hplot, .refl w, rfl, fun _ _ => rfl, hsource⟩

theorem mergeTileIntoPlot_merges (hplot : w.tiles.find plot = some plotTile)
    (hsource : w.tiles.find source = some sourceTile) (hline : plotTile.isLinePlotWidget = true)
    (hne : source ≠ plot) (hnew : source ∉ plotTile.sourceKeys)
    (hseries : plot ∉ sourceTile.series.map PlotSource.key)
    (hself : source ∉ sourceTile.series.map PlotSource.key) :
    Merges plot source plotTile sourceTile w (w.mergeTileIntoPlot plot source) := by
  obtain ⟨grown, hgrows, hrest, howners, hothers, hcleared⟩ :=
    absorbSeries_spec hplot hsource hne hseries
  obtain ⟨sources, hgrown, hmem⟩ := hgrows.plot
  set absorbed := w.absorbSeries plot source sourceTile
  have hplot' : absorbed.tiles.find plot = some { plotTile with plotSources := sources } := by
    rw [hothers plot (Ne.symm hne), hgrown]
  have hnot : source ∉ Tile.sourceKeys { plotTile with plotSources := sources } := by
    intro hin
    rcases (hmem source).mp hin with hold | htaken
    · exact hnew hold
    · exact hself htaken
  -- the source itself is added like one of its series
  set entry : PlotSource := { key := source, originalWidgetType := sourceTile.widgetType }
  have hadd : Grows plot _ [entry.key] absorbed (absorbed.transfer plot entry) :=
    grows_transfer hplot' hne
  have hmerge : w.mergeTileIntoPlot plot source =
      (absorbed.transfer plot entry).modifyTile source fun tile =>
        { tile with visible := false } := by
    have hskip : ¬(¬plotTile.isLinePlotWidget = true ∨ source = plot ∨
        source ∈ plotTile.sourceKeys) := by
      simp [hline, hne, hnew]
    have htransfer : ¬(entry.key ∈ Tile.sourceKeys { plotTile with plotSources := sources } ∨
        entry.key = plot) := by
      simp [entry, hnot, hne]
    simp only [Window.mergeTileIntoPlot, hplot, hsource, if_neg hskip, Window.transfer, hplot',
      if_neg htransfer]
    rfl
  rw [hmerge]
  refine ⟨?_, ?_, ?_, ?_, ?_⟩
  · exact ((hgrows.rest.trans hrest).trans hadd.rest).trans Window.sameRest_modifyTile
  · intro key hkey hkey'
    rw [Window.find_modifyTile_of_ne hkey', hadd.others key hkey, hothers key hkey',
      hgrows.others key hkey]
  · -- what the plot lists
    obtain ⟨sources', hfind, hmem'⟩ := hadd.plot
    refine ⟨sources', ?_, ?_⟩
    · rw [Window.find_modifyTile_of_ne (Ne.symm hne), hfind]
    · intro key
      rw [hmem', Tile.sourceKeys, hmem, List.mem_singleton, or_assoc]
  · -- the source is left empty and hidden
    have hfind := (hadd.others source hne).trans hcleared
    exact Window.find_modifyTile_self hfind
  · -- the owners
    intro key
    rw [Window.plotSourceOwners_modifyTile, hadd.owners, howners, hgrows.owners]
    by_cases heq : key = source
    · subst heq
      rw [if_pos ⟨List.mem_singleton.mpr rfl, hnot⟩, if_pos ⟨.inr rfl, hnew⟩]
    · have hsingle : key ∉ [entry.key] := by simpa [entry] using heq
      simp only [hsingle, heq, false_and, if_false, or_false]

/-- A tile after the merge, beside the one it was. -/
theorem Merges.exists_old (h : Inv w) (hmerges : Merges plot source plotTile sourceTile w w')
    (hplot : w.tiles.find plot = some plotTile) (hsource : w.tiles.find source = some sourceTile)
    (hline : plotTile.isLinePlotWidget = true) {key : ByteString} {new : Tile}
    (hnew : w'.tiles.find key = some new) :
    ∃ old, w.tiles.find key = some old ∧ new.id = old.id ∧ new.Bare ∧
      (∀ key', new.absorbs key' ↔ key ≠ source ∧ (old.absorbs key' ∨ key = plot ∧
        (key' ∈ sourceTile.series.map PlotSource.key ∨ key' = source))) ∧
      new.visible = (old.visible && decide (key ≠ source)) := by
  obtain ⟨sources, hgrown, hmem⟩ := hmerges.grown
  obtain ⟨hid, hbare, hcleared⟩ := Tile.cleared_frame (h.bare source sourceTile hsource)
  by_cases hkey : key = source
  · subst hkey
    rw [hmerges.merged] at hnew
    cases hnew
    refine ⟨sourceTile, hsource, hid, hbare, ?_, by simp⟩
    intro key'
    exact iff_of_false (hcleared key') fun hand => hand.1 rfl
  by_cases hkey' : key = plot
  · subst hkey'
    rw [hgrown] at hnew
    cases hnew
    refine ⟨plotTile, hplot, rfl, ?_, ?_, by simp [hkey]⟩
    · intro _ hnot
      have hline' : Tile.isLinePlotWidget { plotTile with plotSources := sources } = true := hline
      rw [hline'] at hnot
      cases hnot
    · intro key'
      have hlists : Tile.absorbs { plotTile with plotSources := sources } key' ↔
          key' ∈ sources.map PlotSource.key := ⟨fun habs => habs.2, fun hin => ⟨hline, hin⟩⟩
      have hlists' : plotTile.absorbs key' ↔ key' ∈ plotTile.sourceKeys :=
        ⟨fun habs => habs.2, fun hin => ⟨hline, hin⟩⟩
      rw [hlists, hmem, hlists']
      tauto
  · rw [hmerges.others key hkey' hkey] at hnew
    refine ⟨new, hnew, rfl, h.bare key new hnew, ?_, by simp [hkey]⟩
    intro key'
    tauto

/-- The map after the merge says which plots list a key. The plot owns what it has taken; what the
source had owned is among that, and nothing else changes its owner. -/
theorem Merges.owners_iff (h : Inv w) (hmerges : Merges plot source plotTile sourceTile w w')
    (hplot : w.tiles.find plot = some plotTile) (hsource : w.tiles.find source = some sourceTile)
    (hline : plotTile.isLinePlotWidget = true) (hne : source ≠ plot)
    (hfree : w.plotSourceOwners source = none) (key : ByteString) (id : ℕ) :
    w'.plotSourceOwners key = some id ↔
      ∃ other new, w'.tiles.find other = some new ∧ new.id = id ∧ new.absorbs key := by
  obtain ⟨sources, hgrown, hmem⟩ := hmerges.grown
  constructor
  · intro howner
    rw [hmerges.owners] at howner
    split at howner
    · next htaken =>
      cases howner
      exact ⟨plot, _, hgrown, rfl, hline, (hmem key).mpr (.inr htaken.1)⟩
    · next htaken =>
      obtain ⟨other, old, hother, hid, habs⟩ := (h.owners key id).mp howner
      obtain ⟨new, hnew⟩ := hmerges.rest.exists_find hother
      obtain ⟨old', hother', hid', _, habs', _⟩ :=
        hmerges.exists_old h hplot hsource hline hnew
      cases hother.symm.trans hother'
      refine ⟨other, new, hnew, hid'.trans hid, (habs' key).mpr ⟨?_, .inl habs⟩⟩
      -- what the source had is taken, so the owner is another tile
      rintro rfl
      cases hsource.symm.trans hother
      have hin := Tile.mem_series_of_absorbs habs
      refine htaken ⟨.inl hin, fun hold => ?_⟩
      exact hne (h.owned.unique key _ _ _ _ hsource hplot habs ⟨hline, hold⟩)
  · rintro ⟨other, new, hnew, rfl, habs⟩
    obtain ⟨old, hother, hid, _, habs', _⟩ := hmerges.exists_old h hplot hsource hline hnew
    obtain ⟨hnot, habs⟩ := (habs' key).mp habs
    rw [hmerges.owners, hid]
    split
    · next htaken =>
      rcases habs with habs | ⟨rfl, _⟩
      · have howner := h.plotSourceOwners_of_absorbs hother habs
        rcases htaken.1 with hin | rfl
        · -- the tile that lists the key would be the source, which lists nothing any more
          have hseries :=
            h.plotSourceOwners_of_absorbs hsource (Tile.absorbs_of_mem_series hin)
          have heq := h.ids _ _ _ _ hsource hother (Option.some.inj (hseries.symm.trans howner))
          exact absurd heq.symm hnot
        · cases howner.symm.trans hfree
      · cases hplot.symm.trans hother
        rfl
    · next htaken =>
      rcases habs with habs | ⟨rfl, hin⟩
      · exact h.plotSourceOwners_of_absorbs hother habs
      · cases hplot.symm.trans hother
        refine h.plotSourceOwners_of_absorbs hplot ⟨hline, ?_⟩
        by_contra hold
        exact htaken ⟨hin, hold⟩

/-- A plot that took the series of a tile that no plot has absorbed, and the tile. -/
theorem Inv.merges (h : Inv w) (hplot : w.tiles.find plot = some plotTile)
    (hsource : w.tiles.find source = some sourceTile) (hline : plotTile.isLinePlotWidget = true)
    (hne : source ≠ plot) (hfree : w.plotSourceOwners plot = none)
    (hfree' : w.plotSourceOwners source = none)
    (hmerges : Merges plot source plotTile sourceTile w w') : Inv w' := by
  have hseries : ∀ {key}, key ∈ sourceTile.series.map PlotSource.key →
      w.plotSourceOwners key ≠ none := fun hmem =>
    h.owner_ne_none hsource (Tile.absorbs_of_mem_series hmem)
  have hold : ∀ {key new}, w'.tiles.find key = some new → _ := fun hnew =>
    hmerges.exists_old h hplot hsource hline hnew
  have hdescends : Descends w w' := by
    refine ⟨fun key new hnew => ?_, fun key new hnew => ?_, hmerges.rest.created,
      h.saved_of_sameRest hmerges.rest⟩
    · obtain ⟨old, hfind, hid, _⟩ := hold hnew
      exact ⟨old, hfind, hid⟩
    · obtain ⟨_, _, _, hbare, _⟩ := hold hnew
      exact hbare
  refine h.of_descends hdescends (hmerges.owners_iff h hplot hsource hline hne hfree') ?_ ?_
  · intro other new key hnew habs
    obtain ⟨old, hother, _, _, habs', _⟩ := hold hnew
    obtain ⟨hnot, habs⟩ := (habs' key).mp habs
    have hother' : w.plotSourceOwners other = none := by
      rcases habs with habs | ⟨rfl, _⟩
      · exact h.apart other old key hother habs
      · exact hfree
    rw [hmerges.owners, if_neg, hother']
    rintro ⟨htaken | rfl, _⟩
    · exact hseries htaken hother'
    · exact hnot rfl
  · intro key new howner hnew
    obtain ⟨old, hfind, _, _, _, hvisible⟩ := hold hnew
    by_cases hkey : key = source
    · rw [hvisible]
      simp [hkey]
    · have howner' : w.plotSourceOwners key ≠ none := by
        rw [hmerges.owners] at howner
        split at howner
        · next htaken => exact hseries (htaken.1.resolve_right hkey)
        · exact howner
      rw [hvisible, h.hidden key old howner' hfind, Bool.false_and]

theorem Inv.mergeTileIntoPlot (h : Inv w) (hdrops : w.drops plot source = true) :
    Inv (w.mergeTileIntoPlot plot source) ∧ Released w (w.mergeTileIntoPlot plot source) := by
  unfold Window.drops at hdrops
  split at hdrops
  next plotTile sourceTile hplot hsource =>
    simp only [decide_eq_true_eq, Bool.and_eq_true, Tile.isMultiLinePlotDropTarget] at hdrops
    obtain ⟨hne, _, hvisible', ⟨hline, _⟩, hvisible⟩ := hdrops
    have hfree := h.owner_of_visible hplot hvisible
    have hfree' := h.owner_of_visible hsource hvisible'
    have hseries : ∀ {key}, key ∈ sourceTile.series.map PlotSource.key →
        w.plotSourceOwners key ≠ none := fun hmem =>
      h.owner_ne_none hsource (Tile.absorbs_of_mem_series hmem)
    have hmerges := mergeTileIntoPlot_merges hplot hsource hline (Ne.symm hne)
      (fun hmem => h.owner_ne_none hplot ⟨hline, hmem⟩ hfree')
      (fun hmem => hseries hmem hfree) (fun hmem => hseries hmem hfree')
    refine ⟨h.merges hplot hsource hline (Ne.symm hne) hfree hfree' hmerges, ?_⟩
    refine released_of_owners fun key hnone => ?_
    rw [hmerges.owners] at hnone
    split at hnone
    · cases hnone
    · exact hnone
  · cases hdrops

/-! ### Removing -/

theorem Window.foldl_own (w : Window) (keys : List ByteString) (owner : Option ℕ) :
    keys.foldl (fun w source => w.own source owner) w =
      { w with
        plotSourceOwners := fun key => if key ∈ keys then owner else w.plotSourceOwners key } := by
  induction keys generalizing w with
  | nil => simp
  | cons source keys ih =>
    rw [List.foldl_cons, ih, Window.own]
    congr 1
    funext key
    by_cases hkey : key ∈ keys
    · simp [hkey]
    · simp [hkey, Function.update_apply]

/-- A tile of the live tree of the dock, which emits when it is removed. -/
def Dock.Knows (dock : Dock) (key : ByteString) : Prop :=
  dock.streamingMode = true ∧ key ≠ [] ∧ key ∈ dock.discoveredKeys

instance (dock : Dock) (key : ByteString) : Decidable (dock.Knows key) :=
  inferInstanceAs (Decidable (_ ∧ _))

theorem Dock.Knows.onTileRemoved {dock : Dock} (h : dock.Knows key) :
    ∃ checkedKeys, (dock.onTileRemoved key).2 = some checkedKeys := by
  obtain ⟨hstreaming, hkey, hmem⟩ := h
  unfold Dock.streamingMode at hstreaming
  unfold Dock.onTileRemoved
  split
  · next htree =>
    rw [htree] at hstreaming
    cases hstreaming
  · rw [if_neg (by simp [hkey, hmem])]
    exact ⟨_, rfl⟩

theorem Window.exists_find_hear (w : Window) (answer : Dock.Answer) :
    ∃ f : ByteString → Tile → Bool, ∀ key, (w.hear answer).tiles.find key =
      (w.tiles.find key).map fun tile => { tile with visible := f key tile } := by
  cases hanswer : answer.2 with
  | none =>
    refine ⟨fun _ tile => tile.visible, fun key => ?_⟩
    rw [Window.hear_eq_of_none hanswer]
    exact Option.map_id'.symm
  | some checkedKeys =>
    rw [Window.hear_eq_of_some hanswer]
    exact ⟨fun key _ => Window.shows _ key, fun key =>
      Window.find_onRunBrowserCheckedSignalsChanged⟩

/-- An emission shows what no plot has absorbed, as far as the Run Browser allows while it is
active, and the hidden keys otherwise. -/
theorem Window.visible_hear {answer : Dock.Answer} {checkedKeys : Finset ByteString}
    (hanswer : answer.2 = some checkedKeys) (howner : w.plotSourceOwners key = none)
    (htile : (w.hear answer).tiles.find key = some tile) :
    tile.visible = true ∨
      (w.runBrowserActive = true ∧ key ∉ (w.hear answer).runBrowserCheckedKeys) ∨
      (w.runBrowserActive = false ∧ key ∈ (w.hear answer).runBrowserHiddenKeys) := by
  have hhidden := Window.hiddenKeys_hear w answer
  rw [Window.hear_eq_of_some hanswer] at htile hhidden ⊢
  have hchecked := (Window.onRunBrowserCheckedSignalsChanged_frame
    { w with dock := answer.1 } checkedKeys).2.2.2.2.2.2
  rw [Window.find_onRunBrowserCheckedSignalsChanged, Option.map_eq_some_iff] at htile
  obtain ⟨old, _, rfl⟩ := htile
  rw [hchecked]
  simp only [Window.shows, howner, Option.isSome_none, Bool.false_eq_true, if_false]
  by_cases hrun : w.runBrowserActive = true
  · rw [if_pos hrun]
    by_cases hkey : key ∈ checkedKeys
    · exact .inl (decide_eq_true hkey)
    · exact .inr (.inl ⟨hrun, hkey⟩)
  · have hstill : w.runBrowserActive = false := by simpa using hrun
    rw [if_neg hrun, hhidden (.inl hstill)]
    by_cases hkey : key ∈ w.runBrowserHiddenKeys
    · exact .inr (.inr ⟨hstill, hkey⟩)
    · exact .inl (decide_eq_true hkey)

theorem Window.visible_or_withheld_hear {answer : Dock.Answer} {checkedKeys : Finset ByteString}
    (hanswer : answer.2 = some checkedKeys) (howner : w.plotSourceOwners key = none)
    (htile : (w.hear answer).tiles.find key = some tile) :
    tile.visible = true ∨ (w.hear answer).Withheld key := by
  rcases Window.visible_hear hanswer howner htile with hvisible | ⟨hactive, hnot⟩ | ⟨_, hmem⟩
  · exact .inl hvisible
  · rw [← Window.runBrowserActive_hear] at hactive
    exact .inr (.inl ⟨hactive, hnot⟩)
  · exact .inr (.inr hmem)

/-- No plot has absorbed the tile that is removed, and if it is a plot itself, then the dock shows
its sources again, or they are to stay hidden. -/
def Window.RemovesSafely (w : Window) (key : ByteString) : Prop :=
  ∀ tile ∈ w.tiles.find key, w.plotSourceOwners key = none ∧
    (tile.isMultiLinePlot = true → w.dock.Knows key ∨
      ∀ source ∈ tile.sourceKeys, w.tiles.find source ≠ none → w.Withheld source)

instance (w : Window) (key : ByteString) : Decidable (w.RemovesSafely key) :=
  inferInstanceAs (Decidable (∀ tile ∈ w.tiles.find key, _ ∧ _))

/-- The window without the tile, before the dock is told. -/
def Window.withoutTile (w : Window) (key : ByteString) (tile : Tile) : Window :=
  { w with
    tiles := w.tiles.erase key
    plotSourceOwners := fun other =>
      if other = key ∨ tile.absorbs other then none else w.plotSourceOwners other
    savedLayoutByKey := Function.update w.savedLayoutByKey key none }

theorem Window.removeWidget_of_find (htile : w.tiles.find key = some tile) :
    w.removeWidget key = (w.withoutTile key tile).hear (w.dock.onTileRemoved key) := by
  simp only [Window.removeWidget, htile, Window.foldl_own]
  congr 1
  cases hmulti : tile.isMultiLinePlot with
  | true =>
    simp only [if_true, Window.own, Window.withoutTile]
    congr 1
    funext other
    by_cases hkey : other = key <;> simp [hkey, Tile.absorbs_iff_of_isMultiLinePlot hmulti]
  | false =>
    rw [Tile.not_isMultiLinePlot_iff] at hmulti
    simp only [Bool.false_eq_true, if_false, Window.own, Window.withoutTile]
    congr 1
    funext other
    by_cases hkey : other = key <;> simp [hkey, hmulti]

/-- A tile that no plot has absorbed goes with the sources it owned. -/
theorem Inv.withoutTile (h : Inv w) (htile : w.tiles.find key = some tile)
    (hfree : w.plotSourceOwners key = none) : Inv (w.withoutTile key tile) := by
  have hold : ∀ {other new}, (w.withoutTile key tile).tiles.find other = some new →
      other ≠ key ∧ w.tiles.find other = some new := by
    intro other new hnew
    rw [Window.withoutTile, KeyedMap.find_erase] at hnew
    split at hnew
    · cases hnew
    · next hne => exact ⟨hne, hnew⟩
  have howner : ∀ other, (w.withoutTile key tile).plotSourceOwners other =
      if other = key ∨ tile.absorbs other then none else w.plotSourceOwners other := fun _ => rfl
  have hdescends : Descends w (w.withoutTile key tile) := by
    refine ⟨fun other new hnew => ?_, fun other new hnew => ?_, rfl, fun other hsaved => ?_⟩
    · exact ⟨new, (hold hnew).2, rfl⟩
    · exact h.bare other new (hold hnew).2
    · have hsaved' : Function.update w.savedLayoutByKey key none other ≠ none := hsaved
      rw [Function.update_apply] at hsaved'
      have hfind : (w.withoutTile key tile).tiles.find other =
          if other = key then none else w.tiles.find other := rfl
      split at hsaved'
      · exact absurd rfl hsaved'
      · next hne =>
        rw [hfind, if_neg hne]
        exact h.saved other hsaved'
  refine h.of_descends hdescends ?_ ?_ ?_
  · intro other id
    rw [howner]
    constructor
    · intro hid
      split at hid
      · cases hid
      next hkept =>
      rw [not_or] at hkept
      obtain ⟨plot, old, hplot, hid, habs⟩ := (h.owners other id).mp hid
      have hne : plot ≠ key := by
        rintro rfl
        cases htile.symm.trans hplot
        exact hkept.2 habs
      have hfind : (w.withoutTile key tile).tiles.find plot = some old := (if_neg hne).trans hplot
      exact ⟨plot, old, hfind, hid, habs⟩
    · rintro ⟨plot, new, hnew, rfl, habs⟩
      obtain ⟨hne, hplot⟩ := hold hnew
      have hother := h.plotSourceOwners_of_absorbs hplot habs
      rw [if_neg, hother]
      rintro (rfl | habs')
      · cases hother.symm.trans hfree
      · exact hne (h.owned.unique other _ _ _ _ hplot htile habs habs')
  · intro plot new other hnew habs
    rw [howner, h.apart plot new other (hold hnew).2 habs, ite_self]
  · intro other new hother hnew
    rw [howner] at hother
    split at hother
    · exact absurd rfl hother
    · exact h.hidden other new hother (hold hnew).2

theorem Inv.removeWidget (h : Inv w) (hsafe : w.RemovesSafely key) :
    Inv (w.removeWidget key) ∧ Released w (w.removeWidget key) := by
  cases htile : w.tiles.find key with
  | none =>
    have heq : w.removeWidget key = w := by rw [Window.removeWidget, htile]
    rw [heq]
    exact ⟨h, released_of_owners fun _ hnone => hnone⟩
  | some tile =>
    obtain ⟨hfree, hshows⟩ := hsafe tile htile
    rw [Window.removeWidget_of_find htile]
    have hinv := h.withoutTile htile hfree
    refine ⟨hinv.hear _, ?_⟩
    intro other old new hold hnew _ howner hnone
    rw [Window.plotSourceOwners_hear] at hnone
    have hne : other ≠ key := by
      rintro rfl
      exact howner hfree
    have hnone' : (if other = key ∨ tile.absorbs other then none
        else w.plotSourceOwners other) = none := hnone
    have habs : tile.absorbs other := by
      by_contra hnot
      rw [if_neg (not_or.mpr ⟨hne, hnot⟩)] at hnone'
      exact howner hnone'
    cases hanswer : (w.dock.onTileRemoved key).2 with
    | some checkedKeys => exact Window.visible_or_withheld_hear hanswer hnone hnew
    | none =>
      -- nothing is emitted, so the tile is as hidden as it was
      right
      have hwithheld : w.Withheld other := by
        rcases hshows (Tile.isMultiLinePlot_of_absorbs habs) with hknows | hwithheld
        · obtain ⟨checkedKeys, hsome⟩ := hknows.onTileRemoved
          cases hanswer.symm.trans hsome
        · refine hwithheld other habs.2 ?_
          rw [hold]
          simp
      rw [Window.hear_eq_of_none hanswer]
      exact hwithheld

theorem Dock.onTileRemoved_of_not_knows {dock : Dock} (h : ¬dock.Knows key) :
    (dock.onTileRemoved key).2 = none := by
  unfold Dock.Knows Dock.streamingMode at h
  unfold Dock.onTileRemoved
  split
  · rfl
  · next root htree =>
    rw [htree] at h
    rw [if_pos]
    by_contra hnot
    rw [not_or, not_not] at hnot
    exact h ⟨rfl, hnot⟩

/-- Every other removal leaves the map and the lists apart, or a tile hidden. -/
theorem Inv.removesSafely_iff (h : Inv w) :
    w.RemovesSafely key ↔ Owned (w.removeWidget key) ∧ Released w (w.removeWidget key) := by
  constructor
  · intro hsafe
    obtain ⟨hinv, hreleased⟩ := h.removeWidget hsafe
    exact ⟨hinv.owned, hreleased⟩
  rintro ⟨howned, hreleased⟩ tile htile
  rw [Window.removeWidget_of_find htile] at howned hreleased
  have hother : ∀ {other old}, other ≠ key → w.tiles.find other = some old →
      (w.withoutTile key tile).tiles.find other = some old := fun hne hold =>
    (if_neg hne).trans hold
  have hfree : w.plotSourceOwners key = none := by
    by_contra howner
    obtain ⟨id, hid⟩ := Option.ne_none_iff_exists'.mp howner
    obtain ⟨plot, old, hplot, _, habs⟩ := (h.owners key id).mp hid
    have hne : plot ≠ key := by
      rintro rfl
      exact howner (h.apart plot old plot hplot habs)
    obtain ⟨f, hf⟩ := (w.withoutTile key tile).exists_find_hear (w.dock.onTileRemoved key)
    have hnew := hf plot
    rw [hother hne hplot, Option.map_some] at hnew
    -- the plot still lists the key, and the map does not have it
    have hstill := (howned.owners key old.id).mpr ⟨plot, _, hnew, rfl, habs⟩
    have hgone : (w.withoutTile key tile).plotSourceOwners key = none := if_pos (.inl rfl)
    rw [Window.plotSourceOwners_hear, hgone] at hstill
    cases hstill
  refine ⟨hfree, fun hmulti => ?_⟩
  by_cases hknows : w.dock.Knows key
  · exact .inl hknows
  right
  intro source hmem hthere
  obtain ⟨old, hold⟩ := Option.ne_none_iff_exists'.mp hthere
  have habs := Tile.absorbs_of_isMultiLinePlot hmulti hmem
  have howner := h.owner_ne_none htile habs
  have hne : source ≠ key := by
    rintro rfl
    exact howner hfree
  rw [Window.hear_eq_of_none (Dock.onTileRemoved_of_not_knows hknows)] at hreleased
  rcases hreleased source old old hold (hother hne hold) rfl howner (if_pos (.inr habs)) with
    hvisible | hwithheld
  · cases (h.hidden source old howner hold).symm.trans hvisible
  · exact hwithheld

end Operations

end SmartDashboard.App.RunBrowser
