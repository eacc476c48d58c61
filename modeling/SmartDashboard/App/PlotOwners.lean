import SmartDashboard.App.Plots
import SmartDashboard.Library.Execution

/-!
# Who owns the series of a plot

The map of owners agrees with the source lists, owners are not absorbed themselves, and the tiles
of absorbed keys are hidden. What a plot lets go comes back, unless the Run Browser or the hidden
keys say otherwise.

## Main definitions

- `Owned`: the three stores agree in a state
- `Released`: what a step frees is shown again
-/

namespace SmartDashboard.App.RunBrowser

open Direct (ByteString)

structure Owned (w : Window) : Prop where
  owners : ∀ key id, w.plotSourceOwners key = some id ↔
    ∃ plot tile, w.tiles.find plot = some tile ∧ tile.id = id ∧ tile.absorbs key
  unique : ∀ key plot plot' tile tile', w.tiles.find plot = some tile →
    w.tiles.find plot' = some tile' → tile.absorbs key → tile'.absorbs key → plot = plot'
  apart : ∀ key plot tile, w.tiles.find plot = some tile →
    w.plotSourceOwners key = some tile.id → w.plotSourceOwners plot = none
  hidden : ∀ key tile, w.plotSourceOwners key ≠ none → w.tiles.find key = some tile →
    tile.visible = false

/-- The key is unchecked or in the hidden set. -/
def Window.Withheld (w : Window) (key : ByteString) : Prop :=
  (w.runBrowserActive = true ∧ key ∉ w.runBrowserCheckedKeys) ∨ key ∈ w.runBrowserHiddenKeys

instance (w : Window) (key : ByteString) : Decidable (w.Withheld key) :=
  inferInstanceAs (Decidable (_ ∨ _))

/-- A tile whose key the step frees is shown after it, unless its key is withheld. -/
def Released (w w' : Window) : Prop :=
  ∀ key tile tile', w.tiles.find key = some tile → w'.tiles.find key = some tile' →
    tile'.id = tile.id → w.plotSourceOwners key ≠ none → w'.plotSourceOwners key = none →
      tile'.visible = true ∨ w'.Withheld key

/-! ### Tiles -/

/-- A tile that could become a line plot has no sources that wait for it. -/
def Tile.Bare (tile : Tile) : Prop :=
  tile.type = .double → tile.isLinePlotWidget = false → tile.plotSources = []

/-- What a change of its widget type or of its visibility keeps of a tile. -/
structure Alike (tile tile' : Tile) : Prop where
  id : tile'.id = tile.id
  type : tile'.type = tile.type
  plotSources : tile'.plotSources = tile.plotSources
  absorbs : ∀ key, tile'.absorbs key ↔ tile.absorbs key
  bare : tile'.Bare

section Tile

variable {tile tile' : Tile} {key widgetType : ByteString}

theorem Tile.isLinePlotWidget_iff :
    tile.isLinePlotWidget = true ↔ tile.type = .double ∧ tile.widgetType = linePlot := by
  simp [Tile.isLinePlotWidget]

theorem Tile.isMultiLinePlot_iff :
    tile.isMultiLinePlot = true ↔ tile.isLinePlotWidget = true ∧ tile.plotSources ≠ [] := by
  simp [Tile.isMultiLinePlot]

theorem Tile.isMultiLinePlot_of_absorbs (h : tile.absorbs key) : tile.isMultiLinePlot = true := by
  rw [Tile.isMultiLinePlot_iff]
  refine ⟨h.1, ?_⟩
  intro hnil
  have hmem := h.2
  rw [Tile.sourceKeys, hnil] at hmem
  simp at hmem

theorem Tile.absorbs_of_isMultiLinePlot (h : tile.isMultiLinePlot = true)
    (hmem : key ∈ tile.sourceKeys) : tile.absorbs key :=
  ⟨(Tile.isMultiLinePlot_iff.mp h).1, hmem⟩

theorem Tile.absorbs_iff_of_isMultiLinePlot (h : tile.isMultiLinePlot = true) :
    tile.absorbs key ↔ key ∈ tile.sourceKeys :=
  ⟨fun habs => habs.2, Tile.absorbs_of_isMultiLinePlot h⟩

theorem Tile.not_absorbs_of_plotSources_nil (tile : Tile) (key : ByteString)
    (h : tile.plotSources = []) : ¬tile.absorbs key := by
  intro habs
  have hmem := habs.2
  rw [Tile.sourceKeys, h] at hmem
  simp at hmem

theorem Tile.not_isMultiLinePlot_iff :
    tile.isMultiLinePlot = false ↔ ∀ key, ¬tile.absorbs key := by
  constructor
  · intro hmulti key habs
    rw [Tile.isMultiLinePlot_of_absorbs habs] at hmulti
    cases hmulti
  · intro hnone
    by_contra hmulti
    rw [Bool.not_eq_false, Tile.isMultiLinePlot_iff] at hmulti
    obtain ⟨source, hsource⟩ := List.exists_mem_of_ne_nil _ hmulti.2
    exact hnone source.key ⟨hmulti.1, List.mem_map_of_mem hsource⟩

theorem Tile.isMultiLinePlot_congr (h : ∀ key, tile'.absorbs key ↔ tile.absorbs key) :
    tile'.isMultiLinePlot = tile.isMultiLinePlot := by
  rw [Bool.eq_iff_iff, ← not_iff_not, Bool.not_eq_true, Bool.not_eq_true,
    Tile.not_isMultiLinePlot_iff, Tile.not_isMultiLinePlot_iff]
  exact forall_congr' fun key => not_congr (h key)

theorem Alike.refl (h : tile.Bare) : Alike tile tile := ⟨rfl, rfl, rfl, fun _ => Iff.rfl, h⟩

theorem Alike.trans {tile'' : Tile} (h : Alike tile tile') (h' : Alike tile' tile'') :
    Alike tile tile'' where
  id := h'.id.trans h.id
  type := h'.type.trans h.type
  plotSources := h'.plotSources.trans h.plotSources
  absorbs key := (h'.absorbs key).trans (h.absorbs key)
  bare := h'.bare

theorem Alike.disbands (h : Alike tile tile') :
    tile'.disbands widgetType = tile.disbands widgetType := by
  rw [Tile.disbands, Tile.disbands, Tile.isMultiLinePlot_congr h.absorbs]

theorem alike_visible (h : tile.Bare) (visible : Bool) :
    Alike tile { tile with visible := visible } :=
  ⟨rfl, rfl, rfl, fun _ => Iff.rfl, h⟩

/-- A widget type that costs no sources brings none in. -/
theorem alike_widgetType (h : tile.Bare) (hdisbands : tile.disbands widgetType = false) :
    Alike tile { tile with widgetType := widgetType } := by
  have hsources : tile.type = .double → ¬(tile.widgetType = linePlot ∧ widgetType = linePlot) →
      tile.plotSources = [] := by
    intro htype hnot
    by_cases hplot : tile.widgetType = linePlot
    · have hline : tile.isLinePlotWidget = true := Tile.isLinePlotWidget_iff.mpr ⟨htype, hplot⟩
      have hne : widgetType ≠ linePlot := fun heq => hnot ⟨hplot, heq⟩
      by_contra hnonempty
      have hmulti : tile.isMultiLinePlot = true := Tile.isMultiLinePlot_iff.mpr ⟨hline, hnonempty⟩
      simp [Tile.disbands, hmulti, hne] at hdisbands
    · refine h htype ?_
      simp [Tile.isLinePlotWidget, hplot]
  refine ⟨rfl, rfl, rfl, fun key => ?_, ?_⟩
  · constructor
    · rintro ⟨hline, hmem⟩
      obtain ⟨htype, hwidget⟩ := Tile.isLinePlotWidget_iff.mp hline
      by_cases hplot : tile.widgetType = linePlot
      · exact ⟨Tile.isLinePlotWidget_iff.mpr ⟨htype, hplot⟩, hmem⟩
      · have hnil := hsources htype fun hand => hplot hand.1
        rw [Tile.sourceKeys, hnil] at hmem
        simp at hmem
    · rintro ⟨hline, hmem⟩
      obtain ⟨htype, hplot⟩ := Tile.isLinePlotWidget_iff.mp hline
      by_cases hwidget : widgetType = linePlot
      · exact ⟨Tile.isLinePlotWidget_iff.mpr ⟨htype, hwidget⟩, hmem⟩
      · have hnil := hsources htype fun hand => hwidget hand.2
        rw [Tile.sourceKeys, hnil] at hmem
        simp at hmem
  · intro htype hline
    refine hsources htype fun hand => ?_
    rw [Tile.isLinePlotWidget_iff.mpr ⟨htype, hand.2⟩] at hline
    cases hline

end Tile

/-! ### Sources that a plot lets go -/

/-- The tile of the source, if there is one, has no sources of its own to lose when it gets its
widget type back, and waits for none. -/
def Plain (w : Window) (source : PlotSource) : Prop :=
  ∀ tile, w.tiles.find source.key = some tile → tile.Bare ∧
    (source.originalWidgetType = [] ∨ tile.disbands source.originalWidgetType = false)

/-- The keys are freed and their tiles come back. Nothing is said of the tiles of `except`. -/
structure Frees (except keys : List ByteString) (w w' : Window) : Prop where
  rest : w.SameRest w'
  owners : ∀ key, w'.plotSourceOwners key =
    if key ∈ keys then none else w.plotSourceOwners key
  hidden : ∀ key, key ∈ w'.runBrowserHiddenKeys ↔ key ∈ w.runBrowserHiddenKeys ∧ key ∉ keys
  others : ∀ key, key ∉ keys → key ∉ except → w'.tiles.find key = w.tiles.find key
  tiles : ∀ key ∈ keys, ∀ tile, w.tiles.find key = some tile → ∃ tile',
    w'.tiles.find key = some tile' ∧ Alike tile tile' ∧
      (tile'.visible = true ∨ (w.runBrowserActive = true ∧ key ∉ w.runBrowserCheckedKeys))

section Disbanding

variable {w w' w'' : Window} {plot key widgetType : ByteString} {except keys : List ByteString}
  {depth : ℕ} {source : PlotSource}

theorem Frees.plain (h : Frees except keys w w') (hne : source.key ∉ except)
    (hplain : Plain w source) : Plain w' source := by
  intro tile' htile'
  by_cases hkey : source.key ∈ keys
  · have hmem : source.key ∈ w.tiles.keys := by
      rw [← h.rest.keys]
      exact KeyedMap.mem_keys_of_find htile'
    obtain ⟨tile, htile⟩ := KeyedMap.exists_find_of_mem_keys hmem
    obtain ⟨_, hdisbands⟩ := hplain tile htile
    obtain ⟨tile'', htile'', halike, _⟩ := h.tiles source.key hkey tile htile
    rw [htile''] at htile'
    cases htile'
    rw [halike.disbands]
    exact ⟨halike.bare, hdisbands⟩
  · rw [h.others source.key hkey hne] at htile'
    exact hplain tile' htile'

theorem frees_nil (w : Window) : Frees except [] w w where
  rest := .refl w
  owners _ := by simp
  hidden _ := by simp
  others _ _ _ := rfl
  tiles := by simp

theorem Frees.trans {keys' : List ByteString} (h : Frees except keys w w')
    (h' : Frees except keys' w' w'') (hexcept : ∀ key ∈ except, key ∉ keys ∧ key ∉ keys') :
    Frees except (keys ++ keys') w w'' where
  rest := h.rest.trans h'.rest
  owners key := by
    rw [h'.owners, h.owners]
    by_cases hkey : key ∈ keys <;> by_cases hkey' : key ∈ keys' <;> simp [hkey, hkey']
  hidden key := by
    rw [h'.hidden, h.hidden, List.mem_append]
    tauto
  others key hkey hne := by
    rw [List.mem_append, not_or] at hkey
    rw [h'.others key hkey.2 hne, h.others key hkey.1 hne]
  tiles key hkey tile htile := by
    rw [List.mem_append] at hkey
    have hne : key ∉ except := fun hmem =>
      hkey.elim (hexcept key hmem).1 (hexcept key hmem).2
    by_cases hfirst : key ∈ keys
    · obtain ⟨tile', htile', halike, hshown⟩ := h.tiles key hfirst tile htile
      by_cases hagain : key ∈ keys'
      · obtain ⟨tile'', htile'', halike', hshown'⟩ := h'.tiles key hagain tile' htile'
        rw [h.rest.active, h.rest.checked] at hshown'
        exact ⟨tile'', htile'', halike.trans halike', hshown'⟩
      · exact ⟨tile', (h'.others key hagain hne).trans htile', halike, hshown⟩
    · have hsame := (h.others key hfirst hne).trans htile
      obtain ⟨tile', htile', halike, hshown⟩ :=
        h'.tiles key (hkey.resolve_left hfirst) tile hsame
      rw [h.rest.active, h.rest.checked] at hshown
      exact ⟨tile', htile', halike, hshown⟩

/-- A key that is freed, whatever else happened to its tile, and shown. -/
theorem frees_showFreed {tile : Tile} (hrest : w.SameRest w')
    (howners : w'.plotSourceOwners = Function.update w.plotSourceOwners key none)
    (hhidden : w'.runBrowserHiddenKeys = w.runBrowserHiddenKeys.erase key)
    (hothers : ∀ key', key' ≠ key → w'.tiles.find key' = w.tiles.find key')
    (htile : w'.tiles.find key = some tile)
    (halike : ∀ old, w.tiles.find key = some old → Alike old tile) :
    Frees [] [key] w (w'.showFreed key) := by
  have howner : ∀ key', w'.plotSourceOwners key' =
      if key' ∈ [key] then none else w.plotSourceOwners key' := by
    intro key'
    simp only [howners, List.mem_singleton]
    exact Function.update_apply _ _ _ _
  have hmem : ∀ key', key' ∈ w'.runBrowserHiddenKeys ↔
      key' ∈ w.runBrowserHiddenKeys ∧ key' ∉ [key] := by
    intro key'
    rw [hhidden, Finset.mem_erase, List.mem_singleton, and_comm]
  unfold Window.showFreed
  split
  · refine ⟨hrest.trans Window.sameRest_modifyTile, ?_, ?_, ?_, ?_⟩
    · rwa [Window.plotSourceOwners_modifyTile]
    · rwa [Window.runBrowserHiddenKeys_modifyTile]
    · intro key' hkey _
      rw [List.mem_singleton] at hkey
      rw [Window.find_modifyTile_of_ne hkey, hothers key' hkey]
    · intro key' hkey old hold
      rw [List.mem_singleton] at hkey
      subst hkey
      have hold' := halike old hold
      exact ⟨_, Window.find_modifyTile_self htile, hold'.trans (alike_visible hold'.bare true),
        .inl rfl⟩
  · next hcond =>
    refine ⟨hrest, howner, hmem, ?_, ?_⟩
    · intro key' hkey _
      rw [List.mem_singleton] at hkey
      exact hothers key' hkey
    · intro key' hkey old hold
      rw [List.mem_singleton] at hkey
      subst hkey
      refine ⟨tile, htile, halike old hold, .inr ?_⟩
      -- the key is not hidden any more, so it is the Run Browser that does not show it
      cases hactive : w'.runBrowserActive with
      | true =>
        refine ⟨hrest.active.symm.trans hactive, ?_⟩
        simpa [Window.allows, hactive, hrest.checked] using hcond
      | false => simp [Window.allows, hactive, hhidden] at hcond

theorem setWidgetType_of_not_disbands {tile : Tile} (htile : w.tiles.find key = some tile)
    (hdisbands : tile.disbands widgetType = false) :
    w.setWidgetType (depth + 1) key widgetType =
      some (w.modifyTile key fun tile => { tile with widgetType := widgetType }) := by
  simp only [Window.setWidgetType, htile, hdisbands, Bool.false_eq_true, if_false]

/-- The source comes back as it was recorded; its tile loses no sources, so nothing nests. -/
theorem onPlotSourceDisbanded_frees (depth : ℕ) (hplain : Plain w source) :
    ∃ w', Window.onPlotSourceDisbanded (Window.setWidgetType (depth + 1)) w source = some w' ∧
      Frees [] [source.key] w w' := by
  unfold Window.onPlotSourceDisbanded
  cases htile : w.tiles.find source.key with
  | none =>
    have hnone : (w.freeKey source.key).tiles.find source.key = none := htile
    simp only [hnone]
    refine ⟨_, rfl, Window.sameRest_freeKey, ?_, ?_, fun _ _ _ => rfl, ?_⟩
    · intro key
      simp only [List.mem_singleton]
      exact Function.update_apply _ _ _ _
    · intro key
      rw [Window.freeKey, Finset.mem_erase, List.mem_singleton, and_comm]
    · intro key hkey tile hfind
      rw [List.mem_singleton] at hkey
      subst hkey
      cases htile.symm.trans hfind
  | some tile =>
    obtain ⟨hbare, hdisbands⟩ := hplain tile htile
    have hsome : (w.freeKey source.key).tiles.find source.key = some tile := htile
    simp only [hsome]
    by_cases horiginal : source.originalWidgetType = []
    · rw [if_pos horiginal]
      refine ⟨_, rfl, frees_showFreed Window.sameRest_freeKey rfl rfl (fun _ _ => rfl) hsome ?_⟩
      intro old hold
      cases htile.symm.trans hold
      exact .refl hbare
    · have hdisbands := hdisbands.resolve_left horiginal
      rw [if_neg horiginal, setWidgetType_of_not_disbands hsome hdisbands, Option.map_some]
      refine ⟨_, rfl, frees_showFreed (Window.sameRest_freeKey.trans Window.sameRest_modifyTile)
        Window.plotSourceOwners_modifyTile Window.runBrowserHiddenKeys_modifyTile
        (fun key' hne => Window.find_modifyTile_of_ne hne) (Window.find_modifyTile_self hsome) ?_⟩
      intro old hold
      cases htile.symm.trans hold
      exact alike_widgetType hbare hdisbands

/-- All sources of a plot, one after the other. -/
theorem foldlM_onPlotSourceDisbanded_frees (depth : ℕ) {sources : List PlotSource}
    (hplain : ∀ source ∈ sources, Plain w source) :
    ∃ w', sources.foldlM
        (Window.onPlotSourceDisbanded (Window.setWidgetType (depth + 1))) w = some w' ∧
      Frees [] (sources.map PlotSource.key) w w' := by
  induction sources generalizing w with
  | nil => exact ⟨w, rfl, frees_nil w⟩
  | cons source sources ih =>
    rw [List.forall_mem_cons] at hplain
    obtain ⟨w', hstep, hfrees⟩ := onPlotSourceDisbanded_frees depth hplain.1
    obtain ⟨w'', hrest, hfrees'⟩ := ih fun source' hmem =>
      hfrees.plain (by simp) (hplain.2 source' hmem)
    refine ⟨w'', ?_, hfrees.trans hfrees' (by simp)⟩
    rw [List.foldlM_cons, hstep]
    exact hrest

theorem Frees.of_sameTiles (h : Frees [] keys w' w'') (hrest : w.SameRest w')
    (howners : w'.plotSourceOwners = w.plotSourceOwners)
    (hhidden : w'.runBrowserHiddenKeys = w.runBrowserHiddenKeys)
    (hothers : ∀ key, key ≠ plot → w'.tiles.find key = w.tiles.find key) (hplot : plot ∉ keys) :
    Frees [plot] keys w w'' where
  rest := hrest.trans h.rest
  owners key := by rw [h.owners, howners]
  hidden key := by rw [h.hidden, hhidden]
  others key hkey hne := by
    rw [List.mem_singleton] at hne
    rw [h.others key hkey (by simp), hothers key hne]
  tiles key hkey tile htile := by
    have hne : key ≠ plot := by
      rintro rfl
      exact hplot hkey
    rw [← hrest.active, ← hrest.checked]
    exact h.tiles key hkey tile ((hothers key hne).trans htile)

theorem Frees.modifyTile (h : Frees except keys w w') (f : Tile → Tile) (hplot : plot ∉ keys)
    (hexcept : ∀ key ∈ except, key = plot) : Frees [plot] keys w (w'.modifyTile plot f) where
  rest := h.rest.trans Window.sameRest_modifyTile
  owners key := by rw [Window.plotSourceOwners_modifyTile, h.owners]
  hidden key := by rw [Window.runBrowserHiddenKeys_modifyTile, h.hidden]
  others key hkey hne := by
    rw [List.mem_singleton] at hne
    rw [Window.find_modifyTile_of_ne hne, h.others key hkey fun hmem => hne (hexcept key hmem)]
  tiles key hkey tile htile := by
    have hne : key ≠ plot := by
      rintro rfl
      exact hplot hkey
    rw [Window.find_modifyTile_of_ne hne]
    exact h.tiles key hkey tile htile

theorem setWidgetType_frees {tile : Tile} (depth : ℕ) (htile : w.tiles.find plot = some tile)
    (hdisbands : tile.disbands widgetType = true) (hplot : plot ∉ tile.sourceKeys)
    (hplain : ∀ source ∈ tile.plotSources, Plain w source) :
    ∃ w', w.setWidgetType (depth + 2) plot widgetType = some w' ∧
      Frees [plot] tile.sourceKeys w w' ∧
      w'.tiles.find plot = some { tile with plotSources := [], widgetType := widgetType } := by
  obtain ⟨w', hfold, hfrees⟩ := foldlM_onPlotSourceDisbanded_frees depth hplain
  have htile' : w'.tiles.find plot = some tile := by rw [hfrees.others plot hplot (by simp), htile]
  rw [Window.setWidgetType]
  simp only [htile, hdisbands, if_true, hfold, Option.map_some]
  exact ⟨_, rfl, hfrees.modifyTile _ hplot (by simp), Window.find_modifyTile_self htile'⟩

/-- The menu removes each source from the list before it lets the key go. -/
theorem foldlM_disbandAllSources_frees {sources : List PlotSource} {tile : Tile}
    (htile : w.tiles.find plot = some tile) (hsources : tile.plotSources = sources)
    (hplot : plot ∉ sources.map PlotSource.key)
    (hplain : ∀ source ∈ sources, Plain w source) :
    ∃ w', sources.foldlM
        (fun w source =>
          Window.onPlotSourceDisbanded (Window.setWidgetType w.depth)
            (w.modifyTile plot (Tile.removePlotSource source.key)) source) w = some w' ∧
      Frees [plot] (sources.map PlotSource.key) w w' ∧
      w'.tiles.find plot = some { tile with plotSources := [] } := by
  induction sources generalizing w tile with
  | nil =>
    refine ⟨w, rfl, frees_nil w, ?_⟩
    rw [htile, ← hsources]
  | cons source sources ih =>
    rw [List.map_cons, List.mem_cons, not_or] at hplot
    rw [List.forall_mem_cons] at hplain
    -- the head of the list is the source that is removed
    have hremoved : tile.removePlotSource source.key = { tile with plotSources := sources } := by
      rw [Tile.removePlotSource, hsources, List.eraseP_cons_of_pos (by simp)]
    set removed := w.modifyTile plot (Tile.removePlotSource source.key) with hdef
    have hothers : ∀ key, key ≠ plot → removed.tiles.find key = w.tiles.find key := by
      intro key hne
      exact Window.find_modifyTile_of_ne hne
    have hplain' : Plain removed source := by
      intro tile' htile'
      exact hplain.1 tile' ((hothers source.key (Ne.symm hplot.1)).symm.trans htile')
    obtain ⟨w', hstep, hfrees⟩ := onPlotSourceDisbanded_frees w.tiles.keys.length hplain'
    have hfirst : Frees [plot] [source.key] w w' :=
      hfrees.of_sameTiles Window.sameRest_modifyTile Window.plotSourceOwners_modifyTile
        Window.runBrowserHiddenKeys_modifyTile hothers (by simpa using hplot.1)
    have htile' : w'.tiles.find plot = some { tile with plotSources := sources } := by
      rw [hfrees.others plot (by simpa using hplot.1) (by simp), hdef,
        Window.find_modifyTile_self htile, hremoved]
    obtain ⟨w'', hrest, hfrees', htile''⟩ := ih htile' rfl hplot.2 fun source' hmem => by
      refine hfirst.plain ?_ (hplain.2 source' hmem)
      rw [List.mem_singleton]
      rintro heq
      exact hplot.2 (heq ▸ List.mem_map_of_mem hmem)
    refine ⟨w'', ?_, hfirst.trans hfrees' ?_, htile''⟩
    · have hstep' : Window.onPlotSourceDisbanded (Window.setWidgetType w.depth) removed source =
          some w' := hstep
      rw [List.foldlM_cons, hstep']
      exact hrest
    · simpa using hplot

end Disbanding

/-! ### The invariant -/

/-- No two tiles share an address, and no tile has that of the next one. -/
structure Numbered (w : Window) : Prop where
  ids : ∀ key key' tile tile', w.tiles.find key = some tile → w.tiles.find key' = some tile' →
    tile.id = tile'.id → key = key'
  created : ∀ key tile, w.tiles.find key = some tile → tile.id < w.created

/-- The stores agree, and no tile waits to bring in a source that the map does not know. -/
structure Stores (w : Window) : Prop extends Numbered w where
  owners : ∀ key id, w.plotSourceOwners key = some id ↔
    ∃ plot tile, w.tiles.find plot = some tile ∧ tile.id = id ∧ tile.absorbs key
  apart : ∀ plot tile key, w.tiles.find plot = some tile → tile.absorbs key →
    w.plotSourceOwners plot = none
  hidden : ∀ key tile, w.plotSourceOwners key ≠ none → w.tiles.find key = some tile →
    tile.visible = false
  bare : ∀ key tile, w.tiles.find key = some tile → tile.Bare

/-- What every operation keeps: the stores agree, and no saved entry waits for a tile. -/
structure Inv (w : Window) : Prop extends Stores w where
  saved : ∀ key, w.savedLayoutByKey key ≠ none → w.tiles.find key ≠ none

section Invariant

variable {w w' : Window} {plot key widgetType : ByteString} {tile : Tile}

theorem Stores.owned (h : Stores w) : Owned w where
  owners := h.owners
  unique key plot plot' tile tile' htile htile' habs habs' := by
    have howner := (h.owners key tile.id).mpr ⟨plot, tile, htile, rfl, habs⟩
    have howner' := (h.owners key tile'.id).mpr ⟨plot', tile', htile', rfl, habs'⟩
    rw [howner] at howner'
    exact h.ids plot plot' tile tile' htile htile' (Option.some.inj howner')
  apart key plot tile htile howner := by
    obtain ⟨plot', tile', htile', hid, habs⟩ := (h.owners key tile.id).mp howner
    have heq := h.ids plot' plot tile' tile htile' htile hid
    subst heq
    exact h.apart plot' tile' key htile' habs
  hidden := h.hidden

theorem Stores.plotSourceOwners_of_absorbs (h : Stores w) (htile : w.tiles.find plot = some tile)
    (habs : tile.absorbs key) : w.plotSourceOwners key = some tile.id :=
  (h.owners key tile.id).mpr ⟨plot, tile, htile, rfl, habs⟩

theorem Stores.owner_ne_none (h : Stores w) (htile : w.tiles.find plot = some tile)
    (habs : tile.absorbs key) : w.plotSourceOwners key ≠ none := by
  rw [h.plotSourceOwners_of_absorbs htile habs]
  simp

/-- An absorbed tile is no plot. -/
theorem Stores.not_absorbs (h : Stores w) (howner : w.plotSourceOwners plot ≠ none)
    (htile : w.tiles.find plot = some tile) : ¬tile.absorbs key :=
  fun habs => howner (h.apart plot tile key htile habs)

theorem Stores.plain (h : Stores w) (htile : w.tiles.find plot = some tile)
    (hmulti : tile.isMultiLinePlot = true) : ∀ source ∈ tile.plotSources, Plain w source := by
  intro source hmem tile' htile'
  have habs := Tile.absorbs_of_isMultiLinePlot hmulti (List.mem_map_of_mem hmem)
  have hnot : tile'.isMultiLinePlot = false := by
    rw [Tile.not_isMultiLinePlot_iff]
    intro key
    exact h.not_absorbs (h.owner_ne_none htile habs) htile'
  refine ⟨h.bare source.key tile' htile', .inr ?_⟩
  simp [Tile.disbands, hnot]

theorem Stores.not_mem_sourceKeys (h : Stores w) (htile : w.tiles.find plot = some tile)
    (hmulti : tile.isMultiLinePlot = true) : plot ∉ tile.sourceKeys := by
  intro hmem
  have habs := Tile.absorbs_of_isMultiLinePlot hmulti hmem
  exact h.not_absorbs (h.owner_ne_none htile habs) htile habs

/-- Every tile of the later window was there before, under the same address. -/
structure Descends (w w' : Window) : Prop where
  old : ∀ key new, w'.tiles.find key = some new →
    ∃ old, w.tiles.find key = some old ∧ new.id = old.id
  bare : ∀ key new, w'.tiles.find key = some new → new.Bare
  created : w'.created = w.created
  saved : ∀ key, w'.savedLayoutByKey key ≠ none → w'.tiles.find key ≠ none

theorem Inv.of_eq (h : Inv w) (htiles : w'.tiles = w.tiles) (hcreated : w'.created = w.created)
    (howners : w'.plotSourceOwners = w.plotSourceOwners)
    (hsaved : w'.savedLayoutByKey = w.savedLayoutByKey) : Inv w' := by
  refine ⟨⟨⟨?_, ?_⟩, ?_, ?_, ?_, ?_⟩, ?_⟩
  · rw [htiles]
    exact h.ids
  · rw [htiles, hcreated]
    exact h.created
  · rw [htiles, howners]
    exact h.owners
  · rw [htiles, howners]
    exact h.apart
  · rw [htiles, howners]
    exact h.hidden
  · rw [htiles]
    exact h.bare
  · rw [htiles, hsaved]
    exact h.saved

theorem Numbered.of_old (h : Numbered w)
    (hold : ∀ key new, w'.tiles.find key = some new →
      ∃ old, w.tiles.find key = some old ∧ new.id = old.id)
    (hcreated : w'.created = w.created) : Numbered w' where
  ids key key' new new' hnew hnew' heq := by
    obtain ⟨old, hfind, hid⟩ := hold key new hnew
    obtain ⟨old', hfind', hid'⟩ := hold key' new' hnew'
    rw [hid, hid'] at heq
    exact h.ids key key' old old' hfind hfind' heq
  created key new hnew := by
    obtain ⟨old, hfind, hid⟩ := hold key new hnew
    rw [hid, hcreated]
    exact h.created key old hfind

theorem Inv.of_descends (h : Inv w) (hdescends : Descends w w')
    (howners : ∀ key id, w'.plotSourceOwners key = some id ↔
      ∃ plot tile, w'.tiles.find plot = some tile ∧ tile.id = id ∧ tile.absorbs key)
    (hapart : ∀ plot tile key, w'.tiles.find plot = some tile → tile.absorbs key →
      w'.plotSourceOwners plot = none)
    (hhidden : ∀ key tile, w'.plotSourceOwners key ≠ none → w'.tiles.find key = some tile →
      tile.visible = false) : Inv w' where
  toNumbered := h.toNumbered.of_old hdescends.old hdescends.created
  owners := howners
  apart := hapart
  hidden := hhidden
  bare := hdescends.bare
  saved := hdescends.saved

theorem Window.SameRest.exists_find (h : w.SameRest w') (htile : w.tiles.find key = some tile) :
    ∃ tile', w'.tiles.find key = some tile' := by
  refine KeyedMap.exists_find_of_mem_keys ?_
  rw [h.keys]
  exact KeyedMap.mem_keys_of_find htile

theorem Inv.saved_of_sameRest (h : Inv w) (hrest : w.SameRest w') :
    ∀ key, w'.savedLayoutByKey key ≠ none → w'.tiles.find key ≠ none := by
  intro key hsaved
  rw [hrest.saved] at hsaved
  obtain ⟨old, hfind⟩ := Option.ne_none_iff_exists'.mp (h.saved key hsaved)
  obtain ⟨new, hnew⟩ := hrest.exists_find hfind
  rw [hnew]
  simp

/-- Each tile after a plot is disbanded, and what it was before. -/
theorem Frees.exists_old {keys : List ByteString} (h : Frees [plot] keys w w') (hi : Inv w)
    (hplot : plot ∉ keys) (hfind : w.tiles.find plot = some tile) {tile' : Tile}
    (htile' : w'.tiles.find plot = some tile') (hid : tile'.id = tile.id)
    (hvisible : tile'.visible = tile.visible) (hnil : tile'.plotSources = []) {new : Tile}
    (hnew : w'.tiles.find key = some new) :
    ∃ old, w.tiles.find key = some old ∧ new.id = old.id ∧ new.Bare ∧
      (∀ source, new.absorbs source ↔ old.absorbs source ∧ key ≠ plot) ∧
      (key ∉ keys → new.visible = old.visible) ∧
      (key ∈ keys → new.visible = true ∨
        (w.runBrowserActive = true ∧ key ∉ w.runBrowserCheckedKeys)) := by
  by_cases heq : key = plot
  · subst heq
    rw [htile'] at hnew
    cases hnew
    refine ⟨tile, hfind, hid, fun _ _ => hnil, ?_, fun _ => hvisible, fun hmem => absurd hmem hplot⟩
    intro source
    have hnot := tile'.not_absorbs_of_plotSources_nil source hnil
    tauto
  by_cases hkey : key ∈ keys
  · have hmem : key ∈ w.tiles.keys := by
      rw [← h.rest.keys]
      exact KeyedMap.mem_keys_of_find hnew
    obtain ⟨old, hold⟩ := KeyedMap.exists_find_of_mem_keys hmem
    obtain ⟨new', hnew', halike, hshown⟩ := h.tiles key hkey old hold
    rw [hnew'] at hnew
    cases hnew
    refine ⟨old, hold, halike.id, halike.bare, ?_, fun hnot => absurd hkey hnot, fun _ => hshown⟩
    intro source
    rw [halike.absorbs source, and_iff_left heq]
  · rw [h.others key hkey (by simpa using heq)] at hnew
    refine ⟨new, hnew, rfl, hi.bare key new hnew, ?_, fun _ => rfl, fun hmem => absurd hmem hkey⟩
    intro source
    rw [and_iff_left heq]

/-- A plot without its sources, and the sources on their own again. -/
theorem Inv.disbands (h : Inv w) (hfind : w.tiles.find plot = some tile)
    (hmulti : tile.isMultiLinePlot = true) (hfrees : Frees [plot] tile.sourceKeys w w')
    {tile' : Tile} (htile' : w'.tiles.find plot = some tile') (hid : tile'.id = tile.id)
    (hvisible : tile'.visible = tile.visible) (hnil : tile'.plotSources = []) :
    Inv w' ∧ Released w w' := by
  have hplot : plot ∉ tile.sourceKeys := h.not_mem_sourceKeys hfind hmulti
  have hold : ∀ {key new}, w'.tiles.find key = some new → _ := fun hnew =>
    hfrees.exists_old h hplot hfind htile' hid hvisible hnil hnew
  have hdescends : Descends w w' := by
    refine ⟨fun key new hnew => ?_, fun key new hnew => ?_, hfrees.rest.created,
      h.saved_of_sameRest hfrees.rest⟩
    · obtain ⟨old, hfind, hid, _⟩ := hold hnew
      exact ⟨old, hfind, hid⟩
    · obtain ⟨_, _, _, hbare, _⟩ := hold hnew
      exact hbare
  constructor
  · refine h.of_descends hdescends ?_ ?_ ?_
    · intro key id
      rw [hfrees.owners]
      constructor
      · intro howner
        split at howner
        · cases howner
        next hkey =>
        obtain ⟨other, old, hother, hid, habs⟩ := (h.owners key id).mp howner
        -- the plot lists none of the keys that keep their owner
        have hne : other ≠ plot := by
          rintro rfl
          rw [hfind] at hother
          cases hother
          exact hkey habs.2
        obtain ⟨new, hnew⟩ := hfrees.rest.exists_find hother
        obtain ⟨old', hother', hid', _, habs', _⟩ := hold hnew
        rw [hother] at hother'
        cases hother'
        exact ⟨other, new, hnew, hid'.trans hid, (habs' key).mpr ⟨habs, hne⟩⟩
      · rintro ⟨other, new, hnew, rfl, habs⟩
        obtain ⟨old, hother, hid', _, habs', _⟩ := hold hnew
        obtain ⟨habs, hne⟩ := (habs' key).mp habs
        rw [if_neg, hid']
        · exact h.plotSourceOwners_of_absorbs hother habs
        · -- no key has two plots, so what another tile lists is not freed
          intro hmem
          exact hne (h.owned.unique key other plot old tile hother hfind habs
            (Tile.absorbs_of_isMultiLinePlot hmulti hmem))
    · intro other new key hnew habs
      obtain ⟨old, hother, _, _, habs', _⟩ := hold hnew
      have hapart := h.apart other old key hother ((habs' key).mp habs).1
      rw [hfrees.owners, hapart, ite_self]
    · intro key new howner hnew
      rw [hfrees.owners] at howner
      split at howner
      · exact absurd rfl howner
      next hkey =>
      obtain ⟨old, hfind, _, _, _, hsame, _⟩ := hold hnew
      rw [hsame hkey]
      exact h.hidden key old howner hfind
  · intro key old new hfind hnew _ howner hnone
    have hkey : key ∈ tile.sourceKeys := by
      by_contra hnot
      rw [hfrees.owners, if_neg hnot] at hnone
      exact howner hnone
    obtain ⟨_, _, _, _, _, _, hshown⟩ := hold hnew
    rw [← hfrees.rest.active, ← hfrees.rest.checked] at hshown
    rcases hshown hkey with hvisible | hunchecked
    · exact .inl hvisible
    · exact .inr (.inl hunchecked)

/-! ### Tiles that come, and emissions -/

theorem released_of_owners (h : ∀ key, w'.plotSourceOwners key = none →
    w.plotSourceOwners key = none) : Released w w' :=
  fun key _ _ _ _ _ howner hnone => absurd (h key hnone) howner

theorem Inv.reshow (h : Inv w) (f : ByteString → Tile → Bool)
    (hfind : ∀ key, w'.tiles.find key =
      (w.tiles.find key).map fun tile => { tile with visible := f key tile })
    (howners : w'.plotSourceOwners = w.plotSourceOwners) (hcreated : w'.created = w.created)
    (hsaved : w'.savedLayoutByKey = w.savedLayoutByKey)
    (hhidden : ∀ key tile, w.plotSourceOwners key ≠ none → w.tiles.find key = some tile →
      f key tile = false) : Inv w' := by
  have hold : ∀ {key new}, w'.tiles.find key = some new →
      ∃ old, w.tiles.find key = some old ∧ new = { old with visible := f key old } := by
    intro key new hnew
    rw [hfind, Option.map_eq_some_iff] at hnew
    obtain ⟨old, hold, heq⟩ := hnew
    exact ⟨old, hold, heq.symm⟩
  have hdescends : Descends w w' := by
    refine ⟨fun key new hnew => ?_, fun key new hnew => ?_, hcreated, fun key hkey => ?_⟩
    · obtain ⟨old, hfind, rfl⟩ := hold hnew
      exact ⟨old, hfind, rfl⟩
    · obtain ⟨old, hfind, rfl⟩ := hold hnew
      exact h.bare key old hfind
    · rw [hsaved] at hkey
      rw [hfind, ne_eq, Option.map_eq_none_iff]
      exact h.saved key hkey
  refine h.of_descends hdescends ?_ ?_ ?_
  · intro key id
    rw [howners, h.owners]
    constructor
    · rintro ⟨other, old, hother, hid, habs⟩
      refine ⟨other, { old with visible := f other old }, ?_, hid, habs⟩
      rw [hfind, hother, Option.map_some]
    · rintro ⟨other, new, hnew, hid, habs⟩
      obtain ⟨old, hother, rfl⟩ := hold hnew
      exact ⟨other, old, hother, hid, habs⟩
  · intro other new key hnew habs
    obtain ⟨old, hother, rfl⟩ := hold hnew
    rw [howners]
    exact h.apart other old key hother habs
  · intro key new howner hnew
    obtain ⟨old, hfind, rfl⟩ := hold hnew
    exact hhidden key old (howners ▸ howner) hfind

theorem Window.shows_of_owner (howner : w.plotSourceOwners key ≠ none) : w.shows key = false := by
  rw [Window.shows, if_pos (Option.isSome_iff_ne_none.mpr howner)]

theorem Inv.onRunBrowserCheckedSignalsChanged (h : Inv w) (checkedKeys : Finset ByteString) :
    Inv (w.onRunBrowserCheckedSignalsChanged checkedKeys) := by
  obtain ⟨_, howners, hsaved, hcreated, _⟩ :=
    Window.onRunBrowserCheckedSignalsChanged_frame w checkedKeys
  refine h.reshow (fun key _ => Window.shows { w with runBrowserCheckedKeys := checkedKeys } key)
    (fun key => Window.find_onRunBrowserCheckedSignalsChanged) howners hcreated hsaved ?_
  intro key tile howner _
  exact Window.shows_of_owner howner

theorem Inv.hear (h : Inv w) (answer : Dock.Answer) : Inv (w.hear answer) := by
  cases hanswer : answer.2 with
  | none =>
    rw [Window.hear_eq_of_none hanswer]
    exact h.of_eq rfl rfl rfl rfl
  | some checkedKeys =>
    rw [Window.hear_eq_of_some hanswer]
    have hdock : Inv { w with dock := answer.1 } :=
      h.of_eq rfl rfl rfl rfl
    exact hdock.onRunBrowserCheckedSignalsChanged checkedKeys

theorem Tile.applyLayoutEntry_frame (tile : Tile) (entry : LayoutEntry) :
    (tile.applyLayoutEntry entry).id = tile.id ∧ (tile.applyLayoutEntry entry).type = tile.type ∧
      (tile.applyLayoutEntry entry).visible = tile.visible := by
  unfold Tile.applyLayoutEntry
  split <;> exact ⟨rfl, rfl, rfl⟩

theorem Window.newTile_frame (w : Window) (key : ByteString) (type : VariableType) :
    (w.newTile key type).id = w.created ∧ (w.newTile key type).type = type ∧
      (w.newTile key type).visible = w.shows key := by
  unfold Window.newTile
  cases w.savedLayoutByKey key with
  | none => exact ⟨rfl, rfl, rfl⟩
  | some entry =>
    dsimp only
    split
    · exact ⟨rfl, rfl, rfl⟩
    · obtain ⟨hid, htype, _⟩ := Tile.applyLayoutEntry_frame
        { id := w.created, type := type, widgetType := defaultWidgetType type } entry
      exact ⟨hid, htype, rfl⟩

theorem Numbered.withTile (h : Numbered w) (key : ByteString) (type : VariableType) :
    Numbered (w.withTile key type) := by
  have hid := (w.newTile_frame key type).1
  refine ⟨?_, ?_⟩
  · intro other other' tile tile' htile htile' heq
    rw [Window.find_withTile] at htile htile'
    split at htile <;> split at htile'
    · next hkey hkey' => rw [hkey, hkey']
    · cases htile
      have hlt := h.created other' tile' htile'
      omega
    · cases htile'
      have hlt := h.created other tile htile
      omega
    · exact h.ids other other' tile tile' htile htile' heq
  · intro other tile htile
    rw [Window.find_withTile] at htile
    split at htile
    · cases htile
      rw [hid]
      exact Nat.lt_succ_self _
    · exact Nat.lt_succ_of_lt (h.created other tile htile)

theorem Inv.withTile (h : Inv w) (hnone : w.tiles.find key = none) (type : VariableType) :
    Inv (w.withTile key type) := by
  have hsaved : w.savedLayoutByKey key = none := by
    by_contra hsome
    exact h.saved key hsome hnone
  have hnew : w.newTile key type =
      { id := w.created, type := type, widgetType := defaultWidgetType type
        visible := w.shows key } := by
    rw [Window.newTile, hsaved]
  have hnot : ∀ source, ¬(w.newTile key type).absorbs source := by
    intro source
    rw [hnew]
    exact Tile.not_absorbs_of_plotSources_nil _ _ rfl
  refine ⟨⟨h.toNumbered.withTile key type, ?_, ?_, ?_, ?_⟩, ?_⟩
  · -- the owners: the new tile lists nothing
    intro source id
    refine (h.owners source id).trans ?_
    constructor
    · rintro ⟨other, tile, htile, hid, habs⟩
      refine ⟨other, tile, ?_, hid, habs⟩
      rw [Window.find_withTile, if_neg, htile]
      rintro rfl
      cases hnone.symm.trans htile
    · rintro ⟨other, tile, htile, hid, habs⟩
      rw [Window.find_withTile] at htile
      split at htile
      · cases htile
        exact absurd habs (hnot source)
      · exact ⟨other, tile, htile, hid, habs⟩
  · -- a plot is no source
    intro other tile source htile habs
    rw [Window.find_withTile] at htile
    split at htile
    · cases htile
      exact absurd habs (hnot source)
    · exact h.apart other tile source htile habs
  · -- an absorbed tile is hidden
    intro other tile howner htile
    rw [Window.find_withTile] at htile
    split at htile
    · next heq =>
      subst heq
      cases htile
      rw [hnew]
      exact Window.shows_of_owner howner
    · exact h.hidden other tile howner htile
  · intro other tile htile
    rw [Window.find_withTile] at htile
    split at htile
    · cases htile
      rw [hnew]
      exact fun _ _ => rfl
    · exact h.bare other tile htile
  · -- a saved entry has its tile
    intro other hother
    rw [Window.find_withTile]
    split
    · simp
    · exact h.saved other hother

theorem Inv.getOrCreateTile (h : Inv w) (key : ByteString) (type : VariableType) :
    Inv (w.getOrCreateTile key type) ∧
      (w.getOrCreateTile key type).plotSourceOwners = w.plotSourceOwners := by
  cases hfind : w.tiles.find key with
  | some tile =>
    rw [Window.getOrCreateTile_of_some hfind]
    exact ⟨h, rfl⟩
  | none =>
    rw [Window.getOrCreateTile_of_none hfind]
    exact ⟨(h.withTile hfind type).hear _, Window.plotSourceOwners_hear⟩

theorem Inv.streamingSetup (h : Inv w) :
    Inv w.streamingSetup ∧ w.streamingSetup.plotSourceOwners = w.plotSourceOwners := by
  have hactive : Inv { w with runBrowserActive := false } :=
    h.of_eq rfl rfl rfl rfl
  have hcleared := hactive.hear w.dock.clearDiscoveredKeys
  have hrestart : Inv w.restartSession :=
    hcleared.of_eq rfl rfl rfl rfl
  have howners : w.restartSession.plotSourceOwners = w.plotSourceOwners :=
    Window.plotSourceOwners_hear
  have hhide : Inv w.restartSession.hideKeys ∧
      w.restartSession.hideKeys.plotSourceOwners = w.plotSourceOwners := by
    unfold Window.hideKeys
    split
    · exact ⟨hrestart, howners⟩
    · exact ⟨hrestart.hear _, Window.plotSourceOwners_hear.trans howners⟩
  have hloop : ∀ (keys : List ByteString) {v : Window},
      Inv v ∧ v.plotSourceOwners = w.plotSourceOwners →
        Inv (keys.foldl Window.addToDock v) ∧
          (keys.foldl Window.addToDock v).plotSourceOwners = w.plotSourceOwners := by
    intro keys
    induction keys with
    | nil => exact fun hv => hv
    | cons key keys ih =>
      intro v hv
      exact ih ⟨hv.1.hear _, Window.plotSourceOwners_hear.trans hv.2⟩
  obtain ⟨hend, hends⟩ := hloop w.restartSession.hideKeys.tiles.keys hhide
  exact ⟨hend.of_eq rfl rfl rfl rfl,
    hends⟩

theorem Inv.replayRetainedControls (h : Inv w) (controls : List (ByteString × VariableType)) :
    Inv (w.replayRetainedControls controls) ∧
      (w.replayRetainedControls controls).plotSourceOwners = w.plotSourceOwners := by
  induction controls generalizing w with
  | nil => exact ⟨h, rfl⟩
  | cons control controls ih =>
    obtain ⟨hcreate, howners⟩ := h.getOrCreateTile control.1 control.2
    obtain ⟨hrest, howners'⟩ := ih hcreate
    exact ⟨hrest, howners'.trans howners⟩

theorem Inv.handle (h : Inv w) (event : TransportEvent) :
    Inv (event.handle w) ∧ Released w (event.handle w) := by
  have hsame : Inv (event.handle w) ∧ (event.handle w).plotSourceOwners = w.plotSourceOwners := by
    cases event with
    | startTransport retained outcome =>
      cases outcome with
      | notCreated => exact ⟨h, rfl⟩
      | failed => exact ⟨h, rfl⟩
      | started =>
        obtain ⟨hretained, howners⟩ := h.replayRetainedControls retained
        obtain ⟨hsetup, howners'⟩ := hretained.streamingSetup
        exact ⟨hsetup, howners'.trans howners⟩
    | stopTransport => exact ⟨h, rfl⟩
    | connectionStateChanged state => exact ⟨h, rfl⟩
    | variableUpdate key type => exact h.getOrCreateTile key type
  exact ⟨hsame.1, released_of_owners fun key hnone => hsame.2 ▸ hnone⟩

/-! ### Widget types, disbanding, clearing -/

theorem Window.exists_depth (h : w.tiles.find key = some tile) :
    ∃ depth, w.depth = depth + 2 := by
  have hpos := List.length_pos_of_mem (KeyedMap.mem_keys_of_find h)
  exact ⟨w.tiles.keys.length - 1, by unfold Window.depth; omega⟩

/-- A tile changes and stays alike. -/
theorem Inv.modifyTile (h : Inv w) {f : Tile → Tile} (hfind : w.tiles.find key = some tile)
    (halike : Alike tile (f tile)) (hvisible : (f tile).visible = tile.visible) :
    Inv (w.modifyTile key f) := by
  have hold : ∀ {key' new}, (w.modifyTile key f).tiles.find key' = some new →
      ∃ old, w.tiles.find key' = some old ∧ Alike old new ∧ new.visible = old.visible := by
    intro key' new hnew
    by_cases heq : key' = key
    · subst heq
      rw [Window.find_modifyTile_self hfind] at hnew
      cases hnew
      exact ⟨tile, hfind, halike, hvisible⟩
    · rw [Window.find_modifyTile_of_ne heq] at hnew
      exact ⟨new, hnew, .refl (h.bare key' new hnew), rfl⟩
  have hrest : w.SameRest (w.modifyTile key f) := Window.sameRest_modifyTile
  have hdescends : Descends w (w.modifyTile key f) := by
    refine ⟨fun other new hnew => ?_, fun other new hnew => ?_, hrest.created,
      h.saved_of_sameRest hrest⟩
    · obtain ⟨old, hfind, halike, _⟩ := hold hnew
      exact ⟨old, hfind, halike.id⟩
    · obtain ⟨_, _, halike, _⟩ := hold hnew
      exact halike.bare
  refine h.of_descends hdescends ?_ ?_ ?_
  · intro source id
    rw [Window.plotSourceOwners_modifyTile, h.owners]
    constructor
    · rintro ⟨other, old, hother, hid, habs⟩
      obtain ⟨new, hnew⟩ := hrest.exists_find hother
      obtain ⟨old', hother', halike, _⟩ := hold hnew
      cases hother.symm.trans hother'
      exact ⟨other, new, hnew, halike.id.trans hid, (halike.absorbs source).mpr habs⟩
    · rintro ⟨other, new, hnew, hid, habs⟩
      obtain ⟨old, hother, halike, _⟩ := hold hnew
      exact ⟨other, old, hother, halike.id.symm.trans hid, (halike.absorbs source).mp habs⟩
  · intro other new source hnew habs
    obtain ⟨old, hother, halike, _⟩ := hold hnew
    rw [Window.plotSourceOwners_modifyTile]
    exact h.apart other old source hother ((halike.absorbs source).mp habs)
  · intro other new howner hnew
    obtain ⟨old, hother, _, hsame⟩ := hold hnew
    rw [Window.plotSourceOwners_modifyTile] at howner
    rw [hsame]
    exact h.hidden other old howner hother

theorem Inv.setWidgetType (h : Inv w) (key widgetType : ByteString) :
    ∃ w', w.setWidgetType w.depth key widgetType = some w' ∧ Inv w' ∧ Released w w' := by
  cases hfind : w.tiles.find key with
  | none =>
    refine ⟨w, ?_, h, released_of_owners fun _ hnone => hnone⟩
    rw [Window.depth, Window.setWidgetType, hfind]
  | some tile =>
    cases hdisbands : tile.disbands widgetType with
    | true =>
      have hmulti : tile.isMultiLinePlot = true := by
        simp only [Tile.disbands, decide_eq_true_eq] at hdisbands
        exact hdisbands.1
      obtain ⟨depth, hdepth⟩ := Window.exists_depth hfind
      obtain ⟨w', hset, hfrees, htile'⟩ := setWidgetType_frees depth hfind hdisbands
        (h.not_mem_sourceKeys hfind hmulti) (h.plain hfind hmulti)
      rw [hdepth]
      exact ⟨w', hset, h.disbands hfind hmulti hfrees htile' rfl rfl rfl⟩
    | false =>
      refine ⟨_, setWidgetType_of_not_disbands hfind hdisbands, ?_, ?_⟩
      · exact h.modifyTile hfind (alike_widgetType (h.bare key tile hfind) hdisbands) rfl
      · refine released_of_owners fun source hnone => ?_
        rwa [Window.plotSourceOwners_modifyTile] at hnone

theorem Inv.disbandAllSources (h : Inv w) (hdisband : w.disbandAllSources key = some w') :
    Inv w' ∧ Released w w' := by
  unfold Window.disbandAllSources at hdisband
  split at hdisband
  · cases hdisband
  next tile hfind =>
  split at hdisband
  · next hmulti =>
    obtain ⟨w'', hfold, hfrees, htile'⟩ := foldlM_disbandAllSources_frees hfind rfl
      (h.not_mem_sourceKeys hfind hmulti) (h.plain hfind hmulti)
    cases hdisband.symm.trans hfold
    exact h.disbands hfind hmulti hfrees htile' rfl rfl rfl
  · cases hdisband

theorem inv_of_no_tiles (hkeys : w.tiles.keys = []) (howners : ∀ key, w.plotSourceOwners key = none)
    (hsaved : ∀ key, w.savedLayoutByKey key = none) : Inv w := by
  have hnone : ∀ {key tile}, w.tiles.find key ≠ some tile := by
    intro key tile htile
    have hmem := KeyedMap.mem_keys_of_find htile
    rw [hkeys] at hmem
    simp at hmem
  refine ⟨⟨⟨?_, ?_⟩, ?_, ?_, ?_, ?_⟩, ?_⟩
  · exact fun _ _ _ _ htile => absurd htile hnone
  · exact fun _ _ htile => absurd htile hnone
  · intro key id
    rw [howners]
    constructor
    · intro hid
      cases hid
    · rintro ⟨plot, tile, htile, _⟩
      exact absurd htile hnone
  · exact fun _ _ _ htile => absurd htile hnone
  · exact fun key _ howner => absurd (howners key) howner
  · exact fun _ _ htile => absurd htile hnone
  · exact fun key hkey => absurd (hsaved key) hkey

theorem inv_clearWidgets (w : Window) (live : Bool) :
    Inv (w.clearWidgets live) ∧ Released w (w.clearWidgets live) := by
  have hframe : (w.clearWidgets live).tiles.keys = [] ∧
      (∀ key, (w.clearWidgets live).plotSourceOwners key = none) ∧
      ∀ key, (w.clearWidgets live).savedLayoutByKey key = none := by
    cases live <;> simp [Window.clearWidgets]
  refine ⟨inv_of_no_tiles hframe.1 hframe.2.1 hframe.2.2, ?_⟩
  intro key tile tile' _ htile'
  have hmem := KeyedMap.mem_keys_of_find htile'
  rw [hframe.1] at hmem
  simp at hmem

end Invariant

end SmartDashboard.App.RunBrowser
