import SmartDashboard.App.LayoutEntries
import SmartDashboard.Library.LastWrite

/-!
# Loading a layout over live plots

After the entries the map of owners is worked out from the source lists, the tiles of absorbed keys
are hidden, and the hidden keys of the layout are applied: through the dock while the Run Browser is
active, over all tiles otherwise. The walk over all tiles asks for the hidden keys only, and a plot
whose sources an entry has replaced does not show the tiles it let go.

## Main definitions

- `Partway`: the window when the first entries are applied
- `LoadsSafely`: the loads after which the stores agree again
-/

namespace SmartDashboard.App.RunBrowser

open Direct (ByteString)

namespace Window

variable {w : Window} {entries : List LayoutEntry} {entry : LayoutEntry} {key : ByteString}

theorem find?_entry_of_not_mem (h : key ∉ entries.map LayoutEntry.variableKey) :
    entries.find? (fun entry => entry.variableKey = key) = none := by
  rw [List.find?_eq_none]
  intro entry hmem heq
  exact h (List.mem_map.mpr ⟨entry, hmem, of_decide_eq_true heq⟩)

theorem layoutSources_of_not_mem (h : key ∉ entries.map LayoutEntry.variableKey) :
    w.layoutSources entries key = w.seriesKeys key := by
  rw [layoutSources, find?_entry_of_not_mem h]

theorem layoutSources_append_of_ne (h : key ≠ entry.variableKey) :
    w.layoutSources (entries ++ [entry]) key = w.layoutSources entries key := by
  have hfind : (entries ++ [entry]).find? (fun entry => entry.variableKey = key) =
      entries.find? fun entry => entry.variableKey = key := by
    rw [List.find?_append, List.find?_cons_of_neg (by simpa using Ne.symm h), List.find?_nil,
      Option.or_none]
  rw [layoutSources, layoutSources, hfind]

theorem layoutSources_append_self (h : entry.variableKey ∉ entries.map LayoutEntry.variableKey) :
    w.layoutSources (entries ++ [entry]) entry.variableKey =
      if entry.linePlotSources = [] then
        if entry.KeepsPlot then w.seriesKeys entry.variableKey else []
      else if w.entryType entry = .double then entry.sourceKeys
      else [] := by
  have hfind : (entries ++ [entry]).find? (fun other => other.variableKey = entry.variableKey) =
      some entry := by
    rw [List.find?_append, find?_entry_of_not_mem h, List.find?_cons_of_pos (by simp),
      Option.none_or]
  rw [layoutSources, hfind]

theorem mem_layoutSources {plot : ByteString} (h : key ∈ w.layoutSources entries plot) :
    key ∈ w.seriesKeys plot ∨ ∃ entry ∈ entries, entry.variableKey = plot ∧
      entry.linePlotSources ≠ [] ∧ w.entryType entry = .double := by
  unfold layoutSources at h
  split at h
  · exact .inl h
  next entry hfind =>
  have hkey := List.find?_some hfind
  rw [decide_eq_true_eq] at hkey
  split at h
  · split at h
    · exact .inl h
    · cases h
  · next hne =>
    split at h
    · next hdouble => exact .inr ⟨entry, List.mem_of_find?_eq_some hfind, hkey, hne, hdouble⟩
    · cases h

/-- A series that is gone afterwards was replaced or disbanded. -/
theorem exists_entry_of_lost {plot : ByteString} (hmem : key ∈ w.seriesKeys plot)
    (hlost : key ∉ w.layoutSources entries plot) :
    ∃ entry ∈ entries, entry.variableKey = plot ∧
      (entry.linePlotSources ≠ [] ∨ ¬entry.KeepsPlot) := by
  unfold layoutSources at hlost
  split at hlost
  · exact absurd hmem hlost
  next entry hfind =>
  have hkey := List.find?_some hfind
  rw [decide_eq_true_eq] at hkey
  refine ⟨entry, List.mem_of_find?_eq_some hfind, hkey, ?_⟩
  split at hlost
  · split at hlost
    · exact absurd hmem hlost
    · next hkeeps => exact .inr hkeeps
  · next hne => exact .inl hne

theorem mem_layoutKeys_append :
    key ∈ w.layoutKeys (entries ++ [entry]) ↔
      key ∈ w.layoutKeys entries ∨ key = entry.variableKey := by
  simp [layoutKeys, or_assoc]

theorem layoutDock_append :
    w.layoutDock (entries ++ [entry]) =
      if (w.tiles.find entry.variableKey).isSome then w.layoutDock entries
      else ((w.layoutDock entries).onTileAdded entry.variableKey).1 := by
  rw [layoutDock, List.foldl_append]
  rfl

theorem disbands_append :
    w.Disbands (entries ++ [entry]) key ↔
      w.Disbands entries key ∨ (¬entry.KeepsPlot ∧ key ∈ w.seriesKeys entry.variableKey) := by
  unfold Disbands
  constructor
  · rintro ⟨other, hmem, hother⟩
    rcases List.mem_append.mp hmem with hmem | hmem
    · exact .inl ⟨other, hmem, hother⟩
    · rw [List.mem_singleton] at hmem
      exact .inr (hmem ▸ hother)
  · rintro (⟨other, hmem, hother⟩ | hentry)
    · exact ⟨other, List.mem_append_left _ hmem, hother⟩
    · exact ⟨entry, by simp, hentry⟩

theorem mem_seriesKeys {plot : ByteString} :
    key ∈ w.seriesKeys plot ↔ ∃ tile, w.tiles.find plot = some tile ∧ tile.absorbs key := by
  unfold seriesKeys series
  cases htile : w.tiles.find plot with
  | none => simp
  | some tile =>
    simp only [Option.some.injEq, exists_eq_left']
    exact ⟨Tile.absorbs_of_mem_series, Tile.mem_series_of_absorbs⟩

end Window

/-- The window when the entries are applied to `w`. -/
structure Partway (w : Window) (entries : List LayoutEntry) (v : Window) : Prop
    extends Numbered v where
  active : v.runBrowserActive = w.runBrowserActive
  saved : v.savedLayoutByKey = w.savedLayoutByKey
  dock : v.dock = w.layoutDock entries
  checked : v.runBrowserCheckedKeys = w.runBrowserCheckedKeys ∨
    v.runBrowserCheckedKeys = v.dock.checkedSignalKeys
  keys : ∀ key, (v.tiles.find key).isSome ↔ key ∈ w.layoutKeys entries
  kept : ∀ key old new, w.tiles.find key = some old → v.tiles.find key = some new →
    new.id = old.id ∧ new.type = old.type
  untouched : ∀ key old new, w.tiles.find key = some old → v.tiles.find key = some new →
    key ∉ entries.map LayoutEntry.variableKey → new.plotSources = old.plotSources ∧
      (w.plotSourceOwners key = none → new.widgetType = old.widgetType)
  bare : ∀ key tile, v.tiles.find key = some tile → tile.Bare
  absorbs : ∀ plot tile, v.tiles.find plot = some tile → ∀ key,
    tile.absorbs key ↔ key ∈ w.layoutSources entries plot
  owners : ∀ key, v.plotSourceOwners key =
    if w.Disbands entries key then none else w.plotSourceOwners key
  shown : w.runBrowserActive = true → ∀ key old new, w.tiles.find key = some old →
    v.tiles.find key = some new → w.Disbands entries key →
      new.visible = true ∨ key ∉ v.runBrowserCheckedKeys
  hidden : w.runBrowserActive = false → ∀ key,
    key ∈ v.runBrowserHiddenKeys ↔ key ∈ w.runBrowserHiddenKeys ∧ ¬w.Disbands entries key

section Step

variable {w v v' : Window} {entries : List LayoutEntry} {entry : LayoutEntry} {tile : Tile}

theorem Partway.mem_layoutKeys {key : ByteString} (h : Partway w entries v)
    (htile : v.tiles.find key = some tile) : key ∈ w.layoutKeys entries := by
  rw [← h.keys, htile, Option.isSome_some]

theorem Partway.exists_tile {key : ByteString} (h : Partway w entries v)
    (hkey : key ∈ w.layoutKeys entries) : ∃ tile, v.tiles.find key = some tile :=
  Option.isSome_iff_exists.mp ((h.keys key).mpr hkey)

/-- The sources of a tile when the entry is applied to it. -/
theorem applyLayoutEntry_absorbs (hbare : tile.Bare) (htype : tile.type = w.entryType entry)
    (hfresh : entry.variableKey ∉ entries.map LayoutEntry.variableKey)
    (hseries : entry.linePlotSources = [] → ∀ key,
      tile.absorbs key ↔ key ∈ w.seriesKeys entry.variableKey)
    (hplots : entry.linePlotSources ≠ [] → tile.type = .double →
      entry.widgetType = linePlot ∨ (entry.widgetType = [] ∧ tile.widgetType = linePlot)) :
    (tile.applyLayoutEntry entry).Bare ∧ ∀ key, (tile.applyLayoutEntry entry).absorbs key ↔
      key ∈ w.layoutSources (entries ++ [entry]) entry.variableKey := by
  rw [Window.layoutSources_append_self hfresh]
  by_cases hnil : entry.linePlotSources = []
  · obtain ⟨hbare', habsorbs⟩ := Tile.applyLayoutEntry_of_nil hbare hnil
    refine ⟨hbare', fun key => (habsorbs key).trans ?_⟩
    rw [if_pos hnil, hseries hnil]
    split <;> simp [*]
  · obtain ⟨hbare', habsorbs⟩ := Tile.applyLayoutEntry_of_sources hnil (hplots hnil)
    refine ⟨hbare', fun key => (habsorbs key).trans ?_⟩
    rw [if_neg hnil, htype]
    split <;> simp [*]

/-- The entries that are applied so far do not reach the tile of the next one, but for a type that
a disbanded plot gave it back. -/
structure Reached (w : Window) (entries : List LayoutEntry) (entry : LayoutEntry)
    (tile : Tile) : Prop where
  bare : tile.Bare
  type : tile.type = w.entryType entry
  final : (tile.applyLayoutEntry entry).Bare ∧ ∀ key, (tile.applyLayoutEntry entry).absorbs key ↔
    key ∈ w.layoutSources (entries ++ [entry]) entry.variableKey
  series : ¬entry.KeepsPlot → tile.series = w.series entry.variableKey

theorem Partway.reached_of_some (h : Partway w entries v)
    (hplots : entry.linePlotSources ≠ [] → w.entryType entry = .double → w.EntryPlots entry)
    (hfresh : entry.variableKey ∉ entries.map LayoutEntry.variableKey)
    (htile : v.tiles.find entry.variableKey = some tile) : Reached w entries entry tile := by
  obtain ⟨old, hold⟩ := KeyedMap.exists_find_of_mem_keys
    ((List.mem_append.mp (h.mem_layoutKeys htile)).resolve_right hfresh)
  obtain ⟨_, htype⟩ := h.kept _ old tile hold htile
  obtain ⟨hsources, hwidget⟩ := h.untouched _ old tile hold htile hfresh
  have hbare := h.bare _ tile htile
  have hseries : ∀ key, tile.absorbs key ↔ key ∈ w.seriesKeys entry.variableKey := by
    intro key
    rw [h.absorbs _ tile htile, Window.layoutSources_of_not_mem hfresh]
  have htype' : tile.type = w.entryType entry := by
    rw [Window.entryType, hold, htype]
  refine ⟨hbare, htype', ?_, ?_⟩
  · refine applyLayoutEntry_absorbs hbare htype' hfresh (fun _ => hseries) fun hne hdouble => ?_
    rcases hplots hne (htype' ▸ hdouble) with hline | ⟨hnone, hfree, old', hold', hline⟩
    · exact .inl hline
    · cases hold.symm.trans hold'
      exact .inr ⟨hnone, (hwidget hfree).trans hline⟩
  · intro _
    have hmulti : tile.isMultiLinePlot = old.isMultiLinePlot := by
      refine Tile.isMultiLinePlot_congr fun key => ?_
      rw [hseries, Window.mem_seriesKeys]
      simp [hold]
    simp only [Window.series, hold, Tile.series, hmulti, hsources]

/-- A tile that the entry itself brings in has been given the entry when it was created, unless its
key is one of those the layout is not restored for. -/
theorem reached_of_none {found : Window}
    (hplots : entry.linePlotSources ≠ [] → w.entryType entry = .double → w.EntryPlots entry)
    (hfresh : entry.variableKey ∉ entries.map LayoutEntry.variableKey)
    (hnone : w.tiles.find entry.variableKey = none)
    (hsaved : found.savedLayoutByKey entry.variableKey = some entry) {visible : Bool}
    (htile : tile = { found.newTile entry.variableKey
      (toVariableTypeFromWidgetType entry.widgetType) with visible := visible }) :
    Reached w entries entry tile := by
  set type := toVariableTypeFromWidgetType entry.widgetType with htype
  have hentry : w.entryType entry = type := by rw [Window.entryType, hnone]
  have hempty : ∀ key, key ∉ w.seriesKeys entry.variableKey := by
    intro key hmem
    obtain ⟨tile, htile, _⟩ := Window.mem_seriesKeys.mp hmem
    cases hnone.symm.trans htile
  have hline : entry.linePlotSources ≠ [] → type = .double → entry.widgetType = linePlot := by
    intro hne hdouble
    rcases hplots hne (hentry.trans hdouble) with hline | ⟨_, _, old, hold, _⟩
    · exact hline
    · cases hnone.symm.trans hold
  have hseries : w.series entry.variableKey = [] := by rw [Window.series, hnone]
  set fresh : Tile := { id := found.created, type := type, widgetType := defaultWidgetType type }
    with hdef
  have hbare : fresh.Bare := fun _ _ => rfl
  have hnot : ∀ key, ¬fresh.absorbs key := fun key =>
    Tile.not_absorbs_of_plotSources_nil fresh key rfl
  -- the tile with the entry, which loses nothing when the entry is applied once more
  have hone : (fresh.applyLayoutEntry entry).Bare ∧ ∀ key,
      (fresh.applyLayoutEntry entry).absorbs key ↔
        key ∈ w.layoutSources (entries ++ [entry]) entry.variableKey :=
    applyLayoutEntry_absorbs hbare hentry.symm hfresh
      (fun _ key => iff_of_false (hnot key) (hempty key))
      fun hne hdouble => .inl (hline hne hdouble)
  have hlists : ∀ key, key ∈ w.layoutSources (entries ++ [entry]) entry.variableKey →
      entry.linePlotSources ≠ [] ∧ entry.KeepsPlot := by
    intro key hmem
    rw [Window.layoutSources_append_self hfresh] at hmem
    split at hmem
    · split at hmem
      · exact absurd hmem (hempty key)
      · cases hmem
    · next hne =>
      split at hmem
      · next hdouble => exact ⟨hne, .inr (hline hne (hentry.symm.trans hdouble))⟩
      · cases hmem
  obtain ⟨base, hbase, hbare', htype', hkeys⟩ : ∃ base : Tile,
      tile = { base with visible := visible } ∧ base.Bare ∧ base.type = type ∧
        ∀ key, base.absorbs key → entry.linePlotSources ≠ [] ∧ entry.KeepsPlot := by
    rw [Window.newTile, hsaved] at htile
    dsimp only at htile
    split at htile
    · exact ⟨fresh, htile, hbare, rfl, fun key habs => absurd habs (hnot key)⟩
    · exact ⟨fresh.applyLayoutEntry entry, htile, hone.1, (fresh.applyLayoutEntry_frame entry).2.1,
        fun key habs => hlists key ((hone.2 key).mp habs)⟩
  subst hbase
  refine ⟨hbare', htype'.trans hentry.symm, ?_, ?_⟩
  · refine applyLayoutEntry_absorbs hbare' (htype'.trans hentry.symm) hfresh ?_ ?_
    · intro hnil key
      exact iff_of_false (fun habs => (hkeys key habs).1 hnil) (hempty key)
    · intro hne hdouble
      exact .inl (hline hne (htype'.symm.trans hdouble))
  · intro hkeeps
    have hmulti : ¬Tile.isMultiLinePlot { base with visible := visible } = true := by
      rw [Bool.not_eq_true, Tile.not_isMultiLinePlot_iff]
      intro key habs
      exact hkeeps (hkeys key habs).2
    rw [hseries, Tile.series, if_neg hmulti]

/-- What a plot lets go when an entry takes it apart. -/
theorem Partway.plain_series (hs : Stores w) (h : Partway w entries v)
    (horder : ∀ earlier ∈ entries, w.KeepsEarlier earlier entry) (hkeeps : ¬entry.KeepsPlot) :
    ∀ source ∈ w.series entry.variableKey, source.key ≠ entry.variableKey ∧ Plain v source := by
  intro source hmem
  obtain ⟨plot, hplot, habs⟩ := Window.mem_seriesKeys.mp (List.mem_map_of_mem hmem)
  have howner := hs.owner_ne_none hplot habs
  refine ⟨fun heq => howner (heq ▸ hs.apart _ plot _ hplot habs), fun tile htile => ?_⟩
  refine ⟨h.bare _ tile htile, ?_⟩
  by_cases horiginal : source.originalWidgetType = [] ∨ source.originalWidgetType = linePlot
  · rcases horiginal with hempty | hline
    · exact .inl hempty
    · right
      simp [Tile.disbands, hline]
  right
  rw [not_or] at horiginal
  have hmulti : tile.isMultiLinePlot = false := by
    rw [Tile.not_isMultiLinePlot_iff]
    intro key habs
    rw [h.absorbs _ tile htile] at habs
    rcases Window.mem_layoutSources habs with hseries | ⟨earlier, hin, hkey, hne, hdouble⟩
    · obtain ⟨old, hold, habs'⟩ := Window.mem_seriesKeys.mp hseries
      exact hs.not_absorbs howner hold habs'
    · rcases (horder earlier hin).resolve_left hkeeps source hmem hkey.symm with hempty | hline |
        hnil | hother
      · exact horiginal.1 hempty
      · exact horiginal.2 hline
      · exact hne hnil
      · exact hother hdouble
  simp [Tile.disbands, hmulti]

theorem Partway.of_entryStep {freed : List ByteString} {new : Tile} (hs : Stores w)
    (h : Partway w entries v)
    (hfresh : entry.variableKey ∉ entries.map LayoutEntry.variableKey)
    (hstep : EntryStep entry.variableKey freed v v')
    (hfreed : ∀ key, key ∈ freed ↔ ¬entry.KeepsPlot ∧ key ∈ w.seriesKeys entry.variableKey)
    (hnew : v'.tiles.find entry.variableKey = some new)
    (hfinal : new.Bare ∧ ∀ key, new.absorbs key ↔
      key ∈ w.layoutSources (entries ++ [entry]) entry.variableKey)
    (hkept : ∀ old, w.tiles.find entry.variableKey = some old →
      new.id = old.id ∧ new.type = old.type) :
    Partway w (entries ++ [entry]) v' := by
  have hback : ∀ {key tile}, key ≠ entry.variableKey → v'.tiles.find key = some tile →
      ∃ old, v.tiles.find key = some old ∧ Alike old tile ∧
        (key ∉ freed → tile.widgetType = old.widgetType) := fun hne htile =>
    hstep.others _ _ hne htile
  have hhere : (v.tiles.find entry.variableKey).isSome =
      (w.tiles.find entry.variableKey).isSome := by
    rw [Bool.eq_iff_iff, h.keys, Window.layoutKeys, List.mem_append, or_iff_left hfresh,
      KeyedMap.mem_keys]
  have howners : ∀ key, v'.plotSourceOwners key =
      if w.Disbands (entries ++ [entry]) key then none else w.plotSourceOwners key := by
    intro key
    rw [hstep.owners, h.owners]
    simp only [Window.disbands_append, hfreed]
    by_cases hnow : ¬entry.KeepsPlot ∧ key ∈ w.seriesKeys entry.variableKey
    · rw [if_pos hnow, if_pos (.inr hnow)]
    · simp only [if_neg hnow, or_iff_left hnow]
  refine ⟨hstep.numbered h.toNumbered, hstep.active.trans h.active, hstep.saved.trans h.saved,
    ?_, ?_, ?_, ?_, ?_, ?_, ?_, howners, ?_, ?_⟩
  · rw [hstep.dock, hhere, h.dock, Window.layoutDock_append]
  · -- the checked keys
    rcases hstep.checked with ⟨hchecked, hdock⟩ | hchecked
    · rw [hchecked, hdock]
      exact h.checked
    · exact .inr hchecked
  · intro key
    rw [hstep.keys, h.keys, Window.mem_layoutKeys_append]
  · -- ids and types
    intro key old tile hold htile
    by_cases hkey : key = entry.variableKey
    · subst hkey
      cases hnew.symm.trans htile
      exact hkept old hold
    · obtain ⟨middle, hmiddle, halike, _⟩ := hback hkey htile
      obtain ⟨hid, htype⟩ := h.kept key old middle hold hmiddle
      exact ⟨halike.id.trans hid, halike.type.trans htype⟩
  · -- tiles that no entry is for
    intro key old tile hold htile hnot
    rw [List.map_append, List.mem_append, not_or] at hnot
    have hkey : key ≠ entry.variableKey := by simpa using hnot.2
    obtain ⟨middle, hmiddle, halike, hwidget⟩ := hback hkey htile
    obtain ⟨hsources, hwidget'⟩ := h.untouched key old middle hold hmiddle hnot.1
    refine ⟨halike.plotSources.trans hsources, fun hfree => ?_⟩
    rw [hwidget, hwidget' hfree]
    -- a key that is freed was a source of a plot
    intro hmem
    obtain ⟨plot, hplot, habs⟩ := Window.mem_seriesKeys.mp ((hfreed key).mp hmem).2
    exact hs.owner_ne_none hplot habs hfree
  · intro key tile htile
    by_cases hkey : key = entry.variableKey
    · subst hkey
      cases hnew.symm.trans htile
      exact hfinal.1
    · obtain ⟨_, _, halike, _⟩ := hback hkey htile
      exact halike.bare
  · -- what the plots list
    intro plot tile htile key
    by_cases hkey : plot = entry.variableKey
    · subst hkey
      cases hnew.symm.trans htile
      exact hfinal.2 key
    · obtain ⟨old, hold, halike, _⟩ := hback hkey htile
      rw [halike.absorbs, h.absorbs plot old hold, Window.layoutSources_append_of_ne hkey]
  · -- tiles that are freed
    intro hactive key old tile hold htile hdisbands
    have howner := howners key
    rw [if_pos hdisbands] at howner
    obtain ⟨middle, hmiddle⟩ :=
      h.exists_tile (List.mem_append_left _ (KeyedMap.mem_keys_of_find hold))
    refine hstep.shown (h.active.trans hactive) key middle tile hmiddle htile howner ?_
    rcases Window.disbands_append.mp hdisbands with hbefore | hnow
    · exact .inr (h.shown hactive key old middle hold hmiddle hbefore)
    · exact .inl ((hfreed key).mpr hnow)
  · -- the hidden keys
    intro hactive key
    rw [hstep.hidden (h.active.trans hactive), h.hidden hactive, Window.disbands_append, hfreed,
      not_or, and_assoc]

/-- The tile that an entry is applied to, found or created. -/
theorem Partway.exists_found (hs : Stores w) (h : Partway w entries v)
    (hplots : entry.linePlotSources ≠ [] → w.entryType entry = .double → w.EntryPlots entry)
    (hfresh : entry.variableKey ∉ entries.map LayoutEntry.variableKey)
    (horder : ∀ earlier ∈ entries, w.KeepsEarlier earlier entry)
    (hsaved : w.savedLayoutByKey entry.variableKey = some entry) {found : Window}
    (hfound : v.getOrCreateTile entry.variableKey
      (toVariableTypeFromWidgetType entry.widgetType) = found) :
    ∃ tile, found.tiles.find entry.variableKey = some tile ∧ Reached w entries entry tile ∧
      (¬entry.KeepsPlot → ∀ source ∈ tile.series,
        source.key ≠ entry.variableKey ∧ Plain found source) ∧
      ∀ old, w.tiles.find entry.variableKey = some old →
        tile.id = old.id ∧ tile.type = old.type := by
  cases htile : v.tiles.find entry.variableKey with
  | some tile =>
    rw [Window.getOrCreateTile_of_some htile] at hfound
    subst hfound
    have hreached := h.reached_of_some hplots hfresh htile
    refine ⟨tile, htile, hreached, ?_, fun old hold => h.kept _ old tile hold htile⟩
    intro hkeeps source hmem
    rw [hreached.series hkeeps] at hmem
    exact h.plain_series hs horder hkeeps source hmem
  | none =>
    have hnone : w.tiles.find entry.variableKey = none := by
      by_contra hsome
      obtain ⟨old, hold⟩ := Option.ne_none_iff_exists'.mp hsome
      obtain ⟨tile, hthere⟩ :=
        h.exists_tile (List.mem_append_left _ (KeyedMap.mem_keys_of_find hold))
      cases htile.symm.trans hthere
    rw [Window.getOrCreateTile_of_none htile] at hfound
    subst hfound
    obtain ⟨f, hf⟩ := Window.exists_find_hear (v.withTile entry.variableKey
      (toVariableTypeFromWidgetType entry.widgetType)) (v.dock.onTileAdded entry.variableKey)
    have hfind := hf entry.variableKey
    rw [Window.withTile, KeyedMap.find_insert_self, Option.map_some] at hfind
    set new := v.newTile entry.variableKey (toVariableTypeFromWidgetType entry.widgetType)
    have hreached : Reached w entries entry
        { new with visible := f entry.variableKey new } :=
      reached_of_none hplots hfresh hnone (h.saved ▸ hsaved) rfl
    refine ⟨_, hfind, hreached, ?_, ?_⟩
    · intro hkeeps source hmem
      rw [hreached.series hkeeps, Window.series, hnone] at hmem
      cases hmem
    · intro old hold
      cases hnone.symm.trans hold

theorem Partway.applyEntry (hs : Stores w) (h : Partway w entries v)
    (hplots : entry.linePlotSources ≠ [] → w.entryType entry = .double → w.EntryPlots entry)
    (hfresh : entry.variableKey ∉ entries.map LayoutEntry.variableKey)
    (horder : ∀ earlier ∈ entries, w.KeepsEarlier earlier entry)
    (hsaved : w.savedLayoutByKey entry.variableKey = some entry) :
    ∃ v', v.applyEntry entry = some v' ∧ Partway w (entries ++ [entry]) v' := by
  obtain ⟨tile, htile, hreached, hplain, hkept⟩ :=
    h.exists_found hs hplots hfresh horder hsaved rfl
  obtain ⟨v', happly, hfrees, hfinal⟩ := applyEntry_frees rfl htile hplain
  obtain ⟨hid, htype, hvisible⟩ := tile.applyLayoutEntry_frame entry
  have hcreate := getOrCreateTile_step entry.variableKey
    (toVariableTypeFromWidgetType entry.widgetType) h.bare
  have hnot : entry.variableKey ∉
      (if entry.KeepsPlot then [] else tile.series.map PlotSource.key) := by
    split
    · simp
    · next hkeeps => exact not_mem_keys fun source hsource => (hplain hkeeps source hsource).1
  refine ⟨v', happly, h.of_entryStep hs hfresh
    (hcreate.frees hfrees htile hfinal hid hvisible hnot) ?_ hfinal hreached.final ?_⟩
  · intro key
    split
    · next hkeeps => simp [hkeeps]
    · next hkeeps =>
      rw [hreached.series hkeeps, and_iff_right hkeeps]
      rfl
  · intro old hold
    obtain ⟨hid', htype'⟩ := hkept old hold
    exact ⟨hid.trans hid', htype.trans htype'⟩

theorem partway_nil (hs : Stores w) : Partway w [] w := by
  have hnone : ∀ key, ¬w.Disbands [] key := by
    rintro key ⟨entry, hmem, _⟩
    cases hmem
  refine ⟨hs.toNumbered, rfl, rfl, rfl, .inl rfl, ?_, ?_, ?_, hs.bare, ?_, ?_, ?_, ?_⟩
  · intro key
    rw [Window.layoutKeys, List.map_nil, List.append_nil, KeyedMap.mem_keys]
  · intro key old new hold hnew
    cases hold.symm.trans hnew
    exact ⟨rfl, rfl⟩
  · intro key old new hold hnew _
    cases hold.symm.trans hnew
    exact ⟨rfl, fun _ => rfl⟩
  · -- what the plots list
    intro plot tile htile key
    rw [Window.layoutSources_of_not_mem (by simp), Window.mem_seriesKeys]
    simp [htile]
  · -- no entry has freed a key
    intro key
    rw [if_neg (hnone key)]
  · intro _ key _ _ _ _ hdisbands
    exact absurd hdisbands (hnone key)
  · intro _ key
    simp [hnone key]

/-- One entry after the other. -/
theorem Partway.foldlM_applyEntry (rest : List LayoutEntry) (hs : Stores w)
    (hdistinct : ((entries ++ rest).map LayoutEntry.variableKey).Nodup)
    (hplots : ∀ entry ∈ entries ++ rest, entry.linePlotSources ≠ [] →
      w.entryType entry = .double → w.EntryPlots entry)
    (horder : (entries ++ rest).Pairwise w.KeepsEarlier)
    (hsaved : ∀ entry ∈ entries ++ rest, w.savedLayoutByKey entry.variableKey = some entry)
    (h : Partway w entries v) :
    ∃ v', rest.foldlM Window.applyEntry v = some v' ∧ Partway w (entries ++ rest) v' := by
  induction rest generalizing entries v with
  | nil => exact ⟨v, rfl, by rwa [List.append_nil]⟩
  | cons entry rest ih =>
    have hin : entry ∈ entries ++ entry :: rest := by simp
    have hfresh : entry.variableKey ∉ entries.map LayoutEntry.variableKey := by
      have hparts := hdistinct
      rw [List.map_append, List.map_cons, List.nodup_append] at hparts
      intro hmem
      exact hparts.2.2 _ hmem _ List.mem_cons_self rfl
    have hkeeps : ∀ earlier ∈ entries, w.KeepsEarlier earlier entry := fun earlier hmem =>
      (List.pairwise_append.mp horder).2.2 earlier hmem entry List.mem_cons_self
    obtain ⟨v', happly, hpartway⟩ :=
      h.applyEntry hs (hplots entry hin) hfresh hkeeps (hsaved entry hin)
    rw [List.append_cons] at hdistinct hplots horder hsaved ⊢
    obtain ⟨v'', hfold, hend⟩ := ih hdistinct hplots horder hsaved hpartway
    refine ⟨v'', ?_, hend⟩
    rw [List.foldlM_cons, happly]
    exact hfold

end Step

/-! ### The map from the source lists, and what is shown -/

section Loading

variable {w v : Window} {entries : List LayoutEntry} {hiddenKeys : Finset ByteString}

theorem saveEntries_eq (entries : List LayoutEntry) (key : ByteString) :
    Window.saveEntries entries key = LastWrite.last LayoutEntry.variableKey key entries := by
  have hfold := LastWrite.foldl_update LayoutEntry.variableKey (fun _ => none) entries
  rw [Window.saveEntries, hfold]
  exact Option.or_none

theorem mem_of_saveEntries {key : ByteString} (h : Window.saveEntries entries key ≠ none) :
    key ∈ entries.map LayoutEntry.variableKey := by
  rw [saveEntries_eq, ne_eq, LastWrite.last_eq_none_iff] at h
  push Not at h
  obtain ⟨entry, hmem, heq⟩ := h
  exact List.mem_map.mpr ⟨entry, hmem, heq⟩

/-- A step of the walk that works out the owners. -/
def Window.ownSources (w w' : Window) (plot : ByteString) : Window :=
  match w.tiles.find plot with
  | some tile =>
    if tile.isMultiLinePlot then
      tile.sourceKeys.foldl (fun w' source => w'.own source (some tile.id)) w'
    else w'
  | none => w'

theorem ownSources_eq {w' : Window} (plot : ByteString) :
    w.ownSources w' plot =
      { w' with
        plotSourceOwners := fun key =>
          match w.tiles.find plot with
          | some tile => if tile.absorbs key then some tile.id else w'.plotSourceOwners key
          | none => w'.plotSourceOwners key } := by
  unfold Window.ownSources
  cases w.tiles.find plot with
  | none => rfl
  | some tile =>
    simp only
    cases hmulti : tile.isMultiLinePlot with
    | true =>
      rw [if_pos rfl, Window.foldl_own]
      congr 1
      funext key
      simp only [Tile.absorbs_iff_of_isMultiLinePlot hmulti]
    | false =>
      rw [Tile.not_isMultiLinePlot_iff] at hmulti
      simp [hmulti]

/-- Where no key has two plots, the order of the walk does not matter. -/
theorem foldl_ownSources_eq
    (hunique : ∀ key plot plot' tile tile', w.tiles.find plot = some tile →
      w.tiles.find plot' = some tile' → tile.absorbs key → tile'.absorbs key → plot = plot')
    (keys : List ByteString) :
    ∃ owners, keys.foldl (Window.ownSources w) { w with plotSourceOwners := fun _ => none } =
        { w with plotSourceOwners := owners } ∧
      ∀ key id, owners key = some id ↔ ∃ plot ∈ keys, ∃ tile,
        w.tiles.find plot = some tile ∧ tile.id = id ∧ tile.absorbs key := by
  induction keys using List.reverseRecOn with
  | nil => exact ⟨_, rfl, by simp⟩
  | append_singleton keys plot ih =>
    obtain ⟨owners, hfold, howners⟩ := ih
    refine ⟨fun key =>
      match w.tiles.find plot with
      | some tile => if tile.absorbs key then some tile.id else owners key
      | none => owners key, ?_, ?_⟩
    · rw [List.foldl_append, hfold, List.foldl_cons, List.foldl_nil, ownSources_eq]
    · intro key id
      simp only [List.mem_append, List.mem_singleton, or_and_right, exists_or, exists_eq_left]
      cases hplot : w.tiles.find plot with
      | none => simp [howners]
      | some tile =>
        simp only [Option.some.injEq, exists_eq_left']
        by_cases habs : tile.absorbs key
        · -- the last tile of the walk wins, and it is the only one with the key
          rw [if_pos habs]
          constructor
          · intro hid
            exact .inr ⟨Option.some.inj hid, habs⟩
          · rintro (⟨plot', _, tile', hplot', hid, habs'⟩ | ⟨hid, _⟩)
            · have heq := hunique key plot plot' tile tile' hplot hplot' habs habs'
              subst heq
              cases hplot.symm.trans hplot'
              rw [hid]
            · rw [hid]
        · rw [if_neg habs, howners]
          simp [habs]

theorem rebuildPlotSourceOwners_eq
    (hunique : ∀ key plot plot' tile tile', w.tiles.find plot = some tile →
      w.tiles.find plot' = some tile' → tile.absorbs key → tile'.absorbs key → plot = plot') :
    ∃ owners, w.rebuildPlotSourceOwners = { w with plotSourceOwners := owners } ∧
      ∀ key id, owners key = some id ↔
        ∃ plot tile, w.tiles.find plot = some tile ∧ tile.id = id ∧ tile.absorbs key := by
  obtain ⟨owners, hfold, howners⟩ := foldl_ownSources_eq hunique w.tiles.keys
  refine ⟨owners, hfold, fun key id => (howners key id).trans ?_⟩
  constructor
  · rintro ⟨plot, _, tile, hplot, hid, habs⟩
    exact ⟨plot, tile, hplot, hid, habs⟩
  · rintro ⟨plot, tile, hplot, hid, habs⟩
    exact ⟨plot, KeyedMap.mem_keys_of_find hplot, tile, hplot, hid, habs⟩

/-- The dock emits something in the end, or the key is not checked. -/
def Window.LayoutTells (w : Window) (entries : List LayoutEntry)
    (layoutHiddenKeys : Finset ByteString) (key : ByteString) : Prop :=
  ((w.layoutDock entries).items.any fun item => item.rows.unchecks layoutHiddenKeys) = true ∨
    (key ∉ w.runBrowserCheckedKeys ∧ key ∉ (w.layoutDock entries).checkedSignalKeys)

instance (w : Window) (entries : List LayoutEntry) (layoutHiddenKeys : Finset ByteString)
    (key : ByteString) : Decidable (w.LayoutTells entries layoutHiddenKeys key) :=
  inferInstanceAs (Decidable (_ ∨ _))

/-- The layouts that can be loaded into the window. Outside a session of the Run Browser the
absorbed keys must be among the hidden ones, and of the hidden keys none may get lost; within one
the tiles that a plot loses to another source list show up only if the dock tells of them. -/
structure Window.LoadsSafely (w : Window) (entries : List LayoutEntry)
    (layoutHiddenKeys : Finset ByteString) : Prop extends w.EntriesSound entries where
  hides : w.runBrowserActive = false → ∀ key ∈ w.layoutKeys entries,
    w.LayoutAbsorbs entries key → key ∈ layoutHiddenKeys
  remembers : w.runBrowserActive = false → ∀ key ∈ layoutHiddenKeys, key ∈ w.tiles.keys →
    w.Disbands entries key → w.LayoutAbsorbs entries key
  shows : w.runBrowserActive = true → ∀ entry ∈ entries, entry.linePlotSources ≠ [] →
    ∀ key ∈ w.seriesKeys entry.variableKey, key ∈ w.tiles.keys →
      w.LayoutAbsorbs entries key ∨ w.LayoutTells entries layoutHiddenKeys key

instance (w : Window) (entries : List LayoutEntry) (layoutHiddenKeys : Finset ByteString) :
    Decidable (w.LoadsSafely entries layoutHiddenKeys) :=
  decidable_of_iff (w.EntriesSound entries ∧ _ ∧ _ ∧ _)
    ⟨fun h => ⟨h.1, h.2.1, h.2.2.1, h.2.2.2⟩,
      fun h => ⟨h.toEntriesSound, h.hides, h.remembers, h.shows⟩⟩

/-- The window when the map is rebuilt and the absorbed tiles are hidden. -/
def Window.settle (v : Window) : Window := v.rebuildPlotSourceOwners.hideAbsorbed

/-- What the last part of a load starts from. -/
structure Settles (w : Window) (entries : List LayoutEntry) (v v' : Window) : Prop where
  inv : Inv v'
  owners : ∀ key, v'.plotSourceOwners key = none ↔ ¬w.LayoutAbsorbs entries key
  tiles : ∀ key, v'.tiles.find key = (v.tiles.find key).map fun tile =>
    { tile with visible := tile.visible && (v'.plotSourceOwners key).isNone }
  active : v'.runBrowserActive = v.runBrowserActive
  checked : v'.runBrowserCheckedKeys = v.runBrowserCheckedKeys
  hidden : v'.runBrowserHiddenKeys = v.runBrowserHiddenKeys
  dock : v'.dock = v.dock

/-- The map is rebuilt from the source lists, and has the keys that a plot lists. -/
theorem Partway.exists_owners (hv : Partway w entries v) (hsound : w.EntriesSound entries) :
    ∃ owners, v.rebuildPlotSourceOwners = { v with plotSourceOwners := owners } ∧
      (∀ key id, owners key = some id ↔
        ∃ plot tile, v.tiles.find plot = some tile ∧ tile.id = id ∧ tile.absorbs key) ∧
      ∀ key, owners key = none ↔ ¬w.LayoutAbsorbs entries key := by
  obtain ⟨owners, hrebuild, howners⟩ : ∃ owners, _ :=
    rebuildPlotSourceOwners_eq fun key plot plot' tile tile' htile htile' habs habs' =>
      hsound.unique plot (hv.mem_layoutKeys htile) plot' (hv.mem_layoutKeys htile') key
        ((hv.absorbs plot tile htile key).mp habs) ((hv.absorbs plot' tile' htile' key).mp habs')
  refine ⟨owners, hrebuild, howners, fun key => ?_⟩
  rw [Option.eq_none_iff_forall_ne_some]
  constructor
  · rintro hnot ⟨plot, hplot, hin⟩
    obtain ⟨tile, htile⟩ := hv.exists_tile hplot
    have habs := (hv.absorbs plot tile htile key).mpr hin
    exact hnot tile.id ((howners key tile.id).mpr ⟨plot, tile, htile, rfl, habs⟩)
  · intro hnot id hid
    obtain ⟨plot, tile, htile, _, habs⟩ := (howners key id).mp hid
    exact hnot ⟨plot, hv.mem_layoutKeys htile, (hv.absorbs plot tile htile key).mp habs⟩

theorem Partway.settle (hv : Partway w entries v) (hsound : w.EntriesSound entries)
    (hsaved : ∀ key, w.savedLayoutByKey key ≠ none → key ∈ w.layoutKeys entries) :
    Settles w entries v v.settle := by
  obtain ⟨owners, hrebuild, howners, hnone⟩ := hv.exists_owners hsound
  have heq : v.settle = { v with
      plotSourceOwners := owners
      tiles := v.tiles.mapValues fun key tile =>
        { tile with visible := tile.visible && (owners key).isNone } } := by
    rw [Window.settle, hrebuild]
    rfl
  have hfind : ∀ key, v.settle.tiles.find key = (v.tiles.find key).map fun tile =>
      { tile with visible := tile.visible && (owners key).isNone } := by
    intro key
    rw [heq]
    rfl
  have howners' : v.settle.plotSourceOwners = owners := by rw [heq]
  have hold : ∀ {key new}, v.settle.tiles.find key = some new → ∃ old,
      v.tiles.find key = some old ∧
        new = { old with visible := old.visible && (owners key).isNone } := by
    intro key new hnew
    rw [hfind, Option.map_eq_some_iff] at hnew
    obtain ⟨old, hold, hnew⟩ := hnew
    exact ⟨old, hold, hnew.symm⟩
  refine ⟨?_, ?_, ?_, by rw [heq], by rw [heq], by rw [heq], by rw [heq]⟩
  · refine ⟨⟨hv.toNumbered.of_old ?_ (by rw [heq]), ?_, ?_, ?_, ?_⟩, ?_⟩
    · -- the ids
      intro key new hnew
      obtain ⟨old, hfind, rfl⟩ := hold hnew
      exact ⟨old, hfind, rfl⟩
    · -- the owners
      intro key id
      rw [howners', howners]
      constructor
      · rintro ⟨plot, tile, htile, hid, habs⟩
        refine ⟨plot, { tile with visible := tile.visible && (owners plot).isNone }, ?_, hid, habs⟩
        rw [hfind, htile, Option.map_some]
      · rintro ⟨plot, new, hnew, hid, habs⟩
        obtain ⟨old, hplot, rfl⟩ := hold hnew
        exact ⟨plot, old, hplot, hid, habs⟩
    · -- a plot is no source
      intro plot new key hnew habs
      obtain ⟨old, hplot, rfl⟩ := hold hnew
      have hin := (hv.absorbs plot old hplot key).mp habs
      rw [howners', hnone]
      exact hsound.apart plot (hv.mem_layoutKeys hplot) (List.ne_nil_of_mem hin)
    · -- an absorbed tile is hidden
      intro key new howner hnew
      obtain ⟨old, _, rfl⟩ := hold hnew
      rw [howners'] at howner
      simp [Option.isSome_iff_ne_none, howner]
    · intro key new hnew
      obtain ⟨old, hfind, rfl⟩ := hold hnew
      exact hv.bare key old hfind
    · -- a saved entry has its tile
      intro key hkey
      have hentry : w.savedLayoutByKey key ≠ none := by
        rw [← hv.saved]
        rwa [heq] at hkey
      rw [hfind, ne_eq, Option.map_eq_none_iff, ← ne_eq, ← Option.isSome_iff_ne_none, hv.keys]
      exact hsaved key hentry
  · intro key
    rw [howners', hnone]
  · intro key
    rw [howners', hfind]

theorem Dock.uncheckSignalsByKeys_of_any {dock : Dock}
    (h : (dock.items.any fun item => item.rows.unchecks hiddenKeys) = true) :
    hiddenKeys ≠ ∅ ∧
      ∃ checkedKeys, (dock.uncheckSignalsByKeys hiddenKeys).2 = some checkedKeys := by
  constructor
  · rintro rfl
    simp [Rows.unchecks] at h
  · rw [Dock.uncheckSignalsByKeys, if_pos h]
    exact ⟨_, rfl⟩

/-- The walk over all tiles asks for nothing but the hidden keys. -/
theorem Settles.showLayout_inactive {settled : Window} (hv : Partway w entries v)
    (hsettles : Settles w entries v settled) (hsafe : w.LoadsSafely entries hiddenKeys)
    (hhidden : w.runBrowserHiddenKeys = hiddenKeys) (hactive : w.runBrowserActive = false) :
    Inv (settled.showLayout hiddenKeys) ∧ Released w (settled.showLayout hiddenKeys) := by
  have hactive' : ¬settled.runBrowserActive = true := by
    rw [hsettles.active, hv.active, hactive]
    simp
  rw [Window.showLayout, if_neg hactive']
  constructor
  · refine hsettles.inv.reshow (fun key _ => key ∉ hiddenKeys) (fun key => rfl) rfl rfl rfl ?_
    intro key tile howner htile
    rw [ne_eq, hsettles.owners, not_not] at howner
    rw [hsettles.tiles, Option.map_eq_some_iff] at htile
    obtain ⟨old, hold, _⟩ := htile
    simpa using hsafe.hides hactive key (hv.mem_layoutKeys hold) howner
  · intro key old new hold hnew _ _ hnone
    have hnone' : settled.plotSourceOwners key = none := hnone
    have hnew' : (settled.tiles.find key).map (fun tile =>
        { tile with visible := decide (key ∉ hiddenKeys) }) = some new := hnew
    rw [Option.map_eq_some_iff] at hnew'
    obtain ⟨_, _, rfl⟩ := hnew'
    by_cases hmem : key ∈ hiddenKeys
    · -- a disbanded key would have lost its place among the hidden ones
      right
      right
      have hstill : key ∈ settled.runBrowserHiddenKeys := by
        rw [hsettles.hidden, hv.hidden hactive, hhidden]
        refine ⟨hmem, fun hdisbands => ?_⟩
        exact (hsettles.owners key).mp hnone' (hsafe.remembers hactive key hmem
          (KeyedMap.mem_keys_of_find hold) hdisbands)
      exact hstill
    · exact .inl (decide_eq_true hmem)

/-- What an entry has freed is not seen again only where the dock emits nothing and the key is
checked. -/
theorem Settles.visible_or_unchecked {settled : Window} {key : ByteString} {old new : Tile}
    (hs : Stores w) (hv : Partway w entries v) (hsettles : Settles w entries v settled)
    (hsafe : w.LoadsSafely entries hiddenKeys) (hactive : w.runBrowserActive = true)
    (hquiet : ¬(settled.dock.items.any fun item => item.rows.unchecks hiddenKeys) = true)
    (hold : w.tiles.find key = some old) (hnew : settled.tiles.find key = some new)
    (howner : w.plotSourceOwners key ≠ none) (hnone : settled.plotSourceOwners key = none) :
    new.visible = true ∨ key ∉ settled.runBrowserCheckedKeys := by
  rw [hsettles.tiles, hnone, Option.map_eq_some_iff] at hnew
  obtain ⟨middle, hmiddle, rfl⟩ := hnew
  have hlost := (hsettles.owners key).mp hnone
  rw [hsettles.checked]
  by_cases hdisbands : w.Disbands entries key
  · simpa using hv.shown hactive key old middle hold hmiddle hdisbands
  right
  -- the key had a plot, and an entry gave that plot other sources
  obtain ⟨id, hid⟩ := Option.ne_none_iff_exists'.mp howner
  obtain ⟨plot, tile, hplot, _, habs⟩ := (hs.owners key id).mp hid
  have hseries : key ∈ w.seriesKeys plot := Window.mem_seriesKeys.mpr ⟨tile, hplot, habs⟩
  have hkeys : plot ∈ w.layoutKeys entries :=
    List.mem_append_left _ (KeyedMap.mem_keys_of_find hplot)
  obtain ⟨entry, hentry, rfl, hreplaced⟩ :=
    Window.exists_entry_of_lost hseries fun hin => hlost ⟨plot, hkeys, hin⟩
  have hsources : entry.linePlotSources ≠ [] := by
    refine hreplaced.resolve_right fun hkeeps => ?_
    exact hdisbands ⟨entry, hentry, hkeeps, hseries⟩
  rcases hsafe.shows hactive entry hentry hsources key hseries (KeyedMap.mem_keys_of_find hold) with
    hagain | hemits | ⟨hunchecked, hunchecked'⟩
  · exact absurd hagain hlost
  · rw [hsettles.dock, hv.dock] at hquiet
    exact absurd hemits hquiet
  · rcases hv.checked with hchecked | hchecked
    · rwa [hchecked]
    · rwa [hchecked, hv.dock]

theorem Settles.showLayout_active {settled : Window} (hs : Stores w) (hv : Partway w entries v)
    (hsettles : Settles w entries v settled) (hsafe : w.LoadsSafely entries hiddenKeys)
    (hactive : w.runBrowserActive = true) :
    Inv (settled.showLayout hiddenKeys) ∧ Released w (settled.showLayout hiddenKeys) := by
  have hactive' : settled.runBrowserActive = true := by
    rw [hsettles.active, hv.active, hactive]
  rw [Window.showLayout, if_pos hactive']
  by_cases hempty : hiddenKeys = ∅
  · rw [if_pos hempty]
    refine ⟨hsettles.inv, fun key old new hold hnew _ howner hnone => ?_⟩
    have hquiet : ¬(settled.dock.items.any fun item => item.rows.unchecks hiddenKeys) = true :=
      fun hany => (Dock.uncheckSignalsByKeys_of_any hany).1 hempty
    rcases hsettles.visible_or_unchecked hs hv hsafe hactive hquiet hold hnew howner hnone with
      hvisible | hunchecked
    · exact .inl hvisible
    · exact .inr (.inl ⟨hactive', hunchecked⟩)
  rw [if_neg hempty]
  refine ⟨hsettles.inv.hear _, fun key old new hold hnew _ howner hnone => ?_⟩
  rw [Window.plotSourceOwners_hear] at hnone
  cases hanswer : (settled.dock.uncheckSignalsByKeys hiddenKeys).2 with
  | some checkedKeys => exact Window.visible_or_withheld_hear hanswer hnone hnew
  | none =>
    have hquiet : ¬(settled.dock.items.any fun item => item.rows.unchecks hiddenKeys) = true := by
      intro hany
      obtain ⟨checkedKeys, hsome⟩ := (Dock.uncheckSignalsByKeys_of_any hany).2
      cases hanswer.symm.trans hsome
    rw [Window.hear_eq_of_none hanswer] at hnew ⊢
    rcases hsettles.visible_or_unchecked hs hv hsafe hactive hquiet hold hnew howner hnone with
      hvisible | hunchecked
    · exact .inl hvisible
    · exact .inr (.inl ⟨hactive', hunchecked⟩)

theorem Inv.loadLayout (h : Inv w) (hsafe : w.LoadsSafely entries hiddenKeys) :
    ∃ w', w.loadLayout entries hiddenKeys = some w' ∧ Inv w' ∧ Released w w' := by
  set start : Window :=
    { w with savedLayoutByKey := Window.saveEntries entries, runBrowserHiddenKeys := hiddenKeys }
    with hstart
  have hs : Stores start := ⟨⟨h.ids, h.created⟩, h.owners, h.apart, h.hidden, h.bare⟩
  have hsafe' : start.LoadsSafely entries hiddenKeys :=
    ⟨⟨hsafe.distinct, hsafe.plots, hsafe.order, hsafe.unique, hsafe.apart⟩, hsafe.hides,
      hsafe.remembers, hsafe.shows⟩
  -- with one entry a key, a new tile finds its own among the saved ones
  have hsaved : ∀ entry ∈ [] ++ entries, start.savedLayoutByKey entry.variableKey = some entry := by
    intro entry hmem
    have hdistinct : LastWrite.Distinct LayoutEntry.variableKey entries := hsafe.distinct
    exact (saveEntries_eq entries _).trans (hdistinct.last_of_mem hmem)
  have hsound : start.EntriesSound ([] ++ entries) := hsafe'.toEntriesSound
  obtain ⟨v, hfold, hv⟩ :=
    (partway_nil hs).foldlM_applyEntry entries hs hsound.distinct hsound.plots hsound.order hsaved
  rw [List.nil_append] at hv
  have hsettles := hv.settle hsafe'.toEntriesSound fun key hkey =>
    List.mem_append_right _ (mem_of_saveEntries hkey)
  have hload : w.loadLayout entries hiddenKeys = some (v.settle.showLayout hiddenKeys) := by
    rw [Window.loadLayout, ← hstart, hfold, Option.map_some]
    rfl
  have hend : Inv (v.settle.showLayout hiddenKeys) ∧
      Released start (v.settle.showLayout hiddenKeys) := by
    cases hactive : w.runBrowserActive with
    | false => exact hsettles.showLayout_inactive hv hsafe' rfl hactive
    | true => exact hsettles.showLayout_active hs hv hsafe' hactive
  exact ⟨_, hload, hend⟩

end Loading

end SmartDashboard.App.RunBrowser
