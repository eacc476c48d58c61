import SmartDashboard.App.Tiles

/-!
# Plots with several series

A line plot takes the keys of other tiles as additional series. Three stores know of it: the
source list of the plot, the map from keys to the plots that own them, and the visibility of the
tiles whose keys are absorbed. Here are the operations that change them.

A new widget type may disband a plot, which restores the widget types of its sources, which may
disband plots in turn. `setWidgetType` counts how deep that nests and gives up beyond the number of
tiles, where the source would not return.

## Main definitions

- `setWidgetType`, `onPlotSourceDisbanded`: the recursion between a tile and the window
- `mergeTileIntoPlot`, `disbandAllSources`, `removeWidget`, `clearWidgets`, `hideSelectedTiles`,
  `loadLayout`
- `rebuildPlotSourceOwners`: the map from the source lists
- `LayoutAction`, `act`: what moves a window, and its step
-/

namespace SmartDashboard.App.RunBrowser

open Direct (ByteString)

/-- `ToVariableTypeFromWidgetType`. -/
def toVariableTypeFromWidgetType (widgetType : ByteString) : VariableType :=
  if text "bool." <+: widgetType then .bool
  else if text "double." <+: widgetType then .double
  else .string

namespace Tile

/-- The tile is a line plot with the key among its sources. -/
def absorbs (tile : Tile) (key : ByteString) : Prop :=
  tile.isLinePlotWidget = true ∧ key ∈ tile.sourceKeys

instance (tile : Tile) (key : ByteString) : Decidable (tile.absorbs key) :=
  inferInstanceAs (Decidable (_ ∧ _))

/-- `AddPlotSource`, where `self` is the key of the tile. -/
def addPlotSource (self key : ByteString) (tile : Tile) : Tile :=
  if key = self ∨ key ∈ tile.sourceKeys then tile
  else { tile with plotSources := tile.plotSources ++ [{ key := key }] }

/-- The widget type to restore is recorded with the source, unless there is one. -/
def recordOriginal (key widgetType : ByteString) (tile : Tile) : Tile :=
  { tile with
    plotSources := tile.plotSources.map fun source =>
      if source.key = key ∧ source.originalWidgetType = [] then
        { source with originalWidgetType := widgetType }
      else source }

def removePlotSource (key : ByteString) (tile : Tile) : Tile :=
  { tile with plotSources := tile.plotSources.eraseP fun source => source.key = key }

end Tile

namespace Window

def modifyTile (w : Window) (key : ByteString) (f : Tile → Tile) : Window :=
  match w.tiles.find key with
  | some tile => { w with tiles := w.tiles.insert key (f tile) }
  | none => w

def own (w : Window) (key : ByteString) (owner : Option ℕ) : Window :=
  { w with plotSourceOwners := Function.update w.plotSourceOwners key owner }

/-! ### Disbanding -/

def freeKey (w : Window) (key : ByteString) : Window :=
  { w.own key none with runBrowserHiddenKeys := w.runBrowserHiddenKeys.erase key }

/-- A freed tile may be shown again. -/
def allows (w : Window) (key : ByteString) : Bool :=
  if w.runBrowserActive then key ∈ w.runBrowserCheckedKeys else key ∉ w.runBrowserHiddenKeys

def showFreed (w : Window) (key : ByteString) : Window :=
  if w.allows key then w.modifyTile key fun tile => { tile with visible := true } else w

/-- `OnPlotSourceDisbanded`, with `SetWidgetType` of the source tile as an argument. -/
def onPlotSourceDisbanded (setWidgetType : Window → ByteString → ByteString → Option Window)
    (w : Window) (source : PlotSource) : Option Window :=
  let freed := w.freeKey source.key
  match freed.tiles.find source.key with
  | none => some freed
  | some _ =>
    if source.originalWidgetType = [] then some (freed.showFreed source.key)
    else
      (setWidgetType freed source.key source.originalWidgetType).map fun w =>
        w.showFreed source.key

def setWidgetType : ℕ → Window → ByteString → ByteString → Option Window
  | 0, _, _, _ => none
  | depth + 1, w, key, widgetType =>
    match w.tiles.find key with
    | none => some w
    | some tile =>
      if tile.disbands widgetType then
        (tile.plotSources.foldlM (onPlotSourceDisbanded (setWidgetType depth)) w).map fun w =>
          w.modifyTile key fun tile =>
            { tile with plotSources := [], widgetType := widgetType }
      else some (w.modifyTile key fun tile => { tile with widgetType := widgetType })

/-- As deep as the calls of `setWidgetType` on different tiles can nest. -/
def depth (w : Window) : ℕ := w.tiles.keys.length + 1

/-- "Disband All Sources" of the context menu. -/
def disbandAllSources (w : Window) (key : ByteString) : Option Window :=
  match w.tiles.find key with
  | none => none
  | some tile =>
    if tile.isMultiLinePlot then
      tile.plotSources.foldlM
        (fun w source =>
          onPlotSourceDisbanded (setWidgetType w.depth)
            (w.modifyTile key (Tile.removePlotSource source.key)) source)
        w
    else none

/-! ### Merging -/

/-- The menu offers it on line plots. -/
def setMultiLinePlotMode (w : Window) (key : ByteString) (enabled : Bool) : Option Window :=
  match w.tiles.find key with
  | none => none
  | some tile =>
    if tile.isLinePlotWidget then
      some (w.modifyTile key fun tile => { tile with multiLinePlotMode := enabled })
    else none

/-- A series of the dropped plot goes over to the target. -/
def transfer (plot : ByteString) (w : Window) (source : PlotSource) : Window :=
  match w.tiles.find plot with
  | none => w
  | some tile =>
    if source.key ∈ tile.sourceKeys ∨ source.key = plot then w
    else
      (w.modifyTile plot fun tile =>
        (tile.addPlotSource plot source.key).recordOriginal source.key
          source.originalWidgetType).own source.key (some tile.id)

def mergeTileIntoPlot (w : Window) (plot source : ByteString) : Window :=
  match w.tiles.find plot, w.tiles.find source with
  | some plotTile, some sourceTile =>
    if ¬plotTile.isLinePlotWidget ∨ source = plot ∨ source ∈ plotTile.sourceKeys then w
    else
      let absorbed :=
        if sourceTile.isMultiLinePlot then
          (sourceTile.plotSources.foldl (transfer plot) w).modifyTile source fun tile =>
            { tile with plotSources := [], multiLinePlotMode := false }
        else w
      ((absorbed.modifyTile plot fun tile =>
        (tile.addPlotSource plot source).recordOriginal source sourceTile.widgetType).own source
          (some plotTile.id)).modifyTile source fun tile => { tile with visible := false }
  | _, _ => w

/-- The drop of a tile on a plot that makes the window merge them. -/
def drops (w : Window) (plot source : ByteString) : Bool :=
  match w.tiles.find plot, w.tiles.find source with
  | some plotTile, some sourceTile =>
    plot ≠ source ∧ sourceTile.type = .double ∧ sourceTile.visible ∧
      plotTile.isMultiLinePlotDropTarget ∧ plotTile.visible
  | _, _ => false

/-! ### Removing -/

/-- `OnRemoveWidgetRequested`. -/
def removeWidget (w : Window) (key : ByteString) : Window :=
  match w.tiles.find key with
  | none => w
  | some tile =>
    let disowned :=
      if tile.isMultiLinePlot then tile.sourceKeys.foldl (fun w source => w.own source none) w
      else w
    hear
      { disowned.own key none with
        tiles := w.tiles.erase key
        savedLayoutByKey := Function.update w.savedLayoutByKey key none }
      (w.dock.onTileRemoved key)

/-- `OnClearWidgets`; `live` says that the selected transport is not replay. -/
def clearWidgets (w : Window) (live : Bool) : Window :=
  let cleared : Window := { created := w.created, dock := w.dock }
  let empty := cleared.hear Dock.clearAllRuns
  let labelled := if live then { empty with dock := empty.dock.setStreamingRootLabel } else empty
  labelled.hear labelled.dock.clearDiscoveredKeys

def hideSelectedTiles (w : Window) (keys : Finset ByteString) : Window :=
  if w.runBrowserActive then w.hear (w.dock.uncheckSignalsByKeys keys)
  else
    { w with
      tiles := w.tiles.mapValues fun key tile =>
        { tile with visible := tile.visible && key ∉ keys } }

/-! ### Loading a layout -/

def rebuildPlotSourceOwners (w : Window) : Window :=
  w.tiles.keys.foldl
    (fun w' key =>
      match w.tiles.find key with
      | some tile =>
        if tile.isMultiLinePlot then
          tile.sourceKeys.foldl (fun w' source => w'.own source (some tile.id)) w'
        else w'
      | none => w')
    { w with plotSourceOwners := fun _ => none }

/-- An entry of the layout: `GetOrCreateTile`, then `ApplyLayoutEntryToTile`. -/
def applyEntry (w : Window) (entry : LayoutEntry) : Option Window :=
  let found :=
    w.getOrCreateTile entry.variableKey (toVariableTypeFromWidgetType entry.widgetType)
  let typed :=
    if entry.widgetType = [] then some found
    else found.setWidgetType found.depth entry.variableKey entry.widgetType
  typed.map fun w => w.modifyTile entry.variableKey fun tile => tile.restorePlot entry

def hideAbsorbed (w : Window) : Window :=
  { w with
    tiles := w.tiles.mapValues fun key tile =>
      { tile with visible := tile.visible && (w.plotSourceOwners key).isNone } }

/-- The last part of `LoadLayoutFromPath`. -/
def showLayout (w : Window) (layoutHiddenKeys : Finset ByteString) : Window :=
  if w.runBrowserActive then
    if layoutHiddenKeys = ∅ then w
    else w.hear (w.dock.uncheckSignalsByKeys layoutHiddenKeys)
  else
    { w with
      tiles := w.tiles.mapValues fun key tile =>
        { tile with visible := key ∉ layoutHiddenKeys } }

def saveEntries (entries : List LayoutEntry) : ByteString → Option LayoutEntry :=
  entries.foldl (fun saved entry => Function.update saved entry.variableKey (some entry))
    fun _ => none

/-- `LoadLayoutFromPath` over existing tiles. -/
def loadLayout (w : Window) (entries : List LayoutEntry) (layoutHiddenKeys : Finset ByteString) :
    Option Window :=
  (entries.foldlM applyEntry
    { w with
      savedLayoutByKey := saveEntries entries
      runBrowserHiddenKeys := layoutHiddenKeys }).map fun applied =>
    applied.rebuildPlotSourceOwners.hideAbsorbed.showLayout layoutHiddenKeys

end Window

inductive LayoutAction
  | transport (event : TransportEvent)
  | hideSelectedTiles (keys : Finset ByteString)
  /-- "Enable Multi-Line Drop Target" of the context menu. -/
  | setMultiLinePlotMode (key : ByteString) (enabled : Bool)
  | mergeTileIntoPlot (plot source : ByteString)
  /-- "Change to..." of the context menu, or an update that makes the tile a chooser. -/
  | setWidgetType (key widgetType : ByteString)
  | disbandAllSources (key : ByteString)
  | removeWidget (key : ByteString)
  | loadLayout (entries : List LayoutEntry) (layoutHiddenKeys : Finset ByteString)
  | clearWidgets (live : Bool)
  deriving DecidableEq

def act (w : Window) : LayoutAction → Option Window
  | .transport event => some (event.handle w)
  | .hideSelectedTiles keys => some (w.hideSelectedTiles keys)
  | .setMultiLinePlotMode key enabled => w.setMultiLinePlotMode key enabled
  | .mergeTileIntoPlot plot source =>
    if w.drops plot source then some (w.mergeTileIntoPlot plot source) else none
  | .setWidgetType key widgetType => w.setWidgetType w.depth key widgetType
  | .disbandAllSources key => w.disbandAllSources key
  | .removeWidget key => some (w.removeWidget key)
  | .loadLayout entries layoutHiddenKeys => w.loadLayout entries layoutHiddenKeys
  | .clearWidgets live => some (w.clearWidgets live)

/-! ### What the operations on one tile change -/

namespace Window

variable {w : Window} {key key' : ByteString} {f : Tile → Tile} {owner : Option ℕ}

theorem find_modifyTile :
    (w.modifyTile key f).tiles.find key' =
      if key' = key then (w.tiles.find key').map f else w.tiles.find key' := by
  unfold modifyTile
  split
  · next tile htile =>
    rw [KeyedMap.find_insert]
    split
    · next heq => rw [heq, htile, Option.map_some]
    · rfl
  · next hnone =>
    split
    · next heq => rw [heq, hnone, Option.map_none]
    · rfl

theorem find_modifyTile_self {tile : Tile} (h : w.tiles.find key = some tile) :
    (w.modifyTile key f).tiles.find key = some (f tile) := by
  rw [find_modifyTile, if_pos rfl, h, Option.map_some]

theorem find_modifyTile_of_ne (h : key' ≠ key) :
    (w.modifyTile key f).tiles.find key' = w.tiles.find key' := by
  rw [find_modifyTile, if_neg h]

/-- All of a window but its tiles, its owners and its hidden keys. -/
structure SameRest (w w' : Window) : Prop where
  keys : w'.tiles.keys = w.tiles.keys
  created : w'.created = w.created
  saved : w'.savedLayoutByKey = w.savedLayoutByKey
  active : w'.runBrowserActive = w.runBrowserActive
  checked : w'.runBrowserCheckedKeys = w.runBrowserCheckedKeys
  dock : w'.dock = w.dock

theorem SameRest.refl (w : Window) : SameRest w w := ⟨rfl, rfl, rfl, rfl, rfl, rfl⟩

theorem SameRest.trans {w' w'' : Window} (h : SameRest w w') (h' : SameRest w' w'') :
    SameRest w w'' where
  keys := h'.keys.trans h.keys
  created := h'.created.trans h.created
  saved := h'.saved.trans h.saved
  active := h'.active.trans h.active
  checked := h'.checked.trans h.checked
  dock := h'.dock.trans h.dock

theorem sameRest_modifyTile : SameRest w (w.modifyTile key f) := by
  unfold modifyTile
  split
  · next tile htile =>
    have hkeys : (w.tiles.insert key (f tile)).keys = w.tiles.keys :=
      if_pos (KeyedMap.mem_keys_of_find htile)
    exact ⟨hkeys, rfl, rfl, rfl, rfl, rfl⟩
  · exact .refl w

@[simp] theorem plotSourceOwners_modifyTile :
    (w.modifyTile key f).plotSourceOwners = w.plotSourceOwners := by
  unfold modifyTile
  split <;> rfl

@[simp] theorem runBrowserHiddenKeys_modifyTile :
    (w.modifyTile key f).runBrowserHiddenKeys = w.runBrowserHiddenKeys := by
  unfold modifyTile
  split <;> rfl

theorem plotSourceOwners_own :
    (w.own key owner).plotSourceOwners key' =
      if key' = key then owner else w.plotSourceOwners key' :=
  Function.update_apply _ _ _ _

theorem sameRest_own : SameRest w (w.own key owner) := ⟨rfl, rfl, rfl, rfl, rfl, rfl⟩

theorem sameRest_freeKey : SameRest w (w.freeKey key) := ⟨rfl, rfl, rfl, rfl, rfl, rfl⟩

end Window

end SmartDashboard.App.RunBrowser
