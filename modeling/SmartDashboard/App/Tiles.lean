import SmartDashboard.App.Connection
import SmartDashboard.App.RunBrowserDock
import SmartDashboard.App.VariableStore
import SmartDashboard.Library.KeyedMap

/-!
# Tiles and who shows them

The window keeps the tiles, the plots that keys are absorbed in and a copy of the hidden keys. The
dock calls back whenever it emits what is checked; the handler shows and hides every tile and,
while the Run Browser is active and in streaming mode, replaces the copy by what the dock's tree
says is hidden. A tile is shown or hidden when it is created, too. Colours and the visibility of
single series are not kept.

## Main definitions

- `Tile`, `LayoutEntry`, `Window`: the data
- `shows`: what the window wants of the tile of a key
- `onRunBrowserCheckedSignalsChanged`, `hear`: the handler, and an operation of the dock with it
- `getOrCreateTile`, `streamingSetup`, `startTransport`: what creates and shows tiles
- `TransportEvent`, `TransportEvent.handle`: what a live transport makes the window do
-/

namespace SmartDashboard.App.RunBrowser

open Direct (ByteString)
open Connection (Outcome)
open Transport (ConnectionState)

structure PlotSource where
  key : ByteString
  originalWidgetType : ByteString := []
  deriving DecidableEq, Repr

/-- A `VariableTile` in the map of the window; `id` stands for its address. -/
structure Tile where
  id : ℕ
  type : VariableType
  widgetType : ByteString
  plotSources : List PlotSource := []
  multiLinePlotMode : Bool := false
  visible : Bool := false
  deriving DecidableEq, Repr

structure LayoutEntry where
  variableKey : ByteString
  widgetType : ByteString := []
  linePlotSources : List PlotSource := []
  multiLinePlotMode : Bool := false
  deriving DecidableEq, Repr

/-- `GetDefaultWidgetType`. -/
def defaultWidgetType : VariableType → ByteString
  | .bool => text "bool.led"
  | .double => text "double.numeric"
  | .string => text "string.text"

def linePlot : ByteString := text "double.lineplot"

namespace Tile

def isLinePlotWidget (tile : Tile) : Bool := tile.type = .double ∧ tile.widgetType = linePlot

def isMultiLinePlot (tile : Tile) : Bool := tile.isLinePlotWidget ∧ tile.plotSources ≠ []

def isMultiLinePlotDropTarget (tile : Tile) : Bool :=
  tile.isLinePlotWidget && tile.multiLinePlotMode

def sourceKeys (tile : Tile) : List ByteString := tile.plotSources.map PlotSource.key

/-- The new widget type costs the tile its sources. -/
def disbands (tile : Tile) (widgetType : ByteString) : Bool :=
  tile.isMultiLinePlot ∧ widgetType ≠ linePlot

/-- `SetWidgetType` on the tile alone. -/
def setWidgetType (tile : Tile) (widgetType : ByteString) : Tile :=
  { tile with
    widgetType := widgetType
    plotSources := if tile.disbands widgetType then [] else tile.plotSources }

/-- What `ApplyLayoutEntryToTile` does after the widget type is set. -/
def restorePlot (tile : Tile) (entry : LayoutEntry) : Tile :=
  { tile with
    plotSources :=
      if entry.linePlotSources = [] then tile.plotSources else entry.linePlotSources
    multiLinePlotMode := tile.multiLinePlotMode || entry.multiLinePlotMode }

/-- `ApplyLayoutEntryToTile` on a tile that has no sources to disband. -/
def applyLayoutEntry (tile : Tile) (entry : LayoutEntry) : Tile :=
  if entry.widgetType = [] then tile.restorePlot entry
  else (tile.setWidgetType entry.widgetType).restorePlot entry

end Tile

structure Window where
  tiles : KeyedMap ByteString Tile := .empty
  /-- How many tiles were created. -/
  created : ℕ := 0
  plotSourceOwners : ByteString → Option ℕ := fun _ => none
  savedLayoutByKey : ByteString → Option LayoutEntry := fun _ => none
  runBrowserActive : Bool := false
  runBrowserCheckedKeys : Finset ByteString := ∅
  runBrowserHiddenKeys : Finset ByteString := ∅
  dock : Dock := {}

namespace Window

def shows (w : Window) (key : ByteString) : Bool :=
  if (w.plotSourceOwners key).isSome then false
  else if w.runBrowserActive then key ∈ w.runBrowserCheckedKeys
  else key ∉ w.runBrowserHiddenKeys

/-- Every tile is shown or hidden. -/
def showTiles (w : Window) : Window :=
  { w with tiles := w.tiles.mapValues fun key tile => { tile with visible := w.shows key } }

def onRunBrowserCheckedSignalsChanged (w : Window) (checkedKeys : Finset ByteString) : Window :=
  let shown := showTiles { w with runBrowserCheckedKeys := checkedKeys }
  if w.runBrowserActive ∧ w.dock.streamingMode then
    { shown with runBrowserHiddenKeys := w.dock.hiddenDiscoveredKeys }
  else shown

/-- The window after an operation of the dock, which may have emitted. -/
def hear (w : Window) (answer : Dock.Answer) : Window :=
  match answer.2 with
  | none => { w with dock := answer.1 }
  | some checkedKeys =>
    onRunBrowserCheckedSignalsChanged { w with dock := answer.1 } checkedKeys

def isHarnessFocusKey (key : ByteString) : Bool :=
  key ∈ [text "Test/AutonTest", text "TestMove", text "Timer", text "Y_ft", text "X_ft",
    text "Velocity", text "Rotation Velocity", text "Wheel_fl_Velocity", text "Wheel_fr_Velocity",
    text "Wheel_rl_Velocity", text "Wheel_rr_Velocity",
    text "Test/Auton_Selection/AutoChooser/selected"]

def newTile (w : Window) (key : ByteString) (type : VariableType) : Tile :=
  let tile : Tile := { id := w.created, type := type, widgetType := defaultWidgetType type }
  let restored :=
    match w.savedLayoutByKey key with
    | some entry => if isHarnessFocusKey key then tile else tile.applyLayoutEntry entry
    | none => tile
  { restored with visible := w.shows key }

/-- `GetOrCreateTile`, with the signal `TileAdded` at its end. -/
def getOrCreateTile (w : Window) (key : ByteString) (type : VariableType) : Window :=
  match w.tiles.find key with
  | some _ => w
  | none =>
    hear
      { w with tiles := w.tiles.insert key (w.newTile key type), created := w.created + 1 }
      (w.dock.onTileAdded key)

/-! The end of `StartTransport` on a transport other than replay, in three parts. -/

def restartSession (w : Window) : Window :=
  let inactive := { w with runBrowserActive := false }
  let cleared := inactive.hear inactive.dock.clearDiscoveredKeys
  { cleared with dock := cleared.dock.setStreamingRootLabel }

def hideKeys (w : Window) : Window :=
  if w.runBrowserHiddenKeys = ∅ then w
  else w.hear (w.dock.setHiddenDiscoveredKeys w.runBrowserHiddenKeys)

def addToDock (w : Window) (key : ByteString) : Window := w.hear (w.dock.onTileAdded key)

def streamingSetup (w : Window) : Window :=
  let hidden := w.restartSession.hideKeys
  { hidden.tiles.keys.foldl addToDock hidden with runBrowserActive := true }

/-- The controls that `ReplayRetainedControls` replays, each a key and its type. -/
def replayRetainedControls (w : Window) (controls : List (ByteString × VariableType)) : Window :=
  controls.foldl (fun w control => w.getOrCreateTile control.1 control.2) w

def startTransport (w : Window) (retained : List (ByteString × VariableType)) :
    Outcome → Window
  | .notCreated => w
  | .failed => w
  | .started => (w.replayRetainedControls retained).streamingSetup

end Window

/-- What happens on transports other than replay, without an action of the user on the tiles. -/
inductive TransportEvent
  /-- `StartTransport`, of the user or of the reconnect timer. -/
  | startTransport (retained : List (ByteString × VariableType)) (outcome : Outcome)
  | stopTransport
  | connectionStateChanged (state : ConnectionState)
  /-- An update, which creates the tile of its key if there is none. -/
  | variableUpdate (key : ByteString) (type : VariableType)
  deriving DecidableEq, Repr

/-- Stopping a transport and the state it reports touch neither the tiles nor the Run Browser. -/
def TransportEvent.handle (w : Window) : TransportEvent → Window
  | .startTransport retained outcome => w.startTransport retained outcome
  | .stopTransport => w
  | .connectionStateChanged _ => w
  | .variableUpdate key type => w.getOrCreateTile key type

/-! ### What an emission changes -/

namespace Window

variable {w : Window} {checkedKeys : Finset ByteString} {answer : Dock.Answer} {key : ByteString}

theorem find_onRunBrowserCheckedSignalsChanged :
    (w.onRunBrowserCheckedSignalsChanged checkedKeys).tiles.find key =
      (w.tiles.find key).map fun tile =>
        { tile with visible := shows { w with runBrowserCheckedKeys := checkedKeys } key } := by
  unfold onRunBrowserCheckedSignalsChanged
  split <;> rfl

theorem hiddenKeys_onRunBrowserCheckedSignalsChanged :
    (w.onRunBrowserCheckedSignalsChanged checkedKeys).runBrowserHiddenKeys =
      if w.runBrowserActive ∧ w.dock.streamingMode then w.dock.hiddenDiscoveredKeys
      else w.runBrowserHiddenKeys := by
  unfold onRunBrowserCheckedSignalsChanged
  split <;> rfl

/-- All that the handler leaves as it is. -/
theorem onRunBrowserCheckedSignalsChanged_frame (w : Window) (checkedKeys : Finset ByteString) :
    let shown := w.onRunBrowserCheckedSignalsChanged checkedKeys
    shown.tiles.keys = w.tiles.keys ∧ shown.plotSourceOwners = w.plotSourceOwners ∧
      shown.savedLayoutByKey = w.savedLayoutByKey ∧ shown.created = w.created ∧
      shown.runBrowserActive = w.runBrowserActive ∧ shown.dock = w.dock ∧
      shown.runBrowserCheckedKeys = checkedKeys := by
  unfold onRunBrowserCheckedSignalsChanged
  split <;> exact ⟨rfl, rfl, rfl, rfl, rfl, rfl, rfl⟩

theorem hear_eq_of_none (h : answer.2 = none) : w.hear answer = { w with dock := answer.1 } := by
  rw [hear, h]

theorem hear_eq_of_some (h : answer.2 = some checkedKeys) :
    w.hear answer =
      onRunBrowserCheckedSignalsChanged { w with dock := answer.1 } checkedKeys := by
  rw [hear, h]

theorem hear_frame :
    (w.hear answer).tiles.keys = w.tiles.keys ∧
      (w.hear answer).plotSourceOwners = w.plotSourceOwners ∧
      (w.hear answer).savedLayoutByKey = w.savedLayoutByKey ∧
      (w.hear answer).created = w.created ∧
      (w.hear answer).runBrowserActive = w.runBrowserActive ∧
      (w.hear answer).dock = answer.1 := by
  cases h : answer.2 with
  | none =>
    rw [hear_eq_of_none h]
    exact ⟨rfl, rfl, rfl, rfl, rfl, rfl⟩
  | some checkedKeys =>
    rw [hear_eq_of_some h]
    obtain ⟨hkeys, howners, hsaved, hcreated, hactive, hdock, _⟩ :=
      onRunBrowserCheckedSignalsChanged_frame { w with dock := answer.1 } checkedKeys
    exact ⟨hkeys, howners, hsaved, hcreated, hactive, hdock⟩

@[simp] theorem plotSourceOwners_hear : (w.hear answer).plotSourceOwners = w.plotSourceOwners :=
  hear_frame.2.1

@[simp] theorem savedLayoutByKey_hear : (w.hear answer).savedLayoutByKey = w.savedLayoutByKey :=
  hear_frame.2.2.1

@[simp] theorem created_hear : (w.hear answer).created = w.created := hear_frame.2.2.2.1

@[simp] theorem runBrowserActive_hear : (w.hear answer).runBrowserActive = w.runBrowserActive :=
  hear_frame.2.2.2.2.1

@[simp] theorem dock_hear : (w.hear answer).dock = answer.1 := hear_frame.2.2.2.2.2

@[simp] theorem keys_hear : (w.hear answer).tiles.keys = w.tiles.keys := hear_frame.1

@[simp] theorem isSome_find_hear :
    ((w.hear answer).tiles.find key).isSome = (w.tiles.find key).isSome := by
  cases h : answer.2 with
  | none => rw [hear_eq_of_none h]
  | some checkedKeys =>
    rw [hear_eq_of_some h, find_onRunBrowserCheckedSignalsChanged, Option.isSome_map]

/-- The window with a new tile, before the dock is told. -/
def withTile (w : Window) (key : ByteString) (type : VariableType) : Window :=
  { w with tiles := w.tiles.insert key (w.newTile key type), created := w.created + 1 }

theorem find_withTile {key' : ByteString} {type : VariableType} :
    (w.withTile key type).tiles.find key' =
      if key' = key then some (w.newTile key type) else w.tiles.find key' :=
  rfl

theorem getOrCreateTile_of_some {type : VariableType} {tile : Tile}
    (h : w.tiles.find key = some tile) : w.getOrCreateTile key type = w := by
  rw [getOrCreateTile, h]

theorem getOrCreateTile_of_none {type : VariableType} (h : w.tiles.find key = none) :
    w.getOrCreateTile key type = (w.withTile key type).hear (w.dock.onTileAdded key) := by
  rw [getOrCreateTile, h]
  rfl

/-- Outside a live session of the Run Browser the copy of the hidden keys is safe. -/
theorem hiddenKeys_hear (w : Window) (answer : Dock.Answer)
    (h : w.runBrowserActive = false ∨ answer.1.streamingMode = false) :
    (w.hear answer).runBrowserHiddenKeys = w.runBrowserHiddenKeys := by
  cases hanswer : answer.2 with
  | none => rw [hear_eq_of_none hanswer]
  | some checkedKeys =>
    rw [hear_eq_of_some hanswer, hiddenKeys_onRunBrowserCheckedSignalsChanged, if_neg]
    rintro ⟨hactive, hstreaming⟩
    rcases h with h | h
    · cases hactive.symm.trans h
    · cases hstreaming.symm.trans h

end Window

end SmartDashboard.App.RunBrowser
