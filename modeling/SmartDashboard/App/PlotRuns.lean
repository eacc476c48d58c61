import SmartDashboard.App.LayoutLoad

/-!
# Plots over whole runs

Tiles come, plots grow and fall apart, layouts are loaded over them. As long as no absorbed tile is
removed, no removed plot leaves its sources hidden and no layout brings the stores apart, the three
stores agree in every state, and what a step frees is shown again.

## Main definitions

- `Offered`: the actions that the window offers in a state
- `Safe`: the actions that keep the stores together
- `Blank`: a window at its start
-/

namespace SmartDashboard.App.RunBrowser

open Direct (ByteString)
open Execution (run EveryStep)

/-- The drop of a tile on a drop target, and what the context menu shows. -/
def Offered (w : Window) : LayoutAction → Prop
  | .mergeTileIntoPlot plot source => w.drops plot source = true
  | .setMultiLinePlotMode key _ => ∃ tile ∈ w.tiles.find key, tile.isLinePlotWidget = true
  | .disbandAllSources key => ∃ tile ∈ w.tiles.find key, tile.isMultiLinePlot = true
  | _ => True

def Safe (w : Window) : LayoutAction → Prop
  | .removeWidget key => w.RemovesSafely key
  | .loadLayout entries layoutHiddenKeys => w.LoadsSafely entries layoutHiddenKeys
  | _ => True

instance decidableSafe (w : Window) : ∀ action, Decidable (Safe w action)
  | .transport _ => isTrue trivial
  | .hideSelectedTiles _ => isTrue trivial
  | .setMultiLinePlotMode _ _ => isTrue trivial
  | .mergeTileIntoPlot _ _ => isTrue trivial
  | .setWidgetType _ _ => isTrue trivial
  | .disbandAllSources _ => isTrue trivial
  | .removeWidget key => inferInstanceAs (Decidable (w.RemovesSafely key))
  | .loadLayout entries layoutHiddenKeys =>
    inferInstanceAs (Decidable (w.LoadsSafely entries layoutHiddenKeys))
  | .clearWidgets _ => isTrue trivial

/-- No tile yet, nor a saved entry for one; the Run Browser is as the settings say. -/
structure Blank (w : Window) : Prop where
  tiles : w.tiles.keys = []
  owners : ∀ key, w.plotSourceOwners key = none
  saved : ∀ key, w.savedLayoutByKey key = none

theorem blank_initial (active : Bool) (checkedKeys hiddenKeys : Finset ByteString) :
    Blank
      { runBrowserActive := active
        runBrowserCheckedKeys := checkedKeys
        runBrowserHiddenKeys := hiddenKeys } :=
  ⟨rfl, fun _ => rfl, fun _ => rfl⟩

section Run

variable {w w' u : Window} {action : LayoutAction} {actions : List LayoutAction}

theorem Inv.setMultiLinePlotMode {key : ByteString} {enabled : Bool} (h : Inv w)
    (hset : w.setMultiLinePlotMode key enabled = some w') : Inv w' ∧ Released w w' := by
  unfold Window.setMultiLinePlotMode at hset
  split at hset
  · cases hset
  next tile htile =>
  split at hset
  · cases hset
    have halike : Alike tile { tile with multiLinePlotMode := enabled } :=
      ⟨rfl, rfl, rfl, fun _ => Iff.rfl, h.bare key tile htile⟩
    refine ⟨h.modifyTile htile halike rfl, released_of_owners fun other hnone => ?_⟩
    rwa [Window.plotSourceOwners_modifyTile] at hnone
  · cases hset

theorem Inv.hideSelectedTiles (h : Inv w) (keys : Finset ByteString) :
    Inv (w.hideSelectedTiles keys) ∧ Released w (w.hideSelectedTiles keys) := by
  unfold Window.hideSelectedTiles
  split
  · refine ⟨h.hear _, released_of_owners fun key hnone => ?_⟩
    rwa [Window.plotSourceOwners_hear] at hnone
  · refine ⟨?_, released_of_owners fun _ hnone => hnone⟩
    refine h.reshow (fun key tile => tile.visible && key ∉ keys) (fun _ => rfl) rfl rfl rfl ?_
    intro key tile howner htile
    rw [h.hidden key tile howner htile, Bool.false_and]

/-- One case for each action; each is about one part of the window. -/
theorem Inv.act (h : Inv w) (hsafe : Safe w action) (hact : act w action = some w') :
    Inv w' ∧ Released w w' := by
  cases action with
  | transport event =>
    cases hact
    exact h.handle event
  | hideSelectedTiles keys =>
    cases hact
    exact h.hideSelectedTiles keys
  | setMultiLinePlotMode key enabled => exact h.setMultiLinePlotMode hact
  | mergeTileIntoPlot plot source =>
    simp only [RunBrowser.act] at hact
    split at hact
    · next hdrops =>
      cases hact
      exact h.mergeTileIntoPlot hdrops
    · cases hact
  | setWidgetType key widgetType =>
    obtain ⟨w'', hset, hrest⟩ := h.setWidgetType key widgetType
    cases hact.symm.trans hset
    exact hrest
  | disbandAllSources key => exact h.disbandAllSources hact
  | removeWidget key =>
    cases hact
    exact h.removeWidget hsafe
  | loadLayout entries layoutHiddenKeys =>
    obtain ⟨w'', hload, hrest⟩ := h.loadLayout hsafe
    cases hact.symm.trans hload
    exact hrest
  | clearWidgets live =>
    cases hact
    exact inv_clearWidgets w live

/-- What is offered comes to an end. -/
theorem Inv.exists_act (h : Inv w) (hoffered : Offered w action) (hsafe : Safe w action) :
    ∃ w', RunBrowser.act w action = some w' := by
  cases action with
  | transport event => exact ⟨_, rfl⟩
  | hideSelectedTiles keys => exact ⟨_, rfl⟩
  | setMultiLinePlotMode key enabled =>
    obtain ⟨tile, htile, hline⟩ := hoffered
    have htile' : w.tiles.find key = some tile := htile
    simp only [RunBrowser.act, Window.setMultiLinePlotMode, htile', if_pos hline]
    exact ⟨_, rfl⟩
  | mergeTileIntoPlot plot source => exact ⟨_, if_pos hoffered⟩
  | setWidgetType key widgetType =>
    obtain ⟨w', hset, _⟩ := h.setWidgetType key widgetType
    exact ⟨w', hset⟩
  | disbandAllSources key =>
    obtain ⟨tile, htile, hmulti⟩ := hoffered
    have htile' : w.tiles.find key = some tile := htile
    obtain ⟨w', hfold, _⟩ := foldlM_disbandAllSources_frees htile' rfl
      (h.not_mem_sourceKeys htile' hmulti) (h.plain htile' hmulti)
    simp only [RunBrowser.act, Window.disbandAllSources, htile', if_pos hmulti]
    exact ⟨w', hfold⟩
  | removeWidget key => exact ⟨_, rfl⟩
  | loadLayout entries layoutHiddenKeys =>
    obtain ⟨w', hload, _⟩ := h.loadLayout hsafe
    exact ⟨w', hload⟩
  | clearWidgets live => exact ⟨_, rfl⟩

theorem run_inv (hw : Blank w) (hsafe : EveryStep act Safe w actions)
    (hrun : run act w actions = some u) : Inv u := by
  refine Execution.run_induction_of_everyStep (P := Inv) ?_
    (inv_of_no_tiles hw.tiles hw.owners hw.saved) hsafe hrun
  intro v action v' hv hsafe' hact
  exact (hv.act hsafe' hact).1

/-- In a run of safe actions the stores agree in the end, and after every further safe action that
is offered there, which shows what it frees. -/
theorem run_owned (hw : Blank w) (hsafe : EveryStep act Safe w actions)
    (hrun : run act w actions = some u) :
    Owned u ∧ ∀ action, Offered u action → Safe u action →
      ∃ u', act u action = some u' ∧ Owned u' ∧ Released u u' := by
  have hinv := run_inv hw hsafe hrun
  refine ⟨hinv.owned, fun action hoffered hsafe' => ?_⟩
  obtain ⟨u', hact⟩ := hinv.exists_act hoffered hsafe'
  obtain ⟨hinv', hreleased⟩ := hinv.act hsafe' hact
  exact ⟨u', hact, hinv'.owned, hreleased⟩

end Run

def rpm : ByteString := text "motor/RPM"

def current : ByteString := text "motor/Current"

def temperature : ByteString := text "motor/Temperature"

/-- The layout of the start has a plot and two other tiles; the first of them is dropped on the
plot. -/
def dropsCurrent : List LayoutAction :=
  [.loadLayout
      [{ variableKey := rpm, widgetType := linePlot, multiLinePlotMode := true },
        { variableKey := current, widgetType := text "double.numeric" },
        { variableKey := temperature, widgetType := text "double.numeric" }] ∅,
    .mergeTileIntoPlot rpm current]

/-- Another layout gives the plot the second tile instead, and a live session begins. -/
def dropsAndLoads : List LayoutAction :=
  dropsCurrent ++
    [.loadLayout
        [{ variableKey := rpm, widgetType := linePlot
           linePlotSources := [{ key := temperature }] }]
        {temperature},
      .transport (.startTransport [] .started)]

theorem run_owned_dropsAndLoads :
    ∃ u, run act {} dropsAndLoads = some u ∧ Owned u ∧
      ∃ u', act u (.disbandAllSources rpm) = some u' ∧ Owned u' ∧ Released u u' := by
  have hsafe : EveryStep act Safe {} dropsAndLoads := by decide +kernel
  obtain ⟨u, hrun⟩ : ∃ u, run act {} dropsAndLoads = some u :=
    Option.isSome_iff_exists.mp (by decide +kernel)
  obtain ⟨howned, hnext⟩ := run_owned (blank_initial false ∅ ∅) hsafe hrun
  have hmulti : ∀ u ∈ run act {} dropsAndLoads,
      ∃ tile ∈ u.tiles.find rpm, tile.isMultiLinePlot = true := by
    decide +kernel
  exact ⟨u, hrun, howned, hnext (.disbandAllSources rpm) (hmulti u hrun) trivial⟩

/-- The plot goes, and the tile that it had absorbed stays hidden. -/
theorem removed_plot_hides :
    Blank {} ∧ ∃ u u', run act {} dropsCurrent = some u ∧ act u (.removeWidget rpm) = some u' ∧
      ¬Released u u' := by
  obtain ⟨u, hrun⟩ : ∃ u, run act {} dropsCurrent = some u :=
    Option.isSome_iff_exists.mp (by decide +kernel)
  have hleft : ∀ u ∈ run act {} dropsCurrent, ∃ tile ∈ u.tiles.find current,
      ∃ tile' ∈ (u.removeWidget rpm).tiles.find current, tile'.id = tile.id ∧
        u.plotSourceOwners current ≠ none ∧ (u.removeWidget rpm).plotSourceOwners current = none ∧
        tile'.visible = false ∧ ¬(u.removeWidget rpm).Withheld current := by
    decide +kernel
  refine ⟨blank_initial false ∅ ∅, u, u.removeWidget rpm, hrun, rfl, fun hreleased => ?_⟩
  obtain ⟨tile, htile, tile', htile', hid, howner, hnone, hhidden, hfree⟩ := hleft u hrun
  rcases hreleased current tile tile' htile htile' hid howner hnone with hvisible | hwithheld
  · cases hhidden.symm.trans hvisible
  · exact hfree hwithheld

end SmartDashboard.App.RunBrowser
