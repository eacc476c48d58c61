import SmartDashboard.Camera.CameraDiscovery

/-!
# The aggregator and what it is told

The two maps of the aggregator by what it has from every tag, and what signals make of that. A shown
name is kept under the tag of one provider, so a camera must not be shown as another tag's is.

## Main definitions

- `View`: the cameras the aggregator has, by their tags and names
- `Mirrors`: the maps of the aggregator have just these
- `applySignal`: what a signal makes of the cameras under a tag
- `Follows`: an observer keeps up with the aggregator
-/

namespace SmartDashboard.Camera

open Execution

/-! ### Names -/

theorem makeAggregatedName_name_inj {tag name name' : QString}
    (h : makeAggregatedName tag name = makeAggregatedName tag name') : name = name' := by
  simp only [makeAggregatedName] at h
  split at h
  · exact h
  · exact List.append_cancel_left h

/-- One name under two tags is shown as two. -/
theorem makeAggregatedName_tag_inj {tag tag' name : QString}
    (h : makeAggregatedName tag name = makeAggregatedName tag' name) : tag = tag' := by
  have hlength := congrArg List.length h
  by_cases htag : tag = [] <;> by_cases htag' : tag' = []
  · rw [htag, htag']
  · simp [makeAggregatedName, htag, htag'] at hlength
    omega
  · simp [makeAggregatedName, htag, htag'] at hlength
    omega
  · simp only [makeAggregatedName, htag, htag', if_false, List.append_cancel_right_eq,
      List.cons.injEq, true_and] at h
    exact h

/-- What the aggregator has from every tag: the URLs by the name of the camera. -/
abbrev View := QString → QString → Option QStringList

/-- No two of these cameras under different tags are shown under one name. -/
def Separate (held : QString → QString → Prop) : Prop :=
  ∀ tag name tag' name', held tag name → held tag' name' →
    makeAggregatedName tag name = makeAggregatedName tag' name' → tag = tag'

theorem Separate.eq {held : QString → QString → Prop} (h : Separate held)
    {tag name tag' name' : QString} (hheld : held tag name) (hheld' : held tag' name')
    (heq : makeAggregatedName tag name = makeAggregatedName tag' name') :
    tag' = tag ∧ name' = name := by
  obtain rfl := h tag name tag' name' hheld hheld' heq
  exact ⟨rfl, (makeAggregatedName_name_inj heq).symm⟩

namespace CameraDiscoveryAggregator

variable {ι : Type*} {a : CameraDiscoveryAggregator ι} {view : View}
  {held : QString → QString → Prop} {tag name : QString} {urls : QStringList}

/-- The maps of the aggregator have just what it has from the tags. -/
structure Mirrors (a : CameraDiscoveryAggregator ι) (view : View) : Prop where
  cameras : ∀ key urls, a.cameras.find key = some urls ↔
    ∃ tag name, view tag name = some urls ∧ key = makeAggregatedName tag name
  owner : ∀ key tag, a.cameraOwner.find key = some tag ↔
    ∃ name, (view tag name).isSome ∧ key = makeAggregatedName tag name

/-- A camera under a tag, in place of what was there under that name. -/
def put (view : View) (tag name : QString) (urls : QStringList) : View :=
  Function.update view tag (Function.update (view tag) name (some urls))

theorem put_eq_some {tag' name' : QString} {urls' : QStringList} :
    put view tag name urls tag' name' = some urls' ↔
      (tag' = tag ∧ name' = name ∧ urls' = urls) ∨
        (¬(tag' = tag ∧ name' = name) ∧ view tag' name' = some urls') := by
  by_cases htag : tag' = tag
  · subst htag
    by_cases hname : name' = name
    · subst hname
      simp [put, eq_comm]
    · simp [put, hname]
  · simp [put, htag]

theorem put_isSome {tag' name' : QString} :
    (put view tag name urls tag' name').isSome ↔
      (tag' = tag ∧ name' = name) ∨ (view tag' name').isSome := by
  by_cases htag : tag' = tag
  · subst htag
    by_cases hname : name' = name
    · subst hname
      simp [put]
    · simp [put, hname]
  · simp [put, htag]

/-- A discovered camera that no other tag has under its shown name. -/
theorem Mirrors.discovered (h : a.Mirrors view) (hheld : Separate held)
    (hview : ∀ t n, (view t n).isSome → held t n) (hnew : held tag name) (hurls : urls ≠ []) :
    (a.onProviderCameraDiscovered tag name urls).1.Mirrors (put view tag name urls) := by
  -- whatever the aggregator has under the shown name is this camera
  have honly : ∀ t n, (view t n).isSome → makeAggregatedName tag name = makeAggregatedName t n →
      t = tag ∧ n = name := fun t n hsome heq => hheld.eq hnew (hview t n hsome) heq
  simp only [onProviderCameraDiscovered]
  split
  case isFalse hsame =>
    have hfind : a.cameras.find (makeAggregatedName tag name) = some urls := by
      cases hfind : a.cameras.find (makeAggregatedName tag name) with
      | none => simp [CameraMap.value, hfind, Ne.symm hurls] at hsame
      | some urls' => simpa [CameraMap.value, hfind] using hsame
    obtain ⟨t, n, hview', hkey⟩ := (h.cameras _ _).mp hfind
    obtain ⟨rfl, rfl⟩ := honly t n (Option.isSome_of_eq_some hview') hkey
    rw [put, ← hview', Function.update_eq_self, Function.update_eq_self]
    exact h
  case isTrue =>
    constructor
    · intro key urls'
      rw [CameraMap.set, KeyedMap.find_insertSorted, KeyedMap.find_insert]
      simp only [put_eq_some]
      by_cases hkey : key = makeAggregatedName tag name
      · rw [if_pos hkey, Option.some.injEq]
        constructor
        · rintro rfl
          exact ⟨tag, name, .inl ⟨rfl, rfl, rfl⟩, hkey⟩
        · rintro ⟨t, n, ⟨-, -, rfl⟩ | ⟨hne, hview'⟩, hkey'⟩
          · rfl
          · exact absurd (honly t n (Option.isSome_of_eq_some hview') (hkey.symm.trans hkey')) hne
      · rw [if_neg hkey, h.cameras]
        refine exists₂_congr fun t n => and_congr_left fun hkey' => ?_
        have hne : ¬(t = tag ∧ n = name) := by
          rintro ⟨rfl, rfl⟩
          exact hkey hkey'
        simp [hne, ← and_assoc]
    · intro key tag'
      rw [KeyedMap.find_insertSorted, KeyedMap.find_insert]
      simp only [put_isSome]
      by_cases hkey : key = makeAggregatedName tag name
      · rw [if_pos hkey, Option.some.injEq]
        constructor
        · rintro rfl
          exact ⟨name, .inl ⟨rfl, rfl⟩, hkey⟩
        · rintro ⟨n, ⟨rfl, -⟩ | hsome, hkey'⟩
          · rfl
          · exact (honly tag' n hsome (hkey.symm.trans hkey')).1.symm
      · rw [if_neg hkey, h.owner]
        refine exists_congr fun n => and_congr_left fun hkey' => ?_
        have hne : ¬(tag' = tag ∧ n = name) := by
          rintro ⟨rfl, rfl⟩
          exact hkey hkey'
        rw [or_iff_right hne]

/-! ### A provider that has none any more -/

theorem find_removeKeys (a : CameraDiscoveryAggregator ι) (keys : List QString) (key : QString) :
    (forEach removeKey a keys).1.cameras.find key =
        (if key ∈ keys then none else a.cameras.find key) ∧
      (forEach removeKey a keys).1.cameraOwner.find key =
        if key ∈ keys then none else a.cameraOwner.find key := by
  induction keys generalizing a with
  | nil => simp [forEach]
  | cons key' keys ih =>
    obtain ⟨hcameras, howner⟩ := ih (a.removeKey key').1
    simp only [forEach, after_cons] at hcameras howner ⊢
    rw [hcameras, howner]
    simp only [removeKey, KeyedMap.find_erase, List.mem_cons]
    by_cases hkey : key ∈ keys <;> by_cases hkey' : key = key' <;> simp [hkey, hkey']

theorem onProviderCamerasCleared_fst (a : CameraDiscoveryAggregator ι) (tag : QString) :
    (a.onProviderCamerasCleared tag).1 =
      (forEach removeKey a (a.cameraOwner.keys.filter fun key =>
        a.cameraOwner.find key = some tag)).1 := by
  rw [onProviderCamerasCleared]
  dsimp only
  split <;> rfl

theorem Mirrors.cleared (h : a.Mirrors view) (tag : QString) :
    (a.onProviderCamerasCleared tag).1.Mirrors (Function.update view tag fun _ => none) := by
  have hremoved : ∀ key, key ∈ a.cameraOwner.keys.filter (fun key =>
      a.cameraOwner.find key = some tag) ↔ a.cameraOwner.find key = some tag := by
    intro key
    rw [List.mem_filter, decide_eq_true_eq, and_iff_right_iff_imp]
    exact KeyedMap.mem_keys_of_find
  -- what a tag has is removed just if it is this one
  have hview : ∀ key t n, key = makeAggregatedName t n → (view t n).isSome →
      (a.cameraOwner.find key = some tag ↔ t = tag) := by
    intro key t n hkey hsome
    rw [(h.owner key t).mpr ⟨n, hsome, hkey⟩, Option.some.injEq]
  have hupdate : ∀ key t n, key = makeAggregatedName t n →
      Function.update view tag (fun _ => none) t n =
        if a.cameraOwner.find key = some tag then none else view t n := by
    intro key t n hkey
    cases hsome : view t n with
    | none =>
      by_cases ht : t = tag
      · subst ht
        simp
      · rw [Function.update_of_ne ht, hsome, ite_self]
    | some urls =>
      have hiff := hview key t n hkey (Option.isSome_of_eq_some hsome)
      by_cases ht : t = tag
      · rw [if_pos (hiff.mpr ht), ht, Function.update_self]
      · rw [if_neg (mt hiff.mp ht), Function.update_of_ne ht, hsome]
  rw [onProviderCamerasCleared_fst]
  constructor
  · intro key urls'
    rw [(find_removeKeys ..).1]
    simp only [hremoved]
    refine Iff.trans ?_ (exists₂_congr fun t n => and_congr_left fun hkey => by
      rw [hupdate key t n hkey])
    split
    case isTrue => simp
    case isFalse => exact h.cameras key urls'
  · intro key tag'
    rw [(find_removeKeys ..).2]
    simp only [hremoved]
    refine Iff.trans ?_ (exists_congr fun n => and_congr_left fun hkey => by
      rw [hupdate key tag' n hkey])
    split
    case isTrue => simp
    case isFalse => exact h.owner key tag'

/-! ### Signals -/

/-- What a signal makes of the cameras of a provider. -/
def applySignal (cameras : QString → Option QStringList) :
    SourceSignal → QString → Option QStringList
  | .cameraDiscovered name urls => Function.update cameras name (some urls)
  | .camerasCleared => fun _ => none

/-- The cameras that a signal tells of are held under the tag, with URLs. -/
def Tells (held : QString → QString → Prop) (tag : QString) : SourceSignal → Prop
  | .cameraDiscovered name urls => held tag name ∧ urls ≠ []
  | .camerasCleared => True

theorem applySignal_isSome {cameras : QString → Option QStringList} {signal : SourceSignal}
    (htells : Tells held tag signal) (hcameras : ∀ n, (cameras n).isSome → held tag n) :
    ∀ n, (applySignal cameras signal n).isSome → held tag n := by
  intro n hsome
  cases signal with
  | cameraDiscovered name urls =>
    by_cases hn : n = name
    · exact hn ▸ htells.1
    · rw [applySignal, Function.update_of_ne hn] at hsome
      exact hcameras n hsome
  | camerasCleared => cases hsome

theorem Mirrors.onSignal (h : a.Mirrors view) (hheld : Separate held)
    (hview : ∀ t n, (view t n).isSome → held t n) {signal : SourceSignal}
    (htells : Tells held tag signal) :
    (a.onSignal tag signal).1.Mirrors
      (Function.update view tag (applySignal (view tag) signal)) := by
  cases signal with
  | cameraDiscovered name urls => exact h.discovered hheld hview htells.1 htells.2
  | camerasCleared => exact h.cleared tag

theorem update_isSome {cameras : QString → Option QStringList}
    (hview : ∀ t n, (view t n).isSome → held t n)
    (hcameras : ∀ n, (cameras n).isSome → held tag n) :
    ∀ t n, (Function.update view tag cameras t n).isSome → held t n := by
  intro t n hsome
  by_cases ht : t = tag
  · subst ht
    rw [Function.update_self] at hsome
    exact hcameras n hsome
  · rw [Function.update_of_ne ht] at hsome
    exact hview t n hsome

/-- Signals under one tag, one after the other. -/
theorem Mirrors.forEach_onSignal {α : Type*} (h : a.Mirrors view) (tag : QString)
    (g : α → SourceSignal) (xs : List α) (hheld : Separate held)
    (hview : ∀ t n, (view t n).isSome → held t n) (htells : ∀ x ∈ xs, Tells held tag (g x)) :
    (forEach (fun a x => a.onSignal tag (g x)) a xs).1.Mirrors
      (Function.update view tag ((xs.map g).foldl applySignal (view tag))) := by
  induction xs generalizing a view with
  | nil =>
    rw [List.map_nil, List.foldl_nil, Function.update_eq_self]
    exact h
  | cons x xs ih =>
    rw [List.forall_mem_cons] at htells
    have hcameras := applySignal_isSome htells.1 (hview tag)
    have hrest := ih (h.onSignal hheld hview htells.1) (update_isSome hview hcameras) htells.2
    rw [Function.update_self, Function.update_idem] at hrest
    exact hrest

/-- One signal under several tags. -/
theorem Mirrors.forEach_tags (h : a.Mirrors view) (hheld : Separate held)
    (hview : ∀ t n, (view t n).isSome → held t n) {signal : SourceSignal} {tags : List QString}
    (hnodup : tags.Nodup) (htells : ∀ t ∈ tags, Tells held t signal) :
    (forEach (fun a tag => a.onSignal tag signal) a tags).1.Mirrors fun t =>
      if t ∈ tags then applySignal (view t) signal else view t := by
  induction tags generalizing a view with
  | nil =>
    simp only [List.not_mem_nil, if_false]
    exact h
  | cons tag tags ih =>
    rw [List.forall_mem_cons] at htells
    rw [List.nodup_cons] at hnodup
    have hcameras := applySignal_isSome htells.1 (hview tag)
    have hrest := ih (h.onSignal hheld hview htells.1) (update_isSome hview hcameras) hnodup.2
      htells.2
    refine cast (congrArg _ (funext fun t => ?_)) hrest
    by_cases ht : t = tag
    · subst ht
      simp [hnodup.1]
    · simp [ht]

/-! ### What the slots leave alone, and what they tell -/

/-- The providers stay, and an observer follows the cameras. -/
structure Follows (a : CameraDiscoveryAggregator ι) (answer : Answer ι) : Prop where
  providers : answer.1.providers = a.providers
  observed : answer.2.foldl observe a.cameras = answer.1.cameras

theorem follows_forEach {α : Type*} {call : CameraDiscoveryAggregator ι → α → Answer ι}
    (hcall : ∀ a x, Follows a (call a x)) (a : CameraDiscoveryAggregator ι) (xs : List α) :
    Follows a (forEach call a xs) := by
  induction xs generalizing a with
  | nil => exact ⟨rfl, rfl⟩
  | cons x xs ih =>
    have hfirst := hcall a x
    have hrest := ih (call a x).1
    refine ⟨hrest.providers.trans hfirst.providers, ?_⟩
    rw [forEach, history_cons, List.flatMap_cons, List.foldl_append, hfirst.observed]
    exact hrest.observed

theorem follows_onProviderCameraDiscovered (a : CameraDiscoveryAggregator ι) (tag name : QString)
    (urls : QStringList) : Follows a (a.onProviderCameraDiscovered tag name urls) := by
  simp only [onProviderCameraDiscovered]
  split
  · exact ⟨rfl, rfl⟩
  · exact ⟨rfl, rfl⟩

/-- That there are no cameras any more is told only when there are none. -/
theorem follows_onProviderCamerasCleared (a : CameraDiscoveryAggregator ι) (tag : QString) :
    Follows a (a.onProviderCamerasCleared tag) := by
  have hloop : Follows a (forEach removeKey a (a.cameraOwner.keys.filter fun key =>
      a.cameraOwner.find key = some tag)) :=
    follows_forEach (fun _ _ => ⟨rfl, rfl⟩) a _
  simp only [onProviderCamerasCleared]
  split
  case isTrue hempty =>
    refine ⟨hloop.providers, ?_⟩
    rw [List.foldl_append, List.foldl_cons, List.foldl_nil, observe]
    exact (KeyedMap.eq_empty_of_keys hempty.1).symm
  case isFalse => exact hloop

theorem follows_onSignal (tag : QString) (signal : SourceSignal)
    (a : CameraDiscoveryAggregator ι) : Follows a (a.onSignal tag signal) := by
  cases signal with
  | cameraDiscovered name urls => exact follows_onProviderCameraDiscovered a tag name urls
  | camerasCleared => exact follows_onProviderCamerasCleared a tag

variable [DecidableEq ι]

theorem follows_deliver (source : ι) (a : CameraDiscoveryAggregator ι) (signal : SourceSignal) :
    Follows a (deliver source a signal) :=
  follows_forEach (fun a tag => follows_onSignal tag signal a) a _

/-- Signals of a provider under all of its tags. -/
theorem Mirrors.deliver (h : a.Mirrors view) (source : ι) (signals : List SourceSignal)
    (hheld : Separate held) (hview : ∀ t n, (view t n).isSome → held t n)
    (hnodup : (a.providers.map ProviderEntry.tag).Nodup)
    (htells : ∀ signal ∈ signals, ∀ t ∈ a.tagsOf source, Tells held t signal) :
    (forEach (deliver source) a signals).1.Mirrors fun t =>
      if t ∈ a.tagsOf source then signals.foldl applySignal (view t) else view t := by
  induction signals generalizing a view with
  | nil =>
    simp only [List.foldl_nil, ite_self]
    exact h
  | cons signal signals ih =>
    rw [List.forall_mem_cons] at htells
    have htags : (a.tagsOf source).Nodup :=
      hnodup.sublist (List.filter_sublist.map _)
    have hproviders := (follows_deliver source a signal).providers
    have hsame : (CameraDiscoveryAggregator.deliver source a signal).1.tagsOf source =
        a.tagsOf source := by
      rw [tagsOf, tagsOf, hproviders]
    have hfirst := h.forEach_tags hheld hview htags htells.1
    refine cast (congrArg _ (funext fun t => ?_)) (ih hfirst (fun t n hsome => ?_) ?_ ?_)
    · rw [hsame]
      by_cases ht : t ∈ a.tagsOf source
      · simp only [if_pos ht, List.foldl_cons]
      · simp only [if_neg ht]
    · by_cases ht : t ∈ a.tagsOf source
      · simp only [if_pos ht] at hsome
        exact applySignal_isSome (htells.1 t ht) (hview t) n hsome
      · simp only [if_neg ht] at hsome
        exact hview t n hsome
    · rw [hproviders]
      exact hnodup
    · rw [hsame]
      exact htells.2

end CameraDiscoveryAggregator

end SmartDashboard.Camera
