import SmartDashboard.Camera.CameraMirror
import SmartDashboard.Library.FirstMatch

/-!
# What the aggregator shows

The names that the aggregator shows and the cameras that its providers hold. The two agree as long
as no two providers hold cameras that are shown under one name. What an observer makes of the
signals agrees with the aggregator in any case.

## Main definitions

- `Reports`: what a provider tells is what it has
- `Union`: the shown names, their URLs and the observer's map are those of the providers' cameras
- `Unclashing`: an action adds no camera whose shown name another provider's camera has
-/

namespace SmartDashboard.Camera

open Execution

/-! ### Providers -/

namespace CameraSource

open CameraDiscoveryAggregator (applySignal)

theorem foldl_rediscovered (cameras : CameraMap) (names : List QString)
    (found : QString → Option QStringList) :
    (names.map fun name => SourceSignal.cameraDiscovered name (cameras.value name)).foldl
      applySignal found = fun n => if n ∈ names then some (cameras.value n) else found n := by
  induction names generalizing found with
  | nil => simp
  | cons name names ih =>
    rw [List.map_cons, List.foldl_cons, ih]
    funext n
    by_cases hn : n ∈ names <;> by_cases hn' : n = name <;> simp [applySignal, hn, hn']

/-- A walk over all cameras tells all there is. -/
theorem foldl_rediscovered_keys (cameras : CameraMap) :
    (cameras.keys.map fun name => SourceSignal.cameraDiscovered name (cameras.value name)).foldl
      applySignal (fun _ => none) = cameras.find := by
  rw [foldl_rediscovered]
  funext n
  have hmem := cameras.mem_keys n
  cases hfind : cameras.find n with
  | none => simp [hmem, hfind]
  | some urls => simp [hmem, hfind, CameraMap.value]

/-- What a provider tells is what it has afterwards. -/
structure Reports (cameras : CameraMap) (change : CameraMap × List SourceSignal) : Prop where
  told : change.2.foldl applySignal cameras.find = change.1.find
  held : ∀ name urls, .cameraDiscovered name urls ∈ change.2 → change.1.find name = some urls

theorem reports_same (cameras : CameraMap) : Reports cameras (cameras, []) where
  told := rfl
  held _ _ h := by cases h

theorem reports_discover (cameras : CameraMap) (name : QString) (urls : QStringList) :
    Reports cameras (discover cameras name urls) := by
  rw [discover]
  split
  case isTrue =>
    constructor
    · funext n
      simp [applySignal, CameraMap.set, KeyedMap.find_insert, Function.update_apply]
    · intro name' urls' h
      simp only [List.mem_singleton, SourceSignal.cameraDiscovered.injEq] at h
      obtain ⟨rfl, rfl⟩ := h
      exact KeyedMap.find_insert_self ..
  case isFalse => exact reports_same cameras

theorem reports_addCamera (cameras : CameraMap) (name url : QString) :
    Reports cameras (addCamera cameras name url) := by
  rw [addCamera]
  split
  · exact reports_same cameras
  · exact reports_discover cameras name [url]

theorem reports_removeCamera (cameras : CameraMap) (name : QString) :
    Reports cameras (removeCamera cameras name) := by
  rw [removeCamera]
  split
  case isTrue =>
    refine ⟨foldl_rediscovered_keys (cameras.erase name), fun name' urls h => ?_⟩
    simp only [List.mem_cons, reduceCtorEq, List.mem_map, SourceSignal.cameraDiscovered.injEq,
      false_or] at h
    obtain ⟨n, hn, rfl, rfl⟩ := h
    obtain ⟨urls, hurls⟩ := KeyedMap.exists_find_of_mem_keys hn
    rw [CameraMap.value, hurls]
    rfl
  case isFalse => exact reports_same cameras

theorem reports_clear (cameras : CameraMap) : Reports cameras clear where
  told := rfl
  held _ _ h := by simp [clear] at h

end CameraSource

/-! ### Runs -/

namespace CameraSystem

open CameraDiscoveryAggregator

variable {ι : Type*}

/-- The cameras of the provider under a tag. -/
def view (s : CameraSystem ι) : View := fun tag name =>
  (s.aggregator.providers.find? fun entry => entry.tag = tag).bind fun entry =>
    (s.sources entry.source).find name

/-- A camera of a provider under its tag. -/
def Holds (s : CameraSystem ι) (tag name : QString) : Prop :=
  ∃ entry ∈ s.aggregator.providers, entry.tag = tag ∧ name ∈ (s.sources entry.source).keys

/-- The names shown are those of the providers' cameras, with their URLs, and the observer has
them too. -/
structure Union (s : CameraSystem ι) (observer : CameraMap) : Prop where
  names : ∀ key, key ∈ s.aggregator.getCameraNames ↔
    ∃ entry ∈ s.aggregator.providers, ∃ name ∈ (s.sources entry.source).keys,
      key = makeAggregatedName entry.tag name
  urls : ∀ entry ∈ s.aggregator.providers, ∀ name ∈ (s.sources entry.source).keys,
    s.aggregator.getStreamUrls (makeAggregatedName entry.tag name) =
      (s.sources entry.source).value name
  observed : observer = s.aggregator.cameras

/-- A provider is added under a tag of its own, and cameras have URLs. -/
def Regular (s : CameraSystem ι) : CameraAction ι → Prop
  | .addSource tag _ => tag ∉ s.aggregator.providers.map ProviderEntry.tag
  | .discover _ _ urls => urls ≠ []
  | _ => True

/-- No camera of a provider under another tag is shown as this one is under this tag. -/
def ShownAlone (s : CameraSystem ι) (tag name : QString) : Prop :=
  ∀ entry ∈ s.aggregator.providers, entry.tag ≠ tag → ∀ name' ∈ (s.sources entry.source).keys,
    makeAggregatedName tag name ≠ makeAggregatedName entry.tag name'

/-- An action adds no camera whose shown name is another provider's too. -/
def Unclashing [DecidableEq ι] (s : CameraSystem ι) : CameraAction ι → Prop
  | .addSource tag source =>
    ∀ i ∈ source, ∀ name ∈ (s.sources i).keys, s.ShownAlone tag name
  | .discover source name _ => ∀ tag ∈ s.aggregator.tagsOf source, s.ShownAlone tag name
  | .addCamera source name _ => ∀ tag ∈ s.aggregator.tagsOf source, s.ShownAlone tag name
  | _ => True

instance (s : CameraSystem ι) : DecidablePred s.Regular
  | .addSource tag _ =>
    inferInstanceAs (Decidable (tag ∉ s.aggregator.providers.map ProviderEntry.tag))
  | .discover _ _ urls => inferInstanceAs (Decidable (urls ≠ []))
  | .addCamera .. | .removeCamera .. | .clear .. | .clearAll => isTrue trivial

instance (s : CameraSystem ι) (tag name : QString) : Decidable (s.ShownAlone tag name) :=
  inferInstanceAs (Decidable (∀ entry ∈ s.aggregator.providers, _))

instance [DecidableEq ι] (s : CameraSystem ι) : DecidablePred s.Unclashing
  | .addSource _ source => inferInstanceAs (Decidable (∀ i ∈ source, _))
  | .discover source _ _ | .addCamera source _ _ =>
    inferInstanceAs (Decidable (∀ tag ∈ s.aggregator.tagsOf source, _))
  | .removeCamera .. | .clear .. | .clearAll => isTrue trivial

/-- The invariant: the aggregator mirrors its providers. -/
structure Sound (s : CameraSystem ι) : Prop where
  tags : (s.aggregator.providers.map ProviderEntry.tag).Nodup
  urls : ∀ i name urls, (s.sources i).find name = some urls → urls ≠ []
  separate : Separate s.Holds
  mirrors : s.aggregator.Mirrors s.view

variable {s : CameraSystem ι}

theorem view_of_mem (htags : (s.aggregator.providers.map ProviderEntry.tag).Nodup)
    {entry : ProviderEntry ι} (hentry : entry ∈ s.aggregator.providers) :
    s.view entry.tag = (s.sources entry.source).find := by
  funext name
  rw [view, FirstMatch.find?_eq_some_of_mem htags hentry, Option.bind_some]

/-- What the aggregator has from a tag is held under it. -/
theorem exists_of_view {tag name : QString} {urls : QStringList} (h : s.view tag name = some urls) :
    ∃ entry ∈ s.aggregator.providers, entry.tag = tag ∧
      (s.sources entry.source).find name = some urls := by
  obtain ⟨entry, hentry, hfind⟩ := Option.bind_eq_some_iff.mp h
  exact ⟨entry, List.mem_of_find?_eq_some hentry, by simpa using List.find?_some hentry, hfind⟩

theorem holds_of_view {tag name : QString} (h : (s.view tag name).isSome) : s.Holds tag name := by
  obtain ⟨urls, hurls⟩ := Option.isSome_iff_exists.mp h
  obtain ⟨entry, hentry, rfl, hfind⟩ := exists_of_view hurls
  exact ⟨entry, hentry, rfl, KeyedMap.mem_keys_of_find hfind⟩

theorem view_of_notMem {tag : QString} (h : tag ∉ s.aggregator.providers.map ProviderEntry.tag) :
    s.view tag = fun _ => none := by
  funext name
  cases hview : s.view tag name with
  | none => rfl
  | some urls =>
    obtain ⟨entry, hentry, rfl, -⟩ := exists_of_view hview
    exact absurd (List.mem_map_of_mem hentry) h

/-- A view with the providers' cameras under their tags, and nothing else, is the system's. -/
theorem view_eq {view' : View} (htags : (s.aggregator.providers.map ProviderEntry.tag).Nodup)
    (hmem : ∀ entry ∈ s.aggregator.providers,
      view' entry.tag = (s.sources entry.source).find)
    (hother : ∀ tag, tag ∉ s.aggregator.providers.map ProviderEntry.tag →
      view' tag = fun _ => none) : view' = s.view := by
  funext tag
  by_cases htag : tag ∈ s.aggregator.providers.map ProviderEntry.tag
  · obtain ⟨entry, hentry, rfl⟩ := List.mem_map.mp htag
    rw [hmem entry hentry, view_of_mem htags hentry]
  · rw [hother tag htag, view_of_notMem htag]

theorem Sound.union (h : s.Sound) : s.Union s.aggregator.cameras where
  names key := by
    rw [getCameraNames, KeyedMap.mem_keys, Option.isSome_iff_exists]
    constructor
    · rintro ⟨urls, hurls⟩
      obtain ⟨tag, name, hview, rfl⟩ := (h.mirrors.cameras key urls).mp hurls
      obtain ⟨entry, hentry, rfl, hfind⟩ := exists_of_view hview
      exact ⟨entry, hentry, name, KeyedMap.mem_keys_of_find hfind, rfl⟩
    · rintro ⟨entry, hentry, name, hname, rfl⟩
      obtain ⟨urls, hurls⟩ := KeyedMap.exists_find_of_mem_keys hname
      rw [← view_of_mem h.tags hentry] at hurls
      exact ⟨urls, (h.mirrors.cameras _ urls).mpr ⟨entry.tag, name, hurls, rfl⟩⟩
  urls entry hentry name hname := by
    obtain ⟨urls, hurls⟩ := KeyedMap.exists_find_of_mem_keys hname
    have hview := hurls
    rw [← view_of_mem h.tags hentry] at hview
    have hfind := (h.mirrors.cameras _ urls).mpr ⟨entry.tag, name, hview, rfl⟩
    rw [getStreamUrls, CameraMap.value, CameraMap.value, hfind, hurls]
  observed := rfl

/-- The cameras that are held, and one more under tags under which it is shown alone. -/
theorem Sound.separate_insert (h : s.Sound) (tags : List QString) (name : QString) :
    Separate fun t n => s.Holds t n ∨ t ∈ tags ∧ n = name ∧ s.ShownAlone t name := by
  rintro t n t' n' (hold | ⟨-, rfl, halone⟩) (hold' | ⟨-, rfl, halone'⟩) heq
  · exact h.separate t n t' n' hold hold' heq
  · by_contra hne
    obtain ⟨entry, hentry, rfl, hn⟩ := hold
    exact halone' entry hentry hne n hn heq.symm
  · by_contra hne
    obtain ⟨entry, hentry, rfl, hn'⟩ := hold'
    exact halone entry hentry (Ne.symm hne) n' hn' heq
  · exact makeAggregatedName_tag_inj heq

/-! ### Adding a provider -/

theorem follows_addSource (s : CameraSystem ι) (tag : QString) (source : ι) :
    Follows
      { s.aggregator with
        providers := s.aggregator.providers ++ [{ tag := tag, source := source }] }
      ((s.addSource tag source).1.aggregator, (s.addSource tag source).2) :=
  follows_forEach (fun a _ => follows_onProviderCameraDiscovered a tag _ _) _ _

/-- A provider that is added under a new tag is heard of with all that it has. -/
theorem Sound.addSource (h : s.Sound) {tag : QString} {source : ι}
    (htag : tag ∉ s.aggregator.providers.map ProviderEntry.tag)
    (halone : ∀ name ∈ (s.sources source).keys, s.ShownAlone tag name) :
    (s.addSource tag source).1.Sound := by
  let added : CameraDiscoveryAggregator ι :=
    { s.aggregator with providers := s.aggregator.providers ++ [{ tag := tag, source := source }] }
  have hproviders : (s.addSource tag source).1.aggregator.providers =
      s.aggregator.providers ++ [{ tag := tag, source := source }] :=
    (follows_addSource s tag source).providers
  have htags : ((s.addSource tag source).1.aggregator.providers.map ProviderEntry.tag).Nodup := by
    rw [hproviders, List.map_append, List.map_singleton, ← List.concat_eq_append]
    exact h.tags.concat htag
  have hholds : ∀ t n, (s.addSource tag source).1.Holds t n ↔
      s.Holds t n ∨ t = tag ∧ n ∈ (s.sources source).keys := by
    intro t n
    simp only [Holds, hproviders, List.mem_append, List.mem_singleton, or_and_right, exists_or,
      exists_eq_left, eq_comm (a := tag)]
    rfl
  have hseparate : Separate (s.addSource tag source).1.Holds := by
    intro t n t' n' hold hold' heq
    rw [hholds] at hold hold'
    by_contra hne
    rcases hold with hold | ⟨rfl, hn⟩
    · rcases hold' with hold' | ⟨rfl, hn'⟩
      · exact hne (h.separate t n t' n' hold hold' heq)
      · obtain ⟨entry, hentry, rfl, hn⟩ := hold
        exact halone n' hn' entry hentry hne n hn heq.symm
    · rcases hold' with ⟨entry, hentry, rfl, hn'⟩ | ⟨rfl, -⟩
      · exact halone n hn entry hentry (Ne.symm hne) n' hn' heq
      · exact hne rfl
  have hadded : added.Mirrors s.view := ⟨h.mirrors.cameras, h.mirrors.owner⟩
  have hmirrors := hadded.forEach_onSignal tag
    (fun name => .cameraDiscovered name ((s.sources source).value name)) (s.sources source).keys
    hseparate (fun t n hsome => (hholds t n).mpr (.inl (holds_of_view hsome))) (by
      intro n hn
      obtain ⟨urls, hurls⟩ := KeyedMap.exists_find_of_mem_keys hn
      refine ⟨(hholds tag n).mpr (.inr ⟨rfl, hn⟩), ?_⟩
      rw [CameraMap.value, hurls]
      exact h.urls source n urls hurls)
  rw [view_of_notMem htag, CameraSource.foldl_rediscovered_keys] at hmirrors
  refine ⟨htags, h.urls, hseparate, ?_⟩
  refine cast (congrArg _ (view_eq htags (fun entry hentry => ?_) fun t ht => ?_)) hmirrors
  · rw [hproviders, List.mem_append, List.mem_singleton] at hentry
    rcases hentry with hentry | rfl
    · have hne : entry.tag ≠ tag := by
        rintro rfl
        exact htag (List.mem_map_of_mem hentry)
      rw [Function.update_of_ne hne]
      exact view_of_mem h.tags hentry
    · exact Function.update_self ..
  · rw [hproviders, List.map_append, List.mem_append, not_or] at ht
    have hne : t ≠ tag := by simpa using ht.2
    rw [Function.update_of_ne hne]
    exact view_of_notMem ht.1

theorem sound_initial {sources : ι → CameraMap}
    (hsources : ∀ i name urls, (sources i).find name = some urls → urls ≠ []) :
    Sound { sources := sources } where
  tags := List.nodup_nil
  urls := hsources
  separate := by
    rintro _ _ _ _ ⟨_, hentry, -⟩
    cases hentry
  mirrors := by
    constructor
    · intro key urls
      simp [view]
    · intro key tag
      simp [view]

/-! ### One action -/

variable [DecidableEq ι]

theorem mem_tagsOf {a : CameraDiscoveryAggregator ι} {source : ι} {tag : QString} :
    tag ∈ a.tagsOf source ↔ ∃ entry ∈ a.providers, entry.source = source ∧ entry.tag = tag := by
  simp only [tagsOf, List.mem_map, List.mem_filter, decide_eq_true_eq, and_assoc]

theorem emit_sources (s : CameraSystem ι) (source : ι) (change : CameraMap × List SourceSignal) :
    (s.emit source change).1.sources = Function.update s.sources source change.1 := rfl

theorem follows_emit (s : CameraSystem ι) (source : ι) (change : CameraMap × List SourceSignal) :
    Follows s.aggregator ((s.emit source change).1.aggregator, (s.emit source change).2) :=
  follows_forEach (follows_deliver source) s.aggregator change.2

theorem emit_providers (s : CameraSystem ι) (source : ι) (change : CameraMap × List SourceSignal) :
    (s.emit source change).1.aggregator.providers = s.aggregator.providers :=
  (s.follows_emit source change).providers

/-- A provider that adds at most one camera, which is shown alone. -/
theorem Sound.emit (h : s.Sound) {source : ι} {change : CameraMap × List SourceSignal}
    (hreports : CameraSource.Reports (s.sources source) change)
    (hurls : ∀ name urls, change.1.find name = some urls → urls ≠ [])
    (hadded : ∃ name, ∀ n ∈ change.1.keys, n ∈ (s.sources source).keys ∨
      n = name ∧ ∀ tag ∈ s.aggregator.tagsOf source, s.ShownAlone tag name) :
    (s.emit source change).1.Sound := by
  obtain ⟨name, hadded⟩ := hadded
  have hproviders := s.emit_providers source change
  let held : QString → QString → Prop := fun t n => s.Holds t n ∨
    t ∈ s.aggregator.tagsOf source ∧ n = name ∧ s.ShownAlone t name
  have hseparate : Separate held := h.separate_insert _ name
  have hheld : ∀ t ∈ s.aggregator.tagsOf source, ∀ n ∈ change.1.keys, held t n := by
    intro t ht n hn
    rcases hadded n hn with hold | ⟨rfl, halone⟩
    · obtain ⟨entry, hentry, rfl, rfl⟩ := mem_tagsOf.mp ht
      exact .inl ⟨entry, hentry, rfl, hold⟩
    · exact .inr ⟨ht, rfl, halone t ht⟩
  have hmirrors := h.mirrors.deliver source change.2 hseparate
    (fun t n hsome => .inl (holds_of_view hsome)) h.tags (by
      intro signal hsignal t ht
      cases signal with
      | camerasCleared => exact trivial
      | cameraDiscovered n urls =>
        have hfind := hreports.held n urls hsignal
        exact ⟨hheld t ht n (KeyedMap.mem_keys_of_find hfind), hurls n urls hfind⟩)
  refine ⟨?_, fun i n urls hfind => ?_, ?_, ?_⟩
  · rw [hproviders]
    exact h.tags
  · by_cases hi : i = source
    · subst hi
      rw [emit_sources, Function.update_self] at hfind
      exact hurls n urls hfind
    · rw [emit_sources, Function.update_of_ne hi] at hfind
      exact h.urls i n urls hfind
  · have hsub : ∀ t n, (s.emit source change).1.Holds t n → held t n := by
      rintro t n ⟨entry, hentry, rfl, hn⟩
      rw [hproviders] at hentry
      by_cases hi : entry.source = source
      · rw [emit_sources, hi, Function.update_self] at hn
        exact hheld entry.tag (mem_tagsOf.mpr ⟨entry, hentry, hi, rfl⟩) n hn
      · rw [emit_sources, Function.update_of_ne hi] at hn
        exact .inl ⟨entry, hentry, rfl, hn⟩
    exact fun t n t' n' hold hold' => hseparate t n t' n' (hsub t n hold) (hsub t' n' hold')
  · refine cast (congrArg _ (view_eq ?_ (fun entry hentry => ?_) fun tag htag => ?_)) hmirrors
    · rw [hproviders]
      exact h.tags
    · rw [hproviders] at hentry
      by_cases hi : entry.source = source
      · rw [if_pos (mem_tagsOf.mpr ⟨entry, hentry, hi, rfl⟩), view_of_mem h.tags hentry, hi,
          hreports.told, emit_sources, Function.update_self]
      · have hnot : entry.tag ∉ s.aggregator.tagsOf source := by
          rw [mem_tagsOf]
          rintro ⟨other, hother, hsource, htag⟩
          have hsame := List.inj_on_of_nodup_map h.tags hother hentry htag
          exact hi (hsame ▸ hsource)
        rw [if_neg hnot, view_of_mem h.tags hentry, emit_sources, Function.update_of_ne hi]
    · rw [hproviders] at htag
      have hnot : tag ∉ s.aggregator.tagsOf source := by
        rw [mem_tagsOf]
        rintro ⟨entry, hentry, -, rfl⟩
        exact htag (List.mem_map_of_mem hentry)
      rw [if_neg hnot, view_of_notMem htag]

/-- After the loop of `ClearAll` the providers have no cameras. -/
theorem after_clearSource (s : CameraSystem ι) (entries : List (ProviderEntry ι)) :
    let cleared := after (fun (s : CameraSystem ι) entry =>
      s.emit entry.source CameraSource.clear) s entries
    cleared.aggregator.providers = s.aggregator.providers ∧
      ∀ i, cleared.sources i = if i ∈ entries.map ProviderEntry.source then .empty
        else s.sources i := by
  induction entries generalizing s with
  | nil => simp
  | cons entry entries ih =>
    obtain ⟨hproviders, hsources⟩ := ih (s.emit entry.source CameraSource.clear).1
    refine ⟨hproviders.trans (s.emit_providers _ _), fun i => ?_⟩
    rw [after_cons, hsources, emit_sources, List.map_cons]
    by_cases hi : i ∈ entries.map ProviderEntry.source
    · simp [hi]
    · by_cases hi' : i = entry.source
      · subst hi'
        simp [hi, CameraSource.clear]
      · simp [hi, hi']

theorem Sound.clearAll (h : s.Sound) : s.clearAll.1.Sound := by
  obtain ⟨hproviders, hsources⟩ := after_clearSource
    { s with aggregator := { s.aggregator with clearingAll := true } } s.aggregator.providers
  have hempty : ∀ entry ∈ s.clearAll.1.aggregator.providers,
      s.clearAll.1.sources entry.source = .empty := by
    intro entry hentry
    have hentry : entry ∈ s.aggregator.providers := hproviders ▸ hentry
    exact (hsources entry.source).trans (if_pos (List.mem_map_of_mem hentry))
  have htags : (s.clearAll.1.aggregator.providers.map ProviderEntry.tag).Nodup := by
    refine Eq.mpr (congrArg (fun l => (l.map ProviderEntry.tag).Nodup) hproviders) h.tags
  have hview : (fun _ _ => none : View) = s.clearAll.1.view := by
    refine view_eq htags (fun entry hentry => ?_) fun _ _ => rfl
    rw [hempty entry hentry]
    rfl
  refine ⟨htags, fun i name urls hfind => ?_, ?_, ?_⟩
  · have hfind' := (congrArg (fun cameras : CameraMap => cameras.find name) (hsources i)).symm.trans
      hfind
    split at hfind'
    case isTrue => cases hfind'
    case isFalse => exact h.urls i name urls hfind'
  · rintro t n t' n' ⟨entry, hentry, -, hn⟩
    rw [hempty entry hentry] at hn
    cases hn
  · rw [← hview]
    constructor
    · intro key urls
      simp [CameraSystem.clearAll]
    · intro key tag
      simp [CameraSystem.clearAll]

/-- What an observer makes of the signals of one action. -/
theorem foldl_observe_step (s : CameraSystem ι) (action : CameraAction ι) :
    (s.step action).2.foldl observe s.aggregator.cameras =
      (s.step action).1.aggregator.cameras := by
  cases action with
  | addSource tag source =>
    cases source with
    | none => rfl
    | some source => exact (s.follows_addSource tag source).observed
  | discover => exact (s.follows_emit _ _).observed
  | addCamera => exact (s.follows_emit _ _).observed
  | removeCamera => exact (s.follows_emit _ _).observed
  | clear source => exact (s.follows_emit source CameraSource.clear).observed
  | clearAll => exact List.foldl_append ..

/-- A camera that is discovered anew adds its name at most. -/
theorem Sound.discover (h : s.Sound) {source : ι} {name : QString} {urls : QStringList}
    (hurls : urls ≠ [])
    (halone : ∀ tag ∈ s.aggregator.tagsOf source, s.ShownAlone tag name) :
    (s.emit source (CameraSource.discover (s.sources source) name urls)).1.Sound := by
  refine h.emit (CameraSource.reports_discover ..) (fun n urls' hfind => ?_)
    ⟨name, fun n hn => ?_⟩
  · rw [CameraSource.discover] at hfind
    split at hfind
    case isTrue =>
      rw [CameraMap.set, KeyedMap.find_insertSorted, KeyedMap.find_insert] at hfind
      split at hfind
      · exact Option.some.inj hfind ▸ hurls
      · exact h.urls source n urls' hfind
    case isFalse => exact h.urls source n urls' hfind
  · rw [CameraSource.discover] at hn
    split at hn
    case isTrue =>
      rw [CameraMap.set, KeyedMap.mem_keys, KeyedMap.find_insertSorted, KeyedMap.find_insert] at hn
      split at hn
      case isTrue hname => exact .inr ⟨hname, halone⟩
      case isFalse => exact .inl ((KeyedMap.mem_keys _ n).mpr hn)
    case isFalse => exact .inl hn

/-- A change that adds no camera and tells of none that has no URLs. -/
theorem Sound.emit_of_le (h : s.Sound) {source : ι} {change : CameraMap × List SourceSignal}
    (hreports : CameraSource.Reports (s.sources source) change)
    (hle : ∀ name urls, change.1.find name = some urls →
      (s.sources source).find name = some urls) :
    (s.emit source change).1.Sound := by
  refine h.emit hreports (fun name urls hfind => h.urls source name urls (hle name urls hfind))
    ⟨[], fun n hn => .inl ?_⟩
  obtain ⟨urls, hurls⟩ := KeyedMap.exists_find_of_mem_keys hn
  exact KeyedMap.mem_keys_of_find (hle n urls hurls)

theorem Sound.step (h : s.Sound) {action : CameraAction ι} (hregular : s.Regular action)
    (hclash : s.Unclashing action) : (s.step action).1.Sound := by
  cases action with
  | addSource tag source =>
    cases source with
    | none => exact h
    | some source => exact h.addSource hregular (hclash source rfl)
  | discover source name urls => exact h.discover hregular hclash
  | addCamera source name url =>
    by_cases hempty : name = [] ∨ url = []
    · have hsame : CameraSource.addCamera (s.sources source) name url = (s.sources source, []) :=
        if_pos hempty
      have hsound := h.emit_of_le (CameraSource.reports_same (s.sources source)) fun _ _ => id
      rwa [CameraSystem.step, hsame]
    · have hadd : CameraSource.addCamera (s.sources source) name url =
          CameraSource.discover (s.sources source) name [url] := if_neg hempty
      have hsound := h.discover (List.cons_ne_nil url []) hclash
      rwa [CameraSystem.step, hadd]
  | removeCamera source name =>
    refine h.emit_of_le (CameraSource.reports_removeCamera ..) fun n urls hfind => ?_
    rw [CameraSource.removeCamera] at hfind
    split at hfind
    case isTrue =>
      rw [KeyedMap.find_erase] at hfind
      exact (Option.ite_none_left_eq_some.mp hfind).2
    case isFalse => exact hfind
  | clear source =>
    refine h.emit_of_le (CameraSource.reports_clear _) fun n urls hfind => ?_
    cases hfind
  | clearAll => exact h.clearAll

/-- What an observer makes of the signals of a run. -/
theorem foldl_observe_history (s : CameraSystem ι) (actions : List (CameraAction ι)) :
    ((history step s actions).flatMap Record.output).foldl observe s.aggregator.cameras =
      (after step s actions).aggregator.cameras := by
  induction actions generalizing s with
  | nil => rfl
  | cons action actions ih =>
    rw [history_cons, List.flatMap_cons, List.foldl_append, foldl_observe_step]
    exact ih (s.step action).1

/-- As long as no shown name is added a second time, the aggregator and its observers have just the
cameras of the providers. -/
theorem run_union {sources : ι → CameraMap}
    (hsources : ∀ i name urls, (sources i).find name = some urls → urls ≠ [])
    {actions : List (CameraAction ι)}
    (hregular : ∀ r ∈ history step { sources := sources } actions, r.before.Regular r.input)
    (hclash : ∀ r ∈ history step { sources := sources } actions, r.before.Unclashing r.input) :
    (after step { sources := sources } actions).Union
      (((history step { sources := sources } actions).flatMap Record.output).foldl observe
        .empty) := by
  have hsound : (after step { sources := sources } actions).Sound :=
    after_induction_history (fun r hr h => h.step (hregular r hr) (hclash r hr))
      (sound_initial hsources)
  have hobserved := foldl_observe_history { sources := sources } actions
  exact hobserved ▸ hsound.union

/-- A published camera `A` and a static camera `B`, which is removed again; `S` is the tag of the
static ones. -/
def twoProviders : List (CameraAction Bool) :=
  [.addSource [] (some false), .addSource [0x53] (some true),
    .discover false [0x41] [[0x68]], .addCamera true [0x42] [0x69], .removeCamera true [0x42]]

theorem twoProviders_union :
    (after step { sources := fun _ => .empty } twoProviders).Union
      (((history step { sources := fun _ => .empty } twoProviders).flatMap Record.output).foldl
        observe .empty) :=
  run_union (by rintro _ _ _ ⟨⟩) (by decide +kernel) (by decide +kernel)

/-- A published camera `[S] B` and a static camera `B`, which is removed again. -/
def oneShownName : List (CameraAction Bool) :=
  [.addSource [] (some false), .addSource [0x53] (some true),
    .discover false [0x5B, 0x53, 0x5D, 0x20, 0x42] [[0x68]], .addCamera true [0x42] [0x69],
    .removeCamera true [0x42]]

theorem oneShownName_not_union :
    (∀ r ∈ history step { sources := fun _ => .empty } oneShownName, r.before.Regular r.input) ∧
      ¬(after step { sources := fun _ => .empty } oneShownName).Union
        (((history step { sources := fun _ => .empty } oneShownName).flatMap Record.output).foldl
          observe .empty) := by
  refine ⟨by decide +kernel, fun h => ?_⟩
  -- the published camera is there and not shown
  have hshown := (h.names [0x5B, 0x53, 0x5D, 0x20, 0x42]).mpr
    ⟨{ tag := [], source := false }, by decide +kernel, [0x5B, 0x53, 0x5D, 0x20, 0x42],
      by decide +kernel, by decide⟩
  revert hshown
  decide +kernel

end CameraSystem

end SmartDashboard.Camera
