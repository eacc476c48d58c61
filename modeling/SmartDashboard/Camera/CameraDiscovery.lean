import SmartDashboard.Library.Execution
import SmartDashboard.Library.KeyedMap

/-!
# Camera discovery

The providers of cameras and the aggregator that merges them under the names it shows. A provider
tells of a camera or that it has none any more; the aggregator keeps for every name that it shows
the URLs and the tag of the provider it has them from, and tells its observers in turn.

A provider has one connection for every tag it was added under. Its signals, and the aggregator's,
are delivered at once. Settings are not modelled, so a provider starts with the cameras it is given.

## Main definitions

- `CameraSource`: what a provider does with its cameras, and the signals that it emits
- `CameraDiscoveryAggregator`: the aggregator with the slots that its providers reach
- `CameraSystem`, `step`: the providers and the aggregator
- `observe`: an observer of the aggregator's signals
-/

namespace SmartDashboard.Camera

open Execution

/-- UTF-16 code units. -/
abbrev QString := List UInt16

abbrev QStringList := List QString

/-- `QMap<QString, QStringList>`: the keys are in order. -/
abbrev CameraMap := KeyedMap QString QStringList

namespace CameraMap

/-- `value`, with an empty list for a key that is not there. -/
def value (cameras : CameraMap) (name : QString) : QStringList := (cameras.find name).getD []

def set (cameras : CameraMap) (name : QString) (urls : QStringList) : CameraMap :=
  cameras.insertSorted (· ≤ ·) name urls

end CameraMap

/-- `[%1] %2`, or just the name for an empty tag. -/
def makeAggregatedName (tag name : QString) : QString :=
  if tag = [] then name else 0x5B :: tag ++ [0x5D, 0x20] ++ name

/-- What a provider tells the aggregator. -/
inductive SourceSignal
  | cameraDiscovered (name : QString) (urls : QStringList)
  | camerasCleared
  deriving DecidableEq, Repr

/-- What the aggregator tells its observers. -/
inductive AggregatorSignal
  | cameraDiscovered (name : QString) (urls : QStringList)
  | cameraRemoved (name : QString)
  | camerasCleared
  deriving DecidableEq, Repr

/-! ### Providers -/

namespace CameraSource

/-- A camera with the URLs that were published for it, as `CameraPublisherDiscovery` takes it. -/
def discover (cameras : CameraMap) (name : QString) (urls : QStringList) :
    CameraMap × List SourceSignal :=
  if cameras.value name ≠ urls then (cameras.set name urls, [.cameraDiscovered name urls])
  else (cameras, [])

def addCamera (cameras : CameraMap) (name url : QString) : CameraMap × List SourceSignal :=
  if name = [] ∨ url = [] then (cameras, []) else discover cameras name [url]

/-- The other cameras are discovered again. -/
def removeCamera (cameras : CameraMap) (name : QString) : CameraMap × List SourceSignal :=
  if (cameras.find name).isSome then
    let cameras : CameraMap := cameras.erase name
    (cameras, .camerasCleared :: cameras.keys.map fun name =>
      .cameraDiscovered name (cameras.value name))
  else (cameras, [])

def clear : CameraMap × List SourceSignal := (.empty, [.camerasCleared])

end CameraSource

/-! ### The aggregator -/

structure ProviderEntry (ι : Type*) where
  tag : QString
  source : ι
  deriving DecidableEq

structure CameraDiscoveryAggregator (ι : Type*) where
  providers : List (ProviderEntry ι) := []
  cameras : CameraMap := .empty
  cameraOwner : KeyedMap QString QString := .empty
  clearingAll : Bool := false

namespace CameraDiscoveryAggregator

variable {ι : Type*}

def getCameraNames (aggregator : CameraDiscoveryAggregator ι) : QStringList :=
  aggregator.cameras.keys

def getStreamUrls (aggregator : CameraDiscoveryAggregator ι) (aggregatedName : QString) :
    QStringList :=
  aggregator.cameras.value aggregatedName

abbrev Answer (ι : Type*) := CameraDiscoveryAggregator ι × List AggregatorSignal

/-- A loop of calls, with the signals of all of them. -/
def forEach {α : Type*} (call : CameraDiscoveryAggregator ι → α → Answer ι)
    (aggregator : CameraDiscoveryAggregator ι) (arguments : List α) : Answer ι :=
  (after call aggregator arguments, (history call aggregator arguments).flatMap Record.output)

def onProviderCameraDiscovered (aggregator : CameraDiscoveryAggregator ι) (tag name : QString)
    (urls : QStringList) : Answer ι :=
  let aggregatedName := makeAggregatedName tag name
  if aggregator.cameras.value aggregatedName ≠ urls then
    ({ aggregator with
        cameras := aggregator.cameras.set aggregatedName urls
        cameraOwner := aggregator.cameraOwner.insertSorted (· ≤ ·) aggregatedName tag },
      [.cameraDiscovered aggregatedName urls])
  else (aggregator, [])

def removeKey (aggregator : CameraDiscoveryAggregator ι) (key : QString) : Answer ι :=
  ({ aggregator with
      cameras := aggregator.cameras.erase key
      cameraOwner := aggregator.cameraOwner.erase key },
    [.cameraRemoved key])

def onProviderCamerasCleared (aggregator : CameraDiscoveryAggregator ι) (tag : QString) :
    Answer ι :=
  let toRemove := aggregator.cameraOwner.keys.filter fun key =>
    aggregator.cameraOwner.find key = some tag
  let (aggregator, signals) := forEach removeKey aggregator toRemove
  if aggregator.cameras.keys = [] ∧ aggregator.clearingAll = false then
    (aggregator, signals ++ [.camerasCleared])
  else (aggregator, signals)

/-- The slot of a connection, with the tag that it captured. -/
def onSignal (aggregator : CameraDiscoveryAggregator ι) (tag : QString) : SourceSignal → Answer ι
  | .cameraDiscovered name urls => aggregator.onProviderCameraDiscovered tag name urls
  | .camerasCleared => aggregator.onProviderCamerasCleared tag

/-- The tags of the connections of a provider. -/
def tagsOf [DecidableEq ι] (aggregator : CameraDiscoveryAggregator ι) (source : ι) :
    List QString :=
  (aggregator.providers.filter fun entry => entry.source = source).map ProviderEntry.tag

/-- A signal of a provider reaches all of its connections. -/
def deliver [DecidableEq ι] (source : ι) (aggregator : CameraDiscoveryAggregator ι)
    (signal : SourceSignal) : Answer ι :=
  forEach (fun aggregator tag => aggregator.onSignal tag signal) aggregator
    (aggregator.tagsOf source)

end CameraDiscoveryAggregator

/-! ### Providers and aggregator -/

structure CameraSystem (ι : Type*) where
  sources : ι → CameraMap := fun _ => .empty
  aggregator : CameraDiscoveryAggregator ι := {}

inductive CameraAction (ι : Type*)
  | addSource (tag : QString) (source : Option ι)
  | discover (source : ι) (name : QString) (urls : QStringList)
  | addCamera (source : ι) (name url : QString)
  | removeCamera (source : ι) (name : QString)
  | clear (source : ι)
  | clearAll
  deriving DecidableEq

namespace CameraSystem

open CameraDiscoveryAggregator

variable {ι : Type*} [DecidableEq ι]

abbrev Answer (ι : Type*) := CameraSystem ι × List AggregatorSignal

/-- A provider changes and emits. -/
def emit (s : CameraSystem ι) (source : ι) (change : CameraMap × List SourceSignal) :
    Answer ι :=
  let (aggregator, signals) := forEach (deliver source) s.aggregator change.2
  ({ sources := Function.update s.sources source change.1, aggregator := aggregator }, signals)

def addSource (s : CameraSystem ι) (tag : QString) (source : ι) : Answer ι :=
  let aggregator :=
    { s.aggregator with providers := s.aggregator.providers ++ [{ tag := tag, source := source }] }
  let (aggregator, signals) := forEach
    (fun aggregator name =>
      aggregator.onProviderCameraDiscovered tag name ((s.sources source).value name))
    aggregator (s.sources source).keys
  ({ s with aggregator := aggregator }, signals)

def clearAll (s : CameraSystem ι) : Answer ι :=
  let s := { s with aggregator := { s.aggregator with clearingAll := true } }
  let clearSource (s : CameraSystem ι) (entry : ProviderEntry ι) : Answer ι :=
    s.emit entry.source CameraSource.clear
  let providers := s.aggregator.providers
  let cleared := after clearSource s providers
  ({ cleared with
      aggregator :=
        { cleared.aggregator with
          clearingAll := false
          cameras := .empty
          cameraOwner := .empty } },
    (history clearSource s providers).flatMap Record.output ++ [.camerasCleared])

def step (s : CameraSystem ι) : CameraAction ι → Answer ι
  | .addSource tag source =>
    match source with
    | none => (s, [])
    | some source => s.addSource tag source
  | .discover source name urls =>
    s.emit source (CameraSource.discover (s.sources source) name urls)
  | .addCamera source name url =>
    s.emit source (CameraSource.addCamera (s.sources source) name url)
  | .removeCamera source name =>
    s.emit source (CameraSource.removeCamera (s.sources source) name)
  | .clear source => s.emit source CameraSource.clear
  | .clearAll => s.clearAll

end CameraSystem

/-- An observer that keeps a map of its own. -/
def observe (cameras : CameraMap) : AggregatorSignal → CameraMap
  | .cameraDiscovered name urls => cameras.set name urls
  | .cameraRemoved name => cameras.erase name
  | .camerasCleared => .empty

end SmartDashboard.Camera
