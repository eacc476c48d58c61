import SmartDashboard.Camera.FrameExtraction

/-!
# The camera dock and its stream

The dock of the camera viewer and the stream source it owns. The source tells the dock of every
change of its state, and the dock acts on it before the source goes on: an error arms the reconnect
timer, and the source stops in the same call. A connect keeps the URL, less its `mjpg:` prefix, for
the timer.

What the URL field and the combo box hold when Connect is clicked are inputs of the click, and so
are the header and the bytes of a reply when data arrives. Labels and buttons are left out.

## Main definitions

- `StreamSource`, `CameraViewerDock`: the two state machines
- `DockEvent`, `CameraViewerDock.step`: what the user, the transport, the timer and the network do;
  the answer is the URLs that the source is started with
- `CameraViewerDock.Connected`: what holds after a connect, as long as nobody disconnects

## Main results

- `quiet_after_disconnect`: after a disconnect nothing is started until somebody connects
- `reconnects_after_end`: a stream that ends by itself is started again
-/

namespace SmartDashboard.Camera

open Execution

/-- `CameraStreamSource::State`. -/
inductive StreamState
  | disconnected
  | connecting
  | streaming
  | error
  deriving DecidableEq, Repr

/-- The stream source; `reply` is the URL of the request that is running. -/
structure StreamSource where
  state : StreamState := .disconnected
  reply : Option QString := none
  boundaryParsed : Bool := false
  parser : MjpegStreamSource := { boundary := [] }
  deriving DecidableEq, Repr

/-- The dock; `reconnectTimer` says whether the timer is running. -/
structure CameraViewerDock where
  source : StreamSource := {}
  reconnectTimer : Bool := false
  userDisconnected : Bool := false
  lastConnectedUrl : QString := []
  discoveredCameras : CameraMap := .empty

inductive DockEvent
  | connectClicked (urlText : QString) (comboUrl : Option QString)
  | disconnectClicked
  | stopStream
  | clearDiscoveredCameras
  | addDiscoveredCamera (name : QString) (urls : QStringList)
  | removeDiscoveredCamera (name : QString)
  | reconnectTimer
  | readyRead (contentType : QString) (bytes : QByteArray)
  | finished
  | errorOccurred (canceled : Bool)
  deriving DecidableEq, Repr

/-- The prefix that camera publishers use. -/
def HasPublisherPrefix (url : QString) : Prop := ascii "mjpg:" <+: url.map foldCase

instance : DecidablePred HasPublisherPrefix := fun _ => inferInstanceAs (Decidable (_ <+: _))

/-- The URL as `ConnectToUrl` passes it on. -/
def cleanUrl (url : QString) : QString := if HasPublisherPrefix url then url.drop 5 else url

namespace CameraViewerDock

-- whether a frame is an image, which `QImage::loadFromData` decides
variable (decodes : QByteArray → Bool)

/-- What the dock does when the source tells it of its state. -/
def onStreamStateChanged (dock : CameraViewerDock) : StreamState → CameraViewerDock
  | .disconnected | .connecting => dock
  | .streaming => { dock with reconnectTimer := false }
  | .error =>
    if ¬dock.userDisconnected ∧ dock.lastConnectedUrl ≠ [] then { dock with reconnectTimer := true }
    else dock

/-! ### The source -/

def setState (dock : CameraViewerDock) (newState : StreamState) : CameraViewerDock :=
  if dock.source.state = newState then dock
  else
    onStreamStateChanged { dock with source := { dock.source with state := newState } } newState

/-- `SetError`; the message is for the status line alone. -/
def setError (dock : CameraViewerDock) : CameraViewerDock := dock.setState .error

def stop (dock : CameraViewerDock) : CameraViewerDock :=
  let dock := { dock with
    source := { dock.source with
      reply := none
      boundaryParsed := false
      parser := { boundary := [] } } }
  if dock.source.state ≠ .disconnected then dock.setState .disconnected else dock

def start (dock : CameraViewerDock) (url : QString) : CameraViewerDock :=
  let dock := dock.stop.setState .connecting
  { dock with source := { dock.source with reply := some url } }

/-- The bytes go to the parser, and the first image that comes out starts the stream. -/
def readAll (dock : CameraViewerDock) (bytes : QByteArray) : CameraViewerDock :=
  let (parser, frames) := dock.source.parser.onReadyRead bytes
  let dock := { dock with source := { dock.source with parser := parser } }
  if frames.any decodes then dock.setState .streaming else dock

def onReadyRead (dock : CameraViewerDock) (contentType : QString) (bytes : QByteArray) :
    CameraViewerDock :=
  if dock.source.reply = none then dock
  else if ¬dock.source.boundaryParsed ∧ contentType ≠ [] then
    match parseBoundaryFromContentType contentType with
    | none => dock.setError.stop
    | some boundary =>
      readAll decodes { dock with
        source := { dock.source with
          boundaryParsed := true
          parser := { dock.source.parser with boundary := boundary } } } bytes
  else dock.readAll decodes bytes

/-- With or without an error of the reply, its end is one of the stream. -/
def onStreamFinished (dock : CameraViewerDock) : CameraViewerDock :=
  if dock.source.reply ≠ none then dock.setError.stop else dock.stop

def onStreamError (dock : CameraViewerDock) (canceled : Bool) : CameraViewerDock :=
  if dock.source.reply ≠ none then
    if canceled then dock else dock.setError.stop
  else dock.stop

/-! ### The dock -/

def connectToUrl (dock : CameraViewerDock) (url : QString) : CameraViewerDock × List QString :=
  (start { dock with lastConnectedUrl := cleanUrl url } (cleanUrl url), [cleanUrl url])

/-- The URL of a click on Connect: the text in the field, or else that of the selected camera. -/
def urlOfClick (urlText : QString) (comboUrl : Option QString) : QString :=
  if trimmed urlText = [] then comboUrl.getD [] else trimmed urlText

def onConnectClicked (dock : CameraViewerDock) (urlText : QString) (comboUrl : Option QString) :
    CameraViewerDock × List QString :=
  let dock := { dock with userDisconnected := false, reconnectTimer := false }
  let url := urlOfClick urlText comboUrl
  if url = [] then (dock, []) else dock.connectToUrl url

/-- `OnDisconnectClicked` and `StopStream`, which do the same. -/
def disconnectStream (dock : CameraViewerDock) : CameraViewerDock :=
  stop { dock with reconnectTimer := false, userDisconnected := true }

def clearDiscoveredCameras (dock : CameraViewerDock) : CameraViewerDock :=
  { dock with
    reconnectTimer := false
    userDisconnected := true
    lastConnectedUrl := []
    discoveredCameras := .empty }

def addDiscoveredCamera (dock : CameraViewerDock) (name : QString) (urls : QStringList) :
    CameraViewerDock :=
  { dock with
    discoveredCameras := dock.discoveredCameras.set name urls
    userDisconnected := false }

def removeDiscoveredCamera (dock : CameraViewerDock) (name : QString) : CameraViewerDock :=
  { dock with discoveredCameras := dock.discoveredCameras.erase name }

/-- A timer that is not running does not expire. -/
def onReconnectTimer (dock : CameraViewerDock) : CameraViewerDock × List QString :=
  if ¬dock.reconnectTimer then (dock, [])
  else
    let dock := { dock with reconnectTimer := false }
    if dock.userDisconnected ∨ dock.lastConnectedUrl = [] then (dock, [])
    else if dock.source.state ≠ .disconnected ∧ dock.source.state ≠ .error then (dock, [])
    else dock.connectToUrl dock.lastConnectedUrl

def step (dock : CameraViewerDock) : DockEvent → CameraViewerDock × List QString
  | .connectClicked urlText comboUrl => dock.onConnectClicked urlText comboUrl
  | .disconnectClicked | .stopStream => (dock.disconnectStream, [])
  | .clearDiscoveredCameras => (dock.clearDiscoveredCameras, [])
  | .addDiscoveredCamera name urls => (dock.addDiscoveredCamera name urls, [])
  | .removeDiscoveredCamera name => (dock.removeDiscoveredCamera name, [])
  | .reconnectTimer => dock.onReconnectTimer
  | .readyRead contentType bytes => (dock.onReadyRead decodes contentType bytes, [])
  | .finished => (dock.onStreamFinished, [])
  | .errorOccurred canceled => (dock.onStreamError canceled, [])

end CameraViewerDock

namespace DockEvent

/-- A click on Connect with a URL. -/
def IsConnect : DockEvent → Prop
  | connectClicked urlText comboUrl => CameraViewerDock.urlOfClick urlText comboUrl ≠ []
  | _ => False

/-- The user or the transport takes the stream away. -/
def IsDisconnect : DockEvent → Prop
  | disconnectClicked | stopStream => True
  | _ => False

def IsNetwork : DockEvent → Prop
  | readyRead .. | finished | errorOccurred _ => True
  | _ => False

/-- Something that leaves a running timer alone. -/
def IsIdle : DockEvent → Prop
  | addDiscoveredCamera .. | removeDiscoveredCamera _ => True
  | event => event.IsNetwork

/-- The URL of a click keeps its form: less the prefix it is neither empty nor has the prefix. -/
def KeepsUrl : DockEvent → Prop
  | connectClicked urlText comboUrl =>
    let url := CameraViewerDock.urlOfClick urlText comboUrl
    url = [] ∨ cleanUrl url ≠ [] ∧ ¬HasPublisherPrefix (cleanUrl url)
  | _ => True

instance : DecidablePred KeepsUrl
  | connectClicked .. => inferInstanceAs (Decidable (_ ∨ _))
  | disconnectClicked | stopStream | clearDiscoveredCameras | addDiscoveredCamera ..
  | removeDiscoveredCamera _ | reconnectTimer | readyRead .. | finished | errorOccurred _ =>
    isTrue trivial

end DockEvent

namespace CameraViewerDock

variable (decodes : QByteArray → Bool)

/-- After a disconnect nothing is started before the next connect. -/
def StaysDisconnected (events : List DockEvent) : Prop :=
  ∀ front event quiet, events = front ++ event :: quiet → event.IsDisconnect →
    (∀ a ∈ quiet, ¬a.IsConnect) →
      ∀ r ∈ history (step decodes) (after (step decodes) {} (front ++ [event])) quiet,
        r.output = []

/-- When a running stream ends by an event of the network, and nobody has disconnected or cleared
the cameras since the last connect, then the timer is running, and when it expires the URL of the
stream is started again. -/
def Reconnects (events : List DockEvent) : Prop :=
  ∀ front connect quiet event idle url, events = front ++ connect :: (quiet ++ event :: idle) →
    connect.IsConnect → (∀ a ∈ quiet, ¬(a.IsDisconnect ∨ a = .clearDiscoveredCameras)) →
    event.IsNetwork → (∀ a ∈ idle, a.IsIdle) →
    let dock := after (step decodes) {} (front ++ connect :: quiet)
    let ended := (step decodes dock event).1
    dock.source.reply = some url → ended.source.reply = none →
    let later := after (step decodes) ended idle
    later.reconnectTimer = true ∧ (step decodes later .reconnectTimer).2 = [url]

variable {decodes} {dock : CameraViewerDock} {event : DockEvent} {url : QString}

/-! ### What the calls into the source do -/

@[simp] theorem stop_eq (dock : CameraViewerDock) : dock.stop = { dock with source := {} } := by
  unfold stop setState
  dsimp only
  split_ifs with hstate
  · rfl
  · have hstate := not_not.mp hstate
    simp [hstate]

theorem start_eq (dock : CameraViewerDock) (url : QString) :
    dock.start url =
      { dock with source := { state := .connecting, reply := some url } } := by
  simp [start, setState, onStreamStateChanged]

/-- The end of a stream: the error arms the timer before the source stops. -/
theorem stop_setError (hstate : dock.source.state ≠ .error) :
    dock.setError.stop = { dock with
      source := {}
      reconnectTimer :=
        dock.reconnectTimer || (!dock.userDisconnected && dock.lastConnectedUrl ≠ []) } := by
  simp only [setError, setState, if_neg hstate, onStreamStateChanged, stop_eq]
  split
  case isTrue harm => simp [harm.1, harm.2]
  case isFalse harm =>
    rw [not_and_or, not_not, not_not] at harm
    rcases harm with hflag | hurl
    · simp [hflag]
    · simp [hurl]

/-- Data of a running stream that is one: at most it starts to show, which stops the timer. -/
theorem readAll_eq (dock : CameraViewerDock) (bytes : QByteArray) :
    ∃ parser, dock.readAll decodes bytes =
        { dock with source := { dock.source with parser := parser } } ∨
      dock.readAll decodes bytes = { dock with
        source := { dock.source with parser := parser, state := .streaming }
        reconnectTimer := dock.reconnectTimer && dock.source.state = .streaming } := by
  refine ⟨(dock.source.parser.onReadyRead bytes).1, ?_⟩
  simp only [readAll]
  split
  case isTrue =>
    refine .inr ?_
    simp only [setState, onStreamStateChanged]
    split
    case isTrue hstate => simp [hstate]
    case isFalse hstate => simp [hstate]
  case isFalse => exact .inl rfl

/-! ### Invariants -/

/-- The source is reset unless it has a reply, and then it connects or streams. The timer runs only
beside a source that is reset, when there is a URL to go back to. -/
structure Sound (dock : CameraViewerDock) : Prop where
  reset : dock.source.reply = none → dock.source = {}
  running : dock.source.reply ≠ none →
    dock.source.state = .connecting ∨ dock.source.state = .streaming
  armed : dock.reconnectTimer = true →
    dock.source = {} ∧ dock.userDisconnected = false ∧ dock.lastConnectedUrl ≠ []

/-- The dock after the stream has ended. -/
def ended (dock : CameraViewerDock) : CameraViewerDock :=
  { dock with
    source := {}
    reconnectTimer := !dock.userDisconnected && dock.lastConnectedUrl ≠ [] }

theorem Sound.state_ne_error (h : dock.Sound) : dock.source.state ≠ .error := by
  by_cases hreply : dock.source.reply = none
  · rw [h.reset hreply]
    exact StreamState.noConfusion
  · rcases h.running hreply with hstate | hstate <;> rw [hstate] <;> exact StreamState.noConfusion

theorem Sound.reconnectTimer_eq (h : dock.Sound) (hreply : dock.source.reply ≠ none) :
    dock.reconnectTimer = false := by
  rw [Bool.eq_false_iff]
  intro harmed
  exact hreply (by rw [(h.armed harmed).1])

/-- Without a reply the network has nothing to say. -/
theorem Sound.step_network_of_none (h : dock.Sound) (hevent : event.IsNetwork)
    (hreply : dock.source.reply = none) : (step decodes dock event).1 = dock := by
  have hstop : dock.stop = dock := by rw [stop_eq, ← h.reset hreply]
  cases event with
  | readyRead contentType bytes => exact if_pos hreply
  | finished => exact (if_neg (not_not.mpr hreply)).trans hstop
  | errorOccurred canceled => exact (if_neg (not_not.mpr hreply)).trans hstop
  | _ => exact hevent.elim

/-- With a reply the stream goes on or it ends. -/
theorem Sound.step_network_of_some (h : dock.Sound) (hevent : event.IsNetwork)
    (hreply : dock.source.reply = some url) :
    (∃ source : StreamSource, (step decodes dock event).1 = { dock with source := source } ∧
      source.reply = some url ∧ (source.state = .connecting ∨ source.state = .streaming)) ∨
    (step decodes dock event).1 = dock.ended := by
  have hne : dock.source.reply ≠ none := by rw [hreply]; exact Option.some_ne_none url
  have htimer := h.reconnectTimer_eq hne
  have hend : dock.setError.stop = dock.ended := by
    rw [stop_setError h.state_ne_error, htimer, Bool.false_or, ended]
  have hdata : ∀ (source : StreamSource) bytes, source.reply = some url →
      (source.state = .connecting ∨ source.state = .streaming) →
      ∃ source' : StreamSource, readAll decodes { dock with source := source } bytes =
          { dock with source := source' } ∧ source'.reply = some url ∧
        (source'.state = .connecting ∨ source'.state = .streaming) := by
    intro source bytes hsource hstate
    obtain ⟨parser, heq | heq⟩ := @readAll_eq decodes { dock with source := source } bytes
    · exact ⟨_, heq, hsource, hstate⟩
    · refine ⟨{ source with parser := parser, state := .streaming }, heq.trans ?_, hsource,
        .inr rfl⟩
      simp [htimer]
  cases event with
  | readyRead contentType bytes =>
    simp only [step, onReadyRead, if_neg hne]
    split
    case isTrue =>
      split
      case h_1 => exact .inr hend
      case h_2 => exact .inl (hdata _ bytes hreply (h.running hne))
    case isFalse => exact .inl (hdata dock.source bytes hreply (h.running hne))
  | finished => exact .inr ((if_pos hne).trans hend)
  | errorOccurred canceled =>
    simp only [step, onStreamError, if_pos hne]
    split
    case isTrue => exact .inl ⟨dock.source, rfl, hreply, h.running hne⟩
    case isFalse => exact .inr hend
  | _ => exact hevent.elim

theorem sound_initial : Sound {} where
  reset _ := rfl
  running h := absurd rfl h
  armed := by rintro ⟨⟩

theorem sound_connectToUrl (htimer : dock.reconnectTimer = false) (url : QString) :
    (dock.connectToUrl url).1.Sound := by
  rw [connectToUrl, start_eq]
  exact ⟨by rintro ⟨⟩, fun _ => .inl rfl, fun h => absurd h (Bool.eq_false_iff.mp htimer)⟩

theorem Sound.stopTimer (h : dock.Sound) (userDisconnected : Bool) (lastConnectedUrl : QString)
    (discoveredCameras : CameraMap) : Sound { dock with
      reconnectTimer := false
      userDisconnected := userDisconnected
      lastConnectedUrl := lastConnectedUrl
      discoveredCameras := discoveredCameras } :=
  ⟨h.reset, h.running, by rintro ⟨⟩⟩

theorem Sound.step (h : dock.Sound) (event : DockEvent) : (step decodes dock event).1.Sound := by
  have hnetwork (hevent : event.IsNetwork) :
      (CameraViewerDock.step decodes dock event).1.Sound := by
    cases hreply : dock.source.reply with
    | none =>
      rw [h.step_network_of_none hevent hreply]
      exact h
    | some url =>
      rcases h.step_network_of_some hevent hreply with ⟨source, heq, hsource, hstate⟩ | heq
      · rw [heq]
        have hne : dock.source.reply ≠ none := by rw [hreply]; exact Option.some_ne_none url
        refine ⟨fun hnone => ?_, fun _ => hstate, fun harmed => ?_⟩
        · exact absurd (hsource.symm.trans hnone) (Option.some_ne_none url)
        · exact absurd harmed (Bool.eq_false_iff.mp (h.reconnectTimer_eq hne))
      · rw [heq]
        refine ⟨fun _ => rfl, fun hne => absurd rfl hne, fun harmed => ⟨rfl, ?_⟩⟩
        simpa [ended] using harmed
  cases event with
  | connectClicked urlText comboUrl =>
    simp only [CameraViewerDock.step, onConnectClicked]
    split
    case isTrue => exact h.stopTimer false dock.lastConnectedUrl dock.discoveredCameras
    case isFalse => exact sound_connectToUrl rfl _
  | disconnectClicked | stopStream =>
    simp only [CameraViewerDock.step, disconnectStream, stop_eq]
    exact ⟨fun _ => rfl, fun hne => absurd rfl hne, by rintro ⟨⟩⟩
  | clearDiscoveredCameras => exact h.stopTimer true [] .empty
  | addDiscoveredCamera name urls =>
    exact ⟨h.reset, h.running, fun harmed => ⟨(h.armed harmed).1, rfl, (h.armed harmed).2.2⟩⟩
  | removeDiscoveredCamera name => exact ⟨h.reset, h.running, h.armed⟩
  | reconnectTimer =>
    simp only [CameraViewerDock.step, onReconnectTimer]
    split
    case isTrue => exact h
    case isFalse =>
      split_ifs
      · exact h.stopTimer dock.userDisconnected dock.lastConnectedUrl dock.discoveredCameras
      · exact h.stopTimer dock.userDisconnected dock.lastConnectedUrl dock.discoveredCameras
      · exact sound_connectToUrl rfl _
  | readyRead contentType bytes => exact hnetwork trivial
  | finished => exact hnetwork trivial
  | errorOccurred canceled => exact hnetwork trivial

theorem sound_after (events : List DockEvent) :
    (after (CameraViewerDock.step decodes) {} events).Sound :=
  after_induction (fun _ event h => h.step event) sound_initial events

/-! ### After a disconnect -/

/-- Nothing runs, neither the stream nor the timer. -/
structure Quiet (dock : CameraViewerDock) : Prop where
  source : dock.source = {}
  reconnectTimer : dock.reconnectTimer = false

theorem quiet_disconnect (hevent : event.IsDisconnect) :
    (step decodes dock event).1.Quiet := by
  cases event with
  | disconnectClicked | stopStream =>
    simp only [step, disconnectStream, stop_eq]
    exact ⟨rfl, rfl⟩
  | _ => exact hevent.elim

theorem Quiet.sound (h : dock.Quiet) : dock.Sound where
  reset _ := h.source
  running hne := absurd (by rw [h.source]) hne
  armed harmed := absurd harmed (Bool.eq_false_iff.mp h.reconnectTimer)

/-- Whatever happens but a connect leaves it so, and starts nothing. -/
theorem Quiet.step (h : dock.Quiet) (hevent : ¬event.IsConnect) :
    (step decodes dock event).1.Quiet ∧ (CameraViewerDock.step decodes dock event).2 = [] := by
  have hreply : dock.source.reply = none := by rw [h.source]
  have hnetwork (hevent : event.IsNetwork) :
      (CameraViewerDock.step decodes dock event).1.Quiet := by
    rw [h.sound.step_network_of_none hevent hreply]
    exact h
  cases event with
  | connectClicked urlText comboUrl =>
    have hurl : urlOfClick urlText comboUrl = [] := not_not.mp hevent
    simp only [CameraViewerDock.step, onConnectClicked, if_pos hurl]
    exact ⟨⟨h.source, rfl⟩, trivial⟩
  | disconnectClicked | stopStream => exact ⟨quiet_disconnect trivial, rfl⟩
  | clearDiscoveredCameras => exact ⟨⟨h.source, rfl⟩, rfl⟩
  | addDiscoveredCamera name urls => exact ⟨⟨h.source, h.reconnectTimer⟩, rfl⟩
  | removeDiscoveredCamera name => exact ⟨⟨h.source, h.reconnectTimer⟩, rfl⟩
  | reconnectTimer =>
    simp only [CameraViewerDock.step, onReconnectTimer, h.reconnectTimer]
    exact ⟨h, rfl⟩
  | readyRead contentType bytes => exact ⟨hnetwork trivial, rfl⟩
  | finished => exact ⟨hnetwork trivial, rfl⟩
  | errorOccurred canceled => exact ⟨hnetwork trivial, rfl⟩

theorem staysDisconnected (events : List DockEvent) : StaysDisconnected decodes events := by
  rintro front event quiet - hevent hquiet r hr
  have hstart : (after (CameraViewerDock.step decodes) {} (front ++ [event])).Quiet := by
    rw [after_append]
    exact quiet_disconnect hevent
  generalize after (CameraViewerDock.step decodes) {} (front ++ [event]) = dock at hstart hr
  induction quiet generalizing dock with
  | nil => cases hr
  | cons a quiet ih =>
    rw [List.forall_mem_cons] at hquiet
    obtain ⟨hnext, houtput⟩ : (step decodes dock a).1.Quiet ∧ (step decodes dock a).2 = [] :=
      hstart.step hquiet.1
    rcases List.mem_cons.mp hr with rfl | hr
    · exact houtput
    · exact ih hquiet.2 _ hnext hr

/-! ### After a connect -/

/-- The dock would go back to its URL, and a stream that runs is one from there. -/
structure Connected (dock : CameraViewerDock) : Prop where
  userDisconnected : dock.userDisconnected = false
  url_ne_nil : dock.lastConnectedUrl ≠ []
  cleanUrl_url : cleanUrl dock.lastConnectedUrl = dock.lastConnectedUrl
  reply : ∀ url ∈ dock.source.reply, url = dock.lastConnectedUrl

theorem cleanUrl_eq_iff : cleanUrl url = url ↔ ¬HasPublisherPrefix url := by
  refine ⟨fun h hurl => ?_, fun h => if_neg h⟩
  have hlength := congrArg List.length h
  have hfive : 5 ≤ url.length := by
    simpa [ascii] using List.IsPrefix.length_le hurl
  rw [cleanUrl, if_pos hurl, List.length_drop] at hlength
  omega

theorem connected_connectToUrl (hflag : dock.userDisconnected = false) (hne : cleanUrl url ≠ [])
    (hclean : cleanUrl (cleanUrl url) = cleanUrl url) : (dock.connectToUrl url).1.Connected := by
  rw [connectToUrl, start_eq]
  exact ⟨hflag, hne, hclean, fun _ h => (Option.some.inj h).symm⟩

theorem connected_of_isConnect (hevent : event.IsConnect) (hkeeps : event.KeepsUrl) :
    (step decodes dock event).1.Connected := by
  cases event with
  | connectClicked urlText comboUrl =>
    have hurl : urlOfClick urlText comboUrl ≠ [] := hevent
    obtain ⟨hne, hclean⟩ := hkeeps.resolve_left hurl
    simp only [step, onConnectClicked, if_neg hurl]
    exact connected_connectToUrl rfl hne (cleanUrl_eq_iff.mpr hclean)
  | _ => exact hevent.elim

theorem Connected.step (h : dock.Connected) (hsound : dock.Sound)
    (hevent : ¬(event.IsDisconnect ∨ event = .clearDiscoveredCameras)) (hkeeps : event.KeepsUrl) :
    (step decodes dock event).1.Connected := by
  have hnetwork (hevent : event.IsNetwork) :
      (CameraViewerDock.step decodes dock event).1.Connected := by
    cases hreply : dock.source.reply with
    | none =>
      rw [hsound.step_network_of_none hevent hreply]
      exact h
    | some url =>
      rcases hsound.step_network_of_some hevent hreply with ⟨source, heq, hsource, -⟩ | heq
      · rw [heq]
        refine { h with reply := fun url' hurl' => ?_ }
        obtain rfl := Option.some.inj (hsource.symm.trans hurl')
        exact h.reply url hreply
      · rw [heq]
        exact { h with reply := by rintro _ ⟨⟩ }
  cases event with
  | connectClicked urlText comboUrl =>
    by_cases hurl : urlOfClick urlText comboUrl = []
    · simp only [CameraViewerDock.step, onConnectClicked, if_pos hurl]
      exact { h with userDisconnected := rfl }
    · exact connected_of_isConnect hurl hkeeps
  | disconnectClicked | stopStream => exact absurd (.inl trivial) hevent
  | clearDiscoveredCameras => exact absurd (.inr rfl) hevent
  | addDiscoveredCamera name urls => exact { h with userDisconnected := rfl }
  | removeDiscoveredCamera name => exact { h with }
  | reconnectTimer =>
    simp only [CameraViewerDock.step, onReconnectTimer]
    split
    case isTrue => exact h
    case isFalse =>
      split_ifs
      · exact { h with }
      · exact { h with }
      · exact connected_connectToUrl h.userDisconnected (h.cleanUrl_url.symm ▸ h.url_ne_nil)
          (congrArg cleanUrl h.cleanUrl_url)
  | readyRead contentType bytes => exact hnetwork trivial
  | finished => exact hnetwork trivial
  | errorOccurred canceled => exact hnetwork trivial

/-- The stream has ended, and the timer waits to start it again. -/
structure Waits (dock : CameraViewerDock) (url : QString) : Prop where
  source : dock.source = {}
  reconnectTimer : dock.reconnectTimer = true
  connected : dock.Connected
  lastConnectedUrl : dock.lastConnectedUrl = url

theorem Connected.waits_ended (h : dock.Connected) : dock.ended.Waits dock.lastConnectedUrl where
  source := rfl
  reconnectTimer := by simp [ended, h.userDisconnected, h.url_ne_nil]
  connected := { h with reply := by rintro _ ⟨⟩ }
  lastConnectedUrl := rfl

theorem Waits.sound (h : dock.Waits url) : dock.Sound where
  reset _ := h.source
  running hne := absurd (by rw [h.source]) hne
  armed _ := ⟨h.source, h.connected.userDisconnected, h.connected.url_ne_nil⟩

theorem Waits.idle (h : dock.Waits url) (hevent : event.IsIdle) :
    (step decodes dock event).1.Waits url := by
  have hreply : dock.source.reply = none := by rw [h.source]
  have hnetwork (hevent : event.IsNetwork) : (step decodes dock event).1.Waits url := by
    rw [h.sound.step_network_of_none hevent hreply]
    exact h
  cases event with
  | addDiscoveredCamera name urls =>
    exact { h with connected := { h.connected with userDisconnected := rfl } }
  | removeDiscoveredCamera name => exact { h with connected := { h.connected with } }
  | readyRead contentType bytes => exact hnetwork trivial
  | finished => exact hnetwork trivial
  | errorOccurred canceled => exact hnetwork trivial
  | _ => exact hevent.elim

/-- The timer that expires starts the URL again. -/
theorem Waits.expires (h : dock.Waits url) : (step decodes dock .reconnectTimer).2 = [url] := by
  have hstays : ¬(dock.userDisconnected = true ∨ dock.lastConnectedUrl = []) := by
    simp [h.connected.userDisconnected, h.connected.url_ne_nil]
  have hstate : ¬(dock.source.state ≠ .disconnected ∧ dock.source.state ≠ .error) := by
    simp [h.source]
  simp only [step, onReconnectTimer, h.reconnectTimer]
  rw [if_neg (by simp), if_neg hstays, if_neg hstate, connectToUrl, h.connected.cleanUrl_url,
    h.lastConnectedUrl]

theorem reconnects {events : List DockEvent} (hkeeps : ∀ event ∈ events, event.KeepsUrl) :
    Reconnects decodes events := by
  rintro front connect quiet event idle url rfl hconnect hquiet hevent hidle dock ended hreply hend
  have hkeeps : ∀ a ∈ connect :: quiet, a.KeepsUrl := fun a ha => hkeeps a (by
    rcases List.mem_cons.mp ha with rfl | ha <;> simp [*])
  rw [List.forall_mem_cons] at hkeeps
  have hdock : dock.Connected ∧ dock.Sound := by
    refine ⟨?_, sound_after _⟩
    have hstart : (after (step decodes) {} (front ++ [connect])).Connected := by
      rw [after_append]
      exact connected_of_isConnect hconnect hkeeps.1
    have hsplit : front ++ connect :: quiet = (front ++ [connect]) ++ quiet := by simp
    have hstep : ∀ s, ∀ a ∈ quiet, s.Connected ∧ s.Sound →
        (step decodes s a).1.Connected ∧ (step decodes s a).1.Sound := fun s a ha hs =>
      ⟨hs.1.step hs.2 (hquiet a ha) (hkeeps.2 a ha), hs.2.step a⟩
    show (after (step decodes) {} (front ++ connect :: quiet)).Connected
    rw [hsplit, after_append]
    exact (after_induction_mem hstep ⟨hstart, sound_after _⟩).1
  obtain ⟨hconnected, hsound⟩ := hdock
  have hurl := hconnected.reply url hreply
  have hwaits : ended.Waits url := by
    rcases hsound.step_network_of_some hevent hreply with ⟨source, heq, hsource, -⟩ | heq
    · have hgoes : ended.source.reply = some url := by
        show (step decodes dock event).1.source.reply = some url
        rw [heq]
        exact hsource
      exact absurd (hgoes.symm.trans hend) (Option.some_ne_none url)
    · show (step decodes dock event).1.Waits url
      rw [heq, hurl]
      exact hconnected.waits_ended
  have hlater : (after (step decodes) ended idle).Waits url :=
    after_induction_mem (P := fun s => Waits s url)
      (fun s a ha hs => hs.idle (hidle a ha)) hwaits
  exact ⟨hlater.reconnectTimer, hlater.expires⟩

/-- The dock keeps off after a disconnect, and goes back to a stream that ends by itself. -/
theorem reconnect_discipline {events : List DockEvent}
    (hkeeps : ∀ event ∈ events, event.KeepsUrl) :
    StaysDisconnected decodes events ∧ Reconnects decodes events :=
  ⟨staysDisconnected events, reconnects hkeeps⟩

/-- A click with this text, and a server that closes the connection. -/
def closedByServer (urlText : QString) : List DockEvent :=
  [.connectClicked urlText none, .finished]

theorem closedByServer_discipline :
    StaysDisconnected (fun _ => true) (closedByServer (ascii "mjpg:http://c")) ∧
      Reconnects (fun _ => true) (closedByServer (ascii "mjpg:http://c")) :=
  reconnect_discipline (by decide +kernel)

/-- The prefix that is left of two is taken off when the timer expires. -/
theorem closedByServer_not_reconnects :
    ¬Reconnects (fun _ => true) (closedByServer (ascii "mjpg:mjpg:c")) := by
  intro h
  have hconnect : urlOfClick (ascii "mjpg:mjpg:c") none ≠ [] := by decide +kernel
  have htimer := h [] (.connectClicked (ascii "mjpg:mjpg:c") none) [] .finished []
    (ascii "mjpg:c") rfl hconnect (by simp) trivial (by simp) (by decide +kernel)
    (by decide +kernel)
  revert htimer
  decide +kernel

/-- No other URL is gone back to when the server closes the connection. -/
theorem closedByServer_reconnects_iff {urlText : QString} (hurl : urlOfClick urlText none ≠ []) :
    Reconnects decodes (closedByServer urlText) ↔
      (DockEvent.connectClicked urlText none).KeepsUrl := by
  constructor
  · intro h
    have hconnect : (DockEvent.connectClicked urlText none).IsConnect := hurl
    have hdock : (step decodes {} (.connectClicked urlText none)).1 =
        { lastConnectedUrl := cleanUrl (urlOfClick urlText none)
          source := {
            state := .connecting
            reply := some (cleanUrl (urlOfClick urlText none)) } } := by
      simp only [step, onConnectClicked, if_neg hurl, connectToUrl, start_eq]
    have hend : (step decodes (step decodes {} (.connectClicked urlText none)).1 .finished).1 =
        ended { lastConnectedUrl := cleanUrl (urlOfClick urlText none) } := by
      rw [hdock]
      simp only [step, onStreamFinished]
      rw [if_pos (by simp), stop_setError (by simp)]
      rfl
    have htimer := h [] _ [] .finished [] (cleanUrl (urlOfClick urlText none)) rfl hconnect
      (by simp) trivial (by simp) (congrArg (·.source.reply) hdock)
      (congrArg (·.source.reply) hend)
    obtain ⟨harmed, hstarted⟩ := htimer
    have hne : cleanUrl (urlOfClick urlText none) ≠ [] := by
      have harmed : (ended { lastConnectedUrl := cleanUrl (urlOfClick urlText none) }
        ).reconnectTimer = true := (congrArg CameraViewerDock.reconnectTimer hend).symm.trans harmed
      simpa [ended] using harmed
    refine .inr ⟨hne, cleanUrl_eq_iff.mp ?_⟩
    have hstarted : (step decodes (ended { lastConnectedUrl := cleanUrl (urlOfClick urlText none) })
        .reconnectTimer).2 = [cleanUrl (urlOfClick urlText none)] :=
      (congrArg (fun dock => (step decodes dock .reconnectTimer).2) hend).symm.trans hstarted
    simpa [step, onReconnectTimer, ended, hne, connectToUrl] using hstarted
  · intro hkeeps
    refine reconnects ?_
    simp only [closedByServer, List.forall_mem_cons]
    exact ⟨hkeeps, trivial, fun _ h => absurd h List.not_mem_nil⟩

end CameraViewerDock

end SmartDashboard.Camera
