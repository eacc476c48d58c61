import SmartDashboard.NT4.Publishing

/-!
# Reading what a client sends

A value frame carries a pubuid where the frames that a client reads carry a topic id, and is
otherwise one of these. A reader that knows the topics of a connection by their pubuids reads from
its value frames, in whatever batches they come, what the publish calls published.

## Main definitions

- `Sent.frame`: what a message is in the binary stream
- `Impl.readAll`: a reader on one binary message after the other
- `Impl.Knows`: the reader has taken note of the claims

## Main results

- `readAll_calls`: every published value is read once, in order and under its key
-/

namespace SmartDashboard.NT4

open MessagePack Direct

/-- The bytes of a value frame. The other messages are text messages. -/
def Sent.frame : Sent → ByteString
  | .value _ timestamp pubuid typeCode v => buildValueFrame timestamp pubuid typeCode v
  | _ => []

/-- The topic, the type and the value of a value frame. -/
def Sent.value? : Sent → Option (ByteString × NT4TypeCode × TopicValue)
  | .value ntPath _ _ typeCode v => some (ntPath, typeCode, v)
  | _ => none

/-- The key, the type and the value of a publish call. -/
def Action.value? : Action → Option (ByteString × NT4TypeCode × TopicValue)
  | .publishBool key _ v => some (key, .boolean, .bool v)
  | .publishDouble key _ v => some (key, .double, .double v)
  | .publishString key _ v => some (key, .string, .string v)
  | _ => none

/-- The updates that a reader delivers while it handles the messages. -/
def Impl.readAll (conversions : DoubleConversions) : Impl → List ByteString → List TopicUpdate
  | _, [] => []
  | reader, rawData :: rest =>
    let (updates, reader) := reader.handleBinaryMessage conversions rawData
    updates ++ reader.readAll conversions rest

/-- The reader knows each topic by the pubuid that it was claimed under, and none by the id of the
time answers. -/
structure Impl.Knows (reader : Impl) (sent : List Sent) : Prop where
  claimed : ∀ ntPath pubuid, (ntPath, pubuid) ∈ claims sent →
    ∃ topic, reader.topicsById pubuid = some topic ∧ topic.name = ntPath
  noTimeAnswer : reader.topicsById (-1) = none

variable (conversions : DoubleConversions) {topicsById : Int32 → Option AnnouncedTopic}

/-! ## One frame -/

theorem announced_toInt (id : Int32) : announced topicsById id.toInt = topicsById id := by
  rw [announced, if_pos ⟨id.minValue_le_toInt, id.toInt_le⟩, Int32.ofInt_toInt]

theorem ofByte?_ofInt_toByte (typeCode : NT4TypeCode) :
    NT4TypeCode.ofByte? (UInt8.ofInt typeCode.toByte.toNat) = some typeCode := by
  cases typeCode <;> decide

/-- A published value is taken whole by the branch for its type. -/
theorem Publishes.takenWhole {typeCode : NT4TypeCode} {value : TopicValue}
    (h : Publishes typeCode value) {e : Element}
    (hvalue : valueOf conversions e typeCode = some value) :
    TakenWhole conversions e (some typeCode) := by
  cases h with
  | bool b =>
    obtain ⟨b', hb', -⟩ := Option.map_eq_some_iff.mp hvalue
    exact .inl (Option.isSome_of_eq_some hb')
  | double bits =>
    obtain ⟨bits', hbits', -⟩ := Option.map_eq_some_iff.mp hvalue
    exact .inl (Option.isSome_of_eq_some hbits')
  | string s hs =>
    obtain ⟨s', hs', -⟩ := Option.map_eq_some_iff.mp hvalue
    exact .inl (Option.isSome_of_eq_some hs')

/-- The message that a value frame is resyncs, and says what was published. -/
theorem exists_resyncs_buildValueFrame {typeCode : NT4TypeCode} {value : TopicValue}
    (h : Publishes typeCode value) (timestamp : UInt64) {pubuid : Int32} (hid : pubuid ≠ -1)
    {topic : AnnouncedTopic} (htopic : topicsById pubuid = some topic) :
    ∃ m : Message, m.encode = buildValueFrame timestamp pubuid typeCode value ∧
      m.Resyncs conversions topicsById ∧
      m.update? conversions topicsById = some (stripSmartDashboardPrefix topic.name, value) := by
  obtain ⟨m, hencode, htopicId, -, hcode, hvalue, hinteger⟩ :=
    exists_message_buildValueFrame conversions timestamp pubuid h
  have hknown : announced topicsById m.topicId.value = some topic := by
    rw [htopicId, announced_toInt, htopic]
  have hbyte := typeCode.toByte.toNat_lt
  have hcast : NT4TypeCode.ofByte? (UInt8.ofInt m.typeCode.value) = some typeCode := by
    rw [hcode, ofByte?_ofInt_toByte]
  refine ⟨m, hencode, ⟨fun _ => ⟨?_, ?_⟩, fun _ => .inl ?_, fun _ n hn => ?_, fun hnone => ?_,
    fun _ => ?_⟩, ?_⟩
  · rw [hknown]
    rfl
  · rw [htopicId]
    intro heq
    exact hid (Int32.toInt_inj.mp heq)
  · rw [hcode]
    omega
  · rw [hinteger] at hn
    cases hn
  · rw [hknown] at hnone
    cases hnone
  · rw [hcast]
    exact h.takenWhole conversions hvalue
  · have hrange : 0 ≤ m.typeCode.value ∧ m.typeCode.value < 256 := by omega
    rw [Message.update?, hknown, typeCodeOf, if_pos hrange, hcast]
    simp [hvalue]

/-! ## The frames of a connection -/

/-- Every value frame is of a published value, whose topic is known by the pubuid. -/
def Legible (topicsById : Int32 → Option AnnouncedTopic) (sent : List Sent) : Prop :=
  ∀ ntPath timestamp pubuid typeCode v, .value ntPath timestamp pubuid typeCode v ∈ sent →
    Publishes typeCode v ∧ pubuid ≠ -1 ∧
      ∃ topic, topicsById pubuid = some topic ∧ topic.name = ntPath

/-- What is read from a value frame. -/
def Sent.read? (m : Sent) : Option (ByteString × TopicValue) :=
  m.value?.map fun sent => (stripSmartDashboardPrefix sent.1, sent.2.2)

theorem Legible.exists_messages {sent : List Sent} (h : Legible topicsById sent) :
    ∃ messages : List Message, messages.flatMap Message.encode = sent.flatMap Sent.frame ∧
      (∀ m ∈ messages, m.Resyncs conversions topicsById) ∧
      messages.filterMap (Message.update? conversions topicsById) = sent.filterMap Sent.read? := by
  induction sent with
  | nil => exact ⟨[], rfl, by simp, rfl⟩
  | cons s sent ih =>
    obtain ⟨messages, hencode, hresyncs, hupdates⟩ :=
      ih fun ntPath timestamp pubuid typeCode v hv =>
        h ntPath timestamp pubuid typeCode v (List.mem_cons_of_mem _ hv)
    cases s with
    | subscribe => exact ⟨messages, hencode, hresyncs, hupdates⟩
    | publish ntPath typeCode pubuid => exact ⟨messages, hencode, hresyncs, hupdates⟩
    | value ntPath timestamp pubuid typeCode v =>
      obtain ⟨hpublishes, hid, topic, htopic, rfl⟩ :=
        h ntPath timestamp pubuid typeCode v List.mem_cons_self
      obtain ⟨m, hm, hmResyncs, hmUpdate⟩ :=
        exists_resyncs_buildValueFrame conversions hpublishes timestamp hid htopic
      refine ⟨m :: messages, ?_, List.forall_mem_cons.mpr ⟨hmResyncs, hresyncs⟩, ?_⟩
      · rw [List.flatMap_cons, List.flatMap_cons, hm, hencode]
        rfl
      · rw [List.filterMap_cons_some hmUpdate, hupdates]
        rfl

/-- However legible frames are batched, they are read in order. -/
theorem readAll_frames {reader : Impl} {batches : List (List Sent)}
    (h : Legible reader.topicsById batches.flatten) :
    (reader.readAll conversions (batches.map fun sent => sent.flatMap Sent.frame)).map
        (fun u => (u.topicPath, u.value)) = batches.flatten.filterMap Sent.read? := by
  induction batches generalizing reader with
  | nil => rfl
  | cons sent batches ih =>
    rw [List.flatten_cons] at h ⊢
    obtain ⟨messages, hencode, hresyncs, hupdates⟩ :=
      Legible.exists_messages conversions fun ntPath timestamp pubuid typeCode v hv =>
        h ntPath timestamp pubuid typeCode v (List.mem_append_left _ hv)
    have hfirst := handleWithin_delivers hresyncs reader.sequence le_rfl
    have hrest := @ih (reader.handleBinaryMessage conversions (sent.flatMap Sent.frame)).2
      fun ntPath timestamp pubuid typeCode v hv =>
        h ntPath timestamp pubuid typeCode v (List.mem_append_right _ hv)
    rw [hencode, hupdates] at hfirst
    rw [List.map_cons, Impl.readAll, List.map_append, hrest, List.filterMap_append]
    exact congrArg (· ++ _) hfirst

/-! ## The calls of a connection -/

theorem stripSmartDashboardPrefix_append (key : ByteString) :
    stripSmartDashboardPrefix (kPrefix ++ key) = key := by
  rw [stripSmartDashboardPrefix, if_pos (List.isPrefixOf_iff_prefix.mpr (List.prefix_append _ _)),
    List.drop_left]

/-- What a publish call sends after the frames that are there. -/
def Action.sends? (a : Action) : Option (ByteString × NT4TypeCode × TopicValue) :=
  a.value?.map fun published => (kPrefix ++ published.1, published.2)

theorem publish_sends {client : NT4Client} (hconnected : client.connected = true)
    (key : ByteString) (timestamp : UInt64) (typeCode : NT4TypeCode) (value : TopicValue) :
    (client.publish key timestamp typeCode value).1.connected = true ∧
      (client.publish key timestamp typeCode value).1.sent.filterMap Sent.value? =
        client.sent.filterMap Sent.value? ++ [(kPrefix ++ key, typeCode, value)] := by
  rcases publish_cases hconnected key timestamp typeCode value with
    ⟨pubuid, -, heq⟩ | ⟨-, heq⟩
  · rw [heq]
    exact ⟨hconnected, by rw [List.filterMap_append]; rfl⟩
  · rw [heq]
    exact ⟨hconnected, by rw [List.filterMap_append, List.filterMap_append, List.append_assoc]; rfl⟩

/-- From an `Open` on, every publish call sends its value. -/
theorem clientAfter_calls {before calls : List Action}
    (hrunning : (clientAfter before).stopping = false)
    (hcalls : ∀ a ∈ calls, a.publication?.isSome) :
    (clientAfter (before ++ .event .open :: calls)).connected = true ∧
      (clientAfter (before ++ .event .open :: calls)).sent.filterMap Sent.value? =
        calls.filterMap Action.sends? := by
  induction calls using List.reverseRecOn with
  | nil =>
    rw [clientAfter_concat, NT4Client.step, NT4Client.onMessage, if_neg (by simp [hrunning])]
    exact ⟨rfl, rfl⟩
  | append_singleton calls a ih =>
    obtain ⟨hconnected, hsent⟩ := ih fun b hb => hcalls b (List.mem_append_left _ hb)
    rw [← List.cons_append, ← List.append_assoc, clientAfter_concat, List.filterMap_append, ← hsent]
    have ha := hcalls a (List.mem_append_right _ List.mem_cons_self)
    cases a with
    | publishBool key timestamp value => exact publish_sends hconnected key timestamp _ _
    | publishDouble key timestamp value => exact publish_sends hconnected key timestamp _ _
    | publishString key timestamp value => exact publish_sends hconnected key timestamp _ _
    | start | stop | event => cases ha

theorem publishes_of_sends? {calls : List Action}
    (htexts : ∀ key timestamp s, .publishString key timestamp s ∈ calls → s.length < 2 ^ 32)
    {ntPath : ByteString} {typeCode : NT4TypeCode} {v : TopicValue}
    (h : (ntPath, typeCode, v) ∈ calls.filterMap Action.sends?) : Publishes typeCode v := by
  obtain ⟨a, ha, hsends⟩ := List.mem_filterMap.mp h
  cases a with
  | publishBool key timestamp b =>
    cases hsends
    exact .bool b
  | publishDouble key timestamp bits =>
    cases hsends
    exact .double bits
  | publishString key timestamp s =>
    cases hsends
    exact .string s (htexts key timestamp s ha)
  | start | stop | event => cases hsends

/-- On a connection of a consistent client a reader that knows the claims reads what the publish
calls published, each value once, in order and under its key. -/
theorem readAll_calls {before calls : List Action}
    (h : Consistent (before ++ .event .open :: calls))
    (hrunning : (clientAfter before).stopping = false)
    (hcalls : ∀ a ∈ calls, a.publication?.isSome)
    (htexts : ∀ key timestamp s, .publishString key timestamp s ∈ calls → s.length < 2 ^ 32)
    {reader : Impl} (hknows : reader.Knows (clientAfter (before ++ .event .open :: calls)).sent)
    {batches : List (List Sent)}
    (hbatches : batches.flatten = (clientAfter (before ++ .event .open :: calls)).sent) :
    (reader.readAll conversions (batches.map fun sent => sent.flatMap Sent.frame)).map
        (fun u => (u.topicPath, u.value)) =
      calls.filterMap fun a => a.value?.map fun published => (published.1, published.2.2) := by
  obtain ⟨hconnected, hsent⟩ := clientAfter_calls hrunning hcalls
  have hlog := (tracks_of_consistent h).log hconnected
  have hlegible : Legible reader.topicsById batches.flatten := by
    rw [hbatches]
    intro ntPath timestamp pubuid typeCode v hv
    have hsends : (ntPath, typeCode, v) ∈ calls.filterMap Action.sends? := by
      rw [← hsent]
      exact List.mem_filterMap.mpr ⟨_, hv, rfl⟩
    obtain ⟨front, back, hsplit⟩ := List.append_of_mem hv
    have hclaim := hlog.values front ntPath timestamp pubuid typeCode v back hsplit
    obtain ⟨topic, htopic, hname⟩ := hknows.claimed ntPath pubuid
      (mem_claims.mpr ⟨typeCode, hsplit ▸ List.mem_append_left _ hclaim⟩)
    refine ⟨publishes_of_sends? htexts hsends, ?_, topic, htopic, hname⟩
    rintro rfl
    rw [hknows.noTimeAnswer] at htopic
    cases htopic
  rw [readAll_frames conversions hlegible, hbatches]
  calc (clientAfter (before ++ .event .open :: calls)).sent.filterMap Sent.read?
      = ((clientAfter (before ++ .event .open :: calls)).sent.filterMap Sent.value?).map
          fun sent => (stripSmartDashboardPrefix sent.1, sent.2.2) := by
        rw [List.map_filterMap]
        rfl
    _ = (calls.filterMap Action.sends?).map
          fun sent => (stripSmartDashboardPrefix sent.1, sent.2.2) := by rw [hsent]
    _ = calls.filterMap fun a => a.value?.map fun published => (published.1, published.2.2) := by
        rw [List.map_filterMap]
        refine List.filterMap_congr fun a _ => ?_
        rw [Action.sends?, Option.map_map]
        refine Option.map_congr fun published _ => ?_
        exact congrArg (·, published.2.2) (stripSmartDashboardPrefix_append published.1)

/-- A reader that knows the topic of a key by the first pubuid. -/
def readerOfA : Impl where
  topicsById id := if id = 1 then some ⟨kPrefix ++ keyA, by decide⟩ else none
  sequence := 0

theorem readAll_calls_publishedTwice :
    (readerOfA.readAll noNumbers ([[.subscribe, .publish (kPrefix ++ keyA) .boolean 1],
        [.value (kPrefix ++ keyA) 1 1 .boolean (.bool true),
          .value (kPrefix ++ keyA) 2 1 .boolean (.bool false)]].map
        fun sent => sent.flatMap Sent.frame)).map (fun u => (u.topicPath, u.value)) =
      [(keyA, .bool true), (keyA, .bool false)] :=
  @readAll_calls noNumbers [.start] [.publishBool keyA 1 true, .publishBool keyA 2 false]
    (Consistent.of_pairwise (by decide) (by decide) (by decide)) rfl (by decide) (by simp) readerOfA
    ⟨fun ntPath pubuid hclaim => by
      obtain ⟨rfl, rfl⟩ := Prod.mk.inj (List.mem_singleton.mp hclaim)
      exact ⟨_, rfl, rfl⟩, rfl⟩ _ rfl

end SmartDashboard.NT4
