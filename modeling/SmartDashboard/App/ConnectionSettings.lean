import SmartDashboard.App.RecordedEvents
import SmartDashboard.Library.LastWrite

/-!
# The connection settings

The fields that a transport declares, the values that the settings dialog writes for them and what
a restart finds. Four field ids are members of the configuration; the values of all others are
fields of a JSON object, which is written anew when the dialog closes: the members, and four names
that are carried over.

`QJsonDocument`'s compact text and its parser are parameters.

## Main definitions

- `getConnectionFieldValue`, `setConnectionFieldValue`: the fields by their ids
- `syncToPluginSettingsJson`, `syncFromPluginSettingsJson`: the members and the object
- `restarted`: the configuration after the dialog and a restart
- `Survives`: what is kept of a field under its id

## Main results

- `keepsFields_iff`: the dialog and a restart keep the fields that survive
-/

namespace SmartDashboard.Transport

open Direct (ByteString)

namespace JsonObject

variable {object : JsonObject} {name name' : ByteString} {value : JsonValue}

def insert (object : JsonObject) (name : ByteString) (value : JsonValue) : JsonObject :=
  object ++ [(name, value)]

def contains (object : JsonObject) (name : ByteString) : Bool :=
  match object.value name with
  | .undefined => false
  | _ => true

theorem value_insert : (object.insert name value).value name' =
    if name' = name then value else object.value name' := by
  rw [insert, JsonObject.value, List.reverse_append, List.reverse_singleton, List.singleton_append,
    List.lookup_cons]
  by_cases h : name' = name
  · rw [if_pos h, beq_iff_eq.mpr h]
    rfl
  · rw [if_neg h, beq_eq_false_iff_ne.mpr h]
    rfl

theorem contains_eq_false_iff : object.contains name = false ↔ object.value name = .undefined := by
  unfold contains
  split
  · next h => exact ⟨fun _ => h, fun _ => rfl⟩
  · next h => exact ⟨fun hfalse => Bool.noConfusion hfalse, fun hnone => (h hnone).elim⟩

end JsonObject

namespace JsonValue

/-- `toInt`: only a number that fits in an `int` counts. -/
def toInt (default : Int32) : JsonValue → Int32
  | .integer value => if (Int32.ofInt value).toInt = value then Int32.ofInt value else default
  | _ => default

/-- `toBool`, of a value that may be none. -/
def toBoolOr (default : Bool) : JsonValue → Bool
  | .bool value => value
  | _ => default

end JsonValue

end SmartDashboard.Transport

namespace SmartDashboard.App.ConnectionSettings

open Direct (ByteString)
open Transport

/-- The types of fields. -/
inductive ConnectionFieldType
  | bool
  | int
  | string

/-- The value of a field as its editor has it: a check box, a spin box or a line. -/
inductive EditorValue
  | checked (value : Bool)
  | number (value : Int32)
  | line (value : ByteString)

namespace EditorValue

/-- `QJsonValue::fromVariant`. -/
def toJson : EditorValue → JsonValue
  | .checked value => .bool value
  | .number value => .integer value.toInt
  | .line value => .string value

def toString : EditorValue → ByteString
  | .checked value => if value then text "true" else text "false"
  | .number value =>
    if value < 0 then 45 :: Decimal.decimal value.toInt.natAbs
    else Decimal.decimal value.toInt.natAbs
  | .line value => value

def toInt : EditorValue → Int32
  | .checked value => if value then 1 else 0
  | .number value => value
  | .line value => (JsonValue.integer (stringToLongLong value)).toInt 0

def toBool : EditorValue → Bool
  | .checked value => value
  | .number value => value ≠ 0
  | .line value => (Variant.string value).toBool

end EditorValue

/-- What a field has to do with its settings. -/
structure ConnectionFieldDescriptor where
  id : ByteString
  defaultValue : EditorValue

structure ConnectionConfig where
  ntHost : ByteString := text "127.0.0.1"
  ntTeam : Int32 := 0
  ntUseTeam : Bool := true
  ntClientName : ByteString := text "SmartDashboardApp"
  pluginSettingsJson : ByteString := []

def fieldHost : ByteString := text "host"
def fieldTeamNumber : ByteString := text "team_number"
def fieldUseTeamNumber : ByteString := text "use_team_number"
def fieldClientName : ByteString := text "client_name"

section Settings

variable (toJson : JsonObject → ByteString) (fromJson : ByteString → Option JsonObject)

/-- The object in the settings, unless they are blank or hold none. -/
def settingsObject (config : ConnectionConfig) : Option JsonObject :=
  if trimmed config.pluginSettingsJson = [] then none else fromJson config.pluginSettingsJson

def getConnectionFieldValue (config : ConnectionConfig) (field : ConnectionFieldDescriptor) :
    JsonValue :=
  if field.id = fieldHost then .string config.ntHost
  else if field.id = fieldTeamNumber then .integer config.ntTeam.toInt
  else if field.id = fieldUseTeamNumber then .bool config.ntUseTeam
  else if field.id = fieldClientName then .string config.ntClientName
  else
    match settingsObject fromJson config with
    | none => field.defaultValue.toJson
    | some object =>
      match object.value field.id with
      | .undefined => field.defaultValue.toJson
      | value => value

/-- The object that `setConnectionFieldValue` writes. -/
def editedObject (config : ConnectionConfig) (id : ByteString) (value : EditorValue) : JsonObject :=
  ((settingsObject fromJson config).getD []).insert id value.toJson

def setConnectionFieldValue (config : ConnectionConfig) (id : ByteString) (value : EditorValue) :
    ConnectionConfig :=
  if id = fieldHost then { config with ntHost := value.toString }
  else if id = fieldTeamNumber then { config with ntTeam := value.toInt }
  else if id = fieldUseTeamNumber then { config with ntUseTeam := value.toBool }
  else if id = fieldClientName then { config with ntClientName := value.toString }
  else { config with pluginSettingsJson := toJson (editedObject fromJson config id value) }

def memberObject (config : ConnectionConfig) : JsonObject :=
  let object := JsonObject.insert [] fieldHost (.string config.ntHost)
  let object := object.insert fieldTeamNumber (.integer config.ntTeam.toInt)
  let object := object.insert fieldUseTeamNumber (.bool config.ntUseTeam)
  object.insert fieldClientName (.string config.ntClientName)

/-- A name that is carried over is read with its type. -/
def carry (existing : JsonObject) (name : ByteString) (read : JsonValue → JsonValue)
    (object : JsonObject) : JsonObject :=
  if existing.contains name then object.insert name (read (existing.value name)) else object

/-- The object that `SyncConnectionConfigToPluginSettingsJson` writes. -/
def syncedObject (config : ConnectionConfig) : JsonObject :=
  match settingsObject fromJson config with
  | none => memberObject config
  | some existing =>
    let object := carry existing (text "carrier")
      (fun value => .string (value.toString (text "tcp"))) (memberObject config)
    let object := carry existing (text "channel_id")
      (fun value => .string (value.toString (text "native-link-default"))) object
    let object :=
      carry existing (text "port") (fun value => .integer (value.toInt 5810).toInt) object
    carry existing (text "auto_connect") (fun value => .bool (value.toBoolOr true)) object

def syncToPluginSettingsJson (config : ConnectionConfig) : ConnectionConfig :=
  { config with pluginSettingsJson := toJson (syncedObject fromJson config) }

def syncFromPluginSettingsJson (config : ConnectionConfig) : ConnectionConfig :=
  match settingsObject fromJson config with
  | none => syncToPluginSettingsJson toJson fromJson config
  | some object =>
    { config with
      ntHost :=
        if object.contains fieldHost then (object.value fieldHost).toString config.ntHost
        else config.ntHost
      ntTeam :=
        if object.contains fieldTeamNumber then (object.value fieldTeamNumber).toInt config.ntTeam
        else config.ntTeam
      ntUseTeam :=
        if object.contains fieldUseTeamNumber then
          (object.value fieldUseTeamNumber).toBoolOr config.ntUseTeam
        else config.ntUseTeam
      ntClientName :=
        if object.contains fieldClientName then
          (object.value fieldClientName).toString config.ntClientName
        else config.ntClientName }

/-! ### The dialog -/

def setFieldValues (config : ConnectionConfig) (edits : List (ByteString × EditorValue)) :
    ConnectionConfig :=
  edits.foldl
    (fun config edit => setConnectionFieldValue toJson fromJson config edit.1 edit.2) config

/-- The dialog is closed with the edits. The configuration is stored and read again as it is. -/
def restarted (config : ConnectionConfig) (edits : List (ByteString × EditorValue)) :
    ConnectionConfig :=
  syncFromPluginSettingsJson toJson fromJson
    (syncToPluginSettingsJson toJson fromJson (setFieldValues toJson fromJson config edits))

/-- The objects that are written, in their order. -/
def writtenObjects (config : ConnectionConfig) : List (ByteString × EditorValue) → List JsonObject
  | [] => [syncedObject fromJson config]
  | (id, value) :: edits =>
    let rest := writtenObjects (setConnectionFieldValue toJson fromJson config id value) edits
    if id = fieldHost ∨ id = fieldTeamNumber ∨ id = fieldUseTeamNumber ∨ id = fieldClientName then
      rest
    else editedObject fromJson config id value :: rest

/-- The compact text of an object is read back as the object. -/
structure ReadsBack (object : JsonObject) : Prop where
  nonblank : trimmed (toJson object) ≠ []
  parses : ∃ object', fromJson (toJson object) = some object' ∧
    ∀ name, object'.value name = object.value name

/-- The last value that is entered for a field. -/
def enteredValue (edits : List (ByteString × EditorValue)) (id : ByteString) :
    Option EditorValue :=
  (LastWrite.last Prod.fst id edits).map Prod.snd

/-- An edited field has the value entered for it, and every other one the value it had. -/
def KeepsFields (fields : List ConnectionFieldDescriptor) (config : ConnectionConfig)
    (edits : List (ByteString × EditorValue)) : Prop :=
  ∀ field ∈ fields,
    getConnectionFieldValue fromJson (restarted toJson fromJson config edits) field =
    match enteredValue edits field.id with
    | some value => value.toJson
    | none => getConnectionFieldValue fromJson config field

end Settings

/-! ### What is stored for a field -/

/-- What the settings have under an id, if anything. -/
def storedValue (fromJson : ByteString → Option JsonObject) (config : ConnectionConfig)
    (id : ByteString) : JsonValue :=
  if id = fieldHost then .string config.ntHost
  else if id = fieldTeamNumber then .integer config.ntTeam.toInt
  else if id = fieldUseTeamNumber then .bool config.ntUseTeam
  else if id = fieldClientName then .string config.ntClientName
  else ((settingsObject fromJson config).getD []).value id

/-- The value is one that a field of the type can have. -/
def HasType (value : JsonValue) :
    ConnectionFieldType → Prop
  | .bool => ∃ b, value = .bool b
  | .int => ∃ n : Int32, value = .integer n.toInt
  | .string => ∃ s, value = .string s

/-- The type of the member that an id stands for. -/
def memberType (id : ByteString) : Option ConnectionFieldType :=
  if id = fieldHost then some .string
  else if id = fieldTeamNumber then some .int
  else if id = fieldUseTeamNumber then some .bool
  else if id = fieldClientName then some .string
  else none

/-- The type that a name is carried over with. -/
def carriedType (id : ByteString) : Option ConnectionFieldType :=
  if id = text "carrier" then some .string
  else if id = text "channel_id" then some .string
  else if id = text "port" then some .int
  else if id = text "auto_connect" then some .bool
  else none

/-- What was last entered for the field, or else is stored for it, is of the type that is kept
under its id. Under most ids nothing is kept: the field then has to have its default value. -/
def Survives (fromJson : ByteString → Option JsonObject) (config : ConnectionConfig)
    (edits : List (ByteString × EditorValue)) (field : ConnectionFieldDescriptor) : Prop :=
  let value :=
    match enteredValue edits field.id with
    | some value => value.toJson
    | none => storedValue fromJson config field.id
  value = .undefined ∨
    match (memberType field.id).or (carriedType field.id) with
    | some type => HasType value type
    | none => value = field.defaultValue.toJson

section Lemmas

variable {toJson : JsonObject → ByteString} {fromJson : ByteString → Option JsonObject}
  {config : ConnectionConfig} {id id' : ByteString} {value : EditorValue}
  {edits : List (ByteString × EditorValue)} {object existing : JsonObject}
  {read : JsonValue → JsonValue} {type : ConnectionFieldType}

/-- The value, or the one of a field for which nothing is stored. -/
def orDefault (default : JsonValue) : JsonValue → JsonValue
  | .undefined => default
  | value => value

/-- What a stored value is read as. -/
def ifStored (read : JsonValue → JsonValue) : JsonValue → JsonValue
  | .undefined => .undefined
  | value => read value

theorem ifStored_of_ne {value : JsonValue} (h : value ≠ .undefined) :
    ifStored read value = read value := by
  cases value with
  | undefined => exact absurd rfl h
  | _ => rfl

theorem orDefault_of_ne {default value : JsonValue} (h : value ≠ .undefined) :
    orDefault default value = value := by
  cases value with
  | undefined => exact absurd rfl h
  | _ => rfl

theorem toJson_ne_undefined : value.toJson ≠ .undefined := by
  cases value <;> exact JsonValue.noConfusion

theorem getConnectionFieldValue_eq (field : ConnectionFieldDescriptor) :
    getConnectionFieldValue fromJson config field =
      orDefault field.defaultValue.toJson (storedValue fromJson config field.id) := by
  rw [getConnectionFieldValue, storedValue]
  split_ifs
  · rfl
  · rfl
  · rfl
  · rfl
  · cases settingsObject fromJson config with
    | none => rfl
    | some object => rfl

/-! ### Edits -/

/-- What a member, or the object, makes of a value that is entered. -/
def storedAs (id : ByteString) (value : EditorValue) : JsonValue :=
  match memberType id with
  | some .bool => .bool value.toBool
  | some .int => .integer value.toInt.toInt
  | some .string => .string value.toString
  | none => value.toJson

/-- The parsed text of an object has its values. -/
theorem ReadsBack.value_settingsObject (h : ReadsBack toJson fromJson object)
    (config : ConnectionConfig) :
    ∃ object',
      settingsObject fromJson { config with pluginSettingsJson := toJson object } = some object' ∧
        ∀ name, object'.value name = object.value name := by
  obtain ⟨object', hparse, hvalue⟩ := h.parses
  refine ⟨object', ?_, hvalue⟩
  rw [settingsObject, if_neg h.nonblank, hparse]

theorem fieldIds_nodup :
    [fieldHost, fieldTeamNumber, fieldUseTeamNumber, fieldClientName, text "carrier",
      text "channel_id", text "port", text "auto_connect"].Nodup := by
  decide

/-- The members and the object are told apart by their ids. -/
theorem storedValue_setConnectionFieldValue
    (h : memberType id = none → ReadsBack toJson fromJson (editedObject fromJson config id value)) :
    storedValue fromJson (setConnectionFieldValue toJson fromJson config id value) id' =
      if id' = id then storedAs id value else storedValue fromJson config id' := by
  have hids := fieldIds_nodup
  simp only [List.nodup_cons, List.mem_cons, not_or] at hids
  obtain ⟨⟨hhost_team, hhost_use, hhost_client, -⟩, ⟨hteam_use, hteam_client, -⟩,
    ⟨huse_client, -⟩, -⟩ := hids
  unfold setConnectionFieldValue storedAs
  by_cases hhost : id = fieldHost
  · simp only [if_pos hhost, memberType, storedValue]
    grind [settingsObject]
  by_cases hteam : id = fieldTeamNumber
  · simp only [if_neg hhost, if_pos hteam, memberType, storedValue]
    grind [settingsObject]
  by_cases huse : id = fieldUseTeamNumber
  · simp only [if_neg hhost, if_neg hteam, if_pos huse, memberType, storedValue]
    grind [settingsObject]
  by_cases hclient : id = fieldClientName
  · simp only [if_neg hhost, if_neg hteam, if_neg huse, if_pos hclient, memberType, storedValue]
    grind [settingsObject]
  have hmember : memberType id = none := by
    simp only [memberType, if_neg hhost, if_neg hteam, if_neg huse, if_neg hclient]
  obtain ⟨object', hparse, hvalue⟩ := (h hmember).value_settingsObject config
  have hstored (id' : ByteString) : (object'.value id') =
      if id' = id then value.toJson
      else ((settingsObject fromJson config).getD []).value id' := by
    rw [hvalue, editedObject, JsonObject.value_insert]
  simp only [if_neg hhost, if_neg hteam, if_neg huse, if_neg hclient, hmember, storedValue, hparse,
    Option.getD_some, hstored]
  grind

theorem enteredValue_cons (edit : ByteString × EditorValue) :
    enteredValue (edit :: edits) id =
      (enteredValue edits id).or (if edit.1 = id then some edit.2 else none) := by
  rw [enteredValue, ← List.singleton_append, LastWrite.last_append, LastWrite.last_singleton,
    enteredValue]
  split_ifs
  · cases LastWrite.last Prod.fst id edits <;> rfl
  · cases LastWrite.last Prod.fst id edits <;> rfl

theorem memberType_eq_none_iff : memberType id = none ↔
    ¬(id = fieldHost ∨ id = fieldTeamNumber ∨ id = fieldUseTeamNumber ∨ id = fieldClientName) := by
  simp only [memberType, not_or]
  split_ifs <;> simp_all

theorem forall_writtenObjects_cons {P : JsonObject → Prop} {edit : ByteString × EditorValue}
    (h : ∀ object ∈ writtenObjects toJson fromJson config (edit :: edits), P object) :
    (memberType edit.1 = none → P (editedObject fromJson config edit.1 edit.2)) ∧
      ∀ object ∈ writtenObjects toJson fromJson
        (setConnectionFieldValue toJson fromJson config edit.1 edit.2) edits, P object := by
  obtain ⟨id, value⟩ := edit
  rw [writtenObjects] at h
  by_cases hmember : id = fieldHost ∨ id = fieldTeamNumber ∨ id = fieldUseTeamNumber ∨
      id = fieldClientName
  · rw [if_pos hmember] at h
    exact ⟨fun hnone => absurd hmember (memberType_eq_none_iff.mp hnone), h⟩
  · rw [if_neg hmember, List.forall_mem_cons] at h
    exact ⟨fun _ => h.1, h.2⟩

/-- The last value entered counts. -/
theorem storedValue_setFieldValues (id : ByteString)
    (h : ∀ object ∈ writtenObjects toJson fromJson config edits, ReadsBack toJson fromJson object) :
    storedValue fromJson (setFieldValues toJson fromJson config edits) id =
      match enteredValue edits id with
      | some value => storedAs id value
      | none => storedValue fromJson config id := by
  induction edits generalizing config with
  | nil => rfl
  | cons edit edits ih =>
    obtain ⟨hedit, hrest⟩ := forall_writtenObjects_cons h
    rw [setFieldValues, List.foldl_cons, ← setFieldValues, ih hrest,
      storedValue_setConnectionFieldValue hedit, enteredValue_cons]
    cases enteredValue edits id with
    | some value => rfl
    | none =>
      rw [Option.none_or]
      by_cases hid : edit.1 = id
      · rw [if_pos hid, if_pos hid.symm, hid]
      · rw [if_neg hid, if_neg (Ne.symm hid)]

theorem syncedObject_mem_writtenObjects :
    syncedObject fromJson (setFieldValues toJson fromJson config edits) ∈
      writtenObjects toJson fromJson config edits := by
  induction edits generalizing config with
  | nil => exact List.mem_singleton_self _
  | cons edit edits ih =>
    obtain ⟨id, value⟩ := edit
    rw [writtenObjects, setFieldValues, List.foldl_cons, ← setFieldValues]
    split_ifs
    · exact ih
    · exact List.mem_cons_of_mem _ ih

/-! ### The object with the members -/

/-- How a name that is carried over is read. -/
def readCarried (id : ByteString) (value : JsonValue) : JsonValue :=
  if id = text "carrier" then .string (value.toString (text "tcp"))
  else if id = text "channel_id" then .string (value.toString (text "native-link-default"))
  else if id = text "port" then .integer (value.toInt 5810).toInt
  else .bool (value.toBoolOr true)

theorem value_carry_of_ne {name : ByteString} (h : id ≠ name) :
    (carry existing name read object).value id = object.value id := by
  rw [carry]
  split_ifs
  · rw [JsonObject.value_insert, if_neg h]
  · rfl

theorem carry_of_undefined (h : existing.value id = .undefined) :
    carry existing id read object = object := by
  rw [carry, JsonObject.contains_eq_false_iff.mpr h, if_neg Bool.false_ne_true]

theorem value_carry_self (h : existing.value id ≠ .undefined) :
    (carry existing id read object).value id = read (existing.value id) := by
  have hcontains : existing.contains id = true := by
    rw [← Bool.not_eq_false, JsonObject.contains_eq_false_iff]
    exact h
  rw [carry, if_pos hcontains, JsonObject.value_insert, if_pos rfl]

variable (fromJson) in
theorem value_memberObject : (memberObject config).value id =
    if memberType id = none then .undefined else storedValue fromJson config id := by
  have hids := fieldIds_nodup
  simp only [List.nodup_cons, List.mem_cons, not_or] at hids
  obtain ⟨⟨hhost_team, hhost_use, hhost_client, -⟩, ⟨hteam_use, hteam_client, -⟩,
    ⟨huse_client, -⟩, -⟩ := hids
  have hnil : JsonObject.value [] id = JsonValue.undefined := rfl
  simp only [memberObject, JsonObject.value_insert, memberType, storedValue]
  grind

theorem value_syncedObject_of_carriedType_none (h : carriedType id = none) :
    (syncedObject fromJson config).value id = (memberObject config).value id := by
  have hne : id ≠ text "carrier" ∧ id ≠ text "channel_id" ∧ id ≠ text "port" ∧
      id ≠ text "auto_connect" := by
    unfold carriedType at h
    grind
  obtain ⟨hcarrier, hchannel, hport, hauto⟩ := hne
  rw [syncedObject]
  split
  · rfl
  · rw [value_carry_of_ne hauto, value_carry_of_ne hport, value_carry_of_ne hchannel,
      value_carry_of_ne hcarrier]

/-- A name that is carried over is read, if there is a value. -/
theorem value_carry : (carry existing id read object).value id =
    match existing.value id with
    | .undefined => object.value id
    | value => read value := by
  cases hvalue : existing.value id with
  | undefined => rw [carry_of_undefined hvalue]
  | _ => rw [value_carry_self (by rw [hvalue]; exact JsonValue.noConfusion), hvalue]

theorem value_syncedObject_of_carriedType (h : carriedType id = some type) :
    (syncedObject fromJson config).value id =
      ifStored (readCarried id) (storedValue fromJson config id) := by
  have hids : id = text "carrier" ∨ id = text "channel_id" ∨ id = text "port" ∨
      id = text "auto_connect" := by
    unfold carriedType at h
    grind
  have hmember : memberType id = none := by
    rcases hids with rfl | rfl | rfl | rfl <;> rfl
  have hstored : storedValue fromJson config id =
      ((settingsObject fromJson config).getD []).value id := by
    rcases hids with rfl | rfl | rfl | rfl <;> rfl
  have hnone : (memberObject config).value id = .undefined := by
    rw [value_memberObject fromJson, if_pos hmember]
  rw [syncedObject, hstored]
  cases settingsObject fromJson config with
  | none => exact hnone
  | some existing =>
    dsimp only [Option.getD_some]
    rcases hids with rfl | rfl | rfl | rfl
    · rw [value_carry_of_ne (by decide), value_carry_of_ne (by decide),
        value_carry_of_ne (by decide), value_carry, hnone]
      rfl
    · rw [value_carry_of_ne (by decide), value_carry_of_ne (by decide), value_carry,
        value_carry_of_ne (by decide), hnone]
      rfl
    · rw [value_carry_of_ne (by decide), value_carry, value_carry_of_ne (by decide),
        value_carry_of_ne (by decide), hnone]
      rfl
    · rw [value_carry, value_carry_of_ne (by decide), value_carry_of_ne (by decide),
        value_carry_of_ne (by decide), hnone]
      rfl

theorem value_syncedObject_of_memberType (h : memberType id = some type) :
    (syncedObject fromJson config).value id = storedValue fromJson config id := by
  have hcarried : carriedType id = none := by
    have hids := fieldIds_nodup
    simp only [List.nodup_cons, List.mem_cons, not_or] at hids
    unfold memberType at h
    unfold carriedType
    grind
  rw [value_syncedObject_of_carriedType_none hcarried, value_memberObject fromJson,
    h, if_neg (Option.some_ne_none type)]

/-! ### The restart -/

theorem storedValue_syncToPluginSettingsJson
    (h : ReadsBack toJson fromJson (syncedObject fromJson config)) :
    storedValue fromJson (syncToPluginSettingsJson toJson fromJson config) id =
      (syncedObject fromJson config).value id := by
  obtain ⟨object', hparse, hvalue⟩ := h.value_settingsObject config
  cases hmember : memberType id with
  | some type =>
    rw [value_syncedObject_of_memberType hmember]
    have hsome : memberType id ≠ none := by
      rw [hmember]
      exact Option.some_ne_none type
    rw [ne_eq, memberType_eq_none_iff, not_not] at hsome
    rcases hsome with rfl | rfl | rfl | rfl <;> rfl
  | none =>
    rw [memberType_eq_none_iff] at hmember
    simp only [not_or] at hmember
    obtain ⟨hhost, hteam, huse, hclient⟩ := hmember
    rw [storedValue, if_neg hhost, if_neg hteam, if_neg huse, if_neg hclient,
      syncToPluginSettingsJson, hparse, Option.getD_some, hvalue]

/-- The members are read as they were written. -/
theorem syncFromPluginSettingsJson_syncTo
    (h : ReadsBack toJson fromJson (syncedObject fromJson config)) :
    syncFromPluginSettingsJson toJson fromJson (syncToPluginSettingsJson toJson fromJson config) =
      syncToPluginSettingsJson toJson fromJson config := by
  obtain ⟨object', hparse, hvalue⟩ := h.value_settingsObject config
  have hhost : object'.value fieldHost = .string config.ntHost := by
    rw [hvalue, value_syncedObject_of_memberType rfl]
    rfl
  have hteam : object'.value fieldTeamNumber = .integer config.ntTeam.toInt := by
    rw [hvalue, value_syncedObject_of_memberType rfl]
    rfl
  have huse : object'.value fieldUseTeamNumber = .bool config.ntUseTeam := by
    rw [hvalue, value_syncedObject_of_memberType rfl]
    rfl
  have hclient : object'.value fieldClientName = .string config.ntClientName := by
    rw [hvalue, value_syncedObject_of_memberType rfl]
    rfl
  rw [syncFromPluginSettingsJson, syncToPluginSettingsJson, hparse]
  simp only [hhost, hteam, huse, hclient, JsonValue.toString, JsonValue.toInt, JsonValue.toBoolOr,
    Int32.ofInt_toInt, ite_self]

/-! ### What survives -/

theorem storedAs_eq_iff (h : memberType id = some type) :
    storedAs id value = value.toJson ↔ HasType value.toJson type := by
  rw [storedAs, h]
  cases type <;> cases value <;>
    simp [EditorValue.toJson, EditorValue.toBool, EditorValue.toInt, EditorValue.toString, HasType]

theorem storedAs_ne_undefined : storedAs id value ≠ .undefined := by
  unfold storedAs
  split
  · exact JsonValue.noConfusion
  · exact JsonValue.noConfusion
  · exact JsonValue.noConfusion
  · exact toJson_ne_undefined

theorem hasType_storedValue (h : memberType id = some type) :
    HasType (storedValue fromJson config id) type := by
  unfold memberType at h
  unfold storedValue
  split_ifs at h ⊢
  · cases h
    exact ⟨_, rfl⟩
  · cases h
    exact ⟨_, rfl⟩
  · cases h
    exact ⟨_, rfl⟩
  · cases h
    exact ⟨_, rfl⟩

theorem readCarried_eq_iff {value : JsonValue} (h : carriedType id = some type) :
    readCarried id value = value ↔ HasType value type := by
  unfold carriedType at h
  unfold readCarried
  split_ifs at h ⊢
  · cases h
    cases value <;> simp [HasType, JsonValue.toString]
  · cases h
    cases value <;> simp [HasType, JsonValue.toString]
  · cases h
    constructor
    · intro heq
      exact ⟨_, heq.symm⟩
    · rintro ⟨n, rfl⟩
      rw [JsonValue.toInt, Int32.ofInt_toInt, if_pos rfl]
  · cases h
    cases value <;> simp [HasType, JsonValue.toBoolOr]

theorem readCarried_ne_undefined {value : JsonValue} : readCarried id value ≠ .undefined := by
  unfold readCarried
  split_ifs <;> exact JsonValue.noConfusion

theorem getConnectionFieldValue_restarted (field : ConnectionFieldDescriptor)
    (h : ∀ object ∈ writtenObjects toJson fromJson config edits, ReadsBack toJson fromJson object) :
    getConnectionFieldValue fromJson (restarted toJson fromJson config edits) field =
      orDefault field.defaultValue.toJson
        ((syncedObject fromJson (setFieldValues toJson fromJson config edits)).value field.id) := by
  have hsynced := h _ syncedObject_mem_writtenObjects
  rw [getConnectionFieldValue_eq, restarted, syncFromPluginSettingsJson_syncTo hsynced,
    storedValue_syncToPluginSettingsJson hsynced]

/-- Fields of members and fields that are carried over are kept with values of their type, and all
others lose what was stored. -/
theorem keepsField_iff (field : ConnectionFieldDescriptor)
    (h : ∀ object ∈ writtenObjects toJson fromJson config edits, ReadsBack toJson fromJson object) :
    (getConnectionFieldValue fromJson (restarted toJson fromJson config edits) field =
      match enteredValue edits field.id with
      | some value => value.toJson
      | none => getConnectionFieldValue fromJson config field) ↔
      Survives fromJson config edits field := by
  have hset := storedValue_setFieldValues field.id h
  rw [getConnectionFieldValue_restarted field h, Survives]
  cases hmember : memberType field.id with
  | some type =>
    rw [value_syncedObject_of_memberType hmember, hset, Option.some_or]
    cases enteredValue edits field.id with
    | some value =>
      dsimp only
      rw [orDefault_of_ne storedAs_ne_undefined, storedAs_eq_iff hmember]
      exact ⟨.inr, fun h => h.resolve_left toJson_ne_undefined⟩
    | none =>
      dsimp only
      rw [getConnectionFieldValue_eq]
      exact iff_of_true rfl (.inr (hasType_storedValue hmember))
  | none =>
    -- the value that the dialog leaves, before the object is written anew
    have hvalue : storedValue fromJson (setFieldValues toJson fromJson config edits) field.id =
        match enteredValue edits field.id with
        | some value => value.toJson
        | none => storedValue fromJson config field.id := by
      rw [hset]
      cases enteredValue edits field.id with
      | some value => simp only [storedAs, hmember]
      | none => rfl
    have hwanted : (match enteredValue edits field.id with
        | some value => value.toJson
        | none => getConnectionFieldValue fromJson config field) =
        orDefault field.defaultValue.toJson
          (storedValue fromJson (setFieldValues toJson fromJson config edits) field.id) := by
      rw [hvalue]
      cases enteredValue edits field.id with
      | some value => exact (orDefault_of_ne toJson_ne_undefined).symm
      | none => exact getConnectionFieldValue_eq field
    rw [hwanted, ← hvalue, Option.none_or]
    generalize hstored :
      storedValue fromJson (setFieldValues toJson fromJson config edits) field.id = stored
    cases hcarried : carriedType field.id with
    | some type =>
      rw [value_syncedObject_of_carriedType hcarried, hstored]
      by_cases hnone : stored = .undefined
      · subst hnone
        exact iff_of_true rfl (.inl rfl)
      rw [ifStored_of_ne hnone, orDefault_of_ne readCarried_ne_undefined, orDefault_of_ne hnone,
        readCarried_eq_iff hcarried]
      exact ⟨.inr, fun h => h.resolve_left hnone⟩
    | none =>
      rw [value_syncedObject_of_carriedType_none hcarried, value_memberObject fromJson,
        if_pos hmember]
      by_cases hnone : stored = .undefined
      · subst hnone
        exact iff_of_true rfl (.inl rfl)
      rw [orDefault_of_ne hnone]
      exact ⟨fun h => .inr h.symm, fun h => (h.resolve_left hnone).symm⟩

end Lemmas

/-- Closing the dialog keeps exactly the fields that survive. -/
theorem keepsFields_iff (toJson : JsonObject → ByteString)
    (fromJson : ByteString → Option JsonObject) (fields : List ConnectionFieldDescriptor)
    (config : ConnectionConfig) (edits : List (ByteString × EditorValue))
    (h : ∀ object ∈ writtenObjects toJson fromJson config edits, ReadsBack toJson fromJson object) :
    KeepsFields toJson fromJson fields config edits ↔
      ∀ field ∈ fields, Survives fromJson config edits field :=
  forall₂_congr fun field _ => keepsField_iff field h

/-! ### Two dialogs -/

/-- A name and its value in compact text. -/
def member (name value : String) : ByteString :=
  34 :: (text name ++ [34, 58] ++ text value)

/-- The compact text of an object. -/
def braces (members : List ByteString) : ByteString :=
  123 :: ([44].intercalate members ++ [125])

def autoConnectField : ConnectionFieldDescriptor where
  id := text "auto_connect"
  defaultValue := .checked true

def channelField : ConnectionFieldDescriptor where
  id := text "channel_id"
  defaultValue := .line (text "native-link-default")

def channelObject : JsonObject := [(text "channel_id", .string (text "lab"))]

def editedChannelObject : JsonObject :=
  [(text "channel_id", .string (text "lab")), (text "auto_connect", .bool false)]

def syncedChannelObject : JsonObject :=
  [(text "host", .string (text "127.0.0.1")), (text "team_number", .integer 0),
    (text "use_team_number", .bool true), (text "client_name", .string (text "SmartDashboardApp")),
    (text "channel_id", .string (text "lab")), (text "auto_connect", .bool false)]

def channelJson : ByteString := braces [member "channel_id" "\"lab\""]

def editedChannelJson : ByteString :=
  braces [member "auto_connect" "false", member "channel_id" "\"lab\""]

def syncedChannelJson : ByteString :=
  braces [member "auto_connect" "false", member "channel_id" "\"lab\"",
    member "client_name" "\"SmartDashboardApp\"", member "host" "\"127.0.0.1\"",
    member "team_number" "0", member "use_team_number" "true"]

def channelToJson (object : JsonObject) : ByteString :=
  if object.length = 1 then channelJson
  else if object.length = 2 then editedChannelJson
  else syncedChannelJson

def channelFromJson (json : ByteString) : Option JsonObject :=
  if json = channelJson then some channelObject
  else if json = editedChannelJson then some editedChannelObject
  else if json = syncedChannelJson then some syncedChannelObject
  else none

/-- The choice not to connect by itself survives, and the channel with it. -/
theorem autoConnectOff_kept :
    KeepsFields channelToJson channelFromJson [autoConnectField, channelField]
      { pluginSettingsJson := channelJson } [(text "auto_connect", .checked false)] := by
  refine (keepsFields_iff _ _ _ _ _ ?_).mpr ?_
  · intro object hobject
    rcases List.mem_cons.mp hobject with rfl | hobject
    · exact ⟨by decide, editedChannelObject, rfl, fun _ => rfl⟩
    · rw [List.mem_singleton.mp hobject]
      exact ⟨by decide, syncedChannelObject, rfl, fun _ => rfl⟩
  · intro field hfield
    rcases List.mem_cons.mp hfield with rfl | hfield
    · exact .inr ⟨false, rfl⟩
    · rw [List.mem_singleton.mp hfield]
      exact .inr ⟨text "lab", rfl⟩

def timeoutField : ConnectionFieldDescriptor where
  id := text "timeout_ms"
  defaultValue := .number 1000

def timeoutJson : ByteString := braces [member "timeout_ms" "250"]

def membersJson : ByteString :=
  braces [member "client_name" "\"SmartDashboardApp\"", member "host" "\"127.0.0.1\"",
    member "team_number" "0", member "use_team_number" "true"]

def timeoutToJson (object : JsonObject) : ByteString :=
  if object.length = 1 then timeoutJson else membersJson

def timeoutFromJson (json : ByteString) : Option JsonObject :=
  if json = timeoutJson then some [(text "timeout_ms", .integer 250)]
  else if json = membersJson then some (memberObject {})
  else none

/-- A timeout that is entered is dropped with the object it was put in. -/
theorem timeout_dropped :
    (∀ object ∈ writtenObjects timeoutToJson timeoutFromJson {}
        [(text "timeout_ms", .number 250)], ReadsBack timeoutToJson timeoutFromJson object) ∧
      ¬KeepsFields timeoutToJson timeoutFromJson [timeoutField] {}
        [(text "timeout_ms", .number 250)] := by
  constructor
  · intro object hobject
    rcases List.mem_cons.mp hobject with rfl | hobject
    · exact ⟨by decide, [(text "timeout_ms", .integer 250)], rfl, fun _ => rfl⟩
    · rw [List.mem_singleton.mp hobject]
      exact ⟨by decide, memberObject {}, rfl, fun _ => rfl⟩
  · intro h
    have hvalue : JsonValue.integer 1000 = .integer 250 :=
      h timeoutField (List.mem_singleton_self _)
    exact absurd (JsonValue.integer.inj hvalue) (by decide)

end SmartDashboard.App.ConnectionSettings
