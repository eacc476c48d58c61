import SmartDashboard.App.ConnectionSettings
import SmartDashboard.Capture.RunJson
import SmartDashboard.Library.FlatJson

/-!
# The settings that the plugins read

The window hands its settings to a transport plugin as the compact text of a JSON object. The
plugins have no JSON parser: they look for the name of a setting in its quotation marks, for the
next colon, and there for the next string, the next digits or a word. The two plugins have the
same three functions for it.

The search takes the name in its marks for a name wherever it stands: also where a string is the
name, or ends with a quotation mark and the name. What is read is not unescaped, a sign is passed
over, and behind a value of another type the search goes on.

## Main definitions

- `readPluginStringSetting`, `readPluginPortSetting`, `readPluginBoolSetting`: the functions
- `WritesCompact`: what is relied on of `QJsonDocument`
- `StringFound`, `PortFound`, `BoolFound`: where the search leads to what is stored

## Main results

- `readsSettings_iff`: exactly there it is read
-/

namespace SmartDashboard.App.PluginSettings

open Direct (ByteString)
open Transport
open ConnectionSettings
open Decimal TextSearch FlatJson
open Json (IsSpace Plain quoted)

/-! ### The plugins' functions -/

/-- The position behind the colon. -/
def findValue (json key : ByteString) : Option ByteString := do
  let afterKey ← behind (quoted key) json
  behind [58] afterKey

def readPluginStringSetting (jsonText key : Option ByteString) (fallback : ByteString) :
    ByteString :=
  match jsonText, key with
  | some json, some key =>
    match (do
        let afterColon ← findValue json key
        let afterQuote ← behind [34] afterColon
        upTo 34 afterQuote) with
    | none => fallback
    | some value => if value = [] then fallback else value
  | _, _ => fallback

/-- `strtoul` stops at the largest `unsigned long`, which is above the bound as well. -/
def readPluginPortSetting (jsonText key : Option ByteString) (fallback : UInt16) : UInt16 :=
  match jsonText, key with
  | some json, some key =>
    match findValue json key with
    | none => fallback
    | some afterColon =>
      let value := afterColon.dropWhile fun b => !decide (IsDigit b)
      if value = [] then fallback
      else
        let parsed := decimalValue (value.takeWhile fun b => IsDigit b)
        if 65535 < parsed then fallback else UInt16.ofNat parsed
  | _, _ => fallback

def readPluginBoolSetting (jsonText key : Option ByteString) (fallback : Bool) : Bool :=
  match jsonText, key with
  | some json, some key =>
    match findValue json key with
    | none => fallback
    | some afterColon =>
      let value := afterColon.dropWhile fun b => IsSpace b
      if value = [] then fallback
      else if value.take 4 = App.text "true" then true
      else if value.take 5 = App.text "false" then false
      else fallback
  | _, _ => fallback

inductive NativeLinkCarrierKind
  | sharedMemory
  | tcp
  deriving DecidableEq, Repr

def NativeLinkCarrierKind.toString : NativeLinkCarrierKind → ByteString
  | .sharedMemory => App.text "shm"
  | .tcp => App.text "tcp"

def tryParseCarrierKind (carrier : ByteString) : Option NativeLinkCarrierKind :=
  let normalized := toLower carrier
  if normalized = App.text "shm" ∨ normalized = App.text "shared_memory" ∨
      normalized = App.text "shared-memory" then
    some .sharedMemory
  else if normalized = App.text "tcp" then some .tcp
  else none

def readCarrierKindSetting (jsonText : Option ByteString) : NativeLinkCarrierKind :=
  let kind := NativeLinkCarrierKind.tcp
  let value := readPluginStringSetting jsonText (some (App.text "carrier")) kind.toString
  (tryParseCarrierKind value).getD .tcp

/-! ### What the window writes -/

/-- The names under which `syncedObject` has fields, in ascending order. -/
def settingNames : List ByteString :=
  [App.text "auto_connect", App.text "carrier", App.text "channel_id", fieldClientName, fieldHost,
    App.text "port", fieldTeamNumber, fieldUseTeamNumber]

def scalar : JsonValue → Option Scalar
  | .string value => some (.string value)
  | .integer value => some (.integer value)
  | .bool value => some (.bool value)
  | _ => none

/-- The fields of these names, in ascending order. -/
def members (object : JsonObject) : Members :=
  settingNames.filterMap fun name => (scalar (object.value name)).map (name, ·)

/-- `QJsonObject` has its fields in the order of their names; the compact text has no space. -/
structure WritesCompact (toJson : JsonObject → ByteString) (escape : UInt8 → ByteString)
    (object : JsonObject) : Prop where
  escapes : Escapes escape
  toJson_eq : toJson object = FlatJson.text escape (members object)

/-! ### What is stored -/

def nonempty (value : ByteString) : Option ByteString := if value = [] then none else some value

def portOf (value : ℕ) : Option UInt16 :=
  if 65535 < value then none else some (UInt16.ofNat value)

/-- The field, if it is a string that is not empty. -/
def storedString (object : JsonObject) (key : ByteString) : Option ByteString :=
  match object.value key with
  | .string value => nonempty value
  | _ => none

/-- The field, if it is an integer of 16 bits. -/
def storedPort (object : JsonObject) (key : ByteString) : Option UInt16 :=
  match object.value key with
  | .integer value => if 0 ≤ value then portOf value.natAbs else none
  | _ => none

def storedBool (object : JsonObject) (key : ByteString) : Option Bool :=
  match object.value key with
  | .bool value => some value
  | _ => none

/-! ### Where it is found -/

/-- The search leads to no member; or to the key's own, whose string has no quotation mark, no
backslash and no control character, or which is the last one and no string; or by chance to
another that reads like what is stored. -/
def StringFound (escape : UInt8 → ByteString) (object : JsonObject) (key : ByteString) : Prop :=
  match reached key (members object) with
  | [] => True
  | (name, .string value) :: _ =>
    if name = key then ∀ b ∈ value, Plain b
    else storedString object key = nonempty (upToMark escape value)
  | (name, _) :: rest =>
    if name = key then rest = [] else storedString object key = rest.head?.map Prod.fst

/-- The search leads to no member; or to the key's own, whose number is not one of -65535 to -1;
or to one that is no number, and no digits or more than a port come behind it; or by chance to
digits of what is stored. -/
def PortFound (escape : UInt8 → ByteString) (object : JsonObject) (key : ByteString) : Prop :=
  match reached key (members object) with
  | [] => True
  | (name, .integer value) :: _ =>
    if name = key then ¬(-65535 ≤ value ∧ value < 0)
    else storedPort object key = portOf value.natAbs
  | found =>
    let digits := digitsAfter escape found
    if digits = [] then storedPort object key = none
    else storedPort object key = portOf (decimalValue digits)

/-- The search leads to no member; or to the key's own; or by chance to another of the same
boolean, or to no boolean where none is stored. -/
def BoolFound (object : JsonObject) (key : ByteString) : Prop :=
  match reached key (members object) with
  | [] => True
  | (name, .bool value) :: _ => name = key ∨ storedBool object key = some value
  | _ => storedBool object key = none

section Reading

variable {escape : UInt8 → ByteString} {toJson : JsonObject → ByteString}
  {fromJson : ByteString → Option JsonObject} {config : ConnectionConfig} {object : JsonObject}
  {key name json bytes : ByteString} {found rest : Members} {value : Scalar}

/-! ### What is read behind a colon -/

def portBehind (escape : UInt8 → ByteString) (found : Members) : Option UInt16 :=
  if digitsAfter escape found = [] then none else portOf (decimalValue (digitsAfter escape found))

def boolBehind : Members → Option Bool
  | (_, .bool value) :: _ => some value
  | _ => none

/-- The members of a text, and a name that is searched in it. -/
structure IsSearched (escape : UInt8 → ByteString) (key json : ByteString) (found : Members) :
    Prop where
  escapes : Escapes escape
  names : ∀ member ∈ found, IsName member.1
  findValue_eq : findValue json key = behindColon escape found

theorem IsSearched.string_eq (h : IsSearched escape key json found) (fallback : ByteString) :
    readPluginStringSetting (some json) (some key) fallback =
      ((stringAfter escape found).bind nonempty).getD fallback := by
  have hstring : (do
        let afterColon ← findValue json key
        let afterQuote ← behind [34] afterColon
        upTo 34 afterQuote) = stringAfter escape found := by
    rw [h.findValue_eq, ← h.escapes.stringBehind_eq h.names]
    cases behindColon escape found <;> rfl
  rw [readPluginStringSetting]
  simp only [hstring]
  cases stringAfter escape found with
  | none => rfl
  | some value =>
    rw [Option.bind_some, nonempty]
    dsimp only
    split_ifs
    · rfl
    · rfl

theorem dropWhile_eq_nil_iff_digitRun (text : ByteString) :
    (text.dropWhile fun b => !decide (IsDigit b)) = [] ↔ digitRun text = [] := by
  rw [digitRun_eq_nil_iff, List.dropWhile_eq_nil_iff]
  simp

theorem IsSearched.port_eq (h : IsSearched escape key json found) (fallback : UInt16) :
    readPluginPortSetting (some json) (some key) fallback =
      (portBehind escape found).getD fallback := by
  rw [readPluginPortSetting, portBehind]
  dsimp only
  rw [h.findValue_eq]
  cases hcolon : behindColon escape found with
  | none =>
    cases found with
    | nil => rfl
    | cons member found => cases hcolon
  | some text =>
    have hdigits := h.escapes.digitRun_behind h.names hcolon
    dsimp only
    simp only [dropWhile_eq_nil_iff_digitRun, ← hdigits]
    rw [← digitRun, portOf]
    split_ifs
    · rfl
    · rfl
    · rfl

theorem dropWhile_isSpace {b : UInt8} (hb : ¬IsSpace b) (text : ByteString) :
    (b :: text).dropWhile (fun b => IsSpace b) = b :: text :=
  List.dropWhile_cons_of_neg (by simpa using hb)

/-- No number begins like a word. -/
theorem exists_integerText (n : ℤ) :
    ∃ b tail, integerText n = b :: tail ∧ (b = 45 ∨ IsDigit b) := by
  rw [integerText]
  split_ifs
  · exact ⟨45, _, rfl, .inl rfl⟩
  · obtain ⟨b, tail, hdecimal⟩ := List.exists_cons_of_ne_nil (decimal_ne_nil n.natAbs)
    refine ⟨b, tail, hdecimal, .inr (isDigit_of_mem_decimal (n := n.natAbs) ?_)⟩
    rw [hdecimal]
    exact List.mem_cons_self

/-- The word behind a colon, or what stands for none. -/
def wordOf (text : ByteString) (fallback : Bool) : Bool :=
  let value := text.dropWhile fun b => IsSpace b
  if value = [] then fallback
  else if value.take 4 = App.text "true" then true
  else if value.take 5 = App.text "false" then false
  else fallback

theorem wordOf_of_head {b : UInt8} (hspace : ¬IsSpace b) (ht : b ≠ 116) (hf : b ≠ 102)
    (text : ByteString) (fallback : Bool) : wordOf (b :: text) fallback = fallback := by
  have htrue : (b :: text).take 4 ≠ App.text "true" := fun h => ht (List.cons.inj h).1
  have hfalse : (b :: text).take 5 ≠ App.text "false" := fun h => hf (List.cons.inj h).1
  rw [wordOf, dropWhile_isSpace hspace, if_neg (List.cons_ne_nil b text), if_neg htrue,
    if_neg hfalse]

theorem IsSearched.bool_eq (h : IsSearched escape key json found) (fallback : Bool) :
    readPluginBoolSetting (some json) (some key) fallback =
      (boolBehind found).getD fallback := by
  rw [readPluginBoolSetting]
  dsimp only
  rw [h.findValue_eq]
  cases found with
  | nil => rfl
  | cons member rest =>
    obtain ⟨name, value⟩ := member
    show wordOf (value.text escape ++ endText escape rest) fallback = _
    cases value with
    | string bytes =>
      rw [Scalar.text, quoted, List.cons_append]
      exact wordOf_of_head (by decide) (by decide) (by decide) _ fallback
    | integer n =>
      obtain ⟨b, tail, htext, hb⟩ := exists_integerText n
      rw [Scalar.text, htext, List.cons_append]
      refine wordOf_of_head ?_ ?_ ?_ _ fallback
      · rintro (rfl | rfl | rfl | rfl) <;> exact absurd hb (by decide)
      · rintro rfl
        exact absurd hb (by decide)
      · rintro rfl
        exact absurd hb (by decide)
    | bool b => cases b <;> rfl

/-! ### Where the search leads -/

theorem isSuffix_reached (key : ByteString) (found : Members) : reached key found <:+ found := by
  induction found with
  | nil => exact List.suffix_rfl
  | cons member found ih =>
    rw [reached]
    split_ifs
    · exact List.suffix_rfl
    · exact List.suffix_cons ..
    · exact ih.trans (List.suffix_cons ..)

/-- A name of the object is not passed over. -/
theorem reached_ne_nil (h : (key, value) ∈ found) : reached key found ≠ [] := by
  induction found with
  | nil => cases h
  | cons member found ih =>
    rw [reached]
    rcases List.mem_cons.mp h with rfl | htail
    · rw [if_pos rfl]
      exact List.cons_ne_nil _ _
    · split_ifs
      · exact List.cons_ne_nil _ _
      · exact List.ne_nil_of_mem htail
      · exact ih htail

theorem isName_of_mem_settingNames (h : name ∈ settingNames) : IsName name := by
  have hall : ∀ name ∈ settingNames, IsName name := by decide
  exact hall name h

theorem mem_members (h : (name, value) ∈ members object) :
    name ∈ settingNames ∧ scalar (object.value name) = some value := by
  obtain ⟨name', hname, hmap⟩ := List.mem_filterMap.mp h
  obtain ⟨value', hvalue, heq⟩ := Option.map_eq_some_iff.mp hmap
  cases heq
  exact ⟨hname, hvalue⟩

theorem isName_of_mem_members : ∀ member ∈ members object, IsName member.1 :=
  fun _ hmem => isName_of_mem_settingNames (mem_members hmem).1

/-- The search in the text of an object. -/
theorem WritesCompact.isSearched (h : WritesCompact toJson escape object) (hkey : IsName key) :
    IsSearched escape key (toJson object) (reached key (members object)) where
  escapes := h.escapes
  names member hmem := isName_of_mem_members member ((isSuffix_reached key _).subset hmem)
  findValue_eq := by
    rw [h.toJson_eq, findValue]
    exact h.escapes.behind_name hkey isName_of_mem_members

/-- The object has no fields but those of the names. -/
def HasOnlySettings (object : JsonObject) : Prop :=
  ∀ key, key ∉ settingNames → object.value key = .undefined

theorem HasOnlySettings.scalar_eq_none (h : HasOnlySettings object)
    (hnil : reached key (members object) = []) : scalar (object.value key) = none := by
  by_cases hkey : key ∈ settingNames
  · cases hscalar : scalar (object.value key) with
    | none => rfl
    | some value =>
      have hmem : (key, value) ∈ members object :=
        List.mem_filterMap.mpr ⟨key, hkey, by rw [hscalar, Option.map_some]⟩
      exact absurd hnil (reached_ne_nil hmem)
  · rw [h key hkey]
    rfl

/-- The search leads to the key's own member, if to one of its name. -/
theorem scalar_of_reached (hfound : reached key (members object) = (key, value) :: rest) :
    scalar (object.value key) = some value := by
  have hmem : (key, value) ∈ reached key (members object) := by
    rw [hfound]
    exact List.mem_cons_self
  exact (mem_members ((isSuffix_reached key _).subset hmem)).2

theorem storedString_eq (object : JsonObject) (key : ByteString) :
    storedString object key =
      match scalar (object.value key) with
      | some (.string value) => nonempty value
      | _ => none := by
  rw [storedString]
  cases object.value key <;> rfl

theorem storedPort_eq (object : JsonObject) (key : ByteString) :
    storedPort object key =
      match scalar (object.value key) with
      | some (.integer value) => if 0 ≤ value then portOf value.natAbs else none
      | _ => none := by
  rw [storedPort]
  cases object.value key <;> rfl

theorem storedBool_eq (object : JsonObject) (key : ByteString) :
    storedBool object key =
      match scalar (object.value key) with
      | some (.bool value) => some value
      | _ => none := by
  rw [storedBool]
  cases object.value key <;> rfl

theorem nonempty_inj {value value' : ByteString} :
    nonempty value = nonempty value' ↔ value = value' := by
  unfold nonempty
  split_ifs with hvalue hvalue' hvalue'
  · simp [hvalue, hvalue']
  · simp [hvalue, Ne.symm hvalue']
  · simp [hvalue, hvalue']
  · simp

theorem nonempty_name (hname : IsName name) : nonempty name = some name := if_neg hname.1

/-- The name behind a value that is no string is read. -/
theorem bind_head_fst (h : ∀ member ∈ rest, IsName member.1) :
    (rest.head?.map Prod.fst).bind nonempty = rest.head?.map Prod.fst := by
  cases rest with
  | nil => rfl
  | cons member rest => exact nonempty_name (h member List.mem_cons_self)

theorem head_fst_eq_none_iff : rest.head?.map Prod.fst = none ↔ rest = [] := by
  rw [Option.map_eq_none_iff, List.head?_eq_none_iff]

theorem forall_getD_iff {α : Type*} [Nontrivial α] {read stored : Option α} :
    (∀ fallback, read.getD fallback = stored.getD fallback) ↔ read = stored := by
  constructor
  · intro h
    cases read with
    | none =>
      cases stored with
      | none => rfl
      | some value =>
        obtain ⟨other, hother⟩ := exists_ne value
        exact absurd (h other) hother
    | some value =>
      cases stored with
      | none =>
        obtain ⟨other, hother⟩ := exists_ne value
        exact absurd (h other).symm hother
      | some value' => rw [show value = value' from h value]
  · rintro rfl fallback
    rfl

/-! ### Exactly there -/

theorem string_found_iff (h : WritesCompact toJson escape object) (hkey : IsName key)
    (honly : HasOnlySettings object) :
    (∀ fallback, readPluginStringSetting (some (toJson object)) (some key) fallback =
        (storedString object key).getD fallback) ↔ StringFound escape object key := by
  have hsearched := h.isSearched hkey
  have hnames := hsearched.names
  simp only [hsearched.string_eq]
  have : Nontrivial ByteString := ⟨[], [0], List.cons_ne_nil _ _ |>.symm⟩
  rw [forall_getD_iff, StringFound]
  cases hfound : reached key (members object) with
  | nil =>
    have hnone := honly.scalar_eq_none hfound
    rw [storedString_eq, hnone]
    exact iff_of_true rfl trivial
  | cons member rest =>
    obtain ⟨name, value⟩ := member
    rw [hfound, List.forall_mem_cons] at hnames
    have hown (heq : name = key) : scalar (object.value key) = some value :=
      scalar_of_reached (heq ▸ hfound)
    have hother (hvalue : stringAfter escape ((name, value) :: rest) = rest.head?.map Prod.fst)
        (hstored : name = key → storedString object key = none) :
        (stringAfter escape ((name, value) :: rest)).bind nonempty = storedString object key ↔
          if name = key then rest = [] else storedString object key = rest.head?.map Prod.fst := by
      rw [hvalue, bind_head_fst hnames.2]
      split_ifs with heq
      · rw [hstored heq]
        exact head_fst_eq_none_iff
      · exact eq_comm
    cases value with
    | string bytes =>
      show nonempty (upToMark escape bytes) = storedString object key ↔ if name = key then _ else _
      split_ifs with heq
      · rw [storedString_eq, hown heq]
        exact nonempty_inj.trans h.escapes.upToMark_eq_iff
      · exact eq_comm
    | integer n => exact hother rfl fun heq => by rw [storedString_eq, hown heq]
    | bool b => exact hother rfl fun heq => by rw [storedString_eq, hown heq]

theorem portOf_eq_none_iff {n : ℕ} : portOf n = none ↔ 65535 < n := by
  unfold portOf
  split_ifs with h
  · simp [h]
  · simp [h]

theorem port_found_iff (h : WritesCompact toJson escape object) (hkey : IsName key)
    (honly : HasOnlySettings object) :
    (∀ fallback, readPluginPortSetting (some (toJson object)) (some key) fallback =
        (storedPort object key).getD fallback) ↔ PortFound escape object key := by
  have hsearched := h.isSearched hkey
  simp only [hsearched.port_eq]
  have : Nontrivial UInt16 := ⟨0, 1, by decide⟩
  rw [forall_getD_iff, PortFound]
  cases hfound : reached key (members object) with
  | nil =>
    have hnone := honly.scalar_eq_none hfound
    rw [storedPort_eq, hnone]
    exact iff_of_true rfl trivial
  | cons member rest =>
    obtain ⟨name, value⟩ := member
    have hother (found : Members) : portBehind escape found = storedPort object key ↔
        if digitsAfter escape found = [] then storedPort object key = none
        else storedPort object key = portOf (decimalValue (digitsAfter escape found)) := by
      rw [portBehind]
      split_ifs
      · exact eq_comm
      · exact eq_comm
    cases value with
    | string bytes => exact hother _
    | bool b => exact hother _
    | integer n =>
      have hread : portBehind escape ((name, .integer n) :: rest) = portOf n.natAbs := by
        rw [portBehind, digitsAfter, if_neg (decimal_ne_nil _), decimalValue_decimal]
      rw [hread]
      show _ ↔ if name = key then _ else _
      split_ifs with heq
      · subst heq
        rw [storedPort_eq, scalar_of_reached hfound]
        dsimp only
        by_cases hnonneg : 0 ≤ n
        · rw [if_pos hnonneg]
          exact iff_of_true rfl (by omega)
        · rw [if_neg hnonneg, portOf_eq_none_iff]
          omega
      · exact eq_comm

theorem bool_found_iff (h : WritesCompact toJson escape object) (hkey : IsName key)
    (honly : HasOnlySettings object) :
    (∀ fallback, readPluginBoolSetting (some (toJson object)) (some key) fallback =
        (storedBool object key).getD fallback) ↔ BoolFound object key := by
  have hsearched := h.isSearched hkey
  simp only [hsearched.bool_eq]
  rw [forall_getD_iff, BoolFound]
  cases hfound : reached key (members object) with
  | nil =>
    have hnone := honly.scalar_eq_none hfound
    rw [storedBool_eq, hnone]
    exact iff_of_true rfl trivial
  | cons member rest =>
    obtain ⟨name, value⟩ := member
    cases value with
    | string bytes => exact eq_comm
    | integer n => exact eq_comm
    | bool b =>
      show some b = storedBool object key ↔ name = key ∨ storedBool object key = some b
      constructor
      · exact fun heq => .inr heq.symm
      · rintro (rfl | heq)
        · rw [storedBool_eq, scalar_of_reached hfound]
        · exact heq.symm

/-- A string that needs no escape is found, unless the search stops before it. -/
theorem stringFound_of_plain (hfound : reached key (members object) = (key, .string bytes) :: rest)
    (hplain : ∀ b ∈ bytes, Plain b) : StringFound escape object key := by
  rw [StringFound, hfound]
  show if key = key then _ else _
  rwa [if_pos rfl]

variable (fromJson config) in
theorem hasOnlySettings_syncedObject : HasOnlySettings (syncedObject fromJson config) := by
  intro key hkey
  simp only [settingNames, List.mem_cons, List.not_mem_nil, or_false, not_or] at hkey
  obtain ⟨hauto, hcarrier, hchannel, hclient, hhost, hport, hteam, huse⟩ := hkey
  have hcarried : carriedType key = none := by
    rw [carriedType, if_neg hcarrier, if_neg hchannel, if_neg hport, if_neg hauto]
  have hmember : memberType key = none := by
    rw [memberType, if_neg hhost, if_neg hteam, if_neg huse, if_neg hclient]
  rw [value_syncedObject_of_carriedType_none hcarried, value_memberObject fromJson,
    if_pos hmember]

end Reading

/-- For every configuration of the window, every key and each of the three functions: whatever the
fallback is, the function returns what is stored under the key, or the fallback if that is of
another type, exactly where the search leads to it. -/
theorem readsSettings_iff (toJson : JsonObject → ByteString)
    (fromJson : ByteString → Option JsonObject)
    (escape : UInt8 → ByteString) (config : ConnectionConfig) (key : ByteString)
    (h : WritesCompact toJson escape (syncedObject fromJson config)) (hkey : IsName key) :
    let object := syncedObject fromJson config
    let json := (syncToPluginSettingsJson toJson fromJson config).pluginSettingsJson
    ((∀ fallback, readPluginStringSetting (some json) (some key) fallback =
        (storedString object key).getD fallback) ↔ StringFound escape object key) ∧
      ((∀ fallback, readPluginPortSetting (some json) (some key) fallback =
        (storedPort object key).getD fallback) ↔ PortFound escape object key) ∧
      ((∀ fallback, readPluginBoolSetting (some json) (some key) fallback =
        (storedBool object key).getD fallback) ↔ BoolFound object key) := by
  have honly := hasOnlySettings_syncedObject fromJson config
  exact ⟨string_found_iff h hkey honly, port_found_iff h hkey honly, bool_found_iff h hkey honly⟩

/-- The carrier, where the search leads to it. -/
theorem readCarrierKindSetting_eq {toJson : JsonObject → ByteString} {escape : UInt8 → ByteString}
    {object : JsonObject} (h : WritesCompact toJson escape object) (honly : HasOnlySettings object)
    (hfound : StringFound escape object (App.text "carrier")) :
    readCarrierKindSetting (some (toJson object)) =
      ((storedString object (App.text "carrier")).bind tryParseCarrierKind).getD .tcp := by
  rw [readCarrierKindSetting, (string_found_iff h (by decide) honly).mpr hfound]
  cases storedString object (App.text "carrier") with
  | none => decide
  | some carrier => rfl

/-! ### Two configurations -/

theorem hexDigit_ne_mark : ∀ n < 16, (34 : UInt8) ≠ Capture.hexDigit n := by decide

/-- The escapes that are in use. -/
theorem escapes_escapeByte : Escapes Capture.escapeByte where
  plain b hb := by
    obtain ⟨hcontrol, hquote, hbackslash⟩ := hb
    have hne (c : UInt8) (hc : c < 32) : b ≠ c := by
      rintro rfl
      exact absurd hc (UInt8.not_lt.mpr hcontrol)
    rw [Capture.escapeByte, if_neg hbackslash, if_neg hquote, if_neg (hne 8 (by decide)),
      if_neg (hne 12 (by decide)), if_neg (hne 10 (by decide)), if_neg (hne 13 (by decide)),
      if_neg (hne 9 (by decide)), if_neg (UInt8.not_lt.mpr hcontrol)]
  quote := by decide
  other b hb hquote := by
    rw [Capture.escapeByte]
    split_ifs with h92 h8 h12 h10 h13 h9 h32
    · exact ⟨92, [], rfl, by decide⟩
    · exact ⟨98, [], rfl, by decide⟩
    · exact ⟨102, [], rfl, by decide⟩
    · exact ⟨110, [], rfl, by decide⟩
    · exact ⟨114, [], rfl, by decide⟩
    · exact ⟨116, [], rfl, by decide⟩
    · have hhigh := hexDigit_ne_mark (b.toNat / 16) (by have := b.toNat_lt; omega)
      have hlow := hexDigit_ne_mark (b.toNat % 16) (Nat.mod_lt _ (by decide))
      refine ⟨117, [48, 48, Capture.hexDigit (b.toNat / 16), Capture.hexDigit (b.toNat % 16)],
        rfl, ?_⟩
      simp [hhigh, hlow]
    · exact absurd ⟨UInt8.not_lt.mp h32, hquote, h92⟩ hb

def compactToJson (object : JsonObject) : ByteString :=
  FlatJson.text Capture.escapeByte (members object)

/-- Settings in which a port is stored. -/
def portFromJson (_ : ByteString) : Option JsonObject :=
  some [(App.text "port", .integer 5810)]

def portConfig (clientName : ByteString) : ConnectionConfig :=
  { ntClientName := clientName, pluginSettingsJson := App.text "\x7b\"port\":5810\x7d" }

/-- The host of the default configuration. -/
theorem defaultHost_read :
    readPluginStringSetting
      (some (syncToPluginSettingsJson compactToJson portFromJson
        (portConfig (App.text "SmartDashboardApp"))).pluginSettingsJson)
      (some fieldHost) (App.text "localhost") = App.text "127.0.0.1" := by
  have h := readsSettings_iff compactToJson portFromJson Capture.escapeByte
    (portConfig (App.text "SmartDashboardApp")) fieldHost ⟨escapes_escapeByte, rfl⟩ (by decide)
  have hfound : StringFound Capture.escapeByte
      (syncedObject portFromJson (portConfig (App.text "SmartDashboardApp"))) fieldHost := by
    have hreached : reached fieldHost (members (syncedObject portFromJson
        (portConfig (App.text "SmartDashboardApp")))) =
        [(fieldHost, .string (App.text "127.0.0.1")), (App.text "port", .integer 5810),
          (fieldTeamNumber, .integer 0), (fieldUseTeamNumber, .bool true)] := by decide +kernel
    exact stringFound_of_plain hreached (Json.plain_of_all rfl)
  have hstored : storedString
      (syncedObject portFromJson (portConfig (App.text "SmartDashboardApp"))) fieldHost =
        some (App.text "127.0.0.1") := by decide
  rw [h.1.mpr hfound (App.text "localhost"), hstored, Option.getD_some]

/-- A client that is called `port`: the search for the port stops at the name of the client, and
the next colon is the one of the host. -/
theorem portClient_reads_host :
    ¬∀ (toJson : JsonObject → ByteString) (fromJson : ByteString → Option JsonObject)
      (escape : UInt8 → ByteString) (config : ConnectionConfig) (key : ByteString),
      WritesCompact toJson escape (syncedObject fromJson config) → key ∈ settingNames →
        let object := syncedObject fromJson config
        let json := (syncToPluginSettingsJson toJson fromJson config).pluginSettingsJson
        (∀ fallback, readPluginStringSetting (some json) (some key) fallback =
            (storedString object key).getD fallback) ∧
          (∀ fallback, readPluginPortSetting (some json) (some key) fallback =
            (storedPort object key).getD fallback) ∧
          ∀ fallback, readPluginBoolSetting (some json) (some key) fallback =
            (storedBool object key).getD fallback := by
  intro h
  have hport := (h compactToJson portFromJson Capture.escapeByte (portConfig (App.text "port"))
    (App.text "port") ⟨escapes_escapeByte, rfl⟩ (by decide)).2.1 5810
  have hstored : storedPort (syncedObject portFromJson (portConfig (App.text "port")))
      (App.text "port") = some 5810 := by decide
  rw [hstored] at hport
  have hread : readPluginPortSetting (some (syncToPluginSettingsJson compactToJson portFromJson
      (portConfig (App.text "port"))).pluginSettingsJson) (some (App.text "port")) 5810 = 127 := by
    decide +kernel
  rw [hread] at hport
  exact absurd hport (by decide)

end SmartDashboard.App.PluginSettings
