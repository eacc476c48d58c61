import SmartDashboard.Library.JsonSearch
import SmartDashboard.NT4.Publishing

/-!
# The NT4 client's text frames

A text frame is a JSON array of messages. The client has no JSON parser: it looks for the text
`"method"`, takes what the next two quotation marks behind the next colon enclose for its value,
and finds the fields of an announce in the same way. Only the end of an object is found by
counting braces.

A position in a text is what remains of the text from there on.

## Main definitions

- `jsonExtractString`, `jsonExtractInt`, `jsonExtractObject`: the fields of a fragment
- `jsonFindObjectEnd`: the end of the object that begins a text
- `handleTextMessage`: the topics that a frame announces, the table and the callbacks

## Main results

- `balanced_tokens`: the braces of a value are counted right
-/

namespace SmartDashboard.NT4

open Decimal Json TextSearch Direct

/-- The text between two positions. -/
def between (first last : ByteString) : ByteString :=
  first.take (first.length - last.length)

/-- The result is empty if there is none, as it is if the string is empty. -/
def jsonExtractString (json key : ByteString) : ByteString :=
  (do
    let afterKey ← behind (quoted key) json
    let afterColon ← behind [58] afterKey
    let afterQuote ← behind [34] afterColon
    upTo 34 afterQuote).getD []

/-- The characters of `"-0123456789"`. -/
def isIntByte (b : UInt8) : Bool :=
  b = 45 ∨ IsDigit b

/-- `std::strtoll` in base 10, on a text of these characters. -/
def strtoll (token : ByteString) : Int64 :=
  let (negative, unsigned) := lexSign token
  let magnitude : ℤ := decimalValue (takeDigits unsigned).1
  Int64.ofInt (max (-2 ^ 63) (min (2 ^ 63 - 1) (if negative then -magnitude else magnitude)))

def jsonExtractInt (json key : ByteString) : Int64 :=
  match behind (quoted key) json with
  | none => -1
  | some afterKey =>
    match behind [58] afterKey with
    | none => -1
    | some afterColon =>
      let value := afterColon.dropWhile fun b => !isIntByte b
      if value = [] then -1 else strtoll (value.takeWhile isIntByte)

/-- Where the count of the braces is: outside a string, in one, or behind a backslash in one. -/
inductive ScanState where
  | plain
  | inString
  | escaped
  deriving DecidableEq

/-- The loop of `JsonFindObjectEnd`, which returns the position behind the closing brace. -/
def objectEndFrom : ScanState → ℤ → ByteString → Option ByteString
  | _, _, [] => none
  | .escaped, depth, _ :: rest => objectEndFrom .inString depth rest
  | .inString, depth, c :: rest =>
    if c = 92 then objectEndFrom .escaped depth rest
    else if c = 34 then objectEndFrom .plain depth rest
    else objectEndFrom .inString depth rest
  | .plain, depth, c :: rest =>
    if c = 34 then objectEndFrom .inString depth rest
    else if c = 123 then objectEndFrom .plain (depth + 1) rest
    else if c = 125 then
      if depth - 1 = 0 then some rest else objectEndFrom .plain (depth - 1) rest
    else objectEndFrom .plain depth rest

def jsonFindObjectEnd (json : ByteString) : Option ByteString :=
  if json.head? = some 123 then objectEndFrom .plain 0 json else none

def jsonExtractObject (json key : ByteString) : ByteString :=
  (do
    let afterKey ← behind (quoted key) json
    let afterColon ← behind [58] afterKey
    let openBrace := afterColon.dropWhile fun b => IsSpace b
    let behindObject ← jsonFindObjectEnd openBrace
    pure (between openBrace behindObject)).getD []

def typeCodeFromString (typeStr : ByteString) : NT4TypeCode :=
  if typeStr = App.text "boolean" then .boolean
  else if typeStr = App.text "double" then .double
  else if typeStr = App.text "int" then .int
  else if typeStr = App.text "float" then .float
  else if typeStr = App.text "string" then .string
  else if typeStr = App.text "raw" then .raw
  else if typeStr = App.text "boolean[]" then .booleanArr
  else if typeStr = App.text "double[]" then .doubleArr
  else if typeStr = App.text "int[]" then .intArr
  else if typeStr = App.text "float[]" then .floatArr
  else if typeStr = App.text "string[]" then .stringArr
  else .raw

/-- What is stored of an announce. -/
structure TopicMetadata extends AnnouncedTopic where
  typeStr : ByteString
  typeCode : NT4TypeCode
  serverId : Int32
  propertiesJson : ByteString

structure TopicAnnounce where
  topicPath : ByteString
  typeStr : ByteString
  propertiesJson : ByteString
  deriving DecidableEq

/-- What the announce callback gets. -/
def TopicMetadata.announce (topic : TopicMetadata) : TopicAnnounce where
  topicPath := stripSmartDashboardPrefix topic.name
  typeStr := topic.typeStr
  propertiesJson := topic.propertiesJson

/-- The part of a frame from `"params"` to the end of the object behind it, or all the rest. -/
def paramsBlock (params : ByteString) : ByteString :=
  let behindObject := do
    let afterColon ← behind [58] (params.drop 8)
    let openBrace ← search [123] afterColon
    jsonFindObjectEnd openBrace
  between params (behindObject.getD [])

/-- The topic of a params block, unless a field is missing. -/
def topicOf? (block : ByteString) : Option TopicMetadata :=
  let name := jsonExtractString block (App.text "name")
  let id := jsonExtractInt block (App.text "id")
  let typeStr := jsonExtractString block (App.text "type")
  let propsJson := jsonExtractObject block (App.text "properties")
  if h : name ≠ [] ∧ 0 ≤ id ∧ typeStr ≠ [] then
    some
      { name
        name_ne_nil := h.1
        typeStr
        typeCode := typeCodeFromString typeStr
        serverId := id.toInt32
        propertiesJson := if propsJson = [] then App.text "\x7b\x7d" else propsJson }
  else none

/-- The topic of the entry that begins with `"method"`, if it is an announce. -/
def readEntry (entry : ByteString) : Option TopicMetadata :=
  if jsonExtractString entry (App.text "method") = App.text "announce" then
    (search (quoted (App.text "params")) entry).bind fun params => topicOf? (paramsBlock params)
  else none

/-- The topics of the entries of a text, in order. Every turn of the loop passes eight bytes, so as
many turns as there are bytes are enough. -/
def topicsWithin : ℕ → ByteString → List TopicMetadata
  | 0, _ => []
  | turns + 1, text =>
    match search (quoted (App.text "method")) text with
    | none => []
    | some entry => (readEntry entry).toList ++ topicsWithin turns (entry.drop 8)

abbrev TopicTable := Int32 → Option TopicMetadata

def store (topicsById : TopicTable) (topic : TopicMetadata) : TopicTable := fun id =>
  if id = topic.serverId then some topic else topicsById id

/-- The table afterwards, and the calls of `onAnnounce`. -/
def handleTextMessage (topicsById : TopicTable) (text : ByteString) :
    TopicTable × List TopicAnnounce :=
  let topics := topicsWithin text.length text
  (topics.foldl store topicsById, topics.map TopicMetadata.announce)

/-! ## Braces -/

section Braces

variable {front text rest raw : ByteString} {token : Token} {tokens tokens' : List Token}
  {depth : ℤ}

/-- Outside a string nothing but quotation marks and braces counts. -/
theorem objectEndFrom_plain_append (hquote : 34 ∉ front) (hopen : 123 ∉ front)
    (hclose : 125 ∉ front) (depth : ℤ) (rest : ByteString) :
    objectEndFrom .plain depth (front ++ rest) = objectEndFrom .plain depth rest := by
  induction front with
  | nil => rfl
  | cons c front ih =>
    rw [List.mem_cons, not_or] at hquote hopen hclose
    rw [List.cons_append, objectEndFrom, if_neg (Ne.symm hquote.1), if_neg (Ne.symm hopen.1),
      if_neg (Ne.symm hclose.1), ih hquote.2 hopen.2 hclose.2]

theorem objectEndFrom_inString_append (hquote : 34 ∉ front) (hescape : 92 ∉ front) (depth : ℤ)
    (rest : ByteString) :
    objectEndFrom .inString depth (front ++ 34 :: rest) = objectEndFrom .plain depth rest := by
  induction front with
  | nil => rfl
  | cons c front ih =>
    rw [List.mem_cons, not_or] at hquote hescape
    rw [List.cons_append, objectEndFrom, if_neg (Ne.symm hescape.1), if_neg (Ne.symm hquote.1),
      ih hquote.2 hescape.2]

theorem objectEndFrom_space {space : ByteString} (hspace : ∀ b ∈ space, IsSpace b) (depth : ℤ)
    (rest : ByteString) :
    objectEndFrom .plain depth (space ++ rest) = objectEndFrom .plain depth rest :=
  objectEndFrom_plain_append (not_mem_space hspace (by decide)) (not_mem_space hspace (by decide))
    (not_mem_space hspace (by decide)) depth rest

/-- A token that is no brace leaves the count as it is. -/
theorem objectEndFrom_token (h : Spells token raw) (hopen : token ≠ .leftBrace)
    (hclose : token ≠ .rightBrace) (depth : ℤ) (rest : ByteString) :
    objectEndFrom .plain depth (raw ++ rest) = objectEndFrom .plain depth rest := by
  by_cases hstring : ∀ units, token ≠ .string units
  · have hbrace {b : UInt8} {brace : Token} (hb : punctuation b = some brace) (hne : token ≠ brace)
        (hother : ¬(IsNumeral b ∨ (97 ≤ b ∧ b ≤ 122))) : b ∉ raw := by
      intro hmem
      rcases h.mem_raw hstring hmem with hmark | hmark
      · rw [hb] at hmark
        exact hne (Option.some.inj hmark).symm
      · exact hother hmark
    exact objectEndFrom_plain_append (h.quote_not_mem hstring) (hbrace rfl hopen (by decide))
      (hbrace rfl hclose (by decide)) depth rest
  · push Not at hstring
    obtain ⟨units, rfl⟩ := hstring
    obtain ⟨bytes, rfl, -, hquote, hescape⟩ := h.eq_quoted
    have hquoted : quoted bytes ++ rest = 34 :: (bytes ++ 34 :: rest) := by simp [quoted]
    rw [hquoted, objectEndFrom, if_pos rfl, objectEndFrom_inString_append hquote hescape]

/-- The count is the same behind the bytes of these tokens as it is before them. -/
def Balanced (tokens : List Token) : Prop :=
  ∀ piece, Spelled tokens piece → ∀ depth > 0, ∀ rest,
    objectEndFrom .plain depth (piece ++ rest) = objectEndFrom .plain depth rest

theorem balanced_nil : Balanced [] := by
  intro piece hpiece depth _ rest
  cases hpiece with
  | nil hspace => exact objectEndFrom_space hspace depth rest

theorem Balanced.append (h : Balanced tokens) (h' : Balanced tokens') :
    Balanced (tokens ++ tokens') := by
  intro piece hpiece depth hdepth rest
  obtain ⟨front, back, rfl, hfront, hback⟩ := hpiece.split
  rw [List.append_assoc, h front hfront depth hdepth, h' back hback depth hdepth]

theorem Balanced.cons (hopen : token ≠ .leftBrace) (hclose : token ≠ .rightBrace)
    (h : Balanced tokens) : Balanced (token :: tokens) := by
  intro piece hpiece depth hdepth rest
  cases hpiece with
  | cons hspace htoken _ hrest =>
    rw [List.append_assoc, List.append_assoc, objectEndFrom_space hspace,
      objectEndFrom_token htoken hopen hclose, h _ hrest depth hdepth]

theorem Balanced.braces (h : Balanced tokens) :
    Balanced (.leftBrace :: (tokens ++ [.rightBrace])) := by
  intro piece hpiece depth hdepth rest
  obtain ⟨space, inner, rfl, hspace, hinner⟩ := hpiece.exists_mark (m := 123) rfl
  obtain ⟨middle, last, rfl, hmiddle, hlast⟩ := hinner.split
  obtain ⟨space', after, rfl, hspace', hafter⟩ := hlast.exists_mark (m := 125) rfl
  have hdeeper : depth + 1 > 0 := by omega
  rw [List.append_assoc, objectEndFrom_space hspace, List.cons_append, objectEndFrom,
    if_neg (by decide), if_pos rfl, List.append_assoc, h middle hmiddle _ hdeeper,
    List.append_assoc, objectEndFrom_space hspace', List.cons_append, objectEndFrom,
    if_neg (by decide), if_neg (by decide), if_pos rfl, if_neg (by omega),
    Int.add_sub_cancel, balanced_nil after hafter depth hdepth]

theorem Balanced.intercalate {pieces : List (List Token)} (h : ∀ tokens ∈ pieces, Balanced tokens) :
    Balanced ([Token.comma].intercalate pieces) :=
  intercalate_induction balanced_nil (fun _ _ => Balanced.append)
    (fun _ htokens => htokens.cons (by decide) (by decide)) h

mutual

/-- The braces of a value are balanced. -/
theorem balanced_tokens : ∀ tree : Tree, Balanced tree.tokens
  | .null => balanced_nil.cons (by decide) (by decide)
  | .bool _ => balanced_nil.cons (by rintro ⟨⟩) (by rintro ⟨⟩)
  | .number _ => balanced_nil.cons (by rintro ⟨⟩) (by rintro ⟨⟩)
  | .string _ => balanced_nil.cons (by rintro ⟨⟩) (by rintro ⟨⟩)
  | .array items => by
    have hlast : Balanced [.rightBracket] := balanced_nil.cons (by decide) (by decide)
    exact ((Balanced.intercalate (balanced_items items)).append hlast).cons (by decide) (by decide)
  | .object members => (Balanced.intercalate (balanced_members members)).braces

theorem balanced_items : ∀ items : List Tree, ∀ tokens ∈ itemTokens items, Balanced tokens
  | [], _, hmem => by cases hmem
  | item :: items, tokens, hmem => by
    rcases List.mem_cons.mp hmem with rfl | hmem
    · exact balanced_tokens item
    · exact balanced_items items tokens hmem

theorem balanced_members : ∀ members : List (List StringUnit × Tree),
    ∀ tokens ∈ memberTokens members, Balanced tokens
  | [], _, hmem => by cases hmem
  | (name, value) :: members, tokens, hmem => by
    rcases List.mem_cons.mp hmem with rfl | hmem
    · exact ((balanced_tokens value).cons (by decide) (by decide)).cons (by rintro ⟨⟩)
        (by rintro ⟨⟩)
    · exact balanced_members members tokens hmem

end

end Braces

end SmartDashboard.NT4
