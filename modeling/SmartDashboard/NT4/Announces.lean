import SmartDashboard.NT4.TextMessages

/-!
# Announces

The server announces its topics in arrays of objects. The client finds their fields by searching
the text, so it reads an announce right if, from where it starts to search, the first string that
is a field's name is that field's own key; whatever comes behind does not matter.

## Main definitions

- `Announce`: an announce object with its fields
- `Announce.Clear`: the searches for its fields meet nothing else first
- `methodEntries`: the places of a frame where the client takes up an announce
- `ReadsAnnounces`: the client records the announces of a frame, each with its own fields

## Main results

- `exists_topicOf`: the fields of a clear announce are found
- `handleTextMessage_readsAnnounces`: frames of clear announces that have no other entries
-/

namespace SmartDashboard.NT4

open Decimal Json TextSearch Direct

abbrev Members := List (List StringUnit × Tree)

/-- A string of a frame. -/
def str (s : ByteString) : List StringUnit :=
  s.map .byte

def field (key : String) (members : Members) : Option Tree :=
  members.lookup (str (App.text key))

/-- An announce object, with the fields that it has to have. -/
structure Announce where
  members : Members
  params : Members
  name : ByteString
  id : Numeral
  typeStr : ByteString
  properties : Members
  method_eq : field "method" members = some (.string (str (App.text "announce")))
  params_eq : field "params" members = some (.object params)
  name_eq : field "name" params = some (.string (str name))
  id_eq : field "id" params = some (.number id)
  typeStr_eq : field "type" params = some (.string (str typeStr))
  properties_eq : field "properties" params = some (.object properties)
  /-- The id is spelt as an integer. -/
  id_integer : id.frac = [] ∧ id.exponent = none

def Announce.tree (announce : Announce) : Tree :=
  .object announce.members

/-- Among the members up to the first one of this key the key is no other string. -/
def First (key : String) (members : Members) : Prop :=
  ∃ before value after, members = before ++ (str (App.text key), value) :: after ∧
    ∀ tokens ∈ memberTokens before, .string (str (App.text key)) ∉ tokens

/-- The method comes before the parameters, with no other string `"params"` between them, and each
field of the parameters comes before every other string that is its key. The fields are such as
the client stores. -/
structure Announce.Clear (announce : Announce) : Prop where
  order : ∃ before between after,
    announce.members = before ++ (str (App.text "method"), .string (str (App.text "announce"))) ::
      (between ++ (str (App.text "params"), .object announce.params) :: after) ∧
    ∀ tokens ∈ memberTokens between, .string (str (App.text "params")) ∉ tokens
  name : First "name" announce.params
  id : First "id" announce.params
  type : First "type" announce.params
  properties : First "properties" announce.params
  name_ne_nil : announce.name ≠ []
  typeStr_ne_nil : announce.typeStr ≠ []
  id_nonneg : 0 ≤ announce.id.value
  id_lt : announce.id.value < 2 ^ 31

/-- What follows a string `"method"` of a frame, wherever it is, if the next string behind the next
colon is `"announce"`. -/
def methodEntries : List Token → List (List Token)
  | [] => []
  | token :: tokens =>
    if token = .string (str (App.text "method")) ∧
        valueBehind tokens = some (str (App.text "announce")) then
      tokens :: methodEntries tokens
    else methodEntries tokens

/-- The announce's own fields are recorded, the properties with their text. -/
structure Records (announce : Announce) (topic : TopicMetadata) : Prop where
  name : topic.name = announce.name
  serverId : (topic.serverId.toInt : ℚ) = announce.id.value
  typeStr : topic.typeStr = announce.typeStr
  typeCode : topic.typeCode = typeCodeFromString announce.typeStr
  properties : lex topic.propertiesJson = some (Tree.object announce.properties).tokens

/-- Every announce is stored with its own fields, and there is one callback for each, in order. -/
def ReadsAnnounces (topicsById : TopicTable) (text : ByteString) (announces : List Announce) :
    Prop :=
  ∃ topics, List.Forall₂ Records announces topics ∧
    handleTextMessage topicsById text =
      (topics.foldl store topicsById, topics.map TopicMetadata.announce)

/-! ### Objects -/

section Objects

variable {members : Members} {back : List Token} {text block : ByteString} {key : String}

theorem between_append (front last : ByteString) : between (front ++ last) last = front := by
  rw [between, List.length_append, Nat.add_sub_cancel, List.take_left]

/-- The text of an object, which the count of the braces finds. -/
theorem exists_object (h : Spelled ((Tree.object members).tokens ++ back) text) :
    ∃ space object rest, text = space ++ (object ++ rest) ∧ (∀ b ∈ space, IsSpace b) ∧
      object.head? = some 123 ∧ Spelled (Tree.object members).tokens object ∧
      jsonFindObjectEnd (object ++ rest) = some rest ∧ Spelled back rest := by
  set inner := [Token.comma].intercalate (memberTokens members) with hinner
  have htokens : (Tree.object members).tokens = .leftBrace :: (inner ++ [.rightBrace]) := rfl
  have hbalanced : Balanced inner := Balanced.intercalate (balanced_members members)
  rw [htokens, List.cons_append, List.append_assoc, List.singleton_append] at h
  obtain ⟨space, text, rfl, hspace, h⟩ := h.exists_mark (m := 123) rfl
  obtain ⟨middle, last, rfl, hmiddle, hlast⟩ := h.split
  obtain ⟨space', rest, rfl, hspace', hback⟩ := hlast.exists_mark (m := 125) rfl
  have hclose : Spelled [.rightBrace] (space' ++ [125]) :=
    .cons hspace' (.mark rfl) (by rintro n ⟨⟩) (.nil (by simp))
  have hends : Ends (space' ++ [125]) := by
    intro b hb
    cases space' with
    | nil =>
      obtain rfl := Option.some.inj hb
      decide
    | cons c space' =>
      obtain rfl := Option.some.inj hb
      rcases hspace' c List.mem_cons_self with rfl | rfl | rfl | rfl <;> decide
  refine ⟨space, 123 :: (middle ++ (space' ++ [125])), rest, by simp, hspace, rfl, ?_, ?_, hback⟩
  · rw [htokens]
    exact @Spelled.cons [] [123] _ _ _ (by simp) (.mark rfl) (by rintro n ⟨⟩)
      (hmiddle.append hclose hends)
  · have htext : 123 :: (middle ++ (space' ++ [125])) ++ rest =
        123 :: (middle ++ (space' ++ 125 :: rest)) := by simp
    have hopen : objectEndFrom .plain 0 (123 :: (middle ++ (space' ++ 125 :: rest))) =
        objectEndFrom .plain 1 (middle ++ (space' ++ 125 :: rest)) := by
      rw [objectEndFrom, if_neg (by decide), if_pos rfl]
      rfl
    rw [htext, jsonFindObjectEnd, List.head?_cons, if_pos rfl, hopen,
      hbalanced middle hmiddle 1 (by decide), objectEndFrom_space hspace', objectEndFrom,
      if_neg (by decide), if_neg (by decide), if_pos rfl, if_pos (by decide)]

/-- The tokens of the members around one of them. -/
theorem intercalate_members (before after : Members) (member : List StringUnit × Tree) :
    [Token.comma].intercalate (memberTokens (before ++ member :: after)) =
      (memberTokens before).flatMap (· ++ [.comma]) ++
        (.string member.1 :: .colon :: member.2.tokens ++
          (memberTokens after).flatMap ([.comma] ++ ·)) := by
  rw [memberTokens_eq, List.map_append, List.map_cons, intercalate_append_cons, memberTokens_eq,
    memberTokens_eq]

end Objects

/-! ### Fields -/

section Fields

variable {params : Members} {block : ByteString} {key : String} {value : Tree}

/-- The text in which the fields are searched. -/
def IsBlock (params : Members) (block : ByteString) : Prop :=
  Spelled (.string (str (App.text "params")) :: .colon :: (Tree.object params).tokens) block

theorem lookup_first {k : List StringUnit} {before after : Members}
    (h : ∀ tokens ∈ memberTokens before, .string k ∉ tokens) :
    (before ++ (k, value) :: after).lookup k = some value := by
  induction before with
  | nil => rw [List.nil_append, List.lookup_cons_self]
  | cons member before ih =>
    obtain ⟨name, value'⟩ := member
    rw [memberTokens, List.forall_mem_cons] at h
    have hname : (k == name) = false := by
      rw [beq_eq_false_iff_ne]
      rintro rfl
      exact h.1 List.mem_cons_self
    rw [List.cons_append, List.lookup_cons, hname]
    exact ih h.2

theorem not_mem_flatMap_comma {k : List StringUnit} {pieces : List (List Token)}
    (h : ∀ tokens ∈ pieces, .string k ∉ tokens) :
    .string k ∉ pieces.flatMap (· ++ [Token.comma]) := by
  intro hmem
  obtain ⟨tokens, htokens, hmem⟩ := List.mem_flatMap.mp hmem
  rcases List.mem_append.mp hmem with hmem | hmem
  · exact h tokens htokens hmem
  · cases List.mem_singleton.mp hmem

/-- Behind the first string that is a key the field's value follows, up to a mark. -/
theorem exists_behind_key (hblock : IsBlock params block) (hfirst : First key params)
    (hkey : Foreign (App.text key)) (hne : App.text key ≠ App.text "params")
    (hvalue : field key params = some value) :
    ∃ rest mark back, behind (quoted (App.text key)) block = some rest ∧
      Spelled (.colon :: (value.tokens ++ mark :: back)) rest ∧
      (mark = .comma ∨ mark = .rightBrace) := by
  obtain ⟨before, value', after, rfl, hbefore⟩ := hfirst
  obtain rfl : value' = value := by
    rw [field, lookup_first hbefore] at hvalue
    exact Option.some.inj hvalue
  obtain ⟨mark, back, hback, hmark⟩ : ∃ mark back,
      (memberTokens after).flatMap ([Token.comma] ++ ·) ++ [Token.rightBrace] = mark :: back ∧
        (mark = .comma ∨ mark = .rightBrace) := by
    cases memberTokens after with
    | nil => exact ⟨_, _, rfl, .inr rfl⟩
    | cons tokens pieces => exact ⟨_, _, rfl, .inl rfl⟩
  have htokens : (.string (str (App.text "params")) :: .colon ::
      (Tree.object (before ++ (str (App.text key), value') :: after)).tokens) =
      (.string (str (App.text "params")) :: .colon :: .leftBrace ::
        (memberTokens before).flatMap (· ++ [.comma])) ++
        .string ((App.text key).map .byte) :: .colon :: (value'.tokens ++ mark :: back) := by
    rw [← hback, Tree.tokens, intercalate_members]
    simp [str]
  have hfront : .string ((App.text key).map .byte) ∉
      (.string (str (App.text "params")) :: .colon :: .leftBrace ::
        (memberTokens before).flatMap (· ++ [Token.comma])) := by
    have hmembers := not_mem_flatMap_comma hbefore
    have hparams : (App.text key).map StringUnit.byte ≠ str (App.text "params") := fun heq =>
      hne (List.map_injective_iff.mpr byte_injective heq)
    simp only [List.mem_cons, not_or, reduceCtorEq, not_false_eq_true, true_and]
    exact ⟨fun heq => hparams (Token.string.inj heq), hmembers⟩
  rw [IsBlock, htokens] at hblock
  obtain ⟨rest, hsearch, hrest⟩ := hblock.search_string hkey hfront
  exact ⟨rest, mark, back, search_eq_some hsearch, hrest, hmark⟩

theorem jsonExtractString_eq (hblock : IsBlock params block) (hfirst : First key params)
    (hkey : Foreign (App.text key)) (hne : App.text key ≠ App.text "params") {s : ByteString}
    (hvalue : field key params = some (.string (str s))) :
    jsonExtractString block (App.text key) = s := by
  obtain ⟨rest, mark, back, hbehind, hrest, -⟩ :=
    exists_behind_key hblock hfirst hkey hne hvalue
  obtain ⟨_, after, -, -, hcolon, hafter⟩ := hrest.behind_mark (m := 58) rfl
  have hnext : ((behind [34] after).bind (upTo 34)).map (List.map .byte) = some (str s) :=
    hafter.nextString_eq
  obtain ⟨bytes, hbytes, hunits⟩ := Option.map_eq_some_iff.mp hnext
  obtain rfl := List.map_injective_iff.mpr byte_injective hunits
  have hread : (do
      let afterKey ← behind (quoted (App.text key)) block
      let afterColon ← behind [58] afterKey
      let afterQuote ← behind [34] afterColon
      upTo 34 afterQuote) = some bytes := by
    rw [hbehind, Option.bind_eq_bind, Option.bind_some, hcolon, Option.bind_some]
    exact hbytes
  rw [jsonExtractString, hread, Option.getD_some]

theorem jsonExtractObject_lex (hblock : IsBlock params block) (hfirst : First key params)
    (hkey : Foreign (App.text key)) (hne : App.text key ≠ App.text "params") {members : Members}
    (hvalue : field key params = some (.object members)) :
    lex (jsonExtractObject block (App.text key)) = some (Tree.object members).tokens := by
  obtain ⟨rest, mark, back, hbehind, hrest, -⟩ :=
    exists_behind_key hblock hfirst hkey hne hvalue
  obtain ⟨_, after, -, -, hcolon, hafter⟩ := hrest.behind_mark (m := 58) rfl
  obtain ⟨space, object, rest', rfl, hspace, hhead, hobject, hend, -⟩ := exists_object hafter
  have hopen : (space ++ (object ++ rest')).dropWhile (fun b => IsSpace b) = object ++ rest' := by
    have hspaces : ∀ b ∈ space, decide (IsSpace b) = true := fun b hb =>
      decide_eq_true (hspace b hb)
    obtain ⟨inner, rfl⟩ := List.head?_eq_some_iff.mp hhead
    rw [List.dropWhile_append_of_pos hspaces]
    rfl
  have hread : jsonExtractObject block (App.text key) = object := by
    rw [jsonExtractObject, hbehind, Option.bind_eq_bind, Option.bind_some, hcolon, Option.bind_some]
    dsimp only
    rw [hopen, hend, Option.bind_some, between_append]
    rfl
  rw [hread, hobject.lex_eq]

/-- An integer that fits is read with its sign. -/
theorem strtoll_text {n : Numeral} (hvalid : n.Valid) (hinteger : n.frac = [] ∧ n.exponent = none)
    (hnonneg : 0 ≤ n.value) (hlt : n.value < 2 ^ 31) :
    0 ≤ strtoll n.text ∧ ((strtoll n.text).toInt32.toInt : ℚ) = n.value := by
  obtain ⟨hfrac, hexponent⟩ := hinteger
  set v : ℤ := if n.negative then -decimalValue n.int else decimalValue n.int with hv
  have hvalue : n.value = v := by
    rw [Numeral.value, hfrac, hexponent, hv, List.append_nil]
    cases n.negative <;> simp
  rw [hvalue] at hnonneg hlt ⊢
  have hlow : 0 ≤ v := by exact_mod_cast hnonneg
  have hhigh : v < 2 ^ 31 := by exact_mod_cast hlt
  have hsign : lexSign n.text = (n.negative, n.int) := by
    have hread := lexSign_text hvalid []
    rw [List.append_nil] at hread
    rw [Numeral.text, hfrac, hexponent]
    simpa [Numeral.fracText] using hread
  have hdigits : (takeDigits n.int).1 = n.int := by
    have htake := @takeDigits_append _ [] hvalid.int_digits (by simp)
    rw [List.append_nil] at htake
    rw [htake]
  have hread : strtoll n.text = Int64.ofInt v := by
    rw [strtoll, hsign]
    dsimp only
    rw [hdigits, ← hv, min_eq_right (by omega), max_eq_right (by omega)]
  rw [hread, Int64.toInt32_ofInt, Int32.toInt_ofInt_of_le (by omega) (by omega)]
  refine ⟨?_, rfl⟩
  rw [Int64.le_iff_toInt_le, Int64.toInt_ofInt_of_le (by omega) (by omega)]
  exact hlow

theorem isIntByte_of_mem_text {n : Numeral} (hvalid : n.Valid)
    (hinteger : n.frac = [] ∧ n.exponent = none) : ∀ b ∈ n.text, isIntByte b = true := by
  obtain ⟨hfrac, hexponent⟩ := hinteger
  intro b hb
  rw [Numeral.text, hfrac, hexponent] at hb
  rw [isIntByte, decide_eq_true_eq]
  rcases List.mem_append.mp hb with hb | hb
  · split_ifs at hb
    · exact .inl (List.mem_singleton.mp hb)
    · cases hb
  · simp only [Numeral.fracText, if_true, Option.map_none, Option.getD_none, List.append_nil] at hb
    exact .inr (hvalid.int_digits b hb)

/-- Where a mark is next, white space or the mark follows. -/
theorem head_not_isIntByte {m : UInt8} {mark : Token} {back : List Token} {rest : ByteString}
    (h : Spelled (mark :: back) rest) (hm : punctuation m = some mark)
    (hint : isIntByte m = false) : ∀ b ∈ rest.head?, isIntByte b = false := by
  obtain ⟨space, rest, rfl, hspace, -⟩ := h.exists_mark hm
  intro b hb
  cases space with
  | nil =>
    obtain rfl := Option.some.inj hb
    exact hint
  | cons c space =>
    obtain rfl := Option.some.inj hb
    rcases hspace c List.mem_cons_self with rfl | rfl | rfl | rfl <;> rfl

theorem jsonExtractInt_eq (hblock : IsBlock params block) (hfirst : First key params)
    (hkey : Foreign (App.text key)) (hne : App.text key ≠ App.text "params") {n : Numeral}
    (hvalue : field key params = some (.number n)) (hinteger : n.frac = [] ∧ n.exponent = none) :
    n.Valid ∧ jsonExtractInt block (App.text key) = strtoll n.text := by
  obtain ⟨rest, mark, back, hbehind, hrest, hmark⟩ :=
    exists_behind_key hblock hfirst hkey hne hvalue
  obtain ⟨_, after, -, -, hcolon, hafter⟩ := hrest.behind_mark (m := 58) rfl
  cases hafter with
  | @cons space raw rest' _ _ hspace htoken hends hrest' =>
    have hnumber : SpellsNumber n raw := by
      cases htoken with
      | mark h => exact absurd h (punctuation_ne_number _ n)
      | word h => exact absurd rfl ((lexWord_spec h).2.1 n)
      | number h => exact h
    obtain ⟨b, tail, hraw, hb⟩ := hnumber.first
    have hbytes : ∀ b ∈ raw, isIntByte b = true := by
      rw [hnumber.plain hinteger.2]
      exact isIntByte_of_mem_text hnumber.valid hinteger
    -- what follows is white space or a mark
    have hstop : ∀ b ∈ rest'.head?, isIntByte b = false := by
      rcases hmark with rfl | rfl
      · exact head_not_isIntByte (m := 44) hrest' rfl rfl
      · exact head_not_isIntByte (m := 125) hrest' rfl rfl
    have hdrop : (space ++ (raw ++ rest')).dropWhile (fun b => !isIntByte b) = raw ++ rest' := by
      have hspaces : ∀ b ∈ space, (!isIntByte b) = true := by
        intro b hb
        rcases hspace b hb with rfl | rfl | rfl | rfl <;> rfl
      rw [List.dropWhile_append_of_pos hspaces, hraw, List.cons_append,
        List.dropWhile_cons_of_neg]
      simp [hbytes b (by rw [hraw]; exact List.mem_cons_self)]
    have htake : (raw ++ rest').takeWhile isIntByte = raw := by
      rw [List.takeWhile_append_of_pos hbytes]
      cases rest' with
      | nil => simp
      | cons c rest' =>
        rw [List.takeWhile_cons_of_neg (by simp [hstop c rfl]), List.append_nil]
    have hne : raw ++ rest' ≠ [] := by
      rw [hraw]
      exact List.cons_ne_nil _ _
    refine ⟨hnumber.valid, ?_⟩
    rw [jsonExtractInt, hbehind]
    dsimp only
    rw [hcolon]
    dsimp only
    rw [hdrop, if_neg hne, htake, hnumber.plain hinteger.2]

end Fields

/-! ### Entries -/

section Entries

variable {announce : Announce} {block entry raw text : ByteString} {front back tokens : List Token}

instance (key : ByteString) : Decidable (Foreign key) :=
  decidable_of_iff ((∃ a ∈ key.head?, 97 ≤ a ∧ a ≤ 122) ∧
      (key.take 2 ≠ [116, 114] ∧ key.take 2 ≠ [102, 97] ∧ key.take 2 ≠ [110, 117]) ∧
      2 ≤ key.length ∧ 34 ∉ key)
    ⟨fun ⟨letter, word, long, unquoted⟩ => ⟨letter, word, long, unquoted⟩,
      fun ⟨letter, word, long, unquoted⟩ => ⟨letter, word, long, unquoted⟩⟩

/-- The fields of the block are those of the announce. -/
theorem exists_topicOf (hclear : announce.Clear) (hblock : IsBlock announce.params block) :
    ∃ topic, topicOf? block = some topic ∧ Records announce topic := by
  have hname : jsonExtractString block (App.text "name") = announce.name :=
    jsonExtractString_eq hblock hclear.name (by decide) (by decide) announce.name_eq
  have htype : jsonExtractString block (App.text "type") = announce.typeStr :=
    jsonExtractString_eq hblock hclear.type (by decide) (by decide) announce.typeStr_eq
  have hproperties : lex (jsonExtractObject block (App.text "properties")) =
      some (Tree.object announce.properties).tokens :=
    jsonExtractObject_lex hblock hclear.properties (by decide) (by decide) announce.properties_eq
  obtain ⟨hvalid, hid⟩ := jsonExtractInt_eq hblock hclear.id (by decide) (by decide)
    announce.id_eq announce.id_integer
  obtain ⟨hnonneg, hvalue⟩ :=
    strtoll_text hvalid announce.id_integer hclear.id_nonneg hclear.id_lt
  have hobject : jsonExtractObject block (App.text "properties") ≠ [] := by
    intro hnil
    rw [hnil] at hproperties
    cases hproperties
  rw [← hid] at hnonneg hvalue
  have hfields : jsonExtractString block (App.text "name") ≠ [] ∧
      0 ≤ jsonExtractInt block (App.text "id") ∧
      jsonExtractString block (App.text "type") ≠ [] :=
    ⟨hname ▸ hclear.name_ne_nil, hnonneg, htype ▸ hclear.typeStr_ne_nil⟩
  rw [topicOf?]
  rw [dif_pos hfields]
  refine ⟨_, rfl, hname, hvalue, htype, congrArg typeCodeFromString htype, ?_⟩
  dsimp only
  rw [if_neg hobject]
  exact hproperties

/-- The tokens behind the string `"method"` of the announce. -/
def Announce.Own (announce : Announce) (entry : List Token) : Prop :=
  ∃ middle back, .string (str (App.text "params")) ∉ middle ∧
    entry = .colon :: .string (str (App.text "announce")) ::
      (middle ++ .string (str (App.text "params")) :: .colon ::
        ((Tree.object announce.params).tokens ++ back))

theorem jsonExtractString_eq_bind (json key : ByteString) :
    jsonExtractString json key = ((behind (quoted key) json).bind stringBehind).getD [] := rfl

/-- The client takes up an entry if the tokens say `"announce"`. -/
theorem method_eq_announce_iff (h : Spelled tokens raw) :
    jsonExtractString (quoted (App.text "method") ++ raw) (App.text "method") =
        App.text "announce" ↔
      valueBehind tokens = some (str (App.text "announce")) := by
  have hforeign : Foreign (App.text "announce") := by decide
  have hne : App.text "announce" ≠ [] := by decide
  rw [jsonExtractString_eq_bind, search_eq_some (search_append_self _ raw), Option.bind_some, str,
    ← h.stringBehind_iff hforeign]
  cases stringBehind raw with
  | none => simp [hne.symm]
  | some bytes => simp

theorem Announce.Own.valueBehind_eq {entry : List Token} (hown : announce.Own entry) :
    valueBehind entry = some (str (App.text "announce")) := by
  obtain ⟨middle, back, -, rfl⟩ := hown
  rfl

theorem readEntry_eq_none (h : Spelled tokens raw)
    (hne : valueBehind tokens ≠ some (str (App.text "announce"))) :
    readEntry (quoted (App.text "method") ++ raw) = none := by
  rw [readEntry, if_neg]
  rwa [method_eq_announce_iff h]

/-- The object of the params ends the block. -/
theorem exists_paramsBlock {members : Members}
    (h : Spelled (.colon :: ((Tree.object members).tokens ++ back)) raw) :
    IsBlock members (paramsBlock (quoted (App.text "params") ++ raw)) := by
  obtain ⟨space, after, rfl, hspace, hcolon, hafter⟩ := h.behind_mark (m := 58) rfl
  obtain ⟨space', object, rest, rfl, hspace', hhead, hobject, hend, -⟩ := exists_object hafter
  obtain ⟨inner, rfl⟩ := List.head?_eq_some_iff.mp hhead
  have hopen : search [123] (space' ++ (123 :: inner ++ rest)) = some (123 :: inner ++ rest) := by
    rw [search_append_of_not_mem (not_mem_space hspace' (by decide))]
    exact search_append_self [123] (inner ++ rest)
  have hdrop : (quoted (App.text "params") ++
      (space ++ 58 :: (space' ++ (123 :: inner ++ rest)))).drop 8 =
        space ++ 58 :: (space' ++ (123 :: inner ++ rest)) :=
    List.drop_left' rfl
  have hblock : quoted (App.text "params") ++
      (space ++ 58 :: (space' ++ (123 :: inner ++ rest))) =
        quoted (App.text "params") ++ (space ++ ([58] ++ (space' ++ 123 :: inner))) ++ rest := by
    simp
  rw [paramsBlock, hdrop, hcolon, Option.bind_eq_bind, Option.bind_some, hopen]
  rw [Option.bind_some, hend, Option.getD_some, hblock, between_append]
  refine @Spelled.cons [] _ _ _ _ (by simp) (.string (plain_of_all rfl)) (by rintro n ⟨⟩) ?_
  exact .cons hspace (.mark rfl) (by rintro n ⟨⟩) (hobject.spaces hspace')

theorem exists_readEntry (hclear : announce.Clear) {entry : List Token} (hown : announce.Own entry)
    (h : Spelled entry raw) :
    ∃ topic, readEntry (quoted (App.text "method") ++ raw) = some topic ∧
      Records announce topic := by
  have hmethod := (method_eq_announce_iff h).mpr hown.valueBehind_eq
  obtain ⟨middle, back, hmiddle, rfl⟩ := hown
  have hfront : .string ((App.text "params").map .byte) ∉
      .string (str (App.text "method")) :: .colon ::
        .string (str (App.text "announce")) :: middle := by
    simp only [List.mem_cons, not_or, reduceCtorEq, not_false_eq_true, true_and]
    exact ⟨by decide, by decide, hmiddle⟩
  have hentry : Spelled ((.string (str (App.text "method")) :: .colon ::
      .string (str (App.text "announce")) :: middle) ++
        .string ((App.text "params").map .byte) :: .colon ::
          ((Tree.object announce.params).tokens ++ back))
      (quoted (App.text "method") ++ raw) :=
    @Spelled.cons [] _ _ _ _ (by simp) (.string (plain_of_all rfl)) (by rintro n ⟨⟩) h
  obtain ⟨rest, hparams, hrest⟩ := hentry.search_string (by decide) hfront
  obtain ⟨topic, htopic, hrecords⟩ := exists_topicOf hclear (exists_paramsBlock hrest)
  refine ⟨topic, ?_, hrecords⟩
  rw [readEntry, if_pos hmethod, hparams, Option.bind_some, htopic]

end Entries

/-! ### Frames -/

section Frames

variable {announce : Announce} {announces : List Announce} {text : ByteString}
  {front back tokens : List Token}

theorem methodEntries_append (h : .string (str (App.text "method")) ∉ front) :
    methodEntries (front ++ back) = methodEntries back := by
  induction front with
  | nil => rfl
  | cons token front ih =>
    rw [List.mem_cons, not_or] at h
    rw [List.cons_append, methodEntries, if_neg fun hc => h.1 hc.1.symm, ih h.2]

theorem methodEntries_sublist (front back : List Token) :
    (methodEntries back).Sublist (methodEntries (front ++ back)) := by
  induction front with
  | nil => exact List.Sublist.refl _
  | cons token front ih =>
    rw [List.cons_append, methodEntries]
    split_ifs
    · exact ih.cons _
    · exact ih

/-- The loop takes up the strings `"method"` of a text one after the other. -/
theorem exists_topicsWithin (turns : ℕ) (h : Spelled tokens text) (hturns : text.length ≤ turns) :
    ∃ raws, List.Forall₂ Spelled (methodEntries tokens) raws ∧
      topicsWithin turns text =
        raws.filterMap fun raw => readEntry (quoted (App.text "method") ++ raw) := by
  have hforeign : Foreign (App.text "method") := by decide
  induction turns generalizing tokens text with
  | zero =>
    obtain rfl := List.length_eq_zero_iff.mp (Nat.le_zero.mp hturns)
    obtain rfl : tokens = [] := by
      have hlex := h.lex_eq
      cases hlex
      rfl
    exact ⟨[], .nil, rfl⟩
  | succ turns ih =>
    by_cases hmem : .string (str (App.text "method")) ∈ tokens
    · obtain ⟨front, back, rfl, hfront⟩ := List.eq_append_cons_of_mem hmem
      obtain ⟨rest, hsearch, hrest⟩ := h.search_string hforeign hfront
      have hlength : (quoted (App.text "method")).length + rest.length ≤ text.length := by
        have hle := length_search hsearch
        rwa [List.length_append] at hle
      have hdrop : (quoted (App.text "method") ++ rest).drop 8 = rest := List.drop_left' rfl
      have hpositive : 0 < (quoted (App.text "method")).length := Nat.succ_pos _
      obtain ⟨raws, hraws, htopics⟩ := ih hrest (by omega)
      rw [methodEntries_append hfront, methodEntries, topicsWithin, hsearch]
      dsimp only
      rw [hdrop, htopics]
      by_cases hheard : valueBehind back = some (str (App.text "announce"))
      · refine ⟨rest :: raws, ?_, ?_⟩
        · rw [if_pos ⟨rfl, hheard⟩]
          exact .cons hrest hraws
        · rw [List.filterMap_cons]
          cases readEntry (quoted (App.text "method") ++ rest) <;> rfl
      · refine ⟨raws, ?_, ?_⟩
        · rwa [if_neg fun hc => hheard hc.2]
        · rw [readEntry_eq_none hrest hheard]
          rfl
    · have hentries : methodEntries tokens = [] := by
        have happend := @methodEntries_append _ [] hmem
        rwa [List.append_nil] at happend
      rw [hentries, topicsWithin, h.search_eq_none hforeign hmem]
      exact ⟨[], .nil, rfl⟩

/-- An announce has an entry of its own. -/
theorem Announce.Clear.exists_own (hclear : announce.Clear) (back : List Token) :
    ∃ front entry, announce.tree.tokens = front ++ .string (str (App.text "method")) :: entry ∧
      announce.Own (entry ++ back) := by
  obtain ⟨before, middle, after, hmembers, hmiddle⟩ := hclear.order
  have hparams : (.string (str (App.text "params")) : Token) ∉
      (memberTokens middle).flatMap ([Token.comma] ++ ·) ++ [.comma] := by
    simp only [List.mem_append, List.mem_flatMap, List.mem_singleton, reduceCtorEq, or_false,
      false_or, not_exists, not_and]
    exact hmiddle
  set tail := (memberTokens after).flatMap ([Token.comma] ++ ·) ++ [.rightBrace] with htail
  have htokens : announce.tree.tokens =
      (.leftBrace :: (memberTokens before).flatMap (· ++ [.comma])) ++
        .string (str (App.text "method")) :: (.colon :: .string (str (App.text "announce")) ::
          (((memberTokens middle).flatMap ([.comma] ++ ·) ++ [.comma]) ++
            .string (str (App.text "params")) :: .colon ::
              ((Tree.object announce.params).tokens ++ tail))) := by
    have hbehind : memberTokens (middle ++
        (str (App.text "params"), Tree.object announce.params) :: after) =
          memberTokens middle ++ (.string (str (App.text "params")) :: .colon ::
            (Tree.object announce.params).tokens) :: memberTokens after := by
      simp only [memberTokens_eq, List.map_append, List.map_cons]
    rw [Announce.tree, hmembers, Tree.tokens, intercalate_members, hbehind, List.flatMap_append,
      List.flatMap_cons, htail]
    simp only [Tree.tokens, List.append_assoc, List.cons_append, List.nil_append]
  refine ⟨_, _, htokens, _, tail ++ back, hparams, ?_⟩
  simp only [List.append_assoc, List.cons_append]

/-- The announces of a frame have entries of their own, in order. -/
theorem exists_ownEntries (hclear : ∀ announce ∈ announces, announce.Clear) (back : List Token) :
    ∃ entries, List.Forall₂ Announce.Own announces entries ∧
      entries.Sublist (methodEntries
        ((announces.map fun announce => announce.tree.tokens).flatMap ([.comma] ++ ·) ++
          back)) := by
  induction announces with
  | nil => exact ⟨[], .nil, List.nil_sublist _⟩
  | cons announce announces ih =>
    rw [List.forall_mem_cons] at hclear
    obtain ⟨entries, hown, hsublist⟩ := ih hclear.2
    set others := (announces.map fun announce => announce.tree.tokens).flatMap ([.comma] ++ ·) ++
      back
    obtain ⟨front, entry, htokens, hentry⟩ := hclear.1.exists_own others
    refine ⟨(entry ++ others) :: entries, .cons hentry hown, ?_⟩
    have hsplit : ((announce :: announces).map fun announce => announce.tree.tokens).flatMap
        ([.comma] ++ ·) ++ back =
          (.comma :: front) ++ .string (str (App.text "method")) :: (entry ++ others) := by
      rw [List.map_cons, List.flatMap_cons, htokens]
      simp [others]
    rw [hsplit]
    refine List.Sublist.trans ?_ (methodEntries_sublist _ _)
    rw [methodEntries, if_pos ⟨rfl, hentry.valueBehind_eq⟩]
    exact (hsublist.trans (methodEntries_sublist entry others)).cons_cons _

theorem exists_frameEntries (hclear : ∀ announce ∈ announces, announce.Clear) :
    ∃ entries, List.Forall₂ Announce.Own announces entries ∧
      entries.Sublist (methodEntries (Tree.array (announces.map Announce.tree)).tokens) := by
  obtain ⟨entries, hown, hsublist⟩ := exists_ownEntries hclear [.rightBracket]
  refine ⟨entries, hown, ?_⟩
  rw [Tree.tokens, itemTokens_eq, List.map_map]
  cases announces with
  | nil => exact hsublist
  | cons announce announces =>
    rw [List.map_cons, intercalate_cons]
    exact hsublist

/-- Entries of announces are read as these announces. -/
theorem exists_topics {entries : List (List Token)} {raws : List ByteString}
    (hclear : ∀ announce ∈ announces, announce.Clear)
    (hown : List.Forall₂ Announce.Own announces entries)
    (hraws : List.Forall₂ Spelled entries raws) :
    ∃ topics, List.Forall₂ Records announces topics ∧
      raws.filterMap (fun raw => readEntry (quoted (App.text "method") ++ raw)) = topics := by
  induction hown generalizing raws with
  | nil =>
    cases hraws
    exact ⟨[], .nil, rfl⟩
  | cons hfirst _ ih =>
    cases hraws with
    | cons hraw hraws =>
      rw [List.forall_mem_cons] at hclear
      obtain ⟨topics, hrecords, htopics⟩ := ih hclear.2 hraws
      obtain ⟨topic, htopic, hrecord⟩ := exists_readEntry hclear.1 hfirst hraw
      exact ⟨topic :: topics, .cons hrecord hrecords, by rw [List.filterMap_cons, htopic, htopics]⟩

/-- A frame of clear announces is read right, if its only entries are theirs. -/
theorem handleTextMessage_readsAnnounces (topicsById : TopicTable)
    (hlex : lex text = some (Tree.array (announces.map Announce.tree)).tokens)
    (hplain : 92 ∉ text) (hclear : ∀ announce ∈ announces, announce.Clear)
    (hentries : (methodEntries (Tree.array (announces.map Announce.tree)).tokens).length =
      announces.length) :
    ReadsAnnounces topicsById text announces := by
  obtain ⟨raws, hraws, htopics⟩ :=
    exists_topicsWithin text.length (spelled_of_lex hlex hplain) le_rfl
  obtain ⟨entries, hown, hsublist⟩ := exists_frameEntries hclear
  have hlength : entries.length =
      (methodEntries (Tree.array (announces.map Announce.tree)).tokens).length := by
    rw [hentries, hown.length_eq]
  rw [← hsublist.eq_of_length hlength] at hraws
  obtain ⟨topics, hrecords, hread⟩ := exists_topics hclear hown hraws
  refine ⟨topics, hrecords, ?_⟩
  rw [handleTextMessage, htopics, hread]

/-- The fields of a topic whose properties have a name, too. -/
def namedProperties : Members :=
  [(str (App.text "id"), .number ⟨false, [49], [], none⟩),
    (str (App.text "type"), .string (str (App.text "double"))),
    (str (App.text "name"), .string (str (App.text "/SmartDashboard/A"))),
    (str (App.text "properties"), .object [(str (App.text "name"), .string (str (App.text "x")))])]

/-- The announce of this topic, with the fields in any order. -/
def announceOf (params : Members)
    (hfields : ∀ key ∈ ["name", "id", "type", "properties"],
      field key params = field key namedProperties) : Announce where
  members :=
    [(str (App.text "method"), .string (str (App.text "announce"))),
      (str (App.text "params"), .object params)]
  params
  name := App.text "/SmartDashboard/A"
  id := ⟨false, [49], [], none⟩
  typeStr := App.text "double"
  properties := [(str (App.text "name"), .string (str (App.text "x")))]
  method_eq := rfl
  params_eq := rfl
  name_eq := hfields "name" (by decide)
  id_eq := hfields "id" (by decide)
  typeStr_eq := hfields "type" (by decide)
  properties_eq := hfields "properties" (by decide)
  id_integer := ⟨rfl, rfl⟩

def lastProperties : Announce := announceOf namedProperties fun _ _ => rfl

def firstProperties : Announce :=
  announceOf namedProperties.reverse (by
    simp only [List.forall_mem_cons]
    exact ⟨rfl, rfl, rfl, rfl, by simp⟩)

def lastFrame : ByteString :=
  App.text "[\x7b\"method\":\"announce\",\"params\":\x7b\"id\":1,\"type\":\"double\"," ++
    App.text "\"name\":\"/SmartDashboard/A\",\"properties\":\x7b\"name\":\"x\"\x7d\x7d\x7d]"

def firstFrame : ByteString :=
  App.text "[\x7b\"method\":\"announce\",\"params\":\x7b\"properties\":\x7b\"name\":\"x\"\x7d," ++
    App.text "\"name\":\"/SmartDashboard/A\",\"type\":\"double\",\"id\":1\x7d\x7d]"

theorem lastProperties_clear : lastProperties.Clear where
  order := ⟨[], [], [], rfl, by simp [memberTokens]⟩
  name := ⟨namedProperties.take 2, _, namedProperties.drop 3, rfl, by decide +kernel⟩
  id := ⟨[], _, namedProperties.drop 1, rfl, by simp [memberTokens]⟩
  type := ⟨namedProperties.take 1, _, namedProperties.drop 2, rfl, by decide +kernel⟩
  properties := ⟨namedProperties.take 3, _, [], rfl, by decide +kernel⟩
  name_ne_nil := by decide
  typeStr_ne_nil := by decide
  id_nonneg := by decide +kernel
  id_lt := by decide +kernel

theorem handleTextMessage_readsAnnounces_lastProperties :
    ReadsAnnounces (fun _ => none) lastFrame [lastProperties] := by
  have hlex : lex lastFrame = some (Tree.array ([lastProperties].map Announce.tree)).tokens := by
    decide +kernel
  have hplain : 92 ∉ lastFrame := by decide +kernel
  have hclear : ∀ announce ∈ [lastProperties], announce.Clear := by
    simp [lastProperties_clear]
  exact handleTextMessage_readsAnnounces _ hlex hplain hclear (by decide +kernel)

/-- The name of the properties is taken for the topic's. -/
theorem firstProperties_not_readsAnnounces :
    lex firstFrame = some (Tree.array ([firstProperties].map Announce.tree)).tokens ∧
      92 ∉ firstFrame ∧ ¬ReadsAnnounces (fun _ => none) firstFrame [firstProperties] := by
  have hcallbacks : (handleTextMessage (fun _ => none) firstFrame).2.map TopicAnnounce.topicPath =
      [App.text "x"] := by
    decide +kernel
  refine ⟨by decide +kernel, by decide +kernel, ?_⟩
  rintro ⟨topics, hrecords, hread⟩
  cases hrecords with
  | @cons _ topic _ _ hrecord hnil =>
    cases hnil
    rw [hread, List.map_cons, List.map_cons, List.map_nil] at hcallbacks
    have hpath : stripSmartDashboardPrefix topic.name = App.text "x" := (List.cons.inj hcallbacks).1
    rw [hrecord.name] at hpath
    exact absurd hpath (by decide +kernel)

end Frames

end SmartDashboard.NT4
