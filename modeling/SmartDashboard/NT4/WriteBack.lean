import SmartDashboard.Library.JsonStrings
import SmartDashboard.NT4.Announces

/-!
# Writing back over NT4

The dashboard shows a topic under a key, its name without `/SmartDashboard/`, and publishes under
that key. The client puts the prefix in front of every key again, and the name between the
quotation marks of a publish message as it is.

## Main definitions

- `PublishesName`: a message is a JSON text that claims the topic of this name
- `WritesBack`: publishing under a topic's key claims this topic

## Main results

- `writesBack_iff`: the topics that are written back
- `distinctWriteBack_iff`: the sets of topics that are all written back, under distinct keys
-/

namespace SmartDashboard.NT4

open Decimal Json Direct

/-- What a server reads from the message: a JSON text of one object, and the name in it. -/
def PublishesName (message name : ByteString) : Prop :=
  Utf8 message ∧ ∃ members params units,
    lex message = some (Tree.array [.object members]).tokens ∧
      field "method" members = some (.string (str (App.text "publish"))) ∧
      field "params" members = some (.object params) ∧
      field "name" params = some (.string units) ∧ decoded units = name

/-- Publishing under the topic's key, the first time on a connection, claims the topic. -/
def WritesBack (name : ByteString) : Prop :=
  ∀ (client : NT4Client) (timestamp : UInt64) (typeCode : NT4TypeCode) (value : TopicValue),
    client.connected = true →
    client.publishedTopics (kPrefix ++ stripSmartDashboardPrefix name) = none →
    ∃ claim sent,
      (client.publish (stripSmartDashboardPrefix name) timestamp typeCode value).1.sent =
      client.sent ++ claim :: sent ∧ PublishesName claim.bytes name

/-! ### The publish message -/

section Message

variable {name ntPath typeStr : ByteString} {typeCode : NT4TypeCode} {pubuid : Int32}

/-- The number that `std::to_string` writes. -/
def intNumeral (i : ℤ) : Numeral where
  negative := i < 0
  int := decimal i.natAbs

theorem text_repr (n : ℕ) : App.text n.repr = decimal n := by
  rw [App.text, Nat.toList_repr, decimal_eq_toDigits]

theorem text_toString (i : ℤ) : App.text (toString i) = (intNumeral i).text := by
  rw [intNumeral, Numeral.text_decimal, Int.toString_eq_repr, Int.repr_eq_if]
  by_cases hsign : i < 0
  · have hminus : App.text "-" = [45] := rfl
    have happend : ∀ s s' : String, App.text (s ++ s') = App.text s ++ App.text s' := by
      intro s s'
      rw [App.text, String.toList_append, List.map_append, App.text, App.text]
    have habs : (-i).toNat = i.natAbs := by omega
    rw [if_neg (by omega), happend, hminus, text_repr, habs]
    simp [hsign]
  · have habs : i.toNat = i.natAbs := by omega
    rw [if_pos (by omega), text_repr, habs]
    simp [hsign]

def publishHead : List Token :=
  [.leftBracket, .leftBrace, .string (str (App.text "method")), .colon,
    .string (str (App.text "publish")), .comma, .string (str (App.text "params")), .colon,
    .leftBrace, .string (str (App.text "name")), .colon]

theorem writes_publishHead :
    Writes (App.text "[\x7b\"method\":\"publish\",\"params\":\x7b\"name\":") True publishHead :=
  writes_of_lex (by decide +kernel) rfl (by simp [publishHead])

theorem buildPublishJson_eq (ntPath typeStr : ByteString) (pubuid : Int32) :
    buildPublishJson ntPath typeStr pubuid =
      App.text "[\x7b\"method\":\"publish\",\"params\":\x7b\"name\":" ++
        (34 :: (ntPath ++ [34]) ++ (App.text ",\"type\":" ++ (34 :: (typeStr ++ [34]) ++
          (App.text ",\"pubuid\":" ++ ((intNumeral pubuid.toInt).text ++
            App.text "\x7d\x7d]"))))) := by
  have hhead : App.text "[\x7b\"method\":\"publish\",\"params\":\x7b\"name\":\"" =
      App.text "[\x7b\"method\":\"publish\",\"params\":\x7b\"name\":" ++ [34] := rfl
  have htype : App.text "\",\"type\":\"" = 34 :: (App.text ",\"type\":" ++ [34]) := rfl
  have hpubuid : App.text "\",\"pubuid\":" = 34 :: App.text ",\"pubuid\":" := rfl
  rw [buildPublishJson, text_toString, hhead, htype, hpubuid]
  simp only [List.append_assoc, List.cons_append, List.nil_append]

/-- The message for a name of plain characters. -/
theorem lex_buildPublishJson (hname : ∀ b ∈ ntPath, Plain b) (htype : ∀ b ∈ typeStr, Plain b)
    (hutf8 : Utf8 ntPath) (hutf8Type : Utf8 typeStr) (pubuid : Int32) :
    Utf8 (buildPublishJson ntPath typeStr pubuid) ∧
      lex (buildPublishJson ntPath typeStr pubuid) =
        some (Tree.array [.object [(str (App.text "method"), .string (str (App.text "publish"))),
          (str (App.text "params"), .object
            [(str (App.text "name"), .string (str ntPath)),
              (str (App.text "type"), .string (str typeStr)),
              (str (App.text "pubuid"), .number (intNumeral pubuid.toInt))])]]).tokens := by
  have hvalid : (intNumeral pubuid.toInt).Valid := Numeral.valid_decimal _ _
  have hclose : Writes (App.text "\x7d\x7d]") True [.rightBrace, .rightBrace, .rightBracket] :=
    writes_of_lex rfl rfl (by simp)
  have hends : ∀ rest, Ends (App.text "\x7d\x7d]" ++ rest) := by
    intro rest b hb
    obtain rfl : 125 = b := Option.some.inj hb
    decide
  have hkey : Writes (App.text ",\"pubuid\":") True
      [.comma, .string (str (App.text "pubuid")), .colon] :=
    writes_of_lex rfl rfl (by simp)
  have hkeyType : Writes (App.text ",\"type\":") True
      [.comma, .string (str (App.text "type")), .colon] :=
    writes_of_lex rfl rfl (by simp)
  have hnumber := hkey.append ((writesValue_number hvalid).append hclose hends)
  have hmessage := writes_publishHead.append ((writes_plain hname hutf8).append
    (hkeyType.append ((writes_plain htype hutf8Type).append hnumber)))
  rw [buildPublishJson_eq]
  refine ⟨hmessage.utf8, ?_⟩
  have hlex := hmessage.lex_append (by simp) []
  rw [List.append_nil, lex_nil, Option.map_some] at hlex
  rw [hlex]
  rfl

theorem typeStringFromCode_plain (typeCode : NT4TypeCode) :
    ∀ b ∈ typeStringFromCode typeCode, Plain b := by
  cases typeCode <;> exact plain_of_all rfl

theorem typeStringFromCode_utf8 (typeCode : NT4TypeCode) : Utf8 (typeStringFromCode typeCode) := by
  cases typeCode <;> exact .of_all rfl

theorem publishesName_of_plain (hname : ∀ b ∈ ntPath, Plain b) (hutf8 : Utf8 ntPath)
    (typeCode : NT4TypeCode) (pubuid : Int32) :
    PublishesName (Sent.publish ntPath typeCode pubuid).bytes ntPath := by
  obtain ⟨hmessage, hlex⟩ := lex_buildPublishJson hname (typeStringFromCode_plain typeCode) hutf8
    (typeStringFromCode_utf8 typeCode) pubuid
  exact ⟨hmessage, _, _, _, hlex, rfl, rfl, rfl, decoded_bytes ntPath⟩

/-- A server that reads a name reads what follows the quotation mark. -/
theorem exists_lexString (h : PublishesName (Sent.publish ntPath typeCode pubuid).bytes name) :
    ∃ units rest more, lexString (ntPath ++ 34 :: 44 :: 34 :: more) = some (units, rest) ∧
      decoded units = name := by
  obtain ⟨-, members, params, units, hlex, -, hparams, hname, hdecoded⟩ := h
  obtain ⟨more, hbytes⟩ : ∃ more, (Sent.publish ntPath typeCode pubuid).bytes =
      App.text "[\x7b\"method\":\"publish\",\"params\":\x7b\"name\":" ++
        34 :: (ntPath ++ 34 :: 44 :: 34 :: more) := by
    have htype : App.text ",\"type\":" = 44 :: 34 :: App.text "type\":" := rfl
    rw [Sent.bytes, buildPublishJson_eq, htype]
    simp only [List.append_assoc, List.cons_append, List.nil_append]
    exact ⟨_, rfl⟩
  rw [hbytes, writes_publishHead.lex_append trivial] at hlex
  obtain ⟨tokens, hrest, htokens⟩ := Option.map_eq_some_iff.mp hlex
  obtain ⟨units', rest, tokens', hread, rfl⟩ := exists_string hrest
  refine ⟨units', rest, more, hread, ?_⟩
  have hmembers : [Token.comma].intercalate (memberTokens members) ++
      .rightBrace :: [.rightBracket] = publishHead.drop 2 ++ .string units' :: tokens' := by
    have hobject : (Tree.array [.object members]).tokens =
        .leftBracket :: .leftBrace :: ([Token.comma].intercalate (memberTokens members) ++
          .rightBrace :: [.rightBracket]) := by
      simp [Tree.tokens, itemTokens]
    rw [hobject] at htokens
    exact (List.cons.inj (List.cons.inj htokens).2).2.symm
  -- the members of the object, one after the other
  obtain ⟨method, others, rfl, hmethod⟩ := exists_first_member hmembers
  obtain ⟨rfl, hothers⟩ := Tree.eq_string hmethod
  obtain ⟨object, others, rfl, hobject⟩ := exists_next_member hothers
  obtain ⟨fields, rfl, hfields⟩ := Tree.exists_object hobject
  obtain ⟨value, others', rfl, hvalue⟩ := exists_first_member hfields
  obtain ⟨rfl, -⟩ := Tree.eq_string hvalue
  obtain rfl : _ = params := Tree.object.inj (Option.some.inj hparams)
  obtain rfl : units' = units := Tree.string.inj (Option.some.inj hname)
  exact hdecoded

end Message

/-! ### Topics -/

section Topics

variable {name : ByteString}

theorem append_stripSmartDashboardPrefix (h : kPrefix <+: name) :
    kPrefix ++ stripSmartDashboardPrefix name = name := by
  obtain ⟨key, rfl⟩ := h
  rw [stripSmartDashboardPrefix, if_pos (List.isPrefixOf_iff_prefix.mpr (List.prefix_append _ _)),
    List.drop_left]

/-- The message that goes out first. -/
theorem WritesBack.publishesName (h : WritesBack name) :
    PublishesName (Sent.publish (kPrefix ++ stripSmartDashboardPrefix name) .boolean 1).bytes
      name := by
  have hpublish := @publish_cases { NT4Client.new with connected := true } rfl
    (stripSmartDashboardPrefix name) 0 .boolean (.bool true)
  obtain ⟨claim, sent, hsent, hclaim⟩ :=
    h { NT4Client.new with connected := true } 0 .boolean (.bool true) rfl rfl
  rcases hpublish with ⟨pubuid, htable, -⟩ | ⟨-, hpublish⟩
  · cases htable
  · rw [hpublish] at hsent
    obtain ⟨rfl, -⟩ := List.cons.inj hsent
    exact hclaim

/-- A topic is written back if its name has the prefix and needs no escapes. -/
theorem writesBack_iff (hutf8 : Utf8 name) :
    WritesBack name ↔ kPrefix <+: name ∧ ∀ b ∈ name, Plain b := by
  constructor
  · intro h
    obtain ⟨units, rest, more, hread, hdecoded⟩ := exists_lexString h.publishesName
    have hbegins : kPrefix <+: name := by
      by_contra hnot
      have hplain : ∀ b ∈ kPrefix, Plain b := plain_of_all rfl
      rw [List.append_assoc, lexString_append hplain] at hread
      obtain ⟨⟨units', rest'⟩, -, heq⟩ := Option.map_eq_some_iff.mp hread
      cases heq
      rw [decoded_append] at hdecoded
      exact hnot ⟨_, hdecoded⟩
    rw [append_stripSmartDashboardPrefix hbegins] at hread
    exact ⟨hbegins, plain_of_decoded hread hdecoded (by decide) (by decide) rfl rfl⟩
  · rintro ⟨hbegins, hplain⟩ client timestamp typeCode value hconnected hunclaimed
    rcases publish_cases hconnected (stripSmartDashboardPrefix name) timestamp typeCode
      value with ⟨pubuid, htable, -⟩ | ⟨-, hpublish⟩
    · rw [hunclaimed] at htable
      cases htable
    · rw [hpublish]
      refine ⟨_, _, List.append_assoc .., ?_⟩
      rw [append_stripSmartDashboardPrefix hbegins]
      exact publishesName_of_plain hplain hutf8 typeCode client.nextPubUid

/-- The topics that a server announces are all written back, under distinct keys, exactly if they
all have the prefix and need no escapes. -/
theorem distinctWriteBack_iff (names : Set ByteString) (hutf8 : ∀ name ∈ names, Utf8 name) :
    ((∀ name ∈ names, WritesBack name) ∧ Set.InjOn stripSmartDashboardPrefix names) ↔
      ∀ name ∈ names, kPrefix <+: name ∧ ∀ b ∈ name, Plain b := by
  constructor
  · rintro ⟨hwrites, -⟩ name hname
    exact (writesBack_iff (hutf8 name hname)).mp (hwrites name hname)
  · intro h
    refine ⟨fun name hname => (writesBack_iff (hutf8 name hname)).mpr (h name hname), ?_⟩
    intro name hname name' hname' hkey
    rw [← append_stripSmartDashboardPrefix (h name hname).1, hkey,
      append_stripSmartDashboardPrefix (h name' hname').1]

theorem distinctWriteBack_velocity :
    (∀ name ∈ ({App.text "/SmartDashboard/Velocity"} : Set ByteString), WritesBack name) ∧
      Set.InjOn stripSmartDashboardPrefix {App.text "/SmartDashboard/Velocity"} := by
  have hutf8 : ∀ name ∈ ({App.text "/SmartDashboard/Velocity"} : Set ByteString), Utf8 name := by
    rintro name rfl
    exact .of_all rfl
  refine (distinctWriteBack_iff _ hutf8).mpr ?_
  rintro name rfl
  exact ⟨List.isPrefixOf_iff_prefix.mp rfl, plain_of_all rfl⟩

/-- Topics outside the prefix and names with a quotation mark, and two topics with one key. -/
theorem eventName_not_writesBack :
    (Utf8 (App.text "/FMSInfo/EventName") ∧ ¬WritesBack (App.text "/FMSInfo/EventName")) ∧
      (Utf8 (App.text "/SmartDashboard/a\"b") ∧ ¬WritesBack (App.text "/SmartDashboard/a\"b")) ∧
      stripSmartDashboardPrefix (App.text "/SmartDashboard/A") =
        stripSmartDashboardPrefix (App.text "A") := by
  have hevent : Utf8 (App.text "/FMSInfo/EventName") := .of_all rfl
  have hquote : Utf8 (App.text "/SmartDashboard/a\"b") := .of_all rfl
  refine ⟨⟨hevent, ?_⟩, ⟨hquote, ?_⟩, rfl⟩
  · rw [writesBack_iff hevent, ← List.isPrefixOf_iff_prefix]
    rintro ⟨hbegins, -⟩
    exact absurd hbegins (by decide)
  · rw [writesBack_iff hquote]
    rintro ⟨-, hplain⟩
    exact absurd (hplain 34 (by decide)) (by decide)

end Topics

end SmartDashboard.NT4
