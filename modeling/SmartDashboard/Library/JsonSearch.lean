import SmartDashboard.Library.JsonSource

/-!
# Searching a JSON text

A scanner that knows nothing of the grammar looks for a string together with its quotation marks,
for the next colon, for the next mark. On a text that is its tokens each search has an answer in
terms of the tokens: a string in its marks is found where it is a token, since no token that
follows a string begins with letters of a key.

## Main definitions

- `search`, `behind`, `upTo`: what `std::string::find` finds
- `Foreign`: a key that no token begins with
- `valueBehind`: the string that a scanner takes for the value of a key

## Main results

- `Spelled.search_string`: a string in its marks is found at the first token that is this string
- `Spelled.behind_mark`, `Spelled.stringBehind_iff`: the next mark, the next string behind a colon
-/

namespace TextSearch

/-- The text from the first occurrence of the needle on. -/
def search (needle : List UInt8) : List UInt8 → Option (List UInt8)
  | [] => if needle = [] then some [] else none
  | b :: text => if needle.isPrefixOf (b :: text) then some (b :: text) else search needle text

/-- The text behind the first occurrence of the needle. -/
def behind (needle text : List UInt8) : Option (List UInt8) :=
  (search needle text).map (·.drop needle.length)

/-- The bytes in front of the first `b`. -/
def upTo (b : UInt8) (text : List UInt8) : Option (List UInt8) :=
  if b ∈ text then some (text.takeWhile (· ≠ b)) else none

variable {needle front text rest : List UInt8} {b : UInt8}

theorem search_append_self (needle rest : List UInt8) :
    search needle (needle ++ rest) = some (needle ++ rest) := by
  cases h : needle ++ rest with
  | nil => rw [search, if_pos (List.append_eq_nil_iff.mp h).1]
  | cons b text =>
    rw [search, if_pos]
    rw [← h, List.isPrefixOf_iff_prefix]
    exact List.prefix_append needle rest

theorem search_cons_of_not_isPrefix (h : ¬ needle <+: b :: text) :
    search needle (b :: text) = search needle text := by
  rw [search, if_neg]
  rwa [List.isPrefixOf_iff_prefix]

/-- Bytes that are not the needle's first one are passed over. -/
theorem search_append_of_not_mem (h : b ∉ front) :
    search (b :: needle) (front ++ text) = search (b :: needle) text := by
  induction front with
  | nil => rfl
  | cons c front ih =>
    rw [List.mem_cons, not_or] at h
    rw [List.cons_append, search_cons_of_not_isPrefix, ih h.2]
    intro hprefix
    exact h.1 (List.cons_prefix_cons.mp hprefix).1

theorem search_eq_none_of_not_mem (h : b ∉ text) : search (b :: needle) text = none := by
  have hsearch := @search_append_of_not_mem needle _ [] b h
  rwa [List.append_nil] at hsearch

theorem length_search (h : search needle text = some rest) : rest.length ≤ text.length := by
  induction text with
  | nil =>
    rw [search] at h
    split_ifs at h
    cases h
    exact le_rfl
  | cons c text ih =>
    rw [search] at h
    split_ifs at h
    · cases h
      exact le_rfl
    · exact (ih h).trans (Nat.le_succ _)

theorem behind_byte (h : b ∉ front) (rest : List UInt8) :
    behind [b] (front ++ b :: rest) = some rest := by
  have hsearch := search_append_self [b] rest
  rw [List.singleton_append] at hsearch
  rw [behind, search_append_of_not_mem h, hsearch]
  rfl

theorem behind_eq_none (h : b ∉ text) : behind [b] text = none := by
  rw [behind, search_eq_none_of_not_mem h]
  rfl

theorem upTo_append (h : b ∉ front) (rest : List UInt8) :
    upTo b (front ++ b :: rest) = some front := by
  have hfront : ∀ c ∈ front, (decide (c ≠ b)) = true := by
    intro c hc
    rw [decide_eq_true_iff]
    rintro rfl
    exact h hc
  rw [upTo, if_pos (List.mem_append_right front List.mem_cons_self),
    List.takeWhile_append_of_pos hfront, List.takeWhile_cons_of_neg (by simp), List.append_nil]

theorem exists_of_upTo (h : upTo b text = some front) : ∃ rest, text = front ++ b :: rest := by
  rw [upTo] at h
  split_ifs at h with hmem
  obtain ⟨before, rest, rfl, hbefore⟩ := List.eq_append_cons_of_mem hmem
  have hfront := upTo_append hbefore rest
  rw [upTo, if_pos hmem, h] at hfront
  exact ⟨rest, by rw [Option.some.inj hfront]⟩

theorem behind_append_of_not_mem (h : b ∉ front) :
    behind [b] (front ++ text) = behind [b] text := by
  rw [behind, search_append_of_not_mem h, behind]

/-- The bytes between the next two quotation marks behind the next colon. -/
def stringBehind (text : List UInt8) : Option (List UInt8) := do
  let rest ← behind [58] text
  let rest ← behind [34] rest
  upTo 34 rest

end TextSearch

namespace Json

open Decimal TextSearch

/-- The bytes of a string in its marks. -/
def quoted (bytes : List UInt8) : List UInt8 := 34 :: (bytes ++ [34])

/-- A key whose first letter is no other token's, or whose second letter tells it from the words
`true`, `false` and `null`. -/
structure Foreign (key : List UInt8) : Prop where
  letter : ∃ a ∈ key.head?, 97 ≤ a ∧ a ≤ 122
  word : key.take 2 ≠ [116, 114] ∧ key.take 2 ≠ [102, 97] ∧ key.take 2 ≠ [110, 117]
  long : 2 ≤ key.length
  unquoted : 34 ∉ key

instance (b : UInt8) : Decidable (IsNumeral b) := inferInstanceAs (Decidable (_ ∨ _))

/-- The first string. -/
def nextString : List Token → Option (List StringUnit)
  | [] => none
  | .string units :: _ => some units
  | _ :: tokens => nextString tokens

/-- The first string behind the first colon, unless the first colon is part of a string. -/
def valueBehind : List Token → Option (List StringUnit)
  | [] => none
  | .colon :: tokens => nextString tokens
  | .string units :: tokens => if .byte 58 ∈ units then none else valueBehind tokens
  | _ :: tokens => valueBehind tokens

section Spelled

variable {text rest raw key : List UInt8} {token mark : Token} {tokens front back : List Token}
  {b m : UInt8}

theorem byte_injective : Function.Injective StringUnit.byte := fun _ _ h => StringUnit.byte.inj h

theorem lexWord_cases (h : lexWord raw = some (token, [])) :
    raw = [116, 114, 117, 101] ∨ raw = [102, 97, 108, 115, 101] ∨ raw = [110, 117, 108, 108] := by
  unfold lexWord at h
  split at h
  all_goals cases h
  all_goals simp

/-- A token that is no string has only its mark, or the bytes of a number or of a word. -/
theorem Spells.mem_raw (h : Spells token raw) (hstring : ∀ units, token ≠ .string units)
    (hb : b ∈ raw) : punctuation b = some token ∨ IsNumeral b ∨ (97 ≤ b ∧ b ≤ 122) := by
  cases h with
  | mark h => exact .inl (List.mem_singleton.mp hb ▸ h)
  | word h =>
    have hletters : (raw.all fun c => 97 ≤ c ∧ c ≤ 122) = true := by
      rcases lexWord_cases h with rfl | rfl | rfl <;> rfl
    exact .inr (.inr (of_decide_eq_true (List.all_eq_true.mp hletters b hb)))
  | string h => exact absurd rfl (hstring _)
  | number h => exact .inr (.inl (h.bytes b hb))

theorem Spells.quote_not_mem (h : Spells token raw) (hstring : ∀ units, token ≠ .string units) :
    34 ∉ raw := by
  intro hmem
  rcases h.mem_raw hstring hmem with hmark | hother
  · cases hmark
  · exact absurd hother (by decide)

theorem punctuation_inj {b m : UInt8} (h : punctuation b = some mark)
    (hm : punctuation m = some mark) : b = m := by
  rcases punctuation_cases h with rfl | rfl | rfl | rfl | rfl | rfl <;>
    rcases punctuation_cases hm with rfl | rfl | rfl | rfl | rfl | rfl <;>
    first | rfl | (rw [← hm] at h; cases h)

theorem Spells.eq_mark (h : Spells mark raw) (hm : punctuation m = some mark) : raw = [m] := by
  cases h with
  | mark h => rw [punctuation_inj h hm]
  | word h =>
    unfold lexWord at h
    unfold punctuation at hm
    split at h <;> cases h <;> split_ifs at hm <;> cases hm
  | string h =>
    unfold punctuation at hm
    split_ifs at hm <;> cases hm
  | number h => exact absurd hm (punctuation_ne_number m _)

theorem Spells.eq_quoted {units : List StringUnit} (h : Spells (.string units) raw) :
    ∃ bytes, raw = quoted bytes ∧ units = bytes.map .byte ∧ 34 ∉ bytes ∧ 92 ∉ bytes := by
  cases h with
  | mark h =>
    unfold punctuation at h
    split_ifs at h <;> cases h
  | word h =>
    unfold lexWord at h
    split at h <;> cases h
  | @string bytes h =>
    exact ⟨bytes, rfl, rfl, fun hmem => (h 34 hmem).2.1 rfl, fun hmem => (h 92 hmem).2.2 rfl⟩

theorem not_mem_space {space : List UInt8} (hspace : ∀ b ∈ space, IsSpace b) (hb : ¬IsSpace b) :
    b ∉ space := fun hmem => hb (hspace b hmem)

/-- No token begins with a foreign key. -/
theorem Foreign.not_isPrefix (hkey : Foreign key) (h : Spelled tokens text) : ¬ key <+: text := by
  obtain ⟨⟨a, ha, hlow, hhigh⟩, ⟨htrue, hfalse, hnull⟩, hlong, -⟩ := hkey
  obtain ⟨b, more, rfl⟩ : ∃ b more, key = a :: b :: more := by
    rcases key with _ | ⟨c, _ | ⟨b, more⟩⟩
    · cases ha
    · simp at hlong
    · obtain rfl := Option.some.inj ha
      exact ⟨b, more, rfl⟩
  have hsmall : ∀ c : UInt8, c < 97 → a ≠ c := by
    rintro c hc rfl
    exact absurd hc (UInt8.not_lt.mpr hlow)
  have hlarge : ∀ c : UInt8, 122 < c → a ≠ c := by
    rintro c hc rfl
    exact absurd hc (UInt8.not_lt.mpr hhigh)
  have hspace : ¬IsSpace a := by
    rintro (h | h | h | h) <;> exact hsmall _ (by decide) h
  have hdigit : ¬IsDigit a := by
    rintro ⟨-, h⟩
    exact absurd (UInt8.le_trans hlow h) (by decide)
  rintro ⟨tail, hprefix⟩
  cases h with
  | nil hspaces => exact hspace (hspaces a (by rw [← hprefix]; exact List.mem_cons_self))
  | @cons space raw rest token tokens hspaces htoken _ _ =>
    cases space with
    | cons c space =>
      rw [(List.cons.inj hprefix).1] at hspace
      exact hspace (hspaces c List.mem_cons_self)
    | nil =>
      rw [List.nil_append] at hprefix
      cases htoken with
      | mark h =>
        have hfirst := (List.cons.inj hprefix).1
        rcases punctuation_cases h with rfl | rfl | rfl | rfl | rfl | rfl
        · exact hlarge _ (by decide) hfirst
        · exact hlarge _ (by decide) hfirst
        all_goals exact hsmall _ (by decide) hfirst
      | word h =>
        rcases lexWord_cases h with rfl | rfl | rfl
        all_goals
          obtain ⟨rfl, htail⟩ := List.cons.inj hprefix
          obtain ⟨rfl, -⟩ := List.cons.inj htail
        · exact htrue rfl
        · exact hfalse rfl
        · exact hnull rfl
      | string h => exact hsmall 34 (by decide) (List.cons.inj hprefix).1
      | number h =>
        obtain ⟨c, more, rfl, hc⟩ := h.first
        obtain rfl := (List.cons.inj hprefix).1
        exact hc.elim (hsmall 45 (by decide)) hdigit

/-- No other token hides a string in its marks, and neither does what comes before it. -/
theorem search_quoted_cons (hkey : Foreign key) (htoken : Spells token raw)
    (hne : token ≠ .string (key.map .byte)) (hrest : Spelled tokens rest) :
    search (quoted key) (raw ++ rest) = search (quoted key) rest := by
  by_cases hstring : ∀ units, token ≠ .string units
  · exact search_append_of_not_mem (htoken.quote_not_mem hstring)
  · push Not at hstring
    obtain ⟨units, rfl⟩ := hstring
    obtain ⟨bytes, rfl, rfl, hbytes, -⟩ := htoken.eq_quoted
    have hopen : ¬ quoted key <+: 34 :: (bytes ++ 34 :: rest) := by
      rintro ⟨tail, hprefix⟩
      have hmarks : key ++ 34 :: tail = bytes ++ 34 :: rest := by
        have := (List.cons.inj hprefix).2
        simpa using this
      have hsame := congrArg (upTo 34) hmarks
      rw [upTo_append hkey.unquoted, upTo_append hbytes] at hsame
      rw [Option.some.inj hsame] at hne
      exact hne rfl
    have hclose : ¬ quoted key <+: 34 :: rest := by
      intro hprefix
      have hletters := (List.cons_prefix_cons.mp hprefix).2
      exact hkey.not_isPrefix hrest ((List.prefix_append key [34]).trans hletters)
    have hinside : search (quoted key) (bytes ++ 34 :: rest) = search (quoted key) (34 :: rest) :=
      search_append_of_not_mem hbytes
    have hquoted : quoted bytes ++ rest = 34 :: (bytes ++ 34 :: rest) := by simp [quoted]
    rw [hquoted, search_cons_of_not_isPrefix hopen, hinside, search_cons_of_not_isPrefix hclose]

theorem search_quoted_space (key : List UInt8) {space : List UInt8}
    (hspace : ∀ b ∈ space, IsSpace b) (rest : List UInt8) :
    search (quoted key) (space ++ rest) = search (quoted key) rest :=
  search_append_of_not_mem (not_mem_space hspace (by decide))

theorem search_eq_some (h : search (quoted key) text = some (quoted key ++ rest)) :
    behind (quoted key) text = some rest := by
  rw [behind, h, Option.map_some, List.drop_left]

theorem Spelled.search_eq_none (hkey : Foreign key) (h : Spelled tokens text)
    (hnot : .string (key.map .byte) ∉ tokens) : search (quoted key) text = none := by
  induction h with
  | nil hspace => exact search_eq_none_of_not_mem (not_mem_space hspace (by decide))
  | cons hspace htoken _ hrest ih =>
    rw [List.mem_cons, not_or] at hnot
    rw [search_quoted_space key hspace, search_quoted_cons hkey htoken (Ne.symm hnot.1) hrest,
      ih hnot.2]

/-- A string in its marks is found at the first token that is this string. -/
theorem Spelled.search_string (hkey : Foreign key)
    (h : Spelled (front ++ .string (key.map .byte) :: back) text)
    (hnot : .string (key.map .byte) ∉ front) :
    ∃ rest, search (quoted key) text = some (quoted key ++ rest) ∧ Spelled back rest := by
  induction front generalizing text with
  | nil =>
    cases h with
    | @cons space raw rest _ _ hspace htoken _ hrest =>
      refine ⟨rest, ?_, hrest⟩
      obtain ⟨bytes, rfl, hunits, -, -⟩ := htoken.eq_quoted
      obtain rfl := List.map_injective_iff.mpr byte_injective hunits
      rw [search_quoted_space key hspace, search_append_self]
  | cons token front ih =>
    cases h with
    | @cons space raw rest _ _ hspace htoken _ hrest =>
      rw [List.mem_cons, not_or] at hnot
      rw [search_quoted_space key hspace, search_quoted_cons hkey htoken (Ne.symm hnot.1) hrest]
      exact ih hrest hnot.2

/-- The mark that is the next token. -/
theorem Spelled.exists_mark (h : Spelled (mark :: back) text) (hm : punctuation m = some mark) :
    ∃ space rest, text = space ++ m :: rest ∧ (∀ b ∈ space, IsSpace b) ∧ Spelled back rest := by
  cases h with
  | @cons space raw rest _ _ hspace htoken _ hrest =>
    obtain rfl := htoken.eq_mark hm
    exact ⟨space, rest, rfl, hspace, hrest⟩

theorem not_isSpace_mark (hm : punctuation m = some mark) : ¬IsSpace m := by
  rcases punctuation_cases hm with rfl | rfl | rfl | rfl | rfl | rfl <;> decide

theorem Spelled.behind_mark (h : Spelled (mark :: back) text) (hm : punctuation m = some mark) :
    ∃ space rest, text = space ++ m :: rest ∧ (∀ b ∈ space, IsSpace b) ∧
      behind [m] text = some rest ∧ Spelled back rest := by
  obtain ⟨space, rest, rfl, hspace, hrest⟩ := h.exists_mark hm
  have hm' : m ∉ space := not_mem_space hspace (not_isSpace_mark hm)
  exact ⟨space, rest, rfl, hspace, behind_byte hm' rest, hrest⟩

theorem nextString_cons (hstring : ∀ units, token ≠ .string units) :
    nextString (token :: tokens) = nextString tokens := by
  cases token with
  | string units => exact absurd rfl (hstring units)
  | _ => rfl

theorem valueBehind_cons (hstring : ∀ units, token ≠ .string units) (hcolon : token ≠ .colon) :
    valueBehind (token :: tokens) = valueBehind tokens := by
  cases token with
  | string units => exact absurd rfl (hstring units)
  | colon => exact absurd rfl hcolon
  | _ => rfl

theorem not_mem_quoted {bytes : List UInt8} (hb : b ≠ 34) (h : b ∉ bytes) : b ∉ quoted bytes := by
  simp [quoted, hb, h]

/-- The bytes between the next two quotation marks are the next string. -/
theorem Spelled.nextString_eq (h : Spelled tokens text) :
    ((behind [34] text).bind (upTo 34)).map (List.map .byte) = nextString tokens := by
  induction h with
  | nil hspace =>
    rw [behind_eq_none (not_mem_space hspace (by decide))]
    rfl
  | @cons space raw rest token tokens hspace htoken _ _ ih =>
    have hspace : (34 : UInt8) ∉ space := not_mem_space hspace (by decide)
    by_cases hstring : ∀ units, token ≠ .string units
    · have hraw := htoken.quote_not_mem hstring
      rw [behind_append_of_not_mem hspace, behind_append_of_not_mem hraw, ih,
        nextString_cons hstring]
    · push Not at hstring
      obtain ⟨units, rfl⟩ := hstring
      obtain ⟨bytes, rfl, rfl, hbytes, -⟩ := htoken.eq_quoted
      have hquoted : quoted bytes ++ rest = 34 :: (bytes ++ 34 :: rest) := by simp [quoted]
      have hbehind : behind [34] (34 :: (bytes ++ 34 :: rest)) = some (bytes ++ 34 :: rest) :=
        behind_byte List.not_mem_nil _
      rw [behind_append_of_not_mem hspace, hquoted, hbehind, Option.bind_some, upTo_append hbytes]
      rfl

/-- What a scanner reads behind the next colon is a given key exactly if this key is the string
that is found there. -/
theorem Spelled.stringBehind_iff (hkey : Foreign key) (h : Spelled tokens text) :
    stringBehind text = some key ↔ valueBehind tokens = some (key.map .byte) := by
  induction h with
  | nil hspace =>
    rw [stringBehind, behind_eq_none (not_mem_space hspace (by decide))]
    simp [valueBehind]
  | @cons space raw rest token tokens hspace htoken _ hrest ih =>
    have hspace : (58 : UInt8) ∉ space := not_mem_space hspace (by decide)
    have hskip (h : (58 : UInt8) ∉ raw) :
        stringBehind (space ++ (raw ++ rest)) = stringBehind rest := by
      rw [stringBehind, behind_append_of_not_mem hspace, behind_append_of_not_mem h, stringBehind]
    by_cases hcolon : token = .colon
    · subst hcolon
      obtain rfl : raw = [58] := htoken.eq_mark rfl
      have hbehind : behind [58] (space ++ ([58] ++ rest)) = some rest := behind_byte hspace rest
      have hnext := hrest.nextString_eq
      rw [valueBehind, ← hnext, stringBehind, hbehind, Option.bind_eq_bind, Option.bind_some,
        Option.map_eq_some_iff]
      constructor
      · exact fun heq => ⟨key, heq, rfl⟩
      · rintro ⟨bytes, heq, hbytes⟩
        rwa [List.map_injective_iff.mpr byte_injective hbytes] at heq
    by_cases hstring : ∀ units, token ≠ .string units
    · have hraw : (58 : UInt8) ∉ raw := by
        intro hmem
        rcases htoken.mem_raw hstring hmem with hmark | hother
        · exact hcolon (Option.some.inj hmark).symm
        · exact absurd hother (by decide)
      rw [hskip hraw, ih, valueBehind_cons hstring hcolon]
    · push Not at hstring
      obtain ⟨units, rfl⟩ := hstring
      obtain ⟨bytes, rfl, rfl, hbytes, -⟩ := htoken.eq_quoted
      by_cases hmem : (58 : UInt8) ∈ bytes
      · -- the colon in the string is taken for the one behind the key
        obtain ⟨front, back, rfl, hfront⟩ := List.eq_append_cons_of_mem hmem
        have hback : (34 : UInt8) ∉ back := fun hmem =>
          hbytes (List.mem_append_right front (List.mem_cons_of_mem _ hmem))
        have hsplit : space ++ (quoted (front ++ 58 :: back) ++ rest) =
            (space ++ 34 :: front) ++ 58 :: (back ++ 34 :: rest) := by simp [quoted]
        have hbefore : (58 : UInt8) ∉ space ++ 34 :: front := by
          simp [hspace, hfront]
        have hunits : StringUnit.byte 58 ∈ (front ++ 58 :: back).map StringUnit.byte :=
          List.mem_map_of_mem hmem
        rw [valueBehind, if_pos hunits, stringBehind, hsplit, behind_byte hbefore,
          Option.bind_eq_bind, Option.bind_some, behind_byte hback, Option.bind_some]
        constructor
        · intro heq
          obtain ⟨more, hmore⟩ := exists_of_upTo heq
          exact absurd ⟨34 :: more, hmore.symm⟩ (hkey.not_isPrefix hrest)
        · rintro ⟨⟩
      · have hunits : StringUnit.byte 58 ∉ bytes.map StringUnit.byte := by
          intro h
          obtain ⟨b, hb, heq⟩ := List.mem_map.mp h
          exact hmem (byte_injective heq ▸ hb)
        rw [hskip (not_mem_quoted (by decide) hmem), ih, valueBehind, if_neg hunits]

end Spelled

end Json
