import SmartDashboard.Library.JsonSource

/-!
# Strings of JSON texts

What the bytes between quotation marks are, and what they stand for. Every escape is longer than
the bytes it stands for, so that a string stands for itself only if it has none.

## Main definitions

- `StringBody`: the bytes between the marks and the units they spell
- `Raw`: the bytes of a token, whatever escapes a string has
- `decoded`: the bytes that the units stand for

## Main results

- `lexString_body`: what is read as a string
- `exists_of_lex_cons`: the first token of a text
- `plain_of_decoded`: a text that is put between marks, unescaped, and read as itself, is plain
-/

namespace Json

open Decimal

/-! ### Reading -/

inductive StringBody : List UInt8 → List StringUnit → Prop
  | nil : StringBody [] []
  | plain {b : UInt8} {raw : List UInt8} {units : List StringUnit} (h : Plain b)
    (hrest : StringBody raw units) : StringBody (b :: raw) (.byte b :: units)
  | escape {b c : UInt8} {raw : List UInt8} {units : List StringUnit} (h : shortEscape b = some c)
    (hrest : StringBody raw units) : StringBody (92 :: b :: raw) (.byte c :: units)
  | code {digits raw : List UInt8} {u : UInt16} {units : List StringUnit}
    (hlength : digits.length = 4) (h : ∀ b ∈ digits, hexValue b ≠ none)
    (hrest : StringBody raw units) : StringBody (92 :: 117 :: (digits ++ raw)) (.code u :: units)

/-- What is left of the body where a string is read. -/
def BodyFrom : StringState → List UInt8 → List StringUnit → Prop
  | .plain, raw, units => StringBody raw units
  | .escaped, raw, units => StringBody (92 :: raw) units
  | .hex _ left, raw, units => ∃ digits rest u units', raw = digits ++ rest ∧
    digits.length = left + 1 ∧ (∀ b ∈ digits, hexValue b ≠ none) ∧ units = .code u :: units' ∧
    StringBody rest units'

section Reading

variable {text rest raw front : List UInt8} {units : List StringUnit} {b c : UInt8}

theorem lexStringFrom_body {state : StringState}
    (h : lexStringFrom state text = some (units, rest)) :
    ∃ raw, text = raw ++ 34 :: rest ∧ BodyFrom state raw units := by
  induction text generalizing state units with
  | nil => cases h
  | cons b text ih =>
    rw [lexStringFrom] at h
    cases state with
    | plain =>
      rw [stringStep] at h
      by_cases hquote : b = 34
      · rw [if_pos hquote] at h
        cases h
        exact ⟨[], by rw [hquote]; rfl, .nil⟩
      by_cases hescape : b = 92
      · rw [if_neg hquote, if_pos hescape] at h
        obtain ⟨raw, rfl, hraw⟩ := ih h
        exact ⟨92 :: raw, by rw [hescape]; rfl, hraw⟩
      by_cases hcontrol : b < 32
      · rw [if_neg hquote, if_neg hescape, if_pos hcontrol] at h
        cases h
      rw [if_neg hquote, if_neg hescape, if_neg hcontrol] at h
      obtain ⟨⟨units', rest'⟩, hread, heq⟩ := Option.map_eq_some_iff.mp h
      cases heq
      obtain ⟨raw, rfl, hraw⟩ := ih hread
      exact ⟨b :: raw, rfl, .plain ⟨UInt8.not_lt.mp hcontrol, hquote, hescape⟩ hraw⟩
    | escaped =>
      rw [stringStep] at h
      by_cases hcode : b = 117
      · rw [if_pos hcode] at h
        obtain ⟨_, rfl, digits, raw, u, units', rfl, hlength, hdigits, rfl, hraw⟩ := ih h
        exact ⟨117 :: (digits ++ raw), by rw [hcode]; rfl, .code hlength hdigits hraw⟩
      rw [if_neg hcode] at h
      cases hshort : shortEscape b with
      | none =>
        rw [hshort] at h
        cases h
      | some c =>
        rw [hshort] at h
        obtain ⟨⟨units', rest'⟩, hread, heq⟩ := Option.map_eq_some_iff.mp h
        cases heq
        obtain ⟨raw, rfl, hraw⟩ := ih hread
        exact ⟨b :: raw, rfl, .escape hshort hraw⟩
    | hex value left =>
      cases hdigit : hexValue b with
      | none =>
        simp only [stringStep, hdigit] at h
        cases h
      | some digit =>
        have hb : hexValue b ≠ none := by
          rw [hdigit]
          exact Option.some_ne_none digit
        cases left with
        | zero =>
          simp only [stringStep, hdigit] at h
          obtain ⟨⟨units', rest'⟩, hread, heq⟩ := Option.map_eq_some_iff.mp h
          cases heq
          obtain ⟨raw, rfl, hraw⟩ := ih hread
          exact ⟨b :: raw, rfl, [b], raw, _, units', rfl, rfl, by simpa using hb, rfl, hraw⟩
        | succ left =>
          simp only [stringStep, hdigit] at h
          obtain ⟨_, rfl, digits, raw, u, units', rfl, hlength, hdigits, rfl, hraw⟩ := ih h
          refine ⟨b :: (digits ++ raw), rfl, b :: digits, raw, u, units', rfl, ?_, ?_, rfl, hraw⟩
          · rw [List.length_cons, hlength]
          · exact List.forall_mem_cons.mpr ⟨hb, hdigits⟩

theorem lexString_body (h : lexString text = some (units, rest)) :
    ∃ raw, text = raw ++ 34 :: rest ∧ StringBody raw units :=
  lexStringFrom_body h

/-- The bytes of a token of any text, whatever escapes a string has. -/
inductive Raw : Token → List UInt8 → Prop
  | other {token : Token} {raw : List UInt8} (h : Spells token raw)
    (hstring : ∀ units, token ≠ .string units) : Raw token raw
  | string {body : List UInt8} {units : List StringUnit} (h : StringBody body units) :
    Raw (.string units) (34 :: (body ++ [34]))

theorem lexToken_raw {token : Token} (h : lexToken text = some (token, rest)) :
    ∃ raw, text = raw ++ rest ∧ Raw token raw := by
  by_cases hstring : ∀ units, token ≠ .string units
  · obtain ⟨raw, htext, hraw, -⟩ := lexToken_spells_of_ne h hstring
    exact ⟨raw, htext, .other hraw hstring⟩
  · push Not at hstring
    obtain ⟨units, rfl⟩ := hstring
    obtain ⟨text, rfl, hread⟩ := exists_lexString h
    obtain ⟨body, rfl, hbody⟩ := lexString_body hread
    exact ⟨34 :: (body ++ [34]), by simp, .string hbody⟩

theorem isSpace_of_lex_nil (h : lex text = some []) : ∀ b ∈ text, IsSpace b := by
  induction text with
  | nil => simp
  | cons b text ih =>
    by_cases hspace : IsSpace b
    · rw [lex_space hspace] at h
      exact List.forall_mem_cons.mpr ⟨hspace, ih h⟩
    cases hread : lexToken (b :: text) with
    | none =>
      rw [lex_eq_none hspace hread] at h
      cases h
    | some read =>
      rw [lex_token hread] at h
      obtain ⟨tokens, -, heq⟩ := Option.map_eq_some_iff.mp h
      cases heq

/-- The first token of a text, with the space before it. -/
theorem exists_of_lex_cons {token : Token} {tokens : List Token}
    (h : lex text = some (token :: tokens)) :
    ∃ space raw rest, text = space ++ (raw ++ rest) ∧ (∀ b ∈ space, IsSpace b) ∧ Raw token raw ∧
      lex rest = some tokens := by
  induction text with
  | nil => cases h
  | cons b text ih =>
    by_cases hspace : IsSpace b
    · rw [lex_space hspace] at h
      obtain ⟨space, raw, rest, rfl, hspaces, hraw, hrest⟩ := ih h
      exact ⟨b :: space, raw, rest, rfl, List.forall_mem_cons.mpr ⟨hspace, hspaces⟩, hraw, hrest⟩
    cases hread : lexToken (b :: text) with
    | none =>
      rw [lex_eq_none hspace hread] at h
      cases h
    | some read =>
      obtain ⟨token', rest⟩ := read
      rw [lex_token hread] at h
      obtain ⟨tokens', hrest, heq⟩ := Option.map_eq_some_iff.mp h
      cases heq
      obtain ⟨raw, htext, hraw⟩ := lexToken_raw hread
      exact ⟨[], raw, rest, htext, by simp, hraw, hrest⟩

/-- A quotation mark inside a string stands behind a backslash. -/
theorem StringBody.getLast_of_quote {back : List UInt8} (h : StringBody raw units)
    (hraw : raw = front ++ 34 :: back) : front.getLast? = some 92 := by
  induction h generalizing front with
  | nil => simp at hraw
  | plain hplain _ ih =>
    cases front with
    | nil => exact absurd (List.cons.inj hraw).1 hplain.2.1
    | cons c front => rw [List.getLast?_cons, ih (List.cons.inj hraw).2, Option.getD_some]
  | escape hshort _ ih =>
    rcases front with _ | ⟨c, _ | ⟨d, front⟩⟩
    · cases (List.cons.inj hraw).1
    · rw [← (List.cons.inj hraw).1]
      rfl
    · have hback := ih (List.cons.inj (List.cons.inj hraw).2).2
      rw [List.getLast?_cons, List.getLast?_cons, hback]
      rfl
  | code hlength hdigits _ ih =>
    rcases front with _ | ⟨c, _ | ⟨d, front⟩⟩
    · cases (List.cons.inj hraw).1
    · cases (List.cons.inj (List.cons.inj hraw).2).1
    · rcases List.append_eq_append_iff.mp (List.cons.inj (List.cons.inj hraw).2).2 with
        ⟨more, rfl, hmore⟩ | ⟨more, hmore, hquote⟩
      · rw [List.getLast?_cons, List.getLast?_cons, List.getLast?_append, ih hmore]
        rfl
      · cases more with
        | nil => cases @ih [] hquote.symm
        | cons e more =>
          -- the mark would be one of the digits
          obtain rfl := (List.cons.inj hquote).1
          exact absurd rfl (hdigits 34 (by rw [hmore]; simp))

/-- A last byte that ends no escape is a unit of its own. -/
theorem StringBody.concat (h : StringBody raw units) (hraw : raw = front ++ [b])
    (hshort : shortEscape b = none) (hhex : hexValue b = none) :
    ∃ units', units = units' ++ [.byte b] := by
  induction h generalizing front with
  | nil => simp at hraw
  | @plain c raw units _ hrest ih =>
    cases front with
    | nil =>
      obtain ⟨rfl, rfl⟩ := List.cons.inj hraw
      cases hrest
      exact ⟨[], rfl⟩
    | cons d front =>
      obtain ⟨units', rfl⟩ := ih (List.cons.inj hraw).2
      exact ⟨.byte c :: units', rfl⟩
  | @escape c e raw units hescape hrest ih =>
    rcases front with _ | ⟨d, _ | ⟨d', front⟩⟩
    · cases (List.cons.inj hraw).2
    · obtain rfl := (List.cons.inj (List.cons.inj hraw).2).1
      rw [hshort] at hescape
      cases hescape
    · obtain ⟨units', rfl⟩ := ih (List.cons.inj (List.cons.inj hraw).2).2
      exact ⟨.byte e :: units', rfl⟩
  | @code digits raw u units hlength hdigits hrest ih =>
    rcases front with _ | ⟨d, _ | ⟨d', front⟩⟩
    · cases (List.cons.inj hraw).2
    · have hempty := (List.cons.inj (List.cons.inj hraw).2).2
      rw [List.append_eq_nil_iff] at hempty
      rw [hempty.1] at hlength
      cases hlength
    · rcases List.append_eq_append_iff.mp (List.cons.inj (List.cons.inj hraw).2).2 with
        ⟨more, rfl, hmore⟩ | ⟨more, hmore, hlast⟩
      · obtain ⟨units', rfl⟩ := ih hmore
        exact ⟨.code u :: units', rfl⟩
      · cases more with
        | nil =>
          obtain ⟨units', rfl⟩ := @ih [] hlast.symm
          exact ⟨.code u :: units', rfl⟩
        | cons e more =>
          obtain rfl := (List.cons.inj hlast).1
          exact absurd hhex (hdigits b (by rw [hmore]; simp))

end Reading

/-! ### Decoding -/

/-- The code units that a pair begins and ends with. -/
def IsHigh (u : UInt16) : Prop := 0xD800 ≤ u ∧ u < 0xDC00

def IsLow (u : UInt16) : Prop := 0xDC00 ≤ u ∧ u < 0xE000

instance (u : UInt16) : Decidable (IsHigh u) := inferInstanceAs (Decidable (_ ∧ _))

instance (u : UInt16) : Decidable (IsLow u) := inferInstanceAs (Decidable (_ ∧ _))

/-- A code unit without its pair is replaced. -/
def codeChar (u : UInt16) : Char :=
  if IsHigh u ∨ IsLow u then Char.ofNat 0xFFFD else Char.ofNat u.toNat

def pairChar (high low : UInt16) : Char :=
  Char.ofNat (0x10000 + (high.toNat - 0xD800) * 0x400 + (low.toNat - 0xDC00))

/-- The bytes that the units stand for, code units in UTF-8. -/
def decoded : List StringUnit → List UInt8
  | [] => []
  | .byte b :: units => b :: decoded units
  | .code high :: .code low :: units =>
    if IsHigh high ∧ IsLow low then String.utf8EncodeChar (pairChar high low) ++ decoded units
    else String.utf8EncodeChar (codeChar high) ++ decoded (.code low :: units)
  | .code u :: units => String.utf8EncodeChar (codeChar u) ++ decoded units

/-- More bytes than a unit stands for, but fewer than its escape has. -/
def StringUnit.size : StringUnit → ℕ
  | .byte _ => 1
  | .code _ => 4

section Decoding

variable {text rest raw name more : List UInt8} {units : List StringUnit} {b : UInt8}

theorem decoded_bytes (bytes : List UInt8) : decoded (bytes.map .byte) = bytes := by
  induction bytes with
  | nil => rfl
  | cons b bytes ih => rw [List.map_cons, decoded, ih]

theorem decoded_concat (units : List StringUnit) (b : UInt8) :
    decoded (units ++ [.byte b]) = decoded units ++ [b] := by
  fun_induction decoded units with
  | case1 => rfl
  | case2 c units ih => rw [List.cons_append, decoded, ih, List.cons_append]
  | case3 high low units hpair ih =>
    rw [List.cons_append, List.cons_append, decoded, if_pos hpair, ih, List.append_assoc]
  | case4 high low units hpair ih =>
    rw [List.cons_append, List.cons_append, decoded, if_neg hpair, ← List.cons_append, ih,
      List.append_assoc]
  | case5 u units hunits ih =>
    have hcode : decoded (.code u :: (units ++ [.byte b])) =
        String.utf8EncodeChar (codeChar u) ++ decoded (units ++ [.byte b]) := by
      rcases units with _ | ⟨c | low, units⟩
      · rfl
      · rfl
      · exact absurd rfl (hunits low units)
    rw [List.cons_append, hcode, ih, List.append_assoc]

theorem length_utf8EncodeChar_le (c : Char) : (String.utf8EncodeChar c).length ≤ 4 := by
  rw [String.length_utf8EncodeChar]
  exact c.utf8Size_le_four

theorem length_decoded_le (units : List StringUnit) :
    (decoded units).length ≤ (units.map StringUnit.size).sum := by
  fun_induction decoded units with
  | case1 => exact le_rfl
  | case2 c units ih =>
    rw [List.length_cons, List.map_cons, List.sum_cons, StringUnit.size]
    omega
  | case3 high low units hpair ih =>
    have hchar := length_utf8EncodeChar_le (pairChar high low)
    simp only [List.length_append, List.map_cons, List.sum_cons, StringUnit.size]
    omega
  | case4 high low units hpair ih =>
    have hchar := length_utf8EncodeChar_le (codeChar high)
    simp only [List.length_append, List.map_cons, List.sum_cons, StringUnit.size] at ih ⊢
    omega
  | case5 u units hunits ih =>
    have hchar := length_utf8EncodeChar_le (codeChar u)
    simp only [List.length_append, List.map_cons, List.sum_cons, StringUnit.size]
    omega

theorem StringBody.size_le (h : StringBody raw units) :
    (units.map StringUnit.size).sum ≤ raw.length := by
  induction h with
  | nil => exact le_rfl
  | plain _ _ ih =>
    simp only [List.map_cons, List.sum_cons, StringUnit.size, List.length_cons]
    omega
  | escape _ _ ih =>
    simp only [List.map_cons, List.sum_cons, StringUnit.size, List.length_cons]
    omega
  | code hlength _ _ ih =>
    simp only [List.map_cons, List.sum_cons, StringUnit.size, List.length_cons,
      List.length_append, hlength]
    omega

/-- A body without escapes is its units; every other one is longer than what it stands for. -/
theorem StringBody.plain_or (h : StringBody raw units) :
    (units = raw.map .byte ∧ ∀ b ∈ raw, Plain b) ∨ (decoded units).length < raw.length := by
  have hsize : (units = raw.map .byte ∧ ∀ b ∈ raw, Plain b) ∨
      (units.map StringUnit.size).sum < raw.length := by
    induction h with
    | nil => exact .inl ⟨rfl, by simp⟩
    | plain hplain _ ih =>
      rcases ih with ⟨rfl, hraw⟩ | hlt
      · exact .inl ⟨rfl, List.forall_mem_cons.mpr ⟨hplain, hraw⟩⟩
      · right
        simp only [List.map_cons, List.sum_cons, StringUnit.size, List.length_cons]
        omega
    | escape _ hrest _ =>
      have hle := hrest.size_le
      right
      simp only [List.map_cons, List.sum_cons, StringUnit.size, List.length_cons]
      omega
    | code hlength _ hrest _ =>
      have hle := hrest.size_le
      right
      simp only [List.map_cons, List.sum_cons, StringUnit.size, List.length_cons,
        List.length_append, hlength]
      omega
  exact hsize.imp_right (Nat.lt_of_le_of_lt (length_decoded_le units))

/-- A text that is put between quotation marks, before a byte and the next mark, and read as itself
is plain: it can have no escape inside, and not end with a backslash. -/
theorem plain_of_decoded (h : lexString (name ++ 34 :: b :: 34 :: more) = some (units, rest))
    (hdecoded : decoded units = name) (hb : b ≠ 92) (hquote : b ≠ 34)
    (hshort : shortEscape b = none) (hhex : hexValue b = none) : ∀ c ∈ name, Plain c := by
  obtain ⟨raw, htext, hbody⟩ := lexString_body h
  rcases hbody.plain_or with ⟨rfl, hplain⟩ | hlt
  · rw [decoded_bytes] at hdecoded
    rwa [hdecoded] at hplain
  rw [hdecoded] at hlt
  rcases List.append_eq_append_iff.mp htext with ⟨middle, rfl, hmiddle⟩ | ⟨middle, hname, -⟩
  · -- the string goes on behind the text, over a mark, so the text ends with a backslash
    exfalso
    rcases middle with _ | ⟨c, _ | ⟨d, _ | ⟨e, middle⟩⟩⟩
    · simp at hlt
    · obtain ⟨-, hc⟩ := List.cons.inj hmiddle
      exact hquote (List.cons.inj hc).1
    · obtain ⟨rfl, hrest⟩ := List.cons.inj hmiddle
      obtain ⟨rfl, -⟩ := List.cons.inj hrest
      have hlast : name.getLast? = some 92 := hbody.getLast_of_quote rfl
      have hsplit : name ++ [34, b] = (name ++ [34]) ++ [b] := by simp
      obtain ⟨units', rfl⟩ := hbody.concat hsplit hshort hhex
      rw [decoded_concat] at hdecoded
      rw [← hdecoded, List.getLast?_concat] at hlast
      exact hb (Option.some.inj hlast)
    · obtain ⟨rfl, hrest⟩ := List.cons.inj hmiddle
      obtain ⟨rfl, htail⟩ := List.cons.inj hrest
      obtain ⟨rfl, -⟩ := List.cons.inj htail
      have hsplit : name ++ 34 :: b :: 34 :: middle = (name ++ [34, b]) ++ 34 :: middle := by simp
      have hlast := hbody.getLast_of_quote hsplit
      rw [List.getLast?_append_of_ne_nil _ (by simp)] at hlast
      exact hb (Option.some.inj hlast)
  · have hlength := congrArg List.length hname
    rw [List.length_append] at hlength
    omega

/-! ### Between marks -/

theorem decoded_append (name : List UInt8) (units : List StringUnit) :
    decoded (name.map .byte ++ units) = name ++ decoded units := by
  induction name with
  | nil => rfl
  | cons b name ih => rw [List.map_cons, List.cons_append, decoded, ih, List.cons_append]

theorem writes_plain (hname : ∀ b ∈ name, Plain b) (hutf8 : Utf8 name) :
    Writes (34 :: (name ++ [34])) True [.string (name.map .byte)] where
  utf8 := by
    have hquote : Utf8 [34] := .of_all rfl
    exact hquote.append (hutf8.append hquote)
  lex_append _ rest := by
    have htext : 34 :: (name ++ [34]) ++ rest = 34 :: (name ++ 34 :: rest) := by simp
    have htoken : lexToken (34 :: (name ++ 34 :: rest)) =
        some (.string (name.map .byte), rest) := by
      rw [lexToken, if_pos rfl, lexString_bytes hname, Option.map_some]
    rw [htext, lex_token htoken]
    rfl
  fails hnot := absurd trivial hnot

/-- A quotation mark begins a string, if the text has tokens at all. -/
theorem exists_string {tokens : List Token} (h : lex (34 :: text) = some tokens) :
    ∃ units rest more, lexString text = some (units, rest) ∧ tokens = .string units :: more := by
  cases hread : lexString text with
  | none =>
    have htoken : lexToken (34 :: text) = none := by
      rw [lexToken, if_pos rfl, hread, Option.map_none]
    rw [lex_eq_none (by decide) htoken] at h
    cases h
  | some read =>
    obtain ⟨units, rest⟩ := read
    have htoken : lexToken (34 :: text) = some (.string units, rest) := by
      rw [lexToken, if_pos rfl, hread, Option.map_some]
    rw [lex_token htoken] at h
    obtain ⟨more, -, rfl⟩ := Option.map_eq_some_iff.mp h
    exact ⟨units, rest, more, rfl, rfl⟩

end Decoding

end Json
