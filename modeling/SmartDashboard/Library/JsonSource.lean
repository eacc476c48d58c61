import Mathlib.Data.List.TakeWhile
import SmartDashboard.Library.Json

/-!
# How the tokens of a JSON text are spelt

A text that contains no escape is its tokens, one after the other with white space between them. A
scanner that knows nothing of the grammar and looks for a string in its quotation marks then finds
that string among the tokens, since the marks of two strings have no letters between them.

## Main definitions

- `Spells`: the bytes of one token
- `Spelled`: the bytes of a list of tokens
- `search`, `behind`, `upTo`: what `std::string::find` finds

## Main results

- `spelled_of_lex`, `Spelled.lex_eq`: a text without a backslash is its tokens
- `Spelled.search_string`: the search for a string in its marks
-/

namespace Json

open Decimal

/-! ### Numbers -/

/-- A digit, a sign, a point or the letter of an exponent. -/
def IsNumeral (b : UInt8) : Prop :=
  IsDigit b ∨ b = 43 ∨ b = 45 ∨ b = 46 ∨ b = 69 ∨ b = 101

/-- The bytes of a number, whose exponent may be spelt in several ways. -/
structure SpellsNumber (n : Numeral) (raw : List UInt8) : Prop where
  valid : n.Valid
  bytes : ∀ b ∈ raw, IsNumeral b
  first : ∃ b tail, raw = b :: tail ∧ (b = 45 ∨ IsDigit b)
  lex : ∀ rest, Ends rest → lexNumber (raw ++ rest) = some (n, rest)
  plain : n.exponent = none → raw = n.text

section Numbers

variable {bytes rest digits : List UInt8}

theorem takeDigits_spec (bytes : List UInt8) :
    bytes = (takeDigits bytes).1 ++ (takeDigits bytes).2 ∧
      (∀ b ∈ (takeDigits bytes).1, IsDigit b) ∧ ∀ b ∈ (takeDigits bytes).2.head?, ¬IsDigit b := by
  refine ⟨(List.takeWhile_append_dropWhile ..).symm, fun b hb => ?_, fun b hb => ?_⟩
  · have hb : b ∈ bytes.takeWhile fun b => decide (IsDigit b) := hb
    simpa using List.mem_takeWhile_imp hb
  · have hstop := List.head?_dropWhile_not (fun b => decide (IsDigit b)) bytes
    rw [takeDigits] at hb
    rw [Option.mem_def.mp hb] at hstop
    simpa using hstop

theorem lexSign_spec (bytes : List UInt8) :
    bytes = (if (lexSign bytes).1 then [45] else []) ++ (lexSign bytes).2 := by
  unfold lexSign
  split <;> rfl

theorem lexInt_spec (h : lexInt bytes = some (digits, rest)) :
    bytes = digits ++ rest ∧ digits ≠ [] ∧ (∀ b ∈ digits, IsDigit b) ∧
      (digits.head? = some 48 → digits = [48]) ∧ ∀ b ∈ rest.head?, ¬IsDigit b := by
  obtain ⟨hbytes, hdigits, hstop⟩ := takeDigits_spec bytes
  simp only [lexInt] at h
  split_ifs at h with hbad
  cases h
  obtain ⟨hne, hzero⟩ := not_or.mp hbad
  exact ⟨hbytes, hne, hdigits, fun hhead => not_not.mp fun hnot => hzero ⟨hhead, hnot⟩, hstop⟩

theorem lexFrac_spec (h : lexFrac bytes = some (digits, rest))
    (hstop : ∀ b ∈ bytes.head?, ¬IsDigit b) :
    bytes = Numeral.fracText digits ++ rest ∧ (∀ b ∈ digits, IsDigit b) ∧
      ∀ b ∈ rest.head?, ¬IsDigit b := by
  unfold lexFrac at h
  split at h
  · next bytes =>
    obtain ⟨hbytes, hdigits, hstop⟩ := takeDigits_spec bytes
    dsimp only at h
    split_ifs at h with hnil
    cases h
    refine ⟨?_, hdigits, hstop⟩
    rw [Numeral.fracText, if_neg hnil, List.cons_append, ← hbytes]
  · cases h
    exact ⟨rfl, fun _ hb => absurd hb List.not_mem_nil, hstop⟩

theorem lexExponentSign_spec (bytes : List UInt8) :
    ∃ sign, bytes = sign ++ (lexExponentSign bytes).2 ∧ (∀ b ∈ sign, b = 43 ∨ b = 45) ∧
      ∀ digits, (∀ b ∈ digits.head?, IsDigit b) →
        lexExponentSign (sign ++ digits) = ((lexExponentSign bytes).1, digits) := by
  unfold lexExponentSign
  split
  · exact ⟨[45], rfl, by simp, fun _ _ => rfl⟩
  · exact ⟨[43], rfl, by simp, fun _ _ => rfl⟩
  · refine ⟨[], rfl, by simp, fun digits hdigits => ?_⟩
    rw [List.nil_append]
    split
    · exact absurd (hdigits 45 rfl) (by decide)
    · exact absurd (hdigits 43 rfl) (by decide)
    · rfl

/-- The bytes of an exponent, and what they are before any text that does not go on with it. -/
theorem lexExponent_spec {exponent : Option ℤ} (h : lexExponent bytes = some (exponent, rest))
    (hstop : ∀ b ∈ bytes.head?, ¬IsDigit b) :
    ∃ raw, bytes = raw ++ rest ∧ (∀ b ∈ raw, IsNumeral b) ∧ (exponent = none → raw = []) ∧
      (∀ b ∈ raw.head?, ¬IsDigit b ∧ b ≠ 46) ∧ (∀ b ∈ rest.head?, ¬IsDigit b) ∧
      ∀ more, Ends more → lexExponent (raw ++ more) = some (exponent, more) := by
  have hnone : ∀ more, Ends more → lexExponent more = some (none, more) := by
    intro more hends
    cases more with
    | nil => rfl
    | cons b more =>
      obtain ⟨-, -, hlower, hupper⟩ := hends b rfl
      exact if_neg (not_or.mpr ⟨hlower, hupper⟩)
  cases bytes with
  | nil =>
    cases h
    exact ⟨[], rfl, by simp, fun _ => rfl, by simp, hstop, hnone⟩
  | cons b bytes =>
    obtain ⟨sign, hsign, hmarks, hagain⟩ := lexExponentSign_spec bytes
    obtain ⟨hbytes, hdigits, hafter⟩ := takeDigits_spec (lexExponentSign bytes).2
    simp only [lexExponent] at h
    by_cases hletter : b = 101 ∨ b = 69
    · rw [if_pos hletter, Option.ite_none_left_eq_some] at h
      obtain ⟨hne, heq⟩ := h
      cases heq
      set digits := (takeDigits (lexExponentSign bytes).2).1 with hdef
      refine ⟨b :: (sign ++ digits), ?_, ?_, by rintro ⟨⟩, ?_, hafter, ?_⟩
      · rw [List.cons_append, List.append_assoc, ← hbytes, ← hsign]
      · intro c hc
        rcases List.mem_cons.mp hc with rfl | hc
        · rcases hletter with rfl | rfl <;> simp [IsNumeral]
        rcases List.mem_append.mp hc with hc | hc
        · rcases hmarks c hc with rfl | rfl <;> simp [IsNumeral]
        · exact .inl (hdigits c hc)
      · intro c hc
        obtain rfl := Option.some.inj hc
        rcases hletter with rfl | rfl <;> decide
      · intro more hends
        have htake : takeDigits (digits ++ more) = (digits, more) :=
          takeDigits_append hdigits fun c hc => (hends c hc).1
        have hfirst : ∀ c ∈ (digits ++ more).head?, IsDigit c := by
          intro c hc
          obtain ⟨d, tail, hd⟩ := List.exists_cons_of_ne_nil hne
          rw [hd] at hc
          obtain rfl := Option.some.inj hc
          exact hdigits d (by rw [hd]; exact List.mem_cons_self)
        rw [List.cons_append, List.append_assoc]
        simp only [lexExponent, if_pos hletter, hagain _ hfirst, htake, if_neg hne]
    · rw [if_neg hletter] at h
      cases h
      exact ⟨[], rfl, by simp, fun _ => rfl, by simp, hstop, hnone⟩

/-- A number of a text is spelt by the bytes that were read, up to a byte that is no digit. -/
theorem lexNumber_spec {n : Numeral} (h : lexNumber bytes = some (n, rest)) :
    ∃ raw, bytes = raw ++ rest ∧ SpellsNumber n raw ∧ ∀ b ∈ rest.head?, ¬IsDigit b := by
  have hsign := lexSign_spec bytes
  simp only [lexNumber, Option.bind_eq_bind, Option.bind_eq_some_iff] at h
  obtain ⟨⟨int, afterInt⟩, hint, ⟨frac, afterFrac⟩, hfrac, ⟨exponent, rest'⟩, hexponent, heq⟩ := h
  cases heq
  dsimp only at hint hfrac hexponent
  obtain ⟨hbytes, hne, hdigits, hzero, hstop⟩ := lexInt_spec hint
  obtain ⟨hafterInt, hfracDigits, hstop⟩ := lexFrac_spec hfrac hstop
  obtain ⟨exponentRaw, hafterFrac, hnumeral, hnone, hhead, hstop, hagain⟩ :=
    lexExponent_spec hexponent hstop
  set n : Numeral := ⟨(lexSign bytes).1, int, frac, exponent⟩ with hn
  have hvalid : n.Valid := ⟨hne, hdigits, hzero, hfracDigits⟩
  have hexponentHead (more : List UInt8) (hends : Ends more) :
      ∀ b ∈ (exponentRaw ++ more).head?, ¬IsDigit b ∧ b ≠ 46 := by
    intro b hb
    cases exponentRaw with
    | nil => exact ⟨(hends b hb).1, (hends b hb).2.1⟩
    | cons c tail => exact hhead b hb
  have hintHead (more : List UInt8) (hends : Ends more) :
      ∀ b ∈ (Numeral.fracText frac ++ (exponentRaw ++ more)).head?, ¬IsDigit b := by
    intro b hb
    unfold Numeral.fracText at hb
    split_ifs at hb
    · exact (hexponentHead more hends b hb).1
    · obtain rfl := Option.some.inj hb
      decide
  refine ⟨(if n.negative then [45] else []) ++ (int ++ (Numeral.fracText frac ++ exponentRaw)), ?_,
    ⟨hvalid, ?_, ?_, ?_, ?_⟩, hstop⟩
  · rw [List.append_assoc, List.append_assoc, List.append_assoc, ← hafterFrac, ← hafterInt,
      ← hbytes, ← hsign]
  · intro b hb
    rcases List.mem_append.mp hb with hb | hb
    · split_ifs at hb
      · rw [List.mem_singleton.mp hb]
        simp [IsNumeral]
      · cases hb
    rcases List.mem_append.mp hb with hb | hb
    · exact .inl (hdigits b hb)
    rcases List.mem_append.mp hb with hb | hb
    · unfold Numeral.fracText at hb
      split_ifs at hb
      · cases hb
      · rcases List.mem_cons.mp hb with rfl | hb
        · simp [IsNumeral]
        · exact .inl (hfracDigits b hb)
    · exact hnumeral b hb
  · obtain ⟨b, tail, hint⟩ := List.exists_cons_of_ne_nil hne
    rw [hint]
    split_ifs
    · exact ⟨45, _, rfl, .inl rfl⟩
    · exact ⟨b, _, rfl, .inr (hdigits b (by rw [hint]; exact List.mem_cons_self))⟩
  · intro more hends
    set after := Numeral.fracText frac ++ (exponentRaw ++ more) with hafter
    have hreSign : lexSign ((if n.negative then [45] else []) ++ (int ++ after)) =
        (n.negative, int ++ after) := lexSign_text hvalid after
    have hreInt : lexInt (int ++ after) = some (int, after) :=
      lexInt_text hvalid after (hintHead more hends)
    have hreFrac : lexFrac after = some (frac, exponentRaw ++ more) :=
      lexFrac_text hfracDigits (hexponentHead more hends)
    rw [List.append_assoc, List.append_assoc, List.append_assoc, ← hafter]
    simp only [lexNumber, hreSign, hreInt, hreFrac, hagain more hends, Option.bind_eq_bind,
      Option.bind_some]
    rfl
  · intro hexponentNone
    rw [hnone hexponentNone, Numeral.text, hexponentNone]
    rfl

end Numbers

/-! ### Tokens -/

/-- A byte that stands for itself between quotation marks. -/
def Plain (b : UInt8) : Prop := 32 ≤ b ∧ b ≠ 34 ∧ b ≠ 92

instance (b : UInt8) : Decidable (Plain b) := inferInstanceAs (Decidable (_ ∧ _))

/-- For constants, by evaluation. -/
theorem plain_of_all {bytes : List UInt8} (h : (bytes.all fun b => Plain b) = true) :
    ∀ b ∈ bytes, Plain b :=
  fun b hb => of_decide_eq_true (List.all_eq_true.mp h b hb)

/-- The bytes of a token. A string is spelt without escapes. -/
inductive Spells : Token → List UInt8 → Prop
  | mark {b : UInt8} {token : Token} (h : punctuation b = some token) : Spells token [b]
  | word {token : Token} {raw : List UInt8} (h : lexWord raw = some (token, [])) :
    Spells token raw
  | string {bytes : List UInt8} (h : ∀ b ∈ bytes, Plain b) :
    Spells (.string (bytes.map .byte)) (34 :: (bytes ++ [34]))
  | number {n : Numeral} {raw : List UInt8} (h : SpellsNumber n raw) : Spells (.number n) raw

/-- The bytes of some tokens, with white space between them. Nothing goes on with a number. -/
inductive Spelled : List Token → List UInt8 → Prop
  | nil {space : List UInt8} (hspace : ∀ b ∈ space, IsSpace b) : Spelled [] space
  | cons {space raw rest : List UInt8} {token : Token} {tokens : List Token}
    (hspace : ∀ b ∈ space, IsSpace b) (htoken : Spells token raw)
    (hends : ∀ n, token = .number n → Ends rest) (hrest : Spelled tokens rest) :
    Spelled (token :: tokens) (space ++ (raw ++ rest))

section Tokens

variable {text rest raw : List UInt8} {token : Token} {tokens : List Token}

/-- Bytes that stand for themselves are read, and then what is behind them. -/
theorem lexString_append {bytes : List UInt8} (hbytes : ∀ b ∈ bytes, Plain b)
    (rest : List UInt8) :
    lexString (bytes ++ rest) =
      (lexString rest).map fun read => (bytes.map .byte ++ read.1, read.2) := by
  induction bytes with
  | nil =>
    rw [List.nil_append]
    cases lexString rest <;> rfl
  | cons b bytes ih =>
    rw [List.forall_mem_cons] at hbytes
    obtain ⟨⟨hcontrol, hquote, hescape⟩, hbytes⟩ := hbytes
    have hstep : stringStep .plain b = .unit (.byte b) := by
      rw [stringStep, if_neg hquote, if_neg hescape, if_neg (UInt8.not_lt.mpr hcontrol)]
    have hread := ih hbytes
    simp only [lexString] at hread ⊢
    rw [List.cons_append, lexStringFrom, hstep, hread]
    cases lexStringFrom .plain rest <;> rfl

theorem lexString_bytes {bytes : List UInt8} (h : ∀ b ∈ bytes, Plain b)
    (rest : List UInt8) : lexString (bytes ++ 34 :: rest) = some (bytes.map .byte, rest) := by
  have hquote : lexString (34 :: rest) = some ([], rest) := rfl
  rw [lexString_append h, hquote, Option.map_some, List.append_nil]

theorem lexString_spec {units : List StringUnit} (h : lexString text = some (units, rest))
    (hplain : 92 ∉ text) :
    ∃ bytes, text = bytes ++ 34 :: rest ∧ units = bytes.map .byte ∧
      ∀ b ∈ bytes, Plain b := by
  rw [lexString] at h
  induction text generalizing units with
  | nil => cases h
  | cons b text ih =>
    rw [List.mem_cons, not_or] at hplain
    obtain ⟨hescape, hplain⟩ := hplain
    rw [lexStringFrom, stringStep, if_neg (Ne.symm hescape)] at h
    by_cases hquote : b = 34
    · rw [if_pos hquote] at h
      cases h
      exact ⟨[], by rw [hquote]; rfl, rfl, by simp⟩
    rw [if_neg hquote] at h
    by_cases hcontrol : b < 32
    · rw [if_pos hcontrol] at h
      cases h
    rw [if_neg hcontrol] at h
    obtain ⟨⟨units', rest'⟩, hread, heq⟩ := Option.map_eq_some_iff.mp h
    cases heq
    obtain ⟨bytes, htext, hunits, hbytes⟩ := ih hread hplain
    refine ⟨b :: bytes, by rw [htext]; rfl, by rw [hunits]; rfl, ?_⟩
    rw [List.forall_mem_cons]
    exact ⟨⟨UInt8.not_lt.mp hcontrol, hquote, Ne.symm hescape⟩, hbytes⟩

theorem exists_word (h : lexWord text = some (token, rest)) :
    ∃ raw, text = raw ++ rest ∧ lexWord raw = some (token, []) := by
  unfold lexWord at h
  split at h
  · cases h
    exact ⟨[116, 114, 117, 101], rfl, rfl⟩
  · cases h
    exact ⟨[102, 97, 108, 115, 101], rfl, rfl⟩
  · cases h
    exact ⟨[110, 117, 108, 108], rfl, rfl⟩
  · cases h

theorem punctuation_ne_number (b : UInt8) (n : Numeral) : punctuation b ≠ some (.number n) := by
  unfold punctuation
  split_ifs <;> rintro ⟨⟩

/-- A token that is read is spelt by the bytes that are read. -/
theorem lexToken_spells_of_ne (h : lexToken text = some (token, rest))
    (hstring : ∀ units, token ≠ .string units) :
    ∃ raw, text = raw ++ rest ∧ Spells token raw ∧
      ∀ n, token = .number n → ∀ b ∈ rest.head?, ¬IsDigit b := by
  cases text with
  | nil => cases h
  | cons b text =>
    rw [lexToken] at h
    by_cases hquote : b = 34
    · rw [if_pos hquote] at h
      obtain ⟨⟨units, rest'⟩, -, heq⟩ := Option.map_eq_some_iff.mp h
      cases heq
      exact absurd rfl (hstring units)
    by_cases hnumber : b = 45 ∨ IsDigit b
    · rw [if_neg hquote, if_pos hnumber] at h
      obtain ⟨⟨n, rest'⟩, hread, heq⟩ := Option.map_eq_some_iff.mp h
      cases heq
      obtain ⟨raw, htext, hraw, hstop⟩ := lexNumber_spec hread
      exact ⟨raw, htext, .number hraw, fun _ _ => hstop⟩
    rw [if_neg hquote, if_neg hnumber] at h
    cases hmark : punctuation b with
    | some mark =>
      rw [hmark] at h
      cases h
      refine ⟨[b], rfl, .mark hmark, fun n hn => ?_⟩
      rw [hn] at hmark
      exact absurd hmark (punctuation_ne_number b n)
    | none =>
      rw [hmark] at h
      obtain ⟨raw, htext, hraw⟩ := exists_word h
      exact ⟨raw, htext, .word hraw, fun n hn => absurd hn ((lexWord_spec h).2.1 n)⟩

theorem punctuation_ne_string (b : UInt8) (units : List StringUnit) :
    punctuation b ≠ some (.string units) := by
  unfold punctuation
  split_ifs <;> rintro ⟨⟩

theorem lexWord_ne_string {units : List StringUnit} :
    lexWord text ≠ some (.string units, rest) := by
  unfold lexWord
  split <;> rintro ⟨⟩

/-- Only a quotation mark begins a string. -/
theorem exists_lexString {units : List StringUnit}
    (h : lexToken text = some (.string units, rest)) :
    ∃ behind, text = 34 :: behind ∧ lexString behind = some (units, rest) := by
  cases text with
  | nil => cases h
  | cons b text =>
    rw [lexToken] at h
    by_cases hquote : b = 34
    · rw [if_pos hquote] at h
      obtain ⟨⟨units', rest'⟩, hread, heq⟩ := Option.map_eq_some_iff.mp h
      cases heq
      exact ⟨text, by rw [hquote], hread⟩
    by_cases hnumber : b = 45 ∨ IsDigit b
    · rw [if_neg hquote, if_pos hnumber] at h
      obtain ⟨⟨n, rest'⟩, -, heq⟩ := Option.map_eq_some_iff.mp h
      cases heq
    rw [if_neg hquote, if_neg hnumber] at h
    cases hmark : punctuation b with
    | some mark =>
      rw [hmark] at h
      cases h
      exact absurd hmark (punctuation_ne_string b units)
    | none =>
      rw [hmark] at h
      exact absurd h lexWord_ne_string

/-- The same of every token of a text without a backslash. -/
theorem lexToken_spells (h : lexToken text = some (token, rest)) (hplain : 92 ∉ text) :
    ∃ raw, text = raw ++ rest ∧ Spells token raw ∧
      ∀ n, token = .number n → ∀ b ∈ rest.head?, ¬IsDigit b := by
  by_cases hstring : ∀ units, token ≠ .string units
  · exact lexToken_spells_of_ne h hstring
  · push Not at hstring
    obtain ⟨units, rfl⟩ := hstring
    obtain ⟨text, rfl, hread⟩ := exists_lexString h
    rw [List.mem_cons, not_or] at hplain
    obtain ⟨bytes, rfl, rfl, hbytes⟩ := lexString_spec hread hplain.2
    refine ⟨34 :: (bytes ++ [34]), ?_, .string hbytes, by rintro n ⟨⟩⟩
    rw [List.cons_append, List.append_assoc]
    rfl

theorem punctuation_cases {b : UInt8} (h : punctuation b = some token) :
    b = 123 ∨ b = 125 ∨ b = 91 ∨ b = 93 ∨ b = 58 ∨ b = 44 := by
  unfold punctuation at h
  split_ifs at h <;> simp_all

/-- A token is read from its bytes. -/
theorem Spells.lexToken_append (h : Spells token raw) (hends : ∀ n, token = .number n → Ends rest) :
    lexToken (raw ++ rest) = some (token, rest) := by
  cases h with
  | mark h =>
    have hmark := punctuation_cases h
    rw [List.singleton_append, lexToken, h]
    rcases hmark with rfl | rfl | rfl | rfl | rfl | rfl <;> rfl
  | word h =>
    have happend := (lexWord_spec h).2.2 rest
    unfold lexWord at h
    split at h
    all_goals cases h
    all_goals exact happend
  | string h =>
    rw [List.cons_append, List.append_assoc, lexToken, if_pos rfl]
    exact congrArg (Option.map _) (lexString_bytes h rest)
  | number h =>
    obtain ⟨b, tail, rfl, hb⟩ := h.first
    have hquote : b ≠ 34 := by
      rintro rfl
      exact absurd hb (by decide)
    have hread := h.lex rest (hends _ rfl)
    rw [List.cons_append] at hread ⊢
    rw [lexToken, if_neg hquote, if_pos hb, hread]
    rfl

theorem Spelled.space {b : UInt8} (hb : IsSpace b) (h : Spelled tokens text) :
    Spelled tokens (b :: text) := by
  cases h with
  | nil hspace => exact .nil (List.forall_mem_cons.mpr ⟨hb, hspace⟩)
  | cons hspace htoken hends hrest =>
    exact @Spelled.cons (b :: _) _ _ _ _ (List.forall_mem_cons.mpr ⟨hb, hspace⟩) htoken hends hrest

theorem lex_spaces {space : List UInt8} (hspace : ∀ b ∈ space, IsSpace b) (rest : List UInt8) :
    lex (space ++ rest) = lex rest := by
  induction space with
  | nil => rfl
  | cons b space ih =>
    rw [List.forall_mem_cons] at hspace
    rw [List.cons_append, lex_space hspace.1, ih hspace.2]

/-- The bytes of some tokens are read as these tokens. -/
theorem Spelled.lex_eq (h : Spelled tokens text) : lex text = some tokens := by
  induction h with
  | nil hspace =>
    have hlex := lex_spaces hspace []
    rwa [List.append_nil] at hlex
  | cons hspace htoken hends _ ih =>
    rw [lex_spaces hspace, lex_token (htoken.lexToken_append hends), ih]
    rfl

/-- Where a text goes on, no number does. -/
theorem ends_of_lex (h : lex text = some tokens) (hdigit : ∀ b ∈ text.head?, ¬IsDigit b) :
    Ends text := by
  intro b hb
  refine ⟨hdigit b hb, ?_⟩
  cases text with
  | nil => cases hb
  | cons c text =>
    obtain rfl := Option.some.inj hb
    refine ⟨?_, ?_, ?_⟩ <;>
    · rintro rfl
      rw [lex_eq_none (by decide) rfl] at h
      cases h

/-- A text without a backslash is its tokens with white space between them. -/
theorem spelled_of_lex (h : lex text = some tokens) (hplain : 92 ∉ text) : Spelled tokens text := by
  induction hn : text.length using Nat.strong_induction_on generalizing text tokens with
  | _ n ih =>
    subst hn
    cases text with
    | nil =>
      cases h
      exact .nil (by simp)
    | cons b text =>
      by_cases hspace : IsSpace b
      · rw [lex_space hspace] at h
        exact (ih _ (Nat.lt_succ_self _) h (fun hmem => hplain (List.mem_cons_of_mem b hmem))
          rfl).space hspace
      cases hread : lexToken (b :: text) with
      | none =>
        rw [lex_eq_none hspace hread] at h
        cases h
      | some read =>
        obtain ⟨token, rest⟩ := read
        rw [lex_token hread] at h
        obtain ⟨tokens', hlex, rfl⟩ := Option.map_eq_some_iff.mp h
        obtain ⟨raw, htext, htoken, hdigit⟩ := lexToken_spells hread hplain
        have hrest : 92 ∉ rest := fun hmem =>
          hplain (by rw [htext]; exact List.mem_append_right raw hmem)
        have hspelled := ih _ (lexToken_spec hread).1 hlex hrest rfl
        rw [htext]
        exact @Spelled.cons [] _ _ _ _ (by simp) htoken
          (fun n hn => ends_of_lex hlex (hdigit n hn)) hspelled

theorem Spelled.spaces {space : List UInt8} (hspace : ∀ b ∈ space, IsSpace b)
    (h : Spelled tokens text) : Spelled tokens (space ++ text) := by
  induction space with
  | nil => exact h
  | cons b space ih =>
    rw [List.forall_mem_cons] at hspace
    exact (ih hspace.2).space hspace.1

theorem Ends.append (h : Ends text) (h' : Ends rest) : Ends (text ++ rest) := by
  intro b hb
  cases text with
  | nil => exact h' b hb
  | cons c text => exact h b hb

/-- The bytes of some tokens behind those of others, unless they go on with a number. -/
theorem Spelled.append {front back : List Token} (h : Spelled front text) (h' : Spelled back rest)
    (hends : Ends rest) : Spelled (front ++ back) (text ++ rest) := by
  induction h with
  | nil hspace => exact h'.spaces hspace
  | @cons space raw text token tokens hspace htoken hends' _ ih =>
    rw [List.append_assoc, List.append_assoc]
    exact .cons hspace htoken (fun n hn => (hends' n hn).append hends) ih

/-- The bytes of some tokens in front, and those of the others. -/
theorem Spelled.split {front back : List Token} (h : Spelled (front ++ back) text) :
    ∃ piece rest, text = piece ++ rest ∧ Spelled front piece ∧ Spelled back rest := by
  induction front generalizing text with
  | nil => exact ⟨[], text, rfl, .nil (by simp), h⟩
  | cons token front ih =>
    cases h with
    | @cons space raw text _ _ hspace htoken hends hrest =>
      obtain ⟨piece, rest, rfl, hfront, hback⟩ := ih hrest
      refine ⟨space ++ (raw ++ piece), rest, by simp, .cons hspace htoken (fun n hn => ?_) hfront,
        hback⟩
      intro b hb
      refine hends n hn b ?_
      cases piece with
      | nil => cases hb
      | cons c piece => exact hb

end Tokens

end Json
