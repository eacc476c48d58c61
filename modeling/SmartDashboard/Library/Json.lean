import SmartDashboard.Library.Numeral
import SmartDashboard.Library.Utf8

/-!
# JSON texts

RFC 8259 over bytes, in two parts. `lex` splits a text into tokens and drops the white space between
them; what a tree is as a list of tokens is the grammar. Bytes of a string that are not escaped
stand for themselves, and what an escaped code unit stands for is left to the reader of the tree.

## Main definitions

- `Token`, `lex`: the tokens of a text
- `Tree`, `Tree.tokens`: the syntax trees
- `Valid`: the JSON texts
- `Writes`, `WritesValue`: a piece of text that stands for some tokens, provided that a condition
  holds, whatever follows it, or before what does not go on with a number

## Main results

- `Writes.append`, `WritesValue.append`, `WritesAll.intercalate`: texts are put together from
  pieces
- `Tree.tokens_inj`: a text has one tree
-/

namespace Json

open Decimal

/-- A byte of a string, or a code unit that was written with its number. -/
inductive StringUnit
  | byte (b : UInt8)
  | code (u : UInt16)
  deriving DecidableEq, Repr

inductive Token
  | leftBrace
  | rightBrace
  | leftBracket
  | rightBracket
  | colon
  | comma
  | null
  | bool (value : Bool)
  | number (n : Numeral)
  | string (units : List StringUnit)
  deriving DecidableEq, Repr

/-! ### Tokens -/

/-- What a letter after a backslash stands for. -/
def shortEscape (b : UInt8) : Option UInt8 :=
  if b = 34 ∨ b = 92 ∨ b = 47 then some b
  else if b = 98 then some 8
  else if b = 102 then some 12
  else if b = 110 then some 10
  else if b = 114 then some 13
  else if b = 116 then some 9
  else none

def hexValue (b : UInt8) : Option ℕ :=
  if IsDigit b then some (b.toNat - 48)
  else if 97 ≤ b ∧ b ≤ 102 then some (b.toNat - 87)
  else if 65 ≤ b ∧ b ≤ 70 then some (b.toNat - 55)
  else none

/-- Where a string is read: outside an escape, behind a backslash, or among the digits of a code
unit, the value of those so far and how many come after the next one. -/
inductive StringState
  | plain
  | escaped
  | hex (value left : ℕ)
  deriving DecidableEq, Repr

inductive StringStep
  | close
  | unit (u : StringUnit)
  | more (state : StringState)
  | bad
  deriving DecidableEq, Repr

def stringStep : StringState → UInt8 → StringStep
  | .plain, b =>
    if b = 34 then .close
    else if b = 92 then .more .escaped
    else if b < 32 then .bad
    else .unit (.byte b)
  | .escaped, b =>
    if b = 117 then .more (.hex 0 3)
    else
      match shortEscape b with
      | some c => .unit (.byte c)
      | none => .bad
  | .hex value left, b =>
    match hexValue b, left with
    | none, _ => .bad
    | some digit, 0 => .unit (.code (UInt16.ofNat (16 * value + digit)))
    | some digit, left + 1 => .more (.hex (16 * value + digit) left)

/-- A string from behind its first quotation mark, and what comes after the last one. -/
def lexStringFrom : StringState → List UInt8 → Option (List StringUnit × List UInt8)
  | _, [] => none
  | state, b :: rest =>
    match stringStep state b with
    | .close => some ([], rest)
    | .unit u => (lexStringFrom .plain rest).map fun read => (u :: read.1, read.2)
    | .more state => lexStringFrom state rest
    | .bad => none

def lexString : List UInt8 → Option (List StringUnit × List UInt8) := lexStringFrom .plain

def punctuation (b : UInt8) : Option Token :=
  if b = 123 then some .leftBrace
  else if b = 125 then some .rightBrace
  else if b = 91 then some .leftBracket
  else if b = 93 then some .rightBracket
  else if b = 58 then some .colon
  else if b = 44 then some .comma
  else none

def lexWord : List UInt8 → Option (Token × List UInt8)
  | 116 :: 114 :: 117 :: 101 :: rest => some (.bool true, rest)
  | 102 :: 97 :: 108 :: 115 :: 101 :: rest => some (.bool false, rest)
  | 110 :: 117 :: 108 :: 108 :: rest => some (.null, rest)
  | _ => none

def lexToken : List UInt8 → Option (Token × List UInt8)
  | [] => none
  | b :: rest =>
    if b = 34 then (lexString rest).map fun read => (.string read.1, read.2)
    else if b = 45 ∨ IsDigit b then (lexNumber (b :: rest)).map fun read => (.number read.1, read.2)
    else
      match punctuation b with
      | some token => some (token, rest)
      | none => lexWord (b :: rest)

def IsSpace (b : UInt8) : Prop := b = 32 ∨ b = 9 ∨ b = 10 ∨ b = 13

instance (b : UInt8) : Decidable (IsSpace b) := inferInstanceAs (Decidable (_ ∨ _))

/-- The tokens of a text of at most `fuel` bytes. -/
def lexWithin : ℕ → List UInt8 → Option (List Token)
  | _, [] => some []
  | 0, _ :: _ => none
  | fuel + 1, b :: rest =>
    if IsSpace b then lexWithin fuel rest
    else (lexToken (b :: rest)).bind fun read => (lexWithin fuel read.2).map (read.1 :: ·)

def lex (bytes : List UInt8) : Option (List Token) := lexWithin bytes.length bytes

/-! ### Trees -/

inductive Tree
  | null
  | bool (value : Bool)
  | number (n : Numeral)
  | string (units : List StringUnit)
  | array (items : List Tree)
  | object (members : List (List StringUnit × Tree))

mutual

def Tree.tokens : Tree → List Token
  | .null => [.null]
  | .bool value => [.bool value]
  | .number n => [.number n]
  | .string units => [.string units]
  | .array items =>
    .leftBracket :: ([Token.comma].intercalate (itemTokens items) ++ [.rightBracket])
  | .object members =>
    .leftBrace :: ([Token.comma].intercalate (memberTokens members) ++ [.rightBrace])

def itemTokens : List Tree → List (List Token)
  | [] => []
  | item :: items => item.tokens :: itemTokens items

def memberTokens : List (List StringUnit × Tree) → List (List Token)
  | [] => []
  | (name, value) :: members => (.string name :: .colon :: value.tokens) :: memberTokens members

end

theorem itemTokens_eq (items : List Tree) : itemTokens items = items.map Tree.tokens := by
  induction items with
  | nil => rfl
  | cons item items ih => rw [itemTokens, ih, List.map_cons]

theorem memberTokens_eq (members : List (List StringUnit × Tree)) :
    memberTokens members =
      members.map fun member => .string member.1 :: .colon :: member.2.tokens := by
  induction members with
  | nil => rfl
  | cons member members ih => rw [memberTokens, ih, List.map_cons]

/-- The text is one JSON value. -/
def Valid (bytes : List UInt8) : Prop := ∃ tree : Tree, lex bytes = some tree.tokens

/-! ### Tokens, one after the other -/

section Lexing

variable {bytes rest more : List UInt8} {token : Token}

/-- A string takes at least one byte, and does not look behind its end. -/
theorem lexStringFrom_spec {state : StringState} {units : List StringUnit}
    (h : lexStringFrom state bytes = some (units, rest)) :
    rest.length < bytes.length ∧
      ∀ more, lexStringFrom state (bytes ++ more) = some (units, rest ++ more) := by
  induction bytes generalizing state units with
  | nil => cases h
  | cons b bytes ih =>
    rw [lexStringFrom] at h
    simp only [List.cons_append, lexStringFrom, List.length_cons]
    split at h
    · cases h
      exact ⟨Nat.lt_succ_self _, fun more => rfl⟩
    · obtain ⟨⟨units', rest'⟩, hread, heq⟩ := Option.map_eq_some_iff.mp h
      cases heq
      obtain ⟨hlength, happend⟩ := ih hread
      refine ⟨by omega, fun more => ?_⟩
      rw [happend, Option.map_some]
    · obtain ⟨hlength, happend⟩ := ih h
      exact ⟨by omega, happend⟩
    · cases h

theorem lexWord_spec (h : lexWord bytes = some (token, rest)) :
    rest.length < bytes.length ∧ (∀ n, token ≠ .number n) ∧
      ∀ more, lexWord (bytes ++ more) = some (token, rest ++ more) := by
  unfold lexWord at h
  split at h
  · cases h
    exact ⟨by simp only [List.length_cons]; omega, by rintro n ⟨⟩, fun more => rfl⟩
  · cases h
    exact ⟨by simp only [List.length_cons]; omega, by rintro n ⟨⟩, fun more => rfl⟩
  · cases h
    exact ⟨by simp only [List.length_cons]; omega, by rintro n ⟨⟩, fun more => rfl⟩
  · cases h

theorem lexToken_spec (h : lexToken bytes = some (token, rest)) :
    rest.length < bytes.length ∧ ((∀ n, token ≠ .number n) →
      ∀ more, lexToken (bytes ++ more) = some (token, rest ++ more)) := by
  cases bytes with
  | nil => cases h
  | cons b bytes =>
    rw [lexToken] at h
    simp only [List.cons_append, lexToken, List.length_cons]
    by_cases hquote : b = 34
    · simp only [if_pos hquote] at h ⊢
      obtain ⟨⟨units, rest'⟩, hread, heq⟩ := Option.map_eq_some_iff.mp h
      cases heq
      obtain ⟨hlength, happend⟩ := lexStringFrom_spec hread
      refine ⟨Nat.lt_succ_of_lt hlength, fun _ more => ?_⟩
      rw [lexString, happend, Option.map_some]
    by_cases hnumber : b = 45 ∨ IsDigit b
    · simp only [if_neg hquote, if_pos hnumber] at h ⊢
      obtain ⟨⟨n, rest'⟩, hread, heq⟩ := Option.map_eq_some_iff.mp h
      cases heq
      exact ⟨length_lexNumber hread, fun hnot => absurd rfl (hnot n)⟩
    simp only [if_neg hquote, if_neg hnumber] at h ⊢
    cases hmark : punctuation b with
    | some mark =>
      rw [hmark] at h
      cases h
      exact ⟨Nat.lt_succ_self _, fun _ more => rfl⟩
    | none =>
      rw [hmark] at h
      obtain ⟨hlength, -, happend⟩ := lexWord_spec h
      exact ⟨hlength, fun _ more => happend more⟩

/-- A space begins no token. -/
theorem not_isSpace_of_lexToken {b : UInt8} (h : lexToken (b :: bytes) = some (token, rest)) :
    ¬IsSpace b := by
  rintro (rfl | rfl | rfl | rfl) <;> cases h

theorem lexWithin_of_le {fuel : ℕ} (h : bytes.length ≤ fuel) :
    lexWithin fuel bytes = lex bytes := by
  -- every token and every space takes a byte of the text and one from the fuel
  have hsame : ∀ (n : ℕ) {fuel fuel' : ℕ} {bytes : List UInt8}, bytes.length ≤ n →
      bytes.length ≤ fuel → bytes.length ≤ fuel' →
        lexWithin fuel bytes = lexWithin fuel' bytes := by
    intro n
    induction n with
    | zero =>
      intro fuel fuel' bytes hn _ _
      obtain rfl : bytes = [] := List.length_eq_zero_iff.mp (Nat.le_zero.mp hn)
      rw [lexWithin, lexWithin]
    | succ n ih =>
      intro fuel fuel' bytes hn hfuel hfuel'
      cases bytes with
      | nil => rw [lexWithin, lexWithin]
      | cons b bytes =>
        rw [List.length_cons] at hn hfuel hfuel'
        obtain ⟨fuel, rfl⟩ := Nat.exists_eq_add_of_lt (Nat.lt_of_succ_le hfuel)
        obtain ⟨fuel', rfl⟩ := Nat.exists_eq_add_of_lt (Nat.lt_of_succ_le hfuel')
        have hbytes : lexWithin (bytes.length + fuel) bytes =
            lexWithin (bytes.length + fuel') bytes := ih (by omega) (by omega) (by omega)
        simp only [lexWithin, hbytes]
        cases hread : lexToken (b :: bytes) with
        | none => rfl
        | some read =>
          obtain ⟨token, rest⟩ := read
          have hlength := (lexToken_spec hread).1
          rw [List.length_cons] at hlength
          have hrest : lexWithin (bytes.length + fuel) rest =
              lexWithin (bytes.length + fuel') rest := ih (by omega) (by omega) (by omega)
          simp only [Option.bind_some, hrest]
  exact hsame _ le_rfl h le_rfl

@[simp] theorem lex_nil : lex [] = some [] := rfl

theorem lex_space {b : UInt8} (h : IsSpace b) (rest : List UInt8) : lex (b :: rest) = lex rest := by
  rw [lex, List.length_cons, lexWithin, if_pos h]
  rfl

theorem lex_token (h : lexToken bytes = some (token, rest)) :
    lex bytes = (lex rest).map (token :: ·) := by
  cases bytes with
  | nil => cases h
  | cons b bytes =>
    have hlength := (lexToken_spec h).1
    rw [List.length_cons] at hlength
    rw [lex, List.length_cons, lexWithin, if_neg (not_isSpace_of_lexToken h), h, Option.bind_some]
    dsimp only
    rw [lexWithin_of_le (by omega)]

theorem lex_eq_none {b : UInt8} (hspace : ¬IsSpace b) (h : lexToken (b :: bytes) = none) :
    lex (b :: bytes) = none := by
  rw [lex, List.length_cons, lexWithin, if_neg hspace, h, Option.bind_none]

/-- Text that does not end in a number may be followed by anything. -/
theorem lex_append {tokens : List Token} (h : lex bytes = some tokens)
    (hnumber : ∀ n, .number n ∉ tokens) (rest : List UInt8) :
    lex (bytes ++ rest) = (lex rest).map (tokens ++ ·) := by
  induction hn : bytes.length using Nat.strong_induction_on generalizing bytes tokens with
  | _ n ih =>
    subst hn
    cases bytes with
    | nil =>
      cases h
      simp
    | cons b bytes =>
      by_cases hspace : IsSpace b
      · rw [lex_space hspace] at h
        rw [List.cons_append, lex_space hspace]
        exact ih bytes.length (Nat.lt_succ_self _) h hnumber rfl
      cases hread : lexToken (b :: bytes) with
      | none =>
        rw [lex_eq_none hspace hread] at h
        cases h
      | some read =>
        rw [lex_token hread] at h
        obtain ⟨tokens', hlex, rfl⟩ := Option.map_eq_some_iff.mp h
        obtain ⟨hlength, happend⟩ := lexToken_spec hread
        have hnot : ∀ n, read.1 ≠ .number n := fun n heq =>
          hnumber n (heq ▸ List.mem_cons_self)
        rw [lex_token (happend hnot rest), ih _ hlength hlex
          (fun n hmem => hnumber n (List.mem_cons_of_mem _ hmem)) rfl, Option.map_map]
        rfl

theorem lexToken_number {n : Numeral} (h : n.Valid) (hrest : Ends rest) :
    lexToken (n.text ++ rest) = some (.number n, rest) := by
  have hfirst : ∃ b tail, n.text ++ rest = b :: tail ∧ (b = 45 ∨ IsDigit b) := by
    obtain ⟨b, int, hint⟩ := List.exists_cons_of_ne_nil h.int_ne
    have hb : IsDigit b := h.int_digits b (by rw [hint]; exact List.mem_cons_self)
    rw [Numeral.text, hint]
    cases n.negative with
    | true => exact ⟨45, _, rfl, .inl rfl⟩
    | false => exact ⟨b, _, rfl, .inr hb⟩
  obtain ⟨b, tail, htext, hb⟩ := hfirst
  have hquote : b ≠ 34 := by
    rintro rfl
    exact absurd hb (by decide)
  have hread := lexNumber_text h hrest
  rw [htext] at hread ⊢
  rw [lexToken, if_neg hquote, if_pos hb, hread, Option.map_some]

end Lexing

/-! ### Texts from pieces -/

/-- The piece stands for the tokens, whatever follows it; without the condition there is a place in
it where no token begins. -/
structure Writes (piece : List UInt8) (c : Prop) (tokens : List Token) : Prop where
  utf8 : Utf8 piece
  lex_append : c → ∀ rest, lex (piece ++ rest) = (lex rest).map (tokens ++ ·)
  fails : ¬c → ∀ rest, lex (piece ++ rest) = none

section Writing

variable {piece piece' : List UInt8} {c d : Prop} {tokens tokens' : List Token}

theorem Writes.congr (h : Writes piece c tokens) (hcd : c ↔ d) : Writes piece d tokens where
  utf8 := h.utf8
  lex_append hd := h.lex_append (hcd.mpr hd)
  fails hd := h.fails fun hc => hd (hcd.mp hc)

/-- Two pieces that stand for their tokens before this rest do so together. -/
theorem lex_append_append {rest : List UInt8}
    (h : lex (piece ++ (piece' ++ rest)) = (lex (piece' ++ rest)).map (tokens ++ ·))
    (h' : lex (piece' ++ rest) = (lex rest).map (tokens' ++ ·)) :
    lex (piece ++ piece' ++ rest) = (lex rest).map (tokens ++ tokens' ++ ·) := by
  rw [List.append_assoc, h, h', Option.map_map]
  congr 1
  funext more
  exact (List.append_assoc ..).symm

theorem Writes.append (h : Writes piece c tokens) (h' : Writes piece' d tokens') :
    Writes (piece ++ piece') (c ∧ d) (tokens ++ tokens') where
  utf8 := h.utf8.append h'.utf8
  lex_append hboth rest :=
    lex_append_append (h.lex_append hboth.1 _) (h'.lex_append hboth.2 rest)
  fails hnot rest := by
    rw [List.append_assoc]
    by_cases hc : c
    · rw [h.lex_append hc, h'.fails fun hd => hnot ⟨hc, hd⟩, Option.map_none]
    · exact h.fails hc _

theorem writes_nil : Writes [] True [] where
  utf8 := .nil
  lex_append _ rest := by simp
  fails hnot := absurd trivial hnot

/-- The same before anything that does not go on with a number. -/
structure WritesValue (piece : List UInt8) (c : Prop) (tokens : List Token) : Prop where
  utf8 : Utf8 piece
  lex_append : c → ∀ rest, Ends rest → lex (piece ++ rest) = (lex rest).map (tokens ++ ·)
  fails : ¬c → ∀ rest, Ends rest → lex (piece ++ rest) = none

theorem Writes.value (h : Writes piece c tokens) : WritesValue piece c tokens where
  utf8 := h.utf8
  lex_append hc rest _ := h.lex_append hc rest
  fails hnot rest _ := h.fails hnot rest

theorem WritesValue.congr (h : WritesValue piece c tokens) (hcd : c ↔ d) :
    WritesValue piece d tokens where
  utf8 := h.utf8
  lex_append hd := h.lex_append (hcd.mpr hd)
  fails hd := h.fails fun hc => hd (hcd.mp hc)

theorem Writes.append_value (h : Writes piece c tokens) (h' : WritesValue piece' d tokens') :
    WritesValue (piece ++ piece') (c ∧ d) (tokens ++ tokens') where
  utf8 := h.utf8.append h'.utf8
  lex_append hboth rest hends :=
    lex_append_append (h.lex_append hboth.1 _) (h'.lex_append hboth.2 rest hends)
  fails hnot rest hends := by
    rw [List.append_assoc]
    by_cases hc : c
    · rw [h.lex_append hc, h'.fails (fun hd => hnot ⟨hc, hd⟩) rest hends, Option.map_none]
    · exact h.fails hc _

/-- A value is complete once a piece follows that does not go on with a number. -/
theorem WritesValue.append (h : WritesValue piece c tokens) (h' : Writes piece' d tokens')
    (hends : ∀ rest, Ends (piece' ++ rest)) :
    Writes (piece ++ piece') (c ∧ d) (tokens ++ tokens') where
  utf8 := h.utf8.append h'.utf8
  lex_append hboth rest :=
    lex_append_append (h.lex_append hboth.1 _ (hends rest)) (h'.lex_append hboth.2 rest)
  fails hnot rest := by
    rw [List.append_assoc]
    by_cases hc : c
    · rw [h.lex_append hc _ (hends rest), h'.fails fun hd => hnot ⟨hc, hd⟩, Option.map_none]
    · exact h.fails hc _ (hends rest)

/-- A constant of the program, the numbers apart. -/
theorem writes_of_lex (h : lex piece = some tokens)
    (hascii : (piece.all fun b => b < 128) = true) (hnumber : ∀ n, .number n ∉ tokens) :
    Writes piece True tokens where
  utf8 := .of_all hascii
  lex_append _ rest := Json.lex_append h hnumber rest
  fails hnot := absurd trivial hnot

theorem writesValue_number {n : Numeral} (hn : n.Valid) :
    WritesValue n.text True [.number n] where
  utf8 := .of_ascii hn.ascii
  lex_append _ rest hends := by
    rw [lex_token (lexToken_number hn hends)]
    rfl
  fails hnot := absurd trivial hnot

theorem lexString_flatMap {f : UInt8 → List UInt8} {unit : UInt8 → StringUnit}
    (hf : ∀ b rest, lexString (f b ++ rest) =
      (lexString rest).map fun read => (unit b :: read.1, read.2)) (s rest : List UInt8) :
    lexString (s.flatMap f ++ 34 :: rest) = some (s.map unit, rest) := by
  induction s with
  | nil => rfl
  | cons b s ih => rw [List.flatMap_cons, List.append_assoc, hf, ih, Option.map_some, List.map_cons]

/-- A string whose bytes are written one by one, each as its unit or as an escape. -/
theorem writes_string {f : UInt8 → List UInt8} {unit : UInt8 → StringUnit} {s : List UInt8}
    (hf : ∀ b rest, lexString (f b ++ rest) =
      (lexString rest).map fun read => (unit b :: read.1, read.2))
    (hutf8 : Utf8 (s.flatMap f)) :
    Writes (34 :: (s.flatMap f ++ [34])) True [.string (s.map unit)] where
  utf8 := by
    have hquote : Utf8 [34] := .of_all rfl
    exact hquote.append (hutf8.append hquote)
  lex_append _ rest := by
    have htoken : lexToken (34 :: (s.flatMap f ++ 34 :: rest)) =
        some (.string (s.map unit), rest) := by
      rw [lexToken, if_pos rfl, lexString_flatMap hf, Option.map_some]
    rw [List.cons_append, List.append_assoc, List.singleton_append, lex_token htoken]
    rfl
  fails hnot := absurd trivial hnot

theorem intercalate_cons {α : Type*} (sep piece : List α) (pieces : List (List α)) :
    sep.intercalate (piece :: pieces) = piece ++ pieces.flatMap (sep ++ ·) := by
  induction pieces generalizing piece with
  | nil => simp
  | cons next pieces ih =>
    rw [List.intercalate_cons_cons, ih, List.flatMap_cons, List.append_assoc, List.append_assoc]

/-- What holds of pieces, and of pieces put together, holds of pieces with a separator between
them. -/
theorem intercalate_induction {α : Type*} {P : List α → Prop} {sep : α} {pieces : List (List α)}
    (hnil : P []) (happend : ∀ piece piece', P piece → P piece' → P (piece ++ piece'))
    (hsep : ∀ piece, P piece → P (sep :: piece)) (h : ∀ piece ∈ pieces, P piece) :
    P ([sep].intercalate pieces) := by
  cases pieces with
  | nil => exact hnil
  | cons first pieces =>
    rw [List.forall_mem_cons] at h
    obtain ⟨hfirst, hpieces⟩ := h
    rw [intercalate_cons]
    refine happend _ _ hfirst ?_
    induction pieces with
    | nil => exact hnil
    | cons piece pieces ih =>
      rw [List.forall_mem_cons] at hpieces
      exact happend _ _ (hsep _ hpieces.1) (ih hpieces.2)

theorem intercalate_append_cons {α : Type*} (sep : List α) (front : List (List α)) (piece : List α)
    (back : List (List α)) :
    sep.intercalate (front ++ piece :: back) =
      front.flatMap (· ++ sep) ++ (piece ++ back.flatMap (sep ++ ·)) := by
  induction front with
  | nil => exact intercalate_cons sep piece back
  | cons first front ih =>
    have hcons : ∃ next rest, front ++ piece :: back = next :: rest :=
      List.exists_cons_of_ne_nil (by simp)
    obtain ⟨next, rest, hnext⟩ := hcons
    rw [List.cons_append, hnext, List.intercalate_cons_cons, ← hnext, ih, List.flatMap_cons]
    simp only [List.append_assoc]

/-- Pieces that are values, one by one. -/
inductive WritesAll : List (List UInt8) → Prop → List (List Token) → Prop
  | nil : WritesAll [] True []
  | cons {piece : List UInt8} {c d : Prop} {tokens : List Token} {pieces : List (List UInt8)}
    {all : List (List Token)} (first : WritesValue piece c tokens)
    (rest : WritesAll pieces d all) : WritesAll (piece :: pieces) (c ∧ d) (tokens :: all)

theorem writesAll_map {α : Type*} {xs : List α} {text : α → List UInt8} {cond : α → Prop}
    {tokens : α → List Token} (h : ∀ x ∈ xs, WritesValue (text x) (cond x) (tokens x)) :
    ∃ d, WritesAll (xs.map text) d (xs.map tokens) ∧ (d ↔ ∀ x ∈ xs, cond x) := by
  induction xs with
  | nil => exact ⟨True, .nil, by simp⟩
  | cons x xs ih =>
    obtain ⟨d, hall, hd⟩ := ih fun y hy => h y (List.mem_cons_of_mem x hy)
    exact ⟨cond x ∧ d, .cons (h x List.mem_cons_self) hall, by simp [hd]⟩

/-- Values with something between them that stands for a comma. -/
theorem WritesAll.intercalate {sep : List UInt8} {pieces : List (List UInt8)}
    {all : List (List Token)} (h : WritesAll pieces c all) (hsep : Writes sep True [.comma])
    (hends : ∀ rest, Ends (sep ++ rest)) :
    WritesValue (sep.intercalate pieces) c ([Token.comma].intercalate all) := by
  induction h with
  | nil => exact writes_nil.value
  | cons first rest ih =>
    cases rest with
    | nil => exact (by simpa using first : WritesValue _ _ _).congr (by simp)
    | cons second rest =>
      rw [List.intercalate_cons_cons, List.intercalate_cons_cons]
      exact ((first.append hsep hends).append_value ih).congr (by simp)

/-- A piece that stands for one token and cannot be taken for more digits. -/
structure Mark (piece : List UInt8) (token : Token) : Prop where
  writes : Writes piece True [token]
  ends : ∀ rest, Ends (piece ++ rest)

theorem mark_of_lex {b : UInt8} {token : Token} (h : lex piece = some [token])
    (hascii : (piece.all fun b => b < 128) = true) (hfirst : piece.head? = some b)
    (hb : ¬IsDigit b ∧ b ≠ 46 ∧ b ≠ 101 ∧ b ≠ 69) (hnumber : ∀ n, .number n ≠ token) :
    Mark piece token where
  writes := writes_of_lex h hascii fun n hmem => hnumber n (List.mem_singleton.mp hmem)
  ends rest c hc := by
    rw [List.head?_append, hfirst] at hc
    obtain rfl := Option.some.inj hc
    exact hb

theorem Mark.space {b : UInt8} {token : Token} (hb : IsSpace b) (h : Mark piece token) :
    Mark (b :: piece) token where
  writes :=
    { utf8 := by
        have hascii : Utf8 [b] := by
          rcases hb with rfl | rfl | rfl | rfl <;> exact .of_all rfl
        exact hascii.append h.writes.utf8
      lex_append := fun htrue rest => by
        rw [List.cons_append, lex_space hb, h.writes.lex_append htrue]
      fails := fun hnot => absurd trivial hnot }
  ends rest c hc := by
    obtain rfl : b = c := Option.some.inj hc
    rcases hb with rfl | rfl | rfl | rfl <;> decide

theorem Mark.spaces {token : Token} (h : Mark piece token) (n : ℕ) :
    Mark (List.replicate n 32 ++ piece) token := by
  induction n with
  | zero => exact h
  | succ n ih => exact ih.space (.inl rfl)

/-- Spaces stand for nothing. -/
theorem writes_spaces (n : ℕ) : Writes (List.replicate n 32) True [] where
  utf8 := .of_ascii fun b hb => by
    rw [List.eq_of_mem_replicate hb]
    decide
  lex_append _ rest := by
    induction n with
    | zero => simp
    | succ n ih => rw [List.replicate_succ, List.cons_append, lex_space (.inl rfl), ih]
  fails hnot := absurd trivial hnot

variable {opening sep closing : List UInt8} {pieces : List (List UInt8)}

theorem WritesAll.array {items : List Tree} (hopening : Writes opening True [.leftBracket])
    (hsep : Mark sep .comma) (hclosing : Mark closing .rightBracket)
    (h : WritesAll pieces c (itemTokens items)) :
    Writes (opening ++ (sep.intercalate pieces ++ closing)) c (Tree.array items).tokens := by
  have hitems := (h.intercalate hsep.writes hsep.ends).append hclosing.writes hclosing.ends
  rw [Tree.tokens]
  exact (hopening.append hitems).congr (by simp)

theorem WritesAll.object {members : List (List StringUnit × Tree)}
    (hopening : Writes opening True [.leftBrace]) (hsep : Mark sep .comma)
    (hclosing : Mark closing .rightBrace) (h : WritesAll pieces c (memberTokens members)) :
    Writes (opening ++ (sep.intercalate pieces ++ closing)) c (Tree.object members).tokens := by
  have hmembers := (h.intercalate hsep.writes hsep.ends).append hclosing.writes hclosing.ends
  rw [Tree.tokens]
  exact (hopening.append hmembers).congr (by simp)

end Writing

/-! ### A text has one tree -/

/-- The tokens that a value begins with. -/
def Token.Starts : Token → Prop
  | .rightBrace => False
  | .rightBracket => False
  | .colon => False
  | .comma => False
  | _ => True

theorem Tree.exists_starts (tree : Tree) :
    ∃ token tokens, tree.tokens = token :: tokens ∧ token.Starts := by
  cases tree <;> exact ⟨_, _, rfl, trivial⟩

theorem flatMap_comma_inj {α : Type*} {f : α → List Token} {close : Token} {xs ys : List α}
    (hclose : close ≠ .comma)
    (hf : ∀ x ∈ xs, ∀ y r r', f x ++ r = f y ++ r' → x = y ∧ r = r') {r r' : List Token}
    (h : (xs.flatMap fun x => [Token.comma] ++ f x) ++ close :: r =
      (ys.flatMap fun y => [Token.comma] ++ f y) ++ close :: r') : xs = ys ∧ r = r' := by
  induction xs generalizing ys with
  | nil =>
    cases ys with
    | nil => exact ⟨rfl, (List.cons.inj h).2⟩
    | cons y ys => exact absurd (List.cons.inj h).1 hclose
  | cons x xs ih =>
    cases ys with
    | nil => exact absurd (List.cons.inj h).1.symm hclose
    | cons y ys =>
      simp only [List.flatMap_cons, List.append_assoc, List.cons_append, List.cons.injEq,
        true_and] at h
      obtain ⟨rfl, h⟩ := hf x List.mem_cons_self y _ _ h
      obtain ⟨rfl, hr⟩ := ih (fun z hz => hf z (List.mem_cons_of_mem _ hz)) (by simpa using h)
      exact ⟨rfl, hr⟩

/-- A list that is written between brackets, with commas, can be told from what follows it. -/
theorem intercalate_comma_inj {α : Type*} {f : α → List Token} {close : Token} {xs ys : List α}
    (hclose : close ≠ .comma) (hstarts : ∀ x, ∃ token tokens, f x = token :: tokens ∧ token ≠ close)
    (hf : ∀ x ∈ xs, ∀ y r r', f x ++ r = f y ++ r' → x = y ∧ r = r') {r r' : List Token}
    (h : [Token.comma].intercalate (xs.map f) ++ close :: r =
      [Token.comma].intercalate (ys.map f) ++ close :: r') : xs = ys ∧ r = r' := by
  cases xs with
  | nil =>
    cases ys with
    | nil => exact ⟨rfl, (List.cons.inj h).2⟩
    | cons y ys =>
      obtain ⟨token, tokens, hy, hne⟩ := hstarts y
      rw [List.map_cons, intercalate_cons, hy] at h
      exact absurd (List.cons.inj h).1.symm hne
  | cons x xs =>
    cases ys with
    | nil =>
      obtain ⟨token, tokens, hx, hne⟩ := hstarts x
      rw [List.map_cons, intercalate_cons, hx] at h
      exact absurd (List.cons.inj h).1 hne
    | cons y ys =>
      rw [List.map_cons, List.map_cons, intercalate_cons, intercalate_cons, List.flatMap_map,
        List.flatMap_map, List.append_assoc, List.append_assoc] at h
      obtain ⟨rfl, hmore⟩ := hf x List.mem_cons_self y _ _ h
      obtain ⟨rfl, hr⟩ :=
        flatMap_comma_inj hclose (fun z hz => hf z (List.mem_cons_of_mem _ hz)) hmore
      exact ⟨rfl, hr⟩

mutual

theorem Tree.tokens_append_inj : ∀ (tree tree' : Tree) (r r' : List Token),
    tree.tokens ++ r = tree'.tokens ++ r' → tree = tree' ∧ r = r'
  | .null, tree', r, r', h => by
    cases tree' <;> simp_all [Tree.tokens]
  | .bool value, tree', r, r', h => by
    cases tree' <;> simp_all [Tree.tokens]
  | .number n, tree', r, r', h => by
    cases tree' <;> simp_all [Tree.tokens]
  | .string units, tree', r, r', h => by
    cases tree' <;> simp_all [Tree.tokens]
  | .array items, tree', r, r', h => by
    cases tree' with
    | array items' =>
      simp only [Tree.tokens, itemTokens_eq, List.cons_append, List.append_assoc,
        List.cons.injEq, true_and] at h
      have hstarts : ∀ item : Tree,
          ∃ token tokens, item.tokens = token :: tokens ∧ token ≠ .rightBracket := by
        intro item
        obtain ⟨token, tokens, htokens, hstart⟩ := item.exists_starts
        refine ⟨token, tokens, htokens, ?_⟩
        rintro rfl
        exact hstart
      obtain ⟨rfl, hr⟩ := intercalate_comma_inj (by rintro ⟨⟩) hstarts (items_inj items) h
      exact ⟨rfl, hr⟩
    | _ => simp [Tree.tokens] at h
  | .object members, tree', r, r', h => by
    cases tree' with
    | object members' =>
      simp only [Tree.tokens, memberTokens_eq, List.cons_append, List.append_assoc,
        List.cons.injEq, true_and] at h
      obtain ⟨rfl, hr⟩ := intercalate_comma_inj (by rintro ⟨⟩)
        (fun member => ⟨_, _, rfl, by rintro ⟨⟩⟩) (members_inj members) h
      exact ⟨rfl, hr⟩
    | _ => simp [Tree.tokens] at h

theorem items_inj : ∀ (items : List Tree), ∀ item ∈ items, ∀ (item' : Tree) (r r' : List Token),
    item.tokens ++ r = item'.tokens ++ r' → item = item' ∧ r = r'
  | [], _, hmem, _, _, _, _ => by cases hmem
  | first :: items, item, hmem, item', r, r', h => by
    rcases List.mem_cons.mp hmem with hfirst | hmem
    · rw [hfirst] at h ⊢
      exact Tree.tokens_append_inj first item' r r' h
    · exact items_inj items item hmem item' r r' h

theorem members_inj : ∀ (members : List (List StringUnit × Tree)), ∀ member ∈ members,
    ∀ (member' : List StringUnit × Tree) (r r' : List Token),
    (.string member.1 :: .colon :: member.2.tokens) ++ r =
      (.string member'.1 :: .colon :: member'.2.tokens) ++ r' → member = member' ∧ r = r'
  | [], _, hmem, _, _, _, _ => by cases hmem
  | (name, value) :: members, member, hmem, member', r, r', h => by
    rcases List.mem_cons.mp hmem with hfirst | hmem
    · rw [hfirst] at h ⊢
      simp only [List.cons_append, List.cons.injEq, Token.string.injEq, true_and] at h
      obtain ⟨hname, h⟩ := h
      obtain ⟨hvalue, hr⟩ := Tree.tokens_append_inj value member'.2 r r' h
      exact ⟨Prod.ext hname hvalue, hr⟩
    · exact members_inj members member hmem member' r r' h

end

theorem Tree.tokens_inj {tree tree' : Tree} (h : tree.tokens = tree'.tokens) : tree = tree' :=
  (Tree.tokens_append_inj tree tree' [] [] (by rw [h])).1

/-! ### Members, one after the other -/

section Members

variable {members : List (List StringUnit × Tree)} {key units : List StringUnit} {value : Tree}
  {r tokens : List Token}

theorem exists_next_member
    (h : (memberTokens members).flatMap ([Token.comma] ++ ·) ++ .rightBrace :: r =
      .comma :: .string key :: .colon :: tokens) :
    ∃ value more, members = (key, value) :: more ∧
      value.tokens ++ ((memberTokens more).flatMap ([Token.comma] ++ ·) ++ .rightBrace :: r) =
        tokens := by
  cases members with
  | nil => cases (List.cons.inj h).1
  | cons member more =>
    obtain ⟨name, value⟩ := member
    simp only [memberTokens, List.flatMap_cons, List.append_assoc, List.cons_append,
      List.nil_append, List.cons.injEq, Token.string.injEq, true_and] at h
    obtain ⟨rfl, h⟩ := h
    exact ⟨value, more, rfl, h⟩

theorem exists_first_member
    (h : [Token.comma].intercalate (memberTokens members) ++ .rightBrace :: r =
      .string key :: .colon :: tokens) :
    ∃ value more, members = (key, value) :: more ∧
      value.tokens ++ ((memberTokens more).flatMap ([Token.comma] ++ ·) ++ .rightBrace :: r) =
        tokens := by
  cases members with
  | nil => cases (List.cons.inj h).1
  | cons member more =>
    obtain ⟨name, value⟩ := member
    have hnext : (memberTokens ((name, value) :: more)).flatMap ([Token.comma] ++ ·) ++
        .rightBrace :: r = .comma :: .string key :: .colon :: tokens := by
      rw [memberTokens, intercalate_cons] at h
      rw [memberTokens, List.flatMap_cons, ← h]
      rfl
    exact exists_next_member hnext

theorem Tree.eq_string (h : value.tokens ++ r = .string units :: tokens) :
    value = .string units ∧ r = tokens :=
  value.tokens_append_inj (.string units) r tokens h

theorem Tree.exists_object (h : value.tokens ++ r = .leftBrace :: tokens) :
    ∃ members, value = .object members ∧
      [Token.comma].intercalate (memberTokens members) ++ .rightBrace :: r = tokens := by
  cases value with
  | object members =>
    simp only [Tree.tokens, List.cons_append, List.append_assoc, List.cons.injEq, true_and,
      List.nil_append] at h
    exact ⟨members, rfl, h⟩
  | _ => simp [Tree.tokens] at h

end Members

end Json
