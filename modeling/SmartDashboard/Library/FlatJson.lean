import SmartDashboard.Library.JsonSearch

/-!
# Searching an object of strings, numbers and booleans

An object whose members are strings, integers and booleans, written without white space, and a
search in its text for a name in its quotation marks. The search meets the name of a member, but
also a string that is the name, and one that ends with a quotation mark and the name: the mark
stands there with a backslash before it, which the search does not look at.

## Main definitions

- `Scalar`, `Members`: the values, and the members of an object in the order of the text
- `Escapes`: how a byte of a string is written
- `text`: the text of an object
- `reached`: the members from the one whose colon comes next behind what the search meets

## Main results

- `Escapes.behind_name`: the text behind that colon
- `Escapes.stringBehind_eq`, `Escapes.digitRun_behind`: the string and the digits that come next
  there
-/

namespace FlatJson

open Decimal TextSearch
open Json (Plain quoted)

/-! ### Texts -/

inductive Scalar
  | string (bytes : List UInt8)
  | integer (value : ℤ)
  | bool (value : Bool)
  deriving DecidableEq, Repr

/-- The members of an object. -/
abbrev Members := List (List UInt8 × Scalar)

/-- How a byte of a string is written: as itself, or behind a backslash. -/
structure Escapes (escape : UInt8 → List UInt8) : Prop where
  plain : ∀ b, Plain b → escape b = [b]
  quote : escape 34 = [92, 34]
  other : ∀ b, ¬Plain b → b ≠ 34 → ∃ c tail, escape b = 92 :: c :: tail ∧ 34 ∉ c :: tail

def integerText (n : ℤ) : List UInt8 := (if n < 0 then [45] else []) ++ decimal n.natAbs

def boolText : Bool → List UInt8
  | true => [116, 114, 117, 101]
  | false => [102, 97, 108, 115, 101]

section Texts

variable (escape : UInt8 → List UInt8)

def escaped (bytes : List UInt8) : List UInt8 := bytes.flatMap escape

def Scalar.text : Scalar → List UInt8
  | .string bytes => quoted (escaped escape bytes)
  | .integer n => integerText n
  | .bool b => boolText b

def memberText (member : List UInt8 × Scalar) : List UInt8 :=
  quoted (escaped escape member.1) ++ 58 :: member.2.text escape

def text (members : Members) : List UInt8 :=
  123 :: ([44].intercalate (members.map (memberText escape)) ++ [125])

/-- The text of an object from behind a member on. -/
def endText : Members → List UInt8
  | [] => [125]
  | member :: members => 44 :: (memberText escape member ++ endText members)

theorem text_cons (member : List UInt8 × Scalar) (members : Members) :
    text escape (member :: members) =
      123 :: (memberText escape member ++ endText escape members) := by
  have htail (members : Members) : (members.map (memberText escape)).flatMap ([44] ++ ·) ++ [125] =
      endText escape members := by
    induction members with
    | nil => rfl
    | cons member members ih =>
      rw [List.map_cons, List.flatMap_cons, List.append_assoc, ih, endText, List.append_assoc]
      rfl
  rw [text, List.map_cons, Json.intercalate_cons, List.append_assoc, htail]

end Texts

/-! ### Names -/

/-- Small letters and underscores. -/
def IsName (name : List UInt8) : Prop :=
  name ≠ [] ∧ ∀ b ∈ name, (97 ≤ b ∧ b ≤ 122) ∨ b = 95

instance (name : List UInt8) : Decidable (IsName name) :=
  have := List.decidableBAll (fun b : UInt8 => (97 ≤ b ∧ b ≤ 122) ∨ b = 95) name
  inferInstanceAs (Decidable (name ≠ [] ∧ ∀ b ∈ name, (97 ≤ b ∧ b ≤ 122) ∨ b = 95))

section Search

variable {escape : UInt8 → List UInt8} {name bytes rest : List UInt8} {members : Members}
  {value : Scalar} {b : UInt8}

theorem IsName.not_mem (h : IsName name) (hb : ¬((97 ≤ b ∧ b ≤ 122) ∨ b = 95)) : b ∉ name :=
  fun hmem => hb (h.2 b hmem)

theorem IsName.plain (h : IsName name) : ∀ b ∈ name, Plain b := by
  intro b hb
  obtain ⟨hlow, -⟩ | rfl := h.2 b hb
  · refine ⟨UInt8.le_trans (by decide) hlow, ?_, ?_⟩
    · rintro rfl
      exact absurd hlow (by decide)
    · rintro rfl
      exact absurd hlow (by decide)
  · decide

theorem Escapes.escaped_plain (h : Escapes escape) (hplain : ∀ b ∈ bytes, Plain b) :
    escaped escape bytes = bytes := by
  induction bytes with
  | nil => rfl
  | cons b bytes ih =>
    rw [List.forall_mem_cons] at hplain
    rw [escaped, List.flatMap_cons, h.plain b hplain.1]
    exact congrArg (b :: ·) (ih hplain.2)

theorem Escapes.mark_not_mem (h : Escapes escape) (hb : b ≠ 34) : 34 ∉ escape b := by
  by_cases hplain : Plain b
  · rw [h.plain b hplain, List.mem_singleton]
    exact Ne.symm hb
  · obtain ⟨c, tail, hescape, hmarks⟩ := h.other b hplain hb
    rw [hescape, List.mem_cons, not_or]
    exact ⟨by decide, hmarks⟩

/-- What a byte is written as begins with no mark, and with no other byte that is plain. -/
theorem Escapes.head_eq (h : Escapes escape) (b : UInt8) :
    (Plain b ∧ escape b = [b]) ∨ ∃ tail, escape b = 92 :: tail := by
  by_cases hplain : Plain b
  · exact .inl ⟨hplain, h.plain b hplain⟩
  by_cases hquote : b = 34
  · exact .inr ⟨[34], by rw [hquote, h.quote]⟩
  · obtain ⟨c, tail, hescape, -⟩ := h.other b hplain hquote
    exact .inr ⟨c :: tail, hescape⟩

/-- A plain text comes next up to a mark only where it is the string. -/
theorem Escapes.isPrefix_escaped_iff (h : Escapes escape) (hname : ∀ b ∈ name, Plain b) :
    name ++ [34] <+: escaped escape bytes ++ 34 :: rest ↔ bytes = name := by
  constructor
  · intro hprefix
    induction name generalizing bytes with
    | nil =>
      cases bytes with
      | nil => rfl
      | cons b bytes =>
        rw [escaped, List.flatMap_cons, List.append_assoc] at hprefix
        rcases h.head_eq b with ⟨hplain, hescape⟩ | ⟨tail, hescape⟩
        · rw [hescape] at hprefix
          exact absurd (List.cons_prefix_cons.mp hprefix).1.symm hplain.2.1
        · rw [hescape] at hprefix
          exact absurd (List.cons_prefix_cons.mp hprefix).1 (by decide)
    | cons a name ih =>
      rw [List.forall_mem_cons] at hname
      cases bytes with
      | nil => exact absurd (List.cons_prefix_cons.mp hprefix).1 hname.1.2.1
      | cons b bytes =>
        rw [escaped, List.flatMap_cons, List.append_assoc] at hprefix
        rcases h.head_eq b with ⟨-, hescape⟩ | ⟨tail, hescape⟩
        · rw [hescape] at hprefix
          obtain ⟨rfl, hrest⟩ := List.cons_prefix_cons.mp hprefix
          rw [ih hname.2 hrest]
        · rw [hescape] at hprefix
          exact absurd (List.cons_prefix_cons.mp hprefix).1 hname.1.2.2
  · rintro rfl
    rw [h.escaped_plain hname]
    exact ⟨rest, by simp⟩

/-! ### What the search meets -/

/-- The string is the name, or ends with a quotation mark and the name. -/
def Meets (name : List UInt8) : Scalar → Prop
  | .string bytes => bytes = name ∨ (34 :: name) <:+ bytes
  | .integer _ => False
  | .bool _ => False

instance (name : List UInt8) (value : Scalar) : Decidable (Meets name value) :=
  match value with
  | .string _ => inferInstanceAs (Decidable (_ ∨ _))
  | .integer _ => inferInstanceAs (Decidable False)
  | .bool _ => inferInstanceAs (Decidable False)

/-- The members from the one whose colon is the next behind what the search meets. -/
def reached (name : List UInt8) : Members → Members
  | [] => []
  | (n, value) :: members =>
    if n = name then (n, value) :: members
    else if Meets name value then members
    else reached name members

/-- A text in which the mark that ends a string begins no name. -/
def EndsString (rest : List UInt8) : Prop := ∃ c ∈ rest.head?, ¬((97 ≤ c ∧ c ≤ 122) ∨ c = 95)

theorem not_isPrefix_mark (hname : IsName name) (hrest : EndsString rest) :
    ¬quoted name <+: 34 :: rest := by
  intro hprefix
  obtain ⟨c, hc, hletter⟩ := hrest
  obtain ⟨a, tail, rfl⟩ := List.exists_cons_of_ne_nil hname.1
  cases rest with
  | nil => cases hc
  | cons d rest =>
    obtain rfl := Option.some.inj hc
    have hcons := (List.cons_prefix_cons.mp hprefix).2
    rw [List.cons_append] at hcons
    obtain rfl := (List.cons_prefix_cons.mp hcons).1
    exact hletter (hname.2 a List.mem_cons_self)

/-- The search in a string, from behind its first mark. -/
theorem Escapes.search_escaped (h : Escapes escape) (hname : IsName name)
    (hrest : EndsString rest) :
    search (quoted name) (escaped escape bytes ++ 34 :: rest) =
      if (34 :: name) <:+ bytes then some (quoted name ++ rest)
      else search (quoted name) rest := by
  induction bytes with
  | nil =>
    rw [if_neg (by simp)]
    exact search_cons_of_not_isPrefix (not_isPrefix_mark hname hrest)
  | cons b bytes ih =>
    rw [escaped, List.flatMap_cons, List.append_assoc, ← escaped]
    by_cases hquote : b = 34
    · subst hquote
      have hskip : search (quoted name) (escape 34 ++ (escaped escape bytes ++ 34 :: rest)) =
          search (quoted name) (34 :: (escaped escape bytes ++ 34 :: rest)) := by
        rw [h.quote]
        refine search_cons_of_not_isPrefix fun hprefix => ?_
        exact absurd (List.cons_prefix_cons.mp hprefix).1 (by decide)
      rw [hskip]
      by_cases hbytes : bytes = name
      · subst hbytes
        have htext : 34 :: (escaped escape bytes ++ 34 :: rest) = quoted bytes ++ rest := by
          rw [h.escaped_plain hname.plain]
          simp [quoted]
        rw [htext, search_append_self, if_pos List.suffix_rfl]
      · have hnot : ¬quoted name <+: 34 :: (escaped escape bytes ++ 34 :: rest) := by
          intro hprefix
          have hbehind := (List.cons_prefix_cons.mp hprefix).2
          exact hbytes ((h.isPrefix_escaped_iff hname.plain).mp hbehind)
        have hsuffix : (34 :: name) <:+ 34 :: bytes ↔ (34 :: name) <:+ bytes := by
          rw [List.suffix_cons_iff]
          exact or_iff_right fun heq => hbytes (List.cons.inj heq).2.symm
        rw [search_cons_of_not_isPrefix hnot, ih]
        simp only [hsuffix]
    · have hnone : 34 ∉ escape b := h.mark_not_mem hquote
      have hsuffix : (34 :: name) <:+ b :: bytes ↔ (34 :: name) <:+ bytes := by
        rw [List.suffix_cons_iff]
        exact or_iff_right fun heq => hquote (List.cons.inj heq).1.symm
      rw [quoted, search_append_of_not_mem hnone, ← quoted, ih]
      simp only [hsuffix]

/-- The search in a string. -/
theorem Escapes.search_quoted (h : Escapes escape) (hname : IsName name)
    (hrest : EndsString rest) :
    search (quoted name) (quoted (escaped escape bytes) ++ rest) =
      if Meets name (.string bytes) then some (quoted name ++ rest)
      else search (quoted name) rest := by
  have htext : quoted (escaped escape bytes) ++ rest =
      34 :: (escaped escape bytes ++ 34 :: rest) := by simp [quoted]
  by_cases hbytes : bytes = name
  · rw [hbytes, h.escaped_plain hname.plain, search_append_self, if_pos (.inl rfl)]
  · have hnot : ¬quoted name <+: 34 :: (escaped escape bytes ++ 34 :: rest) := by
      intro hprefix
      have hbehind := (List.cons_prefix_cons.mp hprefix).2
      exact hbytes ((h.isPrefix_escaped_iff hname.plain).mp hbehind)
    have hmeets : Meets name (.string bytes) ↔ (34 :: name) <:+ bytes := or_iff_right hbytes
    rw [htext, search_cons_of_not_isPrefix hnot, h.search_escaped hname hrest]
    simp only [hmeets]

theorem endsString_endText (members : Members) : EndsString (endText escape members) := by
  cases members with
  | nil => exact ⟨125, rfl, by decide⟩
  | cons member members => exact ⟨44, rfl, by decide⟩

theorem mark_not_mem_integerText (n : ℤ) : 34 ∉ integerText n := by
  intro hmem
  rcases List.mem_append.mp hmem with hsign | hdigit
  · split_ifs at hsign
    · exact absurd (List.mem_singleton.mp hsign) (by decide)
    · cases hsign
  · exact absurd (isDigit_of_mem_decimal hdigit) (by decide)

theorem mark_not_mem_boolText (b : Bool) : 34 ∉ boolText b := by
  cases b <;> decide

/-- The search in a value. -/
theorem Escapes.search_value (h : Escapes escape) (hname : IsName name) (hrest : EndsString rest) :
    search (quoted name) (value.text escape ++ rest) =
      if Meets name value then some (quoted name ++ rest) else search (quoted name) rest := by
  cases value with
  | string bytes => exact h.search_quoted hname hrest
  | integer n =>
    rw [if_neg (by rintro ⟨⟩)]
    exact search_append_of_not_mem (mark_not_mem_integerText n)
  | bool b =>
    rw [if_neg (by rintro ⟨⟩)]
    exact search_append_of_not_mem (mark_not_mem_boolText b)

end Search

/-! ### Behind the colon -/

/-- The bytes in front of the first quotation mark, of a string as it is written. -/
def upToMark (escape : UInt8 → List UInt8) (bytes : List UInt8) : List UInt8 :=
  (escaped escape bytes).takeWhile (· ≠ 34)

/-- The text behind the colon of the first member. -/
def behindColon (escape : UInt8 → List UInt8) : Members → Option (List UInt8)
  | [] => none
  | (_, value) :: members => some (value.text escape ++ endText escape members)

/-- What two quotation marks enclose behind the colon of the first member: its string, or the name
of the next member. -/
def stringAfter (escape : UInt8 → List UInt8) : Members → Option (List UInt8)
  | [] => none
  | (_, .string bytes) :: _ => some (upToMark escape bytes)
  | (_, .integer _) :: members => members.head?.map Prod.fst
  | (_, .bool _) :: members => members.head?.map Prod.fst

/-- The first digits of a text. -/
def digitRun (bytes : List UInt8) : List UInt8 :=
  (bytes.dropWhile fun b => !decide (IsDigit b)).takeWhile fun b => IsDigit b

/-- The first digits behind the colon of the first member: of its value, or of the strings and
numbers behind it. -/
def digitsAfter (escape : UInt8 → List UInt8) : Members → List UInt8
  | [] => []
  | (_, .integer n) :: _ => decimal n.natAbs
  | (_, .bool _) :: members => digitsAfter escape members
  | (_, .string bytes) :: members =>
    if digitRun (escaped escape bytes) = [] then digitsAfter escape members
    else digitRun (escaped escape bytes)

/-! ### How a string is written -/

section Written

variable {escape : UInt8 → List UInt8} {bytes : List UInt8} {b : UInt8}

theorem Escapes.length_escaped (h : Escapes escape) (bytes : List UInt8) :
    bytes.length ≤ (escaped escape bytes).length ∧
      ((escaped escape bytes).length = bytes.length → ∀ b ∈ bytes, Plain b) := by
  induction bytes with
  | nil => exact ⟨le_rfl, by simp⟩
  | cons b bytes ih =>
    have htext : (escaped escape (b :: bytes)).length =
        (escape b).length + (escaped escape bytes).length := by
      rw [escaped, List.flatMap_cons, List.length_append, ← escaped]
    rw [htext, List.length_cons]
    by_cases hplain : Plain b
    · rw [h.plain b hplain, List.length_singleton]
      refine ⟨by omega, fun hlength => ?_⟩
      exact List.forall_mem_cons.mpr ⟨hplain, ih.2 (by omega)⟩
    · have hlong : 2 ≤ (escape b).length := by
        by_cases hquote : b = 34
        · rw [hquote, h.quote, List.length_cons, List.length_singleton]
        · obtain ⟨c, tail, hescape, -⟩ := h.other b hplain hquote
          rw [hescape, List.length_cons, List.length_cons]
          omega
      exact ⟨by omega, fun hlength => by omega⟩

/-- What is read of a string is the string, if it has neither marks nor escapes. -/
theorem Escapes.upToMark_eq_iff (h : Escapes escape) :
    upToMark escape bytes = bytes ↔ ∀ b ∈ bytes, Plain b := by
  constructor
  · intro heq
    have hbytes : 34 ∉ bytes := by
      intro hmem
      rw [← heq] at hmem
      simpa using List.mem_takeWhile_imp hmem
    have hescaped : 34 ∉ escaped escape bytes := by
      intro hmem
      obtain ⟨b, hb, hmark⟩ := List.mem_flatMap.mp hmem
      refine h.mark_not_mem ?_ hmark
      rintro rfl
      exact hbytes hb
    have hall : upToMark escape bytes = escaped escape bytes := by
      refine List.takeWhile_eq_self_iff.mpr fun b hb => decide_eq_true ?_
      rintro rfl
      exact hescaped hb
    exact (h.length_escaped bytes).2 (by rw [← hall, heq])
  · intro hplain
    rw [upToMark, h.escaped_plain hplain]
    exact List.takeWhile_eq_self_iff.mpr fun b hb => decide_eq_true (hplain b hb).2.1

end Written

section Behind

variable {escape : UInt8 → List UInt8} {name bytes front rest n : List UInt8} {members : Members}
  {value : Scalar} {b : UInt8}

theorem behind_quoted {text : List UInt8}
    (h : search (quoted name) text = some (quoted name ++ rest)) :
    behind (quoted name) text = some rest := by
  rw [behind, h, Option.map_some, List.drop_left]

theorem behind_congr {text text' : List UInt8}
    (h : search (quoted name) text = search (quoted name) text') :
    behind (quoted name) text = behind (quoted name) text' := by
  rw [behind, behind, h]

theorem search_text (members : Members) :
    search (quoted name) (text escape members) =
      search (quoted name) (endText escape members) := by
  cases members with
  | nil => exact @search_append_of_not_mem (name ++ [34]) [123] [125] 34 (by decide)
  | cons member members =>
    rw [text_cons, endText]
    exact (@search_append_of_not_mem (name ++ [34]) [123] _ 34 (by decide)).trans
      (@search_append_of_not_mem (name ++ [34]) [44] _ 34 (by decide)).symm

theorem endText_cons (h : Escapes escape) (hn : IsName n) :
    endText escape ((n, value) :: members) =
      44 :: (quoted n ++ 58 :: (value.text escape ++ endText escape members)) := by
  rw [endText, memberText, h.escaped_plain hn.plain, List.append_assoc]
  rfl

/-- The next colon behind a value is that of the next member. -/
theorem Escapes.behind_endText (h : Escapes escape) (hnames : ∀ member ∈ members, IsName member.1) :
    behind [58] (endText escape members) = behindColon escape members := by
  cases members with
  | nil => rfl
  | cons member members =>
    obtain ⟨n, value⟩ := member
    have hn : IsName n := hnames _ List.mem_cons_self
    have hcolon : 58 ∉ 44 :: quoted n := by
      rw [List.mem_cons, not_or]
      exact ⟨by decide, Json.not_mem_quoted (by decide) (hn.not_mem (by decide))⟩
    rw [endText_cons h hn, ← List.cons_append]
    exact behind_byte hcolon _

/-- The text behind the colon that comes next behind what the search meets. -/
theorem Escapes.behind_name (h : Escapes escape) (hname : IsName name)
    (hnames : ∀ member ∈ members, IsName member.1) :
    (behind (quoted name) (text escape members)).bind (behind [58]) =
      behindColon escape (reached name members) := by
  rw [behind_congr (search_text members)]
  induction members with
  | nil =>
    have hnone : search (quoted name) [125] = none :=
      @search_eq_none_of_not_mem (name ++ [34]) [125] 34 (by decide)
    rw [endText, behind, hnone]
    rfl
  | cons member members ih =>
    obtain ⟨n, value⟩ := member
    rw [List.forall_mem_cons] at hnames
    obtain ⟨hn, hnames⟩ := hnames
    have hn : IsName n := hn
    have hmeets : Meets name (.string n) ↔ n = name := by
      refine or_iff_left fun hsuffix => ?_
      exact hn.not_mem (by decide) (hsuffix.subset List.mem_cons_self)
    have hskip : search (quoted name) (endText escape ((n, value) :: members)) =
        search (quoted name)
          (quoted n ++ 58 :: (value.text escape ++ endText escape members)) := by
      rw [endText_cons h hn]
      exact @search_append_of_not_mem (name ++ [34]) [44] _ 34 (by decide)
    have hends : EndsString (58 :: (value.text escape ++ endText escape members)) :=
      ⟨58, rfl, by decide⟩
    have hquoted := @Escapes.search_quoted escape name n _ h hname hends
    rw [h.escaped_plain hn.plain] at hquoted
    simp only [hmeets] at hquoted
    rw [reached]
    by_cases heq : n = name
    · rw [if_pos heq] at hquoted ⊢
      rw [behind_quoted (hskip.trans hquoted), Option.bind_some]
      exact behind_byte List.not_mem_nil _
    rw [if_neg heq] at hquoted ⊢
    have hcolon : search (quoted name) (58 :: (value.text escape ++ endText escape members)) =
        search (quoted name) (value.text escape ++ endText escape members) :=
      @search_append_of_not_mem (name ++ [34]) [58] _ 34 (by decide)
    have hvalue := @Escapes.search_value escape name _ value h hname
      (@endsString_endText escape members)
    by_cases hhit : Meets name value
    · rw [if_pos hhit] at hvalue ⊢
      rw [behind_quoted (hskip.trans (hquoted.trans (hcolon.trans hvalue))), Option.bind_some]
      exact h.behind_endText hnames
    · rw [if_neg hhit] at hvalue ⊢
      rw [behind_congr (hskip.trans (hquoted.trans (hcolon.trans hvalue)))]
      exact ih hnames

theorem upTo_mark (front rest : List UInt8) :
    upTo 34 (front ++ 34 :: rest) = some (front.takeWhile (· ≠ 34)) := by
  rw [upTo, if_pos (List.mem_append_right front List.mem_cons_self)]
  induction front with
  | nil => rfl
  | cons b front ih =>
    rw [List.cons_append]
    by_cases hb : b = 34
    · rw [List.takeWhile_cons_of_neg (by simp [hb]), List.takeWhile_cons_of_neg (by simp [hb])]
    · rw [List.takeWhile_cons_of_pos (by simp [hb]), List.takeWhile_cons_of_pos (by simp [hb]),
        Option.some.inj ih]

/-- The next string behind an end of a value without marks. -/
theorem Escapes.string_endText (h : Escapes escape) (hfront : 34 ∉ front)
    (hnames : ∀ member ∈ members, IsName member.1) :
    (behind [34] (front ++ endText escape members)).bind (upTo 34) =
      members.head?.map Prod.fst := by
  rw [behind_append_of_not_mem hfront]
  cases members with
  | nil => rfl
  | cons member members =>
    obtain ⟨n, value⟩ := member
    have hn : IsName n := hnames _ List.mem_cons_self
    have hmark : 34 ∉ n := hn.not_mem (by decide)
    have htext : endText escape ((n, value) :: members) =
        [44] ++ 34 :: (n ++ 34 :: 58 :: (value.text escape ++ endText escape members)) := by
      rw [endText_cons h hn]
      simp [quoted]
    rw [htext, behind_byte (by decide), Option.bind_some, upTo_append hmark]
    rfl

theorem Escapes.stringBehind_eq (h : Escapes escape)
    (hnames : ∀ member ∈ members, IsName member.1) :
    ((behindColon escape members).bind (behind [34])).bind (upTo 34) =
      stringAfter escape members := by
  cases members with
  | nil => rfl
  | cons member members =>
    obtain ⟨n, value⟩ := member
    rw [List.forall_mem_cons] at hnames
    rw [behindColon, Option.bind_some]
    cases value with
    | string bytes =>
      have htext : Scalar.text escape (.string bytes) ++ endText escape members =
          [] ++ 34 :: (escaped escape bytes ++ 34 :: endText escape members) := by
        simp [Scalar.text, quoted]
      rw [htext, behind_byte List.not_mem_nil, Option.bind_some, upTo_mark]
      rfl
    | integer n => exact h.string_endText (mark_not_mem_integerText n) hnames.2
    | bool b => exact h.string_endText (mark_not_mem_boolText b) hnames.2

/-! ### Digits -/

theorem digitRun_append_of_none (h : ∀ b ∈ front, ¬IsDigit b) (rest : List UInt8) :
    digitRun (front ++ rest) = digitRun rest := by
  induction front with
  | nil => rfl
  | cons b front ih =>
    rw [List.forall_mem_cons] at h
    rw [List.cons_append, digitRun, List.dropWhile_cons_of_pos (by simp [h.1])]
    exact ih h.2

theorem digitRun_eq_nil_iff : digitRun bytes = [] ↔ ∀ b ∈ bytes, ¬IsDigit b := by
  induction bytes with
  | nil => simp [digitRun]
  | cons b bytes ih =>
    by_cases hb : IsDigit b
    · rw [digitRun, List.dropWhile_cons_of_neg (by simp [hb]),
        List.takeWhile_cons_of_pos (by simp [hb])]
      simp [hb]
    · rw [digitRun, List.dropWhile_cons_of_pos (by simp [hb]), ← digitRun, ih]
      simp [hb]

theorem takeWhile_append_of_head {p : UInt8 → Bool} (hrest : ∀ b ∈ rest.head?, p b = false)
    (bytes : List UInt8) : (bytes ++ rest).takeWhile p = bytes.takeWhile p := by
  induction bytes with
  | nil =>
    cases rest with
    | nil => rfl
    | cons c rest => exact List.takeWhile_cons_of_neg (by simp [hrest c rfl])
  | cons b bytes ih =>
    rw [List.cons_append, List.takeWhile_cons, List.takeWhile_cons, ih]

/-- The digits end with the text, if what follows it begins with none. -/
theorem digitRun_append_of_ne (h : digitRun bytes ≠ []) (hrest : ∀ b ∈ rest.head?, ¬IsDigit b) :
    digitRun (bytes ++ rest) = digitRun bytes := by
  induction bytes with
  | nil => exact absurd rfl h
  | cons b bytes ih =>
    by_cases hb : IsDigit b
    · rw [List.cons_append, digitRun, digitRun, List.dropWhile_cons_of_neg (by simp [hb]),
        List.dropWhile_cons_of_neg (by simp [hb]), ← List.cons_append]
      exact takeWhile_append_of_head (fun c hc => decide_eq_false (hrest c hc)) (b :: bytes)
    · have hskip (bytes : List UInt8) : digitRun (b :: bytes) = digitRun bytes := by
        rw [digitRun, List.dropWhile_cons_of_pos (by simp [hb]), ← digitRun]
      rw [hskip] at h
      rw [List.cons_append, hskip, hskip, ih h]

theorem digitRun_decimal (n : ℕ) : digitRun (decimal n) = decimal n := by
  obtain ⟨b, tail, hdecimal⟩ := List.exists_cons_of_ne_nil (decimal_ne_nil n)
  have hdigits : ∀ c ∈ decimal n, IsDigit c := fun c hc => isDigit_of_mem_decimal hc
  have hb : IsDigit b := hdigits b (by rw [hdecimal]; exact List.mem_cons_self)
  rw [digitRun, hdecimal, List.dropWhile_cons_of_neg (by simp [hb]), ← hdecimal,
    List.takeWhile_eq_self_iff]
  exact fun c hc => decide_eq_true (hdigits c hc)

theorem head_endText (members : Members) : ∀ b ∈ (endText escape members).head?, ¬IsDigit b := by
  intro b hb
  cases members with
  | nil =>
    obtain rfl := Option.some.inj hb
    decide
  | cons member members =>
    obtain rfl := Option.some.inj hb
    decide

theorem not_isDigit_of_all {bytes : List UInt8}
    (h : (bytes.all fun b => !decide (IsDigit b)) = true) : ∀ b ∈ bytes, ¬IsDigit b := by
  intro b hb
  simpa using List.all_eq_true.mp h b hb

theorem not_isDigit_boolText (b : Bool) : ∀ c ∈ boolText b, ¬IsDigit c := by
  cases b <;> exact not_isDigit_of_all (by decide)

/-- The digits of a value, or else those that come behind it. -/
theorem digitRun_value (value : Scalar) (members : Members) :
    digitRun (value.text escape ++ endText escape members) =
      match value with
      | .string bytes =>
        if digitRun (escaped escape bytes) = [] then digitRun (endText escape members)
        else digitRun (escaped escape bytes)
      | .integer n => decimal n.natAbs
      | .bool _ => digitRun (endText escape members) := by
  cases value with
  | string bytes =>
    have hmark : ∀ b ∈ [(34 : UInt8)], ¬IsDigit b := not_isDigit_of_all (by decide)
    have htext : Scalar.text escape (.string bytes) ++ endText escape members =
        [34] ++ (escaped escape bytes ++ ([34] ++ endText escape members)) := by
      simp [Scalar.text, quoted]
    rw [htext, digitRun_append_of_none hmark]
    dsimp only
    split_ifs with hnone
    · rw [digitRun_append_of_none (digitRun_eq_nil_iff.mp hnone), digitRun_append_of_none hmark]
    · refine digitRun_append_of_ne hnone fun b hb => ?_
      obtain rfl := Option.some.inj hb
      decide
  | integer n =>
    have hsign : ∀ b ∈ (if n < 0 then [(45 : UInt8)] else []), ¬IsDigit b := by
      split_ifs
      · exact not_isDigit_of_all (by decide)
      · simp
    have hne : digitRun (decimal n.natAbs) ≠ [] := by
      rw [digitRun_decimal]
      exact decimal_ne_nil _
    rw [Scalar.text, integerText, List.append_assoc, digitRun_append_of_none hsign,
      digitRun_append_of_ne hne (head_endText members), digitRun_decimal]
  | bool b => exact digitRun_append_of_none (not_isDigit_boolText b) _

theorem Escapes.digitRun_endText (h : Escapes escape)
    (hnames : ∀ member ∈ members, IsName member.1) :
    digitRun (endText escape members) = digitsAfter escape members := by
  induction members with
  | nil =>
    show digitRun [125] = []
    decide
  | cons member members ih =>
    obtain ⟨n, value⟩ := member
    rw [List.forall_mem_cons] at hnames
    have hn : IsName n := hnames.1
    have hfront : ∀ b ∈ 44 :: (quoted n ++ [58]), ¬IsDigit b := by
      intro b hb hdigit
      simp only [quoted, List.mem_cons, List.mem_append, List.not_mem_nil, or_false] at hb
      rcases hb with rfl | (rfl | hb | rfl) | rfl
      · exact absurd hdigit (by decide)
      · exact absurd hdigit (by decide)
      · have hletter := hn.2 b hb
        rw [IsDigit, UInt8.le_iff_toNat_le, UInt8.le_iff_toNat_le] at hdigit
        rw [UInt8.le_iff_toNat_le, ← UInt8.toNat_inj] at hletter
        have h57 : (57 : UInt8).toNat = 57 := rfl
        have h97 : (97 : UInt8).toNat = 97 := rfl
        have h95 : (95 : UInt8).toNat = 95 := rfl
        omega
      · exact absurd hdigit (by decide)
      · exact absurd hdigit (by decide)
    have htext : endText escape ((n, value) :: members) =
        (44 :: (quoted n ++ [58])) ++ (value.text escape ++ endText escape members) := by
      rw [endText_cons h hn]
      simp
    rw [htext, digitRun_append_of_none hfront, digitRun_value, ih hnames.2]
    cases value <;> rfl

/-- The digits behind the colon of the first member. -/
theorem Escapes.digitRun_behind (h : Escapes escape)
    (hnames : ∀ member ∈ members, IsName member.1) {text : List UInt8}
    (htext : behindColon escape members = some text) :
    digitRun text = digitsAfter escape members := by
  cases members with
  | nil => cases htext
  | cons member members =>
    obtain ⟨n, value⟩ := member
    rw [List.forall_mem_cons] at hnames
    obtain rfl := Option.some.inj htext
    rw [digitRun_value, h.digitRun_endText hnames.2]
    cases value <;> rfl

end Behind

end FlatJson
