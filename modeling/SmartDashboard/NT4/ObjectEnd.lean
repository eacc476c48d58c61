import SmartDashboard.Library.JsonStrings
import SmartDashboard.NT4.TextMessages

/-!
# The end of an object

`JsonFindObjectEnd` counts the braces of a text outside its strings, in an `int`. For an object of
any JSON text, whatever escapes its strings have, it finds the last brace, as long as the count
comes back to 0 only there: an `int` that wraps does so again after 2 ^ 32 levels.

The scan that the frames are read with gives the text behind the brace and counts in the integers;
on every text that is shorter than that the two are one.

## Main definitions

- `jsonFindObjectEndAt`: the index of the brace
- `ObjectText`: the bytes of an object, from its first brace to its last
- `objectDepth`: how deep objects stand in one another

## Main results

- `jsonFindObjectEndAt_eq`: the scan of the frames
- `skips_tokens`: the count is the same behind a value as before it
-/

namespace SmartDashboard.NT4

open Decimal Json TextSearch Direct

/-- The loop of `JsonFindObjectEnd` at the index `i`, where the rest of the text begins. -/
def objectEndAt : ScanState → Int32 → ℕ → ByteString → Option ℕ
  | _, _, _, [] => none
  | .escaped, depth, i, _ :: rest => objectEndAt .inString depth (i + 1) rest
  | .inString, depth, i, c :: rest =>
    if c = 92 then objectEndAt .escaped depth (i + 1) rest
    else if c = 34 then objectEndAt .plain depth (i + 1) rest
    else objectEndAt .inString depth (i + 1) rest
  | .plain, depth, i, c :: rest =>
    if c = 34 then objectEndAt .inString depth (i + 1) rest
    else if c = 123 then objectEndAt .plain (depth + 1) (i + 1) rest
    else if c = 125 then
      if depth - 1 = 0 then some i else objectEndAt .plain (depth - 1) (i + 1) rest
    else objectEndAt .plain depth (i + 1) rest

/-- `JsonFindObjectEnd`. There is no index for `npos`. -/
def jsonFindObjectEndAt (json : ByteString) (openPos : ℕ) : Option ℕ :=
  if json[openPos]? = some 123 then objectEndAt .plain 0 openPos (json.drop openPos) else none

mutual

/-- How deep objects stand in one another. -/
def objectDepth : Tree → ℕ
  | .null => 0
  | .bool _ => 0
  | .number _ => 0
  | .string _ => 0
  | .array items => itemsDepth items
  | .object members => membersDepth members + 1

def itemsDepth : List Tree → ℕ
  | [] => 0
  | item :: items => max (objectDepth item) (itemsDepth items)

def membersDepth : List (List StringUnit × Tree) → ℕ
  | [] => 0
  | (_, value) :: members => max (objectDepth value) (membersDepth members)

end

/-- The bytes of an object, from its first brace to its last. -/
structure ObjectText (object : ByteString) (members : List (List StringUnit × Tree)) : Prop where
  lex_eq : lex object = some (Tree.object members).tokens
  head_eq : object.head? = some 123
  getLast_eq : object.getLast? = some 125

section Scan

variable {front text rest raw body : ByteString} {token : Token} {tokens tokens' : List Token}
  {units : List StringUnit} {depth : Int32} {i levels levels' : ℕ}

/-! ### Every answer is a closing brace -/

theorem getElem?_of_objectEndAt {state : ScanState} {json : ByteString} {last : ℕ}
    (h : objectEndAt state depth i (json.drop i) = some last) : json[last]? = some 125 := by
  generalize hrest : json.drop i = rest at h
  induction rest generalizing state depth i with
  | nil => cases state <;> cases h
  | cons c rest ih =>
    have hnext : json.drop (i + 1) = rest := by
      rw [← List.tail_drop, hrest, List.tail_cons]
    cases state with
    | escaped => exact ih hnext h
    | inString =>
      rw [objectEndAt] at h
      split_ifs at h
      · exact ih hnext h
      · exact ih hnext h
      · exact ih hnext h
    | plain =>
      rw [objectEndAt] at h
      split_ifs at h with _ _ hclose
      · exact ih hnext h
      · exact ih hnext h
      · obtain rfl := Option.some.inj h
        have hget : json[i]? = (json.drop i)[0]? := by rw [List.getElem?_drop, Nat.add_zero]
        rw [hget, hrest, hclose]
        rfl
      · exact ih hnext h
      · exact ih hnext h

theorem getElem?_of_jsonFindObjectEndAt {json : ByteString} {openPos last : ℕ}
    (h : jsonFindObjectEndAt json openPos = some last) : json[last]? = some 125 := by
  rw [jsonFindObjectEndAt] at h
  split_ifs at h
  exact getElem?_of_objectEndAt h

/-! ### Pieces of a text -/

theorem objectEndAt_plain_append (hquote : 34 ∉ front) (hopen : 123 ∉ front)
    (hclose : 125 ∉ front) (depth : Int32) (i : ℕ) (rest : ByteString) :
    objectEndAt .plain depth i (front ++ rest) =
      objectEndAt .plain depth (i + front.length) rest := by
  induction front generalizing i with
  | nil => rfl
  | cons c front ih =>
    rw [List.mem_cons, not_or] at hquote hopen hclose
    rw [List.cons_append, objectEndAt, if_neg (Ne.symm hquote.1), if_neg (Ne.symm hopen.1),
      if_neg (Ne.symm hclose.1), ih hquote.2 hopen.2 hclose.2, List.length_cons]
    congr 1
    omega

theorem objectEndAt_space {space : ByteString} (hspace : ∀ b ∈ space, IsSpace b) (depth : Int32)
    (i : ℕ) (rest : ByteString) :
    objectEndAt .plain depth i (space ++ rest) =
      objectEndAt .plain depth (i + space.length) rest :=
  objectEndAt_plain_append (not_mem_space hspace (by decide)) (not_mem_space hspace (by decide))
    (not_mem_space hspace (by decide)) depth i rest

theorem objectEndAt_inString_append (hquote : 34 ∉ front) (hescape : 92 ∉ front) (depth : Int32)
    (i : ℕ) (rest : ByteString) :
    objectEndAt .inString depth i (front ++ rest) =
      objectEndAt .inString depth (i + front.length) rest := by
  induction front generalizing i with
  | nil => rfl
  | cons c front ih =>
    rw [List.mem_cons, not_or] at hquote hescape
    rw [List.cons_append, objectEndAt, if_neg (Ne.symm hescape.1), if_neg (Ne.symm hquote.1),
      ih hquote.2 hescape.2, List.length_cons]
    congr 1
    omega

/-- The bytes of a string, up to the mark that ends it. -/
theorem objectEndAt_body (h : StringBody body units) (depth : Int32) (i : ℕ) (rest : ByteString) :
    objectEndAt .inString depth i (body ++ 34 :: rest) =
      objectEndAt .plain depth (i + body.length + 1) rest := by
  induction h generalizing i with
  | nil => rfl
  | @plain b raw _ hplain _ ih =>
    rw [List.cons_append, objectEndAt, if_neg hplain.2.2, if_neg hplain.2.1, ih, List.length_cons]
    congr 1
    omega
  | @escape b c raw _ _ _ ih =>
    rw [List.cons_append, List.cons_append, objectEndAt, if_pos rfl, objectEndAt, ih,
      List.length_cons, List.length_cons]
    congr 1
    omega
  | @code digits raw _ _ _ hdigits _ ih =>
    have hquote : 34 ∉ digits := fun hmem => hdigits 34 hmem rfl
    have hescape : 92 ∉ digits := fun hmem => hdigits 92 hmem rfl
    rw [List.cons_append, List.cons_append, List.append_assoc, objectEndAt, if_pos rfl,
      objectEndAt, objectEndAt_inString_append hquote hescape, ih, List.length_cons,
      List.length_cons, List.length_append]
    congr 1
    omega

/-- A token that is no brace leaves the count as it is. -/
theorem objectEndAt_token (h : Raw token raw) (hopen : token ≠ .leftBrace)
    (hclose : token ≠ .rightBrace) (depth : Int32) (i : ℕ) (rest : ByteString) :
    objectEndAt .plain depth i (raw ++ rest) =
      objectEndAt .plain depth (i + raw.length) rest := by
  cases h with
  | other h hstring =>
    have hbrace {b : UInt8} {brace : Token} (hb : punctuation b = some brace) (hne : token ≠ brace)
        (hother : ¬(IsNumeral b ∨ (97 ≤ b ∧ b ≤ 122))) : b ∉ raw := by
      intro hmem
      rcases h.mem_raw hstring hmem with hmark | hmark
      · rw [hb] at hmark
        exact hne (Option.some.inj hmark).symm
      · exact hother hmark
    exact objectEndAt_plain_append (h.quote_not_mem hstring) (hbrace rfl hopen (by decide))
      (hbrace rfl hclose (by decide)) depth i rest
  | @string body _ h =>
    have hquoted : 34 :: (body ++ [34]) ++ rest = 34 :: (body ++ 34 :: rest) := by simp
    rw [hquoted, objectEndAt, if_pos rfl, objectEndAt_body h, List.length_cons, List.length_append,
      List.length_singleton]
    congr 1
    omega

theorem Raw.eq_mark {mark : Token} {m : UInt8} (h : Raw mark raw) (hm : punctuation m = some mark) :
    raw = [m] := by
  cases h with
  | other h _ => exact h.eq_mark hm
  | string h => exact absurd hm (punctuation_ne_string m _)

theorem exists_of_lex_mark {mark : Token} {m : UInt8} (h : lex text = some (mark :: tokens))
    (hm : punctuation m = some mark) :
    ∃ space rest,
      text = space ++ m :: rest ∧ (∀ b ∈ space, IsSpace b) ∧ lex rest = some tokens := by
  obtain ⟨space, raw, rest, rfl, hspace, hraw, hrest⟩ := exists_of_lex_cons h
  obtain rfl := Raw.eq_mark hraw hm
  exact ⟨space, rest, rfl, hspace, hrest⟩

theorem ofNat_succ (depth : ℕ) : Int32.ofNat depth + 1 = Int32.ofNat (depth + 1) := by
  rw [Int32.ofNat_add]
  rfl

/-- The count that a closing brace leaves. -/
theorem ofNat_succ_sub_one (depth : ℕ) : Int32.ofNat (depth + 1) - 1 = Int32.ofNat depth := by
  rw [← ofNat_succ, Int32.add_sub_cancel]

theorem ofNat_ne_zero {depth : ℕ} (hpos : 0 < depth) (hlt : depth < 0x100000000) :
    Int32.ofNat depth ≠ 0 := by
  intro h
  have hunsigned : UInt32.ofNat depth = 0 := congrArg Int32.toUInt32 h
  have hmod : depth % 0x100000000 = 0 := (UInt32.ofNat_eq_iff_mod_eq_toNat depth 0).mp hunsigned
  omega

theorem objectEndAt_open (depth i : ℕ) (rest : ByteString) :
    objectEndAt .plain (Int32.ofNat depth) i (123 :: rest) =
      objectEndAt .plain (Int32.ofNat (depth + 1)) (i + 1) rest := by
  rw [objectEndAt, if_neg (by decide), if_pos rfl, ofNat_succ]

theorem objectEndAt_close (depth i : ℕ) (rest : ByteString) :
    objectEndAt .plain (Int32.ofNat (depth + 1)) i (125 :: rest) =
      if Int32.ofNat depth = 0 then some i
      else objectEndAt .plain (Int32.ofNat depth) (i + 1) rest := by
  rw [objectEndAt, if_neg (by decide), if_neg (by decide), if_pos rfl, ofNat_succ_sub_one]

/-! ### The scan of the frames -/

/-- The integers count the braces as the `int` does, which too short a text cannot fill. -/
theorem objectEndAt_eq {state : ScanState} {depth : ℕ} (hpos : 0 < depth)
    (hlt : depth + rest.length < 0x100000000) (i : ℕ) :
    objectEndAt state (Int32.ofNat depth) i rest =
      (objectEndFrom state depth rest).map fun behind => i + rest.length - behind.length - 1 := by
  induction rest generalizing state depth i with
  | nil => cases state <;> rfl
  | cons c rest ih =>
    rw [List.length_cons] at hlt ⊢
    have hshift (found : Option ByteString) :
        (found.map fun behind => i + 1 + rest.length - behind.length - 1) =
          found.map fun behind => i + (rest.length + 1) - behind.length - 1 := by
      congr 1
      funext behind
      omega
    have hstep (state : ScanState) := (@ih state depth hpos (by omega) (i + 1)).trans (hshift _)
    cases state with
    | escaped => exact hstep .inString
    | inString =>
      rw [objectEndAt, objectEndFrom]
      split_ifs
      · exact hstep .escaped
      · exact hstep .plain
      · exact hstep .inString
    | plain =>
      by_cases hquote : c = 34
      · rw [objectEndAt, objectEndFrom, if_pos hquote, if_pos hquote]
        exact hstep .inString
      by_cases hopen : c = 123
      · subst hopen
        have hdeeper := @ih .plain (depth + 1) (Nat.succ_pos depth) (by omega) (i + 1)
        rw [objectEndAt_open, objectEndFrom, if_neg hquote, if_pos rfl, ← hshift]
        exact_mod_cast hdeeper
      by_cases hclose : c = 125
      · subst hclose
        obtain ⟨outer, rfl⟩ := Nat.exists_eq_succ_of_ne_zero hpos.ne'
        have houter : ((outer.succ : ℕ) : ℤ) - 1 = outer := by omega
        rw [objectEndAt_close, objectEndFrom, if_neg hquote, if_neg hopen, if_pos rfl, houter]
        by_cases hzero : outer = 0
        · have hcount : Int32.ofNat 0 = 0 := rfl
          rw [hzero, if_pos hcount, if_pos Nat.cast_zero, Option.map_some]
          congr 1
          omega
        · have hne : (outer : ℤ) ≠ 0 := Nat.cast_ne_zero.mpr hzero
          rw [if_neg (ofNat_ne_zero (Nat.pos_of_ne_zero hzero) (by omega)), if_neg hne, ← hshift]
          exact ih (Nat.pos_of_ne_zero hzero) (by omega) (i + 1)
      · rw [objectEndAt, objectEndFrom, if_neg hquote, if_neg hopen, if_neg hclose, if_neg hquote,
          if_neg hopen, if_neg hclose]
        exact hstep .plain

/-- In a text of less than 2 ^ 32 bytes the scan that the frames are read with finds that brace. -/
theorem jsonFindObjectEndAt_eq {json : ByteString} (h : json.length < 0x100000000)
    (openPos : ℕ) :
    jsonFindObjectEndAt json openPos =
      (jsonFindObjectEnd (json.drop openPos)).map fun behind =>
        json.length - behind.length - 1 := by
  have hhead : (json.drop openPos).head? = json[openPos]? := by
    rw [List.head?_eq_getElem?, List.getElem?_drop, Nat.add_zero]
  rw [jsonFindObjectEndAt, jsonFindObjectEnd, hhead]
  by_cases hopen : json[openPos]? = some 123
  · rw [if_pos hopen, if_pos hopen]
    obtain ⟨hbound, -⟩ := List.getElem?_eq_some_iff.mp hopen
    cases hrest : json.drop openPos with
    | nil =>
      rw [hrest, hopen] at hhead
      cases hhead
    | cons c rest =>
      rw [hrest, hopen] at hhead
      obtain rfl := Option.some.inj hhead
      have hlength : json.length - openPos = rest.length + 1 := by
        rw [← List.length_drop, hrest, List.length_cons]
      have hzero : (0 : Int32) = Int32.ofNat 0 := rfl
      rw [hzero, objectEndAt_open, objectEndAt_eq (Nat.succ_pos 0) (by omega), objectEndFrom,
        if_neg (by decide), if_pos rfl]
      have hindex (behind : ByteString) : openPos + 1 + rest.length - behind.length - 1 =
          json.length - behind.length - 1 := by omega
      simp only [hindex]
      rfl
  · rw [if_neg hopen, if_neg hopen]
    rfl

/-! ### The count over a value -/

/-- The loop comes out behind these tokens with the count that it had before them, if so many more
levels do not bring the count to 0. -/
def Skips (levels : ℕ) (tokens : List Token) : Prop :=
  ∀ text more, lex text = some (tokens ++ more) →
    ∃ front rest, text = front ++ rest ∧ lex rest = some more ∧
      ∀ depth > 0, depth + levels ≤ 0x100000000 → ∀ i suffix,
        objectEndAt .plain (Int32.ofNat depth) i (text ++ suffix) =
          objectEndAt .plain (Int32.ofNat depth) (i + front.length) (rest ++ suffix)

theorem skips_nil : Skips 0 [] :=
  fun text _ hlex => ⟨[], text, rfl, hlex, fun _ _ _ _ _ => rfl⟩

theorem Skips.mono (h : Skips levels tokens) (hle : levels ≤ levels') : Skips levels' tokens := by
  intro text more hlex
  obtain ⟨front, rest, htext, hrest, hscan⟩ := h text more hlex
  exact ⟨front, rest, htext, hrest, fun depth hpos hdepth => hscan depth hpos (by omega)⟩

theorem Skips.append (h : Skips levels tokens) (h' : Skips levels tokens') :
    Skips levels (tokens ++ tokens') := by
  intro text more hlex
  rw [List.append_assoc] at hlex
  obtain ⟨front, middle, rfl, hmiddle, hscan⟩ := h text _ hlex
  obtain ⟨front', rest, rfl, hrest, hscan'⟩ := h' middle more hmiddle
  refine ⟨front ++ front', rest, (List.append_assoc ..).symm, hrest, ?_⟩
  intro depth hpos hdepth i suffix
  rw [hscan depth hpos hdepth, hscan' depth hpos hdepth, List.length_append, Nat.add_assoc]

theorem Skips.cons (hopen : token ≠ .leftBrace) (hclose : token ≠ .rightBrace)
    (h : Skips levels tokens) : Skips levels (token :: tokens) := by
  intro text more hlex
  obtain ⟨space, raw, middle, rfl, hspace, hraw, hmiddle⟩ := exists_of_lex_cons hlex
  obtain ⟨front, rest, rfl, hrest, hscan⟩ := h middle more hmiddle
  refine ⟨space ++ (raw ++ front), rest, by simp, hrest, ?_⟩
  intro depth hpos hdepth i suffix
  rw [List.append_assoc, List.append_assoc, objectEndAt_space hspace,
    objectEndAt_token hraw hopen hclose, hscan depth hpos hdepth]
  congr 1
  simp only [List.length_append]
  omega

theorem Skips.braces (h : Skips levels tokens) :
    Skips (levels + 1) (.leftBrace :: (tokens ++ [.rightBrace])) := by
  intro text more hlex
  rw [List.cons_append, List.append_assoc] at hlex
  obtain ⟨space, inner, rfl, hspace, hinner⟩ := exists_of_lex_mark hlex (m := 123) rfl
  obtain ⟨front, last, rfl, hlast, hscan⟩ := h inner _ hinner
  obtain ⟨space', rest, rfl, hspace', hrest⟩ := exists_of_lex_mark hlast (m := 125) rfl
  refine ⟨space ++ 123 :: (front ++ (space' ++ [125])), rest, by simp, hrest, ?_⟩
  intro depth hpos hdepth i suffix
  rw [List.append_assoc, objectEndAt_space hspace, List.cons_append, objectEndAt_open,
    hscan (depth + 1) (Nat.succ_pos depth) (by omega), List.append_assoc,
    objectEndAt_space hspace', List.cons_append, objectEndAt_close,
    if_neg (ofNat_ne_zero hpos (by omega))]
  congr 1
  simp only [List.length_append, List.length_cons, List.length_nil]
  omega

theorem Skips.intercalate {pieces : List (List Token)}
    (h : ∀ tokens ∈ pieces, Skips levels tokens) :
    Skips levels ([Token.comma].intercalate pieces) :=
  intercalate_induction (skips_nil.mono (Nat.zero_le levels)) (fun _ _ => Skips.append)
    (fun _ htokens => htokens.cons (by decide) (by decide)) h

mutual

/-- The count is the same behind a value as before it. -/
theorem skips_tokens : ∀ tree : Tree, Skips (objectDepth tree) tree.tokens
  | .null => skips_nil.cons (by decide) (by decide)
  | .bool _ => skips_nil.cons (by rintro ⟨⟩) (by rintro ⟨⟩)
  | .number _ => skips_nil.cons (by rintro ⟨⟩) (by rintro ⟨⟩)
  | .string _ => skips_nil.cons (by rintro ⟨⟩) (by rintro ⟨⟩)
  | .array items => by
    have hlast : Skips (itemsDepth items) [.rightBracket] :=
      (skips_nil.mono (Nat.zero_le _)).cons (by decide) (by decide)
    have hitems := Skips.intercalate (skips_items items)
    exact (hitems.append hlast).cons (by decide) (by decide)
  | .object members => (Skips.intercalate (skips_members members)).braces

theorem skips_items : ∀ items : List Tree, ∀ tokens ∈ itemTokens items,
    Skips (itemsDepth items) tokens
  | [], _, hmem => by cases hmem
  | item :: items, tokens, hmem => by
    rcases List.mem_cons.mp hmem with rfl | hmem
    · exact (skips_tokens item).mono (le_max_left ..)
    · exact (skips_items items tokens hmem).mono (le_max_right ..)

theorem skips_members : ∀ members : List (List StringUnit × Tree),
    ∀ tokens ∈ memberTokens members, Skips (membersDepth members) tokens
  | [], _, hmem => by cases hmem
  | (name, value) :: members, tokens, hmem => by
    rcases List.mem_cons.mp hmem with rfl | hmem
    · have hvalue := (skips_tokens value).mono (le_max_left _ (membersDepth members))
      exact (hvalue.cons (by decide) (by decide)).cons (by rintro ⟨⟩) (by rintro ⟨⟩)
    · exact (skips_members members tokens hmem).mono (le_max_right ..)

end

/-! ### Objects -/

variable {object : ByteString} {members : List (List StringUnit × Tree)}

/-- Only space could follow the brace that ends an object. -/
theorem ObjectText.eq_concat (h : ObjectText object members) (htext : object = front ++ rest)
    (hrest : lex rest = some [.rightBrace]) :
    ∃ space, rest = space ++ [125] ∧ ∀ b ∈ space, IsSpace b := by
  obtain ⟨space, behind, rfl, hspace, hbehind⟩ := exists_of_lex_mark hrest (m := 125) rfl
  cases List.eq_nil_or_concat behind with
  | inl hnil => exact ⟨space, by rw [hnil], hspace⟩
  | inr hconcat =>
    obtain ⟨behind, b, rfl⟩ := hconcat
    have hb : IsSpace b := isSpace_of_lex_nil hbehind b (by simp)
    have hlast := h.getLast_eq
    have hsplit : front ++ (space ++ 125 :: behind.concat b) =
        (front ++ (space ++ 125 :: behind)) ++ [b] := by simp
    rw [htext, hsplit, List.getLast?_concat] at hlast
    obtain rfl := Option.some.inj hlast
    exact absurd hb (by decide)

theorem objectEndAt_object (h : ObjectText object members)
    (hdepth : objectDepth (.object members) ≤ 0x100000000) (i : ℕ) (suffix : ByteString) :
    objectEndAt .plain 0 i (object ++ suffix) = some (i + object.length - 1) := by
  obtain ⟨b, inner, rfl⟩ : ∃ b inner, object = b :: inner :=
    List.exists_cons_of_ne_nil fun hnil => by
      have hhead := h.head_eq
      rw [hnil] at hhead
      cases hhead
  obtain rfl := Option.some.inj h.head_eq
  have hopen : lexToken (123 :: inner) = some (.leftBrace, inner) := rfl
  have hlex := h.lex_eq
  rw [lex_token hopen] at hlex
  obtain ⟨tokens, hinner, heq⟩ := Option.map_eq_some_iff.mp hlex
  obtain rfl := (List.cons.inj heq).2
  obtain ⟨front, rest, rfl, hrest, hscan⟩ :=
    Skips.intercalate (skips_members members) inner [.rightBrace] hinner
  obtain ⟨space, rfl, hspace⟩ := h.eq_concat (List.cons_append ..).symm hrest
  rw [objectDepth] at hdepth
  have hzero : (0 : Int32) = Int32.ofNat 0 := rfl
  rw [hzero, List.cons_append, objectEndAt_open,
    hscan (0 + 1) Nat.one_pos (by omega), List.append_assoc, objectEndAt_space hspace,
    List.singleton_append, objectEndAt_close, if_pos hzero.symm]
  congr 1
  simp only [List.length_cons, List.length_append, List.length_nil]
  omega

end Scan

/-- An object in an object, with a brace and an escaped quotation mark in its name. -/
def bracedObject : ByteString := App.text "\x7b \"\x7d\\\"\x7b\" : \x7b\"a\":[1,\x7b\x7d]\x7d\x7d"

def bracedMembers : List (List StringUnit × Tree) :=
  [([.byte 125, .byte 34, .byte 123],
    .object [([.byte 97], .array [.number ⟨false, [49], [], none⟩, .object []])])]

/-- Objects that stand one in the other. -/
def deepText : ℕ → ByteString
  | 0 => [123, 125]
  | n + 1 => [123, 34, 34, 58] ++ (deepText n ++ [125])

def deepMembers : ℕ → List (List StringUnit × Tree)
  | 0 => []
  | n + 1 => [([], .object (deepMembers n))]

theorem length_deepText (n : ℕ) : (deepText n).length = 5 * n + 2 := by
  induction n with
  | zero => rfl
  | succ n ih =>
    rw [deepText, List.length_append, List.length_append, ih]
    simp only [List.length_cons, List.length_nil]
    omega

theorem lex_deepText (n : ℕ) (rest : ByteString) :
    lex (deepText n ++ rest) =
      (lex rest).map ((Tree.object (deepMembers n)).tokens ++ ·) := by
  induction n generalizing rest with
  | zero =>
    have hopen : lexToken (123 :: 125 :: rest) = some (.leftBrace, 125 :: rest) := rfl
    have hclose : lexToken (125 :: rest) = some (.rightBrace, rest) := rfl
    rw [deepText, List.cons_append, List.cons_append, List.nil_append, lex_token hopen,
      lex_token hclose, Option.map_map]
    rfl
  | succ n ih =>
    have hopen : lexToken (123 :: 34 :: 34 :: 58 :: (deepText n ++ 125 :: rest)) =
      some (.leftBrace, 34 :: 34 :: 58 :: (deepText n ++ 125 :: rest)) := rfl
    have hname : lexToken (34 :: 34 :: 58 :: (deepText n ++ 125 :: rest)) =
      some (.string [], 58 :: (deepText n ++ 125 :: rest)) := rfl
    have hcolon : lexToken (58 :: (deepText n ++ 125 :: rest)) =
      some (.colon, deepText n ++ 125 :: rest) := rfl
    have hclose : lexToken (125 :: rest) = some (.rightBrace, rest) := rfl
    have htext : deepText (n + 1) ++ rest =
        123 :: 34 :: 34 :: 58 :: (deepText n ++ 125 :: rest) := by simp [deepText]
    rw [htext, lex_token hopen, lex_token hname, lex_token hcolon, ih, lex_token hclose]
    cases lex rest with
    | none => rfl
    | some tokens => simp [deepMembers, Tree.tokens, memberTokens]

theorem objectText_deepText (n : ℕ) : ObjectText (deepText n) (deepMembers n) where
  lex_eq := by
    have hlex := lex_deepText n []
    rw [List.append_nil, lex_nil] at hlex
    simpa using hlex
  head_eq := by cases n <;> rfl
  getLast_eq := by
    cases n with
    | zero => rfl
    | succ n => rw [deepText, ← List.append_assoc, List.getLast?_concat]

/-- The innermost object ends the scan, if the count of the braces before it is 0. -/
theorem objectEndAt_deepText {n : ℕ} {depth : Int32} (h : depth + Int32.ofNat n = 0) (i : ℕ)
    (rest : ByteString) :
    objectEndAt .plain depth i (deepText n ++ rest) = some (i + 4 * n + 1) := by
  induction n generalizing depth i rest with
  | zero =>
    have hdepth : depth + 1 - 1 = 0 := by
      rw [Int32.add_sub_cancel]
      have hzero : Int32.ofNat 0 = 0 := rfl
      rwa [hzero, Int32.add_zero] at h
    rw [deepText, List.cons_append, List.cons_append, objectEndAt, if_neg (by decide), if_pos rfl,
      objectEndAt, if_neg (by decide), if_neg (by decide), if_pos rfl, if_pos hdepth]
  | succ n ih =>
    have hdepth : depth + 1 + Int32.ofNat n = 0 := by
      rwa [← ofNat_succ, Int32.add_comm _ 1, ← Int32.add_assoc] at h
    have htext : deepText (n + 1) ++ rest =
        123 :: 34 :: 34 :: 58 :: (deepText n ++ 125 :: rest) := by simp [deepText]
    rw [htext, objectEndAt, if_neg (by decide), if_pos rfl, objectEndAt, if_pos rfl, objectEndAt,
      if_neg (by decide), if_pos rfl, objectEndAt, if_neg (by decide), if_neg (by decide),
      if_neg (by decide), ih hdepth]
    congr 1
    omega

end SmartDashboard.NT4
