import Mathlib.Data.List.Basic
import Mathlib.Tactic.SplitIfs

/-!
# Escaped fields

Fields of a line behind one another, a separator in between. A character that has a meaning of its
own is written with a mark in front of it. The characters between two separators are collected as
they stand and their marks are taken off at the end of the field.

Lines are ended by a newline that knows nothing of marks, so a field with a newline in it is cut.

## Main definitions

- `escape`, `unescape`: one field, and the way back
- `split`: the fields of a line
- `join`: the line of some fields
- `separators`: how many separators of a line end a field
-/

namespace EscapedFields

variable {α : Type*} (special : α → Bool) (mark separator : α)

def escape (input : List α) : List α :=
  input.flatMap fun c => if special c then [mark, c] else [c]

def join (fields : List (List α)) : List α :=
  [separator].intercalate (fields.map (escape special mark))

section Escape

variable {special mark separator}

theorem escape_cons_of_special {c : α} (h : special c = true) (input : List α) :
    escape special mark (c :: input) = mark :: c :: escape special mark input := by
  simp [escape, h]

theorem escape_cons_of_plain {c : α} (h : special c = false) (input : List α) :
    escape special mark (c :: input) = c :: escape special mark input := by
  simp [escape, h]

theorem escape_append (first second : List α) :
    escape special mark (first ++ second) =
      escape special mark first ++ escape special mark second :=
  List.flatMap_append

theorem escape_eq_self {input : List α} (h : ∀ c ∈ input, special c = false) :
    escape special mark input = input := by
  induction input with
  | nil => rfl
  | cons c input ih =>
    rw [List.forall_mem_cons] at h
    rw [escape_cons_of_plain h.1, ih h.2]

/-- Escaping adds no character but the mark. -/
theorem mem_escape {c : α} {input : List α} (hne : c ≠ mark) :
    c ∈ escape special mark input ↔ c ∈ input := by
  induction input with
  | nil => rfl
  | cons d input ih =>
    cases hspecial : special d
    · rw [escape_cons_of_plain hspecial, List.mem_cons, List.mem_cons, ih]
    · rw [escape_cons_of_special hspecial, List.mem_cons, List.mem_cons, List.mem_cons, ih,
        or_iff_right hne]

theorem join_cons (field : List α) {fields : List (List α)} (hne : fields ≠ []) :
    join special mark separator (field :: fields) =
      escape special mark field ++ separator :: join special mark separator fields := by
  obtain ⟨second, rest, rfl⟩ := List.exists_cons_of_ne_nil hne
  rw [join, join, List.map_cons, List.map_cons, List.intercalate_cons_cons]
  simp

@[simp] theorem join_singleton (field : List α) :
    join special mark separator [field] = escape special mark field := by
  simp [join]

/-- The line up to some place inside a field and the line from there on. -/
theorem join_append_cons (front : List (List α)) (first second : List α)
    (back : List (List α)) :
    join special mark separator (front ++ (first ++ second) :: back) =
      join special mark separator (front ++ [first]) ++
        join special mark separator (second :: back) := by
  induction front with
  | nil =>
    rcases eq_or_ne back [] with rfl | hback
    · simp [escape_append]
    · rw [List.nil_append, List.nil_append, join_cons _ hback, join_cons _ hback, join_singleton,
        escape_append, List.append_assoc]
  | cons field front ih =>
    rw [List.cons_append, List.cons_append, join_cons _ (by simp), join_cons _ (by simp), ih]
    simp

theorem join_cons_of_special {c : α} (h : special c = true) (field : List α)
    (fields : List (List α)) :
    join special mark separator ((c :: field) :: fields) =
      mark :: c :: join special mark separator (field :: fields) := by
  have hsplit : join special mark separator ([] ++ ([c] ++ field) :: fields) = _ :=
    join_append_cons [] [c] field fields
  rw [List.nil_append, List.nil_append, List.singleton_append, join_singleton,
    escape_cons_of_special h] at hsplit
  exact hsplit

theorem join_cons_of_plain {c : α} (h : special c = false) (field : List α)
    (fields : List (List α)) :
    join special mark separator ((c :: field) :: fields) =
      c :: join special mark separator (field :: fields) := by
  have hsplit : join special mark separator ([] ++ ([c] ++ field) :: fields) = _ :=
    join_append_cons [] [c] field fields
  rw [List.nil_append, List.nil_append, List.singleton_append, join_singleton,
    escape_cons_of_plain h] at hsplit
  exact hsplit

theorem mem_join {c : α} (hmark : c ≠ mark) (hseparator : c ≠ separator)
    {fields : List (List α)} :
    c ∈ join special mark separator fields ↔ ∃ field ∈ fields, c ∈ field := by
  induction fields with
  | nil => simp [join]
  | cons field fields ih =>
    rcases eq_or_ne fields [] with rfl | hfields
    · simp [mem_escape hmark]
    · rw [join_cons _ hfields, List.mem_append, List.mem_cons, or_iff_right hseparator, ih,
        mem_escape hmark]
      simp

end Escape

variable [DecidableEq α]

/-- The flag says whether the character in front was a mark. -/
def unescape : Bool → List α → List α
  | _, [] => []
  | true, c :: input => c :: unescape false input
  | false, c :: input => if c = mark then unescape true input else c :: unescape false input

/-- The fields from here on; `current` has the characters of the first one so far. -/
def split (current : List α) : Bool → List α → List (List α)
  | true, [] => [unescape mark false (current ++ [mark])]
  | false, [] => [unescape mark false current]
  | true, c :: input => split (current ++ [mark, c]) false input
  | false, c :: input =>
    if c = mark then split current true input
    else if c = separator then unescape mark false current :: split [] false input
    else split (current ++ [c]) false input

/-- The separators that have no mark in front. -/
def separators : Bool → List α → ℕ
  | _, [] => 0
  | true, _ :: input => separators false input
  | false, c :: input =>
    if c = mark then separators true input
    else if c = separator then separators false input + 1
    else separators false input

/-- Every `newline` has a mark in front. -/
def Marked (newline : α) : Bool → List α → Prop
  | _, [] => True
  | true, _ :: input => Marked newline false input
  | false, c :: input => c ≠ newline ∧ Marked newline (c = mark) input

variable {special mark separator}

section Mark

omit [DecidableEq α] in
theorem ne_of_plain {b c : α} (hb : special b = true) (hc : special c = false) : c ≠ b := by
  rintro rfl
  simp [hb] at hc

variable (hmark : special mark = true)
include hmark

theorem unescape_escape_append (input rest : List α) :
    unescape mark false (escape special mark input ++ rest) =
      input ++ unescape mark false rest := by
  induction input with
  | nil => rfl
  | cons c input ih =>
    cases hspecial : special c with
    | false =>
      -- A plain character is not the mark.
      have hne := ne_of_plain hmark hspecial
      rw [escape_cons_of_plain hspecial, List.cons_append, unescape, if_neg hne, ih]
      rfl
    | true =>
      rw [escape_cons_of_special hspecial, List.cons_append, unescape, if_pos rfl,
        List.cons_append, unescape, ih]
      rfl

theorem unescape_escape (input : List α) :
    unescape mark false (escape special mark input) = input := by
  have h := unescape_escape_append hmark input []
  rwa [List.append_nil, unescape, List.append_nil] at h

variable (hseparator : special separator = true)
include hseparator

/-- An escaped text is collected as it stands. -/
theorem split_escape_append (input rest : List α) (current : List α) :
    split mark separator current false (escape special mark input ++ rest) =
      split mark separator (current ++ escape special mark input) false rest := by
  induction input generalizing current with
  | nil => simp [escape]
  | cons c input ih =>
    cases hspecial : special c with
    | false =>
      have hne := ne_of_plain hmark hspecial
      have hne' := ne_of_plain hseparator hspecial
      rw [escape_cons_of_plain hspecial, List.cons_append, split, if_neg hne, if_neg hne', ih]
      simp
    | true =>
      rw [escape_cons_of_special hspecial, List.cons_append, split, if_pos rfl,
        List.cons_append, split, ih]
      simp

theorem separators_escape_append (input rest : List α) :
    separators mark separator false (escape special mark input ++ rest) =
      separators mark separator false rest := by
  induction input with
  | nil => rfl
  | cons c input ih =>
    cases hspecial : special c with
    | false =>
      have hne := ne_of_plain hmark hspecial
      have hne' := ne_of_plain hseparator hspecial
      rw [escape_cons_of_plain hspecial, List.cons_append, separators, if_neg hne, if_neg hne',
        ih]
    | true =>
      rw [escape_cons_of_special hspecial, List.cons_append, separators, if_pos rfl,
        List.cons_append, separators, ih]

variable (hne : separator ≠ mark)
include hne

/-- A line gives its fields back, also when the mark of a cut character is left at its end. -/
theorem split_join {fields : List (List α)} (hfields : fields ≠ []) :
    split mark separator [] false (join special mark separator fields) = fields ∧
      split mark separator [] false (join special mark separator fields ++ [mark]) = fields := by
  induction fields with
  | nil => exact absurd rfl hfields
  | cons field fields ih =>
    have hself : unescape mark false ([] ++ escape special mark field) = field := by
      rw [List.nil_append, unescape_escape hmark]
    cases fields with
    | nil =>
      rw [join_singleton]
      constructor
      · have h := split_escape_append hmark hseparator field [] []
        rw [List.append_nil] at h
        rw [h, split, hself]
      · rw [split_escape_append hmark hseparator, split, if_pos rfl, split,
          List.nil_append, unescape_escape_append hmark, unescape, if_pos rfl, unescape,
          List.append_nil]
    | cons second rest =>
      obtain ⟨hplain, hcut⟩ := ih (List.cons_ne_nil second rest)
      rw [join_cons _ (List.cons_ne_nil second rest), List.append_assoc, List.cons_append]
      constructor
      · rw [split_escape_append hmark hseparator, split, if_neg hne, if_pos rfl, hself, hplain]
      · rw [split_escape_append hmark hseparator, split, if_neg hne, if_pos rfl, hself, hcut]

theorem separators_join {fields : List (List α)} (hfields : fields ≠ []) :
    separators mark separator false (join special mark separator fields) + 1 =
      fields.length := by
  induction fields with
  | nil => exact absurd rfl hfields
  | cons field fields ih =>
    cases fields with
    | nil =>
      have h := separators_escape_append hmark hseparator field []
      rw [List.append_nil, separators] at h
      rw [join_singleton, h]
      rfl
    | cons second rest =>
      rw [join_cons _ (List.cons_ne_nil second rest), separators_escape_append hmark hseparator,
        separators, if_neg hne, if_pos rfl, ih (List.cons_ne_nil second rest)]
      rfl

end Mark

/-- One more field than separators. -/
theorem length_split (current : List α) (escaped : Bool) (input : List α) :
    (split mark separator current escaped input).length =
      separators mark separator escaped input + 1 := by
  fun_induction split mark separator current escaped input with
  | case1 => rfl
  | case2 => rfl
  | case3 current c input ih => rw [ih, separators]
  | case4 current input ih => rw [ih, separators, if_pos rfl]
  | case5 current input hne ih =>
    rw [List.length_cons, ih, separators, if_neg hne, if_pos rfl]
  | case6 current c input hne hne' ih => rw [ih, separators, if_neg hne, if_neg hne']

/-! ### Lines -/

section Lines

variable {newline : α}

theorem marked_escape_append (hmark : special mark = true) (hnewline : special newline = true)
    (hne : mark ≠ newline) (input rest : List α) :
    Marked mark newline false (escape special mark input ++ rest) ↔
      Marked mark newline false rest := by
  induction input with
  | nil => rfl
  | cons c input ih =>
    cases hspecial : special c with
    | false =>
      have hmark' : c ≠ mark := by
        rintro rfl
        simp [hmark] at hspecial
      have hnewline' : c ≠ newline := by
        rintro rfl
        simp [hnewline] at hspecial
      rw [escape_cons_of_plain hspecial, List.cons_append, Marked, and_iff_right hnewline',
        decide_eq_false hmark', ih]
    | true =>
      rw [escape_cons_of_special hspecial, List.cons_append, Marked, and_iff_right hne,
        decide_eq_true rfl, List.cons_append, Marked, ih]

theorem marked_join (hmark : special mark = true) (hnewline : special newline = true)
    (hne : mark ≠ newline) (hseparator : separator ≠ newline) (hseparator' : separator ≠ mark)
    (fields : List (List α)) :
    Marked mark newline false (join special mark separator fields) := by
  induction fields with
  | nil => exact trivial
  | cons field fields ih =>
    rcases eq_or_ne fields [] with rfl | hfields
    · have h := marked_escape_append hmark hnewline hne field []
      rw [List.append_nil] at h
      rw [join_singleton, h]
      exact trivial
    · rw [join_cons _ hfields, marked_escape_append hmark hnewline hne, Marked,
        and_iff_right hseparator, decide_eq_false hseparator']
      exact ih

/-- A newline that ends a line takes the mark in front of it with the line, so the next one starts
afresh and no line has more separators than the text. -/
theorem separators_of_splitOn (separator : α) {text : List α} {escaped : Bool}
    (hmarked : Marked mark newline escaped text) :
    ∃ first rest, text.splitOn newline = first :: rest ∧
      separators mark separator escaped first ≤ separators mark separator escaped text ∧
      ∀ line ∈ rest, separators mark separator false line ≤
        separators mark separator escaped text := by
  induction text generalizing escaped with
  | nil => exact ⟨[], [], List.splitOn_nil _, Nat.le_refl _, by simp⟩
  | cons c text ih =>
    -- What is counted for `c` is counted for the first line too.
    have hcount : ∃ count escaped', Marked mark newline escaped' text ∧
        ∀ input, separators mark separator escaped (c :: input) =
          separators mark separator escaped' input + count := by
      cases escaped with
      | true => exact ⟨0, false, hmarked, fun _ => rfl⟩
      | false =>
        by_cases hmark : c = mark
        · refine ⟨0, true, ?_, fun input => by rw [separators, if_pos hmark, Nat.add_zero]⟩
          rw [Marked, decide_eq_true hmark] at hmarked
          exact hmarked.2
        · rw [Marked, decide_eq_false hmark] at hmarked
          by_cases hseparator : c = separator
          · refine ⟨1, false, hmarked.2, fun input => ?_⟩
            rw [separators, if_neg hmark, if_pos hseparator]
          · refine ⟨0, false, hmarked.2, fun input => ?_⟩
            rw [separators, if_neg hmark, if_neg hseparator, Nat.add_zero]
    rw [List.splitOn_cons_eq_if_modifyHead]
    by_cases hnewline : c = newline
    · -- The newline has a mark in front.
      cases escaped with
      | false => exact absurd hnewline hmarked.1
      | true =>
        obtain ⟨first, rest, hsplit, hfirst, hrest⟩ := @ih false hmarked
        refine ⟨[], first :: rest, by rw [if_pos (by simpa using hnewline), hsplit],
          Nat.zero_le _, ?_⟩
        rw [List.forall_mem_cons]
        exact ⟨hfirst, hrest⟩
    · obtain ⟨count, escaped', hmarked', hcount⟩ := hcount
      obtain ⟨first, rest, hsplit, hfirst, hrest⟩ := ih hmarked'
      refine ⟨c :: first, rest, by rw [if_neg (by simpa using hnewline), hsplit]; rfl, ?_,
        fun line hline => ?_⟩
      · rw [hcount, hcount]
        omega
      · have hle := hrest line hline
        rw [hcount]
        omega

/-- No line of some joined fields has more fields than they are. -/
theorem length_split_le_of_mem_splitOn (hmark : special mark = true)
    (hnewline : special newline = true) (hspecial : special separator = true)
    (hne : mark ≠ newline) (hseparator : separator ≠ newline) (hseparator' : separator ≠ mark)
    {fields : List (List α)} (hfields : fields ≠ []) {line : List α}
    (hline : line ∈ (join special mark separator fields).splitOn newline) :
    (split mark separator [] false line).length ≤ fields.length := by
  obtain ⟨first, rest, hsplit, hfirst, hrest⟩ := separators_of_splitOn separator
    (marked_join hmark hnewline hne hseparator hseparator' fields)
  rw [hsplit, List.mem_cons] at hline
  have hjoin := separators_join hmark hspecial hseparator' hfields
  rw [length_split, ← hjoin]
  rcases hline with rfl | hline
  · exact Nat.succ_le_succ hfirst
  · exact Nat.succ_le_succ (hrest line hline)

end Lines

end EscapedFields
