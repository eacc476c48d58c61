import Mathlib.Data.List.TakeWhile
import Mathlib.Tactic.SplitIfs

/-!
# Text files

Files that are opened in text mode under Windows, and how they are read line by line. A line feed
stands in the file as a carriage return with a line feed, and a reader takes the first Ctrl-Z for
the end of the file.

## Main definitions

- `toFile`, `ofFile`: the bytes of a file and the text that is read from it
- `lines`: what `std::getline` reads until it fails
-/

namespace TextMode

def lineFeed : UInt8 := 10

def carriageReturn : UInt8 := 13

def controlZ : UInt8 := 26

def toFile (text : List UInt8) : List UInt8 :=
  text.flatMap fun b => if b = lineFeed then [carriageReturn, lineFeed] else [b]

def ofFile : List UInt8 → List UInt8
  | [] => []
  | b :: bytes =>
    if b = controlZ then []
    else if b = carriageReturn ∧ bytes.head? = some lineFeed then ofFile bytes
    else b :: ofFile bytes

/-- A line feed ends a line; what is left behind the last one is a line if it is not empty. -/
def lines (text : List UInt8) : List (List UInt8) :=
  let pieces := text.splitOn lineFeed
  if pieces.getLast? = some [] then pieces.dropLast else pieces

theorem toFile_cons (b : UInt8) (text : List UInt8) :
    toFile (b :: text) =
      (if b = lineFeed then [carriageReturn, lineFeed] else [b]) ++ toFile text :=
  List.flatMap_cons

/-- No text begins with a bare line feed in the file. -/
theorem head?_toFile_ne (text : List UInt8) : (toFile text).head? ≠ some lineFeed := by
  cases text with
  | nil => simp [toFile]
  | cons b text =>
    rw [toFile_cons]
    split_ifs with hfeed
    · simp [carriageReturn, lineFeed]
    · simpa using hfeed

/-- The text is read back up to its first Ctrl-Z. -/
theorem ofFile_toFile (text : List UInt8) :
    ofFile (toFile text) = text.takeWhile fun b => b ≠ controlZ := by
  induction text with
  | nil => rfl
  | cons b text ih =>
    rw [toFile_cons, List.takeWhile_cons]
    by_cases hfeed : b = lineFeed
    · subst hfeed
      rw [if_pos rfl, List.cons_append, List.cons_append, List.nil_append, ofFile,
        if_neg (by decide), if_pos ⟨rfl, rfl⟩, ofFile, if_neg (by decide),
        if_neg (by simp [carriageReturn, lineFeed]), ih]
      rfl
    · rw [if_neg hfeed, List.cons_append, List.nil_append, ofFile]
      by_cases hend : b = controlZ
      · rw [if_pos hend, if_neg (by simpa using hend)]
      · rw [if_neg hend, if_neg fun h => head?_toFile_ne text h.2, if_pos (by simpa using hend),
          ih]

/-- An empty line at the end of the text is not read, which a reader that skips empty lines cannot
tell. -/
theorem filter_lines {p : List UInt8 → Bool} (hempty : p [] = false) (text : List UInt8) :
    (lines text).filter p = (text.splitOn lineFeed).filter p := by
  rw [lines]
  split_ifs with hlast
  · obtain ⟨pieces, hpieces⟩ := List.getLast?_eq_some_iff.mp hlast
    rw [hpieces, List.dropLast_concat, List.filter_append, List.filter_cons_of_neg (by simpa),
      List.filter_nil, List.append_nil]
  · rfl

end TextMode
