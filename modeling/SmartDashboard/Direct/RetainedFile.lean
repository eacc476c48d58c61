import SmartDashboard.Direct.RetainedStore
import SmartDashboard.Library.Decimal
import SmartDashboard.Library.EscapedFields
import SmartDashboard.Library.TextMode

/-!
# The file of the retained store

`PersistLocked` writes the occupied entries into a text file, a line each, and `LoadLocked` fills
an empty table from it. The fields of a line are its type, its numbers, its key and its value.

How a `double` is printed and read is a parameter. A number that cannot be read throws, and then
nothing is loaded.

## Main definitions

- `escape`, `unescape`, `splitEscaped`: the scanners
- `persistLocked`, `loadLocked`: the table as a file
- `survivors`: the entries that come back from the file
- `OnOneLine`: the entries that come back as they were
-/

namespace SmartDashboard.Direct

open Decimal (decimal decimalValue IsDigit)
open TextMode (lineFeed carriageReturn controlZ)

/-! ### The scanners -/

def fieldSeparator : UInt8 := 0x7C

def escapeMark : UInt8 := 0x5C

def needsEscape (c : UInt8) : Bool :=
  c = escapeMark ∨ c = fieldSeparator ∨ c = lineFeed ∨ c = carriageReturn

def escape (input : ByteString) : ByteString := EscapedFields.escape needsEscape escapeMark input

def unescape (input : ByteString) : ByteString := EscapedFields.unescape escapeMark false input

def splitEscaped (input : ByteString) : List ByteString :=
  EscapedFields.split escapeMark fieldSeparator [] false input

/-- The white space of `std::isspace`. -/
def isBlank (b : UInt8) : Bool := b = 32 ∨ (9 ≤ b ∧ b ≤ 13)

/-- Whether there is a minus sign, and what comes behind the sign. -/
def takeSign : ByteString → Bool × ByteString
  | 45 :: rest => (true, rest)
  | 43 :: rest => (false, rest)
  | rest => (false, rest)

/-- The sign and the digits in front of a text, of which there has to be one. -/
def leadingInteger (text : ByteString) : Option ℤ :=
  let (negative, rest) := takeSign (text.dropWhile isBlank)
  let digits := rest.takeWhile fun b => IsDigit b
  if digits = [] then none
  else some (if negative then -decimalValue digits else decimalValue digits)

/-- `std::stoi`, or nothing if it throws. -/
def stoi (text : ByteString) : Option ℤ :=
  (leadingInteger text).filter fun n => -2 ^ 31 ≤ n ∧ n < 2 ^ 31

/-- `std::stoull`, or nothing if it throws. A negative number is taken modulo the range. -/
def stoull (text : ByteString) : Option UInt64 :=
  ((leadingInteger text).filter fun n => n.natAbs < 2 ^ 64).map UInt64.ofInt

/-- `operator<<` with `max_digits10` digits, and `std::stod`, which may throw. -/
structure DoubleText where
  format : DoubleBits → ByteString
  parse : ByteString → Option DoubleBits

/-! ### Writing and reading the table -/

namespace RetainedEntry

/-- The value as a record has it. -/
def valueText (doubles : DoubleText) (entry : RetainedEntry) : ByteString :=
  if entry.type = toWireType .bool then if entry.boolValue then [0x31] else [0x30]
  else if entry.type = toWireType .double then doubles.format entry.doubleValue
  else if entry.type = toWireType .stringArray then escape (cString entry.stringArrayValue)
  else escape (cString entry.stringValue)

/-- The line of an entry. -/
def record (doubles : DoubleText) (entry : RetainedEntry) : ByteString :=
  decimal entry.type.toNat ++ fieldSeparator :: (decimal entry.seq.toNat ++
    fieldSeparator :: (decimal entry.sourceTimestampUs.toNat ++
      fieldSeparator :: (escape (cString entry.key) ++
        fieldSeparator :: entry.valueText doubles)))

/-- The entry of the five fields of a line. -/
def ofFields (doubles : DoubleText)
    (typeText seqText timestampText keyText valueText : ByteString) : Option RetainedEntry := do
  let type := UInt8.ofInt (← stoi typeText)
  let entry : RetainedEntry :=
    { occupied := true
      type := type
      seq := ← stoull seqText
      sourceTimestampUs := ← stoull timestampText
      key := keyText.take kMaxKeyBytes }
  if type = toWireType .bool then return { entry with boolValue := valueText = [0x31] }
  else if type = toWireType .double then
    return { entry with doubleValue := ← doubles.parse valueText }
  else if type = toWireType .stringArray then
    return { entry with stringArrayValue := valueText.take kMaxStringBytes }
  else return { entry with stringValue := valueText.take kMaxStringBytes }

end RetainedEntry

/-- The loop over the lines, with room for so many entries. -/
def loadLines (doubles : DoubleText) : ℕ → List ByteString → Option (List RetainedEntry)
  | _, [] => some []
  | 0, _ => some []
  | room + 1, line :: lines =>
    match splitEscaped line with
    | [type, seq, timestamp, key, value] => do
      let entry ← RetainedEntry.ofFields doubles type seq timestamp key value
      return entry :: (← loadLines doubles room lines)
    | _ => loadLines doubles (room + 1) lines

/-- The text of the entries. -/
def recordsText (doubles : DoubleText) (entries : List RetainedEntry) : ByteString :=
  entries.flatMap fun entry => entry.record doubles ++ [lineFeed]

theorem RetainedEntry.key_ofFields {doubles : DoubleText}
    {type seq timestamp key value : ByteString} {entry : RetainedEntry}
    (h : ofFields doubles type seq timestamp key value = some entry) :
    entry.key = key.take kMaxKeyBytes := by
  simp only [ofFields, Option.bind_eq_bind, Option.bind_eq_some_iff, Option.pure_def] at h
  obtain ⟨n, -, s, -, t, -, h⟩ := h
  split_ifs at h
  · cases h
    rfl
  · obtain ⟨d, -, h⟩ := Option.bind_eq_some_iff.mp h
    cases h
    rfl
  · cases h
    rfl
  · cases h
    rfl

/-- There is room for what is loaded, and for its keys in their arrays. -/
theorem loadLines_fits {doubles : DoubleText} {room : ℕ} {lines : List ByteString}
    {entries : List RetainedEntry} (h : loadLines doubles room lines = some entries) :
    entries.length ≤ room ∧ ∀ entry ∈ entries, entry.key.length ≤ kMaxKeyBytes := by
  fun_induction loadLines doubles room lines generalizing entries with
  | case1 room => 
    cases h
    simp
  | case2 lines =>
    cases h
    simp
  | case3 room line lines type seq timestamp key value hsplit ih =>
    simp only [Option.bind_eq_bind, Option.bind_eq_some_iff, Option.pure_def,
      Option.some.injEq] at h
    obtain ⟨entry, hentry, rest, hrest, rfl⟩ := h
    obtain ⟨hlength, hkeys⟩ := ih hrest
    refine ⟨Nat.succ_le_succ hlength, ?_⟩
    rw [List.forall_mem_cons]
    refine ⟨?_, hkeys⟩
    rw [RetainedEntry.key_ofFields hentry]
    exact List.length_take_le _ _
  | case4 room line lines hsplit ih => exact ih h

namespace RetainedStore

/-- The file that is written, with the text mode of the stream. -/
def persistLocked (doubles : DoubleText) (store : RetainedStore) : ByteString :=
  TextMode.toFile (recordsText doubles (store.entries.filter fun entry => entry.occupied))

/-- The table with what was loaded; the entries that no line fills are cleared. -/
def withLoaded (store : RetainedStore) (loaded : List RetainedEntry)
    (h : loaded.length ≤ store.entries.length ∧
      ∀ entry ∈ loaded, entry.key.length ≤ kMaxKeyBytes) : RetainedStore where
  entries := loaded ++ List.replicate (store.entries.length - loaded.length) {}
  entries_ne_nil := by
    rw [← List.length_pos_iff, List.length_append, List.length_replicate]
    have hpos := List.length_pos_iff.mpr store.entries_ne_nil
    omega
  key_fits entry hentry := by
    rcases List.mem_append.mp hentry with hentry | hentry
    · exact h.2 entry hentry
    · rw [List.eq_of_mem_replicate hentry]
      exact Nat.zero_le _

def loadLocked (doubles : DoubleText) (store : RetainedStore) (file : ByteString) :
    Option RetainedStore :=
  (loadLines doubles store.entries.length (TextMode.lines (TextMode.ofFile file))).pmap
    store.withLoaded fun _ h => loadLines_fits h

end RetainedStore

/-! ### Fields -/

/-- The text of the double is read as some double, and nothing in it has to be escaped. -/
def DoubleText.Legible (doubles : DoubleText) (value : DoubleBits) : Prop :=
  (doubles.parse (doubles.format value)).isSome = true ∧
    ∀ b ∈ doubles.format value, needsEscape b = false ∧ b ≠ controlZ

/-- The double is read back from its text. -/
def DoubleText.Survives (doubles : DoubleText) (value : DoubleBits) : Prop :=
  doubles.Legible value ∧ doubles.parse (doubles.format value) = some value

instance (doubles : DoubleText) : DecidablePred doubles.Legible :=
  fun value => inferInstanceAs (Decidable (_ ∧ ∀ b ∈ doubles.format value, _))

instance (doubles : DoubleText) : DecidablePred doubles.Survives :=
  fun _ => inferInstanceAs (Decidable (_ ∧ _))

namespace RetainedEntry

/-- What the text fields of the entry hold, of which it uses at most one. -/
def shown (entry : RetainedEntry) : ByteString := entry.stringValue ++ entry.stringArrayValue

/-- An occupied entry whose texts have no NUL; what its type does not use is cleared. -/
structure AsWritten (entry : RetainedEntry) : Prop where
  occupied : entry.occupied = true
  key : FitsArray kMaxKeyBytes entry.key
  stringValue : FitsArray kMaxStringBytes entry.stringValue
  stringArrayValue : FitsArray kMaxStringBytes entry.stringArrayValue
  boolValue_eq : entry.type ≠ toWireType .bool → entry.boolValue = false
  doubleValue_eq : entry.type ≠ toWireType .double → entry.doubleValue = 0
  stringValue_eq : entry.type = toWireType .bool ∨ entry.type = toWireType .double ∨
    entry.type = toWireType .stringArray → entry.stringValue = []
  stringArrayValue_eq : entry.type ≠ toWireType .stringArray → entry.stringArrayValue = []

instance : DecidablePred AsWritten := fun entry =>
  decidable_of_iff
    (entry.occupied = true ∧ FitsArray kMaxKeyBytes entry.key ∧
      FitsArray kMaxStringBytes entry.stringValue ∧
      FitsArray kMaxStringBytes entry.stringArrayValue ∧
      (entry.type ≠ toWireType .bool → entry.boolValue = false) ∧
      (entry.type ≠ toWireType .double → entry.doubleValue = 0) ∧
      (entry.type = toWireType .bool ∨ entry.type = toWireType .double ∨
        entry.type = toWireType .stringArray → entry.stringValue = []) ∧
      (entry.type ≠ toWireType .stringArray → entry.stringArrayValue = []))
    ⟨fun ⟨h₁, h₂, h₃, h₄, h₅, h₆, h₇, h₈⟩ => ⟨h₁, h₂, h₃, h₄, h₅, h₆, h₇, h₈⟩,
      fun ⟨h₁, h₂, h₃, h₄, h₅, h₆, h₇, h₈⟩ => ⟨h₁, h₂, h₃, h₄, h₅, h₆, h₇, h₈⟩⟩

/-- The entry with its text up to the first `b`. -/
def cutAt (b : UInt8) (entry : RetainedEntry) : RetainedEntry :=
  { entry with
    stringValue := entry.stringValue.takeWhile fun c => c ≠ b
    stringArrayValue := entry.stringArrayValue.takeWhile fun c => c ≠ b }

/-- The value of a record before it is escaped. -/
def valueField (doubles : DoubleText) (entry : RetainedEntry) : ByteString :=
  if entry.type = toWireType .bool then if entry.boolValue then [0x31] else [0x30]
  else if entry.type = toWireType .double then doubles.format entry.doubleValue
  else entry.shown

/-- The entry with the double that is read from its text. -/
def reread (doubles : DoubleText) (entry : RetainedEntry) : RetainedEntry :=
  if entry.type = toWireType .double then
    { entry with doubleValue := (doubles.parse (doubles.format entry.doubleValue)).getD 0 }
  else entry

def numberFields (entry : RetainedEntry) : List ByteString :=
  [decimal entry.type.toNat, decimal entry.seq.toNat, decimal entry.sourceTimestampUs.toNat]

def fields (doubles : DoubleText) (entry : RetainedEntry) : List ByteString :=
  entry.numberFields ++ [entry.key, entry.valueField doubles]

end RetainedEntry

/-- A digit is none of the characters that have a meaning in the file. -/
theorem needsEscape_of_isDigit {b : UInt8} (h : IsDigit b) :
    needsEscape b = false ∧ b ≠ controlZ := by
  have h48 : ∀ c : UInt8, c < 48 → b ≠ c := by
    rintro c hc rfl
    exact absurd (UInt8.lt_of_lt_of_le hc h.1) (UInt8.lt_irrefl _)
  have h57 : ∀ c : UInt8, 57 < c → b ≠ c := by
    rintro c hc rfl
    exact absurd (UInt8.lt_of_lt_of_le hc h.2) (UInt8.lt_irrefl _)
  refine ⟨?_, h48 _ (by decide)⟩
  rw [needsEscape, decide_eq_false_iff_not]
  rintro (heq | heq | heq | heq)
  · exact h57 _ (by decide) heq
  · exact h57 _ (by decide) heq
  · exact h48 _ (by decide) heq
  · exact h48 _ (by decide) heq

theorem escape_decimal (n : ℕ) :
    EscapedFields.escape needsEscape escapeMark (decimal n) = decimal n :=
  EscapedFields.escape_eq_self fun _ hb =>
    (needsEscape_of_isDigit (Decimal.isDigit_of_mem_decimal hb)).1

theorem leadingInteger_decimal (n : ℕ) : leadingInteger (decimal n) = some (n : ℤ) := by
  obtain ⟨first, rest, hcons, -⟩ := Decimal.exists_decimal_eq_cons n
  have hdigit : IsDigit first :=
    Decimal.isDigit_of_mem_decimal (n := n) (hcons ▸ List.mem_cons_self)
  -- The first digit is neither white space nor a sign.
  have hblank : (decimal n).dropWhile isBlank = decimal n := by
    rw [hcons, List.dropWhile_cons_of_neg]
    rw [isBlank, decide_eq_true_eq]
    rintro (rfl | ⟨-, hle⟩)
    · exact absurd hdigit (by decide)
    · exact absurd (UInt8.le_trans hdigit.1 hle) (by decide)
  have hdigits : ((decimal n).takeWhile fun b => IsDigit b) = decimal n := by
    rw [List.takeWhile_eq_self_iff]
    intro b hb
    simpa using Decimal.isDigit_of_mem_decimal hb
  have hsign : takeSign (decimal n) = (false, decimal n) := by
    unfold takeSign
    split
    · next heq =>
      rw [hcons, List.cons.injEq] at heq
      exact absurd (heq.1 ▸ hdigit) (by decide)
    · next heq =>
      rw [hcons, List.cons.injEq] at heq
      exact absurd (heq.1 ▸ hdigit) (by decide)
    · rfl
  rw [leadingInteger, hblank, hsign]
  dsimp only
  rw [hdigits, if_neg (Decimal.decimal_ne_nil n), Decimal.decimalValue_decimal,
    if_neg Bool.false_ne_true]

theorem stoi_decimal (type : UInt8) : stoi (decimal type.toNat) = some (type.toNat : ℤ) := by
  have hlt := type.toNat_lt
  rw [stoi, leadingInteger_decimal, Option.filter_some, if_pos]
  rw [decide_eq_true_eq]
  omega

theorem stoull_decimal (n : UInt64) : stoull (decimal n.toNat) = some n := by
  have hlt := n.toNat_lt
  have hmod : ((n.toNat : ℤ) % 2 ^ 64).toNat = n.toNat := by omega
  rw [stoull, leadingInteger_decimal, Option.filter_some, if_pos]
  · rw [Option.map_some, UInt64.ofInt, hmod, UInt64.ofNat_toNat]
  · rw [decide_eq_true_eq]
    omega

namespace RetainedEntry

variable {doubles : DoubleText} {entry : RetainedEntry}

@[simp] theorem occupied_reread (doubles : DoubleText) (entry : RetainedEntry) :
    (entry.reread doubles).occupied = entry.occupied := by
  unfold reread
  split_ifs <;> rfl

@[simp] theorem key_reread (doubles : DoubleText) (entry : RetainedEntry) :
    (entry.reread doubles).key = entry.key := by
  unfold reread
  split_ifs <;> rfl

theorem reread_eq_self
    (h : entry.type = toWireType .double → doubles.Survives entry.doubleValue) :
    entry.reread doubles = entry := by
  unfold reread
  split_ifs with hdouble
  · rw [(h hdouble).2]
    rfl
  · rfl

theorem AsWritten.shown_eq (h : entry.AsWritten) :
    entry.shown =
      if entry.type = toWireType .stringArray then entry.stringArrayValue
      else entry.stringValue := by
  rw [shown]
  split_ifs with harray
  · rw [h.stringValue_eq (.inr (.inr harray)), List.nil_append]
  · rw [h.stringArrayValue_eq harray, List.append_nil]

/-- Numbers and truth values have no text. -/
theorem AsWritten.shown_eq_nil (h : entry.AsWritten)
    (htype : entry.type = toWireType .bool ∨ entry.type = toWireType .double) :
    entry.shown = [] := by
  have harray : entry.type ≠ toWireType .stringArray := by
    rcases htype with htype | htype <;> rw [htype] <;> decide
  rw [h.shown_eq, if_neg harray]
  exact h.stringValue_eq (or_assoc.mp (.inl htype))

/-- The line of an entry is its fields, each of them escaped. -/
theorem AsWritten.record_eq (h : entry.AsWritten)
    (hdouble : entry.type = toWireType .double → doubles.Legible entry.doubleValue) :
    entry.record doubles =
      EscapedFields.join needsEscape escapeMark fieldSeparator (entry.fields doubles) := by
  have hvalue : entry.valueText doubles =
      EscapedFields.escape needsEscape escapeMark (entry.valueField doubles) := by
    rw [valueText, valueField]
    split_ifs with hbool htrue hdouble' harray
    · rfl
    · rfl
    · exact (EscapedFields.escape_eq_self fun b hb => ((hdouble hdouble').2 b hb).1).symm
    · rw [cString_eq_self_iff.mpr h.stringArrayValue.2, h.shown_eq, if_pos harray]
      rfl
    · rw [cString_eq_self_iff.mpr h.stringValue.2, h.shown_eq, if_neg harray]
      rfl
  rw [record, fields, numberFields, List.cons_append, List.cons_append, List.cons_append,
    List.nil_append, EscapedFields.join_cons _ (by simp), EscapedFields.join_cons _ (by simp),
    EscapedFields.join_cons _ (by simp), EscapedFields.join_cons _ (by simp),
    EscapedFields.join_singleton, escape_decimal, escape_decimal, escape_decimal, hvalue,
    cString_eq_self_iff.mpr h.key.2]
  rfl

/-- The fields of an entry are read as the entry, but for the rounding of its double. -/
theorem AsWritten.ofFields_fields (h : entry.AsWritten)
    (hdouble : entry.type = toWireType .double → doubles.Legible entry.doubleValue) :
    ofFields doubles (decimal entry.type.toNat) (decimal entry.seq.toNat)
      (decimal entry.sourceTimestampUs.toNat) entry.key (entry.valueField doubles) =
        some (entry.reread doubles) := by
  have htype : UInt8.ofInt (entry.type.toNat : ℤ) = entry.type := by
    have hlt := entry.type.toNat_lt
    have hmod : ((entry.type.toNat : ℤ) % 2 ^ 8).toNat = entry.type.toNat := by omega
    rw [UInt8.ofInt, hmod, UInt8.ofNat_toNat]
  rw [valueField, h.shown_eq, reread]
  obtain ⟨hoccupied, hkey, hstring, harray, hbool_eq, hdouble_eq, hstring_eq, harray_eq⟩ := h
  rw [ofFields, stoi_decimal, stoull_decimal, stoull_decimal]
  simp only [Option.bind_eq_bind, Option.bind_some, Option.pure_def, htype,
    List.take_of_length_le hkey.1]
  obtain ⟨occupied, type, seq, sourceTimestampUs, key, boolValue, doubleValue, stringValue,
    stringArrayValue⟩ := entry
  dsimp only at hoccupied hbool_eq hdouble_eq hstring_eq harray_eq hstring harray ⊢
  subst hoccupied
  by_cases hbool : type = toWireType .bool
  · have hdouble' : type ≠ toWireType .double := by rw [hbool]; decide
    have harray' : type ≠ toWireType .stringArray := by rw [hbool]; decide
    rw [if_pos hbool, if_pos hbool, if_neg hdouble', hdouble_eq hdouble',
      hstring_eq (.inl hbool), harray_eq harray']
    cases boolValue <;> rfl
  rw [if_neg hbool, if_neg hbool, hbool_eq hbool]
  by_cases hdouble' : type = toWireType .double
  · have harray' : type ≠ toWireType .stringArray := by rw [hdouble']; decide
    obtain ⟨value, hvalue⟩ := Option.isSome_iff_exists.mp (hdouble hdouble').1
    dsimp only at hvalue
    rw [if_pos hdouble', if_pos hdouble', if_pos hdouble', hvalue,
      hstring_eq (.inr (.inl hdouble')), harray_eq harray']
    rfl
  rw [if_neg hdouble', if_neg hdouble', if_neg hdouble', hdouble_eq hdouble']
  by_cases harray' : type = toWireType .stringArray
  · rw [if_pos harray', if_pos harray', List.take_of_length_le harray.1,
      hstring_eq (.inr (.inr harray'))]
  · rw [if_neg harray', if_neg harray', List.take_of_length_le hstring.1, harray_eq harray']

/-! ### What comes back -/

theorem AsWritten.cutAt (h : entry.AsWritten) (b : UInt8) : (entry.cutAt b).AsWritten := by
  have hfits : ∀ {text : ByteString}, FitsArray kMaxStringBytes text →
      FitsArray kMaxStringBytes (text.takeWhile fun c => c ≠ b) := by
    rintro text ⟨hlength, hzero⟩
    have hprefix := List.takeWhile_prefix (l := text) fun c => c ≠ b
    exact ⟨le_trans (List.IsPrefix.length_le hprefix) hlength,
      fun hmem => hzero (List.IsPrefix.subset hprefix hmem)⟩
  refine ⟨h.occupied, h.key, hfits h.stringValue, hfits h.stringArrayValue, h.boolValue_eq,
    h.doubleValue_eq, fun htype => ?_, fun htype => ?_⟩
  · rw [RetainedEntry.cutAt, h.stringValue_eq htype]
    rfl
  · rw [RetainedEntry.cutAt, h.stringArrayValue_eq htype]
    rfl

theorem AsWritten.reread (h : entry.AsWritten) (doubles : DoubleText) :
    (entry.reread doubles).AsWritten := by
  unfold RetainedEntry.reread
  split_ifs with hdouble
  · exact ⟨h.occupied, h.key, h.stringValue, h.stringArrayValue, h.boolValue_eq,
      fun hne => absurd hdouble hne, h.stringValue_eq, h.stringArrayValue_eq⟩
  · exact h

/-- What the text says up to the first `b` is the whole of the text that was cut there. -/
theorem AsWritten.shown_cutAt (h : entry.AsWritten) (b : UInt8) :
    (entry.cutAt b).shown = entry.shown.takeWhile fun c => c ≠ b := by
  rw [(h.cutAt b).shown_eq, h.shown_eq]
  exact (apply_ite (fun text : ByteString => text.takeWhile fun c => c ≠ b) _ _ _).symm

theorem AsWritten.cutAt_eq_self_iff (h : entry.AsWritten) (b : UInt8) :
    entry.cutAt b = entry ↔ b ∉ entry.shown := by
  constructor
  · intro hself hmem
    rw [← hself, h.shown_cutAt] at hmem
    have hne := List.mem_takeWhile_imp hmem
    simp at hne
  · intro hmem
    have hwhole : ∀ {text : ByteString}, (∀ c ∈ text, c ∈ entry.shown) →
        (text.takeWhile fun c => c ≠ b) = text := by
      intro text hsubset
      rw [List.takeWhile_eq_self_iff]
      intro c hc
      simpa using fun heq : c = b => hmem (heq ▸ hsubset c hc)
    rw [RetainedEntry.cutAt, hwhole fun c hc => List.mem_append_left _ hc,
      hwhole fun c hc => List.mem_append_right _ hc]

/-- Only in a text is there a character at which it is cut. -/
theorem AsWritten.valueField_cutAt (h : entry.AsWritten)
    (hdouble : entry.type = toWireType .double → doubles.Legible entry.doubleValue)
    {b : UInt8} (hb : b = lineFeed ∨ b = controlZ) :
    (entry.cutAt b).valueField doubles = (entry.valueField doubles).takeWhile (fun c => c ≠ b) ∧
      (b ∈ entry.valueField doubles ↔ b ∈ entry.shown) := by
  have hwhole : ∀ {text : ByteString}, b ∉ text →
      text = (text.takeWhile fun c => c ≠ b) := by
    intro text hmem
    rw [eq_comm, List.takeWhile_eq_self_iff]
    intro c hc
    simpa using fun heq : c = b => hmem (heq ▸ hc)
  have hcut : (entry.cutAt b).valueField doubles =
      if entry.type = toWireType .bool then if entry.boolValue then [0x31] else [0x30]
      else if entry.type = toWireType .double then doubles.format entry.doubleValue
      else (entry.cutAt b).shown := rfl
  rw [hcut, valueField]
  by_cases hbool : entry.type = toWireType .bool
  · have hmem : b ∉ (if entry.boolValue = true then [0x31] else [0x30] : ByteString) := by
      rcases hb with rfl | rfl <;> split_ifs <;> decide
    rw [if_pos hbool, if_pos hbool, h.shown_eq_nil (.inl hbool)]
    exact ⟨hwhole hmem, iff_of_false hmem (by simp)⟩
  by_cases hdouble' : entry.type = toWireType .double
  · have hmem : b ∉ doubles.format entry.doubleValue := by
      intro hmem
      obtain ⟨hescape, hend⟩ := (hdouble hdouble').2 b hmem
      rcases hb with rfl | rfl
      · exact absurd hescape (by decide)
      · exact hend rfl
    rw [if_neg hbool, if_neg hbool, if_pos hdouble', if_pos hdouble',
      h.shown_eq_nil (.inr hdouble')]
    exact ⟨hwhole hmem, iff_of_false hmem (by simp)⟩
  rw [if_neg hbool, if_neg hbool, if_neg hdouble', if_neg hdouble']
  exact ⟨h.shown_cutAt b, Iff.rfl⟩

/-- A line feed in the key breaks the line before it has all its fields, and one in the text ends
the line too early. -/
def survivor (entry : RetainedEntry) : Option RetainedEntry :=
  if lineFeed ∈ entry.key then none else some (entry.cutAt lineFeed)

/-- The entries that come back, of which nothing behind a Ctrl-Z is read. -/
def survivors : List RetainedEntry → List RetainedEntry
  | [] => []
  | entry :: rest =>
    if controlZ ∈ entry.key then []
    else if controlZ ∈ entry.shown then (survivor (entry.cutAt controlZ)).toList
    else (survivor entry).toList ++ survivors rest

/-- The entry is a line of its own. -/
def OnOneLine (entry : RetainedEntry) : Prop :=
  ∀ b ∈ entry.key ++ entry.shown, b ≠ lineFeed ∧ b ≠ controlZ

instance : DecidablePred OnOneLine :=
  fun entry => inferInstanceAs (Decidable (∀ b ∈ entry.key ++ entry.shown, _))

/-- An entry whose line can be read. -/
def Readable (doubles : DoubleText) (entry : RetainedEntry) : Prop :=
  entry.AsWritten ∧ (entry.type = toWireType .double → doubles.Legible entry.doubleValue)

instance (doubles : DoubleText) : DecidablePred (Readable doubles) :=
  fun _ => inferInstanceAs (Decidable (_ ∧ _))

theorem Readable.cutAt (h : entry.Readable doubles) (b : UInt8) :
    (entry.cutAt b).Readable doubles :=
  ⟨h.1.cutAt b, h.2⟩

end RetainedEntry

/-! ### Lines -/

/-- The lines that `LoadLocked` does not skip. -/
def recordFields (text : ByteString) : List (List ByteString) :=
  ((text.splitOn lineFeed).map splitEscaped).filter fun fields => fields.length = 5

theorem recordFields_append (text rest : ByteString) :
    recordFields (text ++ lineFeed :: rest) = recordFields text ++ recordFields rest := by
  rw [recordFields, List.splitOn_append_cons_self, List.map_append, List.filter_append]
  rfl

/-- A line without a line feed, whether or not something was cut off behind its last mark. -/
theorem recordFields_line {fields : List ByteString} (hne : fields ≠ [])
    (hfeed : ∀ field ∈ fields, lineFeed ∉ field) :
    recordFields (EscapedFields.join needsEscape escapeMark fieldSeparator fields) =
        [fields].filter (fun fields => fields.length = 5) ∧
      recordFields
          (EscapedFields.join needsEscape escapeMark fieldSeparator fields ++ [escapeMark]) =
        [fields].filter (fun fields => fields.length = 5) := by
  have hjoin : lineFeed ∉ EscapedFields.join needsEscape escapeMark fieldSeparator fields := by
    rw [EscapedFields.mem_join (by decide) (by decide)]
    rintro ⟨field, hfield, hmem⟩
    exact hfeed field hfield hmem
  have hcut : lineFeed ∉
      EscapedFields.join needsEscape escapeMark fieldSeparator fields ++ [escapeMark] := by
    rw [List.mem_append, not_or]
    exact ⟨hjoin, by decide⟩
  have hspecial : needsEscape escapeMark = true ∧ needsEscape fieldSeparator = true := ⟨rfl, rfl⟩
  obtain ⟨hplain, hmark⟩ := EscapedFields.split_join hspecial.1 hspecial.2 (by decide) hne
  constructor
  · rw [recordFields, List.splitOn_eq_singleton hjoin, List.map_singleton, splitEscaped, hplain]
  · rw [recordFields, List.splitOn_eq_singleton hcut, List.map_singleton, splitEscaped, hmark]

theorem recordFields_eq_nil {fields : List ByteString} (hne : fields ≠ [])
    (hlength : fields.length < 5) :
    recordFields (EscapedFields.join needsEscape escapeMark fieldSeparator fields) = [] := by
  rw [recordFields, List.filter_eq_nil_iff]
  intro split hsplit
  obtain ⟨line, hline, rfl⟩ := List.mem_map.mp hsplit
  have hspecial : needsEscape escapeMark = true := rfl
  have hle : (splitEscaped line).length ≤ fields.length :=
    EscapedFields.length_split_le_of_mem_splitOn hspecial rfl rfl (by decide) (by decide)
      (by decide) hne hline
  rw [decide_eq_true_eq]
  omega

/-- The first line feed ends the line, and the rest is read as if it were a line of its own. -/
theorem recordFields_join_cut {front : List ByteString} {first : ByteString}
    (hfeed : ∀ field ∈ front ++ [first], lineFeed ∉ field) (second : ByteString)
    (back : List ByteString) :
    recordFields (EscapedFields.join needsEscape escapeMark fieldSeparator
        (front ++ (first ++ lineFeed :: second) :: back)) =
      [front ++ [first]].filter (fun fields => fields.length = 5) ++
        recordFields (EscapedFields.join needsEscape escapeMark fieldSeparator
          (second :: back)) := by
  rw [EscapedFields.join_append_cons, EscapedFields.join_cons_of_special rfl,
    List.append_cons (EscapedFields.join ..) escapeMark, recordFields_append,
    (recordFields_line (by simp) hfeed).2]

namespace RetainedEntry

variable {doubles : DoubleText} {entry : RetainedEntry}

theorem notMem_numberFields (entry : RetainedEntry) {b : UInt8}
    (hb : b = lineFeed ∨ b = controlZ) : ∀ field ∈ entry.numberFields, b ∉ field := by
  have hdecimal : ∀ n, b ∉ decimal n := by
    intro n hmem
    have hdigit := Decimal.isDigit_of_mem_decimal hmem
    rcases hb with rfl | rfl <;> exact absurd hdigit (by decide)
  intro field hfield
  simp only [numberFields, List.mem_cons, List.not_mem_nil, or_false] at hfield
  rcases hfield with rfl | rfl | rfl <;> exact hdecimal _

theorem takeWhile_of_notMem {b : UInt8} {first : ByteString} (hfirst : b ∉ first)
    (second : ByteString) : (first ++ b :: second).takeWhile (fun c => c ≠ b) = first := by
  rw [List.takeWhile_append_of_pos, List.takeWhile_cons_of_neg (by simp), List.append_nil]
  intro c hc
  simpa using fun heq : c = b => hfirst (heq ▸ hc)

/-- The line of an entry is read as what survives of it. -/
theorem Readable.recordFields_record (h : entry.Readable doubles) :
    recordFields (entry.record doubles) =
      (survivor entry).toList.map fun entry => entry.fields doubles := by
  obtain ⟨hwritten, hdouble⟩ := h
  obtain ⟨hvalue, hshown⟩ := hwritten.valueField_cutAt hdouble (.inl rfl)
  have hnumbers := entry.notMem_numberFields (.inl rfl)
  rw [hwritten.record_eq hdouble, fields, survivor]
  have hlength : entry.numberFields.length = 3 := rfl
  by_cases hkey : lineFeed ∈ entry.key
  · -- The line ends inside the key, and what is left has too few fields.
    obtain ⟨first, second, heq, hfirst⟩ := List.eq_append_cons_of_mem hkey
    have hfront : ∀ field ∈ entry.numberFields ++ [first], lineFeed ∉ field := by
      rw [List.forall_mem_append, List.forall_mem_singleton]
      exact ⟨hnumbers, hfirst⟩
    rw [if_pos hkey, heq, recordFields_join_cut hfront, recordFields_eq_nil (by simp) (by simp)]
    rfl
  rw [if_neg hkey, Option.toList_some, List.map_singleton]
  by_cases hmem : lineFeed ∈ entry.valueField doubles
  · -- The line ends inside the value, which is a line of four fields and the value so far.
    obtain ⟨first, second, heq, hfirst⟩ := List.eq_append_cons_of_mem hmem
    have hfront : ∀ field ∈ (entry.numberFields ++ [entry.key]) ++ [first], lineFeed ∉ field := by
      rw [List.forall_mem_append, List.forall_mem_append, List.forall_mem_singleton,
        List.forall_mem_singleton]
      exact ⟨⟨hnumbers, hkey⟩, hfirst⟩
    have happend : entry.numberFields ++ [entry.key, first ++ lineFeed :: second] =
        (entry.numberFields ++ [entry.key]) ++ (first ++ lineFeed :: second) :: [] := by simp
    rw [heq, takeWhile_of_notMem hfirst] at hvalue
    rw [heq, happend, recordFields_join_cut hfront, recordFields_eq_nil (by simp) (by simp),
      List.filter_cons_of_pos (by simp [hlength]), fields, hvalue]
    simp [numberFields, RetainedEntry.cutAt]
  · have hall : ∀ field ∈ entry.numberFields ++ [entry.key, entry.valueField doubles],
        lineFeed ∉ field := by
      rw [List.forall_mem_append]
      simpa using ⟨hnumbers, hkey, hmem⟩
    rw [(recordFields_line (by simp) hall).1, (hwritten.cutAt_eq_self_iff _).mpr]
    · rfl
    · rwa [← hshown]

/-- A Ctrl-Z in the key or in the value cuts the line where it stands. -/
theorem Readable.takeWhile_record (h : entry.Readable doubles) (rest : ByteString) :
    recordFields ((entry.record doubles ++ rest).takeWhile fun b => b ≠ controlZ) =
      if controlZ ∈ entry.key then []
      else if controlZ ∈ entry.shown then
        (survivor (entry.cutAt controlZ)).toList.map fun entry => entry.fields doubles
      else recordFields (entry.record doubles ++ rest.takeWhile fun b => b ≠ controlZ) := by
  obtain ⟨hwritten, hdouble⟩ := h
  obtain ⟨hvalue, hshown⟩ := hwritten.valueField_cutAt hdouble (.inr rfl)
  have hnumbers := entry.notMem_numberFields (.inr rfl)
  have hjoin : ∀ {fields : List ByteString}, (∀ field ∈ fields, controlZ ∉ field) →
      controlZ ∉ EscapedFields.join needsEscape escapeMark fieldSeparator fields := by
    intro fields hfields
    rw [EscapedFields.mem_join (by decide) (by decide)]
    rintro ⟨field, hfield, hmem⟩
    exact hfields field hfield hmem
  rw [hwritten.record_eq hdouble, fields]
  by_cases hkey : controlZ ∈ entry.key
  · obtain ⟨first, second, heq, hfirst⟩ := List.eq_append_cons_of_mem hkey
    have hfront : ∀ field ∈ entry.numberFields ++ [first], controlZ ∉ field := by
      rw [List.forall_mem_append, List.forall_mem_singleton]
      exact ⟨hnumbers, hfirst⟩
    rw [if_pos hkey, heq, EscapedFields.join_append_cons, EscapedFields.join_cons_of_plain rfl,
      List.append_assoc, List.cons_append, takeWhile_of_notMem (hjoin hfront)]
    exact recordFields_eq_nil (by simp) (by simp [numberFields])
  rw [if_neg hkey]
  by_cases hmem : controlZ ∈ entry.shown
  · obtain ⟨first, second, heq, hfirst⟩ := List.eq_append_cons_of_mem (hshown.mpr hmem)
    have hfront : ∀ field ∈ (entry.numberFields ++ [entry.key]) ++ [first],
        controlZ ∉ field := by
      rw [List.forall_mem_append, List.forall_mem_append, List.forall_mem_singleton,
        List.forall_mem_singleton]
      exact ⟨⟨hnumbers, hkey⟩, hfirst⟩
    have happend : entry.numberFields ++ [entry.key, first ++ controlZ :: second] =
        (entry.numberFields ++ [entry.key]) ++ (first ++ controlZ :: second) :: [] := by simp
    rw [heq, takeWhile_of_notMem hfirst] at hvalue
    rw [if_pos hmem, heq, happend, EscapedFields.join_append_cons,
      EscapedFields.join_cons_of_plain rfl, List.append_assoc, List.cons_append,
      takeWhile_of_notMem (hjoin hfront)]
    -- What is left is the line of the entry that was cut.
    have hcut := RetainedEntry.Readable.cutAt ⟨hwritten, hdouble⟩ controlZ
    rw [← hcut.recordFields_record, hcut.1.record_eq hcut.2, fields, hvalue]
    simp [numberFields, RetainedEntry.cutAt]
  · have hall : ∀ field ∈ entry.numberFields ++ [entry.key, entry.valueField doubles],
        controlZ ∉ field := by
      rw [List.forall_mem_append]
      simpa using ⟨hnumbers, hkey, mt hshown.mp hmem⟩
    rw [if_neg hmem, List.takeWhile_append_of_pos]
    intro b hb
    simpa using fun heq : b = controlZ => hjoin hall (heq ▸ hb)

/-- From the text of some entries the survivors are read. -/
theorem recordFields_recordsText {entries : List RetainedEntry}
    (h : ∀ entry ∈ entries, entry.Readable doubles) :
    recordFields ((recordsText doubles entries).takeWhile fun b => b ≠ controlZ) =
      (survivors entries).map fun entry => entry.fields doubles := by
  induction entries with
  | nil => rfl
  | cons entry entries ih =>
    rw [List.forall_mem_cons] at h
    have hcons : recordsText doubles (entry :: entries) =
        entry.record doubles ++ lineFeed :: recordsText doubles entries := by
      rw [recordsText, List.flatMap_cons, List.append_assoc]
      rfl
    rw [hcons, h.1.takeWhile_record, List.takeWhile_cons_of_pos (by decide), recordFields_append,
      ih h.2, h.1.recordFields_record, survivors]
    split_ifs
    · rfl
    · rfl
    · rw [List.map_append]

end RetainedEntry

open RetainedEntry (survivors)

/-- Lines are loaded as the entries whose fields they have, while there is room for them. -/
theorem loadLines_eq {doubles : DoubleText} {lines : List ByteString} (room : ℕ)
    {entries : List RetainedEntry} (hreadable : ∀ entry ∈ entries, entry.Readable doubles)
    (hlines : (lines.map splitEscaped).filter (fun fields => fields.length = 5) =
      entries.map fun entry => entry.fields doubles) :
    loadLines doubles room lines =
      some ((entries.take room).map fun entry => entry.reread doubles) := by
  fun_induction loadLines doubles room lines generalizing entries with
  | case1 room =>
    obtain rfl := List.map_eq_nil_iff.mp hlines.symm
    rw [List.take_nil]
    rfl
  | case2 lines =>
    rw [List.take_zero]
    rfl
  | case3 room line lines type seq timestamp key value hsplit ih =>
    rw [List.map_cons, hsplit, List.filter_cons_of_pos (by simp)] at hlines
    cases entries with
    | nil => cases hlines
    | cons entry entries =>
      rw [List.map_cons, List.cons.injEq] at hlines
      obtain ⟨hfields, hlines⟩ := hlines
      cases hfields
      rw [List.forall_mem_cons] at hreadable
      rw [hreadable.1.1.ofFields_fields hreadable.1.2, ih hreadable.2 hlines]
      rfl
  | case4 room line lines hsplit ih =>
    refine ih hreadable ?_
    rw [← hlines, List.map_cons, List.filter_cons_of_neg]
    intro hlength
    rw [decide_eq_true_eq] at hlength
    obtain ⟨type, seq, timestamp, key, value, heq⟩ :
        ∃ type seq timestamp key value, splitEscaped line = [type, seq, timestamp, key, value] := by
      obtain ⟨type, rest, h₁⟩ := List.exists_of_length_succ _ hlength
      rw [h₁] at hlength
      obtain ⟨seq, timestamp, key, value, h₂⟩ := List.length_eq_four.mp (by simpa using hlength)
      exact ⟨type, seq, timestamp, key, value, by rw [h₁, h₂]⟩
    exact hsplit type seq timestamp key value heq

namespace RetainedEntry

variable {doubles : DoubleText}

/-- What cutting keeps of an entry is true of what comes back. -/
theorem survivors_induction {P : RetainedEntry → Prop}
    (hcut : ∀ entry b, P entry → P (entry.cutAt b))
    {entries : List RetainedEntry} (h : ∀ entry ∈ entries, P entry) :
    ∀ entry ∈ survivors entries, P entry := by
  have hone : ∀ {first entry : RetainedEntry}, P first → entry ∈ first.survivor.toList →
      P entry := by
    intro first entry hfirst hentry
    rw [survivor] at hentry
    split_ifs at hentry
    · cases hentry
    · rw [Option.toList_some, List.mem_singleton] at hentry
      exact hentry ▸ hcut first lineFeed hfirst
  induction entries with
  | nil => simp [survivors]
  | cons first entries ih =>
    rw [List.forall_mem_cons] at h
    intro entry hentry
    rw [survivors] at hentry
    split_ifs at hentry
    · cases hentry
    · exact hone (hcut first controlZ h.1) hentry
    · rcases List.mem_append.mp hentry with hentry | hentry
      · exact hone h.1 hentry
      · exact ih h.2 entry hentry

theorem readable_of_mem_survivors {entries : List RetainedEntry}
    (h : ∀ entry ∈ entries, entry.Readable doubles) :
    ∀ entry ∈ survivors entries, entry.Readable doubles :=
  survivors_induction (fun _ b hentry => hentry.cutAt b) h

/-- No key comes back that was not written, and each as often at most. -/
theorem map_key_survivors_sublist (entries : List RetainedEntry) :
    ((survivors entries).map RetainedEntry.key).Sublist (entries.map RetainedEntry.key) := by
  have hone : ∀ entry : RetainedEntry,
      (entry.survivor.toList.map RetainedEntry.key).Sublist [entry.key] := by
    intro entry
    rw [survivor]
    split_ifs
    · exact List.nil_sublist _
    · exact List.Sublist.refl _
  induction entries with
  | nil => exact List.Sublist.refl _
  | cons entry entries ih =>
    rw [survivors, List.map_cons, ← List.singleton_append]
    split_ifs
    · exact List.nil_sublist _
    · exact (hone (entry.cutAt controlZ)).trans (List.sublist_append_left _ _)
    · rw [List.map_append]
      exact (hone entry).append ih

theorem length_survivors_le (entries : List RetainedEntry) :
    (survivors entries).length ≤ entries.length := by
  have hle := (map_key_survivors_sublist entries).length_le
  rwa [List.length_map, List.length_map] at hle

/-- Everything comes back if each entry is a line of its own. -/
theorem survivors_eq_self_iff {entries : List RetainedEntry}
    (h : ∀ entry ∈ entries, entry.AsWritten) :
    survivors entries = entries ↔ ∀ entry ∈ entries, entry.OnOneLine := by
  induction entries with
  | nil => simp [survivors]
  | cons entry entries ih =>
    rw [List.forall_mem_cons] at h
    have hline : entry.OnOneLine ↔ controlZ ∉ entry.key ∧ controlZ ∉ entry.shown ∧
        lineFeed ∉ entry.key ∧ lineFeed ∉ entry.shown := by
      simp only [OnOneLine, List.mem_append]
      constructor
      · intro hall
        exact ⟨fun hb => (hall _ (.inl hb)).2 rfl, fun hb => (hall _ (.inr hb)).2 rfl,
          fun hb => (hall _ (.inl hb)).1 rfl, fun hb => (hall _ (.inr hb)).1 rfl⟩
      · rintro ⟨hkey, hshown, hkey', hshown'⟩ b (hb | hb)
        · exact ⟨fun heq => hkey' (heq ▸ hb), fun heq => hkey (heq ▸ hb)⟩
        · exact ⟨fun heq => hshown' (heq ▸ hb), fun heq => hshown (heq ▸ hb)⟩
    rw [survivors, List.forall_mem_cons, ← ih h.2, hline]
    by_cases hkey : controlZ ∈ entry.key
    · simp [hkey]
    rw [if_neg hkey, and_iff_right hkey]
    by_cases hshown : controlZ ∈ entry.shown
    · rw [if_pos hshown]
      refine iff_of_false (fun heq => ?_) fun hall => hall.1.1 hshown
      -- What is left of the entry has no Ctrl-Z.
      have hmem : entry ∈ (survivor (entry.cutAt controlZ)).toList := heq ▸ List.mem_cons_self
      rw [survivor] at hmem
      split_ifs at hmem with hfeed
      · cases hmem
      have hself : entry = (entry.cutAt controlZ).cutAt lineFeed := by simpa using hmem
      rw [hself, (h.1.cutAt controlZ).shown_cutAt, h.1.shown_cutAt] at hshown
      have hne := List.mem_takeWhile_imp ((List.takeWhile_prefix _).subset hshown)
      simp at hne
    rw [if_neg hshown, and_iff_right hshown, survivor]
    by_cases hfeed : lineFeed ∈ entry.key
    · rw [if_pos hfeed]
      refine iff_of_false (fun heq => ?_) fun hall => hall.1.1 hfeed
      have hlength := congrArg List.length heq
      have hle := length_survivors_le entries
      simp only [Option.toList_none, List.nil_append, List.length_cons] at hlength
      omega
    · rw [if_neg hfeed, and_iff_right hfeed, Option.toList_some, List.singleton_append,
        List.cons.injEq, h.1.cutAt_eq_self_iff]

end RetainedEntry

namespace RetainedStore

variable {doubles : DoubleText}

def occupiedEntries (store : RetainedStore) : List RetainedEntry :=
  store.entries.filter fun entry => entry.occupied

theorem length_occupiedEntries_le (store : RetainedStore) :
    store.occupiedEntries.length ≤ store.entries.length :=
  List.length_filter_le _ _

/-- Reading a file that was written for a table. -/
theorem loadLines_persistLocked (store : RetainedStore)
    (h : ∀ entry ∈ store.occupiedEntries, entry.Readable doubles) (room : ℕ) :
    loadLines doubles room
        (TextMode.lines (TextMode.ofFile (store.persistLocked doubles))) =
      some (((survivors store.occupiedEntries).take room).map fun entry =>
        entry.reread doubles) := by
  refine loadLines_eq room (RetainedEntry.readable_of_mem_survivors h) ?_
  rw [persistLocked, TextMode.ofFile_toFile, ← RetainedEntry.recordFields_recordsText h,
    recordFields, List.filter_map, List.filter_map, TextMode.filter_lines rfl]
  rfl

/-- The table that is read from a file of some table. -/
theorem loadLocked_persistLocked (store table : RetainedStore)
    (h : ∀ entry ∈ store.occupiedEntries, entry.Readable doubles) :
    ∃ loaded, table.loadLocked doubles (store.persistLocked doubles) = some loaded ∧
      loaded.occupiedEntries = ((survivors store.occupiedEntries).take
        table.entries.length).map fun entry => entry.reread doubles := by
  have hlines := store.loadLines_persistLocked h table.entries.length
  refine ⟨table.withLoaded _ (loadLines_fits hlines), ?_, ?_⟩
  · rw [loadLocked]
    simp only [hlines, Option.pmap_some]
  · have hoccupied : ∀ entry ∈ ((survivors store.occupiedEntries).take
        table.entries.length).map fun entry => entry.reread doubles, entry.occupied = true := by
      intro entry hentry
      obtain ⟨entry, hmem, rfl⟩ := List.mem_map.mp hentry
      rw [RetainedEntry.occupied_reread]
      exact (RetainedEntry.readable_of_mem_survivors h entry (List.mem_of_mem_take hmem)).1.occupied
    rw [occupiedEntries, withLoaded, List.filter_append, List.filter_eq_self.mpr hoccupied,
      List.filter_eq_nil_iff.mpr, List.append_nil]
    intro entry hentry
    rw [List.eq_of_mem_replicate hentry]
    exact Bool.false_ne_true

/-- The entries come back from the file as they were written, exactly if none has a line feed or
a Ctrl-Z in its key or its text. -/
theorem restores_iff (store table : RetainedStore)
    (hsize : table.entries.length = store.entries.length)
    (hwritten : ∀ entry ∈ store.occupiedEntries, entry.AsWritten)
    (hdoubles : ∀ entry ∈ store.occupiedEntries, entry.type = toWireType .double →
      doubles.Survives entry.doubleValue) :
    (table.loadLocked doubles (store.persistLocked doubles)).map occupiedEntries =
        some store.occupiedEntries ↔
      ∀ entry ∈ store.occupiedEntries, entry.OnOneLine := by
  obtain ⟨loaded, hload, hentries⟩ := store.loadLocked_persistLocked table fun entry hentry =>
    ⟨hwritten entry hentry, fun htype => (hdoubles entry hentry htype).1⟩
  have hlength := (RetainedEntry.length_survivors_le store.occupiedEntries).trans
    store.length_occupiedEntries_le
  -- What survives has the doubles of the table, and they are read back.
  have hsurvive := RetainedEntry.survivors_induction
    (P := fun entry => entry.type = toWireType .double → doubles.Survives entry.doubleValue)
    (fun _ _ h => h) hdoubles
  have hreread : ((survivors store.occupiedEntries).map fun entry => entry.reread doubles) =
      survivors store.occupiedEntries :=
    List.map_congr_left (fun entry hentry => RetainedEntry.reread_eq_self (hsurvive entry hentry))
      |>.trans (List.map_id' _)
  rw [hload, Option.map_some, Option.some.injEq, hentries, hsize,
    List.take_of_length_le hlength, hreread]
  exact RetainedEntry.survivors_eq_self_iff hwritten

/-- A printer that knows the number one half. -/
def halfText : DoubleText where
  format _ := "0.5".toUTF8.toList
  parse text := if text = "0.5".toUTF8.toList then some 0x3FE0000000000000 else none

/-- One half, and a text with the characters that are escaped in a line. -/
def escapedTable : RetainedStore where
  entries :=
    [{ occupied := true
       type := toWireType .double
       seq := 3
       key := "Test/Half".toUTF8.toList
       doubleValue := 0x3FE0000000000000 },
     {},
     { occupied := true
       type := toWireType .string
       seq := 18446744073709551615
       sourceTimestampUs := 20
       key := "A|B".toUTF8.toList
       stringValue := "C:\\logs\r".toUTF8.toList }]
  entries_ne_nil := List.cons_ne_nil _ _
  key_fits := by decide +kernel

theorem escapedTable_restored :
    (escapedTable.loadLocked halfText (escapedTable.persistLocked halfText)).map
        occupiedEntries = some escapedTable.occupiedEntries :=
  (escapedTable.restores_iff escapedTable rfl (by decide +kernel) (by decide +kernel)).mpr
    (by decide +kernel)

/-- A text of two lines. -/
def twoLineTable : RetainedStore where
  entries :=
    [{ occupied := true
       type := toWireType .string
       seq := 1
       key := "Log".toUTF8.toList
       stringValue := "one\ntwo".toUTF8.toList }]
  entries_ne_nil := List.cons_ne_nil _ _
  key_fits := by decide +kernel

theorem twoLineTable_not_restored :
    (∀ entry ∈ twoLineTable.occupiedEntries, entry.AsWritten ∧
        entry.type ≠ toWireType .double) ∧
      (twoLineTable.loadLocked halfText (twoLineTable.persistLocked halfText)).map
        occupiedEntries ≠ some twoLineTable.occupiedEntries := by
  decide +kernel

end RetainedStore

end SmartDashboard.Direct
