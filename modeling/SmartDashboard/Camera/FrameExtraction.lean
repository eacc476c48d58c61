import Mathlib.Data.List.DropRight
import SmartDashboard.Camera.CameraDiscovery
import SmartDashboard.Camera.MjpegStreamSource

/-!
# The frames of an MJPEG stream

The boundary of a stream as the `Content-Type` header names it, and streams as a server writes
them: parts with header lines and a payload, each behind a marker, and a marker at the end.

The reader looks for the two line breaks that end the headers, from behind the line break that
follows the marker. In a part without header lines these are the line break of the marker and the
empty line, so it finds them too late or not at all.

## Main definitions

- `parseBoundaryFromContentType`: the boundary of a stream
- `Part`, `stream`: the parts of a stream, and its bytes
-/

namespace SmartDashboard.Camera

open Incremental

/-! ### The boundary -/

/-- A text in ASCII. -/
def ascii (text : String) : QString := text.toList.map fun c => UInt16.ofNat c.toNat

/-- Case folding, as far as the texts that are looked for have to do with it: no character outside
of ASCII folds to one of their letters. -/
def foldCase (unit : UInt16) : UInt16 := if 65 ≤ unit ∧ unit ≤ 90 then unit + 32 else unit

/-- `QChar::isSpace`. -/
def isSpace (unit : UInt16) : Bool :=
  (9 ≤ unit && unit ≤ 13) || (0x2000 ≤ unit && unit ≤ 0x200A) ||
    [0x20, 0x85, 0xA0, 0x1680, 0x2028, 0x2029, 0x202F, 0x205F, 0x3000].contains unit

def trimmed (text : QString) : QString := (text.dropWhile isSpace).rdropWhile isSpace

/-- `toLatin1`, which puts a question mark for what is not in Latin-1. -/
def toLatin1 (text : QString) : QByteArray :=
  text.map fun unit => if unit ≤ 0xFF then unit.toUInt8 else 63

/-- The boundary that `m_boundary` is set to; `none` when the text is refused. -/
def parseBoundaryFromContentType (contentType : QString) : Option QByteArray :=
  let folded := contentType.map foldCase
  if (indexOf (ascii "multipart") folded 0).isNone then none
  else
    match indexOf (ascii "boundary=") folded 0 with
    | none => none
    | some boundaryIdx =>
      let boundary := trimmed (contentType.drop (boundaryIdx + 9))
      let boundary :=
        if boundary.head? = some 34 ∧ boundary.getLast? = some 34 then
          (boundary.drop 1).take (boundary.length - 2)
        else boundary
      let boundary := boundary.dropWhile (· == 45)
      if boundary = [] then none else some (toLatin1 boundary)

theorem ne_nil_of_parseBoundaryFromContentType {contentType : QString} {boundary : QByteArray}
    (h : parseBoundaryFromContentType contentType = some boundary) : boundary ≠ [] := by
  simp only [parseBoundaryFromContentType] at h
  split_ifs at h
  split at h
  case h_1 => cases h
  case h_2 =>
    split_ifs at h with hempty hempty
    all_goals
      obtain rfl := Option.some.inj h
      rwa [toLatin1, Ne, List.map_eq_nil_iff]

/-! ### Streams -/

def crlf : QByteArray := [carriageReturn, lineFeed]

/-- One part: its header lines, none of which is empty or has a line break in it, and its payload.
The marker is in none of them. -/
structure Part (boundary : QByteArray) where
  headers : List QByteArray
  payload : QByteArray
  isLine : ∀ line ∈ headers, line ≠ [] ∧ ¬ crlf <:+: line ∧ ¬ markerOf boundary <:+: line
  payload_ne_nil : payload ≠ []
  not_infix_payload : ¬ markerOf boundary <:+: payload

/-- Lines, and a line break behind each. -/
def linesOf (headers : List QByteArray) : QByteArray := headers.flatMap (· ++ crlf)

namespace Part

variable {boundary : QByteArray}

/-- The bytes of a part. -/
def encode (part : Part boundary) : QByteArray :=
  markerOf boundary ++ (crlf ++ (linesOf part.headers ++ (crlf ++ (part.payload ++ crlf))))

/-- The bytes in front of the payload. -/
def headLength (part : Part boundary) : ℕ :=
  (markerOf boundary).length + 2 + (linesOf part.headers).length + 2

theorem length_encode (part : Part boundary) :
    part.encode.length = part.headLength + part.payload.length + 2 := by
  simp only [encode, headLength, List.length_append, crlf, List.length_cons, List.length_nil]
  omega

end Part

/-- The bytes of the parts, and the marker that closes the stream. -/
def stream {boundary : QByteArray} (parts : List (Part boundary)) : QByteArray :=
  parts.flatMap Part.encode ++ markerOf boundary

/-! ### Where the marker is -/

section Positions

variable {boundary : QByteArray} {part : Part boundary} {parts : List (Part boundary)} {i : ℕ}

theorem stream_cons (part : Part boundary) (parts : List (Part boundary)) :
    stream (part :: parts) = part.encode ++ stream parts := by
  rw [stream, stream, List.flatMap_cons, List.append_assoc]

theorem markerOf_isPrefix_stream (parts : List (Part boundary)) :
    markerOf boundary <+: stream parts := by
  cases parts with
  | nil => exact List.prefix_rfl
  | cons part parts =>
    rw [stream_cons]
    exact (List.prefix_append _ _).trans (List.prefix_append _ _)

variable (hcr : carriageReturn ∉ boundary) (hlf : lineFeed ∉ boundary)

include hcr in
theorem carriageReturn_not_mem_markerOf : carriageReturn ∉ markerOf boundary := by
  rw [markerOf, List.mem_append, not_or]
  exact ⟨by decide, hcr⟩

include hlf in
theorem lineFeed_not_mem_markerOf : lineFeed ∉ markerOf boundary := by
  rw [markerOf, List.mem_append, not_or]
  exact ⟨by decide, hlf⟩

include hcr hlf in
/-- The marker begins neither in a piece that it is not in nor in the line break behind it. -/
theorem not_isPrefix_drop_crlf {piece rest : QByteArray} (hpiece : ¬ markerOf boundary <:+: piece)
    (hi : i < (piece ++ crlf).length) :
    ¬ markerOf boundary <+: (piece ++ (crlf ++ rest)).drop i := by
  have hlength : (piece ++ crlf).length = piece.length + 2 := List.length_append
  by_cases hle : i ≤ piece.length
  · exact not_isPrefix_drop (carriageReturn_not_mem_markerOf hcr) hpiece hle
  · obtain rfl : i = (piece ++ [carriageReturn]).length + 0 := by
      rw [List.length_append, List.length_singleton]
      omega
    have hsplit : piece ++ (crlf ++ rest) =
        (piece ++ [carriageReturn]) ++ ([] ++ lineFeed :: rest) := by
      rw [List.append_assoc]
      rfl
    rw [hsplit, List.drop_length_add_append]
    refine not_isPrefix_drop (lineFeed_not_mem_markerOf hlf) ?_ (Nat.le_refl 0)
    rw [List.infix_nil]
    exact markerOf_ne_nil boundary

include hcr hlf in
/-- The marker begins neither in header lines nor in the line break behind them. -/
theorem not_isPrefix_drop_linesOf {headers : List QByteArray} {rest : QByteArray}
    (hlines : ∀ line ∈ headers, ¬ markerOf boundary <:+: line) :
    ∀ j < (linesOf headers ++ crlf).length,
      ¬ markerOf boundary <+: (linesOf headers ++ (crlf ++ rest)).drop j := by
  induction headers with
  | nil =>
    intro j hj
    refine not_isPrefix_drop_crlf hcr hlf ?_ hj
    rw [linesOf, List.flatMap_nil, List.infix_nil]
    exact markerOf_ne_nil boundary
  | cons line headers ih =>
    rw [List.forall_mem_cons] at hlines
    have hline := @not_isPrefix_drop_crlf boundary
    have happend : ∀ bytes, linesOf (line :: headers) ++ bytes =
        (line ++ crlf) ++ (linesOf headers ++ bytes) := fun bytes => by
      rw [linesOf, List.flatMap_cons, List.append_assoc]
      rfl
    rw [happend, happend, List.length_append]
    refine absent_append (fun j hj => ?_) (ih hlines.2)
    rw [List.append_assoc]
    exact not_isPrefix_drop_crlf hcr hlf hlines.1 hj

include hcr hlf in
/-- In front of the next part the marker begins only where this one begins. -/
theorem eq_zero_or_le_of_isPrefix
    (h : markerOf boundary <+: (stream (part :: parts)).drop i) :
    i = 0 ∨ part.encode.length ≤ i := by
  by_contra hi
  rw [not_or, not_le] at hi
  obtain ⟨k, rfl⟩ := Nat.exists_eq_add_one_of_ne_zero hi.1
  -- behind its first byte the marker is a piece that is too short for another one
  have htail : ¬ markerOf boundary <:+: 45 :: boundary := fun hinfix => by
    have hlength := hinfix.length_le
    simp only [markerOf, List.length_append, List.length_cons, List.length_nil] at hlength
    omega
  have hstream : (stream (part :: parts)).drop (k + 1) =
      (((45 :: boundary) ++ crlf) ++ ((linesOf part.headers ++ crlf) ++
        (part.payload ++ (crlf ++ stream parts)))).drop k := by
    simp only [stream_cons, Part.encode, markerOf, List.append_assoc, List.cons_append,
      List.drop_succ_cons, List.nil_append]
  rw [hstream] at h
  have hlines : ∀ j < (linesOf part.headers ++ crlf).length + (part.payload ++ crlf).length,
      ¬ markerOf boundary <+: ((linesOf part.headers ++ crlf) ++
        (part.payload ++ (crlf ++ stream parts))).drop j := by
    refine absent_append (fun j hj => ?_) fun j hj => ?_
    · rw [List.append_assoc]
      exact not_isPrefix_drop_linesOf hcr hlf (fun line hline => (part.isLine line hline).2.2) j hj
    · exact not_isPrefix_drop_crlf hcr hlf part.not_infix_payload hj
  refine absent_append (fun j hj => ?_) hlines k ?_ h
  · rw [List.append_assoc]
    exact not_isPrefix_drop_crlf hcr hlf htail hj
  · have hlength := part.length_encode
    simp only [Part.headLength, markerOf, crlf, List.length_append, List.length_cons,
      List.length_nil] at hlength ⊢
    omega

include hcr hlf in
/-- Where the marker begins, what is left is a stream of the last parts. -/
theorem exists_stream_of_isPrefix (h : markerOf boundary <+: (stream parts).drop i) :
    ∃ parts', parts' <:+ parts ∧ (stream parts).drop i = stream parts' := by
  induction parts generalizing i with
  | nil =>
    have hle := h.length_le
    rw [List.length_drop, stream, List.flatMap_nil, List.nil_append] at hle
    have hpos := List.length_pos_iff.mpr (markerOf_ne_nil boundary)
    obtain rfl : i = 0 := by omega
    exact ⟨[], List.suffix_rfl, rfl⟩
  | cons part parts ih =>
    rcases eq_zero_or_le_of_isPrefix hcr hlf h with rfl | hle
    · exact ⟨part :: parts, List.suffix_rfl, rfl⟩
    · obtain ⟨k, rfl⟩ := Nat.exists_eq_add_of_le hle
      rw [stream_cons, List.drop_length_add_append] at h ⊢
      obtain ⟨parts', hsuffix, hparts'⟩ := ih h
      exact ⟨parts', hsuffix.trans (List.suffix_cons part parts), hparts'⟩

end Positions

/-! ### Where the headers end -/

/-- A line break does not begin in a line. -/
theorem crlf_not_isPrefix_drop {line rest : QByteArray} (hline : ¬ crlf <:+: line) {j : ℕ}
    (hj : j < line.length) : ¬ crlf <+: (line ++ (crlf ++ rest)).drop j := by
  rw [List.drop_append_of_le_length hj.le]
  intro h
  cases hbytes : line.drop j with
  | nil => exact absurd (List.drop_eq_nil_iff.mp hbytes) (Nat.not_le.mpr hj)
  | cons a bytes =>
    rw [hbytes, List.cons_append, crlf, List.cons_prefix_cons] at h
    obtain ⟨rfl, h⟩ := h
    cases bytes with
    | nil => exact absurd (List.cons_prefix_cons.mp h).1 (by decide)
    | cons b bytes =>
      obtain ⟨rfl, -⟩ := List.cons_prefix_cons.mp h
      refine hline (List.IsInfix.trans ?_ (List.drop_suffix j line).isInfix)
      rw [hbytes]
      exact (List.prefix_append [carriageReturn, lineFeed] bytes).isInfix

/-- Two line breaks do not begin in the one in front of a line. -/
theorem headerEnd_not_isPrefix_drop {line rest : QByteArray} (hne : line ≠ [])
    (hline : ¬ crlf <:+: line) {j : ℕ} (hj : j < crlf.length) :
    ¬ headerEnd <+: (crlf ++ (line ++ (crlf ++ rest))).drop j := by
  intro h
  cases j with
  | zero =>
    have hsecond : crlf <+: line ++ (crlf ++ rest) := (List.prefix_append_right_inj crlf).mp h
    exact crlf_not_isPrefix_drop hline (List.length_pos_iff.mpr hne) hsecond
  | succ j =>
    obtain rfl : j = 0 := Nat.lt_one_iff.mp (Nat.lt_of_succ_lt_succ hj)
    exact absurd (List.cons_prefix_cons.mp h).1 (by decide)

/-- The empty line is found behind the last header line. -/
theorem findFirst_headerEnd {headers : List QByteArray} (hne : headers ≠ [])
    (hlines : ∀ line ∈ headers, line ≠ [] ∧ ¬ crlf <:+: line) (rest : QByteArray) :
    findFirst headerEnd (linesOf headers ++ (crlf ++ rest)) =
      some ((linesOf headers).length - 2) := by
  induction headers with
  | nil => exact absurd rfl hne
  | cons line headers ih =>
    rw [List.forall_mem_cons] at hlines
    have hline : ∀ more, ∀ j < line.length,
        ¬ headerEnd <+: (line ++ (crlf ++ more)).drop j := fun more j hj h =>
      crlf_not_isPrefix_drop hlines.1.2 hj ((List.prefix_append crlf crlf).trans h)
    cases headers with
    | nil =>
      have htext : linesOf [line] ++ (crlf ++ rest) = line ++ (headerEnd ++ rest) := by
        simp only [linesOf, List.flatMap_cons, List.flatMap_nil, List.append_nil, List.append_assoc]
        rfl
      have hfront : ∀ j < line.length, ¬ headerEnd <+: (line ++ (headerEnd ++ rest)).drop j :=
        hline (crlf ++ rest)
      rw [htext, findFirst_append_of_absent hfront, findFirst_self_append]
      simp [linesOf, crlf]
    | cons second headers =>
      have htext : linesOf (line :: second :: headers) ++ (crlf ++ rest) =
          (line ++ crlf) ++ (linesOf (second :: headers) ++ (crlf ++ rest)) := by
        rw [linesOf, List.flatMap_cons, List.append_assoc]
        rfl
      have hsecond := hlines.2 second List.mem_cons_self
      have hbreak : linesOf (second :: headers) ++ (crlf ++ rest) =
          second ++ (crlf ++ (linesOf headers ++ (crlf ++ rest))) := by
        rw [linesOf, List.flatMap_cons, List.append_assoc, List.append_assoc]
        rfl
      have hfront : ∀ j < line.length + crlf.length,
          ¬ headerEnd <+: (line ++ (crlf ++ (linesOf (second :: headers) ++
            (crlf ++ rest)))).drop j := by
        refine absent_append (hline _) fun j hj => ?_
        rw [hbreak]
        exact headerEnd_not_isPrefix_drop hsecond.1 hsecond.2 hj
      rw [← List.append_assoc, ← List.length_append] at hfront
      rw [htext, findFirst_append_of_absent hfront, ih (List.cons_ne_nil second headers) hlines.2,
        Option.map_some, Option.some.injEq]
      simp only [linesOf, List.flatMap_cons, List.length_append, crlf, List.length_cons,
        List.length_nil]
      omega

/-! ### The frames of a stream -/

section Frames

variable {boundary : QByteArray} {part : Part boundary} {parts : List (Part boundary)}

theorem headerStart_crlf (marker rest : QByteArray) :
    headerStart marker (marker ++ (crlf ++ rest)) 0 = marker.length + 2 := by
  have hget : ∀ k, (marker ++ (crlf ++ rest))[marker.length + k]? = (crlf ++ rest)[k]? :=
    fun k => by rw [List.getElem?_append_right (Nat.le_add_right ..), Nat.add_sub_cancel_left]
  have hcr : skip carriageReturn (marker ++ (crlf ++ rest)) marker.length = marker.length + 1 :=
    if_pos (hget 0)
  have hlf : skip lineFeed (marker ++ (crlf ++ rest)) (marker.length + 1) = marker.length + 2 :=
    if_pos (hget 1)
  rw [headerStart, Nat.zero_add, hcr, hlf]

/-- The data in front of a line break and a marker. -/
theorem jpegData_crlf (bytes rest : QByteArray) (dataStart : ℕ) :
    jpegData (bytes ++ (crlf ++ rest)) dataStart (bytes.length + 2) =
      if dataStart < bytes.length then [bytes.drop dataStart] else [] := by
  have hget : ∀ k, (bytes ++ (crlf ++ rest))[bytes.length + k]? = (crlf ++ rest)[k]? :=
    fun k => by rw [List.getElem?_append_right (Nat.le_add_right ..), Nat.add_sub_cancel_left]
  have hbreak : 2 ≤ bytes.length + 2 ∧
      (bytes ++ (crlf ++ rest))[bytes.length + 2 - 2]? = some carriageReturn ∧
      (bytes ++ (crlf ++ rest))[bytes.length + 2 - 1]? = some lineFeed :=
    ⟨Nat.le_add_left .., hget 0, hget 1⟩
  rw [jpegData, if_pos hbreak, Nat.add_sub_cancel]
  split
  case isTrue hlt =>
    rw [List.drop_append_of_le_length hlt.le, List.take_left' (List.length_drop ..)]
  case isFalse => rfl

theorem length_jpegData_le (buffer : QByteArray) (dataStart nextMarkerPos : ℕ) :
    (jpegData buffer dataStart nextMarkerPos).length ≤ 1 := by
  simp only [jpegData]
  split_ifs
  all_goals simp

/-- A part, and what follows it: the bytes as far as the payload goes, and the line break. -/
theorem exists_front (part : Part boundary) (parts : List (Part boundary)) :
    ∃ front, front.length = part.headLength ∧
      stream (part :: parts) = (front ++ part.payload) ++ (crlf ++ stream parts) := by
  refine ⟨markerOf boundary ++ (crlf ++ (linesOf part.headers ++ crlf)), ?_, ?_⟩
  · simp only [Part.headLength, List.length_append, crlf, List.length_cons, List.length_nil]
    omega
  · simp only [stream_cons, Part.encode, List.append_assoc]

theorem length_stream_pos (parts : List (Part boundary)) : 0 < (stream parts).length :=
  Nat.lt_of_lt_of_le (List.length_pos_iff.mpr (markerOf_ne_nil boundary))
    (markerOf_isPrefix_stream parts).length_le

theorem headerStart_stream (part : Part boundary) (parts : List (Part boundary)) :
    headerStart (markerOf boundary) (stream (part :: parts)) 0 =
      (markerOf boundary).length + 2 := by
  rw [stream_cons, Part.encode]
  simp only [List.append_assoc]
  exact headerStart_crlf ..

theorem indexOf_marker_stream (parts : List (Part boundary)) :
    indexOf (markerOf boundary) (stream parts) 0 = some 0 :=
  (indexOf_eq_some_iff (markerOf_ne_nil boundary)).mpr
    ⟨Nat.le_refl 0, markerOf_isPrefix_stream parts, fun _ _ hj => absurd hj (Nat.not_lt_zero _)⟩

theorem nextPart_stream_nil :
    nextPart (markerOf boundary) (stream ([] : List (Part boundary))) = none := by
  cases h : nextPart (markerOf boundary) (stream ([] : List (Part boundary))) with
  | none => rfl
  | some part =>
    -- the empty line would have to stand behind the marker
    obtain ⟨markerPos, headerEndPos, -, -, hheader, -⟩ := nextPart_eq_some.mp h
    have hbounds := indexOf_bounds hheader (by decide)
    have hstart : markerPos + (markerOf boundary).length ≤ headerStart (markerOf boundary)
        (stream ([] : List (Part boundary))) markerPos := le_skip.trans le_skip
    have hlength : headerEnd.length = 4 := rfl
    rw [stream, List.flatMap_nil, List.nil_append] at hbounds hstart
    omega

variable (hcr : carriageReturn ∉ boundary) (hlf : lineFeed ∉ boundary)

include hcr hlf in
/-- A part with header lines gives its payload. -/
theorem nextPart_stream_cons (hheaders : part.headers ≠ []) :
    nextPart (markerOf boundary) (stream (part :: parts)) =
      some ([part.payload], stream parts) := by
  have hbreak : 2 ≤ (linesOf part.headers).length := by
    obtain ⟨line, headers, hcons⟩ := List.exists_cons_of_ne_nil hheaders
    simp only [hcons, linesOf, List.flatMap_cons, List.length_append, crlf, List.length_cons]
    omega
  have hpayload := List.length_pos_iff.mpr part.payload_ne_nil
  obtain ⟨front, hfront, hstream⟩ := exists_front part parts
  have hdata : part.headLength - 4 + headerEnd.length = part.headLength := by
    have hfour : headerEnd.length = 4 := rfl
    rw [Part.headLength, hfour]
    omega
  refine nextPart_eq_some.mpr ⟨0, part.headLength - 4, part.encode.length,
    indexOf_marker_stream _, ?_, ?_, ?_, ?_⟩
  · have hdrop : (stream (part :: parts)).drop ((markerOf boundary).length + 2) =
        linesOf part.headers ++ (crlf ++ (part.payload ++ (crlf ++ stream parts))) := by
      have htext : stream (part :: parts) = (markerOf boundary ++ crlf) ++ (linesOf part.headers ++
          (crlf ++ (part.payload ++ (crlf ++ stream parts)))) := by
        simp only [stream_cons, Part.encode, List.append_assoc]
      have hlength : (markerOf boundary ++ crlf).length = (markerOf boundary).length + 2 :=
        List.length_append
      rw [htext, ← hlength, List.drop_left]
    have hlines : ∀ line ∈ part.headers, line ≠ [] ∧ ¬ crlf <:+: line := fun line hline =>
      ⟨(part.isLine line hline).1, (part.isLine line hline).2.1⟩
    rw [headerStart_stream, indexOf, hdrop, findFirst_headerEnd hheaders hlines, Option.map_some,
      Option.some.injEq, Part.headLength]
    omega
  · rw [hdata, indexOf_eq_some_iff (markerOf_ne_nil boundary)]
    have hlength := part.length_encode
    refine ⟨by omega, ?_, fun j hj hlt h => ?_⟩
    · rw [stream_cons, List.drop_left]
      exact markerOf_isPrefix_stream parts
    · have hhead : 0 < part.headLength := by rw [Part.headLength]; omega
      rcases eq_zero_or_le_of_isPrefix hcr hlf h with rfl | hle
      · omega
      · omega
  · have hlength : part.encode.length = (front ++ part.payload).length + 2 := by
      rw [part.length_encode, List.length_append, hfront]
    rw [hdata, hlength, hstream, jpegData_crlf, List.length_append, hfront, if_pos (by omega),
      ← hfront, List.drop_left]
  · rw [stream_cons, List.drop_left]

include hcr hlf in
/-- What a turn of the loop does with a stream: it goes on with the last parts, and gives one frame
at most. Without header lines that frame is not the payload. -/
theorem nextPart_stream_eq_some {frames : List QByteArray} {rest : QByteArray}
    (h : nextPart (markerOf boundary) (stream (part :: parts)) = some (frames, rest)) :
    frames.length ≤ 1 ∧ ∃ parts', parts' <:+ parts ∧ rest = stream parts' ∧
      (parts' = parts → part.headers = [] → part.payload ∉ frames) := by
  obtain ⟨markerPos, headerEndPos, nextMarkerPos, hmarker, hheader, hnext, rfl, rfl⟩ :=
    nextPart_eq_some.mp h
  obtain rfl : 0 = markerPos := Option.some.inj ((indexOf_marker_stream _).symm.trans hmarker)
  rw [headerStart_stream] at hheader
  have hheader := indexOf_bounds hheader (by decide)
  have hfour : headerEnd.length = 4 := rfl
  obtain ⟨hstart, hbegins, -⟩ := (indexOf_eq_some_iff (markerOf_ne_nil boundary)).mp hnext
  obtain ⟨parts', hsuffix, hdrop⟩ := exists_stream_of_isPrefix hcr hlf hbegins
  have hlength := congrArg List.length hdrop
  rw [List.length_drop] at hlength
  have hpos := length_stream_pos (part :: parts)
  have hsuffix : parts' <:+ parts := by
    rcases List.suffix_cons_iff.mp hsuffix with rfl | hsuffix
    · omega
    · exact hsuffix
  refine ⟨length_jpegData_le .., parts', hsuffix, hdrop, ?_⟩
  rintro rfl hheaders hmem
  have hpos := length_stream_pos parts'
  have hencode := part.length_encode
  have hhead : part.headLength = (markerOf boundary).length + 4 := by
    simp [Part.headLength, hheaders, linesOf]
  obtain ⟨front, hfront, hstream⟩ := exists_front part parts'
  -- the marker of the next part is the one that was found
  obtain rfl : nextMarkerPos = (front ++ part.payload).length + 2 := by
    rw [stream_cons, List.length_append] at hlength
    rw [List.length_append]
    omega
  rw [hstream, jpegData_crlf, List.length_append, hfront] at hmem
  split_ifs at hmem
  · have hframe := congrArg List.length (List.mem_singleton.mp hmem)
    rw [List.length_drop, List.length_append] at hframe
    have hpayload := List.length_pos_iff.mpr part.payload_ne_nil
    omega
  · cases hmem

include hcr hlf in
theorem length_drain_stream_le (parts : List (Part boundary)) :
    (drain (nextPart (markerOf boundary)) (stream parts)).1.length ≤ parts.length := by
  induction hn : parts.length using Nat.strongRecOn generalizing parts with
  | _ n ih =>
    cases parts with
    | nil =>
      rw [drain_of_none nextPart_stream_nil]
      exact Nat.zero_le n
    | cons part parts =>
      cases h : nextPart (markerOf boundary) (stream (part :: parts)) with
      | none =>
        rw [drain_of_none h]
        exact Nat.zero_le n
      | some found =>
        obtain ⟨hone, parts', hsuffix, hrest, -⟩ := nextPart_stream_eq_some hcr hlf h
        have hle := hsuffix.length_le
        rw [List.length_cons] at hn
        have hlater := ih parts'.length (by omega) parts' rfl
        rw [(incremental_nextPart (markerOf_ne_nil boundary)).drain_of_some h, hrest,
          List.length_append]
        omega

include hcr hlf in
/-- The frames are the payloads just if every part has a header line. -/
theorem drain_stream_eq_iff (parts : List (Part boundary)) :
    (drain (nextPart (markerOf boundary)) (stream parts)).1 = parts.map Part.payload ↔
      ∀ part ∈ parts, part.headers ≠ [] := by
  have hnext := incremental_nextPart (markerOf_ne_nil boundary)
  induction parts with
  | nil =>
    rw [drain_of_none nextPart_stream_nil]
    exact iff_of_true rfl fun part hpart => absurd hpart List.not_mem_nil
  | cons part parts ih =>
    rw [List.forall_mem_cons, List.map_cons]
    refine Iff.trans ?_ (and_congr_right' ih)
    constructor
    · intro hframes
      cases h : nextPart (markerOf boundary) (stream (part :: parts)) with
      | none =>
        rw [drain_of_none h] at hframes
        cases hframes
      | some found =>
        obtain ⟨frames, rest⟩ := found
        obtain ⟨hone, parts', hsuffix, rfl, hpayload⟩ := nextPart_stream_eq_some hcr hlf h
        rw [hnext.drain_of_some h] at hframes
        have hlength := congrArg List.length hframes
        rw [List.length_append, List.length_cons, List.length_map] at hlength
        have hlater := length_drain_stream_le hcr hlf parts'
        have hle := hsuffix.length_le
        obtain rfl := hsuffix.eq_of_length (by omega)
        obtain ⟨frame, rfl⟩ := List.length_eq_one_iff.mp (show frames.length = 1 by omega)
        obtain ⟨rfl, hrest⟩ := List.cons.inj hframes
        exact ⟨fun hheaders => hpayload rfl hheaders (List.mem_singleton.mpr rfl), hrest⟩
    · rintro ⟨hheaders, hrest⟩
      rw [hnext.drain_of_some (nextPart_stream_cons hcr hlf hheaders)]
      exact congrArg (part.payload :: ·) hrest

/-- For every boundary that is accepted and has no line break in it, `ParseBuffer` hands on just
the payloads of a stream if and only if every part has a header line. -/
theorem parseBuffer_stream_iff {contentType : QString}
    (haccepted : parseBoundaryFromContentType contentType = some boundary)
    (hcr : carriageReturn ∉ boundary) (hlf : lineFeed ∉ boundary) (parts : List (Part boundary)) :
    (MjpegStreamSource.parseBuffer ⟨boundary, stream parts⟩).2 = parts.map Part.payload ↔
      ∀ part ∈ parts, part.headers ≠ [] := by
  rw [MjpegStreamSource.parseBuffer, if_neg (ne_nil_of_parseBoundaryFromContentType haccepted)]
  exact drain_stream_eq_iff hcr hlf parts

end Frames

/-! ### Two streams -/

/-- A part with the payload `x`, and one with the header line `h` in front of it. -/
def barePart : Part [102] where
  headers := []
  payload := [120]
  isLine := by simp
  payload_ne_nil := by decide
  not_infix_payload := by decide

def describedPart : Part [102] where
  headers := [[104]]
  payload := [120]
  isLine := by decide
  payload_ne_nil := by decide
  not_infix_payload := by decide

def frameContentType : QString := ascii "multipart/x-mixed-replace; boundary=--f"

theorem describedPart_frames :
    parseBoundaryFromContentType frameContentType = some [102] ∧
      (MjpegStreamSource.parseBuffer ⟨[102], stream [describedPart]⟩).2 = [[120]] := by
  have haccepted : parseBoundaryFromContentType frameContentType = some [102] := by decide +kernel
  exact ⟨haccepted, (parseBuffer_stream_iff haccepted (by decide) (by decide) [describedPart]).mpr
    (by decide)⟩

/-- Without a header line the only frame of the stream is lost. -/
theorem barePart_frames :
    parseBoundaryFromContentType frameContentType = some [102] ∧
      (MjpegStreamSource.parseBuffer ⟨[102], stream [barePart]⟩).2 ≠
        [barePart].map Part.payload := by
  decide +kernel

end SmartDashboard.Camera
