import SmartDashboard.Library.Incremental

/-!
# The MJPEG stream reader

`ParseBuffer` of the stream source: the bytes that the network delivers are kept in a buffer, and
every part between two boundary markers is handed on as a JPEG frame. The source is looked at from
where it has the boundary of the stream.

Positions are natural numbers, so a buffer is left out that an `int` cannot index.

## Main definitions

- `nextPart`: one turn of the loop of `ParseBuffer`
- `MjpegStreamSource`, `onReadyRead`: the source and what it does with a chunk
- `TailBounded`: the buffer is never cleared for its size
-/

namespace SmartDashboard.Camera

open Execution Incremental

abbrev QByteArray := List UInt8

def carriageReturn : UInt8 := 13

def lineFeed : UInt8 := 10

def headerEnd : QByteArray := [carriageReturn, lineFeed, carriageReturn, lineFeed]

def kMaxBufferSize : ℕ := 10 * 1024 * 1024

/-- `marker` of a boundary: two dashes in front of it. -/
def markerOf (boundary : QByteArray) : QByteArray := [45, 45] ++ boundary

theorem markerOf_ne_nil (boundary : QByteArray) : markerOf boundary ≠ [] := by
  simp [markerOf]

/-- Past a byte, if it is there. -/
def skip (b : UInt8) (buffer : QByteArray) (position : ℕ) : ℕ :=
  if buffer[position]? = some b then position + 1 else position

/-- Where the headers of a part start whose marker is there. -/
def headerStart (marker buffer : QByteArray) (markerPos : ℕ) : ℕ :=
  skip lineFeed buffer (skip carriageReturn buffer (markerPos + marker.length))

/-- The bytes from `dataStart` to the next marker, less the line break in front of it. -/
def jpegData (buffer : QByteArray) (dataStart nextMarkerPos : ℕ) : List QByteArray :=
  let dataEnd :=
    if 2 ≤ nextMarkerPos ∧ buffer[nextMarkerPos - 2]? = some carriageReturn ∧
        buffer[nextMarkerPos - 1]? = some lineFeed then
      nextMarkerPos - 2
    else nextMarkerPos
  if dataStart < dataEnd then [(buffer.drop dataStart).take (dataEnd - dataStart)] else []

/-- One turn of the loop: the frame of the first part, if it has any bytes, and the buffer from the
next marker on. There is none until the next marker has arrived. -/
def nextPart (marker buffer : QByteArray) : Option (List QByteArray × QByteArray) := do
  let markerPos ← indexOf marker buffer 0
  let headerEndPos ← indexOf headerEnd buffer (headerStart marker buffer markerPos)
  let dataStart := headerEndPos + headerEnd.length
  let nextMarkerPos ← indexOf marker buffer dataStart
  some (jpegData buffer dataStart nextMarkerPos, buffer.drop nextMarkerPos)

structure MjpegStreamSource where
  boundary : QByteArray
  buffer : QByteArray := []
  deriving DecidableEq, Repr

namespace MjpegStreamSource

/-- The loop of `ParseBuffer`: the frames handed to `ProcessJpegFrame`, and the buffer it leaves. -/
def parseParts (source : MjpegStreamSource) : List QByteArray × QByteArray :=
  drain (nextPart (markerOf source.boundary)) source.buffer

def parseBuffer (source : MjpegStreamSource) : MjpegStreamSource × List QByteArray :=
  if source.boundary = [] then (source, [])
  else
    let (frames, buffer) := source.parseParts
    ({ source with buffer := if kMaxBufferSize < buffer.length then [] else buffer }, frames)

/-- What `OnReadyRead` does with the bytes that it reads. -/
def onReadyRead (source : MjpegStreamSource) (bytes : QByteArray) :
    MjpegStreamSource × List QByteArray :=
  parseBuffer { source with buffer := source.buffer ++ bytes }

/-- What is left of the buffer when no further part is in it. -/
def unconsumed (source : MjpegStreamSource) (bytes : QByteArray) : QByteArray :=
  if source.boundary = [] then source.buffer ++ bytes
  else (parseParts { source with buffer := source.buffer ++ bytes }).2

/-- Whatever chunk arrives, what it leaves fits the buffer. -/
def TailBounded (source : MjpegStreamSource) (chunks : List QByteArray) : Prop :=
  ∀ r ∈ history onReadyRead source chunks, (r.before.unconsumed r.input).length ≤ kMaxBufferSize

instance (source : MjpegStreamSource) (chunks : List QByteArray) :
    Decidable (source.TailBounded chunks) :=
  inferInstanceAs (Decidable (∀ r ∈ history onReadyRead source chunks, _))

/-- The frames that chunks lead to, in order. -/
def frames (source : MjpegStreamSource) (chunks : List QByteArray) : List QByteArray :=
  (history onReadyRead source chunks).flatMap Record.output

end MjpegStreamSource

/-! ### One part -/

variable {b : UInt8} {buffer more : QByteArray} {position : ℕ}

theorem le_skip : position ≤ skip b buffer position := by
  rw [skip]
  split <;> omega

theorem skip_append (h : position < buffer.length) (more : QByteArray) :
    skip b (buffer ++ more) position = skip b buffer position := by
  rw [skip, skip, List.getElem?_append_left h]

/-- The headers start where they did, if they start inside of what had arrived. -/
theorem headerStart_append {marker : QByteArray} {markerPos : ℕ}
    (h : headerStart marker buffer markerPos < buffer.length) (more : QByteArray) :
    headerStart marker (buffer ++ more) markerPos = headerStart marker buffer markerPos := by
  have hfirst : skip carriageReturn buffer (markerPos + marker.length) < buffer.length :=
    Nat.lt_of_le_of_lt le_skip h
  have hmarker : markerPos + marker.length < buffer.length := Nat.lt_of_le_of_lt le_skip hfirst
  rw [headerStart, headerStart, skip_append hmarker, skip_append hfirst]

theorem jpegData_append {dataStart nextMarkerPos : ℕ} (h : nextMarkerPos ≤ buffer.length)
    (hpos : 0 < nextMarkerPos) (more : QByteArray) :
    jpegData (buffer ++ more) dataStart nextMarkerPos =
      jpegData buffer dataStart nextMarkerPos := by
  have hget : ∀ k, 0 < k → (buffer ++ more)[nextMarkerPos - k]? = buffer[nextMarkerPos - k]? :=
    fun k hk => List.getElem?_append_left (by omega)
  simp only [jpegData, hget 2 (by decide), hget 1 (by decide)]
  -- the data ends at the marker or in front of it
  generalize hend : (if 2 ≤ nextMarkerPos ∧ buffer[nextMarkerPos - 2]? = some carriageReturn ∧
    buffer[nextMarkerPos - 1]? = some lineFeed then nextMarkerPos - 2 else nextMarkerPos) = dataEnd
  have hle : dataEnd ≤ nextMarkerPos := by
    rw [← hend]
    split <;> omega
  split
  case isTrue hlt =>
    rw [List.drop_append_of_le_length (by omega), List.take_append_of_le_length]
    rw [List.length_drop]
    omega
  case isFalse => rfl

/-- What a turn of the loop has found. -/
theorem nextPart_eq_some {marker rest : QByteArray} {frames : List QByteArray} :
    nextPart marker buffer = some (frames, rest) ↔
      ∃ markerPos headerEndPos nextMarkerPos, indexOf marker buffer 0 = some markerPos ∧
        indexOf headerEnd buffer (headerStart marker buffer markerPos) = some headerEndPos ∧
        indexOf marker buffer (headerEndPos + headerEnd.length) = some nextMarkerPos ∧
        jpegData buffer (headerEndPos + headerEnd.length) nextMarkerPos = frames ∧
        buffer.drop nextMarkerPos = rest := by
  simp only [nextPart, Option.bind_eq_bind, Option.bind_eq_some_iff, Option.some.injEq,
    Prod.mk.injEq]
  simp only [exists_and_left]

/-- What has been found of a part does not change when more arrives. -/
theorem incremental_nextPart {marker : QByteArray} (hmarker : marker ≠ []) :
    Incremental (nextPart marker) where
  shrinks {buffer frames rest} h := by
    obtain ⟨markerPos, headerEndPos, nextMarkerPos, -, hheader, hmarker', -, rfl⟩ :=
      nextPart_eq_some.mp h
    have hheader := indexOf_bounds hheader (by decide)
    have hmarker' := indexOf_bounds hmarker' hmarker
    have hlength : headerEnd.length = 4 := rfl
    rw [List.length_drop]
    omega
  stable {buffer frames rest} h more := by
    obtain ⟨markerPos, headerEndPos, nextMarkerPos, hfirst, hheader, hnext, rfl, rfl⟩ :=
      nextPart_eq_some.mp h
    have hheaderBounds := indexOf_bounds hheader (by decide)
    have hnextBounds := indexOf_bounds hnext hmarker
    have hlength : headerEnd.length = 4 := rfl
    refine nextPart_eq_some.mpr ⟨markerPos, headerEndPos, nextMarkerPos,
      indexOf_append hmarker hfirst more, ?_, indexOf_append hmarker hnext more, ?_, ?_⟩
    · rw [headerStart_append (by omega)]
      exact indexOf_append (by decide) hheader more
    · exact jpegData_append (by omega) (by omega) more
    · exact List.drop_append_of_le_length (by omega)

namespace MjpegStreamSource

/-! ### Chunks -/

/-- While the buffer is not cleared, a chunk is fed to the parser of parts. -/
theorem onReadyRead_eq {source : MjpegStreamSource} {bytes : QByteArray}
    (hboundary : source.boundary ≠ [])
    (htail : (source.unconsumed bytes).length ≤ kMaxBufferSize) :
    source.onReadyRead bytes =
      ({ source with buffer := (feed (nextPart (markerOf source.boundary)) source.buffer bytes).1 },
        (feed (nextPart (markerOf source.boundary)) source.buffer bytes).2) := by
  rw [unconsumed, if_neg hboundary] at htail
  simp only [onReadyRead, parseBuffer, if_neg hboundary, if_neg (Nat.not_lt.mpr htail)]
  rfl

/-- What chunks lead to is what is parsed of all of them at once. -/
theorem frames_eq {source : MjpegStreamSource} {chunks : List QByteArray}
    (hboundary : source.boundary ≠ [])
    (hbuffer : nextPart (markerOf source.boundary) source.buffer = none)
    (htail : source.TailBounded chunks) :
    let all := drain (nextPart (markerOf source.boundary)) (source.buffer ++ chunks.flatten)
    source.frames chunks = all.1 ∧
      after onReadyRead source chunks = { source with buffer := all.2 } := by
  intro all
  obtain ⟨hgiven, hrest⟩ :=
    (incremental_nextPart (markerOf_ne_nil source.boundary)).feed_chunks hbuffer chunks
  rw [← hgiven, ← hrest]
  clear hgiven hrest hbuffer all
  induction chunks generalizing source with
  | nil => exact ⟨rfl, rfl⟩
  | cons bytes chunks ih =>
    rw [TailBounded, history_cons, List.forall_mem_cons] at htail
    have hstep := onReadyRead_eq hboundary htail.1
    rw [hstep] at htail
    let buffer := (feed (nextPart (markerOf source.boundary)) source.buffer bytes).1
    obtain ⟨hframes, hafter⟩ := @ih { source with buffer := buffer } hboundary htail.2
    rw [frames, history_cons, after_cons, hstep, List.flatMap_cons]
    exact ⟨congrArg _ hframes, hafter⟩

/-- Without a boundary everything is kept. -/
theorem frames_of_boundary_eq_nil (source : MjpegStreamSource) (hboundary : source.boundary = [])
    (chunks : List QByteArray) :
    source.frames chunks = [] ∧
      after onReadyRead source chunks =
        { source with buffer := source.buffer ++ chunks.flatten } := by
  induction chunks generalizing source with
  | nil =>
    rw [List.flatten_nil, List.append_nil]
    exact ⟨rfl, rfl⟩
  | cons bytes chunks ih =>
    have hstep :
        source.onReadyRead bytes = ({ source with buffer := source.buffer ++ bytes }, []) :=
      if_pos hboundary
    obtain ⟨hframes, hafter⟩ := ih { source with buffer := source.buffer ++ bytes } hboundary
    rw [frames, history_cons, after_cons, hstep, List.flatMap_cons, List.flatten_cons,
      ← List.append_assoc]
    exact ⟨hframes, hafter⟩

/-- However a stream is cut into chunks, the frames are the same and so is what is left. -/
theorem frames_of_flatten_eq (boundary : QByteArray) {chunks chunks' : List QByteArray}
    (hstream : chunks.flatten = chunks'.flatten)
    (htail : TailBounded { boundary := boundary } chunks)
    (htail' : TailBounded { boundary := boundary } chunks') :
    frames { boundary := boundary } chunks = frames { boundary := boundary } chunks' ∧
      after onReadyRead { boundary := boundary } chunks =
        after onReadyRead { boundary := boundary } chunks' := by
  by_cases hboundary : boundary = []
  · obtain ⟨hframes, hafter⟩ :=
      frames_of_boundary_eq_nil { boundary := boundary } hboundary chunks
    obtain ⟨hframes', hafter'⟩ :=
      frames_of_boundary_eq_nil { boundary := boundary } hboundary chunks'
    rw [hframes, hframes', hafter, hafter', hstream]
    exact ⟨rfl, rfl⟩
  · have hempty : nextPart (markerOf boundary) [] = none := by
      cases h : nextPart (markerOf boundary) [] with
      | none => rfl
      | some part =>
        have hlt := (incremental_nextPart (markerOf_ne_nil boundary)).shrinks h
        exact absurd hlt (Nat.not_lt_zero _)
    obtain ⟨hframes, hafter⟩ := frames_eq hboundary hempty htail
    obtain ⟨hframes', hafter'⟩ := frames_eq hboundary hempty htail'
    rw [hframes, hframes', hafter, hafter', hstream]
    exact ⟨rfl, rfl⟩

/-- Two parts of a stream with the boundary `f`, and the marker of a third. -/
def twoParts : QByteArray :=
  [45, 45, 102, 13, 10, 104, 13, 10, 13, 10, 255, 216, 13, 10, 45, 45, 102, 13, 10, 104, 13, 10, 13,
    10, 255, 217, 13, 10, 45, 45, 102]

theorem twoParts_byteByByte :
    frames { boundary := [102] } [twoParts] =
        frames { boundary := [102] } (twoParts.map fun b => [b]) ∧
      after onReadyRead { boundary := [102] } [twoParts] =
        after onReadyRead { boundary := [102] } (twoParts.map fun b => [b]) :=
  frames_of_flatten_eq [102] (by decide) (by decide +kernel) (by decide +kernel)

example : frames { boundary := [102] } [twoParts] = [[255, 216], [255, 217]] := by
  decide +kernel

end MjpegStreamSource

end SmartDashboard.Camera
