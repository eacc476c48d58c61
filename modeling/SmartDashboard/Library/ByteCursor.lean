import Mathlib.Tactic.SplitIfs
import SmartDashboard.Library.ByteReader
import SmartDashboard.Library.CircularMemory

/-!
# Cursors into a buffer

A decoder that keeps a position in a buffer and takes the bytes from memory there. Nothing but its
own checks keeps it from reading behind the buffer or moving past its end, so a run is recorded
with every address that is read and every position that is taken. A cursor follows a reader of
byte strings if it ends, with what the reader makes of the bytes from the position on, and stays
inside the buffer.

## Main definitions

- `Buffer`: some bytes in memory; positions are 64-bit numbers
- `ByteCursor`, `Run`: cursors that may run out of fuel, and what one does
- `Follows`: a cursor does what a reader does, inside the buffer
- `Ends`: a run returns a value, inside the buffer
-/

open BigEndian

/-- The bytes of a buffer and those that lie behind it. No object is longer than `2 ^ 63 - 1`
bytes. -/
structure Buffer where
  bytes : List UInt8
  beyond : ℕ → UInt8
  length_lt : bytes.length < 2 ^ 63

namespace Buffer

def memory (buffer : Buffer) (i : ℕ) : UInt8 :=
  buffer.bytes[i]?.getD (buffer.beyond (i - buffer.bytes.length))

def size (buffer : Buffer) : ℕ :=
  buffer.bytes.length

end Buffer

/-- A byte that is read, or a position that the cursor moves to. -/
inductive CursorEvent where
  | read (i : ℕ)
  | move (pos : ℕ)

/-- The byte is one of the buffer's; the position is no later than its end. -/
def CursorEvent.Inside (size : ℕ) : CursorEvent → Prop
  | read i => i < size
  | move pos => pos ≤ size

/-- A run ends with a value or a failure, or its fuel runs out. -/
inductive Outcome (α : Type) where
  | returned (a : α)
  | failed
  | unfinished

def Outcome.ofOption {α : Type} : Option α → Outcome α
  | some a => returned a
  | none => failed

structure Run (α : Type) where
  outcome : Outcome α
  pos : ℕ
  events : List CursorEvent

def ByteCursor (α : Type) := Buffer → ℕ → Run α

namespace ByteCursor

variable {α β : Type}

instance : Monad ByteCursor where
  pure a _ pos := ⟨.returned a, pos, []⟩
  bind c f buffer pos :=
    let first := c buffer pos
    match first.outcome with
    | .returned a =>
      let second := f a buffer first.pos
      ⟨second.outcome, second.pos, first.events ++ second.events⟩
    | .failed => ⟨.failed, first.pos, first.events⟩
    | .unfinished => ⟨.unfinished, first.pos, first.events⟩

def fail : ByteCursor α := fun _ pos => ⟨.failed, pos, []⟩

def unfinished : ByteCursor α := fun _ pos => ⟨.unfinished, pos, []⟩

/-- `pos + n <= size`, where the sum is one of 64-bit numbers. -/
def hasRemaining (n : ℕ) : ByteCursor Bool := fun buffer pos =>
  ⟨.returned ((pos + n) % 2 ^ 64 ≤ buffer.size), pos, []⟩

/-- `pos += n`. -/
def advance (n : ℕ) : ByteCursor Unit := fun _ pos =>
  ⟨.returned (), (pos + n) % 2 ^ 64, [.move ((pos + n) % 2 ^ 64)]⟩

/-- The `n` bytes at the position, which stays where it is. -/
def bytesAt (n : ℕ) : ByteCursor (List UInt8) := fun buffer pos =>
  ⟨.returned (CircularMemory.load buffer.memory pos n), pos, (List.range' pos n).map .read⟩

/-- `data[pos]`. -/
def peekByte : ByteCursor UInt8 := fun buffer pos =>
  ⟨.returned (buffer.memory pos), pos, [.read pos]⟩

/-- `data[pos++]`. -/
def readByte : ByteCursor UInt8 := do
  let b ← peekByte
  advance 1
  pure b

/-- `if (!HasRemaining(n)) return false;` -/
def ensure (n : ℕ) : ByteCursor Unit := do
  if ← hasRemaining n then pure () else fail

/-- The next `n` bytes, after the check that there are as many. -/
def takeBytes (n : ℕ) : ByteCursor (List UInt8) := do
  ensure n
  let bytes ← bytesAt n
  advance n
  pure bytes

/-- The big-endian number of the next `width` bytes, after the check. -/
def readBE (width : ℕ) : ByteCursor ℕ := do
  let bytes ← takeBytes width
  pure (beValue bytes)

/-- Move on by `n` bytes, after the check, without a look at them. -/
def passBytes (n : ℕ) : ByteCursor Unit := do
  ensure n
  advance n

/-- Read on, whether or not `c` failed. -/
def attempt (c : ByteCursor α) : ByteCursor (Option α) := fun buffer pos =>
  let run := c buffer pos
  match run.outcome with
  | .returned a => ⟨.returned (some a), run.pos, run.events⟩
  | .failed => ⟨.returned none, run.pos, run.events⟩
  | .unfinished => ⟨.unfinished, run.pos, run.events⟩

/-- A loop of `n` turns, which the first failure ends. -/
def times (c : ByteCursor α) : ℕ → ByteCursor (List α)
  | 0 => pure []
  | n + 1 => do
    let a ← c
    let as ← times c n
    pure (a :: as)

/-- `pos < size`. -/
def hasMore : ByteCursor Bool := fun buffer pos => ⟨.returned (pos < buffer.size), pos, []⟩

/-- From a position on, the cursor ends with what the reader makes of the bytes from there on, in
front of the bytes that the reader leaves, and it stays in the buffer. -/
structure FollowsAt (buffer : Buffer) (c : ByteCursor α) (r : ByteReader α) (pos : ℕ) : Prop where
  outcome : (c buffer pos).outcome = .ofOption (r (buffer.bytes.drop pos)).1
  rest : buffer.bytes.drop (c buffer pos).pos = (r (buffer.bytes.drop pos)).2
  le_pos : pos ≤ (c buffer pos).pos
  pos_le : (c buffer pos).pos ≤ buffer.size
  inside : ∀ event ∈ (c buffer pos).events, event.Inside buffer.size

/-- The run returns the value, inside the buffer. -/
structure Ends (buffer : Buffer) (run : Run α) (a : α) : Prop where
  outcome : run.outcome = .returned a
  pos_le : run.pos ≤ buffer.size
  inside : ∀ event ∈ run.events, event.Inside buffer.size

/-- From every position that is not before `low`. -/
def Follows (buffer : Buffer) (low : ℕ) (c : ByteCursor α) (r : ByteReader α) : Prop :=
  ∀ pos, low ≤ pos → pos ≤ buffer.size → FollowsAt buffer c r pos

variable {buffer : Buffer} {low pos n : ℕ} {c : ByteCursor α} {r : ByteReader α}

theorem Follows.mono {low' : ℕ} (h : Follows buffer low c r) (hlow : low ≤ low') :
    Follows buffer low' c r :=
  fun pos hpos => h pos (hlow.trans hpos)

theorem FollowsAt.of_eq {c' : ByteCursor α} (h : FollowsAt buffer c r pos)
    (hrun : c' buffer pos = c buffer pos) : FollowsAt buffer c' r pos := by
  constructor <;> rw [hrun]
  · exact h.outcome
  · exact h.rest
  · exact h.le_pos
  · exact h.pos_le
  · exact h.inside

theorem follows_pure (a : α) : Follows buffer low (pure a) (pure a) := fun _ _ hpos =>
  ⟨rfl, rfl, le_rfl, hpos, fun _ hevent => absurd hevent List.not_mem_nil⟩

theorem follows_fail : Follows buffer low (fail : ByteCursor α) ByteReader.fail := fun _ _ hpos =>
  ⟨rfl, rfl, le_rfl, hpos, fun _ hevent => absurd hevent List.not_mem_nil⟩

theorem Follows.ite {p : Prop} [Decidable p] {c' : ByteCursor α} {r' : ByteReader α}
    (h : Follows buffer low c r) (h' : Follows buffer low c' r') :
    Follows buffer low (if p then c else c') (if p then r else r') := by
  split
  · exact h
  · exact h'

theorem bind_of_returned {f : α → ByteCursor β} {a : α}
    (h : (c buffer pos).outcome = .returned a) :
    (c >>= f) buffer pos =
      ⟨(f a buffer (c buffer pos).pos).outcome, (f a buffer (c buffer pos).pos).pos,
        (c buffer pos).events ++ (f a buffer (c buffer pos).pos).events⟩ := by
  show (match (c buffer pos).outcome with
    | .returned a => _
    | .failed => _
    | .unfinished => _) = _
  rw [h]

theorem bind_of_failed {f : α → ByteCursor β} (h : (c buffer pos).outcome = .failed) :
    (c >>= f) buffer pos = ⟨.failed, (c buffer pos).pos, (c buffer pos).events⟩ := by
  show (match (c buffer pos).outcome with
    | .returned a => _
    | .failed => _
    | .unfinished => _) = _
  rw [h]

/-- A cursor followed by another, which starts where the first one stopped. -/
theorem FollowsAt.bind {f : α → ByteCursor β} {g : α → ByteReader β} (h : FollowsAt buffer c r pos)
    (hf : ∀ a, (r (buffer.bytes.drop pos)).1 = some a →
      FollowsAt buffer (f a) (g a) (c buffer pos).pos) :
    FollowsAt buffer (c >>= f) (r >>= g) pos := by
  obtain ⟨houtcome, hrest, hle, hend, hinside⟩ := h
  cases hread : r (buffer.bytes.drop pos) with
  | mk a? rest =>
    rw [hread] at houtcome hrest
    cases a? with
    | none =>
      have hbind : (r >>= g) (buffer.bytes.drop pos) = (none, rest) := by
        rw [ByteReader.bind_apply, hread]
      constructor <;> rw [bind_of_failed houtcome]
      · rw [hbind]
        rfl
      · rw [hbind]
        exact hrest
      · exact hle
      · exact hend
      · exact hinside
    | some a =>
      have hbind : (r >>= g) (buffer.bytes.drop pos) = g a rest := by
        rw [ByteReader.bind_apply, hread]
      obtain ⟨houtcome', hrest', hle', hend', hinside'⟩ := hf a (by rw [hread])
      rw [hrest] at houtcome' hrest'
      constructor <;> rw [bind_of_returned houtcome]
      · rw [hbind]
        exact houtcome'
      · rw [hbind]
        exact hrest'
      · exact hle.trans hle'
      · exact hend'
      · intro event hevent
        obtain hfirst | hsecond := List.mem_append.mp hevent
        · exact hinside event hfirst
        · exact hinside' event hsecond

/-- What comes second may rely on what the first one can return. -/
theorem Follows.bind_of {f : α → ByteCursor β} {g : α → ByteReader β} {p : α → Prop}
    (h : Follows buffer low c r) (hr : ∀ bytes a, (r bytes).1 = some a → p a)
    (hf : ∀ a, p a → Follows buffer low (f a) (g a)) : Follows buffer low (c >>= f) (r >>= g) :=
  fun pos hlow hpos => (h pos hlow hpos).bind fun a ha =>
    hf a (hr _ a ha) _ (hlow.trans (h pos hlow hpos).le_pos) (h pos hlow hpos).pos_le

theorem Follows.bind {f : α → ByteCursor β} {g : α → ByteReader β} (h : Follows buffer low c r)
    (hf : ∀ a, Follows buffer low (f a) (g a)) : Follows buffer low (c >>= f) (r >>= g) :=
  h.bind_of (fun _ _ _ => trivial) fun a _ => hf a

theorem Follows.attempt (h : Follows buffer low c r) :
    Follows buffer low (ByteCursor.attempt c) (ByteReader.attempt r) := by
  intro pos hlow hpos
  obtain ⟨houtcome, hrest, hle, hend, hinside⟩ := h pos hlow hpos
  have hrun : ByteCursor.attempt c buffer pos =
      ⟨.returned (r (buffer.bytes.drop pos)).1, (c buffer pos).pos, (c buffer pos).events⟩ := by
    show (match (c buffer pos).outcome with
      | .returned a => _
      | .failed => _
      | .unfinished => _) = _
    rw [houtcome]
    cases (r (buffer.bytes.drop pos)).1 <;> rfl
  constructor <;> rw [hrun]
  · rfl
  · exact hrest
  · exact hle
  · exact hend
  · exact hinside

/-- A cursor that reads on after a failure does not fail. -/
theorem Follows.ends_attempt (h : Follows buffer low c r) (hlow : low ≤ pos)
    (hpos : pos ≤ buffer.size) :
    Ends buffer (ByteCursor.attempt c buffer pos) (r (buffer.bytes.drop pos)).1 :=
  have hrun := h.attempt pos hlow hpos
  ⟨hrun.outcome, hrun.pos_le, hrun.inside⟩

theorem ends_pure (hpos : pos ≤ buffer.size) (a : α) :
    Ends buffer ((pure a : ByteCursor α) buffer pos) a :=
  ⟨rfl, hpos, fun _ hevent => absurd hevent List.not_mem_nil⟩

theorem Ends.bind {f : α → ByteCursor β} {a : α} {b : β} (h : Ends buffer (c buffer pos) a)
    (hf : Ends buffer (f a buffer (c buffer pos).pos) b) :
    Ends buffer ((c >>= f) buffer pos) b := by
  rw [bind_of_returned h.outcome]
  refine ⟨hf.outcome, hf.pos_le, fun event hevent => ?_⟩
  obtain hfirst | hsecond := List.mem_append.mp hevent
  · exact h.inside event hfirst
  · exact hf.inside event hsecond

theorem Follows.times (h : Follows buffer low c r) :
    ∀ n, Follows buffer low (ByteCursor.times c n) (ByteReader.times r n)
  | 0 => follows_pure []
  | n + 1 => h.bind fun a => (h.times n).bind fun as => follows_pure (a :: as)

theorem ends_hasMore (hpos : pos ≤ buffer.size) :
    Ends buffer (hasMore buffer pos) (pos < buffer.size) :=
  ⟨rfl, hpos, fun _ hevent => absurd hevent List.not_mem_nil⟩

/-! ## The checked reads -/

theorem hasRemaining_eq (hpos : pos ≤ buffer.size) (hn : n < 2 ^ 63) :
    hasRemaining n buffer pos = ⟨.returned (pos + n ≤ buffer.size), pos, []⟩ := by
  have hsize := buffer.length_lt
  rw [Buffer.size] at hpos
  rw [hasRemaining, Nat.mod_eq_of_lt (by omega)]

theorem advance_eq (h : pos + n ≤ buffer.size) :
    advance n buffer pos = ⟨.returned (), pos + n, [.move (pos + n)]⟩ := by
  have hsize := buffer.length_lt
  rw [Buffer.size] at h
  rw [advance, Nat.mod_eq_of_lt (by omega)]

theorem bytesAt_eq (h : pos + n ≤ buffer.size) :
    bytesAt n buffer pos =
      ⟨.returned ((buffer.bytes.drop pos).take n), pos, (List.range' pos n).map .read⟩ := by
  rw [bytesAt, CircularMemory.load_of_getElem _ _ h]
  intro i hi
  rw [Buffer.memory, List.getElem?_eq_getElem hi]
  rfl

theorem ensure_eq (hpos : pos ≤ buffer.size) (hn : n < 2 ^ 63) :
    ensure n buffer pos =
      if pos + n ≤ buffer.size then ⟨.returned (), pos, []⟩ else ⟨.failed, pos, []⟩ := by
  have houtcome : (hasRemaining n buffer pos).outcome = .returned (pos + n ≤ buffer.size) := by
    rw [hasRemaining_eq hpos hn]
  rw [ensure, bind_of_returned houtcome, hasRemaining_eq hpos hn]
  by_cases h : pos + n ≤ buffer.size
  · rw [decide_eq_true h, if_pos rfl, if_pos h]
    rfl
  · rw [decide_eq_false h, if_neg Bool.false_ne_true, if_neg h]
    rfl

/-- After the check a cursor is where it was, with as many bytes before it; otherwise it fails. -/
theorem followsAt_ensure {f : ByteCursor α} (hpos : pos ≤ buffer.size) (hn : n < 2 ^ 63)
    (hroom : pos + n ≤ buffer.size → FollowsAt buffer f r pos)
    (hshort : buffer.size < pos + n → r (buffer.bytes.drop pos) = (none, buffer.bytes.drop pos)) :
    FollowsAt buffer (ensure n >>= fun _ => f) r pos := by
  by_cases h : pos + n ≤ buffer.size
  · have hrun : (ensure n >>= fun _ => f) buffer pos = f buffer pos := by
      have houtcome : (ensure n buffer pos).outcome = .returned () := by
        rw [ensure_eq hpos hn, if_pos h]
      rw [bind_of_returned houtcome, ensure_eq hpos hn, if_pos h]
      rfl
    exact (hroom h).of_eq hrun
  · have hrun : (ensure n >>= fun _ => f) buffer pos = ⟨.failed, pos, []⟩ := by
      have houtcome : (ensure n buffer pos).outcome = .failed := by
        rw [ensure_eq hpos hn, if_neg h]
      rw [bind_of_failed houtcome, ensure_eq hpos hn, if_neg h]
    have hread := hshort (Nat.lt_of_not_le h)
    constructor <;> rw [hrun]
    · rw [hread]
      rfl
    · rw [hread]
    · exact hpos
    · exact fun _ hevent => absurd hevent List.not_mem_nil

/-- The checked reads take what `take` takes. -/
theorem follows_takeBytes (hn : n < 2 ^ 63) :
    Follows buffer low (takeBytes n) (ByteReader.take n) := by
  intro pos _ hpos
  have hlength : (buffer.bytes.drop pos).length = buffer.size - pos := List.length_drop
  refine followsAt_ensure hpos hn (fun hroom => ?_) fun hshort => ?_
  · have hread : ByteReader.take n (buffer.bytes.drop pos) =
        (some ((buffer.bytes.drop pos).take n), (buffer.bytes.drop pos).drop n) := by
      rw [ByteReader.take, if_pos (by omega)]
    have hrun : (do
        let bytes ← bytesAt n
        advance n
        pure bytes : ByteCursor (List UInt8)) buffer pos =
        ⟨.returned ((buffer.bytes.drop pos).take n), pos + n,
          (List.range' pos n).map .read ++ [.move (pos + n)]⟩ := by
      have hbytes := bytesAt_eq hroom
      have hmove := advance_eq hroom
      rw [bind_of_returned (by rw [hbytes]), hbytes, bind_of_returned (by rw [hmove]), hmove]
      rfl
    constructor <;> rw [hrun]
    · rw [hread]
      rfl
    · rw [hread, List.drop_drop]
    · exact Nat.le_add_right pos n
    · exact hroom
    · intro event hevent
      obtain hreads | hmove := List.mem_append.mp hevent
      · obtain ⟨i, hi, rfl⟩ := List.mem_map.mp hreads
        have hi := List.mem_range'_1.mp hi
        show i < buffer.size
        omega
      · rw [List.mem_singleton.mp hmove]
        exact hroom
  · rw [ByteReader.take, if_neg (by omega)]

theorem follows_passBytes (hn : n < 2 ^ 63) :
    Follows buffer low (passBytes n) (ByteReader.take n >>= fun _ => pure ()) := by
  intro pos _ hpos
  have hlength : (buffer.bytes.drop pos).length = buffer.size - pos := List.length_drop
  refine followsAt_ensure hpos hn (fun hroom => ?_) fun hshort => ?_
  · have hread : (ByteReader.take n >>= fun _ => pure () : ByteReader Unit)
        (buffer.bytes.drop pos) = (some (), buffer.bytes.drop (pos + n)) := by
      rw [ByteReader.bind_apply, ByteReader.take, if_pos (by omega), List.drop_drop]
      rfl
    constructor <;> rw [advance_eq hroom]
    · rw [hread]
      rfl
    · rw [hread]
    · exact Nat.le_add_right pos n
    · exact hroom
    · intro event hevent
      rw [List.mem_singleton.mp hevent]
      exact hroom
  · rw [ByteReader.bind_apply, ByteReader.take, if_neg (by omega)]

theorem follows_readBE {width : ℕ} (hwidth : width < 2 ^ 63) :
    Follows buffer low (readBE width) (ByteReader.number width) :=
  (follows_takeBytes hwidth).bind fun _ => follows_pure _

/-- What is done with a number may rely on its width. -/
theorem follows_readBE_bind {width : ℕ} {f : ℕ → ByteCursor α} {g : ℕ → ByteReader α}
    (hwidth : width < 2 ^ 63) (hf : ∀ n < 256 ^ width, Follows buffer low (f n) (g n)) :
    Follows buffer low (readBE width >>= f) (ByteReader.number width >>= g) :=
  (follows_readBE hwidth).bind_of (fun _ _ => ByteReader.number_lt) hf

theorem drop_eq_cons (hpos : pos < buffer.bytes.length) :
    buffer.bytes.drop pos = buffer.bytes[pos] :: buffer.bytes.drop (pos + 1) :=
  List.drop_eq_getElem_cons hpos

theorem peekByte_eq (hpos : pos < buffer.bytes.length) :
    peekByte buffer pos = ⟨.returned buffer.bytes[pos], pos, [.read pos]⟩ := by
  rw [peekByte, Buffer.memory, List.getElem?_eq_getElem hpos]
  rfl

theorem readByte_eq (hpos : pos < buffer.bytes.length) :
    readByte buffer pos =
      ⟨.returned buffer.bytes[pos], pos + 1, [.read pos, .move (pos + 1)]⟩ := by
  have hpeek := peekByte_eq hpos
  have hmove : advance 1 buffer pos = ⟨.returned (), pos + 1, [.move (pos + 1)]⟩ :=
    advance_eq hpos
  rw [readByte, bind_of_returned (by rw [hpeek]), hpeek, bind_of_returned (by rw [hmove]), hmove]
  rfl

theorem followsAt_peekByte (hpos : pos < buffer.bytes.length) :
    FollowsAt buffer peekByte ByteReader.peek pos := by
  constructor <;> rw [peekByte_eq hpos]
  · rw [drop_eq_cons hpos]
    rfl
  · rw [drop_eq_cons hpos]
    rfl
  · exact hpos.le
  · intro event hevent
    rw [List.mem_singleton.mp hevent]
    exact hpos

/-- There is a byte left to take. -/
theorem followsAt_readByte (hpos : pos < buffer.bytes.length) :
    FollowsAt buffer readByte ByteReader.byte pos := by
  constructor <;> rw [readByte_eq hpos]
  · rw [drop_eq_cons hpos]
    rfl
  · rw [drop_eq_cons hpos]
    rfl
  · exact Nat.le_succ pos
  · exact hpos
  · intro event hevent
    obtain rfl | hmove := List.mem_cons.mp hevent
    · exact hpos
    · rw [List.mem_singleton.mp hmove]
      exact hpos

/-- A byte is taken, so what follows starts further on. -/
theorem follows_byte_bind {f : UInt8 → ByteCursor α} {g : UInt8 → ByteReader α}
    (hf : ∀ b, Follows buffer (low + 1) (f b) (g b)) :
    Follows buffer low (ensure 1 >>= fun _ => readByte >>= f) (ByteReader.byte >>= g) := by
  intro pos hlow hpos
  refine followsAt_ensure hpos (by decide) (fun hroom => ?_) fun hshort => ?_
  · have hread := followsAt_readByte hroom
    refine hread.bind fun b _ => hf b _ ?_ hread.pos_le
    rw [readByte_eq hroom]
    exact Nat.succ_le_succ hlow
  · have hend : buffer.bytes.drop pos = [] := List.drop_eq_nil_of_le (Nat.le_of_lt_succ hshort)
    rw [hend]
    rfl

/-- A byte is looked at, so there is one to take. -/
theorem follows_peek_bind {f : UInt8 → ByteCursor α} {g : UInt8 → ByteReader α}
    (hf : ∀ b pos, low ≤ pos → pos < buffer.bytes.length → FollowsAt buffer (f b) (g b) pos) :
    Follows buffer low (ensure 1 >>= fun _ => peekByte >>= f) (ByteReader.peek >>= g) := by
  intro pos hlow hpos
  refine followsAt_ensure hpos (by decide) (fun hroom => ?_) fun hshort => ?_
  · refine (followsAt_peekByte hroom).bind fun b _ => ?_
    rw [peekByte_eq hroom]
    exact hf b pos hlow hroom
  · have hend : buffer.bytes.drop pos = [] := List.drop_eq_nil_of_le (Nat.le_of_lt_succ hshort)
    rw [hend]
    rfl

end ByteCursor
