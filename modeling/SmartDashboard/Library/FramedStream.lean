import SmartDashboard.Library.Execution

/-!
# Frames on a byte stream

A receiver that reads frames off a stream which arrives in pieces: first a header of fixed size,
then as many bytes as the header announces. A read that gets nothing in time is repeated from the
start while the header is read, and ends the loop while the payload is. As long as reads only time
out between frames, the consumer is given the frames that were sent, in order, however the stream
is cut into pieces.

## Main definitions

- `Framing`: the size of a header, how it is read and what it announces
- `Receiver`, `Framing.turn`: what is being received, and one turn of a read
- `Loop`, `Loop.next`: the receiver and a consumer that may leave the loop
- `Undisturbed`: no read times out inside a frame

## Main results

- `turn_data`: what one piece of the stream of some frames leads to
- `run_frames`: the consumer is given the frames that have arrived
- `run_wholeFrames`: a stream that comes frame by frame is run to its end
-/

namespace SmartDashboard.FramedStream

open Execution

/-- How a stream is made of frames: a header of `headerBytes` bytes, and what stands behind it. -/
structure Framing (κ : Type*) where
  headerBytes : ℕ
  readHeader : List UInt8 → Option κ
  payloadBytes : κ → ℕ

/-- One turn of a read: it gets some bytes, it waits in vain, or the stream has ended. -/
inductive Turn
  | data (bytes : List UInt8)
  | timeout
  | ended
  deriving DecidableEq, Repr

/-- What a turn adds to the bytes received. -/
def Turn.bytes : Turn → List UInt8
  | .data bytes => bytes
  | .timeout | .ended => []

/-- What a loop is receiving, with the bytes it has of it. -/
inductive Receiver (κ : Type*)
  | header (received : List UInt8)
  | payload (header : κ) (received : List UInt8)
  | left
  deriving DecidableEq

/-- What a loop hands to its consumer. -/
inductive Item (κ : Type*)
  | frame (header : κ) (payload : List UInt8)
  | idle

variable {κ σ τ : Type*}

def Item.frame? : Item κ → Option (κ × List UInt8)
  | .frame header payload => some (header, payload)
  | .idle => none

namespace Framing

variable (framing : Framing κ)

/-- The bytes that the read at work still asks for. -/
def wanted : Receiver κ → ℕ
  | .header received => framing.headerBytes - received.length
  | .payload header received => framing.payloadBytes header - received.length
  | .left => 0

/-- The loop after a read got `bytes`. -/
def take : Receiver κ → List UInt8 → Receiver κ × Option (Item κ)
  | .header received, bytes =>
    if (received ++ bytes).length < framing.headerBytes then (.header (received ++ bytes), none)
    else
      match framing.readHeader (received ++ bytes) with
      | none => (.left, none)
      | some header =>
        if framing.payloadBytes header = 0 then (.header [], some (.frame header []))
        else (.payload header [], none)
  | .payload header received, bytes =>
    if (received ++ bytes).length < framing.payloadBytes header then
      (.payload header (received ++ bytes), none)
    else (.header [], some (.frame header (received ++ bytes)))
  | .left, _ => (.left, none)

/-- One turn; a read gets at least one byte and at most as many as it asks for. -/
def turn (receiver : Receiver κ) : Turn → Option (Receiver κ × Option (Item κ))
  | .data bytes =>
    if bytes ≠ [] ∧ bytes.length ≤ framing.wanted receiver then some (framing.take receiver bytes)
    else none
  | .timeout =>
    match receiver with
    | .header _ => some (.header [], some .idle)
    | .payload _ _ => some (.left, none)
    | .left => none
  | .ended =>
    match receiver with
    | .left => none
    | _ => some (.left, none)

end Framing

/-- A receive loop: the receiver, and the state of what consumes its items. -/
structure Loop (κ σ : Type*) where
  receiver : Receiver κ
  state : σ
  deriving DecidableEq

/-- One turn of the loop at the time `now`; a consumer that gives nothing leaves the loop. -/
def Loop.next (framing : Framing κ) (handle : σ → τ → Item κ → Option σ) (loop : Loop κ σ)
    (step : τ × Turn) : Option (Loop κ σ) :=
  match framing.turn loop.receiver step.2 with
  | none => none
  | some (receiver, none) => some { loop with receiver }
  | some (receiver, some item) =>
    match handle loop.state step.1 item with
    | some state => some { receiver, state }
    | none => some { loop with receiver := .left }

/-- The time of a turn that waited in vain. -/
def timeout? : τ × Turn → Option τ
  | (now, .timeout) => some now
  | (_, .data _) | (_, .ended) => none

/-- The time of an item that stands for such a turn. -/
def idle? : τ × Item κ → Option τ
  | (now, .idle) => some now
  | (_, .frame _ _) => none

/-- The bytes that all turns together received. -/
def received (steps : List (τ × Turn)) : List UInt8 := steps.flatMap fun step => step.2.bytes

/-- No read ends or times out inside a frame, and a timeout between frames is `calm`. -/
def Undisturbed (calm : σ → τ → Prop) (loop : Loop κ σ) (step : τ × Turn) : Prop :=
  step.2 ≠ .ended ∧ (step.2 = .timeout → loop.receiver = .header [] ∧ calm loop.state step.1)

instance [DecidableEq κ] (calm : σ → τ → Prop) [∀ s now, Decidable (calm s now)]
    (loop : Loop κ σ) (step : τ × Turn) : Decidable (Undisturbed calm loop step) :=
  inferInstanceAs (Decidable (_ ∧ (_ → _ ∧ _)))

/-! ### Sending -/

section Sending

variable (framing : Framing κ) (write : κ → List UInt8)

def encode (frames : List (κ × List UInt8)) : List UInt8 :=
  frames.flatMap fun frame => write frame.1 ++ frame.2

/-- The header is read back and announces the payload. -/
structure Framing.Carries (frame : κ × List UInt8) : Prop where
  length_write : (write frame.1).length = framing.headerBytes
  readHeader_write : framing.readHeader (write frame.1) = some frame.1
  length_payload : frame.2.length = framing.payloadBytes frame.1

/-- The bytes of the frame at work that have been received. -/
def Receiver.pending : Receiver κ → List UInt8
  | .header received => received
  | .payload head received => write head ++ received
  | .left => []

/-- The loop is inside the frame at work. -/
def Framing.Waits : Receiver κ → Prop
  | .header received => received.length < framing.headerBytes
  | .payload header received =>
    (write header).length = framing.headerBytes ∧
      framing.readHeader (write header) = some header ∧
      received.length < framing.payloadBytes header
  | .left => False

end Sending

section Receiving

variable {framing : Framing κ} {write : κ → List UInt8}

@[simp] theorem encode_nil : encode write [] = [] := rfl

@[simp] theorem encode_cons (frame : κ × List UInt8) (frames : List (κ × List UInt8)) :
    encode write (frame :: frames) = write frame.1 ++ (frame.2 ++ encode write frames) := by
  rw [encode, List.flatMap_cons, List.append_assoc, encode]

/-- A receiver that has nothing of the next frame. -/
theorem pending_eq_nil {receiver : Receiver κ} (hpos : 0 < framing.headerBytes)
    (hwaits : framing.Waits write receiver) (h : receiver.pending write = []) :
    receiver = .header [] := by
  cases receiver with
  | header received => exact congrArg _ h
  | payload header received =>
    obtain ⟨hlength, -, -⟩ := hwaits
    have hwrite : write header = [] := (List.append_eq_nil_iff.mp h).1
    rw [hwrite] at hlength
    exact absurd hlength (Nat.ne_of_lt hpos)
  | left => exact hwaits.elim

/-- The bytes at the front of a stream are those of the header. -/
theorem header_of_stream {frames : List (κ × List UInt8)}
    (hcarries : ∀ frame ∈ frames, framing.Carries write frame) {header rest : List UInt8}
    (hpos : 0 < framing.headerBytes) (hlength : header.length = framing.headerBytes)
    (h : encode write frames = header ++ rest) :
    ∃ frame frames', frames = frame :: frames' ∧ header = write frame.1 ∧
      rest = frame.2 ++ encode write frames' := by
  cases frames with
  | nil =>
    have hheader : header = [] := (List.append_eq_nil_iff.mp h.symm).1
    rw [hheader] at hlength
    exact absurd hlength (Nat.ne_of_lt hpos)
  | cons frame frames' =>
    have hwrite := (hcarries frame List.mem_cons_self).length_write
    rw [encode_cons] at h
    obtain ⟨hheader, hrest⟩ := List.append_inj h (hwrite.trans hlength.symm)
    exact ⟨frame, frames', rfl, hheader.symm, hrest.symm⟩

/-- Where a loop stands in a stream: the frames still to come, of which it has the first bytes. -/
structure Framing.StandsAt (framing : Framing κ) (write : κ → List UInt8) (receiver : Receiver κ)
    (frames : List (κ × List UInt8)) (rest : List UInt8) : Prop where
  waits : framing.Waits write receiver
  stream : encode write frames = receiver.pending write ++ rest

theorem Framing.StandsAt.start {frames : List (κ × List UInt8)} {bytes : List UInt8}
    (hpos : 0 < framing.headerBytes) (h : encode write frames = bytes) :
    framing.StandsAt write (.header []) frames bytes := ⟨hpos, h⟩

/-- A piece of the stream is kept, or it completes the frame at work. -/
theorem turn_data {receiver receiver' : Receiver κ} {item : Option (Item κ)}
    {frames : List (κ × List UInt8)} {bytes rest : List UInt8}
    (hpos : 0 < framing.headerBytes)
    (hcarries : ∀ frame ∈ frames, framing.Carries write frame)
    (hstands : framing.StandsAt write receiver frames (bytes ++ rest))
    (hturn : framing.turn receiver (.data bytes) = some (receiver', item)) :
    (item = none ∧ framing.StandsAt write receiver' frames rest) ∨
      ∃ frame frames', frames = frame :: frames' ∧ item = some (.frame frame.1 frame.2) ∧
        framing.StandsAt write receiver' frames' rest := by
  obtain ⟨hwaits, hstream⟩ := hstands
  rw [Framing.turn, Option.ite_none_right_eq_some] at hturn
  obtain ⟨⟨-, hroom⟩, hturn⟩ := hturn
  rw [Option.some.injEq] at hturn
  cases receiver with
  | left => exact hwaits.elim
  | header received =>
    have hlt : received.length < framing.headerBytes := hwaits
    rw [Framing.wanted] at hroom
    rw [Receiver.pending, ← List.append_assoc] at hstream
    rw [Framing.take] at hturn
    by_cases hmore : (received ++ bytes).length < framing.headerBytes
    · rw [if_pos hmore, Prod.mk.injEq] at hturn
      obtain ⟨rfl, rfl⟩ := hturn
      exact .inl ⟨rfl, hmore, hstream⟩
    · have hfull : (received ++ bytes).length = framing.headerBytes := by
        rw [List.length_append] at hmore ⊢
        omega
      obtain ⟨frame, frames', rfl, hheader, hrest⟩ :=
        header_of_stream hcarries hpos hfull hstream
      obtain ⟨hwrite, hread, hpayload⟩ := hcarries frame List.mem_cons_self
      rw [if_neg hmore, hheader, hread] at hturn
      simp only at hturn
      by_cases hempty : framing.payloadBytes frame.1 = 0
      · rw [if_pos hempty, Prod.mk.injEq] at hturn
        obtain ⟨rfl, rfl⟩ := hturn
        have hnil : frame.2 = [] := List.eq_nil_of_length_eq_zero (hpayload.trans hempty)
        refine .inr ⟨frame, frames', rfl, by rw [hnil], hpos, ?_⟩
        rw [hrest, hnil]
        rfl
      · rw [if_neg hempty, Prod.mk.injEq] at hturn
        obtain ⟨rfl, rfl⟩ := hturn
        refine .inl ⟨rfl, ⟨hwrite, hread, Nat.pos_of_ne_zero hempty⟩, ?_⟩
        rw [encode_cons, hrest, Receiver.pending, List.append_nil]
  | payload header received =>
    obtain ⟨hwrite, hread, hlt⟩ := hwaits
    rw [Framing.wanted] at hroom
    rw [Receiver.pending, List.append_assoc, ← List.append_assoc received] at hstream
    obtain ⟨frame, frames', rfl, hheader, hrest⟩ := header_of_stream hcarries hpos hwrite hstream
    obtain ⟨-, hframe, hpayload⟩ := hcarries frame List.mem_cons_self
    obtain rfl : header = frame.1 := by
      rw [hheader, hframe] at hread
      exact (Option.some.inj hread).symm
    rw [Framing.take] at hturn
    by_cases hmore : (received ++ bytes).length < framing.payloadBytes frame.1
    · rw [if_pos hmore, Prod.mk.injEq] at hturn
      obtain ⟨rfl, rfl⟩ := hturn
      refine .inl ⟨rfl, ⟨hwrite, hread, hmore⟩, ?_⟩
      rw [encode_cons, ← hrest, Receiver.pending, List.append_assoc (write frame.1)]
    · have hfull : (received ++ bytes).length = framing.payloadBytes frame.1 := by
        rw [List.length_append] at hmore ⊢
        omega
      rw [if_neg hmore, Prod.mk.injEq] at hturn
      obtain ⟨rfl, rfl⟩ := hturn
      obtain ⟨hbody, hrest⟩ := List.append_inj hrest (hfull.trans hpayload.symm)
      exact .inr ⟨frame, frames', rfl, by rw [hbody], hpos, hrest.symm⟩

/-- A read asks for no more than what is missing of the frame at work. -/
theorem wanted_le {receiver : Receiver κ} {frame : κ × List UInt8} {missing : List UInt8}
    (hcarries : framing.Carries write frame)
    (hstands : framing.StandsAt write receiver [frame] missing) :
    framing.wanted receiver ≤ missing.length := by
  obtain ⟨hwaits, hstream⟩ := hstands
  obtain ⟨hwrite, hread, hpayload⟩ := hcarries
  rw [encode_cons, encode_nil, List.append_nil] at hstream
  have hlength := congrArg List.length hstream
  rw [List.length_append, hwrite, hpayload, List.length_append] at hlength
  cases receiver with
  | left => exact hwaits.elim
  | header received =>
    rw [Receiver.pending] at hlength
    rw [Framing.wanted]
    omega
  | payload header received =>
    obtain ⟨hheader, hreads, -⟩ := hwaits
    rw [Receiver.pending, List.append_assoc] at hstream
    obtain ⟨heq, -⟩ := List.append_inj hstream (hwrite.trans hheader.symm)
    obtain rfl : frame.1 = header := by
      rw [heq, hreads] at hread
      exact (Option.some.inj hread).symm
    rw [Receiver.pending, List.length_append, hwrite] at hlength
    rw [Framing.wanted]
    omega

end Receiving

/-! ### Runs -/

section Runs

variable {framing : Framing κ} {write : κ → List UInt8} {handle : σ → τ → Item κ → Option σ}
  {calm : σ → τ → Prop} {accept : σ → τ → Item κ → σ}

/-- The consumer takes these frames and every calm timeout as `accept` says. -/
structure Accepts (handle : σ → τ → Item κ → Option σ) (calm : σ → τ → Prop)
    (accept : σ → τ → Item κ → σ) (frames : List (κ × List UInt8)) : Prop where
  frame : ∀ frame ∈ frames, ∀ s now, handle s now (.frame frame.1 frame.2) =
    some (accept s now (.frame frame.1 frame.2))
  idle : ∀ s now, calm s now → handle s now .idle = some (accept s now .idle)

/-- The consumer was given the frames that have arrived, each at the time of the turn that completed
it, and the timeouts of the turns. -/
structure Given (framing : Framing κ) (write : κ → List UInt8) (accept : σ → τ → Item κ → σ)
    (frames : List (κ × List UInt8)) (rest : List UInt8) (steps : List (τ × Turn)) (s : σ)
    (loop : Loop κ σ) (items : List (τ × Item κ)) (todo : List (κ × List UInt8)) : Prop where
  frames_eq : frames = (items.filterMap fun item => item.2.frame?) ++ todo
  idle_eq : items.filterMap idle? = steps.filterMap timeout?
  times : (items.map Prod.fst).Sublist (steps.map Prod.fst)
  stands : framing.StandsAt write loop.receiver todo rest
  state_eq : loop.state = items.foldl (fun s item => accept s item.1 item.2) s

theorem run_frames (hpos : 0 < framing.headerBytes) {frames : List (κ × List UInt8)}
    {rest : List UInt8} {steps : List (τ × Turn)} {start loop : Loop κ σ}
    (hcarries : ∀ frame ∈ frames, framing.Carries write frame)
    (haccepts : Accepts handle calm accept frames)
    (hstands : framing.StandsAt write start.receiver frames (received steps ++ rest))
    (hrun : run (Loop.next framing handle) start steps = some loop)
    (hcalm : EveryStep (Loop.next framing handle) (Undisturbed calm) start steps) :
    ∃ items todo, Given framing write accept frames rest steps start.state loop items todo := by
  induction steps generalizing start frames with
  | nil =>
    obtain rfl : start = loop := Option.some.inj hrun
    exact ⟨[], frames, rfl, rfl, .refl _, hstands, rfl⟩
  | cons step steps ih =>
    obtain ⟨middle, hnext, hrun⟩ := run_cons_eq_some.mp hrun
    obtain ⟨⟨hended, hquiet⟩, hcalm⟩ := hcalm
    have hcalm := hcalm middle hnext
    obtain ⟨now, piece⟩ := step
    cases piece with
    | ended => exact absurd rfl hended
    | timeout =>
      obtain ⟨hheader, hidle⟩ := hquiet rfl
      have hhandle := haccepts.idle start.state now hidle
      simp only [Loop.next, hheader, Framing.turn, hhandle, Option.some.injEq] at hnext
      subst hnext
      rw [hheader] at hstands
      obtain ⟨items, todo, hframes, hidles, htimes, hpast, hstate⟩ :=
        ih hcarries haccepts ⟨hstands.waits, hstands.stream⟩ hrun hcalm
      exact ⟨(now, .idle) :: items, todo, hframes, congrArg (now :: ·) hidles,
        htimes.cons_cons now, hpast, hstate⟩
    | data bytes =>
      have hsplit : received ((now, .data bytes) :: steps) ++ rest =
          bytes ++ (received steps ++ rest) := by
        simp only [received, List.flatMap_cons, Turn.bytes, List.append_assoc]
      rw [hsplit] at hstands
      rw [Loop.next] at hnext
      cases hturn : framing.turn start.receiver (.data bytes) with
      | none => simp [hturn] at hnext
      | some outcome =>
        obtain ⟨receiver, item⟩ := outcome
        rcases turn_data hpos hcarries hstands hturn with
          ⟨rfl, hstands⟩ | ⟨frame, frames', rfl, rfl, hstands⟩
        · simp only [hturn, Option.some.injEq] at hnext
          subst hnext
          obtain ⟨items, todo, hframes, hidles, htimes, hpast, hstate⟩ :=
            ih hcarries haccepts hstands hrun hcalm
          exact ⟨items, todo, hframes, hidles, htimes.cons now, hpast, hstate⟩
        · have hhandle := haccepts.frame frame List.mem_cons_self start.state now
          simp only [hturn, hhandle, Option.some.injEq] at hnext
          subst hnext
          have hlater : ∀ later ∈ frames', framing.Carries write later := fun later hmem =>
            hcarries later (List.mem_cons_of_mem frame hmem)
          obtain ⟨items, todo, hframes, hidles, htimes, hpast, hstate⟩ :=
            ih hlater ⟨fun later hmem => haccepts.frame later (List.mem_cons_of_mem frame hmem),
              haccepts.idle⟩ hstands hrun hcalm
          refine ⟨(now, .frame frame.1 frame.2) :: items, todo, ?_, hidles, htimes.cons_cons now,
            hpast, hstate⟩
          rw [hframes]
          rfl

/-- A loop that has received whole frames only is between two frames. -/
theorem Framing.StandsAt.nil {receiver : Receiver κ} {frames : List (κ × List UInt8)}
    (hcarries : ∀ frame ∈ frames, framing.Carries write frame)
    (h : framing.StandsAt write receiver frames []) : frames = [] := by
  obtain ⟨hwaits, hstream⟩ := h
  rw [List.append_nil] at hstream
  cases frames with
  | nil => rfl
  | cons frame frames' =>
    obtain ⟨hwrite, hread, hpayload⟩ := hcarries frame List.mem_cons_self
    have hlength := congrArg List.length hstream
    rw [encode_cons, List.length_append, List.length_append, hwrite, hpayload] at hlength
    cases receiver with
    | left => exact hwaits.elim
    | header received =>
      have hlt : received.length < framing.headerBytes := hwaits
      rw [Receiver.pending] at hlength
      omega
    | payload header received =>
      obtain ⟨hheader, hreads, hlt⟩ := hwaits
      rw [encode_cons, Receiver.pending] at hstream
      obtain ⟨heq, -⟩ := List.append_inj hstream (hwrite.trans hheader.symm)
      obtain rfl : frame.1 = header := by
        rw [heq, hreads] at hread
        exact (Option.some.inj hread).symm
      rw [Receiver.pending, List.length_append, hwrite] at hlength
      omega

end Runs

/-! ### Frame by frame -/

section Whole

variable {framing : Framing κ} {write : κ → List UInt8} {handle : σ → τ → Item κ → Option σ}
  {calm : σ → τ → Prop} {accept : σ → τ → Item κ → σ}

/-- The turns that bring each frame in two pieces, its header and its payload. -/
def wholeFrames (write : κ → List UInt8) (now : τ) (frames : List (κ × List UInt8)) :
    List (τ × Turn) :=
  frames.flatMap fun frame => [(now, .data (write frame.1)), (now, .data frame.2)]

theorem received_wholeFrames (now : τ) (frames : List (κ × List UInt8)) :
    received (wholeFrames write now frames) = encode write frames := by
  rw [received, wholeFrames, encode, List.flatMap_assoc]
  simp [Turn.bytes]

theorem next_header {frame : κ × List UInt8} (hpos : 0 < framing.headerBytes)
    (hcarries : framing.Carries write frame) (hpayload : frame.2 ≠ []) (s : σ) (now : τ) :
    Loop.next framing handle ⟨.header [], s⟩ (now, .data (write frame.1)) =
      some ⟨.payload frame.1 [], s⟩ := by
  have hbytes : framing.payloadBytes frame.1 ≠ 0 := by
    rw [← hcarries.length_payload]
    exact Nat.ne_of_gt (List.length_pos_iff.mpr hpayload)
  have hturn : framing.turn (.header []) (.data (write frame.1)) =
      some (.payload frame.1 [], none) := by
    rw [Framing.turn, if_pos, Framing.take, List.nil_append, if_neg, hcarries.readHeader_write]
    · simp [hbytes]
    · rw [hcarries.length_write]
      exact Nat.lt_irrefl _
    · rw [Framing.wanted, hcarries.length_write]
      refine ⟨fun hnil => ?_, Nat.le_refl _⟩
      have hlength := hcarries.length_write
      rw [hnil] at hlength
      exact absurd hlength (Nat.ne_of_lt hpos)
  simp only [Loop.next, hturn]

theorem next_payload {frame : κ × List UInt8} (hcarries : framing.Carries write frame)
    (hpayload : frame.2 ≠ []) {s s' : σ} {now : τ}
    (hhandle : handle s now (.frame frame.1 frame.2) = some s') :
    Loop.next framing handle ⟨.payload frame.1 [], s⟩ (now, .data frame.2) =
      some ⟨.header [], s'⟩ := by
  have hturn : framing.turn (.payload frame.1 []) (.data frame.2) =
      some (.header [], some (.frame frame.1 frame.2)) := by
    rw [Framing.turn, if_pos, Framing.take, List.nil_append, if_neg]
    · rw [hcarries.length_payload]
      exact Nat.lt_irrefl _
    · rw [Framing.wanted, hcarries.length_payload]
      exact ⟨hpayload, Nat.le_refl _⟩
  simp only [Loop.next, hturn, hhandle]

/-- A stream that comes frame by frame is run to its end. -/
theorem run_wholeFrames (hpos : 0 < framing.headerBytes) {frames : List (κ × List UInt8)}
    (hcarries : ∀ frame ∈ frames, framing.Carries write frame)
    (hpayload : ∀ frame ∈ frames, frame.2 ≠ []) (haccepts : Accepts handle calm accept frames)
    (now : τ) (s : σ) :
    run (Loop.next framing handle) ⟨.header [], s⟩ (wholeFrames write now frames) =
      some ⟨.header [], frames.foldl (fun s frame => accept s now (.frame frame.1 frame.2)) s⟩ := by
  induction frames generalizing s with
  | nil => rfl
  | cons frame frames ih =>
    rw [List.forall_mem_cons] at hcarries hpayload
    have hrest : Accepts handle calm accept frames :=
      ⟨fun f hf => haccepts.frame f (List.mem_cons_of_mem _ hf), haccepts.idle⟩
    have hframe := haccepts.frame frame List.mem_cons_self s now
    rw [wholeFrames, List.flatMap_cons, List.cons_append, List.cons_append, List.nil_append,
      run_cons, next_header hpos hcarries.1 hpayload.1, Option.bind_some, run_cons,
      next_payload hcarries.1 hpayload.1 hframe, Option.bind_some]
    exact ih hcarries.2 hpayload.2 hrest _

/-- Pieces that are all data disturb nothing. -/
theorem everyStep_wholeFrames {next : Loop κ σ → τ × Turn → Option (Loop κ σ)} (loop : Loop κ σ)
    (now : τ) (frames : List (κ × List UInt8)) :
    EveryStep next (Undisturbed calm) loop (wholeFrames write now frames) := by
  refine EveryStep.of_forall fun step hstep loop => ?_
  obtain ⟨frame, -, hmem⟩ := List.mem_flatMap.mp hstep
  rcases List.mem_pair.mp hmem with rfl | rfl
  · exact ⟨by simp, by simp⟩
  · exact ⟨by simp, by simp⟩

end Whole

end SmartDashboard.FramedStream
