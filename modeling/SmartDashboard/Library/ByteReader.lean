import SmartDashboard.Library.BigEndian

/-!
# Readers that keep their place

A cursor over a byte string as a state monad: a reader returns a value or fails, and either way
says what is left. A failed read keeps the place it had reached, since callers may ignore the
failure and read on from there.

## Main definitions

- `ByteReader`: the readers, `take`, `byte`, `attempt`, `times`
- `Reads`: a reader takes exactly the given bytes and returns the given value
- `FailsOn`: a reader takes exactly the given bytes and fails
-/

variable {α β : Type}

def ByteReader (α : Type) := List UInt8 → Option α × List UInt8

namespace ByteReader

open BigEndian

instance : Monad ByteReader where
  pure a bytes := (some a, bytes)
  bind r f bytes :=
    match r bytes with
    | (some a, rest) => f a rest
    | (none, rest) => (none, rest)

def fail : ByteReader α := fun bytes => (none, bytes)

/-- The next `n` bytes; nothing is taken when there are fewer. -/
def take (n : ℕ) : ByteReader (List UInt8) := fun bytes =>
  if n ≤ bytes.length then (some (bytes.take n), bytes.drop n) else (none, bytes)

def byte : ByteReader UInt8
  | [] => (none, [])
  | b :: bytes => (some b, bytes)

/-- The next byte, which stays where it is. -/
def peek : ByteReader UInt8
  | [] => (none, [])
  | b :: bytes => (some b, b :: bytes)

/-- Read on, whether or not `r` failed. -/
def attempt (r : ByteReader α) : ByteReader (Option α) := fun bytes =>
  (some (r bytes).1, (r bytes).2)

/-- `n` values of one reader; the first failure ends it. -/
def times (r : ByteReader α) : ℕ → ByteReader (List α)
  | 0 => pure []
  | n + 1 => do
    let a ← r
    let as ← times r n
    pure (a :: as)

/-- Big-endian number of the next `width` bytes. -/
def number (width : ℕ) : ByteReader ℕ := do
  let bytes ← take width
  pure (beValue bytes)

/-- A loop that reads one message at a time until no byte is left: what the messages gave, and the
state it ends in unless a message failed. Every message takes a byte, so turns for the bytes that
are left are enough. -/
def drain {σ : Type} (message : σ → ByteReader (σ × List β)) :
    ℕ → σ → List UInt8 → List β × Option σ
  | _, s, [] => ([], some s)
  | 0, _, _ :: _ => ([], none)
  | turns + 1, s, b :: bytes =>
    match message s (b :: bytes) with
    | (none, _) => ([], none)
    | (some (s', given), rest) =>
      let (others, last) := drain message turns s' rest
      (given ++ others, last)

/-- On `bytes`, whatever follows them, `r` takes exactly these and returns `a`. -/
def Reads (r : ByteReader α) (bytes : List UInt8) (a : α) : Prop :=
  ∀ rest, r (bytes ++ rest) = (some a, rest)

/-- On `bytes`, whatever follows them, `r` takes exactly these and fails. -/
def FailsOn (r : ByteReader α) (bytes : List UInt8) : Prop :=
  ∀ rest, r (bytes ++ rest) = (none, rest)

/-- `r` gives nothing back. -/
def Shrinks (r : ByteReader α) : Prop :=
  ∀ bytes, (r bytes).2.length ≤ bytes.length

/-- Two readers do the same on up to `n` bytes. -/
def AgreeUpTo (n : ℕ) (r s : ByteReader α) : Prop :=
  ∀ bytes, bytes.length ≤ n → r bytes = s bytes

variable {r : ByteReader α} {f : α → ByteReader β} {a : α} {b : β} {xs ys bytes : List UInt8}

theorem bind_apply (r : ByteReader α) (f : α → ByteReader β) (bytes : List UInt8) :
    (r >>= f) bytes =
      match r bytes with
      | (some a, rest) => f a rest
      | (none, rest) => (none, rest) := rfl

/-- A computation that succeeds is one after the other that succeed. -/
theorem exists_of_bind_eq {bytes rest : List UInt8} (h : (r >>= f) bytes = (some b, rest)) :
    ∃ a mid, r bytes = (some a, mid) ∧ f a mid = (some b, rest) := by
  rw [bind_apply] at h
  cases hread : r bytes with
  | mk a? mid =>
    rw [hread] at h
    cases a? with
    | none => cases h
    | some a => exact ⟨a, mid, rfl, h⟩

/-- What a reader succeeds with, if it is made of what another succeeds with. -/
theorem exists_of_map_eq {g : α → β} {bytes rest : List UInt8}
    (h : (r >>= fun a => Pure.pure (g a)) bytes = (some b, rest)) :
    ∃ a, r bytes = (some a, rest) ∧ b = g a := by
  obtain ⟨a, mid, hread, hpure⟩ := exists_of_bind_eq h
  cases hpure
  exact ⟨a, hread, rfl⟩

theorem Reads.pure (a : α) : Reads (pure a) [] a := fun _ => rfl

theorem Reads.bind (hr : Reads r xs a) (hf : Reads (f a) ys b) : Reads (r >>= f) (xs ++ ys) b := by
  intro rest
  rw [bind_apply, List.append_assoc, hr (ys ++ rest)]
  exact hf rest

/-- The value read is passed on without reading more. -/
theorem Reads.map (hr : Reads r xs a) (g : α → β) :
    Reads (do let a ← r; Pure.pure (g a)) xs (g a) := by
  have h := hr.bind (f := fun a => Pure.pure (g a)) (Reads.pure (g a))
  rwa [List.append_nil] at h

theorem Reads.bind_failsOn (hr : Reads r xs a) (hf : FailsOn (f a) ys) :
    FailsOn (r >>= f) (xs ++ ys) := by
  intro rest
  rw [bind_apply, List.append_assoc, hr (ys ++ rest)]
  exact hf rest

theorem FailsOn.bind (hr : FailsOn r xs) (f : α → ByteReader β) : FailsOn (r >>= f) xs := by
  intro rest
  rw [bind_apply, hr rest]

theorem failsOn_fail : FailsOn (fail : ByteReader α) [] := fun _ => rfl

theorem Reads.attempt (hr : Reads r xs a) : Reads (attempt r) xs (some a) := by
  intro rest
  rw [ByteReader.attempt, hr rest]

theorem FailsOn.attempt (hr : FailsOn r xs) : Reads (attempt r) xs none := by
  intro rest
  rw [ByteReader.attempt, hr rest]

theorem byte_cons (b : UInt8) (bytes : List UInt8) : byte (b :: bytes) = (some b, bytes) := rfl

theorem reads_byte (b : UInt8) : Reads byte [b] b := fun _ => rfl

theorem reads_byte_bind {f : UInt8 → ByteReader β} {head : UInt8} (h : Reads (f head) ys b) :
    Reads (byte >>= f) (head :: ys) b := h

theorem failsOn_byte_bind {f : UInt8 → ByteReader β} {head : UInt8} (h : FailsOn (f head) ys) :
    FailsOn (byte >>= f) (head :: ys) := h

theorem reads_take {n : ℕ} (h : bytes.length = n) : Reads (take n) bytes bytes := by
  intro rest
  rw [take, if_pos (by rw [List.length_append]; omega), List.take_left' h, List.drop_left' h]

theorem reads_number {width n : ℕ} (h : n < 256 ^ width) :
    Reads (number width) (beBytes width n) n := by
  have hread := (reads_take (length_beBytes width n)).map beValue
  rwa [beValue_beBytes_of_lt h] at hread

theorem number_lt {width n : ℕ} (h : (number width bytes).1 = some n) : n < 256 ^ width := by
  rw [number, bind_apply, take] at h
  split_ifs at h with hlength
  obtain rfl := Option.some.inj h
  have hvalue := beValue_lt (bytes.take width)
  rwa [List.length_take, min_eq_left hlength] at hvalue

/-- What a loop reads is what its turns read, one after the other. -/
theorem reads_times {γ : Type} {items : List γ} {encode : γ → List UInt8} {value : γ → α}
    (h : ∀ item ∈ items, Reads r (encode item) (value item)) :
    Reads (times r items.length) (items.flatMap encode) (items.map value) := by
  induction items with
  | nil => exact Reads.pure []
  | cons item items ih =>
    rw [List.forall_mem_cons] at h
    exact h.1.bind ((ih h.2).map (value item :: ·))

/-- A loop fails where its first failing turn does. -/
theorem times_failsOn {γ : Type} {items : List γ} {encode : γ → List UInt8} {value : γ → α}
    (h : ∀ item ∈ items, Reads r (encode item) (value item)) (hfail : FailsOn r xs) (n : ℕ) :
    FailsOn (times r (items.length + (n + 1))) (items.flatMap encode ++ xs) := by
  induction items with
  | nil =>
    rw [List.length_nil, Nat.zero_add]
    exact hfail.bind _
  | cons item items ih =>
    rw [List.forall_mem_cons] at h
    rw [List.length_cons, Nat.add_right_comm, List.flatMap_cons, List.append_assoc]
    exact h.1.bind_failsOn ((ih h.2).bind _)

section Drain

variable {σ : Type} {message : σ → ByteReader (σ × List β)}

theorem drain_reads {s s' : σ} {given : List β} (hread : Reads (message s) xs (s', given))
    (hxs : xs ≠ []) (turns : ℕ) (rest : List UInt8) :
    drain message (turns + 1) s (xs ++ rest) =
      (given ++ (drain message turns s' rest).1, (drain message turns s' rest).2) := by
  have hturn := hread rest
  cases xs with
  | nil => exact absurd rfl hxs
  | cons x xs =>
    rw [List.cons_append] at hturn ⊢
    rw [drain, hturn]

/-- The loop takes up a message: it stops there, or goes on with what the message gave in front. -/
theorem drain_cons (turns : ℕ) (s : σ) (b : UInt8) (bytes : List UInt8) :
    drain message (turns + 1) s (b :: bytes) =
      match message s (b :: bytes) with
      | (none, _) => ([], none)
      | (some (s', given), rest) =>
        (given ++ (drain message turns s' rest).1, (drain message turns s' rest).2) := rfl

end Drain

/-! ## Readers that only differ out of reach -/

theorem shrinks_pure (a : α) : Shrinks (pure a) := fun _ => le_rfl

theorem shrinks_byte : Shrinks byte
  | [] => le_rfl
  | _ :: _ => Nat.le_succ _

theorem shrinks_take (n : ℕ) : Shrinks (take n) := by
  intro bytes
  rw [take]
  split
  · exact (List.length_drop).trans_le (Nat.sub_le _ _)
  · exact le_rfl

theorem Shrinks.bind (hr : Shrinks r) (hf : ∀ a, Shrinks (f a)) : Shrinks (r >>= f) := by
  intro bytes
  rw [bind_apply]
  have hfirst := hr bytes
  cases hread : r bytes with
  | mk a? rest =>
    rw [hread] at hfirst
    cases a? with
    | none => exact hfirst
    | some a => exact (hf a rest).trans hfirst

theorem Shrinks.ite {c : Prop} [Decidable c] {s : ByteReader α} (hr : Shrinks r) (hs : Shrinks s) :
    Shrinks (if c then r else s) := by
  split
  · exact hr
  · exact hs

theorem shrinks_number (width : ℕ) : Shrinks (number width) :=
  (shrinks_take width).bind fun _ => shrinks_pure _

theorem shrinks_fail : Shrinks (fail : ByteReader α) := fun _ => le_rfl

theorem shrinks_peek : Shrinks peek
  | [] => le_rfl
  | _ :: _ => le_rfl

theorem Shrinks.attempt (hr : Shrinks r) : Shrinks (attempt r) := hr

theorem Shrinks.times (hr : Shrinks r) : ∀ n, Shrinks (times r n)
  | 0 => shrinks_pure []
  | n + 1 => hr.bind fun _ => (hr.times n).bind fun _ => shrinks_pure _

theorem AgreeUpTo.refl (n : ℕ) (r : ByteReader α) : AgreeUpTo n r r := fun _ _ => rfl

theorem AgreeUpTo.ite {c : Prop} [Decidable c] {n : ℕ} {r' s s' : ByteReader α}
    (hr : AgreeUpTo n r r') (hs : AgreeUpTo n s s') :
    AgreeUpTo n (if c then r else s) (if c then r' else s') := by
  split
  · exact hr
  · exact hs

theorem AgreeUpTo.bind {n : ℕ} {s : ByteReader α} {g : α → ByteReader β} (hr : Shrinks r)
    (hrs : AgreeUpTo n r s) (hfg : ∀ a, AgreeUpTo n (f a) (g a)) :
    AgreeUpTo n (r >>= f) (s >>= g) := by
  intro bytes hbytes
  rw [bind_apply, bind_apply, ← hrs bytes hbytes]
  have hfirst := hr bytes
  cases hread : r bytes with
  | mk a? rest =>
    rw [hread] at hfirst
    cases a? with
    | none => rfl
    | some a => exact hfg a rest (hfirst.trans hbytes)

theorem AgreeUpTo.times {n : ℕ} {s : ByteReader α} (hr : Shrinks r) (hrs : AgreeUpTo n r s) :
    ∀ k, AgreeUpTo n (times r k) (times s k)
  | 0 => AgreeUpTo.refl n _
  | k + 1 => AgreeUpTo.bind hr hrs fun _ =>
      AgreeUpTo.bind (hr.times k) (hrs.times hr k) fun _ => AgreeUpTo.refl n _

end ByteReader
