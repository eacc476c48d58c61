import Mathlib.Data.List.Basic
import SmartDashboard.Library.CircularMemory
import SmartDashboard.Library.LittleEndian

/-!
# Length-prefixed items

A list of byte strings as one byte string, each item behind its length, and the loop that reads
such a string back and may stop in the middle of an item.

## Main definitions

- `encode`: each item behind a little-endian length of `width` bytes
- `decode`: the reading loop, with the items read so far
- `addresses`: the addresses the loop reads, in a memory that goes on behind its bytes
-/

namespace LengthPrefixed

open LittleEndian CircularMemory

variable (width : ℕ)

def encode (items : List (List UInt8)) : List UInt8 :=
  items.flatMap fun item => leBytes width item.length ++ item

/-- Read items while there is room for a length. The flag says whether every length had its bytes
and no byte was left over; without it the items are those read before. -/
def decode [NeZero width] (items : List (List UInt8)) (bytes : List UInt8) :
    Bool × List (List UInt8) :=
  if _h : width ≤ bytes.length then
    let length := leValue (bytes.take width)
    let rest := bytes.drop width
    if rest.length < length then (false, items)
    else decode (items ++ [rest.take length]) (rest.drop length)
  else (bytes.isEmpty, items)
termination_by bytes.length
decreasing_by
  have hwidth := NeZero.pos width
  simp only [List.length_drop]
  omega

/-- The addresses that are read of the first `count` cells of a memory, from `offset` on. -/
def addresses [NeZero width] (mem : ℕ → UInt8) (count offset : ℕ) : List ℕ :=
  if _h : offset + width ≤ count then
    let length := leValue (load mem offset width)
    let body := offset + width
    if count < body + length then List.range' offset width
    else List.range' offset width ++ List.range' body length ++
      addresses mem count (body + length)
  else []
termination_by count - offset
decreasing_by
  have hwidth := NeZero.pos width
  omega

variable {width}

@[simp] theorem encode_nil : encode width [] = [] := rfl

theorem encode_cons (item : List UInt8) (items : List (List UInt8)) :
    encode width (item :: items) = leBytes width item.length ++ item ++ encode width items := rfl

theorem length_encode_cons (item : List UInt8) (items : List (List UInt8)) :
    (encode width (item :: items)).length =
      width + item.length + (encode width items).length := by
  rw [encode_cons, List.length_append, List.length_append, length_leBytes]

/-- An item is no longer than the encoding it is part of. -/
theorem length_le_length_encode (width : ℕ) {item : List UInt8} {items : List (List UInt8)}
    (h : item ∈ items) : item.length ≤ (encode width items).length := by
  induction items with
  | nil => simp at h
  | cons first items ih =>
    rw [length_encode_cons]
    rcases List.mem_cons.mp h with rfl | h
    · omega
    · have := ih h
      omega

section Decode

variable [NeZero width]

/-- What was encoded is read back, if every length fits its bytes. -/
theorem decode_encode {items : List (List UInt8)}
    (hfit : ∀ item ∈ items, item.length < 256 ^ width) (before : List (List UInt8)) :
    decode width before (encode width items) = (true, before ++ items) := by
  induction items generalizing before with
  | nil =>
    have hwidth := NeZero.ne width
    rw [decode, dif_neg (by simpa using hwidth), encode_nil, List.append_nil]
    rfl
  | cons item items ih =>
    rw [List.forall_mem_cons] at hfit
    have hlength : leValue ((encode width (item :: items)).take width) = item.length := by
      rw [encode_cons, List.append_assoc, List.take_left' (length_leBytes _ _),
        leValue_leBytes_of_lt hfit.1]
    have hrest : (encode width (item :: items)).drop width = item ++ encode width items := by
      rw [encode_cons, List.append_assoc, List.drop_left' (length_leBytes _ _)]
    rw [decode, dif_pos (by rw [length_encode_cons]; omega)]
    simp only [hlength, hrest]
    rw [if_neg (by rw [List.length_append]; omega), List.take_left, List.drop_left, ih hfit.2,
      List.append_assoc]
    rfl

/-- Whatever the bytes, the items read take no more room than the bytes they were read from. -/
theorem decode_fits (width : ℕ) [NeZero width] (before : List (List UInt8)) (bytes : List UInt8) :
    ∃ items, (decode width before bytes).2 = before ++ items ∧
      (encode width items).length ≤ bytes.length := by
  fun_induction decode width before bytes with
  | case1 before bytes hroom length rest hshort => exact ⟨[], by simp, by simp⟩
  | case2 before bytes hroom length rest hlong ih =>
    obtain ⟨items, hitems, hlen⟩ := ih
    refine ⟨rest.take length :: items, ?_, ?_⟩
    · rw [hitems, List.append_assoc]
      rfl
    · have hrest : rest.length = bytes.length - width := List.length_drop
      rw [List.length_drop] at hlen
      rw [length_encode_cons, List.length_take]
      omega
  | case3 before bytes hroom => exact ⟨[], by simp, by simp⟩

/-- What the loop accepts is the encoding of the items it read. -/
theorem encode_of_decode {before read : List (List UInt8)} {bytes : List UInt8}
    (h : decode width before bytes = (true, read)) :
    ∃ items, read = before ++ items ∧ (∀ item ∈ items, item.length < 256 ^ width) ∧
      encode width items = bytes := by
  fun_induction decode width before bytes with
  | case1 => exact absurd (congrArg Prod.fst h) Bool.false_ne_true
  | case2 before bytes hroom length rest hlong ih =>
    obtain ⟨items, hread, hfit, hrest⟩ := ih h
    have htake : (bytes.take width).length = width := List.length_take_of_le hroom
    have hitem : (rest.take length).length = length := List.length_take_of_le (by omega)
    refine ⟨rest.take length :: items, ?_, ?_, ?_⟩
    · rw [hread, List.append_assoc]
      rfl
    · refine List.forall_mem_cons.mpr ⟨?_, hfit⟩
      have hlt := leValue_lt (bytes.take width)
      rwa [hitem, ← htake]
    · have hprefix : leBytes width length = bytes.take width := by
        conv_lhs => rw [← htake]
        exact leBytes_leValue _
      rw [encode_cons, hitem, hrest, hprefix, List.append_assoc, List.take_append_drop]
      exact List.take_append_drop ..
  | case3 before bytes hroom =>
    obtain ⟨hempty, rfl⟩ := Prod.mk.inj h
    exact ⟨[], (List.append_nil _).symm, by simp, (List.isEmpty_iff.mp hempty).symm⟩

/-- The loop accepts exactly the encodings. -/
theorem decode_fst_iff {before : List (List UInt8)} {bytes : List UInt8} :
    (decode width before bytes).1 = true ↔
      ∃ items, (∀ item ∈ items, item.length < 256 ^ width) ∧ encode width items = bytes := by
  constructor
  · intro h
    obtain ⟨items, -, hfit, hbytes⟩ := encode_of_decode (Prod.ext h rfl)
    exact ⟨items, hfit, hbytes⟩
  · rintro ⟨items, hfit, rfl⟩
    rw [decode_encode hfit]

end Decode

/-! ### Reads of a memory -/

section Addresses

variable {mem : ℕ → UInt8} {count offset limit : ℕ}

/-- The items `items` lie one behind the other from `offset` on, below `limit`, and behind them
the loop ends: fewer cells than a length are left, or a length below `limit` that has no item. -/
def EndsBelow (width : ℕ) (mem : ℕ → UInt8) (count limit offset : ℕ)
    (items : List (List UInt8)) : Prop :=
  let next := offset + (encode width items).length
  load mem offset (encode width items).length = encode width items ∧ next ≤ limit ∧
    (count < next + width ∨
      next + width ≤ limit ∧ count < next + width + leValue (load mem next width))

theorem endsBelow_nil :
    EndsBelow width mem count limit offset [] ↔
      offset ≤ limit ∧ (count < offset + width ∨
        offset + width ≤ limit ∧ count < offset + width + leValue (load mem offset width)) :=
  and_iff_right rfl

theorem EndsBelow.le {items : List (List UInt8)}
    (h : EndsBelow width mem count limit offset items) : offset ≤ limit :=
  (Nat.le_add_right ..).trans h.2.1

theorem endsBelow_cons {item : List UInt8} {items : List (List UInt8)}
    (hfit : item.length < 256 ^ width) :
    EndsBelow width mem count limit offset (item :: items) ↔
      leValue (load mem offset width) = item.length ∧
        load mem (offset + width) item.length = item ∧
        EndsBelow width mem count limit (offset + width + item.length) items := by
  have hnext : offset + (width + item.length + (encode width items).length) =
      offset + width + item.length + (encode width items).length := by omega
  simp only [EndsBelow, length_encode_cons, hnext]
  rw [encode_cons, load_add, load_add, ← Nat.add_assoc offset]
  simp only [← and_assoc]
  refine and_congr_left fun _ => and_congr_left fun _ => ?_
  constructor
  · intro hcells
    obtain ⟨hhead, hrest⟩ := List.append_inj hcells (by simp)
    obtain ⟨hlength, hitem⟩ := List.append_inj hhead (by simp)
    rw [hlength]
    exact ⟨⟨leValue_leBytes_of_lt hfit, hitem⟩, hrest⟩
  · rintro ⟨⟨hlength, hitem⟩, hrest⟩
    have hhead : load mem offset width = leBytes width item.length := by
      have := leBytes_leValue (load mem offset width)
      rwa [length_load, hlength, eq_comm] at this
    rw [hhead, hitem, hrest]

variable [NeZero width]

theorem addresses_lt : ∀ a ∈ addresses width mem count offset, a < count := by
  fun_induction addresses width mem count offset with
  | case1 offset hroom length body hshort =>
    intro a ha
    have := List.mem_range'_1.mp ha
    omega
  | case2 offset hroom length body hlong ih =>
    simp only [List.forall_mem_append, List.mem_range'_1]
    exact ⟨⟨fun a ha => by omega, fun a ha => by omega⟩, ih⟩
  | case3 => simp

/-- One turn of the loop on a memory. -/
theorem decode_load (before : List (List UInt8)) (hroom : offset + width ≤ count) :
    let length := leValue (load mem offset width)
    let body := offset + width
    decode width before (load mem offset (count - offset)) =
      if count < body + length then (false, before)
      else decode width (before ++ [load mem body length])
        (load mem (body + length) (count - (body + length))) := by
  intro length body
  have hhead : width ≤ count - offset := by omega
  have hrest : (load mem offset (count - offset)).drop width = load mem body (count - body) := by
    rw [drop_load mem _ hhead, Nat.sub_sub]
  rw [decode, dif_pos (by rwa [length_load])]
  simp only [take_load mem _ hhead, hrest, length_load]
  by_cases hshort : count < body + length
  · rw [if_pos (by omega), if_pos hshort]
  · have hbody : length ≤ count - body := by omega
    rw [if_neg (by omega), if_neg hshort, take_load mem _ hbody, drop_load mem _ hbody, Nat.sub_sub]

/-- The end of the loop on a memory. -/
theorem decode_load_of_lt (before : List (List UInt8)) (hend : count < offset + width) :
    decode width before (load mem offset (count - offset)) =
      (decide (count - offset = 0), before) := by
  have hwidth := NeZero.pos width
  rw [decode, dif_neg (by rw [length_load]; omega)]
  rcases Nat.eq_zero_or_pos (count - offset) with hzero | hpos
  · rw [hzero]
    rfl
  · have hlen : (load mem offset (count - offset)).length ≠ 0 := by
      rw [length_load]
      omega
    have hempty : (load mem offset (count - offset)).isEmpty = false := by
      rw [List.isEmpty_eq_false_iff]
      exact fun hnil => hlen (congrArg List.length hnil)
    rw [hempty, decide_eq_false (by omega)]

/-- The items that are read, and whether they are complete, depend on no other address. -/
theorem decode_congr {mem' : ℕ → UInt8}
    (h : ∀ a ∈ addresses width mem count offset, mem a = mem' a)
    (before : List (List UInt8)) :
    decode width before (load mem offset (count - offset)) =
      decode width before (load mem' offset (count - offset)) := by
  fun_induction addresses width mem count offset generalizing before with
  | case1 offset hroom length body hshort =>
    have hlength : load mem offset width = load mem' offset width := load_congr mem h
    rw [decode_load before hroom, decode_load before hroom, ← hlength, if_pos hshort,
      if_pos hshort]
  | case2 offset hroom length body hlong ih =>
    simp only [List.forall_mem_append] at h
    obtain ⟨⟨hhead, hitem⟩, hrest⟩ := h
    have hlength : load mem offset width = load mem' offset width := load_congr mem hhead
    have hitem : load mem body length = load mem' body length := load_congr mem hitem
    rw [decode_load before hroom, decode_load before hroom, ← hlength, if_neg hlong, if_neg hlong,
      ih hrest, hitem]
  | case3 offset hroom =>
    rw [decode_load_of_lt before (by omega), decode_load_of_lt before (by omega)]

/-- Bytes that are accepted have all been read. -/
theorem mem_addresses_of_decode {a : ℕ} (hoffset : offset ≤ a) (hcount : a < count) :
    ∀ before, (decode width before (load mem offset (count - offset))).1 = true →
      a ∈ addresses width mem count offset := by
  fun_induction addresses width mem count offset with
  | case1 offset hroom length body hshort =>
    intro before haccepted
    rw [decode_load before hroom, if_pos hshort] at haccepted
    exact absurd haccepted Bool.false_ne_true
  | case2 offset hroom length body hlong ih =>
    intro before haccepted
    rw [decode_load before hroom, if_neg hlong] at haccepted
    simp only [List.mem_append, List.mem_range'_1]
    by_cases hrest : body + length ≤ a
    · exact .inr (ih hrest _ haccepted)
    · exact .inl (by omega)
  | case3 offset hroom =>
    intro before haccepted
    rw [decode_load_of_lt before (by omega), decide_eq_true_iff] at haccepted
    omega

/-- The loop stays below `limit` if and only if it comes to its end there. -/
theorem addresses_lt_iff (hoffset : offset ≤ limit) :
    (∀ a ∈ addresses width mem count offset, a < limit) ↔
      ∃ items, (∀ item ∈ items, item.length < 256 ^ width) ∧
        EndsBelow width mem count limit offset items := by
  have hwidth := NeZero.pos width
  fun_induction addresses width mem count offset with
  | case1 offset hroom length body hshort =>
    constructor
    · intro hreads
      have hlast := hreads (offset + width - 1) (List.mem_range'_1.mpr ⟨by omega, by omega⟩)
      exact ⟨[], by simp, endsBelow_nil.mpr ⟨hoffset, .inr ⟨by omega, hshort⟩⟩⟩
    · rintro ⟨items, hfit, hends⟩ a ha
      have ha := List.mem_range'_1.mp ha
      have hlimit : offset + width ≤ limit := by
        cases items with
        | nil =>
          rcases (endsBelow_nil.mp hends).2 with hcount | ⟨hlimit, -⟩
          · omega
          · exact hlimit
        | cons item items =>
          have hnext := ((endsBelow_cons (List.forall_mem_cons.mp hfit).1).mp hends).2.2.le
          omega
      omega
  | case2 offset hroom length body hlong ih =>
    simp only [List.forall_mem_append, List.mem_range'_1]
    constructor
    · rintro ⟨⟨hhead, hbody⟩, hrest⟩
      have hlimit : body + length ≤ limit := by
        rcases Nat.eq_zero_or_pos length with hzero | hpos
        · have := hhead (offset + width - 1) (by omega)
          omega
        · have := hbody (body + length - 1) (by omega)
          omega
      obtain ⟨items, hfit, hends⟩ := (ih hlimit).mp hrest
      have hitem : (load mem body length).length = length := length_load ..
      have hlength : length < 256 ^ width := by
        have := leValue_lt (load mem offset width)
        rwa [length_load] at this
      refine ⟨load mem body length :: items, ?_, ?_⟩
      · exact List.forall_mem_cons.mpr ⟨by rwa [hitem], hfit⟩
      · rw [endsBelow_cons (by rwa [hitem]), hitem]
        exact ⟨rfl, rfl, hends⟩
    · rintro ⟨items, hfit, hends⟩
      cases items with
      | nil =>
        rcases (endsBelow_nil.mp hends).2 with hcount | ⟨-, hcount⟩
        · omega
        · exact absurd hcount hlong
      | cons item items =>
        obtain ⟨hitem, hfit⟩ := List.forall_mem_cons.mp hfit
        obtain ⟨hlength, -, hends⟩ := (endsBelow_cons hitem).mp hends
        have hlength : length = item.length := hlength
        have hends : EndsBelow width mem count limit (body + length) items :=
          hlength ▸ hends
        have hlimit := hends.le
        exact ⟨⟨fun a ha => by omega, fun a ha => by omega⟩,
          (ih hlimit).mpr ⟨items, hfit, hends⟩⟩
  | case3 offset hroom =>
    exact iff_of_true (by simp)
      ⟨[], by simp, endsBelow_nil.mpr ⟨hoffset, .inl (by omega)⟩⟩

end Addresses

end LengthPrefixed
