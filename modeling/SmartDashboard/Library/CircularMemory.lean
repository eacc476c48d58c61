import Mathlib.Data.List.Basic
import Mathlib.Logic.Function.Basic

/-!
# Circular memory

A memory of `N` cells that is read and written at positions of an endless line, position `p` being
cell `p % N`. A write of at most `N` cells is read back as it was, and it leaves alone every span
of positions that starts before it and ends, together with it, within one turn.

## Main definitions

- `load`, `store`: reads and writes of the underlying linear memory
- `window`, `blit`: reads and writes at a position of the circle
-/

namespace CircularMemory

variable {β : Type*}

/-- The `n` cells from the address `a` on. -/
def load (mem : ℕ → β) (a n : ℕ) : List β :=
  (List.range n).map fun i => mem (a + i)

/-- The memory with `cells` copied to the address `a`. -/
def store (mem : ℕ → β) (a : ℕ) (cells : List β) : ℕ → β := fun b =>
  if a ≤ b then cells[b - a]?.getD (mem b) else mem b

/-- The `n` cells from the position `p` on. -/
def window (N : ℕ) (mem : ℕ → β) (p n : ℕ) : List β :=
  (List.range n).map fun i => mem ((p + i) % N)

/-- The memory with `cells` written from the position `p` on. -/
def blit (N : ℕ) : (ℕ → β) → ℕ → List β → ℕ → β
  | mem, _, [] => mem
  | mem, p, c :: cells => blit N (Function.update mem (p % N) c) (p + 1) cells

section Load

variable (mem : ℕ → β)

@[simp] theorem length_load (a n : ℕ) : (load mem a n).length = n := by
  rw [load, List.length_map, List.length_range]

theorem load_add (a m n : ℕ) : load mem a (m + n) = load mem a m ++ load mem (a + m) n := by
  simp only [load, List.range_add, List.map_append, List.map_map, Function.comp_def,
    Nat.add_assoc]

theorem take_load (a : ℕ) {k n : ℕ} (hk : k ≤ n) : (load mem a n).take k = load mem a k := by
  rw [← Nat.add_sub_cancel' hk, load_add]
  exact List.take_left' (length_load ..)

theorem drop_load (a : ℕ) {k n : ℕ} (hk : k ≤ n) :
    (load mem a n).drop k = load mem (a + k) (n - k) := by
  conv_lhs => rw [← Nat.add_sub_cancel' hk, load_add]
  exact List.drop_left' (length_load ..)

theorem load_congr {mem' : ℕ → β} {a n : ℕ} (h : ∀ b ∈ List.range' a n, mem b = mem' b) :
    load mem a n = load mem' a n := by
  apply List.map_congr_left
  intro i hi
  have hi : i < n := List.mem_range.mp hi
  exact h _ (List.mem_range'_1.mpr ⟨by omega, by omega⟩)

/-- A span of a memory that holds `cells` from the address 0 on. -/
theorem load_of_getElem {cells : List β} (hmem : ∀ i (h : i < cells.length), mem i = cells[i])
    {a n : ℕ} (hn : a + n ≤ cells.length) : load mem a n = (cells.drop a).take n := by
  apply List.ext_getElem
  · rw [length_load, List.length_take, List.length_drop]
    omega
  · intro i hi hi'
    rw [length_load] at hi
    simp [load, hmem (a + i) (by omega)]

end Load

section Window

variable (N : ℕ) (mem : ℕ → β)

@[simp] theorem length_window (p n : ℕ) : (window N mem p n).length = n := by
  rw [window, List.length_map, List.length_range]

/-- Two spans that follow each other. -/
theorem window_add (p m n : ℕ) :
    window N mem p (m + n) = window N mem p m ++ window N mem (p + m) n := by
  simp only [window, List.range_add, List.map_append, List.map_map, Function.comp_def,
    Nat.add_assoc]

theorem drop_window (p : ℕ) {k n : ℕ} (hk : k ≤ n) :
    (window N mem p n).drop k = window N mem (p + k) (n - k) := by
  conv_lhs => rw [← Nat.add_sub_cancel' hk, window_add]
  exact List.drop_left' (length_window ..)

@[simp] theorem window_mod (p n : ℕ) : window N mem (p % N) n = window N mem p n := by
  simp only [window, Nat.mod_add_mod]

/-- The start of a span that is known as a whole. -/
theorem window_of_append {p n : ℕ} {front back : List β}
    (h : window N mem p n = front ++ back) :
    window N mem p front.length = front ∧
      window N mem (p + front.length) (n - front.length) = back := by
  have hlen : n = front.length + back.length := by
    rw [← List.length_append, ← h, length_window]
  rw [hlen, window_add] at h
  have hsplit := List.append_inj h (length_window ..)
  rw [hlen, Nat.add_sub_cancel_left]
  exact hsplit

/-- Without a wrap a span of positions is a span of addresses. -/
theorem window_eq_load {p n : ℕ} (h : p + n ≤ N) : window N mem p n = load mem p n := by
  apply List.map_congr_left
  intro i hi
  have hi : i < n := List.mem_range.mp hi
  rw [Nat.mod_eq_of_lt (by omega)]

theorem window_congr {mem' : ℕ → β} {p n : ℕ}
    (h : ∀ i < n, mem ((p + i) % N) = mem' ((p + i) % N)) :
    window N mem p n = window N mem' p n :=
  List.map_congr_left fun i hi => h i (List.mem_range.mp hi)

end Window

section Blit

variable {N : ℕ} (mem : ℕ → β)

@[simp] theorem blit_nil (p : ℕ) : blit N mem p [] = mem := rfl

theorem blit_cons (p : ℕ) (c : β) (cells : List β) :
    blit N mem p (c :: cells) = blit N (Function.update mem (p % N) c) (p + 1) cells := rfl

theorem blit_append (p : ℕ) (front back : List β) :
    blit N mem p (front ++ back) = blit N (blit N mem p front) (p + front.length) back := by
  induction front generalizing mem p with
  | nil => rfl
  | cons c front ih =>
    rw [List.cons_append, blit_cons, blit_cons, ih, List.length_cons, Nat.add_right_comm,
      Nat.add_assoc p]

theorem blit_congr_mod {p q : ℕ} (h : p % N = q % N) (cells : List β) :
    blit N mem p cells = blit N mem q cells := by
  induction cells generalizing mem p q with
  | nil => rfl
  | cons c cells ih =>
    rw [blit_cons, blit_cons, h]
    refine ih _ ?_
    rw [Nat.add_mod, h, ← Nat.add_mod]

/-- A write changes no cell it does not reach. -/
theorem blit_apply_of_ne {p a : ℕ} {cells : List β}
    (h : ∀ i < cells.length, (p + i) % N ≠ a) : blit N mem p cells a = mem a := by
  induction cells generalizing mem p with
  | nil => rfl
  | cons c cells ih =>
    have hhead : p % N ≠ a := h 0 (by simp)
    rw [blit_cons, ih, Function.update_of_ne hhead.symm]
    intro i hi
    have htail := h (i + 1) (by simpa using hi)
    rwa [← Nat.add_assoc, Nat.add_right_comm] at htail

/-- Positions less than one turn apart lie in different cells. -/
theorem mod_ne_mod {i j : ℕ} (hij : i < j) (hturn : j < i + N) : i % N ≠ j % N := by
  intro h
  have hzero : (j - i) % N = 0 := Nat.sub_mod_eq_zero_of_mod_eq h.symm
  have hsmall : (j - i) % N = j - i := Nat.mod_eq_of_lt (by omega)
  omega

/-- What was written is read back, if it is no longer than a turn. -/
theorem window_blit_self {p : ℕ} {cells : List β} (h : cells.length ≤ N) :
    window N (blit N mem p cells) p cells.length = cells := by
  induction cells generalizing mem p with
  | nil => rfl
  | cons c cells ih =>
    rw [List.length_cons] at h
    have hhead : blit N (Function.update mem (p % N) c) (p + 1) cells (p % N) = c := by
      rw [blit_apply_of_ne, Function.update_self]
      intro i hi
      exact (mod_ne_mod (by omega) (by omega)).symm
    have hone : window N (blit N (Function.update mem (p % N) c) (p + 1) cells) p 1 = [c] := by
      rw [window, List.range_one, List.map_singleton]
      exact congrArg (fun b => [b]) hhead
    rw [List.length_cons, Nat.add_comm, window_add, blit_cons, hone, ih _ (by omega),
      List.singleton_append]

/-- A write leaves a span alone that starts before it and ends with it within one turn. -/
theorem window_blit_of_disjoint {p q n : ℕ} {cells : List β} (hbefore : q + n ≤ p)
    (hturn : p + cells.length ≤ q + N) :
    window N (blit N mem p cells) q n = window N mem q n := by
  apply window_congr N _
  intro i hi
  apply blit_apply_of_ne mem
  intro j hj
  exact (mod_ne_mod (by omega) (by omega)).symm

/-- Without a wrap a write is a copy to an address. -/
theorem blit_eq_store {p : ℕ} {cells : List β} (h : p + cells.length ≤ N) :
    blit N mem p cells = store mem p cells := by
  induction cells generalizing mem p with
  | nil =>
    funext b
    simp [store]
  | cons c cells ih =>
    rw [List.length_cons] at h
    rw [blit_cons, ih _ (by omega), Nat.mod_eq_of_lt (by omega)]
    funext b
    simp only [store]
    rcases Nat.lt_trichotomy b p with hb | rfl | hb
    · rw [if_neg (by omega), if_neg (by omega), Function.update_of_ne (by omega)]
    · rw [if_neg (by omega), if_pos (Nat.le_refl b), Function.update_self, Nat.sub_self]
      rfl
    · have hsub : b - p = b - (p + 1) + 1 := by omega
      rw [if_pos (by omega), if_pos (by omega), Function.update_of_ne (by omega), hsub,
        List.getElem?_cons_succ]

end Blit

/-! ### Copies in two segments -/

section Segments

variable {N : ℕ} (mem : ℕ → β)

/-- A write that may wrap, as one copy up to the end of the memory and one from its start. -/
theorem blit_eq_store_store {p : ℕ} {cells : List β} (hp : p ≤ N) (h : cells.length ≤ N) :
    blit N mem p cells =
      store (store mem p (cells.take (N - p))) 0 (cells.drop (N - p)) := by
  have hfront : (cells.take (N - p)).length = min (N - p) cells.length := List.length_take
  have hback : (cells.drop (N - p)).length = cells.length - (N - p) := List.length_drop
  rw [← blit_eq_store mem (N := N) (by omega), ← blit_eq_store _ (N := N) (by omega)]
  conv_lhs => rw [← List.take_append_drop (N - p) cells, blit_append]
  by_cases hwrap : cells.length ≤ N - p
  · rw [List.drop_eq_nil_of_le hwrap]
    rfl
  · refine blit_congr_mod _ ?_ _
    rw [hfront, Nat.min_eq_left (by omega), Nat.add_sub_cancel' hp, Nat.mod_self, Nat.zero_mod]

/-- A read that may wrap, as one copy up to the end of the memory and one from its start. -/
theorem window_eq_load_load {p n : ℕ} (hp : p ≤ N) (h : n ≤ N) :
    window N mem p n = load mem p (min n (N - p)) ++ load mem 0 (n - min n (N - p)) := by
  have hsplit : n = min n (N - p) + (n - min n (N - p)) := by omega
  conv_lhs => rw [hsplit, window_add]
  rw [window_eq_load N mem (by omega)]
  congr 1
  by_cases hwrap : n ≤ N - p
  · rw [Nat.min_eq_left hwrap, Nat.sub_self]
    rfl
  · rw [← window_mod, Nat.min_eq_right (by omega), Nat.add_sub_cancel' hp, Nat.mod_self]
    exact window_eq_load N mem (by omega)

end Segments

end CircularMemory
