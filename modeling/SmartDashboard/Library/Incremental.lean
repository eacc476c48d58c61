import Mathlib.Data.List.Basic
import SmartDashboard.Library.Execution

/-!
# Parsing what has arrived so far

Searches and parsers that work on a buffer to which more is appended later. A parser takes one
piece off the front of the buffer, or says that there is no whole piece yet. If a piece that it
takes is the same whatever comes behind it, then the pieces of a stream do not depend on how the
stream is cut into chunks.

## Main definitions

- `indexOf`: the first place of one list in another, from some place on
- `drain`: take pieces until there is none
- `Incremental`: what is taken stays the same when more arrives, and is not nothing
- `feed`: the step of a buffer that gets a chunk
-/

namespace Incremental

open Execution

variable {α β : Type*}

/-! ### Search -/

section Search

variable [DecidableEq α]

/-- The first place of `needle`. -/
def findFirst (needle : List α) : List α → Option ℕ
  | [] => if needle = [] then some 0 else none
  | a :: haystack =>
    if needle <+: a :: haystack then some 0 else (findFirst needle haystack).map (· + 1)

/-- The first place of `needle` that is not before `start`. -/
def indexOf (needle haystack : List α) (start : ℕ) : Option ℕ :=
  (findFirst needle (haystack.drop start)).map (· + start)

variable {needle haystack : List α} {i start : ℕ}

theorem add_length_le_of_findFirst (h : findFirst needle haystack = some i) :
    i + needle.length ≤ haystack.length := by
  induction haystack generalizing i with
  | nil =>
    obtain ⟨rfl, hi⟩ := Option.ite_none_right_eq_some.mp h
    obtain rfl := Option.some.inj hi
    exact Nat.le_refl 0
  | cons a haystack ih =>
    rw [findFirst] at h
    split at h
    case isTrue hprefix =>
      obtain rfl := Option.some.inj h
      rw [Nat.zero_add]
      exact hprefix.length_le
    case isFalse =>
      obtain ⟨j, hj, rfl⟩ := Option.map_eq_some_iff.mp h
      have hle := ih hj
      rw [List.length_cons]
      omega

/-- What was found is found again when more arrives. -/
theorem findFirst_append (hne : needle ≠ []) (h : findFirst needle haystack = some i)
    (more : List α) : findFirst needle (haystack ++ more) = some i := by
  induction haystack generalizing i with
  | nil => exact absurd (Option.ite_none_right_eq_some.mp h).1 hne
  | cons a haystack ih =>
    rw [findFirst] at h
    rw [List.cons_append, findFirst]
    split at h
    case isTrue hprefix =>
      rw [if_pos]
      · exact h
      · exact hprefix.trans (List.prefix_append (a :: haystack) more)
    case isFalse hprefix =>
      obtain ⟨j, hj, rfl⟩ := Option.map_eq_some_iff.mp h
      -- nothing that is in front now reaches into what arrives
      have hlength := add_length_le_of_findFirst hj
      rw [if_neg, ih hj, Option.map_some]
      intro hlong
      refine hprefix (List.prefix_of_prefix_length_le hlong
        (List.prefix_append (a :: haystack) more) ?_)
      rw [List.length_cons]
      omega

theorem indexOf_bounds (h : indexOf needle haystack start = some i) (hne : needle ≠ []) :
    start ≤ i ∧ i + needle.length ≤ haystack.length := by
  obtain ⟨j, hj, rfl⟩ := Option.map_eq_some_iff.mp h
  have hle := add_length_le_of_findFirst hj
  have hpos := List.length_pos_iff.mpr hne
  rw [List.length_drop] at hle
  omega

theorem indexOf_append (hne : needle ≠ []) (h : indexOf needle haystack start = some i)
    (more : List α) : indexOf needle (haystack ++ more) start = some i := by
  have hbounds := indexOf_bounds h hne
  obtain ⟨j, hj, rfl⟩ := Option.map_eq_some_iff.mp h
  rw [indexOf, List.drop_append_of_le_length (by omega), findFirst_append hne hj, Option.map_some]

/-- What is found first begins there, and nowhere in front. -/
theorem findFirst_eq_some_iff (hne : needle ≠ []) :
    findFirst needle haystack = some i ↔
      needle <+: haystack.drop i ∧ ∀ j < i, ¬ needle <+: haystack.drop j := by
  induction haystack generalizing i with
  | nil =>
    rw [findFirst, if_neg hne, List.drop_nil, List.prefix_nil]
    exact iff_of_false (Option.some_ne_none i).symm fun h => hne h.1
  | cons a haystack ih =>
    rw [findFirst]
    by_cases hfirst : needle <+: a :: haystack
    · rw [if_pos hfirst, Option.some.injEq]
      constructor
      · rintro rfl
        exact ⟨hfirst, fun j hj => absurd hj (Nat.not_lt_zero j)⟩
      · intro h
        by_contra hi
        exact h.2 0 (Nat.pos_of_ne_zero (Ne.symm hi)) hfirst
    · rw [if_neg hfirst, Option.map_eq_some_iff]
      constructor
      · rintro ⟨k, hk, rfl⟩
        rw [ih] at hk
        refine ⟨hk.1, fun j hj => ?_⟩
        cases j with
        | zero => exact hfirst
        | succ j => exact hk.2 j (Nat.lt_of_succ_lt_succ hj)
      · rintro ⟨hi, hbefore⟩
        cases i with
        | zero => exact absurd hi hfirst
        | succ k => exact ⟨k, ih.mpr ⟨hi, fun j hj => hbefore (j + 1) (Nat.succ_lt_succ hj)⟩, rfl⟩

theorem findFirst_self_append (needle rest : List α) :
    findFirst needle (needle ++ rest) = some 0 := by
  cases h : needle ++ rest with
  | nil => rw [findFirst, if_pos (List.append_eq_nil_iff.mp h).1]
  | cons a haystack => rw [findFirst, if_pos (h ▸ List.prefix_append needle rest)]

/-- A part in which the needle does not begin is passed over. -/
theorem findFirst_append_of_absent {front rest : List α}
    (hfront : ∀ j < front.length, ¬ needle <+: (front ++ rest).drop j) :
    findFirst needle (front ++ rest) = (findFirst needle rest).map (· + front.length) := by
  induction front with
  | nil => exact Option.map_id_apply.symm
  | cons a front ih =>
    have hfirst : ¬ needle <+: a :: (front ++ rest) := hfront 0 (Nat.succ_pos _)
    have hrest := ih fun j hj => hfront (j + 1) (Nat.succ_lt_succ hj)
    rw [List.cons_append, findFirst, if_neg hfirst, hrest, Option.map_map]
    rfl

theorem indexOf_eq_some_iff (hne : needle ≠ []) :
    indexOf needle haystack start = some i ↔
      start ≤ i ∧ needle <+: haystack.drop i ∧
        ∀ j, start ≤ j → j < i → ¬ needle <+: haystack.drop j := by
  simp only [indexOf, Option.map_eq_some_iff, findFirst_eq_some_iff hne, List.drop_drop]
  constructor
  · rintro ⟨k, ⟨hk, hbefore⟩, rfl⟩
    rw [Nat.add_comm start] at hk
    refine ⟨Nat.le_add_left start k, hk, fun j hstart hj => ?_⟩
    obtain ⟨m, rfl⟩ := Nat.exists_eq_add_of_le hstart
    exact hbefore m (by omega)
  · rintro ⟨hstart, hi, hbefore⟩
    obtain ⟨k, rfl⟩ := Nat.exists_eq_add_of_le hstart
    exact ⟨k, ⟨hi, fun j hj => hbefore _ (Nat.le_add_right start j) (by omega)⟩,
      Nat.add_comm k start⟩

omit [DecidableEq α] in
/-- Absence from two parts, one behind the other. -/
theorem absent_append {front rest : List α} {n : ℕ}
    (hfront : ∀ j < front.length, ¬ needle <+: (front ++ rest).drop j)
    (hrest : ∀ j < n, ¬ needle <+: rest.drop j) :
    ∀ j < front.length + n, ¬ needle <+: (front ++ rest).drop j := by
  intro j hj
  by_cases hlt : j < front.length
  · exact hfront j hlt
  · obtain ⟨k, rfl⟩ := Nat.exists_eq_add_of_le (Nat.le_of_not_lt hlt)
    rw [List.drop_length_add_append]
    exact hrest k (by omega)

omit [DecidableEq α] in
/-- A list does not begin in a piece that it is not in, if it would reach over an element that it
does not have. -/
theorem not_isPrefix_drop {piece rest : List α} {a : α} {j : ℕ} (ha : a ∉ needle)
    (hpiece : ¬ needle <:+: piece) (hj : j ≤ piece.length) :
    ¬ needle <+: (piece ++ a :: rest).drop j := by
  rw [List.drop_append_of_le_length hj]
  rintro ⟨behind, h⟩
  rcases List.append_eq_append_iff.mp h with ⟨more, hmore, -⟩ | ⟨more, hmore, hrest⟩
  · exact hpiece (((hmore ▸ List.prefix_append needle more).isInfix).trans
      (List.drop_suffix j piece).isInfix)
  · cases more with
    | nil =>
      rw [List.append_nil] at hmore
      exact hpiece (hmore ▸ (List.drop_suffix j piece).isInfix)
    | cons b more =>
      obtain ⟨rfl, -⟩ := List.cons.inj hrest
      exact ha (hmore ▸ List.mem_append_right _ List.mem_cons_self)

end Search

/-! ### Pieces -/

variable (next : List α → Option (List β × List α))

/-- Take pieces until there is none, or the fuel is used up. -/
def drainWithin : ℕ → List α → List β × List α
  | 0, buffer => ([], buffer)
  | fuel + 1, buffer =>
    match next buffer with
    | none => ([], buffer)
    | some (given, rest) =>
      (given ++ (drainWithin fuel rest).1, (drainWithin fuel rest).2)

/-- Take pieces until there is none: what they gave, and what is left. -/
def drain (buffer : List α) : List β × List α :=
  drainWithin next buffer.length buffer

/-- A chunk arrives. -/
def feed (buffer chunk : List α) : List α × List β :=
  ((drain next (buffer ++ chunk)).2, (drain next (buffer ++ chunk)).1)

end Incremental

/-- A piece is not empty, and it is the same piece when more has arrived. -/
structure Incremental {α β : Type*} (next : List α → Option (List β × List α)) : Prop where
  shrinks : ∀ {buffer given rest}, next buffer = some (given, rest) → rest.length < buffer.length
  stable : ∀ {buffer given rest}, next buffer = some (given, rest) →
    ∀ more, next (buffer ++ more) = some (given, rest ++ more)

namespace Incremental

open Execution

variable {α β : Type*} {next : List α → Option (List β × List α)} {buffer : List α}

theorem drainWithin_of_none (h : next buffer = none) (fuel : ℕ) :
    drainWithin next fuel buffer = ([], buffer) := by
  cases fuel with
  | zero => rfl
  | succ fuel => simp only [drainWithin, h]

theorem drainWithin_of_some {given : List β} {rest : List α} (h : next buffer = some (given, rest))
    (fuel : ℕ) : drainWithin next (fuel + 1) buffer =
      (given ++ (drainWithin next fuel rest).1, (drainWithin next fuel rest).2) := by
  simp only [drainWithin, h]

theorem drain_of_none (h : next buffer = none) : drain next buffer = ([], buffer) :=
  drainWithin_of_none h _

/-- Any fuel will do that is as long as the buffer. -/
theorem drainWithin_congr (hnext : Incremental next) {fuel fuel' : ℕ}
    (hfuel : buffer.length ≤ fuel) (hfuel' : buffer.length ≤ fuel') :
    drainWithin next fuel buffer = drainWithin next fuel' buffer := by
  induction fuel generalizing buffer fuel' with
  | zero =>
    obtain rfl := List.length_eq_zero_iff.mp (Nat.le_zero.mp hfuel)
    have hnone : next [] = none := by
      cases h : next [] with
      | none => rfl
      | some piece => exact absurd (hnext.shrinks h) (Nat.not_lt_zero _)
    rw [drainWithin_of_none hnone, drainWithin_of_none hnone]
  | succ fuel ih =>
    cases h : next buffer with
    | none => rw [drainWithin_of_none h, drainWithin_of_none h]
    | some piece =>
      obtain ⟨given, rest⟩ := piece
      have hlt := hnext.shrinks h
      cases fuel' with
      | zero => omega
      | succ fuel' =>
        have hrest : drainWithin next fuel rest = drainWithin next fuel' rest :=
          ih (by omega) (by omega)
        rw [drainWithin_of_some h, drainWithin_of_some h, hrest]

section Drain

variable (hnext : Incremental next)

include hnext

theorem drain_of_some {given : List β} {rest : List α} (h : next buffer = some (given, rest)) :
    drain next buffer = (given ++ (drain next rest).1, (drain next rest).2) := by
  have hlt := hnext.shrinks h
  obtain ⟨fuel, hfuel⟩ := Nat.exists_eq_add_one_of_ne_zero (Nat.ne_zero_of_lt hlt)
  have hrest : drainWithin next fuel rest = drain next rest :=
    drainWithin_congr hnext (by omega) (Nat.le_refl _)
  rw [drain, hfuel, drainWithin_of_some h, hrest]

/-- The pieces of a buffer by its pieces: a rule of induction. -/
theorem induction {P : List α → Prop} (hnone : ∀ buffer, next buffer = none → P buffer)
    (hsome : ∀ buffer given rest, next buffer = some (given, rest) → P rest → P buffer)
    (buffer : List α) : P buffer := by
  induction hlength : buffer.length using Nat.strongRecOn generalizing buffer with
  | _ n ih =>
    cases h : next buffer with
    | none => exact hnone buffer h
    | some piece =>
      obtain ⟨given, rest⟩ := piece
      have hlt := hnext.shrinks h
      exact hsome buffer given rest h (ih rest.length (by omega) rest rfl)

/-- What is left has no piece in it. -/
theorem next_drain (buffer : List α) : next (drain next buffer).2 = none := by
  induction buffer using hnext.induction with
  | hnone buffer h => rw [drain_of_none h, h]
  | hsome buffer given rest h ih => rw [hnext.drain_of_some h, ih]

/-- What has arrived already can be parsed before the rest arrives. -/
theorem drain_append (buffer more : List α) :
    drain next (buffer ++ more) =
      ((drain next buffer).1 ++ (drain next ((drain next buffer).2 ++ more)).1,
        (drain next ((drain next buffer).2 ++ more)).2) := by
  induction buffer using hnext.induction with
  | hnone buffer h => rw [drain_of_none h, List.nil_append]
  | hsome buffer given rest h ih =>
    rw [hnext.drain_of_some (hnext.stable h more), ih, hnext.drain_of_some h, List.append_assoc]

/-- A buffer that gets chunks gives what it gives when all of them arrive at once. -/
theorem feed_chunks (hbuffer : next buffer = none) (chunks : List (List α)) :
    (history (feed next) buffer chunks).flatMap Record.output =
        (drain next (buffer ++ chunks.flatten)).1 ∧
      after (feed next) buffer chunks = (drain next (buffer ++ chunks.flatten)).2 := by
  induction chunks generalizing buffer with
  | nil =>
    rw [List.flatten_nil, List.append_nil, drain_of_none hbuffer]
    exact ⟨rfl, rfl⟩
  | cons chunk chunks ih =>
    obtain ⟨hgiven, hrest⟩ := ih (hnext.next_drain (buffer ++ chunk))
    rw [List.flatten_cons, ← List.append_assoc, hnext.drain_append (buffer ++ chunk),
      history_cons, List.flatMap_cons, after_cons]
    exact ⟨congrArg _ hgiven, hrest⟩

end Drain

end Incremental
