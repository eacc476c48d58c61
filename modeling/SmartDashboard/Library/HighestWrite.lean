import Mathlib.Data.List.MinMax
import Mathlib.Data.List.Pairwise
import SmartDashboard.Library.LastWrite

/-!
# The highest write to a key

A map that keeps one value for each key and lets a write replace it only if the write ranks no
lower. It holds the highest write to every key, of equal ones the last: `foldl_keep`. Where no two
writes to a key rank equal, the order of the writes does not show: `highest_of_perm`.

## Main definitions

- `keep`: one write
- `highest`: the highest of the writes to a key
- `Separates`: no two writes to one key rank equal
-/

namespace HighestWrite

open LastWrite (writes mem_writes writes_append writes_singleton)

variable {α κ ρ : Type*} [DecidableEq κ] [LinearOrder ρ] (key : α → κ) (rank : α → ρ)

/-- A write replaces nothing of a higher rank. -/
def keep (f : κ → Option α) (a : α) : κ → Option α :=
  match f (key a) with
  | none => Function.update f (key a) (some a)
  | some b => if rank b ≤ rank a then Function.update f (key a) (some a) else f

/-- The highest write to a key, of equal ones the last. -/
def highest (k : κ) (l : List α) : Option α := (writes key k l).reverse.argmax rank

/-- Writes to one key rank differently. -/
def Separates (l : List α) : Prop := l.Pairwise fun a b => key a = key b → rank a ≠ rank b

variable {key rank} {k : κ} {a b : α} {l m : List α}

theorem highest_append_self (hk : key a = k) :
    highest key rank k (l ++ [a]) = match highest key rank k l with
      | none => some a
      | some b => if rank b ≤ rank a then some a else some b := by
  have hwrites : (writes key k (l ++ [a])).reverse = a :: (writes key k l).reverse := by
    rw [writes_append, writes_singleton, if_pos hk, List.reverse_concat]
  rw [highest, hwrites, List.argmax_cons, ← highest]
  cases highest key rank k l with
  | none => rfl
  | some b =>
    show (if rank a < rank b then some b else some a) = if rank b ≤ rank a then some a else some b
    by_cases hle : rank b ≤ rank a
    · rw [if_pos hle, if_neg (not_lt.mpr hle)]
    · rw [if_neg hle, if_pos (not_le.mp hle)]

theorem highest_append_of_ne (hk : key a ≠ k) :
    highest key rank k (l ++ [a]) = highest key rank k l := by
  rw [highest, writes_append, writes_singleton, if_neg hk, List.append_nil]
  rfl

/-- The step lemma: a write to a map of the highest writes keeps it one. -/
theorem keep_highest (l : List α) (a : α) :
    keep key rank (fun k => highest key rank k l) a = fun k => highest key rank k (l ++ [a]) := by
  funext k
  by_cases hk : key a = k
  · subst hk
    rw [highest_append_self rfl, keep]
    cases hold : highest key rank (key a) l with
    | none => exact Function.update_self ..
    | some b =>
      show (if rank b ≤ rank a then (_ : κ → Option α) else _) (key a) = _
      by_cases hle : rank b ≤ rank a
      · rw [if_pos hle]
        exact (Function.update_self ..).trans (if_pos hle).symm
      · rw [if_neg hle]
        exact hold.trans (if_neg hle).symm
  · rw [highest_append_of_ne hk, keep]
    cases highest key rank (key a) l with
    | none => exact Function.update_of_ne (Ne.symm hk) _ _
    | some b =>
      show (if rank b ≤ rank a then (_ : κ → Option α) else _) k = _
      split_ifs
      · exact Function.update_of_ne (Ne.symm hk) _ _
      · rfl

/-- Writes to an empty map leave the highest one to each key. -/
theorem foldl_keep (l : List α) :
    l.foldl (keep key rank) (fun _ => none) = fun k => highest key rank k l := by
  induction l using List.reverseRecOn with
  | nil => rfl
  | append_singleton l a ih =>
    rw [List.foldl_append, ih]
    exact keep_highest l a

theorem highest_eq_none_iff : highest key rank k l = none ↔ ∀ a ∈ l, key a ≠ k := by
  rw [highest, List.argmax_eq_none, List.reverse_eq_nil_iff, writes, List.filter_eq_nil_iff]
  simp only [decide_eq_true_eq, ne_eq]

/-- The highest write is a write, and none to its key is above it. -/
theorem of_highest_eq_some (h : highest key rank k l = some a) :
    (a ∈ l ∧ key a = k) ∧ ∀ b ∈ l, key b = k → rank b ≤ rank a := by
  refine ⟨mem_writes.mp (List.mem_reverse.mp (List.argmax_mem h)), ?_⟩
  intro b hb hbk
  exact List.le_of_mem_argmax (List.mem_reverse.mpr (mem_writes.mpr ⟨hb, hbk⟩)) h

omit [DecidableEq κ] [LinearOrder ρ] in
theorem Separates.eq_of_rank_eq (h : Separates key rank l) (ha : a ∈ l) (hb : b ∈ l)
    (hkey : key a = key b) (hrank : rank a = rank b) : a = b := by
  by_contra hne
  have : Std.Symm fun a b : α => key a = key b → rank a ≠ rank b :=
    ⟨fun _ _ hab hkey => (hab hkey.symm).symm⟩
  exact h.forall ha hb hne hkey hrank

omit [DecidableEq κ] [LinearOrder ρ] in
theorem Separates.perm (h : Separates key rank l) (hperm : l.Perm m) : Separates key rank m :=
  hperm.pairwise h fun hab hkey => (hab hkey.symm).symm

/-- Where ranks separate the writes, the highest one is the one that none is above. -/
theorem Separates.highest_eq_some_iff (h : Separates key rank l) :
    highest key rank k l = some a ↔
      (a ∈ l ∧ key a = k) ∧ ∀ b ∈ l, key b = k → rank b ≤ rank a := by
  constructor
  · exact of_highest_eq_some
  · rintro ⟨⟨ha, hak⟩, hall⟩
    cases hhighest : highest key rank k l with
    | none => exact absurd hak (highest_eq_none_iff.mp hhighest a ha)
    | some b =>
      obtain ⟨⟨hb, hbk⟩, hle⟩ := of_highest_eq_some hhighest
      have hrank : rank b = rank a := le_antisymm (hall b hb hbk) (hle a ha hak)
      rw [h.eq_of_rank_eq hb ha (hbk.trans hak.symm) hrank]

/-- The order of the writes does not show. -/
theorem Separates.highest_of_perm (h : Separates key rank l) (hperm : l.Perm m) :
    highest key rank k l = highest key rank k m := by
  refine Option.ext fun a => ?_
  rw [h.highest_eq_some_iff, (h.perm hperm).highest_eq_some_iff]
  simp only [hperm.mem_iff]

end HighestWrite
