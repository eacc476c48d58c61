import Mathlib.Data.List.Perm.Basic
import Mathlib.Order.Lattice

/-!
# Sorting without an order of ties

What a sort by keys may make of a list if nothing is said about elements of equal keys: every
permutation in which the keys do not fall. Elements of one key keep their order in all of them only
if there are no two different ones.

## Main definitions

- `SortsTo`: a sort may turn the one list into the other

## Main results

- `forall_filter_eq_iff`: when elements of one key keep their order
-/

namespace SortTies

variable {α τ : Type*} [LinearOrder τ] {key : α → τ} {l m : List α}

/-- A sort by keys may turn `l` into `m`. -/
structure SortsTo (key : α → τ) (l m : List α) : Prop where
  perm : m.Perm l
  sorted : m.Pairwise fun a b => key a ≤ key b

section Filter

variable {p : α → Bool}

/-- Equal elements stay in order. -/
theorem SortsTo.filter_eq (h : SortsTo key l m)
    (hsame : ∀ a ∈ l, ∀ b ∈ l, p a = true → p b = true → a = b) : m.filter p = l.filter p := by
  have hperm : (m.filter p).Perm (l.filter p) := h.perm.filter p
  cases hl : l.filter p with
  | nil =>
    rw [hl] at hperm
    exact hperm.eq_nil
  | cons a rest =>
    have ha := List.mem_filter.mp (hl ▸ List.mem_cons_self : a ∈ l.filter p)
    have hall : ∀ b ∈ l.filter p, b = a := by
      intro b hb
      obtain ⟨hb, hpb⟩ := List.mem_filter.mp hb
      exact hsame b hb a ha.1 hpb ha.2
    have hleft := List.eq_replicate_of_mem fun b hb => hall b (hperm.subset hb)
    have hright := List.eq_replicate_of_mem hall
    rw [← hl, hleft, hright, hperm.length_eq]

/-- Elements of one key may come out in every order. -/
theorem exists_sortsTo_filter_eq (hties : ∀ a b, p a = true → p b = true → key a = key b)
    {front : List α} (hfront : front.Perm (l.filter p)) :
    ∃ m, SortsTo key l m ∧ m.filter p = front := by
  have hp : ∀ a ∈ front, p a = true := fun a ha => (List.mem_filter.mp (hfront.subset ha)).2
  have hperm : (front ++ l.filter fun a => !p a).Perm l :=
    (hfront.append_right _).trans (List.filter_append_perm p l)
  have htrans : ∀ a b c : α, decide (key a ≤ key b) = true → decide (key b ≤ key c) = true →
      decide (key a ≤ key c) = true := by
    intro a b c hab hbc
    exact decide_eq_true (le_trans (of_decide_eq_true hab) (of_decide_eq_true hbc))
  have htotal : ∀ a b : α, (decide (key a ≤ key b) || decide (key b ≤ key a)) = true := by
    intro a b
    simpa using le_total (key a) (key b)
  have hsort := List.mergeSort_perm (front ++ l.filter fun a => !p a)
    fun a b => decide (key a ≤ key b)
  refine ⟨_, ⟨hsort.trans hperm, ?_⟩, ?_⟩
  · have hsorted := List.pairwise_mergeSort htrans htotal (front ++ l.filter fun a => !p a)
    exact hsorted.imp fun h => of_decide_eq_true h
  · -- the front is sorted already, and a merge sort is stable
    have hfrontSorted : front.Pairwise fun a b => decide (key a ≤ key b) = true :=
      List.pairwise_of_forall_mem_list fun a ha b hb =>
        decide_eq_true (le_of_eq (hties a b (hp a ha) (hp b hb)))
    have hsub := List.sublist_mergeSort htrans htotal hfrontSorted
      (List.sublist_append_left front (l.filter fun a => !p a))
    have hfilter : front.filter p = front := List.filter_eq_self.mpr hp
    have hsub := hsub.filter p
    rw [hfilter] at hsub
    refine (hsub.eq_of_length ?_).symm
    rw [((hsort.trans hperm).filter p).length_eq, hfront.length_eq]

/-- A list with two different elements has a second order. -/
theorem exists_perm_ne {a b : α} (ha : a ∈ l) (hb : b ∈ l) (hne : a ≠ b) :
    ∃ m : List α, m.Perm l ∧ m ≠ l := by
  cases l with
  | nil => cases ha
  | cons x rest =>
    obtain ⟨y, hy, hyx⟩ : ∃ y ∈ x :: rest, y ≠ x := by
      by_cases hax : a = x
      · exact ⟨b, hb, fun hbx => hne (hax.trans hbx.symm)⟩
      · exact ⟨a, ha, hax⟩
    obtain ⟨s, t, rfl⟩ := List.append_of_mem ((List.mem_cons.mp hy).resolve_left hyx)
    -- the other element comes to the front
    refine ⟨y :: x :: (s ++ t), ?_, fun hsame => hyx (List.cons.inj hsame).1⟩
    exact (List.Perm.swap x y (s ++ t)).trans (List.perm_middle.symm.cons x)

/-- The elements that `p` picks, all of one key, keep their order in every sort if and only if no
two of them differ. -/
theorem forall_filter_eq_iff (hties : ∀ a b, p a = true → p b = true → key a = key b) :
    (∀ m, SortsTo key l m → m.filter p = l.filter p) ↔
      ∀ a ∈ l, ∀ b ∈ l, p a = true → p b = true → a = b := by
  refine ⟨fun h a ha b hb hpa hpb => ?_, fun hsame m hm => hm.filter_eq hsame⟩
  by_contra hne
  obtain ⟨front, hfront, hother⟩ := exists_perm_ne (List.mem_filter.mpr ⟨ha, hpa⟩)
    (List.mem_filter.mpr ⟨hb, hpb⟩) hne
  obtain ⟨m, hm, hmfront⟩ := exists_sortsTo_filter_eq hties hfront
  exact hother (hmfront.symm.trans (h m hm))

end Filter

end SortTies
