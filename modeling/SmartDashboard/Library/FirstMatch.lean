import Mathlib.Data.List.Basic
import Mathlib.Data.List.Nodup

/-!
# Updating the first match of a list

A loop that finds the first element of a vector and writes through the pointer it found is
`updateFirst`. Its laws say how the lookup of this and of any other key sees the write.
-/

namespace FirstMatch

variable {α κ : Type*}

/-- Replace the first element that satisfies `p`; the list is unchanged if there is none. -/
def updateFirst (p : α → Bool) (f : α → α) : List α → List α
  | [] => []
  | a :: l => if p a then f a :: l else a :: updateFirst p f l

variable {p q : α → Bool} {f : α → α}

@[simp] theorem updateFirst_nil : updateFirst p f [] = [] := rfl

theorem updateFirst_cons (a : α) (l : List α) :
    updateFirst p f (a :: l) = if p a then f a :: l else a :: updateFirst p f l := rfl

/-- The lookup that found the element finds its new value. -/
theorem find?_updateFirst (hf : ∀ a, p a → p (f a)) (l : List α) :
    (updateFirst p f l).find? p = (l.find? p).map f := by
  induction l with
  | nil => rfl
  | cons a l ih =>
    cases hp : p a with
    | true => simp [updateFirst_cons, hp, hf a hp]
    | false => simp [updateFirst_cons, hp, ih]

/-- A lookup that can match neither the old nor the new value is not affected. -/
theorem find?_updateFirst_of_disjoint (hq : ∀ a, p a → q a = false ∧ q (f a) = false)
    (l : List α) : (updateFirst p f l).find? q = l.find? q := by
  induction l with
  | nil => rfl
  | cons a l ih =>
    cases hp : p a with
    | true => simp [updateFirst_cons, hp, hq a hp]
    | false => simp only [updateFirst_cons, hp, Bool.false_eq_true, if_false, List.find?_cons, ih]

/-- What the write does not touch is the same in every position. -/
theorem map_updateFirst {g : α → κ} (hg : ∀ a, p a → g (f a) = g a) (l : List α) :
    (updateFirst p f l).map g = l.map g := by
  induction l with
  | nil => rfl
  | cons a l ih =>
    cases hp : p a with
    | true => simp [updateFirst_cons, hp, hg a hp]
    | false => simp [updateFirst_cons, hp, ih]

theorem forall_mem_updateFirst {P : α → Prop} {l : List α} (hl : ∀ a ∈ l, P a)
    (hf : ∀ a, l.find? p = some a → P (f a)) : ∀ a ∈ updateFirst p f l, P a := by
  induction l with
  | nil => simp
  | cons b l ih =>
    have htail : ∀ a ∈ l, P a := fun a ha => hl a (List.mem_cons_of_mem b ha)
    cases hp : p b with
    | true =>
      simp only [updateFirst_cons, hp, if_true, List.forall_mem_cons]
      exact ⟨hf b (by simp [hp]), htail⟩
    | false =>
      simp only [updateFirst_cons, hp, Bool.false_eq_true, if_false, List.forall_mem_cons]
      exact ⟨hl b List.mem_cons_self, ih htail fun a ha => hf a (by simpa [hp] using ha)⟩

/-- Erasing the first match of one key leaves the lookup of another key alone. -/
theorem find?_eraseP_of_disjoint (hq : ∀ a, p a → q a = false) (l : List α) :
    (l.eraseP p).find? q = l.find? q := by
  induction l with
  | nil => rfl
  | cons a l ih =>
    cases hp : p a with
    | true => simp [hp, hq a hp]
    | false => simp [hp, List.find?_cons, ih]

section Keys

variable [DecidableEq κ] {key : α → κ}

/-- With distinct keys the first match is the only one, and erasing it leaves none. -/
theorem find?_eraseP_self {l : List α} (hl : (l.map key).Nodup) (k : κ) :
    (l.eraseP fun a => decide (key a = k)).find? (fun a => decide (key a = k)) = none := by
  induction l with
  | nil => rfl
  | cons a l ih =>
    rw [List.map_cons, List.nodup_cons] at hl
    by_cases hk : key a = k
    · have hnone : ∀ b ∈ l, key b ≠ k := fun b hb hbk =>
        hl.1 (List.mem_map.mpr ⟨b, hb, hbk.trans hk.symm⟩)
      simpa [hk] using hnone
    · simpa [hk] using ih hl.2

/-- With distinct keys a write to the first match is a write to every match. -/
theorem updateFirst_eq_map {l : List α} (hl : (l.map key).Nodup) (k : κ) :
    updateFirst (fun a => decide (key a = k)) f l =
      l.map fun a => if key a = k then f a else a := by
  induction l with
  | nil => rfl
  | cons a l ih =>
    rw [List.map_cons, List.nodup_cons] at hl
    by_cases hk : key a = k
    · have hrest : ∀ b ∈ l, (if key b = k then f b else b) = b := fun b hb =>
        if_neg fun hbk => hl.1 (List.mem_map.mpr ⟨b, hb, hbk.trans hk.symm⟩)
      simp [updateFirst_cons, hk, List.map_congr_left hrest]
    · simp [updateFirst_cons, hk, ih hl.2]

/-- With distinct keys erasing the first match erases every match. -/
theorem eraseP_eq_filter {l : List α} (hl : (l.map key).Nodup) (k : κ) :
    l.eraseP (fun a => decide (key a = k)) = l.filter fun a => decide (key a ≠ k) := by
  induction l with
  | nil => rfl
  | cons a l ih =>
    rw [List.map_cons, List.nodup_cons] at hl
    by_cases hk : key a = k
    · have hrest : ∀ b ∈ l, decide (key b ≠ k) = true := fun b hb =>
        decide_eq_true fun hbk => hl.1 (List.mem_map.mpr ⟨b, hb, hbk.trans hk.symm⟩)
      rw [List.eraseP_cons_of_pos (by simpa using hk), List.filter_cons_of_neg (by simp [hk]),
        List.filter_eq_self.mpr hrest]
    · rw [List.eraseP_cons_of_neg (by simpa using hk), List.filter_cons_of_pos (by simpa using hk),
        ih hl.2]

/-- With distinct keys a member is what the lookup of its key finds. -/
theorem find?_eq_some_of_mem {l : List α} (hl : (l.map key).Nodup) {a : α} (ha : a ∈ l) :
    l.find? (fun b => decide (key b = key a)) = some a := by
  induction l with
  | nil => simp at ha
  | cons b l ih =>
    rw [List.map_cons, List.nodup_cons] at hl
    rcases List.mem_cons.mp ha with rfl | ha
    · simp
    · have hne : key b ≠ key a := fun h => hl.1 (List.mem_map.mpr ⟨a, ha, h.symm⟩)
      simpa [hne] using ih hl.2 ha

end Keys

end FirstMatch
