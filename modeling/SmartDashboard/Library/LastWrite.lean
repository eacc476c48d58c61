import Mathlib.Data.List.Basic
import Mathlib.Data.List.Nodup
import Mathlib.Order.Defs.Unbundled

/-!
# The last write to a key

A list of writes, each to a key, and the last one to each key. A loop that keeps one value for each
key, overwriting what it had, ends with the last write to every key: `writes_foldl`. Two such
loops are `put`, which keeps the keys in the order of their first appearance, and `insert`, which
keeps them sorted.

## Main definitions

- `writes`, `last`: the writes to a key and the last of them
- `Overwrites`: a loop body that keeps one value for each key
- `put`, `coalesce`: the values by first appearance of their keys
- `Keeps`: of every key some of the writes, in their order, and the last one
- `insert`: the values in the order of their keys
-/

namespace LastWrite

variable {α κ : Type*} [DecidableEq κ] (key : α → κ)

/-- The writes to one key, in order. -/
def writes (k : κ) (l : List α) : List α := l.filter fun a => key a = k

/-- The last write to one key. -/
def last (k : κ) (l : List α) : Option α := (writes key k l).getLast?

variable {key} {k : κ} {a : α} {l m : List α}

@[simp] theorem writes_nil : writes key k [] = [] := rfl

theorem writes_cons : writes key k (a :: l) =
    if key a = k then a :: writes key k l else writes key k l := by
  simp only [writes, List.filter_cons, decide_eq_true_eq]

@[simp] theorem writes_append : writes key k (l ++ m) = writes key k l ++ writes key k m :=
  List.filter_append ..

theorem writes_singleton : writes key k [a] = if key a = k then [a] else [] := writes_cons

@[simp] theorem last_nil : last key k [] = none := rfl

theorem last_append : last key k (l ++ m) = (last key k m).or (last key k l) := by
  rw [last, writes_append, List.getLast?_append]
  rfl

theorem last_singleton : last key k [a] = if key a = k then some a else none := by
  rw [last, writes_singleton]
  split_ifs
  · rfl
  · rfl

theorem mem_writes : a ∈ writes key k l ↔ a ∈ l ∧ key a = k := by
  rw [writes, List.mem_filter, decide_eq_true_eq]

theorem last_eq_none_iff : last key k l = none ↔ ∀ a ∈ l, key a ≠ k := by
  rw [last, List.getLast?_eq_none_iff, writes, List.filter_eq_nil_iff]
  simp only [decide_eq_true_eq, ne_eq]

variable (key) in
/-- A map of which every write overwrites the value. -/
theorem foldl_update (f : κ → Option α) (l : List α) :
    l.foldl (fun f a => Function.update f (key a) (some a)) f =
      fun k => (last key k l).or (f k) := by
  induction l generalizing f with
  | nil => rfl
  | cons a l ih =>
    rw [List.foldl_cons, ih]
    funext k
    have hlast : last key k (a :: l) = (last key k l).or (last key k [a]) := by
      rw [← List.singleton_append, last_append]
    rw [hlast, last_singleton, Function.update_apply, Option.or_assoc]
    by_cases h : k = key a
    · simp [h]
    · simp [h, Ne.symm h]

/-! ### One value for each key -/

variable (key) in
/-- The loop body `f` keeps one value for each key and overwrites it by every new write. -/
structure Overwrites (Valid : List α → Prop) (f : List α → α → List α) : Prop where
  valid : ∀ m a, Valid m → Valid (f m a)
  unique : ∀ m k, Valid m → writes key k m = (last key k m).toList
  writes : ∀ m a k, Valid m → writes key k (f m a) = if key a = k then [a] else writes key k m

variable {Valid : List α → Prop} {f : List α → α → List α}

theorem Overwrites.valid_foldl (h : Overwrites key Valid f) (hm : Valid m) (l : List α) :
    Valid (l.foldl f m) := by
  induction l generalizing m with
  | nil => exact hm
  | cons a l ih => exact ih (h.valid m a hm)

theorem Overwrites.last_step (h : Overwrites key Valid f) (hm : Valid m) (a : α) :
    last key k (f m a) = last key k (m ++ [a]) := by
  rw [last_append, last_singleton, last, h.writes m a k hm]
  split_ifs
  · rfl
  · rfl

theorem Overwrites.last_foldl (h : Overwrites key Valid f) (hm : Valid m) (l : List α) :
    last key k (l.foldl f m) = last key k (m ++ l) := by
  induction l generalizing m with
  | nil => rw [List.append_nil]; rfl
  | cons a l ih =>
    rw [List.foldl_cons, ih (h.valid m a hm), last_append, h.last_step hm, ← last_append,
      List.append_assoc]
    rfl

/-- The loop ends with the last write to every key. -/
theorem Overwrites.writes_foldl (h : Overwrites key Valid f) (hm : Valid m) (l : List α) :
    LastWrite.writes key k (l.foldl f m) = (last key k (m ++ l)).toList := by
  rw [h.unique _ k (h.valid_foldl hm l), h.last_foldl hm]

/-! ### In the order of first appearance -/

variable (key) in
/-- Overwrite the value of the key, or append the first one. -/
def put : List α → α → List α
  | [], a => [a]
  | b :: l, a => if key b = key a then a :: l else b :: put l a

variable (key) in
/-- The last write to each key, in the order in which the keys first appear. -/
def coalesce (l : List α) : List α := l.foldl (put key) []

/-- No key appears twice. -/
def Distinct (key : α → κ) (l : List α) : Prop := (l.map key).Nodup

theorem mem_put {b : α} (h : b ∈ put key l a) : b = a ∨ b ∈ l := by
  induction l with
  | nil => exact .inl (List.mem_singleton.mp h)
  | cons c l ih =>
    rw [put] at h
    split_ifs at h
    · exact (List.mem_cons.mp h).imp_right (List.mem_cons_of_mem c)
    · obtain rfl | hmem := List.mem_cons.mp h
      · exact .inr List.mem_cons_self
      · exact (ih hmem).imp_right (List.mem_cons_of_mem c)

theorem Distinct.put (h : Distinct key l) (a : α) : Distinct key (put key l a) := by
  induction l with
  | nil => exact List.nodup_singleton (key a)
  | cons b l ih =>
    rw [Distinct, List.map_cons, List.nodup_cons] at h
    rw [LastWrite.put]
    split_ifs with hkey
    · rw [Distinct, List.map_cons, List.nodup_cons, ← hkey]
      exact h
    · rw [Distinct, List.map_cons, List.nodup_cons]
      refine ⟨?_, ih h.2⟩
      intro hmem
      obtain ⟨c, hc, hcb⟩ := List.mem_map.mp hmem
      obtain rfl | hcl := mem_put hc
      · exact hkey hcb.symm
      · exact h.1 (List.mem_map.mpr ⟨c, hcl, hcb⟩)

theorem Distinct.writes_eq (h : Distinct key l) (k : κ) :
    writes key k l = (last key k l).toList := by
  induction l with
  | nil => rfl
  | cons b l ih =>
    rw [Distinct, List.map_cons, List.nodup_cons] at h
    have htail := ih h.2
    by_cases hb : key b = k
    · have hnone : writes key k l = [] := by
        rw [writes, List.filter_eq_nil_iff]
        intro c hc hck
        exact h.1 (List.mem_map.mpr ⟨c, hc, (of_decide_eq_true hck).trans hb.symm⟩)
      rw [last, writes_cons, if_pos hb, hnone]
      rfl
    · rw [last, writes_cons, if_neg hb]
      exact htail

theorem Distinct.last_of_mem (h : Distinct key l) (ha : a ∈ l) : last key (key a) l = some a := by
  have hmem : a ∈ writes key (key a) l := mem_writes.mpr ⟨ha, rfl⟩
  rw [h.writes_eq, Option.mem_toList] at hmem
  exact hmem

theorem Distinct.writes_put (h : Distinct key l) (a : α) (k : κ) :
    writes key k (LastWrite.put key l a) = if key a = k then [a] else writes key k l := by
  induction l with
  | nil => exact writes_singleton
  | cons b l ih =>
    rw [Distinct, List.map_cons, List.nodup_cons] at h
    rw [LastWrite.put]
    split_ifs with hba hak hak
    · have hnone : writes key k l = [] := by
        rw [writes, List.filter_eq_nil_iff]
        intro c hc hck
        have hkey : key c = key b := (of_decide_eq_true hck).trans (hak.symm.trans hba.symm)
        exact h.1 (List.mem_map.mpr ⟨c, hc, hkey⟩)
      rw [writes_cons, if_pos hak, hnone]
    · rw [writes_cons, writes_cons, if_neg hak, if_neg (hba ▸ hak)]
    · have hbk : key b ≠ k := fun hbk => hba (hbk.trans hak.symm)
      rw [writes_cons, if_neg hbk, ih h.2, if_pos hak]
    · rw [writes_cons, writes_cons, ih h.2, if_neg hak]

theorem overwrites_put : Overwrites key (Distinct key) (put key) where
  valid _ a h := h.put a
  unique _ k h := h.writes_eq k
  writes _ a k h := h.writes_put a k

omit [DecidableEq κ] in
theorem distinct_nil : Distinct key ([] : List α) := List.nodup_nil

/-- Coalescing keeps the last write to every key and nothing else. -/
theorem writes_coalesce (k : κ) (l : List α) :
    writes key k (coalesce key l) = (last key k l).toList :=
  overwrites_put.writes_foldl distinct_nil l

theorem last_coalesce (k : κ) (l : List α) : last key k (coalesce key l) = last key k l :=
  overwrites_put.last_foldl distinct_nil l

/-- What coalescing keeps of a key was written to it. -/
theorem writes_coalesce_sublist (k : κ) (l : List α) :
    (writes key k (coalesce key l)).Sublist (writes key k l) := by
  rw [writes_coalesce, last]
  cases hlast : (writes key k l).getLast? with
  | none => exact List.nil_sublist _
  | some a => exact List.singleton_sublist.mpr (List.mem_of_getLast? hlast)

theorem last_of_mem_coalesce (h : a ∈ coalesce key l) : last key (key a) l = some a := by
  have hmem : a ∈ writes key (key a) (coalesce key l) := mem_writes.mpr ⟨h, rfl⟩
  rw [writes_coalesce, Option.mem_toList] at hmem
  exact hmem

theorem length_put_le (l : List α) (a : α) : (put key l a).length ≤ l.length + 1 := by
  induction l with
  | nil => exact Nat.le_refl 1
  | cons b l ih =>
    rw [put]
    split_ifs
    · exact Nat.le_succ _
    · exact Nat.succ_le_succ ih

theorem map_put (l : List α) (a : α) :
    (put key l a).map key = if key a ∈ l.map key then l.map key else l.map key ++ [key a] := by
  induction l with
  | nil => rfl
  | cons b l ih =>
    rw [put, List.map_cons]
    by_cases hba : key b = key a
    · have hmem : key a ∈ key b :: l.map key := hba ▸ List.mem_cons_self
      rw [if_pos hba, if_pos hmem, List.map_cons, hba]
    · rw [if_neg hba, List.map_cons, ih]
      by_cases hmem : key a ∈ l.map key
      · rw [if_pos hmem, if_pos (List.mem_cons_of_mem _ hmem)]
      · have hnot : key a ∉ key b :: l.map key :=
          List.not_mem_cons_of_ne_of_not_mem (Ne.symm hba) hmem
        rw [if_neg hmem, if_neg hnot]
        rfl

/-- A key that is among the first `n` values is so after an overwrite. -/
theorem mem_take_map_put {b : α} {n : ℕ} (h : b ∈ (l ++ [a]).take n) :
    key b ∈ ((put key l a).map key).take n := by
  have hb : key b ∈ ((l ++ [a]).map key).take n := by
    rw [← List.map_take]
    exact List.mem_map_of_mem h
  rw [List.map_append, List.map_singleton] at hb
  rw [map_put]
  by_cases hmem : key a ∈ l.map key
  · rw [if_pos hmem]
    rw [List.take_append] at hb
    obtain hb | hb := List.mem_append.mp hb
    · exact hb
    · have hkey : key b = key a := List.mem_singleton.mp (List.mem_of_mem_take hb)
      have hpos : 0 < n - (l.map key).length := by
        rw [Nat.pos_iff_ne_zero]
        intro hzero
        rw [hzero] at hb
        exact List.not_mem_nil hb
      rw [hkey, List.take_of_length_le (by omega)]
      exact hmem
  · rw [if_neg hmem]
    exact hb

/-- A key among the first `n` writes is among the first `n` values that coalescing keeps. -/
theorem mem_take_map_foldl_put {b : α} {n : ℕ} (h : b ∈ (m ++ l).take n) :
    key b ∈ ((l.foldl (put key) m).map key).take n := by
  induction l generalizing m b with
  | nil =>
    rw [List.append_nil] at h
    rw [List.foldl_nil, ← List.map_take]
    exact List.mem_map_of_mem h
  | cons a l ih =>
    rw [List.foldl_cons]
    rw [List.append_cons, List.take_append] at h
    obtain h | h := List.mem_append.mp h
    · obtain ⟨c, hc, hcb⟩ := List.mem_map.mp
        (by rw [List.map_take]; exact mem_take_map_put h :
          key b ∈ ((put key m a).take n).map key)
      rw [← hcb]
      refine ih ?_
      rw [List.take_append]
      exact List.mem_append_left _ hc
    · refine ih ?_
      rw [List.take_append]
      refine List.mem_append_right _ (List.take_subset_take_left l ?_ h)
      have hlength : (put key m a).length ≤ m.length + 1 := length_put_le m a
      rw [List.length_append, List.length_singleton]
      omega

/-- What is among the first `n` writes is kept or overwritten among the first `n` values. -/
theorem exists_mem_take_coalesce {n : ℕ} (h : a ∈ l.take n) :
    ∃ b ∈ (coalesce key l).take n, key b = key a ∧ last key (key a) l = some b := by
  have hkey : key a ∈ ((coalesce key l).map key).take n := mem_take_map_foldl_put h
  rw [← List.map_take] at hkey
  obtain ⟨b, hb, hba⟩ := List.mem_map.mp hkey
  exact ⟨b, hb, hba, hba ▸ last_of_mem_coalesce (List.mem_of_mem_take hb)⟩

/-! ### Keeping the last write -/

variable (key) in
/-- Of every key `l` holds some of the writes in `m`, in their order, and among them the last. -/
def Keeps (l m : List α) : Prop :=
  ∀ k, (writes key k l).Sublist (writes key k m) ∧ last key k l = last key k m

theorem Keeps.refl (l : List α) : Keeps key l l := fun _ => ⟨List.Sublist.refl _, rfl⟩

theorem Keeps.trans {n : List α} (h : Keeps key l m) (h' : Keeps key m n) : Keeps key l n :=
  fun k => ⟨(h k).1.trans (h' k).1, (h k).2.trans (h' k).2⟩

theorem Keeps.append {l' m' : List α} (h : Keeps key l m) (h' : Keeps key l' m') :
    Keeps key (l ++ l') (m ++ m') := by
  intro k
  rw [writes_append, writes_append, last_append, last_append, (h k).2, (h' k).2]
  exact ⟨(h k).1.append (h' k).1, rfl⟩

theorem Keeps.mem_of_mem (h : Keeps key l m) (ha : a ∈ l) : a ∈ m :=
  (mem_writes.mp ((h (key a)).1.subset (mem_writes.mpr ⟨ha, rfl⟩))).1

theorem keeps_coalesce (l : List α) : Keeps key (coalesce key l) l :=
  fun k => ⟨writes_coalesce_sublist k l, last_coalesce k l⟩

/-- A write overtakes what is left of other keys. -/
theorem Keeps.insert {rest : List α} (h : Keeps key (l ++ rest) m)
    (hrest : ∀ b ∈ rest, key b ≠ key a) : Keeps key (l ++ [a] ++ rest) (m ++ [a]) := by
  intro k
  obtain ⟨hsub, hlast⟩ := h k
  by_cases hk : key a = k
  · have hnil : writes key k rest = [] := by
      rw [writes, List.filter_eq_nil_iff]
      intro b hb hbk
      exact hrest b hb ((of_decide_eq_true hbk).trans hk.symm)
    rw [writes_append, hnil, List.append_nil] at hsub
    rw [writes_append, writes_append, writes_append, hnil, List.append_nil, last, last,
      writes_append, writes_append, writes_append, hnil, List.append_nil, writes_singleton,
      if_pos hk, List.getLast?_append, List.getLast?_append]
    exact ⟨hsub.append (List.Sublist.refl _), rfl⟩
  · have hnil : writes key k [a] = [] := by rw [writes_singleton, if_neg hk]
    rw [last, last, writes_append, writes_append, writes_append, hnil, List.append_nil,
      List.append_nil, ← writes_append]
    exact ⟨hsub, hlast⟩

/-- A value moves towards the front only by overwriting, never past `n` of the others. -/
theorem mem_of_mem_drop_put {b : α} {n : ℕ} (h : b ∈ (put key l a).drop n) :
    b ∈ (l ++ [a]).drop n := by
  induction l generalizing n with
  | nil => exact h
  | cons c l ih =>
    rw [put] at h
    cases n with
    | zero =>
      rw [List.drop_zero] at h ⊢
      have hput : b ∈ put key (c :: l) a := h
      obtain rfl | hmem := mem_put hput
      · exact List.mem_append_right _ List.mem_cons_self
      · exact List.mem_append_left _ hmem
    | succ n =>
      split_ifs at h
      · rw [List.cons_append, List.drop_succ_cons, List.drop_append]
        exact List.mem_append_left _ h
      · exact ih h

theorem mem_of_mem_drop_foldl_put {b : α} {n : ℕ} (h : b ∈ (l.foldl (put key) m).drop n) :
    b ∈ (m ++ l).drop n := by
  induction l generalizing m with
  | nil =>
    rw [List.append_nil]
    exact h
  | cons a l ih =>
    have hrest : b ∈ (put key m a ++ l).drop n := ih h
    rw [List.append_cons, List.drop_append]
    rw [List.drop_append] at hrest
    obtain hput | hl := List.mem_append.mp hrest
    · exact List.mem_append_left _ (mem_of_mem_drop_put hput)
    · refine List.mem_append_right _ (List.drop_subset_drop_left l ?_ hl)
      have hlength : (put key m a).length ≤ m.length + 1 := length_put_le m a
      rw [List.length_append, List.length_singleton]
      omega

/-- What coalescing keeps after its first `n` values was not among the first `n` writes. -/
theorem mem_of_mem_drop_coalesce {n : ℕ} (h : a ∈ (coalesce key l).drop n) : a ∈ l.drop n :=
  mem_of_mem_drop_foldl_put h

/-! ### In the order of the keys -/

section Insert

variable (key) in
variable (lt : κ → κ → Prop) [DecidableRel lt] in
/-- Overwrite the value of the key, or put the first one where the order of the keys wants it. -/
def insert : List α → α → List α
  | [], a => [a]
  | b :: l, a =>
    if lt (key a) (key b) then a :: b :: l
    else if lt (key b) (key a) then b :: insert l a
    else a :: l

/-- The keys appear in their order, and so each of them once. -/
def Ordered (key : α → κ) (lt : κ → κ → Prop) (l : List α) : Prop :=
  l.Pairwise fun a b => lt (key a) (key b)

variable {lt : κ → κ → Prop} [DecidableRel lt]

omit [DecidableEq κ] in
theorem mem_insert {b : α} (h : b ∈ insert key lt l a) : b = a ∨ b ∈ l := by
  induction l with
  | nil => exact .inl (List.mem_singleton.mp h)
  | cons c l ih =>
    rw [insert] at h
    split_ifs at h
    · exact List.mem_cons.mp h
    · obtain rfl | hmem := List.mem_cons.mp h
      · exact .inr List.mem_cons_self
      · exact (ih hmem).imp_right (List.mem_cons_of_mem c)
    · exact (List.mem_cons.mp h).imp_right (List.mem_cons_of_mem c)

omit [DecidableEq κ] [DecidableRel lt] in
theorem Ordered.distinct [Std.Irrefl lt] (h : Ordered key lt l) : Distinct key l := by
  rw [Distinct, List.Nodup, List.pairwise_map]
  refine List.Pairwise.imp ?_ h
  intro b c hbc heq
  have hbb : lt (key b) (key b) := heq ▸ hbc
  exact Std.Irrefl.irrefl (key b) hbb

variable [Std.Trichotomous lt] [IsTrans κ lt]

omit [DecidableEq κ] in
theorem Ordered.insert (h : Ordered key lt l) (a : α) : Ordered key lt (insert key lt l a) := by
  induction l with
  | nil => exact List.pairwise_singleton _ a
  | cons b l ih =>
    obtain ⟨hhead, htail⟩ := List.pairwise_cons.mp h
    rw [LastWrite.insert]
    split_ifs with hab hba
    · refine List.pairwise_cons.mpr ⟨?_, h⟩
      intro c hc
      obtain rfl | hc := List.mem_cons.mp hc
      · exact hab
      · exact trans_of lt hab (hhead c hc)
    · refine List.pairwise_cons.mpr ⟨?_, ih htail⟩
      intro c hc
      obtain rfl | hc := mem_insert hc
      · exact hba
      · exact hhead c hc
    · have heq : key a = key b := Std.Trichotomous.trichotomous _ _ hab hba
      refine List.pairwise_cons.mpr ⟨?_, htail⟩
      intro c hc
      exact heq ▸ hhead c hc

variable [Std.Irrefl lt]

omit [DecidableRel lt] [Std.Trichotomous lt] [IsTrans κ lt] in
/-- A key that comes before all others has no write. -/
theorem Ordered.writes_eq_nil (h : Ordered key lt (a :: l)) : writes key (key a) l = [] := by
  rw [writes, List.filter_eq_nil_iff]
  intro b hb hba
  have hlt : lt (key a) (key b) := (List.pairwise_cons.mp h).1 b hb
  rw [of_decide_eq_true hba] at hlt
  exact Std.Irrefl.irrefl (key a) hlt

theorem Ordered.writes_insert (h : Ordered key lt l) (a : α) (k : κ) :
    writes key k (LastWrite.insert key lt l a) = if key a = k then [a] else writes key k l := by
  induction l with
  | nil => exact writes_singleton
  | cons b l ih =>
    obtain ⟨hhead, htail⟩ := List.pairwise_cons.mp h
    rw [LastWrite.insert]
    by_cases hab : lt (key a) (key b)
    · rw [if_pos hab, writes_cons]
      by_cases hak : key a = k
      · have hnew : Ordered key lt (a :: b :: l) := by
          have hins := h.insert a
          rwa [LastWrite.insert, if_pos hab] at hins
        rw [if_pos hak, if_pos hak, ← hak, hnew.writes_eq_nil]
      · rw [if_neg hak, if_neg hak]
    · rw [if_neg hab]
      by_cases hba : lt (key b) (key a)
      · rw [if_pos hba, writes_cons, ih htail]
        by_cases hak : key a = k
        · have hbk : key b ≠ k := by
            intro hbk
            have hbb : lt (key b) (key b) := (hak.trans hbk.symm) ▸ hba
            exact Std.Irrefl.irrefl (key b) hbb
          rw [if_neg hbk, if_pos hak, if_pos hak]
        · rw [if_neg hak, if_neg hak, ← writes_cons]
      · have heq : key a = key b := Std.Trichotomous.trichotomous _ _ hab hba
        rw [if_neg hba, writes_cons, writes_cons, heq]
        by_cases hbk : key b = k
        · rw [if_pos hbk, if_pos hbk, ← hbk, h.writes_eq_nil]
        · rw [if_neg hbk, if_neg hbk, if_neg hbk]

theorem overwrites_insert : Overwrites key (Ordered key lt) (insert key lt) where
  valid _ a h := h.insert a
  unique _ k h := h.distinct.writes_eq k
  writes _ a k h := h.writes_insert a k

omit [DecidableRel lt] [Std.Trichotomous lt] in
/-- In the order of the keys, what a list holds of each key determines it. -/
theorem Ordered.ext (hl : Ordered key lt l) (hm : Ordered key lt m)
    (h : ∀ k, writes key k l = writes key k m) : l = m := by
  have hmem : ∀ a, a ∈ l ↔ a ∈ m := by
    intro a
    have hl : a ∈ writes key (key a) l ↔ a ∈ l := by rw [mem_writes, and_iff_left rfl]
    have hm : a ∈ writes key (key a) m ↔ a ∈ m := by rw [mem_writes, and_iff_left rfl]
    rw [← hl, h, hm]
  have hperm : l.Perm m :=
    (List.perm_ext_iff_of_nodup hl.distinct.of_map hm.distinct.of_map).mpr hmem
  refine hperm.eq_of_pairwise ?_ hl hm
  intro a b _ _ hab hba
  exact absurd (trans_of lt hab hba) (Std.Irrefl.irrefl (key a))

end Insert

end LastWrite
