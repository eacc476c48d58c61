import Mathlib.Data.List.Basic

/-!
# Executions of state machines

Two shapes of state machine and the rules by which a fact about one step becomes a fact about
a whole run. A `step` that always answers describes a component that is called; a `next` that may
refuse an action describes several parties whose actions interleave.

## Main definitions

- `Record`: one call, with the state it met and the answer it gave
- `after`, `history`: the final state and the records of a sequence of calls
- `run`: the state reached by a sequence of actions, if each of them was enabled
- `EveryStep`: a condition that each step of such a sequence meets
-/

namespace Execution

variable {σ α β γ : Type*}

/-- One call of a component: the state it met, its input and the answer it gave. -/
structure Record (σ α β : Type*) where
  before : σ
  input : α
  output : β

/-- An action of a sequence with one more at its end stood in the sequence, or is that one. -/
theorem append_singleton_split {as front back : List α} {last a : α}
    (h : as ++ [last] = front ++ a :: back) :
    (∃ back', back = back' ++ [last] ∧ as = front ++ a :: back') ∨
      (back = [] ∧ a = last ∧ front = as) := by
  obtain rfl | ⟨back', b, rfl⟩ := List.eq_nil_or_concat' back
  · obtain ⟨hfront, ha⟩ := List.append_inj' h rfl
    exact .inr ⟨rfl, (List.singleton_inj.mp ha).symm, hfront.symm⟩
  · rw [← List.cons_append, ← List.append_assoc] at h
    obtain ⟨hfront, hlast⟩ := List.append_inj' h rfl
    exact .inl ⟨back', List.singleton_inj.mp hlast ▸ rfl, hfront⟩

section Calls

variable (step : σ → α → σ × β)

/-- The state after a sequence of calls. -/
def after : σ → List α → σ
  | s, [] => s
  | s, a :: as => after (step s a).1 as

/-- The records of a sequence of calls, in order. -/
def history : σ → List α → List (Record σ α β)
  | _, [] => []
  | s, a :: as => ⟨s, a, (step s a).2⟩ :: history (step s a).1 as

@[simp] theorem after_nil (s : σ) : after step s [] = s := rfl

@[simp] theorem after_cons (s : σ) (a : α) (as : List α) :
    after step s (a :: as) = after step (step s a).1 as := rfl

@[simp] theorem history_nil (s : σ) : history step s [] = [] := rfl

@[simp] theorem history_cons (s : σ) (a : α) (as : List α) :
    history step s (a :: as) = ⟨s, a, (step s a).2⟩ :: history step (step s a).1 as := rfl

theorem after_append (s : σ) (as bs : List α) :
    after step s (as ++ bs) = after step (after step s as) bs := by
  induction as generalizing s with
  | nil => rfl
  | cons a as ih => exact ih _

theorem history_append (s : σ) (as bs : List α) :
    history step s (as ++ bs) = history step s as ++ history step (after step s as) bs := by
  induction as generalizing s with
  | nil => rfl
  | cons a as ih => simp only [List.cons_append, history_cons, ih, after_cons]

variable {step}

/-- A property that every call keeps holds after every sequence of calls. -/
theorem after_induction {P : σ → Prop} (hstep : ∀ s a, P s → P (step s a).1)
    {s : σ} (hs : P s) (as : List α) : P (after step s as) := by
  induction as generalizing s with
  | nil => exact hs
  | cons a as ih => exact ih (hstep s a hs)

/-- The same rule where only the inputs of this run are known to keep the property. -/
theorem after_induction_mem {P : σ → Prop} {as : List α}
    (hstep : ∀ s, ∀ a ∈ as, P s → P (step s a).1) {s : σ} (hs : P s) :
    P (after step s as) := by
  induction as generalizing s with
  | nil => exact hs
  | cons a as ih =>
    refine ih (fun t b hb => hstep t b (List.mem_cons_of_mem a hb)) ?_
    exact hstep s a List.mem_cons_self hs

/-- The same rule where only the calls of this run, in the states they meet, are known to keep the
property. -/
theorem after_induction_history {P : σ → Prop} {s : σ} {as : List α}
    (hstep : ∀ r ∈ history step s as, P r.before → P (step r.before r.input).1) (hs : P s) :
    P (after step s as) := by
  induction as generalizing s with
  | nil => exact hs
  | cons a as ih =>
    rw [history_cons, List.forall_mem_cons] at hstep
    exact ih hstep.2 (hstep.1 hs)

/-- A record of a history splits its run: its state is the one the calls before it lead to. -/
theorem exists_split_of_mem_history {s : σ} {as : List α} {r : Record σ α β}
    (hr : r ∈ history step s as) :
    ∃ front a back, as = front ++ a :: back ∧
      r = ⟨after step s front, a, (step (after step s front) a).2⟩ := by
  induction as generalizing s with
  | nil => simp at hr
  | cons a as ih =>
    rw [history_cons, List.mem_cons] at hr
    rcases hr with rfl | hr
    · exact ⟨[], a, as, rfl, rfl⟩
    · obtain ⟨front, b, back, has, hr⟩ := ih hr
      exact ⟨a :: front, b, back, by rw [has, List.cons_append], hr⟩

/-- A split of a history at a record is one of its run. -/
theorem exists_split_of_history_eq {s : σ} {as : List α} {front back : List (Record σ α β)}
    {r : Record σ α β} (h : history step s as = front ++ r :: back) :
    ∃ before a behind, as = before ++ a :: behind ∧ front = history step s before ∧
      r = ⟨after step s before, a, (step (after step s before) a).2⟩ ∧
      back = history step (step (after step s before) a).1 behind := by
  induction front generalizing s as with
  | nil =>
    cases as with
    | nil => cases h
    | cons a as =>
      obtain ⟨rfl, rfl⟩ := List.cons.inj h
      exact ⟨[], a, as, rfl, rfl, rfl, rfl⟩
  | cons r' front ih =>
    cases as with
    | nil => cases h
    | cons a as =>
      obtain ⟨rfl, hrest⟩ := List.cons.inj h
      obtain ⟨before, b, behind, rfl, rfl, rfl, rfl⟩ := ih hrest
      exact ⟨a :: before, b, behind, rfl, rfl, rfl, rfl⟩

theorem map_input_history (s : σ) (as : List α) : (history step s as).map Record.input = as := by
  induction as generalizing s with
  | nil => rfl
  | cons a as ih => rw [history_cons, List.map_cons, ih]

/-- What holds initially and is kept by every call holds of the state each record met. -/
theorem before_of_mem_history {P : σ → Prop} (hstep : ∀ s a, P s → P (step s a).1)
    {s : σ} (hs : P s) {as : List α} {r : Record σ α β} (hr : r ∈ history step s as) :
    P r.before := by
  obtain ⟨front, _, _, _, rfl⟩ := exists_split_of_mem_history hr
  exact after_induction hstep hs front

/-- The same where only the calls of this run are known to keep it. -/
theorem before_of_mem_history_of_keeps {P : σ → Prop} {s : σ} {as : List α}
    (hstep : ∀ r ∈ history step s as, P r.before → P (step r.before r.input).1) (hs : P s)
    {r : Record σ α β} (hr : r ∈ history step s as) : P r.before := by
  obtain ⟨front, _, _, rfl, rfl⟩ := exists_split_of_mem_history hr
  refine after_induction_history (fun r hr => hstep r ?_) hs
  rw [history_append]
  exact List.mem_append_left _ hr

theorem output_of_mem_history {s : σ} {as : List α} {r : Record σ α β}
    (hr : r ∈ history step s as) : r.output = (step r.before r.input).2 := by
  obtain ⟨_, _, _, _, rfl⟩ := exists_split_of_mem_history hr
  rfl

/-- What holds of every state a run passes through holds after each of its calls. -/
theorem next_of_mem_history {P : σ → Prop} {s : σ} {as : List α}
    (hbefore : ∀ r ∈ history step s as, P r.before) (hafter : P (after step s as))
    {r : Record σ α β} (hr : r ∈ history step s as) : P (step r.before r.input).1 := by
  induction as generalizing s with
  | nil => simp at hr
  | cons a as ih =>
    rw [history_cons, List.forall_mem_cons] at hbefore
    rw [history_cons, List.mem_cons] at hr
    rcases hr with rfl | hr
    · cases as with
      | nil => exact hafter
      | cons b as => exact hbefore.2 _ List.mem_cons_self
    · exact ih hbefore.2 hafter hr

/-- Conservation for a queue: if each call takes out what it takes from the front of what was
there followed by what it adds, then so does the whole run. -/
theorem conservation {queue : σ → List γ} {out inp : Record σ α β → List γ} {s : σ}
    {as : List α}
    (hstep : ∀ r ∈ history step s as,
      out r ++ queue (step r.before r.input).1 = queue r.before ++ inp r) :
    (history step s as).flatMap out ++ queue (after step s as) =
      queue s ++ (history step s as).flatMap inp := by
  induction as generalizing s with
  | nil => simp
  | cons a as ih =>
    have hhead := hstep ⟨s, a, (step s a).2⟩ List.mem_cons_self
    have htail := ih (s := (step s a).1) fun r hr => hstep r (List.mem_cons_of_mem _ hr)
    simp only [history_cons, after_cons, List.flatMap_cons, List.append_assoc]
    rw [htail, ← List.append_assoc, hhead, List.append_assoc]

/-- The lossy form: a queue that may also drop elements hands out a subsequence of what was
there followed by what was added. -/
theorem conservation_sublist {queue : σ → List γ} {out inp : Record σ α β → List γ} {s : σ}
    {as : List α}
    (hstep : ∀ r ∈ history step s as,
      (out r ++ queue (step r.before r.input).1).Sublist (queue r.before ++ inp r)) :
    ((history step s as).flatMap out ++ queue (after step s as)).Sublist
      (queue s ++ (history step s as).flatMap inp) := by
  induction as generalizing s with
  | nil => simp
  | cons a as ih =>
    have hhead := hstep ⟨s, a, (step s a).2⟩ List.mem_cons_self
    have htail := ih (s := (step s a).1) fun r hr => hstep r (List.mem_cons_of_mem _ hr)
    simp only [history_cons, after_cons, List.flatMap_cons, List.append_assoc]
    refine (htail.append_left _).trans ?_
    rw [← List.append_assoc, ← List.append_assoc]
    exact hhead.append_right _

end Calls

section Actions

variable (next : σ → α → Option σ)

/-- The state a sequence of actions leads to; `none` when one of them was not enabled. -/
def run : σ → List α → Option σ
  | s, [] => some s
  | s, a :: as => (next s a).bind fun t => run t as

/-- Every step of the run meets the condition, a property of the state it is taken in and of
the action. -/
def EveryStep (condition : σ → α → Prop) : σ → List α → Prop
  | _, [] => True
  | s, a :: as => condition s a ∧ ∀ t, next s a = some t → EveryStep condition t as

instance decidableEveryStep {condition : σ → α → Prop} [∀ s a, Decidable (condition s a)] :
    ∀ (s : σ) (as : List α), Decidable (EveryStep next condition s as)
  | _, [] => isTrue trivial
  | s, a :: as =>
    have : Decidable (∀ t, next s a = some t → EveryStep next condition t as) :=
      match next s a with
      | none => isTrue fun _ h => nomatch h
      | some t =>
        have : Decidable (EveryStep next condition t as) := decidableEveryStep t as
        decidable_of_iff (EveryStep next condition t as)
          ⟨fun h _ ht => Option.some.inj ht ▸ h, fun h => h t rfl⟩
    inferInstanceAs (Decidable (_ ∧ _))

@[simp] theorem run_nil (s : σ) : run next s [] = some s := rfl

theorem run_cons (s : σ) (a : α) (as : List α) :
    run next s (a :: as) = (next s a).bind fun t => run next t as := rfl

theorem run_append (s : σ) (as bs : List α) :
    run next s (as ++ bs) = (run next s as).bind fun t => run next t bs := by
  induction as generalizing s with
  | nil => rfl
  | cons a as ih =>
    rw [List.cons_append, run_cons, run_cons, Option.bind_assoc]
    simp only [ih]

variable {next}

theorem run_cons_eq_some {s u : σ} {a : α} {as : List α} :
    run next s (a :: as) = some u ↔ ∃ t, next s a = some t ∧ run next t as = some u := by
  rw [run_cons, Option.bind_eq_some_iff]

/-- A property kept by every enabled action holds in the state a run leads to. -/
theorem run_induction {P : σ → Prop} (hstep : ∀ s a t, P s → next s a = some t → P t)
    {s u : σ} {as : List α} (hs : P s) (hrun : run next s as = some u) : P u := by
  induction as generalizing s with
  | nil => exact Option.some.inj hrun ▸ hs
  | cons a as ih =>
    obtain ⟨t, ht, hrest⟩ := run_cons_eq_some.mp hrun
    exact ih (hstep s a t hs ht) hrest

/-- The same rule for the runs whose steps all meet a condition. -/
theorem run_induction_of_everyStep {P : σ → Prop} {condition : σ → α → Prop}
    (hstep : ∀ s a t, P s → condition s a → next s a = some t → P t)
    {s u : σ} {as : List α} (hs : P s) (hcond : EveryStep next condition s as)
    (hrun : run next s as = some u) : P u := by
  induction as generalizing s with
  | nil => exact Option.some.inj hrun ▸ hs
  | cons a as ih =>
    obtain ⟨t, ht, hrest⟩ := run_cons_eq_some.mp hrun
    exact ih (hstep s a t hs hcond.1 ht) (hcond.2 t ht) hrest

/-- Two systems that do the same in every state of an invariant, which they keep. -/
theorem run_congr {next' : σ → α → Option σ} {P : σ → Prop}
    (heq : ∀ s a, P s → next s a = next' s a) (hstep : ∀ s a t, P s → next s a = some t → P t)
    {s : σ} {as : List α} (hs : P s) : run next s as = run next' s as := by
  induction as generalizing s with
  | nil => rfl
  | cons a as ih =>
    rw [run_cons, run_cons, ← heq s a hs]
    cases hnext : next s a with
    | none => rfl
    | some t => exact ih (hstep s a t hs hnext)

theorem EveryStep.of_congr {next' : σ → α → Option σ} {P : σ → Prop}
    {condition : σ → α → Prop} (heq : ∀ s a, P s → next s a = next' s a)
    (hstep : ∀ s a t, P s → next s a = some t → P t) {s : σ} {as : List α} (hs : P s)
    (h : EveryStep next condition s as) : EveryStep next' condition s as := by
  induction as generalizing s with
  | nil => exact trivial
  | cons a as ih =>
    refine ⟨h.1, fun t ht => ?_⟩
    rw [← heq s a hs] at ht
    exact ih (hstep s a t hs ht) (h.2 t ht)

/-- A condition that every input meets in every state. -/
theorem EveryStep.of_forall {condition : σ → α → Prop} {s : σ} {as : List α}
    (h : ∀ a ∈ as, ∀ t, condition t a) : EveryStep next condition s as := by
  induction as generalizing s with
  | nil => exact trivial
  | cons a as ih =>
    rw [List.forall_mem_cons] at h
    exact ⟨h.1 s, fun t _ => ih h.2⟩

/-- A run is not refused if the condition lets every action be taken. -/
theorem exists_run_of_everyStep {P : σ → Prop} {condition : σ → α → Prop}
    (hstep : ∀ s a, P s → condition s a → ∃ t, next s a = some t ∧ P t)
    {s : σ} {as : List α} (hs : P s) (hcond : EveryStep next condition s as) :
    ∃ u, run next s as = some u ∧ P u := by
  induction as generalizing s with
  | nil => exact ⟨s, rfl, hs⟩
  | cons a as ih =>
    obtain ⟨t, ht, hpt⟩ := hstep s a hs hcond.1
    obtain ⟨u, hu, hpu⟩ := ih hpt (hcond.2 t ht)
    exact ⟨u, run_cons_eq_some.mpr ⟨t, ht, hu⟩, hpu⟩

/-- Every step of a run meets a condition, or there is one that does not. -/
theorem everyStep_or_exists (condition : σ → α → Prop) {s u : σ} {as : List α}
    (hrun : run next s as = some u) :
    EveryStep next condition s as ∨
      ∃ front a back t t', as = front ++ a :: back ∧ run next s front = some t ∧
        ¬condition t a ∧ next t a = some t' ∧ run next t' back = some u := by
  induction as generalizing s with
  | nil => exact .inl trivial
  | cons a as ih =>
    obtain ⟨t, ht, hrest⟩ := run_cons_eq_some.mp hrun
    by_cases hcond : condition s a
    · rcases ih hrest with h | ⟨front, b, back, v, v', has, hfront, hnot, hv, hback⟩
      · left
        refine ⟨hcond, fun t' ht' => ?_⟩
        obtain rfl : t = t' := Option.some.inj (ht.symm.trans ht')
        exact h
      · refine .inr ⟨a :: front, b, back, v, v', by rw [has, List.cons_append], ?_, hnot, hv,
          hback⟩
        rw [run_cons, ht]
        exact hfront
    · exact .inr ⟨[], a, as, s, t, rfl, rfl, hcond, ht, hrest⟩

/-- A condition on the actions alone. -/
theorem everyStep_of_forall_mem {p : α → Prop} {s : σ} {as : List α} (h : ∀ a ∈ as, p a) :
    EveryStep next (fun _ a => p a) s as := by
  induction as generalizing s with
  | nil => exact trivial
  | cons a as ih =>
    rw [List.forall_mem_cons] at h
    exact ⟨h.1, fun _ _ => ih h.2⟩

theorem EveryStep.and {c c' : σ → α → Prop} {s : σ} {as : List α} (h : EveryStep next c s as)
    (h' : EveryStep next c' s as) : EveryStep next (fun s a => c s a ∧ c' s a) s as := by
  induction as generalizing s with
  | nil => exact trivial
  | cons a as ih => exact ⟨⟨h.1, h'.1⟩, fun t ht => ih (h.2 t ht) (h'.2 t ht)⟩

/-- A condition that keeps an invariant, and that is enough for another one under it. -/
theorem EveryStep.imp {P : σ → Prop} {c c' : σ → α → Prop} {as : List α}
    (himp : ∀ s a, P s → c s a → c' s a)
    (hstep : ∀ s a t, P s → c s a → next s a = some t → P t) {s : σ} (hs : P s)
    (h : EveryStep next c s as) : EveryStep next c' s as := by
  induction as generalizing s with
  | nil => exact trivial
  | cons a as ih =>
    exact ⟨himp s a hs h.1, fun t ht => ih (hstep s a t hs h.1 ht) (h.2 t ht)⟩

/-- Two conditions that agree in every state of an invariant, which they keep. -/
theorem everyStep_congr {P : σ → Prop} {c c' : σ → α → Prop} {as : List α}
    (hiff : ∀ s, ∀ a ∈ as, P s → (c s a ↔ c' s a))
    (hstep : ∀ s, ∀ a ∈ as, ∀ t, P s → c' s a → next s a = some t → P t) {s : σ} (hs : P s) :
    EveryStep next c s as ↔ EveryStep next c' s as := by
  induction as generalizing s with
  | nil => exact Iff.rfl
  | cons a as ih =>
    rw [EveryStep, EveryStep, hiff s a List.mem_cons_self hs]
    refine and_congr_right fun hc => forall₂_congr fun t ht => ?_
    exact ih (fun s b hb => hiff s b (List.mem_cons_of_mem a hb))
      (fun s b hb => hstep s b (List.mem_cons_of_mem a hb))
      (hstep s a List.mem_cons_self t hs hc ht)

end Actions

end Execution
