import SmartDashboard.App.DeliveryOrder

/-!
# The reconnect snapshot against the operator's edits

A plugin delivers its snapshot and then reports Connected; the handler of the report republishes
the operator's edits. The report takes two events to get there and a drain takes one for every 150
updates, so the handler finds the snapshot applied if two drains, or the one that is left to come,
take all of the queue that the report finds.

## Main definitions

- `Covered`: what drains yet to run take, with what they took, settles a report's updates
- `Room`: the drains that run before the handler of a report take all that is queued
- `Settled`, `EditsWin`: once a handler has republished the edits, no update delivered before its
  report is left to be applied
-/

namespace SmartDashboard.App.UiQueue

open Execution (append_singleton_split)
open LastWrite (Keeps last writes)

variable {s t : State} {a : Action} {n m : ℕ}

/-! ### Numbers in the queue -/

/-- Of each key, later updates have higher numbers. -/
def Numbered (l : List Delivery) : Prop :=
  ∀ k, (writes Delivery.key k l).Pairwise fun d e => d.index < e.index

theorem Numbered.le_last {l : List Delivery} (h : Numbered l) {d e : Delivery} (hd : d ∈ l)
    (he : last Delivery.key d.key l = some e) : d.index ≤ e.index := by
  have hd' : d ∈ writes Delivery.key d.key l := LastWrite.mem_writes.mpr ⟨hd, rfl⟩
  obtain ⟨front, hfront⟩ := List.getLast?_eq_some_iff.mp he
  have hpair := h d.key
  rw [hfront] at hpair hd'
  obtain hd' | hd' := List.mem_append.mp hd'
  · exact Nat.le_of_lt ((List.pairwise_append.mp hpair).2.2 d hd' e List.mem_cons_self)
  · obtain rfl := List.mem_singleton.mp hd'
    exact Nat.le_refl _

theorem Numbered.of_keeps {l m : List Delivery} (h : Numbered m) (hkeeps : Keeps Delivery.key l m) :
    Numbered l := fun k => (h k).sublist (hkeeps k).1

theorem Numbered.of_sublist {l m : List Delivery} (h : Numbered m) (hsub : l.Sublist m) :
    Numbered l := fun k => (h k).sublist (hsub.filter _)

/-- What coalescing drops of the first `m` updates, it keeps a later one of among them. -/
theorem Numbered.exists_mem_take_coalesce {l : List Delivery} (h : Numbered l) {d : Delivery}
    (hd : d ∈ l.take m) :
    ∃ e ∈ (LastWrite.coalesce Delivery.key l).take m, e.key = d.key ∧ d.index ≤ e.index := by
  have hkept : ∃ e ∈ (LastWrite.coalesce Delivery.key l).take m,
      e.key = d.key ∧ last Delivery.key d.key l = some e := LastWrite.exists_mem_take_coalesce hd
  obtain ⟨e, he, hkey, hlast⟩ := hkept
  exact ⟨e, he, hkey, h.le_last (List.mem_of_mem_take hd) hlast⟩

theorem Numbered.exists_mem_coalesce {l : List Delivery} (h : Numbered l) {d : Delivery}
    (hd : d ∈ l) :
    ∃ e ∈ LastWrite.coalesce Delivery.key l, e.key = d.key ∧ d.index ≤ e.index := by
  have hd' : d ∈ l.take l.length := by rwa [List.take_length]
  obtain ⟨e, he, hlater⟩ := h.exists_mem_take_coalesce hd'
  exact ⟨e, List.mem_of_mem_take he, hlater⟩

theorem Numbered.exists_mem_take_collapse {l : List Delivery} (h : Numbered l) {d : Delivery}
    (hd : d ∈ l.take m) : ∃ e ∈ (collapse l).take m, e.key = d.key ∧ d.index ≤ e.index := by
  rw [collapse]
  split_ifs
  · exact h.exists_mem_take_coalesce hd
  · exact ⟨d, hd, rfl, Nat.le_refl _⟩

theorem mem_of_mem_drop_collapse {l : List Delivery} {d : Delivery}
    (hd : d ∈ (collapse l).drop m) : d ∈ l.drop m := by
  rw [collapse] at hd
  split_ifs at hd
  · exact LastWrite.mem_of_mem_drop_coalesce hd
  · exact hd

/-- The queue and the callbacks, as the two invariants of the queue leave them. -/
structure Ordered (s : State) : Prop where
  called : CalledInOrder s
  pushed : s.pushed.Sublist s.called
  keeps : QueueKeeps s

theorem ordered_initial : Ordered initial :=
  ⟨calledInOrder_initial, List.Sublist.refl _, Keeps.refl []⟩

theorem Ordered.step (h : Ordered s) (hstep : Step s a t) : Ordered t := by
  refine ⟨h.called.step hstep, ?_, h.keeps.step hstep⟩
  obtain ⟨new, out, hmoves, hcalled, -⟩ | ⟨update, transport, -, -, rfl⟩ := hstep.moves
  · rw [hmoves.pushed, hcalled]
    exact h.pushed.append (List.Sublist.refl new)
  · exact h.pushed.trans (List.sublist_append_left _ _)

theorem Ordered.numbered_pushed (h : Ordered s) : Numbered s.pushed := by
  intro k
  have hsub : (writes Delivery.key k s.pushed).Sublist s.called :=
    List.filter_sublist.trans h.pushed
  exact (h.called.pairwise.sublist hsub).imp And.left

theorem Ordered.numbered (h : Ordered s) :
    Numbered (s.drained ++ (s.ui.inHand ++ s.pendingUiUpdates)) :=
  h.numbered_pushed.of_keeps h.keeps

/-! ### What the drains to come settle -/

/-- The first `m` queued updates, with what is in hand and what was applied, settle those before
number `n`; the others come later. -/
structure Covered (s : State) (n m : ℕ) : Prop where
  called : n ≤ s.called.length
  settled : ∀ d ∈ s.pushed, d.index < n →
    ∃ e ∈ s.drained ++ (s.ui.inHand ++ s.pendingUiUpdates.take m),
      e.key = d.key ∧ d.index ≤ e.index
  later : ∀ d ∈ s.pendingUiUpdates.drop m, n ≤ d.index

theorem Covered.mono {m' : ℕ} (h : Covered s n m) (hle : m ≤ m') : Covered s n m' where
  called := h.called
  settled d hd hlt := by
    obtain ⟨e, he, hlater⟩ := h.settled d hd hlt
    refine ⟨e, ?_, hlater⟩
    refine ((List.Sublist.refl _).append ((List.Sublist.refl _).append ?_)).subset he
    exact List.take_sublist_take_left hle
  later d hd := h.later d (List.drop_subset_drop_left _ hle hd)

/-- The drains leave what they were to settle settled, whatever of it they dropped. -/
theorem Covered.of_settles {m' : ℕ} (h : Covered s n m) (hpushed : t.pushed = s.pushed)
    (hcalled : s.called.length ≤ t.called.length)
    (hsettles : ∀ d ∈ s.drained ++ (s.ui.inHand ++ s.pendingUiUpdates.take m),
      ∃ e ∈ t.drained ++ (t.ui.inHand ++ t.pendingUiUpdates.take m'),
        e.key = d.key ∧ d.index ≤ e.index)
    (hlater : ∀ d ∈ t.pendingUiUpdates.drop m', d ∈ s.pendingUiUpdates.drop m) :
    Covered t n m' where
  called := Nat.le_trans h.called hcalled
  settled d hd hlt := by
    rw [hpushed] at hd
    obtain ⟨e, he, hkey, hle⟩ := h.settled d hd hlt
    obtain ⟨f, hf, hkey', hle'⟩ := hsettles e he
    exact ⟨f, hf, hkey'.trans hkey, Nat.le_trans hle hle'⟩
  later d hd := h.later d (hlater d hd)

theorem Covered.of_same (h : Covered s n m) (hpushed : t.pushed = s.pushed)
    (hcalled : s.called.length ≤ t.called.length) (hdrained : t.drained = s.drained)
    (hui : t.ui = s.ui) (hpending : t.pendingUiUpdates = s.pendingUiUpdates) : Covered t n m := by
  refine h.of_settles hpushed hcalled ?_ ?_
  · rw [hdrained, hui, hpending]
    exact fun d hd => ⟨d, hd, rfl, Nat.le_refl _⟩
  · rw [hpending]
    exact fun d hd => hd

/-- A callback's update is a later one, also where the queue collapses. -/
theorem Covered.push (h : Covered s n m) {update : Transport.VariableUpdate} {transport : ℕ}
    (hnumbered : Numbered (s.pendingUiUpdates ++ [⟨update, s.called.length, transport⟩])) :
    Covered (UiQueue.push s update transport) n m := by
  have hcalled : (UiQueue.push s update transport).called.length = s.called.length + 1 :=
    List.length_append
  refine ⟨?_, ?_, ?_⟩
  · have hle := h.called
    omega
  · intro d hd hlt
    obtain hd | hd := List.mem_append.mp hd
    · obtain ⟨e, he, hkey, hle⟩ := h.settled d hd hlt
      obtain he | he := List.mem_append.mp he
      · exact ⟨e, List.mem_append_left _ he, hkey, hle⟩
      · obtain he | he := List.mem_append.mp he
        · exact ⟨e, List.mem_append_right _ (List.mem_append_left _ he), hkey, hle⟩
        · have he' : e ∈ (s.pendingUiUpdates ++
              [(⟨update, s.called.length, transport⟩ : Delivery)]).take m := by
            rw [List.take_append]
            exact List.mem_append_left _ he
          obtain ⟨f, hf, hkey', hle'⟩ := hnumbered.exists_mem_take_collapse he'
          exact ⟨f, List.mem_append_right _ (List.mem_append_right _ hf), hkey'.trans hkey,
            Nat.le_trans hle hle'⟩
    · obtain rfl := List.mem_singleton.mp hd
      exact absurd h.called (Nat.not_le.mpr hlt)
  · intro d hd
    have hd' := mem_of_mem_drop_collapse hd
    rw [List.drop_append] at hd'
    obtain hd' | hd' := List.mem_append.mp hd'
    · exact h.later d hd'
    · obtain rfl := List.mem_singleton.mp (List.mem_of_mem_drop hd')
      exact h.called

theorem Ordered.numbered_push (h : Ordered s) {update : Transport.VariableUpdate} {transport : ℕ}
    (worker : s.worker = .idle) (current : s.transport = some transport) :
    Numbered (s.pendingUiUpdates ++ [⟨update, s.called.length, transport⟩]) := by
  have hnew : Ordered (push s update transport) :=
    h.step (.variableUpdate update transport worker current)
  have hkeeps : Keeps Delivery.key
      (s.drained ++ (s.ui.inHand ++ s.pendingUiUpdates) ++ [⟨update, s.called.length, transport⟩])
      (s.pushed ++ [⟨update, s.called.length, transport⟩]) := Keeps.append h.keeps (Keeps.refl _)
  refine (hnew.numbered_pushed.of_keeps hkeeps).of_sublist ?_
  refine List.Sublist.append ?_ (List.Sublist.refl _)
  exact (List.sublist_append_right _ _).trans (List.sublist_append_right _ _)

theorem Ordered.numbered_pending (h : Ordered s) : Numbered s.pendingUiUpdates :=
  h.numbered.of_sublist ((List.sublist_append_right _ _).trans (List.sublist_append_right _ _))

theorem Ordered.numbered_inHand (h : Ordered s) : Numbered s.ui.inHand :=
  h.numbered.of_sublist ((List.sublist_append_left _ _).trans (List.sublist_append_right _ _))

/-- A drain that takes the whole queue settles all of it. -/
theorem Covered.drainAll (h : Covered s n m) (hordered : Ordered s) (m' : ℕ) (ui : s.ui = .idle)
    (hui : t.ui = .applying
      (LastWrite.coalesce Delivery.key (s.pendingUiUpdates.take kDrainBudget)))
    (rest : s.pendingUiUpdates.drop kDrainBudget = []) (hpushed : t.pushed = s.pushed)
    (hcalled : t.called = s.called) (hdrained : t.drained = s.drained)
    (hpending : t.pendingUiUpdates = []) : Covered t n m' := by
  have htake : s.pendingUiUpdates.take kDrainBudget = s.pendingUiUpdates := by
    rw [← List.append_nil (List.take _ _), ← rest, List.take_append_drop]
  refine h.of_settles hpushed (hcalled ▸ Nat.le_refl _) ?_ ?_
  · rw [hdrained, hui, hpending, ui, htake]
    intro d hd
    obtain hd | hd := List.mem_append.mp hd
    · exact ⟨d, List.mem_append_left _ hd, rfl, Nat.le_refl _⟩
    · have hmem : d ∈ s.pendingUiUpdates := List.mem_of_mem_take hd
      obtain ⟨e, he, hlater⟩ := hordered.numbered_pending.exists_mem_coalesce hmem
      exact ⟨e, List.mem_append_right _ (List.mem_append_left _ he), hlater⟩
  · rw [hpending, List.drop_nil]
    exact fun d hd => absurd hd List.not_mem_nil

/-- A drain that leaves some takes the first 150 of those to be settled. -/
theorem Covered.drainSome (h : Covered s n (kDrainBudget + m)) (ui : s.ui = .idle)
    (hui : t.ui = .reposting (s.pendingUiUpdates.take kDrainBudget))
    (hpushed : t.pushed = s.pushed) (hcalled : t.called = s.called)
    (hdrained : t.drained = s.drained)
    (hpending : t.pendingUiUpdates = s.pendingUiUpdates.drop kDrainBudget) : Covered t n m := by
  refine h.of_settles hpushed (hcalled ▸ Nat.le_refl _) ?_ ?_
  · rw [hdrained, hui, hpending, ui]
    intro d hd
    refine ⟨d, ?_, rfl, Nat.le_refl _⟩
    rw [List.take_add] at hd
    exact hd
  · rw [hpending, List.drop_drop]
    exact fun d hd => hd

theorem Covered.repost (h : Covered s n m) (hordered : Ordered s) {batch : List Delivery}
    (ui : s.ui = .reposting batch)
    (hui : t.ui = .applying (LastWrite.coalesce Delivery.key batch)) (hpushed : t.pushed = s.pushed)
    (hcalled : t.called = s.called) (hdrained : t.drained = s.drained)
    (hpending : t.pendingUiUpdates = s.pendingUiUpdates) : Covered t n m := by
  have hnumbered : Numbered batch := by
    have hinHand := hordered.numbered_inHand
    rwa [ui] at hinHand
  refine h.of_settles hpushed (hcalled ▸ Nat.le_refl _) ?_ ?_
  · rw [hdrained, hui, hpending, ui]
    intro d hd
    obtain hd | hd := List.mem_append.mp hd
    · exact ⟨d, List.mem_append_left _ hd, rfl, Nat.le_refl _⟩
    · obtain hd | hd := List.mem_append.mp hd
      · obtain ⟨e, he, hlater⟩ := hnumbered.exists_mem_coalesce hd
        exact ⟨e, List.mem_append_right _ (List.mem_append_left _ he), hlater⟩
      · exact ⟨d, List.mem_append_right _ (List.mem_append_right _ hd), rfl, Nat.le_refl _⟩
  · rw [hpending]
    exact fun d hd => hd

theorem Covered.apply (h : Covered s n m) {delivery : Delivery} {rest : List Delivery}
    (ui : s.ui = .applying (delivery :: rest)) (hui : t.ui = .applying rest)
    (hpushed : t.pushed = s.pushed) (hcalled : t.called = s.called)
    (hdrained : t.drained = s.drained ++ [delivery])
    (hpending : t.pendingUiUpdates = s.pendingUiUpdates) : Covered t n m := by
  refine h.of_settles hpushed (hcalled ▸ Nat.le_refl _) ?_ ?_
  · rw [hdrained, hui, hpending, ui]
    intro d hd
    refine ⟨d, ?_, rfl, Nat.le_refl _⟩
    rw [List.append_assoc]
    exact hd
  · rw [hpending]
    exact fun d hd => hd

/-! ### Reports on their way -/

/-- The drains that run before the handler of a report, from where the report is now. -/
def drainsBeforeHandler (s : State) (pre post : List UiEvent) : ℕ :=
  2 * drainsIn pre + drainsIn post + s.ui.posts

/-- Each report on its way is covered by the drains before its handler. -/
structure ReportsCovered (s : State) : Prop where
  plugin : ∀ pre transport n post, s.events = pre ++ .pluginConnectionState transport n :: post →
    Covered s n (kDrainBudget * drainsBeforeHandler s pre post)
  handler : ∀ pre n post, s.events = pre ++ .connectionState n :: post →
    Covered s n (kDrainBudget * drainsIn pre)

/-- When a report is made, the drains that run before its handler take all that is queued: two
drains if one is posted, one if it is about to be, none else. -/
def Room (s : State) : Action → Prop
  | .reportConnected => s.pendingUiUpdates.length ≤ kDrainBudget * drainsBeforeHandler s s.events []
  | _ => True

instance (s : State) : ∀ a, Decidable (Room s a)
  | .reportConnected => inferInstanceAs (Decidable (s.pendingUiUpdates.length ≤ _))
  | .variableUpdate _ => isTrue trivial
  | .postDrain => isTrue trivial
  | .handleEvent => isTrue trivial
  | .repost => isTrue trivial
  | .apply => isTrue trivial
  | .immediateUpdate _ => isTrue trivial
  | .startTransport => isTrue trivial
  | .stopTransport => isTrue trivial

theorem reportsCovered_initial : ReportsCovered initial where
  plugin pre _ _ _ h := by simp [initial] at h
  handler pre _ _ h := by simp [initial] at h

/-- A step that leaves events and drains alone keeps what it keeps covered. -/
theorem ReportsCovered.of_covered (h : ReportsCovered s) (hevents : t.events = s.events)
    (hposts : t.ui.posts = s.ui.posts) (hcovered : ∀ n m, Covered s n m → Covered t n m) :
    ReportsCovered t where
  plugin pre transport n post hsplit := by
    rw [drainsBeforeHandler, hposts]
    exact hcovered _ _ (h.plugin pre transport n post (hevents ▸ hsplit))
  handler pre n post hsplit := hcovered _ _ (h.handler pre n post (hevents ▸ hsplit))

/-- The report that the condition is about. -/
theorem covered_of_room (hordered : Ordered s) (hroom : Room s .reportConnected) :
    Covered s s.called.length (kDrainBudget * drainsBeforeHandler s s.events []) where
  called := Nat.le_refl _
  settled d hd _ := by
    rw [List.take_of_length_le hroom]
    have hkeeps := hordered.keeps d.key
    cases hlast : last Delivery.key d.key s.pushed with
    | none => exact absurd rfl (LastWrite.last_eq_none_iff.mp hlast d hd)
    | some e =>
      have hmem : e ∈ writes Delivery.key d.key
          (s.drained ++ (s.ui.inHand ++ s.pendingUiUpdates)) :=
        List.mem_of_getLast? (hkeeps.2.trans hlast)
      obtain ⟨hmem, hkey⟩ := LastWrite.mem_writes.mp hmem
      exact ⟨e, hmem, hkey, hordered.numbered_pushed.le_last hd hlast⟩
  later d hd := by
    rw [List.drop_of_length_le hroom] at hd
    exact absurd hd List.not_mem_nil

/-- The next event is taken: what was behind it comes one nearer. -/
theorem ReportsCovered.handler_of_cons (h : ReportsCovered s) {event : UiEvent}
    {events pre post : List UiEvent} (posted : s.events = event :: events)
    (hsplit : events = pre ++ .connectionState n :: post) :
    Covered s n (kDrainBudget * drainsIn (event :: pre)) :=
  h.handler (event :: pre) n post (by rw [posted, hsplit, List.cons_append])

theorem ReportsCovered.plugin_of_cons (h : ReportsCovered s) {event : UiEvent}
    {events pre post : List UiEvent} {transport : ℕ} (posted : s.events = event :: events)
    (hsplit : events = pre ++ .pluginConnectionState transport n :: post) :
    Covered s n (kDrainBudget * drainsBeforeHandler s (event :: pre) post) :=
  h.plugin (event :: pre) transport n post (by rw [posted, hsplit, List.cons_append])

/-- What is covered does not depend on the events. -/
theorem Covered.events (h : Covered s n m) (events : List UiEvent) (republished : List ℕ) :
    Covered { s with events := events, republished := republished } n m :=
  h.of_same rfl (Nat.le_refl _) rfl rfl rfl

/-- One more drain behind a report is one more before its handler. -/
theorem ReportsCovered.post (h : ReportsCovered s)
    (hevents : t.events = s.events ++ [.drainPendingUiUpdates])
    (hposts : s.ui.posts ≤ t.ui.posts + 1) (hcovered : ∀ n m, Covered s n m → Covered t n m) :
    ReportsCovered t where
  plugin pre transport n post hsplit := by
    rw [hevents] at hsplit
    obtain ⟨post', rfl, hfront⟩ | ⟨-, hevent, -⟩ := append_singleton_split hsplit
    · refine (hcovered _ _ (h.plugin pre transport n post' hfront)).mono ?_
      refine Nat.mul_le_mul_left _ ?_
      have hone : drainsIn [.drainPendingUiUpdates] = 1 := rfl
      rw [drainsBeforeHandler, drainsBeforeHandler, drainsIn_append]
      omega
    · cases hevent
  handler pre n post hsplit := by
    rw [hevents] at hsplit
    obtain ⟨post', rfl, hfront⟩ | ⟨-, hevent, -⟩ := append_singleton_split hsplit
    · exact hcovered _ _ (h.handler pre n post' hfront)
    · cases hevent

theorem ReportsCovered.reportConnected (h : ReportsCovered s) (hordered : Ordered s)
    (hroom : Room s .reportConnected) (transport : ℕ) :
    ReportsCovered { s with
      events := s.events ++ [.pluginConnectionState transport s.called.length] } where
  plugin pre transport' n post hsplit := by
    obtain ⟨post', rfl, hfront⟩ | ⟨rfl, hevent, rfl⟩ := append_singleton_split hsplit
    · have hcover := h.plugin pre transport' n post' hfront
      have hsame : drainsIn (post' ++ [.pluginConnectionState transport s.called.length]) =
          drainsIn post' := drainsIn_append _ _
      rw [drainsBeforeHandler, hsame]
      exact hcover.events _ _
    · cases hevent
      exact (covered_of_room hordered hroom).events _ _
  handler pre n post hsplit := by
    obtain ⟨post', rfl, hfront⟩ | ⟨-, hevent, -⟩ := append_singleton_split hsplit
    · exact (h.handler pre n post' hfront).events _ _
    · cases hevent

/-- A report passes its first event: the drains posted by then are those before its handler. -/
theorem ReportsCovered.pluginAlive (h : ReportsCovered s) {transport reported : ℕ}
    {events : List UiEvent} (ui : s.ui = .idle)
    (posted : s.events = .pluginConnectionState transport reported :: events) :
    ReportsCovered { s with events := events ++ [.connectionState reported] } where
  plugin pre transport' n post hsplit := by
    obtain ⟨post', rfl, hfront⟩ | ⟨-, hevent, -⟩ := append_singleton_split hsplit
    · have hcover := h.plugin_of_cons posted hfront
      have hsame : drainsIn (post' ++ [.connectionState reported]) = drainsIn post' :=
        drainsIn_append _ _
      rw [drainsBeforeHandler, drainsIn_cons_other _ (by simp)] at hcover
      rw [drainsBeforeHandler, hsame]
      exact hcover.events _ _
    · cases hevent
  handler pre n post hsplit := by
    obtain ⟨post', rfl, hfront⟩ | ⟨rfl, hevent, rfl⟩ := append_singleton_split hsplit
    · have hcover := h.handler_of_cons posted hfront
      rw [drainsIn_cons_other _ (by simp)] at hcover
      exact hcover.events _ _
    · cases hevent
      have hcover := h.plugin [] transport reported pre posted
      have hbudget : drainsBeforeHandler s [] pre = drainsIn pre := by
        rw [drainsBeforeHandler, ui]
        show 2 * 0 + drainsIn pre + 0 = drainsIn pre
        omega
      rw [hbudget] at hcover
      exact hcover.events _ _

/-- An event other than a drain is taken and nothing is posted for it. -/
theorem ReportsCovered.take (h : ReportsCovered s) {event : UiEvent} {events : List UiEvent}
    (posted : s.events = event :: events) (hevent : event ≠ .drainPendingUiUpdates) :
    ReportsCovered { s with events := events } where
  plugin pre transport' n post hsplit := by
    have hcover := h.plugin_of_cons posted hsplit
    rw [drainsBeforeHandler, drainsIn_cons_other _ hevent] at hcover
    exact hcover.events _ _
  handler pre n post hsplit := by
    have hcover := h.handler_of_cons posted hsplit
    rw [drainsIn_cons_other _ hevent] at hcover
    exact hcover.events _ _

theorem ReportsCovered.connectionState (h : ReportsCovered s) {reported : ℕ}
    {events : List UiEvent} (posted : s.events = .connectionState reported :: events) :
    ReportsCovered { s with events := events, republished := s.republished ++ [reported] } where
  plugin pre transport n post hsplit :=
    ((h.take posted (by simp)).plugin pre transport n post hsplit).events _ _
  handler pre n post hsplit := ((h.take posted (by simp)).handler pre n post hsplit).events _ _

theorem ReportsCovered.drainAll (h : ReportsCovered s) (hordered : Ordered s)
    {events : List UiEvent} (ui : s.ui = .idle)
    (posted : s.events = .drainPendingUiUpdates :: events)
    (rest : s.pendingUiUpdates.drop kDrainBudget = []) :
    ReportsCovered { s with
      events := events, pendingUiUpdates := [], uiDrainScheduled := false
      ui := .applying
        (LastWrite.coalesce Delivery.key (s.pendingUiUpdates.take kDrainBudget)) } where
  plugin _ _ _ _ hsplit :=
    (h.plugin_of_cons posted hsplit).drainAll hordered _ ui rfl rest rfl rfl rfl rfl
  handler _ _ _ hsplit :=
    (h.handler_of_cons posted hsplit).drainAll hordered _ ui rfl rest rfl rfl rfl rfl

/-- A drain that leaves some has itself posted behind the reports that are on their way. -/
theorem ReportsCovered.drainSome (h : ReportsCovered s) {events : List UiEvent}
    (ui : s.ui = .idle) (posted : s.events = .drainPendingUiUpdates :: events) :
    ReportsCovered { s with
      events := events, pendingUiUpdates := s.pendingUiUpdates.drop kDrainBudget
      uiDrainScheduled := true, ui := .reposting (s.pendingUiUpdates.take kDrainBudget) } where
  plugin pre transport n post hsplit := by
    refine Covered.drainSome ((h.plugin_of_cons posted hsplit).mono ?_) ui rfl rfl rfl rfl rfl
    rw [drainsBeforeHandler, drainsBeforeHandler, drainsIn_cons, ui]
    show kDrainBudget * (2 * (drainsIn pre + 1) + drainsIn post + 0) ≤
      kDrainBudget + kDrainBudget * (2 * drainsIn pre + drainsIn post + 1)
    rw [kDrainBudget]
    omega
  handler pre n post hsplit := by
    refine Covered.drainSome ((h.handler_of_cons posted hsplit).mono ?_) ui rfl rfl rfl rfl rfl
    rw [drainsIn_cons, kDrainBudget]
    omega

/-- The step lemma of the reports. -/
theorem ReportsCovered.step (h : ReportsCovered s) (hordered : Ordered s) (hroom : Room s a)
    (hstep : Step s a t) : ReportsCovered t := by
  cases hstep with
  | variableUpdate update transport worker current =>
    refine h.of_covered rfl rfl ?_
    exact fun n m hcover => hcover.push (hordered.numbered_push worker current)
  | postDrain worker =>
    refine h.post rfl (Nat.le_succ _) ?_
    exact fun n m hcover => hcover.of_same rfl (Nat.le_refl _) rfl rfl rfl
  | reportConnected transport worker current => exact h.reportConnected hordered hroom transport
  | drainAll events ui posted rest => exact h.drainAll hordered ui posted rest
  | drainSome events ui posted rest => exact h.drainSome ui posted
  | pluginAlive transport reported events ui posted alive => exact h.pluginAlive ui posted
  | pluginGone transport reported events ui posted gone => exact h.take posted (by simp)
  | connectionState reported events ui posted => exact h.connectionState posted
  | repost batch ui =>
    refine h.post rfl (ui ▸ Nat.le_refl _) ?_
    exact fun n m hcover => hcover.repost hordered ui rfl rfl rfl rfl rfl
  | apply delivery rest ui =>
    refine h.of_covered rfl (ui ▸ rfl) ?_
    exact fun n m hcover => hcover.apply ui rfl rfl rfl rfl rfl
  | immediateUpdate update transport ui current =>
    refine h.of_covered rfl rfl ?_
    intro n m hcover
    refine hcover.of_same rfl ?_ rfl rfl rfl
    show _ ≤ (s.called ++ [_]).length
    rw [List.length_append]
    exact Nat.le_add_right _ _
  | startTransport ui worker =>
    refine h.of_covered rfl rfl ?_
    exact fun n m hcover => hcover.of_same rfl (Nat.le_refl _) rfl rfl rfl
  | stopTransport ui worker =>
    refine h.of_covered rfl rfl ?_
    exact fun n m hcover => hcover.of_same rfl (Nat.le_refl _) rfl rfl rfl

/-! ### Republished edits -/

/-- Of every update queued before number `n`, that one or a later one of its key was applied, and
none of them is left to be applied. -/
structure Settled (s : State) (n : ℕ) : Prop where
  called : n ≤ s.called.length
  applied : ∀ d ∈ s.pushed, d.index < n → ∃ e ∈ s.drained, e.key = d.key ∧ d.index ≤ e.index
  later : ∀ d ∈ s.ui.inHand ++ s.pendingUiUpdates, n ≤ d.index

/-- The handler runs: no drain is left before it, so all before the report is settled. -/
theorem Covered.toSettled (h : Covered s n 0) (ui : s.ui = .idle) : Settled s n where
  called := h.called
  applied d hd hlt := by
    obtain ⟨e, he, hlater⟩ := h.settled d hd hlt
    rw [ui, List.take_zero] at he
    obtain he | he := List.mem_append.mp he
    · exact ⟨e, he, hlater⟩
    · exact absurd he List.not_mem_nil
  later := by
    rw [ui]
    exact h.later

/-- What is settled stays settled: callbacks only bring later updates. -/
theorem Settled.step (h : Settled s n) (hstep : Step s a t) : Settled t n := by
  obtain ⟨new, out, hmoves, hcalled, -⟩ | ⟨update, transport, -, -, rfl⟩ := hstep.moves
  · have hfresh : ∀ d ∈ new, n ≤ d.index :=
      fun d hd => (hmoves.fresh d hd).symm ▸ h.called
    refine ⟨?_, ?_, ?_⟩
    · rw [hcalled, List.length_append]
      exact Nat.le_add_right_of_le h.called
    · rw [hmoves.pushed, hmoves.drained]
      intro d hd hlt
      obtain hd | hd := List.mem_append.mp hd
      · obtain ⟨e, he, hlater⟩ := h.applied d hd hlt
        exact ⟨e, List.mem_append_left _ he, hlater⟩
      · exact absurd (hfresh d hd) (Nat.not_le.mpr hlt)
    · intro d hd
      have hmem := hmoves.keeps.mem_of_mem (List.mem_append_right out hd)
      obtain hmem | hmem := List.mem_append.mp hmem
      · exact h.later d hmem
      · exact hfresh d hmem
  · refine ⟨?_, h.applied, h.later⟩
    show n ≤ (s.called ++ [_]).length
    rw [List.length_append]
    exact Nat.le_add_right_of_le h.called

/-- For each report whose handler has republished the operator's edits: every update delivered
before the report is settled, so none of them is applied after the edits. -/
def EditsWin (s : State) : Prop := ∀ n ∈ s.republished, Settled s n

theorem EditsWin.step (h : EditsWin s) (hreports : ReportsCovered s) (hstep : Step s a t) :
    EditsWin t := by
  have hsettled : ∀ n ∈ s.republished, Settled t n := fun n hn => (h n hn).step hstep
  cases hstep with
  | connectionState reported events ui posted =>
    intro n hn
    obtain hn | hn := List.mem_append.mp hn
    · exact hsettled n hn
    · obtain rfl := List.mem_singleton.mp hn
      exact ((hreports.handler [] n events posted).toSettled ui).step
        (.connectionState n events ui posted)
  | _ => exact hsettled

/-- For every interleaving of callbacks, drains, reports, starts and stops in which each report
finds room: the edits win over the snapshot. -/
theorem run_editsWin (actions : List Action)
    (hrun : Execution.run next initial actions = some s)
    (hroom : Execution.EveryStep next Room initial actions) : EditsWin s := by
  have hinv : Ordered s ∧ ReportsCovered s ∧ EditsWin s := by
    refine Execution.run_induction_of_everyStep
      (P := fun s => Ordered s ∧ ReportsCovered s ∧ EditsWin s) ?_ ?_ hroom hrun
    · rintro s a t ⟨hordered, hreports, hwin⟩ hcond hnext
      have hstep := step_of_next hnext
      exact ⟨hordered.step hstep, hreports.step hordered hcond hstep, hwin.step hreports hstep⟩
    · exact ⟨ordered_initial, reportsCovered_initial, fun _ hn => absurd hn List.not_mem_nil⟩
  exact hinv.2.2

/-- A snapshot of one update, applied before its report is handled. -/
def shortSnapshot : List Action :=
  [.startTransport, .variableUpdate ⟨[65], 2, .double 0, 0⟩, .postDrain, .reportConnected,
    .handleEvent, .apply, .handleEvent, .handleEvent]

theorem run_editsWin_shortSnapshot :
    ∃ s, Execution.run next initial shortSnapshot = some s ∧ EditsWin s :=
  ⟨_, rfl, run_editsWin shortSnapshot rfl (by decide)⟩

/-! ### A snapshot too long for two drains -/

/-- The updates of `n` more callbacks for one variable. -/
def deliveries (s : State) (update : Transport.VariableUpdate) (transport n : ℕ) :
    List Delivery :=
  (List.range n).map fun i => ⟨update, s.called.length + i, transport⟩

/-- The queue after them, as long as it does not collapse. -/
def pushes (s : State) (update : Transport.VariableUpdate) (transport n : ℕ) : State :=
  { s with
    pendingUiUpdates := s.pendingUiUpdates ++ deliveries s update transport n
    called := s.called ++ deliveries s update transport n
    pushed := s.pushed ++ deliveries s update transport n }

theorem deliveries_succ (s : State) (update : Transport.VariableUpdate) (transport n : ℕ) :
    deliveries s update transport (n + 1) = deliveries s update transport n ++
      [⟨update, (s.called ++ deliveries s update transport n).length, transport⟩] := by
  rw [List.length_append, deliveries, deliveries, List.length_map, List.length_range,
    List.range_succ, List.map_append]
  rfl

theorem push_pushes {update : Transport.VariableUpdate} {transport : ℕ} (worker : s.worker = .idle)
    (flag : s.uiDrainScheduled = true) (hroom : s.pendingUiUpdates.length + n < kQueueHighWater) :
    push (pushes s update transport n) update transport = pushes s update transport (n + 1) := by
  have hlength : (s.pendingUiUpdates ++ deliveries s update transport (n + 1)).length =
      s.pendingUiUpdates.length + (n + 1) := by
    rw [List.length_append, deliveries, List.length_map, List.length_range]
  have hcollapse : collapse (s.pendingUiUpdates ++ deliveries s update transport (n + 1)) =
      s.pendingUiUpdates ++ deliveries s update transport (n + 1) := by
    rw [collapse, if_neg]
    omega
  rw [deliveries_succ, ← List.append_assoc] at hcollapse
  simp only [push, pushes, deliveries_succ, ← List.append_assoc, flag, if_true]
  rw [hcollapse, ← worker]

theorem run_pushes {update : Transport.VariableUpdate} {transport : ℕ} (worker : s.worker = .idle)
    (current : s.transport = some transport) (flag : s.uiDrainScheduled = true)
    (hroom : s.pendingUiUpdates.length + n ≤ kQueueHighWater) :
    Execution.run next s (List.replicate n (.variableUpdate update)) =
      some (pushes s update transport n) := by
  induction n with
  | zero =>
    simp only [pushes, deliveries, List.range_zero, List.map_nil, List.append_nil]
    rfl
  | succ n ih =>
    have hnext : next (pushes s update transport n) (.variableUpdate update) =
        some (push (pushes s update transport n) update transport) := by
      show (if s.worker = .idle then s.transport.map _ else none) = _
      rw [if_pos worker, current]
      rfl
    rw [List.replicate_succ', Execution.run_append, ih (by omega)]
    show (next (pushes s update transport n) (.variableUpdate update)).bind some = _
    rw [hnext, push_pushes worker flag hroom]
    rfl

def zeroUpdate : Transport.VariableUpdate := ⟨[65], 2, .double 0, 0⟩

/-- The first snapshot update has a drain posted. -/
def opening : List Action := [.startTransport, .variableUpdate zeroUpdate, .postDrain]

/-- The report, and the events of the UI thread up to the handler. -/
def closing : List Action :=
  [.reportConnected, .handleEvent, .repost, .apply, .handleEvent, .handleEvent, .repost, .apply,
    .handleEvent]

def opened : State :=
  { pendingUiUpdates := [⟨zeroUpdate, 0, 0⟩], uiDrainScheduled := true
    events := [.drainPendingUiUpdates], transport := some 0, created := 1
    called := [⟨zeroUpdate, 0, 0⟩], pushed := [⟨zeroUpdate, 0, 0⟩] }

theorem run_opening : Execution.run next initial opening = some opened := by decide

/-- Of 301 snapshot updates the two drains before the handler take 300; the last one is applied
after the edits. -/
theorem long_snapshot_overwrites_edits :
    ∃ s, Execution.run next initial
        (opening ++ (List.replicate 300 (.variableUpdate zeroUpdate) ++ closing)) = some s ∧
      ¬EditsWin s := by
  have hpushes : Execution.run next opened (List.replicate 300 (.variableUpdate zeroUpdate)) =
      some (pushes opened zeroUpdate 0 300) := run_pushes rfl rfl rfl (by decide)
  have hclosing : (Execution.run next (pushes opened zeroUpdate 0 300) closing).map
      (fun s => (s.republished, s.pendingUiUpdates.map Delivery.index)) =
        some ([301], [300]) := by
    decide +kernel
  obtain ⟨s, hs, hleft⟩ := Option.map_eq_some_iff.mp hclosing
  have hrepublished : s.republished = [301] := congrArg Prod.fst hleft
  have hpending : s.pendingUiUpdates.map Delivery.index = [300] := congrArg Prod.snd hleft
  refine ⟨s, ?_, ?_⟩
  · rw [Execution.run_append, run_opening, Option.bind_some, Execution.run_append, hpushes,
      Option.bind_some, hs]
  · intro hwin
    have hmem : 301 ∈ s.republished := by
      rw [hrepublished]
      exact List.mem_singleton_self 301
    have hindex : 300 ∈ s.pendingUiUpdates.map Delivery.index := by
      rw [hpending]
      exact List.mem_singleton_self 300
    obtain ⟨d, hd, hd300⟩ := List.mem_map.mp hindex
    have hlater := (hwin 301 hmem).later d (List.mem_append_right _ hd)
    omega

end SmartDashboard.App.UiQueue
