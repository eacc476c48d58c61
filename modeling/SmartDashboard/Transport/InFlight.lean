import SmartDashboard.Transport.Playback

/-!
# A seek against an iteration in flight

`RunPlaybackLoop` and `SeekPlaybackUs` both collect their updates under the mutex and publish them
after it, one by one and on different threads. A seek whose critical section comes after that of an
iteration may so see the updates of the iteration published after its own.

## Main definitions

- `InFlight`: the transport with what either thread has collected and not published yet
- `Action`, `next`: critical sections and publications, in any order
- `SeekWins`: since the seek, the last update published for each key is the one it reconstructed
- `InOrder`: a publication of the iteration does not undo one of the seek
-/

namespace SmartDashboard.Transport.Replay.Concurrent

open Direct (ByteString)
open LastWrite (last)

structure InFlight (Rate : Type*) where
  replay : State Rate
  /-- What the loop collected and has yet to publish. -/
  iteration : List VariableUpdate := []
  /-- What the seek reconstructed and has yet to publish. -/
  seeking : List VariableUpdate := []
  /-- What the seek reconstructed, after its critical section. -/
  reconstructed : Option (List VariableUpdate) := none
  /-- What either thread published since that critical section. -/
  published : List VariableUpdate := []
  deriving DecidableEq, Repr

inductive Action
  | tick (nowUs : ℤ)
  | publishIteration
  | seekPlaybackUs (cursorUs nowUs : ℤ)
  | publishSeek
  deriving DecidableEq, Repr

variable {Rate : Type*} (playbackDelta : Rate → ℤ → ℤ) (session : Session)

/-- A thread enters its critical section only after it published what it collected before. -/
def next (s : InFlight Rate) : Action → Option (InFlight Rate)
  | .tick nowUs =>
    match s.iteration with
    | [] =>
      let iteration := tick playbackDelta session s.replay nowUs
      some { s with replay := iteration.1, iteration := iteration.2 }
    | _ :: _ => none
  | .publishIteration =>
    match s.iteration with
    | [] => none
    | update :: updates =>
      some { s with iteration := updates, published := s.published ++ [update] }
  | .seekPlaybackUs cursorUs nowUs =>
    match s.seeking with
    | [] =>
      let sought := seek session s.replay cursorUs nowUs
      some { s with
        replay := sought.1, seeking := sought.2, reconstructed := some sought.2, published := [] }
    | _ :: _ => none
  | .publishSeek =>
    match s.seeking with
    | [] => none
    | update :: updates =>
      some { s with seeking := updates, published := s.published ++ [update] }

/-- Some update of the list is of the key. -/
def HasKey (k : ByteString) (updates : List VariableUpdate) : Prop :=
  ∃ update ∈ updates, update.key = k

instance (k : ByteString) (updates : List VariableUpdate) : Decidable (HasKey k updates) :=
  inferInstanceAs (Decidable (∃ update ∈ updates, update.key = k))

/-- Since the seek, the last update published for each key is the one it reconstructed. -/
def SeekWins (s : InFlight Rate) : Prop :=
  ∀ values ∈ s.reconstructed, ∀ k,
    last VariableUpdate.key k s.published = last VariableUpdate.key k values

/-- After the seek's critical section, an update of the iteration is published only while another
one of its key has yet to be, or when it is what the seek reconstructed for the key. -/
def InOrder (s : InFlight Rate) : Action → Prop
  | .publishIteration => ∀ values ∈ s.reconstructed, ∀ update ∈ s.iteration.head?,
      HasKey update.key s.seeking ∨ HasKey update.key s.iteration.tail ∨
        last VariableUpdate.key update.key values = some update
  | .tick _ => True
  | .seekPlaybackUs _ _ => True
  | .publishSeek => True

instance (s : InFlight Rate) : ∀ a, Decidable (InOrder s a)
  | .publishIteration => inferInstanceAs (Decidable (∀ values ∈ s.reconstructed,
      ∀ update ∈ s.iteration.head?,
        HasKey update.key s.seeking ∨ HasKey update.key s.iteration.tail ∨
          last VariableUpdate.key update.key values = some update))
  | .tick _ => isTrue trivial
  | .seekPlaybackUs _ _ => isTrue trivial
  | .publishSeek => isTrue trivial

def isTick : Action → Bool
  | .tick _ => true
  | _ => false

def isSeek : Action → Bool
  | .seekPlaybackUs _ _ => true
  | _ => false

/-! ### Publishing what was collected -/

variable {playbackDelta} {session} {s t u : InFlight Rate} {k : ByteString}
  {v : VariableUpdate} {vs values : List VariableUpdate} {a : Action} {actions : List Action}

@[simp] theorem hasKey_nil : ¬HasKey k [] := by
  rintro ⟨_, hmem, _⟩
  exact List.not_mem_nil hmem

theorem hasKey_cons : HasKey k (v :: vs) ↔ v.key = k ∨ HasKey k vs := by
  simp only [HasKey, List.mem_cons, exists_eq_or_imp]

theorem last_eq_none_of_not_hasKey (h : ¬HasKey k vs) : last VariableUpdate.key k vs = none :=
  LastWrite.last_eq_none_iff.mpr fun v hv hkey => h ⟨v, hv, hkey⟩

theorem last_concat (vs : List VariableUpdate) (v : VariableUpdate) (k : ByteString) :
    last VariableUpdate.key k (vs ++ [v]) =
      if v.key = k then some v else last VariableUpdate.key k vs := by
  rw [LastWrite.last_append, LastWrite.last_singleton]
  split_ifs
  · rfl
  · rfl

/-- What an action does, each with the guard of its thread. -/
theorem next_cases (h : next playbackDelta session s a = some t) :
    (∃ nowUs, a = .tick nowUs ∧ s.iteration = [] ∧
      t = { s with
        replay := (tick playbackDelta session s.replay nowUs).1
        iteration := (tick playbackDelta session s.replay nowUs).2 }) ∨
    (∃ v vs, a = .publishIteration ∧ s.iteration = v :: vs ∧
      t = { s with iteration := vs, published := s.published ++ [v] }) ∨
    (∃ cursorUs nowUs, a = .seekPlaybackUs cursorUs nowUs ∧ s.seeking = [] ∧
      t = { s with
        replay := (seek session s.replay cursorUs nowUs).1
        seeking := (seek session s.replay cursorUs nowUs).2
        reconstructed := some (seek session s.replay cursorUs nowUs).2
        published := [] }) ∨
    ∃ v vs, a = .publishSeek ∧ s.seeking = v :: vs ∧
      t = { s with seeking := vs, published := s.published ++ [v] } := by
  cases a with
  | tick nowUs =>
    cases hiter : s.iteration with
    | cons v vs => simp [next, hiter] at h
    | nil =>
      rw [next, hiter] at h
      exact .inl ⟨nowUs, rfl, rfl, (Option.some.inj h).symm⟩
  | publishIteration =>
    cases hiter : s.iteration with
    | nil => simp [next, hiter] at h
    | cons v vs =>
      rw [next, hiter] at h
      exact .inr (.inl ⟨v, vs, rfl, rfl, (Option.some.inj h).symm⟩)
  | seekPlaybackUs cursorUs nowUs =>
    cases hseek : s.seeking with
    | cons v vs => simp [next, hseek] at h
    | nil =>
      rw [next, hseek] at h
      exact .inr (.inr (.inl ⟨cursorUs, nowUs, rfl, rfl, (Option.some.inj h).symm⟩))
  | publishSeek =>
    cases hseek : s.seeking with
    | nil => simp [next, hseek] at h
    | cons v vs =>
      rw [next, hseek] at h
      exact .inr (.inr (.inr ⟨v, vs, rfl, rfl, (Option.some.inj h).symm⟩))

/-- Neither thread has an update of the key left to publish. -/
def Settled (s : InFlight Rate) (k : ByteString) : Prop :=
  ¬HasKey k s.seeking ∧ ¬HasKey k s.iteration

/-- The seek has the end of its values left to publish, and every key that is settled shows its
value. -/
structure Winning (s : InFlight Rate) (values : List VariableUpdate) : Prop where
  reconstructed : s.reconstructed = some values
  suffix : s.seeking <:+ values
  settled : ∀ k, Settled s k →
    last VariableUpdate.key k s.published = last VariableUpdate.key k values

/-- Some key is settled on another update than the value of the seek. -/
def Lost (s : InFlight Rate) (values : List VariableUpdate) : Prop :=
  s.reconstructed = some values ∧ ∃ k, Settled s k ∧
    last VariableUpdate.key k s.published ≠ last VariableUpdate.key k values

theorem winning_of_seek {cursorUs nowUs : ℤ} :
    Winning { s with
        replay := (seek session s.replay cursorUs nowUs).1
        seeking := (seek session s.replay cursorUs nowUs).2
        reconstructed := some (seek session s.replay cursorUs nowUs).2
        published := [] }
      (seek session s.replay cursorUs nowUs).2 where
  reconstructed := rfl
  suffix := List.suffix_rfl
  settled _ hk := (last_eq_none_of_not_hasKey hk.1).symm

/-- The last of its key in what the seek has left is the last of its key altogether. -/
theorem Winning.last_values (h : Winning s values) (hseek : s.seeking = v :: vs)
    (hkey : ¬HasKey v.key vs) : last VariableUpdate.key v.key values = some v := by
  obtain ⟨front, hfront⟩ := h.suffix
  rw [← hfront, hseek, LastWrite.last_append, ← List.singleton_append, LastWrite.last_append,
    last_eq_none_of_not_hasKey hkey, LastWrite.last_singleton, if_pos rfl]
  rfl

/-- A publication in order keeps the seek winning, and so does the iteration's own critical
section. -/
theorem Winning.next (h : Winning s values) (hseek : isSeek a = false) (horder : InOrder s a)
    (hnext : Concurrent.next playbackDelta session s a = some t) : Winning t values := by
  obtain ⟨nowUs, rfl, hnil, rfl⟩ | ⟨v, vs, rfl, hiter, rfl⟩ | ⟨cursorUs, nowUs, rfl, -, -⟩ |
    ⟨v, vs, rfl, hpending, rfl⟩ := next_cases hnext
  · refine ⟨h.reconstructed, h.suffix, ?_⟩
    rintro k ⟨hseeking, -⟩
    exact h.settled k ⟨hseeking, hnil ▸ hasKey_nil⟩
  · refine ⟨h.reconstructed, h.suffix, ?_⟩
    rintro k ⟨hseeking, hrest⟩
    show last VariableUpdate.key k (s.published ++ [v]) = _
    rw [last_concat]
    by_cases hk : v.key = k
    · subst hk
      rw [InOrder, hiter] at horder
      obtain hpending | hpending | hsame := horder values h.reconstructed v rfl
      · exact absurd hpending hseeking
      · exact absurd hpending hrest
      · rw [if_pos rfl, hsame]
    · rw [if_neg hk]
      refine h.settled k ⟨hseeking, ?_⟩
      rw [hiter, hasKey_cons]
      exact not_or_intro hk hrest
  · exact absurd hseek (by simp [isSeek])
  · have hsuffix : vs <:+ values :=
      (hpending ▸ List.suffix_cons v vs : vs <:+ s.seeking).trans h.suffix
    refine ⟨h.reconstructed, hsuffix, ?_⟩
    rintro k ⟨hrest, hiteration⟩
    show last VariableUpdate.key k (s.published ++ [v]) = _
    rw [last_concat]
    by_cases hk : v.key = k
    · subst hk
      rw [if_pos rfl, h.last_values hpending hrest]
    · rw [if_neg hk]
      refine h.settled k ⟨?_, hiteration⟩
      rw [hpending, hasKey_cons]
      exact not_or_intro hk hrest

/-- A publication out of order loses its key. -/
theorem Winning.lost_of_not_inOrder (h : Winning s values) (horder : ¬InOrder s a)
    (hnext : Concurrent.next playbackDelta session s a = some t) : Lost t values := by
  obtain ⟨nowUs, rfl, -, -⟩ | ⟨v, vs, rfl, hiter, rfl⟩ | ⟨cursorUs, nowUs, rfl, -, -⟩ |
    ⟨v, vs, rfl, -, -⟩ := next_cases hnext
  · exact absurd trivial horder
  · have hv : ¬(HasKey v.key s.seeking ∨ HasKey v.key vs ∨
        last VariableUpdate.key v.key values = some v) := by
      intro hv
      refine horder ?_
      intro values' hvalues w hw
      rw [h.reconstructed] at hvalues
      obtain rfl := Option.some.inj hvalues
      rw [hiter] at hw ⊢
      obtain rfl := Option.some.inj hw
      exact hv
    obtain ⟨hseeking, hv⟩ := not_or.mp hv
    obtain ⟨hrest, hother⟩ := not_or.mp hv
    refine ⟨h.reconstructed, v.key, ⟨hseeking, hrest⟩, ?_⟩
    show last VariableUpdate.key v.key (s.published ++ [v]) ≠ _
    rw [last_concat, if_pos rfl]
    exact fun heq => hother heq.symm
  · exact absurd trivial horder
  · exact absurd trivial horder

/-- A key that is lost stays lost: nothing is left to publish for it. -/
theorem Lost.next (h : Lost s values) (htick : isTick a = false) (hseek : isSeek a = false)
    (hnext : Concurrent.next playbackDelta session s a = some t) : Lost t values := by
  obtain ⟨hvalues, k, ⟨hseeking, hiteration⟩, hother⟩ := h
  obtain ⟨nowUs, rfl, -, -⟩ | ⟨v, vs, rfl, hiter, rfl⟩ | ⟨cursorUs, nowUs, rfl, -, -⟩ |
    ⟨v, vs, rfl, hpending, rfl⟩ := next_cases hnext
  · exact absurd htick (by simp [isTick])
  · rw [hiter, hasKey_cons, not_or] at hiteration
    refine ⟨hvalues, k, ⟨hseeking, hiteration.2⟩, ?_⟩
    show last VariableUpdate.key k (s.published ++ [v]) ≠ _
    rwa [last_concat, if_neg hiteration.1]
  · exact absurd hseek (by simp [isSeek])
  · rw [hpending, hasKey_cons, not_or] at hseeking
    refine ⟨hvalues, k, ⟨hseeking.2, hiteration⟩, ?_⟩
    show last VariableUpdate.key k (s.published ++ [v]) ≠ _
    rwa [last_concat, if_neg hseeking.1]

/-! ### One iteration and one seek -/

/-- Both threads between their calls. -/
def idle (replay : State Rate) : InFlight Rate := { replay := replay }

/-- What is to come has at most one iteration and one seek, counting those that have begun. -/
structure OneEach (s : InFlight Rate) (actions : List Action) : Prop where
  ticks : actions.countP isTick ≤ 1
  seeks : actions.countP isSeek ≤ 1
  noTick : s.iteration ≠ [] → actions.countP isTick = 0
  noSeek : s.reconstructed ≠ none → actions.countP isSeek = 0

theorem OneEach.next (h : OneEach s (a :: actions))
    (hnext : Concurrent.next playbackDelta session s a = some t) : OneEach t actions := by
  obtain ⟨hticks, hseeks, hnoTick, hnoSeek⟩ := h
  rw [List.countP_cons] at hticks hseeks hnoTick hnoSeek
  obtain ⟨nowUs, rfl, -, rfl⟩ | ⟨v, vs, rfl, hiter, rfl⟩ | ⟨cursorUs, nowUs, rfl, -, rfl⟩ |
    ⟨v, vs, rfl, -, rfl⟩ := next_cases hnext
  all_goals simp only [isTick, isSeek, if_true, Bool.false_eq_true, if_false, Nat.add_zero] at *
  · exact ⟨by omega, hseeks, fun _ => by omega, hnoSeek⟩
  · exact ⟨hticks, hseeks, fun _ => hnoTick (by simp [hiter]), hnoSeek⟩
  · exact ⟨hticks, by omega, hnoTick, fun _ => by omega⟩
  · exact ⟨hticks, hseeks, hnoTick, hnoSeek⟩

/-- Before the seek, or with the seek winning. -/
def Sound (s : InFlight Rate) : Prop := s.reconstructed = none ∨ ∃ values, Winning s values

/-- The step lemma. -/
theorem Sound.next (h : Sound s) (hone : OneEach s (a :: actions)) (horder : InOrder s a)
    (hnext : Concurrent.next playbackDelta session s a = some t) : Sound t := by
  obtain hnone | ⟨values, hwin⟩ := h
  · obtain ⟨nowUs, rfl, -, rfl⟩ | ⟨v, vs, rfl, -, rfl⟩ | ⟨cursorUs, nowUs, rfl, -, rfl⟩ |
      ⟨v, vs, rfl, -, rfl⟩ := next_cases hnext
    · exact .inl hnone
    · exact .inl hnone
    · exact .inr ⟨_, winning_of_seek⟩
    · exact .inl hnone
  · have hseek : isSeek a = false := by
      have hcount := hone.noSeek (by simp [hwin.reconstructed])
      rw [List.countP_eq_zero] at hcount
      exact Bool.eq_false_iff.mpr (hcount a List.mem_cons_self)
    exact .inr ⟨values, hwin.next hseek horder hnext⟩

/-- Only a publication of the iteration after the seek can be out of order. -/
theorem Sound.lost_of_not_inOrder (h : Sound s) (hone : OneEach s (a :: actions))
    (horder : ¬InOrder s a) (hnext : Concurrent.next playbackDelta session s a = some t) :
    (∃ values, Lost t values) ∧ ∀ b ∈ actions, isTick b = false ∧ isSeek b = false := by
  obtain hnone | ⟨values, hwin⟩ := h
  · refine absurd ?_ horder
    cases a with
    | publishIteration => simp [InOrder, hnone]
    | tick _ => trivial
    | seekPlaybackUs _ _ => trivial
    | publishSeek => trivial
  · have hiter : s.iteration ≠ [] := by
      obtain ⟨nowUs, rfl, -, -⟩ | ⟨v, vs, rfl, hiter, -⟩ | ⟨cursorUs, nowUs, rfl, -, -⟩ |
        ⟨v, vs, rfl, -, -⟩ := next_cases hnext
      · exact absurd trivial horder
      · simp [hiter]
      · exact absurd trivial horder
      · exact absurd trivial horder
    have hticks := List.countP_eq_zero.mp (hone.noTick hiter)
    have hseeks := List.countP_eq_zero.mp (hone.noSeek (by simp [hwin.reconstructed]))
    refine ⟨⟨values, hwin.lost_of_not_inOrder horder hnext⟩, ?_⟩
    intro b hb
    have hb := List.mem_cons_of_mem a hb
    exact ⟨Bool.eq_false_iff.mpr (hticks b hb), Bool.eq_false_iff.mpr (hseeks b hb)⟩

theorem Lost.run (h : Lost s values)
    (hactions : ∀ a ∈ actions, isTick a = false ∧ isSeek a = false)
    (hrun : Execution.run (Concurrent.next playbackDelta session) s actions = some u) :
    Lost u values := by
  induction actions generalizing s with
  | nil => exact Option.some.inj hrun ▸ h
  | cons a actions ih =>
    rw [List.forall_mem_cons] at hactions
    obtain ⟨⟨htick, hseek⟩, hactions⟩ := hactions
    obtain ⟨t, ht, hrest⟩ := Execution.run_cons_eq_some.mp hrun
    exact ih (h.next htick hseek ht) hactions hrest

/-- The run lemma: in order to the end, or lost. -/
theorem Sound.run (h : Sound s) (hone : OneEach s actions)
    (hrun : Execution.run (Concurrent.next playbackDelta session) s actions = some u) :
    (Execution.EveryStep (Concurrent.next playbackDelta session) InOrder s actions ∧ Sound u) ∨
    (¬Execution.EveryStep (Concurrent.next playbackDelta session) InOrder s actions ∧
      ∃ values, Lost u values) := by
  induction actions generalizing s with
  | nil => exact .inl ⟨trivial, Option.some.inj hrun ▸ h⟩
  | cons a actions ih =>
    obtain ⟨t, ht, hrest⟩ := Execution.run_cons_eq_some.mp hrun
    by_cases horder : InOrder s a
    · obtain ⟨hevery, hsound⟩ | ⟨hnot, hlost⟩ :=
        ih (h.next hone horder ht) (hone.next ht) hrest
      · refine .inl ⟨⟨horder, ?_⟩, hsound⟩
        intro t' ht'
        exact Option.some.inj (ht.symm.trans ht') ▸ hevery
      · exact .inr ⟨fun hevery => hnot (hevery.2 t ht), hlost⟩
    · obtain ⟨⟨values, hlost⟩, hrestActions⟩ := h.lost_of_not_inOrder hone horder ht
      exact .inr ⟨fun hevery => horder hevery.1, values, hlost.run hrestActions hrest⟩

/-- For every interleaving of an iteration with a seek, once both have published everything: the
seek wins exactly when every publication was in order. -/
theorem seekWins_iff (playbackDelta : Rate → ℤ → ℤ) (session : Session) (replay : State Rate)
    (actions : List Action) (hticks : actions.countP isTick ≤ 1)
    (hseeks : actions.countP isSeek ≤ 1)
    (hrun : Execution.run (Concurrent.next playbackDelta session) (idle replay) actions = some u)
    (hiteration : u.iteration = []) (hseeking : u.seeking = []) :
    SeekWins u ↔
      Execution.EveryStep (Concurrent.next playbackDelta session) InOrder (idle replay)
        actions := by
  have hsettled : ∀ k, Settled u k := by
    intro k
    rw [Settled, hiteration, hseeking]
    exact ⟨hasKey_nil, hasKey_nil⟩
  have hone : OneEach (idle replay) actions :=
    ⟨hticks, hseeks, fun h => absurd rfl h, fun h => absurd rfl h⟩
  obtain ⟨hevery, hnone | ⟨values, hwin⟩⟩ | ⟨hnot, values, hvalues, k, -, hother⟩ :=
    Sound.run (.inl rfl) hone hrun
  · refine iff_of_true ?_ hevery
    intro values hvalues
    rw [hnone] at hvalues
    cases hvalues
  · refine iff_of_true ?_ hevery
    intro values' hvalues
    rw [hwin.reconstructed] at hvalues
    obtain rfl := Option.some.inj hvalues
    exact fun k => hwin.settled k (hsettled k)
  · exact iff_of_false (fun hwins => hother (hwins values hvalues k)) hnot

/-- Two samples of one key and a marker, played up to between the samples. -/
def twoSamples : Session where
  events := [⟨.data, 0, ⟨[65], 1, .double 0, 1⟩⟩, ⟨.data, 10, ⟨[65], 1, .double 1, 2⟩⟩,
    ⟨.marker, 20, ⟨[], 0, .invalid, 0⟩⟩]
  sorted := by decide

theorem seekWins_after_iteration :
    ∃ u, Execution.run (next percentDelta twoSamples) (idle ⟨true, true, 100, 5, 0, 1⟩)
        [.tick 10, .publishIteration, .seekPlaybackUs 5 11, .publishSeek] = some u ∧
      SeekWins u := by
  refine ⟨_, rfl, (seekWins_iff percentDelta twoSamples ⟨true, true, 100, 5, 0, 1⟩
    [.tick 10, .publishIteration, .seekPlaybackUs 5 11, .publishSeek]
    (by decide) (by decide) rfl rfl rfl).mpr ?_⟩
  decide

/-- The iteration collects the second sample, the seek goes back before it, and the sample is
published last. -/
theorem seek_loses_to_iteration :
    ∃ u, Execution.run (next percentDelta twoSamples) (idle ⟨true, true, 100, 5, 0, 1⟩)
        [.tick 10, .seekPlaybackUs 5 11, .publishSeek, .publishIteration] = some u ∧
      u.iteration = [] ∧ u.seeking = [] ∧ ¬SeekWins u := by
  refine ⟨_, rfl, rfl, rfl, ?_⟩
  intro h
  have hkey := h _ rfl [65]
  revert hkey
  decide

end SmartDashboard.Transport.Replay.Concurrent
