import SmartDashboard.Direct.ChannelSteps
import SmartDashboard.Direct.Publisher

/-!
# Two callers of FlushNow

What a caller swaps out of `m_pending` is in its hands until the ring accepts or refuses it, and no
interleaving loses count of it. That an accepted value is also on the ring is another matter:
`WriteUpsert` takes no lock, and the frame is there only if no other caller was inside it at the
wrong moment.

## Main definitions

- `inHand`: what a caller has swapped out and not written yet
- `TakenKept`: every value swapped out is delivered, on the ring as one intact frame, or counted
- `Undisturbed`: the condition on a step of `WriteUpsert`
-/

namespace SmartDashboard.Direct

open CircularMemory Execution

/-- A key with its type and value. -/
abbrev KeyedValue := ByteString × ValueType × VariableValue

def VariableUpdate.keyed (u : VariableUpdate) : KeyedValue := (u.key, u.type, u.value)

def PendingValue.content (v : PendingValue) : ValueType × VariableValue := (v.type, v.value)

def keyedEntry (e : PendingEntry) : KeyedValue := (e.1, e.2.content)

@[simp] theorem keyed_upsert (e : PendingEntry) (seq nowUs : UInt64) :
    (Publisher.upsert e seq nowUs).keyed = keyedEntry e := rfl

/-- What a running subscriber has not missed was delivered or is in front of it, between its cursor
and the writer, frame after frame. -/
def Channel.KeepsFrames {τ ι : Type*} (s : Channel τ ι) (i : ι) : Prop :=
  (s.subscribers i).pc ≠ .stopped → ∃ seen back,
    s.accepted = (s.subscribers i).missed ++ seen ++ back ∧
    (s.subscribers i).delivered ++ (s.subscribers i).pc.holds =
      seen.map VariableUpdate.normalise ∧
    (s.ring.usedFrom (s.subscribers i).readCursor).toNat = streamLength back ∧
    window s.ring.capacity.toNat s.ring.payload (s.subscribers i).readCursor.toNat
      (streamLength back) = streamBytes back

theorem Channel.Inv.keepsFrames {τ ι : Type*} {base : ℕ} {s : Channel τ ι} (h : s.Inv base)
    (i : ι) : s.KeepsFrames i := by
  intro hrun
  obtain ⟨seen, back, haccepted, hdelivered, htracks, -⟩ := h.subscribers i
  have htracks := htracks hrun
  have hused := h.unreadBytes_eq hrun haccepted htracks
  rw [unreadBytes, if_neg hrun] at hused
  refine ⟨seen, back, haccepted, hdelivered, hused, ?_⟩
  rw [htracks.index, window_mod]
  exact htracks.unread

namespace Publisher

variable {κ ι : Type*}

/-- What a caller has swapped out of `m_pending` and the ring has not accepted or refused. -/
def inHand (s : Publisher κ ι) (c : Caller) : List KeyedValue :=
  (s.channel.writers c).holds.map VariableUpdate.keyed ++ ((s.flush c).getD []).map keyedEntry

/-- Every value swapped out of `m_pending` is accepted, refused or in somebody's hand. -/
def Conserved (s : Publisher κ ι) : Prop :=
  (s.taken.map keyedEntry).Perm
    ((s.channel.accepted ++ s.channel.refused).map VariableUpdate.keyed ++
      s.inHand .worker ++ s.inHand .application)

/-- A publisher that has started, with nobody inside a call. -/
structure Started (s : Publisher κ ι) : Prop where
  opened : s.channel.Opened
  flush : ∀ c, s.flush c = none
  replay : s.replay = .idle
  storing : ∀ t, s.storing t = none
  taken : s.taken = []

/-- Every value swapped out is accepted, refused or in hand; the refused ones are counted; the
accepted ones are delivered or lie on the ring as intact frames. -/
structure TakenKept (s₀ s : Publisher κ ι) : Prop where
  conserved : s.Conserved
  counted : s.channel.ring.header.droppedCount =
    s₀.channel.ring.header.droppedCount + UInt64.ofNat s.channel.refused.length
  intact : ∀ i, s.channel.KeepsFrames i

/-- A step of `WriteUpsert` that loads `writeIndex` while no other caller is about to move it, and
whose frame reaches no unread byte. -/
def Undisturbed (s : Publisher κ ι) : Action κ ι → Prop
  | .write c nowUs => s.channel.Exclusive (.write c nowUs) ∧ s.channel.Covered (.write c nowUs)
  | _ => True

instance [Fintype ι] (s : Publisher κ ι) : DecidablePred s.Undisturbed
  | .write c nowUs => inferInstanceAs (Decidable
      (s.channel.Exclusive (.write c nowUs) ∧ s.channel.Covered (.write c nowUs)))
  | .storeRetained _ _ _ _ | .storePending _ | .replayCheck _ | .replayCopy | .replayMerge
  | .swap _ _ | .beginWrite _ _ | .endWrite _ | .endFlush _ _ | .start _ _ | .read _ _ _
  | .stop _ => isTrue trivial

variable {s₀ s s' : Publisher κ ι}

/-! ### Nothing is lost count of -/

/-- Outside `FlushNow` a caller is outside `WriteUpsert`. -/
def IdleOutside (s : Publisher κ ι) : Prop :=
  ∀ c, s.flush c = none → s.channel.writers c = .idle

theorem IdleOutside.step [DecidableEq κ] [DecidableEq ι] (h : s.IdleOutside) {a : Action κ ι}
    (hnext : s.next a = some s') : s'.IdleOutside := by
  cases a with
  | storeRetained _ _ _ _ | storePending _ | replayCheck _ | replayCopy | replayMerge | start _ _
  | read _ _ _ | stop _ =>
    obtain ⟨hflush, -, hwriters, -, -⟩ := next_of_flusher_eq_none rfl hnext
    intro c hc
    rw [hwriters]
    exact h c (hflush ▸ hc)
  | swap c order =>
    obtain ⟨-, rfl⟩ := next_swap hnext
    intro c' hflush
    by_cases hc : c' = c
    · simp [hc] at hflush
    · exact h c' (by simpa [hc] using hflush)
  | beginWrite c nowUs =>
    obtain ⟨e, rest, channel, hflush, hcall, rfl⟩ := next_beginWrite hnext
    obtain ⟨-, rfl⟩ := Channel.next_call hcall
    intro c' hflush'
    by_cases hc : c' = c
    · simp [hc] at hflush'
    · simpa [hc] using h c' (by simpa [hc] using hflush')
  | write c nowUs =>
    obtain ⟨channel, hwrite, rfl⟩ := next_onChannel hnext
    obtain ⟨ring, pc, hstep, rfl⟩ := Channel.next_write hwrite
    intro c' hflush
    by_cases hc : c' = c
    · -- an idle caller takes no step
      rw [← hc, h c' hflush] at hstep
      exact absurd hstep (by simp [writeStep])
    · simpa [hc] using h c' hflush
  | endWrite c =>
    obtain ⟨droppedCount, channel, hleave, rfl⟩ := next_endWrite hnext
    obtain ⟨wrote, dropped, -, rfl⟩ := Channel.next_leave hleave
    intro c' hflush
    by_cases hc : c' = c
    · simp [hc]
    · simpa [hc] using h c' hflush
  | endFlush c nowUs =>
    obtain ⟨-, hpc, rfl⟩ := next_endFlush hnext
    intro c' hflush
    by_cases hc : c' = c
    · rw [hc]
      exact hpc
    · exact h c' (by simpa [hc] using hflush)

/-- What one caller's step moves out of its hand, all of it moves on. -/
theorem Conserved.move (h : s.Conserved) {c : Caller} {taken : List PendingEntry}
    {written dropped : List VariableUpdate}
    (htaken : s'.taken = s.taken ++ taken)
    (haccepted : s'.channel.accepted = s.channel.accepted ++ written)
    (hrefused : s'.channel.refused = s.channel.refused ++ dropped)
    (hhand : (s.inHand c ++ taken.map keyedEntry).Perm
      ((written ++ dropped).map VariableUpdate.keyed ++ s'.inHand c))
    (hother : ∀ c', c' ≠ c → s'.inHand c' = s.inHand c') : s'.Conserved := by
  rw [Conserved, List.perm_iff_count] at h ⊢
  intro e
  have hold := h e
  have hmoved := List.perm_iff_count.mp hhand e
  simp only [List.map_append, List.count_append] at hold hmoved
  rw [htaken, haccepted, hrefused]
  simp only [List.map_append, List.count_append]
  cases c with
  | worker =>
    rw [hother .application (by simp)]
    omega
  | application =>
    rw [hother .worker (by simp)]
    omega

/-- A step that nobody's hand takes part in. -/
theorem Conserved.congr (h : s.Conserved) (htaken : s'.taken = s.taken)
    (hwriters : s'.channel.writers = s.channel.writers)
    (haccepted : s'.channel.accepted = s.channel.accepted)
    (hrefused : s'.channel.refused = s.channel.refused) (hflush : s'.flush = s.flush) :
    s'.Conserved := by
  rw [Conserved, inHand, inHand] at h ⊢
  rw [htaken, hwriters, haccepted, hrefused, hflush]
  exact h

variable [DecidableEq κ] [DecidableEq ι]

theorem Conserved.step (h : s.Conserved) (hidle : s.IdleOutside) {a : Action κ ι}
    (hnext : s.next a = some s') : s'.Conserved := by
  cases a with
  | storeRetained _ _ _ _ | storePending _ | replayCheck _ | replayCopy | replayMerge | start _ _
  | read _ _ _ | stop _ =>
    obtain ⟨hflush, htaken, hwriters, haccepted, hrefused⟩ := next_of_flusher_eq_none rfl hnext
    exact h.congr htaken hwriters haccepted hrefused hflush
  | swap c order =>
    -- the hand was empty and now holds what was pending
    obtain ⟨⟨hflush, -⟩, rfl⟩ := next_swap hnext
    refine h.move (c := c) rfl (List.append_nil _).symm (List.append_nil _).symm ?_ ?_
    · simp [inHand, hflush, hidle c hflush, WriterPc.holds]
    · intro c' hc
      simp [inHand, hc]
  | beginWrite c nowUs =>
    obtain ⟨e, rest, channel, hflush, hcall, rfl⟩ := next_beginWrite hnext
    obtain ⟨hpc, rfl⟩ := Channel.next_call hcall
    refine h.move (c := c) (List.append_nil _).symm (List.append_nil _).symm
      (List.append_nil _).symm ?_ ?_
    · simp [inHand, hflush, hpc, WriterPc.holds]
    · intro c' hc
      simp [inHand, hc]
  | write c nowUs =>
    -- the value is published, dropped, or stays in the hand
    obtain ⟨channel, hwrite, rfl⟩ := next_onChannel hnext
    obtain ⟨ring, pc, hstep, rfl⟩ := Channel.next_write hwrite
    refine h.move (c := c) (List.append_nil _).symm rfl rfl ?_ ?_
    · simp [inHand, Channel.holds_writeStep hstep]
    · intro c' hc
      simp [inHand, hc]
  | endWrite c =>
    obtain ⟨droppedCount, channel, hleave, rfl⟩ := next_endWrite hnext
    obtain ⟨wrote, dropped, hpc, rfl⟩ := Channel.next_leave hleave
    refine h.move (c := c) (List.append_nil _).symm (List.append_nil _).symm
      (List.append_nil _).symm ?_ ?_
    · simp [inHand, hpc, WriterPc.holds]
    · intro c' hc
      simp [inHand, hc]
  | endFlush c nowUs =>
    obtain ⟨hflush, hpc, rfl⟩ := next_endFlush hnext
    refine h.move (c := c) (List.append_nil _).symm (List.append_nil _).symm
      (List.append_nil _).symm ?_ ?_
    · simp [inHand, hflush, hpc, WriterPc.holds]
    · intro c' hc
      simp [inHand, hc]

/-! ### What is accepted is on the ring -/

/-- A step of the publisher is a step of its channel, stores the heartbeat, or leaves the channel
alone. -/
theorem next_channel {a : Action κ ι} (hnext : s.next a = some s') :
    s'.channel = s.channel ∨
      (∃ b, s.channel.next b = some s'.channel ∧
        (s.Undisturbed a → s.channel.Exclusive b ∧ s.channel.Covered b)) ∨
      ∃ nowUs, s'.channel =
        { s.channel with ring := s.channel.ring.storeProducerHeartbeat nowUs } := by
  cases a with
  | storeRetained t key type value =>
    obtain ⟨-, rfl⟩ := next_storeRetained hnext
    exact .inl rfl
  | storePending t =>
    obtain ⟨key, pending, -, rfl⟩ := next_storePending hnext
    exact .inl rfl
  | replayCheck nowUs =>
    obtain ⟨-, -, active, observed, replay, -, rfl⟩ := next_replayCheck hnext
    exact .inl rfl
  | replayCopy =>
    obtain ⟨-, rfl⟩ := next_replayCopy hnext
    exact .inl rfl
  | replayMerge =>
    obtain ⟨retainedCopy, -, rfl⟩ := next_replayMerge hnext
    exact .inl rfl
  | swap c order =>
    obtain ⟨-, rfl⟩ := next_swap hnext
    exact .inl rfl
  | beginWrite c nowUs =>
    obtain ⟨e, rest, channel, -, hcall, rfl⟩ := next_beginWrite hnext
    exact .inr (.inl ⟨_, hcall, fun _ => ⟨trivial, trivial⟩⟩)
  | write c nowUs =>
    obtain ⟨channel, hwrite, rfl⟩ := next_onChannel hnext
    exact .inr (.inl ⟨_, hwrite, id⟩)
  | endWrite c =>
    obtain ⟨droppedCount, channel, hleave, rfl⟩ := next_endWrite hnext
    exact .inr (.inl ⟨_, hleave, fun _ => ⟨trivial, trivial⟩⟩)
  | endFlush c nowUs =>
    obtain ⟨-, -, rfl⟩ := next_endFlush hnext
    exact .inr (.inr ⟨nowUs, rfl⟩)
  | start _ _ | read _ _ _ | stop _ =>
    obtain ⟨channel, hstep, rfl⟩ := next_onChannel hnext
    exact .inr (.inl ⟨_, hstep, fun _ => ⟨trivial, trivial⟩⟩)

/-- What two callers of `FlushNow` rely on. -/
structure FlushInv (base : ℕ) (droppedCount : UInt64) (s : Publisher κ ι) : Prop where
  idleOutside : s.IdleOutside
  conserved : s.Conserved
  channel : s.channel.Inv base
  counted : s.channel.ring.header.droppedCount =
    droppedCount + UInt64.ofNat s.channel.refused.length

theorem FlushInv.step {base : ℕ} {droppedCount : UInt64} (h : s.FlushInv base droppedCount)
    {a : Action κ ι} (hundisturbed : s.Undisturbed a) (hnext : s.next a = some s') :
    s'.FlushInv base droppedCount := by
  refine ⟨h.idleOutside.step hnext, h.conserved.step h.idleOutside hnext, ?_, ?_⟩
  · rcases next_channel hnext with heq | ⟨b, hstep, hb⟩ | ⟨nowUs, heq⟩
    · rw [heq]
      exact h.channel
    · obtain ⟨hexclusive, hcovered⟩ := hb hundisturbed
      exact h.channel.step hexclusive hcovered hstep
    · rw [heq]
      exact h.channel.sameFrames ⟨rfl, rfl, rfl⟩
  · rcases next_channel hnext with heq | ⟨b, hstep, -⟩ | ⟨nowUs, heq⟩
    · rw [heq]
      exact h.counted
    · obtain ⟨drops, hrefused, hcount⟩ := Channel.droppedCount_next hstep
      rw [hcount, hrefused, h.counted, List.length_append, UInt64.ofNat_add, UInt64.add_assoc]
    · rw [heq]
      exact h.counted

/-- A publisher on the default ring, with one subscriber attached. -/
def attachedPublisher : Publisher Unit Unit where
  channel :=
    { ring := { capacity := 1048576, header := {}, payload := fun _ => 0 }
      writers := fun _ => .idle
      subscribers := fun _ => { pc := .waiting, instanceId := 1 } }

theorem attachedPublisher_started : attachedPublisher.Started :=
  ⟨⟨by decide, by decide, fun _ => rfl, fun _ => .inr ⟨rfl, rfl⟩, fun _ => rfl, fun _ => rfl, rfl,
    rfl⟩, fun _ => rfl, rfl, fun _ => rfl, rfl⟩

/-- A flag under a one-letter key is published, and a caller of `FlushNow` swaps it out. -/
def flagTaken (c : Caller) (letter : UInt8) (call : ℕ) : List (Action Unit Unit) :=
  [.storeRetained () [letter] .bool { boolValue := true }, .storePending (),
    .swap c [⟨[letter], { type := .bool, value := { boolValue := true }, call := call }⟩]]

/-- The caller writes what it swapped out, undisturbed. -/
def flagFlushed (c : Caller) : List (Action Unit Unit) :=
  .beginWrite c 1 :: List.replicate 5 (.write c 2) ++ [.endWrite c, .endFlush c 3]

/-- Every step of `WriteUpsert` is taken by both callers, one after the other. -/
def flushTogether : List (Action Unit Unit) :=
  flagTaken .application 97 0 ++ flagTaken .worker 98 1 ++
    [.beginWrite .application 1, .beginWrite .worker 1] ++
    (List.replicate 5 [.write .application 2, .write .worker 2]).flatten ++
    [.endWrite .application, .endWrite .worker, .endFlush .application 3, .endFlush .worker 3]

/-- The claim that nothing is lost, whatever two callers of `FlushNow` do. -/
def EveryFlushKeepsTaken (κ ι : Type) [DecidableEq κ] [DecidableEq ι] : Prop :=
  ∀ (s₀ s : Publisher κ ι) (actions : List (Action κ ι)), s₀.Started →
    run next s₀ actions = some s → (∀ c, s.flush c = none) → TakenKept s₀ s

end Publisher

end SmartDashboard.Direct
