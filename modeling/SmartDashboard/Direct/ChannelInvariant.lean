import Mathlib.Data.Fintype.Basic
import SmartDashboard.Direct.Channel
import SmartDashboard.Direct.Frame

/-!
# The invariant of the direct channel

Positions of the circle are counted from the index `base` at which everybody started: the accepted
writes lie on the circle one frame after the other, and each subscriber stands at the start of a
frame, with the frames it has not read intact between it and the writer. A caller of `WriteUpsert`
can break this in two ways: it loads `writeIndex` while another caller is about to move it, or its
frame reaches bytes that a subscriber has not read. `Exclusive` and `Covered` exclude the two.

## Main definitions

- `Tracks`: a cursor stands between what was read and what was not
- `Inv`: the invariant
- `Opened`: the states that a run starts in
- `Exclusive`, `Covered`: nobody else is about to publish, and no unread bytes are in reach
-/

namespace SmartDashboard.Direct

open CircularMemory Execution

/-- The bytes of a sequence of frames. -/
def streamBytes (us : List VariableUpdate) : ByteString := us.flatMap VariableUpdate.frameBytes

def streamLength (us : List VariableUpdate) : ℕ := (streamBytes us).length

theorem streamBytes_append (us vs : List VariableUpdate) :
    streamBytes (us ++ vs) = streamBytes us ++ streamBytes vs := List.flatMap_append

@[simp] theorem streamLength_nil : streamLength [] = 0 := rfl

@[simp] theorem streamLength_append (us vs : List VariableUpdate) :
    streamLength (us ++ vs) = streamLength us + streamLength vs := by
  rw [streamLength, streamBytes_append, List.length_append]
  rfl

@[simp] theorem streamLength_cons (u : VariableUpdate) (us : List VariableUpdate) :
    streamLength (u :: us) = u.frameBytes.length + streamLength us := by
  rw [streamLength, streamBytes, List.flatMap_cons, List.length_append]
  rfl

/-- A cursor stands behind the frames of `front`, with those of `back` in front of it. -/
structure Tracks (base : ℕ) (ring : Ring) (cursor : UInt32) (front back : List VariableUpdate) :
    Prop where
  index : IsIndex ring.capacity cursor (base + streamLength front)
  unread : window ring.capacity.toNat ring.payload (base + streamLength front)
    (streamLength back) = streamBytes back
  room : streamLength back < ring.capacity.toNat

/-- The update a subscriber has read and not handed to its callback yet. -/
def SubscriberPc.holds : SubscriberPc → List VariableUpdate
  | .deliver u => [u]
  | _ => []

/-- The bytes between a running subscriber and the writer. -/
def unreadBytes (ring : Ring) (sub : Subscriber) : ℕ :=
  if sub.pc = .stopped then 0 else (ring.usedFrom sub.readCursor).toNat

/-- Between the load of `writeIndex` for a frame and the store that publishes it. -/
def WriterPc.InCopy : WriterPc → Prop
  | .copyFrame _ _ | .storeWriteIndex _ _ => True
  | _ => False

instance : DecidablePred WriterPc.InCopy
  | .copyFrame _ _ | .storeWriteIndex _ _ => isTrue trivial
  | .idle | .testSpace _ | .countDrop _ | .loadWriteIndex _ | .storePublished _
  | .returned _ _ => isFalse id

/-- A subscriber has delivered what it read, and what it did not read is still there. -/
def SubscriberInv (base : ℕ) (ring : Ring) (accepted : List VariableUpdate) (sub : Subscriber) :
    Prop :=
  ∃ seen back, accepted = sub.missed ++ seen ++ back ∧
    sub.delivered ++ sub.pc.holds = seen.map VariableUpdate.normalise ∧
    (sub.pc ≠ .stopped → Tracks base ring sub.readCursor (sub.missed ++ seen) back) ∧
    ∀ writeIndex, sub.pc = .copyFrame writeIndex → back ≠ []

namespace Channel

variable {τ ι : Type*}

/-- What a caller of `WriteUpsert` relies on once its frame has passed the free-space test. -/
def WriterInv (base : ℕ) (s : Channel τ ι) : WriterPc → Prop
  | .loadWriteIndex u => u.frameBytes.length < s.ring.capacity.toNat
  | .copyFrame u writeIndex =>
    u.frameBytes.length < s.ring.capacity.toNat ∧
      IsIndex s.ring.capacity writeIndex (base + streamLength s.accepted)
  | .storeWriteIndex u cursor =>
    u.frameBytes.length < s.ring.capacity.toNat ∧
      IsIndex s.ring.capacity cursor
        (base + streamLength s.accepted + u.frameBytes.length) ∧
      window s.ring.capacity.toNat s.ring.payload (base + streamLength s.accepted)
        u.frameBytes.length = u.frameBytes
  | _ => True

structure Inv (base : ℕ) (s : Channel τ ι) : Prop where
  capacity : IsCapacity s.ring.capacity
  writeIndex : IsIndex s.ring.capacity s.ring.header.writeIndex (base + streamLength s.accepted)
  subscribers : ∀ i, SubscriberInv base s.ring s.accepted (s.subscribers i)
  writers : ∀ t, s.WriterInv base (s.writers t)
  exclusive : ∀ t t', (s.writers t).InCopy → (s.writers t').InCopy → t = t'

/-- `writeIndex` is loaded for a frame only while no other caller is between that load and the
store of `writeIndex`. -/
def ExclusiveAt (s : Channel τ ι) : WriterPc → Prop
  | .loadWriteIndex _ => ∀ t, ¬ (s.writers t).InCopy
  | _ => True

/-- A frame is copied only onto bytes that no running subscriber still has to read, and published
only if one byte stays free behind it. -/
def CoveredAt (s : Channel τ ι) : WriterPc → Prop
  | .copyFrame u _ =>
    ∀ i, unreadBytes s.ring (s.subscribers i) + u.totalBytes.toNat ≤ s.ring.capacity.toNat
  | .storeWriteIndex u _ =>
    ∀ i, unreadBytes s.ring (s.subscribers i) + u.totalBytes.toNat < s.ring.capacity.toNat
  | _ => True

def Exclusive (s : Channel τ ι) : Action τ ι → Prop
  | .write t _ => s.ExclusiveAt (s.writers t)
  | _ => True

def Covered (s : Channel τ ι) : Action τ ι → Prop
  | .write t _ => s.CoveredAt (s.writers t)
  | _ => True

instance [Fintype τ] (s : Channel τ ι) : DecidablePred s.ExclusiveAt
  | .loadWriteIndex _ => inferInstanceAs (Decidable (∀ t, ¬ (s.writers t).InCopy))
  | .idle | .testSpace _ | .countDrop _ | .copyFrame _ _ | .storeWriteIndex _ _
  | .storePublished _ | .returned _ _ => isTrue trivial

instance [Fintype ι] (s : Channel τ ι) : DecidablePred s.CoveredAt
  | .copyFrame u _ => inferInstanceAs (Decidable
      (∀ i, unreadBytes s.ring (s.subscribers i) + u.totalBytes.toNat ≤ s.ring.capacity.toNat))
  | .storeWriteIndex u _ => inferInstanceAs (Decidable
      (∀ i, unreadBytes s.ring (s.subscribers i) + u.totalBytes.toNat < s.ring.capacity.toNat))
  | .idle | .testSpace _ | .countDrop _ | .loadWriteIndex _ | .storePublished _
  | .returned _ _ => isTrue trivial

instance [Fintype τ] (s : Channel τ ι) : DecidablePred s.Exclusive
  | .write t _ => inferInstanceAs (Decidable (s.ExclusiveAt (s.writers t)))
  | .call _ _ | .leave _ | .start _ _ | .read _ _ _ | .stop _ => isTrue trivial

instance [Fintype ι] (s : Channel τ ι) : DecidablePred s.Covered
  | .write t _ => inferInstanceAs (Decidable (s.CoveredAt (s.writers t)))
  | .call _ _ | .leave _ | .start _ _ | .read _ _ _ | .stop _ => isTrue trivial

/-- An attached ring on which nothing has been written and nobody is inside a call; a subscriber
that runs stands at the writer. -/
structure Opened (s : Channel τ ι) : Prop where
  capacity : s.ring.capacity.toNat ≤ 2 ^ 31
  writeIndex : s.ring.header.writeIndex < s.ring.capacity
  writers : ∀ t, s.writers t = .idle
  subscribers : ∀ i, (s.subscribers i).pc = .stopped ∨
    (s.subscribers i).pc = .waiting ∧ (s.subscribers i).readCursor = s.ring.header.writeIndex
  delivered : ∀ i, (s.subscribers i).delivered = []
  missed : ∀ i, (s.subscribers i).missed = []
  accepted : s.accepted = []
  refused : s.refused = []

end Channel

/-! ### Index arithmetic -/

section Occupancy

variable {ring : Ring} {cursor : UInt32} {p n : ℕ}

/-- The occupancy is the distance of the two positions, if that is less than a turn. -/
theorem toNat_usedFrom (hcap : IsCapacity ring.capacity)
    (hcursor : IsIndex ring.capacity cursor p)
    (hwrite : IsIndex ring.capacity ring.header.writeIndex (p + n))
    (hn : n < ring.capacity.toNat) : (ring.usedFrom cursor).toNat = n := by
  have hlt := hcursor.lt hcap
  have hlt' := hwrite.lt hcap
  have hsum : ring.header.writeIndex.toNat = (cursor.toNat + n) % ring.capacity.toNat := by
    rw [hwrite, hcursor, Nat.mod_add_mod]
  rw [Ring.usedFrom]
  by_cases hturn : cursor.toNat + n < ring.capacity.toNat
  · -- the writer has not passed the end of the payload
    rw [Nat.mod_eq_of_lt hturn] at hsum
    have hle : cursor ≤ ring.header.writeIndex := UInt32.le_iff_toNat_le.mpr (by omega)
    rw [if_pos hle, UInt32.toNat_sub_of_le _ _ hle]
    omega
  · -- the writer has wrapped and the cursor has not
    rw [Nat.mod_eq_sub_mod (by omega), Nat.mod_eq_of_lt (by omega)] at hsum
    have hgt : ¬ cursor ≤ ring.header.writeIndex := by
      rw [UInt32.le_iff_toNat_le]
      omega
    have hle : ring.header.writeIndex ≤ cursor := UInt32.le_iff_toNat_le.mpr (by omega)
    have hgap : (cursor - ring.header.writeIndex).toNat =
        cursor.toNat - ring.header.writeIndex.toNat := UInt32.toNat_sub_of_le _ _ hle
    have hle' : cursor - ring.header.writeIndex ≤ ring.capacity :=
      UInt32.le_iff_toNat_le.mpr (by omega)
    rw [if_neg hgt, UInt32.toNat_sub_of_le _ _ hle', hgap]
    omega

/-- The free space leaves one byte of the rest. -/
theorem toNat_freeFrom (hcap : IsCapacity ring.capacity)
    (hcursor : IsIndex ring.capacity cursor p)
    (hwrite : IsIndex ring.capacity ring.header.writeIndex (p + n))
    (hn : n < ring.capacity.toNat) :
    (ring.freeFrom cursor).toNat = ring.capacity.toNat - n - 1 := by
  have hused := toNat_usedFrom hcap hcursor hwrite hn
  have hle : ring.usedFrom cursor ≤ ring.capacity := UInt32.le_iff_toNat_le.mpr (by omega)
  have hrest : (ring.capacity - ring.usedFrom cursor).toNat = ring.capacity.toNat - n := by
    rw [UInt32.toNat_sub_of_le _ _ hle, hused]
  have hone : (1 : UInt32) ≤ ring.capacity - ring.usedFrom cursor :=
    UInt32.le_iff_toNat_le.mpr (by rw [hrest]; show 1 ≤ _; omega)
  rw [Ring.freeFrom, UInt32.toNat_sub_of_le _ _ hone, hrest]
  rfl

end Occupancy

/-! ### One subscriber -/

section Subscriber

variable {base : ℕ} {ring ring' : Ring} {accepted front back : List VariableUpdate}
  {sub : Subscriber} {cursor : UInt32}

/-- A cursor does not see the header. -/
theorem Tracks.congr (h : Tracks base ring cursor front back)
    (hcap : ring'.capacity = ring.capacity) (hpayload : ring'.payload = ring.payload) :
    Tracks base ring' cursor front back := by
  obtain ⟨index, unread, room⟩ := h
  exact ⟨hcap ▸ index, by rw [hcap, hpayload]; exact unread, hcap ▸ room⟩

theorem SubscriberInv.congr (h : SubscriberInv base ring accepted sub)
    (hcap : ring'.capacity = ring.capacity) (hpayload : ring'.payload = ring.payload) :
    SubscriberInv base ring' accepted sub := by
  obtain ⟨seen, back, haccepted, hdelivered, htracks, hcopy⟩ := h
  exact ⟨seen, back, haccepted, hdelivered, fun hrun => (htracks hrun).congr hcap hpayload, hcopy⟩

/-- The distance of a tracking cursor to the writer is the length of what it has not read. -/
theorem Tracks.toNat_usedFrom (h : Tracks base ring cursor front back)
    (hcap : IsCapacity ring.capacity)
    (hwrite : IsIndex ring.capacity ring.header.writeIndex
      (base + streamLength (front ++ back))) :
    (ring.usedFrom cursor).toNat = streamLength back := by
  rw [streamLength_append, ← Nat.add_assoc] at hwrite
  exact SmartDashboard.Direct.toNat_usedFrom hcap h.index hwrite h.room

/-- A frame that was copied behind the accepted ones changes nothing that is unread. -/
theorem Tracks.blit (h : Tracks base ring cursor front back) {u : VariableUpdate}
    (hroom : streamLength back + u.frameBytes.length ≤ ring.capacity.toNat) :
    Tracks base { ring with
      payload := blit ring.capacity.toNat ring.payload
        (base + streamLength (front ++ back)) u.frameBytes } cursor front back := by
  refine ⟨h.index, ?_, h.room⟩
  dsimp only
  rw [streamLength_append, ← Nat.add_assoc, window_blit_of_disjoint]
  · exact h.unread
  · exact Nat.le_refl _
  · omega

/-- A frame that is published becomes the last unread one. -/
theorem Tracks.publish (h : Tracks base ring cursor front back) {u : VariableUpdate}
    (hroom : streamLength back + u.frameBytes.length < ring.capacity.toNat)
    (hframe : window ring.capacity.toNat ring.payload (base + streamLength (front ++ back))
      u.frameBytes.length = u.frameBytes) :
    Tracks base ring cursor front (back ++ [u]) := by
  refine ⟨h.index, ?_, ?_⟩
  · rw [streamLength_append, ← Nat.add_assoc] at hframe
    rw [streamLength_append, streamLength_cons, streamLength_nil, Nat.add_zero, window_add,
      h.unread, hframe, streamBytes_append]
    simp [streamBytes]
  · simpa using hroom

/-- The frame in front of a tracking cursor is read as it was written. -/
theorem Tracks.readFrame (hcap : IsCapacity ring.capacity) {u : VariableUpdate}
    {rest : List VariableUpdate} (h : Tracks base ring cursor front (u :: rest))
    (writeIndex : UInt32) :
    ∃ cursor', ring.readFrame cursor writeIndex = (cursor', some u.normalise) ∧
      Tracks base ring cursor' (front ++ [u]) rest := by
  obtain ⟨hindex, hunread, hroom⟩ := h
  rw [streamLength_cons] at hroom hunread
  have hunread : window ring.capacity.toNat ring.payload (base + streamLength front)
      (u.frameBytes.length + streamLength rest) = u.frameBytes ++ streamBytes rest := hunread
  have hparts := window_of_append _ _ hunread
  obtain ⟨cursor', hread, hindex'⟩ :=
    Ring.readFrame_eq hcap hindex (u := u) (by omega) hparts.1 writeIndex
  have hposition : base + streamLength (front ++ [u]) =
      base + streamLength front + u.frameBytes.length := by
    rw [streamLength_append, streamLength_cons, streamLength_nil, Nat.add_zero, Nat.add_assoc]
  refine ⟨cursor', hread, ?_, ?_, by omega⟩
  · rw [hposition]
    exact hindex'
  · rw [hposition]
    have hrest := hparts.2
    rwa [Nat.add_sub_cancel_left] at hrest

end Subscriber

/-! ### Steps that move no frame -/

/-- Two rings with the same frames on them. -/
structure SameFrames (ring ring' : Ring) : Prop where
  capacity : ring'.capacity = ring.capacity
  payload : ring'.payload = ring.payload
  writeIndex : ring'.header.writeIndex = ring.header.writeIndex

section SameFrames

variable {ring ring' : Ring}

theorem SameFrames.refl (ring : Ring) : SameFrames ring ring := ⟨rfl, rfl, rfl⟩

theorem SameFrames.storeReadIndex (ring : Ring) (readCursor : UInt32) :
    SameFrames ring (ring.storeReadIndex readCursor) := ⟨rfl, rfl, rfl⟩

theorem SameFrames.storeConsumerHeartbeat (ring : Ring) (nowUs : UInt64) :
    SameFrames ring (ring.storeConsumerHeartbeat nowUs) := ⟨rfl, rfl, rfl⟩

theorem SameFrames.storeConsumer (ring : Ring) (instanceId : UInt64) (readCursor : UInt32)
    (nowUs : UInt64) : SameFrames ring (ring.storeConsumer instanceId readCursor nowUs) :=
  ⟨rfl, rfl, rfl⟩

/-- A step of a subscriber moves no frame and counts no drop. -/
theorem sameFrames_readStep {sub sub' : Subscriber} {waitFailed : Bool} {nowUs : UInt64}
    (hstep : readStep ring sub waitFailed nowUs = some (ring', sub')) :
    SameFrames ring ring' ∧ ring'.header.droppedCount = ring.header.droppedCount := by
  cases hpc : sub.pc with
  | stopped => simp [readStep, hpc] at hstep
  | copyFrame writeIndex =>
    simp only [readStep, hpc] at hstep
    split at hstep
    all_goals
      obtain rfl := congrArg Prod.fst (Option.some.inj hstep)
      exact ⟨⟨rfl, rfl, rfl⟩, rfl⟩
  | starting | waiting | loadWriteIndex | deliver u | storeReadIndex =>
    simp only [readStep, hpc, Option.some.injEq, Prod.mk.injEq] at hstep
    obtain ⟨rfl, -⟩ := hstep
    exact ⟨⟨rfl, rfl, rfl⟩, rfl⟩

theorem SameFrames.usedFrom (h : SameFrames ring ring') (cursor : UInt32) :
    ring'.usedFrom cursor = ring.usedFrom cursor := by
  rw [Ring.usedFrom, Ring.usedFrom, h.writeIndex, h.capacity]

theorem SameFrames.unreadBytes (h : SameFrames ring ring') (sub : Subscriber) :
    unreadBytes ring' sub = unreadBytes ring sub := by
  rw [Direct.unreadBytes, Direct.unreadBytes, h.usedFrom]

end SameFrames

namespace Channel

variable {τ ι : Type*} {base : ℕ} {s s' : Channel τ ι}

/-- What a caller relies on survives if the frames stay. -/
theorem WriterInv.congr {pc : WriterPc} (h : s.WriterInv base pc)
    (hframes : SameFrames s.ring s'.ring) (haccepted : s'.accepted = s.accepted) :
    s'.WriterInv base pc := by
  cases pc with
  | loadWriteIndex _ | copyFrame _ _ | storeWriteIndex _ _ =>
    simpa only [WriterInv, hframes.capacity, hframes.payload, haccepted] using h
  | idle | testSpace _ | countDrop _ | storePublished _ | returned _ _ => exact trivial

/-- Outside the copy a caller relies on the capacity only. -/
theorem WriterInv.of_not_inCopy (hcap : s'.ring.capacity = s.ring.capacity) {pc : WriterPc}
    (hpc : ¬ pc.InCopy) (h : s.WriterInv base pc) : s'.WriterInv base pc := by
  cases pc with
  | loadWriteIndex u =>
    have h : u.frameBytes.length < s.ring.capacity.toNat := h
    show u.frameBytes.length < s'.ring.capacity.toNat
    rw [hcap]
    exact h
  | copyFrame _ _ | storeWriteIndex _ _ => exact absurd trivial hpc
  | idle | testSpace _ | countDrop _ | storePublished _ | returned _ _ => exact trivial

/-- The unread bytes of a running subscriber, as frames. -/
theorem Inv.unreadBytes_eq (h : Inv base s) {i : ι} {front back : List VariableUpdate}
    (hrun : (s.subscribers i).pc ≠ .stopped) (haccepted : s.accepted = front ++ back)
    (htracks : Tracks base s.ring (s.subscribers i).readCursor front back) :
    unreadBytes s.ring (s.subscribers i) = streamLength back := by
  have hwrite := h.writeIndex
  rw [haccepted] at hwrite
  rw [unreadBytes, if_neg hrun, htracks.toNat_usedFrom h.capacity hwrite]

theorem Opened.inv (h : s.Opened) : Inv s.ring.header.writeIndex.toNat s := by
  have hlt := UInt32.lt_iff_toNat_lt.mp h.writeIndex
  have hcap : IsCapacity s.ring.capacity := ⟨by omega, h.capacity⟩
  have hindex : IsIndex s.ring.capacity s.ring.header.writeIndex
      (s.ring.header.writeIndex.toNat + streamLength []) :=
    (Nat.mod_eq_of_lt hlt).symm
  refine ⟨hcap, by rwa [h.accepted], ?_, ?_, ?_⟩
  · intro i
    refine ⟨[], [], by simp [h.accepted, h.missed], ?_, fun hrun => ?_, fun _ hread => ?_⟩
    · rcases h.subscribers i with hpc | ⟨hpc, -⟩ <;> simp [h.delivered, hpc, SubscriberPc.holds]
    · obtain hpc | ⟨-, hcursor⟩ := h.subscribers i
      · exact absurd hpc hrun
      · rw [h.missed, hcursor]
        exact ⟨hindex, rfl, hcap.1⟩
    · rcases h.subscribers i with hpc | ⟨hpc, -⟩ <;> simp [hpc] at hread
  · intro t
    rw [h.writers]
    exact trivial
  · intro t _ hcopy _
    rw [h.writers] at hcopy
    exact absurd hcopy id

/-- The header may change, but for `writeIndex`. -/
theorem Inv.sameFrames (h : Inv base s) {ring : Ring} (hframes : SameFrames s.ring ring) :
    Inv base { s with ring := ring } := by
  refine ⟨hframes.capacity ▸ h.capacity, ?_, ?_, ?_, h.exclusive⟩
  · show IsIndex ring.capacity ring.header.writeIndex _
    rw [hframes.capacity, hframes.writeIndex]
    exact h.writeIndex
  · intro i
    exact (h.subscribers i).congr hframes.capacity hframes.payload
  · intro t
    exact (h.writers t).congr hframes rfl

section Update

/-- A caller moves on and no frame moves. -/
theorem Inv.updateWriter [DecidableEq τ] (h : Inv base s) {t : τ} {pc : WriterPc} {ring : Ring}
    {refused : List VariableUpdate} (hframes : SameFrames s.ring ring)
    (hpc : s.WriterInv base pc) (hcopy : pc.InCopy → ∀ t', t' ≠ t → ¬ (s.writers t').InCopy) :
    Inv base { s with
      ring := ring, writers := Function.update s.writers t pc, refused := refused } := by
  have hcongr : ∀ {pc' : WriterPc}, s.WriterInv base pc' → WriterInv base { s with
      ring := ring, writers := Function.update s.writers t pc, refused := refused } pc' :=
    fun hpc' => WriterInv.congr hpc' hframes rfl
  refine ⟨hframes.capacity ▸ h.capacity, ?_, ?_, ?_, ?_⟩
  · show IsIndex ring.capacity ring.header.writeIndex _
    rw [hframes.capacity, hframes.writeIndex]
    exact h.writeIndex
  · intro i
    exact (h.subscribers i).congr hframes.capacity hframes.payload
  · intro t'
    by_cases ht : t' = t
    · subst ht
      simp only [Function.update_self]
      exact hcongr hpc
    · simp only [Function.update_of_ne ht]
      exact hcongr (h.writers t')
  · intro t₁ t₂ h₁ h₂
    -- two callers in the copy: at most one of them is the one that moved
    by_cases ht₁ : t₁ = t <;> by_cases ht₂ : t₂ = t
    · rw [ht₁, ht₂]
    · subst ht₁
      simp only [Function.update_self, Function.update_of_ne ht₂] at h₁ h₂
      exact absurd h₂ (hcopy h₁ t₂ ht₂)
    · subst ht₂
      simp only [Function.update_self, Function.update_of_ne ht₁] at h₁ h₂
      exact absurd h₁ (hcopy h₂ t₁ ht₁)
    · simp only [Function.update_of_ne ht₁, Function.update_of_ne ht₂] at h₁ h₂
      exact h.exclusive t₁ t₂ h₁ h₂

/-- A subscriber moves on and no frame moves. -/
theorem Inv.updateSubscriber [DecidableEq ι] (h : Inv base s) {i : ι} {sub : Subscriber}
    {ring : Ring} (hframes : SameFrames s.ring ring)
    (hsub : SubscriberInv base s.ring s.accepted sub) :
    Inv base { s with
      ring := ring, subscribers := Function.update s.subscribers i sub } := by
  refine ⟨hframes.capacity ▸ h.capacity, ?_, ?_, ?_, h.exclusive⟩
  · show IsIndex ring.capacity ring.header.writeIndex _
    rw [hframes.capacity, hframes.writeIndex]
    exact h.writeIndex
  · intro j
    by_cases hj : j = i
    · subst hj
      simp only [Function.update_self]
      exact hsub.congr hframes.capacity hframes.payload
    · simp only [Function.update_of_ne hj]
      exact (h.subscribers j).congr hframes.capacity hframes.payload
  · intro t
    exact (h.writers t).congr hframes rfl

end Update

end Channel

end SmartDashboard.Direct
