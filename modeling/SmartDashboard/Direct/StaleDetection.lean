import SmartDashboard.Direct.ProducerHeartbeat

/-!
# Stale detection

What a subscriber reports from one iteration of its loop to the next, beside what somebody who
looks on knows of the heartbeat: which one the last iteration found, and what the clock read when
an iteration last saw it change. The clock does not run backwards. The heartbeat is any number,
also one that is ahead of the clock.

The subscriber takes a zero for the time of the change as a sign that there was none, and its limit
is a product in 64 bits. Apart from that it tells a heartbeat that stands still from one that does
not.

## Main definitions

- `Watch`, `Watch.next`: a subscriber that is looked at while it goes through its loop
- `Watch.ReportsRightly`: it is stale only after the timeout, and connected with a new heartbeat
- `Watch.ClockTells`: the clock and the limit can be told from the marks that the code uses
-/

namespace SmartDashboard.Direct

open Execution

/-- What an iteration of `RunLoop` finds. -/
structure Observation where
  nowUs : UInt64
  producerHeartbeatUs : UInt64
  deriving DecidableEq, Repr

/-- `changedUs` is the clock at the iteration that last saw the heartbeat change. -/
structure Watch where
  sub : DirectSubscriberStub
  nowUs : UInt64 := 0
  producerHeartbeatUs : UInt64 := 0
  changedUs : Option UInt64 := none
  deriving DecidableEq, Repr

namespace DirectSubscriberStub

variable (sub : DirectSubscriberStub)

/-- `staleTimeout` in microseconds. The count of a `std::chrono` duration has a sign. -/
def staleTimeoutUs : ℤ := sub.staleTimeoutMs.toInt64.toInt * 1000

/-- `staleLimitUs` of the loop, a product in 64 bits. -/
def staleLimitUs : UInt64 := sub.staleTimeoutMs * 1000

variable {sub} {producerHeartbeatUs nowUs : UInt64}

theorem observe_staleTimeoutMs :
    (sub.observe producerHeartbeatUs nowUs).staleTimeoutMs = sub.staleTimeoutMs := by
  simp only [observe]
  split_ifs <;> rfl

/-- The report of an iteration, which goes by the time since the change that it remembers. -/
theorem observe_connectionState_eq :
    (sub.observe producerHeartbeatUs nowUs).connectionState =
      let changeUs := (sub.observe producerHeartbeatUs nowUs).lastHeartbeatChangeUs
      if producerHeartbeatUs = 0 then .connecting
      else if sub.staleLimitUs < nowUs - producerHeartbeatUs ∧
          sub.staleLimitUs < nowUs - (if changeUs = 0 then producerHeartbeatUs else changeUs) then
        .stale
      else .connected := by
  rw [observe_lastHeartbeatChangeUs]
  simp only [observe, staleLimitUs]
  grind

/-- As long as the product fits, the limit is the timeout. -/
theorem toNat_staleLimitUs (hpositive : 0 ≤ sub.staleTimeoutUs)
    (hfits : sub.staleTimeoutUs < UInt64.size) :
    (sub.staleLimitUs.toNat : ℤ) = sub.staleTimeoutUs := by
  have hcount : sub.staleTimeoutMs.toInt64.toInt = (sub.staleTimeoutMs.toNat : ℤ).bmod (2 ^ 64) :=
    BitVec.toInt_eq_toNat_bmod ..
  have hms : sub.staleTimeoutMs.toNat < 2 ^ 64 := sub.staleTimeoutMs.toNat_lt
  have hlimit : sub.staleLimitUs.toNat = sub.staleTimeoutMs.toNat * 1000 % 2 ^ 64 :=
    UInt64.toNat_mul ..
  rw [staleTimeoutUs, hcount, Int.bmod_def] at hpositive hfits ⊢
  rw [hlimit]
  simp only [UInt64.size] at hfits
  split_ifs at hpositive hfits ⊢ <;> omega

/-- When a time over the limit, or one since zero, is a time over the timeout. -/
theorem timeout_lt_iff {changeUs : UInt64} (hle : changeUs ≤ nowUs) :
    (changeUs = 0 ∨ sub.staleLimitUs < nowUs - changeUs →
        sub.staleTimeoutUs < (nowUs.toNat : ℤ) - changeUs.toNat) ↔
      (changeUs = 0 → sub.staleTimeoutUs < nowUs.toNat) ∧
        (UInt64.size ≤ sub.staleTimeoutUs → nowUs - changeUs ≤ sub.staleLimitUs) := by
  have hnow : nowUs.toNat < UInt64.size := nowUs.toNat_lt_size
  have hpast : changeUs.toNat ≤ nowUs.toNat := UInt64.le_iff_toNat_le.mp hle
  have hquiet : (nowUs - changeUs).toNat = nowUs.toNat - changeUs.toNat :=
    UInt64.toNat_sub_of_le _ _ hle
  have hzero : changeUs = 0 ↔ changeUs.toNat = 0 := UInt64.toNat_inj.symm
  rw [hzero, UInt64.lt_iff_toNat_lt, UInt64.le_iff_toNat_le, hquiet]
  by_cases hfits : sub.staleTimeoutUs < UInt64.size
  · by_cases hpositive : 0 ≤ sub.staleTimeoutUs
    · have hlimit := toNat_staleLimitUs hpositive hfits
      omega
    · omega
  · omega

end DirectSubscriberStub

namespace Watch

/-- A subscriber whose loop begins. -/
def start (sub : DirectSubscriberStub) (instanceId : UInt64) : Watch :=
  { sub := sub.beginStart instanceId }

/-- One iteration, which reads the clock no earlier than the last one did. -/
def next (w : Watch) (o : Observation) : Option Watch :=
  if w.nowUs ≤ o.nowUs then
    some {
      sub := w.sub.observe o.producerHeartbeatUs o.nowUs
      nowUs := o.nowUs
      producerHeartbeatUs := o.producerHeartbeatUs
      changedUs :=
        if o.producerHeartbeatUs ≠ w.producerHeartbeatUs then some o.nowUs else w.changedUs }
  else none

/-- An iteration reports that the producer is stale only if the heartbeat has not changed for more
than the timeout, and with a new heartbeat it reports a connection. -/
def ReportsRightly (w : Watch) (o : Observation) : Prop :=
  ∀ w', w.next o = some w' →
    (w'.sub.connectionState = .stale →
      ∃ t ∈ w'.changedUs, w.sub.staleTimeoutUs < (o.nowUs.toNat : ℤ) - t.toNat) ∧
    (o.producerHeartbeatUs ≠ 0 → o.producerHeartbeatUs ≠ w.producerHeartbeatUs →
      w'.sub.connectionState = .connected)

/-- Where an iteration finds a heartbeat that is off the clock by more than the limit: a new one is
not found at zero, an old one was not, unless the timeout is over since, and a limit that has
wrapped is not over either. -/
def ClockTells (w : Watch) (o : Observation) : Prop :=
  w.nowUs ≤ o.nowUs → o.producerHeartbeatUs ≠ 0 →
    w.sub.staleLimitUs < o.nowUs - o.producerHeartbeatUs →
      if o.producerHeartbeatUs ≠ w.producerHeartbeatUs then o.nowUs ≠ 0
      else ∀ t ∈ w.changedUs, (t = 0 → w.sub.staleTimeoutUs < o.nowUs.toNat) ∧
        (UInt64.size ≤ w.sub.staleTimeoutUs → o.nowUs - t ≤ w.sub.staleLimitUs)

/-- The two fields that the subscriber keeps are what has been seen. -/
structure Remembers (w : Watch) : Prop where
  last : w.sub.lastProducerHeartbeatUs = w.producerHeartbeatUs
  change : w.sub.lastHeartbeatChangeUs = w.changedUs.getD 0
  unchanged : w.changedUs = none → w.producerHeartbeatUs = 0
  past : ∀ t ∈ w.changedUs, t ≤ w.nowUs

variable {w w' : Watch} {o : Observation}

theorem remembers_start (sub : DirectSubscriberStub) (instanceId : UInt64) :
    (start sub instanceId).Remembers where
  last := rfl
  change := rfl
  unchanged _ := rfl
  past := by rintro t ⟨⟩

/-- What an iteration leaves, and that it comes after the last one. -/
theorem next_eq_some : w.next o = some w' ↔ w.nowUs ≤ o.nowUs ∧
    w' = {
      sub := w.sub.observe o.producerHeartbeatUs o.nowUs
      nowUs := o.nowUs
      producerHeartbeatUs := o.producerHeartbeatUs
      changedUs :=
        if o.producerHeartbeatUs ≠ w.producerHeartbeatUs then some o.nowUs else w.changedUs } := by
  rw [next, Option.ite_none_right_eq_some, Option.some.injEq]
  exact and_congr_right fun _ => eq_comm

theorem Remembers.next (h : w.Remembers) (hnext : w.next o = some w') : w'.Remembers := by
  obtain ⟨hclock, rfl⟩ := next_eq_some.mp hnext
  refine ⟨DirectSubscriberStub.observe_lastProducerHeartbeatUs, ?_, ?_, ?_⟩
  · rw [DirectSubscriberStub.observe_lastHeartbeatChangeUs, h.last, h.change]
    split <;> rfl
  · intro hnone
    split at hnone
    case isTrue => cases hnone
    case isFalse hsame => exact (not_not.mp hsame).trans (h.unchanged hnone)
  · intro t ht
    split at ht
    case isTrue =>
      obtain rfl := Option.some.inj ht
      exact UInt64.le_refl _
    case isFalse => exact UInt64.le_trans (h.past t ht) hclock

/-- What an iteration reports, by what has been seen. -/
theorem Remembers.connectionState_eq (h : w.Remembers) (hnext : w.next o = some w') :
    w'.sub.connectionState =
      if o.producerHeartbeatUs = 0 then .connecting
      else if w.sub.staleLimitUs < o.nowUs - o.producerHeartbeatUs ∧
          w.sub.staleLimitUs < o.nowUs - (if w'.changedUs.getD 0 = 0 then o.producerHeartbeatUs
            else w'.changedUs.getD 0) then
        .stale
      else .connected := by
  rw [← (h.next hnext).change]
  obtain ⟨-, rfl⟩ := next_eq_some.mp hnext
  exact DirectSubscriberStub.observe_connectionState_eq

theorem Remembers.reportsRightly_iff (h : w.Remembers) :
    w.ReportsRightly o ↔ w.ClockTells o := by
  by_cases hclock : w.nowUs ≤ o.nowUs
  case neg =>
    refine iff_of_true (fun w' hnext => ?_) fun hle => absurd hle hclock
    exact absurd (next_eq_some.mp hnext).1 hclock
  obtain ⟨w', hnext⟩ : ∃ w', w.next o = some w' := ⟨_, if_pos hclock⟩
  have hstate := h.connectionState_eq hnext
  have hchanged : w'.changedUs =
      if o.producerHeartbeatUs ≠ w.producerHeartbeatUs then some o.nowUs else w.changedUs := by
    obtain ⟨-, rfl⟩ := next_eq_some.mp hnext
    rfl
  simp only [ReportsRightly, ClockTells, hnext, Option.some.injEq, forall_eq', hclock,
    forall_const]
  by_cases hzero : o.producerHeartbeatUs = 0
  · simp [hstate, hzero]
  by_cases hlimit : w.sub.staleLimitUs < o.nowUs - o.producerHeartbeatUs
  case neg => simp [hstate, hzero, hlimit]
  by_cases hnew : o.producerHeartbeatUs ≠ w.producerHeartbeatUs
  · -- a new heartbeat has been quiet for no time, unless the clock hides the change
    rw [if_pos hnew] at hchanged
    by_cases hnow : o.nowUs = 0
    · rw [hnow] at hlimit
      have hstale : w'.sub.connectionState = .stale := by
        rw [hstate, hchanged, hnow]
        exact (if_neg hzero).trans (if_pos ⟨hlimit, hlimit⟩)
      simpa [hstale, hzero, hnew, hnow] using hlimit
    · simp [hstate, hzero, hnew, hchanged, hnow]
  · rw [if_neg hnew] at hchanged
    cases ht : w.changedUs with
    | none => exact absurd ((not_not.mp hnew).trans (h.unchanged ht)) hzero
    | some t =>
      rw [ht] at hchanged
      have hover := @DirectSubscriberStub.timeout_lt_iff w.sub o.nowUs t
        (UInt64.le_trans (h.past t ht) hclock)
      have hstale : w'.sub.connectionState = .stale ↔
          t = 0 ∨ w.sub.staleLimitUs < o.nowUs - t := by
        rw [hstate, if_neg hzero, hchanged, Option.getD_some]
        by_cases hmark : t = 0
        · simp [hmark, hlimit]
        · simp [hmark, hlimit]
      simp only [hstale, hchanged, Option.mem_some_iff, exists_eq_left', forall_eq', hover, hnew]
      simp [hzero, hlimit]

/-- The loop reports rightly all along just if the clock can be told at every iteration. -/
theorem everyStep_reportsRightly_iff (sub : DirectSubscriberStub) (instanceId : UInt64)
    (observations : List Observation) :
    EveryStep next ReportsRightly (start sub instanceId) observations ↔
      EveryStep next ClockTells (start sub instanceId) observations :=
  everyStep_congr (P := Remembers) (fun _ _ _ h => h.reportsRightly_iff)
    (fun _ _ _ _ h _ hnext => h.next hnext) (remembers_start sub instanceId)

/-- A heartbeat that is ahead of a clock at zero: the first iteration takes it for stale. -/
theorem aheadAtZero_not_reportsRightly :
    ¬EveryStep next ReportsRightly (start { staleTimeoutMs := 1000 } 1) [⟨0, 5⟩] := by
  rintro ⟨hreports, -⟩
  have hconnected := (hreports _ rfl).2 (by decide) (by decide)
  revert hconnected
  decide

/-- The timeout fits, and no heartbeat was seen to change while the clock read zero. -/
structure KeepsMark (w : Watch) : Prop where
  fits : w.sub.staleTimeoutUs < UInt64.size
  mark : w.changedUs = some 0 → w.producerHeartbeatUs = 0

/-- With a timeout that fits, only a heartbeat that is new while the clock reads zero is taken for
something else. -/
theorem everyStep_clockTells {sub : DirectSubscriberStub} (instanceId : UInt64)
    (hfits : sub.staleTimeoutUs < UInt64.size) {observations : List Observation}
    (hclock : ∀ o ∈ observations, o.nowUs = 0 → o.producerHeartbeatUs = 0) :
    EveryStep next ClockTells (start sub instanceId) observations := by
  refine (everyStep_of_forall_mem hclock).imp (P := KeepsMark) ?_ ?_ ⟨hfits, fun _ => rfl⟩
  · intro w o hw ho _ hheartbeat _
    split
    case isTrue => exact fun hnow => hheartbeat (ho hnow)
    case isFalse hsame =>
      intro t ht
      refine ⟨fun hmark => ?_, fun hover => absurd hw.fits (by omega)⟩
      have hzero := hw.mark (ht.trans (congrArg some hmark))
      exact absurd ((not_not.mp hsame).trans hzero) hheartbeat
  · intro w o w' hw ho hnext
    obtain ⟨-, rfl⟩ := next_eq_some.mp hnext
    refine ⟨?_, fun hmark => ?_⟩
    · rw [DirectSubscriberStub.staleTimeoutUs, DirectSubscriberStub.observe_staleTimeoutMs]
      exact hw.fits
    · split at hmark
      case isTrue => exact ho (Option.some.inj hmark)
      case isFalse hsame => exact (not_not.mp hsame).trans (hw.mark hmark)

end Watch

end SmartDashboard.Direct
