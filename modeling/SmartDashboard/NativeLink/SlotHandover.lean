import SmartDashboard.Library.Execution
import SmartDashboard.NativeLink.SlotWrites

/-!
# Writes are handed over once

The steps of clients and server together: as long as none of them gets in the way of a write, every
write that a client stored and numbered is handed over, once and in order.

## Main definitions

- `HandlesOnce`: what was handed over, and what the next scan hands over
-/

namespace SmartDashboard.NativeLink

open Execution

namespace SlotTable

variable {ι : Type} [DecidableEq ι]

/-- What was handed over is the beginning of what was published, message by message, and the next
scan hands over the rest, unless the client was silent. -/
structure HandlesOnce (s : SlotTable ι) : Prop where
  handled : ∀ i, s.handled i <+: s.published i
  complete : ∀ i nowUs, s.server = .idle → (s.clients i).lastHeartbeatUs ≠ 0 →
    isSilent (s.clients i) nowUs = false →
    ∃ t, run next s (s.scanOnce i nowUs) = some t ∧ t.handled i = s.published i

section Runs

variable {s t : SlotTable ι} {c : ι} {a : SlotAccess}

/-- An access of a client keeps the invariant. -/
theorem WritesInv.access (h : s.WritesInv) (hkeeps : s.KeepsWrites (.access c a))
    (hnext : s.next (.access c a) = some t) : t.WritesInv := by
  simp only [SlotTable.next] at hnext
  split at hnext
  · next i hindex =>
    have hkeeps := hkeeps i hindex
    obtain ⟨⟨client, slot⟩, hstep, rfl⟩ := Option.map_eq_some_iff.mp hnext
    cases a with
    | fill clientId nowUs =>
      simp only [IpcClient.step] at hstep
      split_ifs at hstep with hpc
      obtain ⟨rfl, rfl⟩ := Prod.mk.inj (Option.some.inj hstep)
      have hidle : (s.processes c).publisher = .idle := h.publisher c (by rw [hpc]; simp)
      simp only [publishes, appendPublished_nil]
      refine (h.setIdle ?_).clearSlot (hkeeps.setIdle ?_) ?_
      · exact hidle
      · exact hidle
      · rfl
    | storeMessage message =>
      simp only [IpcClient.step] at hstep
      split_ifs at hstep with hpc
      obtain ⟨rfl, rfl⟩ := Prod.mk.inj (Option.some.inj hstep)
      simp only [publishes, appendPublished_nil]
      exact h.storeMessage hkeeps hindex hpc.1 message
    | storeSequence nowUs =>
      simp only [IpcClient.step] at hstep
      split at hstep
      · next message hpc hpublisher =>
        obtain ⟨rfl, rfl⟩ := Prod.mk.inj (Option.some.inj hstep)
        simp only [publishes, hpublisher]
        exact h.storeSequence ⟨hindex, hpublisher⟩ rfl rfl hkeeps.2 hkeeps.1
      · cases hstep
    | reset =>
      simp only [IpcClient.step] at hstep
      split_ifs at hstep with hpc
      obtain ⟨rfl, rfl⟩ := Prod.mk.inj (Option.some.inj hstep)
      have hidle : (s.processes c).publisher = .idle := h.publisher c (by rw [hpc]; simp)
      simp only [publishes, appendPublished_nil]
      refine (h.setIdle ?_).clearSlot (hkeeps.setIdle ?_) ?_
      · exact hidle
      · exact hidle
      · rfl
    | release =>
      simp only [IpcClient.step] at hstep
      split_ifs at hstep with hpc
      obtain ⟨rfl, rfl⟩ := Prod.mk.inj (Option.some.inj hstep)
      have hidle : (s.processes c).publisher = .idle := h.publisher c (by rw [hpc]; simp)
      simp only [publishes, appendPublished_nil]
      refine (h.setIdle ?_).setSlot rfl rfl ?_
      · exact hidle
      · exact fun hunprocessed => absurd hunprocessed hkeeps
    | loadReadIndex | loadWriteIndex | processMessage | storeReadIndex | beat _ =>
      obtain ⟨hslot, hpublisher, hpc, hsequence, hmessage, hfilled⟩ :=
        step_of_not_changesWrite hstep rfl
      simp only [publishes, appendPublished_nil]
      refine WritesInv.setSlot (h.setProcess ?_ ?_) hsequence hmessage fun _ => hfilled
      · exact fun message hm => ⟨hslot, hpublisher ▸ hm⟩
      · exact fun hrunning => hpublisher ▸ h.publisher c (hpc hrunning)
  · cases hnext

/-- A client tries to claim a slot. -/
theorem WritesInv.claim (h : s.WritesInv) (hnext : s.next (.claim c) = some t) : t.WritesInv := by
  simp only [SlotTable.next] at hnext
  split at hnext
  · next i hpc =>
    have hidle : (s.processes c).publisher = .idle := h.publisher c (by rw [hpc]; simp)
    split_ifs at hnext with hi hfree <;> obtain rfl := Option.some.inj hnext
    · refine (h.setIdle ?_).setSlot rfl rfl ?_
      · exact hidle
      · exact fun _ hfilled => absurd hfree hfilled.1
    · exact h.setIdle hidle
    · exact h.setIdle hidle
  · cases hnext

/-- The server looks at a slot. -/
theorem WritesInv.scan (h : s.WritesInv) {i : Fin kMaxClients} {nowUs : UInt64}
    (hkeeps : s.KeepsWrites (.scan i nowUs)) (hnext : s.next (.scan i nowUs) = some t) :
    t.WritesInv := by
  simp only [SlotTable.next] at hnext
  split_ifs at hnext with hserver hready hsilent <;> obtain rfl := Option.some.inj hnext
  · exact h.clearSlot (hkeeps hready hsilent) rfl
  · exact h.moveServer (by rw [hserver]; rfl) rfl
  · exact h

theorem WritesInv.next (h : s.WritesInv) {a : TableAction ι} (hkeeps : s.KeepsWrites a)
    (hnext : s.next a = some t) : t.WritesInv := by
  cases a with
  | access c a => exact h.access hkeeps hnext
  | claim c => exact h.claim hnext
  | scan i nowUs => exact h.scan hkeeps hnext
  | start c clientTag =>
    simp only [SlotTable.next] at hnext
    split_ifs at hnext
    obtain rfl := Option.some.inj hnext
    exact h.setIdle rfl
  | count c =>
    simp only [SlotTable.next] at hnext
    split_ifs at hnext with hpc
    obtain rfl := Option.some.inj hnext
    refine (h.setIdle ?_).setClientCount _
    exact h.publisher c (by rw [hpc]; simp)
  | connect c connected | forget c =>
    simp only [SlotTable.next] at hnext
    split_ifs at hnext
    obtain rfl := Option.some.inj hnext
    exact h.setProcess (fun _ hmessage => ⟨rfl, hmessage⟩) (h.publisher c)
  | publish c =>
    simp only [SlotTable.next] at hnext
    split at hnext
    · split_ifs at hnext with hguard
      obtain rfl := Option.some.inj hnext
      exact h.setProcess (fun _ hmessage => by cases hmessage)
        fun hpc => absurd hguard.1 hpc
    · cases hnext
  | awaitAck c =>
    simp only [SlotTable.next] at hnext
    split at hnext
    · split_ifs at hnext with hguard <;> obtain rfl := Option.some.inj hnext
      · exact h.setProcess (fun _ hmessage => by cases hmessage)
          fun hpc => absurd hguard.1 hpc
      · exact h.setIdle rfl
    · cases hnext
  | stop c =>
    simp only [SlotTable.next] at hnext
    split_ifs at hnext with hguard
    obtain rfl := Option.some.inj hnext
    exact h.setIdle hguard.2.2
  | uncount c =>
    simp only [SlotTable.next] at hnext
    split_ifs at hnext
    obtain rfl := Option.some.inj hnext
    exact (h.setIdle rfl).setClientCount _
  | completeSnapshot =>
    simp only [SlotTable.next] at hnext
    split at hnext
    · next i hserver =>
      obtain rfl := Option.some.inj hnext
      refine WritesInv.moveServer (s := s.setSlot i _) (h.setSlot ?_ ?_ ?_) ?_ ?_
      · rfl
      · rfl
      · exact fun _ => id
      · exact congrArg ServerPc.isBetweenWrites hserver
      · rfl
    · cases hnext
  | loadSequence =>
    simp only [SlotTable.next] at hnext
    split at hnext
    · next i hserver =>
      split_ifs at hnext with hpending <;> obtain rfl := Option.some.inj hnext
      · refine h.loadSequence hserver ?_
        rw [Unprocessed, processedSequence_of_isBetweenWrites (by rw [hserver]; rfl)]
        exact hpending
      · exact h.moveServer (by rw [hserver]; rfl) rfl
    · cases hnext
  | copyMessage =>
    simp only [SlotTable.next] at hnext
    split at hnext
    · next i n hserver =>
      obtain rfl := Option.some.inj hnext
      exact h.copyMessage hserver
    · cases hnext
  | acknowledge =>
    simp only [SlotTable.next] at hnext
    split at hnext
    · next i n hserver =>
      obtain rfl := Option.some.inj hnext
      refine WritesInv.acknowledge (s := s.setSlot i _) (h.setSlot ?_ ?_ ?_) hserver
      · rfl
      · rfl
      · exact fun _ => id
    · cases hnext
  | append i message =>
    simp only [SlotTable.next] at hnext
    split_ifs at hnext
    obtain rfl := Option.some.inj hnext
    exact h.setSlot rfl rfl fun _ => id

/-- The end of a scan that nobody interrupts. -/
theorem run_loadSequence {i : Fin kMaxClients} (hserver : s.server = .loadSequence i) :
    ∃ t, run SlotTable.next s
        (.loadSequence :: if s.Unprocessed i then [.copyMessage, .acknowledge] else []) = some t ∧
      t.handled i = s.handled i ++ s.pendingWrites i := by
  have hprocessed : s.processedSequence i = s.lastProcessedClientWriteSequence i :=
    processedSequence_of_isBetweenWrites (by rw [hserver]; rfl)
  rw [pendingWrites]
  split_ifs with hpending <;> rw [Unprocessed, hprocessed] at hpending
  · have hload : s.next .loadSequence =
        some { s with server := .copyMessage i (s.clients i).clientWriteSequence } := by
      simp only [SlotTable.next, hserver, if_pos hpending]
    refine ⟨_, run_cons_eq_some.mpr ⟨_, hload, rfl⟩, ?_⟩
    exact Function.update_self ..
  · have hload : s.next .loadSequence = some { s with server := .idle } := by
      simp only [SlotTable.next, hserver, if_neg hpending]
    exact ⟨_, run_cons_eq_some.mpr ⟨_, hload, rfl⟩, (List.append_nil _).symm⟩

/-- A scan that nobody interrupts hands over the write of the slot. -/
theorem WritesInv.run_scanOnce (h : s.WritesInv) {i : Fin kMaxClients} {nowUs : UInt64}
    (hserver : s.server = .idle) (hheartbeat : (s.clients i).lastHeartbeatUs ≠ 0)
    (hsilent : isSilent (s.clients i) nowUs = false) :
    ∃ t, run SlotTable.next s (s.scanOnce i nowUs) = some t ∧
      t.handled i = s.handled i ++ s.pendingWrites i := by
  rw [scanOnce]
  by_cases hready : (s.clients i).isClientSlotReady
  · rw [if_pos hready]
    have hscan : s.next (.scan i nowUs) = some { s with server := .completeSnapshot i } := by
      simp only [SlotTable.next, if_pos hserver, if_pos hready, hsilent, Bool.false_eq_true,
        if_false]
    -- the mark of the snapshot does not change the write
    let u : SlotTable ι :=
      { s.setSlot i { s.clients i with snapshotCompleteSessionId := s.serverSessionId } with
        server := .loadSequence i }
    have hsequence : (u.clients i).clientWriteSequence = (s.clients i).clientWriteSequence := by
      simp only [u, SlotTable.setSlot, Function.update_self]
    have hmessage : (u.clients i).clientWriteMessage = (s.clients i).clientWriteMessage := by
      simp only [u, SlotTable.setSlot, Function.update_self]
    have hunprocessed : u.Unprocessed i ↔ s.Unprocessed i := by
      rw [Unprocessed, Unprocessed, hsequence, processedSequence, processedSequence, hserver]
      rfl
    have hpending : u.pendingWrites i = s.pendingWrites i := by
      rw [pendingWrites, pendingWrites, hmessage]
      exact if_congr hunprocessed rfl rfl
    obtain ⟨t, hrun, hhandled⟩ := run_loadSequence (s := u) (i := i) rfl
    refine ⟨t, run_cons_eq_some.mpr ⟨_, hscan, run_cons_eq_some.mpr ⟨u, rfl, ?_⟩⟩, ?_⟩
    · simpa only [hunprocessed] using hrun
    · rw [hhandled, hpending]
      rfl
  · rw [if_neg hready]
    have hscan : s.next (.scan i nowUs) = some s := by
      simp only [SlotTable.next, if_pos hserver, if_neg hready]
    have hnone : ¬ s.Unprocessed i := by
      intro hpending
      exact hready (((h.slots i).filledIn hpending).isClientSlotReady hheartbeat)
    refine ⟨s, run_cons_eq_some.mpr ⟨s, hscan, rfl⟩, ?_⟩
    rw [pendingWrites, if_neg hnone, List.append_nil]

theorem WritesInv.handlesOnce (h : s.WritesInv) : s.HandlesOnce where
  handled i := ⟨s.pendingWrites i, (h.slots i).log.symm⟩
  complete i nowUs hserver hheartbeat hsilent := by
    rw [(h.slots i).log]
    exact h.run_scanOnce hserver hheartbeat hsilent

/-- In every run in which no step gets in the way of a write, the writes of a slot are handed over
once, in the order in which they were published and with their own messages. -/
theorem handlesOnce_of_keepsWrites {as : List (TableAction ι)}
    (hkeeps : EveryStep SlotTable.next KeepsWrites ({} : SlotTable ι) as)
    (hrun : run SlotTable.next ({} : SlotTable ι) as = some t) : t.HandlesOnce :=
  (run_induction_of_everyStep (P := WritesInv) (fun _ _ _ h hcond hnext => h.next hcond hnext)
    WritesInv.init hkeeps hrun).handlesOnce

end Runs

section Example

def scanWithWrite (i : Fin kMaxClients) (nowUs : UInt64) : List (TableAction ι) :=
  [.scan i nowUs, .completeSnapshot, .loadSequence, .copyMessage, .acknowledge]

theorem handlesOnce_oneWrite : ∃ t, run SlotTable.next ({} : SlotTable Unit)
    (starts () 1 1 ++ publishesOnce () {} 1 ++ scanWithWrite firstSlot 1 ++ stops ()) = some t ∧
      t.HandlesOnce :=
  have hkeeps : EveryStep SlotTable.next KeepsWrites ({} : SlotTable Unit)
      (starts () 1 1 ++ publishesOnce () {} 1 ++ scanWithWrite firstSlot 1 ++ stops ()) := by
    decide
  ⟨_, rfl, handlesOnce_of_keepsWrites hkeeps rfl⟩

/-- The first write of the second client of a slot has the number of the first client's write, and
is never handed over. -/
theorem second_client_write_is_lost : ¬ ∀ (as : List (TableAction Unit)) (t : SlotTable Unit),
    run SlotTable.next ({} : SlotTable Unit) as = some t → t.HandlesOnce := by
  intro hall
  have hlost := hall (starts () 1 1 ++ publishesOnce () {} 1 ++ scanWithWrite firstSlot 1 ++
    stops () ++ starts () 2 1 ++ publishesOnce () { topicId := 1 } 1) _ rfl
  obtain ⟨t, hrun, hhandled⟩ := hlost.complete firstSlot 1 rfl (by decide) rfl
  have ht : t.handled firstSlot = [{}] := by
    rw [← Option.some.inj hrun]
    rfl
  exact absurd (congrArg List.length (ht.symm.trans hhandled)) (by decide)

end Example

end SlotTable

end SmartDashboard.NativeLink
