import SmartDashboard.Library.Execution
import SmartDashboard.NativeLink.SlotClaims

/-!
# Owners of the slots

No access looks at the tag of the slot again, so what keeps the owners of the slots apart is that
nobody else frees a tagged slot. The eviction of a silent client does.

## Main definitions

- `OwnsSlots`: only the client whose tag a slot has accesses it, and the claimed slots are counted
- `KeepsOwners`: no tag is zero and nobody is evicted
-/

namespace SmartDashboard.NativeLink

open Execution

namespace SlotTable

variable {ι : Type} {s t : SlotTable ι} {c : ι} {i : Fin kMaxClients}

structure OwnersInv (s : SlotTable ι) : Prop where
  claims : s.ClaimsInv
  counts : s.CountsSlots

theorem OwnersInv.congr (h : s.OwnersInv) (hprocesses : t.processes = s.processes)
    (htags : ∀ i, (t.clients i).clientTag = (s.clients i).clientTag)
    (hcount : t.clientCount = s.clientCount) : t.OwnersInv :=
  ⟨h.claims.congr hprocesses htags, h.counts.congr hprocesses htags hcount⟩

theorem OwnersInv.init : SlotTable.OwnersInv ({} : SlotTable ι) where
  claims :=
    { tagged := fun _ _ h => by cases h
      drawn := fun _ h => absurd rfl h
      exclusive := fun _ _ _ h => by cases h }
  counts := ⟨∅, ∅, fun _ => by simp; rfl, fun _ => by simp; rfl, by simp [claimedSlots]⟩

variable [DecidableEq ι]

/-- The client's next step can be an access of the slot. -/
def Accesses (s : SlotTable ι) (c : ι) (i : Fin kMaxClients) : Prop :=
  (s.processes c).slotIndex = some i ∧ ∃ a, (s.next (.access c a)).isSome

/-- A slot is read, written and cleared by one client, whose tag it has, and the count of the slots
with a tag is kept. -/
structure OwnsSlots (s : SlotTable ι) : Prop where
  owner : ∀ c i, s.Accesses c i → (s.clients i).clientTag = (s.processes c).clientTag
  exclusive : ∀ c d i, s.Accesses c i → s.Accesses d i → c = d
  counted : s.CountsSlots
  settled : (∀ c, (s.processes c).pc.isStarting = false ∧ (s.processes c).pc.isStopping = false) →
    s.clientCount.toNat = s.claimedSlots.card

/-- A client gets a tag other than zero, and the server evicts nobody. -/
def KeepsOwners (s : SlotTable ι) : TableAction ι → Prop
  | .start _ clientTag => clientTag ≠ 0
  | .scan i nowUs => ¬ ((s.clients i).isClientSlotReady ∧ isSilent (s.clients i) nowUs)
  | _ => True

instance (s : SlotTable ι) : ∀ a, Decidable (s.KeepsOwners a)
  | .start _ _ => inferInstanceAs (Decidable (_ ≠ _))
  | .scan _ _ => inferInstanceAs (Decidable (¬ _))
  | .claim _ | .count _ | .access _ _ | .connect _ _ | .forget _ | .publish _ | .awaitAck _
  | .stop _ | .uncount _ | .completeSnapshot | .loadSequence | .copyMessage | .acknowledge
  | .append _ _ => .isTrue trivial

/-- A client moves within its `Start`, its run or its `Stop`. -/
theorem OwnersInv.setProcess (h : s.OwnersInv) {client : IpcClient}
    (hheld : ∀ i, client.heldSlot = some i → (s.processes c).heldSlot = some i ∧
      client.clientTag = (s.processes c).clientTag)
    (hdrawn : client.pc ≠ .stopped → client.clientTag ≠ 0)
    (hstarting : client.pc.isStarting = (s.processes c).pc.isStarting)
    (hstopping : client.pc.isStopping = (s.processes c).pc.isStopping) :
    (s.setProcess c client).OwnersInv :=
  ⟨h.claims.setProcess hheld hdrawn, h.counts.setProcess hstarting hstopping⟩

/-- An access of a client keeps the invariant. -/
theorem OwnersInv.access (h : s.OwnersInv) {a : SlotAccess}
    (hnext : s.next (.access c a) = some t) : t.OwnersInv := by
  simp only [SlotTable.next] at hnext
  split at hnext
  · next i hindex =>
    obtain ⟨⟨client, slot⟩, hstep, rfl⟩ := Option.map_eq_some_iff.mp hnext
    obtain ⟨hholds, htag, hclaim⟩ := IpcClient.step_claim hstep
    have hheld : (s.processes c).heldSlot = some i := by
      rw [IpcClient.heldSlot, if_pos hholds]
      exact hindex
    have hdrawn : (s.processes c).clientTag ≠ 0 := by
      apply h.claims.drawn c
      intro hstopped
      rw [hstopped] at hholds
      cases hholds
    obtain ⟨hold, hnew, hslot⟩ | ⟨hsame, hstarting, hstopping, hslot⟩ := hclaim
    · have hnone : client.heldSlot = none := by
        rw [IpcClient.heldSlot, hnew]
        rfl
      have hclaims := h.claims.freeSlot hheld hnone (fun _ => htag ▸ hdrawn) slot
      have hcounts : ((s.setProcess c client).setSlot i slot).CountsSlots := by
        apply h.counts.freeSlot _ _ _ _ hslot
        · rw [hold]
          rfl
        · rw [hnew]
          rfl
        · rw [hnew, hold]
          rfl
        · rw [h.claims.tagged c i hheld]
          exact hdrawn
      exact ⟨hclaims.congr rfl fun _ => rfl, hcounts.congr rfl (fun _ => rfl) rfl⟩
    · have hprocess : (s.setProcess c client).OwnersInv := by
        apply h.setProcess _ (fun _ => htag ▸ hdrawn) hstarting hstopping
        intro j hj
        rw [hsame, hindex] at hj
        exact ⟨hj ▸ hheld, htag⟩
      refine hprocess.congr rfl ?_ rfl
      exact clientTag_setSlot (s := s.setProcess c client) hslot
  · cases hnext

/-- A client tries to claim a slot. -/
theorem OwnersInv.claim (h : s.OwnersInv) (hnext : s.next (.claim c) = some t) : t.OwnersInv := by
  simp only [SlotTable.next] at hnext
  split at hnext
  · next n hpc =>
    have hdrawn : (s.processes c).clientTag ≠ 0 := h.claims.drawn c (by rw [hpc]; simp)
    split_ifs at hnext with hn hfree <;> obtain rfl := Option.some.inj hnext
    · refine ⟨h.claims.claimSlot hdrawn hfree, ?_⟩
      apply h.counts.claimSlot _ rfl _ hfree hdrawn
      · rw [hpc]
        rfl
      · rw [hpc]
        rfl
    · refine h.setProcess ?_ ?_ ?_ ?_
      · exact fun _ hheld => by cases hheld
      · exact fun _ => hdrawn
      · rw [hpc]
        rfl
      · rw [hpc]
        rfl
    · refine h.setProcess ?_ ?_ ?_ ?_
      · exact fun _ hheld => by cases hheld
      · exact absurd rfl
      · rw [hpc]
        rfl
      · rw [hpc]
        rfl
  · cases hnext

/-- A client that is running does something that is not about its slot. -/
theorem OwnersInv.moveProcess (h : s.OwnersInv) {client : IpcClient}
    (hpc : client.pc = (s.processes c).pc) (hindex : client.slotIndex = (s.processes c).slotIndex)
    (htag : client.clientTag = (s.processes c).clientTag) :
    (s.setProcess c client).OwnersInv := by
  refine h.setProcess ?_ ?_ ?_ ?_
  · intro i hheld
    rw [IpcClient.heldSlot, hpc, hindex] at hheld
    exact ⟨hheld, htag⟩
  · rw [hpc, htag]
    exact h.claims.drawn c
  · rw [hpc]
  · rw [hpc]

theorem OwnersInv.next (h : s.OwnersInv) {a : TableAction ι} (hkeeps : s.KeepsOwners a)
    (hnext : s.next a = some t) : t.OwnersInv := by
  cases a with
  | access c a => exact h.access hnext
  | claim c => exact h.claim hnext
  | start c clientTag =>
    simp only [SlotTable.next] at hnext
    split_ifs at hnext with hpc
    obtain rfl := Option.some.inj hnext
    refine h.setProcess ?_ ?_ ?_ ?_
    · exact fun _ hheld => by cases hheld
    · exact fun _ => hkeeps
    · rw [hpc]
      rfl
    · rw [hpc]
      rfl
  | count c =>
    simp only [SlotTable.next] at hnext
    split_ifs at hnext with hpc
    obtain rfl := Option.some.inj hnext
    have hclaims : (s.setProcess c { s.processes c with pc := .running }).ClaimsInv := by
      refine h.claims.setProcess ?_ ?_
      · intro i hheld
        rw [IpcClient.heldSlot, hpc]
        exact ⟨hheld, rfl⟩
      · exact fun _ => h.claims.drawn c (by rw [hpc]; simp)
    refine ⟨hclaims.congr rfl fun _ => rfl, h.counts.count ?_ rfl ?_⟩
    · rw [hpc]
      rfl
    · rw [hpc]
      rfl
  | connect c connected | forget c =>
    simp only [SlotTable.next] at hnext
    split_ifs at hnext
    obtain rfl := Option.some.inj hnext
    exact h.moveProcess rfl rfl rfl
  | publish c =>
    simp only [SlotTable.next] at hnext
    split at hnext
    · split_ifs at hnext
      obtain rfl := Option.some.inj hnext
      exact h.moveProcess rfl rfl rfl
    · cases hnext
  | awaitAck c =>
    simp only [SlotTable.next] at hnext
    split at hnext
    · split_ifs at hnext <;> obtain rfl := Option.some.inj hnext
      · exact h.moveProcess rfl rfl rfl
      · exact h.moveProcess rfl rfl rfl
    · cases hnext
  | stop c =>
    simp only [SlotTable.next] at hnext
    split_ifs at hnext with hguard
    obtain rfl := Option.some.inj hnext
    refine h.setProcess ?_ ?_ ?_ ?_
    · intro i hheld
      rw [IpcClient.heldSlot, hguard.1]
      exact ⟨hheld, rfl⟩
    · exact fun _ => h.claims.drawn c (by rw [hguard.1]; simp)
    · rw [hguard.1]
      rfl
    · rw [hguard.1]
      rfl
  | uncount c =>
    simp only [SlotTable.next] at hnext
    split_ifs at hnext with hpc
    obtain rfl := Option.some.inj hnext
    have hclaims : (s.setProcess c {}).ClaimsInv :=
      h.claims.setProcess (fun _ hheld => by cases hheld) (absurd rfl)
    refine ⟨hclaims.congr rfl fun _ => rfl, h.counts.uncount ?_ rfl ?_⟩
    · rw [hpc]
      rfl
    · rw [hpc]
      rfl
  | scan i nowUs =>
    simp only [SlotTable.next] at hnext
    split_ifs at hnext with hserver hready hsilent <;> obtain rfl := Option.some.inj hnext
    · exact absurd ⟨hready, hsilent⟩ hkeeps
    · exact h.congr rfl (fun _ => rfl) rfl
    · exact h
  | completeSnapshot =>
    simp only [SlotTable.next] at hnext
    split at hnext
    · next i hserver =>
      obtain rfl := Option.some.inj hnext
      exact h.congr rfl (clientTag_setSlot rfl) rfl
    · cases hnext
  | loadSequence =>
    simp only [SlotTable.next] at hnext
    split at hnext
    · split_ifs at hnext <;> obtain rfl := Option.some.inj hnext
      · exact h.congr rfl (fun _ => rfl) rfl
      · exact h.congr rfl (fun _ => rfl) rfl
    · cases hnext
  | copyMessage =>
    simp only [SlotTable.next] at hnext
    split at hnext
    · obtain rfl := Option.some.inj hnext
      exact h.congr rfl (fun _ => rfl) rfl
    · cases hnext
  | acknowledge =>
    simp only [SlotTable.next] at hnext
    split at hnext
    · next i n hserver =>
      obtain rfl := Option.some.inj hnext
      exact h.congr rfl (clientTag_setSlot rfl) rfl
    · cases hnext
  | append i message =>
    simp only [SlotTable.next] at hnext
    split_ifs at hnext
    obtain rfl := Option.some.inj hnext
    exact h.congr rfl (clientTag_setSlot rfl) rfl

theorem OwnersInv.ownsSlots (h : s.OwnersInv) : s.OwnsSlots := by
  have hholds : ∀ {c i}, s.Accesses c i → (s.processes c).heldSlot = some i := by
    rintro c i ⟨hindex, a, ha⟩
    simp only [SlotTable.next, hindex, Option.isSome_map] at ha
    obtain ⟨⟨client, slot⟩, hstep⟩ := Option.isSome_iff_exists.mp ha
    rw [IpcClient.heldSlot, if_pos (IpcClient.step_claim hstep).1, hindex]
  refine ⟨?_, ?_, h.counts, ?_⟩
  · exact fun c i hc => h.claims.tagged c i (hholds hc)
  · exact fun c d i hc hd => h.claims.exclusive c d i (hholds hc) (hholds hd)
  · intro hsettled
    obtain ⟨starting, stopping, hstart, hstop, hcount⟩ := h.counts
    obtain rfl : starting = ∅ := by
      apply Finset.eq_empty_of_forall_notMem
      intro c hc
      rw [hstart, (hsettled c).1] at hc
      cases hc
    obtain rfl : stopping = ∅ := by
      apply Finset.eq_empty_of_forall_notMem
      intro c hc
      rw [hstop, (hsettled c).2] at hc
      cases hc
    have hle : s.claimedSlots.card ≤ kMaxClients := by
      simpa using Finset.card_le_univ s.claimedSlots
    have hcount : s.clientCount = UInt32.ofNat s.claimedSlots.card := by
      simpa using hcount
    rw [hcount, UInt32.toNat_ofNat_of_lt']
    exact Nat.lt_of_le_of_lt hle (by decide)

end SlotTable

end SmartDashboard.NativeLink
