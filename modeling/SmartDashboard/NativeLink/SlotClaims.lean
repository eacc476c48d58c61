import Mathlib.Data.Fintype.Card
import SmartDashboard.NativeLink.SlotTable

/-!
# Claims of slots

A client holds the slot that its compare-and-exchange has tagged, until `Stop` frees it. What a
claim, a count and a release do to the tags, to who holds what and to `clientCount`.

## Main definitions

- `IpcClient.heldSlot`: the slot a client has claimed
- `ClaimsInv`: a slot that is held has the tag of the one client that holds it
- `CountsSlots`: `clientCount` counts the slots with a tag
-/

namespace SmartDashboard.NativeLink

/-- From the claim of a slot until `Stop` has freed it. -/
def IpcClientPc.holdsSlot : IpcClientPc → Bool
  | .filling | .counting | .running | .resetting | .releasing => true
  | .stopped | .claiming _ | .uncounting => false

/-- The client has claimed its slot and is not counted. -/
def IpcClientPc.isStarting : IpcClientPc → Bool
  | .filling | .counting => true
  | _ => false

/-- The client has freed its slot and is still counted. -/
def IpcClientPc.isStopping : IpcClientPc → Bool
  | .uncounting => true
  | _ => false

namespace IpcClient

/-- The slot the client has claimed. -/
def heldSlot (client : IpcClient) : Option (Fin kMaxClients) :=
  if client.pc.holdsSlot then client.slotIndex else none

/-- What an access does to the claim of its client: it frees the slot, or leaves the claim alone. -/
theorem step_claim {client client' : IpcClient} {slot slot' : SharedClientSlot} {a : SlotAccess}
    (hstep : client.step slot a = some (client', slot')) :
    client.pc.holdsSlot ∧ client'.clientTag = client.clientTag ∧
      ((client.pc = .releasing ∧ client'.pc = .uncounting ∧ slot'.clientTag = 0) ∨
        (client'.heldSlot = client.slotIndex ∧ client'.pc.isStarting = client.pc.isStarting ∧
          client'.pc.isStopping = client.pc.isStopping ∧ slot'.clientTag = slot.clientTag)) := by
  cases a with
  | fill _ _ | reset =>
    simp only [step] at hstep
    split_ifs at hstep with hpc
    obtain ⟨rfl, rfl⟩ := Prod.mk.inj (Option.some.inj hstep)
    rw [hpc]
    exact ⟨rfl, rfl, .inr ⟨rfl, rfl, rfl, rfl⟩⟩
  | loadReadIndex | beat _ | storeMessage _ =>
    simp only [step] at hstep
    split_ifs at hstep with hguard
    obtain ⟨rfl, rfl⟩ := Prod.mk.inj (Option.some.inj hstep)
    have hholds : client.pc.holdsSlot := by rw [hguard.1]; rfl
    exact ⟨hholds, rfl, .inr ⟨if_pos hholds, rfl, rfl, rfl⟩⟩
  | loadWriteIndex | storeSequence _ =>
    simp only [step] at hstep
    split at hstep
    · next hpc _ =>
      obtain ⟨rfl, rfl⟩ := Prod.mk.inj (Option.some.inj hstep)
      have hholds : client.pc.holdsSlot := by rw [hpc]; rfl
      exact ⟨hholds, rfl, .inr ⟨if_pos hholds, rfl, rfl, rfl⟩⟩
    · cases hstep
  | processMessage | storeReadIndex =>
    simp only [step] at hstep
    split at hstep
    · next hpc _ =>
      split_ifs at hstep
      obtain ⟨rfl, rfl⟩ := Prod.mk.inj (Option.some.inj hstep)
      have hholds : client.pc.holdsSlot := by rw [hpc]; rfl
      exact ⟨hholds, rfl, .inr ⟨if_pos hholds, rfl, rfl, rfl⟩⟩
    · cases hstep
  | release =>
    simp only [step] at hstep
    split_ifs at hstep with hpc
    obtain ⟨rfl, rfl⟩ := Prod.mk.inj (Option.some.inj hstep)
    rw [hpc]
    exact ⟨rfl, rfl, .inl ⟨rfl, rfl, rfl⟩⟩

end IpcClient

namespace SlotTable

variable {ι : Type}

/-- The slots with a tag. -/
def claimedSlots (s : SlotTable ι) : Finset (Fin kMaxClients) :=
  Finset.univ.filter fun i => (s.clients i).clientTag ≠ 0

/-- `clientCount` is the number of the slots with a tag, up to the clients that have claimed a slot
and not counted themselves, and those that have freed theirs and are still counted. -/
def CountsSlots (s : SlotTable ι) : Prop :=
  ∃ starting stopping : Finset ι,
    (∀ c, c ∈ starting ↔ (s.processes c).pc.isStarting) ∧
    (∀ c, c ∈ stopping ↔ (s.processes c).pc.isStopping) ∧
    s.clientCount + UInt32.ofNat starting.card =
      UInt32.ofNat (s.claimedSlots.card + stopping.card)

/-- A slot that a client holds has its tag, and no slot is held twice. -/
structure ClaimsInv (s : SlotTable ι) : Prop where
  tagged : ∀ c i, (s.processes c).heldSlot = some i →
    (s.clients i).clientTag = (s.processes c).clientTag
  drawn : ∀ c, (s.processes c).pc ≠ .stopped → (s.processes c).clientTag ≠ 0
  exclusive : ∀ c d i, (s.processes c).heldSlot = some i → (s.processes d).heldSlot = some i → c = d

variable {s t : SlotTable ι} {c : ι} {i : Fin kMaxClients}

/-! ### Slots -/

theorem ClaimsInv.congr (h : s.ClaimsInv) (hprocesses : t.processes = s.processes)
    (htags : ∀ i, (t.clients i).clientTag = (s.clients i).clientTag) : t.ClaimsInv := by
  refine ⟨?_, ?_, ?_⟩
  · intro c i hheld
    rw [htags, hprocesses]
    exact h.tagged c i (hprocesses ▸ hheld)
  · rw [hprocesses]
    exact h.drawn
  · rw [hprocesses]
    exact h.exclusive

theorem clientTag_setSlot {slot : SharedClientSlot}
    (htag : slot.clientTag = (s.clients i).clientTag) (j : Fin kMaxClients) :
    ((s.setSlot i slot).clients j).clientTag = (s.clients j).clientTag := by
  simp only [SlotTable.setSlot, Function.update_apply]
  split_ifs with hj
  · rw [hj]
    exact htag
  · rfl

theorem ClaimsInv.heldSlot_ne (h : s.ClaimsInv) (hfree : (s.clients i).clientTag = 0) (d : ι) :
    (s.processes d).heldSlot ≠ some i := by
  intro hheld
  apply h.drawn d
  · intro hstopped
    rw [IpcClient.heldSlot, hstopped] at hheld
    cases hheld
  · rw [← h.tagged d i hheld, hfree]

/-- A slot that nobody holds changes. -/
theorem ClaimsInv.setSlot_of_not_held (h : s.ClaimsInv)
    (hfree : ∀ d, (s.processes d).heldSlot ≠ some i) (slot : SharedClientSlot) :
    (s.setSlot i slot).ClaimsInv := by
  refine ⟨?_, h.drawn, h.exclusive⟩
  intro d j hd
  have hj : j ≠ i := by
    rintro rfl
    exact hfree d hd
  simp only [SlotTable.setSlot, Function.update_of_ne hj]
  exact h.tagged d j hd

theorem claimedSlots_congr (htags : ∀ i, (t.clients i).clientTag = (s.clients i).clientTag) :
    t.claimedSlots = s.claimedSlots := by
  apply Finset.filter_congr
  intro i _
  rw [htags]

theorem claimedSlots_claim {slot : SharedClientSlot} (hfree : (s.clients i).clientTag = 0)
    (htag : slot.clientTag ≠ 0) :
    (s.setSlot i slot).claimedSlots.card = s.claimedSlots.card + 1 := by
  have hnew : (s.setSlot i slot).claimedSlots = insert i s.claimedSlots := by
    ext j
    simp only [claimedSlots, SlotTable.setSlot, Function.update_apply, Finset.mem_insert,
      Finset.mem_filter, Finset.mem_univ, true_and]
    split_ifs with hj
    · simp [hj, htag]
    · simp [hj]
  rw [hnew, Finset.card_insert_of_notMem]
  simp [claimedSlots, hfree]

theorem claimedSlots_release {slot : SharedClientSlot} (hclaimed : (s.clients i).clientTag ≠ 0)
    (htag : slot.clientTag = 0) :
    s.claimedSlots.card = (s.setSlot i slot).claimedSlots.card + 1 := by
  have hnew : (s.setSlot i slot).claimedSlots = s.claimedSlots.erase i := by
    ext j
    simp only [claimedSlots, SlotTable.setSlot, Function.update_apply, Finset.mem_erase,
      Finset.mem_filter, Finset.mem_univ, true_and]
    split_ifs with hj
    · simp [hj, htag]
    · simp [hj]
  rw [hnew, Finset.card_erase_add_one]
  simp [claimedSlots, hclaimed]

theorem CountsSlots.congr (h : s.CountsSlots) (hprocesses : t.processes = s.processes)
    (htags : ∀ i, (t.clients i).clientTag = (s.clients i).clientTag)
    (hcount : t.clientCount = s.clientCount) : t.CountsSlots := by
  rw [CountsSlots, hprocesses, hcount, claimedSlots_congr htags]
  exact h

variable [DecidableEq ι]

/-! ### Claims -/

/-- A client moves and keeps its claim. -/
theorem ClaimsInv.setProcess (h : s.ClaimsInv) {client : IpcClient}
    (hheld : ∀ i, client.heldSlot = some i → (s.processes c).heldSlot = some i ∧
      client.clientTag = (s.processes c).clientTag)
    (hdrawn : client.pc ≠ .stopped → client.clientTag ≠ 0) : (s.setProcess c client).ClaimsInv := by
  have hold : ∀ d i, ((s.setProcess c client).processes d).heldSlot = some i →
      (s.processes d).heldSlot = some i ∧
        ((s.setProcess c client).processes d).clientTag = (s.processes d).clientTag := by
    intro d i hd
    simp only [SlotTable.setProcess, Function.update_apply] at hd ⊢
    split_ifs at hd ⊢ with hdc
    · rw [hdc]
      exact hheld i hd
    · exact ⟨hd, rfl⟩
  refine ⟨?_, ?_, ?_⟩
  · intro d i hd
    obtain ⟨hold, htag⟩ := hold d i hd
    rw [htag]
    exact h.tagged d i hold
  · intro d hd
    simp only [SlotTable.setProcess, Function.update_apply] at hd ⊢
    split_ifs at hd ⊢
    · exact hdrawn hd
    · exact h.drawn d hd
  · intro d e i hd he
    exact h.exclusive d e i (hold d i hd).1 (hold e i he).1

/-- A client claims a slot that has no tag. -/
theorem ClaimsInv.claimSlot (h : s.ClaimsInv) (hdrawn : (s.processes c).clientTag ≠ 0)
    (hfree : (s.clients i).clientTag = 0) :
    ((s.setProcess c { s.processes c with pc := .filling, slotIndex := some i }).setSlot i
      { s.clients i with clientTag := (s.processes c).clientTag }).ClaimsInv := by
  have hheld : ∀ d j, ((s.setProcess c
        { s.processes c with pc := .filling, slotIndex := some i }).processes d).heldSlot = some j →
      (d = c ∧ j = i) ∨ (d ≠ c ∧ j ≠ i ∧ (s.processes d).heldSlot = some j) := by
    intro d j hd
    simp only [SlotTable.setProcess, Function.update_apply] at hd
    split_ifs at hd with hdc
    · exact .inl ⟨hdc, (Option.some.inj hd).symm⟩
    · refine .inr ⟨hdc, ?_, hd⟩
      rintro rfl
      exact h.heldSlot_ne hfree d hd
  refine ⟨?_, ?_, ?_⟩
  · intro d j hd
    simp only [SlotTable.setSlot, SlotTable.setProcess, Function.update_apply]
    obtain ⟨rfl, rfl⟩ | ⟨hdc, hj, hold⟩ := hheld d j hd
    · rw [if_pos rfl, if_pos rfl]
    · rw [if_neg hj, if_neg hdc]
      exact h.tagged d j hold
  · intro d hd
    simp only [SlotTable.setSlot, SlotTable.setProcess, Function.update_apply] at hd ⊢
    split_ifs at hd ⊢
    · exact hdrawn
    · exact h.drawn d hd
  · intro d e j hd he
    obtain ⟨rfl, rfl⟩ | ⟨-, hj, hold⟩ := hheld d j hd
    · obtain ⟨rfl, -⟩ | ⟨-, hj, -⟩ := hheld e j he
      · rfl
      · exact absurd rfl hj
    · obtain ⟨-, rfl⟩ | ⟨-, -, hold'⟩ := hheld e j he
      · exact absurd rfl hj
      · exact h.exclusive d e j hold hold'

/-- A client frees its slot. -/
theorem ClaimsInv.freeSlot (h : s.ClaimsInv) (hheld : (s.processes c).heldSlot = some i)
    {client : IpcClient} (hnone : client.heldSlot = none)
    (hdrawn : client.pc ≠ .stopped → client.clientTag ≠ 0) (slot : SharedClientSlot) :
    ((s.setProcess c client).setSlot i slot).ClaimsInv := by
  have hprocess : (s.setProcess c client).ClaimsInv :=
    h.setProcess (fun j hj => by cases hnone.symm.trans hj) hdrawn
  apply hprocess.setSlot_of_not_held
  intro d hd
  simp only [SlotTable.setProcess, Function.update_apply] at hd
  split_ifs at hd with hdc
  · cases hnone.symm.trans hd
  · exact hdc (h.exclusive d c i hd hheld)

/-! ### Counts -/

section Mem

variable {p : IpcClientPc → Bool} {clients : Finset ι} {client : IpcClient}

/-- The clients that are starting, or stopping, after a client has moved. -/
theorem mem_setProcess (hclients : ∀ d, d ∈ clients ↔ p (s.processes d).pc)
    (hsame : p client.pc = p (s.processes c).pc) (d : ι) :
    d ∈ clients ↔ p ((s.setProcess c client).processes d).pc := by
  rw [hclients]
  simp only [SlotTable.setProcess, Function.update_apply]
  split_ifs with hd
  · rw [hd, hsame]
  · rfl

theorem mem_setProcess_insert (hclients : ∀ d, d ∈ clients ↔ p (s.processes d).pc)
    (hnew : p client.pc) (d : ι) :
    d ∈ insert c clients ↔ p ((s.setProcess c client).processes d).pc := by
  rw [Finset.mem_insert, hclients]
  simp only [SlotTable.setProcess, Function.update_apply]
  split_ifs with hd <;> simp [hd, hnew]

theorem mem_setProcess_erase (hclients : ∀ d, d ∈ clients ↔ p (s.processes d).pc)
    (hnew : p client.pc = false) (d : ι) :
    d ∈ clients.erase c ↔ p ((s.setProcess c client).processes d).pc := by
  rw [Finset.mem_erase, hclients]
  simp only [SlotTable.setProcess, Function.update_apply]
  split_ifs with hd <;> simp [hd, hnew]

end Mem

/-- A client moves within its `Start`, its run or its `Stop`. -/
theorem CountsSlots.setProcess (h : s.CountsSlots) {client : IpcClient}
    (hstarting : client.pc.isStarting = (s.processes c).pc.isStarting)
    (hstopping : client.pc.isStopping = (s.processes c).pc.isStopping) :
    (s.setProcess c client).CountsSlots := by
  obtain ⟨starting, stopping, hstart, hstop, hcount⟩ := h
  exact ⟨starting, stopping, mem_setProcess hstart hstarting, mem_setProcess hstop hstopping,
    hcount⟩

theorem CountsSlots.claimSlot (h : s.CountsSlots) {client : IpcClient}
    (hold : (s.processes c).pc.isStarting = false) (hnew : client.pc.isStarting)
    (hstopping : client.pc.isStopping = (s.processes c).pc.isStopping)
    (hfree : (s.clients i).clientTag = 0) {slot : SharedClientSlot} (htag : slot.clientTag ≠ 0) :
    ((s.setProcess c client).setSlot i slot).CountsSlots := by
  obtain ⟨starting, stopping, hstart, hstop, hcount⟩ := h
  refine ⟨insert c starting, stopping, mem_setProcess_insert hstart hnew,
    mem_setProcess hstop hstopping, ?_⟩
  have hnotMem : c ∉ starting := by
    rw [hstart, hold]
    simp
  have hclaimed : ((s.setProcess c client).setSlot i slot).claimedSlots.card =
      s.claimedSlots.card + 1 := claimedSlots_claim (s := s.setProcess c client) hfree htag
  rw [Finset.card_insert_of_notMem hnotMem, hclaimed, Nat.add_right_comm, UInt32.ofNat_add,
    UInt32.ofNat_add (s.claimedSlots.card + stopping.card), ← UInt32.add_assoc, ← hcount]
  rfl

/-- `Start` counts the client. -/
theorem CountsSlots.count (h : s.CountsSlots) {client : IpcClient}
    (hold : (s.processes c).pc.isStarting) (hnew : client.pc.isStarting = false)
    (hstopping : client.pc.isStopping = (s.processes c).pc.isStopping) :
    SlotTable.CountsSlots
      { s.setProcess c client with clientCount := s.clientCount + 1 } := by
  obtain ⟨starting, stopping, hstart, hstop, hcount⟩ := h
  refine ⟨starting.erase c, stopping, mem_setProcess_erase hstart hnew,
    mem_setProcess hstop hstopping, ?_⟩
  rw [← Finset.card_erase_add_one ((hstart c).mpr hold), UInt32.ofNat_add,
    UInt32.add_comm _ (.ofNat 1), ← UInt32.add_assoc] at hcount
  exact hcount

theorem CountsSlots.freeSlot (h : s.CountsSlots) {client : IpcClient}
    (hold : (s.processes c).pc.isStopping = false) (hnew : client.pc.isStopping)
    (hstarting : client.pc.isStarting = (s.processes c).pc.isStarting)
    (hclaimed : (s.clients i).clientTag ≠ 0) {slot : SharedClientSlot} (htag : slot.clientTag = 0) :
    ((s.setProcess c client).setSlot i slot).CountsSlots := by
  obtain ⟨starting, stopping, hstart, hstop, hcount⟩ := h
  refine ⟨starting, insert c stopping, mem_setProcess hstart hstarting,
    mem_setProcess_insert hstop hnew, ?_⟩
  have hnotMem : c ∉ stopping := by
    rw [hstop, hold]
    simp
  have hfreed : s.claimedSlots.card =
      ((s.setProcess c client).setSlot i slot).claimedSlots.card + 1 :=
    claimedSlots_release (s := s.setProcess c client) hclaimed htag
  rw [hfreed, Nat.add_right_comm] at hcount
  rw [Finset.card_insert_of_notMem hnotMem]
  exact hcount

/-- `Stop` no longer counts the client. -/
theorem CountsSlots.uncount (h : s.CountsSlots) {client : IpcClient}
    (hold : (s.processes c).pc.isStopping) (hnew : client.pc.isStopping = false)
    (hstarting : client.pc.isStarting = (s.processes c).pc.isStarting) :
    SlotTable.CountsSlots
      { s.setProcess c client with clientCount := s.clientCount - 1 } := by
  obtain ⟨starting, stopping, hstart, hstop, hcount⟩ := h
  refine ⟨starting, stopping.erase c, mem_setProcess hstart hstarting,
    mem_setProcess_erase hstop hnew, ?_⟩
  rw [← Finset.card_erase_add_one ((hstop c).mpr hold), ← Nat.add_assoc, UInt32.ofNat_add] at hcount
  show s.clientCount - 1 + UInt32.ofNat starting.card = UInt32.ofNat (s.claimedSlots.card + _)
  rw [UInt32.sub_eq_add_neg, UInt32.add_assoc, UInt32.add_comm (-1), ← UInt32.add_assoc, hcount,
    ← UInt32.sub_eq_add_neg]
  exact UInt32.add_sub_cancel ..

end SlotTable

end SmartDashboard.NativeLink
