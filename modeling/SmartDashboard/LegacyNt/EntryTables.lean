import Mathlib.Data.List.Induction
import SmartDashboard.Library.Execution
import SmartDashboard.LegacyNt.Entries

/-!
# The entry tables of a legacy NetworkTables connection

A connected instance looks entries up by key when it publishes and by id when the server updates
one. Both tables are written by the server's assignments, which may move a key or reuse an id, and
by the instance's own publish calls, which take ids from a counter.

## Main definitions

- `next`: a message of the server, or a publish call
- `TablesAgree`: along a run the tables are inverse to each other and no id is taken over
- `Given`: the ids that keys were given last, from the messages and calls alone
- `Unshared`: no key is given an id that another key was given last

## Main results

- `tablesAgree_iff_unshared`: the tables agree along exactly these runs
-/

namespace SmartDashboard.LegacyNt

open ByteReader Direct Execution

/-- The server sends a message, or the host calls a publish function. -/
inductive Action where
  | receive (bytes : ByteString)
  | publish (c : Call)
  deriving DecidableEq

/-- A message that cannot be processed closes the connection. -/
def next (inst : Instance) : Action → Option Instance
  | .receive bytes =>
    match inst.processOneMessage bytes with
    | (some (inst', _), _) => some inst'
    | (none, _) => none
  | .publish c => some (inst.publish c).1

/-- `idToKey[keyToEntry[k].id] = k` for every known key. -/
def Inverse (inst : Instance) : Prop :=
  ∀ key entry, inst.keyToEntry key = some entry → inst.idToKey entry.id = some key

structure TablesAgree (actions : List Action) : Prop where
  inverse : ∀ front inst, front <+: actions → run next {} front = some inst → Inverse inst
  distinct : ∀ front inst, front <+: actions → run next {} front = some inst →
    ∀ key key' entry entry', inst.keyToEntry key = some entry →
      inst.keyToEntry key' = some entry' → entry.id = entry'.id → key = key'
  fresh : ∀ front c inst, front ++ [.publish c] <+: actions → run next {} front = some inst →
    inst.keyToEntry c.key = none → ∀ key entry entry', inst.keyToEntry key = some entry →
      (inst.publish c).1.keyToEntry c.key = some entry' → entry.id ≠ entry'.id

/-! ## What keys were given -/

/-- The key and the id of a complete entry assignment. -/
def readAssignment : ByteReader (ByteString × UInt16) := do
  let type ← byte
  if type = 0x10 then do
    let wireKey ← readBytes
    let valueType ← byte
    let entryId ← readU16
    let _seq ← readU16
    let _value ← readTypedValue valueType
    pure (normalizeIncomingKey wireKey, entryId)
  else fail

def assignment? (bytes : ByteString) : Option (ByteString × UInt16) :=
  (readAssignment bytes).1

/-- The id that each key was given last, and how many keys were first published from here. -/
structure Given where
  ids : ByteString → Option UInt16 := fun _ => none
  count : ℕ := 0

namespace Given

def give (g : Given) (key : ByteString) (id : UInt16) : Given :=
  { g with ids := fun key' => if key' = key then some id else g.ids key' }

/-- The id of the next key that is first published from here. -/
def ownId (g : Given) : UInt16 := 30000 + UInt16.ofNat g.count

/-- The server gives the id of its assignment; a publish call gives a new key the next id. -/
def step (g : Given) : Action → Given
  | .receive bytes =>
    match assignment? bytes with
    | some (key, id) => g.give key id
    | none => g
  | .publish c =>
    if (g.ids c.key).isSome then g else { g.give c.key g.ownId with count := g.count + 1 }

/-- The id that an action gives to a key is not one that another key was given last. -/
def Unused (g : Given) : Action → Prop
  | .receive bytes => ∀ key id, assignment? bytes = some (key, id) →
      ∀ key', g.ids key' = some id → key' = key
  | .publish c => g.ids c.key = none → ∀ key', g.ids key' ≠ some g.ownId

end Given

/-- No key is given an id that another key was given last. -/
def Unshared (actions : List Action) : Prop :=
  ∀ front a back, actions = front ++ a :: back → (front.foldl Given.step {}).Unused a

/-! ## One step -/

/-- A message that is processed is a complete assignment, or it changes at most the sequence number
of an entry. -/
theorem processOneMessage_cases {inst inst' : Instance} {bytes rest : ByteString}
    {given : List Update} (h : inst.processOneMessage bytes = (some (inst', given), rest)) :
    (∃ key entry, inst' = inst.setEntry key entry ∧ assignment? bytes = some (key, entry.id)) ∨
      assignment? bytes = none ∧
        (inst' = inst ∨ ∃ key entry seq, inst.keyToEntry key = some entry ∧
          inst' = inst.setSeq key entry seq) := by
  cases bytes with
  | nil => cases h
  | cons type bytes =>
    have hother (htype : type ≠ 0x10) : assignment? (type :: bytes) = none := by
      rw [assignment?, readAssignment, bind_apply]
      simp only [byte_cons, if_neg htype]
      rfl
    rw [Instance.processOneMessage, bind_apply] at h
    simp only [byte_cons] at h
    split at h
    · next htype =>
      cases h
      exact .inr ⟨hother (by simp [htype]), .inl rfl⟩
    split at h
    · next htype =>
      cases h
      exact .inr ⟨hother (by simp [htype]), .inl rfl⟩
    split at h
    · next htype =>
      obtain ⟨_, _, hpure⟩ := exists_of_map_eq h
      cases hpure
      exact .inr ⟨hother (by simp [htype]), .inl rfl⟩
    split at h
    · next htype =>
      subst htype
      obtain ⟨wireKey, rest₁, hkey, h⟩ := exists_of_bind_eq h
      obtain ⟨valueType, rest₂, htype, h⟩ := exists_of_bind_eq h
      obtain ⟨entryId, rest₃, hid, h⟩ := exists_of_bind_eq h
      obtain ⟨seq, rest₄, hseq, h⟩ := exists_of_bind_eq h
      obtain ⟨update, hupdate, hresult⟩ := exists_of_map_eq h
      obtain ⟨value, hvalue, -⟩ := exists_of_map_eq hupdate
      refine .inl ⟨normalizeIncomingKey wireKey, _, congrArg Prod.fst hresult, ?_⟩
      have hread : readAssignment (0x10 :: bytes) =
          (some (normalizeIncomingKey wireKey, entryId), rest) := by
        rw [readAssignment, bind_apply]
        simp only [byte_cons, if_true, bind_apply, hkey, htype, hid, hseq, hvalue]
        rfl
      rw [assignment?, hread]
    split at h
    · next htype =>
      refine .inr ⟨hother (by simp [htype]), .inr ?_⟩
      obtain ⟨entryId, rest₁, hid, h⟩ := exists_of_bind_eq h
      obtain ⟨seq, rest₂, hseq, h⟩ := exists_of_bind_eq h
      cases hkey : inst.idToKey entryId with
      | none =>
        rw [hkey] at h
        cases h
      | some key =>
        cases hentry : inst.keyToEntry key with
        | none =>
          simp only [hkey, hentry] at h
          cases h
        | some entry =>
          simp only [hkey, hentry] at h
          obtain ⟨update, -, hresult⟩ := exists_of_map_eq h
          exact ⟨key, entry, seq, hentry, congrArg Prod.fst hresult⟩
    · cases h

/-- A publish call gives a new key the counter's id, or leaves every id as it is. -/
theorem publish_cases (inst : Instance) (c : Call) :
    (∃ entry, inst.keyToEntry c.key = none ∧ entry.id = inst.nextEntryId ∧
      (inst.publish c).1 =
        { inst.setEntry c.key entry with nextEntryId := inst.nextEntryId + 1 }) ∨
    ∃ known entry, inst.keyToEntry c.key = some known ∧ entry.id = known.id ∧
      (inst.publish c).1 = inst.setEntry c.key entry := by
  rw [Instance.publish_eq, Instance.sendEntryAssignment]
  cases hknown : inst.keyToEntry c.key with
  | none => exact .inl ⟨_, rfl, rfl, rfl⟩
  | some known =>
    let wireKey := if known.wireKey.isEmpty then toWireKey c.key else known.wireKey
    exact .inr ⟨known, { known with typeId := c.typeId, wireKey, seq := known.seq + 1 }, rfl, rfl,
      rfl⟩

/-- The ids in the entries are those that the keys were given last, and the counter stands at the
next id. -/
structure Tracks (g : Given) (inst : Instance) : Prop where
  ids : ∀ key, g.ids key = (inst.keyToEntry key).map EntryMeta.id
  counter : inst.nextEntryId = g.ownId

theorem tracks_initial : Tracks {} {} where
  ids _ := rfl
  counter := rfl

section Steps

variable {g : Given} {inst : Instance}

theorem Tracks.setEntry (h : Tracks g inst) (key : ByteString) (entry : EntryMeta) :
    Tracks (g.give key entry.id) (inst.setEntry key entry) where
  ids key' := by
    simp only [Given.give, Instance.setEntry]
    split
    · rfl
    · exact h.ids key'
  counter := h.counter

theorem Tracks.setSeq (h : Tracks g inst) {key : ByteString} {entry : EntryMeta}
    (hentry : inst.keyToEntry key = some entry) (seq : UInt16) :
    Tracks g (inst.setSeq key entry seq) where
  ids key' := by
    simp only [Instance.setSeq]
    split
    · next hkey => rw [hkey, h.ids key, hentry]; rfl
    · exact h.ids key'
  counter := h.counter

/-- The tables stay inverse when an entry is set exactly if no other key has its id. -/
theorem inverse_setEntry_iff (h : Inverse inst) (htracks : Tracks g inst) (key : ByteString)
    (entry : EntryMeta) :
    Inverse (inst.setEntry key entry) ↔ ∀ key', g.ids key' = some entry.id → key' = key := by
  constructor
  · intro hinverse key' hid
    by_contra hne
    rw [htracks.ids key', Option.map_eq_some_iff] at hid
    obtain ⟨entry', hentry', hid⟩ := hid
    have hfound := hinverse key' entry' (by simpa [Instance.setEntry, hne] using hentry')
    rw [hid] at hfound
    simp only [Instance.setEntry, if_true, Option.some.injEq] at hfound
    exact hne hfound.symm
  · intro hunused key' entry' hentry'
    simp only [Instance.setEntry] at hentry' ⊢
    by_cases hkey : key' = key
    · rw [if_pos hkey, Option.some.injEq] at hentry'
      rw [hentry', if_pos rfl, hkey]
    · rw [if_neg hkey] at hentry'
      have hid : entry'.id ≠ entry.id := fun hid =>
        hkey (hunused key' (by rw [htracks.ids, hentry', Option.map_some, hid]))
      rw [if_neg hid]
      exact h key' entry' hentry'

theorem inverse_setSeq (h : Inverse inst) {key : ByteString} {entry : EntryMeta}
    (hentry : inst.keyToEntry key = some entry) (seq : UInt16) :
    Inverse (inst.setSeq key entry seq) := by
  intro key' entry' hentry'
  simp only [Instance.setSeq] at hentry'
  split at hentry'
  · next hkey =>
    obtain rfl := Option.some.inj hentry'
    rw [hkey]
    exact h key entry hentry
  · exact h key' entry' hentry'

/-- One step: what was given is still tracked, and the tables stay inverse exactly if the action
gives no id that another key was given last. -/
theorem step_iff (h : Inverse inst) (htracks : Tracks g inst) {a : Action} {inst' : Instance}
    (hnext : next inst a = some inst') :
    Tracks (g.step a) inst' ∧ (Inverse inst' ↔ g.Unused a) := by
  cases a with
  | receive bytes =>
    rw [next] at hnext
    cases hmessage : inst.processOneMessage bytes with
    | mk result rest =>
      rw [hmessage] at hnext
      cases result with
      | none => cases hnext
      | some result =>
        obtain rfl := Option.some.inj hnext
        rcases processOneMessage_cases hmessage with
          ⟨key, entry, heq, hassigned⟩ | ⟨hnone, heq | ⟨key, entry, seq, hentry, heq⟩⟩
        · rw [heq, inverse_setEntry_iff h htracks]
          refine ⟨?_, ?_⟩
          · simp only [Given.step, hassigned]
            exact htracks.setEntry key entry
          · simp [Given.Unused, hassigned]
        · rw [heq]
          simp only [Given.step, hnone]
          exact ⟨htracks, fun _ => by simp [Given.Unused, hnone], fun _ => h⟩
        · rw [heq]
          simp only [Given.step, hnone]
          exact ⟨htracks.setSeq hentry seq, fun _ => by simp [Given.Unused, hnone],
            fun _ => inverse_setSeq h hentry seq⟩
  | publish c =>
    obtain rfl := Option.some.inj hnext
    rcases publish_cases inst c with ⟨entry, hunknown, hid, heq⟩ | ⟨known, entry, hknown, hid, heq⟩
    · have hnone : g.ids c.key = none := by rw [htracks.ids, hunknown]; rfl
      have hown : entry.id = g.ownId := hid.trans htracks.counter
      have hset := htracks.setEntry c.key entry
      have hinverse := inverse_setEntry_iff h htracks c.key entry
      rw [hown] at hset hinverse
      rw [heq]
      refine ⟨?_, hinverse.trans ?_⟩
      · simp only [Given.step, hnone, Option.isSome_none, Bool.false_eq_true, if_false]
        refine ⟨hset.ids, ?_⟩
        simp only [htracks.counter, Given.ownId, UInt16.ofNat_add, ← UInt16.add_assoc]
        rfl
      · constructor
        · rintro hunused - key' hkey'
          rw [hunused key' hkey', hnone] at hkey'
          cases hkey'
        · intro hunused key' hkey'
          exact absurd hkey' (hunused hnone key')
    · have hsome : g.ids c.key = some known.id := by rw [htracks.ids, hknown]; rfl
      rw [heq]
      refine ⟨?_, fun _ => ?_, fun _ => ?_⟩
      · simp only [Given.step, hsome, Option.isSome_some, if_true]
        refine ⟨fun key' => ?_, htracks.counter⟩
        simp only [Instance.setEntry]
        split
        · next hkey => rw [hkey, hsome, Option.map_some, hid]
        · exact htracks.ids key'
      · intro hnone
        rw [hsome] at hnone
        cases hnone
      · -- The id is the key's own, and in inverse tables no other key has it.
        rw [inverse_setEntry_iff h htracks]
        intro key' hkey'
        rw [htracks.ids, Option.map_eq_some_iff] at hkey'
        obtain ⟨entry', hentry', hid'⟩ := hkey'
        have hmine := h c.key known hknown
        have hother := h key' entry' hentry'
        rw [hid', hid, hmine] at hother
        exact (Option.some.inj hother).symm

end Steps

/-! ## Runs -/

theorem inverse_initial : Inverse {} := fun _ _ h => by cases h

/-- Along a run in which no id is given twice, the tables stay inverse. -/
theorem inverse_of_unshared {actions : List Action} (h : Unshared actions) {inst : Instance}
    (hrun : run next {} actions = some inst) :
    Tracks (actions.foldl Given.step {}) inst ∧ Inverse inst := by
  induction actions using List.reverseRecOn generalizing inst with
  | nil =>
    obtain rfl := Option.some.inj hrun
    exact ⟨tracks_initial, inverse_initial⟩
  | append_singleton actions a ih =>
    rw [run_append, Option.bind_eq_some_iff] at hrun
    obtain ⟨before, hbefore, hlast⟩ := hrun
    obtain ⟨after, hnext, hafter⟩ := run_cons_eq_some.mp hlast
    obtain rfl := Option.some.inj hafter
    obtain ⟨htracks, hinverse⟩ := ih (fun front b back hsplit =>
      h front b (back ++ [a]) (by rw [hsplit]; simp)) hbefore
    obtain ⟨htracks', hiff⟩ := step_iff hinverse htracks hnext
    rw [List.foldl_append]
    exact ⟨htracks', hiff.mpr (h actions a [] rfl)⟩

theorem Unshared.of_prefix {front actions : List Action} (h : Unshared actions)
    (hfront : front <+: actions) : Unshared front := by
  obtain ⟨back, rfl⟩ := hfront
  exact fun front' a back' hsplit => h front' a (back' ++ back) (by rw [hsplit]; simp)

theorem exists_run_of_prefix {front actions : List Action} (hfront : front <+: actions)
    (hrun : (run next {} actions).isSome) : ∃ inst, run next {} front = some inst := by
  obtain ⟨back, rfl⟩ := hfront
  obtain ⟨last, hlast⟩ := Option.isSome_iff_exists.mp hrun
  rw [run_append, Option.bind_eq_some_iff] at hlast
  exact hlast.imp fun _ h => h.1

/-- Tables that are inverse all along a run show that no id was given twice. -/
theorem unshared_of_inverse {actions : List Action} (hrun : (run next {} actions).isSome)
    (h : ∀ front inst, front <+: actions → run next {} front = some inst → Inverse inst) :
    Unshared actions := by
  induction actions using List.reverseRecOn with
  | nil =>
    intro front a back hsplit
    simp at hsplit
  | append_singleton actions a ih =>
    have hpre : actions <+: actions ++ [a] := List.prefix_append _ _
    obtain ⟨before, hbefore⟩ := exists_run_of_prefix hpre hrun
    have hunshared := ih (by rw [hbefore]; rfl) fun front inst hfront =>
      h front inst (hfront.trans hpre)
    obtain ⟨htracks, hinverse⟩ := inverse_of_unshared hunshared hbefore
    obtain ⟨after, hafter⟩ := Option.isSome_iff_exists.mp hrun
    have hnext : next before a = some after := by
      rw [run_append, hbefore, Option.bind_some, run_cons_eq_some] at hafter
      obtain ⟨t, ht, hlast⟩ := hafter
      rwa [← Option.some.inj hlast]
    have hunused := (step_iff hinverse htracks hnext).2.mp (h _ after List.prefix_rfl hafter)
    intro front b back hsplit
    obtain ⟨back', -, hactions⟩ | ⟨-, rfl, rfl⟩ := append_singleton_split hsplit
    · exact hunshared front b back' hactions
    · exact hunused

/-- The tables agree along a run exactly if no key is given an id that another key was given
last. -/
theorem tablesAgree_iff_unshared (actions : List Action) (hrun : (run next {} actions).isSome) :
    TablesAgree actions ↔ Unshared actions := by
  constructor
  · intro h
    exact unshared_of_inverse hrun h.inverse
  · intro h
    have hinverse (front : List Action) (inst : Instance) (hfront : front <+: actions)
        (hinst : run next {} front = some inst) :=
      inverse_of_unshared (h.of_prefix hfront) hinst
    refine ⟨fun front inst hfront hinst => (hinverse front inst hfront hinst).2, ?_, ?_⟩
    · intro front inst hfront hinst key key' entry entry' hentry hentry' hid
      have hmine := (hinverse front inst hfront hinst).2 key entry hentry
      have hother := (hinverse front inst hfront hinst).2 key' entry' hentry'
      rw [hid, hother] at hmine
      exact (Option.some.inj hmine).symm
    · intro front c inst hfront hinst hnew key entry entry' hentry hentry' hid
      have hpre : front <+: actions := (List.prefix_append _ _).trans hfront
      obtain ⟨htracks, -⟩ := hinverse front inst hpre hinst
      obtain ⟨back, hsplit⟩ := hfront
      have hunused := h front (.publish c) back (by rw [← hsplit]; simp)
      have hnone : (front.foldl Given.step {}).ids c.key = none := by
        rw [htracks.ids, hnew]
        rfl
      refine hunused hnone key ?_
      rw [htracks.ids, hentry, Option.map_some, hid]
      rcases publish_cases inst c with ⟨chosen, -, hchosen, heq⟩ | ⟨known, -, hknown, -, -⟩
      · rw [heq] at hentry'
        simp only [Instance.setEntry, if_true, Option.some.injEq] at hentry'
        rw [← hentry', hchosen, htracks.counter]
      · rw [hnew] at hknown
        cases hknown

/-- The server's assignment of a boolean. -/
def assignBool (key : ByteString) (id : UInt16) : ByteString :=
  0x10 :: writeU16 (UInt16.ofNat key.length) ++ key ++ [0x00] ++ writeU16 id ++ writeU16 1 ++ [1]

/-- Two keys of the server with ids of their own, and one that is published from here. -/
def threeKeys : List Action :=
  [.receive (assignBool [0x41] 5), .receive (assignBool [0x42] 6),
    .publish (.bool ⟨[0x43], by decide⟩ 1)]

theorem tablesAgree_threeKeys : TablesAgree threeKeys :=
  (tablesAgree_iff_unshared threeKeys (by decide)).mpr (by
    have hfirst : assignment? (assignBool [0x41] 5) = some ([0x41], 5) := by decide
    have hsecond : assignment? (assignBool [0x42] 6) = some ([0x42], 6) := by decide
    intro front a back hsplit
    rcases front with _ | ⟨first, _ | ⟨second, _ | ⟨third, front⟩⟩⟩
    all_goals simp only [threeKeys, List.cons_append, List.nil_append, List.cons.injEq] at hsplit
    · obtain ⟨rfl, -⟩ := hsplit
      simp [Given.Unused]
    · obtain ⟨rfl, rfl, -⟩ := hsplit
      simp [Given.Unused, Given.step, Given.give, hfirst, hsecond]
    · obtain ⟨rfl, rfl, rfl, -⟩ := hsplit
      intro _ key'
      simp only [List.foldl_cons, List.foldl_nil, Given.step, Given.give, hfirst, hsecond]
      split_ifs <;> decide
    · simp at hsplit)

/-- An id that the server gives to a second key. -/
theorem reused_id_breaks_tables :
    ¬ ∀ actions : List Action, (run next {} actions).isSome → TablesAgree actions := by
  intro h
  have hagree := h [.receive (assignBool [0x41] 5), .receive (assignBool [0x42] 5)] (by decide)
  have hfound := hagree.distinct _ _ List.prefix_rfl rfl [0x41] [0x42] _ _ rfl rfl rfl
  cases hfound

end SmartDashboard.LegacyNt
