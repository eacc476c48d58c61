import Mathlib.Data.List.Pairwise
import SmartDashboard.Direct.RetainedStore

/-!
# The retained store as a bounded map

What one write does to the map from keys to values that a table stands for, as long as each key is
in the table once: the key has the value, cut to the array it is kept in, and every other key keeps
what it had, unless the table was full and the key was new.

## Main definitions

- `TypedValue.cut`: the value as far as its array goes
- `Intact`: the updates whose key and value are not changed by the arrays
- `UniqueKeys`: no two entries have the same key
- `PutMeets`: what a write promises
-/

namespace SmartDashboard.Direct

/-! ### Values that are cut -/

/-- The items of an array whose joined text is cut to so many bytes. -/
def cutItems : ℕ → List ByteString → List ByteString
  | _, [] => []
  | room, item :: items =>
    if item.length < room then item :: cutItems (room - item.length - 1) items
    else [item.take room]

def TypedValue.cut : TypedValue → TypedValue
  | .bool value => .bool value
  | .double value => .double value
  | .string text => .string (text.take kMaxStringBytes)
  | .stringArray items => .stringArray (cutItems kMaxStringBytes items)

/-- Neither a NUL nor a separator is taken for an end. -/
def TypedValue.Intact : TypedValue → Prop
  | .bool _ | .double _ => True
  | .string text => 0 ∉ text.take kMaxStringBytes
  | .stringArray items =>
    items ≠ [] ∧ ∀ item ∈ cutItems kMaxStringBytes items, 0 ∉ item ∧ itemSeparator ∉ item

instance : DecidablePred TypedValue.Intact
  | .bool _ => isTrue trivial
  | .double _ => isTrue trivial
  | .string text => inferInstanceAs (Decidable (0 ∉ text.take kMaxStringBytes))
  | .stringArray items =>
    inferInstanceAs (Decidable (items ≠ [] ∧ ∀ item ∈ cutItems kMaxStringBytes items, _))

/-- The value of an update, of the fields the one that its type names. -/
def VariableUpdate.typedValue (update : VariableUpdate) : TypedValue :=
  update.value.readAs update.type

def VariableUpdate.Intact (update : VariableUpdate) : Prop :=
  FitsArray kMaxKeyBytes update.key ∧ update.typedValue.Intact

instance : DecidablePred VariableUpdate.Intact :=
  fun update => inferInstanceAs (Decidable (_ ∧ update.typedValue.Intact))

theorem intercalate_cons_of_ne_nil (item : ByteString) {items : List ByteString} (h : items ≠ []) :
    [itemSeparator].intercalate (item :: items) =
      item ++ itemSeparator :: [itemSeparator].intercalate items := by
  obtain ⟨second, rest, rfl⟩ := List.exists_cons_of_ne_nil h
  rw [List.intercalate_cons_cons]
  simp

theorem cutItems_eq_nil_iff {room : ℕ} {items : List ByteString} :
    cutItems room items = [] ↔ items = [] := by
  cases items with
  | nil => simp [cutItems]
  | cons item items =>
    rw [cutItems]
    split <;> simp

theorem take_intercalate (room : ℕ) (items : List ByteString) :
    ([itemSeparator].intercalate items).take room =
      [itemSeparator].intercalate (cutItems room items) := by
  induction items generalizing room with
  | nil => simp [cutItems]
  | cons item items ih =>
    rw [cutItems]
    split
    · next hlt =>
      rcases eq_or_ne items [] with rfl | hne
      · rw [cutItems, List.intercalate_singleton, List.take_of_length_le hlt.le]
      · have hcut : cutItems (room - item.length - 1) items ≠ [] :=
          mt cutItems_eq_nil_iff.mp hne
        obtain ⟨k, hk⟩ : ∃ k, room = item.length + (k + 1) := ⟨room - item.length - 1, by omega⟩
        subst hk
        rw [intercalate_cons_of_ne_nil item hne, intercalate_cons_of_ne_nil item hcut, ← ih,
          List.take_length_add_append, List.take_succ_cons]
        congr 3
        omega
    · next hge =>
      rcases eq_or_ne items [] with rfl | hne
      · rw [List.intercalate_singleton, List.intercalate_singleton]
      · rw [intercalate_cons_of_ne_nil item hne, List.intercalate_singleton,
          List.take_append_of_le_length (by omega)]

theorem mem_intercalate {b : UInt8} (hb : b ≠ itemSeparator) {items : List ByteString} :
    b ∈ [itemSeparator].intercalate items ↔ ∃ item ∈ items, b ∈ item := by
  induction items with
  | nil => simp
  | cons item items ih =>
    rcases eq_or_ne items [] with rfl | hne
    · simp
    · rw [intercalate_cons_of_ne_nil item hne, List.mem_append, List.mem_cons, or_iff_right hb, ih]
      simp

/-- The arrays of an entry give its value back, cut, if they do not mistake anything in it. -/
theorem RetainedEntry.readAs_ofUpdate_eq_cut_iff (update : VariableUpdate) :
    (RetainedEntry.ofUpdate update).readAs update.type = update.typedValue.cut ↔
      update.typedValue.Intact := by
  unfold VariableUpdate.typedValue
  cases htype : update.type with
  | bool => simp [ofUpdate, htype, readAs, VariableValue.readAs, TypedValue.cut, TypedValue.Intact]
  | double =>
    simp [ofUpdate, htype, readAs, VariableValue.readAs, TypedValue.cut, TypedValue.Intact]
  | string =>
    simp only [ofUpdate, htype, readAs, VariableValue.readAs, TypedValue.cut, TypedValue.Intact,
      TypedValue.string.injEq]
    exact cString_eq_self_iff
  | stringArray =>
    simp only [ofUpdate, htype, readAs, VariableValue.readAs, TypedValue.cut, TypedValue.Intact,
      TypedValue.stringArray.injEq]
    set items := update.value.stringArrayValue
    set cut := cutItems kMaxStringBytes items
    -- What is packed is the items of the cut array, with nothing more to cut.
    have hpacked : ([itemSeparator].intercalate items).take kMaxStringBytes =
        ([itemSeparator].intercalate cut).take kMaxStringBytes := by
      rw [← take_intercalate, List.take_take, min_self]
    have hlength : ([itemSeparator].intercalate cut).length ≤ kMaxStringBytes := by
      rw [← take_intercalate]
      exact List.length_take_le _ _
    have hzero : 0 ∉ [itemSeparator].intercalate cut ↔ ∀ item ∈ cut, 0 ∉ item := by
      rw [mem_intercalate (by decide)]
      push Not
      rfl
    rw [hpacked, splitOn_cString_eq_iff, FitsArray, and_iff_right hlength, hzero,
      ← forall₂_and, ne_eq, cutItems_eq_nil_iff]

/-! ### Which entry is written -/

/-- What the loop remembers of the entries in front while it has not found the key: a free one if
there is one, and an occupied one with the lowest number. -/
structure Scan.Remembers (front : List RetainedEntry) (scan : Scan) : Prop where
  found : scan.found = none
  free : ∀ i ∈ scan.freeIdx, ∃ entry, front[i]? = some entry ∧ entry.occupied = false
  full : scan.freeIdx = none → ∀ entry ∈ front, entry.occupied = true
  lowest : ∀ entry ∈ front, entry.occupied = true → scan.oldestSeq ≤ entry.seq
  oldest : scan.oldestSeq = 0xFFFFFFFFFFFFFFFF ∧ scan.oldestIdx = 0 ∨
    ∃ entry, front[scan.oldestIdx]? = some entry ∧ entry.seq = scan.oldestSeq

theorem Scan.Remembers.free_step {front : List RetainedEntry} {scan : Scan}
    (h : scan.Remembers front) {entry : RetainedEntry} (hentry : entry.occupied = false) :
    Remembers (front ++ [entry]) { scan with freeIdx := scan.freeIdx.or (some front.length) } where
  found := h.found
  free i hi := by
    rcases hfree : scan.freeIdx with _ | j
    · rw [hfree, Option.none_or] at hi
      cases hi
      exact ⟨entry, List.getElem?_concat_length, hentry⟩
    · rw [hfree, Option.some_or] at hi
      cases hi
      obtain ⟨e, he, hoccupied⟩ := h.free _ hfree
      exact ⟨e, List.getElem?_append_left (List.getElem?_eq_some_iff.mp he).1 ▸ he, hoccupied⟩
  full hnone := by
    simp at hnone
  lowest e he hoccupied := by
    rcases List.mem_append.mp he with he | he
    · exact h.lowest e he hoccupied
    · rw [List.mem_singleton] at he
      rw [he, hentry] at hoccupied
      cases hoccupied
  oldest := by
    refine h.oldest.imp id ?_
    rintro ⟨e, he, hseq⟩
    exact ⟨e, List.getElem?_append_left (List.getElem?_eq_some_iff.mp he).1 ▸ he, hseq⟩

theorem Scan.Remembers.occupied_step {front : List RetainedEntry} {scan : Scan}
    (h : scan.Remembers front) {entry : RetainedEntry} (hentry : entry.occupied = true) :
    Remembers (front ++ [entry])
      (if entry.seq < scan.oldestSeq then
        { scan with oldestSeq := entry.seq, oldestIdx := front.length }
      else scan) := by
  have hfree : ∀ i ∈ scan.freeIdx, ∃ e, (front ++ [entry])[i]? = some e ∧
      e.occupied = false := by
    intro i hi
    obtain ⟨e, he, hoccupied⟩ := h.free i hi
    exact ⟨e, List.getElem?_append_left (List.getElem?_eq_some_iff.mp he).1 ▸ he, hoccupied⟩
  have hfull : scan.freeIdx = none → ∀ e ∈ front ++ [entry], e.occupied = true := by
    intro hnone
    rw [List.forall_mem_append, List.forall_mem_singleton]
    exact ⟨h.full hnone, hentry⟩
  split_ifs with hlt
  · refine ⟨h.found, hfree, hfull, ?_, .inr ⟨entry, List.getElem?_concat_length, rfl⟩⟩
    rw [List.forall_mem_append, List.forall_mem_singleton]
    exact ⟨fun e he hoccupied => UInt64.le_trans (UInt64.le_of_lt hlt) (h.lowest e he hoccupied),
      fun _ => UInt64.le_refl _⟩
  · refine ⟨h.found, hfree, hfull, ?_, h.oldest.imp id ?_⟩
    · rw [List.forall_mem_append, List.forall_mem_singleton]
      exact ⟨h.lowest, fun _ => UInt64.not_lt.mp hlt⟩
    · rintro ⟨e, he, hseq⟩
      exact ⟨e, List.getElem?_append_left (List.getElem?_eq_some_iff.mp he).1 ▸ he, hseq⟩

/-- If the loop does not find the key, it has seen all entries. -/
theorem Scan.Remembers.loop {key : ByteString} {front : List RetainedEntry} {scan : Scan}
    (h : scan.Remembers front) (rest : List RetainedEntry)
    (hnone : (Scan.loop key front.length rest scan).found = none) :
    (Scan.loop key front.length rest scan).Remembers (front ++ rest) := by
  induction rest generalizing front scan with
  | nil => simpa [Scan.loop] using h
  | cons entry rest ih =>
    have hlength : front.length + 1 = (front ++ [entry]).length := by simp
    rw [Scan.loop, hlength] at hnone ⊢
    rw [List.append_cons]
    by_cases hoccupied : entry.occupied = false
    · rw [if_pos hoccupied] at hnone ⊢
      exact ih (h.free_step hoccupied) hnone
    · rw [if_neg hoccupied] at hnone ⊢
      dsimp only at hnone ⊢
      by_cases hkey : cString entry.key = key
      · rw [if_pos hkey] at hnone
        cases hnone
      · rw [if_neg hkey] at hnone ⊢
        exact ih (h.occupied_step (by simpa using hoccupied)) hnone

namespace RetainedStore

def Full (store : RetainedStore) : Prop := ∀ entry ∈ store.entries, entry.occupied = true

/-- No entry has the key. -/
def Lacks (store : RetainedStore) (key : ByteString) : Prop :=
  ∀ entry ∈ store.entries, entry.hasKey key = false

/-- No two occupied entries have the same key. -/
def UniqueKeys (store : RetainedStore) : Prop :=
  store.entries.Pairwise fun entry entry' =>
    entry.occupied = true → entry'.occupied = true → cString entry.key ≠ cString entry'.key

instance : DecidablePred UniqueKeys :=
  fun store => inferInstanceAs (Decidable (store.entries.Pairwise _))

/-- What a write promises. A new key takes a free entry, or else that of a key with the lowest
number, and no other key is read differently. -/
structure PutMeets (store : RetainedStore) (update : VariableUpdate) : Prop where
  reads : (store.put update).tryGet update.key update.type = some update.typedValue.cut
  keeps : ¬(store.Full ∧ store.Lacks update.key) → ∀ key ≠ update.key, ∀ type,
    (store.put update).tryGet key type = store.tryGet key type
  evicts : store.Full ∧ store.Lacks update.key →
    ∃ victim ∈ store.entries, (∀ entry ∈ store.entries, victim.seq ≤ entry.seq) ∧
      ∀ key ≠ update.key, ∀ type, (store.put update).tryGet key type =
        if cString victim.key = key then none else store.tryGet key type

variable {store : RetainedStore} {key : ByteString} {update : VariableUpdate}

/-- The slot has the key, or no entry has it. Then the slot is free, or the table is full and the
entry in the slot has the lowest number. -/
theorem slot_cases (store : RetainedStore) (key : ByteString) :
    ∃ entry, store.entries[store.slot key]? = some entry ∧
      (entry.hasKey key = true ∨ store.Lacks key ∧ (entry.occupied = false ∨
        store.Full ∧ ∀ other ∈ store.entries, entry.seq ≤ other.seq)) := by
  have hfound : (Scan.loop key 0 store.entries {}).found =
      (store.entries.findIdx? fun entry => entry.hasKey key).map (0 + ·) :=
    Scan.loop_found 0 store.entries {} rfl
  cases hidx : store.entries.findIdx? fun entry => entry.hasKey key with
  | some i =>
    rw [hidx, Option.map_some, Nat.zero_add] at hfound
    obtain ⟨hi, hkey, -⟩ := List.findIdx?_eq_some_iff_getElem.mp hidx
    have hslot : store.slot key = i := by
      rw [slot, Scan.index, hfound, Option.getD_some]
    exact ⟨store.entries[i], by rw [hslot, List.getElem?_eq_getElem hi], .inl hkey⟩
  | none =>
    rw [hidx, Option.map_none] at hfound
    have hlacks : store.Lacks key := List.findIdx?_eq_none_iff.mp hidx
    have hstart : Scan.Remembers [] {} := ⟨rfl, by simp, by simp, by simp, .inl ⟨rfl, rfl⟩⟩
    have hseen := hstart.loop store.entries hfound
    rw [List.nil_append, List.length_nil] at hseen
    rw [slot, Scan.index, hfound, Option.getD_none]
    set scan := Scan.loop key 0 store.entries {}
    cases hfree : scan.freeIdx with
    | some i =>
      obtain ⟨entry, hentry, hoccupied⟩ := hseen.free i hfree
      exact ⟨entry, hentry, .inr ⟨hlacks, .inl hoccupied⟩⟩
    | none =>
      have hfull := hseen.full hfree
      rw [Option.getD_none]
      rcases hseen.oldest with ⟨hmax, hzero⟩ | ⟨entry, hentry, hseq⟩
      · -- All numbers are as high as a number can be.
        obtain ⟨entry, rest, hcons⟩ := List.exists_cons_of_ne_nil store.entries_ne_nil
        refine ⟨entry, by rw [hzero, hcons]; rfl, .inr ⟨hlacks, .inr ⟨hfull, ?_⟩⟩⟩
        intro other hother
        have hle := hseen.lowest other hother (hfull other hother)
        rw [hmax] at hle
        have hbound : entry.seq ≤ 0xFFFFFFFFFFFFFFFF := by
          have hlt := entry.seq.toNat_lt
          rw [UInt64.le_iff_toNat_le]
          show entry.seq.toNat ≤ 18446744073709551615
          omega
        exact UInt64.le_trans hbound hle
      · refine ⟨entry, hentry, .inr ⟨hlacks, .inr ⟨hfull, fun other hother => ?_⟩⟩⟩
        rw [hseq]
        exact hseen.lowest other hother (hfull other hother)

/-! ### What a write leaves alone -/

/-- Two places with the same key are one place. -/
theorem UniqueKeys.eq_of_hasKey (h : store.UniqueKeys) {i j : ℕ} (hi : i < store.entries.length)
    (hj : j < store.entries.length) (hkey : store.entries[i].hasKey key = true)
    (hkey' : store.entries[j].hasKey key = true) : i = j := by
  rw [RetainedEntry.hasKey, decide_eq_true_eq] at hkey hkey'
  rw [UniqueKeys, List.pairwise_iff_getElem] at h
  rcases Nat.lt_trichotomy i j with hlt | heq | hlt
  · exact absurd (hkey.2.trans hkey'.2.symm) (h i j hi hj hlt hkey.1 hkey'.1)
  · exact heq
  · exact absurd (hkey'.2.trans hkey.2.symm) (h j i hj hi hlt hkey'.1 hkey.1)

/-- Besides the slot of a key no entry has the key. -/
theorem UniqueKeys.hasKey_eq_false (h : store.UniqueKeys) {i : ℕ} (hi : i < store.entries.length)
    (hne : i ≠ store.slot key) : store.entries[i].hasKey key = false := by
  obtain ⟨entry, hentry, hcases⟩ := store.slot_cases key
  obtain ⟨hlt, rfl⟩ := List.getElem?_eq_some_iff.mp hentry
  rcases hcases with hkey | ⟨hlacks, -⟩
  · rw [← Bool.not_eq_true]
    exact fun hkey' => hne (h.eq_of_hasKey hi hlt hkey' hkey)
  · exact hlacks _ (List.getElem_mem hi)

/-- A key that fits its array is still in the table at most once after it was written. -/
theorem UniqueKeys.put (h : store.UniqueKeys) (hkey : FitsArray kMaxKeyBytes update.key) :
    (store.put update).UniqueKeys := by
  have hwritten : cString (RetainedEntry.ofUpdate update).key = update.key := by
    rw [RetainedEntry.key_ofUpdate, cString_take_eq_iff.mpr hkey]
  -- Every other entry has another key.
  have hother : ∀ {i : ℕ} (hi : i < store.entries.length), i ≠ store.slot update.key →
      store.entries[i].occupied = true → cString store.entries[i].key ≠ update.key := by
    intro i hi hne hoccupied heq
    have hfalse := h.hasKey_eq_false hi hne
    rw [RetainedEntry.hasKey, decide_eq_false_iff_not] at hfalse
    exact hfalse ⟨hoccupied, heq⟩
  rw [UniqueKeys, List.pairwise_iff_getElem] at h ⊢
  intro i j hi hj hij
  simp only [RetainedStore.put, List.length_set] at hi hj
  simp only [RetainedStore.put, List.getElem_set]
  by_cases hi' : store.slot update.key = i
  · have hj' : ¬store.slot update.key = j := by omega
    rw [if_pos hi', if_neg hj', hwritten]
    exact fun _ hoccupied => (hother hj (Ne.symm hj') hoccupied).symm
  · rw [if_neg hi']
    by_cases hj' : store.slot update.key = j
    · rw [if_pos hj', hwritten]
      exact fun hoccupied _ => hother hi (Ne.symm hi') hoccupied
    · rw [if_neg hj']
      exact h i j hi hj hij

theorem find?_set_of_false {α : Type*} {l : List α} {i : ℕ} {a b : α} {p : α → Bool}
    (hget : l[i]? = some a) (ha : p a = false) (hb : p b = false) :
    (l.set i b).find? p = l.find? p := by
  obtain ⟨hlt, rfl⟩ := List.getElem?_eq_some_iff.mp hget
  have hsplit : l = l.take i ++ l[i] :: l.drop (i + 1) := by
    rw [List.getElem_cons_drop, List.take_append_drop]
  have hset : l.set i b = l.take i ++ b :: l.drop (i + 1) :=
    List.set_eq_take_append_cons_drop .. |>.trans (if_pos hlt)
  rw [hset]
  conv_rhs => rw [hsplit]
  rw [List.find?_append, List.find?_append, List.find?_cons_of_neg (by simp [hb]),
    List.find?_cons_of_neg (by simp [ha])]

theorem hasKey_ofUpdate_of_ne (hkey : FitsArray kMaxKeyBytes update.key) {key : ByteString}
    (hne : key ≠ update.key) : (RetainedEntry.ofUpdate update).hasKey key = false := by
  rw [RetainedEntry.hasKey, decide_eq_false_iff_not, RetainedEntry.key_ofUpdate,
    cString_take_eq_iff.mpr hkey]
  exact fun h => hne h.2.symm

/-- A key that neither the update nor the entry in its slot has is read as before. -/
theorem tryGet_put_of_ne (hkey : FitsArray kMaxKeyBytes update.key) {key : ByteString}
    (hne : key ≠ update.key) {entry : RetainedEntry}
    (hentry : store.entries[store.slot update.key]? = some entry)
    (hslot : entry.hasKey key = false) (type : ValueType) :
    (store.put update).tryGet key type = store.tryGet key type := by
  rw [tryGet, tryGet, RetainedStore.put]
  rw [find?_set_of_false hentry (by simp [hslot]) (by simp [hasKey_ofUpdate_of_ne hkey hne])]

/-- The key whose entry a write takes cannot be read any more. -/
theorem UniqueKeys.tryGet_put_of_hasKey (h : store.UniqueKeys)
    (hkey : FitsArray kMaxKeyBytes update.key) {key : ByteString} (hne : key ≠ update.key)
    {entry : RetainedEntry} (hentry : store.entries[store.slot update.key]? = some entry)
    (hslot : entry.hasKey key = true) (type : ValueType) :
    (store.put update).tryGet key type = none := by
  obtain ⟨hlt, rfl⟩ := List.getElem?_eq_some_iff.mp hentry
  rw [tryGet, Option.map_eq_none_iff, List.find?_eq_none]
  intro entry hentry
  obtain ⟨j, hj, rfl⟩ := List.mem_iff_getElem.mp hentry
  simp only [RetainedStore.put, List.length_set] at hj
  simp only [RetainedStore.put, List.getElem_set]
  split_ifs with heq
  · simp [hasKey_ofUpdate_of_ne hkey hne]
  · have hfalse : store.entries[j].hasKey key = false := by
      rw [← Bool.not_eq_true]
      exact fun hkey' => heq (h.eq_of_hasKey hlt hj hslot hkey')
    simp [hfalse]

theorem tryGet_put_eq_cut_iff (store : RetainedStore) (update : VariableUpdate) :
    (store.put update).tryGet update.key update.type = some update.typedValue.cut ↔
      update.Intact := by
  rw [store.tryGet_put, VariableUpdate.Intact]
  split
  · next hkey =>
    rw [Option.some.injEq, and_iff_right hkey]
    exact RetainedEntry.readAs_ofUpdate_eq_cut_iff update
  · next hkey =>
    constructor
    · intro hsome
      cases hsome
    · exact fun hintact => absurd hintact.1 hkey

/-- A write keeps its promise exactly if the arrays do not change what it writes. -/
theorem UniqueKeys.putMeets_iff (h : store.UniqueKeys) : store.PutMeets update ↔ update.Intact := by
  constructor
  · exact fun hmeets => (store.tryGet_put_eq_cut_iff update).mp hmeets.reads
  · intro hintact
    have hkey := hintact.1
    obtain ⟨entry, hentry, hcases⟩ := store.slot_cases update.key
    obtain ⟨hlt, hget⟩ := List.getElem?_eq_some_iff.mp hentry
    have hmem : entry ∈ store.entries := hget ▸ List.getElem_mem hlt
    refine ⟨(store.tryGet_put_eq_cut_iff update).mpr hintact, ?_, ?_⟩
    · intro hroom key hne type
      refine tryGet_put_of_ne hkey hne hentry ?_ type
      -- The slot is free or has the key of the update.
      rw [RetainedEntry.hasKey, decide_eq_false_iff_not]
      rintro ⟨hoccupied, heq⟩
      rcases hcases with hhas | ⟨hlacks, hfree | ⟨hfull, -⟩⟩
      · rw [RetainedEntry.hasKey, decide_eq_true_eq] at hhas
        exact hne (heq.symm.trans hhas.2)
      · rw [hfree] at hoccupied
        cases hoccupied
      · exact hroom ⟨hfull, hlacks⟩
    · rintro ⟨hfull, hlacks⟩
      have hlowest : ∀ other ∈ store.entries, entry.seq ≤ other.seq := by
        rcases hcases with hhas | ⟨-, hfree | ⟨-, hlowest⟩⟩
        · rw [hlacks entry hmem] at hhas
          cases hhas
        · rw [hfull entry hmem] at hfree
          cases hfree
        · exact hlowest
      refine ⟨entry, hmem, hlowest, fun key hne type => ?_⟩
      split_ifs with heq
      · refine h.tryGet_put_of_hasKey hkey hne hentry ?_ type
        rw [RetainedEntry.hasKey, decide_eq_true_eq]
        exact ⟨hfull entry hmem, heq⟩
      · refine tryGet_put_of_ne hkey hne hentry ?_ type
        rw [RetainedEntry.hasKey, decide_eq_false_iff_not]
        exact fun hhas => heq hhas.2

end RetainedStore

end SmartDashboard.Direct
