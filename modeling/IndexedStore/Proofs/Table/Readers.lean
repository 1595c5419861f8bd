import IndexedStore.Proofs.Table.Filing
import IndexedStore.Proofs.Table.Motions
import IndexedStore.Table.Scan
/-!
# Reading entries

Behind each entry of an index of a filed table stands one live record. A walk on the entry reads that
record, through whichever index, or the entry's key.

* `View.resolved` is what a stored value of an index stands for, in any store;
* `View.Live` says that a record and its entry are stored, `View.live_of_entry` finds the record of
  an entry, and `View.eq_of_fullKey` says that there is no second one;
* `Reads` is what is asked of a reader;
* **`reads_intact`** and **`reads_key`** give it for the two readers of scans.
-/

namespace IndexedStore

open IndexedStore.Action

variable {ρ α : Type}

/-! ## 1. Stored values -/

/-- What the entries of a store say of the record that a stored value of an index stands for. -/
def View.resolved (view : View ρ) (store : Store) (raw : Bytes) : Except Fault ρ :=
  if view.isPrimary then view.table.format.unpack raw
  else match store.find? view.table.scope raw with
    | none => .error (.state (.danglingPointer view.placement.name raw))
    | some entry => view.table.format.unpack entry.value

/-- **Resolving only looks**, and finds what the entries of the store say. -/
theorem View.outcome_resolved (view : View ρ) (store : Store) (raw : Bytes) :
    outcome (view.resolve Store.native raw) store = (view.resolved store raw, store) := by
  have read : outcome (Store.native.read view.table.scope raw) store
      = (.ok ((store.find? view.table.scope raw).map (·.value)), store) := rfl
  unfold View.resolve View.resolved
  split
  · rw [outcome_ofExcept]
  · rw [outcome_bind_ok read]
    cases store.find? view.table.scope raw with
    | none => rfl
    | some entry => exact outcome_ofExcept ..

/-! ## 2. Live records -/

/-- The entry that a record has under an index. -/
def View.entryOf (view : View ρ) (record : ρ) : Entry :=
  if view.isPrimary then view.table.entry (view.table.format.pack record)
  else view.table.entry (view.table.primaryKey record)

/-- Whether a record is stored, and its entry under the index is there. -/
def View.Live (view : View ρ) (store : Store) (record : ρ) : Prop :=
  store.find? view.table.scope (view.index.fullKey record) = some (view.entryOf record)
    ∧ store.find? view.table.scope (view.table.primaryKey record)
      = some (view.table.entry (view.table.format.pack record))

section Readers

variable {view : View ρ} {store : Store} {records : OrdMap Bytes ρ} {id : CursorId} {key : Bytes}

/-- An index is the primary one, or one of the others. -/
theorem View.index_cases (view : View ρ) :
    (view.isPrimary = true ∧ view.index = view.table.primaryIndex) ∨
    (view.isPrimary = false ∧ view.index ∈ view.table.secondaries) := by
  unfold isPrimary index Table.primaryIndex Table.secondaries
  by_cases same : view.position = view.table.primary
  · exact .inl ⟨decide_eq_true same, congrArg (fun position => view.table.indices[position]) same⟩
  · refine .inr ⟨decide_eq_false same, List.mem_eraseIdx_iff_getElem.mpr ?_⟩
    exact ⟨view.position, view.position.isLt, fun here => same (Fin.ext here), rfl⟩

/-- Behind each entry of an index is a filed record whose key it has, and the record is live. -/
theorem View.live_of_entry (files : view.table.Files store records)
    (begins : Bytes.startsWith key view.placement.stem) {found : Entry}
    (stored : store.find? view.table.scope key = some found) :
    ∃ record, records.get? (view.table.recordKey record) = some record
      ∧ view.index.fullKey record = key ∧ view.Live store record
      ∧ found = view.entryOf record := by
  obtain ⟨rest, rfl⟩ := Placement.contains_iff.mp begins
  have payload : ∀ record, records.get? (view.table.recordKey record) = some record →
      store.find? view.table.scope (view.table.primaryKey record)
        = some (view.table.entry (view.table.format.pack record)) := by
    intro record filed
    refine (files.primary (view.table.recordKey record)).trans ?_
    rw [filed]
    rfl
  rcases view.index_cases with ⟨primary, index⟩ | ⟨secondary, mem⟩
  · have place : view.placement = view.table.primaryIndex.placement :=
      congrArg Index.placement index
    rw [place] at stored
    have here := stored
    rw [files.primary] at here
    obtain ⟨record, filed, entry⟩ := Option.map_eq_some_iff.mp here
    have own := files.own _ _ filed
    have key : view.index.fullKey record = view.placement.fullKey rest := by
      rw [index, place, ← own]
      rfl
    have same : view.entryOf record = found := (if_pos primary).trans entry
    have filed := own.symm ▸ filed
    refine ⟨record, filed, key, ⟨?_, payload record filed⟩, same.symm⟩
    rw [key, place, stored, same]
  · obtain ⟨record, filed, key, entry⟩ := (files.secondary _ mem _ _).mp stored
    have same : view.entryOf record = found :=
      (if_neg (by rw [secondary]; exact Bool.false_ne_true)).trans entry.symm
    have fullKey : view.index.fullKey record = view.placement.fullKey rest :=
      congrArg view.placement.fullKey key
    refine ⟨record, filed, fullKey, ⟨?_, payload record filed⟩, same.symm⟩
    rw [fullKey, stored, same]

/-- A filed record has an entry under every index. -/
theorem View.stored_of_filed (files : view.table.Files store records) {record : ρ}
    (filed : records.get? (view.table.recordKey record) = some record) :
    (store.find? view.table.scope (view.index.fullKey record)).isSome := by
  rcases view.index_cases with ⟨_, index⟩ | ⟨_, mem⟩
  · have here := files.primary (view.table.recordKey record)
    rw [filed] at here
    rw [index]
    exact Option.isSome_iff_exists.mpr ⟨_, here⟩
  · exact Option.isSome_iff_exists.mpr
      ⟨_, (files.secondary _ mem _ _).mpr ⟨record, filed, rfl, rfl⟩⟩

/-- Two filed records with one key under an index are one. -/
theorem View.eq_of_fullKey (files : view.table.Files store records) {a b : ρ}
    (filedA : records.get? (view.table.recordKey a) = some a)
    (filedB : records.get? (view.table.recordKey b) = some b)
    (same : view.index.fullKey a = view.index.fullKey b) : a = b := by
  have keys : (view.index.key a).encode = (view.index.key b).encode := Placement.fullKey_inj same
  rcases view.index_cases with ⟨_, index⟩ | ⟨_, mem⟩
  · rw [index] at keys
    have one : view.table.recordKey a = view.table.recordKey b := keys
    rw [one, filedB] at filedA
    exact (Option.some.inj filedA).symm
  · exact files.unique mem filedA filedB keys

/-- Whether a record is live and its payload reads back as the record. -/
def View.Intact (view : View ρ) (store : Store) (record : ρ) : Prop :=
  view.Live store record
    ∧ view.table.format.unpack (view.table.format.pack record) = .ok record

/-- An intact record is filed: the payload under its primary key is the one of a filed record, and
    only one record can be read off it. -/
theorem View.Intact.filed {record : ρ} (intact : view.Intact store record)
    (files : view.table.Files store records) (back : view.table.ReadsBack records) :
    records.get? (view.table.recordKey record) = some record := by
  have payload := intact.1.2
  have here := files.primary (view.table.recordKey record)
  cases filed : records.get? (view.table.recordKey record) with
  | none =>
    rw [filed] at here
    exact nomatch payload.symm.trans here
  | some other =>
    rw [filed] at here
    have entries := Option.some.inj (payload.symm.trans here)
    have packed : view.table.format.pack record = view.table.format.pack other :=
      congrArg Entry.value entries
    have read := intact.2
    rw [packed, back _ other filed] at read
    cases read
    rfl

/-! ## 3. Readers -/

/-- What a reader of entries must do: where a walk stands on an entry of a filed table whose payloads
    read back, it reads an item that tells the entry's key and is live. That an item is live has to do
    with entries alone. -/
structure Reads (view : View ρ) (read : Walk ρ → Action Store α) (keyOf : α → Bytes)
    (live : Store → α → Prop) : Prop where
  entry : ∀ {store : Store} {records : OrdMap Bytes ρ} {id : CursorId} {key : Bytes},
    view.table.Files store records → view.table.ReadsBack records →
    store.cursors.get? id = some (view.cursorAt (.onKey key)) →
    Bytes.startsWith key view.placement.stem →
    (store.find? view.table.scope key).isSome →
    ∃ item, outcome (read (Walk.holding view id .live)) store = (.ok item, store)
      ∧ keyOf item = key ∧ live store item
  steady : ∀ {before after : Store} {item : α}, Steering before after → live before item →
    live after item

/-- What is read at the position of a walk on an entry. -/
theorem Walk.outcome_current {fetch : CursorId → Action Store (Option Bytes)} {bytes : Bytes}
    (h : outcome (fetch id) store = (.ok (some bytes), store)) :
    outcome ((holding view id .live).current fetch) store = (.ok bytes, store) := by
  unfold current holding
  exact outcome_bind_ok h

theorem entryAt?_cursorAt {found : Entry} (stored : store.find? view.table.scope key = some found) :
    store.entryAt? (view.cursorAt (.onKey key)) = some (key, found) :=
  Option.map_eq_some_iff.mpr ⟨found, stored, rfl⟩

/-- The entry of an intact record stands for the record. -/
theorem View.Intact.resolved {record : ρ} (intact : view.Intact store record) :
    view.resolved store (view.entryOf record).value = .ok record := by
  obtain ⟨live, back⟩ := intact
  unfold View.resolved View.entryOf
  by_cases primary : view.isPrimary
  · rw [if_pos primary, if_pos primary]
    exact back
  · have there : store.find? view.table.scope (view.table.entry (view.table.primaryKey record)).value
        = some (view.table.entry (view.table.format.pack record)) := live.2
    rw [if_neg primary, if_neg primary, there]
    exact back

theorem View.Live.steady {before after : Store} (steered : Steering before after) {record : ρ}
    (live : view.Live before record) : view.Live after record :=
  ⟨(steered.find? _ _).trans live.1, (steered.find? _ _).trans live.2⟩

/-- **Reading a record** hands out the record that is stored behind the entry, and that its payload
    reads back as. -/
theorem reads_intact :
    Reads view (Scan.readRecord Store.native) view.index.fullKey view.Intact := by
  refine ⟨?_, fun steered intact => ⟨intact.1.steady steered, intact.2⟩⟩
  intro store records id key files back cursor begins here
  obtain ⟨found, stored⟩ := Option.isSome_iff_exists.mp here
  obtain ⟨record, filed, own, live, entry⟩ := View.live_of_entry files begins stored
  have intact : view.Intact store record := ⟨live, back _ record filed⟩
  have fetched : outcome (Store.currentValue id) store = (.ok (some found.value), store) := by
    rw [Store.outcome_currentValue, cursor]
    dsimp only
    rw [entryAt?_cursorAt stored]
    rfl
  refine ⟨record, ?_, own, intact⟩
  have current : outcome ((Walk.holding view id .live).current Store.native.currentValue) store
      = (.ok found.value, store) := Walk.outcome_current fetched
  have step : outcome (Scan.readRecord Store.native (Walk.holding view id .live)) store
      = outcome (view.resolve Store.native found.value) store := outcome_bind_ok current
  rw [step, View.outcome_resolved, entry, intact.resolved]

theorem reads_record : Reads view (Scan.readRecord Store.native) view.index.fullKey view.Live := by
  refine ⟨fun files back cursor begins here => ?_, fun steered live => live.steady steered⟩
  obtain ⟨record, read, own, intact⟩ := reads_intact.entry files back cursor begins here
  exact ⟨record, read, own, intact.1⟩

/-- **Reading a key** hands out what tells the entry's key. -/
theorem reads_key : Reads view (Scan.readKey Store.native) view.placement.fullKey
    fun store item => (store.find? view.table.scope (view.placement.fullKey item)).isSome := by
  refine ⟨?_, fun steered live => ?_⟩
  rotate_left
  · rw [steered.find?]
    exact live
  intro store records id key files _ cursor begins here
  obtain ⟨found, stored⟩ := Option.isSome_iff_exists.mp here
  obtain ⟨rest, rfl⟩ := Placement.contains_iff.mp begins
  have fetched : outcome (Store.currentKey id) store
      = (.ok (some (view.placement.fullKey rest)), store) := by
    rw [Store.outcome_currentKey, cursor]
    dsimp only
    rw [entryAt?_cursorAt stored]
    rfl
  have current : outcome ((Walk.holding view id .live).key Store.native) store
      = (.ok (view.placement.fullKey rest), store) := Walk.outcome_current fetched
  have step : outcome (Scan.readKey Store.native (Walk.holding view id .live)) store
      = (view.placement.behindStem (view.placement.fullKey rest), store) :=
    outcome_bind_ok current
  refine ⟨rest, ?_, rfl, here⟩
  rw [step, Placement.behindStem_fullKey]

end Readers

end IndexedStore
