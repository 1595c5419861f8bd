import IndexedStore.Proofs.Table.Refusals
/-!
# Which records a table accepts

A put compares BYTES: it reads what stands under each new secondary key and looks whether that points
to its own primary key. In a store that files a map of records these bytes say exactly whether
another record of the map has the key, so a put can be told by the map alone.

* `Table.taken` says that another record has a key, `Table.firstTaken?` finds the first index where
  that is so, in the order of declaration;
* `Table.Files.decision` reads the step for one index off the records;
* **`Table.put_exact`** is the result.
-/

namespace IndexedStore

open IndexedStore.Action

variable {ρ : Type}

namespace Table

/-! ## 1. Taken keys -/

/-- Whether a record with another primary key has the key of `record` under an index. -/
def taken (table : Table ρ) (records : OrdMap Bytes ρ) (record : ρ) (index : Index ρ) : Bool :=
  records.entries.any fun entry =>
    entry.1 ≠ table.recordKey record ∧ (index.key entry.2).encode = (index.key record).encode

/-- The first secondary index under which the key of a record is taken. -/
def firstTaken? (table : Table ρ) (records : OrdMap Bytes ρ) (record : ρ) : Option (Index ρ) :=
  table.secondaries.find? (table.taken records record)

variable {table : Table ρ} {store : Store} {records : OrdMap Bytes ρ} {record : ρ}

theorem taken_iff {index : Index ρ} :
    table.taken records record index ↔ ∃ key other, records.get? key = some other
      ∧ key ≠ table.recordKey record ∧ (index.key other).encode = (index.key record).encode := by
  simp only [taken, List.any_eq_true, decide_eq_true_eq, Prod.exists, OrdMap.get?_eq_some_iff]

/-- A key that is not taken is free, or the record that is replaced has it already. -/
theorem Files.of_not_taken (h : table.Files store records) {index : Index ρ}
    (mem : index ∈ table.secondaries) (free : ¬ table.taken records record index) {found : Entry}
    (here : store.find? table.scope (index.fullKey record) = some found) :
    ∃ held, records.get? (table.recordKey record) = some held
      ∧ (index.key held).encode = (index.key record).encode
      ∧ found.value = table.primaryKey record := by
  obtain ⟨owner, filed, same, rfl⟩ := (h.secondary index mem _ _).mp here
  have own : table.recordKey owner = table.recordKey record :=
    Decidable.byContradiction fun other => free (taken_iff.mpr ⟨_, owner, filed, other, same⟩)
  rw [own] at filed
  exact ⟨owner, filed, same, congrArg table.primaryIndex.placement.fullKey own⟩

/-- Under a taken key stands a pointer to another record. -/
theorem Files.of_taken (h : table.Files store records) {index : Index ρ}
    (mem : index ∈ table.secondaries) (taken : table.taken records record index) :
    ∃ found, store.find? table.scope (index.fullKey record) = some found
      ∧ found.value ≠ table.primaryKey record := by
  obtain ⟨key, other, filed, apart, same⟩ := taken_iff.mp taken
  have own := h.own key other filed
  refine ⟨_, (h.secondary index mem _ _).mpr ⟨other, own.symm ▸ filed, same, rfl⟩, fun points => ?_⟩
  exact apart (own.symm.trans (Placement.fullKey_inj points))

/-! ## 2. What a put does -/

/-- The step for an index whose key is not taken. -/
def stepFrom (old : Option ρ) (record : ρ) (index : Index ρ) : SecondaryStep :=
  match old with
  | none => .insert
  | some held =>
    if (index.key held).encode = (index.key record).encode then .keep
    else .move (index.fullKey held)

/-- The fault for an index whose key is taken. -/
def takenFault (old : Option ρ) (index : Index ρ) : Fault :=
  match old with
  | none => .duplicateSecondary index.placement.name
  | some _ => .secondaryConflict index.placement.name

/-- **The step for an index is a matter of the records**, though it is told from bytes. -/
theorem Files.decision (h : table.Files store records) {index : Index ρ}
    (mem : index ∈ table.secondaries) :
    table.decision store record (records.get? (table.recordKey record)) index
      = if table.taken records record index
        then .error (takenFault (records.get? (table.recordKey record)) index)
        else .ok (stepFrom (records.get? (table.recordKey record)) record index) := by
  unfold Table.decision takenFault stepFrom
  by_cases taken : table.taken records record index
  · obtain ⟨found, here, elsewhere⟩ := h.of_taken mem taken
    rw [if_pos taken, here]
    cases records.get? (table.recordKey record) with
    | none => rfl
    | some held => exact if_neg elsewhere
  · rw [if_neg taken]
    cases here : store.find? table.scope (index.fullKey record) with
    | some found =>
      obtain ⟨held, filed, same, points⟩ := h.of_not_taken mem taken here
      simp only [filed, points, same, if_true]
    | none =>
      cases filed : records.get? (table.recordKey record) with
      | none => rfl
      | some held =>
        have moved : (index.key held).encode ≠ (index.key record).encode := by
          intro same
          have own := h.own _ held filed
          have there := (h.secondary index mem _ _).mpr ⟨held, own.symm ▸ filed, same, rfl⟩
          cases here.symm.trans there
        simp only [moved, if_false]

/-- The steps of a put, all of them, or the fault of the first index whose key is taken. -/
theorem Files.decided (h : table.Files store records) (back : table.ReadsBack records)
    (fits : table.Fits store.settings record) :
    table.decided store record = match table.firstTaken? records record with
      | some index => .error (takenFault (records.get? (table.recordKey record)) index)
      | none => .ok {
          inserted := (records.get? (table.recordKey record)).isNone
          steps := table.secondaries.map fun index =>
            (index, stepFrom (records.get? (table.recordKey record)) record index) } := by
  have stored : table.storedRecord store (table.primaryKey record)
      = .ok (records.get? (table.recordKey record)) := h.storedRecord back _
  have each : ∀ index ∈ table.secondaries, (do
      return (index, ← table.decision store record (records.get? (table.recordKey record)) index))
      = if table.taken records record index
        then .error (takenFault (records.get? (table.recordKey record)) index)
        else .ok (index, stepFrom (records.get? (table.recordKey record)) record index) := by
    intro index mem
    rw [h.decision mem]
    split <;> rfl
  have steps := mapM_eq_find? each
  unfold Table.decided firstTaken?
  rw [checkLimits_native.mpr fits, stored]
  simp only [bind, Except.bind] at steps ⊢
  rw [steps]
  cases table.secondaries.find? (table.taken records record) <;> rfl

/-- A step writes unless the record that is replaced has the key already. -/
theorem stepFrom_ne_keep {old : Option ρ} {index : Index ρ} :
    stepFrom old record index ≠ .keep ↔
      old.all fun held => (index.key held).encode ≠ (index.key record).encode := by
  unfold stepFrom
  cases old with
  | none => simp
  | some held =>
    by_cases same : (index.key held).encode = (index.key record).encode
    · simp [same]
    · simp [same]

/-! ## 3. The result -/

/-- **A put accepts exactly the records that keep secondary keys unique**, and says why not. For a
    store that files a map of records, and a record that keeps to the limits: if its key under some
    secondary index is that of another record, the first such index is named, in a fault that tells
    whether the record's primary key is new; and if not, the put succeeds, and reports whether the
    primary key was new and how many secondary keys differ from those of the record it replaces.
    Erasing answers whether the record was there. -/
theorem put_exact (files : table.Files store records) (back : table.ReadsBack records)
    (fits : table.Fits store.settings record) :
    (match table.firstTaken? records record, records.get? (table.recordKey record) with
      | some index, none =>
        outcome (table.put Store.native record) store
          = (.error (.duplicateSecondary index.placement.name), store)
      | some index, some _ =>
        outcome (table.put Store.native record) store
          = (.error (.secondaryConflict index.placement.name), store)
      | none, old =>
        ∃ after, outcome (table.put Store.native record) store
          = (.ok {
              inserted := old.isNone
              secondaryWrites := table.secondaries.countP fun index =>
                old.all fun held => (index.key held).encode ≠ (index.key record).encode }, after)) ∧
    (outcome (table.erase Store.native record) store).1
      = .ok (records.contains (table.recordKey record)) ∧
    ∀ key : KeyValue, (outcome (table.eraseByKey Store.native key) store).1
      = .ok (records.contains key.encode) := by
  have erased : ∀ key,
      (outcome (table.eraseAt Store.native (table.primaryIndex.placement.fullKey key)) store).1
        = .ok (records.contains key) := by
    intro key
    have stored := files.storedRecord back key
    rcases outcome_eraseAt table store (table.primaryIndex.placement.fullKey key) with
      ⟨_, fails, _⟩ | ⟨old, after, found, ends⟩
    · exact nomatch stored.symm.trans fails
    · rw [ends, Except.ok.inj (found.symm.trans stored)]
      rfl
  refine ⟨?_, erased (table.recordKey record), fun key => erased key.encode⟩
  have decides := files.decided back fits
  cases first : table.firstTaken? records record with
  | some index =>
    rw [first] at decides
    rcases outcome_put table store record with ⟨fault, refused, ends⟩ | ⟨plan, _, found, _⟩
    · rw [Except.error.inj (refused.symm.trans decides)] at ends
      cases old : records.get? (table.recordKey record) with
      | none =>
        rw [old] at ends
        exact ends
      | some held =>
        rw [old] at ends
        exact ends
    · exact nomatch found.symm.trans decides
  | none =>
    rw [first] at decides
    rcases outcome_put table store record with ⟨_, refused, _⟩ | ⟨plan, after, found, ends⟩
    · exact nomatch refused.symm.trans decides
    · cases Except.ok.inj (found.symm.trans decides)
      refine ⟨after, ends.trans ?_⟩
      have writes : (table.secondaries.map fun index =>
            (index, stepFrom (records.get? (table.recordKey record)) record index)).countP
              (fun step => step.2 ≠ .keep)
          = table.secondaries.countP fun index => (records.get? (table.recordKey record)).all
              fun held => (index.key held).encode ≠ (index.key record).encode := by
        rw [List.countP_map]
        refine List.countP_congr fun index _ => ?_
        simpa using stepFrom_ne_keep
      unfold Plan.report
      rw [writes]

/-- A store with one note. -/
def noteStored : Store :=
  (outcome (TableWrite.perform Store.native noteTable (.put [2])) (Store.fresh default)).2

/-- The note, under its primary key. -/
def noteRecords : OrdMap Bytes Bytes :=
  TableWrite.edit noteTable (.put [2])
    (outcome (TableWrite.perform Store.native noteTable (.put [2])) (Store.fresh default)).1 .empty

theorem put_exact_notes :
    (∃ index : Index Bytes, outcome (noteTable.put Store.native [3]) noteStored
      = (.error (.duplicateSecondary index.placement.name), noteStored)) ∧
    (∃ after, outcome (noteTable.put Store.native [3, 3]) noteStored
      = (.ok { inserted := true, secondaryWrites := 1 }, after)) ∧
    (outcome (noteTable.erase Store.native [2]) noteStored).1 = .ok true := by
  have roundTrip : noteTable.format.RoundTrip := fun _ => rfl
  have apart := Schema.apart_of_bind bind_notes
  have files : noteTable.Files noteStored noteRecords :=
    TableWrite.files roundTrip apart (Files.empty fun _ _ _ => rfl) (.put [2])
  have taken : (noteTable.firstTaken? noteRecords [3]).isSome := by decide +kernel
  have free : (noteTable.firstTaken? noteRecords [3, 3]).isNone := by decide +kernel
  have new : noteRecords.get? (noteTable.recordKey [3]) = none := by decide +kernel
  have other : noteRecords.get? (noteTable.recordKey [3, 3]) = none := by decide +kernel
  have refused := put_exact files (readsBack roundTrip _)
    (fits_of_isOk (show (checkLimits Store.native noteTable [3] noteStored).isOk by decide +kernel))
  have accepted := put_exact files (readsBack roundTrip _)
    (fits_of_isOk (show (checkLimits Store.native noteTable [3, 3] noteStored).isOk by
      decide +kernel))
  obtain ⟨index, first⟩ := Option.isSome_iff_exists.mp taken
  rw [first, new] at refused
  rw [Option.isNone_iff_eq_none.mp free, other] at accepted
  have there : noteRecords.contains (KeyValue.bytes [2]).encode = true := by decide +kernel
  refine ⟨⟨index, refused.1⟩, accepted.1, ?_⟩
  exact (refused.2.2 (.bytes [2])).trans (congrArg Except.ok there)

end Table

end IndexedStore
