import IndexedStore.Proofs.Table.Lookups
/-!
# Look-ups with keys of another index

An index is a part of its scope: the keys with its stem. A walk never leaves that part. The direct
look-ups do: they go to the SCOPE with the key they are given, and if that key belongs to another
index, to another table or to nobody's table, they answer from whatever entry is there.

* `View.Crosses` is what the look-ups say of a foreign key that has an entry;
* `View.misses_of_missing` and `View.crosses_of_stored` tell the two cases of a foreign key apart;
* **`View.confinement_exact`** is the result, `View.unconfined` an index that is left.
-/

namespace IndexedStore

open IndexedStore.Action

variable {ρ : Type}

namespace View

variable {view : View ρ} {store : Store} {records : OrdMap Bytes ρ} {full : Bytes}

/-! ## 1. Foreign keys -/

/-- Whether the direct look-ups answer for a foreign key by an entry of the scope, read as if it
    were one of the index, though a walk does not find it. -/
structure Crosses (view : View ρ) (store : Store) (full : Bytes) (entry : Entry) : Prop where
  holds : outcome (view.holds Store.native full) store = (.ok true, store)
  get : outcome (view.get Store.native full) store
    = (some <$> view.resolved store entry.value, store)
  demand : outcome (view.demand Store.native full) store = (view.resolved store entry.value, store)
  find : store.HasSlots 1 → ∃ after,
    outcome (view.find Store.native full) store = (.ok view.pastLast, after)

/-- **A walk does not find a foreign key**, and leaves nothing behind. -/
theorem outcome_find_foreign (free : store.HasSlots 1)
    (foreign : ¬ Bytes.startsWith full view.placement.stem) :
    ∃ after, outcome (view.find Store.native full) store = (.ok view.pastLast, after)
      ∧ after.shelves = store.shelves ∧ after.settings = store.settings
      ∧ after.cursors = store.cursors :=
  outcome_find_of_missing free fun begins => absurd begins foreign

/-- **What the scope has an entry for, the direct look-ups take for one of the index.** -/
theorem crosses_of_stored (foreign : ¬ Bytes.startsWith full view.placement.stem) {entry : Entry}
    (stored : store.find? view.table.scope full = some entry) :
    view.Crosses store full entry := by
  have found : view.found store full = some <$> view.resolved store entry.value := by
    unfold found
    rw [stored]
  refine ⟨?_, ?_, ?_, fun free => ?_⟩
  · rw [outcome_holds, stored]
    rfl
  · rw [outcome_get, found]
  · rw [outcome_demand, found]
    cases view.resolved store entry.value <;> rfl
  · obtain ⟨after, came, _⟩ := outcome_find_foreign free foreign
    exact ⟨after, came⟩

/-- A key of an index is found with the record that has it, or missed. -/
theorem finds_or_misses (files : view.table.Files store records)
    (back : view.table.ReadsBack records) (own : Bytes.startsWith full view.placement.stem) :
    (∃ record, records.get? (view.table.recordKey record) = some record
      ∧ view.index.fullKey record = full
      ∧ view.Finds store (view.index.key record).encode full record) ∨ view.Misses store full := by
  cases stored : store.find? view.table.scope full with
  | none => exact .inr (misses_of_missing stored)
  | some entry =>
    obtain ⟨record, filed, rfl, _⟩ := exists_resolved files back own stored
    exact .inl ⟨record, filed, rfl, finds_of_filed files back filed⟩

/-! ## 2. The result -/

/-- **How far look-ups are confined to their index**, in a store that files a map of records. A key
    with the index's stem is found with the filed record that has it, and missed if there is none. A
    foreign key is never found by a walk, which ends past the last entry and gives its cursor back;
    but the direct look-ups miss it only if the scope has no entry there. If it has one, they say
    that the key is there, and read the record that the entry would stand for in this index. -/
theorem confinement_exact (files : view.table.Files store records)
    (back : view.table.ReadsBack records) (full : Bytes) :
    (Bytes.startsWith full view.placement.stem →
      (∃ record, records.get? (view.table.recordKey record) = some record
        ∧ view.index.fullKey record = full
        ∧ view.Finds store (view.index.key record).encode full record) ∨
      view.Misses store full) ∧
    (¬ Bytes.startsWith full view.placement.stem →
      (store.HasSlots 1 → ∃ after,
        outcome (view.find Store.native full) store = (.ok view.pastLast, after)
          ∧ after.shelves = store.shelves ∧ after.settings = store.settings
          ∧ after.cursors = store.cursors) ∧
      (view.Misses store full ↔ store.find? view.table.scope full = none) ∧
      ∀ entry, store.find? view.table.scope full = some entry → view.Crosses store full entry) := by
  refine ⟨finds_or_misses files back, fun foreign =>
    ⟨fun free => outcome_find_foreign free foreign, ⟨fun misses => ?_, misses_of_missing⟩,
      fun _ => crosses_of_stored foreign⟩⟩
  have holds := misses.holds
  rw [outcome_holds] at holds
  have none := Except.ok.inj (congrArg Prod.fst holds)
  exact Option.isNone_iff_eq_none.mp (Option.isSome_eq_false_iff.mp none)

/-- The primary key of a note, under the index by lengths: no note is found there. -/
theorem confinement_exact_notes :
    ∃ after, outcome (byLengthAndText.find Store.native (listingTable.primaryKey [2])) threeNotes.1
        = (.ok byLengthAndText.pastLast, after)
      ∧ after.cursors = threeNotes.1.cursors := by
  have roundTrip : listingTable.format.RoundTrip := fun _ => rfl
  have empty : listingTable.Files (Store.fresh default) .empty := Table.Files.empty fun _ _ _ => rfl
  have files : byLengthAndText.table.Files threeNotes.1 threeNotes.2 :=
    files_listed (files_listed (files_listed empty [2]) [1, 1]) [1]
  have law := confinement_exact files (Table.readsBack roundTrip threeNotes.2)
    (listingTable.primaryKey [2])
  have free : threeNotes.1.HasSlots 1 := by decide +kernel
  obtain ⟨after, came, _, _, cursors⟩ := (law.2 (by decide +kernel)).1 free
  exact ⟨after, came, cursors⟩

/-- **An index that is left**: under the index by lengths the primary key of a note is said to be
    there; and under the primary index a key of the other one is, and is read as a note that nobody
    has stored. -/
theorem unconfined :
    (¬ Bytes.startsWith (listingTable.primaryKey [2]) byLengthAndText.placement.stem ∧
      ¬ byLengthAndText.Misses threeNotes.1 (listingTable.primaryKey [2])) ∧
    ∃ note, ¬ Bytes.startsWith (byLengthAndText.index.fullKey [2])
        listingTable.primaryView.placement.stem ∧
      outcome (listingTable.primaryView.get Store.native (byLengthAndText.index.fullKey [2]))
        threeNotes.1 = (.ok (some note), threeNotes.1) ∧
      threeNotes.2.get? (listingTable.recordKey note) = none := by
  refine ⟨⟨by decide +kernel, fun misses => ?_⟩, listingTable.primaryKey [2], by decide +kernel, ?_,
    by decide +kernel⟩
  · have there : (threeNotes.1.find? byLengthAndText.table.scope
        (listingTable.primaryKey [2])).isSome = true := by decide +kernel
    have holds := misses.holds
    rw [outcome_holds, there] at holds
    exact nomatch congrArg Prod.fst holds
  · rw [outcome_get]
    have found : (listingTable.primaryView.found threeNotes.1
        (byLengthAndText.index.fullKey [2])).toOption
          = some (some (listingTable.primaryKey [2])) := by decide +kernel
    cases read : listingTable.primaryView.found threeNotes.1
        (byLengthAndText.index.fullKey [2]) with
    | error fault =>
      rw [read] at found
      exact nomatch found
    | ok answer =>
      rw [read] at found
      cases found
      rfl

end View

end IndexedStore
