import IndexedStore.Proofs.Table.Writes
/-!
# Refused writes leave no trace

A write to a table that faults has done NOTHING, whatever the store holds: a table's keys may have
foreign entries, payloads that do not read back, or pointers to nothing. The reason is the order of a
put. All its faults come from its looking; once it writes, the limits that it has checked cover every
one of its writes.

* `Table.outcome_steps` carries the steps of a plan out, any part of them, from any store;
* `Table.outcome_put` and `Table.outcome_eraseAt` say how the writes of a table end;
* **`TableWrite.refused_unchanged`** is the result.
-/

namespace IndexedStore

open IndexedStore.Action

variable {ρ : Type}

/-- Actions in sequence that cannot fault while a property holds, and keep it, do not fault. -/
theorem Action.outcome_forM_ok {σ γ : Type} {body : γ → Action σ PUnit} {I : σ → Prop}
    {list : List γ} (each : ∀ item ∈ list, ∀ state, I state →
      ∃ after, outcome (body item) state = (.ok ⟨⟩, after) ∧ I after) {state : σ}
    (start : I state) : ∃ after, outcome (list.forM body) state = (.ok ⟨⟩, after) ∧ I after := by
  induction list generalizing state with
  | nil => exact ⟨state, rfl, start⟩
  | cons head rest ih =>
    obtain ⟨middle, ran, kept⟩ := each head List.mem_cons_self state start
    obtain ⟨after, ran', kept'⟩ := ih (fun item mem => each item (List.mem_cons_of_mem _ mem)) kept
    exact ⟨after, (outcome_bind_ok ran).trans ran', kept'⟩

namespace Table

variable {table : Table ρ} {store : Store} {record : ρ}

/-! ## 1. Putting -/

/-- **Steps for a record that fits are never refused**, in whatever state they find the keys. -/
theorem outcome_steps {steps : List (Index ρ × SecondaryStep)}
    (known : ∀ step ∈ steps, step.1 ∈ table.secondaries)
    (fits : table.Fits store.settings record) :
    ∃ after, outcome (steps.forM (table.writeSecondary Store.native record)) store = (.ok (), after)
      ∧ after.settings = store.settings := by
  refine outcome_forM_ok (I := fun now : Store => now.settings = store.settings) ?_ rfl
  intro step mem now same
  obtain ⟨after, wrote, kept, _⟩ := outcome_writeSecondary (known step mem) (same ▸ fits)
  exact ⟨after, wrote, kept.trans same⟩

/-- What a put with a plan has to report. -/
def Plan.report (plan : Plan ρ) : PutReport where
  inserted := plan.inserted
  secondaryWrites := plan.steps.countP fun step => step.2 ≠ .keep

/-- **A plan that is found can be carried out**: all its steps, and then the payload. -/
theorem outcome_carried {plan : Plan ρ} (found : table.decided store record = .ok plan) :
    ∃ middle change after,
      outcome (plan.steps.forM (table.writeSecondary Store.native record)) store = (.ok (), middle)
      ∧ outcome (Store.native.write table.scope (table.primaryKey record)
          (table.format.pack record) table.scope) middle = (.ok change, after)
      ∧ outcome (table.put Store.native record) store = (.ok plan.report, after) := by
  obtain ⟨fits, items, _⟩ := of_decided found
  have known : ∀ step ∈ plan.steps, step.1 ∈ table.secondaries :=
    fun step mem => items ▸ List.mem_map_of_mem mem
  have looked := outcome_plan table store record
  rw [found] at looked
  obtain ⟨middle, stepped, same⟩ := outcome_steps known fits
  rw [← same] at fits
  obtain ⟨change, after, wrote, _⟩ := changed_write table.scope table.scope fits.key fits.payload
  refine ⟨middle, change, after, stepped, wrote, ?_⟩
  unfold put
  rw [outcome_bind_ok looked, outcome_bind_ok stepped]
  exact outcome_bind_ok wrote

/-- **A put ends as its plan does**, and without a plan it does nothing. -/
theorem outcome_put (table : Table ρ) (store : Store) (record : ρ) :
    (∃ fault, table.decided store record = .error fault
      ∧ outcome (table.put Store.native record) store = (.error fault, store)) ∨
    ∃ plan after, table.decided store record = .ok plan
      ∧ outcome (table.put Store.native record) store = (.ok plan.report, after) := by
  rcases found : table.decided store record with fault | plan
  · have looked := outcome_plan table store record
    rw [found] at looked
    exact .inl ⟨fault, rfl, outcome_bind_error looked⟩
  · obtain ⟨_, _, after, _, _, put⟩ := outcome_carried found
    exact .inr ⟨plan, after, rfl, put⟩

/-! ## 2. Erasing -/

/-- **Erasing faults where the record that is to go cannot be read**, and does nothing then. -/
theorem outcome_eraseAt (table : Table ρ) (store : Store) (primaryKey : Bytes) :
    (∃ fault, table.storedRecord store primaryKey = .error fault
      ∧ outcome (table.eraseAt Store.native primaryKey) store = (.error fault, store)) ∨
    ∃ old after, table.storedRecord store primaryKey = .ok old
      ∧ outcome (table.eraseAt Store.native primaryKey) store = (.ok old.isSome, after) := by
  have looked := outcome_stored table store primaryKey
  unfold eraseAt
  rcases found : table.storedRecord store primaryKey with fault | old
  · rw [found] at looked
    exact .inl ⟨fault, rfl, outcome_bind_error looked⟩
  · rw [found] at looked
    rw [outcome_bind_ok looked]
    cases old with
    | none => exact .inr ⟨none, store, rfl, rfl⟩
    | some old =>
      have each : ∀ index ∈ table.secondaries, ∀ now : Store, True →
          ∃ after, outcome (do let _ ← Store.native.erase table.scope (index.fullKey old)) now
            = (.ok (), after) ∧ True := by
        intro index _ now _
        obtain ⟨_, after, erased, _⟩ := changed_erase now table.scope (index.fullKey old)
        exact ⟨after, outcome_bind_ok erased, trivial⟩
      obtain ⟨middle, erased, _⟩ : ∃ middle, outcome (table.secondaries.forM fun index => do
          let _ ← Store.native.erase table.scope (index.fullKey old)) store = (.ok (), middle)
          ∧ True := outcome_forM_ok each trivial
      obtain ⟨_, after, dropped, _⟩ := changed_erase middle table.scope primaryKey
      exact .inr ⟨some old, after, rfl, (outcome_bind_ok erased).trans (outcome_bind_ok dropped)⟩

end Table

namespace TableWrite

open Table

/-! ## 3. The result -/

/-- **A refused write changes nothing.** For every table and every store, also one whose entries the
    table has not made: a write that faults leaves the store as it was, with its accounts, cursors,
    staged value and log. And a put whose plan is found writes the steps of the plan and then the
    payload, and the store refuses none of these writes. -/
theorem refused_unchanged (table : Table ρ) (store : Store) :
    (∀ {β : Type} (write : TableWrite ρ β) (fault : Fault) (after : Store),
      outcome (write.perform Store.native table) store = (.error fault, after) → after = store) ∧
    ∀ (record : ρ) (plan : Plan ρ) (looked : Store),
      outcome (table.plan Store.native record) store = (.ok plan, looked) →
      looked = store ∧ ∃ middle change after,
        outcome (plan.steps.forM (table.writeSecondary Store.native record)) store
          = (.ok (), middle)
        ∧ outcome (Store.native.write table.scope (table.primaryKey record)
            (table.format.pack record) table.scope) middle = (.ok change, after)
        ∧ outcome (table.put Store.native record) store = (.ok plan.report, after) := by
  have erased : ∀ primaryKey fault after,
      outcome (table.eraseAt Store.native primaryKey) store = (.error fault, after) →
      after = store := by
    intro primaryKey fault after fails
    rcases outcome_eraseAt table store primaryKey with ⟨_, _, ends⟩ | ⟨_, _, _, ends⟩
    · rw [ends] at fails
      exact (congrArg Prod.snd fails).symm
    · rw [ends] at fails
      exact nomatch congrArg Prod.fst fails
  refine ⟨fun write fault after fails => ?_, fun record plan looked found => ?_⟩
  · cases write with
    | put record =>
      have putFails : outcome (table.put Store.native record) store = _ := fails
      rcases outcome_put table store record with ⟨_, _, ends⟩ | ⟨_, _, _, ends⟩
      · rw [ends] at putFails
        exact (congrArg Prod.snd putFails).symm
      · rw [ends] at putFails
        exact nomatch congrArg Prod.fst putFails
    | erase record => exact erased (table.primaryKey record) fault after fails
    | eraseByKey key => exact erased _ fault after fails
  · rw [outcome_plan] at found
    have decided := congrArg Prod.fst found
    exact ⟨(congrArg Prod.snd found).symm, outcome_carried decided⟩

/-- A store with a foreign entry under the key that notes of one byte have by their length. -/
def foreignStore : Store :=
  let taken := (noteTable.secondaries.map fun index => index.fullKey [1]).headD []
  (outcome (Store.write ⟨7⟩ taken [0xff] ⟨9⟩) (Store.fresh default)).2

theorem refused_unchanged_foreign :
    (∃ fault, outcome (perform Store.native noteTable (.put [1])) foreignStore
      = (.error fault, foreignStore)) ∧
    ∃ (plan : Plan Bytes) (after : Store),
      outcome (noteTable.put Store.native [2, 2]) foreignStore = (.ok plan.report, after) := by
  have refused : (outcome (perform Store.native noteTable (.put [1])) foreignStore).1.isOk
      = false := by decide +kernel
  have planned : (outcome (noteTable.plan Store.native [2, 2]) foreignStore).1.isOk := by
    decide +kernel
  obtain ⟨unchanged, carried⟩ := refused_unchanged noteTable foreignStore
  constructor
  · rcases ends : outcome (perform Store.native noteTable (.put [1])) foreignStore
      with ⟨fault | report, after⟩
    · rw [unchanged (.put [1]) fault after ends]
      exact ⟨fault, rfl⟩
    · rw [ends] at refused
      exact nomatch refused
  · rcases ends : outcome (noteTable.plan Store.native [2, 2]) foreignStore
      with ⟨fault | plan, looked⟩
    · rw [ends] at planned
      exact nomatch planned
    · obtain ⟨_, _, _, after, _, _, put⟩ := carried [2, 2] plan looked ends
      exact ⟨plan, after, put⟩

end TableWrite

end IndexedStore
