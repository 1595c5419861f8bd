import IndexedStore.Proofs.Store.Calls
import IndexedStore.Proofs.Store.Scripts
import IndexedStore.Proofs.Table.Writes
/-!
# Tables stay consistent

A client of a table runs a script of the table's own writes and of other calls of the store that
spare the table's keys, some of it in units of work. Through all of that the store files a map of
records: the one that the successful writes have made, where a unit that failed has made none.

* `TableCall` is a call of such a client, `TableCall.edit` its effect on the records;
* `Table.files_script` carries the filed map through a script;
* **`Table.files_run`** starts it from a table that has just been bound.
-/

namespace IndexedStore

open IndexedStore.Action

variable {ρ α β : Type}

/-- Whether a call of the store writes no key of a table. -/
def Call.Spares (table : Table ρ) (call : Call β) : Prop :=
  ∀ index ∈ table.indices, ∀ key,
    call.writes? ≠ some (table.scope, index.placement.fullKey key)

/-- A call of a client of a table: one of the table's writes, or any other call of the store that
    spares the table's keys. -/
inductive TableCall (table : Table ρ) : Type → Type where
  | own {β : Type} (write : TableWrite ρ β) : TableCall table β
  | other {β : Type} (issued : Issued β) (spares : issued.call.Spares table) : TableCall table β

namespace TableCall

variable {table : Table ρ}

/-- Makes a call. -/
def perform : TableCall table β → Action Store β
  | own write => write.perform Store.native table
  | other issued _ => issued.perform

/-- The records after a call that ended with `answer`. -/
def edit : TableCall table β → Except Fault β → OrdMap Bytes ρ → OrdMap Bytes ρ
  | own write, answer, records => write.edit table answer records
  | other _ _, _, records => records

theorem noted (call : TableCall table β) : call.perform.Keeps Noted := by
  cases call with
  | own write =>
    exact write.keeps ⟨Noted.chains, fun _ _ => Keeps.of_same_state Noted.chains fun _ => rfl,
      Noted.write, Noted.erase⟩ table
  | other issued _ => exact issued.noted

theorem files (roundTrip : table.format.RoundTrip) (apart : table.Apart)
    (call : TableCall table β) (store : Store) (records : OrdMap Bytes ρ)
    (h : table.Files store records) :
    table.Files (outcome call.perform store).2
      (call.edit (outcome call.perform store).1 records) := by
  cases call with
  | own write => exact write.files roundTrip apart h
  | other issued spares =>
    exact h.congr fun index mem key => issued.find?_perform (spares index mem key) store

end TableCall

namespace Table

variable {table : Table ρ}

/-- **A script keeps the table filed.** A unit of work that fails has taken its writes back, so the
    records from before are filed again. -/
theorem files_script (roundTrip : table.format.RoundTrip) (apart : table.Apart)
    (script : Script (TableCall table) α) (store : Store) (records : OrdMap Bytes ρ)
    (h : table.Files store records) :
    table.Files (outcome (script.run TableCall.perform) store).2
      (script.follow TableCall.perform TableCall.edit store records) := by
  refine Script.follow_induction (I := table.Files) (TableCall.files roundTrip apart) ?_
    script store records h
  intro β inner filesInner store records h
  have noted : (inner.run TableCall.perform).Keeps Noted :=
    Script.keeps Noted.chains TableCall.noted (fun _ => Store.noted_transact _) inner
  cases closed : store.log with
  | some log =>
    rw [Store.transact_nested _ (by rw [closed]; rfl)]
    exact h
  | none =>
    have begun : table.Files { store with log := some [] } records := h.congr fun _ _ _ => rfl
    rcases ends : outcome (inner.run TableCall.perform) { store with log := some [] }
      with ⟨fault | value, after⟩
    · rw [Store.transact_of_error closed ends]
      have entries := Store.sameEntries_of_error noted ends
      exact h.congr fun index _ key => entries.find? _ _
    · rw [Store.transact_of_ok closed ends]
      have ran := filesInner _ _ begun
      rw [ends] at ran
      exact ran.congr fun _ _ _ => rfl

/-- **Tables stay consistent.** Bind any schema, over a scope of a store without entries under the
    table's stems, for records that read back from their payloads. Then after every run of a client
    the entries under the table's stems are exactly those of the records that its writes have left.
    No secondary entry dangles, and no record lacks one. -/
theorem files_run {schema : Schema ρ} {format : RecordFormat ρ} {scope : Name} {serial : Nat}
    (bound : schema.bind format scope serial = .ok table) (roundTrip : format.RoundTrip)
    {store : Store} (free : ∀ index ∈ table.indices, ∀ key,
      store.find? scope (index.placement.fullKey key) = none)
    (script : Script (TableCall table) α) :
    let after := (outcome (script.run TableCall.perform) store).2
    let records := script.follow TableCall.perform TableCall.edit store .empty
    table.Files after records ∧
    ∀ index ∈ table.secondaries,
      (∀ key found, after.find? scope (index.placement.fullKey key) = some found →
        ∃ record, after.find? scope found.value = some ⟨format.pack record, scope⟩
          ∧ index.fullKey record = index.placement.fullKey key) ∧
      ∀ key found, after.find? scope (table.primaryIndex.placement.fullKey key) = some found →
        ∃ record, format.unpack found.value = .ok record
          ∧ after.find? scope (index.fullKey record) = some ⟨table.primaryKey record, scope⟩ := by
  intro after records
  obtain ⟨inScope, inFormat, _⟩ := Schema.of_bind bound
  have apart := Schema.apart_of_bind bound
  subst inScope inFormat
  have files : table.Files after records :=
    files_script roundTrip apart script store .empty (Files.empty free)
  refine ⟨files, fun index mem => ⟨fun key found stored => ?_, fun key found stored => ?_⟩⟩
  · obtain ⟨record, _, here, points⟩ := files.points mem stored
    exact ⟨record, points, congrArg index.placement.fullKey here⟩
  · rw [files.primary] at stored
    obtain ⟨record, filed, rfl⟩ := Option.map_eq_some_iff.mp stored
    have own := files.own _ _ filed
    refine ⟨record, roundTrip record, (files.secondary index mem _ _).mpr ⟨record, ?_, rfl, rfl⟩⟩
    rw [own]
    exact filed

/-- Two notes of one length, the second of which is refused, and a unit of work that fails. -/
def noteRun : Script (TableCall noteTable) Unit :=
  .call (.own (.put [1])) fun _ =>
  .call (.own (.put [2])) fun _ =>
  .unit (.call (.own (.put [2, 2])) fun _ => .finish (.error .keyNotFound : Except Fault Unit))
    fun _ => .finish (.ok ())

theorem files_run_notes :
    let records := noteRun.follow TableCall.perform TableCall.edit (Store.fresh default) .empty
    noteTable.Files (outcome (noteRun.run TableCall.perform) (Store.fresh default)).2 records
      ∧ records.entries.map (·.2) = [[1]] :=
  ⟨(files_run bind_notes (fun _ => rfl) (fun _ _ _ => rfl) noteRun).1, by decide +kernel⟩

end Table

end IndexedStore
