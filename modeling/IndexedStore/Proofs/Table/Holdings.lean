import IndexedStore.Proofs.Store.Estates
import IndexedStore.Proofs.Table.Clients
/-!
# What tables and single records own

A table owns the keys of its indices, a single record owns its one key. Tables that differ in scope,
status or name own no key in common, and neither do single records that differ in scope or name, nor a
table and a single record. All writes and all questions about one key keep to what their table or
their single record owns.

* `Table.estate` and `SingleRecord.estate` are the estates; the pointers of a table are the entries of
  its secondary indices;
* `Table.apart_of_bound`, `SingleRecord.apart` and `Table.apart_single` are that estates are apart;
* `TableWrite.within`, `View.within_get` and `SingleCall.within` are that work keeps to them.
-/

namespace IndexedStore

open IndexedStore.Action

variable {ρ β : Type}

/-! ## 1. Estates -/

/-- The keys of a table's indices. The entries of the secondary ones hold primary keys. -/
def Table.estate (table : Table ρ) : Estate where
  scope := table.scope
  owns key := ∃ index ∈ table.indices, Bytes.startsWith key index.placement.stem
  points key := ∃ index ∈ table.secondaries, Bytes.startsWith key index.placement.stem
  owns_of_points := fun ⟨index, mem, begins⟩ =>
    ⟨index, Table.mem_of_mem_secondaries mem, begins⟩

/-- The key of a single record. -/
def SingleRecord.estate (single : SingleRecord ρ) : Estate where
  scope := single.scope
  owns key := key = single.key
  points _ := False
  owns_of_points := False.elim

/-- The key of a single record tells its name. -/
theorem Key.single_inj {a b : Name} (h : Key.single a = Key.single b) : a = b := by
  have parts : ∀ name, Key.single name
      = (KeyValue.uint64 singleStatus).encode ++ ((KeyValue.name name).encode ++ []) := fun _ => rfl
  rw [parts, parts] at h
  exact Name.eq_of_order_eq (KeyType.order_eq_of_append_eq .name (List.append_cancel_left h))

/-- Single records of different names, or in different scopes, have different keys. -/
theorem SingleRecord.apart {σ : Type} {first : SingleRecord ρ} {second : SingleRecord σ}
    (differ : ¬ (first.scope = second.scope ∧ first.name = second.name)) :
    first.estate.Apart second.estate := by
  rintro scopes _ rfl same
  exact differ ⟨scopes, Key.single_inj same⟩

/-- Tables that are bound under different statuses or names, or in different scopes, have no key in
    common. -/
theorem Table.apart_of_bound {σ : Type} {first : Table ρ} {second : Table σ} {a b : UInt8}
    (bound : Schema.Bound a first.name first.indices)
    (bound' : Schema.Bound b second.name second.indices)
    (differ : ¬ (first.scope = second.scope ∧ a = b ∧ first.name = second.name)) :
    first.estate.Apart second.estate := by
  rintro scopes key ⟨index, mem, begins⟩ ⟨index', mem', begins'⟩
  rw [bound.stem index mem, Bytes.startsWith_iff] at begins
  rw [bound'.stem index' mem', Bytes.startsWith_iff] at begins'
  obtain ⟨rest, same⟩ := begins
  obtain ⟨rest', same'⟩ := begins'
  have stems := List.append_inj_left (same.trans same'.symm) (by simp)
  obtain ⟨statuses, names, _⟩ := Key.stem_inj stems
  exact differ ⟨scopes, statuses, names⟩

/-- Stems are longer than the keys of single records. -/
theorem Table.apart_single {σ : Type} {table : Table ρ} (apart : table.Apart)
    (single : SingleRecord σ) : table.estate.Apart single.estate := by
  rintro _ key ⟨index, mem, begins⟩ (rfl : key = single.key)
  obtain ⟨rest, same⟩ := Bytes.startsWith_iff.mp begins
  have lengths := congrArg List.length same
  rw [List.length_append, apart.length index mem] at lengths
  have short : single.key.length = 16 := Key.length_single single.name
  unfold Key.stemLength at lengths
  omega

/-! ## 2. Writes -/

namespace Table

variable {table : Table ρ}

/-- The entries of a record lie in the table's estate. -/
theorem owns_fullKey {index : Index ρ} (mem : index ∈ table.indices) (record : ρ) :
    table.estate.owns (index.fullKey record) :=
  ⟨index, mem, Placement.contains_iff.mpr ⟨_, rfl⟩⟩

theorem owns_primaryKey (table : Table ρ) (record : ρ) :
    table.estate.owns (table.primaryKey record) :=
  owns_fullKey (primary_mem table) record

theorem not_points_primary (apart : table.Apart) (key : Bytes) :
    ¬ table.estate.points (table.primaryIndex.placement.fullKey key) := by
  rintro ⟨index, mem, begins⟩
  obtain ⟨rest, same⟩ := Placement.contains_iff.mp begins
  exact apart.primary_ne mem key rest same

theorem within_stored {key : Bytes} (own : table.estate.owns key) :
    (table.stored Store.native key).Within table.estate := by
  refine Within.read_bind own fun found _ => ?_
  cases found with
  | none => exact Within.pure none
  | some payload => exact Within.bind (Within.ofExcept _) fun _ => Within.pure _

theorem within_decideStep (record : ρ) (old : Option ρ) {index : Index ρ}
    (mem : index ∈ table.secondaries) :
    (table.decideStep Store.native record old index).Within table.estate := by
  refine Within.read_bind (owns_fullKey (mem_of_mem_secondaries mem) record) fun found _ => ?_
  cases old with
  | none =>
    cases found with
    | none => exact Within.pure _
    | some _ => exact Within.throw _
  | some held =>
    cases found with
    | none => exact Within.pure _
    | some pointer =>
      dsimp only
      split
      · exact Within.pure _
      · exact Within.throw _

theorem within_plan (record : ρ) : (table.plan Store.native record).Within table.estate := by
  refine Within.get_bind (checkLimits Store.native table record)
    (fun checked => Action.ofExcept checked >>= fun _ => _) (fun s t alike => ?_) fun checked => ?_
  · have limits : ∀ store : Store, checkLimits Store.native table record store
        = checkLimits Store.native table record (Store.fresh store.settings) := fun _ => rfl
    rw [limits s, limits t, alike.settings]
  · refine Within.bind (Within.ofExcept _) fun _ =>
      Within.bind (within_stored (owns_primaryKey table record)) fun old => ?_
    refine Within.bind (Within.mapM _ fun index mem => ?_) fun _ => Within.pure _
    exact Within.bind (within_decideStep record old mem) fun _ => Within.pure _

/-- The steps of a plan are about the secondary indices, and move entries away from keys of theirs. -/
theorem within_writeSecondary (record : ρ) {step : Index ρ × SecondaryStep}
    (mem : step.1 ∈ table.indices) (old : ∀ key, step.2 = .move key → table.estate.owns key) :
    (table.writeSecondary Store.native record step).Within table.estate := by
  have write := Within.bind
    (Within.write (owns_fullKey mem record) _ (fun _ => owns_primaryKey table record) table.scope)
    fun _ => Within.pure ()
  unfold writeSecondary
  cases decided : step.2 with
  | keep => exact Within.pure ()
  | insert => exact write
  | move key => exact Within.bind (Within.erase (old key decided)) fun _ => write

/-- An entry is moved away from the key that it had for the record before. -/
theorem move_of_decision {store : Store} {record : ρ} {old : Option ρ} {index : Index ρ}
    {key : Bytes} (decided : table.decision store record old index = .ok (.move key)) :
    ∃ held, key = index.fullKey held := by
  unfold decision at decided
  cases old with
  | none =>
    cases stored : store.find? table.scope (index.fullKey record) with
    | none =>
      rw [stored] at decided
      cases decided
    | some _ =>
      rw [stored] at decided
      cases decided
  | some held =>
    cases stored : store.find? table.scope (index.fullKey record) with
    | none =>
      rw [stored] at decided
      cases decided
      exact ⟨held, rfl⟩
    | some entry =>
      rw [stored] at decided
      dsimp only at decided
      split at decided <;> cases decided

theorem within_put (apart : table.Apart) (record : ρ) :
    (table.put Store.native record).Within table.estate := by
  have plans : ∀ s t, table.estate.Alike s t → table.decided s record = table.decided t record := by
    intro s t alike
    have looked := (within_plan record s t alike).result
    rw [outcome_plan, outcome_plan] at looked
    exact looked
  refine Within.looks_bind (fun s => outcome_plan table s record) plans fun s plan found => ?_
  obtain ⟨_, items, old, _, _, decided⟩ := of_decided found
  have carried : (plan.steps.forM (table.writeSecondary Store.native record)).Within
      table.estate := by
    refine Within.forM _ fun step mem => ?_
    have known : step.1 ∈ table.indices :=
      mem_of_mem_secondaries (items ▸ List.mem_map_of_mem mem)
    refine within_writeSecondary record known fun key moves => ?_
    have away := decided step mem
    rw [moves] at away
    obtain ⟨held, rfl⟩ := move_of_decision away
    exact owns_fullKey known held
  have stored := Within.write (owns_primaryKey table record) (table.format.pack record)
    (fun points => absurd points (not_points_primary apart _)) table.scope
  exact Within.bind carried fun _ => Within.bind stored fun _ => Within.pure _

theorem within_eraseAt {key : Bytes} (own : table.estate.owns key) :
    (table.eraseAt Store.native key).Within table.estate := by
  refine Within.bind (within_stored own) fun found => ?_
  cases found with
  | none => exact Within.pure false
  | some old =>
    refine Within.bind (Within.forM _ fun index mem => ?_) fun _ =>
      Within.bind (Within.erase own) fun _ => Within.pure true
    exact Within.bind (Within.erase (owns_fullKey (mem_of_mem_secondaries mem) old))
      fun _ => Within.pure ()

theorem owns_primaryView (table : Table ρ) (key : KeyValue) :
    table.estate.owns (table.primaryView.fullKey (.value key)) :=
  ⟨table.primaryIndex, primary_mem table, Placement.contains_iff.mpr ⟨_, rfl⟩⟩

end Table

/-- **Writes keep to what their table owns.** -/
theorem TableWrite.within {table : Table ρ} (apart : table.Apart) (made : TableWrite ρ β) :
    (made.perform Store.native table).Within table.estate := by
  cases made with
  | put record => exact Table.within_put apart record
  | erase record => exact Table.within_eraseAt (Table.owns_primaryKey table record)
  | eraseByKey key => exact Table.within_eraseAt (Table.owns_primaryView table key)

/-! ## 3. Questions about one key -/

namespace View

variable (view : View ρ) {key : Bytes}

theorem covers_stem : view.table.estate.Covers view.placement.stem :=
  fun _ begins => ⟨view.index, List.getElem_mem _, begins⟩

/-- What an index holds is resolved within the table. -/
theorem within_resolve {raw : Bytes}
    (leads : view.isPrimary = false → view.table.estate.owns raw) :
    (view.resolve Store.native raw).Within view.table.estate := by
  unfold resolve
  cases primary : view.isPrimary with
  | true => exact Within.ofExcept _
  | false =>
    refine Within.read_bind (leads primary) fun found _ => ?_
    cases found with
    | none => exact Within.throw _
    | some payload => exact Within.ofExcept _

/-- The keys of a secondary index are pointers. -/
theorem points_of_secondary (secondary : view.isPrimary = false)
    (begins : Bytes.startsWith key view.placement.stem) : view.table.estate.points key := by
  rcases view.index_cases with ⟨primary, _⟩ | ⟨_, mem⟩
  · rw [secondary] at primary
    cases primary
  · exact ⟨view.index, mem, begins⟩

/-- A key of the table is read as one of the index's: under a secondary index it must hold a key. -/
theorem within_get (own : view.table.estate.owns key)
    (leads : view.isPrimary = false → view.table.estate.points key) :
    (view.get Store.native key).Within view.table.estate := by
  refine Within.read_bind own fun found pointed => ?_
  cases found with
  | none => exact Within.pure none
  | some raw =>
    have resolved := within_resolve view fun secondary => pointed (leads secondary) raw rfl
    exact Within.bind resolved fun _ => Within.pure _

theorem within_demand (own : view.table.estate.owns key)
    (leads : view.isPrimary = false → view.table.estate.points key) :
    (view.demand Store.native key).Within view.table.estate := by
  refine Within.bind (within_get view own leads) fun found => ?_
  cases found with
  | none => exact Within.throw _
  | some record => exact Within.pure record

end View

/-! ## 4. Single records -/

/-- **Calls keep to what their single record owns.** -/
theorem SingleCall.within (single : SingleRecord ρ) (made : SingleCall ρ β) :
    (made.perform Store.native single).Within single.estate := by
  have held : (single.isStored Store.native).Within single.estate := Within.holds rfl
  have get : (single.get Store.native).Within single.estate := by
    refine Within.read_bind rfl fun found _ => ?_
    cases found with
    | none => exact Within.pure none
    | some payload => exact Within.bind (Within.ofExcept _) fun _ => Within.pure _
  cases made with
  | isStored => exact held
  | get => exact get
  | getD default => exact Within.bind get fun _ => Within.pure _
  | put record =>
    exact Within.bind (Within.write rfl _ False.elim _) fun _ => Within.pure _
  | remove =>
    refine Within.bind held fun stored => ?_
    split
    · exact Within.bind (Within.erase rfl) fun _ => Within.pure _
    · exact Within.pure _

end IndexedStore
