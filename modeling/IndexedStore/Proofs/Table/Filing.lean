import IndexedStore.Proofs.Store.Units
import IndexedStore.Proofs.Table.Planning
/-!
# What a table files

A table keeps a map of records in a store: each record has its payload under the primary key and,
under each secondary index, an entry that points there. The store FILES the map if the entries with
the table's stems are exactly these. Storing and dropping records keep that, and change the map as
one expects.

* `Table.Files` relates a store and a map of records, keyed by encoded primary keys;
* `Table.Planned` is what a plan may say of one index;
* `Table.Files.put` and `Table.Files.eraseAt` are what the writes of a table do to the map.
-/

namespace IndexedStore

open IndexedStore.Action

variable {ρ : Type}

/-- Whether payloads read back as the records that were packed. -/
def RecordFormat.RoundTrip (format : RecordFormat ρ) : Prop :=
  ∀ record, format.unpack (format.pack record) = .ok record

namespace Table

/-! ## 1. Filed records -/

/-- The encoded primary key of a record: its primary key in the store, without the stem. -/
def recordKey (table : Table ρ) (record : ρ) : Bytes :=
  (table.primaryIndex.key record).encode

/-- An entry that a table makes; the table's scope pays. -/
def entry (table : Table ρ) (value : Bytes) : Entry :=
  ⟨value, table.scope⟩

/-- Whether the entries of a store with the table's stems are exactly those of the given records:
    under the primary index the payload of each, and under each secondary index an entry that points
    to the primary key. -/
structure Files (table : Table ρ) (store : Store) (records : OrdMap Bytes ρ) : Prop where
  own : ∀ key record, records.get? key = some record → table.recordKey record = key
  primary : ∀ key, store.find? table.scope (table.primaryIndex.placement.fullKey key)
    = (records.get? key).map fun record => table.entry (table.format.pack record)
  secondary : ∀ index ∈ table.secondaries, ∀ key entry,
    store.find? table.scope (index.placement.fullKey key) = some entry ↔
      ∃ record, records.get? (table.recordKey record) = some record
        ∧ (index.key record).encode = key ∧ entry = table.entry (table.primaryKey record)

namespace Files

variable {table : Table ρ} {store : Store} {records : OrdMap Bytes ρ}

/-- Only the entries with the table's stems matter. -/
theorem congr (h : table.Files store records) {other : Store}
    (same : ∀ index ∈ table.indices, ∀ key,
      other.find? table.scope (index.placement.fullKey key)
        = store.find? table.scope (index.placement.fullKey key)) :
    table.Files other records where
  own := h.own
  primary key := by
    rw [same _ (primary_mem table), h.primary]
  secondary index mem key entry := by
    rw [same index (mem_of_mem_secondaries mem)]
    exact h.secondary index mem key entry

/-- Where the entries of two stores are the same, so is what they file. -/
theorem of_shelves (h : table.Files store records) {other : Store}
    (same : other.shelves = store.shelves) : table.Files other records :=
  h.congr fun _ _ _ => by
    unfold Store.find? Store.shelf
    rw [same]

/-- A store without entries under the table's stems files no records. -/
theorem empty (free : ∀ index ∈ table.indices, ∀ key,
    store.find? table.scope (index.placement.fullKey key) = none) :
    table.Files store .empty where
  own key record h := nomatch h
  primary key := free _ (primary_mem table) key
  secondary index mem key entry := by
    rw [free index (mem_of_mem_secondaries mem)]
    exact ⟨fun h => (nomatch h), fun ⟨_, h, _⟩ => (nomatch h)⟩

/-- **Secondary keys are unique**: two filed records with one key under a secondary index are one. -/
theorem unique (h : table.Files store records) {index : Index ρ} (mem : index ∈ table.secondaries)
    {a b : ρ} (filedA : records.get? (table.recordKey a) = some a)
    (filedB : records.get? (table.recordKey b) = some b)
    (same : (index.key a).encode = (index.key b).encode) : a = b := by
  have entryA := (h.secondary index mem _ _).mpr ⟨a, filedA, rfl, rfl⟩
  have entryB := (h.secondary index mem _ _).mpr ⟨b, filedB, same.symm, rfl⟩
  rw [entryA] at entryB
  have values : table.primaryKey a = table.primaryKey b :=
    congrArg Entry.value (Option.some.inj entryB)
  have keys : table.recordKey a = table.recordKey b := Placement.fullKey_inj values
  rw [keys, filedB] at filedA
  exact (Option.some.inj filedA).symm

/-- **No pointer dangles**: what a secondary entry points to is a primary entry. -/
theorem points (h : table.Files store records) {index : Index ρ} (mem : index ∈ table.secondaries)
    {key : Bytes} {found : Entry}
    (stored : store.find? table.scope (index.placement.fullKey key) = some found) :
    ∃ record, records.get? (table.recordKey record) = some record
      ∧ (index.key record).encode = key
      ∧ store.find? table.scope found.value
          = some (table.entry (table.format.pack record)) := by
  obtain ⟨record, filed, here, rfl⟩ := (h.secondary index mem key found).mp stored
  refine ⟨record, filed, here, ?_⟩
  show store.find? table.scope (table.primaryIndex.placement.fullKey (table.recordKey record)) = _
  rw [h.primary, filed]
  rfl

end Files

/-! ## 2. Looking -/

/-- Whether the payloads of the given records read back. -/
def ReadsBack (table : Table ρ) (records : OrdMap Bytes ρ) : Prop :=
  ∀ key record, records.get? key = some record →
    table.format.unpack (table.format.pack record) = .ok record

/-- What the plan for `record` may say of one index, when `old` is the record that it replaces. -/
def Planned (table : Table ρ) (store : Store) (record : ρ) (old : Option ρ) (index : Index ρ) :
    SecondaryStep → Prop
  | .insert => old = none ∧ store.find? table.scope (index.fullKey record) = none
  | .keep => ∃ held entry, old = some held
    ∧ store.find? table.scope (index.fullKey record) = some entry
    ∧ entry.value = table.primaryKey record
  | .move source => ∃ held, old = some held
    ∧ store.find? table.scope (index.fullKey record) = none ∧ source = index.fullKey held

section Looking

variable {table : Table ρ} {store : Store} {records : OrdMap Bytes ρ}

theorem readsBack (roundTrip : table.format.RoundTrip) (records : OrdMap Bytes ρ) :
    table.ReadsBack records :=
  fun _ record _ => roundTrip record

/-- The record under a primary key is the one that is filed there. -/
theorem Files.storedRecord (h : table.Files store records) (back : table.ReadsBack records)
    (key : Bytes) :
    table.storedRecord store (table.primaryIndex.placement.fullKey key)
      = .ok (records.get? key) := by
  unfold Table.storedRecord
  rw [h.primary]
  cases filed : records.get? key with
  | none => rfl
  | some record =>
    show some <$> table.format.unpack (table.format.pack record) = _
    rw [back key record filed]
    rfl

theorem planned_of_decision {record : ρ} {old : Option ρ} {index : Index ρ} {step : SecondaryStep}
    (h : table.decision store record old index = .ok step) :
    table.Planned store record old index step := by
  unfold decision at h
  cases found : store.find? table.scope (index.fullKey record) with
  | none =>
    rw [found] at h
    cases old with
    | none =>
      cases h
      exact ⟨rfl, found⟩
    | some held =>
      cases h
      exact ⟨held, rfl, found, rfl⟩
  | some entry =>
    rw [found] at h
    cases old with
    | none => exact nomatch h
    | some held =>
      dsimp only at h
      split at h
      · cases h
        exact ⟨held, entry, rfl, found, ‹_›⟩
      · exact nomatch h

end Looking

/-! ## 3. Writing -/

/-- Whether `after` is the store `before` with another entry, or none, at one key of a scope. -/
structure Changed (scope : Name) (key : Bytes) (entry : Option Entry) (before after : Store) :
    Prop where
  settings : after.settings = before.settings
  find? : ∀ probe, after.find? scope probe
    = if probe = key then entry else before.find? scope probe

/-- A write within the limits is done. -/
theorem changed_write {store : Store} {key value : Bytes} (scope payer : Name)
    (shortKey : key.length ≤ store.settings.limits.maxKeySize.toNat)
    (shortValue : value.length ≤ store.settings.limits.maxValueSize.toNat) :
    ∃ change after, outcome (Store.write scope key value payer) store = (.ok change, after)
      ∧ Changed scope key (some ⟨value, payer⟩) store after := by
  rw [Store.outcome_write, if_neg (Nat.not_lt.mpr shortKey), if_neg (Nat.not_lt.mpr shortValue)]
  refine ⟨_, _, rfl, Store.settings_replace .., fun probe => ?_⟩
  rw [Store.find?_replace]
  simp only [true_and]

/-- Erasing is always done. -/
theorem changed_erase (store : Store) (scope : Name) (key : Bytes) :
    ∃ change after, outcome (Store.erase scope key) store = (.ok change, after)
      ∧ Changed scope key none store after := by
  rw [Store.outcome_erase]
  cases found : store.find? scope key with
  | none =>
    refine ⟨_, _, rfl, rfl, fun probe => ?_⟩
    by_cases here : probe = key
    · rw [if_pos here, here, found]
    · rw [if_neg here]
  | some entry =>
    refine ⟨_, _, rfl, Store.settings_replace .., fun probe => ?_⟩
    rw [Store.find?_replace]
    simp only [true_and]

/-- Writes under indices that are apart, one after the other: each index sees its own write and no
    other one. `effect` says what the write for an item makes of an entry. -/
theorem outcome_forM_apart {γ : Type} {scope : Name} {settings : Settings}
    {body : γ → Action Store Unit} (placement : γ → Placement)
    (effect : γ → Bytes → Option Entry → Option Entry) {list : List γ}
    (each : ∀ item ∈ list, ∀ store : Store, store.settings = settings →
      ∃ after, outcome (body item) store = (.ok (), after) ∧ after.settings = settings
        ∧ ∀ probe, after.find? scope probe = effect item probe (store.find? scope probe))
    (alone : ∀ item ∈ list, ∀ probe entry, (∀ key, probe ≠ (placement item).fullKey key) →
      effect item probe entry = entry)
    (distinct : list.Pairwise fun a b => ∀ first second,
      (placement a).fullKey first ≠ (placement b).fullKey second)
    (store : Store) (start : store.settings = settings) :
    ∃ after, outcome (list.forM body) store = (.ok (), after) ∧ after.settings = settings
      ∧ (∀ item ∈ list, ∀ key, after.find? scope ((placement item).fullKey key)
          = effect item ((placement item).fullKey key)
              (store.find? scope ((placement item).fullKey key)))
      ∧ ∀ probe, (∀ item ∈ list, ∀ key, probe ≠ (placement item).fullKey key) →
          after.find? scope probe = store.find? scope probe := by
  induction list generalizing store with
  | nil =>
    exact ⟨store, rfl, start, fun _ mem => absurd mem List.not_mem_nil, fun _ _ => rfl⟩
  | cons head rest ih =>
    obtain ⟨first, tail⟩ := List.pairwise_cons.mp distinct
    obtain ⟨middle, ran, kept, changed⟩ := each head List.mem_cons_self store start
    obtain ⟨after, ran', kept', inside, outside⟩ := ih
      (fun item mem => each item (List.mem_cons_of_mem _ mem))
      (fun item mem => alone item (List.mem_cons_of_mem _ mem)) tail middle kept
    refine ⟨after, (outcome_bind_ok ran).trans ran', kept', fun item mem key => ?_,
      fun probe other => ?_⟩
    · rcases List.mem_cons.mp mem with here | later
      · subst here
        rw [outside _ fun item mem second => first item mem key second, changed]
      · rw [inside item later key, changed,
          alone head List.mem_cons_self _ _ fun second same => first item later second key same.symm]
    · rw [outside probe fun item mem => other item (List.mem_cons_of_mem _ mem), changed,
        alone head List.mem_cons_self _ _ (other head List.mem_cons_self)]

/-- What a step makes of the entry at a key; `target` is the key that the record takes. -/
def SecondaryStep.effect (target : Bytes) (pointer : Entry) :
    SecondaryStep → Bytes → Option Entry → Option Entry
  | .keep, _, entry => entry
  | .insert, probe, entry => if probe = target then some pointer else entry
  | .move source, probe, entry =>
    if probe = target then some pointer else if probe = source then none else entry

theorem outcome_writeSecondary {table : Table ρ} {store : Store} {record : ρ}
    {step : Index ρ × SecondaryStep} (mem : step.1 ∈ table.secondaries)
    (fits : table.Fits store.settings record) :
    ∃ after, outcome (table.writeSecondary Store.native record step) store = (.ok (), after)
      ∧ after.settings = store.settings
      ∧ ∀ probe, after.find? table.scope probe
        = step.2.effect (step.1.fullKey record) (table.entry (table.primaryKey record)) probe
            (store.find? table.scope probe) := by
  obtain ⟨index, step⟩ := step
  unfold writeSecondary
  cases step with
  | keep => exact ⟨store, rfl, rfl, fun _ => rfl⟩
  | insert =>
    obtain ⟨change, after, wrote, changed⟩ := changed_write table.scope table.scope
      (fits.secondary index mem) fits.pointer
    exact ⟨after, outcome_bind_ok wrote, changed.settings, changed.find?⟩
  | move source =>
    obtain ⟨_, middle, erased, gone⟩ := changed_erase store table.scope source
    rw [← gone.settings] at fits
    obtain ⟨_, after, wrote, changed⟩ := changed_write table.scope table.scope
      (fits.secondary index mem) fits.pointer
    refine ⟨after, ?_, changed.settings.trans gone.settings, fun probe => ?_⟩
    · exact (outcome_bind_ok erased).trans (outcome_bind_ok wrote)
    · rw [changed.find?, gone.find?]
      rfl

/-! ## 4. Storing a record -/

section Storing

variable {table : Table ρ} {store : Store} {records : OrdMap Bytes ρ} {record : ρ}

/-- What is filed after a record is stored: the record, and what was filed under other keys. -/
theorem filed_insert {other : ρ} :
    (records.insert (table.recordKey record) record).get? (table.recordKey other) = some other ↔
      other = record ∨ (records.get? (table.recordKey other) = some other
        ∧ table.recordKey other ≠ table.recordKey record) := by
  by_cases same : table.recordKey other = table.recordKey record
  · rw [same, OrdMap.get?_insert_self]
    constructor
    · exact fun h => .inl (Option.some.inj h).symm
    · rintro (here | ⟨_, apart⟩)
      · rw [here]
      · exact absurd rfl apart
  · rw [OrdMap.get?_insert_of_ne _ same]
    constructor
    · exact fun h => .inr ⟨h, same⟩
    · rintro (here | ⟨h, _⟩)
      · exact absurd (congrArg table.recordKey here) same
      · exact h

/-- The record that an entry under a secondary index points to has the key of the entry. -/
theorem Files.of_pointer (h : table.Files store records) {index : Index ρ}
    (mem : index ∈ table.secondaries) {held : ρ} {found : Entry}
    (old : records.get? (table.recordKey record) = some held)
    (here : store.find? table.scope (index.fullKey record) = some found)
    (points : found.value = table.primaryKey record) :
    (index.key held).encode = (index.key record).encode
      ∧ found = table.entry (table.primaryKey record) := by
  obtain ⟨owner, filed, same, rfl⟩ := (h.secondary index mem _ _).mp here
  have keys : table.recordKey owner = table.recordKey record := Placement.fullKey_inj points
  have owns : owner = held := by
    rw [keys, old] at filed
    exact (Option.some.inj filed).symm
  subst owns
  exact ⟨same, congrArg table.entry points⟩

/-- Where a step is planned, no record but the one that is replaced has the new key. -/
theorem Planned.sole (h : table.Files store records) {index : Index ρ}
    (mem : index ∈ table.secondaries) {step : SecondaryStep}
    (planned : table.Planned store record (records.get? (table.recordKey record)) index step)
    {other : ρ} (filed : records.get? (table.recordKey other) = some other)
    (same : (index.key other).encode = (index.key record).encode) :
    table.recordKey other = table.recordKey record := by
  have taken := (h.secondary index mem _ _).mpr ⟨other, filed, same, rfl⟩
  cases step with
  | insert =>
    obtain ⟨_, free⟩ := planned
    cases free.symm.trans taken
  | keep =>
    obtain ⟨held, found, old, here, points⟩ := planned
    obtain ⟨key, _⟩ := h.of_pointer mem old here points
    have own := h.own _ _ old
    rw [h.unique mem filed (own.symm ▸ old) (same.trans key.symm), own]
  | move source =>
    obtain ⟨_, _, free, _⟩ := planned
    cases free.symm.trans taken

/-- A planned step leaves under its index: the new entry, nothing where the old record was, and all
    else as it is. -/
theorem Planned.settles (h : table.Files store records) {index : Index ρ}
    (mem : index ∈ table.secondaries) {step : SecondaryStep}
    (planned : table.Planned store record (records.get? (table.recordKey record)) index step)
    (key : Bytes) :
    step.effect (index.fullKey record) (table.entry (table.primaryKey record))
        (index.placement.fullKey key)
        (store.find? table.scope (index.placement.fullKey key))
      = if key = (index.key record).encode then some (table.entry (table.primaryKey record))
        else if (records.get? (table.recordKey record)).map (fun old => (index.key old).encode)
            = some key then none
        else store.find? table.scope (index.placement.fullKey key) := by
  have target : ∀ key other, index.placement.fullKey key = index.fullKey other
      ↔ key = (index.key other).encode :=
    fun key other => ⟨Placement.fullKey_inj, fun same => by rw [same]; rfl⟩
  cases step with
  | insert =>
    obtain ⟨new, _⟩ := planned
    rw [new]
    simp only [SecondaryStep.effect, target, Option.map_none, reduceCtorEq, if_false]
  | keep =>
    obtain ⟨held, found, old, here, points⟩ := planned
    obtain ⟨same, entry⟩ := h.of_pointer mem old here points
    rw [old]
    by_cases at_target : key = (index.key record).encode
    · subst at_target
      rw [if_pos rfl, ← entry]
      exact here
    · rw [if_neg at_target, if_neg ?_]
      · rfl
      · intro there
        exact at_target ((Option.some.inj there).symm.trans same)
  | move source =>
    obtain ⟨held, old, _, from_old⟩ := planned
    rw [old, from_old]
    simp only [SecondaryStep.effect, target, Option.map_some, Option.some.injEq, eq_comm]

/-- A secondary index after a record is stored: its entries are those of the records then filed. -/
theorem secondary_insert (h : table.Files store records) {index : Index ρ}
    (mem : index ∈ table.secondaries) {step : SecondaryStep}
    (planned : table.Planned store record (records.get? (table.recordKey record)) index step)
    (key : Bytes) (found : Entry) :
    step.effect (index.fullKey record) (table.entry (table.primaryKey record))
        (index.placement.fullKey key) (store.find? table.scope (index.placement.fullKey key))
      = some found ↔
    ∃ other, (records.insert (table.recordKey record) record).get? (table.recordKey other)
        = some other ∧ (index.key other).encode = key
      ∧ found = table.entry (table.primaryKey other) := by
  rw [planned.settles h mem key]
  by_cases at_target : key = (index.key record).encode
  · rw [if_pos at_target]
    constructor
    · intro here
      exact ⟨record, filed_insert.mpr (.inl rfl), at_target.symm, (Option.some.inj here).symm⟩
    · rintro ⟨other, filed, same, rfl⟩
      rcases filed_insert.mp filed with rfl | ⟨filed, apart⟩
      · rfl
      · exact absurd (planned.sole h mem filed (same.trans at_target)) apart
  · rw [if_neg at_target]
    by_cases at_source : (records.get? (table.recordKey record)).map
        (fun old => (index.key old).encode) = some key
    · rw [if_pos at_source]
      refine ⟨fun none => (nomatch none), ?_⟩
      rintro ⟨other, filed, same, _⟩
      rcases filed_insert.mp filed with rfl | ⟨filed, apart⟩
      · exact absurd same.symm at_target
      · obtain ⟨old, filedOld, there⟩ := Option.map_eq_some_iff.mp at_source
        have own := h.own _ _ filedOld
        have one := h.unique mem filed (own.symm ▸ filedOld) (same.trans there.symm)
        exact absurd ((congrArg table.recordKey one).trans own) apart
    · rw [if_neg at_source, h.secondary index mem]
      constructor
      · rintro ⟨other, filed, same, entry⟩
        refine ⟨other, filed_insert.mpr (.inr ⟨filed, fun keys => at_source ?_⟩), same, entry⟩
        rw [← keys, filed]
        exact congrArg some same
      · rintro ⟨other, filed, same, entry⟩
        rcases filed_insert.mp filed with rfl | ⟨filed, _⟩
        · exact absurd same.symm at_target
        · exact ⟨other, filed, same, entry⟩

/-- A planned step concerns the keys of its own index only. -/
theorem Planned.effect_of_ne {index : Index ρ} {old : Option ρ} {step : SecondaryStep}
    (planned : table.Planned store record old index step) {pointer : Entry} {probe : Bytes}
    (entry : Option Entry) (other : ∀ key, probe ≠ index.placement.fullKey key) :
    step.effect (index.fullKey record) pointer probe entry = entry := by
  cases step with
  | keep => rfl
  | insert => exact if_neg (other _)
  | move source =>
    obtain ⟨held, _, _, rfl⟩ := planned
    exact (if_neg (other _)).trans (if_neg (other _))

/-- The steps of a plan, carried out: each index has its own step's effect, and everything else is
    as it was. -/
theorem outcome_writeSecondaries (apart : table.Apart) {steps : List (Index ρ × SecondaryStep)}
    {old : Option ρ} (items : steps.map (·.1) = table.secondaries)
    (planned : ∀ step ∈ steps, table.Planned store record old step.1 step.2)
    (fits : table.Fits store.settings record) :
    ∃ after, outcome (steps.forM (table.writeSecondary Store.native record)) store
        = (.ok (), after)
      ∧ after.settings = store.settings
      ∧ (∀ step ∈ steps, ∀ key, after.find? table.scope (step.1.placement.fullKey key)
          = step.2.effect (step.1.fullKey record) (table.entry (table.primaryKey record))
              (step.1.placement.fullKey key)
              (store.find? table.scope (step.1.placement.fullKey key)))
      ∧ ∀ key, after.find? table.scope (table.primaryIndex.placement.fullKey key)
          = store.find? table.scope (table.primaryIndex.placement.fullKey key) := by
  have known : ∀ step ∈ steps, step.1 ∈ table.secondaries :=
    fun step mem => items ▸ List.mem_map_of_mem mem
  have distinct : steps.Pairwise fun a b => ∀ first second,
      a.1.placement.fullKey first ≠ b.1.placement.fullKey second := by
    have indices := apart.secondaries
    rw [← items] at indices
    exact List.pairwise_map.mp indices
  have each : ∀ step ∈ steps, ∀ now : Store, now.settings = store.settings →
      ∃ after, outcome (table.writeSecondary Store.native record step) now = (.ok (), after)
        ∧ after.settings = store.settings
        ∧ ∀ probe, after.find? table.scope probe
          = step.2.effect (step.1.fullKey record) (table.entry (table.primaryKey record)) probe
              (now.find? table.scope probe) := by
    intro step mem now same
    obtain ⟨after, ran, kept, changed⟩ := outcome_writeSecondary (known step mem) (same ▸ fits)
    exact ⟨after, ran, kept.trans same, changed⟩
  obtain ⟨after, ran, kept, inside, outside⟩ := outcome_forM_apart (fun step => step.1.placement)
    _ each (fun step mem _ entry other => (planned step mem).effect_of_ne entry other)
    distinct store rfl
  refine ⟨after, ran, kept, inside, fun key => outside _ fun step mem second => ?_⟩
  exact apart.primary_ne (known step mem) key second

/-- **Storing a record** fails and does nothing, or files the record in place of the one that had
    its primary key. -/
theorem Files.put (back : table.ReadsBack records) (apart : table.Apart)
    (h : table.Files store records) (record : ρ) :
    (∃ fault, outcome (table.put Store.native record) store = (.error fault, store)) ∨
    ∃ report after, outcome (table.put Store.native record) store = (.ok report, after)
      ∧ table.Files after (records.insert (table.recordKey record) record) := by
  have looked := outcome_plan table store record
  unfold Table.put
  rcases found : table.decided store record with fault | plan
  · rw [found] at looked
    exact .inl ⟨fault, outcome_bind_error looked⟩
  rw [found] at looked
  obtain ⟨fits, items, old, stored, _, decides⟩ := of_decided found
  obtain rfl : old = records.get? (table.recordKey record) :=
    Except.ok.inj (stored.symm.trans (h.storedRecord back _))
  have planned := fun step mem => planned_of_decision (decides step mem)
  obtain ⟨middle, wrote, settings, inside, outside⟩ :=
    outcome_writeSecondaries apart items planned fits
  rw [← settings] at fits
  obtain ⟨_, after, stored, changed⟩ := changed_write table.scope table.scope
    fits.key fits.payload
  rw [outcome_bind_ok looked, outcome_bind_ok wrote]
  refine .inr ⟨_, after, outcome_bind_ok stored, fun key found filed => ?_, fun key => ?_,
    fun index mem key found => ?_⟩
  · by_cases here : key = table.recordKey record
    · rw [here, OrdMap.get?_insert_self] at filed
      rw [here, ← Option.some.inj filed]
    · rw [OrdMap.get?_insert_of_ne _ here] at filed
      exact h.own key found filed
  · rw [changed.find?, outside]
    by_cases here : key = table.recordKey record
    · rw [here, OrdMap.get?_insert_self]
      exact if_pos rfl
    · rw [OrdMap.get?_insert_of_ne _ here, ← h.primary]
      exact if_neg fun same => here (Placement.fullKey_inj same)
  · obtain ⟨step, memStep, rfl⟩ := List.mem_map.mp (items ▸ mem)
    have other : step.1.placement.fullKey key ≠ table.primaryKey record :=
      fun same => apart.primary_ne mem _ _ same.symm
    rw [changed.find?, if_neg other, inside step memStep]
    exact secondary_insert h mem (planned step memStep) key found

end Storing

/-! ## 5. Dropping a record -/

section Dropping

variable {table : Table ρ} {store : Store} {records : OrdMap Bytes ρ}

/-- The secondary entries of a record, dropped one after the other. -/
theorem outcome_eraseSecondaries (apart : table.Apart) (store : Store) (record : ρ) :
    ∃ after, outcome (table.secondaries.forM fun index => do
          let _ ← Store.native.erase table.scope (index.fullKey record)) store = (.ok (), after)
      ∧ (∀ index ∈ table.secondaries, ∀ key,
          after.find? table.scope (index.placement.fullKey key)
          = if key = (index.key record).encode then none
            else store.find? table.scope (index.placement.fullKey key))
      ∧ ∀ key, after.find? table.scope (table.primaryIndex.placement.fullKey key)
          = store.find? table.scope (table.primaryIndex.placement.fullKey key) := by
  have each : ∀ index ∈ table.secondaries, ∀ now : Store, now.settings = store.settings →
      ∃ after, outcome (do let _ ← Store.native.erase table.scope (index.fullKey record)) now
          = (.ok (), after)
        ∧ after.settings = store.settings
        ∧ ∀ probe, after.find? table.scope probe
          = if probe = index.fullKey record then none else now.find? table.scope probe := by
    intro index _ now same
    obtain ⟨_, after, erased, gone⟩ := changed_erase now table.scope (index.fullKey record)
    exact ⟨after, outcome_bind_ok erased, gone.settings.trans same, gone.find?⟩
  obtain ⟨after, ran, _, inside, outside⟩ := outcome_forM_apart Index.placement
    (fun index probe entry => if probe = index.fullKey record then none else entry)
    each (fun index _ probe entry other => if_neg (other _))
    apart.secondaries store rfl
  refine ⟨after, ran, fun index mem key => ?_, fun key => outside _ fun index mem second => ?_⟩
  · rw [inside index mem]
    by_cases here : key = (index.key record).encode
    · rw [if_pos here, here]
      exact if_pos rfl
    · rw [if_neg here]
      exact if_neg fun same => here (Placement.fullKey_inj same)
  · exact apart.primary_ne mem key second

/-- A secondary index after a record is dropped: its entries are those of the records that are
    left. -/
theorem secondary_erase (h : table.Files store records) {index : Index ρ}
    (mem : index ∈ table.secondaries) {record : ρ}
    (filed : records.get? (table.recordKey record) = some record) (key : Bytes) (found : Entry) :
    (if key = (index.key record).encode then none
        else store.find? table.scope (index.placement.fullKey key)) = some found ↔
    ∃ other, (records.erase (table.recordKey record)).get? (table.recordKey other) = some other
      ∧ (index.key other).encode = key ∧ found = table.entry (table.primaryKey other) := by
  by_cases at_record : key = (index.key record).encode
  · rw [if_pos at_record]
    refine ⟨nofun, ?_⟩
    rintro ⟨other, left, same, _⟩
    obtain ⟨apart, filed'⟩ := OrdMap.get?_erase_eq_some_iff.mp left
    have one := h.unique mem filed' filed (same.trans at_record)
    exact absurd (congrArg table.recordKey one) apart
  · rw [if_neg at_record, h.secondary index mem]
    constructor
    · rintro ⟨other, filed', same, entry⟩
      refine ⟨other, OrdMap.get?_erase_eq_some_iff.mpr ⟨fun keys => at_record ?_, filed'⟩, same,
        entry⟩
      rw [keys, filed] at filed'
      rw [← same, Option.some.inj filed']
    · rintro ⟨other, left, same, entry⟩
      exact ⟨other, (OrdMap.get?_erase_eq_some_iff.mp left).2, same, entry⟩

/-- **Dropping a record** always succeeds, and files what is left. -/
theorem Files.eraseAt (back : table.ReadsBack records) (apart : table.Apart)
    (h : table.Files store records) (key : Bytes) :
    ∃ after, outcome (table.eraseAt Store.native (table.primaryIndex.placement.fullKey key)) store
        = (.ok (records.contains key), after)
      ∧ table.Files after (records.erase key) := by
  have found := outcome_stored table store (table.primaryIndex.placement.fullKey key)
  rw [h.storedRecord back] at found
  unfold Table.eraseAt
  rw [outcome_bind_ok found]
  unfold OrdMap.contains
  cases filed : records.get? key with
  | none =>
    rw [OrdMap.erase_of_get?_eq_none filed]
    exact ⟨store, rfl, h⟩
  | some record =>
    obtain rfl := h.own key record filed
    obtain ⟨middle, erased, inside, outside⟩ := outcome_eraseSecondaries apart store record
    obtain ⟨_, after, dropped, gone⟩ := changed_erase middle table.scope (table.primaryKey record)
    refine ⟨after, ?_, fun other found left => ?_, fun other => ?_, fun index mem other found => ?_⟩
    · exact (outcome_bind_ok erased).trans (outcome_bind_ok dropped)
    · exact h.own other found (OrdMap.get?_erase_eq_some_iff.mp left).2
    · rw [gone.find?, outside, OrdMap.get?_erase]
      by_cases same : other = table.recordKey record
      · rw [if_pos same, same]
        exact if_pos rfl
      · rw [if_neg same, ← h.primary]
        exact if_neg fun keys => same (Placement.fullKey_inj keys)
    · have apart_here : index.placement.fullKey other ≠ table.primaryKey record :=
        fun same => apart.primary_ne mem _ _ same.symm
      rw [gone.find?, if_neg apart_here, inside index mem]
      exact secondary_erase h mem filed other found

end Dropping

end Table

end IndexedStore
