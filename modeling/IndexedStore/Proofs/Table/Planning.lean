import IndexedStore.Proofs.Actions
import IndexedStore.Proofs.Table.Binding
import IndexedStore.Table.Writing
/-!
# How a put is planned

A put looks before it writes, and its looking touches nothing. So the plan is a FUNCTION of the record
and of the entries of the store, whatever these are: entries of another hand, payloads that do not
read back, pointers to nothing.

* `Table.storedRecord`, `Table.decision` and `Table.decided` are that function, for the record under a
  primary key, for one secondary index and for the plan as a whole;
* `Table.outcome_stored`, `Table.outcome_decideStep` and `Table.outcome_plan` say that the store is
  asked for nothing else;
* `Table.Fits` says that the entries of a record keep to the limits of a store, and
  `Table.checkLimits_native` that this is what the first check of a plan is about.
-/

namespace IndexedStore

open IndexedStore.Action

/-! ## 1. Looking several times -/

section Looking

variable {σ α β γ : Type}

/-- Two looks at one state find what their findings in sequence are. -/
theorem Action.outcome_bind_looks {action : Action σ α} {next : α → Action σ β} {state : σ}
    {found : Except Fault α} {finds : α → Except Fault β}
    (first : outcome action state = (found, state))
    (second : ∀ value, outcome (next value) state = (finds value, state)) :
    outcome (action >>= next) state = (found >>= finds, state) := by
  rw [outcome_bind, first]
  cases found with
  | error fault => rfl
  | ok value => exact second value

/-- Looking for each item of a list finds what the findings in sequence are. -/
theorem Action.outcome_mapM_looks {look : γ → Action σ β} {find : γ → Except Fault β} {state : σ}
    (each : ∀ item, outcome (look item) state = (find item, state)) (list : List γ) :
    outcome (list.mapM look) state = (list.mapM find, state) := by
  induction list with
  | nil =>
    rw [List.mapM_nil, List.mapM_nil]
    rfl
  | cons head rest ih =>
    rw [List.mapM_cons, List.mapM_cons]
    exact outcome_bind_looks (each head) fun _ => outcome_bind_looks ih fun _ => rfl

/-- Findings in sequence, each with the item it is for, are one for each item. -/
theorem of_mapM_paired {find : γ → Except Fault β} {list : List γ} {pairs : List (γ × β)}
    (h : (list.mapM fun item => do return (item, ← find item)) = .ok pairs) :
    pairs.map (·.1) = list ∧ ∀ pair ∈ pairs, find pair.1 = .ok pair.2 := by
  induction list generalizing pairs with
  | nil =>
    cases h
    exact ⟨rfl, fun _ mem => absurd mem List.not_mem_nil⟩
  | cons head rest ih =>
    rw [List.mapM_cons] at h
    obtain ⟨first, found, h⟩ := ok_of_bind h
    obtain ⟨value, here, same⟩ := ok_of_bind found
    obtain ⟨others, later, h⟩ := ok_of_bind h
    cases same
    cases h
    obtain ⟨items, all⟩ := ih later
    refine ⟨congrArg (head :: ·) items, fun pair mem => ?_⟩
    rcases List.mem_cons.mp mem with this | mem
    · rw [this]
      exact here
    · exact all pair mem

/-- Findings in sequence end at the first item with a fault. -/
theorem mapM_eq_find? {find : γ → Except Fault β} {refused : γ → Bool} {fault : γ → Fault}
    {answer : γ → β} {list : List γ}
    (each : ∀ item ∈ list, find item
      = if refused item then .error (fault item) else .ok (answer item)) :
    list.mapM find = match list.find? refused with
      | some item => .error (fault item)
      | none => .ok (list.map answer) := by
  induction list with
  | nil => rfl
  | cons head rest ih =>
    have first := each head List.mem_cons_self
    have others := ih fun item mem => each item (List.mem_cons_of_mem _ mem)
    rw [List.mapM_cons, first]
    cases bad : refused head with
    | true =>
      rw [List.find?_cons_of_pos bad]
      rfl
    | false =>
      have good : ¬ refused head = true := by
        rw [bad]
        exact Bool.false_ne_true
      rw [List.find?_cons_of_neg good, others]
      cases rest.find? refused <;> rfl

/-- Checks in sequence pass if each passes. -/
theorem forM_eq_ok_iff {check : γ → Except Fault Unit} {list : List γ} :
    list.forM check = .ok () ↔ ∀ item ∈ list, check item = .ok () := by
  induction list with
  | nil => exact ⟨fun _ _ mem => absurd mem List.not_mem_nil, fun _ => rfl⟩
  | cons head rest ih =>
    have chain : (head :: rest).forM check = (check head >>= fun _ => rest.forM check) := rfl
    rw [chain, List.forall_mem_cons, ← ih]
    constructor
    · intro h
      obtain ⟨_, first, others⟩ := ok_of_bind h
      exact ⟨first, others⟩
    · rintro ⟨first, others⟩
      rw [first]
      exact others

end Looking

namespace Table

variable {ρ : Type} {table : Table ρ} {store : Store} {record : ρ}

/-! ## 2. Limits -/

/-- Whether the entries of a record keep to the limits of a store. -/
structure Fits (table : Table ρ) (settings : Settings) (record : ρ) : Prop where
  key : (table.primaryKey record).length ≤ settings.limits.maxKeySize.toNat
  payload : (table.format.pack record).length ≤ settings.limits.maxValueSize.toNat
  pointer : (table.primaryKey record).length ≤ settings.limits.maxValueSize.toNat
  secondary : ∀ index ∈ table.secondaries,
    (index.fullKey record).length ≤ settings.limits.maxKeySize.toNat

theorem checkSize_eq_ok_iff {fault : (size limit : Nat) → LimitFault} {size limit : Nat} :
    checkSize fault size (some limit) = .ok () ↔ size ≤ limit := by
  unfold checkSize
  dsimp only
  split
  · exact ⟨nofun, fun _ => by omega⟩
  · exact ⟨fun _ => by omega, fun _ => rfl⟩

/-- **The checks pass exactly if the record fits.** -/
theorem checkLimits_native :
    checkLimits Store.native table record store = .ok () ↔ table.Fits store.settings record := by
  constructor
  · intro h
    obtain ⟨_, key, h⟩ := ok_of_bind h
    obtain ⟨_, payload, h⟩ := ok_of_bind h
    obtain ⟨_, pointer, h⟩ := ok_of_bind h
    exact ⟨checkSize_eq_ok_iff.mp key, checkSize_eq_ok_iff.mp payload,
      checkSize_eq_ok_iff.mp pointer,
      fun index mem => checkSize_eq_ok_iff.mp (forM_eq_ok_iff.mp h index mem)⟩
  · rintro ⟨key, payload, pointer, secondary⟩
    unfold checkLimits Store.native
    dsimp only
    rw [checkSize_eq_ok_iff.mpr key, checkSize_eq_ok_iff.mpr payload,
      checkSize_eq_ok_iff.mpr pointer]
    exact forM_eq_ok_iff.mpr fun index mem => checkSize_eq_ok_iff.mpr (secondary index mem)

theorem fits_of_isOk (h : (checkLimits Store.native table record store).isOk) :
    table.Fits store.settings record := by
  refine checkLimits_native.mp ?_
  cases checked : checkLimits Store.native table record store with
  | ok _ => rfl
  | error _ =>
    rw [checked] at h
    exact nomatch h

/-! ## 3. The plan as a function -/

/-- What the entries of a store say of the record under a primary key. -/
def storedRecord (table : Table ρ) (store : Store) (primaryKey : Bytes) :
    Except Fault (Option ρ) :=
  match store.find? table.scope primaryKey with
  | none => .ok none
  | some entry => some <$> table.format.unpack entry.value

/-- What the entries of a store say of the step for one secondary index. -/
def decision (table : Table ρ) (store : Store) (record : ρ) (old : Option ρ) (index : Index ρ) :
    Except Fault SecondaryStep :=
  match old, store.find? table.scope (index.fullKey record) with
  | none, none => .ok .insert
  | none, some _ => .error (.duplicateSecondary index.placement.name)
  | some held, none => .ok (.move (index.fullKey held))
  | some _, some entry =>
    if entry.value = table.primaryKey record then .ok .keep
    else .error (.secondaryConflict index.placement.name)

/-- What a store says of putting a record. -/
def decided (table : Table ρ) (store : Store) (record : ρ) : Except Fault (Plan ρ) := do
  checkLimits Store.native table record store
  let old ← table.storedRecord store (table.primaryKey record)
  let steps ← table.secondaries.mapM fun index => do
    return (index, ← table.decision store record old index)
  return { inserted := old.isNone, steps }

/-- The value at a key is read as it is. -/
theorem outcome_read (scope : Name) (key : Bytes) (store : Store) :
    outcome (Store.native.read scope key) store
      = (.ok ((store.find? scope key).map (·.value)), store) := rfl

theorem outcome_stored (table : Table ρ) (store : Store) (primaryKey : Bytes) :
    outcome (table.stored Store.native primaryKey) store
      = (table.storedRecord store primaryKey, store) := by
  unfold stored storedRecord
  rw [outcome_bind_ok (outcome_read ..)]
  cases store.find? table.scope primaryKey with
  | none => rfl
  | some entry =>
    refine (outcome_bind_looks (outcome_ofExcept ..) fun _ => outcome_pure ..).trans ?_
    rfl

theorem outcome_decideStep (table : Table ρ) (store : Store) (record : ρ) (old : Option ρ)
    (index : Index ρ) :
    outcome (table.decideStep Store.native record old index) store
      = (table.decision store record old index, store) := by
  unfold decideStep decision
  rw [outcome_bind_ok (outcome_read ..)]
  cases store.find? table.scope (index.fullKey record) with
  | none => cases old <;> rfl
  | some entry =>
    cases old with
    | none => rfl
    | some held =>
      dsimp only [Option.map_some]
      split <;> rfl

/-- **A plan only looks**, and finds what the entries of the store say. -/
theorem outcome_plan (table : Table ρ) (store : Store) (record : ρ) :
    outcome (table.plan Store.native record) store = (table.decided store record, store) := by
  unfold plan decided
  rw [outcome_get_bind]
  refine outcome_bind_looks (outcome_ofExcept ..) fun _ =>
    outcome_bind_looks (outcome_stored ..) fun old => outcome_bind_looks ?_ fun _ => rfl
  exact outcome_mapM_looks (fun index => outcome_bind_looks (outcome_decideStep ..) fun _ => rfl) _

/-- A plan has a step for each secondary index, and is found for records that fit alone. -/
theorem of_decided {plan : Plan ρ} (h : table.decided store record = .ok plan) :
    table.Fits store.settings record ∧ plan.steps.map (·.1) = table.secondaries ∧
    ∃ old, table.storedRecord store (table.primaryKey record) = .ok old
      ∧ plan.inserted = old.isNone
      ∧ ∀ step ∈ plan.steps, table.decision store record old step.1 = .ok step.2 := by
  obtain ⟨_, limits, h⟩ := ok_of_bind h
  obtain ⟨old, found, h⟩ := ok_of_bind h
  obtain ⟨steps, decides, h⟩ := ok_of_bind h
  cases h
  obtain ⟨items, each⟩ := of_mapM_paired decides
  exact ⟨checkLimits_native.mp limits, items, old, found, rfl, each⟩

end Table

end IndexedStore
