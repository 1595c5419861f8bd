import IndexedStore.Backend
import IndexedStore.Table.Schema
/-!
# Writing records

A record takes one entry under every index of its table: its payload under the primary key, and the
primary key under each secondary one. `Table.put` looks before it writes: it checks every entry
against the limits that the store tells, reads what the keys hold, and decides for each secondary
index what to do. Only then the entries are written, the secondary ones in the order of their
declaration and the primary one last, all billed to the table's scope.

* `Table.plan` is the looking, `Table.put` looks and writes;
* `Table.erase`, `Table.eraseByKey` and `Table.contains` find a record by its primary key alone.
-/

namespace IndexedStore.Table

variable {σ ρ : Type}

/-! ## 1. Looking -/

/-- What putting a record does to its entry under one secondary index. -/
inductive SecondaryStep where
  /-- The entry is new. -/
  | insert
  /-- The entry is there already. -/
  | keep
  /-- The entry moves away from the key `old`. -/
  | move (old : Bytes)
  deriving DecidableEq, Repr

/-- What putting a record does. -/
structure Plan (ρ : Type) where
  /-- Whether the primary key is new. -/
  inserted : Bool
  /-- The step for every secondary index. -/
  steps : List (Index ρ × SecondaryStep)

/-- What a put has done. -/
structure PutReport where
  /-- Whether the primary key was new. -/
  inserted : Bool
  /-- The count of secondary entries written. -/
  secondaryWrites : Nat
  deriving DecidableEq, Repr

/-- Refuses a size above a limit, where there is a limit. -/
def checkSize (fault : (size limit : Nat) → LimitFault) (size : Nat) :
    Option Nat → Except Fault Unit
  | none => .ok ()
  | some limit => if size > limit then .error (.limit (fault size limit)) else .ok ()

/-- Checks the entries of a record against the limits that the store tells: the primary key, the
    payload, the primary key as a value, and each secondary key. -/
def checkLimits (backend : Backend σ) (table : Table ρ) (record : ρ) (store : σ) :
    Except Fault Unit := do
  let maxKey := backend.maxKeySize store
  let maxValue := backend.maxValueSize store
  checkSize .key (table.primaryKey record).length maxKey
  checkSize .value (table.format.pack record).length maxValue
  checkSize .value (table.primaryKey record).length maxValue
  table.secondaries.forM fun index => checkSize .key (index.fullKey record).length maxKey

/-- Decides the step for one secondary index, given the record stored under the same primary key.
    A key that is taken belongs to another record, unless it points back to this primary key. -/
def decideStep (backend : Backend σ) (table : Table ρ) (record : ρ) (old : Option ρ)
    (index : Index ρ) : Action σ SecondaryStep := do
  match old, ← backend.read table.scope (index.fullKey record) with
  | none, some _ => throw (.duplicateSecondary index.placement.name)
  | none, none => return .insert
  | some _, some pointer =>
    if pointer = table.primaryKey record then return .keep
    else throw (.secondaryConflict index.placement.name)
  | some old, none => return .move (index.fullKey old)

/-- The record that is stored under a primary key. -/
def stored (backend : Backend σ) (table : Table ρ) (primaryKey : Bytes) :
    Action σ (Option ρ) := do
  match ← backend.read table.scope primaryKey with
  | none => return none
  | some payload => return some (← Action.ofExcept (table.format.unpack payload))

/-- Decides what putting a record does, without writing. -/
def plan (backend : Backend σ) (table : Table ρ) (record : ρ) : Action σ (Plan ρ) := do
  Action.ofExcept (checkLimits backend table record (← get))
  let old ← table.stored backend (table.primaryKey record)
  let steps ← table.secondaries.mapM fun index => do
    return (index, ← table.decideStep backend record old index)
  return { inserted := old.isNone, steps }

/-! ## 2. Writing -/

/-- Writes the secondary entry of a record under one index. -/
def writeSecondary (backend : Backend σ) (table : Table ρ) (record : ρ)
    (step : Index ρ × SecondaryStep) : Action σ Unit := do
  let write : Action σ Unit := do
    let _ ← backend.write table.scope (step.1.fullKey record) (table.primaryKey record) table.scope
  match step.2 with
  | .keep => return ()
  | .insert => write
  | .move old =>
    let _ ← backend.erase table.scope old
    write

/-- Stores a record, or replaces the one with its primary key. -/
def put (backend : Backend σ) (table : Table ρ) (record : ρ) : Action σ PutReport := do
  let plan ← table.plan backend record
  plan.steps.forM (table.writeSecondary backend record)
  let _ ← backend.write table.scope (table.primaryKey record) (table.format.pack record)
    table.scope
  return {
    inserted := plan.inserted
    secondaryWrites := plan.steps.countP fun step => step.2 ≠ .keep }

/-- Drops the record under a primary key, with its secondary entries, whose keys its stored payload
    tells. Answers whether there was one. -/
def eraseAt (backend : Backend σ) (table : Table ρ) (primaryKey : Bytes) : Action σ Bool := do
  match ← table.stored backend primaryKey with
  | none => return false
  | some old =>
    table.secondaries.forM fun index => do
      let _ ← backend.erase table.scope (index.fullKey old)
    let _ ← backend.erase table.scope primaryKey
    return true

/-- Drops the record with the primary key of `record`. -/
def erase (backend : Backend σ) (table : Table ρ) (record : ρ) : Action σ Bool :=
  table.eraseAt backend (table.primaryKey record)

/-- Drops the record with a given primary key. -/
def eraseByKey (backend : Backend σ) (table : Table ρ) (key : KeyValue) : Action σ Bool :=
  table.eraseAt backend (table.primaryView.fullKey (.value key))

/-- Whether a record with the primary key of `record` is stored. -/
def contains (backend : Backend σ) (table : Table ρ) (record : ρ) : Action σ Bool :=
  backend.holds table.scope (table.primaryKey record)

end IndexedStore.Table
