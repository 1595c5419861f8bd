import IndexedStore.Backend
import IndexedStore.Key.Layout
import IndexedStore.Payload.Format
/-!
# Single records

A record that is kept on its own, under a name instead of a key: there is at most one of it in a
scope. It is billed to the scope.

* `SingleRecord.named` makes one; the rest of the file reads, writes and drops it.
-/

namespace IndexedStore

/-- The place of a single record. -/
structure SingleRecord (ρ : Type) where
  scope : Name
  name : Name
  format : RecordFormat ρ

namespace SingleRecord

variable {σ ρ : Type}

/-- The single record with a given name in a scope. The empty name is allowed. -/
def named (format : RecordFormat ρ) (scope : Name) (text : String) :
    Except Fault (SingleRecord ρ) := do
  return { scope, name := ← (Name.parse text).mapError .name, format }

/-- The key in the store. -/
def key (single : SingleRecord ρ) : Bytes :=
  Key.single single.name

/-- Whether the record is stored. -/
def isStored (backend : Backend σ) (single : SingleRecord ρ) : Action σ Bool :=
  backend.holds single.scope single.key

/-- The record, if it is stored. -/
def get (backend : Backend σ) (single : SingleRecord ρ) : Action σ (Option ρ) := do
  match ← backend.read single.scope single.key with
  | none => return none
  | some payload => return some (← Action.ofExcept (single.format.unpack payload))

/-- The record, or `default` if it is not stored. -/
def getD (backend : Backend σ) (single : SingleRecord ρ) (default : ρ) : Action σ ρ := do
  return (← single.get backend).getD default

/-- Stores the record. -/
def put (backend : Backend σ) (single : SingleRecord ρ) (record : ρ) : Action σ Unit := do
  let _ ← backend.write single.scope single.key (single.format.pack record) single.scope

/-- Drops the record. Answers whether it was stored. -/
def remove (backend : Backend σ) (single : SingleRecord ρ) : Action σ Bool := do
  if ← single.isStored backend then
    let _ ← backend.erase single.scope single.key
    return true
  else return false

end SingleRecord

end IndexedStore
