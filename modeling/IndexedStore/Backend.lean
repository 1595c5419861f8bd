import IndexedStore.Store.Writing
import IndexedStore.Store.Cursors
/-!
# Backends

Tables do not depend on one store. What they ask of a store is a `Backend`: the calls that every
store must offer, `Primitives`, and a few conveniences that a store may offer itself and that are
otherwise put together from the primitives. A value is then read by a look-up and a copy of what it
staged, and a key or a value under a cursor by a copy of nothing, which tells the size, and a copy
of the whole.

* `Store.primitives` are the calls of the store in memory;
* `Store.native` is that store with conveniences of its own;
* `Store.relayed` is the same store behind its primitives alone;
* `Access` tells the two apart.
-/

namespace IndexedStore

/-- The calls that tables need from a store with state `σ`. -/
structure Primitives (σ : Type) where
  /-- Looks a key up, stages the value found and tells its size. -/
  stage : Name → Bytes → Action σ (Option Nat)
  /-- Copies the staged value from an offset on into a buffer. -/
  copyStaged : Nat → Bytes → Action σ (Nat × Bytes)
  /-- Stores a value, billed to a payer: the change of the bill. -/
  write : (scope : Name) → (key value : Bytes) → (payer : Name) → Action σ Int
  /-- Drops an entry: the change of the bill. -/
  erase : Name → Bytes → Action σ Int
  /-- Opens a cursor over the keys of a scope with a stem. -/
  openCursor : Name → Bytes → Action σ CursorId
  closeCursor : CursorId → Action σ Unit
  cursorStanding : CursorId → Action σ Standing
  nextKey : CursorId → Action σ Standing
  previousKey : CursorId → Action σ Standing
  seekKey : CursorId → Bytes → Action σ Standing
  seekEnd : CursorId → Action σ Standing
  /-- Copies the key under a cursor from an offset on: the standing, the size of the whole key, and
      the buffer. -/
  copyKey : CursorId → Nat → Bytes → Action σ (Standing × Nat × Bytes)
  copyValue : CursorId → Nat → Bytes → Action σ (Standing × Nat × Bytes)
  compareCursors : CursorId → CursorId → Action σ Ordering
  compareKey : CursorId → Bytes → Action σ Ordering
  /-- A number of entries that a scope does not exceed. No walk takes more steps than that. -/
  population : Name → σ → Nat

namespace Primitives

variable {σ : Type} (calls : Primitives σ)

/-- Reads a value through the staged one. -/
def read (scope : Name) (key : Bytes) : Action σ (Option Bytes) := do
  match ← calls.stage scope key with
  | none => return none
  | some size =>
    let (copied, buffer) ← calls.copyStaged 0 (Bytes.zeros size)
    return some (buffer.take copied)

/-- Looks a key up for the sake of its presence. -/
def holds (scope : Name) (key : Bytes) : Action σ Bool := do
  return (← calls.stage scope key).isSome

/-- Copies the whole of what `copy` can copy, if the cursor has an entry. -/
def whole (copy : Nat → Bytes → Action σ (Standing × Nat × Bytes)) :
    Action σ (Option Bytes) := do
  let (standing, size, _) ← copy 0 []
  if standing ≠ .live then return none
  let (_, _, buffer) ← copy 0 (Bytes.zeros size)
  return some buffer

end Primitives

/-- A store that tables can use. -/
structure Backend (σ : Type) extends Primitives σ where
  /-- The longest key that can be stored, if the store tells. -/
  maxKeySize : σ → Option Nat := fun _ => none
  /-- The longest value that can be stored, if the store tells. -/
  maxValueSize : σ → Option Nat := fun _ => none
  /-- The value at a key. -/
  read : Name → Bytes → Action σ (Option Bytes) := toPrimitives.read
  /-- Whether a key has an entry. -/
  holds : Name → Bytes → Action σ Bool := toPrimitives.holds
  /-- The key under a cursor, if it has an entry. -/
  currentKey : CursorId → Action σ (Option Bytes) := fun id =>
    Primitives.whole (toPrimitives.copyKey id)
  /-- The value under a cursor, if it has an entry. -/
  currentValue : CursorId → Action σ (Option Bytes) := fun id =>
    Primitives.whole (toPrimitives.copyValue id)

namespace Store

/-- The calls of the store in memory. -/
def primitives : Primitives Store where
  stage := stage
  copyStaged := copyStaged
  write := write
  erase := erase
  openCursor := openCursor
  closeCursor := closeCursor
  cursorStanding := cursorStanding
  nextKey := nextKey
  previousKey := previousKey
  seekKey := seekKey
  seekEnd := seekEnd
  copyKey := copyKey
  copyValue := copyValue
  compareCursors := compareCursors
  compareKey := compareKey
  population scope store := store.size scope

/-- The store in memory, which reads without staging and tells its limits. -/
def native : Backend Store where
  toPrimitives := primitives
  maxKeySize store := some store.settings.limits.maxKeySize.toNat
  maxValueSize store := some store.settings.limits.maxValueSize.toNat
  read := read
  holds := holds
  currentKey := currentKey
  currentValue := currentValue

/-- The store in memory, behind its primitives alone. -/
def relayed : Backend Store where
  toPrimitives := primitives

end Store

/-- How tables reach the store. -/
inductive Access where
  /-- With the conveniences of the store. -/
  | native
  /-- Through the primitives alone. -/
  | relayed
  deriving DecidableEq, Repr

/-- The store as tables see it. -/
def Access.backend : Access → Backend Store
  | .native => Store.native
  | .relayed => Store.relayed

end IndexedStore
