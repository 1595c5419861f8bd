import IndexedStore.Action
import IndexedStore.Store.Basic
/-!
# Looking into the store

Values are read in two steps: a look-up stages the value it finds and tells its size, and copies are
then made from the staged value, which later writes do not touch. Cursors walk the keys of a scope
that start with a stem, in order; from the end a step leads back to the first or the last of them.
A cursor stands on a key, so an erased entry leaves it in place, and its next step goes on from
there.

* `Store.search` looks for a key with a stem at one side of a range of the shelf;
* `Store.firstFrom`, `Store.firstAfter`, `Store.lastBefore` and `Store.lastOf` are the searches that
  cursors make; `Store.standingOf` tells what is where they lead to;
* the actions of sections 3 and 4 are the calls on staged values and on cursors.
-/

namespace IndexedStore.Store

/-! ## 1. Positions -/

/-- The position on the key of `found`, if that key starts with `stem`, and else the end. -/
def within (stem : Bytes) : Option (Bytes × Entry) → Position
  | some (key, _) => if Bytes.startsWith key stem then .onKey key else .ended
  | none => .ended

/-- The position on the entry that `pick` takes from a range of the shelf. What the shelf refuses has
    no entries. -/
def search (store : Store) (scope : Name) (stem : Bytes) (range : OrdMap.Range Bytes)
    (pick : List (Bytes × Entry) → Option (Bytes × Entry)) : Position :=
  within stem (((store.shelf scope).range? range).bind pick)

/-- The keys from `key` on, but none below the stem. -/
def rangeFrom (stem key : Bytes) : OrdMap.Range Bytes :=
  ⟨.included (if key < stem then stem else key), .unbounded⟩

/-- The keys above `key`. -/
def rangeAfter (key : Bytes) : OrdMap.Range Bytes :=
  ⟨.excluded key, .unbounded⟩

/-- The keys from the stem on and below `key`. -/
def rangeBefore (stem key : Bytes) : OrdMap.Range Bytes :=
  ⟨.included stem, .excluded key⟩

/-- The keys from the stem on and below its successor, if it has one. -/
def rangeOf (stem : Bytes) : OrdMap.Range Bytes where
  lower := .included stem
  upper := match Bytes.successor? stem with
    | some above => .excluded above
    | none => .unbounded

/-- The first key with the stem that is not below `key`. -/
def firstFrom (store : Store) (scope : Name) (stem key : Bytes) : Position :=
  store.search scope stem (rangeFrom stem key) List.head?

/-- The first key with the stem above `key`. -/
def firstAfter (store : Store) (scope : Name) (stem key : Bytes) : Position :=
  store.search scope stem (rangeAfter key) List.head?

/-- The last key with the stem below `key`. -/
def lastBefore (store : Store) (scope : Name) (stem key : Bytes) : Position :=
  store.search scope stem (rangeBefore stem key) List.getLast?

/-- The last key with the stem. -/
def lastOf (store : Store) (scope : Name) (stem : Bytes) : Position :=
  store.search scope stem (rangeOf stem) List.getLast?

/-! ## 2. What a cursor finds -/

/-- The key and the entry that a cursor stands on. -/
def entryAt? (store : Store) (cursor : Cursor) : Option (Bytes × Entry) :=
  match cursor.position with
  | .ended => none
  | .onKey key => (store.find? cursor.scope key).map (key, ·)

/-- The standing of a cursor. -/
def standingOf (store : Store) (cursor : Cursor) : Standing :=
  match cursor.position with
  | .ended => .ended
  | .onKey key => if (store.find? cursor.scope key).isSome then .live else .erased

/-- The position after `cursor`. -/
def after (store : Store) (cursor : Cursor) : Position :=
  match cursor.position with
  | .ended => store.firstFrom cursor.scope cursor.stem cursor.stem
  | .onKey key => store.firstAfter cursor.scope cursor.stem key

/-- The position before `cursor`. -/
def before (store : Store) (cursor : Cursor) : Position :=
  match cursor.position with
  | .ended => store.lastOf cursor.scope cursor.stem
  | .onKey key => store.lastBefore cursor.scope cursor.stem key

/-! ## 3. Staged values -/

/-- Looks a key up. A value found is staged, and its size is told. -/
def stage (scope : Name) (key : Bytes) : Action Store (Option Nat) := do
  let store ← get
  match store.find? scope key with
  | none => return none
  | some entry =>
    set { store with staged := entry.value }
    return some (Bytes.told entry.value.length)

/-- Copies the staged value from `offset` on into a buffer: the count of bytes copied, and the
    buffer. -/
def copyStaged (offset : Nat) (buffer : Bytes) : Action Store (Nat × Bytes) := do
  return Bytes.copyInto (← get).staged offset buffer

/-- The whole value at a key; nothing is staged. -/
def read (scope : Name) (key : Bytes) : Action Store (Option Bytes) := do
  return ((← get).find? scope key).map (·.value)

/-- Whether a key has an entry; nothing is staged. -/
def holds (scope : Name) (key : Bytes) : Action Store Bool := do
  return ((← get).find? scope key).isSome

/-! ## 4. Cursors -/

/-- The number after another one. Numbers have 32 bits and are not zero, so 1 comes after the
    greatest. -/
def following (id : CursorId) : CursorId :=
  if id + 1 < UInt32.size then id + 1 else 1

/-- The first number from `id` on that no open cursor goes by, or the one `bound` numbers on. -/
def freeNumber (cursors : OrdMap CursorId Cursor) : (bound : Nat) → (id : CursorId) → CursorId
  | 0, id => id
  | bound + 1, id => if cursors.contains id then freeNumber cursors bound (following id) else id

/-- Opens a cursor over the keys of a scope that start with `stem`, at the end. Refuses one more
    cursor than the limit. No two open cursors have one number, and no number is given again before
    all have been given. -/
def openCursor (scope : Name) (stem : Bytes) : Action Store CursorId := do
  let store ← get
  let limit := store.settings.limits.maxCursors.toNat
  if store.cursors.size ≥ limit then throw (.limit (.cursors limit))
  let id := freeNumber store.cursors store.cursors.size store.nextCursor
  set { store with
    nextCursor := following id
    cursors := store.cursors.insert id ⟨scope, stem, .ended⟩ }
  return id

/-- The open cursor that goes by `id`. -/
def cursor (id : CursorId) : Action Store Cursor := do
  match (← get).cursors.get? id with
  | some cursor => return cursor
  | none => throw (.unknownCursor id)

/-- Closes a cursor. -/
def closeCursor (id : CursorId) : Action Store Unit := do
  let _ ← cursor id
  modify fun store => { store with cursors := store.cursors.erase id }

/-- The standing of a cursor. -/
def cursorStanding (id : CursorId) : Action Store Standing := do
  let cursor ← cursor id
  return (← get).standingOf cursor

/-- Moves a cursor to where `target` says, and tells the standing there. -/
def moveCursor (id : CursorId) (target : Store → Cursor → Position) :
    Action Store Standing := do
  let cursor ← cursor id
  let store ← get
  let moved := { cursor with position := target store cursor }
  set { store with cursors := store.cursors.insert id moved }
  return store.standingOf moved

/-- Steps to the next key; from the end, to the first. -/
def nextKey (id : CursorId) : Action Store Standing :=
  moveCursor id after

/-- Steps to the previous key; from the end, to the last. -/
def previousKey (id : CursorId) : Action Store Standing :=
  moveCursor id before

/-- Moves to the first key that is not below `key`. -/
def seekKey (id : CursorId) (key : Bytes) : Action Store Standing :=
  moveCursor id fun store cursor => store.firstFrom cursor.scope cursor.stem key

/-- Moves to the end. -/
def seekEnd (id : CursorId) : Action Store Standing :=
  moveCursor id fun _ _ => .ended

/-- Copies a part of what a cursor finds, from `offset` on, into a buffer: the standing, the size of
    the whole, and the buffer. Without an entry the size is zero and the buffer stays. -/
def copyCurrent (id : CursorId) (part : Bytes × Entry → Bytes) (offset : Nat) (buffer : Bytes) :
    Action Store (Standing × Nat × Bytes) := do
  let cursor ← cursor id
  let store ← get
  match store.entryAt? cursor with
  | some found =>
    return (.live, Bytes.told (part found).length,
      (Bytes.copyInto (part found) offset buffer).2)
  | none => return (store.standingOf cursor, 0, buffer)

/-- Copies from the key that a cursor stands on. -/
def copyKey (id : CursorId) (offset : Nat) (buffer : Bytes) :
    Action Store (Standing × Nat × Bytes) :=
  copyCurrent id (·.1) offset buffer

/-- Copies from the value that a cursor stands on. -/
def copyValue (id : CursorId) (offset : Nat) (buffer : Bytes) :
    Action Store (Standing × Nat × Bytes) :=
  copyCurrent id (·.2.value) offset buffer

/-- The whole key that a cursor stands on, if it has an entry. -/
def currentKey (id : CursorId) : Action Store (Option Bytes) := do
  let cursor ← cursor id
  return ((← get).entryAt? cursor).map (·.1)

/-- The whole value that a cursor stands on. -/
def currentValue (id : CursorId) : Action Store (Option Bytes) := do
  let cursor ← cursor id
  return ((← get).entryAt? cursor).map (·.2.value)

/-- Compares the positions of two cursors over the same keys. -/
def compareCursors (a b : CursorId) : Action Store Ordering := do
  let first ← cursor a
  let second ← cursor b
  if first.scope ≠ second.scope ∨ first.stem ≠ second.stem then throw .cursorMismatch
  return first.position.order second.position

/-- Compares the position of a cursor with a key; the end comes after every key. -/
def compareKey (id : CursorId) (key : Bytes) : Action Store Ordering := do
  let cursor ← cursor id
  return cursor.position.order (.onKey key)

end IndexedStore.Store
