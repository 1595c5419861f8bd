import IndexedStore.Action
import IndexedStore.Store.Basic
/-!
# Writing to the store

Every change of an entry goes through `Store.replace`, which moves the accounts of the old and the
new payer along and notes in an open log what was there before. A unit of work is that log: taking
it back replaces what it noted, the last write first, so that accounts are restored by the same
steps that moved them.

* `Store.write` and `Store.erase` are the two writes, with their limits and their bills;
* `Store.beginUnit`, `Store.commitUnit` and `Store.rollbackUnit` bound a unit of work, and
  `Store.transact` runs an action as one.
-/

namespace IndexedStore.Store

/-! ## 1. Bills -/

/-- The bytes billed for an entry: its key, its value and the configured extra. -/
def bill (store : Store) (key : Bytes) (entry : Entry) : Int :=
  (key.length + entry.value.length : Nat) + store.settings.overhead

/-- Adds `amount` to the account of `payer`. -/
def charge (store : Store) (payer : Name) (amount : Int) : Store :=
  { store with accounts := store.accounts.insert payer (store.usage payer + amount) }

/-- Charges the payer of an entry for it, `sign` times. -/
def chargeFor (store : Store) (sign : Int) (key : Bytes) : Option Entry → Store
  | none => store
  | some entry => store.charge entry.payer (sign * store.bill key entry)

/-- What an entry is billed, or nothing for no entry. -/
def billOf (store : Store) (key : Bytes) (entry : Option Entry) : Int :=
  (entry.map (store.bill key)).getD 0

/-! ## 2. One change -/

/-- A shelf with `entry` at `key`, or without an entry there. -/
def place (shelf : Shelf) (key : Bytes) : Option Entry → Shelf
  | some entry => shelf.insert key entry
  | none => shelf.erase key

/-- Puts `after` in place of what `key` holds: the change of the bill, and the store. An open log
    notes what was there. -/
def replace (store : Store) (scope : Name) (key : Bytes) (after : Option Entry) : Int × Store :=
  let before := store.find? scope key
  let shelved := { store with
    shelves := store.shelves.insert scope (place (store.shelf scope) key after) }
  let billed := (shelved.chargeFor (-1) key before).chargeFor 1 key after
  (store.billOf key after - store.billOf key before,
    { billed with log := billed.log.map (⟨scope, key, before⟩ :: ·) })

/-! ## 3. Writes -/

/-- Stores `value` at `key`, billed to `payer`: the change of the bill. Refuses a key that is too
    long, then a value that is too long. -/
def write (scope : Name) (key value : Bytes) (payer : Name) : Action Store Int := do
  let store ← get
  let limits := store.settings.limits
  if key.length > limits.maxKeySize.toNat then
    throw (.limit (.key key.length limits.maxKeySize.toNat))
  if value.length > limits.maxValueSize.toNat then
    throw (.limit (.value value.length limits.maxValueSize.toNat))
  let (change, store) := store.replace scope key (some ⟨value, payer⟩)
  set store
  return change

/-- Drops the entry at `key`: the change of the bill. Without an entry there, nothing happens and
    nothing is noted. -/
def erase (scope : Name) (key : Bytes) : Action Store Int := do
  let store ← get
  match store.find? scope key with
  | none => return 0
  | some _ =>
    let (change, store) := store.replace scope key none
    set store
    return change

/-! ## 4. Units of work -/

/-- Opens a unit of work. Units do not nest. -/
def beginUnit : Action Store Unit := do
  let store ← get
  if store.log.isSome then throw (.state .unitInProgress)
  set { store with log := some [] }

/-- Ends the unit of work and keeps its writes. -/
def commitUnit : StateM Store Unit :=
  modify fun store => { store with log := none }

/-- Takes a list of changes back, its head first. -/
def undo (store : Store) : List Change → Store
  | [] => store
  | change :: rest => ((store.replace change.scope change.key change.before).2).undo rest

/-- Ends the unit of work and takes its writes back, the last one first. -/
def rollbackUnit : StateM Store Unit :=
  modify fun store => { store with log := none }.undo (store.log.getD [])

/-- Runs `body` as a unit of work: its writes stay if it succeeds and are taken back if not. -/
def transact {α : Type} (body : Action Store α) : Action Store α := do
  beginUnit
  let result ← body.onFault rollbackUnit
  commitUnit
  return result

end IndexedStore.Store
