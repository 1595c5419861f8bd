import IndexedStore.OrdMap
import IndexedStore.Fault
/-!
# The store

An ordered store in memory. Each SCOPE has a shelf of its own, an ordered map from keys to entries;
an entry is a value and the payer who is billed for it. Beside the shelves the store keeps a running
account for every payer, the open cursors, the value staged by the last look-up, and, while a unit
of work is open, the log of what its writes replaced.

* `Store` is the state, `Store.fresh` a store without entries;
* `Store.shelf`, `Store.find?`, `Store.usage`, `Store.size` and `Store.list` are what can be seen
  of entries and accounts;
* `Cursor` and `Position` describe a cursor: it remembers the KEY it stands on, not a place in a
  list, and so survives any write.
-/

namespace IndexedStore

/-- A stored value, and who pays for it. -/
structure Entry where
  value : Bytes
  payer : Name
  deriving DecidableEq, Repr

/-- The entries of one scope. -/
abbrev Shelf := OrdMap Bytes Entry

/-- Where a cursor stands: beyond all entries, or on a key, stored or not. -/
inductive Position where
  | ended
  | onKey (key : Bytes)
  deriving DecidableEq, Repr

/-- The comparison of two positions; the end comes after every key. -/
def Position.order : Position → Position → Ordering
  | .ended, .ended => .eq
  | .ended, .onKey _ => .gt
  | .onKey _, .ended => .lt
  | .onKey a, .onKey b => Bytes.order a b

/-- What a cursor finds at its position. -/
inductive Standing where
  /-- An entry. -/
  | live
  /-- No entry any more. -/
  | erased
  /-- The end. -/
  | ended
  deriving DecidableEq, Repr

/-- The standing as text. -/
def Standing.describe : Standing → String
  | .live => "Ok"
  | .erased => "Erased"
  | .ended => "End"

/-- A cursor over the keys of a scope that start with a stem. -/
structure Cursor where
  scope : Name
  stem : Bytes
  position : Position
  deriving DecidableEq, Repr

/-- What a write replaced: the entry that the key had before, or none. -/
structure Change where
  scope : Name
  key : Bytes
  before : Option Entry
  deriving DecidableEq, Repr

/-- The number that an open cursor goes by. -/
abbrev CursorId := Nat

/-- An open cursor as text. -/
def CursorId.describe (id : CursorId) : String :=
  "Cursor \x7b id: " ++ toString id ++ " \x7d"

/-- The state of a store. -/
structure Store where
  settings : Settings
  shelves : OrdMap Name Shelf
  /-- The bytes that each payer is billed. -/
  accounts : OrdMap Name Int
  /-- The value that the last successful look-up found. -/
  staged : Bytes
  cursors : OrdMap CursorId Cursor
  /-- The number of the next cursor. -/
  nextCursor : CursorId
  /-- What the open unit of work has replaced so far, the last write first. -/
  log : Option (List Change)

namespace Store

/-- A store without entries and cursors. -/
def fresh (settings : Settings) : Store where
  settings
  shelves := .empty
  accounts := .empty
  staged := []
  cursors := .empty
  nextCursor := 1
  log := none

instance : Inhabited Store := ⟨fresh default⟩

/-- The entries of a scope. -/
def shelf (store : Store) (scope : Name) : Shelf :=
  (store.shelves.get? scope).getD .empty

/-- The entry at a key of a scope. -/
def find? (store : Store) (scope : Name) (key : Bytes) : Option Entry :=
  (store.shelf scope).get? key

/-- The bytes that a payer is billed. -/
def usage (store : Store) (payer : Name) : Int :=
  (store.accounts.get? payer).getD 0

/-- The count of entries of a scope. -/
def size (store : Store) (scope : Name) : Nat :=
  (store.shelf scope).size

/-- The keys and values of a scope, in the order of the keys. -/
def list (store : Store) (scope : Name) : List (Bytes × Bytes) :=
  (store.shelf scope).entries.map fun entry => (entry.1, entry.2.value)

/-- Who pays for the entry at a key. -/
def payer? (store : Store) (scope : Name) (key : Bytes) : Option Name :=
  (store.find? scope key).map (·.payer)

/-- The count of open cursors. -/
def openCursors (store : Store) : Nat :=
  store.cursors.size

end Store

end IndexedStore
