import IndexedStore.Record.Person
import IndexedStore.Record.Counter
import IndexedStore.Record.Tree
import IndexedStore.Record.Item
/-!
# Kinds of records

The record types of the library as data, so that a table can be chosen by the name of its type and
one session can hold tables of many.

* `RecordKind` lists them; `RecordKind.Record`, `RecordKind.format`, `RecordKind.size`,
  `RecordKind.selector?` and `RecordKind.zero?` give the type, its payloads and their sizes, its keys
  and its record of zeros.
-/

namespace IndexedStore

/-- A kind of record. -/
inductive RecordKind where
  | person
  | anyPerson
  | state
  | counter
  | tree
  | item
  deriving DecidableEq, Repr

namespace RecordKind

/-- The type of the records of a kind. -/
abbrev Record : RecordKind → Type
  | .person => Person
  | .anyPerson => AnyPerson
  | .state => CounterState
  | .counter => Counter
  | .tree => Tree
  | .item => Item

/-- The payloads of a kind. -/
def format : (kind : RecordKind) → RecordFormat kind.Record
  | .person => Person.format
  | .anyPerson => AnyPerson.format
  | .state => CounterState.format
  | .counter => Counter.format
  | .tree => Tree.format
  | .item => Item.format

/-- The count of bytes of a record's payload. -/
def size : (kind : RecordKind) → kind.Record → Nat
  | .person => RecordFormat.plainSize Person.codec
  | .anyPerson => RecordFormat.variantSize AnyPerson.codec
  | .state => RecordFormat.plainSize CounterState.codec
  | .counter => RecordFormat.plainSize Counter.codec
  | .tree => RecordFormat.variantSize Tree.codec
  | .item => RecordFormat.plainSize Item.codec

/-- The keys that the records of a kind can be indexed by. -/
def selector? : (kind : RecordKind) → String → Option (kind.Record → KeyValue)
  | .person => Person.selector?
  | .anyPerson => AnyPerson.selector?
  | .state => CounterState.selector?
  | .counter => Counter.selector?
  | .tree => Tree.selector?
  | .item => Item.selector?

/-- The record of zeros and empty texts, for the kinds that have one. -/
def zero? : (kind : RecordKind) → Option kind.Record
  | .person => some ({} : Person)
  | .state => some ({} : CounterState)
  | .counter => some ({} : Counter)
  | .item => some ({} : Item)
  | .anyPerson => none
  | .tree => none

/-- The kind with a given name. -/
def named? : String → Option RecordKind
  | "person" => some .person
  | "any_person" => some .anyPerson
  | "state" => some .state
  | "counter" => some .counter
  | "tree" => some .tree
  | "item" => some .item
  | _ => none

end RecordKind

end IndexedStore
