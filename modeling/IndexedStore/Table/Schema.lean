import IndexedStore.Key.Layout
import IndexedStore.Payload.Format
/-!
# Schemas and tables

A table holds records of one type under one PRIMARY index and any number of SECONDARY ones. It is
declared by a `Schema`, a list of indices with names, roles and key functions; `Schema.bind` checks
the declarations from the first to the last and, if they are sound, fixes the stem of every index.
Declaring an index hands out a token by which the bound index is found again.

* `Schema.declare` and `Schema.bind` make a table;
* `Table.primaryIndex`, `Table.secondaries` and `Index.fullKey` say where its records lie;
* `View` is one index of a table, and `Table.primaryView`, `Table.view` and `Table.viewNamed`
  find it.
-/

namespace IndexedStore

variable {ρ : Type}

/-! ## 1. Declarations -/

/-- What an index is for. -/
inductive Role where
  /-- Its entries hold the payloads of the records. -/
  | primary
  /-- Its entries hold the primary keys of the records. -/
  | secondary
  deriving DecidableEq, Repr

/-- An index as it is declared. Its name is checked when the table is bound. -/
structure Declaration (ρ : Type) where
  name : String
  role : Role
  key : ρ → KeyValue

/-- A table as it is declared. -/
structure Schema (ρ : Type) where
  table : String
  status : UInt8 := 1
  declarations : List (Declaration ρ) := []

/-- What refers to a declared index: its place among the declarations, and the names that were
    declared. -/
structure IndexToken where
  position : Nat
  table : Name
  index : Name
  deriving DecidableEq, Repr

/-- The token as text. -/
def IndexToken.describe (token : IndexToken) : String :=
  "IndexId(" ++ token.table.text ++ "." ++ token.index.text ++ ")"

namespace Schema

/-- Declares one more index: the schema with it, and its token. A name that is none counts as the
    empty one here; binding refuses it. -/
def declare (schema : Schema ρ) (name : String) (role : Role) (key : ρ → KeyValue) :
    Schema ρ × IndexToken :=
  ({ schema with declarations := schema.declarations ++ [⟨name, role, key⟩] },
    { position := schema.declarations.length
      table := (Name.parse schema.table).toOption.getD .empty
      index := (Name.parse name).toOption.getD .empty })

end Schema

/-! ## 2. Bound tables -/

/-- An index of a bound table: its names, its role, and the stem of its keys. -/
structure Placement where
  scope : Name
  table : Name
  name : Name
  role : Role
  stem : Bytes
  deriving DecidableEq, Repr

/-- The key in the store for an encoded key of the index. -/
def Placement.fullKey (placement : Placement) (key : Bytes) : Bytes :=
  placement.stem ++ key

/-- Whether a key in the store is one of the index's keys. -/
def Placement.contains (placement : Placement) (key : Bytes) : Bool :=
  Bytes.startsWith key placement.stem

/-- What follows the stem in a key of the index. A key without the stem is none of its keys. -/
def Placement.behindStem (placement : Placement) (key : Bytes) : Except Fault Bytes :=
  match Bytes.after? key placement.stem with
  | none => .error (.state (.outsideIndex key))
  | some rest => .ok rest

/-- An index, with the function that gives a record its key. -/
structure Index (ρ : Type) where
  placement : Placement
  key : ρ → KeyValue

/-- The key in the store under which the index files a record. -/
def Index.fullKey (index : Index ρ) (record : ρ) : Bytes :=
  index.placement.fullKey (index.key record).encode

/-- A table in a scope of a store. Two tables bound from equal schemas are still two: each has a
    serial number of its own. -/
structure Table (ρ : Type) where
  serial : Nat
  scope : Name
  name : Name
  format : RecordFormat ρ
  /-- All indices, in the order of their declaration. -/
  indices : List (Index ρ)
  /-- The place of the primary index. -/
  primary : Fin indices.length

namespace Table

/-- The primary index. -/
def primaryIndex (table : Table ρ) : Index ρ :=
  table.indices[table.primary]

/-- The other indices, in the order of their declaration. -/
def secondaries (table : Table ρ) : List (Index ρ) :=
  table.indices.eraseIdx table.primary

/-- The key in the store under which the table keeps a record's payload. -/
def primaryKey (table : Table ρ) (record : ρ) : Bytes :=
  table.primaryIndex.fullKey record

/-- The table as text, its names as words. -/
def describe (table : Table ρ) : String :=
  "Table \x7b scope: " ++ table.scope.describe ++ ", name: " ++ table.name.describe
    ++ ", indices: ["
    ++ String.intercalate ", " (table.indices.map fun index => index.placement.name.describe)
    ++ "], primary: " ++ toString table.primary.val ++ " \x7d"

end Table

/-! ## 3. Binding -/

namespace Schema

/-- Binds one declaration behind those that are bound already. -/
def bindIndex (scope table : Name) (status : UInt8) (bound : List (Index ρ))
    (declaration : Declaration ρ) : Except Fault (Index ρ) := do
  let name ← (Name.parse declaration.name).mapError .name
  if name.isEmpty then throw (.schema (.emptyIndexName table))
  if bound.any fun index => index.placement.name = name then
    throw (.schema (.duplicateIndex name table))
  if declaration.role = .primary ∧ bound.any fun index => index.placement.role = .primary then
    throw (.schema (.secondPrimary table))
  return {
    placement := ⟨scope, table, name, declaration.role, Key.stem status table name⟩
    key := declaration.key }

/-- Binds declarations in their order. -/
def bindIndices (scope table : Name) (status : UInt8) (bound : List (Index ρ)) :
    List (Declaration ρ) → Except Fault (List (Index ρ))
  | [] => .ok bound
  | declaration :: rest => do
    let index ← bindIndex scope table status bound declaration
    bindIndices scope table status (bound ++ [index]) rest

/-- Binds a schema to a scope. The table's name is checked first, then the status, then each
    declaration, and last that there is a primary index. -/
def bind (schema : Schema ρ) (format : RecordFormat ρ) (scope : Name) (serial : Nat) :
    Except Fault (Table ρ) := do
  let table ← (Name.parse schema.table).mapError .name
  if table.isEmpty then throw (.schema .emptyTableName)
  if schema.status = 0 then throw (.schema .zeroStatus)
  let indices ← bindIndices scope table schema.status [] schema.declarations
  match indices.findFinIdx? fun index => index.placement.role = .primary with
  | none => throw (.schema (.noPrimary table))
  | some primary => return { serial, scope, name := table, format, indices, primary }

end Schema

/-! ## 4. Views -/

/-- One index of a table. -/
structure View (ρ : Type) where
  table : Table ρ
  position : Fin table.indices.length

/-- A key to look for, in one of the forms in which a caller has it. -/
inductive Probe where
  /-- A value of the index's key type. -/
  | value (value : KeyValue)
  /-- An encoded key of the index. -/
  | encoded (key : Bytes)
  /-- A key in the store. -/
  | full (key : Bytes)

namespace View

/-- The index that is viewed. -/
def index (view : View ρ) : Index ρ :=
  view.table.indices[view.position]

/-- The placement of the index that is viewed. -/
def placement (view : View ρ) : Placement :=
  view.index.placement

/-- Whether the index is the primary one. -/
def isPrimary (view : View ρ) : Bool :=
  view.position = view.table.primary

/-- The key in the store that a probe means under this index. -/
def fullKey (view : View ρ) : Probe → Bytes
  | .value value => view.placement.fullKey value.encode
  | .encoded key => view.placement.fullKey key
  | .full key => key

/-- The view as text, its names as words. -/
def describe (view : View ρ) : String :=
  "IndexRef \x7b table: " ++ view.table.name.describe ++ ", index: "
    ++ view.placement.name.describe ++ " \x7d"

end View

namespace Table

/-- The view of the primary index. -/
def primaryView (table : Table ρ) : View ρ :=
  ⟨table, table.primary⟩

/-- The view of the index that a token refers to. The token must come from a declaration with the
    names and the place that the index has. -/
def view (table : Table ρ) (token : IndexToken) : Except Fault (View ρ) :=
  let foreign : Fault := .schema (.foreignToken token.table token.index table.name)
  if h : token.position < table.indices.length then
    let view : View ρ := ⟨table, token.position, h⟩
    if token.table = table.name ∧ view.placement.name = token.index then .ok view
    else .error foreign
  else .error foreign

/-- The view of the index with a given name. -/
def viewNamed (table : Table ρ) (text : String) : Except Fault (View ρ) := do
  let name ← (Name.parse text).mapError .name
  match table.indices.findFinIdx? fun index => index.placement.name = name with
  | none => throw (.schema (.unknownIndex name table.name))
  | some position => return ⟨table, position⟩

end Table

end IndexedStore
