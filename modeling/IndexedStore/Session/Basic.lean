import IndexedStore.Record.Kind
import IndexedStore.Table.Lookup
import IndexedStore.Table.Writing
/-!
# Sessions

A session is one store and the things that were made over it and are kept under names: tables, walks,
scans and cursors. A name that is used again gives its old thing up, AFTER the new one is made; so the
making of a walk meets the old walk's cursor among the open ones. What is given up gives its cursor
back.

* `Session` is the state, `Session.fresh` a session with an empty store;
* `Session.onStore` runs an action of the store;
* the other functions keep, use and give up the things with names.
-/

namespace IndexedStore

/-- A table that a session keeps, and the tokens of its declarations. -/
structure KeptTable where
  kind : RecordKind
  table : Table kind.Record
  tokens : List IndexToken

/-- A walk that a session keeps. -/
structure KeptWalk where
  kind : RecordKind
  walk : Walk kind.Record

/-- A scan that a session keeps. -/
structure KeptScan where
  kind : RecordKind
  scan : Scan kind.Record
  /-- Whether the scan hands out keys in place of records. -/
  keysOnly : Bool

/-- What a scan reads: a record, or only its key. -/
inductive ScanItem (kind : RecordKind) where
  | record (record : kind.Record)
  | key (key : Bytes)

/-- How a kept scan reads an entry. -/
def KeptScan.read (kept : KeptScan) (backend : Backend Store) (walk : Walk kept.kind.Record) :
    Action Store (ScanItem kept.kind) := do
  if kept.keysOnly then return .key (← Scan.readKey backend walk)
  else return .record (← Scan.readRecord backend walk)

/-- A store, and what is kept over it. -/
structure Session where
  store : Store
  access : Access
  tables : OrdMap String KeptTable
  walks : OrdMap String KeptWalk
  scans : OrdMap String KeptScan
  cursors : OrdMap String CursorId
  /-- The count of tables bound so far; the next table takes it as its serial number. -/
  tablesBound : Nat

namespace Session

variable {α : Type}

/-- A session with an empty store. -/
def fresh (settings : Settings) (access : Access) : Session where
  store := Store.fresh settings
  access
  tables := .empty
  walks := .empty
  scans := .empty
  cursors := .empty
  tablesBound := 0

/-- The store as tables see it. -/
def backend (session : Session) : Backend Store :=
  session.access.backend

/-! ## 1. The store -/

/-- Works on the store of a session. -/
def withStore (work : Backend Store → StateM Store α) : StateM Session α := fun session =>
  let (result, store) := work session.backend session.store
  (result, { session with store })

/-- Runs an action of the store. -/
def onStore (action : Backend Store → Action Store α) : Action Session α :=
  ExceptT.mk (withStore fun backend => (action backend).run)

/-! ## 2. Tables -/

/-- Binds a schema and keeps the table. -/
def bindTable (slot : String) (kind : RecordKind) (schema : Schema kind.Record)
    (tokens : List IndexToken) (scope : Name) : Action Session KeptTable := do
  let session ← get
  let table ← Action.ofExcept (schema.bind kind.format scope session.tablesBound)
  let kept : KeptTable := ⟨kind, table, tokens⟩
  set { session with
    tables := session.tables.insert slot kept
    tablesBound := session.tablesBound + 1 }
  return kept

/-! ## 3. Walks -/

/-- Gives up the walk of a name. Answers whether there was one. -/
def dropWalk (slot : String) : StateM Session Bool := do
  match (← get).walks.get? slot with
  | none => return false
  | some old =>
    withStore fun backend => old.walk.release backend
    modify fun session => { session with walks := session.walks.erase slot }
    return true

/-- Keeps a walk under a name, in place of the old one. -/
def keepWalk (slot : String) (kept : KeptWalk) : StateM Session Unit := do
  let _ ← dropWalk slot
  modify fun session => { session with walks := session.walks.insert slot kept }

/-- Gives a walk up that is kept under no name. -/
def discardWalk (kept : KeptWalk) : StateM Session Unit :=
  withStore fun backend => kept.walk.release backend

/-- Moves the walk of a name. It stays as the motion leaves it, also when the motion faults. -/
def moveWalk (slot : String) (kept : KeptWalk)
    (motion : Backend Store → Motion Store kept.kind.Record α) : Action Session α :=
  ExceptT.mk do
    let (result, walk) ← withStore fun backend => (motion backend).run kept.walk
    modify fun session => { session with walks := session.walks.insert slot { kept with walk } }
    return result

/-! ## 4. Scans -/

/-- Gives up the scan of a name. Answers whether there was one. -/
def dropScan (slot : String) : StateM Session Bool := do
  match (← get).scans.get? slot with
  | none => return false
  | some old =>
    withStore fun backend => old.scan.walk.release backend
    modify fun session => { session with scans := session.scans.erase slot }
    return true

/-- Keeps a scan under a name, in place of the old one. -/
def keepScan (slot : String) (kept : KeptScan) : StateM Session Unit := do
  let _ ← dropScan slot
  modify fun session => { session with scans := session.scans.insert slot kept }

/-- Hands out the next item of a named scan. -/
def nextItem (slot : String) (kept : KeptScan) :
    StateM Session (Option (Except Fault (ScanItem kept.kind))) := do
  let (item, scan) ← withStore fun backend => kept.scan.next backend (kept.read backend)
  modify fun session => { session with scans := session.scans.insert slot { kept with scan } }
  return item

/-- Hands out all items of a scan that is kept under no name, and gives it up. -/
def allItems (kept : KeptScan) : StateM Session (List (Except Fault (ScanItem kept.kind))) :=
  withStore fun backend => kept.scan.all backend (kept.read backend)

/-! ## 5. Cursors -/

/-- Gives up the cursor of a name. Answers whether there was one. -/
def dropCursor (slot : String) : StateM Session Bool := do
  match (← get).cursors.get? slot with
  | none => return false
  | some old =>
    withStore fun backend => (backend.closeCursor old).quietly
    modify fun session => { session with cursors := session.cursors.erase slot }
    return true

/-- Opens a cursor and keeps it under a name, in place of the old one. -/
def keepCursor (slot : String) (scope : Name) (stem : Bytes) : Action Session CursorId := do
  let id ← onStore fun backend => backend.openCursor scope stem
  let _ ← dropCursor slot
  modify fun session => { session with cursors := session.cursors.insert slot id }
  return id

end Session

end IndexedStore
