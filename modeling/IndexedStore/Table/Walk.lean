import IndexedStore.Backend
import IndexedStore.Table.Schema
/-!
# Walks

A walk stands on an entry of an index, or at its end, and steps from entry to entry: a FORWARD walk
towards larger keys, a REVERSE walk towards smaller ones. It holds at most one cursor of the store,
and it remembers the standing that the cursor had after the walk's last step. A walk made at the end
holds no cursor until it first steps back.

* `Walk` is the state of a walk, `Motion` an action on the store and on one walk;
* `Walk.advance`, `Walk.retreat` and `Walk.refresh` are the steps;
* `Walk.key`, `Walk.value` and `Walk.compareKey` read at the position, `Walk.order` compares two
  walks over one index;
* `Walk.release` gives the cursor back.
-/

namespace IndexedStore

/-- Which way a walk goes. -/
inductive Direction where
  | forward
  | reverse
  deriving DecidableEq, Repr

/-- A cursor that a walk holds, and its standing after the last step. -/
structure Hold where
  cursor : CursorId
  standing : Standing
  deriving DecidableEq, Repr

/-- A walk over one index of a table. -/
structure Walk (ρ : Type) where
  view : View ρ
  direction : Direction
  hold : Option Hold

/-- An action on the store and on one walk. A motion that faults may have moved the walk. -/
abbrev Motion (σ ρ : Type) := ExceptT Fault (StateT (Walk ρ) (StateM σ))

/-- An action on the store alone. -/
def Motion.ofAction {σ ρ α : Type} (action : Action σ α) : Motion σ ρ α :=
  ExceptT.mk (StateT.lift action.run)

/-! ## 1. Directions -/

namespace Direction

variable {σ : Type}

/-- The step that goes on. -/
def onward (backend : Backend σ) : Direction → CursorId → Action σ Standing
  | .forward => backend.nextKey
  | .reverse => backend.previousKey

/-- The step that goes back. -/
def backward (backend : Backend σ) : Direction → CursorId → Action σ Standing
  | .forward => backend.previousKey
  | .reverse => backend.nextKey

/-- The misuse of going on from the end. -/
def stepFromEnd : Direction → Misuse
  | .forward => .stepFromEnd
  | .reverse => .stepFromReverseEnd

end Direction

/-- The record that a stored value of an index stands for. Under the primary index the value is the
    payload; under another one it is the primary key, by which the payload is read. -/
def View.resolve {σ ρ : Type} (backend : Backend σ) (view : View ρ) (raw : Bytes) :
    Action σ ρ := do
  if view.isPrimary then Action.ofExcept (view.table.format.unpack raw)
  else
    match ← backend.read view.table.scope raw with
    | none => throw (.state (.danglingPointer view.placement.name raw))
    | some payload => Action.ofExcept (view.table.format.unpack payload)

namespace Walk

variable {σ ρ τ : Type}

/-! ## 2. Making and ending walks -/

/-- The walk at the end of an index. It holds no cursor. -/
def atEnd (view : View ρ) (direction : Direction) : Walk ρ :=
  ⟨view, direction, none⟩

/-- Opens a cursor over the keys of an index. -/
def openCursor (backend : Backend σ) (view : View ρ) : Action σ CursorId :=
  backend.openCursor view.table.scope view.placement.stem

/-- The walk that a first step of a new cursor leads to. -/
def start (backend : Backend σ) (view : View ρ) (direction : Direction)
    (first : CursorId → Action σ Standing) : Action σ (Walk ρ) := do
  let cursor ← openCursor backend view
  let standing ← (first cursor).onFault (backend.closeCursor cursor).quietly
  return ⟨view, direction, some ⟨cursor, standing⟩⟩

/-- Gives the cursor of a walk back, if it holds one. -/
def release (backend : Backend σ) (walk : Walk ρ) : StateM σ Unit :=
  match walk.hold with
  | none => pure ()
  | some hold => (backend.closeCursor hold.cursor).quietly

/-! ## 3. What a walk remembers -/

/-- The standing after the last step. -/
def standing (walk : Walk ρ) : Standing :=
  match walk.hold with
  | none => .ended
  | some hold => hold.standing

/-- The cursor, unless the walk is at its end. -/
def cursor? (walk : Walk ρ) : Option CursorId :=
  match walk.hold with
  | none => none
  | some hold => if hold.standing = .ended then none else some hold.cursor

/-- Whether the last step led to an entry. -/
def isGood (walk : Walk ρ) : Bool :=
  walk.standing = .live

/-- Whether the walk is at its end. -/
def isEnd (walk : Walk ρ) : Bool :=
  walk.standing = .ended

/-! ## 4. Steps -/

/-- Remembers the standing after a step. -/
def settle (cursor : CursorId) (standing : Standing) : Motion σ ρ Unit :=
  modify fun walk => { walk with hold := some ⟨cursor, standing⟩ }

/-- Goes on by one entry. From the last entry this leads to the end; from the end it is refused. -/
def advance (backend : Backend σ) : Motion σ ρ Unit := do
  let walk ← get
  match walk.cursor? with
  | none => throw (.misuse walk.direction.stepFromEnd)
  | some cursor =>
    let standing ← Motion.ofAction (walk.direction.onward backend cursor)
    settle cursor standing

/-- The cursor of a walk, a new one if it holds none. -/
def ensureCursor (backend : Backend σ) : Motion σ ρ CursorId := do
  let walk ← get
  match walk.hold with
  | some hold => return hold.cursor
  | none =>
    let cursor ← Motion.ofAction (openCursor backend walk.view)
    settle cursor .ended
    return cursor

/-- Goes back by one entry. From the end this leads to the last entry; from the first entry it is
    refused, and the walk is then at its end. -/
def retreat (backend : Backend σ) : Motion σ ρ Unit := do
  let cursor ← ensureCursor backend
  let walk ← get
  let standing ← Motion.ofAction (walk.direction.backward backend cursor)
  settle cursor standing
  if standing = .ended then throw (.misuse .stepBeforeFirst)

/-- Asks the store for the standing anew. -/
def refresh (backend : Backend σ) : Motion σ ρ Standing := do
  let walk ← get
  match walk.hold with
  | none => return .ended
  | some hold =>
    let standing ← Motion.ofAction (backend.cursorStanding hold.cursor)
    settle hold.cursor standing
    return standing

/-! ## 5. Reading -/

/-- Reads at the position by `fetch`. The standing that the walk remembers decides first; an entry
    that has gone since is as good as erased. -/
def current (walk : Walk ρ) (fetch : CursorId → Action σ (Option Bytes)) : Action σ Bytes := do
  match walk.hold with
  | none => throw (.misuse .readAtEnd)
  | some hold =>
    match hold.standing with
    | .ended => throw (.misuse .readAtEnd)
    | .erased => throw (.misuse .readErased)
    | .live =>
      match ← fetch hold.cursor with
      | none => throw (.misuse .readErased)
      | some bytes => return bytes

/-- The key in the store of the current entry. -/
def key (backend : Backend σ) (walk : Walk ρ) : Action σ Bytes :=
  walk.current backend.currentKey

/-- The key of the current entry without the stem of the index. -/
def keyBehindStem (backend : Backend σ) (walk : Walk ρ) : Action σ Bytes := do
  Action.ofExcept (walk.view.placement.behindStem (← walk.key backend))

/-- The record of the current entry. -/
def value (backend : Backend σ) (walk : Walk ρ) : Action σ ρ := do
  walk.view.resolve backend (← walk.current backend.currentValue)

/-- Compares the current key with `key`. Without a cursor the walk is beyond every key. -/
def compareKey (backend : Backend σ) (walk : Walk ρ) (key : Bytes) : Action σ Ordering :=
  match walk.hold with
  | none => return .gt
  | some hold => backend.compareKey hold.cursor key

/-! ## 6. Comparing walks -/

/-- Whether two walks go the same way over the same index of the same table. -/
def sameIndex (a : Walk ρ) (b : Walk τ) : Bool :=
  a.view.table.serial = b.view.table.serial ∧ a.view.position.val = b.view.position.val
    ∧ a.direction = b.direction

/-- Compares two walks over one index by how far they have come. The end comes last. -/
def order (backend : Backend σ) (a : Walk ρ) (b : Walk τ) : Action σ Ordering :=
  if a.sameIndex b then
    match a.cursor?, b.cursor? with
    | none, none => return .eq
    | none, some _ => return .gt
    | some _, none => return .lt
    | some first, some second =>
      match a.direction with
      | .forward => backend.compareCursors first second
      | .reverse => backend.compareCursors second first
  else throw .cursorMismatch

/-- The order of two walks, none if they cannot be compared. -/
def order? (backend : Backend σ) (a : Walk ρ) (b : Walk τ) : StateM σ (Option Ordering) := do
  return (← (a.order backend b).run).toOption

/-- Whether two walks are at the same place. -/
def meets (backend : Backend σ) (a : Walk ρ) (b : Walk τ) : StateM σ Bool := do
  return (← a.order? backend b) = some .eq

/-! ## 7. What is shown of a walk -/

/-- The standing that a walk remembers, and the key at its position if that can be read. -/
def shown (backend : Backend σ) (walk : Walk ρ) : StateM σ (Standing × Option Bytes) := do
  return (walk.standing, (← (walk.key backend).run).toOption)

/-- The walk as text. -/
def describe (walk : Walk ρ) : String :=
  let cursor := match walk.hold with
    | none => "None"
    | some hold => "Some(" ++ CursorId.describe hold.cursor ++ ")"
  let forward := "IndexIter \x7b index: " ++ toString walk.view.position.val ++ ", cursor: "
    ++ cursor ++ ", status: " ++ walk.standing.describe ++ " \x7d"
  match walk.direction with
  | .forward => forward
  | .reverse => "RevIndexIter \x7b inner: " ++ forward ++ " \x7d"

end Walk

end IndexedStore
