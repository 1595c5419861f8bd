import IndexedStore.Table.Scan
/-!
# Looking records up

What can be asked of one index of a table. Keys are given as keys in the store; `View.fullKey` makes
them from values and from encoded keys.

* `View.holds`, `View.get` and `View.demand` ask for one key without a cursor;
* `View.seek`, `View.find`, `View.seekAbove` and the ends are walks to a position;
* `View.scan` and `View.scanBetween` are scans, `View.range` reads a range at once and
  `Table.count` counts.
-/

namespace IndexedStore

variable {σ ρ : Type}

namespace View

/-! ## 1. One key -/

/-- Whether a key has an entry. -/
def holds (backend : Backend σ) (view : View ρ) (key : Bytes) : Action σ Bool :=
  backend.holds view.table.scope key

/-- The record under a key, if there is one. -/
def get (backend : Backend σ) (view : View ρ) (key : Bytes) : Action σ (Option ρ) := do
  match ← backend.read view.table.scope key with
  | none => return none
  | some raw => return some (← view.resolve backend raw)

/-- The record under a key; it is a fault if there is none. -/
def demand (backend : Backend σ) (view : View ρ) (key : Bytes) : Action σ ρ := do
  match ← view.get backend key with
  | none => throw .keyNotFound
  | some record => return record

/-! ## 2. Positions -/

/-- A forward walk at the first entry whose key is not below `key`. -/
def seek (backend : Backend σ) (view : View ρ) (key : Bytes) : Action σ (Walk ρ) :=
  Walk.start backend view .forward fun cursor => backend.seekKey cursor key

/-- Whether a walk stands on an entry with exactly this key. A walk that cannot tell is given up. -/
def standsOn (backend : Backend σ) (walk : Walk ρ) (key : Bytes) : Action σ Bool := do
  if walk.isGood then
    return (← (walk.compareKey backend key).onFault (walk.release backend)) = .eq
  else return false

/-- A forward walk at the entry with exactly this key, or at the end without a cursor. -/
def find (backend : Backend σ) (view : View ρ) (key : Bytes) : Action σ (Walk ρ) := do
  let walk ← view.seek backend key
  if ← standsOn backend walk key then return walk
  else
    walk.release backend
    return .atEnd view .forward

/-- A forward walk at the first entry whose key is above `key`. -/
def seekAbove (backend : Backend σ) (view : View ρ) (key : Bytes) : Action σ (Walk ρ) := do
  let walk ← view.seek backend key
  if ← standsOn backend walk key then
    let (moved, walk) ← (Walk.advance backend).run walk
    (Action.ofExcept moved).onFault (walk.release backend)
    return walk
  else return walk

/-- A forward walk at the first entry of the index. -/
def first (backend : Backend σ) (view : View ρ) : Action σ (Walk ρ) :=
  view.seek backend view.placement.stem

/-- A forward walk behind the last entry. -/
def pastLast (view : View ρ) : Walk ρ :=
  .atEnd view .forward

/-- A reverse walk at the last entry of the index. -/
def last (backend : Backend σ) (view : View ρ) : Action σ (Walk ρ) :=
  Walk.start backend view .reverse backend.previousKey

/-- A reverse walk before the first entry. -/
def beforeFirst (view : View ρ) : Walk ρ :=
  .atEnd view .reverse

/-! ## 3. Many records -/

/-- A scan over the whole index. -/
def scan (backend : Backend σ) (view : View ρ) : Action σ (Scan ρ) := do
  return { walk := ← view.first backend, stop := none }

/-- A scan from a key on that stops before another. -/
def scanBetween (backend : Backend σ) (view : View ρ) (lower upper : Bytes) :
    Action σ (Scan ρ) := do
  return { walk := ← view.seek backend lower, stop := some upper }

/-- Collects records until the walk has come to where `stop` stands, at most `bound` of them. -/
def collect (backend : Backend σ) (stop : Walk ρ) : (bound : Nat) → Motion σ ρ (List ρ)
  | 0 => return []
  | bound + 1 => do
    let walk ← MonadState.get
    if (← Motion.ofAction (walk.order backend stop)) = .lt then
      let record ← Motion.ofAction (walk.value backend)
      Walk.advance backend
      let records ← collect backend stop bound
      return record :: records
    else return []

/-- The records with keys from `lower` on and below `upper`, in the order of the keys. Two cursors
    mark the range; the first record that cannot be read ends it with a fault. -/
def range (backend : Backend σ) (view : View ρ) (lower upper : Bytes) : Action σ (List ρ) := do
  let walk ← view.seek backend lower
  let stop ← (view.seek backend upper).onFault (walk.release backend)
  let entries := backend.population view.table.scope (← MonadState.get)
  let (records, walk) ← (collect backend stop (entries + 1)).run walk
  stop.release backend
  walk.release backend
  Action.ofExcept records

end View

/-- The count of the records of a table. -/
def Table.count (backend : Backend σ) (table : Table ρ) : Action σ Nat := do
  let scan ← table.primaryView.scan backend
  let keys ← scan.all backend (Scan.readKey backend)
  let read ← Action.ofExcept (keys.mapM id)
  return read.length

end IndexedStore
