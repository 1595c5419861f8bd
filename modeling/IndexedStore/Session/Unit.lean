import IndexedStore.Session.Basic
/-!
# Units of work in a session

Several steps of a session can be run as one unit of work. Only entries and accounts are taken back
when the unit fails; walks, scans, cursors and the staged value stay as the steps left them.

* `UnitMode` says how a unit ends, `UnitResult` how it has ended;
* `Session.inUnit` runs a unit.
-/

namespace IndexedStore

/-- How a unit of work is meant to end. -/
inductive UnitMode where
  /-- All steps run and the writes stay, whether or not steps failed. -/
  | commit
  /-- All steps run, and then the unit fails on purpose. -/
  | abort
  /-- The first failing step ends the unit and fails it. -/
  | propagate
  /-- All steps run, and then the unit breaks off. -/
  | panic
  deriving DecidableEq, Repr

/-- How a unit of work has ended. -/
inductive UnitResult where
  | committed
  | panicked
  | failed (fault : Fault)
  deriving DecidableEq, Repr

/-- The result of a unit whose steps ran; `stopped` is the fault at which they stopped early. -/
def UnitMode.result (stopped : Option Fault) : UnitMode → UnitResult
  | .commit => .committed
  | .abort => .failed .keyNotFound
  | .propagate => match stopped with
    | none => .committed
    | some fault => .failed fault
  | .panic => .panicked

namespace Session

variable {α : Type}

/-- A step of a unit: its answer, and its fault if it failed. -/
abbrev Step (α : Type) := StateM Session (α × Option Fault)

/-- Runs steps in order: their answers, and the fault at which they stopped early, if asked to. -/
def runSteps (stopAtFault : Bool) : List (Step α) → StateM Session (List α × Option Fault)
  | [] => return ([], none)
  | step :: rest => do
    let (answer, fault) ← step
    if stopAtFault ∧ fault.isSome then return ([answer], fault)
    let (answers, stopped) ← runSteps stopAtFault rest
    return (answer :: answers, stopped)

/-- Runs steps as one unit of work: their answers, and how the unit ended. A unit inside another one
    runs no step and fails. -/
def inUnit (mode : UnitMode) (steps : List (Step α)) : StateM Session (List α × UnitResult) := do
  match ← (onStore fun _ => Store.beginUnit).run with
  | .error fault => return ([], .failed fault)
  | .ok () =>
    let (answers, stopped) ← runSteps (mode = .propagate) steps
    let result := mode.result stopped
    if result = .committed then withStore fun _ => Store.commitUnit
    else withStore fun _ => Store.rollbackUnit
    return (answers, result)

end Session

end IndexedStore
