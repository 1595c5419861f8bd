import IndexedStore.Fault
/-!
# Actions

An action works on a state and ends with a result or a fault. The state lives on through a fault:
what an action changed before it failed stays changed.

* `Action` is the type;
* `Action.onFault` cleans up after a failure, `Action.quietly` runs an action whose outcome does
  not matter.
-/

namespace IndexedStore

/-- A computation on a state `σ` that may fault. -/
abbrev Action (σ : Type) := ExceptT Fault (StateM σ)

namespace Action

variable {σ α : Type}

/-- Runs `action`; if it faults, `cleanup` runs before the fault is passed on. -/
def onFault (action : Action σ α) (cleanup : StateM σ Unit) : Action σ α :=
  ExceptT.mk do
    match ← action.run with
    | .ok value => return .ok value
    | .error fault =>
      cleanup
      return .error fault

/-- Runs `action` and forgets how it ended. -/
def quietly (action : Action σ α) : StateM σ Unit := do
  let _ ← action.run

/-- A result that does not depend on the state. -/
def ofExcept (result : Except Fault α) : Action σ α :=
  ExceptT.mk (pure result)

end Action

end IndexedStore
