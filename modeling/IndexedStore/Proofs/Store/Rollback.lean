import IndexedStore.Proofs.Store.Calls
import IndexedStore.Proofs.Store.Scripts
/-!
# Units of work are all or nothing

A client runs a body as a unit of work. The body is any script of calls, directly or through a
backend that relays them, and of attempts to open further units. While it runs, one invariant holds
between the store before, the store now, and the calls made so far: `UnderWay`. It says at once what
the unit has done, as a run of the same calls with no unit open, and which cursors it left alone.

* `Script.calls` lists the calls of a body, `replay` makes them again;
* `Script.refusing` is the body with every nested attempt answered by its refusal;
* `Restored` says that a unit left no trace;
* **`Script.transact_exact`**: a unit that fails leaves no trace, and one that succeeds leaves what
  its calls leave without it.
-/

namespace IndexedStore

open IndexedStore.Action

/-! ## 1. The calls of a unit -/

/-- A call of any kind. -/
abbrev AnyCall := (β : Type) × Issued β

/-- Makes calls one after the other, whatever they answer. -/
def replay (calls : List AnyCall) (store : Store) : Store :=
  calls.foldl (fun store made => (outcome made.2.perform store).2) store

theorem replay_concat (calls : List AnyCall) (made : AnyCall) (store : Store) :
    replay (calls ++ [made]) store = (outcome made.2.perform (replay calls store)).2 := by
  unfold replay
  rw [List.foldl_append]
  rfl

namespace Script

variable {C : Type → Type} {α : Type}

/-- The calls that `body` makes as a unit of work on a store, in order. -/
def calls (body : Script Issued α) (store : Store) : List AnyCall :=
  body.follow Issued.perform (fun made _ calls => calls ++ [⟨_, made⟩])
    { store with log := some [] } []

/-- The script with every unit of work answered by the refusal of a nested one, and so with none. -/
def refusing : {α : Type} → Script C α → Script C α
  | _, finish result => finish result
  | _, call made next => call made fun answer => (next answer).refusing
  | _, unit _ next => (next (.error (.state .unitInProgress))).refusing

end Script

/-! ## 2. While a unit runs -/

/-- What holds while a unit of work runs that was begun on `start` and has made `calls` since. -/
structure UnderWay (start now : Store) (calls : List AnyCall) : Prop where
  isOpen : now.log.isSome
  /-- But for the log, the store is as the calls leave it without a unit. -/
  replayed : replay calls start = now.unlogged
  /-- The cursors that no call stepped or closed are where they were. -/
  cursors : ∀ id found, start.cursors.get? id = some found →
    (∀ made ∈ calls, made.2.call.moved? ≠ some id) → now.cursors.get? id = some found

namespace UnderWay

variable {start now : Store} {calls : List AnyCall}

theorem begin (closed : start.log = none) : UnderWay start { start with log := some [] } [] where
  isOpen := rfl
  replayed := by
    show start = { start with log := none }
    rw [← closed]
  cursors _ _ isOpen _ := isOpen

/-- A noted action leaves the log open. -/
theorem log_isSome {β : Type} {action : Action Store β} (noted : action.Keeps Noted)
    (isOpen : now.log.isSome) : (outcome action now).2.log.isSome := by
  obtain ⟨log, holds⟩ := Option.isSome_iff_exists.mp isOpen
  obtain ⟨made, grown, _⟩ := noted now log holds
  rw [grown]
  rfl

/-- One more call. -/
theorem call {β : Type} (issued : Issued β) (h : UnderWay start now calls) :
    UnderWay start (outcome issued.perform now).2 (calls ++ [⟨β, issued⟩]) where
  isOpen := log_isSome issued.noted h.isOpen
  replayed := by
    rw [replay_concat, h.replayed, issued.unseen]
  cursors id found isOpen apart := by
    have before := h.cursors id found isOpen fun made mem =>
      apart made (List.mem_append_left _ mem)
    exact issued.get?_cursors (apart _ (List.mem_append_right _ List.mem_cons_self)) before

/-- The whole of a body: units inside it are refused, and so add nothing. -/
theorem run {α : Type} (body : Script Issued α) (h : UnderWay start now calls) :
    UnderWay start (outcome (body.run Issued.perform) now).2
      (body.follow Issued.perform (fun made _ calls => calls ++ [⟨_, made⟩]) now calls) := by
  refine Script.follow_induction (I := UnderWay start) ?_ ?_ body now calls h
  · intro β made now calls h
    exact h.call made
  · intro β inner _ now calls h
    rw [Store.transact_nested _ h.isOpen]
    exact h

end UnderWay

/-- Every body notes what it changes. -/
theorem Script.noted {α : Type} (body : Script Issued α) : (body.run Issued.perform).Keeps Noted :=
  Script.keeps Noted.chains (fun made => made.noted) (fun _ => Store.noted_transact _) body

/-- While a unit is open, a body runs as if each attempt at a unit inside it were no more than the
    refusal: the inner body is not looked at. -/
theorem Script.outcome_refusing {α : Type} (body : Script Issued α) : ∀ {now : Store},
    now.log.isSome →
      outcome (body.run Issued.perform) now = outcome (body.refusing.run Issued.perform) now := by
  induction body with
  | finish result => exact fun _ => rfl
  | call made next ih =>
    intro now isOpen
    exact ih _ (UnderWay.log_isSome made.noted isOpen)
  | unit inner next _ ih =>
    intro now isOpen
    have refused := Store.transact_nested (inner.run Issued.perform) isOpen
    have step : outcome ((unit inner next).run Issued.perform) now = _ :=
      outcome_caught_bind (Store.transact (inner.run Issued.perform))
        (fun answer => (next answer).run Issued.perform) now
    rw [step, refused]
    exact ih _ isOpen

/-! ## 3. The end of a unit -/

/-- A store in which a unit of work left no trace: entries with their payers, listings, counts and
    accounts are as before, and so is every report of a cursor that the unit's calls neither stepped
    nor closed. -/
structure Restored (before after : Store) (calls : List AnyCall) : Prop where
  entries : ∀ scope key, after.find? scope key = before.find? scope key
  list : ∀ scope, after.list scope = before.list scope
  size : ∀ scope, after.size scope = before.size scope
  usage : ∀ payer, after.usage payer = before.usage payer
  cursors : ∀ id, before.cursors.contains id → (∀ made ∈ calls, made.2.call.moved? ≠ some id) →
    after.cursors.get? id = before.cursors.get? id
      ∧ ∀ access, after.report access id = before.report access id
  log : after.log = none

/-- The entries and accounts tell all else that can be seen of them. -/
theorem Restored.of_sameEntries {before after : Store} {calls : List AnyCall}
    (entries : SameEntries after before) (log : after.log = none)
    (cursors : ∀ id found, before.cursors.get? id = some found →
      (∀ made ∈ calls, made.2.call.moved? ≠ some id) → after.cursors.get? id = some found) :
    Restored before after calls where
  entries := entries.find?
  list scope := by
    unfold Store.list
    rw [entries.shelf]
  size scope := by
    unfold Store.size
    rw [entries.shelf]
  usage := entries.usage
  cursors id isOpen apart := by
    obtain ⟨found, here⟩ := OrdMap.contains_iff.mp isOpen
    have same : after.cursors.get? id = before.cursors.get? id :=
      (cursors id found here apart).trans here.symm
    exact ⟨same, Store.report_congr entries same⟩
  log := log

/-- **Units of work are all or nothing.** If a unit is open already, nothing runs. If not, a body that
    fails leaves no trace, and a body that succeeds leaves exactly what its calls leave when they are
    made without a unit. Either way its own attempts at units are refused unseen, the outcome is the
    body's, and the next unit can begin. -/
theorem Script.transact_exact {α : Type} (body : Script Issued α) (store : Store) :
    let unit := outcome (Store.transact (body.run Issued.perform)) store
    unit = outcome (Store.transact (body.refusing.run Issued.perform)) store ∧
    match store.log, outcome (body.run Issued.perform) { store with log := some [] } with
    | some _, _ => unit = (.error (.state .unitInProgress), store)
    | none, (.error fault, _) => unit.1 = .error fault ∧ Restored store unit.2 (body.calls store)
    | none, (.ok value, _) =>
      unit = (.ok value, replay (body.calls store) store) ∧ unit.2.log = none := by
  intro unit
  cases closed : store.log with
  | some log =>
    have isOpen : store.log.isSome := by rw [closed]; rfl
    have nested := Store.transact_nested (body.run Issued.perform) isOpen
    refine ⟨?_, nested⟩
    exact nested.trans (Store.transact_nested (body.refusing.run Issued.perform) isOpen).symm
  | none =>
    have same : outcome (body.run Issued.perform) { store with log := some [] }
        = outcome (body.refusing.run Issued.perform) { store with log := some [] } :=
      body.outcome_refusing rfl
    have ran := (UnderWay.begin closed).run body
    rcases ends : outcome (body.run Issued.perform) { store with log := some [] }
      with ⟨fault | value, after⟩
    · have ended := Store.transact_of_error closed ends
      refine ⟨?_, ?_⟩
      · exact ended.trans (Store.transact_of_error closed (same ▸ ends)).symm
      have last : unit = _ := ended
      rw [last]
      rw [ends] at ran
      refine ⟨rfl, Restored.of_sameEntries (Store.sameEntries_of_error body.noted ends)
        (Store.log_undo rfl _) fun id found isOpen apart => ?_⟩
      rw [Store.cursors_undo]
      exact ran.cursors id found isOpen apart
    · have ended := Store.transact_of_ok closed ends
      refine ⟨?_, ?_⟩
      · exact ended.trans (Store.transact_of_ok closed (same ▸ ends)).symm
      rw [ends] at ran
      have left : replay (body.calls store) store = { after with log := none } := ran.replayed
      have last : unit = _ := ended
      rw [last, left]
      exact ⟨rfl, rfl⟩

end IndexedStore
