import IndexedStore.Proofs.Store.Entries
/-!
# Units of work

A unit of work is taken back by its log, the last write first. What makes that exact is one relation
between two moments of a unit: whatever has happened between them, the log has GROWN by changes that,
taken back, lead to the entries and accounts of the earlier moment.

* `Noted` is that relation; it chains, so every action built from such actions is one;
* `Noted.write` and `Noted.erase` are the two writes, and `Noted.of_same` is everything else;
* `Store.transact_nested`, `Store.transact_of_ok` and `Store.transact_of_error` say how a unit ends,
  and `Store.sameEntries_of_error` that a failed one leaves the entries as they were.
-/

namespace IndexedStore

namespace Store

/-! ## 1. Taking changes back -/

theorem undo_append (store : Store) (first second : List Change) :
    store.undo (first ++ second) = (store.undo first).undo second := by
  induction first generalizing store with
  | nil => rfl
  | cons change rest ih => exact ih _

@[simp] theorem cursors_undo (store : Store) (changes : List Change) :
    (store.undo changes).cursors = store.cursors := by
  induction changes generalizing store with
  | nil => rfl
  | cons change rest ih =>
    rw [undo, ih, cursors_replace]

/-- Without an open log, taking back notes nothing. -/
theorem log_undo {store : Store} (closed : store.log = none) (changes : List Change) :
    (store.undo changes).log = none := by
  induction changes generalizing store with
  | nil => exact closed
  | cons change rest ih =>
    refine ih ?_
    rw [log_replace, closed]
    rfl

end Store

/-- Stores with the same entries stay so when the same changes are taken back. -/
theorem SameEntries.undo {a b : Store} (h : SameEntries a b) (changes : List Change) :
    SameEntries (a.undo changes) (b.undo changes) := by
  induction changes generalizing a b with
  | nil => exact h
  | cons change rest ih => exact ih (h.replace change.scope change.key change.before)

/-! ## 2. What the log holds -/

/-- Whether the log has grown from `before` to `after` by changes that, taken back, lead to the
    entries and accounts of `before`. -/
def Noted (before after : Store) : Prop :=
  ∀ log, before.log = some log →
    ∃ made, after.log = some (made ++ log) ∧ SameEntries (after.undo made) before

namespace Noted

open IndexedStore.Action

/-- What leaves entries, accounts and log alone. -/
theorem of_same {before after : Store} (entries : SameEntries after before)
    (log : after.log = before.log) : Noted before after :=
  fun _ isOpen => ⟨[], log.trans isOpen, entries⟩

/-- **Two stretches of a unit make one**: the later changes are taken back first. -/
theorem chains : Chains Noted where
  refl store := of_same (SameEntries.refl store) rfl
  trans {first second third} one two := by
    intro log isOpen
    obtain ⟨early, grown, restored⟩ := one log isOpen
    obtain ⟨late, grown', restored'⟩ := two _ grown
    refine ⟨late ++ early, ?_, ?_⟩
    · rw [grown', List.append_assoc]
    · rw [Store.undo_append]
      exact (restored'.undo early).trans restored

theorem replace (store : Store) (scope : Name) (key : Bytes) (after : Option Entry) :
    Noted store (store.replace scope key after).2 := by
  intro log isOpen
  refine ⟨[⟨scope, key, store.find? scope key⟩], ?_, ?_⟩
  · rw [Store.log_replace, isOpen]
    rfl
  · exact Store.replace_replace_find? store scope key after

theorem write (scope : Name) (key value : Bytes) (payer : Name) :
    (Store.write scope key value payer).Keeps Noted := by
  intro store
  rw [Store.outcome_write]
  split
  · exact chains.refl store
  · split
    · exact chains.refl store
    · exact replace store scope key _

theorem erase (scope : Name) (key : Bytes) : (Store.erase scope key).Keeps Noted := by
  intro store
  rw [Store.outcome_erase]
  cases store.find? scope key with
  | none => exact chains.refl store
  | some _ => exact replace store scope key none

end Noted

namespace Store

open IndexedStore.Action

variable {α : Type}

/-! ## 3. How units end -/

/-- A unit inside another one does not run. -/
theorem transact_nested (body : Action Store α) {store : Store} (isOpen : store.log.isSome) :
    outcome (transact body) store = (.error (.state .unitInProgress), store) := by
  unfold transact beginUnit
  refine outcome_bind_error ?_
  rw [outcome_get_bind, if_pos isOpen]
  rfl

theorem outcome_beginUnit {store : Store} (closed : store.log = none) :
    outcome beginUnit store = (.ok (), { store with log := some [] }) := by
  unfold beginUnit
  rw [outcome_get_bind, if_neg (by rw [closed]; exact Bool.false_ne_true)]
  rfl

theorem transact_of_ok {body : Action Store α} {store after : Store} {value : α}
    (closed : store.log = none)
    (h : outcome body { store with log := some [] } = (.ok value, after)) :
    outcome (transact body) store = (.ok value, { after with log := none }) := by
  unfold transact
  rw [outcome_bind_ok (outcome_beginUnit closed)]
  have kept : outcome (body.onFault rollbackUnit) { store with log := some [] }
      = (.ok value, after) := by
    rw [outcome_onFault, h]
  rw [outcome_bind_ok kept]
  rfl

theorem transact_of_error {body : Action Store α} {store after : Store} {fault : Fault}
    (closed : store.log = none)
    (h : outcome body { store with log := some [] } = (.error fault, after)) :
    outcome (transact body) store
      = (.error fault, { after with log := none }.undo (after.log.getD [])) := by
  unfold transact
  rw [outcome_bind_ok (outcome_beginUnit closed)]
  refine outcome_bind_error ?_
  rw [outcome_onFault, h]
  rfl

/-- **A failed unit takes back what it did**: entries and accounts are as before. -/
theorem sameEntries_of_error {body : Action Store α} (noted : body.Keeps Noted)
    {store after : Store} {fault : Fault}
    (h : outcome body { store with log := some [] } = (.error fault, after)) :
    SameEntries ({ after with log := none }.undo (after.log.getD [])) store := by
  have grown := noted { store with log := some [] }
  rw [h] at grown
  obtain ⟨made, log, restored⟩ := grown [] rfl
  have closed : SameEntries { after with log := none } after := ⟨rfl, fun _ => rfl, fun _ => rfl⟩
  rw [log, List.append_nil]
  exact (closed.undo made).trans (restored.trans ⟨rfl, fun _ => rfl, fun _ => rfl⟩)

/-- A unit that is attempted inside another one does nothing, so there is nothing to note. -/
theorem noted_transact (body : Action Store α) : (transact body).Keeps Noted := by
  intro store log isOpen
  rw [transact_nested body (by rw [isOpen]; rfl)]
  exact Noted.chains.refl store log isOpen

end Store

end IndexedStore
