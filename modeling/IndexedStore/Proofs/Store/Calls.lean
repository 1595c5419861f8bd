import IndexedStore.Backend
import IndexedStore.Proofs.Store.Cursors
import IndexedStore.Proofs.Store.Units
/-!
# What a client can ask of a store

The calls of a store as DATA, so that what a client did can be listed and done again. A call reaches
the store directly or through its primitives alone. Three facts hold of every call, by whatever way
it comes:

* `Issued.noted`: what it changes among the entries is in the log of the open unit, and
  `Issued.find?_perform` says which entry that can be;
* `Issued.unseen`: whether a unit is open makes no difference to it;
* `Issued.get?_cursors`: a cursor that it neither steps nor closes stays where it is.

`Store.report` is what a cursor reports, and `Store.report_congr` what that depends on.
-/

namespace IndexedStore

open IndexedStore.Action

/-! ## 1. Calls -/

/-- A call of a store; `Call β` answers with a `β`. -/
inductive Call : Type → Type where
  | write (scope : Name) (key value : Bytes) (payer : Name) : Call Int
  | erase (scope : Name) (key : Bytes) : Call Int
  | stage (scope : Name) (key : Bytes) : Call (Option Nat)
  | copyStaged (offset : Nat) (buffer : Bytes) : Call (Nat × Bytes)
  | read (scope : Name) (key : Bytes) : Call (Option Bytes)
  | holds (scope : Name) (key : Bytes) : Call Bool
  | openCursor (scope : Name) (stem : Bytes) : Call CursorId
  | closeCursor (id : CursorId) : Call Unit
  | nextKey (id : CursorId) : Call Standing
  | previousKey (id : CursorId) : Call Standing
  | seekKey (id : CursorId) (key : Bytes) : Call Standing
  | seekEnd (id : CursorId) : Call Standing
  | cursorStanding (id : CursorId) : Call Standing
  | copyKey (id : CursorId) (offset : Nat) (buffer : Bytes) : Call (Standing × Nat × Bytes)
  | copyValue (id : CursorId) (offset : Nat) (buffer : Bytes) : Call (Standing × Nat × Bytes)
  | currentKey (id : CursorId) : Call (Option Bytes)
  | currentValue (id : CursorId) : Call (Option Bytes)
  | compareCursors (a b : CursorId) : Call Ordering
  | compareKey (id : CursorId) (key : Bytes) : Call Ordering
  | list (scope : Name) : Call (List (Bytes × Bytes))
  | size (scope : Name) : Call Nat
  | payerAt (scope : Name) (key : Bytes) : Call (Option Name)
  | usage (payer : Name) : Call Int
  | openCursors : Call Nat

namespace Call

variable {β : Type}

/-- What can be seen of a store at a glance. -/
def glance (see : Store → β) : Action Store β := do
  return see (← get)

/-- Makes a call. -/
def perform (backend : Backend Store) : Call β → Action Store β
  | write scope key value payer => backend.write scope key value payer
  | erase scope key => backend.erase scope key
  | stage scope key => backend.stage scope key
  | copyStaged offset buffer => backend.copyStaged offset buffer
  | read scope key => backend.read scope key
  | holds scope key => backend.holds scope key
  | openCursor scope stem => backend.openCursor scope stem
  | closeCursor id => backend.closeCursor id
  | nextKey id => backend.nextKey id
  | previousKey id => backend.previousKey id
  | seekKey id key => backend.seekKey id key
  | seekEnd id => backend.seekEnd id
  | cursorStanding id => backend.cursorStanding id
  | copyKey id offset buffer => backend.copyKey id offset buffer
  | copyValue id offset buffer => backend.copyValue id offset buffer
  | currentKey id => backend.currentKey id
  | currentValue id => backend.currentValue id
  | compareCursors a b => backend.compareCursors a b
  | compareKey id key => backend.compareKey id key
  | list scope => glance (·.list scope)
  | size scope => glance (·.size scope)
  | payerAt scope key => glance (·.payer? scope key)
  | usage payer => glance (·.usage payer)
  | openCursors => glance (·.openCursors)

/-- The cursor that a call steps or closes. -/
def moved? : Call β → Option CursorId
  | closeCursor id => some id
  | nextKey id => some id
  | previousKey id => some id
  | seekKey id _ => some id
  | seekEnd id => some id
  | _ => none

/-- The key whose entry a call stores or drops. -/
def writes? : Call β → Option (Name × Bytes)
  | write scope key _ _ => some (scope, key)
  | erase scope key => some (scope, key)
  | _ => none

/-- Whether a call changes nothing but the staged value. -/
def Looks : Call β → Prop
  | write .. => False
  | erase .. => False
  | openCursor .. => False
  | call => call.moved? = none

end Call

/-- A call, and the way it reaches the store. -/
structure Issued (β : Type) where
  access : Access
  call : Call β

/-- Makes a call the way it is issued. -/
def Issued.perform {β : Type} (issued : Issued β) : Action Store β :=
  issued.call.perform issued.access.backend

/-! ## 2. Looking -/

/-- Whether two stores differ in their staged values at most. -/
def Staging (before after : Store) : Prop :=
  ∃ staged, after = { before with staged }

namespace Staging

theorem chains : Chains Staging where
  refl store := ⟨store.staged, rfl⟩
  trans := by
    rintro first _ _ ⟨one, rfl⟩ ⟨two, rfl⟩
    exact ⟨two, rfl⟩

theorem stage (scope : Name) (key : Bytes) : (Store.stage scope key).Keeps Staging := by
  intro store
  unfold Store.stage
  rw [outcome_get_bind]
  cases store.find? scope key with
  | none => exact chains.refl store
  | some entry => exact ⟨entry.value, rfl⟩

/-- An action that only looks at the store. -/
theorem of_same {β : Type} {action : Action Store β} (h : ∀ store, (outcome action store).2 = store) :
    action.Keeps Staging :=
  Keeps.of_same_state chains h

/-- Only whether a cursor is open is asked first. -/
theorem cursor_bind {β : Type} (id : CursorId) {next : Cursor → Action Store β}
    (h : ∀ found, (next found).Keeps Staging) : Keeps Staging (Store.cursor id >>= next) := by
  refine Keeps.bind chains (of_same fun store => ?_) h
  rw [Store.outcome_cursor]
  cases store.cursors.get? id <;> rfl

theorem copyCurrent (id : CursorId) (part : Bytes × Entry → Bytes) (offset : Nat)
    (buffer : Bytes) : (Store.copyCurrent id part offset buffer).Keeps Staging := by
  refine cursor_bind id fun found => of_same fun store => ?_
  rw [outcome_get_bind]
  cases store.entryAt? found <;> rfl

theorem compareCursors (a b : CursorId) : (Store.compareCursors a b).Keeps Staging := by
  refine cursor_bind a fun first => cursor_bind b fun second => of_same fun store => ?_
  split <;> rfl

/-- What is read by a copy of nothing and a copy of the whole. -/
theorem whole {copy : Nat → Bytes → Action Store (Standing × Nat × Bytes)}
    (h : ∀ offset buffer, (copy offset buffer).Keeps Staging) :
    (Primitives.whole copy).Keeps Staging := by
  unfold Primitives.whole
  refine Keeps.bind chains (h 0 []) fun (standing, size, _) => ?_
  dsimp only
  split
  · exact Keeps.pure chains none
  · exact Keeps.bind chains (h 0 _) fun _ => Keeps.pure chains _

theorem read (scope : Name) (key : Bytes) : (Store.primitives.read scope key).Keeps Staging := by
  unfold Primitives.read
  refine Keeps.bind chains (stage scope key) fun found => ?_
  cases found with
  | none => exact Keeps.pure chains none
  | some size => exact Keeps.bind chains (of_same fun _ => rfl) fun _ => Keeps.pure chains _

end Staging

/-- **A call that looks changes the staged value at most.** -/
theorem Issued.staging {β : Type} (issued : Issued β) (looks : issued.call.Looks) :
    issued.perform.Keeps Staging := by
  have same : ∀ {γ : Type} (see : Store → γ), (Call.glance see).Keeps Staging :=
    fun _ => Staging.of_same fun _ => rfl
  obtain ⟨access, call⟩ := issued
  cases call with
  | write | erase | openCursor => exact looks.elim
  | closeCursor | nextKey | previousKey | seekKey | seekEnd => exact nomatch looks
  | stage scope key => cases access <;> exact Staging.stage scope key
  | copyStaged => cases access <;> exact Staging.of_same fun _ => rfl
  | read scope key =>
    cases access with
    | native => exact Staging.of_same fun _ => rfl
    | relayed => exact Staging.read scope key
  | holds scope key =>
    cases access with
    | native => exact Staging.of_same fun _ => rfl
    | relayed =>
      exact Keeps.bind Staging.chains (Staging.stage scope key) fun _ => Keeps.pure Staging.chains _
  | cursorStanding id =>
    cases access <;> exact Staging.cursor_bind id fun _ => Staging.of_same fun _ => rfl
  | copyKey id offset buffer => cases access <;> exact Staging.copyCurrent id _ offset buffer
  | copyValue id offset buffer => cases access <;> exact Staging.copyCurrent id _ offset buffer
  | currentKey id =>
    cases access with
    | native => exact Staging.cursor_bind id fun _ => Staging.of_same fun _ => rfl
    | relayed => exact Staging.whole fun offset buffer => Staging.copyCurrent id _ offset buffer
  | currentValue id =>
    cases access with
    | native => exact Staging.cursor_bind id fun _ => Staging.of_same fun _ => rfl
    | relayed => exact Staging.whole fun offset buffer => Staging.copyCurrent id _ offset buffer
  | compareCursors a b => cases access <;> exact Staging.compareCursors a b
  | compareKey id key =>
    cases access <;> exact Staging.cursor_bind id fun _ => Staging.of_same fun _ => rfl
  | list | size | payerAt | usage | openCursors => exact same _

/-! ## 3. Writing -/

/-- Whether two stores differ in their cursors and staged values at most. -/
def Sparing (before after : Store) : Prop :=
  ∃ staged cursors nextCursor, after = { before with staged, cursors, nextCursor }

namespace Sparing

theorem refl (store : Store) : Sparing store store :=
  ⟨store.staged, store.cursors, store.nextCursor, rfl⟩

theorem trans {first second third : Store} (one : Sparing first second)
    (two : Sparing second third) : Sparing first third := by
  obtain ⟨_, _, _, rfl⟩ := one
  obtain ⟨staged, cursors, nextCursor, rfl⟩ := two
  exact ⟨staged, cursors, nextCursor, rfl⟩

theorem shelves {before after : Store} (h : Sparing before after) :
    after.shelves = before.shelves := by
  obtain ⟨_, _, _, rfl⟩ := h
  rfl

theorem settings {before after : Store} (h : Sparing before after) :
    after.settings = before.settings := by
  obtain ⟨_, _, _, rfl⟩ := h
  rfl

theorem find? {before after : Store} (h : Sparing before after) (scope : Name) (key : Bytes) :
    after.find? scope key = before.find? scope key := by
  obtain ⟨_, _, _, rfl⟩ := h
  rfl

theorem size {before after : Store} (h : Sparing before after) (scope : Name) :
    after.size scope = before.size scope := by
  obtain ⟨_, _, _, rfl⟩ := h
  rfl

theorem of_staging {before after : Store} (h : Staging before after) : Sparing before after := by
  obtain ⟨staged, rfl⟩ := h
  exact ⟨staged, before.cursors, before.nextCursor, rfl⟩

theorem openCursor (scope : Name) (stem : Bytes) : (Store.openCursor scope stem).Keeps Sparing := by
  intro store
  rw [Store.outcome_openCursor]
  split
  · exact refl store
  · exact ⟨store.staged, _, _, rfl⟩

theorem closeCursor (id : CursorId) : (Store.closeCursor id).Keeps Sparing := by
  intro store
  rw [Store.outcome_closeCursor]
  cases store.cursors.get? id with
  | none => exact refl store
  | some _ => exact ⟨store.staged, _, store.nextCursor, rfl⟩

theorem moveCursor (id : CursorId) (target : Store → Cursor → Position) :
    (Store.moveCursor id target).Keeps Sparing := by
  intro store
  rw [Store.outcome_moveCursor]
  cases store.cursors.get? id with
  | none => exact refl store
  | some _ => exact ⟨store.staged, _, store.nextCursor, rfl⟩

end Sparing

/-- **A call that writes nothing leaves entries, accounts and log alone.** -/
theorem Issued.sparing {β : Type} (issued : Issued β) (silent : issued.call.writes? = none) :
    issued.perform.Keeps Sparing := by
  have looking : issued.call.Looks → issued.perform.Keeps Sparing :=
    fun looks => (issued.staging looks).mono Sparing.of_staging
  obtain ⟨access, call⟩ := issued
  cases call with
  | write | erase => exact nomatch silent
  | openCursor scope stem => cases access <;> exact Sparing.openCursor scope stem
  | closeCursor id => cases access <;> exact Sparing.closeCursor id
  | nextKey id => cases access <;> exact Sparing.moveCursor id _
  | previousKey id => cases access <;> exact Sparing.moveCursor id _
  | seekKey id key => cases access <;> exact Sparing.moveCursor id _
  | seekEnd id => cases access <;> exact Sparing.moveCursor id _
  | _ => exact looking rfl

/-- A call leaves every entry alone but the one it writes. -/
theorem Issued.find?_perform {β : Type} (issued : Issued β) {scope : Name} {key : Bytes}
    (apart : issued.call.writes? ≠ some (scope, key)) (store : Store) :
    (outcome issued.perform store).2.find? scope key = store.find? scope key := by
  have silent : issued.call.writes? = none →
      (outcome issued.perform store).2.find? scope key = store.find? scope key := by
    intro silent
    obtain ⟨staged, cursors, nextCursor, same⟩ := issued.sparing silent store
    rw [same]
    rfl
  have elsewhere : ∀ {other : Name × Bytes}, some other ≠ some (scope, key) → ∀ after,
      (store.replace other.1 other.2 after).2.find? scope key = store.find? scope key := by
    intro other ne after
    rw [Store.find?_replace, if_neg]
    rintro ⟨rfl, rfl⟩
    exact ne rfl
  obtain ⟨access, call⟩ := issued
  cases call with
  | write where_ at_ value payer =>
    have ends : (outcome (Store.write where_ at_ value payer) store).2.find? scope key
        = store.find? scope key := by
      rcases Store.write_changes where_ at_ value payer store with same | changed
      · rw [same]
      · rw [changed]
        exact elsewhere apart _
    cases access <;> exact ends
  | erase where_ at_ =>
    have ends : (outcome (Store.erase where_ at_) store).2.find? scope key
        = store.find? scope key := by
      rcases Store.erase_changes where_ at_ store with same | changed
      · rw [same]
      · rw [changed]
        exact elsewhere apart none
    cases access <;> exact ends
  | _ => exact silent rfl

/-- **Every call is in the log**, with all it changes. -/
theorem Issued.noted {β : Type} (issued : Issued β) : issued.perform.Keeps Noted := by
  have silent : issued.call.writes? = none → issued.perform.Keeps Noted := by
    refine fun silent => (issued.sparing silent).mono fun {before after} h => ?_
    obtain ⟨staged, cursors, nextCursor, rfl⟩ := h
    exact Noted.of_same ⟨rfl, fun _ => rfl, fun _ => rfl⟩ rfl
  obtain ⟨access, call⟩ := issued
  cases call with
  | write scope key value payer => cases access <;> exact Noted.write scope key value payer
  | erase scope key => cases access <;> exact Noted.erase scope key
  | _ => exact silent rfl

/-! ## 4. What calls overlook -/

/-- The store with the staged value and the log made others. -/
def Store.aside (stage : Bytes → Bytes) (note : Option (List Change) → Option (List Change))
    (store : Store) : Store :=
  { store with staged := stage store.staged, log := note store.log }

/-- Whether an action does the same with the staged value and the log made others. -/
def Overlooks {β : Type} (stage : Bytes → Bytes)
    (note : Option (List Change) → Option (List Change)) (action : Action Store β) : Prop :=
  ∀ store, outcome action (store.aside stage note)
    = ((outcome action store).1, (outcome action store).2.aside stage note)

section Overlooking

variable {stage : Bytes → Bytes} {note : Option (List Change) → Option (List Change)}

/-- A change does the same with a log of another kind, if it is noted there alike. -/
theorem Store.replace_aside
    (notes : ∀ change log, note (Option.map (change :: ·) log) = (note log).map (change :: ·))
    (store : Store) (scope : Name) (key : Bytes) (after : Option Entry) :
    (store.aside stage note).replace scope key after
      = ((store.replace scope key after).1,
          (store.replace scope key after).2.aside stage note) := by
  have same : (store.aside stage note).find? scope key = store.find? scope key := rfl
  unfold replace
  rw [same]
  cases store.find? scope key <;> cases after <;>
    simp [aside, chargeFor, charge, billOf, bill, shelf, usage, notes]

namespace Overlooks

protected theorem pure {β : Type} (value : β) :
    Overlooks stage note (pure value : Action Store β) :=
  fun _ => rfl

protected theorem bind {β γ : Type} {action : Action Store β} {next : β → Action Store γ}
    (first : Overlooks stage note action) (second : ∀ value, Overlooks stage note (next value)) :
    Overlooks stage note (action >>= next) := by
  intro store
  rw [outcome_bind, outcome_bind, first store]
  rcases outcome action store with ⟨fault | value, after⟩
  · rfl
  · exact second value after

theorem write
    (notes : ∀ change log, note (Option.map (change :: ·) log) = (note log).map (change :: ·))
    (scope : Name) (key value : Bytes) (payer : Name) :
    Overlooks stage note (Store.write scope key value payer) := by
  intro store
  rw [Store.outcome_write, Store.outcome_write, Store.replace_aside notes]
  show (if key.length > store.settings.limits.maxKeySize.toNat then _
    else if value.length > store.settings.limits.maxValueSize.toNat then _ else _) = _
  split
  · rfl
  · split <;> rfl

theorem erase
    (notes : ∀ change log, note (Option.map (change :: ·) log) = (note log).map (change :: ·))
    (scope : Name) (key : Bytes) : Overlooks stage note (Store.erase scope key) := by
  intro store
  have same : (store.aside stage note).find? scope key = store.find? scope key := rfl
  rw [Store.outcome_erase, Store.outcome_erase, Store.replace_aside notes, same]
  cases store.find? scope key <;> rfl

theorem cursor_bind {β : Type} (id : CursorId) {next : Cursor → Action Store β}
    (h : ∀ found, Overlooks stage note (next found)) :
    Overlooks stage note (Store.cursor id >>= next) := by
  refine Overlooks.bind (fun store => ?_) h
  have same : (store.aside stage note).cursors = store.cursors := rfl
  rw [Store.outcome_cursor, Store.outcome_cursor, same]
  cases store.cursors.get? id <;> rfl

theorem openCursor (scope : Name) (stem : Bytes) :
    Overlooks stage note (Store.openCursor scope stem) := by
  intro store
  rw [Store.outcome_openCursor, Store.outcome_openCursor]
  show (if store.cursors.size ≥ store.settings.limits.maxCursors.toNat then _ else _) = _
  split <;> rfl

theorem copyCurrent (id : CursorId) (part : Bytes × Entry → Bytes) (offset : Nat)
    (buffer : Bytes) : Overlooks stage note (Store.copyCurrent id part offset buffer) := by
  refine cursor_bind id fun found store => ?_
  have same : (store.aside stage note).entryAt? found = store.entryAt? found := rfl
  rw [outcome_get_bind, outcome_get_bind, same]
  cases store.entryAt? found <;> rfl

theorem compareCursors (a b : CursorId) :
    Overlooks stage note (Store.compareCursors a b) := by
  refine cursor_bind a fun first => cursor_bind b fun second store => ?_
  split <;> rfl

theorem whole {copy : Nat → Bytes → Action Store (Standing × Nat × Bytes)}
    (h : ∀ offset buffer, Overlooks stage note (copy offset buffer)) :
    Overlooks stage note (Primitives.whole copy) := by
  unfold Primitives.whole
  refine Overlooks.bind (h 0 []) fun (standing, size, _) => ?_
  dsimp only
  split
  · exact Overlooks.pure none
  · exact Overlooks.bind (h 0 _) fun _ => Overlooks.pure _

end Overlooks

end Overlooking

/-- **Most calls of a store overlook the staged value**, all but those that are about it. -/
def Call.Unstaged {β : Type} : Call β → Prop
  | stage .. => False
  | copyStaged .. => False
  | _ => True

/-- The calls that are not about the staged value overlook it, and whether they are noted. -/
theorem Call.overlooks {β : Type} {stage : Bytes → Bytes}
    {note : Option (List Change) → Option (List Change)}
    (notes : ∀ change log, note (Option.map (change :: ·) log) = (note log).map (change :: ·))
    {call : Call β} (unstaged : call.Unstaged) :
    Overlooks stage note (call.perform Store.native) := by
  cases call with
  | stage | copyStaged => exact unstaged.elim
  | write scope key value payer => exact Overlooks.write notes scope key value payer
  | erase scope key => exact Overlooks.erase notes scope key
  | openCursor scope stem => exact Overlooks.openCursor scope stem
  | copyKey id offset buffer => exact Overlooks.copyCurrent id _ offset buffer
  | copyValue id offset buffer => exact Overlooks.copyCurrent id _ offset buffer
  | compareCursors a b => exact Overlooks.compareCursors a b
  | closeCursor id => exact Overlooks.cursor_bind id fun _ _ => rfl
  | nextKey id => exact Overlooks.cursor_bind id fun _ _ => rfl
  | previousKey id => exact Overlooks.cursor_bind id fun _ _ => rfl
  | seekKey id key => exact Overlooks.cursor_bind id fun _ _ => rfl
  | seekEnd id => exact Overlooks.cursor_bind id fun _ _ => rfl
  | cursorStanding id => exact Overlooks.cursor_bind id fun _ _ => rfl
  | currentKey id => exact Overlooks.cursor_bind id fun _ _ => rfl
  | currentValue id => exact Overlooks.cursor_bind id fun _ _ => rfl
  | compareKey id key => exact Overlooks.cursor_bind id fun _ _ => rfl
  | read | holds | list | size | payerAt | usage | openCursors => exact fun _ => rfl

/-! ## 5. Whether a unit is open -/

/-- The store with no unit of work open. -/
def Store.unlogged (store : Store) : Store :=
  { store with log := none }

/-- Whether an action does the same without a unit open as with one. -/
def Unseen {β : Type} (action : Action Store β) : Prop :=
  ∀ store, outcome action store.unlogged
    = ((outcome action store).1, (outcome action store).2.unlogged)

theorem Unseen.of_overlooks {β : Type} {action : Action Store β}
    (h : Overlooks id (fun _ => none) action) : Unseen action :=
  h

/-- Staging does not see whether a unit is open. -/
theorem overlooks_stage (scope : Name) (key : Bytes) :
    Overlooks id (fun _ => none) (Store.stage scope key) := by
  intro store
  have same : (store.aside id fun _ => none).find? scope key = store.find? scope key := rfl
  unfold Store.stage
  rw [outcome_get_bind, outcome_get_bind, same]
  cases store.find? scope key <;> rfl

theorem overlooks_read (scope : Name) (key : Bytes) :
    Overlooks id (fun _ => none) (Store.primitives.read scope key) := by
  unfold Primitives.read
  refine Overlooks.bind (overlooks_stage scope key) fun found => ?_
  cases found with
  | none => exact Overlooks.pure none
  | some size => exact Overlooks.bind (fun _ => rfl) fun _ => Overlooks.pure _

/-- **A call does not see whether a unit is open.** -/
theorem Issued.unseen {β : Type} (issued : Issued β) : Unseen issued.perform := by
  have plain : issued.call.Unstaged → Unseen (issued.call.perform Store.native) :=
    fun unstaged => Unseen.of_overlooks (Call.overlooks (fun _ _ => rfl) unstaged)
  obtain ⟨access, call⟩ := issued
  cases call with
  | stage scope key => cases access <;> exact Unseen.of_overlooks (overlooks_stage scope key)
  | copyStaged => cases access <;> exact fun _ => rfl
  | read scope key =>
    cases access with
    | native => exact plain trivial
    | relayed => exact Unseen.of_overlooks (overlooks_read scope key)
  | holds scope key =>
    cases access with
    | native => exact plain trivial
    | relayed =>
      exact Unseen.of_overlooks
        (Overlooks.bind (overlooks_stage scope key) fun _ => Overlooks.pure _)
  | currentKey id =>
    cases access with
    | native => exact plain trivial
    | relayed =>
      exact Unseen.of_overlooks (Overlooks.whole fun offset buffer =>
        Overlooks.copyCurrent id _ offset buffer)
  | currentValue id =>
    cases access with
    | native => exact plain trivial
    | relayed =>
      exact Unseen.of_overlooks (Overlooks.whole fun offset buffer =>
        Overlooks.copyCurrent id _ offset buffer)
  | _ => cases access <;> exact plain trivial

/-! ## 6. Cursors -/

section Cursors

variable {id : CursorId} {found : Cursor}

/-- A cursor stays where it is when another one is moved. -/
theorem get?_moveCursor {other : CursorId} (apart : some other ≠ some id)
    (target : Store → Cursor → Position) {store : Store}
    (isOpen : store.cursors.get? id = some found) :
    (outcome (Store.moveCursor other target) store).2.cursors.get? id = some found := by
  rw [Store.outcome_moveCursor]
  cases store.cursors.get? other with
  | none => exact isOpen
  | some moved =>
    have distinct : id ≠ other := fun same => apart (congrArg some same.symm)
    exact (OrdMap.get?_insert_of_ne _ distinct _).trans isOpen

/-- **A cursor that a call neither steps nor closes stays where it is.** -/
theorem Issued.get?_cursors {β : Type} (issued : Issued β) {store : Store}
    (apart : issued.call.moved? ≠ some id) (isOpen : store.cursors.get? id = some found) :
    (outcome issued.perform store).2.cursors.get? id = some found := by
  have looking : issued.call.Looks →
      (outcome issued.perform store).2.cursors.get? id = some found := by
    intro looks
    obtain ⟨staged, same⟩ := issued.staging looks store
    rw [same]
    exact isOpen
  obtain ⟨access, call⟩ := issued
  cases call with
  | write scope key value payer =>
    have ends := Store.cursors_write scope key value payer store
    cases access <;> exact ends ▸ isOpen
  | erase scope key =>
    have ends := Store.cursors_erase scope key store
    cases access <;> exact ends ▸ isOpen
  | openCursor scope stem =>
    have ends : (outcome (Store.openCursor scope stem) store).2.cursors.get? id = some found := by
      rw [Store.outcome_openCursor]
      split
      · exact isOpen
      · rename_i room
        have free := Store.get?_freeNumber_of_room room
        have distinct : id ≠ Store.freeNumber store.cursors store.cursors.size store.nextCursor := by
          intro same
          rw [← same, isOpen] at free
          cases free
        exact (OrdMap.get?_insert_of_ne _ distinct _).trans isOpen
    cases access <;> exact ends
  | closeCursor other =>
    have ends : (outcome (Store.closeCursor other) store).2.cursors.get? id = some found := by
      rw [Store.outcome_closeCursor]
      cases store.cursors.get? other with
      | none => exact isOpen
      | some _ =>
        have distinct : id ≠ other := fun same => apart (congrArg some same.symm)
        exact (OrdMap.get?_erase_of_ne _ distinct).trans isOpen
    cases access <;> exact ends
  | nextKey other => cases access <;> exact get?_moveCursor apart _ isOpen
  | previousKey other => cases access <;> exact get?_moveCursor apart _ isOpen
  | seekKey other key => cases access <;> exact get?_moveCursor apart _ isOpen
  | seekEnd other => cases access <;> exact get?_moveCursor apart _ isOpen
  | _ => exact looking rfl

end Cursors

/-! ## 7. What a cursor reports -/

/-- A cursor stands alike on both sides. -/
theorem SameEntries.standingOf {a b : Store} (h : SameEntries a b)
    (cursor : Cursor) : a.standingOf cursor = b.standingOf cursor := by
  unfold Store.standingOf
  cases cursor.position with
  | ended => rfl
  | onKey key => simp only [h.find?]

theorem SameEntries.entryAt? {a b : Store} (h : SameEntries a b)
    (cursor : Cursor) : a.entryAt? cursor = b.entryAt? cursor := by
  unfold Store.entryAt?
  cases cursor.position with
  | ended => rfl
  | onKey key => simp only [h.find?]

namespace Store

/-- The standing, the key and the value that a cursor reports. -/
def report (store : Store) (access : Access) (id : CursorId) :
    Except Fault Standing × Except Fault (Option Bytes) × Except Fault (Option Bytes) :=
  ((outcome (access.backend.cursorStanding id) store).1,
    (outcome (access.backend.currentKey id) store).1,
    (outcome (access.backend.currentValue id) store).1)

/-- A buffer of the size that is told of a source takes as much of it. -/
theorem copyInto_zeros (source : Bytes) :
    Bytes.copyInto source 0 (Bytes.zeros (Bytes.told source.length))
      = (Bytes.told source.length, source.take (Bytes.told source.length)) := by
  have length : (source.take (Bytes.told source.length)).length = Bytes.told source.length :=
    List.length_take_of_le (Bytes.told_le source.length)
  unfold Bytes.copyInto Bytes.zeros
  simp only [List.drop_zero, List.length_replicate, length, Bytes.told_told, List.drop_replicate,
    Nat.sub_self, List.replicate_zero, List.append_nil]

/-- A cursor without an entry is not on a live one. -/
theorem standingOf_ne_live {store : Store} {found : Cursor} (gone : store.entryAt? found = none) :
    store.standingOf found ≠ .live := by
  unfold entryAt? at gone
  unfold standingOf
  cases place : found.position with
  | ended => exact nofun
  | onKey key =>
    rw [place] at gone
    have missing : store.find? found.scope key = none := Option.map_eq_none_iff.mp gone
    simp [missing]

/-- Asking for the size first and copying as much then reads what the size tells of. -/
theorem outcome_whole (id : CursorId) (part : Bytes × Entry → Bytes) (store : Store) :
    outcome (Primitives.whole fun offset buffer => copyCurrent id part offset buffer) store
      = match store.cursors.get? id with
        | none => (.error (.unknownCursor id), store)
        | some found => (.ok ((store.entryAt? found).map fun entry =>
            (part entry).take (Bytes.told (part entry).length)), store) := by
  unfold Primitives.whole
  have first := outcome_copyCurrent id part 0 [] store
  cases isOpen : store.cursors.get? id with
  | none =>
    rw [isOpen] at first
    rw [outcome_bind_error first]
  | some found =>
    rw [isOpen] at first
    dsimp only at first ⊢
    cases stored : store.entryAt? found with
    | none =>
      rw [stored] at first
      rw [outcome_bind_ok first]
      dsimp only
      rw [if_pos (standingOf_ne_live stored)]
      rfl
    | some entry =>
      rw [stored] at first
      rw [outcome_bind_ok first]
      have second := outcome_copyCurrent id part 0
        (Bytes.zeros (Bytes.told (part entry).length)) store
      rw [isOpen] at second
      dsimp only at second ⊢
      rw [stored] at second
      rw [if_neg (not_not_intro rfl), outcome_bind_ok second]
      rw [copyInto_zeros]
      rfl

/-- What an action answers that reads the entry under a cursor depends on the cursor and on the
    entries alone. -/
theorem answer_congr {β : Type} {a b : Store} (entries : SameEntries a b) {id : CursorId}
    (cursor : a.cursors.get? id = b.cursors.get? id) {action : Action Store β}
    {read : Option (Bytes × Entry) → β}
    (reads : ∀ store, outcome action store = match store.cursors.get? id with
      | none => (.error (.unknownCursor id), store)
      | some found => (.ok (read (store.entryAt? found)), store)) :
    (outcome action a).1 = (outcome action b).1 := by
  rw [reads a, reads b, cursor]
  cases b.cursors.get? id with
  | none => rfl
  | some found => exact congrArg (fun entry => Except.ok (read entry)) (entries.entryAt? found)

/-- What a cursor reports depends on the cursor and on the entries alone. -/
theorem report_congr {a b : Store} (entries : SameEntries a b) {id : CursorId}
    (cursor : a.cursors.get? id = b.cursors.get? id) (access : Access) :
    a.report access id = b.report access id := by
  have standings : (outcome (cursorStanding id) a).1 = (outcome (cursorStanding id) b).1 := by
    rw [outcome_cursorStanding, outcome_cursorStanding, cursor]
    cases b.cursors.get? id with
    | none => rfl
    | some found => exact congrArg Except.ok (entries.standingOf found)
  unfold report
  cases access with
  | relayed =>
    exact congr (congrArg Prod.mk standings)
      (congr (congrArg Prod.mk (answer_congr entries cursor (outcome_whole id _)))
        (answer_congr entries cursor (outcome_whole id _)))
  | native =>
    exact congr (congrArg Prod.mk standings)
      (congr (congrArg Prod.mk (answer_congr entries cursor (outcome_currentKey id)))
        (answer_congr entries cursor (outcome_currentValue id)))

end Store

end IndexedStore
