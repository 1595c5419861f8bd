import IndexedStore.Proofs.Store.Issuing
import IndexedStore.Proofs.Table.Clients
import IndexedStore.Proofs.Table.Expenses
import IndexedStore.Proofs.Table.Outlook
/-!
# Who has a cursor open

Walks and scans hold cursors, and what is asked of a table opens and closes some on its way, however
it ends. The CUSTODY of some work says which cursors were held before it and which are held after it:
one that is held only now is new and open, one that is held no more is closed, and whether any other
is open has not changed. Custody does not ask whether what is held is open; a client may have closed
it by its number.

* `Custody.trans` puts two pieces of work together, `Custody.frame` adds cursors that are held
  throughout;
* `Action.Exchanges` is custody for an action that leads from one held cursor, or none, to the one that
  its result tells, and `Motion.KeepsHold` is what all steps of a walk do but the first step back;
* **`Start.custody`**, **`Tread.custody`**, **`Span.custody`**, `Walk.custody_release`,
  `Scan.sameOpen_next` and `Scan.custody_all` are the works of walks and scans;
* **`Lookup.custody`**: a question leaves no cursor behind, and no change of entries opens or closes
  one.
-/

namespace IndexedStore

open IndexedStore.Action

variable {κ ρ τ α β : Type}

/-! ## 1. Custody -/

/-- What happens to the open cursors while a user works who holds some of them and opens `count` at
    most. -/
structure Custody (count : Nat) (before : Store) (held : CursorId → Prop) (after : Store)
    (held' : CursorId → Prop) : Prop where
  issues : ∃ issued, issued.length ≤ count ∧ before.Issues issued after
  same : ∀ id, (held id ↔ held' id) → (after.IsOpen id ↔ before.IsOpen id)
  made : ∀ id, ¬ held id → held' id → ¬ before.IsOpen id ∧ after.IsOpen id
  gone : ∀ id, held id → ¬ held' id → ¬ after.IsOpen id

namespace Custody

variable {before middle after : Store} {held held' held'' : CursorId → Prop} {count count' : Nat}
  {id : CursorId}

theorem of_sameOpen (h : SameOpen before after) (held : CursorId → Prop) :
    Custody 0 before held after held where
  issues := ⟨[], Nat.le_refl 0, .of_sameOpen h⟩
  same id _ := h.opens id
  made _ apart here := absurd here apart
  gone _ here apart := absurd here apart

theorem refl (store : Store) (held : CursorId → Prop) : Custody 0 store held store held :=
  of_sameOpen (.refl store) held

theorem mono (h : Custody count before held after held') (le : count ≤ count') :
    Custody count' before held after held' where
  issues := by
    obtain ⟨issued, few, issues⟩ := h.issues
    exact ⟨issued, Nat.le_trans few le, issues⟩
  same := h.same
  made := h.made
  gone := h.gone

/-- **Two pieces of work make one**, if what is held before and after is held in between. -/
theorem trans (first : Custody count before held middle held')
    (second : Custody count' middle held' after held'')
    (between : ∀ id, held id → held'' id → held' id) :
    Custody (count + count') before held after held'' where
  issues := by
    obtain ⟨early, few, issues⟩ := first.issues
    obtain ⟨late, few', issues'⟩ := second.issues
    refine ⟨early ++ late, ?_, issues.trans issues'⟩
    rw [List.length_append]
    exact Nat.add_le_add few few'
  same id kept := by
    by_cases here : held' id
    · by_cases there : held id
      · have later := second.same id (iff_of_true here (kept.mp there))
        exact later.trans (first.same id (iff_of_true there here))
      · -- the cursor was opened and closed in between
        have closed := second.gone id here fun now => there (kept.mpr now)
        exact iff_of_false closed (first.made id there here).1
    · have there : ¬ held id := fun there => here (between id there (kept.mp there))
      have later := second.same id (iff_of_false here fun now => there (kept.mpr now))
      exact later.trans (first.same id (iff_of_false there here))
  made id apart now := by
    by_cases here : held' id
    · obtain ⟨closed, isOpen⟩ := first.made id apart here
      exact ⟨closed, (second.same id (iff_of_true here now)).mpr isOpen⟩
    · obtain ⟨closed, isOpen⟩ := second.made id here now
      exact ⟨fun was => closed ((first.same id (iff_of_false apart here)).mpr was), isOpen⟩
  gone id there apart := by
    by_cases here : held' id
    · exact second.gone id here apart
    · have closed := first.gone id there here
      exact fun isOpen => closed ((second.same id (iff_of_false here apart)).mp isOpen)

/-- What is held only now has been issued meanwhile. -/
theorem issued {new : List CursorId} (h : Custody count before held after held')
    (issues : before.Issues new after) (apart : ¬ held id) (now : held' id) : id ∈ new := by
  obtain ⟨unopened, isOpen⟩ := h.made id apart now
  exact (issues.isOpen isOpen).resolve_left unopened

/-- Nothing is opened or closed by who holds nothing before and after. -/
theorem isOpen_iff (h : Custody count before (Holding none) after (Holding none)) (id : CursorId) :
    after.IsOpen id ↔ before.IsOpen id :=
  h.same id Iff.rfl

/-- Cursors that are held throughout do not matter, if the work is with others. -/
theorem frame (h : Custody count before held after held') (more : CursorId → Prop)
    (apart : ∀ id, more id → ¬ held id) (apart' : ∀ id, more id → ¬ held' id) :
    Custody count before (fun id => held id ∨ more id) after (fun id => held' id ∨ more id) where
  issues := h.issues
  same id kept := by
    by_cases here : more id
    · exact h.same id (iff_of_false (apart id here) (apart' id here))
    · refine h.same id ⟨fun there => ?_, fun there => ?_⟩
      · exact (kept.mp (.inl there)).resolve_right here
      · exact (kept.mpr (.inl there)).resolve_right here
  made id none now := by
    refine h.made id (fun there => none (.inl there)) (now.resolve_right fun here => none (.inr here))
  gone id there none := by
    exact h.gone id (there.resolve_right fun here => none (.inr here)) fun now => none (.inl now)

/-- What is held of one number alone. -/
theorem congr (h : Custody count before held after held') {now now' : CursorId → Prop}
    (same : ∀ id, now id ↔ held id) (same' : ∀ id, now' id ↔ held' id) :
    Custody count before now after now' := by
  obtain rfl : now = held := funext fun id => propext (same id)
  obtain rfl : now' = held' := funext fun id => propext (same' id)
  exact h

theorem opened {scope : Name} {stem : Bytes}
    (opened : outcome (Store.openCursor scope stem) before = (.ok id, after)) :
    Custody 1 before (Holding none) after (Holding (some id)) where
  issues := ⟨[id], Nat.le_refl 1, .one opened⟩
  same other kept := by
    have apart : other ≠ id := fun same => nomatch kept.mpr (congrArg some same.symm)
    rw [Store.isOpen_openCursor opened other]
    exact ⟨fun isOpen => isOpen.resolve_left apart, .inr⟩
  made other _ here := by
    obtain rfl := Option.some.inj here
    obtain ⟨_, _, free, _⟩ := Store.openCursor_cases opened
    exact ⟨fun isOpen => isOpen free, (Store.isOpen_openCursor opened _).mpr (.inl rfl)⟩
  gone := nofun

theorem closed (id : CursorId) (store : Store) :
    Custody 0 store (Holding (some id)) (outcome (Store.closeCursor id) store).2 (Holding none) := by
  rw [Store.outcome_closeCursor]
  cases found : store.cursors.get? id with
  | none =>
    refine ⟨⟨[], Nat.le_refl 0, .of_sameOpen (.refl store)⟩, fun _ _ => Iff.rfl, nofun,
      fun other here _ isOpen => ?_⟩
    obtain rfl := Option.some.inj here
    exact isOpen found
  | some _ =>
    have opens : ∀ other, Store.IsOpen { store with cursors := store.cursors.erase id } other
        ↔ other ≠ id ∧ store.IsOpen other := by
      intro other
      unfold Store.IsOpen
      rw [OrdMap.get?_erase]
      split
      · rename_i same
        exact ⟨fun isOpen => absurd rfl isOpen, fun isOpen => absurd same isOpen.1⟩
      · rename_i apart
        exact ⟨fun isOpen => ⟨apart, isOpen⟩, fun isOpen => isOpen.2⟩
    refine ⟨⟨[], Nat.le_refl 0, .none rfl rfl fun other isOpen => ((opens other).mp isOpen).2⟩,
      fun other kept => ?_, nofun, fun other here _ isOpen => ?_⟩
    · have apart : other ≠ id := by
        rintro rfl
        cases kept.mp rfl
      exact (opens other).trans ⟨fun isOpen => isOpen.2, fun isOpen => ⟨apart, isOpen⟩⟩
    · exact ((opens other).mp isOpen).1 (Option.some.inj here).symm

end Custody

/-- The cursor that is held in what an action has made; a fault holds none. -/
def heldIn (held? : α → Option CursorId) : Except Fault α → Option CursorId
  | .ok made => held? made
  | .error _ => none

theorem heldIn_none (result : Except Fault α) : heldIn (fun _ => none) result = none := by
  cases result <;> rfl

/-- Whether an action, however it ends, leads from a held cursor, or none, to the one that is held in
    what it has made, and opens `count` at most. -/
def Action.Exchanges (count : Nat) (held : Option CursorId) (action : Action Store α)
    (held? : α → Option CursorId) : Prop :=
  ∀ store, Custody count store (Holding held) (outcome action store).2
    (Holding (heldIn held? (outcome action store).1))

namespace Action.Exchanges

variable {count : Nat} {held : Option CursorId} {action : Action Store α}
  {next : α → Action Store β} {middle : α → Option CursorId} {held? : β → Option CursorId}

protected theorem pure {value : β} (same : held? value = held) :
    Exchanges 0 held (pure value : Action Store β) held? := by
  intro store
  have made : heldIn held? (outcome (pure value : Action Store β) store).1 = held := same
  rw [made]
  exact .refl store _

/-- One who holds nothing and asks what opens nothing. -/
theorem of_keeps (h : action.Keeps SameOpen) : action.Exchanges 0 none fun _ => none := by
  intro store
  rw [heldIn_none]
  exact .of_sameOpen (h store) _

/-- What opens no cursor comes after what may. -/
protected theorem bind (first : action.Exchanges count held middle)
    (second : ∀ value, (next value).Exchanges 0 (middle value) held?)
    (between : ∀ value id, held = some id → middle value = some id) :
    (action >>= next).Exchanges count held held? := by
  intro store
  have early := first store
  rw [outcome_bind]
  rcases ran : outcome action store with ⟨fault | value, after⟩
  · rw [ran] at early
    exact early
  · rw [ran] at early
    exact early.trans (second value after) fun id here _ => between value id here

/-- What is held is given back where the action faults. -/
theorem onFault {cleanup : StateM Store Unit} (keeps : action.Keeps SameOpen)
    (gives : ∀ store, Custody 0 store (Holding held) (cleanup store).2 (Holding none)) :
    (action.onFault cleanup).Exchanges 0 held fun _ => held := by
  intro store
  have early := keeps store
  rw [outcome_onFault]
  rcases ran : outcome action store with ⟨fault | value, after⟩
  · rw [ran] at early
    have kept : Custody 0 store (Holding held) after (Holding held) := .of_sameOpen early _
    have both : Custody (0 + 0) store (Holding held) (cleanup after).2 (Holding none) :=
      kept.trans (gives after) nofun
    exact both
  · rw [ran] at early
    exact .of_sameOpen early _

end Action.Exchanges

/-! ## 2. What opens and closes none -/

/-- Every call but an opening or a closing, by either way. -/
theorem Access.sameOpen (access : Access) (call : Call β) (apart : ¬ call.Allots) :
    (call.perform access.backend).Keeps SameOpen :=
  Issued.sameOpen ⟨access, call⟩ apart

section Looking

variable (access : Access)

theorem View.sameOpen_resolve (view : View ρ) (raw : Bytes) :
    (view.resolve access.backend raw).Keeps SameOpen := by
  unfold View.resolve
  split
  · exact Keeps.ofExcept SameOpen.chains _
  · refine Keeps.bind SameOpen.chains (access.sameOpen (.read view.table.scope raw) not_false) fun found => ?_
    cases found with
    | none => exact Keeps.throw SameOpen.chains _
    | some payload => exact Keeps.ofExcept SameOpen.chains _

theorem View.sameOpen_get (view : View ρ) (key : Bytes) :
    (view.get access.backend key).Keeps SameOpen := by
  refine Keeps.bind SameOpen.chains (access.sameOpen (.read view.table.scope key) not_false) fun found => ?_
  cases found with
  | none => exact Keeps.pure SameOpen.chains none
  | some raw =>
    exact Keeps.bind SameOpen.chains (view.sameOpen_resolve access raw) fun _ =>
      Keeps.pure SameOpen.chains _

theorem View.sameOpen_demand (view : View ρ) (key : Bytes) :
    (view.demand access.backend key).Keeps SameOpen := by
  refine Keeps.bind SameOpen.chains (view.sameOpen_get access key) fun found => ?_
  cases found with
  | none => exact Keeps.throw SameOpen.chains _
  | some record => exact Keeps.pure SameOpen.chains record

theorem TableWrite.sameOpen (table : Table ρ) (made : TableWrite ρ β) :
    (made.perform access.backend table).Keeps SameOpen := by
  refine made.keepsIn ⟨SameOpen.chains, fun key => ?_, fun key value => ?_, fun key => ?_⟩
  · exact access.sameOpen (.read table.scope key) not_false
  · exact access.sameOpen (.write table.scope key value table.scope) not_false
  · exact access.sameOpen (.erase table.scope key) not_false

theorem SingleCall.sameOpen (place : SingleRecord ρ) (made : SingleCall ρ β) :
    (made.perform access.backend place).Keeps SameOpen := by
  refine made.keepsIn ⟨SameOpen.chains, fun key => ?_, fun key value => ?_, fun key => ?_⟩
    fun key => ?_
  · exact access.sameOpen (.read place.scope key) not_false
  · exact access.sameOpen (.write place.scope key value place.scope) not_false
  · exact access.sameOpen (.erase place.scope key) not_false
  · exact access.sameOpen (.holds place.scope key) not_false

namespace Walk

variable (walk : Walk ρ)

theorem sameOpen_onward (direction : Direction) (id : CursorId) :
    (direction.onward access.backend id).Keeps SameOpen := by
  cases direction with
  | forward => exact access.sameOpen (.nextKey id) not_false
  | reverse => exact access.sameOpen (.previousKey id) not_false

theorem sameOpen_backward (direction : Direction) (id : CursorId) :
    (direction.backward access.backend id).Keeps SameOpen := by
  cases direction with
  | forward => exact access.sameOpen (.previousKey id) not_false
  | reverse => exact access.sameOpen (.nextKey id) not_false

theorem sameOpen_current {fetch : CursorId → Action Store (Option Bytes)}
    (fetches : ∀ id, (fetch id).Keeps SameOpen) : (walk.current fetch).Keeps SameOpen := by
  obtain ⟨view, direction, hold⟩ := walk
  rcases hold with _ | ⟨id, standing⟩
  · exact Keeps.throw SameOpen.chains _
  · cases standing with
    | ended => exact Keeps.throw SameOpen.chains _
    | erased => exact Keeps.throw SameOpen.chains _
    | live =>
      refine Keeps.bind SameOpen.chains (fetches id) fun found => ?_
      cases found with
      | none => exact Keeps.throw SameOpen.chains _
      | some bytes => exact Keeps.pure SameOpen.chains bytes

theorem sameOpen_key : (walk.key access.backend).Keeps SameOpen :=
  walk.sameOpen_current fun id => access.sameOpen (.currentKey id) not_false

theorem sameOpen_keyBehindStem : (walk.keyBehindStem access.backend).Keeps SameOpen :=
  Keeps.bind SameOpen.chains (walk.sameOpen_key access) fun _ => Keeps.ofExcept SameOpen.chains _

theorem sameOpen_value : (walk.value access.backend).Keeps SameOpen :=
  Keeps.bind SameOpen.chains
    (walk.sameOpen_current fun id => access.sameOpen (.currentValue id) not_false)
    fun raw => walk.view.sameOpen_resolve access raw

theorem sameOpen_compareKey (key : Bytes) :
    (walk.compareKey access.backend key).Keeps SameOpen := by
  unfold compareKey
  cases walk.hold with
  | none => exact Keeps.pure SameOpen.chains _
  | some hold => exact access.sameOpen (.compareKey hold.cursor key) not_false

theorem sameOpen_order (other : Walk τ) :
    (walk.order access.backend other).Keeps SameOpen := by
  unfold order
  split
  · cases walk.cursor? with
    | none => cases other.cursor? <;> exact Keeps.pure SameOpen.chains _
    | some mine =>
      cases other.cursor? with
      | none => exact Keeps.pure SameOpen.chains _
      | some others =>
        cases walk.direction with
        | forward => exact access.sameOpen (.compareCursors mine others) not_false
        | reverse => exact access.sameOpen (.compareCursors others mine) not_false
  · exact Keeps.throw SameOpen.chains _

end Walk

theorem Comparison.sameOpen {Rec : κ → Type} (made : Comparison Rec β) :
    (made.perform access.backend).Keeps SameOpen := by
  cases made with
  | order first second => exact first.sameOpen_order access second
  | order? first second => exact fun store => first.sameOpen_order access second store
  | meets first second => exact fun store => first.sameOpen_order access second store

theorem Reading.sameOpen (reading : Reading ρ α) (walk : Walk ρ) :
    (reading.read access.backend walk).Keeps SameOpen := by
  cases reading with
  | record => exact walk.sameOpen_value access
  | key => exact walk.sameOpen_keyBehindStem access

theorem Scan.sameOpen_reached (stop : Option Bytes) (walk : Walk ρ) :
    (Scan.reached access.backend stop walk).Keeps SameOpen := by
  cases stop with
  | none => exact Keeps.pure SameOpen.chains _
  | some key =>
    exact Keeps.bind SameOpen.chains (walk.sameOpen_compareKey access key) fun _ =>
      Keeps.pure SameOpen.chains _

end Looking

/-! ## 3. Steps of a walk -/

/-- Whether a motion of a walk opens and closes no cursor, and the walk holds the cursor afterwards
    that it held, if it held one. -/
def Motion.KeepsHold (walk : Walk ρ) (motion : Motion Store ρ α) : Prop :=
  ∀ store, SameOpen store (ends motion walk store).2
    ∧ (ends motion walk store).1.2.held? = walk.held?

namespace Motion.KeepsHold

variable {walk : Walk ρ} {motion : Motion Store ρ α} {next : α → Motion Store ρ β}

protected theorem pure (walk : Walk ρ) (value : α) :
    KeepsHold walk (pure value : Motion Store ρ α) :=
  fun store => ⟨.refl store, rfl⟩

protected theorem throw (walk : Walk ρ) (fault : Fault) :
    KeepsHold walk (throw fault : Motion Store ρ α) :=
  fun store => ⟨.refl store, rfl⟩

protected theorem bind (first : KeepsHold walk motion)
    (second : ∀ value walk', walk'.held? = walk.held? → KeepsHold walk' (next value)) :
    KeepsHold walk (motion >>= next) := by
  intro store
  obtain ⟨same, held⟩ := first store
  rcases ran : ends motion walk store with ⟨⟨fault | value, walk'⟩, after⟩
  · rw [ran] at same held
    rw [ends_bind_error ran]
    exact ⟨same, held⟩
  · rw [ran] at same held
    rw [ends_bind_ok ran]
    obtain ⟨same', held'⟩ := second value walk' held after
    exact ⟨same.trans same', held'.trans held⟩

/-- A look at the walk first. -/
theorem get_bind {next : Walk ρ → Motion Store ρ β} (h : KeepsHold walk (next walk)) :
    KeepsHold walk (get >>= next) := h

theorem ofAction {action : Action Store α} (h : action.Keeps SameOpen) (walk : Walk ρ) :
    KeepsHold walk (Motion.ofAction action) :=
  fun store => ⟨h store, rfl⟩

/-- A walk that holds a cursor remembers where that is. -/
theorem settle {id : CursorId} (held : walk.held? = some id) (standing : Standing) :
    KeepsHold walk (Walk.settle id standing) :=
  fun store => ⟨.refl store, held.symm⟩

end Motion.KeepsHold

section Stepping

open Motion

variable (access : Access)

theorem Walk.held?_of_hold {walk : Walk ρ} {hold : Hold} (holds : walk.hold = some hold) :
    walk.held? = some hold.cursor := by
  unfold held?
  rw [holds]
  rfl

theorem Walk.held?_of_cursor? {walk : Walk ρ} {id : CursorId} (going : walk.cursor? = some id) :
    walk.held? = some id := by
  unfold cursor? at going
  cases holds : walk.hold with
  | none =>
    rw [holds] at going
    cases going
  | some hold =>
    rw [holds] at going
    dsimp only at going
    split at going
    · cases going
    · exact (held?_of_hold holds).trans going

theorem Walk.keepsHold_advance (walk : Walk ρ) :
    KeepsHold walk (Walk.advance access.backend) := by
  refine KeepsHold.get_bind ?_
  cases going : walk.cursor? with
  | none => exact KeepsHold.throw walk _
  | some id =>
    refine (KeepsHold.ofAction (sameOpen_onward access walk.direction id) walk).bind ?_
    exact fun standing walk' same => .settle (same.trans (held?_of_cursor? going)) standing

theorem Walk.keepsHold_refresh (walk : Walk ρ) :
    KeepsHold walk (Walk.refresh access.backend) := by
  refine KeepsHold.get_bind ?_
  cases holds : walk.hold with
  | none => exact KeepsHold.pure walk _
  | some hold =>
    have asked := access.sameOpen (.cursorStanding hold.cursor) not_false
    refine (KeepsHold.ofAction asked walk).bind fun standing walk' same => ?_
    exact (KeepsHold.settle (same.trans (held?_of_hold holds)) standing).bind fun _ walk'' _ =>
      .pure walk'' standing

/-- A walk that holds a cursor goes back with it. -/
theorem Walk.keepsHold_retreat {walk : Walk ρ} {hold : Hold} (holds : walk.hold = some hold) :
    KeepsHold walk (Walk.retreat access.backend) := by
  intro store
  have found : ends (Walk.ensureCursor access.backend) walk store
      = ((.ok hold.cursor, walk), store) := by
    unfold Walk.ensureCursor
    rw [ends_get_bind, holds]
    rfl
  unfold Walk.retreat
  rw [ends_bind_ok found]
  refine (?_ : KeepsHold walk _) store
  refine KeepsHold.get_bind ?_
  have stepped := sameOpen_backward access walk.direction hold.cursor
  refine (KeepsHold.ofAction stepped walk).bind fun standing walk' same => ?_
  refine (KeepsHold.settle (same.trans (held?_of_hold holds)) standing).bind fun _ walk'' _ => ?_
  split
  · exact .throw walk'' _
  · exact .pure walk'' _

end Stepping

/-! ## 4. Making and ending walks -/

section Making

open Motion

variable (access : Access)

/-- A walk that is released holds nothing. -/
theorem Walk.custody_release (walk : Walk ρ) (store : Store) :
    Custody 0 store (Holding walk.held?) (walk.release access.backend store).2 (Holding none) := by
  obtain ⟨view, direction, hold⟩ := walk
  cases hold with
  | none => exact .refl store _
  | some hold =>
    have released := Custody.closed hold.cursor store
    cases access <;> exact released

/-- Both ways lead to the same opening. -/
theorem Walk.outcome_openCursor (view : View ρ) (store : Store) :
    outcome (Walk.openCursor access.backend view) store
      = outcome (Store.openCursor view.table.scope view.placement.stem) store := by
  cases access <;> rfl

/-- A cursor is opened, or nothing has happened. -/
theorem Walk.exchanges_openCursor (view : View ρ) :
    (Walk.openCursor access.backend view).Exchanges 1 none some := by
  intro store
  rw [Walk.outcome_openCursor]
  rcases ran : outcome (Store.openCursor view.table.scope view.placement.stem) store with
    ⟨fault | id, after⟩
  · obtain ⟨rfl, _⟩ := Store.openCursor_fails ran
    exact (Custody.refl after _).mono (Nat.zero_le 1)
  · exact .opened ran

/-- A walk is made with a cursor, or none is left open. -/
theorem Walk.exchanges_start (view : View ρ) (direction : Direction)
    {first : CursorId → Action Store Standing} (steps : ∀ id, (first id).Keeps SameOpen) :
    (Walk.start access.backend view direction first).Exchanges 1 none Walk.held? := by
  refine (Walk.exchanges_openCursor access view).bind (fun id => ?_) nofun
  have closes : ∀ store, Custody 0 store (Holding (some id))
      ((access.backend.closeCursor id).quietly store).2 (Holding none) := by
    intro store
    have closed := Custody.closed id store
    cases access <;> exact closed
  exact (Exchanges.onFault (steps id) closes).bind (fun standing => .pure rfl) fun _ _ same => same

theorem View.exchanges_seek (view : View ρ) (key : Bytes) :
    (view.seek access.backend key).Exchanges 1 none Walk.held? :=
  Walk.exchanges_start access view .forward fun id => access.sameOpen (.seekKey id key) not_false

/-- A walk that cannot be compared is given up. -/
theorem View.exchanges_standsOn (walk : Walk ρ) (key : Bytes) :
    (View.standsOn access.backend walk key).Exchanges 0 walk.held? fun _ => walk.held? := by
  unfold View.standsOn
  split
  · have compared := Exchanges.onFault (walk.sameOpen_compareKey access key)
      (walk.custody_release access)
    exact compared.bind (fun _ => .pure rfl) fun _ _ same => same
  · exact .pure rfl

/-- **A walk to a key that is not there holds no cursor**, and has left none open. -/
theorem View.exchanges_find (view : View ρ) (key : Bytes) :
    (view.find access.backend key).Exchanges 1 none Walk.held? := by
  refine (view.exchanges_seek access key).bind (fun walk => ?_) nofun
  refine (View.exchanges_standsOn access walk key).bind (fun found => ?_) fun _ _ same => same
  cases found with
  | true => exact .pure rfl
  | false => exact fun store => walk.custody_release access store

/-- A walk that takes itself to be on a key remembers an entry there. -/
theorem View.isGood_of_standsOn {walk : Walk ρ} {key : Bytes} {store after : Store}
    (stands : outcome (View.standsOn access.backend walk key) store = (.ok true, after)) :
    walk.isGood = true := by
  unfold View.standsOn at stands
  split at stands
  · assumption
  · cases stands

/-- A walk to a key either stands on an entry or is at its end without a cursor. -/
theorem View.atEnd_of_find {view : View ρ} {key : Bytes} {walk : Walk ρ} {store after : Store}
    (found : outcome (view.find access.backend key) store = (.ok walk, after))
    (apart : walk.standing ≠ .live) : walk = .atEnd view .forward := by
  unfold View.find at found
  rcases sought : outcome (view.seek access.backend key) store with ⟨fault | first, middle⟩
  · rw [outcome_bind_error sought] at found
    cases found
  rw [outcome_bind_ok sought] at found
  rcases stands : outcome (View.standsOn access.backend first key) middle with ⟨fault | here, later⟩
  · rw [outcome_bind_error stands] at found
    cases found
  rw [outcome_bind_ok stands] at found
  cases here with
  | true =>
    cases found
    exact absurd (of_decide_eq_true (View.isGood_of_standsOn access stands)) apart
  | false =>
    cases found
    rfl

/-- A walk that is led on while it is made, and given up if it cannot be. -/
theorem View.exchanges_led (walk : Walk ρ) :
    (do
      let (moved, walk) ← (Walk.advance access.backend).run walk
      (Action.ofExcept moved).onFault (walk.release access.backend)
      return walk : Action Store (Walk ρ)).Exchanges 0 walk.held? Walk.held? := by
  intro store
  obtain ⟨same, held⟩ := walk.keepsHold_advance access store
  let ended := Motion.ends (Walk.advance access.backend) walk store
  have later : (do
      (Action.ofExcept ended.1.1).onFault (ended.1.2.release access.backend)
      return ended.1.2 : Action Store (Walk ρ)).Exchanges 0 ended.1.2.held? Walk.held? := by
    refine Exchanges.bind (Exchanges.onFault (Keeps.ofExcept SameOpen.chains _)
      (ended.1.2.custody_release access)) (fun _ => .pure rfl) fun _ _ same => same
  have early : Custody 0 store (Holding walk.held?) ended.2 (Holding ended.1.2.held?) := by
    rw [held]
    exact .of_sameOpen same _
  exact early.trans (later ended.2) fun id here _ => held.trans here

theorem View.exchanges_seekAbove (view : View ρ) (key : Bytes) :
    (view.seekAbove access.backend key).Exchanges 1 none Walk.held? := by
  refine (view.exchanges_seek access key).bind (fun walk => ?_) nofun
  refine (View.exchanges_standsOn access walk key).bind (fun found => ?_) fun _ _ same => same
  cases found with
  | true => exact View.exchanges_led access walk
  | false => exact .pure rfl

/-- **A walk is made with a cursor of its own**, or with none at its end; none is left open by one
    that cannot be made. -/
theorem Start.custody (start : Start) (view : View ρ) :
    (start.perform access.backend view).Exchanges 1 none Walk.held? := by
  have atEnd : ∀ direction, Exchanges 1 none
      (pure (Walk.atEnd view direction) : Action Store (Walk ρ)) Walk.held? :=
    fun direction store => (Custody.refl store _).mono (Nat.zero_le 1)
  cases start with
  | seek key => exact view.exchanges_seek access key
  | find key => exact view.exchanges_find access key
  | seekAbove key => exact view.exchanges_seekAbove access key
  | first => exact view.exchanges_seek access _
  | last =>
    exact Walk.exchanges_start access view .reverse fun id => access.sameOpen (.previousKey id) not_false
  | pastLast => exact atEnd .forward
  | beforeFirst => exact atEnd .reverse

/-! ## 5. Going back -/

/-- **A walk that holds no cursor opens one to go back**, and holds it from then on, wherever the step
    leads; without room for one more cursor nothing happens. -/
theorem Walk.retreat_unheld {walk : Walk ρ} (unheld : walk.hold = none) (store : Store) :
    (store.settings.limits.maxCursors.toNat ≤ store.openCursors ∧
      ∃ fault, ends (Walk.retreat access.backend) walk store = ((.error fault, walk), store)) ∨
    ∃ id, (ends (Walk.retreat access.backend) walk store).1.2.held? = some id
      ∧ Custody 1 store (Holding none) (ends (Walk.retreat access.backend) walk store).2
          (Holding (some id)) := by
  have step : ends (Walk.ensureCursor access.backend) walk store
      = ends (ofAction (Walk.openCursor access.backend walk.view) >>= fun id => do
          Walk.settle id .ended
          return id) walk store := by
    unfold Walk.ensureCursor
    rw [ends_get_bind, unheld]
  rcases ran : outcome (Walk.openCursor access.backend walk.view) store with ⟨fault | id, middle⟩
  · have opens := (Walk.outcome_openCursor access walk.view store).symm.trans ran
    obtain ⟨rfl, full⟩ := Store.openCursor_fails opens
    rw [ends_bind_error (ends_ofAction ran)] at step
    exact .inl ⟨full, fault, ends_bind_error step⟩
  · have opens := (Walk.outcome_openCursor access walk.view store).symm.trans ran
    -- with the new cursor at its end the walk goes back as one that held it
    let holder : Walk ρ := { walk with hold := some ⟨id, .ended⟩ }
    have ensured : ends (Walk.ensureCursor access.backend) walk store = ((.ok id, holder), middle) := by
      rw [step, ends_bind_ok (ends_ofAction ran)]
      rfl
    have later : ends (Walk.retreat access.backend) walk store
        = ends (Walk.retreat access.backend) holder middle := by
      unfold Walk.retreat
      rw [ends_bind_ok ensured]
      rfl
    have holds : holder.hold = some ⟨id, .ended⟩ := rfl
    obtain ⟨same, held⟩ := Walk.keepsHold_retreat access holds middle
    rw [later]
    exact .inr ⟨id, held, (Custody.opened opens).trans (.of_sameOpen same _) nofun⟩

/-- **What is asked of a walk opens one cursor at most**, which the walk holds from then on, and closes
    none. -/
theorem Tread.custody (tread : Tread ρ β) (walk : Walk ρ) (store : Store) :
    Custody 1 store (Holding walk.held?) (ends (tread.perform access.backend) walk store).2
      (Holding (ends (tread.perform access.backend) walk store).1.2.held?) := by
  have steady : KeepsHold walk (tread.perform access.backend) →
      Custody 1 store (Holding walk.held?) (ends (tread.perform access.backend) walk store).2
        (Holding (ends (tread.perform access.backend) walk store).1.2.held?) := by
    intro keeps
    obtain ⟨same, held⟩ := keeps store
    rw [held]
    exact (Custody.of_sameOpen same _).mono (Nat.zero_le 1)
  cases tread with
  | advance => exact steady (walk.keepsHold_advance access)
  | refresh => exact steady (walk.keepsHold_refresh access)
  | standing => exact steady (KeepsHold.pure walk _)
  | key => exact steady (KeepsHold.ofAction (walk.sameOpen_key access) walk)
  | keyBehindStem => exact steady (KeepsHold.ofAction (walk.sameOpen_keyBehindStem access) walk)
  | value => exact steady (KeepsHold.ofAction (walk.sameOpen_value access) walk)
  | compareKey bound => exact steady (KeepsHold.ofAction (walk.sameOpen_compareKey access bound) walk)
  | retreat =>
    cases hold : walk.hold with
    | some holding => exact steady (Walk.keepsHold_retreat access hold)
    | none =>
      have held : walk.held? = none := congrArg (Option.map Hold.cursor) hold
      rcases Walk.retreat_unheld access hold store with ⟨_, fault, fails⟩ | ⟨id, now, custody⟩
      · have ran : ends (retreat.perform access.backend) walk store = _ := fails
        rw [ran]
        exact (Custody.refl store _).mono (Nat.zero_le 1)
      · have now : (ends (retreat.perform access.backend) walk store).1.2.held? = some id := now
        rw [now, held]
        exact custody

end Making

/-! ## 6. Scans, ranges and counts -/

section Scanning

open Motion

variable (access : Access)

theorem Span.custody (span : Span) (view : View ρ) :
    (span.start access.backend view).Exchanges 1 none fun scan => scan.walk.held? := by
  cases span with
  | whole => exact (view.exchanges_seek access _).bind (fun walk => .pure rfl) nofun
  | between lower upper => exact (view.exchanges_seek access lower).bind (fun walk => .pure rfl) nofun

theorem Scan.keepsHold_emit {read : Walk ρ → Action Store α} (reads : ∀ walk, (read walk).Keeps SameOpen)
    (stop : Option Bytes) (walk : Walk ρ) : KeepsHold walk (Scan.emit access.backend read stop) := by
  refine KeepsHold.get_bind ?_
  split
  · exact .pure walk none
  · refine (KeepsHold.ofAction (Scan.sameOpen_reached access stop walk) walk).bind fun stopped walk' _ => ?_
    split
    · exact .pure walk' none
    · refine (KeepsHold.ofAction (reads walk) walk').bind fun item walk'' _ => ?_
      exact (walk''.keepsHold_advance access).bind fun _ walk _ => .pure walk _

theorem Scan.keepsHold_step {read : Walk ρ → Action Store α} (reads : ∀ walk, (read walk).Keeps SameOpen)
    (stop : Option Bytes) (walk : Walk ρ) : KeepsHold walk (Scan.step access.backend read stop) := by
  rw [Scan.step_eq]
  refine KeepsHold.bind ?_ fun _ walk' _ => Scan.keepsHold_emit access reads stop walk'
  refine (walk.keepsHold_refresh access).bind fun standing walk' _ => ?_
  split
  · exact walk'.keepsHold_advance access
  · exact .pure walk' _

/-- **The next item** costs no cursor, and the scan holds on to its own. -/
theorem Scan.sameOpen_next {read : Walk ρ → Action Store α} (reads : ∀ walk, (read walk).Keeps SameOpen)
    (scan : Scan ρ) (store : Store) :
    SameOpen store (scan.next access.backend read store).2
      ∧ (scan.next access.backend read store).1.2.walk.held? = scan.walk.held? := by
  cases done : scan.done with
  | true =>
    rw [Scan.next_of_done access.backend done]
    exact ⟨.refl store, rfl⟩
  | false =>
    obtain ⟨same, held⟩ := Scan.keepsHold_step access reads scan.stop scan.walk store
    rw [Scan.next_of_going access.backend read done]
    rcases ran : ends (Scan.step access.backend read scan.stop) scan.walk store with
      ⟨⟨fault | (_ | item), walk⟩, after⟩ <;>
      (rw [ran] at same held
       exact ⟨same, held⟩)

theorem Scan.sameOpen_drain {read : Walk ρ → Action Store α} (reads : ∀ walk, (read walk).Keeps SameOpen)
    (bound : Nat) (scan : Scan ρ) (store : Store) :
    SameOpen store (Scan.drain access.backend read bound scan store).2
      ∧ (Scan.drain access.backend read bound scan store).1.2.walk.held? = scan.walk.held? := by
  induction bound generalizing scan store with
  | zero => exact ⟨.refl store, rfl⟩
  | succ bound ih =>
    obtain ⟨same, held⟩ := Scan.sameOpen_next access reads scan store
    unfold Scan.drain
    rw [run_bind]
    rcases ran : scan.next access.backend read store with ⟨⟨_ | item, scan'⟩, after⟩
    · rw [ran] at same held
      exact ⟨same, held⟩
    · rw [ran] at same held
      obtain ⟨same', held'⟩ := ih scan' after
      exact ⟨same.trans same', held'.trans held⟩

/-- **A scan that is run to its end** gives its cursor back. -/
theorem Scan.custody_all {read : Walk ρ → Action Store α} (reads : ∀ walk, (read walk).Keeps SameOpen)
    (scan : Scan ρ) (store : Store) :
    Custody 0 store (Holding scan.walk.held?) (scan.all access.backend read store).2
      (Holding none) := by
  let bound := access.backend.population scan.walk.view.table.scope store + 1
  let drained := Scan.drain access.backend read bound scan store
  obtain ⟨same, held⟩ := Scan.sameOpen_drain access reads bound scan store
  have early : Custody 0 store (Holding scan.walk.held?) drained.2
      (Holding drained.1.2.walk.held?) := by
    have held : drained.1.2.walk.held? = scan.walk.held? := held
    rw [held]
    exact .of_sameOpen same _
  have late := drained.1.2.walk.custody_release access drained.2
  exact early.trans late nofun

theorem View.keepsHold_collect (stop : Walk ρ) (bound : Nat) (walk : Walk ρ) :
    KeepsHold walk (View.collect access.backend stop bound) := by
  induction bound generalizing walk with
  | zero => exact .pure walk []
  | succ bound ih =>
    refine KeepsHold.get_bind ?_
    refine (KeepsHold.ofAction (walk.sameOpen_order access stop) walk).bind fun order walk' _ => ?_
    split
    · refine (KeepsHold.ofAction (walk.sameOpen_value access) walk').bind fun record walk' _ => ?_
      refine (walk'.keepsHold_advance access).bind fun _ walk' _ => ?_
      exact (ih walk').bind fun records walk' _ => .pure walk' _
    · exact .pure walk' []

/-- While one walk is held, a second one is made, or the first one given up. -/
theorem View.custody_second (view : View ρ) (key : Bytes) (walk : Walk ρ) {store : Store}
    (isOpen : ∀ id, walk.held? = some id → store.IsOpen id) :
    match outcome ((view.seek access.backend key).onFault (walk.release access.backend)) store with
    | (.ok stop, after) =>
      (∀ id, walk.held? = some id → stop.held? ≠ some id) ∧
      Custody 1 store (Holding walk.held?) after fun id => Holding stop.held? id ∨ Holding walk.held? id
    | (.error _, after) => Custody 1 store (Holding walk.held?) after (Holding none) := by
  have sought := view.exchanges_seek access key store
  have alone : ∀ id, Holding walk.held? id ↔ Holding none id ∨ Holding walk.held? id :=
    fun id => ⟨.inr, fun held => held.resolve_left nofun⟩
  rw [outcome_onFault]
  rcases ran : outcome (view.seek access.backend key) store with ⟨fault | stop, after⟩
  · rw [ran] at sought
    have kept := (sought.frame (Holding walk.held?) nofun nofun).congr alone alone
    exact kept.trans (walk.custody_release access after) nofun
  · rw [ran] at sought
    have apart : ∀ id, walk.held? = some id → stop.held? ≠ some id :=
      fun id here there => (sought.made id nofun there).1 (isOpen id here)
    exact ⟨apart, (sought.frame (Holding walk.held?) nofun apart).congr alone fun _ => Iff.rfl⟩

/-- **A range gives both its cursors back**, and the first one if there is no room for the second. -/
theorem View.exchanges_range (view : View ρ) (lower upper : Bytes) :
    (view.range access.backend lower upper).Exchanges 2 none fun _ => none := by
  intro store
  rw [heldIn_none]
  have sought := view.exchanges_seek access lower store
  unfold View.range
  rcases begun : outcome (view.seek access.backend lower) store with ⟨fault | walk, middle⟩
  · rw [begun] at sought
    rw [outcome_bind_error begun]
    exact sought.mono (by decide)
  rw [begun] at sought
  rw [outcome_bind_ok begun]
  have second := view.custody_second access upper walk fun id here => (sought.made id nofun here).2
  rcases marked : outcome ((view.seek access.backend upper).onFault (walk.release access.backend))
    middle with ⟨fault | stop, both⟩
  · rw [marked] at second
    rw [outcome_bind_error marked]
    exact sought.trans second nofun
  rw [marked] at second
  rw [outcome_bind_ok marked]
  obtain ⟨apart, second⟩ := second
  -- the first walk collects on, and both give their cursors back
  let bound := access.backend.population view.table.scope both + 1
  let collected := ends (View.collect access.backend stop bound) walk both
  obtain ⟨same, held⟩ := View.keepsHold_collect access stop bound walk both
  let two : CursorId → Prop := fun id => Holding stop.held? id ∨ Holding walk.held? id
  have kept : Custody 0 both two collected.2 two := .of_sameOpen same two
  have stopped := stop.custody_release access collected.2
  have alone : ∀ id, Holding walk.held? id ↔ Holding none id ∨ Holding walk.held? id :=
    fun id => ⟨.inr, fun held => held.resolve_left nofun⟩
  have released := (stopped.frame (Holding walk.held?) apart nofun).congr (fun _ => Iff.rfl) alone
  have ended : Custody 0 _ (Holding walk.held?) _ (Holding none) :=
    held ▸ collected.1.2.custody_release access (stop.release access.backend collected.2).2
  have closing := (kept.trans released fun _ _ held => .inr held).trans ended nofun
  exact (sought.trans second nofun).trans closing nofun

/-- **A count gives its cursor back.** -/
theorem Table.exchanges_count (table : Table ρ) :
    (table.count access.backend).Exchanges 1 none fun _ => none := by
  refine (Span.custody access .whole table.primaryView).bind (fun scan => ?_) nofun
  intro store
  let keys := scan.all access.backend (Scan.readKey access.backend) store
  have drained := Scan.custody_all access (fun walk => walk.sameOpen_keyBehindStem access) scan store
  have told : (do return (← Action.ofExcept (keys.1.mapM id)).length : Action Store Nat).Keeps
      SameOpen :=
    Keeps.bind SameOpen.chains (Keeps.ofExcept SameOpen.chains _) fun _ =>
      Keeps.pure SameOpen.chains _
  have later := Exchanges.of_keeps told keys.2
  rw [heldIn_none] at later
  have both := drained.trans later nofun
  rw [heldIn_none]
  exact both

/-- **A question leaves no cursor behind**, however it ends. -/
theorem Lookup.custody (made : Lookup ρ β) :
    (made.perform access.backend).Exchanges 2 none fun _ => none := by
  have steady : (made.perform access.backend).Keeps SameOpen →
      (made.perform access.backend).Exchanges 2 none fun _ => none :=
    fun keeps store => (Exchanges.of_keeps keeps store).mono (Nat.zero_le 2)
  cases made with
  | contains table record =>
    exact steady (access.sameOpen (.holds table.scope (table.primaryKey record)) not_false)
  | holds view key => exact steady (access.sameOpen (.holds view.table.scope key) not_false)
  | get view key => exact steady (view.sameOpen_get access key)
  | demand view key => exact steady (view.sameOpen_demand access key)
  | count table => exact fun store => (Table.exchanges_count access table store).mono (by decide)
  | range view lower upper => exact view.exchanges_range access lower upper

end Scanning

end IndexedStore
