import IndexedStore.Proofs.Store.Cursors
import IndexedStore.Proofs.Store.Neighbours
import IndexedStore.Table.Walk
/-!
# How walks step

A motion works on the store and on one walk. This file says how motions run, and what the steps of a
forward walk do that holds an open cursor over the keys of its index.

* `Motion.ends` is the result of a motion with the walk and the state that it leaves;
* `Walk.StandsAt` says where the cursor of a forward walk stands. What the walk remembers may be out
  of date, but for the end, which no write moves; `Walk.Rests` says that it is up to date;
* `Walk.ends_refresh`, `Walk.ends_advance` and `Walk.ends_nextEntry` are the steps. The last one is how
  a scan comes to the next entry: on from the key it waits at, if that is gone.
-/

namespace IndexedStore

open IndexedStore.Action

variable {σ ρ α β : Type}

/-! ## 1. Running motions -/

namespace Motion

/-- How a motion ends, with the walk and the state that it leaves. -/
def ends (motion : Motion σ ρ α) (walk : Walk ρ) (state : σ) : (Except Fault α × Walk ρ) × σ :=
  motion.run walk state

theorem ends_get_bind (next : Walk ρ → Motion σ ρ α) (walk : Walk ρ) (state : σ) :
    ends (get >>= next) walk state = ends (next walk) walk state := rfl

theorem ends_bind_ok {motion : Motion σ ρ α} {next : α → Motion σ ρ β} {walk walk' : Walk ρ}
    {state state' : σ} {value : α} (h : ends motion walk state = ((.ok value, walk'), state')) :
    ends (motion >>= next) walk state = ends (next value) walk' state' := by
  have run : ends (motion >>= next) walk state = ExceptT.bindCont next (ends motion walk state).1.1
      (ends motion walk state).1.2 (ends motion walk state).2 := rfl
  rw [run, h]
  rfl

theorem ends_bind_error {motion : Motion σ ρ α} {next : α → Motion σ ρ β} {walk walk' : Walk ρ}
    {state state' : σ} {fault : Fault}
    (h : ends motion walk state = ((.error fault, walk'), state')) :
    ends (motion >>= next) walk state = ((.error fault, walk'), state') := by
  have run : ends (motion >>= next) walk state = ExceptT.bindCont next (ends motion walk state).1.1
      (ends motion walk state).1.2 (ends motion walk state).2 := rfl
  rw [run, h]
  rfl

theorem ends_ofAction {action : Action σ α} {walk : Walk ρ} {state state' : σ}
    {result : Except Fault α} (h : outcome action state = (result, state')) :
    ends (ofAction action : Motion σ ρ α) walk state = ((result, walk), state') := by
  have run : ends (ofAction action : Motion σ ρ α) walk state
      = (((outcome action state).1, walk), (outcome action state).2) := rfl
  rw [run, h]

end Motion

/-! ## 2. Where a walk stands -/

/-- Whether two stores differ in their cursors at most. -/
def Steering (before after : Store) : Prop :=
  ∃ cursors, after = { before with cursors }

theorem Steering.chains : Chains Steering where
  refl store := ⟨store.cursors, rfl⟩
  trans := by
    rintro first _ _ ⟨_, rfl⟩ ⟨two, rfl⟩
    exact ⟨two, rfl⟩

theorem Steering.symm {before after : Store} (h : Steering before after) :
    Steering after before := by
  obtain ⟨cursors, rfl⟩ := h
  exact ⟨before.cursors, rfl⟩

theorem Steering.shelves {before after : Store} (h : Steering before after) :
    after.shelves = before.shelves := by
  obtain ⟨cursors, rfl⟩ := h
  rfl

theorem Steering.find? {before after : Store} (h : Steering before after) (scope : Name)
    (key : Bytes) : after.find? scope key = before.find? scope key := by
  obtain ⟨cursors, rfl⟩ := h
  rfl

/-- The store with a cursor set to where it is to be. -/
def Store.steer (store : Store) (id : CursorId) (cursor : Cursor) : Store :=
  { store with cursors := store.cursors.insert id cursor }

/-- The cursor over the keys of an index at a position. -/
def View.cursorAt (view : View ρ) (position : Position) : Cursor :=
  ⟨view.table.scope, view.placement.stem, position⟩

namespace Walk

open Motion

variable {view : View ρ} {id : CursorId} {store : Store} {position : Position} {walk : Walk ρ}

/-- The forward walk that holds a cursor and remembers a standing. -/
def holding (view : View ρ) (id : CursorId) (standing : Standing) : Walk ρ :=
  ⟨view, .forward, some ⟨id, standing⟩⟩

/-- Whether a forward walk holds the open cursor `id`, which stands at `position`. -/
structure StandsAt (view : View ρ) (id : CursorId) (store : Store) (position : Position)
    (walk : Walk ρ) : Prop where
  walk : ∃ standing, walk = holding view id standing
    ∧ (standing = .ended ↔ position = .ended)
  cursor : store.cursors.get? id = some (view.cursorAt position)

/-- The end is the one standing that entries have no part in. -/
theorem standingOf_eq_ended {store : Store} {cursor : Cursor} :
    store.standingOf cursor = .ended ↔ cursor.position = .ended := by
  unfold Store.standingOf
  cases cursor.position with
  | ended => exact ⟨fun _ => rfl, fun _ => rfl⟩
  | onKey key =>
    dsimp only
    split
    · exact ⟨nofun, nofun⟩
    · exact ⟨nofun, nofun⟩

/-- What a walk remembers right after a step. -/
theorem StandsAt.of_fresh (cursor : store.cursors.get? id = some (view.cursorAt position)) :
    StandsAt view id store position
      (holding view id (store.standingOf (view.cursorAt position))) where
  walk := ⟨_, rfl, standingOf_eq_ended⟩
  cursor := cursor

/-- Whether a forward walk holds the cursor `id`, which stands at `position`, and remembers what is
    there now. -/
structure Rests (view : View ρ) (id : CursorId) (store : Store) (position : Position)
    (walk : Walk ρ) : Prop where
  walk : walk = holding view id (store.standingOf (view.cursorAt position))
  cursor : store.cursors.get? id = some (view.cursorAt position)

theorem Rests.standsAt (h : Rests view id store position walk) :
    StandsAt view id store position walk :=
  h.walk ▸ StandsAt.of_fresh h.cursor

/-! ## 3. Steps -/

/-- Asking for the standing anew changes only what the walk remembers. -/
theorem ends_refresh (h : StandsAt view id store position walk) :
    ends (refresh Store.native) walk store
      = ((.ok (store.standingOf (view.cursorAt position)),
          holding view id (store.standingOf (view.cursorAt position))), store) := by
  obtain ⟨⟨standing, rfl, _⟩, cursor⟩ := h
  have asked := Store.outcome_cursorStanding id store
  rw [cursor] at asked
  have step : ends (refresh Store.native) (holding view id standing) store
      = ends (ofAction (Store.cursorStanding id) >>= fun now => do
          settle id now
          return now) (holding view id standing) store := rfl
  rw [step, ends_bind_ok (ends_ofAction asked)]
  rfl

/-- A step from a key leads to the next key, as the store has it now. -/
theorem ends_advance {standing : Standing} (going : standing ≠ .ended)
    (cursor : store.cursors.get? id = some (view.cursorAt position)) :
    ∃ after, ends (advance Store.native) (holding view id standing) store
        = ((.ok (), holding view id
            (after.standingOf (view.cursorAt (store.after (view.cursorAt position))))), after)
      ∧ Steering store after
      ∧ after.cursors.get? id = some (view.cursorAt (store.after (view.cursorAt position)))
      ∧ ∀ other, other ≠ id → after.cursors.get? other = store.cursors.get? other := by
  have stepped : outcome (Store.nextKey id) store = _ := Store.outcome_moveCursor id Store.after store
  rw [cursor] at stepped
  refine ⟨store.steer id (view.cursorAt (store.after (view.cursorAt position))), ?_, ⟨_, rfl⟩,
    OrdMap.get?_insert_self .., fun _ apart => OrdMap.get?_insert_of_ne _ apart _⟩
  have holds : (holding view id standing).cursor? = some id := if_neg going
  unfold advance
  rw [ends_get_bind, holds]
  exact ends_bind_ok (ends_ofAction stepped)

/-- Where a scan that waits at a key finds the next entry: there, or behind it if the entry is
    gone. -/
def nextEntry (backend : Backend σ) : Motion σ ρ Unit := do
  if (← refresh backend) = .erased then advance backend

/-- **A scan comes to the least stored key from the one that it waits at on.** -/
theorem ends_nextEntry {key : Bytes} (h : StandsAt view id store (.onKey key) walk)
    (begins : Bytes.startsWith key view.placement.stem) :
    ∃ found after, ends (nextEntry Store.native) walk store
        = ((.ok (), holding view id (after.standingOf (view.cursorAt found))), after)
      ∧ Steering store after
      ∧ after.cursors.get? id = some (view.cursorAt found)
      ∧ store.Least view.table.scope view.placement.stem (fun other => ¬ other < key) found := by
  have refreshed := ends_refresh h
  unfold nextEntry
  cases stored : (store.find? view.table.scope key).isSome with
  | true =>
    have live : store.standingOf (view.cursorAt (.onKey key)) = .live := if_pos stored
    refine ⟨.onKey key, store, ?_, Steering.chains.refl store, h.cursor, ?_⟩
    · rw [ends_bind_ok refreshed, live]
      rfl
    · exact ⟨begins, stored, Std.lt_irrefl, fun _ _ _ above => above⟩
  | false =>
    have absent : ¬ (store.find? view.table.scope key).isSome := by
      rw [stored]
      exact Bool.false_ne_true
    have gone : store.standingOf (view.cursorAt (.onKey key)) = .erased := if_neg absent
    rw [gone] at refreshed
    obtain ⟨after, advanced, steered, cursor, _⟩ := ends_advance
      (show Standing.erased ≠ .ended from nofun) h.cursor
    refine ⟨_, after, ?_, steered, cursor, ?_⟩
    · rw [ends_bind_ok refreshed, if_pos rfl, advanced]
    · refine (Store.least_firstAfter store view.table.scope begins).congr fun other _ here => ?_
      constructor
      · exact fun above below => Std.lt_irrefl (Std.lt_trans above below)
      · intro not_below
        rcases Bytes.lt_or_eq_or_gt key other with above | same | below
        · exact above
        · exact absurd (same ▸ here) absent
        · exact absurd below not_below

end Walk

end IndexedStore
