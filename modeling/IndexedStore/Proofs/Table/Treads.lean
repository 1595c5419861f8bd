import IndexedStore.Proofs.Store.Calls
import IndexedStore.Proofs.Table.Scanning
/-!
# What a walk does, foreseen

Where a walk stands is a SEAT: the position of its cursor and the standing that the walk remembers, or
no seat if it holds no cursor yet. What a step or a reading answers, and which seat comes next, depends
on the seat and on the entries alone: not on the number of the cursor, and not on any other cursor.

* `Tread` is what can be asked of a walk, `Tread.perform` asks it;
* `Tread.foresee` is the answer and the next seat as a function of seat and entries;
* `Walk.Sits` ties a walk in a store to its seat, and `Strolled` says what a step leaves of the store;
* **`Tread.ends_foreseen`**: a walk does what is foreseen.
-/

namespace IndexedStore

open IndexedStore.Action

variable {ρ α β : Type}

/-! ## 1. What can be asked of a walk -/

/-- A step of a walk, a reading at its position, or a look at what it remembers. -/
inductive Tread (ρ : Type) : Type → Type where
  | advance : Tread ρ Unit
  | retreat : Tread ρ Unit
  /-- Asks the store for the standing anew. -/
  | refresh : Tread ρ Standing
  /-- The standing that the walk remembers. -/
  | standing : Tread ρ Standing
  | key : Tread ρ Bytes
  | keyBehindStem : Tread ρ Bytes
  | value : Tread ρ ρ
  | compareKey (bound : Bytes) : Tread ρ Ordering

/-- Asks a walk. -/
def Tread.perform (backend : Backend Store) : Tread ρ β → Motion Store ρ β
  | advance => Walk.advance backend
  | retreat => Walk.retreat backend
  | refresh => Walk.refresh backend
  | standing => do return (← get).standing
  | key => do Motion.ofAction ((← get).key backend)
  | keyBehindStem => do Motion.ofAction ((← get).keyBehindStem backend)
  | value => do Motion.ofAction ((← get).value backend)
  | compareKey bound => do Motion.ofAction ((← get).compareKey backend bound)

/-- Whether a walk that holds no cursor opens one for this. -/
def Tread.Opens : Tread ρ β → Prop
  | retreat => True
  | _ => False

/-! ## 2. Seats -/

/-- Where the step that goes on leads to. -/
def Direction.ahead : Direction → Store → Cursor → Position
  | .forward => Store.after
  | .reverse => Store.before

/-- Where the step that goes back leads to. -/
def Direction.behind : Direction → Store → Cursor → Position
  | .forward => Store.before
  | .reverse => Store.after

/-- Where a walk stands that holds a cursor. -/
structure Seat where
  /-- What the walk remembers. -/
  standing : Standing
  /-- Where its cursor is. -/
  position : Position
  deriving DecidableEq, Repr

namespace View

variable (view : View ρ) (store : Store)

/-- The seat right after a step to a position. -/
def seatAt (position : Position) : Seat :=
  ⟨store.standingOf (view.cursorAt position), position⟩

/-- What is read from a seat: a part of the entry there. -/
def readFrom (part : Bytes × Entry → Bytes) : Option Seat → Except Fault Bytes
  | none => .error (.misuse .readAtEnd)
  | some seat => match seat.standing with
    | .ended => .error (.misuse .readAtEnd)
    | .erased => .error (.misuse .readErased)
    | .live => match store.entryAt? (view.cursorAt seat.position) with
      | none => .error (.misuse .readErased)
      | some found => .ok (part found)

end View

/-- What is read is a part of an entry at a live seat. -/
theorem View.entry_of_readFrom {view : View ρ} {store : Store} {part : Bytes × Entry → Bytes}
    {seat : Option Seat} {read : Bytes} (h : view.readFrom store part seat = .ok read) :
    ∃ key found, seat = some ⟨.live, .onKey key⟩ ∧ store.find? view.table.scope key = some found
      ∧ read = part (key, found) := by
  cases seat with
  | none => exact nomatch h
  | some seat =>
    obtain ⟨standing, position⟩ := seat
    cases standing with
    | ended => exact nomatch h
    | erased => exact nomatch h
    | live =>
      cases position with
      | ended => exact nomatch h
      | onKey key =>
        have entry : store.entryAt? (view.cursorAt (.onKey key))
            = (store.find? view.table.scope key).map (key, ·) := rfl
        unfold readFrom at h
        dsimp only at h
        rw [entry] at h
        cases stored : store.find? view.table.scope key with
        | none =>
          rw [stored] at h
          exact nomatch h
        | some found =>
          rw [stored] at h
          cases h
          exact ⟨key, found, rfl, stored, rfl⟩

/-- What cannot be read from a seat is refused as a misuse. -/
theorem View.misuse_of_readFrom {view : View ρ} {store : Store} {part : Bytes × Entry → Bytes}
    {seat : Option Seat} {fault : Fault} (h : view.readFrom store part seat = .error fault) :
    ∃ cause, fault = .misuse cause := by
  unfold readFrom at h
  split at h
  · cases h
    exact ⟨_, rfl⟩
  · split at h
    · cases h
      exact ⟨_, rfl⟩
    · cases h
      exact ⟨_, rfl⟩
    · split at h
      · cases h
        exact ⟨_, rfl⟩
      · exact nomatch h

/-- What is answered from a seat, and the seat after it. -/
def Tread.foresee (view : View ρ) (direction : Direction) (store : Store) :
    Tread ρ β → Option Seat → Except Fault β × Option Seat
  | advance, none => (.error (.misuse direction.stepFromEnd), none)
  | advance, some seat =>
    if seat.standing = .ended then (.error (.misuse direction.stepFromEnd), some seat)
    else (.ok (), some (view.seatAt store (direction.ahead store (view.cursorAt seat.position))))
  | retreat, seat =>
    let start := view.cursorAt ((seat.map (·.position)).getD .ended)
    let next := view.seatAt store (direction.behind store start)
    (if next.standing = .ended then .error (.misuse .stepBeforeFirst) else .ok (), some next)
  | refresh, none => (.ok .ended, none)
  | refresh, some seat =>
    let now := view.seatAt store seat.position
    (.ok now.standing, some now)
  | standing, seat => (.ok ((seat.map (·.standing)).getD .ended), seat)
  | key, seat => (view.readFrom store (·.1) seat, seat)
  | keyBehindStem, seat => (view.readFrom store (·.1) seat >>= view.placement.behindStem, seat)
  | value, seat => (view.readFrom store (·.2.value) seat >>= view.resolved store, seat)
  | compareKey _, none => (.ok .gt, none)
  | compareKey bound, some seat => (.ok (seat.position.order (.onKey bound)), some seat)

/-! ## 3. Walks on their seats -/

/-- Whether a walk over an index stands on a seat. -/
inductive Walk.Sits (view : View ρ) (direction : Direction) (store : Store) :
    Option Seat → Walk ρ → Prop where
  | unheld : Sits view direction store none ⟨view, direction, none⟩
  | held {id : CursorId} {seat : Seat}
    (cursor : store.cursors.get? id = some (view.cursorAt seat.position)) :
    Sits view direction store (some seat) ⟨view, direction, some ⟨id, seat.standing⟩⟩

section Sitting

variable {view : View ρ} {direction : Direction} {store : Store} {seat : Option Seat} {walk : Walk ρ}

theorem Walk.Sits.view_eq (sits : Walk.Sits view direction store seat walk) : walk.view = view := by
  cases sits <;> rfl

theorem Walk.Sits.direction_eq (sits : Walk.Sits view direction store seat walk) :
    walk.direction = direction := by
  cases sits <;> rfl

end Sitting

/-- The number of the cursor that a walk holds. -/
def Walk.held? (walk : Walk ρ) : Option CursorId :=
  walk.hold.map (·.cursor)

/-- What a walk leaves of a store when it becomes another walk: all but its own cursor, which may be
    a new one. -/
structure Strolled (before : Store) (walk : Walk ρ) (after : Store) (walk' : Walk ρ) : Prop where
  sparing : Sparing before after
  others : ∀ other, walk.held? ≠ some other → walk'.held? ≠ some other →
    after.cursors.get? other = before.cursors.get? other
  own : walk'.held? = walk.held? ∨ walk.held? = none ∧ ∃ id, walk'.held? = some id
    ∧ before.cursors.get? id = none
  size : after.cursors.size + walk.held?.toList.length
    = before.cursors.size + walk'.held?.toList.length

theorem Strolled.refl (store : Store) (walk : Walk ρ) : Strolled store walk store walk :=
  ⟨Sparing.refl store, fun _ _ _ => rfl, .inl rfl, rfl⟩

/-- A walk that only looks again at its standing leaves everything as it is. -/
theorem Strolled.looked (store : Store) (view : View ρ) (direction : Direction) (id : CursorId)
    (standing standing' : Standing) :
    Strolled store ⟨view, direction, some ⟨id, standing⟩⟩ store
      ⟨view, direction, some ⟨id, standing'⟩⟩ :=
  ⟨Sparing.refl store, fun _ _ _ => rfl, .inl rfl, rfl⟩

/-- A walk that strolls on holds the cursor that it held, or a new one if it held none. -/
theorem Strolled.trans {before middle after : Store} {first second third : Walk ρ}
    (one : Strolled before first middle second) (two : Strolled middle second after third) :
    Strolled before first after third where
  sparing := one.sparing.trans two.sparing
  others other apart apart' := by
    rcases two.own with same | ⟨unheld, _⟩
    · have apart'' : second.held? ≠ some other := same ▸ apart'
      exact (two.others other apart'' apart').trans (one.others other apart apart'')
    · have apart'' : second.held? ≠ some other := unheld ▸ nofun
      exact (two.others other apart'' apart').trans (one.others other apart apart'')
  own := by
    rcases two.own with same | ⟨unheld, id, held, fresh⟩
    · rcases one.own with same' | ⟨unheld', id, held', fresh'⟩
      · exact .inl (same.trans same')
      · exact .inr ⟨unheld', id, same.trans held', fresh'⟩
    · rcases one.own with same' | ⟨_, other, held', _⟩
      · refine .inr ⟨same'.symm.trans unheld, id, held, ?_⟩
        have apart : ∀ walk : Walk ρ, walk.held? = none → walk.held? ≠ some id :=
          fun walk none => none ▸ nofun
        rw [← one.others id (apart first (same'.symm.trans unheld)) (apart second unheld)]
        exact fresh
      · rw [unheld] at held'
        exact nomatch held'
  size := by
    have sizes := one.size
    have sizes' := two.size
    omega

/-- A walk that holds no cursor still has a slot for one, if it had one before. -/
theorem Strolled.free {before after : Store} {walk walk' : Walk ρ}
    (strolled : Strolled before walk after walk')
    (free : walk.held? = none → before.cursors.size < before.settings.limits.maxCursors.toNat)
    (unheld' : walk'.held? = none) :
    after.cursors.size < after.settings.limits.maxCursors.toNat := by
  have unheld : walk.held? = none := by
    rcases strolled.own with own | ⟨unheld, _⟩
    · exact own.symm.trans unheld'
    · exact unheld
  have size := strolled.size
  rw [unheld, unheld'] at size
  rw [strolled.sparing.settings, Nat.add_right_cancel size]
  exact free unheld

section Steps

open Motion Walk

variable {view : View ρ} {direction : Direction} {store : Store} {id : CursorId}
  {standing : Standing} {position : Position}

theorem Direction.outcome_onward (direction : Direction)
    (cursor : store.cursors.get? id = some (view.cursorAt position)) :
    outcome (direction.onward Store.native id) store
      = (.ok (view.seatAt store (direction.ahead store (view.cursorAt position))).standing,
          store.steer id (view.cursorAt (direction.ahead store (view.cursorAt position)))) := by
  have moved := Store.outcome_moveCursor id direction.ahead store
  rw [cursor] at moved
  cases direction <;> exact moved

theorem Direction.outcome_backward (direction : Direction)
    (cursor : store.cursors.get? id = some (view.cursorAt position)) :
    outcome (direction.backward Store.native id) store
      = (.ok (view.seatAt store (direction.behind store (view.cursorAt position))).standing,
          store.steer id (view.cursorAt (direction.behind store (view.cursorAt position)))) := by
  have moved := Store.outcome_moveCursor id direction.behind store
  rw [cursor] at moved
  cases direction <;> exact moved

/-- Where a step leads to, the entries decide. -/
theorem Direction.behind_congr {other : Store} (same : other.shelves = store.shelves)
    (direction : Direction) : direction.behind other = direction.behind store := by
  cases direction <;>
    (funext cursor
     simp only [behind, Store.before, Store.after, Store.lastOf, Store.lastBefore, Store.firstFrom,
       Store.firstAfter, Store.search, Store.shelf, same])

theorem Direction.ahead_congr {other : Store} (same : other.shelves = store.shelves)
    (direction : Direction) : direction.ahead other = direction.ahead store := by
  cases direction with
  | forward => exact behind_congr same .reverse
  | reverse => exact behind_congr same .forward

theorem View.seatAt_congr {other : Store} (same : other.shelves = store.shelves) :
    view.seatAt other = view.seatAt store := by
  funext position
  unfold seatAt Store.standingOf Store.find? Store.shelf
  rw [same]

/-- From its end a walk does not go on. -/
theorem Walk.ends_advance_stopped {walk : Walk ρ} (stopped : walk.cursor? = none) :
    ends (Walk.advance Store.native) walk store
      = ((.error (.misuse walk.direction.stepFromEnd), walk), store) := by
  unfold Walk.advance
  rw [ends_get_bind, stopped]
  rfl

theorem Walk.ends_advance_held (direction : Direction) (going : standing ≠ .ended)
    (cursor : store.cursors.get? id = some (view.cursorAt position)) :
    ends (Walk.advance Store.native) ⟨view, direction, some ⟨id, standing⟩⟩ store
      = ((.ok (), ⟨view, direction, some ⟨id,
            (view.seatAt store (direction.ahead store (view.cursorAt position))).standing⟩⟩),
          store.steer id (view.cursorAt (direction.ahead store (view.cursorAt position)))) := by
  have goes : (⟨view, direction, some ⟨id, standing⟩⟩ : Walk ρ).cursor? = some id := if_neg going
  unfold Walk.advance
  rw [ends_get_bind, goes]
  exact ends_bind_ok (ends_ofAction (direction.outcome_onward cursor))

/-- A walk that asks for its standing anew stays where it is. -/
theorem Walk.ends_refresh_held (direction : Direction)
    (cursor : store.cursors.get? id = some (view.cursorAt position)) :
    ends (Walk.refresh Store.native) ⟨view, direction, some ⟨id, standing⟩⟩ store
      = ((.ok (view.seatAt store position).standing,
          ⟨view, direction, some ⟨id, (view.seatAt store position).standing⟩⟩), store) := by
  have asked := Store.outcome_cursorStanding id store
  rw [cursor] at asked
  have step : ends (Walk.refresh Store.native)
      (⟨view, direction, some ⟨id, standing⟩⟩ : Walk ρ) store
        = ends (ofAction (Store.cursorStanding id) >>= fun now => do
            Walk.settle id now
            return now) ⟨view, direction, some ⟨id, standing⟩⟩ store := rfl
  rw [step, ends_bind_ok (ends_ofAction asked)]
  rfl

/-- What going back answers, by the standing that it leads to. -/
def Walk.retreated (standing : Standing) : Except Fault Unit :=
  if standing = .ended then .error (.misuse .stepBeforeFirst) else .ok ()

theorem Walk.ends_retreat_held
    (cursor : store.cursors.get? id = some (view.cursorAt position)) :
    ends (Walk.retreat Store.native) ⟨view, direction, some ⟨id, standing⟩⟩ store
      = ((Walk.retreated
            (view.seatAt store (direction.behind store (view.cursorAt position))).standing,
          ⟨view, direction, some ⟨id,
            (view.seatAt store (direction.behind store (view.cursorAt position))).standing⟩⟩),
          store.steer id (view.cursorAt (direction.behind store (view.cursorAt position)))) := by
  have ensured : ends (Walk.ensureCursor Store.native)
      (⟨view, direction, some ⟨id, standing⟩⟩ : Walk ρ) store
        = ((.ok id, ⟨view, direction, some ⟨id, standing⟩⟩), store) := rfl
  unfold Walk.retreat Walk.retreated
  rw [ends_bind_ok ensured, ends_get_bind,
    ends_bind_ok (ends_ofAction (direction.outcome_backward cursor))]
  split <;> rfl

/-- A walk without a cursor opens one at its end to go back. -/
theorem Walk.ends_retreat_unheld (direction : Direction) {middle : Store}
    (opens : outcome (Walk.openCursor Store.native view) store = (.ok id, middle)) :
    ends (Walk.retreat Store.native) ⟨view, direction, none⟩ store
      = ends (Walk.retreat Store.native) ⟨view, direction, some ⟨id, .ended⟩⟩ middle := by
  have ensured : ends (Walk.ensureCursor Store.native) (⟨view, direction, none⟩ : Walk ρ) store
      = ((.ok id, ⟨view, direction, some ⟨id, .ended⟩⟩), middle) := by
    have step : ends (Walk.ensureCursor Store.native) (⟨view, direction, none⟩ : Walk ρ) store
        = ends (ofAction (Walk.openCursor Store.native view) >>= fun cursor => do
            Walk.settle cursor .ended
            return cursor) ⟨view, direction, none⟩ store := rfl
    rw [step, ends_bind_ok (ends_ofAction opens)]
    rfl
  unfold Walk.retreat
  rw [ends_bind_ok ensured]
  rfl

end Steps

namespace Tread

open Motion

variable {view : View ρ} {direction : Direction} {store : Store} {id : CursorId} {seat : Option Seat}
  {walk : Walk ρ}

/-- A step of a held cursor leaves everything else alone. -/
theorem strolled_steer {standing standing' : Standing} {found : Cursor} (cursor : Cursor)
    (isOpen : store.cursors.get? id = some found) :
    Strolled store ⟨view, direction, some ⟨id, standing⟩⟩ (store.steer id cursor)
      ⟨view, direction, some ⟨id, standing'⟩⟩ where
  sparing := ⟨store.staged, _, store.nextCursor, rfl⟩
  others _ apart _ :=
    OrdMap.get?_insert_of_ne _ (fun same => apart (congrArg some same.symm)) _
  own := .inl rfl
  size := congrArg (· + 1) (OrdMap.size_insert_of_held isOpen _)

/-- Whether a walk on a seat does with a tread what is foreseen: it answers what the seat and the
    entries say, comes to the seat that they say, and leaves the rest of the store alone. -/
def Foretold (view : View ρ) (direction : Direction) (store : Store) (seat : Option Seat)
    (walk : Walk ρ) (tread : Tread ρ β) : Prop :=
  ∃ walk' after, ends (tread.perform Store.native) walk store
      = (((tread.foresee view direction store seat).1, walk'), after)
    ∧ Walk.Sits view direction after (tread.foresee view direction store seat).2 walk'
    ∧ Strolled store walk after walk'

/-- A walk that reads, or is looked at, stays where it is. -/
theorem stays {tread : Tread ρ β} {answer : Except Fault β}
    (sits : Walk.Sits view direction store seat walk)
    (ended : ends (tread.perform Store.native) walk store = ((answer, walk), store))
    (foreseen : tread.foresee view direction store seat = (answer, seat)) :
    Foretold view direction store seat walk tread := by
  unfold Foretold
  rw [foreseen]
  exact ⟨walk, store, ended, sits, Strolled.refl store walk⟩

/-- A walk leads its cursor one step on, unless it is at the end. -/
theorem foretold_advance (sits : Walk.Sits view direction store seat walk) :
    Foretold view direction store seat walk .advance := by
  cases sits with
  | unheld => exact stays .unheld (Walk.ends_advance_stopped rfl) rfl
  | @held id seat cursor =>
    by_cases atEnd : seat.standing = .ended
    · exact stays (.held cursor) (Walk.ends_advance_stopped (if_pos atEnd)) (if_pos atEnd)
    · have foreseen : (Tread.advance : Tread ρ Unit).foresee view direction store (some seat)
          = (.ok (), some (view.seatAt store
              (direction.ahead store (view.cursorAt seat.position)))) := if_neg atEnd
      unfold Foretold
      rw [foreseen]
      exact ⟨_, _, Walk.ends_advance_held direction atEnd cursor,
        .held (OrdMap.get?_insert_self ..), strolled_steer _ cursor⟩

/-- A walk leads its cursor one step back; without one it opens one first. -/
theorem foretold_retreat (sits : Walk.Sits view direction store seat walk)
    (free : walk.held? = none → store.cursors.size < store.settings.limits.maxCursors.toNat) :
    Foretold view direction store seat walk .retreat := by
  cases sits with
  | @held id seat cursor =>
    exact ⟨_, _, Walk.ends_retreat_held cursor, .held (OrdMap.get?_insert_self ..),
      strolled_steer _ cursor⟩
  | unheld =>
    rcases View.outcome_openCursor view store with
      ⟨full, _⟩ | ⟨id, middle, opens, joined, cursor⟩
    · exact absurd (free rfl) full
    have retreated := (Walk.ends_retreat_unheld direction opens).trans
      (Walk.ends_retreat_held cursor)
    rw [View.seatAt_congr joined.shelves, Direction.behind_congr joined.shelves] at retreated
    refine ⟨_, _, retreated, .held (OrdMap.get?_insert_self ..),
      joined.sparing.trans ⟨middle.staged, _, middle.nextCursor, rfl⟩, fun other _ unheld => ?_,
      .inr ⟨rfl, id, rfl, joined.fresh⟩, ?_⟩
    · have apart : other ≠ id := fun same => unheld (congrArg some same.symm)
      exact (OrdMap.get?_insert_of_ne _ apart _).trans (joined.others other apart)
    · exact (OrdMap.size_insert_of_held cursor _).trans joined.size

/-- What is read from a seat is what the walk on it reads. -/
theorem outcome_current (sits : Walk.Sits view direction store seat walk)
    {fetch : CursorId → Action Store (Option Bytes)} {part : Bytes × Entry → Bytes}
    (fetches : ∀ id, outcome (fetch id) store = match store.cursors.get? id with
      | none => (.error (.unknownCursor id), store)
      | some found => (.ok ((store.entryAt? found).map part), store)) :
    outcome (walk.current fetch) store = (view.readFrom store part seat, store) := by
  cases sits with
  | unheld => rfl
  | @held id seat cursor =>
    obtain ⟨standing, position⟩ := seat
    cases standing with
    | ended => rfl
    | erased => rfl
    | live =>
      have fetched := fetches id
      rw [cursor] at fetched
      unfold Walk.current View.readFrom
      dsimp only at fetched ⊢
      cases stored : store.entryAt? (view.cursorAt position) with
      | none =>
        rw [stored] at fetched
        exact outcome_bind_ok fetched
      | some found =>
        rw [stored] at fetched
        exact outcome_bind_ok fetched

theorem outcome_key (sits : Walk.Sits view direction store seat walk) :
    outcome (walk.key Store.native) store = (view.readFrom store (·.1) seat, store) :=
  outcome_current sits fun id => Store.outcome_currentKey id store

theorem outcome_keyBehindStem (sits : Walk.Sits view direction store seat walk) :
    outcome (walk.keyBehindStem Store.native) store
      = (view.readFrom store (·.1) seat >>= view.placement.behindStem, store) := by
  refine outcome_bind_looks (outcome_key sits) fun key => ?_
  rw [sits.view_eq, outcome_ofExcept]

theorem outcome_value (sits : Walk.Sits view direction store seat walk) :
    outcome (walk.value Store.native) store
      = (view.readFrom store (·.2.value) seat >>= view.resolved store, store) := by
  refine outcome_bind_looks
    (outcome_current sits fun id => Store.outcome_currentValue id store) fun raw => ?_
  rw [sits.view_eq, View.outcome_resolved]

/-- **A walk does what is foreseen.** A walk that has no cursor yet needs a slot for one, to go
    back. -/
theorem ends_foreseen (sits : Walk.Sits view direction store seat walk) (tread : Tread ρ β)
    (free : tread.Opens → walk.held? = none →
      store.cursors.size < store.settings.limits.maxCursors.toNat) :
    Foretold view direction store seat walk tread := by
  cases tread with
  | advance => exact foretold_advance sits
  | retreat => exact foretold_retreat sits (free trivial)
  | refresh =>
    cases sits with
    | unheld => exact stays .unheld rfl rfl
    | @held id seat cursor =>
      exact ⟨_, store, Walk.ends_refresh_held direction cursor, .held cursor, .looked ..⟩
  | standing =>
    refine stays sits ?_ rfl
    cases sits <;> rfl
  | key => exact stays sits (ends_ofAction (outcome_key sits)) rfl
  | keyBehindStem => exact stays sits (ends_ofAction (outcome_keyBehindStem sits)) rfl
  | value => exact stays sits (ends_ofAction (outcome_value sits)) rfl
  | compareKey bound =>
    cases sits with
    | unheld => exact stays .unheld rfl rfl
    | @held id seat cursor =>
      have compared : outcome (Store.compareKey id bound) store
          = (.ok (seat.position.order (.onKey bound)), store) := by
        rw [Store.outcome_compareKey, cursor]
        rfl
      exact stays (.held cursor) (ends_ofAction compared) rfl

end Tread

end IndexedStore
