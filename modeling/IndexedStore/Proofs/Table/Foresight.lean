import IndexedStore.Proofs.Store.Estates
import IndexedStore.Proofs.Store.Ledgers
import IndexedStore.Proofs.Table.Lookups
import IndexedStore.Proofs.Table.Treads
/-!
# Starts, comparisons and ranges, foreseen

As for the steps of a walk, what the making of a walk leads to, how two walks compare and what a
range reads depend on seats and entries alone.

* `Start` is how a walk is made, `Start.foresee` the seat that it is made on, and
  **`Start.outcome_foreseen`** says that it is;
* `Seat.Within` says that a seat keeps to the keys of its index, and each step leads from such a seat
  to another one; there **`View.behindStem_readFrom`** finds the stem on every key that is read;
* `Walk.outcome_order_foreseen` compares two walks by their seats;
* `View.gather` is what a collection reads from a seat on, and **`View.outcome_range_foreseen`**
  says that a range reads it and keeps no cursor.
-/

namespace IndexedStore

open IndexedStore.Action

variable {ρ α β : Type}

/-! ## 1. Making walks -/

/-- How a walk over an index is made. -/
inductive Start where
  | seek (key : Bytes)
  | find (key : Bytes)
  | seekAbove (key : Bytes)
  | first
  | last
  | pastLast
  | beforeFirst

/-- Whether a walk on a seat takes itself to be on a key. -/
def Seat.isOn (seat : Seat) (key : Bytes) : Bool :=
  seat.standing = .live ∧ seat.position.order (.onKey key) = .eq

/-- The seat at the first key that is not below a given one. -/
def View.sought (view : View ρ) (store : Store) (key : Bytes) : Seat :=
  view.seatAt store (store.firstFrom view.table.scope view.placement.stem key)

/-- The seat one step on from a seat. -/
def Seat.onward (view : View ρ) (direction : Direction) (store : Store) (seat : Seat) : Seat :=
  view.seatAt store (direction.ahead store (view.cursorAt seat.position))

namespace Start

/-- The direction of the walk that is made. -/
def direction : Start → Direction
  | last | beforeFirst => .reverse
  | _ => .forward

/-- Makes the walk. -/
def perform (backend : Backend Store) (view : View ρ) : Start → Action Store (Walk ρ)
  | seek key => view.seek backend key
  | find key => view.find backend key
  | seekAbove key => view.seekAbove backend key
  | first => view.first backend
  | last => view.last backend
  | pastLast => return view.pastLast
  | beforeFirst => return view.beforeFirst

/-- The seat that a walk is made on. -/
def foresee (view : View ρ) (store : Store) : Start → Option Seat
  | seek key => some (view.sought store key)
  | find key => if (view.sought store key).isOn key then some (view.sought store key) else none
  | seekAbove key =>
    if (view.sought store key).isOn key then
      some ((view.sought store key).onward view .forward store)
    else some (view.sought store key)
  | first => some (view.sought store view.placement.stem)
  | last => some (view.seatAt store (store.before (view.cursorAt .ended)))
  | pastLast | beforeFirst => none

end Start

section Starts

open Motion Walk

variable {view : View ρ} {direction : Direction} {store : Store} {id : CursorId} {seat : Seat}

/-- A new walk holds a new cursor. -/
theorem Strolled.of_joined {after : Store} (joined : View.Joined id store after)
    (standing : Standing) :
    Strolled store (.atEnd view direction) after ⟨view, direction, some ⟨id, standing⟩⟩ where
  sparing := joined.sparing
  others other _ apart := joined.others other fun same => apart (congrArg some same.symm)
  own := .inr ⟨rfl, id, rfl, joined.fresh⟩
  size := joined.size

/-- Giving a new cursor back leaves no cursor behind. -/
theorem Strolled.of_closed {after : Store} (joined : View.Joined id store after) :
    Strolled store (.atEnd view direction)
      { after with cursors := after.cursors.erase id } (.atEnd view direction) where
  sparing := joined.sparing.trans ⟨after.staged, _, after.nextCursor, rfl⟩
  others other _ _ := congrArg (·.get? other) (View.Joined.closed joined)
  own := .inl rfl
  size := congrArg (·.size) (View.Joined.closed joined)

/-- A walk on a seat tells whether it is on a key. -/
theorem Walk.outcome_standsOn (direction : Direction)
    (cursor : store.cursors.get? id = some (view.cursorAt seat.position)) (key : Bytes) :
    outcome (View.standsOn Store.native ⟨view, direction, some ⟨id, seat.standing⟩⟩ key) store
      = (.ok (seat.isOn key), store) := by
  let walk : Walk ρ := ⟨view, direction, some ⟨id, seat.standing⟩⟩
  have good : walk.isGood = decide (seat.standing = .live) := rfl
  have compared : outcome ((walk.compareKey Store.native key).onFault (walk.release Store.native))
      store = (.ok (seat.position.order (.onKey key)), store) := by
    have asked : outcome (walk.compareKey Store.native key) store = _ :=
      Store.outcome_compareKey id key store
    rw [cursor] at asked
    rw [outcome_onFault, asked]
    rfl
  unfold View.standsOn Seat.isOn
  rw [good]
  by_cases live : seat.standing = .live
  · rw [if_pos (decide_eq_true live), outcome_bind_ok compared, outcome_pure]
    simp only [live, true_and]
  · rw [if_neg (by simpa using live), outcome_pure]
    simp only [live, false_and, decide_false]

/-- A walk that holds a cursor gives it back. -/
theorem Walk.release_held (view : View ρ) (direction : Direction) (standing : Standing)
    {found : Cursor} (isOpen : store.cursors.get? id = some found) :
    (⟨view, direction, some ⟨id, standing⟩⟩ : Walk ρ).release Store.native store
      = ((), { store with cursors := store.cursors.erase id }) := by
  have closed := Store.outcome_closeCursor id store
  rw [isOpen] at closed
  have released : outcome (Store.native.closeCursor id) store = _ := closed
  exact congrArg (fun left => ((), left)) (congrArg Prod.snd released)

/-- A walk that is made by a first move of its cursor. -/
theorem View.outcome_start_foreseen (view : View ρ) (direction : Direction)
    (free : store.cursors.size < store.settings.limits.maxCursors.toNat)
    {target : Store → Cursor → Position}
    (steady : ∀ s t : Store, s.shelves = t.shelves → target s = target t) :
    ∃ id after, outcome (Walk.start Store.native view direction (Store.moveCursor · target)) store
        = (.ok ⟨view, direction, some ⟨id,
            (view.seatAt store (target store (view.cursorAt .ended))).standing⟩⟩, after)
      ∧ Joined id store after
      ∧ after.cursors.get? id = some (view.cursorAt (target store (view.cursorAt .ended))) := by
  rcases view.outcome_start store direction steady with
    ⟨full, _⟩ | ⟨id, after, started, joined, cursor⟩
  · exact absurd free full
  · refine ⟨id, after, ?_, joined, cursor⟩
    rw [← View.seatAt_congr joined.shelves]
    exact started

/-- A seek leads to the first key that is not below the one sought. -/
theorem View.outcome_sought (view : View ρ)
    (free : store.cursors.size < store.settings.limits.maxCursors.toNat) (key : Bytes) :
    ∃ id after, outcome (view.seek Store.native key) store
        = (.ok ⟨view, .forward, some ⟨id, (view.sought store key).standing⟩⟩, after)
      ∧ Joined id store after
      ∧ after.cursors.get? id = some (view.cursorAt (view.sought store key).position) :=
  view.outcome_start_foreseen .forward free (Store.steady_firstFrom key)

/-- A walk that is led on while it is made. -/
theorem View.outcome_advanced {walk walk' : Walk ρ} {after : Store}
    (advanced : ends (Walk.advance Store.native) walk store = ((.ok (), walk'), after)) :
    outcome (do
        let (moved, walk) ← (Walk.advance Store.native).run walk
        (Action.ofExcept moved).onFault (walk.release Store.native)
        return walk : Action Store (Walk ρ)) store = (.ok walk', after) := by
  have step : outcome (do
      let (moved, walk) ← (Walk.advance Store.native).run walk
      (Action.ofExcept moved).onFault (walk.release Store.native)
      return walk : Action Store (Walk ρ)) store
        = outcome (do
            (Action.ofExcept (ends (Walk.advance Store.native) walk store).1.1).onFault
              ((ends (Walk.advance Store.native) walk store).1.2.release Store.native)
            return (ends (Walk.advance Store.native) walk store).1.2 : Action Store (Walk ρ))
          (ends (Walk.advance Store.native) walk store).2 := rfl
  rw [step, advanced]
  rfl

/-- Whether an action makes a walk on a seat, or at the end, and changes nothing else. -/
def View.Makes (view : View ρ) (store : Store) (action : Action Store (Walk ρ))
    (direction : Direction) (seat : Option Seat) : Prop :=
  ∃ walk after, outcome action store = (.ok walk, after)
    ∧ Walk.Sits view direction after seat walk ∧ Strolled store (.atEnd view direction) after walk

section Making

variable (view : View ρ) (free : store.cursors.size < store.settings.limits.maxCursors.toNat)
  (key : Bytes)
include free

theorem View.makes_seek :
    view.Makes store (view.seek Store.native key) .forward (some (view.sought store key)) := by
  obtain ⟨id, after, sought, joined, cursor⟩ := view.outcome_sought free key
  exact ⟨_, after, sought, .held cursor, .of_joined joined _⟩

theorem View.makes_last : view.Makes store (view.last Store.native) .reverse
    (Start.last.foresee view store) := by
  have steady : ∀ s t : Store, s.shelves = t.shelves → s.before = t.before :=
    fun _ _ same => Direction.behind_congr same .forward
  obtain ⟨id, after, started, joined, cursor⟩ :=
    view.outcome_start_foreseen .reverse free steady
  exact ⟨_, after, started, .held cursor, .of_joined joined _⟩

/-- A walk to a key that is not there gives its cursor back. -/
theorem View.makes_find : view.Makes store (view.find Store.native key) .forward
    ((Start.find key).foresee view store) := by
  obtain ⟨id, after, sought, joined, cursor⟩ := view.outcome_sought free key
  have stands := Walk.outcome_standsOn .forward cursor key
  by_cases on : (view.sought store key).isOn key
  · have foreseen : (Start.find key).foresee view store = some (view.sought store key) := if_pos on
    rw [foreseen]
    refine ⟨_, after, ?_, .held cursor, .of_joined joined _⟩
    unfold View.find
    rw [outcome_bind_ok sought, outcome_bind_ok stands, if_pos on]
    rfl
  · have foreseen : (Start.find key).foresee view store = none := if_neg on
    rw [foreseen]
    refine ⟨.atEnd view .forward, _, ?_, .unheld, .of_closed joined⟩
    have released := Walk.release_held view .forward (view.sought store key).standing cursor
    unfold View.find
    rw [outcome_bind_ok sought, outcome_bind_ok stands, if_neg on]
    exact congrArg (fun left =>
      ((Except.ok (Walk.atEnd view .forward) : Except Fault (Walk ρ)), left))
      (congrArg Prod.snd released)

/-- A walk that stands on the key is led one step on. -/
theorem View.makes_seekAbove : view.Makes store (view.seekAbove Store.native key) .forward
    ((Start.seekAbove key).foresee view store) := by
  obtain ⟨id, after, sought, joined, cursor⟩ := view.outcome_sought free key
  have stands := Walk.outcome_standsOn .forward cursor key
  by_cases on : (view.sought store key).isOn key
  · have foreseen : (Start.seekAbove key).foresee view store
      = some ((view.sought store key).onward view .forward store) := if_pos on
    rw [foreseen]
    have live : (view.sought store key).standing = .live := (of_decide_eq_true on).1
    have going : (view.sought store key).standing ≠ .ended := by
      rw [live]
      nofun
    have advanced := Walk.ends_advance_held .forward going cursor
    rw [View.seatAt_congr joined.shelves, Direction.ahead_congr joined.shelves] at advanced
    refine ⟨_, _, ?_, .held (OrdMap.get?_insert_self ..),
      (Strolled.of_joined joined (view.sought store key).standing).trans
        (Tread.strolled_steer _ cursor)⟩
    unfold View.seekAbove
    rw [outcome_bind_ok sought, outcome_bind_ok stands, if_pos on]
    exact View.outcome_advanced advanced
  · have foreseen : (Start.seekAbove key).foresee view store = some (view.sought store key) :=
      if_neg on
    rw [foreseen]
    refine ⟨_, after, ?_, .held cursor, .of_joined joined _⟩
    unfold View.seekAbove
    rw [outcome_bind_ok sought, outcome_bind_ok stands, if_neg on]
    rfl

end Making

/-- **A walk is made on the seat foreseen**, and of the store only its own cursor is new. -/
theorem Start.outcome_foreseen (start : Start) (view : View ρ)
    (free : store.cursors.size < store.settings.limits.maxCursors.toNat) :
    view.Makes store (start.perform Store.native view) start.direction
      (start.foresee view store) := by
  cases start with
  | seek key => exact view.makes_seek free key
  | find key => exact view.makes_find free key
  | seekAbove key => exact view.makes_seekAbove free key
  | first => exact view.makes_seek free view.placement.stem
  | last => exact view.makes_last free
  | pastLast => exact ⟨_, store, rfl, .unheld, .refl ..⟩
  | beforeFirst => exact ⟨_, store, rfl, .unheld, .refl ..⟩

end Starts

/-! ## 2. Seats keep to their index -/

/-- Whether a seat keeps to the keys of an index. -/
def Seat.Within (view : View ρ) (seat : Seat) : Prop :=
  seat.position.Within view.placement.stem

section Within

variable {view : View ρ} {direction : Direction} {store : Store} {seat : Seat}

theorem View.within_sought (view : View ρ) (store : Store) (key : Bytes) :
    (view.sought store key).Within view :=
  (Store.least_firstFrom store view.table.scope view.placement.stem key).within

theorem Direction.within_ahead (direction : Direction) {position : Position}
    (within : position.Within view.placement.stem) :
    (direction.ahead store (view.cursorAt position)).Within view.placement.stem := by
  cases direction with
  | forward => exact Store.within_after within
  | reverse => exact Store.within_before within

theorem Direction.within_behind (direction : Direction) {position : Position}
    (within : position.Within view.placement.stem) :
    (direction.behind store (view.cursorAt position)).Within view.placement.stem := by
  cases direction with
  | forward => exact Store.within_before within
  | reverse => exact Store.within_after within

theorem Seat.Within.onward (within : seat.Within view) (direction : Direction) :
    (seat.onward view direction store).Within view :=
  direction.within_ahead within

/-- **A step of a walk keeps to the index.** -/
theorem Tread.within_foresee (tread : Tread ρ β) {seat : Option Seat}
    (within : ∀ here ∈ seat, here.Within view) :
    ∀ here ∈ (tread.foresee view direction store seat).2, here.Within view := by
  cases tread with
  | advance =>
    cases seat with
    | none => exact within
    | some seat =>
      unfold foresee
      dsimp only
      split
      · exact within
      · rintro _ ⟨⟩
        exact (within seat rfl).onward direction
  | retreat =>
    rintro _ ⟨⟩
    refine direction.within_behind ?_
    cases seat with
    | none => exact Position.within_ended _
    | some seat => exact within seat rfl
  | refresh =>
    cases seat with
    | none => exact within
    | some seat =>
      rintro _ ⟨⟩
      exact within seat rfl
  | standing | key | keyBehindStem | value => exact within
  | compareKey bound => cases seat <;> exact within

/-- **A walk is made within its index.** -/
theorem Start.within_foresee (start : Start) :
    ∀ here ∈ start.foresee view store, here.Within view := by
  have sought := view.within_sought store
  cases start with
  | seek key | first =>
    rintro _ ⟨⟩
    exact sought _
  | find key =>
    unfold foresee
    dsimp only
    split
    · rintro _ ⟨⟩
      exact sought key
    · exact nofun
  | seekAbove key =>
    unfold foresee
    dsimp only
    split
    · rintro _ ⟨⟩
      exact (sought key).onward .forward
    · rintro _ ⟨⟩
      exact sought key
  | last =>
    rintro _ ⟨⟩
    exact Store.within_before (Position.within_ended view.placement.stem)
  | pastLast | beforeFirst => exact nofun

section Stems

variable {seats : Option Seat} (within : ∀ here ∈ seats, here.Within view)
include within

/-- The key that is read from a seat within an index is one of the index's keys. -/
theorem View.contains_of_readFrom {key : Bytes}
    (read : view.readFrom store (·.1) seats = .ok key) : view.placement.contains key := by
  obtain ⟨_, _, rfl, _, rfl⟩ := entry_of_readFrom read
  exact within _ rfl _ rfl

/-- **The stem is there to be cut off**, wherever a seat keeps to its index. -/
theorem View.behindStem_readFrom : view.readFrom store (·.1) seats >>= view.placement.behindStem
    = (view.readFrom store (·.1) seats).map (·.drop view.placement.stem.length) := by
  cases read : view.readFrom store (·.1) seats with
  | error fault => rfl
  | ok key =>
    have own := contains_of_readFrom within read
    exact (view.placement.behindStem_eq key).trans (if_pos own)

end Stems

end Within

/-! ## 3. What walks hold -/

section Holding

variable {view : View ρ} {direction : Direction} {store before after : Store} {seat : Option Seat}
  {walk walk' : Walk ρ} {id : CursorId}

/-- A walk that becomes another one changes no cursors but its own. -/
theorem Strolled.ledger (strolled : Strolled before walk after walk') :
    Ledger before (Holding walk.held?) after (Holding walk'.held?) where
  others := strolled.others
  fresh id here := by
    rcases strolled.own with same | ⟨_, other, held, fresh⟩
    · exact .inl (same ▸ here)
    · rw [held] at here
      cases here
      exact .inr fresh
  gone id here gone := by
    rcases strolled.own with same | ⟨unheld, _⟩
    · exact absurd (same.trans here) gone
    · rw [unheld] at here
      exact nomatch here

/-- A new cursor is all that is new. -/
theorem View.Joined.ledger (joined : View.Joined id before after) :
    Ledger before (Holding none) after (Holding (some id)) where
  others other _ apart := joined.others other fun same => apart (congrArg some same.symm)
  fresh _ here := .inr (Option.some.inj here ▸ joined.fresh)
  gone _ here := nomatch here

/-- A walk that is released holds nothing any more. -/
theorem Walk.release_foreseen (sits : Walk.Sits view direction store seat walk) :
    ∃ after, walk.release Store.native store = ((), after) ∧ Sparing store after
      ∧ Ledger store (Holding walk.held?) after (Holding none) := by
  cases sits with
  | unheld => exact ⟨store, rfl, .refl store, .refl store _⟩
  | @held id seat cursor =>
    refine ⟨_, release_held view direction seat.standing cursor, ⟨store.staged, _, store.nextCursor,
      rfl⟩, fun other apart _ => ?_, fun _ => nofun, fun other here _ => ?_⟩
    · exact OrdMap.get?_erase_of_ne _ fun same => apart (congrArg some same.symm)
    · cases here
      exact (OrdMap.get?_erase ..).trans (if_pos rfl)

end Holding

/-! ## 4. Comparing walks -/

/-- Where a walk on a seat goes on from, unless it is at its end. -/
def Seat.going? (seat : Option Seat) : Option Position :=
  seat.bind fun seat => if seat.standing = .ended then none else some seat.position

/-- How two walks over one index compare by their seats. -/
def Direction.compare (direction : Direction) (first second : Option Seat) : Ordering :=
  match Seat.going? first, Seat.going? second with
  | none, none => .eq
  | none, some _ => .gt
  | some _, none => .lt
  | some here, some there => match direction with
    | .forward => here.order there
    | .reverse => there.order here

section Comparing

variable {table : Table ρ} {index index' : Fin table.indices.length}
  {direction direction' : Direction} {store : Store} {seat seat' : Option Seat} {walk walk' : Walk ρ}

/-- The cursor by which a walk is compared is on the position that it goes on from. -/
theorem Walk.Sits.cursor? {view : View ρ} (sits : Walk.Sits view direction store seat walk) :
    (walk.cursor? = none ∧ Seat.going? seat = none) ∨
    ∃ id position, walk.cursor? = some id ∧ Seat.going? seat = some position
      ∧ store.cursors.get? id = some (view.cursorAt position) := by
  cases sits with
  | unheld => exact .inl ⟨rfl, rfl⟩
  | @held id seat cursor =>
    by_cases atEnd : seat.standing = .ended
    · exact .inl ⟨if_pos atEnd, if_pos atEnd⟩
    · exact .inr ⟨id, seat.position, if_neg atEnd, if_neg atEnd, cursor⟩

/-- **Walks compare by their seats**, and only if they go the same way over one index. -/
theorem Walk.outcome_order_foreseen (sits : Walk.Sits ⟨table, index⟩ direction store seat walk)
    (sits' : Walk.Sits ⟨table, index'⟩ direction' store seat' walk') :
    outcome (walk.order Store.native walk') store
      = (if index = index' ∧ direction = direction' then .ok (direction.compare seat seat')
          else .error .cursorMismatch, store) := by
  have known : walk.sameIndex walk' = decide (index = index' ∧ direction = direction') := by
    unfold sameIndex
    rw [sits.view_eq, sits.direction_eq, sits'.view_eq, sits'.direction_eq]
    simp [Fin.ext_iff]
  unfold order
  rw [known]
  by_cases same : index = index' ∧ direction = direction'
  · rw [if_pos (decide_eq_true same), if_pos same]
    obtain ⟨rfl, rfl⟩ := same
    unfold Direction.compare
    rcases sits.cursor? with ⟨ended, ended'⟩ | ⟨first, position, going, going', cursor⟩ <;>
      rcases sits'.cursor? with ⟨stopped, stopped'⟩ | ⟨second, other, moving, moving', cursor'⟩
    · rw [ended, ended', stopped, stopped']
      rfl
    · rw [ended, ended', moving, moving']
      rfl
    · rw [going, going', stopped, stopped']
      rfl
    · rw [going, going', moving, moving', sits.direction_eq]
      have compared := fun a b => Store.outcome_compareCursors a b store
      cases direction with
      | forward =>
        have forth := compared first second
        rw [cursor, cursor'] at forth
        exact forth.trans (if_neg (by simp [View.cursorAt]))
      | reverse =>
        have back := compared second first
        rw [cursor, cursor'] at back
        exact back.trans (if_neg (by simp [View.cursorAt]))
  · rw [if_neg (by simpa using same), if_neg same]
    rfl

end Comparing

/-! ## 5. Ranges -/

/-- What a collection reads that goes from a seat on up to another one. -/
def View.gather (view : View ρ) (store : Store) (stop : Seat) :
    (bound : Nat) → Seat → Except Fault (List ρ)
  | 0, _ => .ok []
  | bound + 1, seat =>
    if Direction.forward.compare (some seat) (some stop) = .lt then do
      let record ← view.readFrom store (·.2.value) (some seat) >>= view.resolved store
      let records ← view.gather store stop bound (seat.onward view .forward store)
      return record :: records
    else .ok []

section Ranges

open Motion Walk

variable {view : View ρ} {store after : Store} {seat stop : Seat} {id other : CursorId}

/-- What is read is decided by the entries. -/
theorem View.gather_spared (spared : Sparing store after) (bound : Nat) (seat : Seat) :
    view.gather after stop bound seat = view.gather store stop bound seat := by
  obtain ⟨_, _, _, rfl⟩ := spared
  induction bound generalizing seat with
  | zero => rfl
  | succ bound ih =>
    unfold gather
    rw [ih]
    rfl

theorem View.sought_spared (spared : Sparing store after) (key : Bytes) :
    view.sought after key = view.sought store key := by
  obtain ⟨_, _, _, rfl⟩ := spared
  rfl

/-- Whether the walk that holds a cursor has come from one seat to another, and nothing else has
    happened. -/
structure Seat.Moves (view : View ρ) (id : CursorId) (before : Store) (seat : Seat) (after : Store)
    (seat' : Seat) : Prop where
  cursor : after.cursors.get? id = some (view.cursorAt seat'.position)
  strolled : Strolled before (Walk.holding view id seat.standing) after
    (Walk.holding view id seat'.standing)

namespace Seat.Moves

theorem refl (cursor : store.cursors.get? id = some (view.cursorAt seat.position)) :
    Seat.Moves view id store seat store seat := ⟨cursor, .refl ..⟩

theorem trans {middle : Store} {seat' seat'' : Seat}
    (first : Seat.Moves view id store seat middle seat')
    (second : Seat.Moves view id middle seat' after seat'') :
    Seat.Moves view id store seat after seat'' :=
  ⟨second.cursor, first.strolled.trans second.strolled⟩

/-- A step to a seat. -/
theorem steer (cursor : store.cursors.get? id = some (view.cursorAt seat.position)) (next : Seat) :
    Seat.Moves view id store seat (store.steer id (view.cursorAt next.position)) next :=
  ⟨OrdMap.get?_insert_self .., Tread.strolled_steer _ cursor⟩

/-- The cursors of other walks stay where they are. -/
theorem others {seat' : Seat} (moves : Seat.Moves view id store seat after seat') {other : CursorId}
    (apart : other ≠ id) : after.cursors.get? other = store.cursors.get? other := by
  have free : ∀ standing, (Walk.holding view id standing).held? ≠ some other :=
    fun _ same => apart (Option.some.inj same).symm
  exact moves.strolled.others other (free _) (free _)

end Seat.Moves

/-- A walk with a cursor sits on its seat. -/
theorem Walk.sits_on (cursor : store.cursors.get? id = some (view.cursorAt seat.position)) :
    Walk.Sits view .forward store (some seat) (Walk.holding view id seat.standing) := .held cursor

/-- A collection stops at a record that cannot be read. -/
theorem View.ends_collect_fault {walk stopping : Walk ρ} {bound : Nat} {fault : Fault}
    (compared : outcome (walk.order Store.native stopping) store = (.ok .lt, store))
    (read : outcome (walk.value Store.native) store = (.error fault, store)) :
    ends (View.collect Store.native stopping (bound + 1)) walk store
      = ((.error fault, walk), store) := by
  unfold View.collect
  rw [ends_get_bind, ends_bind_ok (ends_ofAction compared), if_pos rfl]
  exact ends_bind_error (ends_ofAction read)

/-- A collection that stops further on has read nothing. -/
theorem View.ends_collect_go_fault {walk walk' walk'' stopping : Walk ρ} {last : Store}
    {bound : Nat} {record : ρ} {fault : Fault}
    (compared : outcome (walk.order Store.native stopping) store = (.ok .lt, store))
    (read : outcome (walk.value Store.native) store = (.ok record, store))
    (advanced : ends (Walk.advance Store.native) walk store = ((.ok (), walk'), after))
    (rest : ends (View.collect Store.native stopping bound) walk' after
      = ((.error fault, walk''), last)) :
    ends (View.collect Store.native stopping (bound + 1)) walk store
      = ((.error fault, walk''), last) := by
  rw [View.collect, ends_get_bind, ends_bind_ok (ends_ofAction compared), if_pos rfl,
    ends_bind_ok (ends_ofAction read), ends_bind_ok advanced]
  exact ends_bind_error rest

/-- A walk that is before another one is not at its end. -/
theorem Seat.going_of_before (before : Direction.forward.compare (some seat) (some stop) = .lt) :
    seat.standing ≠ .ended := by
  intro ended
  have none : Seat.going? (some seat) = none := if_pos ended
  unfold Direction.compare at before
  rw [none] at before
  cases stops : Seat.going? (some stop) with
  | none =>
    rw [stops] at before
    exact nomatch before
  | some _ =>
    rw [stops] at before
    exact nomatch before

/-- **A collection reads what is foreseen.** The induction is on the bound; the second cursor stays
    where it is. -/
theorem View.ends_collect_foreseen (apart : other ≠ id) : ∀ (bound : Nat) {store : Store}
    {seat : Seat}, store.cursors.get? id = some (view.cursorAt seat.position) →
    store.cursors.get? other = some (view.cursorAt stop.position) →
    ∃ (seat' : Seat) (after : Store),
      ends (View.collect Store.native (Walk.holding view other stop.standing) bound)
          (Walk.holding view id seat.standing) store
        = ((view.gather store stop bound seat, Walk.holding view id seat'.standing), after)
      ∧ Seat.Moves view id store seat after seat' := by
  intro bound
  induction bound with
  | zero => exact fun {store seat} cursor _ => ⟨seat, store, rfl, .refl cursor⟩
  | succ bound ih =>
    intro store seat cursor cursor'
    have compared := outcome_order_foreseen (sits_on cursor) (sits_on cursor')
    rw [if_pos ⟨rfl, rfl⟩] at compared
    unfold View.gather
    by_cases before : Direction.forward.compare (some seat) (some stop) = .lt
    · rw [if_pos before]
      rw [before] at compared
      have read := Tread.outcome_value (sits_on cursor)
      cases found : view.readFrom store (·.2.value) (some seat) >>= view.resolved store with
      | error fault =>
        rw [found] at read
        exact ⟨seat, store, View.ends_collect_fault compared read, .refl cursor⟩
      | ok record =>
        rw [found] at read
        let next := seat.onward view .forward store
        let middle := store.steer id (view.cursorAt next.position)
        have advanced : ends (Walk.advance Store.native) (Walk.holding view id seat.standing) store
            = ((.ok (), Walk.holding view id next.standing), middle) :=
          Walk.ends_advance_held .forward (Seat.going_of_before before) cursor
        have moves : Seat.Moves view id store seat middle next := .steer cursor next
        obtain ⟨seat', after, collected, moves'⟩ := ih moves.cursor
          ((moves.others apart).trans cursor')
        rw [View.gather_spared moves.strolled.sparing] at collected
        refine ⟨seat', after, ?_, moves.trans moves'⟩
        cases rest : view.gather store stop bound next with
        | error fault =>
          rw [rest] at collected
          exact View.ends_collect_go_fault compared read advanced collected
        | ok records =>
          rw [rest] at collected
          exact View.ends_collect_go compared read advanced collected
    · rw [if_neg before]
      exact ⟨seat, store, View.ends_collect_stop bound compared before, .refl cursor⟩

/-- Whether two stores have the same cursors open, at the same places, and are the same otherwise
    but for the staged value. -/
structure Tidy (before after : Store) : Prop where
  sparing : Sparing before after
  cursors : ∀ id, after.cursors.get? id = before.cursors.get? id

/-- Where nothing is held in the end, nothing has changed. -/
theorem Tidy.of_ledger (sparing : Sparing store after)
    (ledger : Ledger store (Holding none) after (Holding none)) : Tidy store after :=
  ⟨sparing, fun probe => ledger.others probe nofun nofun⟩

/-- **A range reads what is foreseen** between the two keys, and gives both cursors back. -/
theorem View.outcome_range_foreseen (view : View ρ) (lower upper : Bytes)
    (free : store.HasSlots 2) :
    ∃ after, outcome (view.range Store.native lower upper) store
        = (view.gather store (view.sought store upper) (store.size view.table.scope + 1)
            (view.sought store lower), after)
      ∧ Tidy store after := by
  unfold Store.HasSlots at free
  have one : store.cursors.size < store.settings.limits.maxCursors.toNat := by omega
  obtain ⟨id, middle, begun, joined, cursor⟩ := view.outcome_sought one lower
  have two : middle.cursors.size < middle.settings.limits.maxCursors.toNat := by
    rw [joined.settings, joined.size]
    omega
  obtain ⟨other, both, stopped, joined', cursor'⟩ := view.outcome_sought two upper
  have apart : other ≠ id := (joined'.ne cursor).symm
  have cursor'' := (joined'.others id apart.symm).trans cursor
  rw [View.sought_spared joined.sparing] at stopped cursor'
  obtain ⟨seat, after, collected, moves⟩ := View.ends_collect_foreseen apart
    (both.size view.table.scope + 1) cursor'' cursor'
  have before := joined.sparing.trans joined'.sparing
  have there := (moves.others apart).trans cursor'
  have released := congrArg Prod.snd <|
    Walk.release_held view .forward (view.sought store upper).standing there
  have here' : { after with cursors := after.cursors.erase other : Store }.cursors.get? id = _ :=
    (OrdMap.get?_erase_of_ne after.cursors apart.symm).trans moves.cursor
  have released' := congrArg Prod.snd (Walk.release_held view .forward seat.standing here')
  have ran := (outcome_range begun stopped collected).trans <| congrArg (Prod.mk _) <|
    (congrArg (fun left => ((Walk.holding view id seat.standing).release Store.native left).2)
      released).trans released'
  rw [View.gather_spared before, before.size] at ran
  refine ⟨_, ran, before.trans (moves.strolled.sparing.trans
    ⟨after.staged, _, after.nextCursor, rfl⟩), fun probe => ?_⟩
  -- Both cursors are new, so they were not open before and are not open afterwards.
  by_cases first : probe = id
  · rw [first, joined.fresh]
    exact (OrdMap.get?_erase ..).trans (if_pos rfl)
  · refine (OrdMap.get?_erase_of_ne _ first).trans ?_
    by_cases second : probe = other
    · rw [second, ← joined.others other apart, joined'.fresh]
      exact (OrdMap.get?_erase ..).trans (if_pos rfl)
    · exact (OrdMap.get?_erase_of_ne _ second).trans <| (moves.others first).trans <|
        (joined'.others probe second).trans (joined.others probe first)

end Ranges

end IndexedStore
