import IndexedStore.Proofs.Table.Foresight
/-!
# What a scan hands out, foreseen

What a scan hands out next, and all that it hands out in the end, depends on where it stands and on the
entries alone.

* `Scan.Mark` is where a scan stands, `Scan.Mark.next` what it hands out there, and where it stands
  then; `Scan.Mark.drain` is all that it hands out;
* **`Scan.next_foreseen`**, **`Scan.all_foreseen`** and `Table.outcome_count_foreseen`: so it happens.
-/

namespace IndexedStore

open IndexedStore.Action

variable {ρ α β : Type}

/-! ## 1. Reading -/

/-- What a scan reads of an entry. -/
inductive Reading (ρ : Type) : Type → Type where
  /-- The record. -/
  | record : Reading ρ ρ
  /-- The key without the stem of the index. -/
  | key : Reading ρ Bytes

namespace Reading

/-- Reads it. -/
def read (backend : Backend Store) : Reading ρ α → Walk ρ → Action Store α
  | record => Scan.readRecord backend
  | key => Scan.readKey backend

/-- What is read from a seat. -/
def foresee (view : View ρ) (store : Store) (seat : Seat) : Reading ρ α → Except Fault α
  | record => view.readFrom store (·.2.value) (some seat) >>= view.resolved store
  | key => view.readFrom store (·.1) (some seat) >>= view.placement.behindStem

theorem outcome_foreseen {view : View ρ} {direction : Direction} {store : Store} {seat : Seat}
    {walk : Walk ρ} (reading : Reading ρ α)
    (sits : Walk.Sits view direction store (some seat) walk) :
    outcome (reading.read Store.native walk) store
      = (reading.foresee view store seat, store) := by
  cases reading with
  | record => exact Tread.outcome_value sits
  | key => exact Tread.outcome_keyBehindStem sits

end Reading

/-! ## 2. One step -/

/-- The seat at the next entry from a seat on: the seat itself, or the one behind it if its entry is
    gone. -/
def Seat.settled (view : View ρ) (store : Store) (seat : Seat) : Seat :=
  let now := view.seatAt store seat.position
  if now.standing = .erased then now.onward view .forward store else now

namespace Scan

/-- Whether a scan ends at a seat: at the end of its index, or where it stops. -/
def endsAt (stop : Option Bytes) (seat : Seat) : Bool :=
  seat.standing = .ended ∨ ∃ upper ∈ stop, seat.position.order (.onKey upper) ≠ .lt

/-- What a scan hands out at a seat where the next entry must be, and the seat after it. -/
def handedOut (view : View ρ) (store : Store) (reading : Reading ρ α) (stop : Option Bytes)
    (here : Seat) : Except Fault (Option α) × Seat :=
  if endsAt stop here then (.ok none, here)
  else match reading.foresee view store here with
    | .error fault => (.error fault, here)
    | .ok item => (.ok (some item), here.onward view .forward store)

section Steps

open Motion Walk

variable {view : View ρ} {store : Store} {id : CursorId} {seat : Seat}

theorem ends_nextEntry_foreseen
    (cursor : store.cursors.get? id = some (view.cursorAt seat.position)) :
    ∃ after, ends (nextEntry Store.native) (holding view id seat.standing) store
        = ((.ok (), holding view id (seat.settled view store).standing), after)
      ∧ Seat.Moves view id store seat after (seat.settled view store) := by
  let now := view.seatAt store seat.position
  have refreshed : ends (Walk.refresh Store.native) (holding view id seat.standing) store
      = ((.ok now.standing, holding view id now.standing), store) :=
    Walk.ends_refresh_held .forward cursor
  have looked : Seat.Moves view id store seat store now := ⟨cursor, .looked ..⟩
  unfold nextEntry
  rw [ends_bind_ok refreshed]
  by_cases gone : now.standing = .erased
  · have settled : seat.settled view store = now.onward view .forward store := if_pos gone
    have going : now.standing ≠ .ended := by
      rw [gone]
      nofun
    rw [settled, if_pos gone]
    exact ⟨_, Walk.ends_advance_held .forward going cursor,
      looked.trans (.steer looked.cursor (now.onward view .forward store))⟩
  · have settled : seat.settled view store = now := if_neg gone
    rw [settled, if_neg gone]
    exact ⟨store, rfl, looked⟩

theorem outcome_reached_foreseen (stop : Option Bytes)
    (cursor : store.cursors.get? id = some (view.cursorAt seat.position))
    (going : seat.standing ≠ .ended) :
    outcome (reached Store.native stop (holding view id seat.standing)) store
      = (.ok (endsAt stop seat), store) := by
  cases stop with
  | none =>
    have further : endsAt none seat = false := by simp [endsAt, going]
    rw [further]
    rfl
  | some upper =>
    have compared : outcome (Store.compareKey id upper) store
        = (.ok (seat.position.order (.onKey upper)), store) := by
      rw [Store.outcome_compareKey, cursor]
      rfl
    have same : endsAt (some upper) seat = decide (seat.position.order (.onKey upper) ≠ .lt) := by
      simp [endsAt, going]
    rw [same]
    exact outcome_bind_ok compared

/-- A scan that has come to the next entry hands it out. -/
theorem ends_emit_foreseen (reading : Reading ρ α) (stop : Option Bytes)
    (cursor : store.cursors.get? id = some (view.cursorAt seat.position)) :
    ∃ after, ends (emit Store.native (reading.read Store.native) stop)
        (holding view id seat.standing) store
        = (((handedOut view store reading stop seat).1,
            holding view id (handedOut view store reading stop seat).2.standing), after)
      ∧ Seat.Moves view id store seat after (handedOut view store reading stop seat).2 := by
  by_cases atEnd : seat.standing = .ended
  · have out : handedOut view store reading stop seat = (.ok none, seat) :=
      if_pos (by simp [endsAt, atEnd])
    rw [out, atEnd]
    exact ⟨store, ends_emit_ended stop store, .refl cursor⟩
  have going : ¬ (holding view id seat.standing).isEnd = true :=
    fun ended => atEnd (of_decide_eq_true ended)
  have asked := outcome_reached_foreseen stop cursor atEnd
  have read := reading.outcome_foreseen (sits_on cursor)
  unfold emit
  rw [ends_get_bind, if_neg going, ends_bind_ok (ends_ofAction asked)]
  by_cases stops : endsAt stop seat
  · have out : handedOut view store reading stop seat = (.ok none, seat) := if_pos stops
    rw [out, if_pos stops]
    exact ⟨store, rfl, .refl cursor⟩
  rw [if_neg stops]
  cases found : reading.foresee view store seat with
  | error fault =>
    have out : handedOut view store reading stop seat = (.error fault, seat) := by
      unfold handedOut
      rw [if_neg stops, found]
    rw [found] at read
    rw [out]
    exact ⟨store, ends_bind_error (ends_ofAction read), .refl cursor⟩
  | ok item =>
    have out : handedOut view store reading stop seat
        = (.ok (some item), seat.onward view .forward store) := by
      unfold handedOut
      rw [if_neg stops, found]
    rw [found] at read
    have advanced : ends (Walk.advance Store.native) (holding view id seat.standing) store = _ :=
      Walk.ends_advance_held .forward atEnd cursor
    rw [out, ends_bind_ok (ends_ofAction read), ends_bind_ok advanced]
    exact ⟨_, rfl, .steer cursor (seat.onward view .forward store)⟩

/-- What a step of a scan answers, and the seat after it. -/
def foresee (view : View ρ) (store : Store) (reading : Reading ρ α) (stop : Option Bytes)
    (seat : Seat) : Except Fault (Option α) × Seat :=
  handedOut view store reading stop (seat.settled view store)

theorem handedOut_spared {after : Store} (spared : Sparing store after) (reading : Reading ρ α)
    (stop : Option Bytes) :
    handedOut view after reading stop = handedOut view store reading stop := by
  obtain ⟨_, _, _, rfl⟩ := spared
  cases reading <;> rfl

/-- **A step of a scan answers what is foreseen.** -/
theorem ends_step_foreseen (reading : Reading ρ α) (stop : Option Bytes)
    (cursor : store.cursors.get? id = some (view.cursorAt seat.position)) :
    ∃ after, ends (step Store.native (reading.read Store.native) stop)
        (holding view id seat.standing) store
        = (((foresee view store reading stop seat).1,
            holding view id (foresee view store reading stop seat).2.standing), after)
      ∧ Seat.Moves view id store seat after (foresee view store reading stop seat).2 := by
  obtain ⟨middle, came, moves⟩ := ends_nextEntry_foreseen cursor
  obtain ⟨after, emitted, moves'⟩ := ends_emit_foreseen reading stop moves.cursor
  rw [handedOut_spared moves.strolled.sparing] at emitted moves'
  rw [step_eq, ends_bind_ok came]
  exact ⟨after, emitted, moves.trans moves'⟩

end Steps

/-! ## 3. Scans on their marks -/

/-- Where a scan stands: the key before which it stops, whether it has ended, and its seat. -/
structure Mark where
  stop : Option Bytes
  done : Bool
  seat : Seat
  deriving DecidableEq, Repr

namespace Mark

/-- What is handed out next, and the mark after it. -/
def next (view : View ρ) (store : Store) (reading : Reading ρ α) (mark : Mark) :
    Option (Except Fault α) × Mark :=
  if mark.done then (none, mark)
  else match foresee view store reading mark.stop mark.seat with
    | (.ok (some item), seat) => (some (.ok item), { mark with seat })
    | (.ok none, seat) => (none, { mark with seat, done := true })
    | (.error fault, seat) => (some (.error fault), { mark with seat, done := true })

/-- All that is handed out, up to a bound. -/
def drain (view : View ρ) (store : Store) (reading : Reading ρ α) :
    (bound : Nat) → Mark → List (Except Fault α)
  | 0, _ => []
  | bound + 1, mark => match mark.next view store reading with
    | (none, _) => []
    | (some item, mark') => item :: drain view store reading bound mark'

end Mark

/-- The scan with a cursor that stands on a mark. -/
def marked (view : View ρ) (id : CursorId) (mark : Mark) : Scan ρ :=
  ⟨Walk.holding view id mark.seat.standing, mark.stop, mark.done⟩

section Marks

open Motion Walk

variable {view : View ρ} {store after : Store} {id : CursorId} {mark : Mark}

theorem Mark.next_spared (spared : Sparing store after) (reading : Reading ρ α) :
    mark.next view after reading = mark.next view store reading := by
  obtain ⟨_, _, _, rfl⟩ := spared
  cases reading <;> rfl

theorem Mark.drain_spared (spared : Sparing store after) (reading : Reading ρ α) (bound : Nat) :
    mark.drain view after reading bound = mark.drain view store reading bound := by
  induction bound generalizing mark with
  | zero => rfl
  | succ bound ih =>
    unfold drain
    rw [Mark.next_spared spared]
    simp only [ih]

/-- **A scan hands out what is foreseen.** -/
theorem next_foreseen (reading : Reading ρ α)
    (cursor : store.cursors.get? id = some (view.cursorAt mark.seat.position)) :
    ∃ after, (marked view id mark).next Store.native (reading.read Store.native) store
        = (((mark.next view store reading).1, marked view id (mark.next view store reading).2),
            after)
      ∧ Seat.Moves view id store mark.seat after (mark.next view store reading).2.seat := by
  by_cases done : mark.done
  · have out : mark.next view store reading = (none, mark) := if_pos done
    rw [out]
    exact ⟨store, next_of_done _ done store, .refl cursor⟩
  · obtain ⟨after, stepped, moves⟩ := ends_step_foreseen reading mark.stop cursor
    have going : (marked view id mark).done = false := by simpa [marked] using done
    have handed := next_of_going Store.native (reading.read Store.native) going store
    have stepped' : ends (step Store.native (reading.read Store.native) (marked view id mark).stop)
        (marked view id mark).walk store = _ := stepped
    rw [stepped'] at handed
    have out : mark.next view store reading
        = match foresee view store reading mark.stop mark.seat with
          | (.ok (some item), seat) => (some (.ok item), { mark with seat })
          | (.ok none, seat) => (none, { mark with seat, done := true })
          | (.error fault, seat) => (some (.error fault), { mark with seat, done := true }) :=
      if_neg done
    rw [out]
    rcases foreseen : foresee view store reading mark.stop mark.seat with ⟨_ | _ | _, seat⟩ <;>
      (rw [foreseen] at handed moves
       exact ⟨after, handed, moves⟩)

/-- **A scan hands out all that is foreseen.** -/
theorem drain_foreseen (reading : Reading ρ α) (bound : Nat) : ∀ {store : Store} {mark : Mark},
    store.cursors.get? id = some (view.cursorAt mark.seat.position) →
    ∃ (mark' : Mark) (after : Store),
      (marked view id mark).drain Store.native (reading.read Store.native) bound store
        = ((mark.drain view store reading bound, marked view id mark'), after)
      ∧ Seat.Moves view id store mark.seat after mark'.seat := by
  induction bound with
  | zero => exact fun {store mark} cursor => ⟨mark, store, rfl, .refl cursor⟩
  | succ bound ih =>
    intro store mark cursor
    obtain ⟨middle, handed, moves⟩ := next_foreseen reading cursor
    unfold Mark.drain
    rcases answered : mark.next view store reading with ⟨_ | item, mark'⟩
    · rw [answered] at handed moves
      exact ⟨mark', middle, drain_of_none bound handed, moves⟩
    · rw [answered] at handed moves
      obtain ⟨mark'', after, drained, moves'⟩ := ih moves.cursor
      rw [Mark.drain_spared moves.strolled.sparing] at drained
      refine ⟨mark'', after, ?_, moves.trans moves'⟩
      rw [drain_of_some bound handed, drained]

/-- **A scan that is run to its end hands out all that is foreseen**, and gives its cursor back. -/
theorem all_foreseen (reading : Reading ρ α)
    (cursor : store.cursors.get? id = some (view.cursorAt mark.seat.position)) :
    ∃ after, (marked view id mark).all Store.native (reading.read Store.native) store
        = (mark.drain view store reading (store.size view.table.scope + 1), after)
      ∧ Sparing store after
      ∧ Ledger store (Holding (some id)) after (Holding none) := by
  obtain ⟨mark', middle, drained, moves⟩ :=
    drain_foreseen reading (store.size view.table.scope + 1) cursor
  obtain ⟨after, released, sparing, ledger⟩ := Walk.release_foreseen (sits_on moves.cursor)
  have ran : (marked view id mark).all Store.native (reading.read Store.native) store
      = (((marked view id mark).drain Store.native (reading.read Store.native)
            (store.size view.table.scope + 1) store).1.1,
          (((marked view id mark).drain Store.native (reading.read Store.native)
            (store.size view.table.scope + 1) store).1.2.walk.release Store.native
              ((marked view id mark).drain Store.native (reading.read Store.native)
                (store.size view.table.scope + 1) store).2).2) := rfl
  have left : (marked view id mark').walk.release Store.native middle = ((), after) := released
  rw [drained] at ran
  dsimp only at ran
  rw [left] at ran
  exact ⟨after, ran, moves.strolled.sparing.trans sparing, moves.strolled.ledger.trans ledger⟩

/-! ## 4. Opening scans, and counting -/

/-- The mark that a scan is opened on. -/
def markOf (view : View ρ) (store : Store) (span : Span) : Mark :=
  ⟨span.upper?, false, view.sought store (span.lower view)⟩

/-- **A scan is opened on the mark foreseen**, with a new cursor. -/
theorem outcome_start_foreseen (view : View ρ) (span : Span)
    (free : store.cursors.size < store.settings.limits.maxCursors.toNat) :
    ∃ id after, outcome (span.start Store.native view) store
        = (.ok (marked view id (markOf view store span)), after)
      ∧ View.Joined id store after
      ∧ after.cursors.get? id = some (view.cursorAt (markOf view store span).seat.position) := by
  obtain ⟨id, after, sought, joined, cursor⟩ := view.outcome_sought free (span.lower view)
  refine ⟨id, after, ?_, joined, cursor⟩
  rw [View.start_eq, outcome_bind_ok sought]
  rfl

end Marks

end Scan

/-- The count of the records of a table, as it is read off the entries. -/
def Table.tally (table : Table ρ) (store : Store) : Except Fault Nat :=
  (((Scan.markOf table.primaryView store .whole).drain table.primaryView store .key
    (store.size table.scope + 1)).mapM id).map List.length

/-- **A count answers what is foreseen**, and gives its cursor back. -/
theorem Table.outcome_count_foreseen (table : Table ρ) {store : Store} (free : store.HasSlots 1) :
    ∃ after, outcome (table.count Store.native) store = (table.tally store, after)
      ∧ Tidy store after := by
  obtain ⟨number, middle, opens, joined, cursor⟩ :=
    Scan.outcome_start_foreseen table.primaryView .whole free
  obtain ⟨after, ran, sparing, ledger⟩ := Scan.all_foreseen .key cursor
  have before := joined.sparing
  have size : middle.size table.primaryView.table.scope = store.size table.scope :=
    before.size table.scope
  rw [Scan.Mark.drain_spared before, size] at ran
  have counted : outcome (table.count Store.native) store
      = outcome (Action.ofExcept (((Scan.marked table.primaryView number
            (Scan.markOf table.primaryView store .whole)).all Store.native
              (Reading.key.read Store.native) middle).1.mapM id) >>= fun read => return read.length)
          ((Scan.marked table.primaryView number (Scan.markOf table.primaryView store .whole)).all
            Store.native (Reading.key.read Store.native) middle).2 := outcome_bind_ok opens
  rw [ran] at counted
  refine ⟨after, counted.trans ?_, .of_ledger (before.trans sparing) (joined.ledger.trans ledger)⟩
  unfold Table.tally
  cases ((Scan.markOf table.primaryView store .whole).drain table.primaryView store .key
    (store.size table.scope + 1)).mapM id <;> rfl

end IndexedStore
