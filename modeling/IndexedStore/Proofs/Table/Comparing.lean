import IndexedStore.Proofs.Table.Abreast
import IndexedStore.Proofs.Table.Freshness
/-!
# Where walks come to, and how they compare

A step of a walk leads to an entry of its index, or to the end, and the walk then tells where it is. How
two walks compare is told by two things: what each remembers, its end, and where the cursors are in the
store. On apt seats these cannot differ, so that walks compare by their positions.

* `Direction.order` is the order of positions along a direction, with its laws;
* `View.Arrived` says what a step comes to, and `Direction.order_ahead` that it goes on from a key;
* `Walk.Sits.outcome_key` and `Walk.seen` are what a walk tells of its position;
* **`Walk.Sits.compares`** compares walks by their seats, and `Walk.mismatches` says which never
  compare.
-/

namespace IndexedStore

open IndexedStore.Action

variable {ρ τ γ : Type}

/-! ## 1. The order along a direction -/

namespace Direction

/-- The comparison of two positions along a direction: of two keys the one that a walk comes to first
    is less, and the end is last. -/
def order : Direction → Position → Position → Ordering
  | .forward, here, there => here.order there
  | .reverse, .onKey here, .onKey there => Bytes.order there here
  | .reverse, here, there => here.order there

variable (direction : Direction) {here there beyond : Position}

theorem order_swap (here there : Position) :
    (direction.order here there).swap = direction.order there here := by
  cases here with
  | ended => cases there <;> cases direction <;> rfl
  | onKey key =>
    cases there with
    | ended => cases direction <;> rfl
    | onKey other => cases direction <;> exact Bytes.order_swap ..

theorem order_eq_eq_iff : direction.order here there = .eq ↔ here = there := by
  have keys : ∀ {key other : Bytes}, Bytes.order key other = .eq ↔
      Position.onKey key = .onKey other := fun {key other} =>
    Bytes.order_eq_eq_iff.trans ⟨congrArg Position.onKey, Position.onKey.inj⟩
  cases here with
  | ended =>
    cases there with
    | ended => exact ⟨fun _ => rfl, fun _ => by cases direction <;> rfl⟩
    | onKey other => exact ⟨fun same => by cases direction <;> exact (nomatch same), nofun⟩
  | onKey key =>
    cases there with
    | ended => exact ⟨fun same => by cases direction <;> exact (nomatch same), nofun⟩
    | onKey other =>
      cases direction with
      | forward => exact keys
      | reverse => exact keys.trans eq_comm

theorem order_self (here : Position) : direction.order here here = .eq :=
  direction.order_eq_eq_iff.mpr rfl

/-- The end comes behind every key. -/
theorem order_ended (going : there ≠ .ended) : direction.order .ended there = .gt := by
  cases there with
  | ended => exact absurd rfl going
  | onKey key => cases direction <;> rfl

theorem order_ne_gt_trans (first : direction.order here there ≠ .gt)
    (second : direction.order there beyond ≠ .gt) : direction.order here beyond ≠ .gt := by
  cases beyond with
  | ended => cases here <;> cases direction <;> exact nofun
  | onKey third =>
    cases there with
    | ended => cases direction <;> exact absurd rfl second
    | onKey second' =>
      cases here with
      | ended => cases direction <;> exact absurd rfl first
      | onKey first' =>
        cases direction with
        | forward => exact Bytes.order_ne_gt_trans first second
        | reverse => exact Bytes.order_ne_gt_trans second first

end Direction

/-! ## 2. Where steps come to -/

/-- Whether a position is on an entry of an index, or at its end. -/
def View.IsPlace (view : View ρ) (store : Store) : Position → Prop
  | .ended => True
  | .onKey key =>
    Bytes.startsWith key view.placement.stem ∧ (store.find? view.table.scope key).isSome

/-- Whether a seat is at a place of an index, and a walk on it knows what is there. -/
structure View.Arrived (view : View ρ) (store : Store) (seat : Seat) : Prop where
  current : seat.standing = store.standingOf (view.cursorAt seat.position)
  place : view.IsPlace store seat.position

theorem View.Arrived.apt {view : View ρ} {store : Store} {seat : Seat}
    (arrived : view.Arrived store seat) : seat.Apt := by
  unfold Seat.Apt
  rw [arrived.current]
  exact Store.standingOf_eq_iff

/-- The position of a walk on a seat, the end without one. -/
def Seat.place (seat : Option Seat) : Position :=
  (seat.map (·.position)).getD .ended

section Places

variable {view : View ρ} {direction : Direction} {store : Store} {wanted : Bytes → Prop}
  {position : Position}

theorem Store.Least.isPlace
    (least : store.Least view.table.scope view.placement.stem wanted position) :
    view.IsPlace store position := by
  cases position with
  | ended => exact trivial
  | onKey key => exact ⟨least.1, least.2.1⟩

theorem Store.Greatest.isPlace
    (greatest : store.Greatest view.table.scope view.placement.stem wanted position) :
    view.IsPlace store position := by
  cases position with
  | ended => exact trivial
  | onKey key => exact ⟨greatest.1, greatest.2.1⟩

theorem View.arrived_seatAt (place : view.IsPlace store position) :
    view.Arrived store (view.seatAt store position) := ⟨rfl, place⟩

/-- Whether a walk has arrived, the entries decide. -/
theorem View.Arrived.spared {after : Store} {seat : Seat} (arrived : view.Arrived store seat)
    (spared : Sparing store after) : view.Arrived after seat := by
  obtain ⟨_, _, _, rfl⟩ := spared
  obtain ⟨standing, position⟩ := seat
  cases position <;> exact ⟨arrived.current, arrived.place⟩

theorem View.isPlace_sought (view : View ρ) (store : Store) (key : Bytes) :
    view.IsPlace store (view.sought store key).position :=
  (Store.least_firstFrom store view.table.scope view.placement.stem key).isPlace

/-- A step leads to a place of the index. -/
theorem Direction.isPlace_ahead (direction : Direction)
    (within : position.Within view.placement.stem) :
    view.IsPlace store (direction.ahead store (view.cursorAt position)) := by
  cases position with
  | ended =>
    cases direction with
    | forward => exact (Store.least_firstFrom ..).isPlace
    | reverse => exact (Store.greatest_lastOf ..).isPlace
  | onKey key =>
    cases direction with
    | forward => exact (Store.least_firstAfter _ _ (within key rfl)).isPlace
    | reverse => exact (Store.greatest_lastBefore _ _ (within key rfl)).isPlace

theorem Direction.isPlace_behind (direction : Direction)
    (within : position.Within view.placement.stem) :
    view.IsPlace store (direction.behind store (view.cursorAt position)) := by
  cases direction with
  | forward => exact isPlace_ahead .reverse within
  | reverse => exact isPlace_ahead .forward within

/-- **A step from a key leads past it.** -/
theorem Direction.order_ahead (direction : Direction) {key : Bytes}
    (begins : Bytes.startsWith key view.placement.stem) :
    direction.order (.onKey key) (direction.ahead store (view.cursorAt (.onKey key))) = .lt := by
  cases direction with
  | forward =>
    have least := Store.least_firstAfter store view.table.scope begins
    show (Position.onKey key).order (store.firstAfter view.table.scope view.placement.stem key) = .lt
    cases next : store.firstAfter view.table.scope view.placement.stem key with
    | ended => rfl
    | onKey found =>
      rw [next] at least
      exact Bytes.order_eq_lt_iff.mpr least.2.2.1
  | reverse =>
    have greatest := Store.greatest_lastBefore store view.table.scope begins
    show Direction.reverse.order (.onKey key)
      (store.lastBefore view.table.scope view.placement.stem key) = .lt
    cases next : store.lastBefore view.table.scope view.placement.stem key with
    | ended => rfl
    | onKey found =>
      rw [next] at greatest
      exact Bytes.order_eq_lt_iff.mpr greatest.2.2.1

/-- Every walk is made where it knows what is there. -/
theorem Start.arrived_foresee (start : Start) :
    ∀ here ∈ start.foresee view store, view.Arrived store here := by
  have sought : ∀ key, view.Arrived store (view.sought store key) := fun key =>
    View.arrived_seatAt (view.isPlace_sought store key)
  cases start with
  | seek key | first =>
    rintro _ ⟨⟩
    exact sought _
  | find key =>
    unfold foresee
    dsimp only
    split
    · rintro _ ⟨⟩
      exact sought key
    · exact nofun
  | seekAbove key =>
    unfold foresee
    dsimp only
    split
    · rintro _ ⟨⟩
      exact View.arrived_seatAt (Direction.isPlace_ahead .forward (view.within_sought store key))
    · rintro _ ⟨⟩
      exact sought key
  | last =>
    rintro _ ⟨⟩
    exact View.arrived_seatAt (Store.greatest_lastOf ..).isPlace
  | pastLast | beforeFirst => exact nofun

/-- Whether a walk is led somewhere by this. -/
def Tread.leads : Tread ρ γ → Bool
  | advance | retreat => true
  | _ => false

/-- A step leads to a place of the index, also if it is refused at the end. -/
theorem Tread.isPlace_foresee {tread : Tread ρ γ} (leads : tread.leads = true) {seat : Option Seat}
    (apt : ∀ here ∈ seat, here.Apt) (within : ∀ here ∈ seat, here.Within view) :
    ∀ here ∈ (tread.foresee view direction store seat).2, view.IsPlace store here.position := by
  cases tread with
  | advance =>
    cases seat with
    | none => exact nofun
    | some seat =>
      unfold foresee
      dsimp only
      split
      · rintro _ ⟨⟩
        have ended : seat.position = .ended := (apt seat rfl).mp ‹_›
        rw [ended]
        exact trivial
      · rintro _ ⟨⟩
        exact direction.isPlace_ahead (within seat rfl)
  | retreat =>
    rintro _ ⟨⟩
    refine direction.isPlace_behind ?_
    cases seat with
    | none => exact Position.within_ended _
    | some seat => exact within seat rfl
  | refresh | standing | key | keyBehindStem | value | compareKey _ => exact nomatch leads

/-- **A walk that is led comes to where it knows what is there.** -/
theorem Tread.arrived_foresee {tread : Tread ρ γ} (leads : tread.leads = true) {seat : Option Seat}
    (apt : ∀ here ∈ seat, here.Apt) (within : ∀ here ∈ seat, here.Within view) :
    ∀ here ∈ (tread.foresee view direction store seat).2, view.Arrived store here := by
  have settles : tread.Settles := by
    cases tread with
    | advance | retreat | refresh => exact trivial
    | standing | key | keyBehindStem | value | compareKey _ => exact nomatch leads
  exact fun here mem =>
    ⟨current_foresee settles apt here mem, isPlace_foresee leads apt within here mem⟩

/-- A walk that is not led stays where it is. -/
theorem Tread.place_foresee {tread : Tread ρ γ} (stays : tread.leads = false)
    (seat : Option Seat) :
    Seat.place (tread.foresee view direction store seat).2 = Seat.place seat := by
  cases tread with
  | advance | retreat => exact nomatch stays
  | refresh | compareKey _ => cases seat <;> rfl
  | standing | key | keyBehindStem | value => rfl

end Places

/-! ## 3. What a walk tells of its position -/

/-- Where a walk is by what it tells: on the key that it reads, and at the end if it reads none. -/
def Walk.seen (store : Store) (walk : Walk ρ) : Position :=
  match (outcome (walk.key Store.native) store).1 with
  | .ok key => .onKey key
  | .error _ => .ended

section Telling

variable {view : View ρ} {direction : Direction} {store : Store} {seat : Option Seat} {walk : Walk ρ}

/-- The cursor of a walk is open. -/
theorem Walk.Sits.isOpen (sits : Walk.Sits view direction store seat walk) {id : CursorId}
    (held : walk.held? = some id) : store.cursors.get? id ≠ none := by
  cases sits with
  | unheld => exact nomatch held
  | held cursor =>
    cases held
    rw [cursor]
    exact nofun

/-- A walk stays on its seat while its cursor stays where it is. -/
theorem Walk.Sits.of_cursor {after : Store} (sits : Walk.Sits view direction store seat walk)
    (same : ∀ id, walk.held? = some id → after.cursors.get? id = store.cursors.get? id) :
    Walk.Sits view direction after seat walk := by
  cases sits with
  | unheld => exact .unheld
  | held cursor => exact .held ((same _ rfl).trans cursor)

/-- What a walk reads of its key where it has arrived. -/
theorem Walk.Sits.outcome_key (sits : Walk.Sits view direction store seat walk)
    (arrived : ∀ here ∈ seat, view.Arrived store here) :
    outcome (walk.key Store.native) store = (match Seat.place seat with
      | .ended => .error (.misuse .readAtEnd)
      | .onKey key => .ok key, store) := by
  have apt : ∀ here ∈ seat, here.Apt := fun here mem => (arrived here mem).apt
  rw [Tread.outcome_key sits]
  cases on : Seat.place seat with
  | ended => rw [View.readFrom_at_end apt _ on]
  | onKey key =>
    obtain ⟨standing, rfl, _⟩ := Seat.standing_on_key apt on
    obtain ⟨current, place⟩ := arrived _ rfl
    obtain ⟨entry, stored⟩ := Option.isSome_iff_exists.mp place.2
    have live : standing = .live := current.trans (if_pos place.2)
    rcases View.readFrom_on_stored apt (·.1) on stored with ⟨_, read⟩ | ⟨erased, _⟩
    · rw [read]
    · exact nomatch live.symm.trans erased

/-- **Where it has arrived, a walk tells its position.** -/
theorem Walk.Sits.seen_eq (sits : Walk.Sits view direction store seat walk)
    (arrived : ∀ here ∈ seat, view.Arrived store here) : walk.seen store = Seat.place seat := by
  unfold Walk.seen
  rw [sits.outcome_key arrived]
  cases Seat.place seat <;> rfl

/-- A walk on an apt seat remembers its end exactly if it is there. -/
theorem Walk.Sits.isEnd_iff (sits : Walk.Sits view direction store seat walk)
    (apt : ∀ here ∈ seat, here.Apt) : walk.isEnd ↔ Seat.place seat = .ended := by
  have standing := sits.standing_eq
  unfold Walk.isEnd
  rw [decide_eq_true_iff, standing]
  cases seat with
  | none => exact ⟨fun _ => rfl, fun _ => rfl⟩
  | some seat => exact apt seat rfl

/-- Whether two walks hold no cursor together. -/
def Walk.Apart (a b : Walk ρ) : Prop :=
  ∀ id, a.held? = some id → b.held? ≠ some id

theorem Walk.Apart.symm {a b : Walk ρ} (apart : a.Apart b) : b.Apart a :=
  fun id held held' => apart id held' held

/-- **What another walk does is nothing to a walk.** -/
theorem Walk.Sits.beside {after : Store} {other other' : Walk ρ}
    (sits : Walk.Sits view direction store seat walk) (strolled : Strolled store other after other')
    (apart : walk.Apart other) :
    Walk.Sits view direction after seat walk ∧ walk.Apart other' := by
  have apart' : walk.Apart other' := by
    intro id held held'
    rcases strolled.own with same | ⟨_, id', own, fresh⟩
    · exact apart id held (same ▸ held')
    · cases own.symm.trans held'
      exact sits.isOpen held fresh
  exact ⟨sits.of_cursor fun id held => strolled.others id (apart id held) (apart' id held), apart'⟩

end Telling

/-! ## 4. Comparing -/

/-- Where an apt seat goes on from is its key. -/
theorem Seat.going?_eq {seat : Option Seat} (apt : ∀ here ∈ seat, here.Apt) :
    Seat.going? seat = if Seat.place seat = .ended then none else some (Seat.place seat) := by
  cases seat with
  | none => rfl
  | some seat =>
    show (if seat.standing = .ended then none else some seat.position)
      = if seat.position = .ended then none else some seat.position
    exact if_congr (apt seat rfl) rfl rfl

/-- **Apt seats compare by their positions.** -/
theorem Direction.compare_eq_order (direction : Direction) {seat seat' : Option Seat}
    (apt : ∀ here ∈ seat, here.Apt) (apt' : ∀ here ∈ seat', here.Apt) :
    direction.compare seat seat' = direction.order (Seat.place seat) (Seat.place seat') := by
  unfold compare
  rw [Seat.going?_eq apt, Seat.going?_eq apt']
  cases Seat.place seat <;> cases Seat.place seat' <;> cases direction <;> rfl

namespace Walk

variable {store : Store} {a b : Walk ρ}

/-- Whether two walks go the same way over one index of one table. -/
def SameCourse (a b : Walk ρ) : Prop :=
  a.view = b.view ∧ a.direction = b.direction

theorem SameCourse.symm (course : a.SameCourse b) : b.SameCourse a :=
  ⟨course.1.symm, course.2.symm⟩

theorem SameCourse.trans {c : Walk ρ} (course : a.SameCourse b) (course' : b.SameCourse c) :
    a.SameCourse c :=
  ⟨course.1.trans course'.1, course.2.trans course'.2⟩

/-- Whether two walks compare as an ordering says, whichever way it is asked. Asking changes
    nothing. -/
structure Compares (store : Store) (a b : Walk ρ) (ordering : Ordering) : Prop where
  order : outcome (a.order Store.native b) store = (.ok ordering, store)
  order? : a.order? Store.native b store = (some ordering, store)
  meets : a.meets Store.native b store = (decide (ordering = .eq), store)

/-- Whether two walks cannot be compared. -/
structure Mismatches (store : Store) (a : Walk ρ) (b : Walk τ) : Prop where
  order : outcome (a.order Store.native b) store = (.error .cursorMismatch, store)
  order? : a.order? Store.native b store = (none, store)
  meets : a.meets Store.native b store = (false, store)

theorem Compares.of_order {ordering : Ordering}
    (order : outcome (a.order Store.native b) store = (.ok ordering, store)) :
    a.Compares store b ordering := by
  have order? : a.order? Store.native b store = (some ordering, store) :=
    congrArg (fun ended : Except Fault Ordering × Store => (ended.1.toOption, ended.2)) order
  refine ⟨order, order?, ?_⟩
  refine (congrArg (fun ended : Option Ordering × Store =>
    (decide (ended.1 = some .eq), ended.2)) order?).trans ?_
  simp only [Option.some.injEq]

/-- **Walks on apt seats compare by their positions.** -/
theorem Sits.compares {view : View ρ} {direction : Direction} {seat seat' : Option Seat}
    (sits : Sits view direction store seat a) (sits' : Sits view direction store seat' b)
    (apt : ∀ here ∈ seat, here.Apt) (apt' : ∀ here ∈ seat', here.Apt) :
    a.Compares store b (direction.order (Seat.place seat) (Seat.place seat')) := by
  have order := outcome_order_foreseen sits sits'
  rw [if_pos ⟨rfl, rfl⟩, Direction.compare_eq_order direction apt apt'] at order
  exact .of_order order

/-- Two walks compare in one way only. -/
theorem Compares.eq {one other : Ordering} (compares : a.Compares store b one)
    (compares' : a.Compares store b other) : one = other := by
  have same := compares.order.symm.trans compares'.order
  cases same
  rfl

/-- **Walks over different indices, or of different tables, cannot be compared.** -/
theorem mismatches {a : Walk ρ} {b : Walk τ} (different : a.view.table.serial ≠ b.view.table.serial
    ∨ a.view.position.val ≠ b.view.position.val) (store : Store) : a.Mismatches store b := by
  have other : ¬ a.sameIndex b = true := by
    intro same
    obtain ⟨serial, position, _⟩ := of_decide_eq_true same
    exact different.elim (· serial) (· position)
  have order : outcome (a.order Store.native b) store = (.error .cursorMismatch, store) := by
    unfold Walk.order
    rw [if_neg other]
    rfl
  have order? : a.order? Store.native b store = (none, store) :=
    congrArg (fun ended : Except Fault Ordering × Store => (ended.1.toOption, ended.2)) order
  exact ⟨order, order?, congrArg (fun ended : Option Ordering × Store =>
    (decide (ended.1 = some .eq), ended.2)) order?⟩

end Walk

end IndexedStore
