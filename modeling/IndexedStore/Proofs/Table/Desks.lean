import IndexedStore.Proofs.Table.Abreast
/-!
# What a user keeps open

The user of a table keeps walks and scans open while other things happen, also to the store. A HANDLE
is such a walk or scan, its POST is where it stands, without the number of its cursor. A DESK is what
one user keeps open, each handle under a number of its own.

* `Opening.perform` makes a handle and `Handling.perform` works with one; `Opening.foresee` and
  `Handling.foresee` say the same of posts;
* **`Opening.outcome_foreseen`** and **`Handling.perform_foreseen`**: so it happens, and of the open
  cursors only that of the handle changes;
* `Handling.foresee_eq` and `Opening.foresee_eq` compare two stores that hold the same for the table;
* `Desk.ledger_put`, `Desk.distinct_put` and `Desk.keeps_put` are what a change of one handle does to
  the cursors of a desk; `Desk.start`, `Desk.work` and `Desk.compare` are such changes.
-/

namespace IndexedStore

open IndexedStore.Action

variable {ρ α β : Type}

/-! ## 1. Handles -/

/-- What is kept open. -/
inductive Handle (ρ : Type) where
  | walk (walk : Walk ρ)
  | scan (scan : Scan ρ)

namespace Handle

/-- The walk, also that of a scan. -/
def walking : Handle ρ → Walk ρ
  | .walk inner => inner
  | .scan inner => inner.walk

/-- The number of the cursor, if there is one. -/
def number? (handle : Handle ρ) : Option CursorId :=
  handle.walking.held?

end Handle

/-- Where a handle stands. -/
inductive Post (table : Table ρ) where
  | walk (index : Fin table.indices.length) (direction : Direction) (seat : Option Seat)
  | scan (index : Fin table.indices.length) (mark : Scan.Mark)

/-- Whether a post keeps to the keys of its index. -/
def Post.Within {table : Table ρ} : Post table → Prop
  | walk index _ seat => ∀ here ∈ seat, Seat.Within ⟨table, index⟩ here
  | scan index mark => mark.seat.Within ⟨table, index⟩

/-- How two posts compare; only those of walks do. -/
def Post.compare {table : Table ρ} : Post table → Post table → Option (Except Fault Ordering)
  | walk index direction seat, walk index' direction' seat' =>
    some (if index = index' ∧ direction = direction' then .ok (direction.compare seat seat')
      else .error .cursorMismatch)
  | _, _ => none

/-- Whether a handle stands at a post. -/
inductive Handle.Stands {table : Table ρ} (store : Store) : Post table → Handle ρ → Prop where
  | walk {index : Fin table.indices.length} {direction : Direction} {seat : Option Seat}
    {walk : Walk ρ} (sits : Walk.Sits ⟨table, index⟩ direction store seat walk) :
    Stands store (.walk index direction seat) (.walk walk)
  | scan {index : Fin table.indices.length} {mark : Scan.Mark} {id : CursorId}
    (cursor : store.cursors.get? id = some (View.cursorAt ⟨table, index⟩ mark.seat.position)) :
    Stands store (.scan index mark) (.scan (Scan.marked ⟨table, index⟩ id mark))

section Standing

variable {table : Table ρ} {store after : Store} {post : Post table} {handle handle' : Handle ρ}
  {id : CursorId}

/-- The cursor of a handle is on a key of its index, or at the end. -/
theorem Handle.Stands.cursor (stands : handle.Stands store post) (held : handle.number? = some id) :
    ∃ (index : Fin table.indices.length) (position : Position),
      store.cursors.get? id = some (View.cursorAt ⟨table, index⟩ position)
      ∧ (post.Within → position.Within (View.placement ⟨table, index⟩).stem) := by
  cases stands with
  | walk sits =>
    cases sits with
    | unheld => exact nomatch held
    | held cursor =>
      cases held
      exact ⟨_, _, cursor, fun within => within _ rfl⟩
  | scan cursor =>
    cases held
    exact ⟨_, _, cursor, id⟩

/-- A handle stands where it stood as long as its cursor does. -/
theorem Handle.Stands.keeps (stands : handle.Stands store post)
    (kept : ∀ id cursor, handle.number? = some id → store.cursors.get? id = some cursor →
      after.cursors.get? id = some cursor) : handle.Stands after post := by
  cases stands with
  | walk sits =>
    cases sits with
    | unheld => exact .walk .unheld
    | held cursor => exact .walk (.held (kept _ _ rfl cursor))
  | scan cursor => exact .scan (kept _ _ rfl cursor)

/-- Whether a handle holds a cursor, its post tells. -/
theorem Handle.Stands.number?_isSome {other : Store} (stands : handle.Stands store post)
    (stands' : handle'.Stands other post) :
    handle.number?.isSome = handle'.number?.isSome := by
  cases stands with
  | walk sits =>
    cases stands' with
    | walk sits' => cases sits <;> cases sits' <;> rfl
  | scan _ =>
    cases stands' with
    | scan _ => rfl

end Standing

/-! ## 2. Opening handles -/

/-- How a handle is made. -/
inductive Opening where
  | walk (start : Start)
  | scan (span : Span)

namespace Opening

/-- Makes a handle over an index. -/
def perform (view : View ρ) : Opening → Action Store (Handle ρ)
  | walk start => do return .walk (← start.perform Store.native view)
  | scan span => do return .scan (← span.start Store.native view)

/-- The post that the handle is made at. -/
def foresee {table : Table ρ} (index : Fin table.indices.length) (store : Store) :
    Opening → Post table
  | walk start => .walk index start.direction (start.foresee ⟨table, index⟩ store)
  | scan span => .scan index (Scan.markOf ⟨table, index⟩ store span)

variable {table : Table ρ} {index : Fin table.indices.length} {store s t : Store}

/-- **A handle is made at the post foreseen**, with a cursor of its own. -/
theorem outcome_foreseen (opening : Opening) (index : Fin table.indices.length)
    (free : store.HasSlots 1) :
    ∃ handle after, outcome (opening.perform ⟨table, index⟩) store = (.ok handle, after)
      ∧ handle.Stands after (opening.foresee index store)
      ∧ Sparing store after
      ∧ Ledger store (Holding none) after (Holding handle.number?) := by
  cases opening with
  | walk start =>
    obtain ⟨walk, after, made, sits, strolled⟩ := start.outcome_foreseen ⟨table, index⟩ free
    exact ⟨.walk walk, after, outcome_bind_ok made, .walk sits, strolled.sparing, strolled.ledger⟩
  | scan span =>
    obtain ⟨id, after, made, joined, cursor⟩ :=
      Scan.outcome_start_foreseen ⟨table, index⟩ span free
    exact ⟨_, after, outcome_bind_ok made, .scan cursor, joined.sparing, joined.ledger⟩

theorem foresee_eq (alike : table.estate.Alike s t) (opening : Opening)
    (index : Fin table.indices.length) : opening.foresee index s = opening.foresee index t := by
  have alike : (View.mk table index).table.estate.Alike s t := alike
  cases opening with
  | walk start => exact congrArg (Post.walk index start.direction) (start.foresee_eq alike)
  | scan span =>
    unfold foresee Scan.markOf
    dsimp only
    rw [View.sought_eq alike]

theorem within_foresee (opening : Opening) (index : Fin table.indices.length) (store : Store) :
    (opening.foresee index store).Within := by
  cases opening with
  | walk start => exact start.within_foresee
  | scan span => exact View.within_sought ⟨table, index⟩ store _

end Opening

/-! ## 3. Working with handles -/

/-- What is done with a handle. -/
inductive Handling (ρ : Type) : Type → Type 1 where
  /-- A step or a reading of a walk. -/
  | tread {β : Type} (tread : Tread ρ β) : Handling ρ β
  /-- The next item of a scan. -/
  | next {α : Type} (reading : Reading ρ α) : Handling ρ (Option (Except Fault α))
  /-- All items of a scan that are left; the scan is given up. -/
  | all {α : Type} (reading : Reading ρ α) : Handling ρ (List (Except Fault α))
  /-- The handle is given up. -/
  | release : Handling ρ Unit

namespace Handling

/-- Works with a handle: the answer, what is kept open of it, and the store. There is no answer to what
    cannot be asked of a handle of its kind. -/
def perform : Handling ρ β → Handle ρ → Store → Option (Except Fault β) × Option (Handle ρ) × Store
  | tread asked, .walk walk, store =>
    let ended := Motion.ends (asked.perform Store.native) walk store
    (some ended.1.1, some (.walk ended.1.2), ended.2)
  | next reading, .scan scan, store =>
    let ended := scan.next Store.native (reading.read Store.native) store
    (some (.ok ended.1.1), some (.scan ended.1.2), ended.2)
  | all reading, .scan scan, store =>
    let ended := scan.all Store.native (reading.read Store.native) store
    (some (.ok ended.1), none, ended.2)
  | release, handle, store =>
    (some (.ok ()), none, (handle.walking.release Store.native store).2)
  | tread _, .scan scan, store => (none, some (.scan scan), store)
  | next _, .walk walk, store => (none, some (.walk walk), store)
  | all _, .walk walk, store => (none, some (.walk walk), store)

/-- What is answered at a post, and the post after it. -/
def foresee {table : Table ρ} (store : Store) :
    Handling ρ β → Post table → Option (Except Fault β) × Option (Post table)
  | tread asked, .walk index direction seat =>
    let foreseen := asked.foresee ⟨table, index⟩ direction store seat
    (some foreseen.1, some (.walk index direction foreseen.2))
  | next reading, .scan index mark =>
    let out := mark.next ⟨table, index⟩ store reading
    (some (.ok out.1), some (.scan index out.2))
  | all reading, .scan index mark =>
    (some (.ok (mark.drain ⟨table, index⟩ store reading (store.size table.scope + 1))), none)
  | release, _ => (some (.ok ()), none)
  | tread _, .scan index mark => (none, some (.scan index mark))
  | next _, .walk index direction seat => (none, some (.walk index direction seat))
  | all _, .walk index direction seat => (none, some (.walk index direction seat))

/-- Whether a handle that holds no cursor opens one for this. -/
def Opens : Handling ρ β → Prop
  | tread asked => asked.Opens
  | _ => False

variable {table : Table ρ} {store s t : Store} {post : Post table} {handle : Handle ρ}

/-- **A handle does what is foreseen**, and of the open cursors only its own changes. -/
theorem perform_foreseen (handling : Handling ρ β) (stands : handle.Stands store post)
    (free : handling.Opens → handle.number? = none → store.HasSlots 1) :
    ∃ left after, handling.perform handle store = ((handling.foresee store post).1, left, after)
      ∧ Option.Rel (Handle.Stands after) (handling.foresee store post).2 left
      ∧ Sparing store after
      ∧ Ledger store (Holding handle.number?) after (Holding (left.bind Handle.number?)) := by
  have refused : ∃ left after, (((none : Option (Except Fault β)), some handle, store)
        : Option (Except Fault β) × Option (Handle ρ) × Store) = (none, left, after)
      ∧ Option.Rel (Handle.Stands after) (some post) left ∧ Sparing store after
      ∧ Ledger store (Holding handle.number?) after (Holding (left.bind Handle.number?)) :=
    ⟨_, _, rfl, .some stands, .refl store, .refl ..⟩
  cases handling with
  | tread tread =>
    cases stands with
    | scan _ => exact refused
    | walk sits =>
      obtain ⟨walk', after, ended, sits', strolled⟩ := tread.ends_foreseen sits free
      exact ⟨some (.walk walk'), after,
        congrArg (fun ended => (some ended.1.1, some (Handle.walk ended.1.2), ended.2)) ended,
        .some (.walk sits'), strolled.sparing, strolled.ledger⟩
  | next reading =>
    cases stands with
    | walk _ => exact refused
    | @scan index mark id cursor =>
      obtain ⟨after, handed, moves⟩ := Scan.next_foreseen reading cursor
      exact ⟨some (.scan (Scan.marked _ _ (mark.next _ store reading).2)), after,
        congrArg (fun ended => (some (Except.ok ended.1.1), some (Handle.scan ended.1.2),
          ended.2)) handed,
        .some (.scan moves.cursor), moves.strolled.sparing, moves.strolled.ledger⟩
  | all reading =>
    cases stands with
    | walk _ => exact refused
    | scan cursor =>
      obtain ⟨after, ran, sparing, ledger⟩ := Scan.all_foreseen reading cursor
      exact ⟨none, after, congrArg (fun ended => (some (Except.ok ended.1), none, ended.2)) ran,
        .none, sparing, ledger⟩
  | release =>
    have released : ∃ after, handle.walking.release Store.native store = ((), after)
        ∧ Sparing store after ∧ Ledger store (Holding handle.number?) after (Holding none) := by
      cases stands with
      | walk sits => exact Walk.release_foreseen sits
      | scan cursor => exact Walk.release_foreseen (Walk.sits_on cursor)
    obtain ⟨after, released, sparing, ledger⟩ := released
    refine ⟨none, after, ?_, ?_, sparing, ledger⟩
    · have left := congrArg (fun ended => (some (Except.ok () : Except Fault Unit),
        (none : Option (Handle ρ)), ended.2)) released
      cases stands <;> exact left
    · cases stands <;> exact .none

theorem foresee_eq (alike : table.estate.Alike s t) (handling : Handling ρ β)
    (within : post.Within) : handling.foresee s post = handling.foresee t post := by
  cases handling with
  | tread tread =>
    cases post with
    | scan _ _ => rfl
    | walk index direction seat =>
      have alike : (View.mk table index).table.estate.Alike s t := alike
      unfold foresee
      dsimp only
      rw [tread.foresee_eq alike within]
  | next reading =>
    cases post with
    | walk _ _ _ => rfl
    | scan index mark =>
      have alike : (View.mk table index).table.estate.Alike s t := alike
      unfold foresee
      dsimp only
      rw [Scan.Mark.next_eq alike reading within]
  | all reading =>
    cases post with
    | walk _ _ _ => rfl
    | scan index mark =>
      have alike : (View.mk table index).table.estate.Alike s t := alike
      have same := Scan.Mark.all_eq alike reading within
      exact congrArg (fun items => (some (Except.ok items), none)) same
  | release => cases post <;> rfl

theorem within_foresee (handling : Handling ρ β) (store : Store) (within : post.Within) :
    ∀ next ∈ (handling.foresee store post).2, next.Within := by
  cases handling with
  | tread tread =>
    cases post with
    | scan _ _ =>
      rintro _ ⟨⟩
      exact within
    | walk index direction seat =>
      rintro _ ⟨⟩
      exact tread.within_foresee within
  | next reading =>
    cases post with
    | walk _ _ _ =>
      rintro _ ⟨⟩
      exact within
    | scan index mark =>
      rintro _ ⟨⟩
      exact Scan.Mark.within_next store reading within
  | all reading =>
    cases post with
    | walk _ _ _ =>
      rintro _ ⟨⟩
      exact within
    | scan _ _ => exact nofun
  | release => cases post <;> exact nofun

end Handling

/-! ## 4. Desks -/

/-- What one user keeps open: each handle has a number by which the user knows it. -/
abbrev Desk (ρ : Type) := Nat → Option (Handle ρ)

namespace Desk

/-- The desk with nothing on it. -/
def clear : Desk ρ := fun _ => none

/-- Puts a handle in the place of another one, or none. -/
def put (desk : Desk ρ) (name : Nat) (handle : Option (Handle ρ)) : Desk ρ :=
  fun other => if other = name then handle else desk other

/-- The cursor of the handle at a place. -/
def numberAt (desk : Desk ρ) (name : Nat) : Option CursorId :=
  (desk name).bind Handle.number?

/-- Whether some handle holds a cursor. -/
def Holds (desk : Desk ρ) (id : CursorId) : Prop :=
  ∃ name, desk.numberAt name = some id

/-- Whether no two handles hold one cursor. -/
def Distinct (desk : Desk ρ) : Prop :=
  ∀ a b id, desk.numberAt a = some id → desk.numberAt b = some id → a = b

variable {desk : Desk ρ} {name other : Nat} {handle : Option (Handle ρ)} {store after : Store}

@[simp] theorem put_self : desk.put name handle name = handle := if_pos rfl

theorem put_of_ne (apart : other ≠ name) : desk.put name handle other = desk other := if_neg apart

/-- The cursors of a desk are that of one place and those of the others. -/
theorem holds_put (desk : Desk ρ) (name : Nat) (handle : Option (Handle ρ)) (id : CursorId) :
    (desk.put name handle).Holds id ↔ Holding (handle.bind Handle.number?) id ∨
      ∃ other, other ≠ name ∧ desk.numberAt other = some id := by
  constructor
  · rintro ⟨other, held⟩
    by_cases same : other = name
    · subst same
      unfold numberAt at held
      rw [put_self] at held
      exact .inl held
    · unfold numberAt at held
      rw [put_of_ne same] at held
      exact .inr ⟨other, same, held⟩
  · rintro (held | ⟨other, apart, held⟩)
    · refine ⟨name, ?_⟩
      unfold numberAt
      rw [put_self]
      exact held
    · refine ⟨other, ?_⟩
      unfold numberAt
      rw [put_of_ne apart]
      exact held

theorem holds_iff (desk : Desk ρ) (name : Nat) (id : CursorId) :
    desk.Holds id ↔ Holding (desk.numberAt name) id ∨
      ∃ other, other ≠ name ∧ desk.numberAt other = some id := by
  have same : desk.put name (desk name) = desk := by
    funext other
    by_cases here : other = name
    · rw [here, put_self]
    · rw [put_of_ne here]
  have split := holds_put desk name (desk name) id
  rw [same] at split
  exact split

section Put

variable (ledger : Ledger store (Holding (desk.numberAt name)) after
  (Holding (handle.bind Handle.number?)))
include ledger

/-- The ledger of a handle is one of its desk. -/
theorem ledger_put : Ledger store desk.Holds after (desk.put name handle).Holds :=
  (ledger.frame fun id => ∃ other, other ≠ name ∧ desk.numberAt other = some id).congr
    (holds_iff desk name) (holds_put desk name handle)

variable (distinct : desk.Distinct)
  (opens : ∀ id, desk.Holds id → ∃ cursor, store.cursors.get? id = some cursor)
include distinct

/-- The cursors of the other handles stay where they are. -/
theorem keeps_put (apart : other ≠ name) {id : CursorId} {cursor : Cursor}
    (held : desk.numberAt other = some id) (isOpen : store.cursors.get? id = some cursor) :
    after.cursors.get? id = some cursor :=
  ledger.keeps (fun here => apart (distinct other name id held here)) isOpen

include opens

/-- A handle takes no cursor of another one. -/
theorem distinct_put : (desk.put name handle).Distinct := by
  have fresh : ∀ {other id}, other ≠ name → (desk.put name handle).numberAt other = some id →
      ¬ (desk.put name handle).numberAt name = some id := by
    intro other id apart held here
    unfold numberAt at held here
    rw [put_of_ne apart] at held
    rw [put_self] at here
    obtain ⟨cursor, isOpen⟩ := opens id ⟨other, held⟩
    exact ledger.apart (fun there => apart (distinct other name id held there)) isOpen here
  intro a b id heldA heldB
  by_cases hereA : a = name
  · by_cases hereB : b = name
    · rw [hereA, hereB]
    · exact absurd (hereA ▸ heldA) (fresh hereB heldB)
  · by_cases hereB : b = name
    · exact absurd (hereB ▸ heldB) (fresh hereA heldA)
    · unfold numberAt at heldA heldB
      rw [put_of_ne hereA] at heldA
      rw [put_of_ne hereB] at heldB
      exact distinct a b id heldA heldB

end Put

/-! ## 5. Working at a desk -/

/-- Makes a handle under a new number. There is no answer if the number is taken. -/
def start (desk : Desk ρ) (name : Nat) (view : View ρ) (way : Opening) (store : Store) :
    Option (Except Fault Unit) × Desk ρ × Store :=
  match desk name with
  | some _ => (none, desk, store)
  | none => match outcome (way.perform view) store with
    | (.ok handle, after) => (some (.ok ()), desk.put name (some handle), after)
    | (.error fault, after) => (some (.error fault), desk, after)

/-- Works with a handle. There is no answer if no handle has the number. -/
def work (desk : Desk ρ) (name : Nat) (made : Handling ρ β) (store : Store) :
    Option (Except Fault β) × Desk ρ × Store :=
  match desk name with
  | none => (none, desk, store)
  | some handle =>
    let ended := made.perform handle store
    (ended.1, desk.put name ended.2.1, ended.2.2)

/-- Compares two walks. There is no answer if the numbers are not those of walks. -/
def compare (desk : Desk ρ) (first second : Nat) (store : Store) :
    Option (Except Fault Ordering) × Desk ρ × Store :=
  match desk first, desk second with
  | some (.walk walk), some (.walk other) =>
    let ended := outcome (walk.order Store.native other) store
    (some ended.1, desk, ended.2)
  | _, _ => (none, desk, store)

theorem start_of_taken {held : Handle ρ} (taken : desk name = some held) (view : View ρ)
    (way : Opening) (store : Store) : desk.start name view way store = (none, desk, store) := by
  unfold start
  rw [taken]

theorem start_of_free {made : Handle ρ} {view : View ρ} {way : Opening} (free : desk name = none)
    (opens : outcome (way.perform view) store = (.ok made, after)) :
    desk.start name view way store = (some (.ok ()), desk.put name (some made), after) := by
  unfold start
  rw [free]
  dsimp only
  rw [opens]

theorem work_of_missing (missing : desk name = none) (made : Handling ρ β) (store : Store) :
    desk.work name made store = (none, desk, store) := by
  unfold work
  rw [missing]

theorem work_of_found {held : Handle ρ} {made : Handling ρ β} {answer : Option (Except Fault β)}
    {left : Option (Handle ρ)} (found : desk name = some held)
    (performed : made.perform held store = (answer, left, after)) :
    desk.work name made store = (answer, desk.put name left, after) := by
  unfold work
  rw [found]
  dsimp only
  rw [performed]

theorem compare_of_missing {first second : Nat} (missing : desk first = none ∨ desk second = none)
    (store : Store) : desk.compare first second store = (none, desk, store) := by
  unfold compare
  rcases missing with missing | missing
  · rw [missing]
  · rw [missing]
    split
    · rename_i found
      exact nomatch found
    · rfl

/-- **Walks on a desk compare as their posts do.** -/
theorem compare_of_found {table : Table ρ} {first second : Nat} {post post' : Post table}
    {held held' : Handle ρ} (found : desk first = some held) (found' : desk second = some held')
    (stands : held.Stands store post) (stands' : held'.Stands store post') :
    desk.compare first second store = (post.compare post', desk, store) := by
  unfold compare
  rw [found, found']
  cases stands with
  | scan _ => rfl
  | walk sits =>
    cases stands' with
    | scan _ => rfl
    | walk sits' =>
      dsimp only
      rw [Walk.outcome_order_foreseen sits sits']
      rfl

end Desk

end IndexedStore
