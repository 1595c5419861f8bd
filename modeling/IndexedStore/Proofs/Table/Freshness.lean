import IndexedStore.Proofs.Store.Steering
import IndexedStore.Proofs.Table.Foresight
/-!
# Reading through a walk is never stale

There are two notions of where a walk stands: what it REMEMBERS of its last step, and what its
cursor finds in the store. Writes drive them apart. A walk that remembers an entry may stand where
there is none any more, and one that remembers that its entry was erased may stand on a new one.
Whatever is mixed, a reading gives what is stored at its position at that moment, or a misuse.

* `Walk.Meanwhile` is what else can happen to a store while a walk waits, and `Walk.Lives` are the
  walks that can be met then: made in some way, and led by their own steps;
* `Seat.Apt` is the invariant: a walk remembers its end exactly if its cursor is there;
* `Walk.Fresh` says what is read, `Walk.Settled` what holds right after a step;
* **`Walk.Lives.contains_key`** and `Walk.Lives.misuse_behindStem`: the key of a walk that can be met
  begins with the stem of its index, so no such walk is refused for a key outside it;
* **`Walk.never_stale`** is the result.
-/

namespace IndexedStore

open IndexedStore.Action

variable {ρ β : Type}

/-! ## 1. Walks among writes -/

namespace Walk

open Motion

/-- What else can happen to a store while a walk waits that holds a cursor, or none: calls of any
    kind that do not move or close this cursor, writes to any table, and units of work that are
    begun, kept or taken back. -/
inductive Meanwhile (held : Option CursorId) (store : Store) : Store → Prop where
  | call {γ : Type} (issued : Issued γ)
    (apart : ∀ id, held = some id → issued.call.moved? ≠ some id) :
    Meanwhile held store (outcome issued.perform store).2
  | write {τ γ : Type} (table : Table τ) (write : TableWrite τ γ) :
    Meanwhile held store (outcome (write.perform Store.native table) store).2
  | beginUnit : Meanwhile held store (outcome Store.beginUnit store).2
  | commitUnit : Meanwhile held store (Store.commitUnit store).2
  | rollbackUnit : Meanwhile held store (Store.rollbackUnit store).2

/-- The walks over an index that can be met in a store: made in any way, and then led by steps and
    readings of their own, successful or not, in any mix with what else happens to the store. -/
inductive Lives (view : View ρ) : Store → Walk ρ → Prop where
  | made {start : Start} {before after : Store} {walk : Walk ρ} :
    outcome (start.perform Store.native view) before = (.ok walk, after) → Lives view after walk
  | own {γ : Type} {store : Store} {walk : Walk ρ} (tread : Tread ρ γ) :
    Lives view store walk →
    Lives view (ends (tread.perform Store.native) walk store).2
      (ends (tread.perform Store.native) walk store).1.2
  | meanwhile {store after : Store} {walk : Walk ρ} :
    Lives view store walk → Meanwhile walk.held? store after → Lives view after walk

/-- Where a walk is: where its cursor is, and at the end without one. -/
def place (store : Store) (walk : Walk ρ) : Position :=
  ((walk.held?.bind store.cursors.get?).map (·.position)).getD .ended

end Walk

/-- Whether a walk learns its standing anew by this: a step, or asking for it. -/
def Tread.Settles : Tread ρ β → Prop
  | advance | retreat | refresh => True
  | _ => False

/-! ## 2. The invariant -/

/-- Whether a seat is remembered as the end exactly if it is there. -/
def Seat.Apt (seat : Seat) : Prop :=
  seat.standing = .ended ↔ seat.position = .ended

section Apt

variable {view : View ρ} {direction : Direction} {store : Store}

/-- Right after a step a seat is apt. -/
theorem View.apt_seatAt (view : View ρ) (store : Store) (position : Position) :
    (view.seatAt store position).Apt :=
  Store.standingOf_eq_iff

/-- Every walk is made on an apt seat. -/
theorem Start.apt_foresee (start : Start) (view : View ρ) (store : Store) :
    ∀ seat ∈ start.foresee view store, seat.Apt := by
  have sought : ∀ key, (view.sought store key).Apt := fun key => view.apt_seatAt store _
  cases start with
  | seek key | first =>
    rintro _ ⟨⟩
    exact sought _
  | find key =>
    unfold foresee
    dsimp only
    split
    · rintro _ ⟨⟩
      exact sought key
    · exact nofun
  | seekAbove key =>
    unfold foresee
    dsimp only
    split
    · rintro _ ⟨⟩
      exact view.apt_seatAt store _
    · rintro _ ⟨⟩
      exact sought key
  | last =>
    rintro _ ⟨⟩
    exact view.apt_seatAt store _
  | pastLast | beforeFirst => exact nofun

/-- **Steps and readings keep seats apt.** -/
theorem Tread.apt_foresee (tread : Tread ρ β) {seat : Option Seat} (apt : ∀ here ∈ seat, here.Apt) :
    ∀ here ∈ (tread.foresee view direction store seat).2, here.Apt := by
  cases tread with
  | advance =>
    cases seat with
    | none => exact apt
    | some seat =>
      unfold foresee
      dsimp only
      split
      · exact apt
      · rintro _ ⟨⟩
        exact view.apt_seatAt store _
  | retreat =>
    rintro _ ⟨⟩
    exact view.apt_seatAt store _
  | refresh =>
    cases seat with
    | none => exact apt
    | some seat =>
      rintro _ ⟨⟩
      exact view.apt_seatAt store _
  | standing | key | keyBehindStem | value => exact apt
  | compareKey bound => cases seat <;> exact apt

/-- After a step the standing that is remembered is that of the moment, also if the step was refused
    at the end. -/
theorem Tread.current_foresee {tread : Tread ρ β} (settles : tread.Settles) {seat : Option Seat}
    (apt : ∀ here ∈ seat, here.Apt) :
    ∀ here ∈ (tread.foresee view direction store seat).2,
      here.standing = store.standingOf (view.cursorAt here.position) := by
  cases tread with
  | advance =>
    cases seat with
    | none => exact nofun
    | some seat =>
      unfold foresee
      dsimp only
      split
      · rintro _ ⟨⟩
        have ended : seat.position = .ended := (apt seat rfl).mp ‹_›
        rw [ended]
        assumption
      · rintro _ ⟨⟩
        rfl
  | retreat =>
    rintro _ ⟨⟩
    rfl
  | refresh =>
    cases seat with
    | none => exact nofun
    | some seat =>
      rintro _ ⟨⟩
      rfl
  | standing | key | keyBehindStem | value | compareKey _ => exact settles.elim

/-! ### Reading from an apt seat -/

section Reading

variable {seat : Option Seat} (apt : ∀ here ∈ seat, here.Apt) (part : Bytes × Entry → Bytes)
  {key : Bytes}

include apt

theorem View.readFrom_at_end (ended : (seat.map (·.position)).getD .ended = .ended) :
    view.readFrom store part seat = .error (.misuse .readAtEnd) := by
  cases seat with
  | none => rfl
  | some seat =>
    have remembered : seat.standing = .ended := (apt seat rfl).mpr ended
    unfold readFrom
    dsimp only
    rw [remembered]

/-- On a key a walk does not take itself to be at the end. -/
theorem Seat.standing_on_key (on : (seat.map (·.position)).getD .ended = .onKey key) :
    ∃ standing, seat = some ⟨standing, .onKey key⟩ ∧ standing ≠ .ended := by
  cases seat with
  | none => exact nomatch on
  | some seat =>
    obtain ⟨standing, position⟩ := seat
    cases on
    exact ⟨standing, rfl, fun ended => nomatch (apt _ rfl).mp ended⟩

theorem View.readFrom_on_missing (on : (seat.map (·.position)).getD .ended = .onKey key)
    (missing : store.find? view.table.scope key = none) :
    view.readFrom store part seat = .error (.misuse .readErased) := by
  obtain ⟨standing, rfl, going⟩ := Seat.standing_on_key apt on
  have entry : store.entryAt? (view.cursorAt (.onKey key)) = none := congrArg (Option.map _) missing
  unfold readFrom
  cases standing with
  | ended => exact absurd rfl going
  | erased => rfl
  | live =>
    dsimp only
    rw [entry]

theorem View.readFrom_on_stored (on : (seat.map (·.position)).getD .ended = .onKey key)
    {entry : Entry} (stored : store.find? view.table.scope key = some entry) :
    ((seat.map (·.standing)).getD .ended = .live
      ∧ view.readFrom store part seat = .ok (part (key, entry))) ∨
    ((seat.map (·.standing)).getD .ended = .erased
      ∧ view.readFrom store part seat = .error (.misuse .readErased)) := by
  obtain ⟨standing, rfl, going⟩ := Seat.standing_on_key apt on
  have found : store.entryAt? (view.cursorAt (.onKey key)) = some (key, entry) :=
    congrArg (Option.map _) stored
  cases standing with
  | ended => exact absurd rfl going
  | erased => exact .inr ⟨rfl, rfl⟩
  | live =>
    refine .inl ⟨rfl, ?_⟩
    unfold readFrom
    dsimp only
    rw [found]

end Reading

end Apt

/-! ## 3. Steps without a slot -/

section Full

open Motion

variable {view : View ρ} {direction : Direction} {store : Store} {seat : Option Seat}
  {walk : Walk ρ}
  (full : ¬ store.cursors.size < store.settings.limits.maxCursors.toNat)

include full in
/-- Where all slots are taken no cursor is opened. -/
theorem View.outcome_openCursor_full (view : View ρ) :
    ∃ fault, outcome (Walk.openCursor Store.native view) store = (.error fault, store) := by
  have opens : outcome (Walk.openCursor Store.native view) store = _ :=
    Store.outcome_openCursor view.table.scope view.placement.stem store
  rw [if_pos (Nat.not_lt.mp full)] at opens
  exact ⟨_, opens⟩

include full in
/-- Where all slots are taken a walk is made at the end, without a cursor, or not at all. -/
theorem Start.outcome_full (start : Start) (view : View ρ) :
    (start.foresee view store = none
      ∧ outcome (start.perform Store.native view) store
        = (.ok (.atEnd view start.direction), store)) ∨
    ∃ fault, outcome (start.perform Store.native view) store = (.error fault, store) := by
  obtain ⟨fault, fails⟩ := view.outcome_openCursor_full full
  have started : ∀ direction first,
      outcome (Walk.start Store.native view direction first) store = (.error fault, store) :=
    fun _ _ => outcome_bind_error fails
  cases start with
  | seek key => exact .inr ⟨fault, started ..⟩
  | find key => exact .inr ⟨fault, outcome_bind_error (started ..)⟩
  | seekAbove key => exact .inr ⟨fault, outcome_bind_error (started ..)⟩
  | first => exact .inr ⟨fault, started ..⟩
  | last => exact .inr ⟨fault, started ..⟩
  | pastLast => exact .inl ⟨rfl, rfl⟩
  | beforeFirst => exact .inl ⟨rfl, rfl⟩

/-- **A walk that is made is on its seat**, whether or not there are slots left, and of the store only
    its own cursor is new. -/
theorem Start.foretold_of_ok (start : Start) {after : Store}
    (made : outcome (start.perform Store.native view) store = (.ok walk, after)) :
    Walk.Sits view start.direction after (start.foresee view store) walk
      ∧ Strolled store (.atEnd view start.direction) after walk := by
  by_cases free : store.cursors.size < store.settings.limits.maxCursors.toNat
  · obtain ⟨_, _, made', foretold⟩ := start.outcome_foreseen view free
    cases made.symm.trans made'
    exact foretold
  · rcases start.outcome_full free view with ⟨unheld, made'⟩ | ⟨_, fails⟩
    · cases made.symm.trans made'
      rw [unheld]
      exact ⟨.unheld, .refl ..⟩
    · cases made.symm.trans fails

/-- A walk does what is foreseen, or cannot open the cursor that it needs and stays as it is. -/
theorem Tread.foretold_or_full (sits : Walk.Sits view direction store seat walk)
    (tread : Tread ρ β) : Tread.Foretold view direction store seat walk tread ∨
      seat = none ∧ ∃ fault, ends (tread.perform Store.native) walk store
        = ((.error fault, walk), store) := by
  by_cases free : store.cursors.size < store.settings.limits.maxCursors.toNat
  · exact .inl (tread.ends_foreseen sits fun _ _ => free)
  · cases sits with
    | held cursor => exact .inl (tread.ends_foreseen (.held cursor) fun _ => nofun)
    | unheld =>
      by_cases opens : tread.Opens
      · cases tread with
        | retreat =>
          obtain ⟨fault, fails⟩ := view.outcome_openCursor_full free
          refine .inr ⟨rfl, fault, ?_⟩
          have ensured : ends (Walk.ensureCursor Store.native) (⟨view, direction, none⟩ : Walk ρ)
              store = ends (ofAction (Walk.openCursor Store.native view) >>= fun cursor => do
                Walk.settle cursor .ended
                return cursor) ⟨view, direction, none⟩ store := rfl
          rw [ends_bind_error (ends_ofAction fails)] at ensured
          exact ends_bind_error ensured
        | _ => exact opens.elim
      · exact .inl (tread.ends_foreseen .unheld fun here => absurd here opens)

end Full

namespace Walk

open Motion

variable {view : View ρ} {store after : Store} {walk : Walk ρ}

/-! ## 4. Walks on apt seats -/

/-- Whether a walk over an index stands on an apt seat within the index, or holds no cursor. -/
def Tracks (view : View ρ) (store : Store) (walk : Walk ρ) : Prop :=
  ∃ direction seat, Sits view direction store seat walk ∧ (∀ here ∈ seat, here.Apt)
    ∧ ∀ here ∈ seat, here.Within view

/-- The cursor of a walk stays where it is, whatever else happens. -/
theorem Meanwhile.get?_cursors {id : CursorId} {cursor : Cursor}
    (meanwhile : Meanwhile (some id) store after)
    (isOpen : store.cursors.get? id = some cursor) : after.cursors.get? id = some cursor := by
  cases meanwhile with
  | call issued apart => exact issued.get?_cursors (apart id rfl) isOpen
  | write table write =>
    have same := write.keeps Scan.sameCursors_native table store
    rw [same]
    exact isOpen
  | beginUnit =>
    rw [Store.cursors_beginUnit]
    exact isOpen
  | commitUnit => exact isOpen
  | rollbackUnit =>
    rw [Store.cursors_rollbackUnit]
    exact isOpen

/-- A walk stays on its seat, whatever else happens. -/
theorem Sits.meanwhile {direction : Direction} {seat : Option Seat}
    (sits : Sits view direction store seat walk) (meanwhile : Meanwhile walk.held? store after) :
    Sits view direction after seat walk := by
  cases sits with
  | unheld => exact .unheld
  | held cursor => exact .held (meanwhile.get?_cursors cursor)

/-- **A step or reading of its own leaves a walk on an apt seat within its index.** -/
theorem Tracks.own (tracks : Tracks view store walk) (tread : Tread ρ β) :
    Tracks view (ends (tread.perform Store.native) walk store).2
      (ends (tread.perform Store.native) walk store).1.2 := by
  obtain ⟨direction, seat, sits, apt, within⟩ := tracks
  rcases tread.foretold_or_full sits with ⟨walk', after, ended, sits', _⟩ | ⟨rfl, fault, ended⟩
  · rw [ended]
    exact ⟨direction, _, sits', tread.apt_foresee apt, tread.within_foresee within⟩
  · rw [ended]
    exact ⟨direction, none, sits, apt, within⟩

/-- **Every walk that can be met stands on an apt seat within its index.** The induction is on what
    has happened since it was made. -/
theorem Lives.tracks (lives : Lives view store walk) : Tracks view store walk := by
  induction lives with
  | @made start before _ _ made =>
    exact ⟨_, _, (start.foretold_of_ok made).1, start.apt_foresee view before, start.within_foresee⟩
  | own tread _ ih => exact ih.own tread
  | meanwhile _ meanwhile ih =>
    obtain ⟨direction, seat, sits, seated⟩ := ih
    exact ⟨direction, seat, sits.meanwhile meanwhile, seated⟩

/-! ## 5. What is read -/

/-- What is read through a walk: the entry at its position as it is stored at the moment, or a
    misuse. -/
structure Fresh (view : View ρ) (store : Store) (walk : Walk ρ) : Prop where
  /-- A walk remembers its end exactly if it has no cursor or its cursor is at the end. -/
  ended_iff : walk.standing = .ended ↔ walk.held? = none ∨ ∃ id cursor,
    walk.held? = some id ∧ store.cursors.get? id = some cursor ∧ cursor.position = .ended
  key_ok : ∀ key, (outcome (walk.key Store.native) store).1 = .ok key →
    walk.place store = .onKey key ∧ (store.find? view.table.scope key).isSome
  value_ok : ∀ record, (outcome (walk.value Store.native) store).1 = .ok record →
    ∃ key entry, walk.place store = .onKey key ∧ store.find? view.table.scope key = some entry
      ∧ view.resolved store entry.value = .ok record
  at_end : walk.place store = .ended →
    outcome (walk.key Store.native) store = (.error (.misuse .readAtEnd), store)
      ∧ outcome (walk.value Store.native) store = (.error (.misuse .readAtEnd), store)
  on_missing : ∀ key, walk.place store = .onKey key → store.find? view.table.scope key = none →
    outcome (walk.key Store.native) store = (.error (.misuse .readErased), store)
      ∧ outcome (walk.value Store.native) store = (.error (.misuse .readErased), store)
  /-- An entry that is stored is read, unless the walk remembers that it was erased: then it is
      not taken for the one that was there. -/
  on_stored : ∀ key entry, walk.place store = .onKey key →
    store.find? view.table.scope key = some entry →
    (walk.standing = .live ∧ outcome (walk.key Store.native) store = (.ok key, store)
      ∧ outcome (walk.value Store.native) store = (view.resolved store entry.value, store)) ∨
    (walk.standing = .erased
      ∧ outcome (walk.key Store.native) store = (.error (.misuse .readErased), store)
      ∧ outcome (walk.value Store.native) store = (.error (.misuse .readErased), store))
  /-- The key without the stem is that of the key. -/
  behind_stem : outcome (walk.keyBehindStem Store.native) store
    = ((outcome (walk.key Store.native) store).1.map (·.drop view.placement.stem.length), store)

/-- What holds of a walk right after a step: it remembers an entry exactly if there is one, and can
    read its key exactly then. -/
structure Settled (view : View ρ) (store : Store) (walk : Walk ρ) : Prop where
  live_iff : walk.standing = .live ↔ ∃ key, walk.place store = .onKey key
    ∧ (store.find? view.table.scope key).isSome
  key_iff : (outcome (walk.key Store.native) store).1.isOk ↔ walk.standing = .live

/-- What is refused at the end, and on a key without an entry, succeeds on an entry alone. -/
theorem exists_stored_of_ok {γ : Type} {action : Action Store γ} {answer : γ}
    (at_end : walk.place store = .ended →
      outcome action store = (.error (.misuse .readAtEnd), store))
    (on_missing : ∀ key, walk.place store = .onKey key → store.find? view.table.scope key = none →
      outcome action store = (.error (.misuse .readErased), store))
    (read : (outcome action store).1 = .ok answer) :
    ∃ key entry, walk.place store = .onKey key
      ∧ store.find? view.table.scope key = some entry := by
  cases place : walk.place store with
  | ended =>
    rw [at_end place] at read
    exact nomatch read
  | onKey key =>
    cases found : store.find? view.table.scope key with
    | none =>
      rw [on_missing key place found] at read
      exact nomatch read
    | some entry => exact ⟨key, entry, rfl, found⟩

section Seats

variable {direction : Direction} {seat : Option Seat}

theorem Sits.place_eq (sits : Sits view direction store seat walk) :
    walk.place store = (seat.map (·.position)).getD .ended := by
  cases sits with
  | unheld => rfl
  | held cursor => exact congrArg (fun found => (Option.map (·.position) found).getD .ended) cursor

theorem Sits.standing_eq (sits : Sits view direction store seat walk) :
    walk.standing = (seat.map (·.standing)).getD .ended := by
  cases sits <;> rfl

section Apt

variable (sits : Sits view direction store seat walk) (apt : ∀ here ∈ seat, here.Apt)
include sits apt

/-- At its end a walk reads nothing. -/
theorem Sits.at_end (ended : walk.place store = .ended) :
    outcome (walk.key Store.native) store = (.error (.misuse .readAtEnd), store)
      ∧ outcome (walk.value Store.native) store = (.error (.misuse .readAtEnd), store) := by
  rw [sits.place_eq] at ended
  rw [Tread.outcome_key sits, Tread.outcome_value sits, View.readFrom_at_end apt _ ended,
    View.readFrom_at_end apt _ ended]
  exact ⟨rfl, rfl⟩

/-- On a key without an entry a walk reads nothing. -/
theorem Sits.on_missing {key : Bytes} (on : walk.place store = .onKey key)
    (missing : store.find? view.table.scope key = none) :
    outcome (walk.key Store.native) store = (.error (.misuse .readErased), store)
      ∧ outcome (walk.value Store.native) store = (.error (.misuse .readErased), store) := by
  rw [sits.place_eq] at on
  rw [Tread.outcome_key sits, Tread.outcome_value sits, View.readFrom_on_missing apt _ on missing,
    View.readFrom_on_missing apt _ on missing]
  exact ⟨rfl, rfl⟩

/-- On a key with an entry a walk reads this entry, or remembers one that was erased. -/
theorem Sits.on_stored {key : Bytes} {entry : Entry} (on : walk.place store = .onKey key)
    (stored : store.find? view.table.scope key = some entry) :
    (walk.standing = .live ∧ outcome (walk.key Store.native) store = (.ok key, store)
      ∧ outcome (walk.value Store.native) store = (view.resolved store entry.value, store)) ∨
    (walk.standing = .erased
      ∧ outcome (walk.key Store.native) store = (.error (.misuse .readErased), store)
      ∧ outcome (walk.value Store.native) store = (.error (.misuse .readErased), store)) := by
  rw [sits.place_eq] at on
  rw [Tread.outcome_key sits, Tread.outcome_value sits, sits.standing_eq]
  rcases View.readFrom_on_stored apt (·.1) on stored with ⟨live, read⟩ | ⟨erased, read⟩ <;>
    rcases View.readFrom_on_stored apt (·.2.value) on stored with
      ⟨live', read'⟩ | ⟨erased', read'⟩
  · rw [read, read']
    exact .inl ⟨live, rfl, rfl⟩
  · exact nomatch live.symm.trans erased'
  · exact nomatch erased.symm.trans live'
  · rw [read, read']
    exact .inr ⟨erased, rfl, rfl⟩

/-- A walk remembers its end exactly if its cursor is there, or if it has none. -/
theorem Sits.ended_iff : walk.standing = .ended ↔ walk.held? = none ∨ ∃ id cursor,
    walk.held? = some id ∧ store.cursors.get? id = some cursor ∧ cursor.position = .ended := by
  cases sits with
  | unheld => exact ⟨fun _ => .inl rfl, fun _ => rfl⟩
  | @held id seat cursor =>
    refine (apt seat rfl).trans ⟨fun ended => .inr ⟨id, _, rfl, cursor, ended⟩, ?_⟩
    rintro (unheld | ⟨_, found, same, isOpen, ended⟩)
    · exact nomatch unheld
    · cases same
      cases cursor.symm.trans isOpen
      exact ended

/-- A key that is read is where the walk is, and stored. -/
theorem Sits.key_ok {key : Bytes} (read : (outcome (walk.key Store.native) store).1 = .ok key) :
    walk.place store = .onKey key ∧ (store.find? view.table.scope key).isSome := by
  obtain ⟨own, entry, on, stored⟩ := exists_stored_of_ok (fun ended => (sits.at_end apt ended).1)
    (fun _ on missing => (sits.on_missing apt on missing).1) read
  rcases sits.on_stored apt on stored with ⟨_, read', _⟩ | ⟨_, read', _⟩
  · rw [read'] at read
    cases read
    exact ⟨on, Option.isSome_iff_exists.mpr ⟨entry, stored⟩⟩
  · rw [read'] at read
    exact nomatch read

/-- **On an apt seat within the index nothing stale is read.** -/
theorem Sits.fresh (within : ∀ here ∈ seat, here.Within view) : Fresh view store walk where
  ended_iff := sits.ended_iff apt
  key_ok _ := sits.key_ok apt
  value_ok record read := by
    obtain ⟨key, entry, on, stored⟩ := exists_stored_of_ok (fun ended => (sits.at_end apt ended).2)
      (fun _ on missing => (sits.on_missing apt on missing).2) read
    rcases sits.on_stored apt on stored with ⟨_, _, read'⟩ | ⟨_, _, read'⟩
    · rw [read'] at read
      exact ⟨key, entry, on, stored, read⟩
    · rw [read'] at read
      exact nomatch read
  at_end := sits.at_end apt
  on_missing _ := sits.on_missing apt
  on_stored _ _ := sits.on_stored apt
  behind_stem := by
    rw [Tread.outcome_key sits, Tread.outcome_keyBehindStem sits, View.behindStem_readFrom within]

end Apt

/-- **Within its index a walk reads behind the stem whatever it reads the key of**: the check of the
    stem never fails. -/
theorem Sits.misuse_behindStem (sits : Sits view direction store seat walk)
    (within : ∀ here ∈ seat, here.Within view) {fault : Fault}
    (failed : (outcome (walk.keyBehindStem Store.native) store).1 = .error fault) :
    ∃ cause, fault = .misuse cause := by
  rw [Tread.outcome_keyBehindStem sits, View.behindStem_readFrom within] at failed
  cases read : view.readFrom store (·.1) seat with
  | ok key =>
    rw [read] at failed
    exact nomatch failed
  | error other =>
    rw [read] at failed
    cases failed
    exact View.misuse_of_readFrom read

/-- Where a walk remembers the standing of the moment, that tells what it can read. -/
theorem Sits.settled (sits : Sits view direction store seat walk)
    (current : ∀ here ∈ seat, here.standing = store.standingOf (view.cursorAt here.position)) :
    Settled view store walk := by
  have apt : ∀ here ∈ seat, here.Apt := by
    intro here mem
    unfold Seat.Apt
    rw [current here mem]
    exact Store.standingOf_eq_iff
  have live_iff : walk.standing = .live ↔ ∃ key, walk.place store = .onKey key
      ∧ (store.find? view.table.scope key).isSome := by
    rw [sits.standing_eq, sits.place_eq]
    cases seat with
    | none => exact ⟨nofun, fun ⟨_, on, _⟩ => nomatch on⟩
    | some seat =>
      show seat.standing = .live ↔ _
      rw [current seat rfl]
      exact Store.standingOf_eq_iff
  refine ⟨live_iff, fun read => ?_, fun live => ?_⟩
  · cases told : (outcome (walk.key Store.native) store).1 with
    | error fault =>
      rw [told] at read
      exact nomatch read
    | ok key => exact live_iff.mpr ⟨key, sits.key_ok apt told⟩
  · obtain ⟨key, on, isStored⟩ := live_iff.mp live
    obtain ⟨entry, stored⟩ := Option.isSome_iff_exists.mp isStored
    rcases sits.on_stored apt on stored with ⟨_, read, _⟩ | ⟨erased, _⟩
    · rw [read]
      rfl
    · exact nomatch live.symm.trans erased

end Seats

/-- **No walk that can be met is outside its index**: a key that it reads is one of the index's. -/
theorem Lives.contains_key (lives : Lives view store walk) {key : Bytes}
    (read : (outcome (walk.key Store.native) store).1 = .ok key) : view.placement.contains key := by
  obtain ⟨_, _, sits, _, within⟩ := lives.tracks
  rw [Tread.outcome_key sits] at read
  exact View.contains_of_readFrom within read

/-- So what such a walk reads behind the stem fails by a misuse alone. -/
theorem Lives.misuse_behindStem (lives : Lives view store walk) {fault : Fault}
    (failed : (outcome (walk.keyBehindStem Store.native) store).1 = .error fault) :
    ∃ cause, fault = .misuse cause := by
  obtain ⟨_, _, sits, _, within⟩ := lives.tracks
  exact sits.misuse_behindStem within failed

/-! ## 6. The result -/

/-- **Reading through a walk is never stale.** Take any walk over an index, forward or reverse,
    however it was made and led, in any mix with calls, writes to tables and units of work. Its key
    and its record are read only if the entry at its position is stored at that moment, and they are
    those of this entry, the record by the pointer of the moment; at an entry that is not stored,
    and at the end, a misuse says so. What the walk remembers is its end exactly if it has no cursor
    or its cursor is at the end. Right after a step it remembers an entry exactly if one is stored
    there, and reads its key exactly then. Nothing else that happens to the store moves it. -/
theorem never_stale (lives : Lives view store walk) :
    Fresh view store walk ∧
    (∀ {γ : Type} (tread : Tread ρ γ), tread.Settles →
      Settled view (ends (tread.perform Store.native) walk store).2
        (ends (tread.perform Store.native) walk store).1.2) ∧
    (∀ after, Meanwhile walk.held? store after → walk.place after = walk.place store) ∧
    (Fault.misuse .readAtEnd).message = "cannot read end iterator" ∧
    (Fault.misuse .readErased).message = "iterator points to an erased entry" := by
  obtain ⟨direction, seat, sits, apt, within⟩ := lives.tracks
  refine ⟨sits.fresh apt within, fun tread settles => ?_, fun after meanwhile => ?_, rfl, rfl⟩
  · rcases tread.foretold_or_full sits with ⟨walk', after, ended, sits', strolled⟩ | ⟨rfl, _, ended⟩
    · rw [ended]
      refine sits'.settled fun here mem => ?_
      have current := Tread.current_foresee settles apt here mem
      have same : view.seatAt after = view.seatAt store :=
        View.seatAt_congr strolled.sparing.shelves
      exact current.trans (congrArg Seat.standing (congrFun same here.position)).symm
    · rw [ended]
      exact sits.settled nofun
  · rw [sits.place_eq, (sits.meanwhile meanwhile).place_eq]

/-- A walk that has been made lives. -/
theorem Lives.of_made (start : Start) {ended : Except Fault (Walk ρ) × Store}
    (made : outcome (start.perform Store.native view) store = ended)
    (there : ended.1.toOption = some walk) : ended.1 = .ok walk ∧ Lives view ended.2 walk :=
  ⟨ok_of_toOption there, .made (outcome_of_toOption made there)⟩

/-- A walk at the first of three notes, by their lengths, and the store with it. -/
def atFirstNote : Except Fault (Walk Bytes) × Store :=
  outcome (Start.first.perform Store.native View.byLengthAndText) View.threeNotes.1

/-- The store after the note has gone, and after it has come back. -/
def withoutNote : Store :=
  (outcome ((TableWrite.erase [1]).perform Store.native View.listingTable) atFirstNote.2).2

def withNoteAgain : Store :=
  (outcome ((TableWrite.put [1]).perform Store.native View.listingTable) withoutNote).2

/-- A note that is erased under a walk cannot be read, and the one that comes back can. -/
theorem never_stale_notes : ∃ walk, atFirstNote.1 = .ok walk ∧
    outcome (walk.value Store.native) withoutNote
      = (.error (.misuse .readErased), withoutNote) ∧
    outcome (walk.key Store.native) withNoteAgain
      = (.ok (View.byLengthAndText.index.fullKey [1]), withNoteAgain) := by
  have known : atFirstNote.1.toOption.map (fun walk =>
      (walk.standing, walk.place withoutNote, walk.place withNoteAgain))
        = some (.live, .onKey (View.byLengthAndText.index.fullKey [1]),
            .onKey (View.byLengthAndText.index.fullKey [1])) := by decide +kernel
  have missing : withoutNote.find? View.byLengthAndText.table.scope
      (View.byLengthAndText.index.fullKey [1]) = none := by decide +kernel
  have isStored : (withNoteAgain.find? View.byLengthAndText.table.scope
      (View.byLengthAndText.index.fullKey [1])).isSome := by decide +kernel
  obtain ⟨walk, some, told⟩ := Option.map_eq_some_iff.mp known
  obtain ⟨standing, places⟩ := Prod.mk.inj told
  obtain ⟨place, place'⟩ := Prod.mk.inj places
  have start : outcome (Start.first.perform Store.native View.byLengthAndText)
      View.threeNotes.1 = atFirstNote := rfl
  obtain ⟨begun, lives⟩ := Lives.of_made .first start some
  have lives' : Lives View.byLengthAndText withoutNote walk :=
    lives.meanwhile (.write View.listingTable (.erase [1]))
  have lives'' : Lives View.byLengthAndText withNoteAgain walk :=
    lives'.meanwhile (.write View.listingTable (.put [1]))
  obtain ⟨entry, stored⟩ := Option.isSome_iff_exists.mp isStored
  refine ⟨walk, begun, ((never_stale lives').1.on_missing _ place missing).2, ?_⟩
  rcases (never_stale lives'').1.on_stored _ entry place' stored with ⟨_, read, _⟩ | ⟨erased, _⟩
  · exact read
  · exact nomatch standing.symm.trans erased

end Walk

end IndexedStore
