import IndexedStore.Proofs.Store.Estates
import IndexedStore.Proofs.Store.Twins
/-!
# Cursors of reachable stores

Whatever is done with a store, every cursor is at the end or on a key with its stem: it is opened at
the end, each move leads to such a position, and writes and units of work move no cursor. On such a
position the searches of a move are exact: they lead to the next or the previous key with the stem,
stored at that moment, whether or not the key that the cursor stands on still is.

* `Store.Reachable` are the stores that calls and units of work lead to, in any order;
* `Store.Steady` is the invariant, `Store.Reachable.steady` that all of them have it;
* `Store.Steers` says all that a cursor does and reports, **`Store.Reachable.steers`** that every
  cursor of a reachable store does so.
-/

namespace IndexedStore

open IndexedStore.Action

/-! ## 1. The invariant -/

namespace Store

/-- The stores with given settings that calls and units of work lead to. -/
inductive Reachable (settings : Settings) : Store → Prop where
  | fresh : Reachable settings (.fresh settings)
  | call {β : Type} {store : Store} (issued : Issued β) :
    Reachable settings store → Reachable settings (outcome issued.perform store).2
  | beginUnit {store : Store} :
    Reachable settings store → Reachable settings (outcome beginUnit store).2
  | commitUnit {store : Store} :
    Reachable settings store → Reachable settings (commitUnit store).2
  | rollbackUnit {store : Store} :
    Reachable settings store → Reachable settings (rollbackUnit store).2

/-- Whether every open cursor is at the end or on a key with its stem. -/
def Stemmed (store : Store) : Prop :=
  ∀ id cursor, store.cursors.get? id = some cursor → cursor.position.Within cursor.stem

/-- What holds of a store at all times. -/
structure Steady (store : Store) : Prop where
  sized : store.Sized
  stemmed : store.Stemmed

variable {store : Store}

theorem Stemmed.of_cursors (h : store.Stemmed) {other : Store}
    (same : other.cursors = store.cursors) : other.Stemmed := by
  unfold Stemmed
  rw [same]
  exact h

theorem Stemmed.insert (h : store.Stemmed) {id : CursorId} {cursor : Cursor}
    (within : cursor.position.Within cursor.stem) {other : Store}
    (changed : other.cursors = store.cursors.insert id cursor) : other.Stemmed := by
  intro id' cursor' isOpen
  rw [changed, OrdMap.get?_insert] at isOpen
  split at isOpen
  · cases isOpen
    exact within
  · exact h id' cursor' isOpen

theorem Stemmed.closeCursor (h : store.Stemmed) (id : CursorId) :
    (outcome (Store.closeCursor id) store).2.Stemmed := by
  rw [outcome_closeCursor]
  cases store.cursors.get? id with
  | none => exact h
  | some _ =>
    intro id' cursor' isOpen
    exact h id' cursor' (OrdMap.get?_erase_eq_some_iff.mp isOpen).2

theorem Stemmed.openCursor (h : store.Stemmed) (scope : Name) (stem : Bytes) :
    (outcome (Store.openCursor scope stem) store).2.Stemmed := by
  rw [outcome_openCursor]
  split
  · exact h
  · exact h.insert (Position.within_ended stem) rfl

/-- A move keeps all cursors within their stems if it leads the moved one to such a position. -/
theorem Stemmed.moveCursor (h : store.Stemmed) (id : CursorId)
    {target : Store → Cursor → Position}
    (within : ∀ cursor : Cursor, cursor.position.Within cursor.stem →
      (target store cursor).Within cursor.stem) :
    (outcome (Store.moveCursor id target) store).2.Stemmed := by
  rw [outcome_moveCursor]
  cases isOpen : store.cursors.get? id with
  | none => exact h
  | some cursor => exact h.insert (within cursor (h id cursor isOpen)) rfl

end Store

/-- **No call leads a cursor away from its stem.** -/
theorem Issued.stemmed_perform {β : Type} (issued : Issued β) {store : Store}
    (h : store.Stemmed) : (outcome issued.perform store).2.Stemmed := by
  have looking : issued.call.Looks → (outcome issued.perform store).2.Stemmed := by
    intro looks
    obtain ⟨staged, same⟩ := issued.staging looks store
    exact h.of_cursors (by rw [same])
  obtain ⟨access, call⟩ := issued
  cases call with
  | write scope key value payer =>
    cases access <;> exact h.of_cursors (Store.cursors_write scope key value payer store)
  | erase scope key => cases access <;> exact h.of_cursors (Store.cursors_erase scope key store)
  | openCursor scope stem => cases access <;> exact h.openCursor scope stem
  | closeCursor id => cases access <;> exact h.closeCursor id
  | nextKey id =>
    cases access <;> exact h.moveCursor id fun _ within => Store.within_after within
  | previousKey id =>
    cases access <;> exact h.moveCursor id fun _ within => Store.within_before within
  | seekKey id key =>
    cases access <;>
      exact h.moveCursor id fun cursor _ =>
        (Store.least_firstFrom store cursor.scope cursor.stem key).within
  | seekEnd id =>
    cases access <;> exact h.moveCursor id fun cursor _ => Position.within_ended cursor.stem
  | _ => exact looking rfl

namespace Store

theorem steady_fresh (settings : Settings) : (Store.fresh settings).Steady where
  sized := .fresh settings
  stemmed _ _ isOpen := by cases isOpen

/-- Taking changes back moves no cursor. -/
theorem cursors_rollbackUnit (store : Store) : (rollbackUnit store).2.cursors = store.cursors :=
  cursors_undo _ _

theorem cursors_beginUnit (store : Store) :
    (outcome beginUnit store).2.cursors = store.cursors := by
  unfold beginUnit
  rw [outcome_get_bind]
  cases store.log <;> rfl

theorem Reachable.steady {settings : Settings} {store : Store} (reachable : Reachable settings store) :
    store.Steady := by
  induction reachable with
  | fresh => exact steady_fresh settings
  | call issued _ ih => exact ⟨issued.sized_perform ih.sized, issued.stemmed_perform ih.stemmed⟩
  | @beginUnit store _ ih =>
    refine ⟨?_, ih.stemmed.of_cursors (cursors_beginUnit store)⟩
    unfold Store.beginUnit
    rw [outcome_get_bind]
    cases isOpen : store.log with
    | none => exact ⟨ih.sized.entries, fun _ mem => absurd mem List.not_mem_nil⟩
    | some log => exact ih.sized
  | @commitUnit store _ ih =>
    refine ⟨⟨ih.sized.entries, fun _ mem => absurd mem List.not_mem_nil⟩, ?_⟩
    exact ih.stemmed.of_cursors rfl
  | @rollbackUnit store _ ih =>
    have closed : Sized { store with log := none } :=
      ⟨ih.sized.entries, fun _ mem => absurd mem List.not_mem_nil⟩
    exact ⟨closed.undo ih.sized.log, ih.stemmed.of_cursors (cursors_rollbackUnit store)⟩

/-! ## 2. What a cursor does and reports -/

/-- Whether a standing is what a cursor's position and the stored keys make it. -/
def Stands (store : Store) (cursor : Cursor) : Standing → Prop
  | .live => ∃ key, cursor.position = .onKey key ∧ (store.find? cursor.scope key).isSome
  | .erased => ∃ key, cursor.position = .onKey key ∧ store.find? cursor.scope key = none
  | .ended => cursor.position = .ended

/-- How a call ends that moves the cursor `id` to a position: it tells the standing there, and apart
    from this cursor nothing changes. -/
structure MovesTo (store : Store) (id : CursorId) (cursor : Cursor) (position : Position)
    (ended : Except Fault Standing × Store) : Prop where
  answer : ∀ standing, ended.1 = .ok standing ↔ store.Stands { cursor with position } standing
  moved : ended.2.cursors.get? id = some { cursor with position }
  others : ∀ other, other ≠ id → ended.2.cursors.get? other = store.cursors.get? other
  rest : ∃ cursors, ended.2 = { store with cursors }

/-- All that the open cursor `id` of a store does and reports. -/
structure Steers (store : Store) (access : Access) (id : CursorId) (cursor : Cursor) : Prop where
  /-- From a key, stored or not, the next key is the least one above it. -/
  next_of_key : ∀ key, cursor.position = .onKey key → ∃ position,
    store.Least cursor.scope cursor.stem (fun other => key < other) position
      ∧ store.MovesTo id cursor position (outcome (access.backend.nextKey id) store)
  next_of_end : cursor.position = .ended → ∃ position,
    store.Least cursor.scope cursor.stem (fun _ => True) position
      ∧ store.MovesTo id cursor position (outcome (access.backend.nextKey id) store)
  previous_of_key : ∀ key, cursor.position = .onKey key → ∃ position,
    store.Greatest cursor.scope cursor.stem (fun other => other < key) position
      ∧ store.MovesTo id cursor position (outcome (access.backend.previousKey id) store)
  previous_of_end : cursor.position = .ended → ∃ position,
    store.Greatest cursor.scope cursor.stem (fun _ => True) position
      ∧ store.MovesTo id cursor position (outcome (access.backend.previousKey id) store)
  /-- Any key can be sought, below, inside or above the keys with the stem. -/
  seek : ∀ key, ∃ position,
    store.Least cursor.scope cursor.stem (fun other => ¬ other < key) position
      ∧ store.MovesTo id cursor position (outcome (access.backend.seekKey id key) store)
  /-- A cursor stays where it is while it is not moved itself: through every other call, and where a
      unit of work begins, ends or is taken back. -/
  stays : ∀ {β : Type} (issued : Issued β), issued.call.moved? ≠ some id →
    (outcome issued.perform store).2.cursors.get? id = some cursor
  stays_in_units : (outcome beginUnit store).2.cursors = store.cursors
    ∧ (commitUnit store).2.cursors = store.cursors
    ∧ (rollbackUnit store).2.cursors = store.cursors
  standing : ∃ standing, outcome (access.backend.cursorStanding id) store = (.ok standing, store)
    ∧ ∀ other, standing = other ↔ store.Stands cursor other
  /-- The key and the value are told in whole, as they are stored at the moment, just if the cursor
      is on a stored key. -/
  key : ∃ told, outcome (access.backend.currentKey id) store = (.ok told, store)
    ∧ ∀ key, told = some key ↔ ∃ entry,
      cursor.position = .onKey key ∧ store.find? cursor.scope key = some entry
  value : ∃ told, outcome (access.backend.currentValue id) store = (.ok told, store)
    ∧ ∀ value, told = some value ↔ ∃ key entry,
      cursor.position = .onKey key ∧ store.find? cursor.scope key = some entry
        ∧ entry.value = value
  /-- So are their sizes and any part of them; else the buffer stays as it is. -/
  copies : ∀ offset buffer,
    (∀ key entry, cursor.position = .onKey key → store.find? cursor.scope key = some entry →
      outcome (access.backend.copyKey id offset buffer) store
          = (.ok (.live, key.length, (Bytes.copyInto key offset buffer).2), store)
        ∧ outcome (access.backend.copyValue id offset buffer) store
          = (.ok (.live, entry.value.length, (Bytes.copyInto entry.value offset buffer).2), store))
    ∧ (¬ store.Stands cursor .live → ∃ standing, standing ≠ .live ∧ store.Stands cursor standing
      ∧ outcome (access.backend.copyKey id offset buffer) store
          = (.ok (standing, 0, buffer), store)
      ∧ outcome (access.backend.copyValue id offset buffer) store
          = (.ok (standing, 0, buffer), store))

section Steering

variable {id : CursorId} {cursor : Cursor} {position : Position}

theorem standingOf_eq_iff {store : Store} {cursor : Cursor} {standing : Standing} :
    store.standingOf cursor = standing ↔ store.Stands cursor standing := by
  unfold standingOf
  cases place : cursor.position with
  | ended => cases standing <;> simp [Stands, place]
  | onKey key =>
    cases stored : store.find? cursor.scope key <;> cases standing <;> simp [Stands, place, stored]

theorem after_of_key {store : Store} {key : Bytes} (place : cursor.position = .onKey key) :
    store.after cursor = store.firstAfter cursor.scope cursor.stem key := by
  unfold after
  rw [place]

theorem after_of_end {store : Store} (place : cursor.position = .ended) :
    store.after cursor = store.firstFrom cursor.scope cursor.stem cursor.stem := by
  unfold after
  rw [place]

theorem before_of_key {store : Store} {key : Bytes} (place : cursor.position = .onKey key) :
    store.before cursor = store.lastBefore cursor.scope cursor.stem key := by
  unfold before
  rw [place]

theorem before_of_end {store : Store} (place : cursor.position = .ended) :
    store.before cursor = store.lastOf cursor.scope cursor.stem := by
  unfold before
  rw [place]

theorem least_after_of_key {store : Store} {key : Bytes} (place : cursor.position = .onKey key)
    (begins : Bytes.startsWith key cursor.stem) :
    store.Least cursor.scope cursor.stem (fun other => key < other) (store.after cursor) := by
  rw [after_of_key place]
  exact least_firstAfter store cursor.scope begins

theorem least_after_of_end {store : Store} (place : cursor.position = .ended) :
    store.Least cursor.scope cursor.stem (fun _ => True) (store.after cursor) := by
  rw [after_of_end place]
  exact (least_firstFrom store cursor.scope cursor.stem cursor.stem).congr
    fun _ begins _ => iff_true_intro (Bytes.not_lt_stem begins)

theorem greatest_before_of_key {store : Store} {key : Bytes} (place : cursor.position = .onKey key)
    (begins : Bytes.startsWith key cursor.stem) :
    store.Greatest cursor.scope cursor.stem (fun other => other < key) (store.before cursor) := by
  rw [before_of_key place]
  exact greatest_lastBefore store cursor.scope begins

theorem greatest_before_of_end {store : Store} (place : cursor.position = .ended) :
    store.Greatest cursor.scope cursor.stem (fun _ => True) (store.before cursor) := by
  rw [before_of_end place]
  exact greatest_lastOf store cursor.scope cursor.stem

theorem movesTo_moveCursor {store : Store} (isOpen : store.cursors.get? id = some cursor)
    (target : Store → Cursor → Position) :
    store.MovesTo id cursor (target store cursor) (outcome (moveCursor id target) store) := by
  rw [outcome_moveCursor, isOpen]
  refine ⟨fun standing => ?_, OrdMap.get?_insert_self .., fun other apart => ?_, _, rfl⟩
  · rw [← standingOf_eq_iff]
    exact ⟨fun same => Except.ok.inj same, fun same => congrArg Except.ok same⟩
  · exact OrdMap.get?_insert_of_ne _ apart _

/-- Where sizes are told in full, asking for the size first reads the whole. -/
theorem outcome_whole_of_told {store : Store} (sized : store.Sized)
    (isOpen : store.cursors.get? id = some cursor) {part : Bytes × Entry → Bytes}
    (told : ∀ found, Told found.1 found.2 → (part found).length < UInt32.size) :
    outcome (Primitives.whole fun offset buffer => copyCurrent id part offset buffer) store
      = (.ok ((store.entryAt? cursor).map part), store) := by
  rw [outcome_whole, isOpen]
  refine Prod.ext (congrArg Except.ok (Option.map_congr fun found here => ?_)) rfl
  exact take_told (told found (sized.entryAt? here))

/-- The key under a cursor is read alike by either access. -/
theorem outcome_accessKey {store : Store} (sized : store.Sized) (access : Access)
    (isOpen : store.cursors.get? id = some cursor) :
    outcome (access.backend.currentKey id) store
      = (.ok ((store.entryAt? cursor).map (·.1)), store) := by
  cases access with
  | native =>
    show outcome (currentKey id) store = _
    rw [outcome_currentKey, isOpen]
  | relayed => exact outcome_whole_of_told sized isOpen fun _ told => told.key

/-- So is the value. -/
theorem outcome_accessValue {store : Store} (sized : store.Sized) (access : Access)
    (isOpen : store.cursors.get? id = some cursor) :
    outcome (access.backend.currentValue id) store
      = (.ok ((store.entryAt? cursor).map (·.2.value)), store) := by
  cases access with
  | native =>
    show outcome (currentValue id) store = _
    rw [outcome_currentValue, isOpen]
  | relayed => exact outcome_whole_of_told sized isOpen fun _ told => told.value

theorem entryAt?_eq_none {store : Store} {cursor : Cursor}
    (notLive : ¬ store.Stands cursor .live) : store.entryAt? cursor = none := by
  refine Option.eq_none_iff_forall_ne_some.mpr fun (key, entry) here => notLive ?_
  obtain ⟨place, stored⟩ := entryAt?_eq_some.mp here
  exact ⟨key, place, Option.isSome_iff_exists.mpr ⟨entry, stored⟩⟩

/-- Where a cursor is not on a stored key, copies answer its standing and copy nothing. -/
theorem outcome_copyCurrent_of_none {store : Store} (isOpen : store.cursors.get? id = some cursor)
    (gone : store.entryAt? cursor = none) (part : Bytes × Entry → Bytes) (offset : Nat)
    (buffer : Bytes) : outcome (copyCurrent id part offset buffer) store
      = (.ok (store.standingOf cursor, 0, buffer), store) := by
  rw [outcome_copyCurrent, isOpen]
  dsimp only
  rw [gone]

theorem outcome_copyCurrent_of_some {store : Store} (isOpen : store.cursors.get? id = some cursor)
    {found : Bytes × Entry} (here : store.entryAt? cursor = some found)
    {part : Bytes × Entry → Bytes} (told : (part found).length < UInt32.size) (offset : Nat)
    (buffer : Bytes) : outcome (copyCurrent id part offset buffer) store
      = (.ok (.live, (part found).length, (Bytes.copyInto (part found) offset buffer).2), store) := by
  rw [outcome_copyCurrent, isOpen]
  dsimp only
  rw [here]
  dsimp only
  rw [Bytes.told_of_lt told]

/-- **Every cursor of a reachable store walks the keys with its stem**, in order and under any
    writes. -/
theorem Reachable.steers {settings : Settings} {store : Store}
    (reachable : Store.Reachable settings store) (isOpen : store.cursors.get? id = some cursor)
    (access : Access) : store.Steers access id cursor := by
  have steady := reachable.steady
  have within := steady.stemmed id cursor isOpen
  have moves := movesTo_moveCursor isOpen
  have next : store.MovesTo id cursor (store.after cursor)
      (outcome (access.backend.nextKey id) store) := by cases access <;> exact moves after
  have previous : store.MovesTo id cursor (store.before cursor)
      (outcome (access.backend.previousKey id) store) := by cases access <;> exact moves before
  constructor
  case next_of_key => exact fun key place => ⟨_, least_after_of_key place (within key place), next⟩
  case next_of_end => exact fun place => ⟨_, least_after_of_end place, next⟩
  case previous_of_key =>
    exact fun key place => ⟨_, greatest_before_of_key place (within key place), previous⟩
  case previous_of_end => exact fun place => ⟨_, greatest_before_of_end place, previous⟩
  case seek =>
    intro key
    refine ⟨_, least_firstFrom store cursor.scope cursor.stem key, ?_⟩
    cases access <;> exact moves fun store cursor => store.firstFrom cursor.scope cursor.stem key
  case stays => exact fun issued apart => issued.get?_cursors apart isOpen
  case stays_in_units => exact ⟨cursors_beginUnit store, rfl, cursors_rollbackUnit store⟩
  case standing =>
    refine ⟨store.standingOf cursor, ?_, fun other => standingOf_eq_iff⟩
    have told : outcome (cursorStanding id) store = (.ok (store.standingOf cursor), store) := by
      rw [outcome_cursorStanding, isOpen]
    cases access <;> exact told
  case key =>
    refine ⟨_, outcome_accessKey steady.sized access isOpen, fun key => ?_⟩
    rw [Option.map_eq_some_iff]
    constructor
    · rintro ⟨⟨_, entry⟩, here, rfl⟩
      exact ⟨entry, entryAt?_eq_some.mp here⟩
    · rintro ⟨entry, here⟩
      exact ⟨(key, entry), entryAt?_eq_some.mpr here, rfl⟩
  case value =>
    refine ⟨_, outcome_accessValue steady.sized access isOpen, fun value => ?_⟩
    simp only [Option.map_eq_some_iff, Prod.exists, entryAt?_eq_some, and_assoc]
  case copies =>
    intro offset buffer
    constructor
    · intro key entry place stored
      have here := entryAt?_eq_some.mpr ⟨place, stored⟩
      have told := steady.sized.entryAt? here
      constructor
      · cases access <;> exact outcome_copyCurrent_of_some isOpen here told.key offset buffer
      · cases access <;> exact outcome_copyCurrent_of_some isOpen here told.value offset buffer
    · intro notLive
      have gone := entryAt?_eq_none notLive
      refine ⟨store.standingOf cursor, standingOf_ne_live gone, standingOf_eq_iff.mp rfl, ?_, ?_⟩
      · cases access <;> exact outcome_copyCurrent_of_none isOpen gone _ offset buffer
      · cases access <;> exact outcome_copyCurrent_of_none isOpen gone _ offset buffer

end Steering

/-! ## 3. A cursor whose key is gone -/

/-- A stem that has no successor. -/
def topKey : Bytes := [0xff]

/-- A store whose cursor has come to a key that was dropped afterwards. -/
def stranded : Store :=
  let write : Issued Int := ⟨.native, .write .empty topKey [1] .empty⟩
  let openCursor : Issued CursorId := ⟨.native, .openCursor .empty topKey⟩
  let next : Issued Standing := ⟨.native, .nextKey 1⟩
  let erase : Issued Int := ⟨.native, .erase .empty topKey⟩
  (outcome erase.perform (outcome next.perform (outcome openCursor.perform
    (outcome write.perform (.fresh default)).2).2).2).2

theorem steers_stranded :
    Store.Reachable default stranded
      ∧ stranded.cursors.get? 1 = some ⟨.empty, topKey, .onKey topKey⟩
      ∧ stranded.Steers .relayed 1 ⟨.empty, topKey, .onKey topKey⟩ := by
  have reachable : Store.Reachable default stranded :=
    .call _ (.call _ (.call _ (.call _ .fresh)))
  have isOpen : stranded.cursors.get? 1 = some ⟨.empty, topKey, .onKey topKey⟩ := by decide
  exact ⟨reachable, isOpen, reachable.steers isOpen .relayed⟩

end Store

end IndexedStore
