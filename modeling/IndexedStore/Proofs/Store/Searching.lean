import IndexedStore.Proofs.Store.Steering
/-!
# The ranges that cursors search

A shelf refuses a range that stops before it begins, and nothing checks a range before it is asked
for. What rules such ranges out is where cursors stand: on a key with their stem. That key is not
below the stem, so the range from the stem up to it is upright, even where the key IS the stem and
the range is empty.

* `Store.Searches` says how a call searches a range;
* `Store.Ranging` says which range each move of a cursor asks for, and
  **`Store.Reachable.ranges_upright`** that the shelf refuses none to a cursor of a reachable store.
-/

namespace IndexedStore.Store

open IndexedStore.Action

/-- How a call ends that searches a range for the cursor `id`: the range is not inverted, so the
    shelf tells the entries there, and the cursor moves to the one picked, if its key has the stem,
    and else to the end. -/
structure Searches (store : Store) (id : CursorId) (cursor : Cursor) (range : OrdMap.Range Bytes)
    (pick : List (Bytes × Entry) → Option (Bytes × Entry))
    (ended : Except Fault Standing × Store) : Prop where
  upright : ¬ range.Inverted
  moves : ∃ entries, (store.shelf cursor.scope).range? range = some entries
    ∧ store.MovesTo id cursor (within cursor.stem (pick entries)) ended

/-- What the open cursor `id` of a store asks for, by where it stands. -/
structure Ranging (store : Store) (access : Access) (id : CursorId) (cursor : Cursor) : Prop where
  /-- A cursor that is not at the end is on a key with its stem. -/
  stemmed : ∀ key, cursor.position = .onKey key → Bytes.startsWith key cursor.stem
  next_of_end : cursor.position = .ended →
    store.Searches id cursor (rangeFrom cursor.stem cursor.stem) List.head?
      (outcome (access.backend.nextKey id) store)
  next_of_key : ∀ key, cursor.position = .onKey key →
    store.Searches id cursor (rangeAfter key) List.head?
      (outcome (access.backend.nextKey id) store)
  previous_of_end : cursor.position = .ended →
    store.Searches id cursor (rangeOf cursor.stem) List.getLast?
      (outcome (access.backend.previousKey id) store)
  previous_of_key : ∀ key, cursor.position = .onKey key →
    store.Searches id cursor (rangeBefore cursor.stem key) List.getLast?
      (outcome (access.backend.previousKey id) store)
  /-- Any key can be sought; one below the stem is replaced by the stem. -/
  seek : ∀ key,
    store.Searches id cursor (rangeFrom cursor.stem key) List.head?
      (outcome (access.backend.seekKey id key) store)

section Searching

variable {store : Store} {id : CursorId} {cursor : Cursor}

/-- A move whose target is found in an upright range searches that range. -/
theorem searches_moveCursor (isOpen : store.cursors.get? id = some cursor)
    (target : Store → Cursor → Position) {range : OrdMap.Range Bytes}
    {pick : List (Bytes × Entry) → Option (Bytes × Entry)} (upright : ¬ range.Inverted)
    (leads : target store cursor = store.search cursor.scope cursor.stem range pick) :
    store.Searches id cursor range pick (outcome (moveCursor id target) store) := by
  have told := OrdMap.range?_of_not_inverted (store.shelf cursor.scope) upright
  have moved := movesTo_moveCursor isOpen target
  unfold search at leads
  rw [leads, told, Option.bind_some] at moved
  exact ⟨upright, _, told, moved⟩

/-- **No cursor of a reachable store leaves its stem, or asks for a range that is refused.** -/
theorem Reachable.ranges_upright {settings : Settings} (reachable : Store.Reachable settings store)
    (isOpen : store.cursors.get? id = some cursor) (access : Access) :
    store.Ranging access id cursor := by
  have stemmed := reachable.steady.stemmed id cursor isOpen
  have next : ∀ {range : OrdMap.Range Bytes}, ¬ range.Inverted →
      store.after cursor = store.search cursor.scope cursor.stem range List.head? →
      store.Searches id cursor range List.head? (outcome (access.backend.nextKey id) store) := by
    intro range upright leads
    cases access <;> exact searches_moveCursor isOpen after upright leads
  have previous : ∀ {range : OrdMap.Range Bytes}, ¬ range.Inverted →
      store.before cursor = store.search cursor.scope cursor.stem range List.getLast? →
      store.Searches id cursor range List.getLast?
        (outcome (access.backend.previousKey id) store) := by
    intro range upright leads
    cases access <;> exact searches_moveCursor isOpen before upright leads
  constructor
  case stemmed => exact stemmed
  case next_of_end =>
    exact fun place => next (not_inverted_rangeFrom cursor.stem cursor.stem) (after_of_end place)
  case next_of_key =>
    exact fun key place => next (not_inverted_rangeAfter key) (after_of_key place)
  case previous_of_end =>
    exact fun place => previous (not_inverted_rangeOf cursor.stem) (before_of_end place)
  case previous_of_key =>
    exact fun key place =>
      previous (not_inverted_rangeBefore (stemmed key place)) (before_of_key place)
  case seek =>
    intro key
    have searches := searches_moveCursor isOpen
      (fun store cursor => store.firstFrom cursor.scope cursor.stem key)
      (not_inverted_rangeFrom cursor.stem key) rfl
    cases access <;> exact searches

end Searching

/-- Back from a key that is the stem itself, the empty range next to it is asked for. -/
theorem ranges_upright_stranded :
    Store.Reachable default stranded
      ∧ stranded.cursors.get? 1 = some ⟨.empty, topKey, .onKey topKey⟩
      ∧ stranded.Ranging .native 1 ⟨.empty, topKey, .onKey topKey⟩ := by
  have reachable : Store.Reachable default stranded :=
    .call _ (.call _ (.call _ (.call _ .fresh)))
  have isOpen : stranded.cursors.get? 1 = some ⟨.empty, topKey, .onKey topKey⟩ := by decide
  exact ⟨reachable, isOpen, reachable.ranges_upright isOpen .native⟩

/-- A cursor that was off its stem would ask for a range that is refused. -/
example : (rangeBefore [1] [0]).Inverted := by decide

end IndexedStore.Store
