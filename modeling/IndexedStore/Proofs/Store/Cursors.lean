import IndexedStore.Proofs.Actions
import IndexedStore.Proofs.OrderedMap
import IndexedStore.Store.Cursors
import Mathlib.Data.List.Count
import Mathlib.Data.List.Nodup
import Mathlib.Logic.Function.Iterate
/-!
# How the calls on cursors end

A call on a cursor faults only if no open cursor has the number, and what it answers depends on the
cursor and on the entries alone.

* `Store.outcome_moveCursor`, `Store.outcome_cursorStanding`, `Store.outcome_currentKey`,
  `Store.outcome_currentValue` and `Store.outcome_copyCurrent`: the calls on an open cursor;
* `Store.get?_freeNumber`: a new cursor takes a number that no open cursor goes by. Numbers have 32
  bits, and the limit on open cursors too, so there always is one.
-/

namespace IndexedStore.Store

open IndexedStore.Action

variable {α : Type}

/-! ## 1. Open cursors -/

theorem outcome_cursor (id : CursorId) (store : Store) :
    outcome (cursor id) store = match store.cursors.get? id with
      | some found => (.ok found, store)
      | none => (.error (.unknownCursor id), store) := by
  unfold cursor
  rw [outcome_get_bind]
  cases store.cursors.get? id <;> rfl

/-- A call on a cursor goes on with the open cursor, or ends here. -/
theorem outcome_cursor_bind (id : CursorId) (next : Cursor → Action Store α) (store : Store) :
    outcome (cursor id >>= next) store = match store.cursors.get? id with
      | some found => outcome (next found) store
      | none => (.error (.unknownCursor id), store) := by
  rw [outcome_bind, outcome_cursor]
  cases store.cursors.get? id <;> rfl

/-- What a cursor finds is the entry at its position. -/
theorem entryAt?_eq_some {store : Store} {cursor : Cursor} {key : Bytes} {entry : Entry} :
    store.entryAt? cursor = some (key, entry)
      ↔ cursor.position = .onKey key ∧ store.find? cursor.scope key = some entry := by
  unfold entryAt?
  cases place : cursor.position with
  | ended => simp
  | onKey at_ =>
    dsimp only
    rw [Option.map_eq_some_iff]
    constructor
    · rintro ⟨found, stored, same⟩
      cases same
      exact ⟨rfl, stored⟩
    · rintro ⟨same, stored⟩
      cases same
      exact ⟨entry, stored, rfl⟩

theorem outcome_moveCursor (id : CursorId) (target : Store → Cursor → Position) (store : Store) :
    outcome (moveCursor id target) store = match store.cursors.get? id with
      | none => (.error (.unknownCursor id), store)
      | some found =>
        (.ok (store.standingOf { found with position := target store found }),
          { store with
            cursors := store.cursors.insert id { found with position := target store found } }) := by
  unfold moveCursor
  rw [outcome_cursor_bind]
  cases store.cursors.get? id <;> rfl

theorem outcome_closeCursor (id : CursorId) (store : Store) :
    outcome (closeCursor id) store = match store.cursors.get? id with
      | none => (.error (.unknownCursor id), store)
      | some _ => (.ok (), { store with cursors := store.cursors.erase id }) := by
  unfold closeCursor
  rw [outcome_cursor_bind]
  cases store.cursors.get? id <;> rfl

theorem outcome_cursorStanding (id : CursorId) (store : Store) :
    outcome (cursorStanding id) store = match store.cursors.get? id with
      | none => (.error (.unknownCursor id), store)
      | some found => (.ok (store.standingOf found), store) := by
  unfold cursorStanding
  rw [outcome_cursor_bind]
  cases store.cursors.get? id <;> rfl

theorem outcome_currentKey (id : CursorId) (store : Store) :
    outcome (currentKey id) store = match store.cursors.get? id with
      | none => (.error (.unknownCursor id), store)
      | some found => (.ok ((store.entryAt? found).map (·.1)), store) := by
  unfold currentKey
  rw [outcome_cursor_bind]
  cases store.cursors.get? id <;> rfl

theorem outcome_currentValue (id : CursorId) (store : Store) :
    outcome (currentValue id) store = match store.cursors.get? id with
      | none => (.error (.unknownCursor id), store)
      | some found => (.ok ((store.entryAt? found).map (·.2.value)), store) := by
  unfold currentValue
  rw [outcome_cursor_bind]
  cases store.cursors.get? id <;> rfl

theorem outcome_compareKey (id : CursorId) (key : Bytes) (store : Store) :
    outcome (compareKey id key) store = match store.cursors.get? id with
      | none => (.error (.unknownCursor id), store)
      | some found => (.ok (found.position.order (.onKey key)), store) := by
  unfold compareKey
  rw [outcome_cursor_bind]
  cases store.cursors.get? id <;> rfl

theorem outcome_compareCursors (a b : CursorId) (store : Store) :
    outcome (compareCursors a b) store = match store.cursors.get? a, store.cursors.get? b with
      | none, _ => (.error (.unknownCursor a), store)
      | some _, none => (.error (.unknownCursor b), store)
      | some first, some second =>
        if first.scope ≠ second.scope ∨ first.stem ≠ second.stem then
          (.error .cursorMismatch, store)
        else (.ok (first.position.order second.position), store) := by
  unfold compareCursors
  rw [outcome_cursor_bind]
  cases store.cursors.get? a with
  | none => rfl
  | some first =>
    dsimp only
    rw [outcome_cursor_bind]
    cases store.cursors.get? b with
    | none => rfl
    | some second =>
      dsimp only
      split <;> rfl

theorem outcome_copyCurrent (id : CursorId) (part : Bytes × Entry → Bytes) (offset : Nat)
    (buffer : Bytes) (store : Store) :
    outcome (copyCurrent id part offset buffer) store = match store.cursors.get? id with
      | none => (.error (.unknownCursor id), store)
      | some found => match store.entryAt? found with
        | some entry =>
          (.ok (.live, Bytes.told (part entry).length,
            (Bytes.copyInto (part entry) offset buffer).2), store)
        | none => (.ok (store.standingOf found, 0, buffer), store) := by
  unfold copyCurrent
  rw [outcome_cursor_bind]
  cases store.cursors.get? id with
  | none => rfl
  | some found =>
    dsimp only
    rw [outcome_get_bind]
    cases store.entryAt? found <;> rfl

/-! ## 2. New cursors -/

/-- The numbers after a given one go round all numbers but zero. A number that is none itself comes
    before 1. -/
theorem iterate_following (id steps : Nat) :
    Nat.iterate following (steps + 1) id
      = ((if 0 < id ∧ id < UInt32.size then id else 0) + steps) % (UInt32.size - 1) + 1 := by
  induction steps with
  | zero =>
    show (if id + 1 < UInt32.size then id + 1 else 1 : Nat) = _
    simp only [UInt32.size]
    split <;> split <;> omega
  | succ steps ih =>
    rw [Function.iterate_succ_apply', ih]
    generalize (if 0 < id ∧ id < UInt32.size then id else 0 : Nat) = start
    show (if _ + 1 < UInt32.size then _ + 1 else 1 : Nat) = _
    simp only [UInt32.size]
    split <;> omega

/-- No number comes again before all have been. -/
theorem iterate_following_ne {id fewer more : Nat} (less : fewer < more)
    (bound : more < UInt32.size - 1) :
    Nat.iterate following fewer id ≠ Nat.iterate following more id := by
  obtain ⟨later, rfl⟩ : ∃ later, more = later + 1 := ⟨more - 1, by omega⟩
  rw [iterate_following]
  cases fewer with
  | zero =>
    show (id : Nat) ≠ _
    simp only [UInt32.size] at bound ⊢
    split <;> omega
  | succ earlier =>
    rw [iterate_following]
    generalize (if 0 < id ∧ id < UInt32.size then id else 0 : Nat) = start
    show (_ : Nat) ≠ _
    simp only [UInt32.size] at bound ⊢
    omega

/-- A search that ends at a taken number has passed over taken numbers only. -/
theorem taken_of_freeNumber {cursors : OrdMap CursorId Cursor} {bound : Nat} {id : CursorId}
    (taken : (cursors.get? (freeNumber cursors bound id)).isSome) :
    ∀ steps ≤ bound, (cursors.get? (following^[steps] id)).isSome := by
  induction bound generalizing id with
  | zero =>
    intro steps le
    obtain rfl := Nat.le_zero.mp le
    exact taken
  | succ bound ih =>
    unfold freeNumber at taken
    cases here : cursors.contains id with
    | false =>
      rw [here, if_neg Bool.false_ne_true] at taken
      exact absurd taken (Bool.not_eq_true _ ▸ here)
    | true =>
      rw [here, if_pos rfl] at taken
      intro steps le
      cases steps with
      | zero => exact here
      | succ steps => exact ih taken steps (Nat.le_of_succ_le_succ le)

/-- **A new cursor takes a free number**: there are more numbers than open cursors, so a search that
    passes over as many numbers as there are cursors comes to a free one. -/
theorem get?_freeNumber {cursors : OrdMap CursorId Cursor} (few : cursors.size < UInt32.size - 1)
    (id : CursorId) : cursors.get? (freeNumber cursors cursors.size id) = none := by
  by_contra taken
  have passed := taken_of_freeNumber (Option.isSome_iff_ne_none.mpr taken)
  let numbers := (List.range (cursors.size + 1)).map fun steps => following^[steps] id
  have distinct : numbers.Nodup := by
    refine List.nodup_range.map_on fun a memA b memB same => ?_
    have boundA := List.mem_range.mp memA
    have boundB := List.mem_range.mp memB
    rcases Nat.lt_trichotomy a b with less | same' | less
    · exact absurd same (iterate_following_ne less (by omega))
    · exact same'
    · exact absurd same.symm (iterate_following_ne less (by omega))
  have inside : numbers ⊆ cursors.entries.map (·.1) := by
    intro number mem
    obtain ⟨steps, inRange, rfl⟩ := List.mem_map.mp mem
    obtain ⟨cursor, found⟩ := Option.isSome_iff_exists.mp
      (passed steps (Nat.le_of_lt_succ (List.mem_range.mp inRange)))
    exact List.mem_map.mpr ⟨_, OrdMap.get?_eq_some_iff.mp found, rfl⟩
  have more := (List.subperm_of_subset distinct inside).length_le
  simp only [numbers, List.length_map, List.length_range] at more
  exact Nat.not_succ_le_self _ more

/-- Where the limit leaves room for one more cursor, there is a free number. -/
theorem get?_freeNumber_of_room {store : Store}
    (room : ¬ store.cursors.size ≥ store.settings.limits.maxCursors.toNat) :
    store.cursors.get? (freeNumber store.cursors store.cursors.size store.nextCursor) = none := by
  have limit := store.settings.limits.maxCursors.toNat_lt_size
  exact get?_freeNumber (by omega) store.nextCursor

theorem outcome_openCursor (scope : Name) (stem : Bytes) (store : Store) :
    outcome (openCursor scope stem) store
      = if store.cursors.size ≥ store.settings.limits.maxCursors.toNat then
          (.error (.limit (.cursors store.settings.limits.maxCursors.toNat)), store)
        else
          (.ok (freeNumber store.cursors store.cursors.size store.nextCursor),
            { store with
              nextCursor :=
                following (freeNumber store.cursors store.cursors.size store.nextCursor)
              cursors := store.cursors.insert
                (freeNumber store.cursors store.cursors.size store.nextCursor)
                ⟨scope, stem, .ended⟩ }) := by
  unfold openCursor
  rw [outcome_get_bind]
  by_cases full : store.cursors.size ≥ store.settings.limits.maxCursors.toNat
  · simp only [full, if_true, outcome_throw_bind]
  · simp only [full, if_false]
    rfl

end IndexedStore.Store
