import IndexedStore.Proofs.Store.Cursors
import Mathlib.Data.List.Count
import Mathlib.Data.List.Nodup
/-!
# Ledgers of open cursors

Several users of one store hold cursors of it. A LEDGER of some work of one user says which cursors
were held before it and which are held after it, and that nothing else has happened to the open
cursors: those of others are as they were, a cursor that is held only now is new, and one that is held
no more is closed.

* `Ledger.trans` puts two pieces of work together, and `Ledger.frame` adds cursors that are held
  throughout;
* `Ledger.keeps` is that the cursors of others stay;
* `Store.numbers` lists the numbers of the open cursors, and `Store.openCursors_le` counts the open
  cursors of one store by those of another.
-/

namespace IndexedStore

variable {before middle after : Store} {held held' held'' : CursorId → Prop} {id : CursorId}

/-! ## 1. Ledgers -/

/-- What happens to the open cursors while one user works, who holds some of them. -/
structure Ledger (before : Store) (held : CursorId → Prop) (after : Store)
    (held' : CursorId → Prop) : Prop where
  others : ∀ id, ¬ held id → ¬ held' id → after.cursors.get? id = before.cursors.get? id
  fresh : ∀ id, held' id → held id ∨ before.cursors.get? id = none
  gone : ∀ id, held id → ¬ held' id → after.cursors.get? id = none

/-- Holding one cursor, or none. -/
def Holding (number : Option CursorId) (id : CursorId) : Prop :=
  number = some id

namespace Ledger

/-- Work that opens and closes nothing for good. -/
theorem of_same (same : ∀ id, after.cursors.get? id = before.cursors.get? id)
    (held : CursorId → Prop) : Ledger before held after held where
  others id _ _ := same id
  fresh _ here := .inl here
  gone _ here gone := absurd here gone

theorem refl (store : Store) (held : CursorId → Prop) : Ledger store held store held :=
  of_same (fun _ => rfl) held

theorem trans (first : Ledger before held middle held')
    (second : Ledger middle held' after held'') : Ledger before held after held'' where
  others id apart apart' := by
    by_cases between : held' id
    · -- The cursor was opened and closed in between.
      rw [second.gone id between apart']
      exact ((first.fresh id between).resolve_left apart).symm
    · exact (second.others id between apart').trans (first.others id apart between)
  fresh id here := by
    by_cases there : held id
    · exact .inl there
    · refine .inr ?_
      by_cases between : held' id
      · exact (first.fresh id between).resolve_left there
      · rw [← first.others id there between]
        exact (second.fresh id here).resolve_left between
  gone id here gone := by
    by_cases between : held' id
    · exact second.gone id between gone
    · rw [second.others id between gone]
      exact first.gone id here between

/-- Cursors that are held throughout do not matter. -/
theorem frame (h : Ledger before held after held') (more : CursorId → Prop) :
    Ledger before (fun id => held id ∨ more id) after (fun id => held' id ∨ more id) where
  others id apart apart' :=
    h.others id (fun here => apart (.inl here)) fun here => apart' (.inl here)
  fresh id here := by
    rcases here with here | there
    · exact (h.fresh id here).imp_left .inl
    · exact .inl (.inr there)
  gone id here gone := by
    rcases here with here | there
    · exact h.gone id here fun now => gone (.inl now)
    · exact absurd (.inr there) gone

theorem congr (h : Ledger before held after held') {now now' : CursorId → Prop}
    (same : ∀ id, now id ↔ held id) (same' : ∀ id, now' id ↔ held' id) :
    Ledger before now after now' := by
  obtain rfl : now = held := funext fun id => propext (same id)
  obtain rfl : now' = held' := funext fun id => propext (same' id)
  exact h

/-- What is open and not held stays apart from what is held. -/
theorem apart (h : Ledger before held after held') {cursor : Cursor} (apart : ¬ held id)
    (isOpen : before.cursors.get? id = some cursor) : ¬ held' id := by
  intro here
  rw [(h.fresh id here).resolve_left apart] at isOpen
  exact nomatch isOpen

/-- **The cursors of others stay** open, and where they are. -/
theorem keeps (h : Ledger before held after held') {cursor : Cursor} (apart : ¬ held id)
    (isOpen : before.cursors.get? id = some cursor) :
    after.cursors.get? id = some cursor :=
  (h.others id apart (h.apart apart isOpen)).trans isOpen

/-- A user who held all that was open holds all that is open. -/
theorem holds_all (h : Ledger before held after held')
    (all : ∀ id, before.cursors.get? id ≠ none → held id) :
    ∀ id, after.cursors.get? id ≠ none → held' id := by
  intro id isOpen
  by_contra apart
  by_cases here : held id
  · exact isOpen (h.gone id here apart)
  · rw [h.others id here apart] at isOpen
    exact here (all id isOpen)

end Ledger

/-! ## 2. Counting open cursors -/

namespace Store

/-- The numbers of the open cursors, in ascending order. -/
def numbers (store : Store) : List CursorId :=
  store.cursors.entries.map (·.1)

theorem mem_numbers {store : Store} {id : CursorId} :
    id ∈ store.numbers ↔ store.cursors.get? id ≠ none := by
  rw [Option.ne_none_iff_exists']
  constructor
  · intro mem
    obtain ⟨⟨_, cursor⟩, stored, rfl⟩ := List.mem_map.mp mem
    exact ⟨cursor, OrdMap.get?_eq_some_iff.mpr stored⟩
  · rintro ⟨cursor, found⟩
    exact List.mem_map.mpr ⟨_, OrdMap.get?_eq_some_iff.mp found, rfl⟩

theorem nodup_numbers (store : Store) : store.numbers.Nodup :=
  List.pairwise_map.mpr <| store.cursors.ascending.imp
    fun {a b} below (same : a.1 = b.1) => Std.lt_irrefl (same ▸ below)

theorem length_numbers (store : Store) : store.numbers.length = store.openCursors :=
  List.length_map _

/-- There are no fewer open cursors where each open cursor of another store has one of its own. -/
theorem openCursors_le {s t : Store} (other : CursorId → CursorId)
    (opens : ∀ id, t.cursors.get? id ≠ none → s.cursors.get? (other id) ≠ none)
    (injective : ∀ a b, t.cursors.get? a ≠ none → t.cursors.get? b ≠ none →
      other a = other b → a = b) : t.cursors.size ≤ s.cursors.size := by
  have images : (t.numbers.map other).Nodup :=
    t.nodup_numbers.map_on fun a memA b memB same =>
      injective a b (mem_numbers.mp memA) (mem_numbers.mp memB) same
  have inside : t.numbers.map other ⊆ s.numbers := by
    intro id mem
    obtain ⟨a, memA, rfl⟩ := List.mem_map.mp mem
    exact mem_numbers.mpr (opens a (mem_numbers.mp memA))
  have fewer := (List.subperm_of_subset images inside).length_le
  rw [List.length_map, length_numbers, length_numbers] at fewer
  exact fewer

end Store

end IndexedStore
