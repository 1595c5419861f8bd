import IndexedStore.Proofs.Store.Calls
import IndexedStore.Proofs.Store.Ledgers
import Mathlib.Data.List.Range
/-!
# The numbers that a store gives out

A store gives its cursors numbers in ascending order, from 1 on, and goes round when it has given out
all numbers. What may have happened between two moments of a store is, for its cursors, a sequence of
openings among other things, none of which opens a cursor: the store then has ISSUED the numbers of
these cursors.

* `SameOpen` says that no cursor is opened or closed; `Issued.sameOpen` that two calls apart, calls do
  neither;
* `Store.Issues` is the relation, and `Store.Issues.limited` that it keeps to the limit on cursors;
* **`Store.Issues.numbered`**: what is issued before the numbers go round is new, and next in line;
* **`Issued.outcome_dead`**: a call on a number that no open cursor goes by does nothing but complain
  of it.
-/

namespace IndexedStore

open IndexedStore.Action

variable {β : Type}

/-! ## 1. Open cursors -/

/-- Whether a cursor of this number is open. -/
def Store.IsOpen (store : Store) (id : CursorId) : Prop :=
  store.cursors.get? id ≠ none

theorem Store.isOpen_of_get? {store : Store} {id : CursorId} {cursor : Cursor}
    (found : store.cursors.get? id = some cursor) : store.IsOpen id := by
  unfold IsOpen
  rw [found]
  exact Option.some_ne_none cursor

/-- Whether the same cursors are open, and the next one is numbered alike. -/
structure SameOpen (before after : Store) : Prop where
  settings : after.settings = before.settings
  counter : after.nextCursor = before.nextCursor
  opens : ∀ id, after.IsOpen id ↔ before.IsOpen id

namespace SameOpen

variable {before middle after : Store}

theorem refl (store : Store) : SameOpen store store :=
  ⟨rfl, rfl, fun _ => Iff.rfl⟩

theorem trans (one : SameOpen before middle) (two : SameOpen middle after) :
    SameOpen before after :=
  ⟨two.settings.trans one.settings, two.counter.trans one.counter,
    fun id => (two.opens id).trans (one.opens id)⟩

theorem chains : Chains SameOpen :=
  ⟨refl, trans⟩

theorem of_cursors (settings : after.settings = before.settings)
    (counter : after.nextCursor = before.nextCursor) (cursors : after.cursors = before.cursors) :
    SameOpen before after := by
  refine ⟨settings, counter, fun id => ?_⟩
  unfold Store.IsOpen
  rw [cursors]

theorem of_staging (h : Staging before after) : SameOpen before after := by
  obtain ⟨staged, rfl⟩ := h
  exact of_cursors rfl rfl rfl

theorem moveCursor (id : CursorId) (target : Store → Cursor → Position) :
    (Store.moveCursor id target).Keeps SameOpen := by
  intro store
  rw [Store.outcome_moveCursor]
  cases found : store.cursors.get? id with
  | none => exact refl store
  | some cursor =>
    refine ⟨rfl, rfl, fun other => ?_⟩
    unfold Store.IsOpen
    rw [OrdMap.get?_insert]
    split
    · rename_i same
      rw [same, found]
      exact ⟨fun _ => Option.some_ne_none _, fun _ => Option.some_ne_none _⟩
    · exact Iff.rfl

end SameOpen

/-! ## 2. What opens and closes none -/

namespace Store

theorem nextCursor_chargeFor (store : Store) (sign : Int) (key : Bytes) (entry : Option Entry) :
    (store.chargeFor sign key entry).nextCursor = store.nextCursor := by
  cases entry <;> rfl

theorem nextCursor_replace (store : Store) (scope : Name) (key : Bytes) (after : Option Entry) :
    (store.replace scope key after).2.nextCursor = store.nextCursor := by
  unfold replace
  rw [nextCursor_chargeFor, nextCursor_chargeFor]

theorem sameOpen_replace (store : Store) (scope : Name) (key : Bytes) (after : Option Entry) :
    SameOpen store (store.replace scope key after).2 :=
  .of_cursors (settings_replace ..) (nextCursor_replace ..) (cursors_replace ..)

theorem sameOpen_undo (store : Store) (changes : List Change) :
    SameOpen store (store.undo changes) := by
  induction changes generalizing store with
  | nil => exact .refl store
  | cons change rest ih => exact (store.sameOpen_replace ..).trans (ih _)

theorem sameOpen_beginUnit : beginUnit.Keeps SameOpen := by
  intro store
  unfold beginUnit
  rw [outcome_get_bind]
  split
  · exact .refl store
  · exact .of_cursors rfl rfl rfl

theorem sameOpen_commitUnit (store : Store) : SameOpen store (commitUnit store).2 :=
  .of_cursors rfl rfl rfl

theorem sameOpen_rollbackUnit (store : Store) : SameOpen store (rollbackUnit store).2 := by
  have closed : SameOpen store { store with log := none } := .of_cursors rfl rfl rfl
  exact closed.trans (sameOpen_undo ..)

end Store

/-- Whether a call opens or closes a cursor. -/
def Call.Allots : Call β → Prop
  | openCursor .. => True
  | closeCursor .. => True
  | _ => False

/-- **All calls but these two** leave the same cursors open. -/
theorem Issued.sameOpen (issued : Issued β) (apart : ¬ issued.call.Allots) :
    issued.perform.Keeps SameOpen := by
  have looking : issued.call.Looks → issued.perform.Keeps SameOpen :=
    fun looks => (issued.staging looks).mono SameOpen.of_staging
  obtain ⟨access, call⟩ := issued
  cases call with
  | openCursor | closeCursor => exact absurd trivial apart
  | write scope key value payer =>
    have ends : (Store.write scope key value payer).Keeps SameOpen := by
      intro store
      rcases Store.write_changes scope key value payer store with same | changed
      · rw [same]
        exact .refl store
      · rw [changed]
        exact store.sameOpen_replace ..
    cases access <;> exact ends
  | erase scope key =>
    have ends : (Store.erase scope key).Keeps SameOpen := by
      intro store
      rcases Store.erase_changes scope key store with same | changed
      · rw [same]
        exact .refl store
      · rw [changed]
        exact store.sameOpen_replace ..
    cases access <;> exact ends
  | nextKey id => cases access <;> exact SameOpen.moveCursor id _
  | previousKey id => cases access <;> exact SameOpen.moveCursor id _
  | seekKey id key => cases access <;> exact SameOpen.moveCursor id _
  | seekEnd id => cases access <;> exact SameOpen.moveCursor id _
  | _ => exact looking rfl

/-! ## 3. What a store has issued -/

namespace Store

/-- The numbers that a store has issued from one moment to another, in order: it has opened a cursor
    for each of them, and none in between. -/
inductive Issues : Store → List CursorId → Store → Prop where
  /-- Some time in which no cursor is opened. -/
  | none {before after : Store} (settings : after.settings = before.settings)
    (counter : after.nextCursor = before.nextCursor)
    (opens : ∀ id, after.IsOpen id → before.IsOpen id) : Issues before [] after
  /-- The opening of one cursor. -/
  | one {before after : Store} {scope : Name} {stem : Bytes} {id : CursorId}
    (opened : outcome (openCursor scope stem) before = (.ok id, after)) : Issues before [id] after
  | trans {before middle after : Store} {early late : List CursorId} :
    Issues before early middle → Issues middle late after → Issues before (early ++ late) after

theorem Issues.of_sameOpen {before after : Store} (h : SameOpen before after) :
    before.Issues [] after :=
  .none h.settings h.counter fun id => (h.opens id).mp

/-- What the opening of a cursor has done. -/
theorem openCursor_cases {before after : Store} {scope : Name} {stem : Bytes} {id : CursorId}
    (opened : outcome (openCursor scope stem) before = (.ok id, after)) :
    before.cursors.size < before.settings.limits.maxCursors.toNat
      ∧ id = freeNumber before.cursors before.cursors.size before.nextCursor
      ∧ before.cursors.get? id = Option.none
      ∧ after = { before with
          nextCursor := following id
          cursors := before.cursors.insert id ⟨scope, stem, .ended⟩ } := by
  rw [outcome_openCursor] at opened
  split at opened
  · cases opened
  · rename_i room
    cases opened
    exact ⟨Nat.not_le.mp room, rfl, get?_freeNumber_of_room room, rfl⟩

/-- An opening fails at the limit only, and does nothing then. -/
theorem openCursor_fails {before after : Store} {scope : Name} {stem : Bytes} {fault : Fault}
    (fails : outcome (openCursor scope stem) before = (.error fault, after)) :
    after = before ∧ before.settings.limits.maxCursors.toNat ≤ before.openCursors := by
  rw [outcome_openCursor] at fails
  split at fails
  · rename_i full
    cases fails
    exact ⟨rfl, full⟩
  · cases fails

/-- Of the cursors only the new one is opened. -/
theorem isOpen_openCursor {before after : Store} {scope : Name} {stem : Bytes} {id : CursorId}
    (opened : outcome (openCursor scope stem) before = (.ok id, after)) (other : CursorId) :
    after.IsOpen other ↔ other = id ∨ before.IsOpen other := by
  obtain ⟨_, _, _, rfl⟩ := openCursor_cases opened
  unfold IsOpen
  dsimp only
  rw [OrdMap.get?_insert]
  split
  · rename_i same
    exact ⟨fun _ => .inl same, fun _ => Option.some_ne_none _⟩
  · rename_i apart
    exact ⟨.inr, fun h => h.resolve_left apart⟩

/-- Whether no more cursors are open than the settings allow. -/
def Limited (store : Store) : Prop :=
  store.openCursors ≤ store.settings.limits.maxCursors.toNat

namespace Issues

variable {before after : Store} {issued : List CursorId}

theorem settings (h : before.Issues issued after) : after.settings = before.settings := by
  induction h with
  | none settings => exact settings
  | one opened =>
    obtain ⟨_, _, _, rfl⟩ := openCursor_cases opened
    rfl
  | trans _ _ ih ih' => exact ih'.trans ih

/-- What is open has been open, or has been issued. -/
theorem isOpen (h : before.Issues issued after) {id : CursorId} (isOpen : after.IsOpen id) :
    before.IsOpen id ∨ id ∈ issued := by
  induction h with
  | none _ _ opens => exact .inl (opens id isOpen)
  | one opened =>
    rcases (isOpen_openCursor opened id).mp isOpen with rfl | there
    · exact .inr List.mem_cons_self
    · exact .inl there
  | trans _ _ ih ih' =>
    rcases ih' isOpen with between | new
    · exact (ih between).imp_right (List.mem_append_left _)
    · exact .inr (List.mem_append_right _ new)

/-- **The limit on open cursors is kept.** -/
theorem limited (h : before.Issues issued after) (limited : before.Limited) : after.Limited := by
  induction h with
  | none settings _ opens =>
    unfold Limited
    rw [settings]
    exact Nat.le_trans (openCursors_le id opens fun _ _ _ _ same => same) limited
  | one opened =>
    obtain ⟨room, _, free, rfl⟩ := openCursor_cases opened
    exact Nat.le_trans (Nat.le_of_eq (OrdMap.size_insert_of_free free _)) room
  | trans _ _ ih ih' => exact ih' (ih limited)

end Issues

/-- Whether the open cursors have numbers below the one that is next in line. -/
structure Numbered (store : Store) : Prop where
  positive : 0 < store.nextCursor
  below : ∀ id, store.IsOpen id → id < store.nextCursor

theorem Numbered.fresh (settings : Settings) : (Store.fresh settings).Numbered :=
  ⟨Nat.one_pos, fun _ isOpen => absurd rfl isOpen⟩

/-- A cursor takes the number that is next in line, if those of the open ones are below it. -/
theorem Numbered.openCursor {before after : Store} {scope : Name} {stem : Bytes} {id : CursorId}
    (numbered : before.Numbered) (room : before.nextCursor + 1 < UInt32.size)
    (opened : outcome (openCursor scope stem) before = (.ok id, after)) :
    id = before.nextCursor ∧ after.nextCursor = before.nextCursor + 1 ∧ after.Numbered := by
  obtain ⟨_, number, _, changed⟩ := openCursor_cases opened
  have free : before.cursors.contains before.nextCursor = false := by
    refine Bool.eq_false_iff.mpr fun taken => ?_
    obtain ⟨_, found⟩ := OrdMap.contains_iff.mp taken
    exact Nat.lt_irrefl _ (numbered.below _ (Store.isOpen_of_get? found))
  have next : id = before.nextCursor := by
    rw [number]
    unfold freeNumber
    cases before.cursors.size with
    | zero => rfl
    | succ _ => exact if_neg (by rw [free]; exact Bool.false_ne_true)
  have counter : after.nextCursor = before.nextCursor + 1 := by
    rw [changed, next]
    exact if_pos room
  refine ⟨next, counter, ⟨by rw [counter]; exact Nat.succ_pos _, fun other isOpen => ?_⟩⟩
  rw [counter]
  rcases (isOpen_openCursor opened other).mp isOpen with rfl | there
  · exact Nat.lt_succ_of_le (Nat.le_of_eq next)
  · exact Nat.lt_succ_of_lt (numbered.below other there)

/-- **What is issued before the numbers go round is next in line**: the numbers from the counter on,
    each once. -/
theorem Issues.numbered {before after : Store} {issued : List CursorId}
    (h : before.Issues issued after) (numbered : before.Numbered)
    (room : before.nextCursor + issued.length < UInt32.size) :
    issued = List.range' before.nextCursor issued.length
      ∧ after.nextCursor = before.nextCursor + issued.length ∧ after.Numbered := by
  induction h with
  | none _ counter opens =>
    exact ⟨rfl, counter, counter.symm ▸ numbered.positive, fun id isOpen =>
      counter.symm ▸ numbered.below id (opens id isOpen)⟩
  | one opened =>
    obtain ⟨rfl, counter, numbered'⟩ := numbered.openCursor room opened
    exact ⟨rfl, counter, numbered'⟩
  | trans _ _ ih ih' =>
    rw [List.length_append, ← Nat.add_assoc] at room
    rw [List.length_append]
    obtain ⟨first, counter, numbered'⟩ :=
      ih numbered (Nat.lt_of_le_of_lt (Nat.le_add_right _ _) room)
    obtain ⟨second, counter', numbered''⟩ := ih' numbered' (counter.symm ▸ room)
    refine ⟨?_, ?_, numbered''⟩
    · rw [← List.range'_append_1, ← first, ← counter, ← second]
    · rw [counter', counter, Nat.add_assoc]

end Store

/-! ## 4. Numbers of no open cursor -/

/-- The numbers that a call names. -/
def Call.named : Call β → List CursorId
  | closeCursor id | nextKey id | previousKey id | seekKey id _ | seekEnd id | cursorStanding id
  | copyKey id _ _ | copyValue id _ _ | currentKey id | currentValue id | compareKey id _ => [id]
  | compareCursors a b => [a, b]
  | _ => []

/-- **A call that names a number of no open cursor** complains of one and changes nothing. -/
theorem Issued.outcome_dead (issued : Issued β) {store : Store} {id : CursorId}
    (named : id ∈ issued.call.named) (dead : ¬ store.IsOpen id) :
    ∃ other ∈ issued.call.named, ¬ store.IsOpen other
      ∧ outcome issued.perform store = (.error (.unknownCursor other), store) := by
  have absent : ∀ {number}, ¬ store.IsOpen number → store.cursors.get? number = none :=
    fun closed => Classical.not_not.mp closed
  have asked : ∀ {number} {γ : Type} (next : Cursor → Action Store γ), ¬ store.IsOpen number →
      outcome (Store.cursor number >>= next) store = (.error (.unknownCursor number), store) := by
    intro number γ next closed
    rw [Store.outcome_cursor_bind, absent closed]
  obtain ⟨access, call⟩ := issued
  cases call with
  | closeCursor number | nextKey number | previousKey number | seekKey number | seekEnd number
  | cursorStanding number | copyKey number | copyValue number | compareKey number =>
    obtain rfl := List.mem_singleton.mp named
    refine ⟨id, named, dead, ?_⟩
    cases access <;> exact asked _ dead
  | currentKey number | currentValue number =>
    obtain rfl := List.mem_singleton.mp named
    refine ⟨id, named, dead, ?_⟩
    cases access with
    | native => exact asked _ dead
    | relayed => exact outcome_bind_error (asked _ dead)
  | compareCursors a b =>
    have ends : outcome (Issued.mk access (.compareCursors a b)).perform store
        = outcome (Store.compareCursors a b) store := by cases access <;> rfl
    rw [ends]
    cases first : store.cursors.get? a with
    | none => exact ⟨a, List.mem_cons_self, fun here => here first, asked _ fun here => here first⟩
    | some _ =>
      -- the first cursor is open, so it is the other one that is asked for in vain
      obtain rfl : id = b := by
        rcases List.mem_cons.mp named with rfl | second
        · exact absurd (Store.isOpen_of_get? first) dead
        · exact List.mem_singleton.mp second
      refine ⟨id, named, dead, ?_⟩
      unfold Store.compareCursors
      rw [Store.outcome_cursor_bind, first]
      exact asked _ dead
  | _ => exact absurd named List.not_mem_nil

end IndexedStore
