import IndexedStore.Proofs.Store.Steering
/-!
# Staged values are snapshots

A look-up that finds a value sets a copy of it aside. What is set aside stays the same until another
look-up finds a value, whatever becomes of the entry that it came from; and what is read of it piece
by piece, between whatever else is done, is the value as it was.

* `Copied` says what a copy from an offset into a buffer gives, byte by byte;
* `Store.Onward` are the stores that calls and units of work lead to while no look-up finds a value;
* `Store.Gathers` is reading in pieces, with anything but such a look-up in between;
* **`Store.Reachable.reads_exact`** is the result, for staged values and for what cursors are on.
-/

namespace IndexedStore

open IndexedStore.Action

/-! ## 1. Copies -/

/-- What it means that `copied` bytes of `source`, from `offset` on, were copied into `buffer`: as many
    as there are and as fit, one after the other; what is behind them in the buffer is left alone. -/
structure Copied (source : Bytes) (offset : Nat) (buffer : Bytes) (copied : Nat)
    (filled : Bytes) : Prop where
  count : copied = min buffer.length (source.length - offset)
  length : filled.length = buffer.length
  taken : ∀ i < copied, filled[i]? = source[offset + i]?
  kept : ∀ i, copied ≤ i → filled[i]? = buffer[i]?

namespace Copied

variable {source buffer filled : Bytes} {offset copied : Nat}

/-- A bounded copy is one, if the size of what it copies is told in full. -/
theorem copyInto (told : source.length < UInt32.size) (offset : Nat) (buffer : Bytes) :
    Copied source offset buffer (Bytes.copyInto source offset buffer).1
      (Bytes.copyInto source offset buffer).2 := by
  have length : ((source.drop offset).take buffer.length).length
      = min buffer.length (source.length - offset) := by
    rw [List.length_take, List.length_drop]
  have count : (Bytes.copyInto source offset buffer).1
      = min buffer.length (source.length - offset) := by
    unfold Bytes.copyInto
    dsimp only
    rw [length, Bytes.told_of_lt (by omega)]
  refine ⟨count, ?_, fun i inside => ?_, fun i outside => ?_⟩
  · unfold Bytes.copyInto
    simp only [List.length_append, List.length_drop, length]
    omega
  · rw [count] at inside
    unfold Bytes.copyInto
    dsimp only
    rw [List.getElem?_append_left (by omega), List.getElem?_take_of_lt (by omega),
      List.getElem?_drop]
  · rw [count] at outside
    unfold Bytes.copyInto
    dsimp only
    rw [List.getElem?_append_right (by omega), List.getElem?_drop, length]
    congr 1
    omega

/-- The bytes copied are the part of the source that begins at the offset. -/
theorem take_eq (h : Copied source offset buffer copied filled) :
    filled.take copied = (source.drop offset).take copied := by
  refine List.ext_getElem? fun i => ?_
  by_cases inside : i < copied
  · rw [List.getElem?_take_of_lt inside, List.getElem?_take_of_lt inside, h.taken i inside,
      List.getElem?_drop]
  · rw [List.getElem?_take_eq_none (by omega), List.getElem?_take_eq_none (by omega)]

end Copied

/-! ## 2. Until a value is found -/

/-- The key that a call looks up by staging its value. Behind the primitives alone there is no other
    way to read a value. -/
def Call.looked? {β : Type} (access : Access) : Call β → Option (Name × Bytes)
  | stage scope key => some (scope, key)
  | read scope key => if access = .relayed then some (scope, key) else none
  | holds scope key => if access = .relayed then some (scope, key) else none
  | _ => none

/-- Whether a call, made on a store, finds a value and sets it aside. -/
def Issued.Finds {β : Type} (issued : Issued β) (store : Store) : Prop :=
  ∃ scope key, issued.call.looked? issued.access = some (scope, key)
    ∧ (store.find? scope key).isSome

/-- What overlooks the staged value leaves it as it is. -/
theorem Overlooks.staged {β : Type} {action : Action Store β}
    (h : ∀ staged, Overlooks (fun _ => staged) id action) (store : Store) :
    (outcome action store).2.staged = store.staged := by
  have same : store.aside (fun _ => store.staged) id = store := rfl
  have ends := h store.staged store
  rw [same] at ends
  rw [ends]
  rfl

/-- A look-up that misses changes nothing. -/
theorem Store.outcome_stage_of_none {scope : Name} {key : Bytes} {store : Store}
    (missing : store.find? scope key = none) :
    outcome (Store.stage scope key) store = (.ok none, store) := by
  rw [outcome_stage, missing]
  rfl

/-- Neither does reading what a cursor is on. -/
theorem Store.staged_whole (id : CursorId) (part : Bytes × Entry → Bytes) (store : Store) :
    (outcome (Primitives.whole fun offset buffer => copyCurrent id part offset buffer) store).2.staged
      = store.staged := by
  rw [outcome_whole]
  cases store.cursors.get? id <;> rfl

/-- **The staged value changes only where another one is found.** -/
theorem Issued.staged_perform {β : Type} (issued : Issued β) {store : Store}
    (unfound : ¬ issued.Finds store) : (outcome issued.perform store).2.staged = store.staged := by
  have plain : issued.call.Unstaged →
      (outcome (issued.call.perform Store.native) store).2.staged = store.staged :=
    fun unstaged => Overlooks.staged
      (fun _ => Call.overlooks (fun _ _ => rfl) unstaged) store
  have missing : ∀ {scope key}, issued.call.looked? issued.access = some (scope, key) →
      outcome (Store.stage scope key) store = (.ok none, store) := by
    intro scope key looks
    refine Store.outcome_stage_of_none (Option.not_isSome_iff_eq_none.mp fun found => ?_)
    exact unfound ⟨scope, key, looks, found⟩
  obtain ⟨access, call⟩ := issued
  cases call with
  | stage scope key =>
    cases access <;> exact congrArg (·.2.staged) (missing rfl)
  | copyStaged => cases access <;> rfl
  | read scope key =>
    cases access with
    | native => exact plain trivial
    | relayed =>
      show (outcome (Store.stage scope key >>= _) store).2.staged = _
      rw [outcome_bind_ok (missing rfl)]
      rfl
  | holds scope key =>
    cases access with
    | native => exact plain trivial
    | relayed =>
      show (outcome (Store.stage scope key >>= _) store).2.staged = _
      rw [outcome_bind_ok (missing rfl)]
      rfl
  | currentKey id =>
    cases access with
    | native => exact plain trivial
    | relayed => exact Store.staged_whole id (·.1) store
  | currentValue id =>
    cases access with
    | native => exact plain trivial
    | relayed => exact Store.staged_whole id (·.2.value) store
  | _ => cases access <;> exact plain trivial

namespace Store

/-- The stores that calls and units of work lead to while no look-up finds a value. -/
inductive Onward (start : Store) : Store → Prop where
  | here : Onward start start
  | call {β : Type} {store : Store} (issued : Issued β) :
    Onward start store → ¬ issued.Finds store → Onward start (outcome issued.perform store).2
  | beginUnit {store : Store} : Onward start store → Onward start (outcome beginUnit store).2
  | commitUnit {store : Store} : Onward start store → Onward start (commitUnit store).2
  | rollbackUnit {store : Store} : Onward start store → Onward start (rollbackUnit store).2

theorem staged_beginUnit (store : Store) : (outcome beginUnit store).2.staged = store.staged := by
  unfold beginUnit
  rw [outcome_get_bind]
  cases store.log <;> rfl

theorem staged_undo (store : Store) (changes : List Change) :
    (store.undo changes).staged = store.staged := by
  have ends : store.undo changes = { store.undo changes with staged := store.staged } :=
    undo_staged store store.staged changes
  rw [ends]

/-- Taking a unit of work back does not bring a staged value back. -/
theorem staged_rollbackUnit (store : Store) : (rollbackUnit store).2.staged = store.staged :=
  staged_undo { store with log := none } _

theorem Onward.staged {start store : Store} (h : start.Onward store) :
    store.staged = start.staged := by
  induction h with
  | here => rfl
  | call issued _ unfound ih => rw [issued.staged_perform unfound, ih]
  | beginUnit _ ih => rw [staged_beginUnit, ih]
  | commitUnit _ ih => exact ih
  | rollbackUnit _ ih => rw [staged_rollbackUnit, ih]

/-! ## 3. Reading in pieces -/

/-- Reading what is staged, from a store on, in pieces: how many copies were made, each into a buffer
    that is not empty and from where the last one ended; what they brought; and the store then. In
    between anything may be done but to find another value. -/
inductive Gathers (start : Store) : Nat → Bytes → Store → Prop where
  | nothing : Gathers start 0 [] start
  | between {pieces : Nat} {gathered : Bytes} {store later : Store} :
    Gathers start pieces gathered store → store.Onward later → Gathers start pieces gathered later
  | piece {pieces copied : Nat} {gathered buffer filled : Bytes} {store later : Store} :
    Gathers start pieces gathered store → buffer ≠ [] →
    outcome (copyStaged gathered.length buffer) store = (.ok (copied, filled), later) →
    Gathers start (pieces + 1) (gathered ++ filled.take copied) later

variable {start store later : Store} {value : Bytes}

/-- Every copy of what is staged is exact. -/
theorem outcome_copyStaged (staged : store.staged = value) (told : value.length < UInt32.size)
    (offset : Nat) (buffer : Bytes) : ∃ copied filled,
      outcome (copyStaged offset buffer) store = (.ok (copied, filled), store)
        ∧ Copied value offset buffer copied filled := by
  refine ⟨_, _, ?_, Copied.copyInto told offset buffer⟩
  rw [← staged]
  rfl

/-- **What is gathered is the beginning of the value**, and with every piece more of it until it is
    the whole. -/
theorem Gathers.beginning {pieces : Nat} {gathered : Bytes}
    (h : start.Gathers pieces gathered store) (staged : start.staged = value)
    (told : value.length < UInt32.size) :
    store.staged = value ∧ gathered <+: value ∧ min pieces value.length ≤ gathered.length := by
  induction h with
  | nothing => exact ⟨staged, List.nil_prefix, by omega⟩
  | between _ onward ih => exact ⟨onward.staged.trans ih.1, ih.2⟩
  | @piece pieces copied gathered buffer filled store later _ nonempty copies ih =>
    obtain ⟨staged, front, more⟩ := ih
    obtain ⟨copied', filled', copies', slice⟩ := outcome_copyStaged staged told gathered.length buffer
    rw [copies'] at copies
    obtain ⟨⟨rfl, rfl⟩, rfl⟩ : (copied' = copied ∧ filled' = filled) ∧ store = later := by
      simpa using copies
    have room : 0 < buffer.length := List.length_pos_iff.mpr nonempty
    refine ⟨staged, ?_, ?_⟩
    · obtain ⟨rest, rfl⟩ := front
      rw [slice.take_eq, List.drop_left]
      exact List.prefix_append_right_inj gathered |>.mpr (List.take_prefix _ _)
    · have size := slice.length
      have count := slice.count
      rw [List.length_append, List.length_take]
      omega

/-! ## 4. The result -/

/-- What is read of a value that a look-up has found, in a store that it was set aside in or a later
    one. -/
structure Remembers (start later : Store) (value : Bytes) : Prop where
  /-- Every copy is exact. -/
  copies : ∀ offset buffer, ∃ copied filled,
    outcome (copyStaged offset buffer) later = (.ok (copied, filled), later)
      ∧ Copied value offset buffer copied filled
  /-- Read in pieces, it comes from its beginning on; it is whole after as many pieces as it has bytes
      at the latest; and the first copy of nothing tells that it is. -/
  pieces : ∀ pieces gathered, start.Gathers pieces gathered later →
    gathered <+: value
      ∧ (value.length ≤ pieces → gathered = value)
      ∧ ∀ buffer, buffer ≠ [] → ∃ copied filled,
        outcome (copyStaged gathered.length buffer) later = (.ok (copied, filled), later)
          ∧ (copied = 0 ↔ gathered = value)

/-- What is read of what a cursor is on. -/
structure Shows (store : Store) (access : Access) (id : CursorId) (cursor : Cursor) : Prop where
  /-- The key and the value are told with their full sizes, and copies of them are exact. -/
  live : ∀ key entry, cursor.position = .onKey key → store.find? cursor.scope key = some entry →
    ∀ offset buffer,
      (∃ copied filled, outcome (access.backend.copyKey id offset buffer) store
          = (.ok (.live, key.length, filled), store) ∧ Copied key offset buffer copied filled)
        ∧ ∃ copied filled, outcome (access.backend.copyValue id offset buffer) store
          = (.ok (.live, entry.value.length, filled), store)
          ∧ Copied entry.value offset buffer copied filled
  /-- Where there is none, its standing is told, no size, and the buffer as it was. -/
  other : ¬ store.Stands cursor .live → ∃ standing, standing ≠ .live ∧ store.Stands cursor standing
    ∧ ∀ offset buffer,
      outcome (access.backend.copyKey id offset buffer) store = (.ok (standing, 0, buffer), store)
        ∧ outcome (access.backend.copyValue id offset buffer) store
          = (.ok (standing, 0, buffer), store)

theorem remembers_of_staged (staged : start.staged = value) (told : value.length < UInt32.size)
    (onward : start.Onward later) : start.Remembers later value where
  copies := outcome_copyStaged (onward.staged.trans staged) told
  pieces pieces gathered h := by
    obtain ⟨here, front, more⟩ := h.beginning staged told
    refine ⟨front, fun enough => ?_, fun buffer nonempty => ?_⟩
    · exact front.eq_of_length_le (by omega)
    · obtain ⟨copied, filled, copies, slice⟩ := outcome_copyStaged here told gathered.length buffer
      have room : 0 < buffer.length := List.length_pos_iff.mpr nonempty
      have count := slice.count
      refine ⟨copied, filled, copies, fun none => ?_, fun whole => ?_⟩
      · exact front.eq_of_length_le (by omega)
      · rw [whole] at count
        omega

theorem Steady.shows {id : CursorId} {cursor : Cursor} (steady : store.Steady)
    (isOpen : store.cursors.get? id = some cursor) (access : Access) :
    store.Shows access id cursor where
  live key entry place stored offset buffer := by
    have here := entryAt?_eq_some.mpr ⟨place, stored⟩
    have told := steady.sized.entryAt? here
    constructor
    · refine ⟨_, _, ?_, Copied.copyInto told.key offset buffer⟩
      cases access <;> exact outcome_copyCurrent_of_some isOpen here told.key offset buffer
    · refine ⟨_, _, ?_, Copied.copyInto told.value offset buffer⟩
      cases access <;> exact outcome_copyCurrent_of_some isOpen here told.value offset buffer
  other notLive := by
    have gone := entryAt?_eq_none notLive
    refine ⟨store.standingOf cursor, standingOf_ne_live gone, standingOf_eq_iff.mp rfl, ?_⟩
    intro offset buffer
    constructor
    · cases access <;> exact outcome_copyCurrent_of_none isOpen gone _ offset buffer
    · cases access <;> exact outcome_copyCurrent_of_none isOpen gone _ offset buffer

/-- **What is staged is a snapshot**, and what cursors are on is read exactly. In every store that
    calls and units of work lead to, a look-up that finds a value tells its size, and from then on,
    until the next one that finds a value, all that is read of what it staged is that value, whatever
    becomes of the entry. What a cursor is on is read with its full size and as it is stored. -/
theorem Reachable.reads_exact {settings : Settings} {store : Store}
    (reachable : Reachable settings store) (access : Access) :
    (∀ scope key entry, store.find? scope key = some entry → ∃ after,
      outcome (access.backend.stage scope key) store = (.ok (some entry.value.length), after)
        ∧ ∀ later, after.Onward later → after.Remembers later entry.value) ∧
    (∀ id cursor, store.cursors.get? id = some cursor → store.Shows access id cursor) := by
  have steady := reachable.steady
  constructor
  · intro scope key entry found
    have told := (steady.sized.entries scope key entry found).value
    refine ⟨{ store with staged := entry.value }, ?_, fun later onward => ?_⟩
    · have stages : outcome (Store.stage scope key) store
          = (.ok (some entry.value.length), { store with staged := entry.value }) := by
        rw [outcome_stage, found, ← Bytes.told_of_lt told]
        rfl
      cases access <;> exact stages
    · exact remembers_of_staged rfl told onward
  · intro id cursor isOpen
    exact steady.shows isOpen access

/-- A store with one value of three bytes. -/
def oneValue : Store :=
  (outcome (⟨.native, .write .empty [7] [1, 2, 3] .empty⟩ : Issued Int).perform (.fresh default)).2

/-- The value is remembered when its entry has been dropped. -/
theorem reads_exact_dropped :
    Reachable default oneValue ∧ oneValue.find? .empty [7] = some ⟨[1, 2, 3], .empty⟩ ∧
      ∃ after, outcome (stage .empty [7]) oneValue = (.ok (some 3), after)
        ∧ after.Remembers (outcome (⟨.native, .erase .empty [7]⟩ : Issued Int).perform after).2
          [1, 2, 3] := by
  have reachable : Reachable default oneValue := .call _ .fresh
  have found : oneValue.find? .empty [7] = some ⟨[1, 2, 3], .empty⟩ := by decide
  obtain ⟨after, stages, remembers⟩ := (reachable.reads_exact .native).1 _ _ _ found
  have unfound : ¬ (⟨.native, .erase .empty [7]⟩ : Issued Int).Finds after :=
    fun ⟨_, _, looks, _⟩ => nomatch looks
  exact ⟨reachable, found, after, stages, remembers _ (.call _ .here unfound)⟩

end Store

end IndexedStore
