import IndexedStore.Proofs.Table.Ranges
/-!
# Look-ups agree

A key can be looked up in many ways: asked for, read, demanded, or found by a walk that is then read,
under the primary index or by way of a secondary one. In a store that files a map of records all of
them answer by that map.

* `View.outcome_get`, `View.outcome_demand`: a direct look-up answers what the entries say, in any
  store;
* `View.outcome_find_of_stored`, `View.outcome_find_of_missing`: a walk finds exactly the keys of the
  index that have an entry, and gives its cursor back otherwise;
* `View.Finds`, `View.Misses` list the answers of all look-ups, `View.Unbroken` says that no read of
  an index meets a pointer that dangles;
* **`View.lookups_agree`** is the result.
-/

namespace IndexedStore

open IndexedStore.Action

variable {ρ : Type}

namespace View

open Walk

variable {view : View ρ} {store : Store} {records : OrdMap Bytes ρ} {full : Bytes}

/-! ## 1. Direct look-ups -/

/-- What the entries of a store say of the record under a key. -/
def found (view : View ρ) (store : Store) (full : Bytes) : Except Fault (Option ρ) :=
  match store.find? view.table.scope full with
  | none => .ok none
  | some entry => some <$> view.resolved store entry.value

theorem outcome_get (view : View ρ) (store : Store) (full : Bytes) :
    outcome (view.get Store.native full) store = (view.found store full, store) := by
  unfold View.get found
  rw [outcome_bind_ok (Table.outcome_read ..)]
  cases store.find? view.table.scope full with
  | none => rfl
  | some entry =>
    refine (outcome_bind_looks (view.outcome_resolved store entry.value)
      fun _ => outcome_pure ..).trans ?_
    rfl

/-- The answer to a demand: a key without a record is a fault. -/
def demanded (answer : Except Fault (Option ρ)) : Except Fault ρ :=
  answer >>= fun
    | none => .error .keyNotFound
    | some record => .ok record

theorem outcome_demand (view : View ρ) (store : Store) (full : Bytes) :
    outcome (view.demand Store.native full) store = (demanded (view.found store full), store) := by
  refine outcome_bind_looks (view.outcome_get store full) fun answer => ?_
  cases answer <;> rfl

/-! ## 2. Walks to a key -/

/-- A walk at rest stands on a key exactly if its cursor does and the key has an entry. -/
theorem outcome_standsOn {id : CursorId} {position : Position} {walk : Walk ρ}
    (rests : Rests view id store position walk)
    (stored : ∀ key, position = .onKey key → (store.find? view.table.scope key).isSome)
    (full : Bytes) :
    outcome (standsOn Store.native walk full) store
      = (.ok (decide (position = .onKey full)), store) := by
  have holds := rests.walk
  cases position with
  | ended =>
    rw [holds]
    rfl
  | onKey key =>
    have live : store.standingOf (view.cursorAt (.onKey key)) = .live := if_pos (stored key rfl)
    rw [live] at holds
    subst holds
    have compared : outcome ((holding view id .live).compareKey Store.native full) store
        = (.ok (Bytes.order key full), store) := by
      show outcome (Store.compareKey id full) store = _
      rw [Store.outcome_compareKey, rests.cursor]
      rfl
    have good : (holding view id .live).isGood = true := rfl
    have asked : outcome (((holding view id .live).compareKey Store.native full).onFault
        ((holding view id .live).release Store.native)) store
          = (.ok (Bytes.order key full), store) := by
      rw [outcome_onFault, compared]
    unfold standsOn
    rw [if_pos good, outcome_bind_ok asked, outcome_pure]
    have same : Bytes.order key full = .eq ↔ Position.onKey key = .onKey full := by
      rw [Bytes.order_eq_eq_iff, Position.onKey.injEq]
    rw [decide_eq_decide.mpr same]

/-- **A walk finds a key of the index that has an entry.** -/
theorem outcome_find_of_stored (free : store.HasSlots 1)
    (begins : Bytes.startsWith full view.placement.stem)
    (stored : (store.find? view.table.scope full).isSome) :
    ∃ id after, outcome (view.find Store.native full) store = (.ok (holding view id .live), after)
      ∧ Joined id store after
      ∧ after.cursors.get? id = some (view.cursorAt (.onKey full)) := by
  rcases view.outcome_seek store full with ⟨taken, _⟩ | ⟨walk, id, after, sought, joined, rests⟩
  · exact absurd free taken
  have stored' : (after.find? view.table.scope full).isSome := by
    unfold Store.find? Store.shelf
    rw [joined.shelves]
    exact stored
  -- The first key from `full` on is `full` itself.
  have here : after.firstFrom view.table.scope view.placement.stem full = .onKey full :=
    (Store.least_firstFrom ..).eq_onKey begins stored' Std.lt_irrefl fun _ above => above
  rw [here] at rests
  have stands := outcome_standsOn rests
    (fun key place => Position.onKey.inj place ▸ stored') full
  have live : after.standingOf (view.cursorAt (.onKey full)) = .live := if_pos stored'
  have walk_eq : walk = holding view id .live := live ▸ rests.walk
  refine ⟨id, after, ?_, joined, rests.cursor⟩
  unfold View.find
  rw [outcome_bind_ok sought, outcome_bind_ok stands, if_pos (decide_eq_true rfl), walk_eq]
  rfl

/-- A cursor that is opened and closed again leaves the cursors as they were. -/
theorem Joined.closed {id : CursorId} {after : Store} (joined : Joined id store after) :
    after.cursors.erase id = store.cursors := by
  refine OrdMap.ext_get? fun other => ?_
  by_cases here : other = id
  · rw [here, joined.fresh, OrdMap.get?_erase, if_pos rfl]
  · rw [OrdMap.get?_erase_of_ne _ here, joined.others other here]

/-- **A walk does not find any other key**, and gives its cursor back. -/
theorem outcome_find_of_missing (free : store.HasSlots 1)
    (missing : Bytes.startsWith full view.placement.stem →
      store.find? view.table.scope full = none) :
    ∃ after, outcome (view.find Store.native full) store = (.ok (.atEnd view .forward), after)
      ∧ after.shelves = store.shelves ∧ after.settings = store.settings
      ∧ after.cursors = store.cursors := by
  rcases view.outcome_seek store full with ⟨taken, _⟩ | ⟨walk, id, after, sought, joined, rests⟩
  · exact absurd free taken
  have same : ∀ key, after.find? view.table.scope key = store.find? view.table.scope key := by
    intro key
    unfold Store.find? Store.shelf
    rw [joined.shelves]
  have least := Store.least_firstFrom after view.table.scope view.placement.stem full
  let position := after.firstFrom view.table.scope view.placement.stem full
  have stored : ∀ key, position = .onKey key → (after.find? view.table.scope key).isSome := by
    intro key place
    have inside : after.Least _ _ _ position := least
    rw [place] at inside
    exact inside.2.1
  have elsewhere : position ≠ .onKey full := by
    intro place
    have inside : after.Least _ _ _ position := least
    rw [place] at inside
    have none := missing inside.1
    rw [← same] at none
    exact Bool.false_ne_true ((Option.isSome_eq_false_iff.mpr
      (Option.isNone_iff_eq_none.mpr none)).symm.trans (stored full place))
  have stands := outcome_standsOn rests stored full
  have closed := Store.outcome_closeCursor id after
  rw [rests.cursor] at closed
  refine ⟨{ after with cursors := after.cursors.erase id }, ?_, joined.shelves, joined.settings,
    joined.closed⟩
  unfold View.find
  rw [outcome_bind_ok sought, outcome_bind_ok stands,
    if_neg (by rw [decide_eq_true_iff]; exact elsewhere), rests.walk]
  have released : outcome (Store.native.closeCursor id) after = _ := closed
  exact congrArg (fun left => ((Except.ok (Walk.atEnd view .forward) : Except Fault (Walk ρ)), left))
    (congrArg Prod.snd released)

end View

/-! ## 3. Reading where a walk stands -/

namespace Walk

variable {walk : Walk ρ} {store : Store} {id : CursorId} {bytes : Bytes}

/-- Whether the cursor that a walk holds, if it is open, is one over the keys of the walk's index, on
    one of these keys or at the end. -/
def Sound (store : Store) (walk : Walk ρ) : Prop :=
  ∀ hold cursor, walk.hold = some hold → store.cursors.get? hold.cursor = some cursor →
    ∃ position, cursor = walk.view.cursorAt position
      ∧ ∀ key, position = .onKey key → Bytes.startsWith key walk.view.placement.stem

theorem outcome_current_live {fetch : CursorId → Action Store (Option Bytes)}
    (hold : walk.hold = some ⟨id, .live⟩)
    (fetched : outcome (fetch id) store = (.ok (some bytes), store)) :
    outcome (walk.current fetch) store = (.ok bytes, store) := by
  unfold current
  rw [hold]
  exact outcome_bind_ok fetched

/-- The record at the position of a walk is what the value there stands for. -/
theorem outcome_value_live (hold : walk.hold = some ⟨id, .live⟩)
    (fetched : outcome (Store.currentValue id) store = (.ok (some bytes), store)) :
    outcome (walk.value Store.native) store = (walk.view.resolved store bytes, store) := by
  have current : outcome (walk.current Store.native.currentValue) store = (.ok bytes, store) :=
    outcome_current_live hold fetched
  exact (outcome_bind_ok current).trans (walk.view.outcome_resolved store bytes)

/-- What a walk has no value to resolve for, it answers without looking at a pointer. -/
theorem outcome_value_cases (sound : walk.Sound store) :
    (∃ fault, (∀ cause, fault ≠ .state cause)
      ∧ outcome (walk.value Store.native) store = (.error fault, store)) ∨
    ∃ key entry, Bytes.startsWith key walk.view.placement.stem
      ∧ store.find? walk.view.table.scope key = some entry
      ∧ outcome (walk.value Store.native) store
        = (walk.view.resolved store entry.value, store) := by
  have refused : ∀ fault, (∀ cause, fault ≠ .state cause) →
      outcome (walk.current Store.native.currentValue) store = (.error fault, store) →
      ∃ fault, (∀ cause, fault ≠ .state cause)
        ∧ outcome (walk.value Store.native) store = (.error fault, store) :=
    fun _ apart ended => ⟨_, apart, outcome_bind_error ended⟩
  unfold current at refused
  cases hold : walk.hold with
  | none =>
    rw [hold] at refused
    exact .inl (refused (.misuse .readAtEnd) (fun _ => nofun) rfl)
  | some held =>
    obtain ⟨id, standing⟩ := held
    rw [hold] at refused
    cases standing with
    | ended => exact .inl (refused (.misuse .readAtEnd) (fun _ => nofun) rfl)
    | erased => exact .inl (refused (.misuse .readErased) (fun _ => nofun) rfl)
    | live =>
      have fetched := Store.outcome_currentValue id store
      cases isOpen : store.cursors.get? id with
      | none =>
        rw [isOpen] at fetched
        exact .inl (refused (.unknownCursor id) (fun _ => nofun) (outcome_bind_error fetched))
      | some cursor =>
        rw [isOpen] at fetched
        dsimp only at fetched
        obtain ⟨position, rfl, inside⟩ := sound _ cursor hold isOpen
        cases stands : store.entryAt? (walk.view.cursorAt position) with
        | none =>
          rw [stands] at fetched
          exact .inl (refused (.misuse .readErased) (fun _ => nofun)
            ((outcome_bind_ok fetched).trans rfl))
        | some found =>
          rw [stands] at fetched
          cases position with
          | ended => exact nomatch stands
          | onKey key =>
            obtain ⟨entry, stored, rfl⟩ := Option.map_eq_some_iff.mp stands
            exact .inr ⟨key, entry, inside key rfl, stored, outcome_value_live hold fetched⟩

end Walk

/-! ## 4. All look-ups -/

namespace View

open Walk

variable {view : View ρ} {store : Store} {records : OrdMap Bytes ρ}

/-- Whether all look-ups of a key of an index find a record: the key is `full` in the store, and `key`
    without the stem. -/
structure Finds (view : View ρ) (store : Store) (key full : Bytes) (record : ρ) : Prop where
  holds : outcome (view.holds Store.native full) store = (.ok true, store)
  get : outcome (view.get Store.native full) store = (.ok (some record), store)
  demand : outcome (view.demand Store.native full) store = (.ok record, store)
  find : store.HasSlots 1 → ∃ walk after,
    outcome (view.find Store.native full) store = (.ok walk, after)
      ∧ walk.view = view ∧ walk.direction = .forward ∧ walk.isGood
      ∧ outcome (walk.key Store.native) after = (.ok full, after)
      ∧ outcome (walk.keyBehindStem Store.native) after = (.ok key, after)
      ∧ outcome (walk.value Store.native) after = (.ok record, after)

/-- Whether all look-ups of a key in the store find nothing. -/
structure Misses (view : View ρ) (store : Store) (full : Bytes) : Prop where
  holds : outcome (view.holds Store.native full) store = (.ok false, store)
  get : outcome (view.get Store.native full) store = (.ok none, store)
  demand : outcome (view.demand Store.native full) store = (.error .keyNotFound, store)
  find : store.HasSlots 1 → ∃ after,
    outcome (view.find Store.native full) store = (.ok view.pastLast, after)

/-- Whether no read of an index meets a pointer that dangles: no direct look-up of its keys does, no
    walk over it, no scan that waits in it and no range. Scans and ranges meet no fault at all. -/
structure Unbroken (view : View ρ) (store : Store) : Prop where
  get : ∀ key cause,
    (outcome (view.get Store.native (view.placement.fullKey key)) store).1 ≠ .error (.state cause)
  demand : ∀ key cause,
    (outcome (view.demand Store.native (view.placement.fullKey key)) store).1
      ≠ .error (.state cause)
  value : ∀ walk : Walk ρ, walk.view = view → walk.Sound store → ∀ cause,
    (outcome (walk.value Store.native) store).1 ≠ .error (.state cause)
  next : ∀ {stop scan position}, Scan.Waits view stop store scan position → ∀ fault,
    (scan.next Store.native (Scan.readRecord Store.native) store).1.1 ≠ some (.error fault)
  range : store.HasSlots 2 → ∀ lower upper fault,
    (outcome (view.range Store.native lower upper) store).1 ≠ .error fault

/-- Every stored value of an index stands for a record. -/
theorem exists_resolved (files : view.table.Files store records)
    (back : view.table.ReadsBack records) {key : Bytes} {entry : Entry}
    (begins : Bytes.startsWith key view.placement.stem)
    (stored : store.find? view.table.scope key = some entry) :
    ∃ record, records.get? (view.table.recordKey record) = some record
      ∧ view.index.fullKey record = key ∧ view.resolved store entry.value = .ok record := by
  obtain ⟨record, filed, own, live, rfl⟩ := live_of_entry files begins stored
  exact ⟨record, filed, own, Intact.resolved ⟨live, back _ record filed⟩⟩

/-- **All look-ups find a filed record.** -/
theorem finds_of_filed (files : view.table.Files store records)
    (back : view.table.ReadsBack records) {record : ρ}
    (filed : records.get? (view.table.recordKey record) = some record) :
    view.Finds store (view.index.key record).encode (view.index.fullKey record) record := by
  have begins : Bytes.startsWith (view.index.fullKey record) view.placement.stem :=
    Placement.contains_iff.mpr ⟨_, rfl⟩
  have isStored := stored_of_filed files filed
  obtain ⟨entry, stored⟩ := Option.isSome_iff_exists.mp isStored
  obtain ⟨other, filed', own, resolved⟩ := exists_resolved files back begins stored
  obtain rfl := eq_of_fullKey files filed' filed own
  have found : view.found store (view.index.fullKey other) = .ok (some other) := by
    unfold found
    rw [stored]
    dsimp only
    rw [resolved]
    rfl
  refine ⟨?_, ?_, ?_, fun free => ?_⟩
  · show (Except.ok (store.find? view.table.scope (view.index.fullKey other)).isSome, store) = _
    rw [stored]
    rfl
  · rw [outcome_get, found]
  · rw [outcome_demand, found]
    rfl
  · obtain ⟨id, after, came, joined, cursor⟩ := outcome_find_of_stored free begins isStored
    have same : ∀ key, after.find? view.table.scope key = store.find? view.table.scope key := by
      intro key
      unfold Store.find? Store.shelf
      rw [joined.shelves]
    have resolved' : view.resolved after entry.value = .ok other := by
      unfold View.resolved
      rw [same]
      exact resolved
    have here : after.entryAt? (view.cursorAt (.onKey (view.index.fullKey other)))
        = some (view.index.fullKey other, entry) := entryAt?_cursorAt ((same _).trans stored)
    have fetchedKey := Store.outcome_currentKey id after
    have fetched := Store.outcome_currentValue id after
    rw [cursor] at fetchedKey fetched
    dsimp only at fetchedKey fetched
    rw [here] at fetchedKey fetched
    have readKey : outcome ((holding view id .live).key Store.native) after
        = (.ok (view.index.fullKey other), after) := outcome_current_live rfl fetchedKey
    refine ⟨_, after, came, rfl, rfl, rfl, readKey, ?_, ?_⟩
    · refine (outcome_bind_ok readKey).trans ?_
      exact congrArg (·, after) (Placement.behindStem_fullKey ..)
    · rw [outcome_value_live rfl fetched]
      exact congrArg (·, after) resolved'

/-- A store is asked for a key of the scope, of whatever index. -/
theorem outcome_holds (view : View ρ) (store : Store) (full : Bytes) :
    outcome (view.holds Store.native full) store
      = (.ok (store.find? view.table.scope full).isSome, store) := rfl

/-- What the scope has no entry for, no look-up finds. -/
theorem misses_of_missing {full : Bytes} (missing : store.find? view.table.scope full = none) :
    view.Misses store full := by
  have found : view.found store full = .ok none := by
    unfold found
    rw [missing]
  refine ⟨?_, ?_, ?_, fun free => ?_⟩
  · rw [outcome_holds, missing]
    rfl
  · rw [outcome_get, found]
  · rw [outcome_demand, found]
    rfl
  · obtain ⟨after, came, _⟩ := outcome_find_of_missing free fun _ => missing
    exact ⟨after, came⟩

/-- **No look-up finds a key that no filed record has.** -/
theorem misses_of_free (files : view.table.Files store records) {key : Bytes}
    (free : ∀ record, records.get? (view.table.recordKey record) = some record →
      (view.index.key record).encode ≠ key) :
    view.Misses store (view.placement.fullKey key) := by
  have begins : Bytes.startsWith (view.placement.fullKey key) view.placement.stem :=
    Placement.contains_iff.mpr ⟨_, rfl⟩
  have missing : store.find? view.table.scope (view.placement.fullKey key) = none := by
    cases stored : store.find? view.table.scope (view.placement.fullKey key) with
    | none => rfl
    | some entry =>
      obtain ⟨record, filed, own, _⟩ := live_of_entry files begins stored
      exact absurd (Placement.fullKey_inj own) (free record filed)
  exact misses_of_missing missing

/-- **No pointer of a filed table dangles**, by whichever read it is met. -/
theorem unbroken_of_files (files : view.table.Files store records)
    (back : view.table.ReadsBack records) : view.Unbroken store := by
  have direct : ∀ key, ∃ answer, view.found store (view.placement.fullKey key) = .ok answer := by
    intro key
    have begins : Bytes.startsWith (view.placement.fullKey key) view.placement.stem :=
      Placement.contains_iff.mpr ⟨_, rfl⟩
    unfold found
    cases stored : store.find? view.table.scope (view.placement.fullKey key) with
    | none => exact ⟨none, rfl⟩
    | some entry =>
      obtain ⟨record, _, _, resolved⟩ := exists_resolved files back begins stored
      dsimp only
      rw [resolved]
      exact ⟨some record, rfl⟩
  refine ⟨fun key cause => ?_, fun key cause => ?_, ?_, ?_, fun free lower upper fault => ?_⟩
  · obtain ⟨answer, found⟩ := direct key
    rw [outcome_get, found]
    exact nofun
  · obtain ⟨answer, found⟩ := direct key
    rw [outcome_demand, found]
    cases answer with
    | none => exact fun same => nomatch same
    | some record => exact fun same => nomatch same
  · rintro walk rfl sound cause
    rcases outcome_value_cases sound with ⟨fault, apart, ended⟩ | ⟨key, entry, begins, stored, ended⟩
    · rw [ended]
      exact fun same => apart cause (Except.error.inj same)
    · obtain ⟨record, _, _, resolved⟩ := exists_resolved files back begins stored
      rw [ended, resolved]
      exact nofun
  · intro stop scan position waits fault
    cases position with
    | ended =>
      obtain ⟨scan', answers, _⟩ := Scan.next_of_ended (Scan.readRecord Store.native) waits
      rw [answers]
      exact nofun
    | onKey key =>
      obtain ⟨scan', after, _, ends | gives⟩ := Scan.next_of_onKey reads_intact files back waits
      · rw [ends.1]
        exact nofun
      · obtain ⟨item, position, answers, _⟩ := gives
        rw [answers]
        exact nofun
  · obtain ⟨items, read, _⟩ := range_items files back free lower upper
    rw [read]
    exact nofun

/-! ## 5. The result -/

/-- **All look-ups agree with the filed records**, under every index. If a record is filed whose key
    the look-up is for, given as a value, encoded or in full, then it is the only one, all ways of
    asking find it, and a walk stands on its entry and reads its keys and the record itself. If there
    is none, the answers are no, nothing, a fault for a demand, and the end for a walk. No read of an
    index meets a dangling pointer. Whether the table has a record with the primary key of a given one
    is answered by the filed records too. -/
theorem lookups_agree (files : view.table.Files store records)
    (back : view.table.ReadsBack records) :
    (∀ record, records.get? (view.table.recordKey record) = some record →
      (∀ other, records.get? (view.table.recordKey other) = some other →
        (view.index.key other).encode = (view.index.key record).encode → other = record) ∧
      ∀ probe, view.fullKey probe = view.index.fullKey record →
        view.Finds store (view.index.key record).encode (view.fullKey probe) record) ∧
    (∀ key, (∀ record, records.get? (view.table.recordKey record) = some record →
        (view.index.key record).encode ≠ key) →
      ∀ probe, view.fullKey probe = view.placement.fullKey key →
        view.Misses store (view.fullKey probe)) ∧
    view.Unbroken store ∧
    ∀ record, outcome (view.table.contains Store.native record) store
      = (.ok (records.contains (view.table.recordKey record)), store) := by
  refine ⟨fun record filed => ⟨fun other filed' same => ?_, fun probe here => ?_⟩,
    fun key free probe here => ?_, unbroken_of_files files back, fun record => ?_⟩
  · exact eq_of_fullKey files filed' filed (congrArg view.placement.fullKey same)
  · rw [here]
    exact finds_of_filed files back filed
  · rw [here]
    exact misses_of_free files free
  · show (Except.ok (store.find? view.table.scope (view.table.primaryIndex.placement.fullKey
      (view.table.recordKey record))).isSome, store) = _
    rw [files.primary, Option.isSome_map]
    rfl

/-- Of three notes, the one of two bytes is found by its length and text, and no note of three
    bytes is. -/
theorem lookups_agree_notes :
    byLengthAndText.Finds threeNotes.1
      (KeyValue.tuple [.unsigned 8 2, .bytes [1, 1]]).encode
      (byLengthAndText.fullKey (.value (.tuple [.unsigned 8 2, .bytes [1, 1]]))) [1, 1] ∧
    byLengthAndText.Misses threeNotes.1
      (byLengthAndText.fullKey (.encoded (KeyValue.tuple [.unsigned 8 3, .bytes [1, 1, 1]]).encode)) := by
  have roundTrip : listingTable.format.RoundTrip := fun _ => rfl
  have empty : listingTable.Files (Store.fresh default) .empty := Table.Files.empty fun _ _ _ => rfl
  have files : byLengthAndText.table.Files threeNotes.1 threeNotes.2 :=
    files_listed (files_listed (files_listed empty [2]) [1, 1]) [1]
  obtain ⟨finds, misses, _⟩ := lookups_agree files (Table.readsBack roundTrip threeNotes.2)
  refine ⟨(finds [1, 1] (by decide +kernel)).2 _ rfl, misses _ (fun record filed same => ?_) _ rfl⟩
  have notes : threeNotes.2.entries.map (·.2) = [[1], [1, 1], [2]] := by decide +kernel
  have mem : record ∈ threeNotes.2.entries.map (·.2) :=
    List.mem_map.mpr ⟨_, OrdMap.get?_eq_some_iff.mp filed, rfl⟩
  rw [notes] at mem
  -- None of the three notes has three bytes.
  have others : ∀ note ∈ [[1], [1, 1], [2]], (byLengthAndText.index.key note).encode
      ≠ (KeyValue.tuple [.unsigned 8 3, .bytes [1, 1, 1]]).encode := by decide +kernel
  exact others record mem same

end View

end IndexedStore
