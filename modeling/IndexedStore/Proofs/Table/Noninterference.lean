import IndexedStore.Proofs.Table.Parties
import Mathlib.Logic.Function.Basic
import Mathlib.Tactic.SplitIfs
/-!
# Tables and single records do not interfere

Several parties, tables and single records, share one store. A WORLD is the store and the desk of
each. MOVES are their deeds in the order in which they happen to come, and a HISTORY is what each
move was answered.

* `SingleCall.recall` is what a single record should hold, by the calls on it and their answers, and
  `SingleCall.recalls` that it does;
* `Together` says that each party of a shared world is as far as in a world of its own;
  `Together.move` is that a move keeps it, whoever makes it, and `Together.run` that all moves do;
* **`World.undisturbed`**: whatever the order, each party is answered as if it were alone, and owns
  the same entries. `World.disturbed_household` shows why a key that is looked up directly must be
  the table's own.
-/

namespace IndexedStore

open IndexedStore.Action

variable {ρ β : Type}

/-! ## 1. What single records hold -/

/-- What a single record should hold after a call: the record that was put last, unless it has been
    removed since. -/
def SingleCall.recall : SingleCall ρ β → Except Fault β → Option ρ → Option ρ
  | put record, .ok _, _ => some record
  | remove, .ok _, _ => none
  | _, _, held => held

/-- Whether a store holds a given record, or none, as the single record. -/
def SingleRecord.Recalls (single : SingleRecord ρ) (store : Store) (held : Option ρ) : Prop :=
  (store.find? single.scope single.key).map (·.value) = held.map single.format.pack

/-- What the entries of a store say of a single record. -/
def SingleRecord.found (single : SingleRecord ρ) (store : Store) : Except Fault (Option ρ) :=
  match (store.find? single.scope single.key).map (·.value) with
  | none => .ok none
  | some payload => some <$> single.format.unpack payload

section Recalling

variable {single : SingleRecord ρ} {store : Store} {held : Option ρ}

theorem SingleRecord.outcome_isStored (single : SingleRecord ρ) (store : Store) :
    outcome (single.isStored Store.native) store
      = (.ok (store.find? single.scope single.key).isSome, store) := rfl

theorem SingleRecord.outcome_get (single : SingleRecord ρ) (store : Store) :
    outcome (single.get Store.native) store = (single.found store, store) := by
  unfold SingleRecord.get found
  rw [outcome_bind_ok (Table.outcome_read ..)]
  cases (store.find? single.scope single.key).map (·.value) with
  | none => rfl
  | some payload =>
    refine (outcome_bind_looks (outcome_ofExcept ..) fun _ => outcome_pure ..).trans ?_
    rfl

/-- **What should be held is what is read.** -/
theorem SingleRecord.Recalls.found_eq (h : single.Recalls store held)
    (roundTrip : single.format.RoundTrip) : single.found store = .ok held := by
  unfold found
  rw [h]
  cases held with
  | none => rfl
  | some record => exact congrArg (some <$> ·) (roundTrip record)

theorem SingleRecord.find?_replaced (single : SingleRecord ρ) (store : Store)
    (entry : Option Entry) :
    ((store.replace single.scope single.key entry).2.find? single.scope single.key).map (·.value)
      = entry.map (·.value) := by
  rw [Store.find?_replace, if_pos ⟨rfl, rfl⟩]

/-- After each call the record that should be held is held. -/
theorem SingleCall.recalls (made : SingleCall ρ β) (h : single.Recalls store held) :
    single.Recalls (outcome (made.perform Store.native single) store).2
      (made.recall (outcome (made.perform Store.native single) store).1 held) := by
  cases made with
  | isStored => exact h
  | get =>
    have ran : outcome (SingleCall.get.perform Store.native single) store = _ :=
      single.outcome_get store
    rw [ran]
    exact h
  | getD default =>
    have ran : outcome ((SingleCall.getD default).perform Store.native single) store = _ :=
      outcome_bind_looks (single.outcome_get store) fun _ => outcome_pure ..
    rw [ran]
    exact h
  | put record =>
    have writes : outcome (Store.native.write single.scope single.key (single.format.pack record)
        single.scope) store = _ := Store.outcome_write ..
    have ran : outcome ((SingleCall.put record).perform Store.native single) store = _ :=
      outcome_bind ..
    rw [ran, writes]
    split_ifs
    · exact h
    · exact h
    · exact single.find?_replaced store (some ⟨single.format.pack record, single.scope⟩)
  | remove =>
    cases stored : store.find? single.scope single.key with
    | none =>
      have asks : outcome (single.isStored Store.native) store = (.ok false, store) :=
        (single.outcome_isStored store).trans (by rw [stored]; rfl)
      have ran : outcome (SingleCall.remove.perform Store.native single) store
          = (.ok false, store) := outcome_bind_ok asks
      rw [ran]
      exact congrArg (Option.map _) stored
    | some entry =>
      have asks : outcome (single.isStored Store.native) store = (.ok true, store) :=
        (single.outcome_isStored store).trans (by rw [stored]; rfl)
      have erases : outcome (Store.native.erase single.scope single.key) store = _ :=
        (Store.outcome_erase ..).trans (by rw [stored])
      have ran : outcome (SingleCall.remove.perform Store.native single) store
          = (.ok true, (store.replace single.scope single.key none).2) :=
        (outcome_bind_ok asks).trans (outcome_bind_ok erases)
      rw [ran]
      exact single.find?_replaced store none

end Recalling

/-- What a party should hold after a deed, if it is a single record. -/
def Deed.recall {party : Party ρ} : Deed party β → Option (Except Fault β) → Option ρ → Option ρ
  | call made, some answer, held => made.recall answer held
  | _, _, held => held

/-- Whether a party that is a single record holds what it should. -/
def Party.Recalls : Party ρ → Store → Option ρ → Prop
  | .table .., _, _ => True
  | .single place, store, held => place.Recalls store held

/-- After each deed of its own a party holds what it should. -/
theorem Deed.recalls {party : Party ρ} {store : Store} {held : Option ρ} (deed : Deed party β)
    (desk : Desk ρ) (h : party.Recalls store held) :
    party.Recalls (deed.act desk store).2.2 (deed.recall (deed.act desk store).1 held) := by
  cases deed with
  | call made => exact made.recalls h
  | _ => exact trivial

/-- A party holds what it should as long as what it owns stays. -/
theorem Party.Recalls.keeps {party : Party ρ} {store after : Store} {held : Option ρ}
    (h : party.Recalls store held)
    (same : ∀ key, party.estate.owns key →
      after.find? party.estate.scope key = store.find? party.estate.scope key) :
    party.Recalls after held := by
  cases party with
  | table _ _ _ => exact trivial
  | single place => exact (congrArg (Option.map _) (same place.key rfl)).trans h

/-! ## 2. Worlds -/

section Working

variable {σ : Type} {party : Party ρ} {estate : Estate} {s t after : Store} {d e : Desk ρ}
  {desk desk' : Desk σ}

/-- Work on an estate leaves the entries of another one. -/
theorem Estate.Worked.keeps {other : Estate} (worked : estate.Worked s desk after desk')
    (apart : estate.Apart other) (key : Bytes) (own : other.owns key) :
    after.find? other.scope key = s.find? other.scope key :=
  worked.entries other.scope key fun ⟨same, owns⟩ => apart same.symm key owns own

/-- Where there was nothing but what an estate owns there still is nothing else. -/
theorem Estate.Worked.confined (worked : estate.Worked s desk after desk')
    (confined : ∀ scope key, s.find? scope key ≠ none → scope = estate.scope ∧ estate.owns key)
    (scope : Name) (key : Bytes) (stored : after.find? scope key ≠ none) :
    scope = estate.scope ∧ estate.owns key := by
  by_contra outside
  rw [worked.entries scope key outside] at stored
  exact outside (confined scope key stored)

/-- What others do at a desk of theirs leaves a party as far as it is. -/
theorem Party.Abreast.of_worked (h : party.Abreast s d t e)
    (worked : estate.Worked s desk after desk') (apart : estate.Apart party.estate)
    (disjoint : ∀ id, d.Holds id → ¬ desk.Holds id) : party.Abreast after d t e where
  alike := h.alike.of_entries worked.settings (worked.keeps apart)
  both name := (h.both name).keeps after fun id _ held isOpen =>
    worked.ledger.keeps (disjoint id ⟨name, held⟩) isOpen
  distinct := h.distinct
  distinct' := h.distinct'
  whole := h.whole

end Working

section Worlds

variable {ι : Type} {Rec : ι → Type} {parties : (i : ι) → Party (Rec i)}

/-- A store that several parties share, and the desk of each. -/
structure World (Rec : ι → Type) where
  store : Store
  desks : (i : ι) → Desk (Rec i)

/-- The world that starts with an empty store and clear desks. -/
def World.fresh (Rec : ι → Type) (settings : Settings) : World Rec :=
  ⟨.fresh settings, fun _ => Desk.clear⟩

/-- Whether each party of a shared world is as far as in one of its own, where there is nothing but
    what it owns, and no two hold one cursor. -/
structure Together (parties : (i : ι) → Party (Rec i)) (shared : World Rec) (alone : ι → World Rec)
    (held : (i : ι) → Option (Rec i)) : Prop where
  abreast : ∀ i, (parties i).Abreast shared.store (shared.desks i) (alone i).store
    ((alone i).desks i)
  distinct : ∀ i j id, (shared.desks i).Holds id → (shared.desks j).Holds id → i = j
  confined : ∀ i scope key, (alone i).store.find? scope key ≠ none →
    scope = (parties i).estate.scope ∧ (parties i).estate.owns key
  recalls : ∀ i, (parties i).Recalls shared.store (held i)

/-- In empty stores no party has come anywhere yet. -/
theorem Together.fresh (parties : (i : ι) → Party (Rec i)) (settings : Settings) :
    Together parties (.fresh Rec settings) (fun _ => .fresh Rec settings) fun _ => none where
  abreast i :=
    { alike := ⟨rfl, fun _ _ => rfl, fun _ _ _ stored => nomatch stored⟩
      both := fun name => by
        cases parties i with
        | table _ _ _ => exact ⟨none, nofun, .none, .none⟩
        | single _ => exact ⟨rfl, rfl⟩
      distinct := fun _ _ _ held => nomatch held
      distinct' := fun _ _ _ held => nomatch held
      whole := fun _ isOpen => absurd rfl isOpen }
  distinct _ _ _ := fun ⟨_, held⟩ => nomatch held
  confined _ _ _ stored := absurd rfl stored
  recalls i := by
    cases parties i with
    | table _ _ _ => exact trivial
    | single _ => rfl

/-! ## 3. Moves -/

/-- A deed of one of several parties. -/
structure Move (parties : (i : ι) → Party (Rec i)) where
  party : ι
  {Answer : Type}
  deed : Deed (parties party) Answer

/-- A move and what it was answered; there is no answer where the party has no such handle. -/
structure Moved (parties : (i : ι) → Party (Rec i)) where
  move : Move parties
  answer : Option (Except Fault move.Answer)

/-- The party whose move it was. -/
def Moved.party (moved : Moved parties) : ι := moved.move.party

/-- Whether there are slots for the cursors that a move opens. -/
def Move.Affordable (move : Move parties) (world : World Rec) : Prop :=
  move.deed.Affordable (world.desks move.party) world.store

variable [DecidableEq ι]

/-- Makes a move. -/
def Move.perform (move : Move parties) (world : World Rec) :
    Option (Except Fault move.Answer) × World Rec :=
  let ended := move.deed.act (world.desks move.party) world.store
  (ended.1, { store := ended.2.2, desks := Function.update world.desks move.party ended.2.1 })

/-- The records that the parties should hold after a move, by its answer. -/
def Moved.recall (moved : Moved parties) (held : (i : ι) → Option (Rec i)) :
    (i : ι) → Option (Rec i) :=
  Function.update held moved.move.party
    (moved.move.deed.recall moved.answer (held moved.move.party))

/-- Desks that hold no cursor in common still do not when one of them has taken none of the
    others'. -/
theorem World.distinct_update {desks : (i : ι) → Desk (Rec i)} {who : ι}
    {desk : Desk (Rec who)}
    (distinct : ∀ i j id, (desks i).Holds id → (desks j).Holds id → i = j)
    (disjoint : ∀ i ≠ who, ∀ id, (desks i).Holds id → ¬ desk.Holds id) (i j : ι) (id : CursorId)
    (heldI : (Function.update desks who desk i).Holds id)
    (heldJ : (Function.update desks who desk j).Holds id) : i = j := by
  rcases eq_or_ne i who with rfl | otherI
  · rcases eq_or_ne j i with rfl | otherJ
    · rfl
    · rw [Function.update_self] at heldI
      rw [Function.update_of_ne otherJ] at heldJ
      exact absurd heldI (disjoint j otherJ id heldJ)
  · rw [Function.update_of_ne otherI] at heldI
    rcases eq_or_ne j who with rfl | otherJ
    · rw [Function.update_self] at heldJ
      exact absurd heldJ (disjoint i otherI id heldI)
    · rw [Function.update_of_ne otherJ] at heldJ
      exact distinct i j id heldI heldJ

/-- **A move is answered as if its party were alone**, and all parties stay together. -/
theorem Together.move {shared : World Rec} {alone : ι → World Rec} {held : (i : ι) → Option (Rec i)}
    (h : Together parties shared alone held)
    (differ : ∀ i j, (parties i).label = (parties j).label → i = j) (move : Move parties)
    (own : move.deed.Own) (afford : move.Affordable shared) :
    (move.perform shared).1 = (move.perform (alone move.party)).1 ∧
    Together parties (move.perform shared).2
      (Function.update alone move.party (move.perform (alone move.party)).2)
      (Moved.recall ⟨move, (move.perform shared).1⟩ held) := by
  obtain ⟨who, deed⟩ := move
  have stepped := deed.stepped (h.abreast who) own afford
  have apart : ∀ i ≠ who, (parties who).estate.Apart (parties i).estate :=
    fun i other => Party.apart fun same => other (differ i who same.symm)
  have disjoint : ∀ i ≠ who, ∀ id, (shared.desks i).Holds id → ¬ (shared.desks who).Holds id :=
    fun i other id here there => other (h.distinct i who id here there)
  refine ⟨stepped.answer, fun i => ?_, World.distinct_update h.distinct ?_, fun i => ?_,
    fun i => ?_⟩
  · rcases eq_or_ne i who with rfl | other
    · simp only [Move.perform, Function.update_self]
      exact stepped.abreast
    · simp only [Move.perform, Function.update_of_ne other]
      exact (h.abreast i).of_worked stepped.worked (apart i other) (disjoint i other)
  · intro i other id here
    obtain ⟨cursor, isOpen⟩ := (h.abreast i).opens id here
    exact stepped.worked.ledger.apart (disjoint i other id here) isOpen
  · rcases eq_or_ne i who with rfl | other
    · rw [Function.update_self]
      exact stepped.worked'.confined (h.confined i)
    · rw [Function.update_of_ne other]
      exact h.confined i
  · rcases eq_or_ne i who with rfl | other
    · simp only [Moved.recall, Function.update_self]
      exact deed.recalls (shared.desks i) (h.recalls i)
    · simp only [Moved.recall, Function.update_of_ne other]
      exact (h.recalls i).keeps (stepped.worked.keeps (apart i other))

/-! ## 4. All moves -/

namespace World

/-- The items of a list that are one party's. -/
def only {α : Type 1} (party : α → ι) (i : ι) (items : List α) : List α :=
  items.filter (party · = i)

section Only

variable {α : Type 1} {party : α → ι} {item : α} {i : ι} (rest : List α)

theorem only_cons_of_eq (own : party item = i) :
    only party i (item :: rest) = item :: only party i rest :=
  List.filter_cons_of_pos (decide_eq_true own)

theorem only_cons_of_ne (other : party item ≠ i) :
    only party i (item :: rest) = only party i rest :=
  List.filter_cons_of_neg (by simpa using other)

end Only

/-- The world after some moves. -/
def after : List (Move parties) → World Rec → World Rec
  | [], world => world
  | move :: rest, world => after rest (move.perform world).2

/-- What some moves are answered. -/
def history : List (Move parties) → World Rec → List (Moved parties)
  | [], _ => []
  | move :: rest, world => ⟨move, (move.perform world).1⟩ :: history rest (move.perform world).2

/-- Whether all moves find slots for their cursors. -/
def Affords : List (Move parties) → World Rec → Prop
  | [], _ => True
  | move :: rest, world => move.Affordable world ∧ Affords rest (move.perform world).2

/-- The records that the parties should hold after a history. -/
def recalled (held : (i : ι) → Option (Rec i)) (history : List (Moved parties)) :
    (i : ι) → Option (Rec i) :=
  history.foldl (fun held moved => moved.recall held) held

end World

/-- **All moves are answered as if each party were alone**, and all parties stay together. -/
theorem Together.run {shared : World Rec} {alone : ι → World Rec} {held : (i : ι) → Option (Rec i)}
    (h : Together parties shared alone held)
    (differ : ∀ i j, (parties i).label = (parties j).label → i = j) (moves : List (Move parties))
    (own : ∀ move ∈ moves, move.deed.Own) (afford : World.Affords moves shared) :
    (∀ i, World.only Moved.party i (World.history moves shared)
      = World.history (World.only Move.party i moves) (alone i)) ∧
    Together parties (World.after moves shared)
      (fun i => World.after (World.only Move.party i moves) (alone i))
      (World.recalled held (World.history moves shared)) := by
  induction moves generalizing shared alone held with
  | nil => exact ⟨fun _ => rfl, h⟩
  | cons move rest ih =>
    obtain ⟨answer, together⟩ := h.move differ move (own move List.mem_cons_self) afford.1
    obtain ⟨histories, together⟩ := ih together
      (fun other mem => own other (List.mem_cons_of_mem _ mem)) afford.2
    -- The move goes to the party's own world, and the worlds of the others do not notice.
    have parts : ∀ i, World.only Moved.party i (World.history (move :: rest) shared)
          = World.history (World.only Move.party i (move :: rest)) (alone i) ∧
        World.after (World.only Move.party i rest)
            (Function.update alone move.party (move.perform (alone move.party)).2 i)
          = World.after (World.only Move.party i (move :: rest)) (alone i) := by
      intro i
      have later := histories i
      rw [World.history]
      rcases eq_or_ne move.party i with rfl | other
      · rw [Function.update_self] at later ⊢
        rw [World.only_cons_of_eq _ rfl, World.history, ← later, ← answer]
        exact ⟨World.only_cons_of_eq _ rfl, rfl⟩
      · rw [Function.update_of_ne other.symm] at later ⊢
        have moved : Moved.party ⟨move, (move.perform shared).1⟩ ≠ i := other
        rw [World.only_cons_of_ne _ other, World.only_cons_of_ne _ moved]
        exact ⟨later, rfl⟩
    refine ⟨fun i => (parts i).1, ?_⟩
    rw [funext fun i => (parts i).2] at together
    exact together

namespace World

/-- Whether one of several parties gets from a store that they share what it gets from one of its
    own. -/
structure Undisturbed (parties : (i : ι) → Party (Rec i)) (settings : Settings)
    (moves : List (Move parties)) (i : ι) : Prop where
  /-- Its moves are answered as they are when nobody else makes any. -/
  answers : only Moved.party i (history moves (fresh Rec settings))
    = history (only Move.party i moves) (fresh Rec settings)
  /-- It owns the same entries as then. -/
  entries : ∀ key, (parties i).estate.owns key →
    (after moves (fresh Rec settings)).store.find? (parties i).estate.scope key
      = (after (only Move.party i moves) (fresh Rec settings)).store.find?
          (parties i).estate.scope key
  /-- Nothing else is stored then, so its answers have met nothing of others. -/
  confined : ∀ scope key,
    (after (only Move.party i moves) (fresh Rec settings)).store.find? scope key ≠ none →
    scope = (parties i).estate.scope ∧ (parties i).estate.owns key
  /-- Its cursors keep to its own keys. -/
  cursors : ∀ id, ((after moves (fresh Rec settings)).desks i).Holds id →
    ∃ cursor, (after moves (fresh Rec settings)).store.cursors.get? id = some cursor
      ∧ (parties i).estate.Confines cursor
  /-- Nobody else owns any of these. -/
  apart : ∀ j ≠ i, (parties i).estate.Apart (parties j).estate
  /-- A single record is what was put last and not removed since. -/
  lastPut : ∀ single, parties i = .single single → single.format.RoundTrip →
    outcome (single.get Store.native) (after moves (fresh Rec settings)).store
      = (.ok (recalled (fun _ => none) (history moves (fresh Rec settings)) i),
          (after moves (fresh Rec settings)).store)

/-- **Parties do not interfere.** Tables that differ in scope, status or name and single records
    that differ in scope or name share a store, in whatever order they come, as long as there are
    slots for the cursors that they open and no table is asked directly for a key that is not its
    own. -/
theorem undisturbed (parties : (i : ι) → Party (Rec i))
    (differ : ∀ i j, (parties i).label = (parties j).label → i = j) (settings : Settings)
    (moves : List (Move parties)) (own : ∀ move ∈ moves, move.deed.Own)
    (afford : Affords moves (fresh Rec settings)) (i : ι) :
    Undisturbed parties settings moves i := by
  obtain ⟨answers, together⟩ := (Together.fresh parties settings).run differ moves own afford
  exact
    { answers := answers i
      entries := (together.abreast i).alike.entries
      confined := together.confined i
      cursors := (together.abreast i).confined
      apart := fun j other => Party.apart fun same => other (differ i j same).symm
      lastPut := fun single here roundTrip => by
        have recalls := together.recalls i
        rw [here] at recalls
        rw [single.outcome_get, recalls.found_eq roundTrip] }

end World

end Worlds

/-! ## 5. Notes, memos and one single record -/

/-- Memos are kept as notes are. -/
def Table.memos : Schema Bytes :=
  { Table.notes with table := "memos" }

/-- The memos as a table in the scope of the notes. -/
def Table.memoTable : Table Bytes :=
  (Table.memos.bind ⟨id, .ok⟩ ⟨7⟩ 1).toOption.get rfl

theorem Table.bind_memos : Table.memos.bind ⟨id, .ok⟩ ⟨7⟩ 1 = .ok Table.memoTable := rfl

namespace World

/-- Notes, memos, and a single record without a name, all in one scope. -/
def household : Fin 3 → Party Bytes
  | 0 => .table Table.notes Table.noteTable ⟨_, _, _, Table.bind_notes⟩
  | 1 => .table Table.memos Table.memoTable ⟨_, _, _, Table.bind_memos⟩
  | 2 => .single ⟨⟨7⟩, ⟨0⟩, ⟨id, .ok⟩⟩

/-- A scan of the notes goes on while memos are kept and the single record is put, and put again. -/
def householdMoves : List (Move household) := [
  ⟨0, .errand (.write (.put [1]))⟩,
  ⟨0, .opening 0 ⟨1, by decide⟩ (.scan .whole)⟩,
  ⟨1, .errand (.write (.put [1, 1]))⟩,
  ⟨2, .call (.put [5])⟩,
  ⟨0, .errand (.write (.put [2, 2]))⟩,
  ⟨0, .handling 0 (.next .record)⟩,
  ⟨2, .call (.put [6])⟩,
  ⟨0, .handling 0 (.all .record)⟩,
  ⟨1, .errand (.get ⟨1, by decide⟩
    (View.fullKey ⟨Table.memoTable, ⟨1, by decide⟩⟩ (.value (.bytes [1, 1]))))⟩]

theorem undisturbed_household :
    (∀ i j, (household i).label = (household j).label → i = j) ∧
    (∀ move ∈ householdMoves, move.deed.Own) ∧ Affords householdMoves (fresh _ default) ∧
    (∀ i, Undisturbed household default householdMoves i) ∧
    recalled (fun _ => none) (history householdMoves (fresh _ default)) 2 = some [6] := by
  have differ : ∀ i j, (household i).label = (household j).label → i = j := by decide +kernel
  have own : ∀ move ∈ householdMoves, move.deed.Own := by
    have looks := (Errand.own_fullKey Table.memoTable ⟨1, by decide⟩ (.value (.bytes [1, 1]))
      nofun).2.1
    simp only [householdMoves, List.forall_mem_cons]
    exact ⟨trivial, trivial, trivial, trivial, trivial, trivial, trivial, trivial, looks, nofun⟩
  have affords : Affords householdMoves (fresh _ default) := by
    refine ⟨trivial, ?_, trivial, trivial, trivial, nofun, trivial, nofun, trivial, trivial⟩
    show (after (householdMoves.take 1) (fresh _ default)).store.HasSlots 1
    decide +kernel
  exact ⟨differ, own, affords, undisturbed household differ default householdMoves own affords,
    by decide +kernel⟩

/-- A memo is kept. -/
def memoPut : Move household :=
  ⟨1, .errand (.write (.put [1, 1]))⟩

/-- Whether there is a note is asked with the key of the memo. -/
def foreignLook : Move household :=
  ⟨0, .errand (.holds ⟨1, by decide⟩ (Table.memoTable.primaryKey [1, 1]))⟩

/-- Whether the answer is that there is one. -/
def foreignAnswer (answer : Option (Except Fault foreignLook.Answer)) : Bool :=
  answer.any fun result : Except Fault Bool => result.toOption = some true

/-- **A key of others that is looked up directly tells whether they hold it.** -/
theorem disturbed_household :
    (∀ i j, (household i).label = (household j).label → i = j) ∧
    Affords [memoPut, foreignLook] (fresh _ default) ∧
    ¬ Undisturbed household default [memoPut, foreignLook] 0 := by
  refine ⟨by decide +kernel, ⟨trivial, trivial, trivial⟩, fun undisturbed => ?_⟩
  have answers := undisturbed.answers
  have other : memoPut.party ≠ 0 := by decide
  have other' : ∀ answer, Moved.party ⟨memoPut, answer⟩ ≠ 0 := fun _ => other
  have own : foreignLook.party = 0 := rfl
  have own' : ∀ answer, Moved.party ⟨foreignLook, answer⟩ = 0 := fun _ => own
  rw [history, only_cons_of_ne _ other, only_cons_of_ne _ (other' _), only_cons_of_eq [] own,
    history, only_cons_of_eq _ (own' _), history] at answers
  have same := eq_of_heq (Moved.mk.inj (List.cons.inj answers).1).2
  exact absurd (congrArg foreignAnswer same) (by decide +kernel)

end World

end IndexedStore
