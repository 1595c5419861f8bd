import IndexedStore.Proofs.Table.Custody
import IndexedStore.Proofs.Table.Desks
/-!
# Keepers of cursors

A KEEPER uses a store in every way there is: it keeps walks and scans over any tables, lets them work
and gives them up, asks and writes, and makes calls on the store itself, by which it opens cursors of
its own and closes cursors by their numbers, whoever holds them. Whatever it does, and however that
ends, the open cursors are the ones that its walks and scans hold and the ones that it opened itself,
but for those that it closed by their numbers.

* `Chore` is one thing that a keeper does, `Chore.run` does it, and `Keeper.afterAll` does a list of
  them; `Keeper.Issues` says which numbers the store issues meanwhile;
* `Keeper.Tended` is the invariant: `Keeper.Tended.exchange` and `Keeper.Tended.strike` are the two
  kinds of step, `Keeper.Turns.run` is that every chore is one of them, and `Keeper.Issues.tended` that
  the invariant holds throughout a run;
* `Keeper.Accounted` says which cursors are open after a run, `Keeper.Renewed` that no number comes
  back, `Store.Frugal` what single works leave behind them;
* **`Keeper.accounted`** is the result.
-/

namespace IndexedStore

open IndexedStore.Action

variable {ρ α β : Type}

/-! ## 1. Keepers and their chores -/

/-- A store, and what one user keeps of it. -/
structure Keeper where
  store : Store
  /-- The walks and scans, the latest first. -/
  kept : List ((ρ : Type) × Handle ρ)
  /-- The cursors that calls on the store have opened. -/
  opened : List CursorId
  /-- The cursors that calls on the store have closed. -/
  closed : List CursorId

/-- One thing that a keeper does. Walks and scans are named by their places among those kept. One that
    is replaced is given up after the new one is made. -/
inductive Chore : Type 1 where
  /-- Makes a walk, and keeps it if it can be made. -/
  | walk {ρ : Type} (view : View ρ) (start : Start)
  /-- Makes a scan, and keeps it if it can be made. -/
  | scan {ρ : Type} (view : View ρ) (span : Span)
  /-- Asks a walk. -/
  | tread (place : Nat) (asked : (ρ : Type) → (β : Type) × Tread ρ β)
  /-- Calls for the next item of a scan. -/
  | next (place : Nat) (reading : (ρ : Type) → (α : Type) × Reading ρ α)
  /-- Calls for all items of a scan, and gives it up. -/
  | all (place : Nat) (reading : (ρ : Type) → (α : Type) × Reading ρ α)
  /-- Gives a walk or a scan up. -/
  | release (place : Nat)
  | lookup {ρ β : Type} (made : Lookup ρ β)
  | write {ρ β : Type} (table : Table ρ) (made : TableWrite ρ β)
  | single {ρ β : Type} (place : SingleRecord ρ) (made : SingleCall ρ β)
  | compare {κ : Type} {Rec : κ → Type} {β : Type} (made : Comparison Rec β)
  | call {β : Type} (made : Call β)
  | beginUnit
  | commitUnit
  | rollbackUnit

/-- The cursor that a call has opened. -/
def Call.opened? : Call β → Except Fault β → Option CursorId
  | openCursor .., .ok id => some id
  | _, _ => none

/-- The cursor that a call has closed. -/
def Call.closed? : Call β → Except Fault β → Option CursorId
  | closeCursor id, .ok _ => some id
  | _, _ => none

theorem Call.opened?_eq_none {made : Call β} (apart : ¬ made.Allots) (answer : Except Fault β) :
    made.opened? answer = none := by
  cases made with
  | openCursor => exact absurd trivial apart
  | _ => rfl

theorem Call.closed?_eq_none {made : Call β} (apart : ¬ made.Allots) (answer : Except Fault β) :
    made.closed? answer = none := by
  cases made with
  | closeCursor => exact absurd trivial apart
  | _ => rfl

namespace Keeper

/-- A keeper of nothing, with an empty store. -/
def fresh (settings : Settings) : Keeper :=
  ⟨.fresh settings, [], [], []⟩

/-- The cursors that walks and scans hold. -/
def held (keeper : Keeper) : List CursorId :=
  keeper.kept.filterMap fun entry => entry.2.number?

/-- The cursors that are owned, and have not been closed by their numbers. -/
def owned (keeper : Keeper) : List CursorId :=
  (keeper.held ++ keeper.opened).filter (· ∉ keeper.closed)

/-- Keeps what was made, if it was. -/
def keep (keeper : Keeper) (wrap : α → Handle ρ) : Except Fault α × Store → Keeper
  | (.ok made, store) => { keeper with store, kept := ⟨ρ, wrap made⟩ :: keeper.kept }
  | (.error _, store) => { keeper with store }

/-- Works with what is kept at a place, if there is something, and keeps there what is left of it. -/
def workAt (keeper : Keeper) (place : Nat)
    (work : (ρ : Type) → Handle ρ → Store → Option (Handle ρ) × Store) : Keeper :=
  match keeper.kept[place]? with
  | none => keeper
  | some entry => match work entry.1 entry.2 keeper.store with
    | (some left, store) => { keeper with store, kept := keeper.kept.set place ⟨entry.1, left⟩ }
    | (none, store) => { keeper with store, kept := keeper.kept.eraseIdx place }

end Keeper

namespace Handle

/-- Asks a walk. -/
def tread (backend : Backend Store) (asked : Tread ρ β) :
    Handle ρ → Store → Option (Handle ρ) × Store
  | walk inner, store =>
    let ended := Motion.ends (asked.perform backend) inner store
    (some (walk ended.1.2), ended.2)
  | scan inner, store => (some (scan inner), store)

/-- Calls for the next item of a scan. -/
def next (backend : Backend Store) (reading : Reading ρ α) :
    Handle ρ → Store → Option (Handle ρ) × Store
  | walk inner, store => (some (walk inner), store)
  | scan inner, store =>
    let ended := inner.next backend (reading.read backend) store
    (some (scan ended.1.2), ended.2)

/-- Calls for all items of a scan, which is given up. -/
def all (backend : Backend Store) (reading : Reading ρ α) :
    Handle ρ → Store → Option (Handle ρ) × Store
  | walk inner, store => (some (walk inner), store)
  | scan inner, store => (none, (inner.all backend (reading.read backend) store).2)

/-- Gives a walk or a scan up. -/
def release (backend : Backend Store) (handle : Handle ρ) (store : Store) :
    Option (Handle ρ) × Store :=
  (none, (handle.walking.release backend store).2)

end Handle

/-- Does a chore. There is nothing to do for one that names no walk or scan of its kind. -/
def Chore.run (backend : Backend Store) : Chore → Keeper → Keeper
  | walk view start, keeper => keeper.keep Handle.walk (outcome (start.perform backend view) keeper.store)
  | scan view span, keeper => keeper.keep Handle.scan (outcome (span.start backend view) keeper.store)
  | tread place asked, keeper => keeper.workAt place fun ρ => Handle.tread backend (asked ρ).2
  | next place reading, keeper => keeper.workAt place fun ρ => Handle.next backend (reading ρ).2
  | all place reading, keeper => keeper.workAt place fun ρ => Handle.all backend (reading ρ).2
  | release place, keeper => keeper.workAt place fun _ => Handle.release backend
  | lookup made, keeper => { keeper with store := (outcome (made.perform backend) keeper.store).2 }
  | write table made, keeper =>
    { keeper with store := (outcome (made.perform backend table) keeper.store).2 }
  | single place made, keeper =>
    { keeper with store := (outcome (made.perform backend place) keeper.store).2 }
  | compare made, keeper => { keeper with store := (outcome (made.perform backend) keeper.store).2 }
  | call made, keeper =>
    let ended := outcome (made.perform backend) keeper.store
    { keeper with
      store := ended.2
      opened := (made.opened? ended.1).toList ++ keeper.opened
      closed := (made.closed? ended.1).toList ++ keeper.closed }
  | beginUnit, keeper => { keeper with store := (outcome Store.beginUnit keeper.store).2 }
  | commitUnit, keeper => { keeper with store := (Store.commitUnit keeper.store).2 }
  | rollbackUnit, keeper => { keeper with store := (Store.rollbackUnit keeper.store).2 }

namespace Keeper

/-- Does chores one after the other, each by one of the ways to the store. -/
def afterAll : List (Access × Chore) → Keeper → Keeper
  | [], keeper => keeper
  | (access, chore) :: rest, keeper => afterAll rest (chore.run access.backend keeper)

/-- The numbers that the store issues while chores are done. -/
inductive Issues : Keeper → List (Access × Chore) → List CursorId → Prop where
  | done (keeper : Keeper) : Issues keeper [] []
  | step {keeper : Keeper} {access : Access} {chore : Chore} {rest : List (Access × Chore)}
    {early late : List CursorId}
    (now : keeper.store.Issues early (chore.run access.backend keeper).store)
    (later : Issues (chore.run access.backend keeper) rest late) :
    Issues keeper ((access, chore) :: rest) (early ++ late)

end Keeper

/-! ## 2. The invariant -/

namespace Keeper

/-- What holds of a keeper at all times, until the numbers of cursors go round. -/
structure Tended (keeper : Keeper) (issued : List CursorId) : Prop where
  line : issued = List.range' 1 issued.length
  counter : keeper.store.nextCursor = 1 + issued.length
  numbered : keeper.store.Numbered
  limited : keeper.store.Limited
  /-- Everything is held by one owner. -/
  apart : (keeper.held ++ keeper.opened).Nodup
  known : ∀ id ∈ keeper.held ++ keeper.opened, id ∈ issued
  closedKnown : ∀ id ∈ keeper.closed, id ∈ issued
  opens : ∀ id, keeper.store.IsOpen id ↔ id ∈ keeper.held ++ keeper.opened ∧ id ∉ keeper.closed

theorem Tended.fresh (settings : Settings) : (Keeper.fresh settings).Tended [] where
  line := rfl
  counter := rfl
  numbered := .fresh settings
  limited := Nat.zero_le _
  apart := List.nodup_nil
  known _ mem := absurd mem List.not_mem_nil
  closedKnown _ mem := absurd mem List.not_mem_nil
  opens _ := iff_of_false (fun isOpen => isOpen rfl) fun mem => absurd mem.1 List.not_mem_nil

section Steps

variable {keeper after : Keeper} {issued new : List CursorId}

theorem Tended.below (h : keeper.Tended issued) {id : CursorId} (mem : id ∈ issued) :
    id < keeper.store.nextCursor := by
  rw [h.line] at mem
  rw [h.counter]
  exact (List.mem_range'_1.mp mem).2

/-- What a store issues goes on where it left off. -/
theorem Tended.issues {store : Store} (h : keeper.Tended issued)
    (issues : keeper.store.Issues new store) (room : 1 + (issued ++ new).length < UInt32.size) :
    issued ++ new = List.range' 1 (issued ++ new).length
      ∧ store.nextCursor = 1 + (issued ++ new).length ∧ store.Numbered
      ∧ ∀ id ∈ new, keeper.store.nextCursor ≤ id := by
  rw [List.length_append] at room ⊢
  rw [← Nat.add_assoc, ← h.counter] at room
  obtain ⟨line, counter, numbered⟩ := issues.numbered h.numbered room
  refine ⟨?_, ?_, numbered, fun id mem => ?_⟩
  · rw [← List.range'_append_1, ← h.line, ← h.counter, ← line]
  · rw [counter, h.counter, Nat.add_assoc]
  · rw [line] at mem
    exact (List.mem_range'_1.mp mem).1

/-- A number that is issued now is none of those that were issued before. -/
theorem Tended.notKnown (h : keeper.Tended issued) (issues : keeper.store.Issues new after.store)
    (room : 1 + (issued ++ new).length < UInt32.size) {id : CursorId} (mem : id ∈ new) :
    id ∉ issued := by
  obtain ⟨_, _, _, above⟩ := h.issues issues room
  exact fun before => Nat.not_lt.mpr (above id mem) (h.below before)

section Exchange

variable {count : Nat} {number number' : Option CursorId} {rest : List CursorId}

/-- What is handed out is none of the others. -/
theorem Tended.exchange_apart (h : keeper.Tended issued)
    (ours : (keeper.held ++ keeper.opened).Perm (number.toList ++ rest))
    (custody : Custody count keeper.store (Holding number) after.store (Holding number'))
    (issues : keeper.store.Issues new after.store)
    (room : 1 + (issued ++ new).length < UInt32.size) : (number'.toList ++ rest).Nodup := by
  have nodup := List.nodup_append.mp (ours.nodup_iff.mp h.apart)
  refine List.nodup_append.mpr ⟨?_, nodup.2.1, fun id mem other there same => ?_⟩
  · cases number' with
    | none => exact List.nodup_nil
    | some _ => exact List.nodup_singleton _
  · subst same
    by_cases was : Holding number id
    · exact nodup.2.2 id (Option.mem_toList.mpr was) id there rfl
    · have known := h.known id (ours.mem_iff.mpr (List.mem_append_right _ there))
      exact h.notKnown issues room (custody.issued issues was (Option.mem_toList.mp mem)) known

/-- What is handed out is open, and what is handed in and not out again is not. -/
theorem Tended.exchange_opens (h : keeper.Tended issued)
    (ours : (keeper.held ++ keeper.opened).Perm (number.toList ++ rest))
    (custody : Custody count keeper.store (Holding number) after.store (Holding number'))
    (issues : keeper.store.Issues new after.store)
    (room : 1 + (issued ++ new).length < UInt32.size) (id : CursorId) :
    after.store.IsOpen id ↔ id ∈ number'.toList ++ rest ∧ id ∉ keeper.closed := by
  have before : keeper.store.IsOpen id ↔ (Holding number id ∨ id ∈ rest) ∧ id ∉ keeper.closed := by
    rw [h.opens id, ours.mem_iff, List.mem_append, Option.mem_toList]
    exact Iff.rfl
  have handed : Holding number' id ↔ id ∈ number'.toList := Option.mem_toList.symm
  rw [List.mem_append, ← handed]
  by_cases was : Holding number id <;> by_cases now : Holding number' id
  · rw [custody.same id (iff_of_true was now), before]
    simp only [was, now, true_or]
  · have nodup := List.nodup_append.mp (ours.nodup_iff.mp h.apart)
    refine iff_of_false (custody.gone id was now) fun mem => ?_
    exact nodup.2.2 id (Option.mem_toList.mpr was) id (mem.1.resolve_left now) rfl
  · have isNew := h.notKnown issues room (custody.issued issues was now)
    exact iff_of_true (custody.made id was now).2 ⟨.inl now, fun mem => isNew (h.closedKnown id mem)⟩
  · rw [custody.same id (iff_of_false was now), before]
    simp only [was, now, false_or]

/-- **A work that hands one cursor in and one out** keeps the invariant: what is handed out is what was
    handed in, or new. -/
theorem Tended.exchange (h : keeper.Tended issued)
    (ours : (keeper.held ++ keeper.opened).Perm (number.toList ++ rest))
    (ours' : (after.held ++ after.opened).Perm (number'.toList ++ rest))
    (closed : after.closed = keeper.closed)
    (custody : Custody count keeper.store (Holding number) after.store (Holding number'))
    (issues : keeper.store.Issues new after.store)
    (room : 1 + (issued ++ new).length < UInt32.size) : after.Tended (issued ++ new) := by
  obtain ⟨line, counter, numbered, _⟩ := h.issues issues room
  have known : ∀ {id}, id ∈ number.toList ++ rest → id ∈ issued :=
    fun mem => h.known _ (ours.mem_iff.mpr mem)
  refine ⟨line, counter, numbered, issues.limited h.limited,
    ours'.nodup_iff.mpr (h.exchange_apart ours custody issues room), fun id mem => ?_,
    fun id mem => List.mem_append_left _ (h.closedKnown id (closed ▸ mem)), fun id => ?_⟩
  · rcases List.mem_append.mp (ours'.mem_iff.mp mem) with now | there
    · by_cases was : Holding number id
      · exact List.mem_append_left _ (known (List.mem_append_left _ (Option.mem_toList.mpr was)))
      · exact List.mem_append_right _ (custody.issued issues was (Option.mem_toList.mp now))
    · exact List.mem_append_left _ (known (List.mem_append_right _ there))
  · rw [closed, ours'.mem_iff]
    exact h.exchange_opens ours custody issues room id

end Exchange

/-- **A cursor that is closed by its number** is open no more, whoever held it. -/
theorem Tended.strike (h : keeper.Tended issued) {id : CursorId} (isOpen : keeper.store.IsOpen id)
    (issues : keeper.store.Issues new (outcome (Store.closeCursor id) keeper.store).2)
    (room : 1 + (issued ++ new).length < UInt32.size) :
    { keeper with
      store := (outcome (Store.closeCursor id) keeper.store).2
      closed := id :: keeper.closed : Keeper }.Tended (issued ++ new) := by
  have custody := Custody.closed id keeper.store
  obtain ⟨line, counter, numbered, _⟩ := h.issues issues room
  refine ⟨line, counter, numbered, issues.limited h.limited, h.apart, fun other mem => ?_,
    fun other mem => ?_, fun other => ?_⟩
  · exact List.mem_append_left _ (h.known other mem)
  · rcases List.mem_cons.mp mem with rfl | mem
    · exact List.mem_append_left _ (h.known _ ((h.opens _).mp isOpen).1)
    · exact List.mem_append_left _ (h.closedKnown other mem)
  · by_cases same : other = id
    · subst same
      exact iff_of_false (custody.gone _ rfl nofun) fun mem => mem.2 List.mem_cons_self
    · have apart : ¬ Holding (some id) other := fun here => same (Option.some.inj here).symm
      refine (custody.same other (iff_of_false apart nofun)).trans ((h.opens other).trans ?_)
      exact and_congr_right fun _ => not_congr ⟨List.mem_cons_of_mem _, fun mem =>
        (List.mem_cons.mp mem).resolve_left same⟩

end Steps

/-! ## 3. Every chore is one step -/

end Keeper

namespace Handle

variable (access : Access) (handle : Handle ρ) (store : Store)

theorem custody_tread (asked : Tread ρ β) :
    Custody 1 store (Holding handle.number?) (handle.tread access.backend asked store).2
      (Holding ((handle.tread access.backend asked store).1.bind number?)) := by
  cases handle with
  | walk inner => exact asked.custody access inner store
  | scan inner => exact (Custody.refl store _).mono (Nat.zero_le 1)

theorem custody_next (reading : Reading ρ α) :
    Custody 1 store (Holding handle.number?) (handle.next access.backend reading store).2
      (Holding ((handle.next access.backend reading store).1.bind number?)) := by
  cases handle with
  | walk inner => exact (Custody.refl store _).mono (Nat.zero_le 1)
  | scan inner =>
    obtain ⟨same, held⟩ := Scan.sameOpen_next access (reading.sameOpen access) inner store
    have held : ((next access.backend reading (scan inner) store).1.bind number?)
        = (scan inner).number? := held
    rw [held]
    exact (Custody.of_sameOpen same _).mono (Nat.zero_le 1)

theorem custody_all (reading : Reading ρ α) :
    Custody 1 store (Holding handle.number?) (handle.all access.backend reading store).2
      (Holding ((handle.all access.backend reading store).1.bind number?)) := by
  cases handle with
  | walk inner => exact (Custody.refl store _).mono (Nat.zero_le 1)
  | scan inner =>
    exact (Scan.custody_all access (reading.sameOpen access) inner store).mono (Nat.zero_le 1)

theorem custody_release :
    Custody 1 store (Holding handle.number?) (handle.release access.backend store).2
      (Holding ((handle.release access.backend store).1.bind number?)) :=
  (handle.walking.custody_release access store).mono (Nat.zero_le 1)

end Handle

namespace Keeper

/-- What a chore does to a keeper: it hands one cursor in and one out, or closes one by its
    number. -/
inductive Turns (keeper : Keeper) : Keeper → Prop where
  | exchange {after : Keeper} (number number' : Option CursorId) (rest : List CursorId)
    (ours : (keeper.held ++ keeper.opened).Perm (number.toList ++ rest))
    (ours' : (after.held ++ after.opened).Perm (number'.toList ++ rest))
    (closed : after.closed = keeper.closed)
    (custody : Custody 2 keeper.store (Holding number) after.store (Holding number')) :
    Turns keeper after
  | strike {id : CursorId} (isOpen : keeper.store.IsOpen id) :
    Turns keeper { keeper with
      store := (outcome (Store.closeCursor id) keeper.store).2
      closed := id :: keeper.closed }

section Turning

variable {keeper after : Keeper} {issued new : List CursorId} {count : Nat} {store : Store}

/-- A step issues two numbers at most. -/
theorem Turns.issues (h : keeper.Turns after) :
    ∃ new, new.length ≤ 2 ∧ keeper.store.Issues new after.store := by
  cases h with
  | exchange _ _ _ _ _ _ custody => exact custody.issues
  | strike isOpen => exact ((Custody.closed _ keeper.store).mono (Nat.zero_le 2)).issues

theorem Tended.turn (h : keeper.Tended issued) (turns : keeper.Turns after)
    (issues : keeper.store.Issues new after.store)
    (room : 1 + (issued ++ new).length < UInt32.size) : after.Tended (issued ++ new) := by
  cases turns with
  | exchange _ _ _ ours ours' closed custody => exact h.exchange ours ours' closed custody issues room
  | strike isOpen => exact h.strike isOpen issues room

/-- Who owns a cursor only now has been given a new one. -/
theorem Turns.owners (h : keeper.Turns after) (issues : keeper.store.Issues new after.store)
    {id : CursorId} (mem : id ∈ after.held ++ after.opened)
    (apart : id ∉ keeper.held ++ keeper.opened) : id ∈ new := by
  cases h with
  | exchange number number' rest ours ours' _ custody =>
    have now : Holding number' id := by
      refine Option.mem_toList.mp ((List.mem_append.mp (ours'.mem_iff.mp mem)).resolve_right ?_)
      exact fun there => apart (ours.mem_iff.mpr (List.mem_append_right _ there))
    have was : ¬ Holding number id :=
      fun was => apart (ours.mem_iff.mpr (List.mem_append_left _ (Option.mem_toList.mpr was)))
    exact custody.issued issues was now
  | strike => exact absurd mem apart

/-- Work that hands nothing in and nothing out. -/
theorem Turns.idle (custody : Custody count keeper.store (Holding none) store (Holding none))
    (few : count ≤ 2) : keeper.Turns { keeper with store } :=
  .exchange none none _ (.refl _) (.refl _) rfl (custody.mono few)

theorem Turns.steady (same : SameOpen keeper.store store) : keeper.Turns { keeper with store } :=
  .idle (.of_sameOpen same _) (Nat.zero_le 2)

/-- What is kept of one place, and of the others. -/
theorem filterMap_cons_toList {γ δ : Type _} (f : γ → Option δ) (head : γ) (rest : List γ) :
    (head :: rest).filterMap f = (f head).toList ++ rest.filterMap f := by
  rw [List.filterMap_cons]
  cases f head <;> rfl

theorem Turns.keep {action : Action Store α} {held? : α → Option CursorId} {wrap : α → Handle ρ}
    (number : ∀ made, (wrap made).number? = held? made)
    (exchanges : action.Exchanges 1 none held?) :
    keeper.Turns (keeper.keep wrap (outcome action keeper.store)) := by
  have custody := exchanges keeper.store
  have few : 1 ≤ 2 := by decide
  rcases ran : outcome action keeper.store with ⟨fault | made, store⟩
  · rw [ran] at custody
    exact .idle custody few
  · rw [ran] at custody
    refine .exchange none (held? made) _ (.refl _) ?_ rfl (custody.mono few)
    have kept : Keeper.held { keeper with store, kept := ⟨ρ, wrap made⟩ :: keeper.kept }
        = (held? made).toList ++ keeper.held := by
      rw [← number made]
      exact filterMap_cons_toList ..
    show (Keeper.held { keeper with store, kept := ⟨ρ, wrap made⟩ :: keeper.kept }
      ++ keeper.opened).Perm _
    rw [kept, List.append_assoc]
    exact .refl _

/-- Work with what is kept at one place. -/
theorem Turns.workAt (place : Nat) {work : (ρ : Type) → Handle ρ → Store → Option (Handle ρ) × Store}
    (custody : ∀ ρ handle store, Custody 1 store (Holding handle.number?) (work ρ handle store).2
      (Holding ((work ρ handle store).1.bind Handle.number?))) :
    keeper.Turns (keeper.workAt place work) := by
  unfold Keeper.workAt
  cases found : keeper.kept[place]? with
  | none => exact .steady (.refl _)
  | some entry =>
    obtain ⟨bound, rfl⟩ := List.getElem?_eq_some_iff.mp found
    let number? : (ρ : Type) × Handle ρ → Option CursorId := fun entry => entry.2.number?
    let others := (keeper.kept.eraseIdx place).filterMap number?
    have ours : keeper.held.Perm ((number? keeper.kept[place]).toList ++ others) := by
      have split := (List.getElem_cons_eraseIdx_perm bound).symm.filterMap number?
      rw [filterMap_cons_toList] at split
      exact split
    have ours := ours.append_right keeper.opened
    rw [List.append_assoc] at ours
    have worked := (custody keeper.kept[place].1 keeper.kept[place].2 keeper.store).mono
      (by decide : 1 ≤ 2)
    dsimp only
    rcases ran : work keeper.kept[place].1 keeper.kept[place].2 keeper.store with ⟨_ | left, store⟩
    · rw [ran] at worked
      exact .exchange (number? keeper.kept[place]) none (others ++ keeper.opened) ours (.refl _) rfl
        worked
    · rw [ran] at worked
      refine .exchange (number? keeper.kept[place]) left.number? (others ++ keeper.opened) ours ?_ rfl
        worked
      have turned := (List.set_perm_cons_eraseIdx bound ⟨_, left⟩).filterMap number?
      rw [filterMap_cons_toList] at turned
      rw [← List.append_assoc]
      exact turned.append_right _

theorem Turns.openCursor (access : Access) (scope : Name) (stem : Bytes) :
    keeper.Turns ((Chore.call (.openCursor scope stem)).run access.backend keeper) := by
  have ends : outcome (access.backend.openCursor scope stem) keeper.store
      = outcome (Store.openCursor scope stem) keeper.store := by cases access <;> rfl
  show keeper.Turns { keeper with
    store := (outcome (access.backend.openCursor scope stem) keeper.store).2
    opened := ((Call.openCursor scope stem).opened?
      (outcome (access.backend.openCursor scope stem) keeper.store).1).toList ++ keeper.opened }
  rw [ends]
  rcases ran : outcome (Store.openCursor scope stem) keeper.store with ⟨fault | id, store⟩
  · obtain ⟨rfl, _⟩ := Store.openCursor_fails ran
    exact .steady (.refl _)
  · have few : 1 ≤ 2 := by decide
    exact .exchange none (some id) _ (.refl _) List.perm_middle rfl ((Custody.opened ran).mono few)

theorem Turns.closeCursor (access : Access) (id : CursorId) :
    keeper.Turns ((Chore.call (.closeCursor id)).run access.backend keeper) := by
  have ends : outcome (access.backend.closeCursor id) keeper.store
      = outcome (Store.closeCursor id) keeper.store := by cases access <;> rfl
  show keeper.Turns { keeper with
    store := (outcome (access.backend.closeCursor id) keeper.store).2
    closed := ((Call.closeCursor id).closed?
      (outcome (access.backend.closeCursor id) keeper.store).1).toList ++ keeper.closed }
  rw [ends]
  have closing := Store.outcome_closeCursor id keeper.store
  cases found : keeper.store.cursors.get? id with
  | none =>
    rw [found] at closing
    rw [closing]
    exact .steady (.refl _)
  | some cursor =>
    have struck := Turns.strike (Store.isOpen_of_get? found)
    rw [found] at closing
    rw [closing] at struck ⊢
    exact struck

/-- A call on the store. -/
theorem Turns.call (access : Access) (made : Call β) :
    keeper.Turns ((Chore.call made).run access.backend keeper) := by
  have aside : ¬ made.Allots → keeper.Turns ((Chore.call made).run access.backend keeper) := by
    intro apart
    unfold Chore.run
    dsimp only
    rw [Call.opened?_eq_none apart, Call.closed?_eq_none apart]
    exact .steady (access.sameOpen made apart keeper.store)
  cases made with
  | openCursor scope stem => exact .openCursor access scope stem
  | closeCursor id => exact .closeCursor access id
  | _ => exact aside not_false

/-- **Every chore is one step.** -/
theorem Turns.run (access : Access) (chore : Chore) (keeper : Keeper) :
    keeper.Turns (chore.run access.backend keeper) := by
  have few : 1 ≤ 2 := by decide
  cases chore with
  | walk view start => exact .keep (fun _ => rfl) (start.custody access view)
  | scan view span => exact .keep (fun _ => rfl) (span.custody access view)
  | tread place asked =>
    exact .workAt place fun ρ handle store => handle.custody_tread access store (asked ρ).2
  | next place reading =>
    exact .workAt place fun ρ handle store => handle.custody_next access store (reading ρ).2
  | all place reading =>
    exact .workAt place fun ρ handle store => handle.custody_all access store (reading ρ).2
  | release place =>
    exact .workAt place fun _ handle store => handle.custody_release access store
  | lookup made =>
    have custody := made.custody access keeper.store
    rw [heldIn_none] at custody
    exact .idle custody (Nat.le_refl 2)
  | write table made => exact .steady (made.sameOpen access table keeper.store)
  | single place made => exact .steady (made.sameOpen access place keeper.store)
  | compare made => exact .steady (made.sameOpen access keeper.store)
  | call made => exact .call access made
  | beginUnit => exact .steady (Store.sameOpen_beginUnit keeper.store)
  | commitUnit => exact .steady (Store.sameOpen_commitUnit keeper.store)
  | rollbackUnit => exact .steady (Store.sameOpen_rollbackUnit keeper.store)

end Turning

/-! ## 4. Runs -/

/-- Every run issues some numbers, two for each chore at most. -/
theorem exists_issues (chores : List (Access × Chore)) (keeper : Keeper) :
    ∃ issued, issued.length ≤ 2 * chores.length ∧ keeper.Issues chores issued := by
  induction chores generalizing keeper with
  | nil => exact ⟨[], Nat.le_refl 0, .done keeper⟩
  | cons first rest ih =>
    obtain ⟨access, chore⟩ := first
    obtain ⟨early, few, now⟩ := (Turns.run access chore keeper).issues
    obtain ⟨late, few', later⟩ := ih (chore.run access.backend keeper)
    refine ⟨early ++ late, ?_, .step now later⟩
    rw [List.length_append, List.length_cons]
    omega

/-- **The invariant holds throughout a run**, until the numbers go round. -/
theorem Issues.tended {keeper : Keeper} {chores : List (Access × Chore)}
    {before issued : List CursorId} (issues : keeper.Issues chores issued)
    (h : keeper.Tended before) (room : 1 + (before ++ issued).length < UInt32.size) :
    (keeper.afterAll chores).Tended (before ++ issued) := by
  induction issues generalizing before with
  | done keeper =>
    rw [List.append_nil]
    exact h
  | @step keeper access chore rest early late now later ih =>
    rw [← List.append_assoc] at room ⊢
    have less := (List.sublist_append_left (before ++ early) late).length_le
    have room' : 1 + (before ++ early).length < UInt32.size :=
      Nat.lt_of_le_of_lt (Nat.add_le_add_left less 1) room
    exact ih (h.turn (Turns.run access chore keeper) now room') room

/-- What is issued during a run is what the store issues from its start to its end. -/
theorem Issues.ofStore {keeper : Keeper} {chores : List (Access × Chore)} {issued : List CursorId}
    (issues : keeper.Issues chores issued) :
    keeper.store.Issues issued (keeper.afterAll chores).store := by
  induction issues with
  | done keeper => exact .of_sameOpen (.refl keeper.store)
  | step now _ ih => exact now.trans ih

/-- Who owns a cursor after a run, and did not before, has been given a new one. -/
theorem Issues.owners {keeper : Keeper} {chores : List (Access × Chore)} {issued : List CursorId}
    (issues : keeper.Issues chores issued) {id : CursorId}
    (mem : id ∈ (keeper.afterAll chores).held ++ (keeper.afterAll chores).opened)
    (apart : id ∉ keeper.held ++ keeper.opened) : id ∈ issued := by
  induction issues with
  | done => exact absurd mem apart
  | @step keeper access chore rest early late now later ih =>
    by_cases there : id ∈ (chore.run access.backend keeper).held
        ++ (chore.run access.backend keeper).opened
    · have early := (Turns.run access chore keeper).owners now there apart
      exact List.mem_append_left _ early
    · exact List.mem_append_right _ (ih mem there)

theorem afterAll_append (early late : List (Access × Chore)) (keeper : Keeper) :
    keeper.afterAll (early ++ late) = (keeper.afterAll early).afterAll late := by
  induction early generalizing keeper with
  | nil => rfl
  | cons first rest ih => exact ih _

/-- Which cursors are open at some time, and what the store has issued until then. -/
structure Accounted (keeper : Keeper) (settings : Settings) (issued : List CursorId) : Prop where
  /-- The cursors that are owned are open, and no others. -/
  owned : ∀ id, keeper.store.IsOpen id ↔ id ∈ keeper.owned
  /-- No cursor has two owners. -/
  apart : (keeper.held ++ keeper.opened).Nodup
  count : keeper.store.openCursors = keeper.owned.length
  /-- As long as no cursor of a walk or a scan is closed by its number, all of these count. -/
  countHeld : (∀ id ∈ keeper.held, id ∉ keeper.closed) → keeper.store.openCursors
    = keeper.held.length + (keeper.opened.filter (· ∉ keeper.closed)).length
  limit : keeper.store.openCursors ≤ settings.limits.maxCursors.toNat
  /-- Who owns a cursor has been given it. -/
  known : ∀ id ∈ keeper.held ++ keeper.opened, id ∈ issued
  positive : ∀ id ∈ issued, 0 < id
  /-- No number is issued twice. -/
  once : issued.Nodup

theorem Tended.settled {keeper : Keeper} {issued : List CursorId} (h : keeper.Tended issued) :
    keeper.Accounted keeper.store.settings issued := by
  have owned : ∀ id, keeper.store.IsOpen id ↔ id ∈ keeper.owned := by
    intro id
    rw [h.opens id]
    unfold Keeper.owned
    rw [List.mem_filter, decide_eq_true_iff]
  have same : keeper.store.numbers.Perm keeper.owned :=
    (List.perm_ext_iff_of_nodup keeper.store.nodup_numbers (h.apart.filter _)).mpr
      fun id => Store.mem_numbers.trans (owned id)
  have count : keeper.store.openCursors = keeper.owned.length :=
    (Store.length_numbers keeper.store).symm.trans same.length_eq
  refine ⟨owned, h.apart, count, fun unstruck => ?_, h.limited, h.known, fun id mem => ?_, ?_⟩
  · have all : keeper.held.filter (· ∉ keeper.closed) = keeper.held :=
      List.filter_eq_self.mpr fun id mem => decide_eq_true (unstruck id mem)
    rw [count, Keeper.owned, List.filter_append, all, List.length_append]
  · rw [h.line] at mem
    exact (List.mem_range'_1.mp mem).1
  · rw [h.line]
    exact List.nodup_range'

/-- What a run has brought, in which `new` has been issued, and before it `issued`. -/
structure Renewed (before after : Keeper) (issued new : List CursorId) : Prop where
  /-- Who owns a cursor only now has been given a number that had never been issued. -/
  owners : ∀ id ∈ after.held ++ after.opened, id ∉ before.held ++ before.opened →
    id ∈ new ∧ id ∉ issued
  /-- A cursor that is open only now is new, none of those that had been closed. -/
  opens : ∀ id, after.store.IsOpen id → ¬ before.store.IsOpen id → id ∈ new ∧ id ∉ issued

theorem Tended.renewed {keeper : Keeper} {chores : List (Access × Chore)}
    {issued new : List CursorId} (h : keeper.Tended issued) (issues : keeper.Issues chores new)
    (room : 1 + (issued ++ new).length < UInt32.size) :
    keeper.Renewed (keeper.afterAll chores) issued new where
  owners id mem apart := by
    have isNew := issues.owners mem apart
    exact ⟨isNew, h.notKnown issues.ofStore room isNew⟩
  opens id now apart := by
    have isNew := (issues.ofStore.isOpen now).resolve_left apart
    exact ⟨isNew, h.notKnown issues.ofStore room isNew⟩

end Keeper

/-! ## 5. Single works -/

/-- What single works leave behind them on a store, by either way: nothing of what has failed or has
    only asked, the cursor of a walk that has gone back, and everything as it was where a cursor is
    named that is not open. -/
structure Store.Frugal (store : Store) : Prop where
  /-- A walk to a key that is not there. -/
  missed : ∀ {ρ : Type} (access : Access) (view : View ρ) (key : Bytes) (walk : Walk ρ)
    (after : Store), outcome (view.find access.backend key) store = (.ok walk, after) →
    walk.standing ≠ .live → walk.hold = none ∧ ∀ id, after.IsOpen id ↔ store.IsOpen id
  /-- A walk that cannot be made. -/
  noWalk : ∀ {ρ : Type} (access : Access) (view : View ρ) (start : Start) (fault : Fault)
    (after : Store), outcome (start.perform access.backend view) store = (.error fault, after) →
    ∀ id, after.IsOpen id ↔ store.IsOpen id
  /-- A scan that cannot be made. -/
  noScan : ∀ {ρ : Type} (access : Access) (view : View ρ) (span : Span) (fault : Fault)
    (after : Store), outcome (span.start access.backend view) store = (.error fault, after) →
    ∀ id, after.IsOpen id ↔ store.IsOpen id
  /-- A question, be it a range or a count. -/
  asked : ∀ {ρ β : Type} (access : Access) (made : Lookup ρ β) (id : CursorId),
    (outcome (made.perform access.backend) store).2.IsOpen id ↔ store.IsOpen id
  /-- A walk that goes back from its end, wherever that leads. -/
  back : ∀ {ρ : Type} (access : Access) (walk : Walk ρ), walk.hold = none →
    store.openCursors < store.settings.limits.maxCursors.toNat →
    ∃ id, (Motion.ends (Walk.retreat access.backend) walk store).1.2.held? = some id
      ∧ ¬ store.IsOpen id ∧ (Motion.ends (Walk.retreat access.backend) walk store).2.IsOpen id
  /-- A call that names a cursor that is not open. -/
  dead : ∀ {β : Type} (issued : Issued β) (id : CursorId), id ∈ issued.call.named →
    ¬ store.IsOpen id → ∃ other ∈ issued.call.named, ¬ store.IsOpen other
      ∧ outcome issued.perform store = (.error (.unknownCursor other), store)

theorem Store.frugal (store : Store) : store.Frugal where
  missed access view key walk after found apart := by
    have custody := view.exchanges_find access key store
    rw [found] at custody
    have atEnd := View.atEnd_of_find access found apart
    subst atEnd
    exact ⟨rfl, custody.isOpen_iff⟩
  noWalk access view start fault after fails := by
    have custody := start.custody access view store
    rw [fails] at custody
    exact custody.isOpen_iff
  noScan access view span fault after fails := by
    have custody := span.custody access view store
    rw [fails] at custody
    exact custody.isOpen_iff
  asked access made id := by
    have custody := made.custody access store
    rw [heldIn_none] at custody
    exact custody.isOpen_iff id
  back access walk unheld room := by
    rcases Walk.retreat_unheld access unheld store with ⟨full, _⟩ | ⟨id, held, custody⟩
    · exact absurd room (Nat.not_lt.mpr full)
    · exact ⟨id, held, custody.made id nofun rfl⟩
  dead issued id := issued.outcome_dead

/-! ## 6. The result -/

/-- **Cursors are neither leaked, shared nor given out again.** Let a keeper do any chores with a new
    store, by either way, each with whatever end, first some and then some more. As long as fewer than
    2³² − 1 cursors have been opened in all, the open cursors are those that its walks and scans hold
    and those that it has opened by calls, but for those that it has closed by calls; each has one
    owner; there are no more of them than the settings allow; and the store has issued every number
    once, and none that is zero. What has come with the later chores is new: no number comes back.
    What fails or only asks leaves no cursor behind, and a number of no open cursor leads to none. -/
theorem Keeper.accounted (settings : Settings) (early late : List (Access × Chore)) :
    (∃ issued new, (issued ++ new).length ≤ 2 * (early ++ late).length ∧
      (fresh settings).Issues early issued ∧ ((fresh settings).afterAll early).Issues late new) ∧
    (∀ issued new, (fresh settings).Issues early issued →
      ((fresh settings).afterAll early).Issues late new →
      (issued ++ new).length < UInt32.size - 1 →
      ((fresh settings).afterAll (early ++ late)).Accounted settings (issued ++ new) ∧
      ((fresh settings).afterAll early).Renewed ((fresh settings).afterAll (early ++ late))
        issued new) ∧
    ((fresh settings).afterAll (early ++ late)).store.Frugal := by
  rw [afterAll_append]
  refine ⟨?_, fun issued new begun goes few => ?_, Store.frugal _⟩
  · obtain ⟨issued, some, begun⟩ := exists_issues early (fresh settings)
    obtain ⟨new, more, goes⟩ := exists_issues late ((fresh settings).afterAll early)
    refine ⟨issued, new, ?_, begun, goes⟩
    rw [List.length_append, List.length_append]
    omega
  · have all : 1 + (issued ++ new).length < UInt32.size := by omega
    have first : 1 + issued.length < UInt32.size := by
      have less := (List.sublist_append_left issued new).length_le
      omega
    have midway : ((fresh settings).afterAll early).Tended issued :=
      begun.tended (Tended.fresh settings) first
    have settled := (goes.tended midway all).settled
    rw [goes.ofStore.settings, begun.ofStore.settings] at settled
    exact ⟨settled, midway.renewed goes all⟩

namespace Keeper

/-- Settings that leave room for one cursor. -/
def crowdedSettings : Settings :=
  { limits := { maxCursors := 1 } }

/-- A range that needs two cursors, a walk that goes back from its end to hold the only one, and a call
    that finds no room. -/
def crowding : List (Access × Chore) :=
  [(.relayed, .lookup (.range Table.noteTable.primaryView [] [1])),
   (.native, .walk Table.noteTable.primaryView .pastLast),
   (.native, .tread 0 fun _ => ⟨Unit, .retreat⟩),
   (.native, .call (.openCursor .empty []))]

/-- A scan that finds no room, the end of the walk, and a call that finds room. -/
def relieving : List (Access × Chore) :=
  [(.relayed, .scan Table.noteTable.primaryView .whole),
   (.native, .release 0),
   (.relayed, .call (.openCursor .empty []))]

theorem accounted_crowded :
    ∃ issued new, (fresh crowdedSettings).Issues crowding issued
      ∧ ((fresh crowdedSettings).afterAll crowding).Issues relieving new
      ∧ ((fresh crowdedSettings).afterAll (crowding ++ relieving)).store.openCursors = 1
      ∧ 3 ∈ new ∧ 3 ∉ issued := by
  obtain ⟨⟨issued, new, few, begun, goes⟩, all, _⟩ := accounted crowdedSettings crowding relieving
  obtain ⟨settled, renewed⟩ := all issued new begun goes (Nat.lt_of_le_of_lt few (by decide))
  exact ⟨issued, new, begun, goes, settled.count.trans (by decide),
    renewed.owners 3 (by decide) (by decide)⟩

end Keeper

end IndexedStore
