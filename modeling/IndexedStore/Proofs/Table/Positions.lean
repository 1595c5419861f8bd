import IndexedStore.Proofs.Table.Ranges
import IndexedStore.Proofs.Table.Treads
/-!
# Walks are places in a list

The entries of an index, in the order in which a walk goes, are a list; a walk is a PLACE in it, from
`0` for the first entry up to the length for the end. A reverse walk goes through the same list turned
round. Every step and every reading of a walk, in any mix and with its failures, is what the place says,
and it makes no difference whether a walk at its end has a cursor there or none yet.

* `View.entriesAlong` is the list, `Tread.expect` what the place says, and `Tread.play`,
  `Tread.expected` run a walk and a place side by side;
* `Direction.ahead_place` and `Direction.behind_place` are the two steps of a cursor on the list;
* `View.AtPlace` ties a seat to a place, and `View.AtPlace.foresee` is the step of the simulation;
* **`View.walks_simulate`** is the result.
-/

namespace IndexedStore

open IndexedStore.Action

variable {ρ α β : Type}

/-! ## 1. The list -/

/-- A list in the order in which a walk goes through it. -/
def Direction.ordered : Direction → List α → List α
  | .forward, list => list
  | .reverse, list => list.reverse

/-- Makes a walk at the first entry that it comes to. -/
def Direction.begin {σ : Type} (backend : Backend σ) (view : View ρ) :
    Direction → Action σ (Walk ρ)
  | .forward => view.first backend
  | .reverse => view.last backend

namespace View

/-- The keys and values of an index, in the order in which a walk goes. -/
def entriesAlong (view : View ρ) (store : Store) (direction : Direction) : List (Bytes × Bytes) :=
  direction.ordered <| (store.list view.table.scope).filter fun entry =>
    Bytes.startsWith entry.1 view.placement.stem

/-- The keys of an index, in the order in which a walk goes. -/
def keysAlong (view : View ρ) (store : Store) (direction : Direction) : List Bytes :=
  direction.ordered (store.keysOf view.table.scope view.placement.stem)

variable {view : View ρ} {store : Store} {direction : Direction}

theorem keys_entriesAlong (view : View ρ) (store : Store) (direction : Direction) :
    (view.entriesAlong store direction).map (·.1) = view.keysAlong store direction := by
  have ordered : ∀ list : List (Bytes × Bytes),
      (direction.ordered list).map (·.1) = direction.ordered (list.map (·.1)) := by
    intro list
    cases direction with
    | forward => rfl
    | reverse => exact List.map_reverse
  have filtered : ((store.list view.table.scope).filter fun entry =>
      Bytes.startsWith entry.1 view.placement.stem).map (·.1)
        = store.keysOf view.table.scope view.placement.stem := by
    unfold Store.list Store.keysOf
    rw [List.filter_map, List.map_map, List.filter_map]
    rfl
  unfold entriesAlong keysAlong
  rw [ordered, filtered]

theorem length_entriesAlong (view : View ρ) (store : Store) (direction : Direction) :
    (view.entriesAlong store direction).length = (view.keysAlong store direction).length := by
  rw [← keys_entriesAlong, List.length_map]

/-- Listed are the entries of the scope whose keys are the index's. -/
theorem mem_entriesAlong {entry : Bytes × Bytes} : entry ∈ view.entriesAlong store direction ↔
    entry ∈ store.list view.table.scope ∧ view.placement.contains entry.1 := by
  have listed : entry ∈ view.entriesAlong store direction ↔
      entry ∈ (store.list view.table.scope).filter fun entry =>
        Bytes.startsWith entry.1 view.placement.stem := by
    cases direction with
    | forward => exact Iff.rfl
    | reverse => exact List.mem_reverse
  exact listed.trans List.mem_filter

/-- What is listed is stored. -/
theorem stored_of_entriesAlong {entry : Bytes × Bytes}
    (mem : entry ∈ view.entriesAlong store direction) :
    ∃ found, store.find? view.table.scope entry.1 = some found ∧ found.value = entry.2 := by
  obtain ⟨⟨key, found⟩, stored, rfl⟩ := List.mem_map.mp (mem_entriesAlong.mp mem).1
  exact ⟨found, OrdMap.get?_eq_some_iff.mpr stored, rfl⟩

end View

/-! ## 2. Steps on the list -/

namespace Direction

variable {view : View ρ} {store : Store} {direction : Direction} {passed rest : List Bytes}
  {key : Bytes}

/-- A list turned round, from one of its items on. -/
theorem listed_of_reverse {list : List Bytes} (h : list.reverse = passed ++ key :: rest) :
    list = rest.reverse ++ key :: passed.reverse := by
  have turned := congrArg List.reverse h
  rw [List.reverse_reverse] at turned
  simp [turned]

theorem ahead_listed (listed : view.keysAlong store direction = passed ++ key :: rest) :
    direction.ahead store (view.cursorAt (.onKey key)) = .head rest := by
  cases direction with
  | forward => exact Store.firstAfter_listed listed
  | reverse =>
    refine (Store.lastBefore_listed (listed_of_reverse listed)).trans ?_
    rw [List.reverse_reverse]

theorem behind_listed (listed : view.keysAlong store direction = passed ++ key :: rest) :
    direction.behind store (view.cursorAt (.onKey key)) = .head passed.reverse := by
  cases direction with
  | forward => exact Store.lastBefore_listed listed
  | reverse => exact Store.firstAfter_listed (listed_of_reverse listed)

theorem ahead_ended (view : View ρ) (store : Store) (direction : Direction) :
    direction.ahead store (view.cursorAt .ended) = .head (view.keysAlong store direction) := by
  cases direction with
  | forward => exact Store.firstFrom_stem ..
  | reverse => exact Store.lastOf_eq_head ..

theorem behind_ended (view : View ρ) (store : Store) (direction : Direction) :
    direction.behind store (view.cursorAt .ended)
      = .head (view.keysAlong store direction).reverse := by
  cases direction with
  | forward => exact Store.lastOf_eq_head ..
  | reverse =>
    refine (Store.firstFrom_stem ..).trans ?_
    rw [View.keysAlong, ordered, List.reverse_reverse]
    rfl

variable {place : Nat}

/-- An entry cuts the list in what has been passed, itself and what is ahead. -/
theorem cut_at (inside : place < (view.keysAlong store direction).length) :
    view.keysAlong store direction = (view.keysAlong store direction).take place
      ++ (view.keysAlong store direction)[place]
        :: (view.keysAlong store direction).drop (place + 1) := by
  rw [List.getElem_cons_drop, List.take_append_drop]

/-- The position of a cursor at a place of the list. -/
theorem head_drop (inside : place < (view.keysAlong store direction).length) :
    Position.head ((view.keysAlong store direction).drop place)
      = .onKey (view.keysAlong store direction)[place] := by
  rw [List.drop_eq_getElem_cons inside]
  rfl

/-- **A step on** leads to the next place. -/
theorem ahead_place (inside : place < (view.keysAlong store direction).length) :
    direction.ahead store
        (view.cursorAt (.head ((view.keysAlong store direction).drop place)))
      = .head ((view.keysAlong store direction).drop (place + 1)) := by
  rw [head_drop inside]
  exact ahead_listed (cut_at inside)

/-- **A step back** leads to the last of the places passed, also from the end. -/
theorem behind_place (bound : place ≤ (view.keysAlong store direction).length) :
    direction.behind store
        (view.cursorAt (.head ((view.keysAlong store direction).drop place)))
      = .head ((view.keysAlong store direction).take place).reverse := by
  rcases Nat.lt_or_eq_of_le bound with inside | atEnd
  · rw [head_drop inside]
    exact behind_listed (cut_at inside)
  · rw [atEnd, List.drop_length, List.take_length]
    exact behind_ended view store direction

end Direction

/-! ## 3. What a place says -/

namespace Tread

/-- What is read at a place of a list; there is nothing to read at its end. -/
def readAt (entries : List (Bytes × Bytes)) (place : Nat)
    (read : Bytes × Bytes → Except Fault β) : Except Fault β :=
  match entries[place]? with
  | none => .error (.misuse .readAtEnd)
  | some entry => read entry

theorem readAt_bind (entries : List (Bytes × Bytes)) (place : Nat) (said : Bytes × Bytes → Bytes)
    (more : Bytes → Except Fault β) :
    (readAt entries place fun entry => .ok (said entry)) >>= more
      = readAt entries place fun entry => more (said entry) := by
  unfold readAt
  cases entries[place]? <;> rfl

/-- What is read at a place is read of one of the entries. -/
theorem readAt_congr {entries : List (Bytes × Bytes)} {read read' : Bytes × Bytes → Except Fault β}
    (same : ∀ entry ∈ entries, read entry = read' entry) (place : Nat) :
    readAt entries place read = readAt entries place read' := by
  unfold readAt
  cases here : entries[place]? with
  | none => rfl
  | some entry => exact same entry (List.mem_of_getElem? here)

/-- What is answered at a place of an index, and the place after it. -/
def expect (view : View ρ) (direction : Direction) (store : Store) (tread : Tread ρ β)
    (place : Nat) : Except Fault β × Nat :=
  let entries := view.entriesAlong store direction
  match tread with
  | advance =>
    if place < entries.length then (.ok (), place + 1)
    else (.error (.misuse direction.stepFromEnd), place)
  | retreat =>
    if 0 < place then (.ok (), place - 1)
    else (.error (.misuse .stepBeforeFirst), entries.length)
  | refresh => (.ok (if place < entries.length then .live else .ended), place)
  | standing => (.ok (if place < entries.length then .live else .ended), place)
  | key => (readAt entries place fun entry => .ok entry.1, place)
  | keyBehindStem =>
    (readAt entries place fun entry => .ok (entry.1.drop view.placement.stem.length), place)
  | value => (readAt entries place fun entry => view.resolved store entry.2, place)
  | compareKey bound =>
    (.ok ((entries[place]?.map fun entry => Bytes.order entry.1 bound).getD .gt), place)

end Tread

/-- A step or reading of any kind. -/
abbrev AnyTread (ρ : Type) := (β : Type) × Tread ρ β

/-- An answer of any kind. -/
abbrev AnyAnswer := (β : Type) × Except Fault β

namespace Tread

open Motion

/-- Asks a walk one thing after the other: the answers. -/
def play : List (AnyTread ρ) → Walk ρ → Store → List AnyAnswer
  | [], _, _ => []
  | ⟨β, tread⟩ :: rest, walk, store =>
    ⟨β, (ends (tread.perform Store.native) walk store).1.1⟩ ::
      play rest (ends (tread.perform Store.native) walk store).1.2
        (ends (tread.perform Store.native) walk store).2

/-- What places answer, one after the other. -/
def expected (view : View ρ) (direction : Direction) (store : Store) :
    List (AnyTread ρ) → Nat → List AnyAnswer
  | [], _ => []
  | ⟨β, tread⟩ :: rest, place =>
    ⟨β, (tread.expect view direction store place).1⟩ ::
      expected view direction store rest (tread.expect view direction store place).2

/-- The place in the end. -/
def arrive (view : View ρ) (direction : Direction) (store : Store) :
    List (AnyTread ρ) → Nat → Nat
  | [], place => place
  | ⟨_, tread⟩ :: rest, place =>
    arrive view direction store rest (tread.expect view direction store place).2

theorem expected_append (view : View ρ) (direction : Direction) (store : Store)
    (first second : List (AnyTread ρ)) (place : Nat) :
    expected view direction store (first ++ second) place
      = expected view direction store first place
        ++ expected view direction store second (arrive view direction store first place) := by
  induction first generalizing place with
  | nil => rfl
  | cons head rest ih => exact congrArg (_ :: ·) (ih _)

end Tread

/-! ## 4. The simulation -/

namespace View

variable {view : View ρ} {store : Store} {direction : Direction} {place : Nat} {seat : Option Seat}

/-- Whether a seat is at a place of the list. Without a seat a walk is at the end. -/
inductive AtPlace (view : View ρ) (store : Store) (direction : Direction) : Nat → Option Seat → Prop
  | unheld : AtPlace view store direction (view.entriesAlong store direction).length none
  | held {place : Nat} (bound : place ≤ (view.entriesAlong store direction).length) :
    AtPlace view store direction place
      (some (view.seatAt store (.head ((view.keysAlong store direction).drop place))))

/-- The seat at a place with an entry. -/
theorem seatAt_inside (inside : place < (view.entriesAlong store direction).length) :
    ∃ entry found, (view.entriesAlong store direction)[place]? = some entry
      ∧ store.find? view.table.scope entry.1 = some found ∧ found.value = entry.2
      ∧ view.seatAt store (.head ((view.keysAlong store direction).drop place))
        = ⟨.live, .onKey entry.1⟩ := by
  have inside' : place < (view.keysAlong store direction).length := length_entriesAlong .. ▸ inside
  have key : (view.keysAlong store direction)[place]
      = (view.entriesAlong store direction)[place].1 := by
    simp only [← keys_entriesAlong, List.getElem_map]
  obtain ⟨found, stored, value⟩ := stored_of_entriesAlong (List.getElem_mem inside)
  refine ⟨_, found, List.getElem?_eq_getElem inside, stored, value, ?_⟩
  rw [Direction.head_drop inside', key]
  exact congrArg (Seat.mk · _) (if_pos (Option.isSome_iff_exists.mpr ⟨found, stored⟩))

/-- The seat at the end. -/
theorem seatAt_end (view : View ρ) (store : Store) (direction : Direction) :
    view.seatAt store (.head ((view.keysAlong store direction).drop
        (view.entriesAlong store direction).length)) = ⟨.ended, .ended⟩ := by
  rw [length_entriesAlong, List.drop_length]
  rfl

/-- A seat at a place is on the entry there, or at the end. -/
theorem AtPlace.seat_cases (here : view.AtPlace store direction place seat) :
    (∃ entry found, (view.entriesAlong store direction)[place]? = some entry
      ∧ store.find? view.table.scope entry.1 = some found ∧ found.value = entry.2
      ∧ seat = some ⟨.live, .onKey entry.1⟩) ∨
    (place = (view.entriesAlong store direction).length
      ∧ (seat = none ∨ seat = some ⟨.ended, .ended⟩)) := by
  cases here with
  | unheld => exact .inr ⟨rfl, .inl rfl⟩
  | held bound =>
    rcases Nat.lt_or_eq_of_le bound with inside | atEnd
    · obtain ⟨entry, found, listed, stored, value, seat⟩ := seatAt_inside inside
      exact .inl ⟨entry, found, listed, stored, value, congrArg some seat⟩
    · exact .inr ⟨atEnd, .inr (atEnd ▸ congrArg some (seatAt_end view store direction))⟩

/-- What is read on an entry that is stored. -/
theorem readFrom_of_stored {key : Bytes} {found : Entry} (part : Bytes × Entry → Bytes)
    (stored : store.find? view.table.scope key = some found) :
    view.readFrom store part (some ⟨.live, .onKey key⟩) = .ok (part (key, found)) := by
  have entry : store.entryAt? (view.cursorAt (.onKey key)) = some (key, found) :=
    congrArg (Option.map _) stored
  unfold readFrom
  dsimp only
  rw [entry]

/-- A reading answers what the place says. -/
theorem AtPlace.readFrom_eq (here : view.AtPlace store direction place seat)
    (part : Bytes × Entry → Bytes) (said : Bytes × Bytes → Bytes)
    (same : ∀ key found, part (key, found) = said (key, found.value)) :
    view.readFrom store part seat
      = Tread.readAt (view.entriesAlong store direction) place fun entry => .ok (said entry) := by
  rcases here.seat_cases with ⟨⟨key, _⟩, found, listed, stored, rfl, rfl⟩ | ⟨rfl, ended⟩
  · rw [readFrom_of_stored part stored, Tread.readAt, listed, same]
  · rw [Tread.readAt, List.getElem?_eq_none (Nat.le_refl _)]
    rcases ended with rfl | rfl <;> rfl

/-- The seat that a walk comes to at a place that it steps to. -/
theorem seatAt_standing (bound : place ≤ (view.entriesAlong store direction).length) :
    (view.seatAt store (.head ((view.keysAlong store direction).drop place))).standing
      = if place < (view.entriesAlong store direction).length then .live else .ended := by
  rcases Nat.lt_or_eq_of_le bound with inside | atEnd
  · obtain ⟨entry, found, _, _, _, seat⟩ := seatAt_inside inside
    rw [if_pos inside, seat]
  · rw [if_neg (atEnd ▸ Nat.lt_irrefl _), atEnd, seatAt_end]

/-- The place before a place. -/
theorem head_reverse_take {list : List Bytes} {place : Nat} (inside : place < list.length) :
    Position.head (list.take (place + 1)).reverse = .head (list.drop place) := by
  rw [List.take_succ_eq_append_getElem inside, List.reverse_append, List.drop_eq_getElem_cons inside]
  rfl

/-- Whether what is foreseen is what a place says, next place included. -/
def Agrees (view : View ρ) (store : Store) (direction : Direction)
    (foreseen : Except Fault β × Option Seat) (said : Except Fault β × Nat) : Prop :=
  foreseen.1 = said.1 ∧ view.AtPlace store direction said.2 foreseen.2

namespace AtPlace

/-- Going on from a place. -/
theorem agrees_advance (here : view.AtPlace store direction place seat) :
    view.Agrees store direction (Tread.advance.foresee view direction store seat)
      (Tread.advance.expect view direction store place) := by
  by_cases inside : place < (view.entriesAlong store direction).length
  · have said : (Tread.advance : Tread ρ Unit).expect view direction store place
        = (.ok (), place + 1) := if_pos inside
    rw [said]
    cases here with
    | unheld => exact absurd inside (Nat.lt_irrefl _)
    | held bound =>
      have live := seatAt_standing bound
      rw [if_pos inside] at live
      have leads := Direction.ahead_place (length_entriesAlong view store direction ▸ inside)
      have next : view.AtPlace store direction (place + 1) (some (view.seatAt store _)) :=
        .held inside
      rw [← leads] at next
      simp only [Tread.foresee, live]
      exact ⟨rfl, next⟩
  · have said : (Tread.advance : Tread ρ Unit).expect view direction store place
        = (.error (.misuse direction.stepFromEnd), place) := if_neg inside
    rw [said]
    cases here with
    | unheld => exact ⟨rfl, .unheld⟩
    | held bound =>
      have ended := seatAt_standing bound
      rw [if_neg inside] at ended
      simp only [Tread.foresee, ended]
      exact ⟨rfl, .held bound⟩

/-- Where a walk at a place goes back from, with a cursor or without. -/
theorem start_eq (here : view.AtPlace store direction place seat) :
    (seat.map (·.position)).getD .ended
      = .head ((view.keysAlong store direction).drop place) := by
  cases here with
  | held bound => rfl
  | unheld =>
    rw [length_entriesAlong, List.drop_length]
    rfl

theorem bound (here : view.AtPlace store direction place seat) :
    place ≤ (view.entriesAlong store direction).length := by
  cases here with
  | unheld => exact Nat.le_refl _
  | held bound => exact bound

/-- Going back from a place. -/
theorem agrees_retreat (here : view.AtPlace store direction place seat) :
    view.Agrees store direction (Tread.retreat.foresee view direction store seat)
      (Tread.retreat.expect view direction store place) := by
  have leads := Direction.behind_place (length_entriesAlong view store direction ▸ here.bound)
  simp only [Tread.foresee, here.start_eq, leads]
  cases place with
  | zero =>
    have next : view.AtPlace store direction _ (some (view.seatAt store _)) := .held (Nat.le_refl _)
    rw [seatAt_end] at next
    exact ⟨rfl, next⟩
  | succ before =>
    have inside : before < (view.entriesAlong store direction).length := here.bound
    have live := seatAt_standing (Nat.le_of_lt inside)
    rw [head_reverse_take (length_entriesAlong view store direction ▸ inside)]
    rw [if_pos inside] at live
    simp only [live]
    exact ⟨rfl, .held (Nat.le_of_lt inside)⟩

/-- Asking the store anew at a place. -/
theorem agrees_refresh (here : view.AtPlace store direction place seat) :
    view.Agrees store direction (Tread.refresh.foresee view direction store seat)
      (Tread.refresh.expect view direction store place) := by
  have said : (Tread.refresh : Tread ρ Standing).expect view direction store place
      = (.ok (if place < (view.entriesAlong store direction).length then .live else .ended),
          place) := rfl
  rw [said]
  cases here with
  | unheld =>
    rw [if_neg (Nat.lt_irrefl _)]
    exact ⟨rfl, .unheld⟩
  | held bound =>
    rw [← seatAt_standing bound]
    exact ⟨rfl, .held bound⟩

/-- What a walk remembers at a place. -/
theorem agrees_standing (here : view.AtPlace store direction place seat) :
    view.Agrees store direction (Tread.standing.foresee view direction store seat)
      (Tread.standing.expect view direction store place) := by
  refine ⟨?_, here⟩
  have said : ((Tread.standing : Tread ρ Standing).expect view direction store place).1
      = .ok (if place < (view.entriesAlong store direction).length then .live else .ended) := rfl
  rw [said]
  cases here with
  | unheld =>
    rw [if_neg (Nat.lt_irrefl _)]
    rfl
  | held bound =>
    rw [← seatAt_standing bound]
    rfl

/-- Comparing at a place. -/
theorem agrees_compareKey (here : view.AtPlace store direction place seat) (bound : Bytes) :
    view.Agrees store direction ((Tread.compareKey bound).foresee view direction store seat)
      ((Tread.compareKey bound).expect view direction store place) := by
  rcases here.seat_cases with ⟨⟨key, _⟩, found, listed, stored, rfl, rfl⟩ | ⟨rfl, ended⟩
  · refine ⟨?_, here⟩
    simp only [Tread.expect, listed]
    rfl
  · have said : ((Tread.compareKey bound : Tread ρ Ordering).expect view direction store
        (view.entriesAlong store direction).length).1 = .ok .gt := by
      simp only [Tread.expect, List.getElem?_eq_none (Nat.le_refl _)]
      rfl
    rcases ended with rfl | rfl
    · exact ⟨said.symm, here⟩
    · exact ⟨said.symm, here⟩

/-- **One step of the simulation**: what is foreseen from the seat at a place is what the place says,
    and the next seat is at the next place. -/
theorem agrees (here : view.AtPlace store direction place seat) (tread : Tread ρ β) :
    view.Agrees store direction (tread.foresee view direction store seat)
      (tread.expect view direction store place) := by
  cases tread with
  | advance => exact here.agrees_advance
  | retreat => exact here.agrees_retreat
  | refresh => exact here.agrees_refresh
  | standing => exact here.agrees_standing
  | key => exact ⟨here.readFrom_eq (·.1) (·.1) fun _ _ => rfl, here⟩
  | keyBehindStem =>
    refine ⟨?_, here⟩
    have read := here.readFrom_eq (·.1) (·.1) fun _ _ => rfl
    simp only [Tread.foresee, Tread.expect, read]
    rw [Tread.readAt_bind]
    refine Tread.readAt_congr (fun entry mem => ?_) place
    have own := (mem_entriesAlong.mp mem).2
    exact (view.placement.behindStem_eq entry.1).trans (if_pos own)
  | value =>
    refine ⟨?_, here⟩
    have read := here.readFrom_eq (·.2.value) (·.2) fun _ _ => rfl
    simp only [Tread.foresee, Tread.expect, read]
    exact Tread.readAt_bind ..
  | compareKey bound => exact here.agrees_compareKey bound

end AtPlace

end View

/-! ## 5. Runs -/

section Runs

open Motion

variable {view : View ρ} {store : Store} {direction : Direction} {place : Nat} {seat : Option Seat}
  {walk : Walk ρ}

section Congruence

variable {other : Store} (same : other.shelves = store.shelves)
include same

theorem View.entriesAlong_congr : view.entriesAlong other = view.entriesAlong store := by
  funext direction
  unfold View.entriesAlong Store.list Store.shelf
  rw [same]

theorem View.keysAlong_congr : view.keysAlong other = view.keysAlong store := by
  funext direction
  unfold View.keysAlong Store.keysOf Store.shelf
  rw [same]

theorem View.resolved_congr : view.resolved other = view.resolved store := by
  funext raw
  unfold View.resolved Store.find? Store.shelf
  rw [same]

/-- What a place says, the entries decide. -/
theorem Tread.expect_congr (tread : Tread ρ β) :
    tread.expect view direction other = tread.expect view direction store := by
  funext place
  unfold Tread.expect
  rw [View.entriesAlong_congr same, View.resolved_congr same]

theorem Tread.expected_congr (treads : List (AnyTread ρ)) (place : Nat) :
    Tread.expected view direction other treads place
      = Tread.expected view direction store treads place := by
  induction treads generalizing place with
  | nil => rfl
  | cons head rest ih =>
    unfold Tread.expected
    rw [Tread.expect_congr same, ih]

theorem View.AtPlace.congr (here : view.AtPlace store direction place seat) :
    view.AtPlace other direction place seat := by
  cases here with
  | unheld =>
    rw [← View.entriesAlong_congr same]
    exact .unheld
  | held bound =>
    rw [← View.entriesAlong_congr same] at bound
    rw [← View.seatAt_congr same, ← View.keysAlong_congr same]
    exact .held bound

end Congruence

/-- **A run of the simulation**: a walk on a seat at a place answers what the places say. -/
theorem Tread.play_eq_expected (treads : List (AnyTread ρ)) {walk : Walk ρ} {store : Store}
    {seat : Option Seat} {place : Nat} (sits : Walk.Sits view direction store seat walk)
    (here : view.AtPlace store direction place seat)
    (free : walk.held? = none → store.cursors.size < store.settings.limits.maxCursors.toNat) :
    Tread.play treads walk store = Tread.expected view direction store treads place := by
  induction treads generalizing walk store seat place with
  | nil => rfl
  | cons head rest ih =>
    obtain ⟨β, tread⟩ := head
    obtain ⟨walk', after, ended, sits', strolled⟩ := tread.ends_foreseen sits fun _ => free
    obtain ⟨answered, next⟩ := here.agrees tread
    have same := strolled.sparing.shelves
    have later := ih sits' (next.congr same) (strolled.free free)
    unfold Tread.play Tread.expected
    rw [ended, later, Tread.expected_congr same, answered]

/-- Walks come to the first entry in their direction, if there is a slot for a cursor. -/
theorem Direction.outcome_begin (view : View ρ) (store : Store) (free : store.HasSlots 1)
    (direction : Direction) :
    ∃ walk opened, outcome (direction.begin Store.native view) store = (.ok walk, opened)
      ∧ opened.shelves = store.shelves
      ∧ Walk.Sits view direction opened
          (some (view.seatAt opened (.head (view.keysAlong opened direction)))) walk := by
  cases direction with
  | forward =>
    have steady := Store.steady_firstFrom view.placement.stem
    have target : store.firstFrom view.table.scope view.placement.stem view.placement.stem
        = .head (view.keysAlong store .forward) := Store.firstFrom_stem ..
    rcases view.outcome_start store .forward steady with
      ⟨full, _⟩ | ⟨id, opened, begun, joined, cursor⟩
    · exact absurd free full
    · refine ⟨_, opened, begun, joined.shelves, ?_⟩
      rw [View.keysAlong_congr joined.shelves, ← target]
      exact .held cursor
  | reverse =>
    have target : store.before (view.cursorAt .ended) = .head (view.keysAlong store .reverse) :=
      ahead_ended view store .reverse
    have steady : ∀ s t : Store, s.shelves = t.shelves → s.before = t.before :=
      fun _ _ same => behind_congr same .forward
    rcases view.outcome_start store .reverse steady with
      ⟨full, _⟩ | ⟨id, opened, begun, joined, cursor⟩
    · exact absurd free full
    · refine ⟨_, opened, begun, joined.shelves, ?_⟩
      rw [View.keysAlong_congr joined.shelves, ← target]
      exact .held cursor

end Runs

/-! ## 6. The result -/

/-- **Walks simulate places.** Whatever is asked of a walk that has been made at the first entry of
    an index, in either direction, it answers what the places in the list of the entries say, from
    place `0` on; and whatever is asked of a walk that has been made at the end, without a cursor, it
    answers what they say from the end on. So a walk at the end without a cursor answers as one that
    has come there, whatever it has been asked before. -/
theorem View.walks_simulate (view : View ρ) (store : Store) (free : store.HasSlots 1)
    (direction : Direction) :
    ∃ walk opened, outcome (direction.begin Store.native view) store = (.ok walk, opened) ∧
      ∀ treads : List (AnyTread ρ),
        Tread.play treads walk opened = Tread.expected view direction store treads 0 ∧
        Tread.play treads (.atEnd view direction) store
          = Tread.expected view direction store treads
              (view.entriesAlong store direction).length ∧
        ∀ earlier : List (AnyTread ρ), Tread.arrive view direction store earlier 0
            = (view.entriesAlong store direction).length →
          Tread.play (earlier ++ treads) walk opened
            = Tread.play earlier walk opened
              ++ Tread.play treads (.atEnd view direction) store := by
  obtain ⟨walk, opened, begun, same, sits⟩ := direction.outcome_begin view store free
  have first : view.AtPlace opened direction 0
    (some (view.seatAt opened (.head (view.keysAlong opened direction)))) :=
      .held (Nat.zero_le _)
  have held : walk.held? = none → opened.cursors.size < opened.settings.limits.maxCursors.toNat := by
    cases sits
    exact nofun
  have fromFirst : ∀ treads, Tread.play treads walk opened
      = Tread.expected view direction store treads 0 := fun treads =>
    (Tread.play_eq_expected treads sits first held).trans (Tread.expected_congr same treads 0)
  have fromEnd : ∀ treads, Tread.play treads (.atEnd view direction) store
      = Tread.expected view direction store treads (view.entriesAlong store direction).length :=
    fun treads => Tread.play_eq_expected treads .unheld .unheld fun _ => free
  refine ⟨walk, opened, begun, fun treads => ⟨fromFirst treads, fromEnd treads, ?_⟩⟩
  intro earlier ended
  rw [fromFirst, fromFirst, fromEnd, Tread.expected_append, ended]

/-- Three notes by their lengths: the walk in front of the first one, which has no cursor yet, goes
    back to the note of length one, then on to where it was, and no further. -/
theorem View.walks_simulate_notes : threeNotes.1.HasSlots 1 ∧
    Tread.play [⟨Unit, .retreat⟩, ⟨Bytes, .keyBehindStem⟩, ⟨Unit, .advance⟩, ⟨Unit, .advance⟩]
        (.atEnd byLengthAndText .reverse) threeNotes.1
      = [⟨Unit, .ok ()⟩, ⟨Bytes, .ok (KeyValue.tuple [.unsigned 8 1, .bytes [1]]).encode⟩,
          ⟨Unit, .ok ()⟩, ⟨Unit, .error (.misuse .stepFromReverseEnd)⟩] := by
  have free : threeNotes.1.HasSlots 1 := by decide +kernel
  obtain ⟨_, _, _, simulated⟩ := walks_simulate byLengthAndText threeNotes.1 free .reverse
  refine ⟨free, (simulated _).2.1.trans ?_⟩
  have entries : byLengthAndText.entriesAlong threeNotes.1 .reverse
      = [[1, 1], [2], [1]].map fun note =>
          (byLengthAndText.index.fullKey note, (byLengthAndText.entryOf note).value) := by
    decide +kernel
  have text : (byLengthAndText.index.fullKey [1]).drop byLengthAndText.placement.stem.length
      = (KeyValue.tuple [.unsigned 8 1, .bytes [1]]).encode := by decide +kernel
  simp [Tread.expected, Tread.expect, Tread.readAt, entries, text, Direction.stepFromEnd]

end IndexedStore
