import IndexedStore.Proofs.Table.Holdings
import IndexedStore.Proofs.Table.Outlook
/-!
# Two stores that foresee the same

Two stores that hold the same in the estate of a table foresee the same of all its walks, scans and
ranges. What makes it so is that seats keep to the keys of their index (`Seat.Within`).

* `Scan.within_foresee`: a step of a scan leads from such a seat to another one, as one of a walk does;
* `Tread.foresee_eq`, `Start.foresee_eq`, `Scan.Mark.next_eq` compare the two stores step by step;
* a scan or a collection goes on for as many steps as there are entries ahead, `View.remaining`, so a
  larger bound on the steps changes nothing (`Scan.Mark.drain_enough`, `View.gather_enough`). The
  bounds in the two stores differ: they count all entries of the scope, whoever owns them;
* **`Scan.Mark.all_eq`**, **`View.range_eq`** and **`Table.tally_eq`** compare what is read in the end.
-/

namespace IndexedStore

open IndexedStore.Action

variable {ρ α β : Type}

/-! ## 1. Scans keep to their index -/

section Within

variable {view : View ρ} {store : Store} {seat : Seat}

theorem Seat.Within.settled (within : seat.Within view) :
    (seat.settled view store).Within view := by
  unfold Seat.settled
  dsimp only
  split
  · have inside : (view.seatAt store seat.position).Within view := within
    exact inside.onward .forward
  · exact within

/-- **A step of a scan keeps to the index.** -/
theorem Scan.within_foresee (store : Store) (reading : Reading ρ α) (stop : Option Bytes)
    (within : seat.Within view) : (foresee view store reading stop seat).2.Within view := by
  unfold foresee handedOut
  split
  · exact within.settled
  · split
    · exact within.settled
    · exact within.settled.onward .forward

theorem Scan.Mark.within_next (store : Store) (reading : Reading ρ α) {mark : Mark}
    (within : mark.seat.Within view) : (mark.next view store reading).2.seat.Within view := by
  have stepped := Scan.within_foresee store reading mark.stop within
  unfold next
  split
  · exact within
  · rcases foreseen : foresee view store reading mark.stop mark.seat with ⟨_ | _ | _, here⟩ <;>
      (rw [foreseen] at stepped
       exact stepped)

end Within

/-! ## 2. What is foreseen is the same -/

section Same

variable {view : View ρ} {direction : Direction} {s t : Store} {seat : Seat} {position : Position}

namespace View

variable (alike : view.table.estate.Alike s t)
include alike

theorem seatAt_eq (within : position.Within view.placement.stem) :
    view.seatAt s position = view.seatAt t position :=
  congrArg (Seat.mk · position) (alike.standingOf_eq view.covers_stem within)

theorem sought_eq (key : Bytes) : view.sought s key = view.sought t key := by
  have first : s.firstFrom view.table.scope view.placement.stem key
      = t.firstFrom view.table.scope view.placement.stem key :=
    alike.firstFrom_eq view.covers_stem key
  unfold sought
  rw [first]
  exact seatAt_eq alike (Store.least_firstFrom t view.table.scope view.placement.stem key).within

theorem readFrom_eq (part : Bytes × Entry → Bytes) {seat : Option Seat}
    (within : ∀ here ∈ seat, here.Within view) :
    view.readFrom s part seat = view.readFrom t part seat := by
  cases seat with
  | none => rfl
  | some seat =>
    have entry : s.entryAt? (view.cursorAt seat.position)
        = t.entryAt? (view.cursorAt seat.position) :=
      alike.entryAt?_eq view.covers_stem (within seat rfl)
    unfold readFrom
    dsimp only
    rw [entry]

theorem resolved_eq {raw : Bytes} (leads : view.isPrimary = false → view.table.estate.owns raw) :
    view.resolved s raw = view.resolved t raw := by
  have same := (within_resolve view leads s t alike).result
  rw [outcome_resolved, outcome_resolved] at same
  exact same

/-- The record at a seat is the same in both stores: what an index holds leads to a key of the
    table. -/
theorem value_eq {seat : Option Seat} (within : ∀ here ∈ seat, here.Within view) :
    (view.readFrom s (·.2.value) seat >>= view.resolved s)
      = view.readFrom t (·.2.value) seat >>= view.resolved t := by
  rw [← readFrom_eq alike (·.2.value) within]
  cases read : view.readFrom s (·.2.value) seat with
  | error fault => rfl
  | ok raw =>
    obtain ⟨key, found, rfl, stored, rfl⟩ := entry_of_readFrom read
    have begins := within _ rfl key rfl
    exact resolved_eq alike fun secondary =>
      alike.pointers key found (points_of_secondary view secondary begins) stored

end View

variable (alike : view.table.estate.Alike s t)
include alike

theorem Direction.ahead_eq (direction : Direction) (within : position.Within view.placement.stem) :
    direction.ahead s (view.cursorAt position) = direction.ahead t (view.cursorAt position) := by
  cases direction with
  | forward => exact alike.after_eq view.covers_stem within
  | reverse => exact alike.before_eq view.covers_stem within

theorem Direction.behind_eq (direction : Direction) (within : position.Within view.placement.stem) :
    direction.behind s (view.cursorAt position) = direction.behind t (view.cursorAt position) := by
  cases direction with
  | forward => exact alike.before_eq view.covers_stem within
  | reverse => exact alike.after_eq view.covers_stem within

theorem Seat.onward_eq (direction : Direction) (within : seat.Within view) :
    seat.onward view direction s = seat.onward view direction t := by
  unfold Seat.onward
  rw [direction.ahead_eq alike within]
  exact View.seatAt_eq alike (direction.within_ahead within)

theorem Seat.settled_eq (within : seat.Within view) :
    seat.settled view s = seat.settled view t := by
  have now : view.seatAt s seat.position = view.seatAt t seat.position :=
    View.seatAt_eq alike within
  have next : (view.seatAt t seat.position).onward view .forward s
      = (view.seatAt t seat.position).onward view .forward t :=
    Seat.onward_eq alike .forward within
  unfold Seat.settled
  dsimp only
  rw [now, next]

/-- **A step of a walk is foreseen alike.** -/
theorem Tread.foresee_eq (tread : Tread ρ β) {seat : Option Seat}
    (within : ∀ here ∈ seat, here.Within view) :
    tread.foresee view direction s seat = tread.foresee view direction t seat := by
  cases tread with
  | advance =>
    cases seat with
    | none => rfl
    | some seat =>
      have next : view.seatAt s (direction.ahead s (view.cursorAt seat.position))
          = view.seatAt t (direction.ahead t (view.cursorAt seat.position)) :=
        Seat.onward_eq alike direction (within seat rfl)
      unfold foresee
      dsimp only
      rw [next]
  | retreat =>
    let position := (seat.map fun here => here.position).getD .ended
    have here : position.Within view.placement.stem := by
      cases seat with
      | none => exact Position.within_ended _
      | some seat => exact within seat rfl
    have next : view.seatAt s (direction.behind s (view.cursorAt position))
        = view.seatAt t (direction.behind t (view.cursorAt position)) := by
      rw [direction.behind_eq alike here]
      exact View.seatAt_eq alike (direction.within_behind here)
    unfold foresee
    dsimp only
    rw [next]
  | refresh =>
    cases seat with
    | none => rfl
    | some seat =>
      have now := View.seatAt_eq alike (within seat rfl)
      unfold foresee
      dsimp only
      rw [now]
  | standing => rfl
  | key => exact congrArg (·, seat) (View.readFrom_eq alike _ within)
  | keyBehindStem =>
    exact congrArg (fun read : Except Fault Bytes =>
      (read >>= view.placement.behindStem, seat)) (View.readFrom_eq alike _ within)
  | value => exact congrArg (·, seat) (View.value_eq alike within)
  | compareKey bound => cases seat <;> rfl

/-- **A walk is made alike.** -/
theorem Start.foresee_eq (start : Start) : start.foresee view s = start.foresee view t := by
  have sought := View.sought_eq alike
  have onward : ∀ key, (view.sought t key).onward view .forward s
      = (view.sought t key).onward view .forward t :=
    fun key => Seat.onward_eq alike .forward (view.within_sought t key)
  cases start with
  | seek key => exact congrArg some (sought key)
  | find key =>
    unfold foresee
    dsimp only
    rw [sought]
  | seekAbove key =>
    unfold foresee
    dsimp only
    rw [sought, onward]
  | first => exact congrArg some (sought _)
  | last =>
    have ended : Position.Within view.placement.stem .ended := Position.within_ended _
    have last : s.before (view.cursorAt .ended) = t.before (view.cursorAt .ended) :=
      alike.before_eq view.covers_stem ended
    unfold foresee
    dsimp only
    rw [last]
    exact congrArg some (View.seatAt_eq alike (Store.within_before ended))
  | pastLast => rfl
  | beforeFirst => rfl

theorem Reading.foresee_eq (reading : Reading ρ α) (within : seat.Within view) :
    reading.foresee view s seat = reading.foresee view t seat := by
  have here : ∀ other ∈ some seat, Seat.Within view other :=
    fun _ same => Option.some.inj same ▸ within
  cases reading with
  | record => exact View.value_eq alike here
  | key =>
    exact congrArg (fun read : Except Fault Bytes => read >>= view.placement.behindStem)
      (View.readFrom_eq alike _ here)

/-- **A step of a scan is foreseen alike.** -/
theorem Scan.foresee_eq (reading : Reading ρ α) (stop : Option Bytes) (within : seat.Within view) :
    foresee view s reading stop seat = foresee view t reading stop seat := by
  have settled := Seat.settled_eq alike within
  have here : (seat.settled view t).Within view := within.settled
  unfold foresee handedOut
  rw [settled, Reading.foresee_eq alike reading here, Seat.onward_eq alike .forward here]

theorem Scan.Mark.next_eq (reading : Reading ρ α) {mark : Mark} (within : mark.seat.Within view) :
    mark.next view s reading = mark.next view t reading := by
  unfold next
  rw [Scan.foresee_eq alike reading mark.stop within]

end Same

/-! ## 3. Bounds on the steps -/

/-- How many entries of an index there are from a position on. -/
def View.remaining (view : View ρ) (store : Store) : Position → Nat
  | .ended => 0
  | .onKey key => (store.keysOf view.table.scope view.placement.stem).countP (¬ · < key)

section Bounds

variable {view : View ρ} {store : Store} {seat : Seat} {key : Bytes}

theorem View.remaining_le (view : View ρ) (store : Store) (position : Position) :
    view.remaining store position ≤ store.size view.table.scope := by
  cases position with
  | ended => exact Nat.zero_le _
  | onKey key =>
    have counted : view.remaining store (.onKey key)
        = ((store.keysOf view.table.scope view.placement.stem).filter (¬ · < key)).length :=
      List.countP_eq_length_filter
    rw [counted]
    exact Store.length_filter_keysOf_le ..

/-- No more entries are behind a key than from it on. -/
theorem View.remaining_after_le (begins : Bytes.startsWith key view.placement.stem) :
    view.remaining store (store.after (view.cursorAt (.onKey key)))
      ≤ view.remaining store (.onKey key) := by
  have least := Store.least_firstAfter store view.table.scope begins
  have after : store.after (view.cursorAt (.onKey key))
      = store.firstAfter view.table.scope view.placement.stem key := rfl
  rw [after]
  cases next : store.firstAfter view.table.scope view.placement.stem key with
  | ended => exact Nat.zero_le _
  | onKey other =>
    rw [next] at least
    refine List.countP_mono_left fun probe _ above => ?_
    have above := of_decide_eq_true above
    exact decide_eq_true fun below => above (Std.lt_trans below least.2.2.1)

/-- Fewer are behind an entry than from it on. -/
theorem View.remaining_after_lt (begins : Bytes.startsWith key view.placement.stem)
    (stored : (store.find? view.table.scope key).isSome) :
    view.remaining store (store.after (view.cursorAt (.onKey key)))
      < view.remaining store (.onKey key) := by
  have least := Store.least_firstAfter store view.table.scope begins
  have after : store.after (view.cursorAt (.onKey key))
      = store.firstAfter view.table.scope view.placement.stem key := rfl
  have mem : key ∈ store.keysOf view.table.scope view.placement.stem :=
    Store.mem_keysOf.mpr ⟨begins, stored⟩
  rw [after]
  cases next : store.firstAfter view.table.scope view.placement.stem key with
  | ended => exact List.countP_pos_iff.mpr ⟨key, mem, decide_eq_true Std.lt_irrefl⟩
  | onKey other =>
    rw [next] at least
    have beyond : key < other := least.2.2.1
    obtain ⟨passed, rest, listed⟩ := List.append_of_mem mem
    have mono : ∀ list : List Bytes, list.countP (¬ · < other) ≤ list.countP (¬ · < key) := by
      intro list
      refine List.countP_mono_left fun probe _ above => ?_
      have above := of_decide_eq_true above
      exact decide_eq_true fun below => above (Std.lt_trans below beyond)
    have one := mono passed
    have two := mono rest
    have here : ¬ key < key := Std.lt_irrefl
    unfold remaining
    rw [listed]
    simp only [List.countP_append, List.countP_cons, beyond, here, not_true, not_false_eq_true,
      decide_true, decide_false, if_true]
    simp only [Bool.false_eq_true, if_false]
    omega

/-- Passing over an erased entry brings no entry back. -/
theorem View.remaining_settled_le (within : seat.Within view) :
    view.remaining store (seat.settled view store).position ≤ view.remaining store seat.position := by
  unfold Seat.settled
  dsimp only
  split
  · rename_i gone
    obtain ⟨standing, position⟩ := seat
    cases position with
    | ended => exact nomatch gone
    | onKey key => exact View.remaining_after_le (within key rfl)
  · exact Nat.le_refl _

/-- What is read of a seat is of an entry. -/
theorem Reading.entry_of_ok {reading : Reading ρ α} {item : α}
    (read : reading.foresee view store seat = .ok item) :
    ∃ key, seat.position = .onKey key ∧ (store.find? view.table.scope key).isSome := by
  have entry : ∀ {part : Bytes × Entry → Bytes} {bytes : Bytes},
      view.readFrom store part (some seat) = .ok bytes →
      ∃ key, seat.position = .onKey key ∧ (store.find? view.table.scope key).isSome := by
    intro part bytes read
    obtain ⟨key, found, same, stored, _⟩ := View.entry_of_readFrom read
    obtain rfl := Option.some.inj same
    exact ⟨key, rfl, Option.isSome_iff_exists.mpr ⟨found, stored⟩⟩
  cases reading with
  | record =>
    cases bytes : view.readFrom store (·.2.value) (some seat) with
    | ok _ => exact entry bytes
    | error fault =>
      unfold foresee at read
      rw [bytes] at read
      exact nomatch read
  | key =>
    cases bytes : view.readFrom store (·.1) (some seat) with
    | ok _ => exact entry bytes
    | error fault =>
      unfold foresee at read
      rw [bytes] at read
      exact nomatch read

/-- Behind a seat that something was read of there is one entry less ahead. -/
theorem Reading.remaining_onward_lt {reading : Reading ρ α} {item : α} (within : seat.Within view)
    (read : reading.foresee view store seat = .ok item) :
    view.remaining store (seat.onward view .forward store).position
      < view.remaining store seat.position := by
  obtain ⟨key, here, stored⟩ := Reading.entry_of_ok read
  have onward : (seat.onward view .forward store).position
      = store.after (view.cursorAt (.onKey key)) := by
    unfold Seat.onward
    rw [here]
    rfl
  rw [onward, here]
  exact View.remaining_after_lt (within key here) stored

/-- A scan that hands out an item has one entry less ahead. -/
theorem Scan.remaining_lt_of_item {reading : Reading ρ α} {stop : Option Bytes} {item : α}
    {next : Seat} (within : seat.Within view)
    (stepped : foresee view store reading stop seat = (.ok (some item), next)) :
    view.remaining store next.position < view.remaining store seat.position := by
  have settled : (seat.settled view store).Within view := within.settled
  refine Nat.lt_of_lt_of_le ?_ (View.remaining_settled_le within)
  unfold foresee handedOut at stepped
  split at stepped
  · cases stepped
  · cases read : reading.foresee view store (seat.settled view store) with
    | error fault =>
      rw [read] at stepped
      cases stepped
    | ok handed =>
      rw [read] at stepped
      cases stepped
      exact Reading.remaining_onward_lt settled read

namespace Scan.Mark

variable {reading : Reading ρ α} {mark : Mark}

theorem drain_of_done (done : mark.done = true) (bound : Nat) :
    mark.drain view store reading bound = [] := by
  cases bound with
  | zero => rfl
  | succ bound =>
    have out : mark.next view store reading = (none, mark) := if_pos done
    unfold drain
    rw [out]

/-- After an item there is one entry less ahead, and after a fault a scan has ended. -/
theorem next_cases (within : mark.seat.Within view) {answer : Except Fault α} {mark' : Mark}
    (next : mark.next view store reading = (some answer, mark')) :
    mark'.done = true ∨
      view.remaining store mark'.seat.position < view.remaining store mark.seat.position := by
  unfold Mark.next at next
  split at next
  · cases next
  · rcases stepped : foresee view store reading mark.stop mark.seat with ⟨_ | _ | _, seat⟩
    · rw [stepped] at next
      cases next
      exact .inl rfl
    · rw [stepped] at next
      cases next
    · rw [stepped] at next
      cases next
      exact .inr (remaining_lt_of_item within stepped)

/-- **Larger bounds hand out nothing more** than those that the entries ahead keep to. -/
theorem drain_enough (reading : Reading ρ α) {bound : Nat} : ∀ {mark : Mark} {bound' : Nat},
    mark.seat.Within view → view.remaining store mark.seat.position < bound →
    view.remaining store mark.seat.position < bound' →
    mark.drain view store reading bound = mark.drain view store reading bound' := by
  induction bound with
  | zero => exact fun _ enough => absurd enough (Nat.not_lt_zero _)
  | succ bound ih =>
    intro mark bound' within enough enough'
    cases bound' with
    | zero => exact absurd enough' (Nat.not_lt_zero _)
    | succ bound' =>
      have within' := within_next store reading within
      unfold drain
      rcases next : mark.next view store reading with ⟨_ | answer, mark'⟩
      · rfl
      · rw [next] at within'
        refine congrArg (answer :: ·) ?_
        rcases next_cases within next with done | fewer
        · rw [drain_of_done done, drain_of_done done]
        · exact ih within' (by omega) (by omega)

end Scan.Mark

/-- **Larger bounds collect nothing more** than those that the entries ahead keep to. -/
theorem View.gather_enough (stop : Seat) {bound : Nat} : ∀ {seat : Seat} {bound' : Nat},
    seat.Within view → view.remaining store seat.position < bound →
    view.remaining store seat.position < bound' →
    view.gather store stop bound seat = view.gather store stop bound' seat := by
  induction bound with
  | zero => exact fun _ enough => absurd enough (Nat.not_lt_zero _)
  | succ bound ih =>
    intro seat bound' within enough enough'
    cases bound' with
    | zero => exact absurd enough' (Nat.not_lt_zero _)
    | succ bound' =>
      unfold gather
      split
      · cases read : view.readFrom store (·.2.value) (some seat) >>= view.resolved store with
        | error fault => rfl
        | ok record =>
          have recorded : Reading.record.foresee view store seat = .ok record := read
          have fewer := Reading.remaining_onward_lt within recorded
          have rest : view.gather store stop bound (seat.onward view .forward store)
              = view.gather store stop bound' (seat.onward view .forward store) :=
            ih (within.onward .forward) (by omega) (by omega)
          rw [rest]
      · rfl

end Bounds

/-! ## 4. What is read in the end -/

section Ends

variable {view : View ρ} {s t : Store} (alike : view.table.estate.Alike s t)
include alike

theorem View.remaining_eq (position : Position) :
    view.remaining s position = view.remaining t position := by
  have keys : s.keysOf view.table.scope view.placement.stem
      = t.keysOf view.table.scope view.placement.stem := alike.keysOf_eq view.covers_stem
  unfold remaining
  rw [keys]

theorem Scan.Mark.drain_eq (reading : Reading ρ α) (bound : Nat) : ∀ {mark : Mark},
    mark.seat.Within view →
    mark.drain view s reading bound = mark.drain view t reading bound := by
  induction bound with
  | zero => exact fun _ => rfl
  | succ bound ih =>
    intro mark within
    have within' := within_next t reading within
    unfold drain
    rw [Mark.next_eq alike reading within]
    rcases next : mark.next view t reading with ⟨_ | answer, mark'⟩
    · rfl
    · rw [next] at within'
      exact congrArg (answer :: ·) (ih within')

/-- **A scan hands out the same in the end**, whatever else there is in the two scopes. -/
theorem Scan.Mark.all_eq (reading : Reading ρ α) {mark : Mark} (within : mark.seat.Within view) :
    mark.drain view s reading (s.size view.table.scope + 1)
      = mark.drain view t reading (t.size view.table.scope + 1) := by
  have enough := Nat.lt_succ_of_le (view.remaining_le s mark.seat.position)
  have enough' := Nat.lt_succ_of_le (view.remaining_le t mark.seat.position)
  rw [← View.remaining_eq alike] at enough'
  rw [drain_enough reading within enough enough', drain_eq alike reading _ within]

theorem View.gather_eq (stop : Seat) (bound : Nat) : ∀ {seat : Seat}, seat.Within view →
    view.gather s stop bound seat = view.gather t stop bound seat := by
  induction bound with
  | zero => exact fun _ => rfl
  | succ bound ih =>
    intro seat within
    have here : ∀ other ∈ some seat, Seat.Within view other :=
      fun _ same => Option.some.inj same ▸ within
    unfold gather
    rw [View.value_eq alike here, Seat.onward_eq alike .forward within,
      ih (within.onward .forward)]

/-- **A range reads the same**, whatever else there is in the two scopes. -/
theorem View.range_eq (lower upper : Bytes) :
    view.gather s (view.sought s upper) (s.size view.table.scope + 1) (view.sought s lower)
      = view.gather t (view.sought t upper) (t.size view.table.scope + 1)
          (view.sought t lower) := by
  have within := view.within_sought t lower
  have enough := Nat.lt_succ_of_le (view.remaining_le s (view.sought t lower).position)
  have enough' := Nat.lt_succ_of_le (view.remaining_le t (view.sought t lower).position)
  rw [← View.remaining_eq alike] at enough'
  rw [View.sought_eq alike, View.sought_eq alike, gather_enough _ within enough enough',
    gather_eq alike _ _ within]

omit alike in
/-- **A table counts the same.** -/
theorem Table.tally_eq {table : Table ρ} (alike : table.estate.Alike s t) :
    table.tally s = table.tally t := by
  have alike : table.primaryView.table.estate.Alike s t := alike
  have marks : Scan.markOf table.primaryView s .whole = Scan.markOf table.primaryView t .whole := by
    unfold Scan.markOf
    rw [View.sought_eq alike]
  have within : (Scan.markOf table.primaryView t .whole).seat.Within table.primaryView :=
    table.primaryView.within_sought t _
  unfold tally
  rw [marks]
  exact congrArg (fun keys => (keys.mapM id).map List.length)
    (Scan.Mark.all_eq alike .key within)

end Ends

end IndexedStore
