import IndexedStore.Proofs.Table.Comparing
/-!
# Where seeks lead

A seek looks among all keys of a scope and keeps to those of its index. It leads to the least entry
from a key on, or above it, and to the end if there is none, wherever the key lies: below the keys of
the index, among them or above them.

* `Start.Made` are the walks that are where they were made, over the entries that there are;
* `Walk.Lands` says where a walk stands by the entries that are wanted;
* `View.landing_seek`, `View.landing_seekAbove` and `View.landing_find` are the three seeks;
* **`View.seeks_land`** is the result, with what follows for how the walks compare.
-/

namespace IndexedStore

open IndexedStore.Action

variable {ρ : Type}

/-! ## 1. Walks as they were made -/

/-- Whether a walk has been made in a way, over the entries that a store has, and stays there. -/
def Start.Made (start : Start) (view : View ρ) (store : Store) (walk : Walk ρ) : Prop :=
  ∃ before after, outcome (start.perform Store.native view) before = (.ok walk, after)
    ∧ store.shelves = before.shelves
    ∧ ∀ id, walk.held? = some id → store.cursors.get? id = after.cursors.get? id

namespace Start

variable {view : View ρ} {store other : Store} {start : Start} {walk : Walk ρ}

/-- Where a walk is made, the entries decide. -/
theorem foresee_congr (same : other.shelves = store.shelves) (start : Start) :
    start.foresee view other = start.foresee view store := by
  have seats : view.seatAt other = view.seatAt store := View.seatAt_congr same
  have sought : view.sought other = view.sought store := by
    funext key
    unfold View.sought
    rw [seats]
    exact congrArg (view.seatAt store)
      (congrFun (Store.steady_firstFrom key other store same) (view.cursorAt .ended))
  have onward : ∀ seat, Seat.onward view .forward other seat = seat.onward view .forward store := by
    intro seat
    unfold Seat.onward
    rw [seats, Direction.ahead_congr same]
  have last : other.before = store.before := Direction.behind_congr same .forward
  cases start <;> simp only [foresee, sought, onward, seats, last]

/-- **A walk that stays where it was made is on its seat.** -/
theorem Made.sits (made : start.Made view store walk) :
    Walk.Sits view start.direction store (start.foresee view store) walk := by
  obtain ⟨before, after, made, same, untouched⟩ := made
  have sits := (start.foretold_of_ok made).1
  rw [← foresee_congr same] at sits
  exact sits.of_cursor untouched

/-- A walk can be made where there is a slot, and the walks made before stay where they are. -/
theorem exists_made {slots : Nat} (start : Start) (view : View ρ)
    (free : store.HasSlots (slots + 1)) :
    ∃ walk after, outcome (start.perform Store.native view) store = (.ok walk, after)
      ∧ start.Made view after walk ∧ after.shelves = store.shelves ∧ after.HasSlots slots
      ∧ ∀ (other : Start) (view' : View ρ) (walk' : Walk ρ),
          other.Made view' store walk' → other.Made view' after walk' := by
  unfold Store.HasSlots at free
  obtain ⟨walk, after, made, _, strolled⟩ := start.outcome_foreseen view
    (show store.cursors.size < store.settings.limits.maxCursors.toNat by omega)
  have shelves := strolled.sparing.shelves
  refine ⟨walk, after, made, ⟨store, after, made, shelves, fun _ _ => rfl⟩, shelves, ?_, ?_⟩
  · have size : after.cursors.size + 0 = store.cursors.size + walk.held?.toList.length :=
      strolled.size
    have held : walk.held?.toList.length ≤ 1 := by cases walk.held? <;> simp
    unfold Store.HasSlots
    rw [strolled.sparing.settings]
    omega
  · intro other view' walk' made'
    have sits := made'.sits
    obtain ⟨before, after', made', same, untouched⟩ := made'
    refine ⟨before, after', made', shelves.trans same, fun id held => ?_⟩
    rw [← untouched id held]
    refine strolled.others id nofun fun held' => ?_
    rcases strolled.own with unheld | ⟨_, _, held'', fresh⟩
    · exact nomatch unheld.symm.trans held'
    · cases held''.symm.trans held'
      exact sits.isOpen held fresh

end Start

/-! ## 2. Where walks stand -/

/-- Whether a forward walk over an index stands on the least entry that is wanted, or at the end if
    there is none, and reads its key. -/
structure Walk.Lands (view : View ρ) (store : Store) (wanted : Bytes → Prop) (walk : Walk ρ) :
    Prop where
  inView : walk.view = view
  forward : walk.direction = .forward
  least : store.Least view.table.scope view.placement.stem wanted (walk.place store)
  isEnd_iff : walk.isEnd ↔ ∀ key, view.IsPlace store (.onKey key) → ¬ wanted key
  isGood_iff : walk.isGood ↔ ∃ key, walk.place store = .onKey key
  key_of : ∀ key, walk.place store = .onKey key →
    outcome (walk.key Store.native) store = (.ok key, store)

section Landing

variable {view : View ρ} {store : Store} {direction : Direction} {seat seat' : Option Seat}
  {walk walk' : Walk ρ} {wanted wanted' : Bytes → Prop} {position position' : Position}

/-- The least of fewer entries is no nearer. -/
theorem Store.Least.order_ne_gt
    (least : store.Least view.table.scope view.placement.stem wanted position)
    (least' : store.Least view.table.scope view.placement.stem wanted' position')
    (fewer : ∀ key, wanted' key → wanted key) : position.order position' ≠ .gt := by
  cases position' with
  | ended => cases position <;> exact nofun
  | onKey found' =>
    obtain ⟨begins, stored, holds, _⟩ := least'
    obtain ⟨found, rfl, notAbove⟩ := least.not_lt begins stored (fewer _ holds)
    show Bytes.order found found' ≠ .gt
    rw [ne_eq, Bytes.order_eq_gt_iff]
    exact notAbove

/-- The least entry is the end exactly if no entry is wanted. -/
theorem Store.Least.eq_ended_iff
    (least : store.Least view.table.scope view.placement.stem wanted position) :
    position = .ended ↔ ∀ key, view.IsPlace store (.onKey key) → ¬ wanted key := by
  cases position with
  | ended => exact ⟨fun _ key place => least key place.1 place.2, fun _ => rfl⟩
  | onKey found =>
    exact ⟨nofun, fun none => absurd least.2.2.1 (none found ⟨least.1, least.2.1⟩)⟩

/-- A walk remembers an entry exactly if it has arrived at one. -/
theorem Walk.Sits.isGood_iff (sits : Walk.Sits view direction store seat walk)
    (arrived : ∀ here ∈ seat, view.Arrived store here) :
    walk.isGood ↔ ∃ key, Seat.place seat = .onKey key := by
  have remembers := sits.standing_eq
  unfold Walk.isGood
  rw [decide_eq_true_iff, remembers]
  cases seat with
  | none => exact ⟨nofun, nofun⟩
  | some seat =>
    obtain ⟨current, here⟩ := arrived seat rfl
    obtain ⟨standing, position⟩ := seat
    cases position with
    | ended =>
      have ended : standing = .ended := current
      rw [ended]
      exact ⟨nofun, nofun⟩
    | onKey key =>
      have live : standing = .live := current.trans (if_pos here.2)
      exact ⟨fun _ => ⟨key, rfl⟩, fun _ => live⟩

/-- **A walk that has arrived on the least entry lands there.** -/
theorem Walk.Sits.lands (sits : Walk.Sits view .forward store seat walk)
    (arrived : ∀ here ∈ seat, view.Arrived store here)
    (least : store.Least view.table.scope view.placement.stem wanted (Seat.place seat)) :
    walk.Lands view store wanted := by
  have place : walk.place store = Seat.place seat := sits.place_eq
  have apt : ∀ here ∈ seat, here.Apt := fun here mem => (arrived here mem).apt
  refine ⟨sits.view_eq, sits.direction_eq, place ▸ least,
    (sits.isEnd_iff apt).trans least.eq_ended_iff, ?_, fun key on => ?_⟩
  · rw [place]
    exact sits.isGood_iff arrived
  · rw [sits.outcome_key arrived, ← place, on]

/-- A walk compares with a key by its position. -/
theorem Walk.Sits.outcome_compareKey (sits : Walk.Sits view direction store seat walk)
    (key : Bytes) : outcome (walk.compareKey Store.native key) store
      = (.ok ((Seat.place seat).order (.onKey key)), store) := by
  cases sits with
  | unheld => rfl
  | @held id seat cursor =>
    have compared := Store.outcome_compareKey id key store
    rw [cursor] at compared
    exact compared

/-- Walks at different positions hold different cursors. -/
theorem Walk.Sits.apart (sits : Walk.Sits view direction store seat walk)
    (sits' : Walk.Sits view direction store seat' walk')
    (differ : Seat.place seat ≠ Seat.place seat') : walk.Apart walk' := by
  intro id held held'
  cases sits with
  | unheld => exact nomatch held
  | held cursor =>
    cases sits' with
    | unheld => exact nomatch held'
    | held cursor' =>
      cases held
      cases held'
      exact differ (congrArg Cursor.position (Option.some.inj (cursor.symm.trans cursor')))

end Landing

/-! ## 3. The three seeks -/

section Seeks

variable {view : View ρ} {store : Store} {key : Bytes}

theorem View.least_sought (view : View ρ) (store : Store) (key : Bytes) :
    store.Least view.table.scope view.placement.stem (¬ · < key)
      (view.sought store key).position :=
  Store.least_firstFrom store view.table.scope view.placement.stem key

/-- An entry is the first one that is not below it. -/
theorem View.sought_of_isPlace (place : view.IsPlace store (.onKey key)) :
    (view.sought store key).position = .onKey key :=
  (view.least_sought store key).eq_onKey place.1 place.2 Std.lt_irrefl fun _ above => above

/-- **A search comes upon a key exactly if the key has an entry.** -/
theorem View.isOn_sought_iff :
    (view.sought store key).isOn key ↔ view.IsPlace store (.onKey key) := by
  unfold Seat.isOn
  rw [decide_eq_true_iff]
  constructor
  · rintro ⟨_, same⟩
    have on : (view.sought store key).position = .onKey key :=
      (Direction.order_eq_eq_iff .forward).mp same
    rw [← on]
    exact view.isPlace_sought store key
  · intro place
    have on := View.sought_of_isPlace place
    refine ⟨?_, (Direction.order_eq_eq_iff .forward).mpr on⟩
    show store.standingOf (view.cursorAt (view.sought store key).position) = .live
    rw [on]
    exact if_pos place.2

theorem View.foresee_seekAbove_of_isPlace (place : view.IsPlace store (.onKey key)) :
    (Start.seekAbove key).foresee view store
      = some (view.seatAt store (Direction.forward.ahead store (view.cursorAt (.onKey key)))) := by
  have here : (Start.seekAbove key).foresee view store = _ :=
    if_pos (View.isOn_sought_iff.mpr place)
  rw [here]
  unfold Seat.onward
  rw [View.sought_of_isPlace place]

theorem View.foresee_seekAbove_of_not_isPlace (missing : ¬ view.IsPlace store (.onKey key)) :
    (Start.seekAbove key).foresee view store = some (view.sought store key) :=
  if_neg fun on => missing (View.isOn_sought_iff.mp on)

/-- **A search above a key leads to the least entry above it**, whether the key has an entry or not. -/
theorem View.least_seekAbove (view : View ρ) (store : Store) (key : Bytes) :
    store.Least view.table.scope view.placement.stem (key < ·)
      (Seat.place ((Start.seekAbove key).foresee view store)) := by
  by_cases place : view.IsPlace store (.onKey key)
  · rw [View.foresee_seekAbove_of_isPlace place]
    exact Store.least_firstAfter store view.table.scope place.1
  · rw [View.foresee_seekAbove_of_not_isPlace place]
    refine (view.least_sought store key).congr fun other begins stored => ?_
    constructor
    · intro notBelow
      rcases Bytes.lt_or_eq_or_gt key other with above | same | below
      · exact above
      · exact absurd ⟨same ▸ begins, same ▸ stored⟩ place
      · exact absurd below notBelow
    · exact fun above below => Std.lt_irrefl (Std.lt_trans above below)

/-- **A search for a key leads to its entry**, or to the end. -/
theorem View.least_find (view : View ρ) (store : Store) (key : Bytes) :
    store.Least view.table.scope view.placement.stem (· = key)
      (Seat.place ((Start.find key).foresee view store)) := by
  by_cases place : view.IsPlace store (.onKey key)
  · have here : (Start.find key).foresee view store = some (view.sought store key) :=
      if_pos (View.isOn_sought_iff.mpr place)
    rw [here]
    show store.Least _ _ _ (view.sought store key).position
    rw [View.sought_of_isPlace place]
    exact ⟨place.1, place.2, rfl, fun _ _ _ same => same ▸ Std.lt_irrefl⟩
  · have none : (Start.find key).foresee view store = none :=
      if_neg fun on => place (View.isOn_sought_iff.mp on)
    rw [none]
    exact fun other begins stored same => place (same ▸ ⟨begins, stored⟩)

end Seeks

/-! ## 4. The result -/

open Motion in
/-- What the seeks over an index come to. -/
structure View.Seeking (view : View ρ) (store : Store) : Prop where
  /-- Where there is a slot every walk can be made. The walks made before stay where they are. -/
  makes : ∀ (start : Start) (slots : Nat), store.HasSlots (slots + 1) →
    ∃ walk after, outcome (start.perform Store.native view) store = (.ok walk, after)
      ∧ start.Made view after walk ∧ after.shelves = store.shelves ∧ after.HasSlots slots
      ∧ ∀ (other : Start) (view' : View ρ) (walk' : Walk ρ),
          other.Made view' store walk' → other.Made view' after walk'
  seek : ∀ key walk, (Start.seek key).Made view store walk →
    walk.Lands view store (¬ · < key) ∧
    ∃ ordering, outcome (walk.compareKey Store.native key) store = (.ok ordering, store)
      ∧ ordering ≠ .lt
  seekAbove : ∀ key walk, (Start.seekAbove key).Made view store walk →
    walk.Lands view store (key < ·)
  find : ∀ key walk, (Start.find key).Made view store walk →
    walk.Lands view store (· = key) ∧
    (walk.isGood ↔ view.IsPlace store (.onKey key)) ∧
    (¬ walk.isGood → walk = .atEnd view .forward)
  ascends : ∀ lesser key low low', ¬ key < lesser →
    (Start.seek lesser).Made view store low → (Start.seek key).Made view store low' →
    ∃ ordering, low.Compares store low' ordering ∧ ordering ≠ .gt
  /-- Around a key there is its entry, or nothing. -/
  around : ∀ key low high found, (Start.seek key).Made view store low →
    (Start.seekAbove key).Made view store high → (Start.find key).Made view store found →
    low.Compares store high (if found.isGood then .lt else .eq) ∧
    (found.isGood → ∃ low' after,
      ends (Walk.advance Store.native) low store = ((.ok (), low'), after)
        ∧ low'.Compares after high .eq)

section Result

open Motion

variable {view : View ρ} {store : Store} {start start' : Start} {key : Bytes}
  {walk walk' low high found : Walk ρ} {wanted : Bytes → Prop}

namespace Start.Made

theorem lands (made : start.Made view store walk) (forward : start.direction = .forward)
    (least : store.Least view.table.scope view.placement.stem wanted
      (Seat.place (start.foresee view store))) : walk.Lands view store wanted := by
  have sits := made.sits
  rw [forward] at sits
  exact sits.lands start.arrived_foresee least

theorem compares (made : start.Made view store walk) (made' : start'.Made view store walk')
    (same : start'.direction = start.direction) :
    walk.Compares store walk' (start.direction.order (Seat.place (start.foresee view store))
      (Seat.place (start'.foresee view store))) := by
  have sits' := made'.sits
  rw [same] at sits'
  exact made.sits.compares sits' (start.apt_foresee view store) (start'.apt_foresee view store)

/-- A walk that looks for a key is good exactly if the key has an entry. -/
theorem find_isGood_iff (made : (Start.find key).Made view store found) :
    found.isGood ↔ view.IsPlace store (.onKey key) := by
  have lands := made.lands rfl (view.least_find store key)
  refine lands.isGood_iff.trans ⟨?_, fun place => ?_⟩
  · rintro ⟨other, on⟩
    have least := lands.least
    rw [on] at least
    obtain ⟨begins, stored, rfl, _⟩ := least
    exact ⟨begins, stored⟩
  · obtain ⟨other, on, _⟩ := lands.least.not_lt place.1 place.2 rfl
    exact ⟨other, on⟩

/-- **One step leads from an entry to where a search above its key leads.** -/
theorem advance_meets (made : (Start.seek key).Made view store low)
    (made' : (Start.seekAbove key).Made view store high) (place : view.IsPlace store (.onKey key)) :
    ∃ low' after, ends (Walk.advance Store.native) low store = ((.ok (), low'), after)
      ∧ low'.Compares after high .eq := by
  have on := View.sought_of_isPlace place
  let next := Direction.forward.ahead store (view.cursorAt (.onKey key))
  have sits : Walk.Sits view .forward store (some (view.sought store key)) low := made.sits
  have sits' : Walk.Sits view .forward store (some (view.seatAt store next)) high :=
    View.foresee_seekAbove_of_isPlace place ▸ made'.sits
  have going : (view.sought store key).standing ≠ .ended := by
    have live : (view.sought store key).standing = .live :=
      (of_decide_eq_true (View.isOn_sought_iff.mpr place)).1
    rw [live]
    exact nofun
  have apart : high.Apart low := by
    refine sits'.apart sits fun same => ?_
    have past : Direction.forward.order (.onKey key) next = .lt :=
      Direction.order_ahead .forward place.1
    have here : next = .onKey key := Eq.trans same on
    rw [here, Direction.order_self] at past
    exact nomatch past
  have foreseen : (Tread.advance : Tread ρ Unit).foresee view .forward store
      (some (view.sought store key)) = (.ok (), some (view.seatAt store next)) := by
    refine (if_neg going).trans ?_
    rw [on]
  obtain ⟨low', after, ended, sits'', strolled⟩ := Tread.ends_foreseen sits .advance nofun
  rw [foreseen] at ended sits''
  have apt : ∀ here ∈ some (view.seatAt store next), here.Apt := by
    rintro _ ⟨⟩
    exact view.apt_seatAt store next
  refine ⟨low', after, ended, ?_⟩
  have compares := sits''.compares (sits'.beside strolled apart).1 apt apt
  rwa [Direction.order_self] at compares

end Start.Made

/-- **Seeks land where they say.** Take any index, any store and any key, below the keys of the index,
    among them or above them. A walk that seeks the key lands on the least entry that is not below it,
    one that seeks above it on the least entry above it, and one that looks for it on its entry, each
    at the end if there is none. So seeks ascend with their keys, and around a key there is one entry
    if it can be found, and none otherwise. -/
theorem View.seeks_land (view : View ρ) (store : Store) : view.Seeking store where
  makes start _ free := start.exists_made view free
  seek key walk made := by
    refine ⟨made.lands rfl (view.least_sought store key), _, made.sits.outcome_compareKey key, ?_⟩
    have least := view.least_sought store key
    show (view.sought store key).position.order (.onKey key) ≠ .lt
    cases on : (view.sought store key).position with
    | ended => exact nofun
    | onKey found =>
      rw [on] at least
      exact fun below => least.2.2.1 (Bytes.order_eq_lt_iff.mp below)
  seekAbove key walk made := made.lands rfl (view.least_seekAbove store key)
  find key walk made := by
    refine ⟨made.lands rfl (view.least_find store key), made.find_isGood_iff, fun missing => ?_⟩
    have none : (Start.find key).foresee view store = none :=
      if_neg fun on => missing (made.find_isGood_iff.mpr (View.isOn_sought_iff.mp on))
    have sits := made.sits
    rw [none] at sits
    cases sits
    rfl
  ascends lesser key low low' above made made' := by
    refine ⟨_, made.compares made' rfl, ?_⟩
    exact (view.least_sought store lesser).order_ne_gt (view.least_sought store key)
      fun other notBelow below => notBelow (Std.lt_of_lt_of_le below (Std.not_lt.mp above))
  around key low high found made made' made'' := by
    have compares := made.compares made' rfl
    by_cases place : view.IsPlace store (.onKey key)
    · have good := made''.find_isGood_iff.mpr place
      rw [if_pos good]
      refine ⟨?_, fun _ => made.advance_meets made' place⟩
      rw [View.foresee_seekAbove_of_isPlace place] at compares
      have past : Direction.forward.order (view.sought store key).position
          (Direction.forward.ahead store (view.cursorAt (.onKey key))) = .lt := by
        rw [View.sought_of_isPlace place]
        exact Direction.order_ahead .forward place.1
      exact past ▸ compares
    · have missing : ¬ found.isGood := fun good => place (made''.find_isGood_iff.mp good)
      rw [if_neg missing]
      refine ⟨?_, fun good => absurd good missing⟩
      rw [View.foresee_seekAbove_of_not_isPlace place] at compares
      have same := Direction.order_self .forward (view.sought store key).position
      exact same ▸ compares

end Result

end IndexedStore
