import IndexedStore.Proofs.Table.Outlook
import IndexedStore.Proofs.Table.Positions
/-!
# Half-open ranges

A range has the entries of an index from one key on and below another, and it can be read AT ONCE or
ONE BY ONE. The two ways stop differently: the first compares two walks, the second compares its
walk with a key. They agree all the same, in every store: with values that do not read back,
pointers to nothing, bounds of other indices, bounds the wrong way round.

* `View.entriesBetween` are the entries of a range, `upToFault` what reading one by one gives;
* `View.Ahead` is the list of the entries that a walk still has ahead of it, the invariant of both;
* `View.gather_ahead` and `Scan.Mark.drain_ahead` run through it in the two ways;
* **`View.range_half_open`** is the result.
-/

namespace IndexedStore

open IndexedStore.Action

variable {ρ α : Type}

/-! ## 1. Reading one by one -/

/-- What reading in sequence hands out: all readings, or those before the first fault and that
    fault. -/
def upToFault : List (Except Fault α) → List (Except Fault α)
  | [] => []
  | .error fault :: _ => [.error fault]
  | .ok value :: rest => .ok value :: upToFault rest

theorem length_upToFault_le (readings : List (Except Fault α)) :
    (upToFault readings).length ≤ readings.length := by
  induction readings with
  | nil => exact Nat.le_refl _
  | cons reading rest ih =>
    cases reading with
    | error fault => exact Nat.succ_le_succ (Nat.zero_le _)
    | ok value => exact Nat.succ_le_succ ih

/-- **Reading at once and reading one by one tell the same**: all values, or a fault and the values
    before it. -/
theorem upToFault_cases (readings : List (Except Fault α)) :
    (∃ values : List α, readings = values.map .ok ∧ readings.mapM id = .ok values
      ∧ upToFault readings = values.map .ok) ∨
    ∃ (values : List α) (fault : Fault) (rest : List (Except Fault α)),
      readings = values.map .ok ++ .error fault :: rest
      ∧ readings.mapM id = .error fault
      ∧ upToFault readings = values.map .ok ++ [.error fault] := by
  induction readings with
  | nil => exact .inl ⟨[], rfl, rfl, rfl⟩
  | cons reading rest ih =>
    cases reading with
    | error fault => exact .inr ⟨[], fault, rest, rfl, rfl, rfl⟩
    | ok value =>
      have chain : (Except.ok value :: rest).mapM id
          = (rest.mapM id >>= fun values => .ok (value :: values)) := by
        rw [List.mapM_cons]
        rfl
      rw [chain]
      rcases ih with ⟨values, rfl, once, single⟩ | ⟨values, fault, later, rfl, once, single⟩
      · refine .inl ⟨value :: values, rfl, ?_, congrArg (List.cons (Except.ok value)) single⟩
        rw [once]
        rfl
      · refine .inr ⟨value :: values, fault, later, rfl, ?_,
          congrArg (List.cons (Except.ok value)) single⟩
        rw [once]
        rfl

namespace Scan

variable {backend : Backend Store} {read : Walk ρ → Action Store α} {scan scan' : Scan ρ}
  {store after : Store}

/-- A scan that hands out nothing has ended. -/
theorem done_of_next_none (h : scan.next backend read store = ((none, scan'), after)) :
    scan'.done = true := by
  cases done : scan.done with
  | true =>
    rw [next_of_done backend done] at h
    cases h
    exact done
  | false =>
    rw [next_of_going backend read done] at h
    rcases stepped : Motion.ends (step backend read scan.stop) scan.walk store
      with ⟨⟨_ | _ | _, _⟩, _⟩ <;>
      (rw [stepped] at h; cases h)
    rfl

/-- A scan that is drained short of the bound has ended. -/
theorem done_of_drained {bound : Nat} {items : List (Except Fault α)} {last : Scan ρ}
    (drained : scan.drain Store.native read bound store = ((items, last), after))
    (short : items.length < bound) : last.done = true := by
  induction bound generalizing scan store items with
  | zero => exact absurd short (Nat.not_lt_zero _)
  | succ bound ih =>
    rcases next : scan.next Store.native read store with ⟨⟨_ | item, scan'⟩, middle⟩
    · cases (drain_of_none bound next).symm.trans drained
      exact done_of_next_none next
    · cases (drain_of_some bound next).symm.trans drained
      exact ih rfl (Nat.lt_of_succ_lt_succ short)

end Scan

namespace View

variable {view : View ρ} {store : Store} {entry : Bytes × Bytes} {ahead : List (Bytes × Bytes)}
  {lower upper : Bytes}

/-! ## 2. What is ahead -/

/-- The keys and values of an index from one key on and below another, in the order of the keys. -/
def entriesBetween (view : View ρ) (store : Store) (lower upper : Bytes) : List (Bytes × Bytes) :=
  (view.entriesAlong store .forward).filter fun entry => ¬ entry.1 < lower ∧ entry.1 < upper

/-- Whether `ahead` is what an index has from some key on. -/
structure Ahead (view : View ρ) (store : Store) (ahead : List (Bytes × Bytes)) : Prop where
  listed : ∃ passed, store.keysOf view.table.scope view.placement.stem
    = passed ++ ahead.map (·.1)
  stored : ∀ entry ∈ ahead, ∃ found, store.find? view.table.scope entry.1 = some found
    ∧ found.value = entry.2

/-- The seat of a walk that has some entries ahead. -/
def seatBefore (view : View ρ) (store : Store) (ahead : List (Bytes × Bytes)) : Seat :=
  view.seatAt store (.head (ahead.map (·.1)))

namespace Ahead

theorem tail (h : view.Ahead store (entry :: ahead)) : view.Ahead store ahead := by
  obtain ⟨passed, listed⟩ := h.listed
  refine ⟨⟨passed ++ [entry.1], ?_⟩, fun other mem => h.stored other (List.mem_cons_of_mem _ mem)⟩
  rw [listed, List.map_cons, List.append_assoc]
  rfl

/-- A walk stands on the first entry ahead. -/
theorem seat (h : view.Ahead store (entry :: ahead)) :
    view.seatBefore store (entry :: ahead) = ⟨.live, .onKey entry.1⟩ := by
  obtain ⟨found, stored, _⟩ := h.stored entry List.mem_cons_self
  exact congrArg (Seat.mk · _) (if_pos (Option.isSome_iff_exists.mpr ⟨found, stored⟩))

/-- One step on, the first entry ahead is passed. -/
theorem onward (h : view.Ahead store (entry :: ahead)) :
    (Seat.mk .live (.onKey entry.1)).onward view .forward store = view.seatBefore store ahead := by
  obtain ⟨passed, listed⟩ := h.listed
  have listed' : view.keysAlong store .forward = passed ++ entry.1 :: ahead.map (·.1) := listed
  unfold Seat.onward seatBefore
  rw [Direction.ahead_listed listed']

/-- What is read where a walk stands on the first entry ahead. -/
theorem readFrom (h : view.Ahead store (entry :: ahead)) :
    view.readFrom store (·.2.value) (some ⟨.live, .onKey entry.1⟩) = .ok entry.2 := by
  obtain ⟨found, stored, value⟩ := h.stored entry List.mem_cons_self
  rw [readFrom_of_stored _ stored, value]

/-- If the first entry ahead is not below a bound, none is. -/
theorem none_below (h : view.Ahead store (entry :: ahead)) (above : ¬ entry.1 < upper) :
    (entry :: ahead).filter (·.1 < upper) = [] := by
  obtain ⟨passed, listed⟩ := h.listed
  have ascending := Store.ascending_keysOf store view.table.scope view.placement.stem
  rw [listed, List.map_cons] at ascending
  have later := (List.pairwise_cons.mp (List.pairwise_append.mp ascending).2.1).1
  refine List.filter_eq_nil_iff.mpr fun other mem below => above ?_
  have below := of_decide_eq_true below
  rcases List.mem_cons.mp mem with rfl | behind
  · exact below
  · exact Std.lt_trans (later other.1 (List.mem_map_of_mem behind)) below

/-- A walk is before the first key from a bound on exactly if the first entry ahead is below it. -/
theorem compare_sought (h : view.Ahead store (entry :: ahead)) :
    Direction.forward.compare (some ⟨.live, .onKey entry.1⟩) (some (view.sought store upper)) = .lt
      ↔ entry.1 < upper := by
  obtain ⟨passed, listed⟩ := h.listed
  have mem : entry.1 ∈ store.keysOf view.table.scope view.placement.stem := by
    rw [listed]
    exact List.mem_append_right _ List.mem_cons_self
  rw [← Store.order_firstFrom mem]
  have least := Store.least_firstFrom store view.table.scope view.placement.stem upper
  unfold sought
  cases target : store.firstFrom view.table.scope view.placement.stem upper with
  | ended => exact ⟨fun _ => rfl, fun _ => rfl⟩
  | onKey found =>
    rw [target] at least
    have live : store.standingOf (view.cursorAt (.onKey found)) = .live := if_pos least.2.1
    have going : Seat.going? (some (view.seatAt store (.onKey found))) = some (.onKey found) := by
      unfold Seat.going? seatAt
      rw [live]
      rfl
    unfold Direction.compare
    rw [going]
    exact Iff.rfl

end Ahead

/-- The keys and values of an index from one key on. -/
def entriesFrom (view : View ρ) (store : Store) (lower : Bytes) : List (Bytes × Bytes) :=
  (view.entriesAlong store .forward).filter (¬ ·.1 < lower)

theorem keys_entriesFrom (view : View ρ) (store : Store) (lower : Bytes) :
    (view.entriesFrom store lower).map (·.1)
      = (store.keysOf view.table.scope view.placement.stem).filter (¬ · < lower) := by
  have all : (view.entriesAlong store .forward).map (·.1)
      = store.keysOf view.table.scope view.placement.stem := keys_entriesAlong ..
  unfold entriesFrom
  rw [← all, List.filter_map]
  rfl

theorem ahead_entriesFrom (view : View ρ) (store : Store) (lower : Bytes) :
    view.Ahead store (view.entriesFrom store lower) where
  listed := ⟨_, by
    rw [keys_entriesFrom]
    exact Store.split_keysOf ..⟩
  stored _ mem := stored_of_entriesAlong (List.mem_of_mem_filter mem)

/-- A seek has the entries from its key on ahead. -/
theorem sought_eq_seatBefore (view : View ρ) (store : Store) (lower : Bytes) :
    view.sought store lower = view.seatBefore store (view.entriesFrom store lower) := by
  have least := Store.least_firstFrom store view.table.scope view.placement.stem lower
  unfold sought seatBefore
  rw [keys_entriesFrom, least.eq_head]

/-- Of the entries from one key on, a range has those below the other. -/
theorem entriesBetween_eq (view : View ρ) (store : Store) (lower upper : Bytes) :
    view.entriesBetween store lower upper
      = (view.entriesFrom store lower).filter (·.1 < upper) := by
  unfold entriesBetween entriesFrom
  rw [List.filter_filter]
  exact List.filter_congr fun entry _ => by rw [Bool.decide_and, Bool.and_comm]

/-- What is in a range: the entries of the index with a key from the lower bound on and below the
    upper one. -/
theorem mem_entriesBetween {key value : Bytes} :
    (key, value) ∈ view.entriesBetween store lower upper ↔
      (∃ entry, store.find? view.table.scope key = some entry ∧ entry.value = value)
        ∧ Bytes.startsWith key view.placement.stem ∧ ¬ key < lower ∧ key < upper := by
  have listed : (key, value) ∈ view.entriesAlong store .forward ↔
      (∃ entry, store.find? view.table.scope key = some entry ∧ entry.value = value)
        ∧ Bytes.startsWith key view.placement.stem := by
    have filtered : (key, value) ∈ view.entriesAlong store .forward ↔
        (key, value) ∈ store.list view.table.scope ∧ Bytes.startsWith key view.placement.stem :=
      List.mem_filter
    rw [filtered]
    refine and_congr_left fun _ => ⟨fun mem => ?_, fun ⟨entry, stored, same⟩ => ?_⟩
    · obtain ⟨⟨_, entry⟩, stored, same⟩ := List.mem_map.mp mem
      cases same
      exact ⟨entry, OrdMap.get?_eq_some_iff.mpr stored, rfl⟩
    · exact List.mem_map.mpr ⟨(key, entry), OrdMap.get?_eq_some_iff.mp stored, by rw [same]⟩
  unfold entriesBetween
  rw [List.mem_filter, listed, decide_eq_true_iff, and_assoc]

/-- A range is in the order of its keys. -/
theorem ascending_entriesBetween (view : View ρ) (store : Store) (lower upper : Bytes) :
    ((view.entriesBetween store lower upper).map (·.1)).Pairwise (· < ·) := by
  have ascending := (Store.ascending_keysOf store view.table.scope view.placement.stem).filter
    (fun key => decide (¬ key < lower))
  rw [← keys_entriesFrom] at ascending
  rw [entriesBetween_eq]
  exact List.pairwise_map.mpr ((List.pairwise_map.mp ascending).filter _)

/-- A range has no more entries than the scope. -/
theorem length_entriesBetween_le (view : View ρ) (store : Store) (lower upper : Bytes) :
    (view.entriesBetween store lower upper).length ≤ store.size view.table.scope := by
  have keys : ((store.keysOf view.table.scope view.placement.stem).filter (¬ · < lower)).length
      = (view.entriesFrom store lower).length := by
    rw [← keys_entriesFrom, List.length_map]
  calc (view.entriesBetween store lower upper).length
      ≤ (view.entriesFrom store lower).length := by
        rw [entriesBetween_eq]
        exact List.length_filter_le ..
    _ ≤ store.size view.table.scope := keys ▸ Store.length_filter_keysOf_le ..

/-! ## 3. Both ways through what is ahead -/

/-- What is read of some entries. -/
def readings (view : View ρ) (store : Store) (entries : List (Bytes × Bytes)) :
    List (Except Fault ρ) :=
  entries.map fun entry => view.resolved store entry.2

/-- **A collection reads what is ahead and below its bound**, all of it or up to a fault. The
    induction is on what is ahead; as many rounds are enough as there are such entries, and one. -/
theorem gather_ahead {bound : Nat} (h : view.Ahead store ahead)
    (enough : (ahead.filter (·.1 < upper)).length < bound) :
    view.gather store (view.sought store upper) bound (view.seatBefore store ahead)
      = (view.readings store (ahead.filter (·.1 < upper))).mapM id := by
  induction ahead generalizing bound with
  | nil =>
    cases bound with
    | zero => exact absurd enough (Nat.not_lt_zero _)
    | succ bound => exact if_neg fun before => Seat.going_of_before before rfl
  | cons entry rest ih =>
    cases bound with
    | zero => exact absurd enough (Nat.not_lt_zero _)
    | succ bound =>
      rw [h.seat]
      unfold gather
      by_cases below : entry.1 < upper
      · have kept : (entry :: rest).filter (·.1 < upper) = entry :: rest.filter (·.1 < upper) :=
          List.filter_cons_of_pos (decide_eq_true below)
        rw [kept] at enough ⊢
        rw [if_pos (h.compare_sought.mpr below), h.readFrom, h.onward,
          ih h.tail (Nat.lt_of_succ_lt_succ enough)]
        unfold readings
        rw [List.map_cons, List.mapM_cons]
        rfl
      · rw [if_neg (mt h.compare_sought.mp below), h.none_below below]
        rfl

end View

namespace Scan

variable {view : View ρ} {store : Store} {entry : Bytes × Bytes} {ahead : List (Bytes × Bytes)}
  {upper : Bytes}

/-- A scan stops on the keys that are not below its stop. -/
theorem endsAt_iff {key : Bytes} :
    endsAt (some upper) ⟨.live, .onKey key⟩ = true ↔ ¬ key < upper := by
  have compared : (Position.onKey key).order (.onKey upper) = .lt ↔ key < upper :=
    Bytes.order_eq_lt_iff
  simp [endsAt, compared]

section Foresight

variable (h : view.Ahead store (entry :: ahead))
include h

/-- A scan hands out from where its walk stands on the first entry ahead. -/
theorem foresee_ahead : foresee view store .record (some upper)
      (view.seatBefore store (entry :: ahead))
    = handedOut view store .record (some upper) ⟨.live, .onKey entry.1⟩ := by
  have now : view.seatAt store (.onKey entry.1) = ⟨.live, .onKey entry.1⟩ := h.seat
  have settled : (Seat.mk .live (.onKey entry.1)).settled view store = ⟨.live, .onKey entry.1⟩ := by
    unfold Seat.settled
    dsimp only
    rw [now]
    rfl
  unfold foresee
  rw [h.seat, settled]

theorem read_ahead : Reading.record.foresee view store ⟨.live, .onKey entry.1⟩
    = view.resolved store entry.2 := by
  unfold Reading.foresee
  rw [h.readFrom]
  rfl

/-- If the first entry ahead is not below the stop, nothing is handed out. -/
theorem foresee_above (above : ¬ entry.1 < upper) :
    foresee view store .record (some upper) (view.seatBefore store (entry :: ahead))
      = (.ok none, ⟨.live, .onKey entry.1⟩) := by
  rw [foresee_ahead h]
  exact if_pos (endsAt_iff.mpr above)

/-- Where the first entry ahead cannot be read, the scan stays. -/
theorem foresee_fault (below : entry.1 < upper) {fault : Fault}
    (read : view.resolved store entry.2 = .error fault) :
    foresee view store .record (some upper) (view.seatBefore store (entry :: ahead))
      = (.error fault, ⟨.live, .onKey entry.1⟩) := by
  rw [foresee_ahead h]
  unfold handedOut
  rw [if_neg fun ends => endsAt_iff.mp ends below, read_ahead h, read]

/-- Where it can, its record is handed out, and the scan goes on. -/
theorem foresee_record (below : entry.1 < upper) {record : ρ}
    (read : view.resolved store entry.2 = .ok record) :
    foresee view store .record (some upper) (view.seatBefore store (entry :: ahead))
      = (.ok (some record), view.seatBefore store ahead) := by
  rw [foresee_ahead h]
  unfold handedOut
  rw [if_neg fun ends => endsAt_iff.mp ends below, read_ahead h, read, h.onward]

end Foresight

section Drain

variable {reading : Reading ρ α} {stop : Option Bytes} {seat seat' : Seat} (bound : Nat)

theorem Mark.drain_of_end (foreseen : foresee view store reading stop seat = (.ok none, seat')) :
    Mark.drain view store reading (bound + 1) ⟨stop, false, seat⟩ = [] := by
  simp only [drain, next, foreseen, Bool.false_eq_true, if_false]

theorem Mark.drain_of_fault {fault : Fault}
    (foreseen : foresee view store reading stop seat = (.error fault, seat')) :
    Mark.drain view store reading (bound + 1) ⟨stop, false, seat⟩ = [.error fault] := by
  have done : Mark.drain view store reading bound ⟨stop, true, seat'⟩ = [] := by
    cases bound <;> rfl
  simp only [drain, next, foreseen, Bool.false_eq_true, if_false, done]

theorem Mark.drain_of_item {item : α}
    (foreseen : foresee view store reading stop seat = (.ok (some item), seat')) :
    Mark.drain view store reading (bound + 1) ⟨stop, false, seat⟩
      = .ok item :: Mark.drain view store reading bound ⟨stop, false, seat'⟩ := by
  simp only [drain, next, foreseen, Bool.false_eq_true, if_false]

end Drain

/-- **A scan hands out what is ahead and below its stop**, up to a fault. -/
theorem Mark.drain_ahead {bound : Nat} (h : view.Ahead store ahead)
    (enough : (ahead.filter (·.1 < upper)).length < bound) :
    Mark.drain view store .record bound ⟨some upper, false, view.seatBefore store ahead⟩
      = upToFault (view.readings store (ahead.filter (·.1 < upper))) := by
  induction ahead generalizing bound with
  | nil =>
    cases bound with
    | zero => exact absurd enough (Nat.not_lt_zero _)
    | succ bound => rfl
  | cons entry rest ih =>
    cases bound with
    | zero => exact absurd enough (Nat.not_lt_zero _)
    | succ bound =>
      by_cases below : entry.1 < upper
      · have kept : (entry :: rest).filter (·.1 < upper) = entry :: rest.filter (·.1 < upper) :=
          List.filter_cons_of_pos (decide_eq_true below)
        rw [kept] at enough ⊢
        unfold View.readings
        rw [List.map_cons]
        cases read : view.resolved store entry.2 with
        | error fault => exact Mark.drain_of_fault bound (foresee_fault h below read)
        | ok record =>
          rw [Mark.drain_of_item bound (foresee_record h below read)]
          exact congrArg (Except.ok record :: ·) (ih h.tail (Nat.lt_of_succ_lt_succ enough))
      · rw [Mark.drain_of_end bound (foresee_above h below), h.none_below below]
        rfl

end Scan

/-! ## 4. The result -/

namespace View

open Motion

variable {view : View ρ} {store : Store} {lower upper : Bytes}

/-- What reading the entries of a range gives, one after the other. -/
def told (view : View ρ) (store : Store) (lower upper : Bytes) : List (Except Fault ρ) :=
  view.readings store (view.entriesBetween store lower upper)

theorem length_told (view : View ρ) (store : Store) (lower upper : Bytes) :
    (view.told store lower upper).length = (view.entriesBetween store lower upper).length :=
  List.length_map ..

/-- The bound that a range is read with is enough. -/
theorem length_told_lt (view : View ρ) (store : Store) (lower upper : Bytes) :
    (view.told store lower upper).length < store.size view.table.scope + 1 := by
  rw [length_told]
  exact Nat.lt_succ_of_le (length_entriesBetween_le ..)

/-- A collection between two seeks, whatever its bound. -/
theorem gather_told {bound : Nat} (enough : (view.told store lower upper).length < bound) :
    view.gather store (view.sought store upper) bound (view.sought store lower)
      = (view.told store lower upper).mapM id := by
  rw [length_told, entriesBetween_eq] at enough
  rw [sought_eq_seatBefore view store lower, gather_ahead (ahead_entriesFrom ..) enough,
    ← entriesBetween_eq]
  rfl

/-- A scan between two keys, whatever its bound. -/
theorem drain_told {bound : Nat} (enough : (view.told store lower upper).length < bound) :
    (Scan.markOf view store (.between lower upper)).drain view store .record bound
      = upToFault (view.told store lower upper) := by
  rw [length_told, entriesBetween_eq] at enough
  have mark : Scan.markOf view store (.between lower upper)
      = ⟨some upper, false, view.seatBefore store (view.entriesFrom store lower)⟩ :=
    congrArg (Scan.Mark.mk (some upper) false) (sought_eq_seatBefore view store lower)
  rw [mark, Scan.Mark.drain_ahead (ahead_entriesFrom ..) enough, ← entriesBetween_eq]
  rfl

/-- How a range is read at once: with two cursors that are given back, and with one more round than
    there are entries in it, however many more are allowed. -/
structure ReadsAtOnce (view : View ρ) (store : Store) (lower upper : Bytes)
    (answer : Except Fault (List ρ)) : Prop where
  range : ∃ after, outcome (view.range Store.native lower upper) store = (answer, after)
    ∧ Tidy store after
  rounds : ∃ walk stop middle both,
    outcome (view.seek Store.native lower) store = (.ok walk, middle)
      ∧ outcome (view.seek Store.native upper) middle = (.ok stop, both)
      ∧ ∀ bound, (view.entriesBetween store lower upper).length < bound →
        ∃ walk' after, ends (View.collect Store.native stop bound) walk both
          = ((answer, walk'), after)

/-- How a range is read one by one: a scan hands out some items, and from then on nothing, whatever
    happens to the store. -/
structure ReadsOneByOne (view : View ρ) (store : Store) (lower upper : Bytes)
    (items : List (Except Fault ρ)) : Prop where
  scan : ∃ scan opened, outcome (view.scanBetween Store.native lower upper) store
      = (.ok scan, opened)
    ∧ (scan.all Store.native (Scan.readRecord Store.native) opened).1 = items
    ∧ ∀ bound, (view.entriesBetween store lower upper).length < bound → ∃ scan' after,
      scan.drain Store.native (Scan.readRecord Store.native) bound opened = ((items, scan'), after)
        ∧ ∀ later, scan'.next Store.native (Scan.readRecord Store.native) later
          = ((none, scan'), later)

/-- **A range is read at once** as reading its entries in sequence says. -/
theorem readsAtOnce (view : View ρ) (store : Store) (free : store.HasSlots 2)
    (lower upper : Bytes) :
    view.ReadsAtOnce store lower upper ((view.told store lower upper).mapM id) := by
  constructor
  · obtain ⟨after, read, tidy⟩ := view.outcome_range_foreseen lower upper free
    rw [gather_told (length_told_lt ..)] at read
    exact ⟨after, read, tidy⟩
  · unfold Store.HasSlots at free
    have one : store.cursors.size < store.settings.limits.maxCursors.toNat := by omega
    obtain ⟨id, middle, begun, joined, cursor⟩ := view.outcome_sought one lower
    have two : middle.cursors.size < middle.settings.limits.maxCursors.toNat := by
      rw [joined.settings, joined.size]
      omega
    obtain ⟨other, both, stopped, joined', cursor'⟩ := view.outcome_sought two upper
    have apart : other ≠ id := (joined'.ne cursor).symm
    rw [sought_spared joined.sparing] at stopped cursor'
    refine ⟨_, _, middle, both, begun, stopped, fun bound enough => ?_⟩
    obtain ⟨seat, after, collected, _⟩ := ends_collect_foreseen apart bound
      ((joined'.others id apart.symm).trans cursor) cursor'
    rw [gather_spared (joined.sparing.trans joined'.sparing), gather_told (length_told .. ▸ enough)]
      at collected
    exact ⟨_, after, collected⟩

/-- **A range is read one by one** as reading its entries in sequence says. -/
theorem readsOneByOne (view : View ρ) (store : Store) (free : store.HasSlots 1)
    (lower upper : Bytes) :
    view.ReadsOneByOne store lower upper (upToFault (view.told store lower upper)) := by
  obtain ⟨id, opened, opens, joined, cursor⟩ :=
    Scan.outcome_start_foreseen view (.between lower upper) free
  have spared := joined.sparing
  refine ⟨_, opened, opens, ?_, fun bound enough => ?_⟩
  · obtain ⟨after, ran, _⟩ := Scan.all_foreseen .record cursor
    rw [Scan.Mark.drain_spared spared, spared.size, drain_told (length_told_lt ..)] at ran
    exact congrArg Prod.fst ran
  · obtain ⟨mark, after, drained, _⟩ := Scan.drain_foreseen .record bound cursor
    rw [Scan.Mark.drain_spared spared, drain_told (length_told .. ▸ enough)] at drained
    refine ⟨_, after, drained, fun later => Scan.next_of_done _ ?_ later⟩
    have short : (upToFault (view.told store lower upper)).length < bound :=
      Nat.lt_of_le_of_lt (length_upToFault_le _) (length_told view store lower upper ▸ enough)
    exact Scan.done_of_drained drained short

/-- **Ranges are half-open, and their two readings agree**, in every store with two free slots for
    cursors and for all bounds. A range has the entries of the index with keys from the lower bound
    on and below the upper one, in the order of the keys. If all of them can be read, then reading
    it at once gives their records, and reading it one by one hands out the same records. If not,
    then reading it at once ends with the fault of the first one that cannot be read, and reading it
    one by one hands out the records before that one and the same fault. Both come to an end, and
    nothing is handed out afterwards. -/
theorem range_half_open (view : View ρ) (store : Store) (free : store.HasSlots 2)
    (lower upper : Bytes) :
    ((view.entriesBetween store lower upper).map (·.1)).Pairwise (· < ·) ∧
    (∀ key value, (key, value) ∈ view.entriesBetween store lower upper ↔
      (∃ entry, store.find? view.table.scope key = some entry ∧ entry.value = value)
        ∧ Bytes.startsWith key view.placement.stem ∧ ¬ key < lower ∧ key < upper) ∧
    ((∃ records : List ρ,
      view.told store lower upper = records.map .ok
        ∧ view.ReadsAtOnce store lower upper (.ok records)
        ∧ view.ReadsOneByOne store lower upper (records.map .ok)) ∨
    ∃ (records : List ρ) (fault : Fault) (rest : List (Except Fault ρ)),
      view.told store lower upper = records.map .ok ++ .error fault :: rest
        ∧ view.ReadsAtOnce store lower upper (.error fault)
        ∧ view.ReadsOneByOne store lower upper (records.map .ok ++ [.error fault])) := by
  refine ⟨ascending_entriesBetween .., fun key value => mem_entriesBetween, ?_⟩
  have one : store.HasSlots 1 := by
    unfold Store.HasSlots at free ⊢
    omega
  have atOnce := view.readsAtOnce store free lower upper
  have oneByOne := view.readsOneByOne store one lower upper
  rcases upToFault_cases (view.told store lower upper) with
    ⟨records, told, once, single⟩ | ⟨records, fault, rest, told, once, single⟩
  · rw [once] at atOnce
    rw [single] at oneByOne
    exact .inl ⟨records, told, atOnce, oneByOne⟩
  · rw [once] at atOnce
    rw [single] at oneByOne
    exact .inr ⟨records, fault, rest, told, atOnce, oneByOne⟩

/-- Three notes, with a pointer to nothing in place of the one to the note `2`. -/
def brokenNotes : Store :=
  (outcome (Store.write ⟨7⟩ (byLengthAndText.index.fullKey [2]) [0xff] ⟨9⟩) threeNotes.1).2

/-- All notes by their lengths and texts: the first is read, then there is a fault. -/
theorem range_half_open_broken : brokenNotes.HasSlots 2 ∧ ∃ fault,
    (∃ after, outcome (byLengthAndText.range Store.native [] [0xff]) brokenNotes
      = (.error fault, after)) ∧
    ∃ scan opened, outcome (byLengthAndText.scanBetween Store.native [] [0xff]) brokenNotes
        = (.ok scan, opened)
      ∧ (scan.all Store.native (Scan.readRecord Store.native) opened).1
        = [.ok [1], .error fault] := by
  have free : brokenNotes.HasSlots 2 := by decide +kernel
  have known : (byLengthAndText.told brokenNotes [] [0xff]).map Except.toOption
      = [some [1], none, some [1, 1]] := by decide +kernel
  obtain ⟨_, _, told⟩ := range_half_open byLengthAndText brokenNotes free [] [0xff]
  rcases told with ⟨records, told, _⟩ | ⟨records, fault, rest, told, atOnce, oneByOne⟩
  · have broken : none ∈ (byLengthAndText.told brokenNotes [] [0xff]).map Except.toOption := by
      rw [known]
      exact List.mem_cons_of_mem _ List.mem_cons_self
    rw [told] at broken
    obtain ⟨_, mem, broken⟩ := List.mem_map.mp broken
    obtain ⟨_, _, rfl⟩ := List.mem_map.mp mem
    exact nomatch broken
  · rw [told] at known
    have first : records = [[1]] := by
      cases records with
      | nil => exact nomatch known
      | cons first others =>
        cases others with
        | nil => exact congrArg ([·]) (Option.some.inj (List.cons.inj known).1)
        | cons second others => exact nomatch known
    subst first
    obtain ⟨after, read, _⟩ := atOnce.range
    obtain ⟨scan, opened, opens, all, _⟩ := oneByOne.scan
    exact ⟨free, fault, ⟨after, read⟩, scan, opened, opens, all⟩

end View

end IndexedStore
