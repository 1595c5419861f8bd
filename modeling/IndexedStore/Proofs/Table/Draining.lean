import IndexedStore.Proofs.Store.Listing
import IndexedStore.Proofs.Table.Scanning
/-!
# Reading a whole span

Where nothing is written in between, a scan and a collection run through the keys of their index one
by one: what is left to hand out is a tail of the list of keys, and each step takes its head.

* `Scan.drain_of_waits` and **`Scan.all_of_start`**: a scan hands out one item for each key of its
  span, in the order of the keys;
* `View.collect_of_rests` and **`View.range_items`**: so does a collection up to a second cursor.

Both are given a count of steps, and it is enough: a scope has no fewer entries than an index.
-/

namespace IndexedStore

open IndexedStore.Action

variable {ρ α : Type}

section Reading

variable {view : View ρ} {read : Walk ρ → Action Store α} {keyOf : α → Bytes}
  {live : Store → α → Prop} {records : OrdMap Bytes ρ} {store : Store}

/-! ## 1. Draining a scan -/

namespace Scan

variable {stop : Option Bytes} {scan scan' : Scan ρ} {after : Store}

instance (stop : Option Bytes) : DecidablePred (BelowStop stop) := fun key =>
  match stop with
  | none => .isTrue nofun
  | some upper => decidable_of_iff (key < upper)
      ⟨fun below _ same => Option.some.inj same ▸ below, fun below => below upper rfl⟩

theorem drain_of_none (bound : Nat)
    (h : scan.next Store.native read store = ((none, scan'), after)) :
    scan.drain Store.native read (bound + 1) store = (([], scan'), after) := by
  unfold drain
  rw [run_bind, h]
  rfl

theorem drain_of_some (bound : Nat) {item : Except Fault α}
    (h : scan.next Store.native read store = ((some item, scan'), after)) :
    scan.drain Store.native read (bound + 1) store
      = ((item :: (scan'.drain Store.native read bound after).1.1,
          (scan'.drain Store.native read bound after).1.2),
          (scan'.drain Store.native read bound after).2) := by
  rw [drain, run_bind, h]
  rfl

/-- **A scan drains its keys**: one item for each key ahead of it that is below its stop. The
    induction is on the keys ahead. -/
theorem drain_of_waits (reads : Reads view read keyOf live) (back : view.table.ReadsBack records)
    {ahead : List Bytes} : ∀ {passed : List Bytes} {bound : Nat} {store : Store} {scan : Scan ρ},
      view.table.Files store records →
      store.keysOf view.table.scope view.placement.stem = passed ++ ahead →
      ahead.length < bound → Waits view stop store scan (.head ahead) →
      ∃ items : List α, (scan.drain Store.native read bound store).1.1 = items.map .ok
        ∧ items.map keyOf = ahead.filter (BelowStop stop) ∧ ∀ item ∈ items, live store item := by
  induction ahead with
  | nil =>
    intro passed bound store scan _ _ enough waits
    obtain ⟨scan', answers, _⟩ := next_of_ended read waits
    cases bound with
    | zero => omega
    | succ bound =>
      rw [drain_of_none bound answers]
      exact ⟨[], rfl, rfl, fun _ mem => absurd mem List.not_mem_nil⟩
  | cons key rest ih =>
    intro passed bound store scan files listed enough waits
    cases bound with
    | zero => omega
    | succ bound =>
      obtain ⟨scan', after, steered, ends | gives⟩ := next_of_onKey reads files back waits
      · obtain ⟨answers, _, _, passedAll⟩ := ends
        rw [drain_of_none bound answers]
        refine ⟨[], rfl, ?_, fun _ mem => absurd mem List.not_mem_nil⟩
        -- What is below the stop would be below `key`, and nothing ahead is.
        refine (List.filter_eq_nil_iff.mpr fun other mem below => ?_).symm
        obtain ⟨begins, stored, notBefore⟩ := Store.of_listed listed mem
        exact notBefore (passedAll other begins stored (of_decide_eq_true below))
      · obtain ⟨item, position, answers, isLive, below, first, waits', next⟩ := gives
        have own : keyOf item = key := Position.onKey.inj (first.at_head listed)
        rw [own] at below next
        rw [next.behind_head listed] at waits'
        have listed' := Store.pass_key steered.shelves listed
        obtain ⟨items, drained, keys, allLive⟩ := ih (files.of_shelves steered.shelves) listed'
          (by simpa using enough) waits'
        rw [drain_of_some bound answers, drained]
        refine ⟨item :: items, rfl, ?_, fun other mem => ?_⟩
        · rw [List.map_cons, own, keys, List.filter_cons_of_pos (by simpa using below)]
        · rcases List.mem_cons.mp mem with same | behind
          · exact same ▸ isLive
          · exact reads.steady steered.symm (allLive other behind)

/-- **A scan that was opened hands out its whole span**, one item for each key, in their order. -/
theorem all_of_start (reads : Reads view read keyOf live) (back : view.table.ReadsBack records)
    (files : view.table.Files store records) {span : Span} {opened : Store}
    (opens : outcome (span.start Store.native view) store = (.ok scan, opened)) :
    ∃ items : List α, (scan.all Store.native read opened).1 = items.map .ok
      ∧ items.map keyOf = (store.keysOf view.table.scope view.placement.stem).filter
          (fun key => ¬ key < span.lower view ∧ BelowStop span.upper? key)
      ∧ ∀ item ∈ items, live opened item := by
  obtain ⟨same, waits⟩ := View.waits_of_start opens
  have least := Store.least_firstFrom opened view.table.scope view.placement.stem (span.lower view)
  rw [least.eq_head] at waits
  have listed := Store.split_keysOf opened view.table.scope view.placement.stem (span.lower view)
  have files' := files.of_shelves same
  have enough : ((opened.keysOf view.table.scope view.placement.stem).filter
      (¬ · < span.lower view)).length < opened.size scan.walk.view.table.scope + 1 := by
    rcases waits.stands with ⟨_, ended⟩ | ⟨_, id, stands⟩
    · cases ahead : (opened.keysOf view.table.scope view.placement.stem).filter
          (¬ · < span.lower view) with
      | nil => exact Nat.succ_pos _
      | cons key rest =>
        rw [ahead] at ended
        exact nomatch ended
    · obtain ⟨⟨standing, holds, _⟩, _⟩ := stands
      rw [holds]
      exact Nat.lt_succ_of_le (Store.length_filter_keysOf_le ..)
  obtain ⟨items, drained, keys, allLive⟩ := drain_of_waits reads back files' listed enough waits
  refine ⟨items, drained, ?_, allLive⟩
  rw [keys, Store.filter_from_bound, Store.keysOf_congr same]

end Scan

/-! ## 2. Collecting up to a second cursor -/

namespace Walk

open Motion

/-- Two walks over one index compare as their positions do. -/
theorem outcome_order {first second : CursorId} {position other : Position} {walk stop : Walk ρ}
    (here : StandsAt view first store position walk)
    (there : StandsAt view second store other stop) :
    outcome (walk.order Store.native stop) store = (.ok (position.order other), store) := by
  obtain ⟨⟨standing, rfl, ends⟩, cursor⟩ := here
  obtain ⟨⟨standing', rfl, ends'⟩, cursor'⟩ := there
  have same : (holding view first standing).sameIndex (holding view second standing') = true := by
    simp [sameIndex, holding]
  have held : ∀ (id : CursorId) (standing : Standing),
      (holding view id standing).cursor? = if standing = .ended then none else some id :=
    fun _ _ => rfl
  unfold order
  rw [if_pos same, held, held]
  cases position with
  | ended =>
    rw [if_pos (ends.mpr rfl)]
    cases other with
    | ended =>
      rw [if_pos (ends'.mpr rfl)]
      rfl
    | onKey key =>
      rw [if_neg fun h => nomatch ends'.mp h]
      rfl
  | onKey key =>
    rw [if_neg fun h => nomatch ends.mp h]
    cases other with
    | ended =>
      rw [if_pos (ends'.mpr rfl)]
      rfl
    | onKey key' =>
      rw [if_neg fun h => nomatch ends'.mp h]
      have compared := Store.outcome_compareCursors first second store
      rw [cursor, cursor'] at compared
      simp only [View.cursorAt, ne_eq, not_true_eq_false, or_self, if_false] at compared
      exact compared

end Walk

namespace View

open Motion Walk

variable {stop walk walk' walk'' : Walk ρ} {after last : Store} {order : Ordering}

theorem ends_collect_stop (bound : Nat)
    (compared : outcome (walk.order Store.native stop) store = (.ok order, store))
    (notBefore : order ≠ .lt) :
    ends (collect Store.native stop (bound + 1)) walk store = ((.ok [], walk), store) := by
  unfold collect
  rw [ends_get_bind, ends_bind_ok (ends_ofAction compared), if_neg notBefore]
  rfl

theorem ends_collect_go {bound : Nat} {record : ρ} {records : List ρ}
    (compared : outcome (walk.order Store.native stop) store = (.ok .lt, store))
    (read : outcome (walk.value Store.native) store = (.ok record, store))
    (advanced : ends (advance Store.native) walk store = ((.ok (), walk'), after))
    (rest : ends (collect Store.native stop bound) walk' after = ((.ok records, walk''), last)) :
    ends (collect Store.native stop (bound + 1)) walk store
      = ((.ok (record :: records), walk''), last) := by
  rw [collect, ends_get_bind, ends_bind_ok (ends_ofAction compared), if_pos rfl,
    ends_bind_ok (ends_ofAction read), ends_bind_ok advanced, ends_bind_ok rest]
  rfl

/-- A collection stops where no key ahead is below the bound at which the second cursor stands. -/
theorem collect_stops {first second : CursorId} {upper : Bytes} {passed ahead : List Bytes}
    (listed : store.keysOf view.table.scope view.placement.stem = passed ++ ahead)
    (rests : Rests view first store (.head ahead) walk)
    (there : StandsAt view second store
      (store.firstFrom view.table.scope view.placement.stem upper) stop)
    (none_below : ahead.filter (· < upper) = []) (bound : Nat) :
    ends (collect Store.native stop (bound + 1)) walk store = ((.ok [], walk), store) := by
  refine ends_collect_stop bound (outcome_order rests.standsAt there) ?_
  cases ahead with
  | nil => cases store.firstFrom view.table.scope view.placement.stem upper <;> nofun
  | cons key rest =>
    intro before
    have mem : key ∈ store.keysOf view.table.scope view.placement.stem := by simp [listed]
    have notBelow := List.filter_eq_nil_iff.mp none_below key List.mem_cons_self
    exact notBelow (decide_eq_true ((Store.order_firstFrom mem).mp before))

/-- On a listed key, a walk at rest reads its record and steps to the next listed key. -/
theorem step_of_rests (files : view.table.Files store records)
    (back : view.table.ReadsBack records) {first : CursorId} {passed rest : List Bytes} {key : Bytes}
    (listed : store.keysOf view.table.scope view.placement.stem = passed ++ key :: rest)
    (rests : Rests view first store (.onKey key) walk) :
    ∃ item walk' after, outcome (walk.value Store.native) store = (.ok item, store)
      ∧ view.index.fullKey item = key ∧ view.Intact store item
      ∧ ends (advance Store.native) walk store = ((.ok (), walk'), after)
      ∧ Steering store after ∧ Rests view first after (.head rest) walk'
      ∧ ∀ other, other ≠ first → after.cursors.get? other = store.cursors.get? other := by
  obtain ⟨begins, stored, _⟩ := Store.of_listed listed List.mem_cons_self
  have live : store.standingOf (view.cursorAt (.onKey key)) = .live := if_pos stored
  have holds := rests.walk
  rw [live] at holds
  subst holds
  obtain ⟨item, read, own, intact⟩ := reads_intact.entry files back rests.cursor begins stored
  obtain ⟨after, advanced, steered, cursor, others⟩ := ends_advance
    (show Standing.live ≠ .ended from nofun) rests.cursor
  have target : store.after (view.cursorAt (.onKey key)) = .head rest :=
    (Store.least_firstAfter store view.table.scope begins).behind_head listed
  rw [target] at advanced cursor
  exact ⟨item, _, after, read, own, intact, advanced, steered, ⟨rfl, cursor⟩, others⟩

/-- **A collection takes the keys ahead of it** up to a bound where the second cursor stands: one
    record for each. The induction is on the keys ahead. -/
theorem collect_of_rests (back : view.table.ReadsBack records) {first second : CursorId}
    (apart : second ≠ first) {upper : Bytes} {ahead : List Bytes} :
    ∀ {passed : List Bytes} {bound : Nat} {store : Store} {walk : Walk ρ},
      view.table.Files store records →
      store.keysOf view.table.scope view.placement.stem = passed ++ ahead →
      ahead.length < bound → Rests view first store (.head ahead) walk →
      StandsAt view second store
        (store.firstFrom view.table.scope view.placement.stem upper) stop →
      ∃ items walk' after,
        ends (collect Store.native stop bound) walk store = ((.ok items, walk'), after)
          ∧ items.map view.index.fullKey = ahead.filter (· < upper)
          ∧ ∀ item ∈ items, view.Intact store item := by
  induction ahead with
  | nil =>
    intro passed bound store walk _ listed enough rests there
    cases bound with
    | zero => omega
    | succ bound =>
      exact ⟨[], walk, store, collect_stops listed rests there rfl bound, rfl,
        fun _ mem => absurd mem List.not_mem_nil⟩
  | cons key rest ih =>
    intro passed bound store walk files listed enough rests there
    cases bound with
    | zero => omega
    | succ bound =>
      by_cases below : key < upper
      · have mem : key ∈ store.keysOf view.table.scope view.placement.stem := by simp [listed]
        have compared := outcome_order rests.standsAt there
        rw [show (Position.head (key :: rest)).order _ = .lt from
          (Store.order_firstFrom mem).mpr below] at compared
        obtain ⟨item, walk', after, read, own, intact, advanced, steered, rests', others⟩ :=
          step_of_rests files back listed rests
        have listed' := Store.pass_key steered.shelves listed
        have there' : StandsAt view second after
            (after.firstFrom view.table.scope view.placement.stem upper) stop := by
          have cursor := (others second apart).trans there.cursor
          obtain ⟨cursors, rfl⟩ := steered
          exact ⟨there.walk, cursor⟩
        obtain ⟨items, walk'', last, collected, keys, allIntact⟩ :=
          ih (files.of_shelves steered.shelves) listed' (by simpa using enough) rests' there'
        refine ⟨item :: items, walk'', last, ends_collect_go compared read advanced collected, ?_,
          fun other mem => ?_⟩
        · rw [List.map_cons, own, keys, List.filter_cons_of_pos (by simpa using below)]
        · rcases List.mem_cons.mp mem with same | behind
          · exact same ▸ intact
          · obtain ⟨live, read⟩ := allIntact other behind
            exact ⟨live.steady steered.symm, read⟩
      · have none_below : (key :: rest).filter (· < upper) = [] := by
          refine List.filter_eq_nil_iff.mpr fun other mem low => below ?_
          obtain ⟨_, _, notBelow⟩ := Store.of_listed listed mem
          exact Std.lt_of_le_of_lt (Std.not_lt.mp notBelow) (of_decide_eq_true low)
        exact ⟨[], walk, store, collect_stops listed rests there none_below bound, none_below.symm,
          fun _ mem => absurd mem List.not_mem_nil⟩

theorem Joined.ne {first second : CursorId} {cursor : Cursor}
    (joined : Joined second store after) (held : store.cursors.get? first = some cursor) :
    first ≠ second := by
  intro same
  rw [same, joined.fresh] at held
  exact nomatch held

/-- A walk at rest does not see another cursor being opened. -/
theorem Joined.rests {first second : CursorId} {position : Position}
    (joined : Joined second store after) (h : Rests view first store position walk) :
    Rests view first after position walk := by
  have apart := joined.ne h.cursor
  have standing : after.standingOf (view.cursorAt position)
      = store.standingOf (view.cursorAt position) := by
    unfold Store.standingOf Store.find? Store.shelf
    rw [joined.shelves]
  exact ⟨standing.symm ▸ h.walk, (joined.others first apart).trans h.cursor⟩

/-- What is read of a range, once both cursors are open; both are given back. -/
theorem outcome_range {lower upper : Bytes} {middle both : Store} {result : Except Fault (List ρ)}
    (opened : outcome (view.seek Store.native lower) store = (.ok walk, middle))
    (opened' : outcome (view.seek Store.native upper) middle = (.ok stop, both))
    (collected : ends (collect Store.native stop (both.size view.table.scope + 1)) walk both
      = ((result, walk'), last)) :
    outcome (view.range Store.native lower upper) store
      = (result, (walk'.release Store.native (stop.release Store.native last).2).2) := by
  have second : outcome ((view.seek Store.native upper).onFault (walk.release Store.native)) middle
      = (.ok stop, both) := by
    rw [outcome_onFault, opened']
  have rest : outcome (view.range Store.native lower upper) store
      = ((ends (collect Store.native stop (both.size view.table.scope + 1)) walk both).1.1,
        ((ends (collect Store.native stop (both.size view.table.scope + 1)) walk both).1.2.release
          Store.native (stop.release Store.native
            (ends (collect Store.native stop (both.size view.table.scope + 1)) walk both).2).2).2) := by
    unfold range
    rw [outcome_bind_ok opened, outcome_bind_ok second]
    rfl
  rw [rest, collected]

/-- **A range is read whole**: one record for each key of the index from the lower bound on and below
    the upper one, in the order of the keys. Two slots for cursors must be free. -/
theorem range_items (files : view.table.Files store records) (back : view.table.ReadsBack records)
    (free : store.cursors.size + 1 < store.settings.limits.maxCursors.toNat) (lower upper : Bytes) :
    ∃ items, (outcome (view.range Store.native lower upper) store).1 = .ok items
      ∧ items.map view.index.fullKey
        = (store.keysOf view.table.scope view.placement.stem).filter
            (fun key => ¬ key < lower ∧ key < upper)
      ∧ ∀ item ∈ items, records.get? (view.table.recordKey item) = some item := by
  rcases outcome_seek view store lower with
    ⟨full, _⟩ | ⟨walk, first, middle, opened, joined, rests⟩
  · omega
  rcases outcome_seek view middle upper with
    ⟨full, _⟩ | ⟨stop, second, both, opened', joined', there⟩
  · rw [joined.size, joined.settings] at full
    omega
  have apart := (joined'.ne rests.cursor).symm
  have shelves : both.shelves = store.shelves := joined'.shelves.trans joined.shelves
  have start := (Store.least_firstFrom middle view.table.scope view.placement.stem lower).eq_head
  have same : both.keysOf view.table.scope view.placement.stem
      = middle.keysOf view.table.scope view.placement.stem := Store.keysOf_congr joined'.shelves
  have rests' := joined'.rests rests
  rw [start, ← same] at rests'
  have files' := files.of_shelves shelves
  have enough : ((both.keysOf view.table.scope view.placement.stem).filter
      (¬ · < lower)).length < both.size view.table.scope + 1 :=
    Nat.lt_succ_of_le (Store.length_filter_keysOf_le ..)
  have listed := Store.split_keysOf both view.table.scope view.placement.stem lower
  obtain ⟨items, walk', last, collected, keys, intact⟩ :=
    collect_of_rests back apart files' listed enough rests' there.standsAt
  refine ⟨items, ?_, ?_, fun item mem => (intact item mem).filed files' back⟩
  · exact congrArg Prod.fst (outcome_range opened opened' collected)
  · rw [keys, Store.filter_from_bound, Store.keysOf_congr shelves]

end View

end Reading

end IndexedStore
