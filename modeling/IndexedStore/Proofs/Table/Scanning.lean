import IndexedStore.Proofs.Store.Calls
import IndexedStore.Proofs.Table.Readers
import IndexedStore.Proofs.Table.Writes
import IndexedStore.Table.Lookup
/-!
# Scans survive writes

A scan is opened on an index of a table, and between its items the table is written to in any way.
What carries through all of that is where the scan WAITS: at a key that has been an entry, or at its
end. All its later items have keys from there on, and an entry that has been there all along and has
not been handed out lies there or behind it.

* `Scan.Waits` is that invariant, `Scan.next_of_ended` and `Scan.next_of_onKey` what one more item
  does to it;
* `Scan.play` runs a scan among writes and lists the items with the stores that they came from;
* **`Scan.survives_writes`** is the result, `Faithful` what it says.
-/

namespace IndexedStore

open IndexedStore.Action

variable {ρ α : Type}

/-! ## 1. One item -/

namespace Scan

open Motion Walk

variable {view : View ρ} {stop : Option Bytes} {read : Walk ρ → Action Store α}
  {keyOf : α → Bytes} {live : Store → α → Prop} {store : Store} {scan : Scan ρ}

/-- What a scan does once its walk is where the next entry must be. -/
def emit (backend : Backend Store) (read : Walk ρ → Action Store α) (stop : Option Bytes) :
    Motion Store ρ (Option α) := do
  let walk ← get
  if walk.isEnd then return none
  if ← Motion.ofAction (reached backend stop walk) then return none
  let item ← Motion.ofAction (read walk)
  Walk.advance backend
  return some item

theorem step_eq (backend : Backend Store) (read : Walk ρ → Action Store α) (stop : Option Bytes) :
    step backend read stop = Walk.nextEntry backend >>= fun _ => emit backend read stop := by
  unfold step Walk.nextEntry
  rw [bind_assoc]
  congr
  funext standing
  split
  · rfl
  · rfl

/-- Where a scan waits. It has ended or stands at the end of its index: nothing will come. Or it
    stands at a key of the index, stored or not. -/
structure Waits (view : View ρ) (stop : Option Bytes) (store : Store) (scan : Scan ρ)
    (position : Position) : Prop where
  stop : scan.stop = stop
  begins : ∀ key, position = .onKey key → Bytes.startsWith key view.placement.stem
  stands : (scan.done = true ∧ position = .ended) ∨
    (scan.done = false ∧ ∃ id, StandsAt view id store position scan.walk)

theorem next_of_done (backend : Backend Store) (done : scan.done = true) (store : Store) :
    scan.next backend read store = ((none, scan), store) := by
  unfold next
  rw [if_pos done]
  rfl

/-- What a scan hands out and how it is left, when its step ends with a result and a walk. -/
def handOut (scan : Scan ρ) : Except Fault (Option α) × Walk ρ →
    Option (Except Fault α) × Scan ρ
  | (.ok (some item), walk) => (some (.ok item), { scan with walk })
  | (.ok none, walk) => (none, { scan with walk, done := true })
  | (.error fault, walk) => (some (.error fault), { scan with walk, done := true })

theorem next_of_going (backend : Backend Store) (read : Walk ρ → Action Store α)
    (going : scan.done = false) (store : Store) :
    scan.next backend read store
      = (handOut scan (ends (step backend read scan.stop) scan.walk store).1,
          (ends (step backend read scan.stop) scan.walk store).2) := by
  have ran : (step backend read scan.stop).run scan.walk store
      = ends (step backend read scan.stop) scan.walk store := rfl
  unfold next
  rw [if_neg (by rw [going]; exact Bool.false_ne_true), run_bind, ran]
  rcases ends (step backend read scan.stop) scan.walk store with ⟨⟨_ | _ | _, _⟩, _⟩ <;> rfl

/-- At the end of its index a scan hands out nothing. -/
theorem ends_emit_ended (stop : Option Bytes) {id : CursorId} (store : Store) :
    ends (emit Store.native read stop) (holding view id .ended) store
      = ((.ok none, holding view id .ended), store) := rfl

/-- A scan with nothing to come answers so, and has ended then. -/
theorem next_of_ended (read : Walk ρ → Action Store α) (h : Waits view stop store scan .ended) :
    ∃ scan', scan.next Store.native read store = ((none, scan'), store)
      ∧ Waits view stop store scan' .ended ∧ scan'.done = true := by
  rcases h.stands with ⟨done, _⟩ | ⟨going, id, stands⟩
  · exact ⟨scan, next_of_done _ done store, h, done⟩
  · have refreshed := ends_refresh stands
    have came : ends (nextEntry Store.native) scan.walk store
        = ((.ok (), holding view id .ended), store) := by
      unfold nextEntry
      rw [ends_bind_ok refreshed]
      rfl
    refine ⟨{ scan with walk := holding view id .ended, done := true }, ?_,
      ⟨h.stop, h.begins, .inl ⟨rfl, rfl⟩⟩, rfl⟩
    rw [next_of_going _ _ going, step_eq, ends_bind_ok came, ends_emit_ended]
    rfl

/-- Whether a key is below the one where a scan stops. -/
def BelowStop (stop : Option Bytes) (key : Bytes) : Prop :=
  ∀ upper, stop = some upper → key < upper

/-- On a key, a scan tells whether it has come to where it stops. -/
theorem outcome_reached {id : CursorId} {key : Bytes} (standing : Standing)
    (cursor : store.cursors.get? id = some (view.cursorAt (.onKey key))) (stop : Option Bytes) :
    ∃ answer, outcome (reached Store.native stop (holding view id standing)) store
        = (.ok answer, store)
      ∧ (answer = false ↔ BelowStop stop key) := by
  cases stop with
  | none => exact ⟨false, rfl, fun _ => nofun, fun _ => rfl⟩
  | some upper =>
    have compared : outcome (Store.compareKey id upper) store
        = (.ok (Bytes.order key upper), store) := by
      rw [Store.outcome_compareKey, cursor]
      rfl
    have step : outcome (reached Store.native (some upper) (holding view id standing)) store
        = (.ok (decide (Bytes.order key upper ≠ .lt)), store) := outcome_bind_ok compared
    refine ⟨_, step, ?_⟩
    rw [decide_eq_false_iff_not, not_not, Bytes.order_eq_lt_iff]
    exact ⟨fun below other same => Option.some.inj same ▸ below, fun below => below upper rfl⟩

/-- On an entry, a scan asks first whether it has come to where it stops. -/
theorem ends_emit_live (read : Walk ρ → Action Store α) (stop : Option Bytes) (id : CursorId)
    (store : Store) :
    ends (emit Store.native read stop) (holding view id .live) store
      = ends (ofAction (reached Store.native stop (holding view id .live)) >>= fun stopped =>
          if stopped then return none
          else ofAction (read (holding view id .live)) >>= fun item =>
            Walk.advance Store.native >>= fun _ => return some item)
          (holding view id .live) store := rfl

/-- What a scan does on an entry: it ends where it stops, and else it hands the entry's item out and
    moves on. -/
theorem ends_emit_onKey {records : OrdMap Bytes ρ} {id : CursorId} {key : Bytes}
    (reads : Reads view read keyOf live) (files : view.table.Files store records)
    (back : view.table.ReadsBack records)
    (cursor : store.cursors.get? id = some (view.cursorAt (.onKey key)))
    (begins : Bytes.startsWith key view.placement.stem)
    (stored : (store.find? view.table.scope key).isSome) :
    (¬ BelowStop stop key ∧ ends (emit Store.native read stop) (holding view id .live) store
        = ((.ok none, holding view id .live), store)) ∨
      ∃ item walk after, ends (emit Store.native read stop) (holding view id .live) store
          = ((.ok (some item), walk), after)
        ∧ BelowStop stop key ∧ keyOf item = key ∧ live store item ∧ Steering store after
        ∧ StandsAt view id after (store.firstAfter view.table.scope view.placement.stem key)
            walk := by
  obtain ⟨stopped, asked, below⟩ := outcome_reached .live cursor stop
  rw [ends_emit_live, ends_bind_ok (ends_ofAction asked)]
  cases stopped with
  | true => exact .inl ⟨fun h => Bool.noConfusion (below.mpr h), rfl⟩
  | false =>
    obtain ⟨item, readItem, own, isLive⟩ := reads.entry files back cursor begins stored
    obtain ⟨after, advanced, steered, cursor', _⟩ := ends_advance
      (show Standing.live ≠ .ended from nofun) cursor
    rw [if_neg Bool.false_ne_true, ends_bind_ok (ends_ofAction readItem), ends_bind_ok advanced]
    exact .inr ⟨item, _, after, rfl, below.mp rfl, own, isLive, steered,
      StandsAt.of_fresh cursor'⟩

/-- **One item of a scan that waits at a key.** It ends, and then no stored key from there on is
    below the stop; or it hands out the item of the first entry from there on, and waits at the first
    entry behind that one. -/
theorem next_of_onKey {records : OrdMap Bytes ρ} {key : Bytes}
    (reads : Reads view read keyOf live) (files : view.table.Files store records)
    (back : view.table.ReadsBack records) (h : Waits view stop store scan (.onKey key)) :
    ∃ scan' after, Steering store after ∧
      ((scan.next Store.native read store = ((none, scan'), after)
          ∧ Waits view stop after scan' .ended ∧ scan'.done = true
          ∧ ∀ other, Bytes.startsWith other view.placement.stem →
            (store.find? view.table.scope other).isSome → BelowStop stop other → other < key) ∨
        ∃ item position, scan.next Store.native read store = ((some (.ok item), scan'), after)
          ∧ live store item ∧ BelowStop stop (keyOf item)
          ∧ store.Least view.table.scope view.placement.stem (fun other => ¬ other < key)
              (.onKey (keyOf item))
          ∧ Waits view stop after scan' position
          ∧ store.Least view.table.scope view.placement.stem (keyOf item < ·) position) := by
  rcases h.stands with ⟨_, atEnd⟩ | ⟨going, id, stands⟩
  · exact nomatch atEnd
  obtain ⟨found, middle, came, steered, cursor, least⟩ := ends_nextEntry stands (h.begins key rfl)
  have next := next_of_going Store.native read going store
  rw [step_eq, ends_bind_ok came, h.stop] at next
  cases found with
  | ended =>
    refine ⟨{ scan with walk := holding view id .ended, done := true }, middle, steered, .inl ?_⟩
    refine ⟨next, ⟨h.stop, nofun, .inl ⟨rfl, rfl⟩⟩, rfl, fun other begins' stored _ => ?_⟩
    exact not_not.mp (least other begins' stored)
  | onKey here =>
    have ⟨begins, stored, _, first⟩ := least
    have stored_now : (middle.find? view.table.scope here).isSome := by
      rw [steered.find?]
      exact stored
    have live_now : middle.standingOf (view.cursorAt (.onKey here)) = .live := if_pos stored_now
    have files' := files.of_shelves steered.shelves
    rw [live_now] at next
    rcases ends_emit_onKey reads files' back cursor begins stored_now with
      ⟨not_below, emitted⟩ | ⟨item, walk, after, emitted, below, own, isLive, steered', stands'⟩
    · rw [emitted] at next
      refine ⟨{ scan with walk := holding view id .live, done := true }, middle, steered, .inl ?_⟩
      refine ⟨next, ⟨h.stop, nofun, .inl ⟨rfl, rfl⟩⟩, rfl, fun other begins' stored' before => ?_⟩
      -- An entry from `key` on is not below `here`, and `here` is not below the stop.
      refine not_not.mp fun above => not_below fun upper same => ?_
      exact Std.lt_of_le_of_lt (Std.not_lt.mp (first other begins' stored' above))
        (before upper same)
    · rw [emitted] at next
      subst own
      have same : middle.firstAfter view.table.scope view.placement.stem (keyOf item)
          = store.firstAfter view.table.scope view.placement.stem (keyOf item) := by
        obtain ⟨cursors, rfl⟩ := steered
        rfl
      rw [same] at stands'
      have behind := Store.least_firstAfter store view.table.scope begins
      refine ⟨{ scan with walk }, after, Steering.chains.trans steered steered', .inr ⟨item, _, next,
        reads.steady steered.symm isLive, below, least, ⟨h.stop, fun other here => ?_,
          .inr ⟨going, id, stands'⟩⟩, behind⟩⟩
      rw [here] at behind
      exact behind.1

end Scan

/-! ## 2. A scan among writes -/

/-- What happens while a scan is open: a write to the table, or a call for the next item. -/
inductive ScanEvent (ρ : Type) : Type 1 where
  | write {β : Type} (write : TableWrite ρ β)
  | next

/-- One call for the next item: the store that it came to, and the answer. -/
structure Turn (α : Type) where
  store : Store
  answer : Option (Except Fault α)

/-- The item that a call has handed out. -/
def Turn.item? (turn : Turn α) : Option α :=
  match turn.answer with
  | some (.ok item) => some item
  | _ => none

/-- The items that calls have handed out, in order. -/
def Turn.items (turns : List (Turn α)) : List α :=
  turns.filterMap Turn.item?

namespace Scan

/-- Runs a scan among writes to a table: its calls for items, in order. -/
def play (table : Table ρ) (read : Walk ρ → Action Store α) :
    List (ScanEvent ρ) → Store → Scan ρ → List (Turn α)
  | [], _, _ => []
  | .write write :: rest, store, scan =>
    play table read rest (outcome (write.perform Store.native table) store).2 scan
  | .next :: rest, store, scan =>
    let ((answer, scan'), after) := scan.next Store.native read store
    ⟨store, answer⟩ :: play table read rest after scan'

/-- Whether two stores have the same open cursors. -/
def SameCursors (before after : Store) : Prop :=
  after.cursors = before.cursors

theorem sameCursors_native : Store.native.Keeps SameCursors where
  chains := ⟨fun _ => rfl, fun one two => Eq.trans two one⟩
  read _ _ _ := rfl
  write := Store.cursors_write
  erase := Store.cursors_erase

variable {view : View ρ} {stop : Option Bytes} {read : Walk ρ → Action Store α}
  {keyOf : α → Bytes} {live : Store → α → Prop} {store : Store} {scan : Scan ρ}

/-- **A write does not move a scan**, whatever becomes of the entry it waits at. -/
theorem Waits.write {β : Type} {position : Position} (h : Waits view stop store scan position)
    (table : Table ρ) (write : TableWrite ρ β) :
    Waits view stop (outcome (write.perform Store.native table) store).2 scan position where
  stop := h.stop
  begins := h.begins
  stands := by
    have same := write.keeps sameCursors_native table store
    refine h.stands.imp_right fun ⟨going, id, stands⟩ => ⟨going, id, stands.walk, ?_⟩
    rw [same]
    exact stands.cursor

/-- What a scan hands out from where it waits, on turns among any writes: no faults, live items, keys
    from there on that ascend and stay in the index and below the stop, nothing after the end; and,
    by the time of the end, every key from there on that has had an entry at each turn. -/
structure Delivers (view : View ρ) (stop : Option Bytes) (keyOf : α → Bytes)
    (live : Store → α → Prop) (position : Position) (turns : List (Turn α)) : Prop where
  sound : ∀ turn ∈ turns, ∀ fault, turn.answer ≠ some (.error fault)
  live : ∀ turn ∈ turns, ∀ item, turn.answer = some (.ok item) → live turn.store item
  inside : ∀ item ∈ Turn.items turns, Bytes.startsWith (keyOf item) view.placement.stem
    ∧ BelowStop stop (keyOf item) ∧ ∃ key, position = .onKey key ∧ ¬ keyOf item < key
  ascending : (Turn.items turns).Pairwise fun a b => keyOf a < keyOf b
  fused : turns.Pairwise fun a b => a.answer = none → b.answer = none
  complete : ∀ before turn after, turns = before ++ turn :: after → turn.answer = none →
    ∀ key, Bytes.startsWith key view.placement.stem → BelowStop stop key →
      (∃ first, position = .onKey first ∧ ¬ key < first) →
      (∀ seen ∈ before ++ [turn], (seen.store.find? view.table.scope key).isSome) →
      ∃ item ∈ Turn.items before, keyOf item = key

namespace Delivers

variable {position : Position} {turns : List (Turn α)}

theorem nil : Delivers view stop keyOf live position ([] : List (Turn α)) := by
  refine ⟨fun _ mem => absurd mem List.not_mem_nil, fun _ mem => absurd mem List.not_mem_nil,
    fun _ mem => absurd mem List.not_mem_nil, List.Pairwise.nil, List.Pairwise.nil, ?_⟩
  intro before turn after split
  exact absurd split.symm (List.append_ne_nil_of_right_ne_nil _ (List.cons_ne_nil _ _))

/-- After the end there is nothing but the end. -/
theorem of_all_none (ended : ∀ turn ∈ turns, turn.answer = none) :
    Delivers view stop keyOf live .ended turns := by
  have none : Turn.items turns = [] := by
    refine List.filterMap_eq_nil_iff.mpr fun turn mem => ?_
    unfold Turn.item?
    rw [ended turn mem]
  refine ⟨fun turn mem fault h => ?_, fun turn mem item h => ?_, ?_, ?_, ?_, ?_⟩
  · exact nomatch (ended turn mem).symm.trans h
  · exact nomatch (ended turn mem).symm.trans h
  · rw [none]
    exact fun _ mem => absurd mem List.not_mem_nil
  · rw [none]
    exact List.Pairwise.nil
  · exact List.pairwise_of_forall_mem_list fun _ _ b mem _ => ended b mem
  · rintro _ _ _ _ _ _ _ _ ⟨_, atKey, _⟩
    exact nomatch atKey

/-- The turn that finds the end: no entry from where the scan waits on is below the stop. -/
theorem cons_none {key : Bytes} (passed : ∀ other, Bytes.startsWith other view.placement.stem →
      (store.find? view.table.scope other).isSome → BelowStop stop other → other < key)
    (ended : ∀ turn ∈ turns, turn.answer = none) :
    Delivers view stop keyOf live (.onKey key) (⟨store, none⟩ :: turns) := by
  have all : ∀ turn ∈ (⟨store, none⟩ :: turns : List (Turn α)), turn.answer = none := by
    intro turn mem
    rcases List.mem_cons.mp mem with here | later
    · rw [here]
    · exact ended turn later
  have rest : Delivers view stop keyOf live .ended (⟨store, none⟩ :: turns) := of_all_none all
  refine ⟨rest.sound, rest.live, fun item mem => ?_, rest.ascending, rest.fused, ?_⟩
  · obtain ⟨_, _, _, atKey, _⟩ := rest.inside item mem
    exact nomatch atKey
  · intro before turn after split _ other begins below ⟨first, atKey, above⟩ present
    -- The first of the turns looked at is this one, and there the key has no entry.
    have first_seen : (store.find? view.table.scope other).isSome := by
      cases before with
      | nil =>
        cases split
        exact present _ List.mem_cons_self
      | cons head before =>
        cases split
        exact present _ List.mem_cons_self
    cases atKey
    exact absurd (passed other begins first_seen below) above

/-- A turn that hands out the first entry from where the scan waits on. -/
theorem cons_item {key : Bytes} {item : α} {position' : Position} (isLive : live store item)
    (below : BelowStop stop (keyOf item))
    (least : store.Least view.table.scope view.placement.stem (fun other => ¬ other < key)
      (.onKey (keyOf item)))
    (behind : store.Least view.table.scope view.placement.stem (keyOf item < ·) position')
    (rest : Delivers view stop keyOf live position' turns) :
    Delivers view stop keyOf live (.onKey key) (⟨store, some (.ok item)⟩ :: turns) := by
  obtain ⟨begins, stored, above, first⟩ := least
  have items : Turn.items (⟨store, some (.ok item)⟩ :: turns) = item :: Turn.items turns := rfl
  have later : ∀ other ∈ Turn.items turns, keyOf item < keyOf other := by
    intro other mem
    obtain ⟨_, _, next, atNext, notBelow⟩ := rest.inside other mem
    subst atNext
    exact Std.lt_of_lt_of_le behind.2.2.1 (Std.not_lt.mp notBelow)
  refine ⟨fun turn mem fault h => ?_, fun turn mem other h => ?_, ?_, ?_, ?_, ?_⟩
  · rcases List.mem_cons.mp mem with here | after
    · rw [here] at h
      exact nomatch h
    · exact rest.sound turn after fault h
  · rcases List.mem_cons.mp mem with here | after
    · subst here
      cases h
      exact isLive
    · exact rest.live turn after other h
  · rw [items]
    intro other mem
    rcases List.mem_cons.mp mem with here | after
    · rw [here]
      exact ⟨begins, below, key, rfl, above⟩
    · obtain ⟨begins', below', _⟩ := rest.inside other after
      refine ⟨begins', below', key, rfl, fun lt => above ?_⟩
      exact Std.lt_trans (later other after) lt
  · rw [items]
    exact List.pairwise_cons.mpr ⟨later, rest.ascending⟩
  · exact List.pairwise_cons.mpr ⟨fun _ _ h => (nomatch h), rest.fused⟩
  · intro before turn after split ends other begins' below' ⟨first', atKey, notBelow⟩ present
    cases atKey
    cases before with
    | nil =>
      cases split
      exact nomatch ends
    | cons head before =>
      cases split
      have here := present ⟨store, some (.ok item)⟩ List.mem_cons_self
      rcases Bytes.lt_or_eq_or_gt other (keyOf item) with lt | same | gt
      · exact absurd lt (first other begins' here notBelow)
      · exact ⟨item, List.mem_cons_self, same.symm⟩
      · have ahead := behind.not_lt begins' here gt
        obtain ⟨found, mem, same⟩ := rest.complete before turn after rfl ends other begins' below'
          ahead fun seen mem => present seen (List.mem_cons_of_mem _ mem)
        exact ⟨found, List.mem_cons_of_mem _ mem, same⟩

end Delivers

/-- A scan that has ended answers so, whatever is written. -/
theorem all_none_play (table : Table ρ) (events : List (ScanEvent ρ)) :
    ∀ {store : Store} {scan : Scan ρ}, Waits view stop store scan .ended →
      ∀ turn ∈ play table read events store scan, turn.answer = none := by
  induction events with
  | nil => exact fun _ _ mem => absurd mem List.not_mem_nil
  | cons event rest ih =>
    intro store scan waits turn mem
    cases event with
    | write write => exact ih (waits.write table write) turn mem
    | next =>
      obtain ⟨scan', answers, waits', _⟩ := next_of_ended read waits
      unfold play at mem
      rw [answers] at mem
      rcases List.mem_cons.mp mem with here | later
      · rw [here]
      · exact ih waits' turn later

/-- **A scan delivers**, among any writes, from wherever it waits. -/
theorem delivers_play (roundTrip : view.table.format.RoundTrip) (apart : view.table.Apart)
    (reads : Reads view read keyOf live) (events : List (ScanEvent ρ)) :
    ∀ {store : Store} {records : OrdMap Bytes ρ} {scan : Scan ρ} {position : Position},
      view.table.Files store records → Waits view stop store scan position →
      Delivers view stop keyOf live position (play view.table read events store scan) := by
  induction events with
  | nil => exact fun _ _ => Delivers.nil
  | cons event rest ih =>
    intro store records scan position files waits
    cases event with
    | write write => exact ih (write.files roundTrip apart files) (waits.write view.table write)
    | next =>
      cases position with
      | ended => exact Delivers.of_all_none (all_none_play view.table (.next :: rest) waits)
      | onKey key =>
        have back := Table.readsBack roundTrip records
        obtain ⟨scan', after, steered, ends | gives⟩ := next_of_onKey reads files back waits
        · obtain ⟨answers, waits', _, passed⟩ := ends
          unfold play
          rw [answers]
          exact Delivers.cons_none passed (all_none_play view.table rest waits')
        · obtain ⟨item, position', answers, isLive, below, least, waits', behind⟩ := gives
          have files' := files.of_shelves steered.shelves
          unfold play
          rw [answers]
          exact Delivers.cons_item isLive below least behind (ih files' waits')

end Scan

/-! ## 3. Opening a scan -/

/-- What a scan is opened on: all of an index, or the keys from one on and below another. -/
inductive Span where
  | whole
  | between (lower upper : Bytes)

namespace Span

variable {σ : Type}

/-- Opens a scan. -/
def start (backend : Backend σ) (view : View ρ) : Span → Action σ (Scan ρ)
  | whole => view.scan backend
  | between lower upper => view.scanBetween backend lower upper

/-- Whether a key is one of the index that the scan is opened on. -/
def Contains (view : View ρ) (key : Bytes) : Span → Prop
  | whole => view.placement.contains key
  | between lower upper => view.placement.contains key ∧ ¬ key < lower ∧ key < upper

/-- The key where a scan begins to look. -/
def lower (view : View ρ) : Span → Bytes
  | whole => view.placement.stem
  | between lower _ => lower

/-- The key where a scan stops. -/
def upper? : Span → Option Bytes
  | whole => none
  | between _ upper => some upper

theorem contains_iff {view : View ρ} {span : Span} {key : Bytes} :
    span.Contains view key ↔ Bytes.startsWith key view.placement.stem
      ∧ ¬ key < span.lower view ∧ Scan.BelowStop span.upper? key := by
  cases span with
  | whole =>
    refine ⟨fun begins => ⟨begins, Bytes.not_lt_stem begins, fun _ => nofun⟩, fun h => h.1⟩
  | between lower upper =>
    refine ⟨fun ⟨begins, above, below⟩ => ⟨begins, above, fun other same => ?_⟩,
      fun ⟨begins, above, below⟩ => ⟨begins, above, below upper rfl⟩⟩
    exact Option.some.inj same ▸ below

end Span

/-- Where a search leads to, the entries decide. -/
theorem Store.steady_firstFrom (key : Bytes) (s t : Store) (same : s.shelves = t.shelves) :
    (fun cursor : Cursor => s.firstFrom cursor.scope cursor.stem key)
      = fun cursor => t.firstFrom cursor.scope cursor.stem key := by
  unfold Store.firstFrom Store.search Store.shelf
  rw [same]

namespace View

open Walk

variable {view : View ρ} {store : Store}

/-- What a new cursor leaves of a store: the entries, the settings and the other cursors. -/
structure Joined (id : CursorId) (before after : Store) : Prop where
  sparing : Sparing before after
  fresh : before.cursors.get? id = none
  others : ∀ other, other ≠ id → after.cursors.get? other = before.cursors.get? other
  size : after.cursors.size = before.cursors.size + 1

theorem Joined.shelves {id : CursorId} {before after : Store} (joined : Joined id before after) :
    after.shelves = before.shelves := joined.sparing.shelves

theorem Joined.settings {id : CursorId} {before after : Store} (joined : Joined id before after) :
    after.settings = before.settings := joined.sparing.settings

/-- A new cursor stands at the end, if there is a slot for it. -/
theorem outcome_openCursor (view : View ρ) (store : Store) :
    (¬ store.cursors.size < store.settings.limits.maxCursors.toNat ∧
      ∃ fault, outcome (Walk.openCursor Store.native view) store = (.error fault, store)) ∨
    ∃ id after, outcome (Walk.openCursor Store.native view) store = (.ok id, after)
      ∧ Joined id store after
      ∧ after.cursors.get? id = some (view.cursorAt .ended) := by
  have opens : outcome (Walk.openCursor Store.native view) store = _ :=
    Store.outcome_openCursor view.table.scope view.placement.stem store
  by_cases full : store.cursors.size ≥ store.settings.limits.maxCursors.toNat
  · rw [if_pos full] at opens
    exact .inl ⟨Nat.not_lt.mpr full, _, opens⟩
  · rw [if_neg full] at opens
    have fresh := Store.get?_freeNumber_of_room full
    refine .inr ⟨_, _, opens, ⟨⟨store.staged, _, _, rfl⟩, fresh, fun other apart => ?_, ?_⟩,
      OrdMap.get?_insert_self ..⟩
    · exact OrdMap.get?_insert_of_ne _ apart _
    · exact OrdMap.size_insert_of_free fresh _

/-- A new walk comes to where its first step leads from the end, if there is a slot for its cursor.
    The step must go by the entries alone. -/
theorem outcome_start (view : View ρ) (store : Store) (direction : Direction)
    {target : Store → Cursor → Position}
    (steady : ∀ s t : Store, s.shelves = t.shelves → target s = target t) :
    (¬ store.cursors.size < store.settings.limits.maxCursors.toNat ∧
      ∃ fault, outcome (Walk.start Store.native view direction (Store.moveCursor · target)) store
        = (.error fault, store)) ∨
    ∃ id after, outcome (Walk.start Store.native view direction (Store.moveCursor · target)) store
        = (.ok ⟨view, direction, some ⟨id,
            after.standingOf (view.cursorAt (target store (view.cursorAt .ended)))⟩⟩, after)
      ∧ Joined id store after
      ∧ after.cursors.get? id = some (view.cursorAt (target store (view.cursorAt .ended))) := by
  unfold Walk.start
  rcases outcome_openCursor view store with
    ⟨full, fault, fails⟩ | ⟨id, middle, opens, joined, cursor⟩
  · exact .inl ⟨full, fault, outcome_bind_error fails⟩
  have moved : outcome (Store.moveCursor id target) middle = _ :=
    Store.outcome_moveCursor id target middle
  rw [cursor, steady middle store joined.shelves] at moved
  let position := target store (view.cursorAt .ended)
  have came : outcome ((Store.moveCursor id target).onFault (Store.native.closeCursor id).quietly)
      middle = (.ok (middle.standingOf (view.cursorAt position)),
        middle.steer id (view.cursorAt position)) := by
    rw [outcome_onFault, moved]
    rfl
  have joined' : Joined id store (middle.steer id (view.cursorAt position)) := by
    refine ⟨joined.sparing.trans ⟨middle.staged, _, middle.nextCursor, rfl⟩, joined.fresh,
      fun other apart => ?_, ?_⟩
    · exact (OrdMap.get?_insert_of_ne _ apart _).trans (joined.others other apart)
    · exact (OrdMap.size_insert_of_held cursor _).trans joined.size
  refine .inr ⟨id, middle.steer id (view.cursorAt position), ?_, joined',
    OrdMap.get?_insert_self ..⟩
  rw [outcome_bind_ok opens, outcome_bind_ok came]
  rfl

/-- A new walk comes to the least stored key from a given one on, if there is a slot for its
    cursor. -/
theorem outcome_seek (view : View ρ) (store : Store) (key : Bytes) :
    (¬ store.cursors.size < store.settings.limits.maxCursors.toNat ∧
      ∃ fault, outcome (view.seek Store.native key) store = (.error fault, store)) ∨
    ∃ walk id after, outcome (view.seek Store.native key) store = (.ok walk, after)
      ∧ Joined id store after
      ∧ Rests view id after
          (after.firstFrom view.table.scope view.placement.stem key) walk := by
  have steady := Store.steady_firstFrom key
  rcases outcome_start view store .forward steady with refused | ⟨id, after, sought, joined, cursor⟩
  · exact .inl refused
  · have same := congrFun (steady after store joined.shelves) (view.cursorAt .ended)
    rw [← same] at sought cursor
    exact .inr ⟨_, id, after, sought, joined, rfl, cursor⟩

/-- Every scan is opened by one walk to where it begins to look. -/
theorem start_eq (span : Span) (view : View ρ) :
    span.start Store.native view = (do
      return { walk := ← view.seek Store.native (span.lower view), stop := span.upper? }) := by
  cases span <;> rfl

/-- A scan can be opened if there is a slot for its cursor. -/
theorem opens_of_free (view : View ρ) (span : Span)
    (free : store.cursors.size < store.settings.limits.maxCursors.toNat) :
    ∃ scan opened, outcome (span.start Store.native view) store = (.ok scan, opened) := by
  rw [start_eq]
  rcases outcome_seek view store (span.lower view) with
    ⟨full, _⟩ | ⟨walk, id, after, found, _⟩
  · exact absurd free full
  · exact ⟨_, after, outcome_bind_ok found⟩

/-- **A scan that was opened waits** at the first entry of its span, or has none to hand out. -/
theorem waits_of_start {span : Span} {scan : Scan ρ} {opened : Store}
    (h : outcome (span.start Store.native view) store = (.ok scan, opened)) :
    opened.shelves = store.shelves ∧
    Scan.Waits view span.upper? opened scan
      (opened.firstFrom view.table.scope view.placement.stem (span.lower view)) := by
  rw [start_eq] at h
  rcases outcome_seek view store (span.lower view) with
    ⟨_, fault, fails⟩ | ⟨walk, id, after, found, joined, rests⟩
  · rw [outcome_bind_error fails] at h
    exact nomatch h
  · rw [outcome_bind_ok found] at h
    cases h
    have least := Store.least_firstFrom opened view.table.scope view.placement.stem (span.lower view)
    refine ⟨joined.shelves, rfl, fun key here => ?_, .inr ⟨rfl, id, rests.standsAt⟩⟩
    rw [here] at least
    exact least.1

end View

/-! ## 4. The result -/

/-- What a caller sees of a scan that runs among writes: no fault; ascending keys, all in the span;
    only live items; every key of the span that has an entry from the opening to the end, exactly
    once; and after the end nothing, for ever. -/
structure Faithful (view : View ρ) (span : Span) (keyOf : α → Bytes) (live : Store → α → Prop)
    (opened : Store) (turns : List (Turn α)) : Prop where
  sound : ∀ turn ∈ turns, ∀ fault, turn.answer ≠ some (.error fault)
  ascending : ((Turn.items turns).map keyOf).Pairwise (· < ·)
  inside : ∀ item ∈ Turn.items turns, span.Contains view (keyOf item)
  live : ∀ turn ∈ turns, ∀ item, turn.answer = some (.ok item) → live turn.store item
  complete : ∀ before turn after, turns = before ++ turn :: after → turn.answer = none →
    ∀ key, span.Contains view key → (opened.find? view.table.scope key).isSome →
      (∀ seen ∈ before ++ [turn], (seen.store.find? view.table.scope key).isSome) →
      ((Turn.items turns).map keyOf).count key = 1
  fused : turns.Pairwise fun a b => a.answer = none → b.answer = none

namespace Scan

/-- What a scan delivers from the first entry of its span on is all that a caller can ask. -/
theorem Delivers.faithful {view : View ρ} {span : Span} {keyOf : α → Bytes}
    {live : Store → α → Prop} {opened : Store} {turns : List (Turn α)}
    (h : Delivers view span.upper? keyOf live
      (opened.firstFrom view.table.scope view.placement.stem (span.lower view)) turns) :
    Faithful view span keyOf live opened turns := by
  have least := Store.least_firstFrom opened view.table.scope view.placement.stem (span.lower view)
  have ascending : ((Turn.items turns).map keyOf).Pairwise (· < ·) :=
    List.pairwise_map.mpr h.ascending
  refine ⟨h.sound, ascending, fun item mem => ?_, h.live, ?_, h.fused⟩
  · obtain ⟨begins, below, first, here, above⟩ := h.inside item mem
    rw [here] at least
    refine Span.contains_iff.mpr ⟨begins, fun lt => ?_, below⟩
    exact above (Std.lt_of_lt_of_le lt (Std.not_lt.mp least.2.2.1))
  · intro before turn after split ends key contained there present
    obtain ⟨begins, above, below⟩ := Span.contains_iff.mp contained
    have ahead := least.not_lt begins there above
    obtain ⟨item, mem, same⟩ := h.complete before turn after split ends key begins below ahead present
    have nodup : ((Turn.items turns).map keyOf).Nodup := by
      refine ascending.imp ?_
      intro a b lt same
      exact Std.lt_irrefl (same ▸ lt)
    have handed : key ∈ (Turn.items turns).map keyOf := by
      refine List.mem_map.mpr ⟨item, ?_, same⟩
      rw [split]
      unfold Turn.items
      rw [List.filterMap_append]
      exact List.mem_append_left _ mem
    rw [nodup.count, if_pos handed]

/-- **Scans survive writes.** Open a scan on any index of a bound table that is filed, and let any
    writes to the table happen between the calls for items. A scan that hands out records and one
    that hands out keys are then both faithful: what they hand out is live, in order, in the span and
    complete. -/
theorem survives_writes {schema : Schema ρ} {format : RecordFormat ρ} {scope : Name} {serial : Nat}
    {table : Table ρ} (bound : schema.bind format scope serial = .ok table)
    (roundTrip : format.RoundTrip) {store : Store} {records : OrdMap Bytes ρ}
    (files : table.Files store records) (index : Fin table.indices.length) (span : Span)
    {scan : Scan ρ} {opened : Store}
    (opens : outcome (span.start Store.native ⟨table, index⟩) store = (.ok scan, opened))
    (events : List (ScanEvent ρ)) :
    let view : View ρ := ⟨table, index⟩
    Faithful view span view.index.fullKey view.Live opened
      (play table (readRecord Store.native) events opened scan) ∧
    Faithful view span view.placement.fullKey
      (fun store key => (store.find? scope (view.placement.fullKey key)).isSome) opened
      (play table (readKey Store.native) events opened scan) := by
  intro view
  obtain ⟨inScope, inFormat, _⟩ := Schema.of_bind bound
  subst inScope inFormat
  have apart := Schema.apart_of_bind bound
  obtain ⟨same, waits⟩ := View.waits_of_start opens
  have files' : table.Files opened records := files.congr fun _ _ _ => by
    unfold Store.find? Store.shelf
    rw [same]
  exact ⟨(delivers_play roundTrip apart reads_record events files' waits).faithful,
    (delivers_play roundTrip apart reads_key events files' waits).faithful⟩

/-- The notes by their lengths. -/
def notesByLength : View Bytes :=
  ⟨Table.noteTable, ⟨0, by decide⟩⟩

/-- A store with two notes. -/
def noteStore : Store :=
  let first := outcome (TableWrite.perform Store.native Table.noteTable (.put [1, 1]))
    (Store.fresh default)
  (outcome (TableWrite.perform Store.native Table.noteTable (.put [2])) first.2).2

theorem survives_writes_notes : ∃ scan opened,
    outcome (Span.whole.start Store.native notesByLength) noteStore = (.ok scan, opened)
      ∧ Faithful notesByLength .whole notesByLength.index.fullKey notesByLength.Live opened
          (play Table.noteTable (readRecord Store.native)
            [.next, .write (.erase [1, 1]), .write (.put [3, 3, 3]), .next, .next, .next]
            opened scan) := by
  have opens : (outcome (Span.whole.start Store.native notesByLength) noteStore).1.isOk := by
    decide +kernel
  have roundTrip : Table.noteTable.format.RoundTrip := fun _ => rfl
  have apart := Schema.apart_of_bind Table.bind_notes
  have free : Table.noteTable.Files (Store.fresh default) .empty := Table.Files.empty fun _ _ _ => rfl
  have files := TableWrite.files roundTrip apart
    (TableWrite.files roundTrip apart free (.put [1, 1])) (.put [2])
  rcases ran : outcome (Span.whole.start Store.native notesByLength) noteStore
    with ⟨fault | scan, opened⟩
  · rw [ran] at opens
    exact Bool.noConfusion opens
  · have faithful := survives_writes Table.bind_notes (fun _ => rfl) files ⟨0, by decide⟩ .whole ran
      [.next, .write (.erase [1, 1]), .write (.put [3, 3, 3]), .next, .next, .next]
    exact ⟨scan, opened, rfl, faithful.1⟩

end Scan

end IndexedStore
