import IndexedStore.Proofs.Store.Scripts
import IndexedStore.Proofs.Table.Mirroring
/-!
# Clients do not see which way they go

A client of a store asks tables, walks, scans, single records and the store itself, and what it asks
next depends on the answers so far. Led by the store's own conveniences and led through its primitives
alone, such a client gets the same answers, one by one, and leaves the same store behind, but for the
staged value.

* `Request` is what a client can ask, of tables with records of any kinds;
* `Script.history` lists a run: each request with its answer and the store after it, each unit of work
  with its end;
* **`Script.relayed_exact`** compares the two histories.
-/

namespace IndexedStore

open IndexedStore.Action

variable {settings : Settings} {κ ρ α β : Type}

/-! ## 1. Requests -/

/-- A question about one index of a table, or about the table as a whole. -/
inductive Lookup (ρ : Type) : Type → Type where
  | contains (table : Table ρ) (record : ρ) : Lookup ρ Bool
  | count (table : Table ρ) : Lookup ρ Nat
  | holds (view : View ρ) (key : Bytes) : Lookup ρ Bool
  | get (view : View ρ) (key : Bytes) : Lookup ρ (Option ρ)
  | demand (view : View ρ) (key : Bytes) : Lookup ρ ρ
  | range (view : View ρ) (lower upper : Bytes) : Lookup ρ (List ρ)

/-- The making, moving, reading and release of a walk. A moved walk is part of the answer. -/
inductive WalkCall (ρ : Type) : Type → Type where
  | seek (view : View ρ) (key : Bytes) : WalkCall ρ (Walk ρ)
  | find (view : View ρ) (key : Bytes) : WalkCall ρ (Walk ρ)
  | seekAbove (view : View ρ) (key : Bytes) : WalkCall ρ (Walk ρ)
  | last (view : View ρ) : WalkCall ρ (Walk ρ)
  | advance (walk : Walk ρ) : WalkCall ρ (Except Fault Unit × Walk ρ)
  | retreat (walk : Walk ρ) : WalkCall ρ (Except Fault Unit × Walk ρ)
  | refresh (walk : Walk ρ) : WalkCall ρ (Except Fault Standing × Walk ρ)
  | readKey (walk : Walk ρ) : WalkCall ρ Bytes
  | keyBehindStem (walk : Walk ρ) : WalkCall ρ Bytes
  | readValue (walk : Walk ρ) : WalkCall ρ ρ
  | compareKey (walk : Walk ρ) (key : Bytes) : WalkCall ρ Ordering
  | shown (walk : Walk ρ) : WalkCall ρ (Standing × Option Bytes)
  | release (walk : Walk ρ) : WalkCall ρ Unit

/-- The making of a scan, and the calls for its items. -/
inductive ScanCall (ρ : Type) : Type → Type where
  | start (view : View ρ) (span : Span) : ScanCall ρ (Scan ρ)
  | nextRecord (scan : Scan ρ) : ScanCall ρ (Option (Except Fault ρ) × Scan ρ)
  | nextKey (scan : Scan ρ) : ScanCall ρ (Option (Except Fault Bytes) × Scan ρ)
  | allRecords (scan : Scan ρ) : ScanCall ρ (List (Except Fault ρ))
  | allKeys (scan : Scan ρ) : ScanCall ρ (List (Except Fault Bytes))

/-- A call on a single record. -/
inductive SingleCall (ρ : Type) : Type → Type where
  | isStored : SingleCall ρ Bool
  | get : SingleCall ρ (Option ρ)
  | getD (default : ρ) : SingleCall ρ ρ
  | put (record : ρ) : SingleCall ρ Unit
  | remove : SingleCall ρ Bool

/-- A comparison of two walks, whose records may be of different kinds. -/
inductive Comparison (Rec : κ → Type) : Type → Type where
  | order {a b : κ} (first : Walk (Rec a)) (second : Walk (Rec b)) : Comparison Rec Ordering
  | order? {a b : κ} (first : Walk (Rec a)) (second : Walk (Rec b)) :
    Comparison Rec (Option Ordering)
  | meets {a b : κ} (first : Walk (Rec a)) (second : Walk (Rec b)) : Comparison Rec Bool

/-- A copy of the staged value that the client does not look at. -/
inductive StagedCopy : Type → Type where
  | unseen (offset : Nat) (buffer : Bytes) : StagedCopy Unit

/-- What a client of a store can ask; the records of its tables are of the kinds that `Rec` lists. -/
inductive Request (Rec : κ → Type) : Type → Type where
  | write {β : Type} (kind : κ) (table : Table (Rec kind)) (made : TableWrite (Rec kind) β) :
    Request Rec β
  | lookup {β : Type} (kind : κ) (made : Lookup (Rec kind) β) : Request Rec β
  | walk {β : Type} (kind : κ) (made : WalkCall (Rec kind) β) : Request Rec β
  | scan {β : Type} (kind : κ) (made : ScanCall (Rec kind) β) : Request Rec β
  | single {β : Type} (kind : κ) (place : SingleRecord (Rec kind))
    (made : SingleCall (Rec kind) β) : Request Rec β
  | compare {β : Type} (made : Comparison Rec β) : Request Rec β
  | store {β : Type} (made : Call β) (apart : ¬ made.CopiesStaged) : Request Rec β
  | copy {β : Type} (made : StagedCopy β) : Request Rec β

section Performing

variable (backend : Backend Store)

/-- Asks a question about an index. -/
def Lookup.perform : Lookup ρ β → Action Store β
  | contains table record => table.contains backend record
  | count table => table.count backend
  | holds view key => view.holds backend key
  | get view key => view.get backend key
  | demand view key => view.demand backend key
  | range view lower upper => view.range backend lower upper

/-- Makes a call on a walk. -/
def WalkCall.perform : WalkCall ρ β → Action Store β
  | seek view key => view.seek backend key
  | find view key => view.find backend key
  | seekAbove view key => view.seekAbove backend key
  | last view => view.last backend
  | advance walk => ExceptT.lift ((Walk.advance backend).run walk)
  | retreat walk => ExceptT.lift ((Walk.retreat backend).run walk)
  | refresh walk => ExceptT.lift ((Walk.refresh backend).run walk)
  | readKey walk => walk.key backend
  | keyBehindStem walk => walk.keyBehindStem backend
  | readValue walk => walk.value backend
  | compareKey walk key => walk.compareKey backend key
  | shown walk => ExceptT.lift (walk.shown backend)
  | release walk => ExceptT.lift (walk.release backend)

/-- Makes a call on a scan. -/
def ScanCall.perform : ScanCall ρ β → Action Store β
  | start view span => span.start backend view
  | nextRecord scan => ExceptT.lift (scan.next backend (Scan.readRecord backend))
  | nextKey scan => ExceptT.lift (scan.next backend (Scan.readKey backend))
  | allRecords scan => ExceptT.lift (scan.all backend (Scan.readRecord backend))
  | allKeys scan => ExceptT.lift (scan.all backend (Scan.readKey backend))

/-- Makes a call on a single record. -/
def SingleCall.perform (single : SingleRecord ρ) : SingleCall ρ β → Action Store β
  | isStored => single.isStored backend
  | get => single.get backend
  | getD default => single.getD backend default
  | put record => single.put backend record
  | remove => single.remove backend

/-- Compares two walks. -/
def Comparison.perform {Rec : κ → Type} : Comparison Rec β → Action Store β
  | order first second => first.order backend second
  | order? first second => ExceptT.lift (first.order? backend second)
  | meets first second => ExceptT.lift (first.meets backend second)

/-- Copies from the staged value, and lets go of what was copied. -/
def StagedCopy.perform : StagedCopy β → Action Store β
  | unseen offset buffer => do let _ ← backend.copyStaged offset buffer

/-- Makes a request. -/
def Request.perform {Rec : κ → Type} : Request Rec β → Action Store β
  | write _ table made => made.perform backend table
  | lookup _ made => made.perform backend
  | walk _ made => made.perform backend
  | scan _ made => made.perform backend
  | single _ place made => made.perform backend place
  | compare made => made.perform backend
  | store made _ => made.perform backend
  | copy made => made.perform backend

end Performing

/-- Whether a put concerns a record whose entries keep to the limits. -/
def TableWrite.Fits (settings : Settings) (table : Table ρ) : TableWrite ρ β → Prop
  | put record => table.Fits settings record
  | _ => True

/-- Whether a request keeps to the limits, if it is a put. -/
def Request.Fits (settings : Settings) {Rec : κ → Type} : Request Rec β → Prop
  | write _ table made => made.Fits settings table
  | _ => True

/-! ## 2. One request -/

/-- The checks of a put pass by both ways if the record fits: one way tells the limits, the other
    one tells none. -/
theorem Table.checkLimits_agree {table : Table ρ} {record : ρ} (fits : table.Fits settings record)
    (s t : Store) (twin : Twin settings s t) :
    checkLimits Store.native table record s = checkLimits Store.relayed table record t := by
  have native : checkLimits Store.native table record s = .ok () :=
    checkLimits_native.mpr (twin.settings.symm ▸ fits)
  have relayed : checkLimits Store.relayed table record t = .ok () :=
    forM_eq_ok_iff.mpr fun _ _ => rfl
  rw [native, relayed]

theorem TableWrite.agree {table : Table ρ} {made : TableWrite ρ β}
    (fits : made.Fits settings table) :
    Action.Agree settings (made.perform Store.native table)
      (made.perform Store.relayed table) := by
  have mirrors := Store.native_mirrors settings
  cases made with
  | put record => exact Table.agree_put mirrors table record (Table.checkLimits_agree fits)
  | erase record => exact Table.agree_eraseAt mirrors table _
  | eraseByKey key => exact Table.agree_eraseAt mirrors table _

/-- **A request ends alike by the two ways.** -/
theorem Request.agree {Rec : κ → Type} {made : Request Rec β} (fits : made.Fits settings) :
    Action.Agree settings (made.perform Store.native) (made.perform Store.relayed) := by
  have h := Store.native_mirrors settings
  cases made with
  | write _ table made => exact TableWrite.agree fits
  | lookup _ made =>
    cases made with
    | contains table record => exact h.holds _ _
    | count table => exact Table.agree_count h table
    | holds view key => exact h.holds _ _
    | get view key => exact View.agree_get h view key
    | demand view key => exact View.agree_demand h view key
    | range view lower upper => exact View.agree_range h view lower upper
  | walk _ made =>
    cases made with
    | seek view key => exact View.agree_seek h view key
    | find view key => exact View.agree_find h view key
    | seekAbove view key => exact View.agree_seekAbove h view key
    | last view => exact View.agree_last h view
    | advance walk => exact (Walk.agree_advance h walk).lift
    | retreat walk => exact (Walk.agree_retreat h walk).lift
    | refresh walk => exact (Walk.agree_refresh h walk).lift
    | readKey walk => exact Walk.agree_key h walk
    | keyBehindStem walk => exact Walk.agree_keyBehindStem h walk
    | readValue walk => exact Walk.agree_value h walk
    | compareKey walk key => exact Walk.agree_compareKey h walk key
    | shown walk => exact (Alike.bind (Walk.agree_key h walk) fun _ => Alike.pure _).lift
    | release walk => exact (Walk.agree_release h walk).lift
  | scan _ made =>
    cases made with
    | start view span =>
      cases span with
      | whole => exact Agree.bind (View.agree_seek h view _) fun _ => Agree.pure _
      | between lower upper => exact Agree.bind (View.agree_seek h view lower) fun _ => Agree.pure _
    | nextRecord scan => exact (Scan.agree_next h (Walk.agree_value h) scan).lift
    | nextKey scan => exact (Scan.agree_next h (Walk.agree_keyBehindStem h) scan).lift
    | allRecords scan => exact (Scan.agree_all h (Walk.agree_value h) scan).lift
    | allKeys scan => exact (Scan.agree_all h (Walk.agree_keyBehindStem h) scan).lift
  | single _ place made =>
    cases made with
    | isStored => exact h.holds _ _
    | get => exact SingleRecord.agree_get h place
    | getD default => exact Agree.bind (SingleRecord.agree_get h place) fun _ => Agree.pure _
    | put record => exact SingleRecord.agree_put h place record
    | remove => exact SingleRecord.agree_remove h place
  | compare made =>
    cases made with
    | order first second => exact Walk.agree_order h first second
    | order? first second =>
      exact (Alike.bind (Walk.agree_order h first second) fun _ => Alike.pure _).lift
    | meets first second =>
      exact (Alike.bind (Alike.bind (Walk.agree_order h first second) fun _ => Alike.pure _)
        fun _ => Alike.pure _).lift
  | store made apart => exact Call.agree apart
  | copy made =>
    cases made with
    | unseen offset buffer => exact fun _ _ twin => ⟨rfl, twin⟩

/-! ## 3. Histories -/

/-- What has happened in a run: a call with its answer, or the end of a unit of work; and the store
    after it. -/
inductive Event (C : Type → Type) : Type 1 where
  | called {β : Type} (made : C β) (answer : Except Fault β) (after : Store)
  | ended {β : Type} (answer : Except Fault β) (after : Store)

/-- Whether the call of an event has a property. -/
def Event.All {C : Type → Type} (P : {β : Type} → C β → Prop) : Event C → Prop
  | called made _ _ => P made
  | ended _ _ => True

/-- Whether two events are one but for the value that is staged in the store. -/
inductive Event.Same {C : Type → Type} : Event C → Event C → Prop where
  | called {β : Type} (made : C β) (answer : Except Fault β) {s t : Store} (left : Staging s t) :
    Same (.called made answer s) (.called made answer t)
  | ended {β : Type} (answer : Except Fault β) {s t : Store} (left : Staging s t) :
    Same (.ended answer s) (.ended answer t)

namespace Script

variable {C : Type → Type}

/-- What happens in a run, in order. The calls of a unit of work come before its end, whether or not
    they are taken back then; a unit that is refused makes no calls. -/
def history (perform : {β : Type} → C β → Action Store β) :
    {α : Type} → Script C α → Store → List (Event C)
  | _, finish _, _ => []
  | _, call made next, store =>
    let ended := outcome (perform made) store
    .called made ended.1 ended.2 :: (next ended.1).history perform ended.2
  | _, unit inner next, store =>
    let ended := outcome (Store.transact (inner.run perform)) store
    let inside := if store.log.isSome then []
      else inner.history perform { store with log := some [] }
    inside ++ .ended ended.1 ended.2 :: (next ended.1).history perform ended.2

section Unfolding

variable {perform : {β : Type} → C β → Action Store β} {store : Store}

theorem history_call {made : C β} {next : Except Fault β → Script C α} :
    (call made next).history perform store
      = .called made (outcome (perform made) store).1 (outcome (perform made) store).2
        :: (next (outcome (perform made) store).1).history perform
            (outcome (perform made) store).2 := rfl

theorem history_unit {inner : Script C β} {next : Except Fault β → Script C α} :
    (unit inner next).history perform store
      = (if store.log.isSome then [] else inner.history perform { store with log := some [] })
        ++ .ended (outcome (Store.transact (inner.run perform)) store).1
            (outcome (Store.transact (inner.run perform)) store).2
        :: (next (outcome (Store.transact (inner.run perform)) store).1).history perform
            (outcome (Store.transact (inner.run perform)) store).2 := rfl

theorem outcome_call {made : C β} {next : Except Fault β → Script C α} :
    outcome ((call made next).run perform) store
      = outcome ((next (outcome (perform made) store).1).run perform)
          (outcome (perform made) store).2 := rfl

theorem outcome_unit {inner : Script C β} {next : Except Fault β → Script C α} :
    outcome ((unit inner next).run perform) store
      = outcome ((next (outcome (Store.transact (inner.run perform)) store).1).run perform)
          (outcome (Store.transact (inner.run perform)) store).2 := rfl

end Unfolding

/-- **Scripts run alike on twins** if their calls do. -/
theorem history_alike {first second : {β : Type} → C β → Action Store β}
    {P : {β : Type} → C β → Prop}
    (calls : ∀ {β : Type} (made : C β), P made →
      Action.Agree settings (first made) (second made)) (script : Script C α) :
    ∀ s t, Twin settings s t → (∀ event ∈ script.history first s, event.All P) →
      List.Forall₂ Event.Same (script.history first s) (script.history second t) ∧
      EndAlike settings (outcome (script.run first) s) (outcome (script.run second) t) := by
  induction script with
  | finish result => exact fun s t twin _ => ⟨.nil, rfl, twin⟩
  | call made next ih =>
    intro s t twin all
    rw [history_call] at all
    obtain ⟨same, twin'⟩ := calls made (all _ List.mem_cons_self) s t twin
    have rest := ih _ _ _ twin' fun event mem => all event (List.mem_cons_of_mem _ mem)
    rw [history_call, history_call, outcome_call, outcome_call]
    rw [same] at rest ⊢
    exact ⟨.cons (.called made _ twin'.staging) rest.1, rest.2⟩
  | unit inner next inner_ih ih =>
    intro s t twin all
    rw [history_unit] at all
    have logs : s.log = t.log := twin.same fun _ _ => rfl
    have inside : s.log = none →
        List.Forall₂ Event.Same (inner.history first { s with log := some [] })
          (inner.history second { t with log := some [] }) ∧
        EndAlike settings (outcome (inner.run first) { s with log := some [] })
          (outcome (inner.run second) { t with log := some [] }) := by
      intro closed
      refine inner_ih _ _ twin.begin fun event mem => all event (List.mem_append_left _ ?_)
      rw [closed]
      exact mem
    obtain ⟨same, twin'⟩ := twin.transact fun closed => (inside closed).2
    have rest := ih _ _ _ twin' fun event mem =>
      all event (List.mem_append_right _ (List.mem_cons_of_mem _ mem))
    rw [history_unit, history_unit, outcome_unit, outcome_unit, ← logs]
    rw [same] at rest ⊢
    refine ⟨List.rel_append ?_ (.cons (.ended _ twin'.staging) rest.1), rest.2⟩
    cases closed : s.log with
    | some _ => exact .nil
    | none => exact (inside closed).1

/-! ## 4. The result -/

/-- **The two ways to a store cannot be told apart.** Let a client ask what it likes of a new store,
    with any settings, as long as the entries of every record that it puts keep to the limits; the one
    thing it may not look at are bytes copied from the staged value. Led by the conveniences of the
    store and led through its primitives alone it makes the same requests, gets the same answers and
    faults, and after each of them the two stores are the same but for the staged value. -/
theorem relayed_exact {Rec : κ → Type} (settings : Settings) (script : Script (Request Rec) α)
    (fits : ∀ event ∈ script.history (Request.perform Store.native) (Store.fresh settings),
      event.All (Request.Fits settings)) :
    List.Forall₂ Event.Same
      (script.history (Request.perform Store.native) (Store.fresh settings))
      (script.history (Request.perform Store.relayed) (Store.fresh settings)) ∧
    (outcome (script.run (Request.perform Store.native)) (Store.fresh settings)).1
      = (outcome (script.run (Request.perform Store.relayed)) (Store.fresh settings)).1 ∧
    Staging (outcome (script.run (Request.perform Store.native)) (Store.fresh settings)).2
      (outcome (script.run (Request.perform Store.relayed)) (Store.fresh settings)).2 := by
  have start : Twin settings (Store.fresh settings) (Store.fresh settings) :=
    ⟨rfl, Store.Sized.fresh settings, Staging.chains.refl _⟩
  obtain ⟨events, result, twin⟩ := history_alike (fun _ => Request.agree) script _ _ start fits
  exact ⟨events, result, twin.staging⟩

/-- A client that stores a note, gives another one up, and asks for the note of one byte. -/
def noteClient : Script (Request fun _ : Unit => Bytes) (Option Bytes) :=
  .call (.write () Table.noteTable (.put [1])) fun _ =>
  .unit (.call (.write () Table.noteTable (.put [2, 2])) fun _ =>
    .finish (.error .keyNotFound : Except Fault Unit)) fun _ =>
  .call (.lookup () (.get Scan.notesByLength (Scan.notesByLength.index.fullKey [0]))) .finish

theorem relayed_exact_notes :
    List.Forall₂ Event.Same
      (noteClient.history (Request.perform Store.native) (Store.fresh default))
      (noteClient.history (Request.perform Store.relayed) (Store.fresh default)) ∧
    (outcome (noteClient.run (Request.perform Store.native)) (Store.fresh default)).1
      = (outcome (noteClient.run (Request.perform Store.relayed)) (Store.fresh default)).1 := by
  have fits : ∀ note, (Table.checkLimits Store.native Table.noteTable note
      (Store.fresh default)).isOk → Table.noteTable.Fits default note :=
    fun _ passes => Table.fits_of_isOk passes
  have alike := relayed_exact default noteClient ?_
  · exact ⟨alike.1, alike.2.1⟩
  · unfold noteClient
    rw [history_call, history_unit, history_call, List.forall_mem_cons, List.forall_mem_append,
      List.forall_mem_cons]
    refine ⟨fits [1] (by decide +kernel), fun event mem => ?_, trivial, fun event mem => ?_⟩
    · split at mem
      · exact absurd mem List.not_mem_nil
      · obtain rfl := List.mem_singleton.mp mem
        exact fits [2, 2] (by decide +kernel)
    · obtain rfl := List.mem_singleton.mp mem
      exact trivial

end Script

end IndexedStore
