import IndexedStore.Proofs.Table.Comparing
import IndexedStore.Session.Unit
import Mathlib.Data.List.Nodup
/-!
# The tables of a session are told apart

Walks compare only if their tables go by one serial number. A session counts the tables that it binds
and gives each one the count so far, and nothing else that is done in it touches the tables. So no two
tables that are bound in a session go by the same number: also not if they are bound from one schema,
and also not if the first has lost its name to the second and only its walks are left.

* `Session.Spares` says that a computation leaves the tables alone; all that a session does but to bind
  a table is one (section 1);
* `Session.Course` is a stretch of a session with the tables bound on the way, `Session.Runs` says that
  a computation leads along one, and `Session.Program` are the computations that are put together from
  all that a session does, units of work included: **`Session.Program.runs`**;
* `Session.Course.numbers`: which numbers the tables bound go by, and which of them are kept;
* **`Session.Course.mismatch`**: walks over two of the tables are never compared, and
  **`Session.Program.mismatch`** says so of the tables that are kept in the end.
-/

namespace IndexedStore

open IndexedStore.Action

namespace Session

variable {α β : Type}

/-! ## 1. What leaves the tables alone -/

/-- Whether two sessions have the same tables, and have bound as many. -/
def SameTables (before after : Session) : Prop :=
  after.tables = before.tables ∧ after.tablesBound = before.tablesBound

theorem SameTables.chains : Chains SameTables where
  refl _ := ⟨rfl, rfl⟩
  trans first second := ⟨second.1.trans first.1, second.2.trans first.2⟩

/-- Whether a computation on a session leaves its tables alone. -/
def Spares (work : StateM Session α) : Prop :=
  ∀ session, SameTables session (work session).2

namespace Spares

variable {work : StateM Session α} {next : α → StateM Session β}

protected theorem pure (value : α) : Spares (pure value) :=
  fun session => SameTables.chains.refl session

protected theorem bind (first : Spares work) (second : ∀ value, Spares (next value)) :
    Spares (work >>= next) :=
  fun session => SameTables.chains.trans (first session) (second _ _)

theorem get_bind {next : Session → StateM Session β} (h : ∀ seen, Spares (next seen)) :
    Spares (get >>= next) :=
  fun session => h session session

protected theorem modify {change : Session → Session}
    (h : ∀ session, SameTables session (change session)) : Spares (modify change) :=
  h

/-- As part of an action. -/
theorem lift (h : Spares work) : Keeps SameTables (liftM work : Action Session α) :=
  h

end Spares

theorem spares_withStore (work : Backend Store → StateM Store α) : Spares (withStore work) :=
  fun _ => ⟨rfl, rfl⟩

theorem spares_onStore (action : Backend Store → Action Store α) :
    Keeps SameTables (onStore action) :=
  spares_withStore _

/-! ### Walks -/

theorem spares_dropWalk (slot : String) : Spares (dropWalk slot) := by
  refine Spares.get_bind fun seen => ?_
  cases seen.walks.get? slot with
  | none => exact .pure false
  | some old =>
    exact .bind (spares_withStore _) fun _ =>
      .bind (.modify fun _ => ⟨rfl, rfl⟩) fun _ => .pure true

theorem spares_keepWalk (slot : String) (kept : KeptWalk) : Spares (keepWalk slot kept) :=
  .bind (spares_dropWalk slot) fun _ => .modify fun _ => ⟨rfl, rfl⟩

theorem spares_moveWalk (slot : String) (kept : KeptWalk)
    (motion : Backend Store → Motion Store kept.kind.Record α) :
    Keeps SameTables (moveWalk slot kept motion) :=
  Spares.bind (spares_withStore _) fun _ => .bind (.modify fun _ => ⟨rfl, rfl⟩) fun _ => .pure _

/-! ### Scans -/

theorem spares_dropScan (slot : String) : Spares (dropScan slot) := by
  refine Spares.get_bind fun seen => ?_
  cases seen.scans.get? slot with
  | none => exact .pure false
  | some old =>
    exact .bind (spares_withStore _) fun _ =>
      .bind (.modify fun _ => ⟨rfl, rfl⟩) fun _ => .pure true

theorem spares_keepScan (slot : String) (kept : KeptScan) : Spares (keepScan slot kept) :=
  .bind (spares_dropScan slot) fun _ => .modify fun _ => ⟨rfl, rfl⟩

theorem spares_nextItem (slot : String) (kept : KeptScan) : Spares (nextItem slot kept) :=
  .bind (spares_withStore _) fun _ => .bind (.modify fun _ => ⟨rfl, rfl⟩) fun _ => .pure _

/-! ### Cursors -/

theorem spares_dropCursor (slot : String) : Spares (dropCursor slot) := by
  refine Spares.get_bind fun seen => ?_
  cases seen.cursors.get? slot with
  | none => exact .pure false
  | some old =>
    exact .bind (spares_withStore _) fun _ =>
      .bind (.modify fun _ => ⟨rfl, rfl⟩) fun _ => .pure true

theorem spares_keepCursor (slot : String) (scope : Name) (stem : Bytes) :
    Keeps SameTables (keepCursor slot scope stem) := by
  refine Keeps.bind SameTables.chains (spares_onStore _) fun id => ?_
  refine Keeps.bind SameTables.chains (spares_dropCursor slot).lift fun _ => ?_
  exact Keeps.bind SameTables.chains (fun _ => ⟨rfl, rfl⟩) fun _ => Keeps.pure SameTables.chains id

/-! ## 2. Stretches of a session -/

/-- What binding a table does: it keeps the table under the next number, or changes nothing. -/
theorem bindTable_cases (slot : String) (kind : RecordKind) (schema : Schema kind.Record)
    (tokens : List IndexToken) (scope : Name) (session : Session) :
    (∃ fault, outcome (bindTable slot kind schema tokens scope) session = (.error fault, session)) ∨
    ∃ kept, outcome (bindTable slot kind schema tokens scope) session
        = (.ok kept, { session with
            tables := session.tables.insert slot kept
            tablesBound := session.tablesBound + 1 })
      ∧ kept.table.serial = session.tablesBound := by
  have looked : outcome (bindTable slot kind schema tokens scope) session
      = outcome (Action.ofExcept (schema.bind kind.format scope session.tablesBound) >>= _)
          session := outcome_get_bind _ session
  cases answered : schema.bind kind.format scope session.tablesBound with
  | error fault =>
    rw [answered] at looked
    exact .inl ⟨fault, looked⟩
  | ok table =>
    rw [answered] at looked
    exact .inr ⟨⟨kind, table, tokens⟩, looked, Schema.serial_of_bind answered⟩

/-- A stretch of a session, with the tables that are bound on the way, each with its name, in order.
    Whatever else is done there leaves the tables alone. -/
inductive Course (before : Session) : List (String × KeptTable) → Session → Prop
  | idle : Course before [] before
  | spare {γ : Type} {work : StateM Session γ} {bound : List (String × KeptTable)}
    {session : Session} : Course before bound session → Spares work →
    Course before bound (work session).2
  | bind {slot : String} {kind : RecordKind} {schema : Schema kind.Record}
    {tokens : List IndexToken} {scope : Name} {kept : KeptTable}
    {bound : List (String × KeptTable)} {session after : Session} : Course before bound session →
    outcome (bindTable slot kind schema tokens scope) session = (.ok kept, after) →
    Course before (bound ++ [(slot, kept)]) after

/-- Two stretches make one. -/
theorem Course.trans {before middle after : Session} {bound bound' : List (String × KeptTable)}
    (first : Course before bound middle) (second : Course middle bound' after) :
    Course before (bound ++ bound') after := by
  induction second with
  | idle =>
    rw [List.append_nil]
    exact first
  | spare _ spares ih => exact ih.spare spares
  | bind _ binds ih =>
    rw [← List.append_assoc]
    exact ih.bind binds

/-- Whether a computation leads every session along a stretch. -/
def Runs (work : StateM Session α) : Prop :=
  ∀ session, ∃ bound, Course session bound (work session).2

namespace Runs

variable {work : StateM Session α} {next : α → StateM Session β}

theorem of_spares (h : Spares work) : Runs work :=
  fun _ => ⟨[], .spare .idle h⟩

protected theorem pure (value : α) : Runs (pure value) :=
  .of_spares (.pure value)

protected theorem bind (first : Runs work) (second : ∀ value, Runs (next value)) :
    Runs (work >>= next) := by
  intro session
  obtain ⟨bound, course⟩ := first session
  obtain ⟨bound', course'⟩ := second (work session).1 (work session).2
  exact ⟨bound ++ bound', course.trans course'⟩

end Runs

/-- **Binding a table is a stretch.** -/
theorem runs_bindTable (slot : String) (kind : RecordKind) (schema : Schema kind.Record)
    (tokens : List IndexToken) (scope : Name) :
    Runs (bindTable slot kind schema tokens scope).run := by
  intro session
  rcases bindTable_cases slot kind schema tokens scope session with
    ⟨fault, refused⟩ | ⟨kept, binds, _⟩
  · have same : ((bindTable slot kind schema tokens scope).run session).2 = session :=
      congrArg Prod.snd refused
    rw [same]
    exact ⟨[], .idle⟩
  · have after := congrArg Prod.snd binds
    exact ⟨[(slot, kept)], after ▸ .bind .idle binds⟩

theorem runs_runSteps {stopAtFault : Bool} {steps : List (Step α)}
    (runs : ∀ step ∈ steps, Runs step) : Runs (runSteps stopAtFault steps) := by
  induction steps with
  | nil => exact .pure ([], none)
  | cons step rest ih =>
    have later := ih fun other mem => runs other (List.mem_cons_of_mem _ mem)
    refine .bind (runs step List.mem_cons_self) fun told => ?_
    obtain ⟨answer, fault⟩ := told
    dsimp only
    split
    · exact .pure _
    · exact .bind later fun _ => .pure _

/-- **A unit of work is a stretch if its steps are**, however it ends. -/
theorem runs_inUnit {mode : UnitMode} {steps : List (Step α)} (runs : ∀ step ∈ steps, Runs step) :
    Runs (inUnit mode steps) := by
  refine .bind (.of_spares (spares_onStore _)) fun begun => ?_
  cases begun with
  | error fault => exact .pure _
  | ok _ =>
    refine .bind (runs_runSteps runs) fun told => ?_
    obtain ⟨answers, stopped⟩ := told
    dsimp only
    split
    · exact .bind (.of_spares (spares_withStore _)) fun _ => .pure _
    · exact .bind (.of_spares (spares_withStore _)) fun _ => .pure _

/-- The computations that are put together from what a session does, each thing done in view of the
    answers so far, and from units of work of such computations. Giving up a walk or a scan that has
    no name is work on the store alone, and so is an action of the store. -/
inductive Program : {γ : Type} → StateM Session γ → Prop
  | pure {γ : Type} (value : γ) : Program (pure value)
  | bind {γ δ : Type} {work : StateM Session γ} {next : γ → StateM Session δ} : Program work →
    (∀ value, Program (next value)) → Program (work >>= next)
  | withStore {γ : Type} (work : Backend Store → StateM Store γ) : Program (withStore work)
  | bindTable (slot : String) (kind : RecordKind) (schema : Schema kind.Record)
    (tokens : List IndexToken) (scope : Name) :
    Program (bindTable slot kind schema tokens scope).run
  | dropWalk (slot : String) : Program (dropWalk slot)
  | keepWalk (slot : String) (kept : KeptWalk) : Program (keepWalk slot kept)
  | moveWalk {γ : Type} (slot : String) (kept : KeptWalk)
    (motion : Backend Store → Motion Store kept.kind.Record γ) :
    Program (moveWalk slot kept motion).run
  | dropScan (slot : String) : Program (dropScan slot)
  | keepScan (slot : String) (kept : KeptScan) : Program (keepScan slot kept)
  | nextItem (slot : String) (kept : KeptScan) : Program (nextItem slot kept)
  | dropCursor (slot : String) : Program (dropCursor slot)
  | keepCursor (slot : String) (scope : Name) (stem : Bytes) :
    Program (keepCursor slot scope stem).run
  | inUnit {γ : Type} (mode : UnitMode) (steps : List (Step γ)) :
    (∀ step ∈ steps, Program step) → Program (inUnit mode steps)

/-- **Whatever is done in a session leads along a stretch.** -/
theorem Program.runs {work : StateM Session α} (program : Program work) : Runs work := by
  induction program with
  | pure value => exact .pure value
  | bind _ _ first second => exact first.bind second
  | withStore work => exact .of_spares (spares_withStore work)
  | bindTable slot kind schema tokens scope => exact runs_bindTable slot kind schema tokens scope
  | dropWalk slot => exact .of_spares (spares_dropWalk slot)
  | keepWalk slot kept => exact .of_spares (spares_keepWalk slot kept)
  | moveWalk slot kept motion => exact .of_spares (spares_moveWalk slot kept motion)
  | dropScan slot => exact .of_spares (spares_dropScan slot)
  | keepScan slot kept => exact .of_spares (spares_keepScan slot kept)
  | nextItem slot kept => exact .of_spares (spares_nextItem slot kept)
  | dropCursor slot => exact .of_spares (spares_dropCursor slot)
  | keepCursor slot scope stem => exact .of_spares (spares_keepCursor slot scope stem)
  | inUnit mode steps _ runs => exact runs_inUnit runs

/-! ## 3. Serial numbers -/

/-- How tables are numbered that are bound on the way from one session to another. -/
structure Numbers (before : Session) (bound : List (String × KeptTable)) (after : Session) :
    Prop where
  /-- They go by the numbers from the count on, in order. -/
  serials : bound.map (·.2.table.serial) = List.range' before.tablesBound bound.length
  count : after.tablesBound = before.tablesBound + bound.length
  /-- What is kept in the end was kept before or is one of them. -/
  kept : ∀ slot kept, after.tables.get? slot = some kept →
    before.tables.get? slot = some kept ∨ (slot, kept) ∈ bound

namespace Course

variable {before after : Session} {bound : List (String × KeptTable)}

/-- **Tables are numbered in the order in which they are bound.** The induction is on what is done. -/
theorem numbers (course : Course before bound after) : Numbers before bound after := by
  induction course with
  | idle => exact ⟨rfl, rfl, fun _ _ => .inl⟩
  | @spare _ work _ session _ spares ih =>
    obtain ⟨tables, count⟩ := spares session
    refine ⟨ih.serials, count.trans ih.count, fun slot kept here => ih.kept slot kept ?_⟩
    rw [← tables]
    exact here
  | @bind slot kind schema tokens scope kept bound session after _ binds ih =>
    rcases bindTable_cases slot kind schema tokens scope session with
      ⟨fault, refused⟩ | ⟨kept', binds', numbered⟩
    · exact nomatch congrArg Prod.fst (binds.symm.trans refused)
    cases binds.symm.trans binds'
    refine ⟨?_, ?_, fun other there found => ?_⟩
    · have last : kept.table.serial = before.tablesBound + bound.length := numbered.trans ih.count
      rw [List.map_append, ih.serials, List.length_append, List.length_singleton,
        List.range'_1_concat, ← last]
      rfl
    · rw [List.length_append, ← Nat.add_assoc, ← ih.count]
      rfl
    · have found : (session.tables.insert slot kept).get? other = some there := found
      rw [OrdMap.get?_insert] at found
      split at found
      · rename_i same
        cases found
        exact .inr (List.mem_append_right _ (same ▸ List.mem_singleton_self _))
      · exact (ih.kept other there found).imp_right (List.mem_append_left _)

/-- **No two tables go by one number.** -/
theorem nodup_serials (course : Course before bound after) :
    (bound.map (·.2.table.serial)).Nodup := by
  rw [course.numbers.serials]
  exact List.nodup_range'

/-- **Walks over two tables that are bound in a session never compare**, whichever is asked, and even
    if the tables are bound from one schema. -/
theorem mismatch (course : Course before bound after) : bound.Pairwise fun a b =>
    ∀ (first : Walk a.2.kind.Record) (second : Walk b.2.kind.Record),
      first.view.table = a.2.table → second.view.table = b.2.table →
      ∀ store, first.Mismatches store second ∧ second.Mismatches store first := by
  refine (List.pairwise_map.mp course.nodup_serials).imp ?_
  intro a b different first second own own' store
  rw [← own, ← own'] at different
  exact ⟨Walk.mismatches (.inl different) store, Walk.mismatches (.inl different.symm) store⟩

/-- Two tables of one schema, the second under the name of the first. -/
example :
    let people : Schema Person := ⟨"people", 1, [⟨"id", .primary, fun person => .uint64 person.id⟩]⟩
    let bothBound : Action Session (Nat × Nat) := do
      let first ← bindTable "people" .person people [] ⟨7⟩
      let second ← bindTable "people" .person people [] ⟨7⟩
      return (first.table.serial, second.table.serial)
    (outcome bothBound (fresh default .native)).1.toOption = some (0, 1) := by decide +kernel

end Course

/-- **Walks over two tables that a session keeps never compare**, whatever has been done in the
    session, units of work included. -/
theorem Program.mismatch {work : StateM Session α} (program : Program work) (settings : Settings)
    (access : Access) {slot slot' : String} {kept kept' : KeptTable}
    (here : (work (fresh settings access)).2.tables.get? slot = some kept)
    (there : (work (fresh settings access)).2.tables.get? slot' = some kept') (apart : slot ≠ slot')
    (first : Walk kept.kind.Record) (second : Walk kept'.kind.Record)
    (own : first.view.table = kept.table) (own' : second.view.table = kept'.table)
    (store : Store) : first.Mismatches store second := by
  obtain ⟨bound, course⟩ := program.runs (fresh settings access)
  have mem : ∀ {slot kept}, (work (fresh settings access)).2.tables.get? slot = some kept →
      (slot, kept) ∈ bound := fun {slot kept} found =>
    (course.numbers.kept slot kept found).resolve_left nofun
  refine Walk.mismatches (.inl fun same => apart ?_) store
  rw [own, own'] at same
  exact congrArg Prod.fst
    (List.inj_on_of_nodup_map course.nodup_serials (mem here) (mem there) same)

end Session

end IndexedStore
