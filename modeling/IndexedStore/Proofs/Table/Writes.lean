import IndexedStore.Proofs.Table.Filing
/-!
# The writes of a table

The three ways to write to a table as DATA, with what each does to the map of records that the table
files: a put that succeeds stores its record, an erasing drops one, a failure changes nothing.

* `TableWrite` is a write, `TableWrite.perform` makes it and `TableWrite.edit` is its effect on the
  records;
* `TableWrite.files` is that the store then files the edited map;
* `TableWrite.keepsIn`: a write is put together from reads, writes and erasings of the backend in the
  table's scope, each write at that scope's expense, and so keeps what they keep;
* `TableWrite.keeps` is the same from what all reads, writes and erasings keep.
-/

namespace IndexedStore

open IndexedStore.Action

variable {σ ρ β : Type}

/-- A write to a table of records of type `ρ`; `TableWrite ρ β` answers with a `β`. -/
inductive TableWrite (ρ : Type) : Type → Type where
  | put (record : ρ) : TableWrite ρ Table.PutReport
  | erase (record : ρ) : TableWrite ρ Bool
  | eraseByKey (key : KeyValue) : TableWrite ρ Bool

namespace TableWrite

/-- Makes a write. -/
def perform (backend : Backend σ) (table : Table ρ) : TableWrite ρ β → Action σ β
  | put record => table.put backend record
  | erase record => table.erase backend record
  | eraseByKey key => table.eraseByKey backend key

/-- The records after a write that ended with `answer`. -/
def edit (table : Table ρ) : TableWrite ρ β → Except Fault β → OrdMap Bytes ρ → OrdMap Bytes ρ
  | put record, .ok _, records => records.insert (table.recordKey record) record
  | erase record, .ok _, records => records.erase (table.recordKey record)
  | eraseByKey key, .ok _, records => records.erase key.encode
  | _, .error _, records => records

/-! ## 1. Records -/

variable {table : Table ρ} {store : Store} {records : OrdMap Bytes ρ}

/-- **After a write the store files the edited records.** -/
theorem files (roundTrip : table.format.RoundTrip) (apart : table.Apart)
    (h : table.Files store records) (write : TableWrite ρ β) :
    table.Files (outcome (write.perform Store.native table) store).2
      (write.edit table (outcome (write.perform Store.native table) store).1 records) := by
  have back := Table.readsBack roundTrip records
  cases write with
  | put record =>
    unfold perform
    rcases h.put back apart record with ⟨fault, fails⟩ | ⟨report, after, stored, files⟩
    · rw [fails]
      exact h
    · rw [stored]
      exact files
  | erase record =>
    obtain ⟨after, dropped, files⟩ := h.eraseAt back apart (table.recordKey record)
    have ends : outcome (perform Store.native table (erase record)) store = _ := dropped
    rw [ends]
    exact files
  | eraseByKey key =>
    obtain ⟨after, dropped, files⟩ := h.eraseAt back apart key.encode
    have ends : outcome (perform Store.native table (eraseByKey key)) store = _ := dropped
    rw [ends]
    exact files

end TableWrite

/-! ## 2. What writes keep -/

/-- Whether reading, writing and erasing through a backend keep a relation. -/
structure Backend.Keeps (backend : Backend σ) (R : σ → σ → Prop) : Prop where
  chains : Chains R
  read : ∀ scope key, (backend.read scope key).Keeps R
  write : ∀ scope key value payer, (backend.write scope key value payer).Keeps R
  erase : ∀ scope key, (backend.erase scope key).Keeps R

/-- Whether reading, writing and erasing in one scope keep a relation, where the scope itself is
    billed for what is written. -/
structure Backend.KeepsIn (backend : Backend σ) (scope : Name) (R : σ → σ → Prop) : Prop where
  chains : Chains R
  read : ∀ key, (backend.read scope key).Keeps R
  write : ∀ key value, (backend.write scope key value scope).Keeps R
  erase : ∀ key, (backend.erase scope key).Keeps R

theorem Backend.Keeps.keepsIn {backend : Backend σ} {R : σ → σ → Prop} (keeps : backend.Keeps R)
    (scope : Name) : backend.KeepsIn scope R where
  chains := keeps.chains
  read := keeps.read scope
  write key value := keeps.write scope key value scope
  erase := keeps.erase scope

section Keeping

variable {R : σ → σ → Prop} {backend : Backend σ}

theorem Table.keeps_stored {table : Table ρ} (keeps : backend.KeepsIn table.scope R) (key : Bytes) :
    (table.stored backend key).Keeps R := by
  refine Keeps.bind keeps.chains (keeps.read _) fun found => ?_
  cases found with
  | none => exact Keeps.pure keeps.chains none
  | some payload =>
    exact Keeps.bind keeps.chains (Keeps.ofExcept keeps.chains _) fun _ =>
      Keeps.pure keeps.chains _

theorem Table.keeps_decideStep {table : Table ρ} (keeps : backend.KeepsIn table.scope R) (record : ρ)
    (old : Option ρ) (index : Index ρ) : (table.decideStep backend record old index).Keeps R := by
  refine Keeps.bind keeps.chains (keeps.read _) fun found => ?_
  cases old with
  | none =>
    cases found with
    | none => exact Keeps.pure keeps.chains _
    | some _ => exact Keeps.throw keeps.chains _
  | some held =>
    cases found with
    | none => exact Keeps.pure keeps.chains _
    | some pointer =>
      dsimp only
      split
      · exact Keeps.pure keeps.chains _
      · exact Keeps.throw keeps.chains _

theorem Table.keeps_plan {table : Table ρ} (keeps : backend.KeepsIn table.scope R) (record : ρ) :
    (table.plan backend record).Keeps R := by
  refine Keeps.get_bind fun seen => Keeps.bind keeps.chains (Keeps.ofExcept keeps.chains _) fun _ =>
    Keeps.bind keeps.chains (keeps_stored keeps _) fun old => ?_
  refine Keeps.bind keeps.chains (Keeps.mapM keeps.chains _ fun index _ => ?_) fun _ =>
    Keeps.pure keeps.chains _
  exact Keeps.bind keeps.chains (keeps_decideStep keeps record old index) fun _ =>
    Keeps.pure keeps.chains _

theorem Table.keeps_writeSecondary {table : Table ρ} (keeps : backend.KeepsIn table.scope R) (record : ρ)
    (step : Index ρ × Table.SecondaryStep) :
    (table.writeSecondary backend record step).Keeps R := by
  have write := Keeps.bind keeps.chains
    (keeps.write (step.1.fullKey record) (table.primaryKey record))
    fun _ => Keeps.pure keeps.chains ()
  unfold Table.writeSecondary
  cases step.2 with
  | keep => exact Keeps.pure keeps.chains ()
  | insert => exact write
  | move old => exact Keeps.bind keeps.chains (keeps.erase old) fun _ => write

theorem Table.keeps_put {table : Table ρ} (keeps : backend.KeepsIn table.scope R) (record : ρ) :
    (table.put backend record).Keeps R := by
  refine Keeps.bind keeps.chains (keeps_plan keeps record) fun plan => ?_
  refine Keeps.bind keeps.chains
    (Keeps.forM keeps.chains _ fun step _ => keeps_writeSecondary keeps record step) fun _ => ?_
  exact Keeps.bind keeps.chains (keeps.write _ _) fun _ => Keeps.pure keeps.chains _

theorem Table.keeps_eraseAt {table : Table ρ} (keeps : backend.KeepsIn table.scope R) (key : Bytes) :
    (table.eraseAt backend key).Keeps R := by
  refine Keeps.bind keeps.chains (keeps_stored keeps key) fun found => ?_
  cases found with
  | none => exact Keeps.pure keeps.chains false
  | some old =>
    refine Keeps.bind keeps.chains (Keeps.forM keeps.chains _ fun index _ => ?_) fun _ =>
      Keeps.bind keeps.chains (keeps.erase _) fun _ => Keeps.pure keeps.chains true
    exact Keeps.bind keeps.chains (keeps.erase _) fun _ => Keeps.pure keeps.chains ()

/-- **A write keeps what its backend keeps in the table's scope.** -/
theorem TableWrite.keepsIn {table : Table ρ} (keeps : backend.KeepsIn table.scope R)
    (write : TableWrite ρ β) : (write.perform backend table).Keeps R := by
  cases write with
  | put record => exact Table.keeps_put keeps record
  | erase record => exact Table.keeps_eraseAt keeps _
  | eraseByKey key => exact Table.keeps_eraseAt keeps _

/-- A write keeps what its backend keeps. -/
theorem TableWrite.keeps (keeps : backend.Keeps R) (table : Table ρ) (write : TableWrite ρ β) :
    (write.perform backend table).Keeps R :=
  write.keepsIn (keeps.keepsIn table.scope)

end Keeping

/-! ## 3. A table of notes -/

namespace Table

/-- Notes are bytes, kept as they are and indexed by their lengths too. -/
def notes : Schema Bytes where
  table := "notes"
  declarations := [
    ⟨"length", .secondary, fun note => .unsigned 8 (BitVec.ofNat 64 note.length)⟩,
    ⟨"text", .primary, .bytes⟩]

/-- The notes as a table. -/
def noteTable : Table Bytes :=
  (notes.bind ⟨id, .ok⟩ ⟨7⟩ 0).toOption.get rfl

theorem bind_notes : notes.bind ⟨id, .ok⟩ ⟨7⟩ 0 = .ok noteTable := rfl

end Table

end IndexedStore
