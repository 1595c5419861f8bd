import IndexedStore.Proofs.Payload.Thrift
import IndexedStore.Proofs.Table.Acceptance
import Mathlib.Logic.Basic
/-!
# Records that are too large

A put checks sizes before it looks at anything. What it means to find out is whether the store would
REFUSE one of the entries that the record takes, and in a table with a secondary index that is what
it does find out. A table without one never stores a primary key as a value, and has this size
checked all the same: there a put refuses records that the store has room for.

* `Table.takes` are the entries of a record, `Store.Refuses` says that the store does not take an
  entry for its size;
* `Table.fits_iff` relates the checks of a put to the two;
* **`Table.oversize_exact`** is the result.

A record that is read is never too large to be written back: its payload is no longer than the one
that it was read from (**`RecordKind.pack_shortest`**).
-/

namespace IndexedStore

open IndexedStore.Action

variable {ρ : Type}

/-- Whether a store refuses an entry of a scope, a key and a value, for its size. -/
def Store.Refuses (store : Store) (scope : Name) (entry : Bytes × Bytes) : Prop :=
  ∃ fault, outcome (Store.write scope entry.1 entry.2 scope) store = (.error (.limit fault), store)

/-- A store refuses keys and values above its limits. -/
theorem Store.refuses_iff {store : Store} {scope : Name} {entry : Bytes × Bytes} :
    store.Refuses scope entry ↔ store.settings.limits.maxKeySize.toNat < entry.1.length
      ∨ store.settings.limits.maxValueSize.toNat < entry.2.length := by
  unfold Refuses
  rw [outcome_write]
  by_cases longKey : store.settings.limits.maxKeySize.toNat < entry.1.length
  · rw [if_pos longKey]
    exact ⟨fun _ => .inl longKey, fun _ => ⟨_, rfl⟩⟩
  · rw [if_neg longKey]
    by_cases longValue : store.settings.limits.maxValueSize.toNat < entry.2.length
    · rw [if_pos longValue]
      exact ⟨fun _ => .inr longValue, fun _ => ⟨_, rfl⟩⟩
    · rw [if_neg longValue]
      refine ⟨fun ⟨_, same⟩ => (nomatch congrArg Prod.fst same), fun long => ?_⟩
      exact absurd long (not_or.mpr ⟨longKey, longValue⟩)

namespace Table

variable {table : Table ρ} {store : Store} {records : OrdMap Bytes ρ} {record : ρ}

/-! ## 1. The entries of a record -/

/-- The entries that a record takes: under each secondary index its primary key, and under the
    primary one its payload. -/
def takes (table : Table ρ) (record : ρ) : List (Bytes × Bytes) :=
  table.secondaries.map (fun index => (index.fullKey record, table.primaryKey record))
    ++ [(table.primaryKey record, table.format.pack record)]

theorem primary_mem_takes (table : Table ρ) (record : ρ) :
    (table.primaryKey record, table.format.pack record) ∈ table.takes record :=
  List.mem_append_right _ List.mem_cons_self

theorem forall_takes {P : Bytes × Bytes → Prop} :
    (∀ entry ∈ table.takes record, P entry) ↔
      (∀ index ∈ table.secondaries, P (index.fullKey record, table.primaryKey record))
        ∧ P (table.primaryKey record, table.format.pack record) := by
  unfold takes
  rw [List.forall_mem_append, List.forall_mem_map, List.forall_mem_singleton]

/-- A record fits if the store refuses none of its entries, and its primary key is not too long as a
    value. -/
theorem fits_iff : table.Fits store.settings record ↔
    (∀ entry ∈ table.takes record, ¬ store.Refuses table.scope entry)
      ∧ (table.primaryKey record).length ≤ store.settings.limits.maxValueSize.toNat := by
  rw [forall_takes]
  simp only [Store.refuses_iff, not_or, Nat.not_lt]
  constructor
  · rintro ⟨key, payload, pointer, secondary⟩
    exact ⟨⟨fun index mem => ⟨secondary index mem, pointer⟩, key, payload⟩, pointer⟩
  · rintro ⟨⟨secondary, key, payload⟩, pointer⟩
    exact ⟨key, payload, pointer, fun index mem => (secondary index mem).1⟩

/-- A secondary entry has the primary key as its value. -/
theorem pointer_le (some : table.secondaries ≠ [])
    (taken : ∀ entry ∈ table.takes record, ¬ store.Refuses table.scope entry) :
    (table.primaryKey record).length ≤ store.settings.limits.maxValueSize.toNat := by
  obtain ⟨index, mem⟩ := List.exists_mem_of_ne_nil _ some
  have entry := (forall_takes.mp taken).1 index mem
  rw [Store.refuses_iff, not_or, Nat.not_lt, Nat.not_lt] at entry
  exact entry.2

/-! ## 2. The checks -/

/-- Whether a check passes, or fails for a limit. -/
def IsLimitCheck (check : Except Fault Unit) : Prop :=
  check = .ok () ∨ ∃ fault, check = .error (.limit fault)

namespace IsLimitCheck

theorem checkSize (fault : (size limit : Nat) → LimitFault) (size : Nat) (limit : Option Nat) :
    IsLimitCheck (Table.checkSize fault size limit) := by
  unfold Table.checkSize
  cases limit with
  | none => exact .inl rfl
  | some limit =>
    dsimp only
    split
    · exact .inr ⟨_, rfl⟩
    · exact .inl rfl

/-- Checks in sequence end as the first that fails. -/
theorem bind {first next : Except Fault Unit} (here : IsLimitCheck first)
    (later : IsLimitCheck next) : IsLimitCheck (first >>= fun _ => next) := by
  rcases here with rfl | ⟨fault, rfl⟩
  · exact later
  · exact .inr ⟨fault, rfl⟩

theorem forM {γ : Type} {check : γ → Except Fault Unit} (each : ∀ item, IsLimitCheck (check item))
    (list : List γ) : IsLimitCheck (list.forM check) := by
  induction list with
  | nil => exact .inl rfl
  | cons head rest ih => exact bind (each head) ih

/-- The checks of a put are all for limits. -/
theorem checkLimits : IsLimitCheck (Table.checkLimits Store.native table record store) :=
  bind (checkSize ..) (bind (checkSize ..) (bind (checkSize ..) (forM (fun _ => checkSize ..) _)))

end IsLimitCheck

/-- The plan for a record that fits faults for taken keys alone. -/
theorem decided_ne_limit (files : table.Files store records) (back : table.ReadsBack records)
    (fits : table.Fits store.settings record) (fault : LimitFault) :
    table.decided store record ≠ .error (.limit fault) := by
  rw [files.decided back fits]
  cases table.firstTaken? records record with
  | none => exact nofun
  | some index =>
    cases records.get? (table.recordKey record) with
    | none => exact nofun
    | some _ => exact nofun

/-- **A put refuses a record for its size exactly if the record does not fit.** -/
theorem put_limit_iff (files : table.Files store records) (back : table.ReadsBack records) :
    (∃ fault, (outcome (table.put Store.native record) store).1 = .error (.limit fault)) ↔
      ¬ table.Fits store.settings record := by
  constructor
  · rintro ⟨fault, refused⟩ fits
    rcases outcome_put table store record with ⟨cause, found, ends⟩ | ⟨_, _, _, ends⟩
    · rw [ends] at refused
      rw [Except.error.inj refused] at found
      exact decided_ne_limit files back fits fault found
    · rw [ends] at refused
      exact nomatch refused
  · intro large
    rcases IsLimitCheck.checkLimits with passed | ⟨fault, failed⟩
    · exact absurd (checkLimits_native.mp passed) large
    · have decided : table.decided store record = .error (.limit fault) := by
        unfold Table.decided
        rw [failed]
        rfl
      rcases outcome_put table store record with ⟨cause, found, ends⟩ | ⟨_, _, found, _⟩
      · cases found.symm.trans decided
        exact ⟨fault, congrArg Prod.fst ends⟩
      · exact nomatch found.symm.trans decided

/-! ## 3. The result -/

/-- **Which records a put refuses for their size**, in a store that files a map of records. It
    refuses a record if the store would refuse one of the entries that the record takes, or if the
    primary key is too long as a value; and it has done nothing then. In a table with a secondary
    index, or if the primary key is not that long, only the entries count: a record is refused
    exactly if one of its entries would be. -/
theorem oversize_exact (files : table.Files store records) (back : table.ReadsBack records)
    (record : ρ) :
    ((∃ fault, (outcome (table.put Store.native record) store).1 = .error (.limit fault)) ↔
      (∃ entry ∈ table.takes record, store.Refuses table.scope entry)
        ∨ store.settings.limits.maxValueSize.toNat < (table.primaryKey record).length) ∧
    (table.secondaries ≠ [] ∨
        (table.primaryKey record).length ≤ store.settings.limits.maxValueSize.toNat →
      ((∃ fault, (outcome (table.put Store.native record) store).1 = .error (.limit fault)) ↔
        ∃ entry ∈ table.takes record, store.Refuses table.scope entry)) ∧
    ∀ fault after, outcome (table.put Store.native record) store = (.error (.limit fault), after) →
      after = store := by
  have large : ¬ table.Fits store.settings record ↔
      (∃ entry ∈ table.takes record, store.Refuses table.scope entry)
        ∨ store.settings.limits.maxValueSize.toNat < (table.primaryKey record).length := by
    rw [fits_iff, Classical.not_and_iff_not_or_not, Nat.not_le]
    simp only [not_forall, Classical.not_not, exists_prop]
  refine ⟨(put_limit_iff files back).trans large, fun covered => ?_, fun fault after refused => ?_⟩
  · refine ((put_limit_iff files back).trans large).trans ⟨fun cause => ?_, .inl⟩
    refine Classical.byContradiction fun none => ?_
    have taken : ∀ entry ∈ table.takes record, ¬ store.Refuses table.scope entry :=
      fun entry mem refuses => none ⟨entry, mem, refuses⟩
    exact Nat.not_lt.mpr (covered.elim (pointer_le · taken) id) (cause.resolve_left none)
  · rcases outcome_put table store record with ⟨_, _, ends⟩ | ⟨_, _, _, ends⟩
    · rw [ends] at refused
      exact (congrArg Prod.snd refused).symm
    · rw [ends] at refused
      exact nomatch congrArg Prod.fst refused

/-- A store for small entries. -/
def smallStore : Store :=
  Store.fresh { limits := { maxKeySize := 64, maxValueSize := 30 } }

/-- The store with one note. -/
def smallNotes : Store :=
  (outcome (TableWrite.perform Store.native noteTable (.put [1])) smallStore).2

/-- The note, under its primary key. -/
def smallRecords : OrdMap Bytes Bytes :=
  TableWrite.edit noteTable (.put [1])
    (outcome (TableWrite.perform Store.native noteTable (.put [1])) smallStore).1 .empty

/-- A note of two bytes is not refused for its size, and one of forty bytes is. -/
theorem oversize_exact_notes :
    (∃ fault, (outcome (noteTable.put Store.native (.replicate 40 1)) smallNotes).1
      = .error (.limit fault)) ∧
    ¬ ∃ fault, (outcome (noteTable.put Store.native [1, 1]) smallNotes).1
      = .error (.limit fault) := by
  have roundTrip : noteTable.format.RoundTrip := fun _ => rfl
  have apart := Schema.apart_of_bind bind_notes
  have files : noteTable.Files smallNotes smallRecords :=
    TableWrite.files roundTrip apart (Files.empty fun _ _ _ => rfl) (.put [1])
  have law := oversize_exact files (readsBack roundTrip _)
  have some : noteTable.secondaries ≠ [] := by decide +kernel
  have limits : smallNotes.settings.limits = { maxKeySize := 64, maxValueSize := 30 } := by
    decide +kernel
  refine ⟨((law _).2.1 (.inl some)).mpr ?_, fun refused => ?_⟩
  · have large : (64 : UInt32).toNat < (noteTable.primaryKey (.replicate 40 1)).length
        ∨ (30 : UInt32).toNat < (noteTable.format.pack (.replicate 40 1)).length := by
      decide +kernel
    refine ⟨_, primary_mem_takes noteTable _, Store.refuses_iff.mpr ?_⟩
    rw [limits]
    exact large
  · obtain ⟨entry, mem, refuses⟩ := ((law _).2.1 (.inl some)).mp refused
    have small : ∀ entry ∈ noteTable.takes [1, 1],
        ¬ ((64 : UInt32).toNat < entry.1.length ∨ (30 : UInt32).toNat < entry.2.length) := by
      decide +kernel
    have sizes := Store.refuses_iff.mp refuses
    rw [limits] at sizes
    exact small entry mem sizes

/-! ## 4. A table without secondary indices -/

/-- Notes that are indexed by their text alone. -/
def plainNotes : Schema Bytes where
  table := "notes"
  declarations := [⟨"text", .primary, .bytes⟩]

/-- Such notes as a table. -/
def plainNoteTable : Table Bytes :=
  (plainNotes.bind ⟨id, .ok⟩ ⟨7⟩ 0).toOption.get rfl

/-- **Room that is not used**: in a table without secondary indices a put refuses a note for its
    size, though the store refuses none of its entries. -/
theorem oversize_inexact :
    let store := Store.fresh { limits := { maxKeySize := 64, maxValueSize := 16 } }
    plainNoteTable.Files store .empty ∧ plainNoteTable.ReadsBack .empty ∧
    (outcome (plainNoteTable.put Store.native [1]) store).1 = .error (.limit (.value 20 16)) ∧
    ¬ ∃ entry ∈ plainNoteTable.takes [1], store.Refuses plainNoteTable.scope entry := by
  refine ⟨Files.empty fun _ _ _ => rfl, nofun, by decide +kernel, ?_⟩
  rintro ⟨entry, mem, refuses⟩
  have small : ∀ entry ∈ plainNoteTable.takes [1],
      ¬ (64 < entry.1.length ∨ 16 < entry.2.length) := by
    decide +kernel
  exact small entry mem (Store.refuses_iff.mp refuses)

end Table

/-! ## 5. Records that are written back -/

namespace RecordKind

/-- **The payload of a record is a shortest one**: none that the record is read from is shorter,
    however it spells its numbers, its names and its maps. The record is read from it again, and a
    store that has not refused the other payload for its size does not refuse it. -/
theorem pack_shortest (kind : RecordKind) {payload : Bytes} {record : kind.Record}
    (read : kind.format.unpack payload = .ok record) :
    (kind.format.pack record).length ≤ payload.length ∧
    kind.format.unpack (kind.format.pack record) = .ok record ∧
    ∀ (store : Store) (scope : Name) (key : Bytes), ¬ store.Refuses scope (key, payload) →
      ¬ store.Refuses scope (key, kind.format.pack record) := by
  obtain ⟨countable, small⟩ := kind.size_le_of_unpack read
  have framed := kind.framed record countable
  rw [framed.sized] at small
  refine ⟨small, framed.reads, fun store scope key taken refused => taken ?_⟩
  rw [Store.refuses_iff] at refused ⊢
  exact refused.imp_right fun long => Nat.lt_of_lt_of_le long small

/-- A payload of an item, with a tag, a number and counts in wide forms, a dot at the end of a name,
    and two entries for one key. -/
def looseItem : Bytes :=
  [251, 0, 0] ++ [0, 252, 8, 0, 0, 0, 0, 0, 0, 0, 0, 0, 0, 0] ++ List.replicate 12 0
    ++ [0, 65, 0, 251, 1, 0, 255, 0, 0, 0, 0, 2, 97, 46, 0]
    ++ [252, 2, 0, 0, 0, 1, 98, 7, 1, 98, 8]

/-- The item that is read from it. -/
def looseItemRead : Item where
  n16 := 4
  ch := 'A'
  blob := [255]
  tag := ⟨0x3000000000000000⟩
  map := OrdMap.ofList [("b", 8)]

theorem pack_shortest_looseItem :
    RecordKind.item.format.unpack looseItem = .ok looseItemRead ∧
    (RecordKind.item.format.pack looseItemRead).length ≤ looseItem.length := by
  have known : (Item.format.unpack looseItem).toOption = some looseItemRead := by decide +kernel
  have read : RecordKind.item.format.unpack looseItem = .ok looseItemRead := ok_of_toOption known
  exact ⟨read, (pack_shortest .item read).1⟩

end RecordKind

end IndexedStore
