import IndexedStore.Proofs.KeyOrder
import IndexedStore.Proofs.Table.Draining
import Mathlib.Data.List.Nodup
/-!
# Records in the order of their keys

An index of a filed table lists the records in the order of their encoded keys, and encoded keys
sort as their values do. So a scan hands out all records in the NATURAL order of their keys, and a
range between two values holds the records with keys in between. Since encodings delimit themselves,
the same goes for a range between two values of the first part of a tuple.

* `View.Lists` says that records are listed by an index, `View.Lists.perm` that they are then all
  that are filed;
* `View.Leads` is what keys and first parts of keys have in common, and `View.Lists.range` what a
  range between two values of such a part reads;
* **`View.scans_sorted`** is the result.
-/

namespace IndexedStore

open IndexedStore.Action

variable {ρ : Type}

namespace View

variable {view : View ρ} {store : Store} {records : OrdMap Bytes ρ} {sorted : List ρ}

/-! ## 1. The records that an index lists -/

/-- Whether some records are those behind the keys of an index, in the order of the keys. -/
structure Lists (view : View ρ) (store : Store) (records : OrdMap Bytes ρ) (sorted : List ρ) :
    Prop where
  filed : ∀ record ∈ sorted, records.get? (view.table.recordKey record) = some record
  keys : sorted.map view.index.fullKey = store.keysOf view.table.scope view.placement.stem

/-- Behind some keys of an index are filed records. -/
theorem exists_filed (files : view.table.Files store records) {keys : List Bytes}
    (inside : ∀ key ∈ keys, key ∈ store.keysOf view.table.scope view.placement.stem) :
    ∃ sorted : List ρ, (∀ record ∈ sorted, records.get? (view.table.recordKey record) = some record)
      ∧ sorted.map view.index.fullKey = keys := by
  induction keys with
  | nil => exact ⟨[], fun _ mem => absurd mem List.not_mem_nil, rfl⟩
  | cons key rest ih =>
    obtain ⟨sorted, filed, listed⟩ := ih fun other mem => inside other (List.mem_cons_of_mem _ mem)
    obtain ⟨begins, stored⟩ := Store.mem_keysOf.mp (inside key List.mem_cons_self)
    obtain ⟨found, stored⟩ := Option.isSome_iff_exists.mp stored
    obtain ⟨record, here, own, _⟩ := live_of_entry files begins stored
    refine ⟨record :: sorted, fun other mem => ?_, by simp [own, listed]⟩
    rcases List.mem_cons.mp mem with same | later
    · exact same ▸ here
    · exact filed other later

/-- Filed records are known by their keys under an index. -/
theorem eq_of_map_fullKey (files : view.table.Files store records) {a : List ρ} : ∀ {b : List ρ},
    (∀ record ∈ a, records.get? (view.table.recordKey record) = some record) →
    (∀ record ∈ b, records.get? (view.table.recordKey record) = some record) →
    a.map view.index.fullKey = b.map view.index.fullKey → a = b := by
  induction a with
  | nil =>
    intro b _ _ same
    exact (List.map_eq_nil_iff.mp same.symm).symm
  | cons first as ih =>
    intro b filedA filedB same
    cases b with
    | nil => exact absurd same (by simp)
    | cons second bs =>
      obtain ⟨heads, tails⟩ := List.cons.inj same
      have one := eq_of_fullKey files (filedA first List.mem_cons_self)
        (filedB second List.mem_cons_self) heads
      have rest := ih (fun record mem => filedA record (List.mem_cons_of_mem _ mem))
        (fun record mem => filedB record (List.mem_cons_of_mem _ mem)) tails
      rw [one, rest]

namespace Lists

/-- **The listed records are all records**, each once. -/
theorem perm (lists : view.Lists store records sorted) (files : view.table.Files store records) :
    sorted.Perm (records.entries.map (·.2)) := by
  have nodup : sorted.Nodup := by
    refine List.Nodup.of_map view.index.fullKey ?_
    rw [lists.keys]
    exact (Store.ascending_keysOf ..).nodup
  have own : ∀ entry ∈ records.entries, view.table.recordKey entry.2 = entry.1 := fun entry mem =>
    files.own entry.1 entry.2 (OrdMap.get?_eq_some_iff.mpr mem)
  have nodup' : (records.entries.map (·.2)).Nodup := by
    refine List.Nodup.of_map view.table.recordKey ?_
    rw [List.map_map, List.map_congr_left (g := (·.1)) own]
    exact (List.pairwise_map.mpr records.ascending).nodup
  refine (List.perm_ext_iff_of_nodup nodup nodup').mpr fun record => ?_
  constructor
  · intro mem
    exact List.mem_map.mpr ⟨_, OrdMap.get?_eq_some_iff.mp (lists.filed record mem), rfl⟩
  · intro mem
    obtain ⟨entry, stored, rfl⟩ := List.mem_map.mp mem
    have filed : records.get? (view.table.recordKey entry.2) = some entry.2 := by
      rw [own entry stored]
      exact OrdMap.get?_eq_some_iff.mpr stored
    have begins : Bytes.startsWith (view.index.fullKey entry.2) view.placement.stem :=
      Placement.contains_iff.mpr ⟨_, rfl⟩
    have listed := Store.mem_keysOf.mpr ⟨begins, stored_of_filed files filed⟩
    rw [← lists.keys] at listed
    obtain ⟨other, here, same⟩ := List.mem_map.mp listed
    exact eq_of_fullKey files (lists.filed other here) filed same ▸ here

/-- Filed records whose keys are those of some of the listed ones are these. -/
theorem eq_filter (lists : view.Lists store records sorted)
    (files : view.table.Files store records) {wanted : Bytes → Bool} {items : List ρ}
    (filed : ∀ item ∈ items, records.get? (view.table.recordKey item) = some item)
    (keys : items.map view.index.fullKey
      = (store.keysOf view.table.scope view.placement.stem).filter wanted) :
    items = sorted.filter (wanted ∘ view.index.fullKey) := by
  refine eq_of_map_fullKey files filed
    (fun record mem => lists.filed record (List.mem_of_mem_filter mem)) ?_
  rw [keys, ← lists.keys, List.filter_map]

end Lists

/-! ## 2. Keys by their values -/

/-- Whether the keys of an index begin with the encodings of values of a type. -/
def Leads (view : View ρ) (type : KeyType) (part : ρ → type.Value) : Prop :=
  ∀ record, ∃ rest, (view.index.key record).encode = (type.key (part record)).encode ++ rest

/-- Whether an index is keyed by values of a type. -/
def KeyedBy (view : View ρ) (type : KeyType) (keyOf : ρ → type.Value) : Prop :=
  ∀ record, view.index.key record = type.key (keyOf record)

theorem KeyedBy.leads {type : KeyType} {keyOf : ρ → type.Value} (h : view.KeyedBy type keyOf) :
    view.Leads type keyOf :=
  fun record => ⟨[], by rw [h record, List.append_nil]⟩

/-- The encoding of a tuple begins with that of its first part. -/
theorem KeyedBy.leads_first {first : KeyType} {rest : List KeyType}
    {parts : ρ → KeyType.Values (first :: rest)} (h : view.KeyedBy (.tuple (first :: rest)) parts) :
    view.Leads first fun record => (parts record).1 :=
  fun record => ⟨KeyValue.encodeParts (KeyType.keys rest (parts record).2), by rw [h record]; rfl⟩

theorem stem_append_lt_iff {stem a b : Bytes} : stem ++ a < stem ++ b ↔ a < b := by
  constructor
  · intro below
    rcases Bytes.lt_or_eq_or_gt a b with less | same | more
    · exact less
    · exact absurd (same ▸ below) Std.lt_irrefl
    · exact absurd (Std.lt_trans below (List.append_left_lt more)) Std.lt_irrefl
  · exact List.append_left_lt

/-- A record's key is below that of a value exactly if the part that it begins with is. -/
theorem Leads.fullKey_lt_iff {type : KeyType} {part : ρ → type.Value}
    (h : view.Leads type part) (record : ρ) (value : type.Value) :
    view.index.fullKey record < view.placement.fullKey (type.key value).encode
      ↔ type.order (part record) value = .lt := by
  obtain ⟨rest, encoded⟩ := h record
  rw [← KeyType.append_lt_encode_iff type (part record) value rest, ← encoded]
  exact stem_append_lt_iff

/-! ## 3. Ranges and scans -/

/-- The records with parts from one value on and below another. -/
def between {type : KeyType} (part : ρ → type.Value) (lower upper : type.Value) (sorted : List ρ) :
    List ρ :=
  sorted.filter fun record =>
    type.order (part record) lower ≠ .lt ∧ type.order (part record) upper = .lt

/-- Nothing lies between a value and one that is not above it. -/
theorem between_eq_nil {type : KeyType} (part : ρ → type.Value) {lower upper : type.Value}
    (turned : type.order lower upper ≠ .lt) (sorted : List ρ) :
    between part lower upper sorted = [] := by
  refine List.filter_eq_nil_iff.mpr fun record _ inside => turned ?_
  obtain ⟨above, below⟩ := of_decide_eq_true inside
  simp only [← KeyType.order_encode, ne_eq, Bytes.order_eq_lt_iff] at above below ⊢
  exact Std.lt_of_le_of_lt (Std.not_lt.mp above) below

/-- What a range between two values of a part reads. Two slots for cursors must be free. -/
theorem Lists.range (lists : view.Lists store records sorted)
    (files : view.table.Files store records) (back : view.table.ReadsBack records)
    (free : store.cursors.size + 1 < store.settings.limits.maxCursors.toNat) {type : KeyType}
    {part : ρ → type.Value} (leads : view.Leads type part) (lower upper : type.Value) :
    (outcome (view.range Store.native (view.placement.fullKey (type.key lower).encode)
      (view.placement.fullKey (type.key upper).encode)) store).1
      = .ok (between part lower upper sorted) := by
  obtain ⟨items, answers, keys, filed⟩ := range_items files back free
    (view.placement.fullKey (type.key lower).encode)
    (view.placement.fullKey (type.key upper).encode)
  rw [answers, lists.eq_filter files filed keys]
  refine congrArg Except.ok (List.filter_congr fun record _ => ?_)
  simp only [Function.comp_apply, leads.fullKey_lt_iff, ne_eq]

/-- A span of a whole index holds all its keys. -/
theorem filter_whole (view : View ρ) (store : Store) :
    (store.keysOf view.table.scope view.placement.stem).filter (fun key =>
        ¬ key < Span.whole.lower view ∧ Scan.BelowStop Span.whole.upper? key)
      = store.keysOf view.table.scope view.placement.stem := by
  refine List.filter_eq_self.mpr fun key mem => decide_eq_true ⟨?_, fun _ => nofun⟩
  exact Bytes.not_lt_stem (Store.mem_keysOf.mp mem).1

/-- A scan over an index hands out all the listed records; one that hands out keys, all their
    keys. -/
theorem Lists.scan (lists : view.Lists store records sorted)
    (files : view.table.Files store records) (back : view.table.ReadsBack records)
    {scan : Scan ρ} {opened : Store}
    (opens : outcome (Span.whole.start Store.native view) store = (.ok scan, opened)) :
    (scan.all Store.native (Scan.readRecord Store.native) opened).1 = sorted.map .ok
      ∧ (scan.all Store.native (Scan.readKey Store.native) opened).1
        = sorted.map fun record => .ok (view.index.key record).encode := by
  have files' := files.of_shelves (waits_of_start opens).1
  obtain ⟨items, read, keys, intact⟩ := Scan.all_of_start reads_intact back files opens
  obtain ⟨items', read', keys', _⟩ := Scan.all_of_start reads_key back files opens
  rw [filter_whole, ← lists.keys] at keys keys'
  have same : items = sorted := eq_of_map_fullKey files
    (fun item mem => (intact item mem).filed files' back) lists.filed keys
  have same' : items' = sorted.map fun record => (view.index.key record).encode := by
    have injective : Function.Injective view.placement.fullKey :=
      fun _ _ => Placement.fullKey_inj
    refine List.map_injective_iff.mpr injective ?_
    rw [keys', List.map_map]
    rfl
  rw [read, read', same, same', List.map_map]
  exact ⟨rfl, rfl⟩

/-- An index of a filed table lists some records. -/
theorem exists_lists (view : View ρ) (files : view.table.Files store records) :
    ∃ sorted, view.Lists store records sorted := by
  obtain ⟨sorted, filed, keys⟩ := exists_filed files fun _ mem => mem
  exact ⟨sorted, filed, keys⟩

end View

/-- **The count of a table is that of its records.** A slot for a cursor must be free. -/
theorem Table.outcome_count {table : Table ρ} {store : Store} {records : OrdMap Bytes ρ}
    (files : table.Files store records) (back : table.ReadsBack records)
    (free : store.cursors.size < store.settings.limits.maxCursors.toNat) :
    (outcome (table.count Store.native) store).1 = .ok records.size := by
  obtain ⟨sorted, lists⟩ := table.primaryView.exists_lists files
  obtain ⟨scan, opened, opens⟩ := table.primaryView.opens_of_free .whole free
  obtain ⟨_, keys⟩ := lists.scan files back opens
  have counted : outcome (table.count Store.native) store
      = outcome (Action.ofExcept
          ((scan.all Store.native (Scan.readKey Store.native) opened).1.mapM id) >>= fun read =>
            return read.length)
          (scan.all Store.native (Scan.readKey Store.native) opened).2 := outcome_bind_ok opens
  have all_ok : (sorted.map fun record =>
        (.ok (table.primaryView.index.key record).encode : Except Fault Bytes)).mapM id
      = .ok (sorted.map fun record => (table.primaryView.index.key record).encode) := by
    rw [List.mapM_map]
    exact List.mapM_pure
  have size : sorted.length = records.size := by
    simpa [OrdMap.size] using (lists.perm files).length_eq
  rw [counted, keys, all_ok, ← size]
  show Except.ok (sorted.map _).length = Except.ok sorted.length
  rw [List.length_map]

/-! ## 4. The result -/

/-- Whether there are slots for some more cursors. -/
def Store.HasSlots (store : Store) (count : Nat) : Prop :=
  store.cursors.size + count ≤ store.settings.limits.maxCursors.toNat

instance (store : Store) (count : Nat) : Decidable (store.HasSlots count) :=
  inferInstanceAs (Decidable (_ ≤ _))

namespace View

variable {view : View ρ} {store : Store} {records : OrdMap Bytes ρ}

/-- Whether the scans over an index hand out exactly the given records, and their encoded keys. -/
def Enumerates (view : View ρ) (store : Store) (sorted : List ρ) : Prop :=
  ∃ scan opened, outcome (view.scan Store.native) store = (.ok scan, opened)
    ∧ (scan.all Store.native (Scan.readRecord Store.native) opened).1 = sorted.map .ok
    ∧ (scan.all Store.native (Scan.readKey Store.native) opened).1
      = sorted.map fun record => .ok (view.index.key record).encode

/-- Whether a range between two values reads exactly those of the given records whose part is from
    the lower value on and below the upper one, and nothing if the lower value is not below the
    upper one. The values are looked for as `probe` says. -/
def RangesOver (view : View ρ) (store : Store) (probe : KeyValue → Probe) (type : KeyType)
    (part : ρ → type.Value) (sorted : List ρ) : Prop :=
  ∀ lower upper : type.Value,
    let answer := (outcome (view.range Store.native (view.fullKey (probe (type.key lower)))
      (view.fullKey (probe (type.key upper)))) store).1
    answer = .ok (between part lower upper sorted)
      ∧ (type.order lower upper ≠ .lt → answer = .ok [])

theorem Lists.rangesOver {sorted : List ρ} (lists : view.Lists store records sorted)
    (files : view.table.Files store records) (back : view.table.ReadsBack records)
    (free : store.HasSlots 2) {probe : KeyValue → Probe}
    (same : ∀ value, view.fullKey (probe value) = view.placement.fullKey value.encode)
    {type : KeyType} {part : ρ → type.Value} (leads : view.Leads type part) :
    view.RangesOver store probe type part sorted := by
  intro lower upper
  have answer := lists.range files back free leads lower upper
  rw [← same, ← same] at answer
  refine ⟨answer, fun turned => ?_⟩
  rw [← between_eq_nil part turned sorted]
  exact answer

/-- **Scans and ranges go by the natural order of keys.** Take any index of a filed table whose
    payloads read back, and let it be keyed by values of a type. There is one list of all records,
    each once, in strictly ascending order of their keys as VALUES, which tells all readings. With a
    free slot for a cursor, scans over the index hand out these records and their encoded keys, and
    the table counts them. With two, the range between two values of the type holds the records with
    keys from the first value on and below the second; and if the keys are tuples, the range between
    two encoded values of their first parts goes by the first parts alone. -/
theorem scans_sorted (files : view.table.Files store records)
    (back : view.table.ReadsBack records) {type : KeyType} {keyOf : ρ → type.Value}
    (keyed : view.KeyedBy type keyOf) :
    ∃ sorted : List ρ, sorted.Perm (records.entries.map (·.2))
      ∧ sorted.Pairwise (fun a b => type.order (keyOf a) (keyOf b) = .lt)
      ∧ (store.HasSlots 1 → view.Enumerates store sorted
        ∧ (outcome (view.table.count Store.native) store).1 = .ok records.size)
      ∧ (store.HasSlots 2 → view.RangesOver store .value type keyOf sorted
        ∧ ∀ (first : KeyType) (rest : List KeyType) (parts : ρ → KeyType.Values (first :: rest)),
          view.KeyedBy (.tuple (first :: rest)) parts →
          view.RangesOver store (fun value => .encoded value.encode) first
            (fun record => (parts record).1) sorted) := by
  obtain ⟨sorted, lists⟩ := view.exists_lists files
  refine ⟨sorted, lists.perm files, ?_, fun free => ⟨?_, ?_⟩, fun free => ⟨?_, ?_⟩⟩
  · have ascending := Store.ascending_keysOf store view.table.scope view.placement.stem
    rw [← lists.keys] at ascending
    refine (List.pairwise_map.mp ascending).imp fun {a b} below => ?_
    exact (keyed.leads.fullKey_lt_iff a (keyOf b)).mp (keyed b ▸ below)
  · obtain ⟨scan, opened, opens⟩ := view.opens_of_free .whole free
    exact ⟨scan, opened, opens, lists.scan files back opens⟩
  · exact Table.outcome_count files back free
  · exact lists.rangesOver files back free (fun _ => rfl) keyed.leads
  · intro first rest parts keyed'
    exact lists.rangesOver files back free (fun _ => rfl) keyed'.leads_first

/-- Notes kept by their texts, and listed by their lengths first. -/
def listing : Schema Bytes where
  table := "listing"
  declarations := [
    ⟨"text", .primary, .bytes⟩,
    ⟨"length", .secondary,
      fun note => .tuple [.unsigned 8 (BitVec.ofNat 64 note.length), .bytes note]⟩]

/-- The listing as a table. -/
def listingTable : Table Bytes :=
  (listing.bind ⟨id, .ok⟩ ⟨7⟩ 0).toOption.get rfl

theorem bind_listing : listing.bind ⟨id, .ok⟩ ⟨7⟩ 0 = .ok listingTable := rfl

/-- The listed notes by their lengths and texts. -/
def byLengthAndText : View Bytes :=
  ⟨listingTable, ⟨1, by decide⟩⟩

/-- What a note leaves of a store and of what is filed there. -/
def listed (state : Store × OrdMap Bytes Bytes) (note : Bytes) : Store × OrdMap Bytes Bytes :=
  let ended := outcome (TableWrite.perform Store.native listingTable (.put note)) state.1
  (ended.2, TableWrite.edit listingTable (.put note) ended.1 state.2)

/-- A store with three notes, and the notes. -/
def threeNotes : Store × OrdMap Bytes Bytes :=
  [[2], [1, 1], [1]].foldl listed (Store.fresh default, .empty)

theorem files_listed {state : Store × OrdMap Bytes Bytes}
    (files : listingTable.Files state.1 state.2) (note : Bytes) :
    listingTable.Files (listed state note).1 (listed state note).2 :=
  TableWrite.files (fun _ => rfl) (Schema.apart_of_bind bind_listing) files (.put note)

theorem scans_sorted_notes : ∃ sorted : List Bytes, sorted.Perm [[1], [1, 1], [2]]
    ∧ byLengthAndText.Enumerates threeNotes.1 sorted
    ∧ byLengthAndText.RangesOver threeNotes.1 (fun value => .encoded value.encode) (.unsigned 8)
        (fun note => BitVec.ofNat 64 note.length) sorted := by
  have roundTrip : listingTable.format.RoundTrip := fun _ => rfl
  have empty : listingTable.Files (Store.fresh default) .empty := Table.Files.empty fun _ _ _ => rfl
  have files : byLengthAndText.table.Files threeNotes.1 threeNotes.2 :=
    files_listed (files_listed (files_listed empty [2]) [1, 1]) [1]
  have keyed : byLengthAndText.KeyedBy (.tuple [.unsigned 8, .bytes])
      (fun note => (BitVec.ofNat 64 note.length, note, ())) := fun _ => rfl
  have notes : threeNotes.2.entries.map (·.2) = [[1], [1, 1], [2]] := by decide +kernel
  have one : threeNotes.1.HasSlots 1 := by decide +kernel
  have two : threeNotes.1.HasSlots 2 := by decide +kernel
  obtain ⟨sorted, perm, _, scans, ranges⟩ :=
    scans_sorted files (Table.readsBack roundTrip threeNotes.2) keyed
  rw [notes] at perm
  have partly := (ranges two).2 (.unsigned 8) [.bytes]
    (fun note => (BitVec.ofNat 64 note.length, note, ())) keyed
  exact ⟨sorted, perm, (scans one).1, partly⟩

end View

end IndexedStore
