import IndexedStore.Proofs.ByteOrder
import IndexedStore.Proofs.OrderedMap
import IndexedStore.Store.Cursors
/-!
# Where cursors move to

A cursor that moves forwards comes to the LEAST stored key with its stem that lies where it looks,
and one that moves backwards to the GREATEST, or to the end if there is none. The keys with a stem are
an interval, so the first key behind the cursor, or the last one before it, tells whether there is one.

* `Store.not_inverted_rangeBefore` and `Store.not_inverted_rangeOf`: the shelf does not refuse the
  ranges that a backward move asks for. One that is open above, as a forward move asks for, it never
  refuses;
* `Store.Least` and `Store.Greatest` say what a position is the least or greatest of;
* `Store.least_firstFrom` and `Store.least_firstAfter` are the two forward moves;
* `Store.greatest_lastBefore` and `Store.greatest_lastOf` are the two backward moves.
-/

namespace IndexedStore.Store

/-- Whether a position is the least stored key with a stem that has a property, or the end if there
    is no such key. -/
def Least (store : Store) (scope : Name) (stem : Bytes) (wanted : Bytes → Prop) :
    Position → Prop
  | .ended => ∀ key, Bytes.startsWith key stem → (store.find? scope key).isSome → ¬ wanted key
  | .onKey found => Bytes.startsWith found stem ∧ (store.find? scope found).isSome ∧ wanted found
    ∧ ∀ key, Bytes.startsWith key stem → (store.find? scope key).isSome → wanted key →
      ¬ key < found

/-- Whether a position is the greatest stored key with a stem that has a property, or the end if
    there is no such key. -/
def Greatest (store : Store) (scope : Name) (stem : Bytes) (wanted : Bytes → Prop) :
    Position → Prop
  | .ended => ∀ key, Bytes.startsWith key stem → (store.find? scope key).isSome → ¬ wanted key
  | .onKey found => Bytes.startsWith found stem ∧ (store.find? scope found).isSome ∧ wanted found
    ∧ ∀ key, Bytes.startsWith key stem → (store.find? scope key).isSome → wanted key →
      ¬ found < key

variable {store : Store} {scope : Name} {stem : Bytes}

/-! ## 1. Ranges -/

/-- A range that is open above is not inverted, wherever it begins. -/
theorem not_inverted_rangeFrom (stem key : Bytes) : ¬ (rangeFrom stem key).Inverted :=
  id

theorem not_inverted_rangeAfter (key : Bytes) : ¬ (rangeAfter key).Inverted :=
  id

/-- The keys below a key with the stem begin at the stem, be that key the stem itself. -/
theorem not_inverted_rangeBefore {stem key : Bytes} (begins : Bytes.startsWith key stem) :
    ¬ (rangeBefore stem key).Inverted :=
  Bytes.not_lt_stem begins

/-- A stem is below its successor. -/
theorem not_inverted_rangeOf (stem : Bytes) : ¬ (rangeOf stem).Inverted := by
  unfold rangeOf OrdMap.Range.Inverted
  cases found : Bytes.successor? stem with
  | none => exact id
  | some above => exact (Bytes.succeeds_of_successor? found).not_lt

/-! ## 2. Forwards -/

/-- A search of a range that begins at the stem or later finds the least key with the stem there. -/
theorem least_search {range : OrdMap.Range Bytes} (upright : ¬ range.Inverted)
    (from_stem : ∀ key, range.Contains key → ¬ key < stem) :
    Least store scope stem range.Contains (store.search scope stem range List.head?) := by
  unfold search
  rw [OrdMap.range?_of_not_inverted _ upright, Option.bind_some, List.head?_filter]
  cases search : (store.shelf scope).entries.find? fun entry => range.Contains entry.1 with
  | none =>
    intro key _ stored holds
    have missing := OrdMap.find?_keys_eq_none (p := fun key => range.Contains key) search stored
    exact missing (decide_eq_true holds)
  | some found =>
    obtain ⟨here, entry⟩ := found
    obtain ⟨stored, holds, least⟩ :=
      OrdMap.find?_keys_eq_some (p := fun key => range.Contains key) search
    have holds := of_decide_eq_true holds
    unfold within
    dsimp only
    by_cases inside : Bytes.startsWith here stem
    · rw [if_pos inside]
      refine ⟨inside, Option.isSome_iff_exists.mpr ⟨entry, stored⟩, holds, ?_⟩
      exact fun key _ stored' holds' => least key stored' (decide_eq_true holds')
    · rw [if_neg inside]
      -- A key with the stem would lie above the one found, and that one in the stem's interval.
      intro key begins stored' holds'
      exact inside (Bytes.startsWith_of_between (from_stem here holds)
        (least key stored' (decide_eq_true holds')) begins)

/-- A stored key with the property is at or behind the least one. -/
theorem Least.not_lt {wanted : Bytes → Prop} {position : Position}
    (h : Least store scope stem wanted position) {key : Bytes} (begins : Bytes.startsWith key stem)
    (stored : (store.find? scope key).isSome) (holds : wanted key) :
    ∃ found, position = .onKey found ∧ ¬ key < found := by
  cases position with
  | ended => exact absurd holds (h key begins stored)
  | onKey found => exact ⟨found, rfl, h.2.2.2 key begins stored holds⟩

/-- A stored key is the least one that is wanted if it is wanted, and none below it is. -/
theorem Least.eq_onKey {wanted : Bytes → Prop} {position : Position}
    (h : Least store scope stem wanted position) {key : Bytes} (begins : Bytes.startsWith key stem)
    (stored : (store.find? scope key).isSome) (holds : wanted key)
    (first : ∀ other, wanted other → ¬ other < key) : position = .onKey key := by
  obtain ⟨found, rfl, notAbove⟩ := h.not_lt begins stored holds
  exact congrArg Position.onKey (OrdMap.eq_of_not_lt (first found h.2.2.1) notAbove)

/-- What is the least of a property is so of any that agrees with it on the stored keys with the
    stem. -/
theorem Least.congr {wanted wanted' : Bytes → Prop} {position : Position}
    (h : Least store scope stem wanted position)
    (same : ∀ key, Bytes.startsWith key stem → (store.find? scope key).isSome →
      (wanted key ↔ wanted' key)) :
    Least store scope stem wanted' position := by
  cases position with
  | ended =>
    exact fun key begins stored holds => h key begins stored ((same key begins stored).mpr holds)
  | onKey found =>
    obtain ⟨begins, stored, holds, least⟩ := h
    refine ⟨begins, stored, (same found begins stored).mp holds, ?_⟩
    intro key begins' stored' holds'
    exact least key begins' stored' ((same key begins' stored').mpr holds')

/-- The first key with the stem that is not below a given one. -/
theorem least_firstFrom (store : Store) (scope : Name) (stem key : Bytes) :
    Least store scope stem (fun other => ¬ other < key) (store.firstFrom scope stem key) := by
  have from_stem : ∀ other, (rangeFrom stem key).Contains other → ¬ other < stem := by
    rintro other ⟨(above : ¬ other < if key < stem then stem else key), -⟩ below
    split at above
    · exact above below
    · rename_i not_below
      exact above (Std.lt_of_lt_of_le below (Std.not_lt.mp not_below))
  refine (least_search (not_inverted_rangeFrom stem key) from_stem).congr fun other begins _ => ?_
  show (¬ other < if key < stem then stem else key) ∧ True ↔ _
  rw [and_true]
  split
  · rename_i below
    have above := Bytes.not_lt_stem begins
    exact ⟨fun _ lt => above (Std.lt_trans lt below), fun _ => above⟩
  · exact Iff.rfl

/-- The first key with the stem above a given one. -/
theorem least_firstAfter (store : Store) (scope : Name) {stem key : Bytes}
    (begins : Bytes.startsWith key stem) :
    Least store scope stem (fun other => key < other) (store.firstAfter scope stem key) := by
  have from_stem : ∀ other, (rangeAfter key).Contains other → ¬ other < stem := by
    rintro other ⟨above, -⟩ below
    exact Bytes.not_lt_stem begins (Std.lt_trans above below)
  exact (least_search (not_inverted_rangeAfter key) from_stem).congr
    fun other _ _ => and_iff_left trivial

/-! ## 3. Backwards -/

/-- What is the greatest of a property is so of any that agrees with it on the stored keys with the
    stem. -/
theorem Greatest.congr {wanted wanted' : Bytes → Prop} {position : Position}
    (h : Greatest store scope stem wanted position)
    (same : ∀ key, Bytes.startsWith key stem → (wanted key ↔ wanted' key)) :
    Greatest store scope stem wanted' position := by
  cases position with
  | ended => exact fun key begins stored holds => h key begins stored ((same key begins).mpr holds)
  | onKey found =>
    obtain ⟨begins, stored, holds, greatest⟩ := h
    refine ⟨begins, stored, (same found begins).mp holds, ?_⟩
    intro key begins' stored' holds'
    exact greatest key begins' stored' ((same key begins').mpr holds')

/-- A search from the end of a range of keys with the stem finds the greatest of them. -/
theorem greatest_search {range : OrdMap.Range Bytes} (upright : ¬ range.Inverted)
    (to_stem : ∀ key, range.Contains key → Bytes.startsWith key stem) :
    Greatest store scope stem range.Contains (store.search scope stem range List.getLast?) := by
  unfold search
  rw [OrdMap.range?_of_not_inverted _ upright, Option.bind_some]
  cases search :
    ((store.shelf scope).entries.filter fun entry => range.Contains entry.1).getLast? with
  | none =>
    intro key _ stored holds
    have missing := OrdMap.last_keys_eq_none (p := fun key => range.Contains key) search stored
    exact missing (decide_eq_true holds)
  | some found =>
    obtain ⟨here, entry⟩ := found
    obtain ⟨stored, holds, greatest⟩ :=
      OrdMap.last_keys_eq_some (p := fun key => range.Contains key) search
    have holds := of_decide_eq_true holds
    have inside := to_stem here holds
    unfold within
    dsimp only
    rw [if_pos inside]
    refine ⟨inside, Option.isSome_iff_exists.mpr ⟨entry, stored⟩, holds, ?_⟩
    exact fun key _ stored' holds' => greatest key stored' (decide_eq_true holds')

/-- The last key with the stem below a given one with the stem. -/
theorem greatest_lastBefore (store : Store) (scope : Name) {stem key : Bytes}
    (begins : Bytes.startsWith key stem) :
    Greatest store scope stem (fun other => other < key) (store.lastBefore scope stem key) := by
  have to_stem : ∀ other, (rangeBefore stem key).Contains other → Bytes.startsWith other stem := by
    rintro other ⟨from_stem, below⟩
    exact Bytes.startsWith_of_between from_stem (Std.not_gt_of_lt below) begins
  refine (greatest_search (not_inverted_rangeBefore begins) to_stem).congr fun other begins => ?_
  exact and_iff_right (Bytes.not_lt_stem begins)

/-- What the range of a stem contains are the keys with the stem. -/
theorem contains_rangeOf {stem key : Bytes} :
    (rangeOf stem).Contains key ↔ Bytes.startsWith key stem := by
  rw [Bytes.startsWith_iff_between]
  refine and_congr_right fun _ => ?_
  unfold rangeOf OrdMap.Bound.Beyond
  cases Bytes.successor? stem with
  | none => exact ⟨fun _ => nofun, fun _ => trivial⟩
  | some above => exact ⟨fun below _ same => Option.some.inj same ▸ below, fun h => h above rfl⟩

/-- The last key with the stem. -/
theorem greatest_lastOf (store : Store) (scope : Name) (stem : Bytes) :
    Greatest store scope stem (fun _ => True) (store.lastOf scope stem) :=
  (greatest_search (not_inverted_rangeOf stem) fun _ => contains_rangeOf.mp).congr
    fun _ begins => iff_true_intro (contains_rangeOf.mpr begins)

end IndexedStore.Store
