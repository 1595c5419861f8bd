/-!
# Ordered maps

A finite map kept as the list of its entries in strictly ascending order of their keys. The list
IS the view: what a map holds is what its list holds, and no second order exists.

* `OrdMap.get?`, `OrdMap.erase`, `OrdMap.insert` look up, drop and store one key, with the laws
  `get?_erase` and `get?_insert`;
* `OrdMap.Range` is a range of keys, and `OrdMap.range?` the entries there. A range that stops before
  it begins is REFUSED.
-/

namespace IndexedStore

/-- A finite map from `κ` to `ν`: its entries, each key once, smallest key first. -/
structure OrdMap (κ ν : Type) [LT κ] where
  entries : List (κ × ν)
  ascending : entries.Pairwise fun a b => a.1 < b.1
  deriving DecidableEq

namespace OrdMap

variable {κ ν : Type} [LT κ]

/-- The map without entries. -/
def empty : OrdMap κ ν :=
  ⟨[], .nil⟩

instance : Inhabited (OrdMap κ ν) := ⟨empty⟩

/-- The count of entries. -/
def size (map : OrdMap κ ν) : Nat :=
  map.entries.length

/-! ## 1. Looking up and dropping -/

section Lookup

variable [DecidableEq κ]

/-- The value at `key`. -/
def get? (map : OrdMap κ ν) (key : κ) : Option ν :=
  (map.entries.find? fun entry => entry.1 = key).map (·.2)

/-- Whether the map has an entry at `key`. -/
def contains (map : OrdMap κ ν) (key : κ) : Bool :=
  (map.get? key).isSome

/-- The map without the entry at `key`. -/
def erase (map : OrdMap κ ν) (key : κ) : OrdMap κ ν :=
  ⟨map.entries.filter fun entry => entry.1 ≠ key, map.ascending.filter _⟩

@[simp] theorem get?_empty (key : κ) : (empty : OrdMap κ ν).get? key = none := rfl

@[simp] theorem get?_erase (map : OrdMap κ ν) (key other : κ) :
    (map.erase key).get? other = if other = key then none else map.get? other := by
  simp only [get?, erase, List.find?_filter]
  split
  · rename_i h
    subst h
    simp
  · rename_i h
    congr 2
    funext entry
    by_cases same : entry.1 = other
    · simp [same, h]
    · simp [same]

end Lookup

/-! ## 2. Ranges -/

/-- An end of a range of keys. -/
inductive Bound (κ : Type) where
  /-- The range has no end on this side. -/
  | unbounded
  /-- The range ends with a key. -/
  | included (key : κ)
  /-- The range ends next to a key. -/
  | excluded (key : κ)
  deriving DecidableEq, Repr

/-- A range of keys: where it begins and where it stops. -/
structure Range (κ : Type) where
  lower : Bound κ
  upper : Bound κ
  deriving DecidableEq, Repr

/-- Whether a key is on the inner side of the end where a range begins. -/
def Bound.Before (bound : Bound κ) (key : κ) : Prop :=
  match bound with
  | .unbounded => True
  | .included first => ¬ key < first
  | .excluded first => first < key

/-- Whether a key is on the inner side of the end where a range stops. -/
def Bound.Beyond (bound : Bound κ) (key : κ) : Prop :=
  match bound with
  | .unbounded => True
  | .included last => ¬ last < key
  | .excluded last => key < last

/-- Whether a key is in a range. -/
def Range.Contains (range : Range κ) (key : κ) : Prop :=
  range.lower.Before key ∧ range.upper.Beyond key

/-- Whether a range stops before it begins, or begins and stops next to one and the same key. -/
def Range.Inverted (range : Range κ) : Prop :=
  match range.lower, range.upper with
  | .unbounded, _ | _, .unbounded => False
  | .excluded first, .excluded last => last < first ∨ first = last
  | .included first, .included last | .included first, .excluded last
  | .excluded first, .included last => last < first

section Ranges

variable [DecidableLT κ]

instance (bound : Bound κ) (key : κ) : Decidable (bound.Before key) :=
  match bound with
  | .unbounded => isTrue trivial
  | .included first => inferInstanceAs (Decidable (¬ key < first))
  | .excluded first => inferInstanceAs (Decidable (first < key))

instance (bound : Bound κ) (key : κ) : Decidable (bound.Beyond key) :=
  match bound with
  | .unbounded => isTrue trivial
  | .included last => inferInstanceAs (Decidable (¬ last < key))
  | .excluded last => inferInstanceAs (Decidable (key < last))

instance (range : Range κ) (key : κ) : Decidable (range.Contains key) :=
  inferInstanceAs (Decidable (_ ∧ _))

variable [DecidableEq κ]

instance : (range : Range κ) → Decidable range.Inverted
  | ⟨.unbounded, _⟩ => isFalse id
  | ⟨.included _, .unbounded⟩ | ⟨.excluded _, .unbounded⟩ => isFalse id
  | ⟨.excluded first, .excluded last⟩ => inferInstanceAs (Decidable (last < first ∨ first = last))
  | ⟨.included first, .included last⟩ => inferInstanceAs (Decidable (last < first))
  | ⟨.included first, .excluded last⟩ => inferInstanceAs (Decidable (last < first))
  | ⟨.excluded first, .included last⟩ => inferInstanceAs (Decidable (last < first))

/-- The entries whose keys are in a range, smallest key first. An inverted range is refused. -/
def range? (map : OrdMap κ ν) (range : Range κ) : Option (List (κ × ν)) :=
  if range.Inverted then none
  else some (map.entries.filter fun entry => range.Contains entry.1)

theorem range?_of_not_inverted (map : OrdMap κ ν) {range : Range κ} (upright : ¬ range.Inverted) :
    map.range? range = some (map.entries.filter fun entry => range.Contains entry.1) :=
  if_neg upright

end Ranges

/-! ## 3. Storing -/

section Insertion

variable [DecidableLT κ]

/-- Puts an entry at its place in an ascending list, instead of the one with its key. -/
def insertEntry (key : κ) (value : ν) : List (κ × ν) → List (κ × ν)
  | [] => [(key, value)]
  | head :: rest =>
    if key < head.1 then (key, value) :: head :: rest
    else if head.1 < key then head :: insertEntry key value rest
    else (key, value) :: rest

theorem mem_insertEntry {key : κ} {value : ν} {entry : κ × ν} {list : List (κ × ν)}
    (h : entry ∈ insertEntry key value list) : entry = (key, value) ∨ entry ∈ list := by
  induction list with
  | nil => simpa [insertEntry] using h
  | cons head rest ih =>
    unfold insertEntry at h
    split at h
    · simpa using h
    · split at h
      · rcases List.mem_cons.1 h with h | h
        · exact .inr (h ▸ List.mem_cons_self)
        · exact (ih h).imp_right (List.mem_cons_of_mem _)
      · rcases List.mem_cons.1 h with h | h
        · exact .inl h
        · exact .inr (List.mem_cons_of_mem _ h)

variable [LE κ] [Std.IsLinearOrder κ] [Std.LawfulOrderLT κ]

omit [DecidableLT κ] in
/-- Of two keys neither of which is below the other, both are one. -/
theorem eq_of_not_lt {a b : κ} (ab : ¬ a < b) (ba : ¬ b < a) : a = b :=
  Std.Trichotomous.trichotomous (r := (· < ·)) a b ab ba

theorem insertEntry_ascending (key : κ) (value : ν) {list : List (κ × ν)}
    (h : list.Pairwise fun a b => a.1 < b.1) :
    (insertEntry key value list).Pairwise fun a b => a.1 < b.1 := by
  induction list with
  | nil => simp [insertEntry]
  | cons head rest ih =>
    obtain ⟨below, tail⟩ := List.pairwise_cons.1 h
    unfold insertEntry
    split
    · rename_i first
      refine List.pairwise_cons.2 ⟨fun entry mem => ?_, h⟩
      rcases List.mem_cons.1 mem with mem | mem
      · exact mem ▸ first
      · exact Std.lt_trans first (below entry mem)
    · rename_i first
      split
      · rename_i later
        refine List.pairwise_cons.2 ⟨fun entry mem => ?_, ih tail⟩
        rcases mem_insertEntry mem with mem | mem
        · exact mem ▸ later
        · exact below entry mem
      · rename_i later
        exact List.pairwise_cons.2
          ⟨fun entry mem => eq_of_not_lt first later ▸ below entry mem, tail⟩

/-- The map with `value` at `key`, whatever was there. -/
def insert (map : OrdMap κ ν) (key : κ) (value : ν) : OrdMap κ ν :=
  ⟨insertEntry key value map.entries, insertEntry_ascending key value map.ascending⟩

/-- The map that a list of pairs spells. Of two pairs with one key the later one stays. -/
def ofList (pairs : List (κ × ν)) : OrdMap κ ν :=
  pairs.foldl (fun map pair => map.insert pair.1 pair.2) empty

theorem get?_insert [DecidableEq κ] (map : OrdMap κ ν) (key other : κ) (value : ν) :
    (map.insert key value).get? other = if other = key then some value else map.get? other := by
  obtain ⟨list, ascending⟩ := map
  simp only [get?, insert]
  induction list with
  | nil =>
    by_cases h : other = key
    · simp [insertEntry, h]
    · simp [insertEntry, h, Ne.symm h]
  | cons head rest ih =>
    unfold insertEntry
    split
    · by_cases h : other = key
      · simp [h]
      · simp [h, Ne.symm h]
    · rename_i first
      split
      · rename_i later
        by_cases h : head.1 = other
        · have distinct : other ≠ key := fun same => Std.lt_irrefl (h ▸ same ▸ later)
          simp [h, distinct]
        · simpa [h] using ih ascending.of_cons
      · rename_i later
        have same : key = head.1 := eq_of_not_lt first later
        by_cases h : other = key
        · simp [h]
        · have distinct : ¬ head.1 = other := fun eq => h (eq ▸ same.symm)
          simp [h, distinct, Ne.symm h]

end Insertion

end OrdMap

end IndexedStore
