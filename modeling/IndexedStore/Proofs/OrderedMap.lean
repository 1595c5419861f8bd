import IndexedStore.OrdMap
import Mathlib.Algebra.Ring.Int.Defs
import Mathlib.Data.List.Perm.Subperm
/-!
# The theory of ordered maps

An ordered map is known by its look-ups: two maps that answer alike are ONE map, because the list
of entries is sorted and so has no freedom left.

* `OrdMap.get?_eq_some_iff` reads a look-up as membership in the list of entries;
* `OrdMap.find?_keys_eq_some`, `OrdMap.find?_keys_eq_none` say what a search by keys finds: the
  LEAST key with the property, or that there is none; `OrdMap.last_keys_eq_some` and
  `OrdMap.last_keys_eq_none` say so of a search from the end and the GREATEST key;
* `OrdMap.ext_get?` is extensionality, and `OrdMap.size_insert` counts what is stored;
  `OrdMap.ofList_entries` builds a map again from its entries, and `OrdMap.entries_ofList_subperm`
  says that a map has no entries but those of the list it is built from;
* `OrdMap.total` sums up what each entry weighs. Storing and dropping move it by the weights of the
  entries that come and go (`OrdMap.total_insert`, `OrdMap.total_erase`).
-/

namespace IndexedStore.OrdMap

variable {κ ν : Type} [LT κ] [DecidableEq κ]

/-! ## 1. Look-ups and entries -/

theorem contains_iff {map : OrdMap κ ν} {key : κ} :
    map.contains key ↔ ∃ value, map.get? key = some value :=
  Option.isSome_iff_exists

theorem get?_erase_of_ne (map : OrdMap κ ν) {key other : κ} (h : other ≠ key) :
    (map.erase key).get? other = map.get? other := by
  rw [get?_erase, if_neg h]

theorem get?_erase_eq_some_iff {map : OrdMap κ ν} {key other : κ} {value : ν} :
    (map.erase key).get? other = some value ↔ other ≠ key ∧ map.get? other = some value := by
  rw [get?_erase]
  by_cases here : other = key
  · rw [if_pos here]
    exact ⟨nofun, fun h => absurd here h.1⟩
  · rw [if_neg here]
    exact ⟨fun h => ⟨here, h⟩, And.right⟩

variable [LE κ] [Std.LawfulOrderLT κ]

omit [DecidableEq κ] in
/-- An ascending list has each key once. -/
theorem eq_of_key_eq {list : List (κ × ν)} (ascending : list.Pairwise fun a b => a.1 < b.1)
    {a b : κ × ν} (ha : a ∈ list) (hb : b ∈ list) (same : a.1 = b.1) : a = b := by
  induction list with
  | nil => exact absurd ha List.not_mem_nil
  | cons head rest ih =>
    obtain ⟨below, tail⟩ := List.pairwise_cons.mp ascending
    rcases List.mem_cons.mp ha with firstA | restA <;>
      rcases List.mem_cons.mp hb with firstB | restB
    · rw [firstA, firstB]
    · exact absurd (same ▸ firstA ▸ below b restB) Std.lt_irrefl
    · exact absurd (same ▸ firstB ▸ below a restA) Std.lt_irrefl
    · exact ih tail restA restB

theorem get?_eq_some_iff {map : OrdMap κ ν} {key : κ} {value : ν} :
    map.get? key = some value ↔ (key, value) ∈ map.entries := by
  unfold get?
  constructor
  · intro h
    obtain ⟨entry, found, rfl⟩ := Option.map_eq_some_iff.mp h
    have here : entry.1 = key := by simpa using List.find?_some found
    subst here
    exact List.mem_of_find?_eq_some found
  · intro mem
    cases found : map.entries.find? fun entry => entry.1 = key with
    | none =>
      have none := List.find?_eq_none.mp found (key, value) mem
      simp at none
    | some entry =>
      have here : entry.1 = key := by simpa using List.find?_some found
      have same := eq_of_key_eq map.ascending (List.mem_of_find?_eq_some found) mem here
      rw [same]
      rfl

/-! ## 2. Searching by keys -/

/-- A search by keys finds the least key with the property. -/
theorem find?_keys_eq_some {map : OrdMap κ ν} {p : κ → Bool} {key : κ} {value : ν}
    (h : map.entries.find? (fun entry => p entry.1) = some (key, value)) :
    map.get? key = some value ∧ p key ∧
      ∀ other, map.contains other → p other → ¬ other < key := by
  obtain ⟨holds, before, behind, split, passed⟩ := List.find?_eq_some_iff_append.mp h
  refine ⟨get?_eq_some_iff.mpr (List.mem_of_find?_eq_some h), holds, fun other stored here => ?_⟩
  obtain ⟨found, stored⟩ := contains_iff.mp stored
  have mem := get?_eq_some_iff.mp stored
  have ascending := map.ascending
  rw [split] at mem ascending
  rcases List.mem_append.mp mem with mem | mem
  · have skipped := passed (other, found) mem
    simp [here] at skipped
  · rcases List.mem_cons.mp mem with same | mem
    · cases same
      exact Std.lt_irrefl
    · have later := (List.pairwise_cons.mp (List.pairwise_append.mp ascending).2.1).1 _ mem
      exact Std.not_gt_of_lt later

/-- A search by keys that finds nothing says that no key has the property. -/
theorem find?_keys_eq_none {map : OrdMap κ ν} {p : κ → Bool}
    (h : map.entries.find? (fun entry => p entry.1) = none) {key : κ} (stored : map.contains key) :
    ¬ p key := by
  obtain ⟨value, stored⟩ := contains_iff.mp stored
  exact List.find?_eq_none.mp h (key, value) (get?_eq_some_iff.mp stored)

/-- A search by keys from the end finds the greatest key with the property. -/
theorem last_keys_eq_some {map : OrdMap κ ν} {p : κ → Bool} {key : κ} {value : ν}
    (h : (map.entries.filter fun entry => p entry.1).getLast? = some (key, value)) :
    map.get? key = some value ∧ p key ∧
      ∀ other, map.contains other → p other → ¬ key < other := by
  obtain ⟨before, split⟩ := List.getLast?_eq_some_iff.mp h
  have mem : (key, value) ∈ map.entries.filter fun entry => p entry.1 := by
    rw [split]
    exact List.mem_append_right _ List.mem_cons_self
  obtain ⟨stored, holds⟩ := List.mem_filter.mp mem
  refine ⟨get?_eq_some_iff.mpr stored, holds, fun other stored' here above => ?_⟩
  obtain ⟨found, stored'⟩ := contains_iff.mp stored'
  have mem' : (other, found) ∈ before ++ [(key, value)] :=
    split ▸ List.mem_filter.mpr ⟨get?_eq_some_iff.mp stored', here⟩
  have ascending := map.ascending.filter fun entry => p entry.1
  rw [split] at ascending
  rcases List.mem_append.mp mem' with earlier | last
  · have below := (List.pairwise_append.mp ascending).2.2 _ earlier _ List.mem_cons_self
    exact Std.not_gt_of_lt below above
  · cases List.mem_singleton.mp last
    exact Std.lt_irrefl above

/-- A search by keys from the end that finds nothing says that no key has the property. -/
theorem last_keys_eq_none {map : OrdMap κ ν} {p : κ → Bool}
    (h : (map.entries.filter fun entry => p entry.1).getLast? = none) {key : κ}
    (stored : map.contains key) : ¬ p key := by
  obtain ⟨value, stored⟩ := contains_iff.mp stored
  exact List.filter_eq_nil_iff.mp (List.getLast?_eq_none_iff.mp h) (key, value)
    (get?_eq_some_iff.mp stored)

/-! ## 3. Extensionality -/

omit [DecidableEq κ] [LE κ] [Std.LawfulOrderLT κ] in
theorem ext_entries {a b : OrdMap κ ν} (same : a.entries = b.entries) : a = b := by
  cases a
  cases b
  cases same
  rfl

variable [Std.IsLinearOrder κ]

/-- **Extensionality**: maps that answer every look-up alike are one map. -/
theorem ext_get? {a b : OrdMap κ ν} (h : ∀ key, a.get? key = b.get? key) : a = b := by
  have members : ∀ entry, entry ∈ a.entries ↔ entry ∈ b.entries := by
    rintro ⟨key, value⟩
    rw [← get?_eq_some_iff, ← get?_eq_some_iff, h]
  have nodup : ∀ map : OrdMap κ ν, map.entries.Nodup := fun map => by
    refine List.Pairwise.imp ?_ map.ascending
    intro x y below same
    exact Std.lt_irrefl (same ▸ below)
  have perm : a.entries.Perm b.entries :=
    (List.perm_ext_iff_of_nodup (nodup a) (nodup b)).mpr members
  have lists : a.entries = b.entries := by
    refine List.Perm.eq_of_pairwise (fun x y _ _ xy yx => ?_) a.ascending b.ascending perm
    exact absurd (Std.lt_trans xy yx) Std.lt_irrefl
  exact ext_entries lists

/-- Dropping a key that is not there changes nothing. -/
theorem erase_of_get?_eq_none {map : OrdMap κ ν} {key : κ} (free : map.get? key = none) :
    map.erase key = map := by
  refine ext_get? fun other => ?_
  rw [get?_erase]
  by_cases here : other = key
  · rw [if_pos here, here, free]
  · rw [if_neg here]

/-! ## 4. Storing -/

variable [DecidableLT κ]

@[simp] theorem get?_insert_self (map : OrdMap κ ν) (key : κ) (value : ν) :
    (map.insert key value).get? key = some value := by
  rw [get?_insert, if_pos rfl]

theorem get?_insert_of_ne (map : OrdMap κ ν) {key other : κ} (h : other ≠ key) (value : ν) :
    (map.insert key value).get? other = map.get? other := by
  rw [get?_insert, if_neg h]

/-- Storing makes the map longer by one if the key is new, and else not. -/
theorem size_insert (map : OrdMap κ ν) (key : κ) (value : ν) :
    (map.insert key value).size = map.size + if map.contains key then 0 else 1 := by
  obtain ⟨list, ascending⟩ := map
  simp only [size, insert, contains, get?, Option.isSome_map, List.find?_isSome]
  induction list with
  | nil => simp [insertEntry]
  | cons head rest ih =>
    obtain ⟨first, tail⟩ := List.pairwise_cons.mp ascending
    unfold insertEntry
    split
    · rename_i below
      have new : ¬ ∃ entry ∈ head :: rest, decide (entry.1 = key) = true := by
        rintro ⟨entry, mem, here⟩
        have here := of_decide_eq_true here
        rcases List.mem_cons.mp mem with same | later
        · exact Std.lt_irrefl (here ▸ same ▸ below)
        · exact Std.lt_irrefl (Std.lt_trans below (here ▸ first entry later))
      rw [if_neg new]
      rfl
    · rename_i notBelow
      split
      · rename_i above
        have apart : ¬ head.1 = key := fun same => Std.lt_irrefl (same ▸ above)
        simp only [List.length_cons, ih tail, List.mem_cons, exists_eq_or_imp, apart,
          decide_false, Bool.false_eq_true, false_or]
        omega
      · rename_i notAbove
        have same : head.1 = key := eq_of_not_lt notAbove notBelow
        simp [same]

theorem size_insert_of_free {map : OrdMap κ ν} {key : κ} (free : map.get? key = none) (value : ν) :
    (map.insert key value).size = map.size + 1 := by
  rw [size_insert, contains, free]
  rfl

theorem size_insert_of_held {map : OrdMap κ ν} {key : κ} {held : ν} (h : map.get? key = some held)
    (value : ν) : (map.insert key value).size = map.size := by
  rw [size_insert, contains, h]
  rfl

omit [DecidableEq κ] in
/-- A key above all others comes last. -/
theorem insertEntry_above {key : κ} {list : List (κ × ν)} (value : ν)
    (above : ∀ entry ∈ list, entry.1 < key) :
    insertEntry key value list = list ++ [(key, value)] := by
  induction list with
  | nil => rfl
  | cons head rest ih =>
    have here := above head List.mem_cons_self
    have notBelow : ¬ key < head.1 := fun below => Std.lt_irrefl (Std.lt_trans here below)
    rw [insertEntry, if_neg notBelow, if_pos here,
      ih fun entry mem => above entry (List.mem_cons_of_mem _ mem)]
    rfl

omit [DecidableEq κ] in
theorem entries_foldl_insert {map : OrdMap κ ν} {pairs : List (κ × ν)}
    (ascending : (map.entries ++ pairs).Pairwise fun a b => a.1 < b.1) :
    (pairs.foldl (fun map pair => map.insert pair.1 pair.2) map).entries = map.entries ++ pairs := by
  induction pairs generalizing map with
  | nil => exact (List.append_nil _).symm
  | cons pair pairs ih =>
    have above : ∀ entry ∈ map.entries, entry.1 < pair.1 := fun entry mem =>
      (List.pairwise_append.mp ascending).2.2 entry mem pair List.mem_cons_self
    have stored : (map.insert pair.1 pair.2).entries = map.entries ++ [pair] :=
      insertEntry_above pair.2 above
    rw [List.foldl_cons, ih (by rw [stored, List.append_assoc]; exact ascending), stored,
      List.append_assoc]
    rfl

omit [DecidableEq κ] in
/-- A map is the one that its entries spell. -/
theorem ofList_entries (map : OrdMap κ ν) : ofList map.entries = map := by
  have ascending : ((empty : OrdMap κ ν).entries ++ map.entries).Pairwise fun a b => a.1 < b.1 :=
    map.ascending
  have same : (ofList map.entries).entries = map.entries := entries_foldl_insert ascending
  exact ext_entries same

omit [DecidableEq κ] [LE κ] [Std.LawfulOrderLT κ] [Std.IsLinearOrder κ] in
theorem insertEntry_subperm (key : κ) (value : ν) (list : List (κ × ν)) :
    (insertEntry key value list).Subperm ((key, value) :: list) := by
  induction list with
  | nil => exact List.Subperm.refl _
  | cons head rest ih =>
    unfold insertEntry
    split
    · exact List.Subperm.refl _
    split
    · exact ((List.subperm_cons head).mpr ih).trans (List.Perm.swap _ _ _).subperm
    · exact ((List.sublist_cons_self head rest).cons_cons _).subperm

omit [DecidableEq κ] in
theorem entries_foldl_subperm (map : OrdMap κ ν) (pairs : List (κ × ν)) :
    (pairs.foldl (fun map pair => map.insert pair.1 pair.2) map).entries.Subperm
      (pairs ++ map.entries) := by
  induction pairs generalizing map with
  | nil => exact List.Subperm.refl _
  | cons pair pairs ih =>
    have stored : (pairs ++ (map.insert pair.1 pair.2).entries).Subperm
        (pairs ++ pair :: map.entries) :=
      (List.subperm_append_left pairs).mpr (insertEntry_subperm pair.1 pair.2 map.entries)
    exact ((ih _).trans stored).trans List.perm_middle.subperm

omit [DecidableEq κ] in
/-- A map has no entries but those of the list that it is built from. -/
theorem entries_ofList_subperm (pairs : List (κ × ν)) : (ofList pairs).entries.Subperm pairs := by
  have built := entries_foldl_subperm (empty : OrdMap κ ν) pairs
  rwa [show (empty : OrdMap κ ν).entries = [] from rfl, List.append_nil] at built

/-! ## 5. Totals -/

section Total

variable {weigh : κ → ν → Int} {map : OrdMap κ ν}

/-- The sum of what the entries weigh. -/
def total (weigh : κ → ν → Int) (map : OrdMap κ ν) : Int :=
  (map.entries.map fun entry => weigh entry.1 entry.2).sum

omit [DecidableEq κ] [LE κ] [Std.LawfulOrderLT κ] [Std.IsLinearOrder κ] [DecidableLT κ] in
/-- Entries that weigh nothing add up to nothing. -/
theorem total_eq_zero (h : ∀ entry ∈ map.entries, weigh entry.1 entry.2 = 0) :
    map.total weigh = 0 := by
  unfold total
  rw [List.map_congr_left h, List.map_const']
  simp

omit [Std.IsLinearOrder κ] [DecidableLT κ] in
/-- Dropping takes off what the dropped entry weighs. -/
theorem total_erase (weigh : κ → ν → Int) (map : OrdMap κ ν) (key : κ) :
    (map.erase key).total weigh = map.total weigh - ((map.get? key).map (weigh key)).getD 0 := by
  obtain ⟨list, ascending⟩ := map
  simp only [total, erase, get?]
  induction list with
  | nil => rfl
  | cons head rest ih =>
    obtain ⟨first, tail⟩ := List.pairwise_cons.mp ascending
    by_cases here : head.1 = key
    · have kept : (rest.filter fun entry => entry.1 ≠ key) = rest := by
        refine List.filter_eq_self.mpr fun entry mem => decide_eq_true fun same => ?_
        exact Std.lt_irrefl (here ▸ same ▸ first entry mem)
      rw [List.filter_cons_of_neg (by simp [here]), kept,
        List.find?_cons_of_pos (by simpa using here)]
      simp only [List.map_cons, List.sum_cons, Option.map_some, Option.getD_some, here]
      omega
    · rw [List.filter_cons_of_pos (by simpa using here), List.find?_cons_of_neg (by simp [here])]
      simp only [List.map_cons, List.sum_cons, ih tail]
      omega

/-- What is stored at a key comes in place of what was there. -/
theorem sum_insertEntry (weigh : κ → ν → Int) (key : κ) (value : ν) {list : List (κ × ν)}
    (ascending : list.Pairwise fun a b => a.1 < b.1) :
    ((insertEntry key value list).map fun entry => weigh entry.1 entry.2).sum
      = weigh key value
        + ((list.filter fun entry => entry.1 ≠ key).map fun entry => weigh entry.1 entry.2).sum := by
  induction list with
  | nil => rfl
  | cons head rest ih =>
    obtain ⟨first, tail⟩ := List.pairwise_cons.mp ascending
    -- No entry behind one that is not below `key` has that key.
    have kept : ¬ head.1 < key → (rest.filter fun entry => entry.1 ≠ key) = rest := by
      refine fun notBelow => List.filter_eq_self.mpr fun entry mem => decide_eq_true fun same => ?_
      exact notBelow (same ▸ first entry mem)
    unfold insertEntry
    split
    · rename_i below
      have distinct : head.1 ≠ key := fun same => Std.lt_irrefl (same ▸ below)
      rw [List.filter_cons_of_pos (by simpa using distinct), kept (Std.not_gt_of_lt below)]
      rfl
    · rename_i notBelow
      split
      · rename_i above
        have distinct : head.1 ≠ key := fun same => Std.lt_irrefl (same ▸ above)
        rw [List.filter_cons_of_pos (by simpa using distinct)]
        simp only [List.map_cons, List.sum_cons, ih tail]
        omega
      · rename_i notAbove
        have same : head.1 = key := eq_of_not_lt notAbove notBelow
        rw [List.filter_cons_of_neg (by simp [same]), kept notAbove]
        rfl

/-- Storing puts the new entry's weight in place of the old one's. -/
theorem total_insert (weigh : κ → ν → Int) (map : OrdMap κ ν) (key : κ) (value : ν) :
    (map.insert key value).total weigh
      = map.total weigh - ((map.get? key).map (weigh key)).getD 0 + weigh key value := by
  have stored : (map.insert key value).total weigh = weigh key value + (map.erase key).total weigh :=
    sum_insertEntry weigh key value map.ascending
  rw [stored, total_erase]
  omega

end Total

end IndexedStore.OrdMap
