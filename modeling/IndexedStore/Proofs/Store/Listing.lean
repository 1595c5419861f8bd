import IndexedStore.Proofs.Store.Neighbours
/-!
# The keys with a stem, as a list

The keys of a scope with one stem, the smallest first, are what a cursor runs through. The list is
ascending, so a bound cuts it in two, and a move of the cursor leads to the head of what is left of
it, forwards or backwards.

* `Store.keysOf` is the list, `Store.split_keysOf` the cut at a bound;
* `Store.Least.eq_head` and `Store.Greatest.eq_head` read a move off the list;
* `Store.Least.at_head` and `Store.Least.behind_head` are the two moves that a scan makes, and
  `Store.order_firstFrom` tells when it has come to a bound;
* `Store.firstFrom_stem`, `Store.lastOf_eq_head`, `Store.firstAfter_listed` and
  `Store.lastBefore_listed` are the moves to both ends of the list and both ways from a listed key.
-/

namespace IndexedStore

/-- The first of some keys, or the end if there are none. -/
def Position.head : List Bytes → Position
  | [] => .ended
  | key :: _ => .onKey key

namespace Store

/-- The keys of a scope that start with a stem, the smallest first. -/
def keysOf (store : Store) (scope : Name) (stem : Bytes) : List Bytes :=
  ((store.shelf scope).entries.map (·.1)).filter (Bytes.startsWith · stem)

variable {store : Store} {scope : Name} {stem : Bytes}

/-! ## 1. The list -/

theorem mem_keysOf {key : Bytes} : key ∈ store.keysOf scope stem ↔
    Bytes.startsWith key stem ∧ (store.find? scope key).isSome := by
  have stored : key ∈ (store.shelf scope).entries.map (·.1) ↔ (store.find? scope key).isSome := by
    unfold find?
    rw [Option.isSome_iff_exists, List.mem_map]
    constructor
    · rintro ⟨⟨_, entry⟩, mem, rfl⟩
      exact ⟨entry, OrdMap.get?_eq_some_iff.mpr mem⟩
    · rintro ⟨entry, found⟩
      exact ⟨(key, entry), OrdMap.get?_eq_some_iff.mp found, rfl⟩
  unfold keysOf
  rw [List.mem_filter, stored]
  exact and_comm

theorem ascending_keysOf (store : Store) (scope : Name) (stem : Bytes) :
    (store.keysOf scope stem).Pairwise (· < ·) :=
  (List.pairwise_map.mpr (store.shelf scope).ascending).filter _

/-- A scope has no fewer entries than keys of any kind. -/
theorem length_filter_keysOf_le (store : Store) (scope : Name) (stem : Bytes)
    (wanted : Bytes → Bool) :
    ((store.keysOf scope stem).filter wanted).length ≤ store.size scope :=
  calc ((store.keysOf scope stem).filter wanted).length
      ≤ (store.keysOf scope stem).length := List.length_filter_le ..
    _ ≤ ((store.shelf scope).entries.map (·.1)).length := List.length_filter_le ..
    _ = store.size scope := List.length_map ..

/-- The entries of a store decide its keys. -/
theorem keysOf_congr {other : Store} (same : other.shelves = store.shelves) :
    other.keysOf scope stem = store.keysOf scope stem := by
  unfold keysOf shelf
  rw [same]

/-! ## 2. Cutting an ascending list -/

/-- A bound cuts an ascending list in two. -/
theorem eq_below_append {list : List Bytes} (ascending : list.Pairwise (· < ·)) (bound : Bytes) :
    list = list.filter (· < bound) ++ list.filter (¬ · < bound) := by
  induction list with
  | nil => rfl
  | cons head rest ih =>
    obtain ⟨first, tail⟩ := List.pairwise_cons.mp ascending
    by_cases below : head < bound
    · rw [List.filter_cons_of_pos (by simpa using below),
        List.filter_cons_of_neg (by simpa using below), List.cons_append, ← ih tail]
    · have none_below : rest.filter (· < bound) = [] := by
        refine List.filter_eq_nil_iff.mpr fun key mem holds => below ?_
        exact Std.lt_trans (first key mem) (of_decide_eq_true holds)
      rw [List.filter_cons_of_neg (by simpa using below),
        List.filter_cons_of_pos (by simpa using below), none_below, List.nil_append]
      have all : rest.filter (fun key => decide (¬ key < bound)) = rest := by
        have cut := ih tail
        rw [none_below, List.nil_append] at cut
        exact cut.symm
      rw [all]

theorem split_keysOf (store : Store) (scope : Name) (stem bound : Bytes) :
    store.keysOf scope stem = (store.keysOf scope stem).filter (· < bound)
      ++ (store.keysOf scope stem).filter (¬ · < bound) :=
  eq_below_append (ascending_keysOf store scope stem) bound

/-- A bound is one more condition on what is listed. -/
theorem filter_from_bound (list : List Bytes) (bound : Bytes) (wanted : Bytes → Prop)
    [DecidablePred wanted] : (list.filter (¬ · < bound)).filter wanted
      = list.filter fun key => ¬ key < bound ∧ wanted key := by
  rw [List.filter_filter]
  exact List.filter_congr fun key _ => by rw [Bool.decide_and, Bool.and_comm]

/-- What stands behind a key in an ascending list is what is above it. -/
theorem filter_above {passed rest : List Bytes} {key : Bytes}
    (ascending : (passed ++ key :: rest).Pairwise (· < ·)) :
    (passed ++ key :: rest).filter (key < ·) = rest := by
  obtain ⟨_, tail, before⟩ := List.pairwise_append.mp ascending
  have none_passed : passed.filter (key < ·) = [] := by
    refine List.filter_eq_nil_iff.mpr fun other mem above => ?_
    exact Std.lt_irrefl
      (Std.lt_trans (of_decide_eq_true above) (before other mem key List.mem_cons_self))
  have all_behind : rest.filter (key < ·) = rest :=
    List.filter_eq_self.mpr fun other mem =>
      decide_eq_true ((List.pairwise_cons.mp tail).1 other mem)
  rw [List.filter_append, none_passed, List.filter_cons_of_neg (by simp [Std.lt_irrefl]),
    all_behind, List.nil_append]

/-! ## 3. Moves on the list -/

/-- **A move leads to the head of the keys that it looks for.** -/
theorem Least.eq_head {wanted : Bytes → Prop} [DecidablePred wanted] {position : Position}
    (h : store.Least scope stem wanted position) :
    position = .head ((store.keysOf scope stem).filter wanted) := by
  have members : ∀ key, key ∈ (store.keysOf scope stem).filter wanted ↔
      (Bytes.startsWith key stem ∧ (store.find? scope key).isSome) ∧ wanted key := by
    intro key
    rw [List.mem_filter, mem_keysOf, decide_eq_true_iff]
  have ascending := (ascending_keysOf store scope stem).filter (fun key => decide (wanted key))
  cases listed : (store.keysOf scope stem).filter wanted with
  | nil =>
    cases position with
    | ended => rfl
    | onKey found =>
      have mem := (members found).mpr ⟨⟨h.1, h.2.1⟩, h.2.2.1⟩
      rw [listed] at mem
      exact absurd mem List.not_mem_nil
  | cons first rest =>
    rw [listed] at members ascending
    obtain ⟨⟨begins, stored⟩, holds⟩ := (members first).mp List.mem_cons_self
    obtain ⟨found, rfl, notAbove⟩ := h.not_lt begins stored holds
    -- What was found is not above the first of the list, and it is in the list itself.
    have mem := (members found).mpr ⟨⟨h.1, h.2.1⟩, h.2.2.1⟩
    rcases List.mem_cons.mp mem with same | later
    · rw [same]
      rfl
    · exact absurd ((List.pairwise_cons.mp ascending).1 found later) notAbove

variable {passed rest : List Bytes} {key : Bytes} {position : Position}

/-- What is listed from a key on is stored, and is not below that key. -/
theorem of_listed (listed : store.keysOf scope stem = passed ++ key :: rest) {other : Bytes}
    (mem : other ∈ key :: rest) :
    Bytes.startsWith other stem ∧ (store.find? scope other).isSome ∧ ¬ other < key := by
  have ascending := ascending_keysOf store scope stem
  rw [listed] at ascending
  have later := (List.pairwise_cons.mp (List.pairwise_append.mp ascending).2.1).1
  have here : other ∈ store.keysOf scope stem := by
    rw [listed]
    exact List.mem_append_right _ mem
  obtain ⟨begins, stored⟩ := mem_keysOf.mp here
  refine ⟨begins, stored, fun below => ?_⟩
  rcases List.mem_cons.mp mem with same | behind
  · exact Std.lt_irrefl (same ▸ below)
  · exact Std.lt_irrefl (Std.lt_trans below (later other behind))

/-- A listed key that has been passed goes to those before it, while the entries stay. -/
theorem pass_key {other : Store} (same : other.shelves = store.shelves)
    (listed : store.keysOf scope stem = passed ++ key :: rest) :
    other.keysOf scope stem = (passed ++ [key]) ++ rest := by
  simp [keysOf_congr same, listed]

/-- From a listed key on, the first key is that one. -/
theorem Least.at_head (listed : store.keysOf scope stem = passed ++ key :: rest)
    (h : store.Least scope stem (fun other => ¬ other < key) position) :
    position = .onKey key := by
  obtain ⟨begins, stored, notBelow⟩ := of_listed listed List.mem_cons_self
  exact h.eq_onKey begins stored notBelow fun _ above => above

/-- A listed key is before the first key from a bound on exactly if it is below the bound. -/
theorem order_firstFrom {bound : Bytes} (mem : key ∈ store.keysOf scope stem) :
    (Position.onKey key).order (store.firstFrom scope stem bound) = .lt ↔ key < bound := by
  obtain ⟨begins, stored⟩ := mem_keysOf.mp mem
  have least := least_firstFrom store scope stem bound
  cases target : store.firstFrom scope stem bound with
  | ended =>
    rw [target] at least
    exact ⟨fun _ => Decidable.not_not.mp (least key begins stored), fun _ => rfl⟩
  | onKey found =>
    rw [target] at least
    obtain ⟨_, _, notBelow, first⟩ := least
    have compared : (Position.onKey key).order (.onKey found) = .lt ↔ key < found :=
      Bytes.order_eq_lt_iff
    rw [compared]
    constructor
    · intro before
      exact Decidable.not_not.mp fun above => first key begins stored above before
    · intro below
      exact Std.lt_of_lt_of_le below (Std.not_lt.mp notBelow)

/-- Behind a listed key, the first key is the next in the list. -/
theorem Least.behind_head (listed : store.keysOf scope stem = passed ++ key :: rest)
    (h : store.Least scope stem (key < ·) position) : position = .head rest := by
  have ascending := ascending_keysOf store scope stem
  rw [listed] at ascending
  rw [h.eq_head, listed, filter_above ascending]

/-! ## 4. Both ways -/

/-- What stands before a key in an ascending list is what is below it. -/
theorem filter_below (ascending : (passed ++ key :: rest).Pairwise (· < ·)) :
    (passed ++ key :: rest).filter (· < key) = passed := by
  obtain ⟨_, tail, before⟩ := List.pairwise_append.mp ascending
  have all_passed : passed.filter (· < key) = passed :=
    List.filter_eq_self.mpr fun other mem =>
      decide_eq_true (before other mem key List.mem_cons_self)
  have none_behind : rest.filter (· < key) = [] := by
    refine List.filter_eq_nil_iff.mpr fun other mem below => ?_
    exact Std.lt_irrefl
      (Std.lt_trans (of_decide_eq_true below) ((List.pairwise_cons.mp tail).1 other mem))
  rw [List.filter_append, all_passed, List.filter_cons_of_neg (by simp [Std.lt_irrefl]),
    none_behind, List.append_nil]

/-- **A move backwards leads to the last of the keys that it looks for.** -/
theorem Greatest.eq_head {wanted : Bytes → Prop} [DecidablePred wanted]
    (h : store.Greatest scope stem wanted position) :
    position = .head ((store.keysOf scope stem).filter wanted).reverse := by
  have members : ∀ key, key ∈ ((store.keysOf scope stem).filter wanted).reverse ↔
      (Bytes.startsWith key stem ∧ (store.find? scope key).isSome) ∧ wanted key := by
    intro key
    rw [List.mem_reverse, List.mem_filter, mem_keysOf, decide_eq_true_iff]
  have descending : ((store.keysOf scope stem).filter wanted).reverse.Pairwise (fun a b => b < a) :=
    List.pairwise_reverse.mpr ((ascending_keysOf store scope stem).filter _)
  cases listed : ((store.keysOf scope stem).filter wanted).reverse with
  | nil =>
    cases position with
    | ended => rfl
    | onKey found =>
      have mem := (members found).mpr ⟨⟨h.1, h.2.1⟩, h.2.2.1⟩
      rw [listed] at mem
      exact absurd mem List.not_mem_nil
  | cons last rest =>
    rw [listed] at members descending
    obtain ⟨⟨begins, stored⟩, holds⟩ := (members last).mp List.mem_cons_self
    cases position with
    | ended => exact absurd holds (h last begins stored)
    | onKey found =>
      -- What was found is not below the last of the list, and it is in the list itself.
      have mem := (members found).mpr ⟨⟨h.1, h.2.1⟩, h.2.2.1⟩
      rcases List.mem_cons.mp mem with same | earlier
      · rw [same]
        rfl
      · exact absurd ((List.pairwise_cons.mp descending).1 found earlier)
          (h.2.2.2 last begins stored holds)

theorem firstFrom_stem (store : Store) (scope : Name) (stem : Bytes) :
    store.firstFrom scope stem stem = .head (store.keysOf scope stem) := by
  have all : (store.keysOf scope stem).filter (¬ · < stem) = store.keysOf scope stem :=
    List.filter_eq_self.mpr fun key mem =>
      decide_eq_true (Bytes.not_lt_stem (mem_keysOf.mp mem).1)
  rw [(least_firstFrom store scope stem stem).eq_head, all]

theorem lastOf_eq_head (store : Store) (scope : Name) (stem : Bytes) :
    store.lastOf scope stem = .head (store.keysOf scope stem).reverse := by
  have all : (store.keysOf scope stem).filter (fun _ => decide True) = store.keysOf scope stem :=
    List.filter_eq_self.mpr fun _ _ => rfl
  rw [(greatest_lastOf store scope stem).eq_head, all]

/-- Forwards from a listed key, the cursor comes to the next one. -/
theorem firstAfter_listed (listed : store.keysOf scope stem = passed ++ key :: rest) :
    store.firstAfter scope stem key = .head rest :=
  (least_firstAfter store scope (of_listed listed List.mem_cons_self).1).behind_head listed

/-- Backwards from a listed key, the cursor comes to the one before. -/
theorem lastBefore_listed (listed : store.keysOf scope stem = passed ++ key :: rest) :
    store.lastBefore scope stem key = .head passed.reverse := by
  have ascending := ascending_keysOf store scope stem
  rw [listed] at ascending
  rw [(greatest_lastBefore store scope (of_listed listed List.mem_cons_self).1).eq_head, listed,
    filter_below ascending]

end Store

end IndexedStore
