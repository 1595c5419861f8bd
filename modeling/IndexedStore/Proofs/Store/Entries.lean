import IndexedStore.Proofs.Actions
import IndexedStore.Proofs.OrderedMap
import IndexedStore.Store.Writing
/-!
# What one change of an entry does

Every write is a `Store.replace`. This file says once what a change does to each part of the store,
and what the two writes do, so that nothing below unfolds them again.

* `Store.shelf_replace`, `Store.find?_replace`, `Store.usage_replace`, `Store.log_replace`: entries,
  accounts and log after a change; everything else stays;
* `Store.outcome_write`, `Store.outcome_erase`: how the writes end;
* `SameEntries`: two stores with the same entries and the same accounts. Changes keep it
  (`SameEntries.replace`), and a change that is taken back leads to it
  (`Store.replace_replace_find?`).
-/

namespace IndexedStore

namespace Store

/-! ## 1. One change -/

theorem get?_place (shelf : Shelf) (key other : Bytes) (after : Option Entry) :
    (place shelf key after).get? other = if other = key then after else shelf.get? other := by
  cases after with
  | none => exact OrdMap.get?_erase shelf key other
  | some entry => exact OrdMap.get?_insert shelf key other entry

@[simp] theorem settings_chargeFor (store : Store) (sign : Int) (key : Bytes)
    (entry : Option Entry) : (store.chargeFor sign key entry).settings = store.settings := by
  cases entry <;> rfl

@[simp] theorem shelves_chargeFor (store : Store) (sign : Int) (key : Bytes)
    (entry : Option Entry) : (store.chargeFor sign key entry).shelves = store.shelves := by
  cases entry <;> rfl

@[simp] theorem cursors_chargeFor (store : Store) (sign : Int) (key : Bytes)
    (entry : Option Entry) : (store.chargeFor sign key entry).cursors = store.cursors := by
  cases entry <;> rfl

@[simp] theorem log_chargeFor (store : Store) (sign : Int) (key : Bytes)
    (entry : Option Entry) : (store.chargeFor sign key entry).log = store.log := by
  cases entry <;> rfl

@[simp] theorem settings_replace (store : Store) (scope : Name) (key : Bytes)
    (after : Option Entry) : (store.replace scope key after).2.settings = store.settings := by
  simp [replace]

@[simp] theorem cursors_replace (store : Store) (scope : Name) (key : Bytes)
    (after : Option Entry) : (store.replace scope key after).2.cursors = store.cursors := by
  simp [replace]

theorem log_replace (store : Store) (scope : Name) (key : Bytes) (after : Option Entry) :
    (store.replace scope key after).2.log
      = store.log.map (⟨scope, key, store.find? scope key⟩ :: ·) := by
  simp [replace]

/-- A change concerns one shelf, and one place on it. -/
theorem shelf_replace (store : Store) (scope other : Name) (key : Bytes) (after : Option Entry) :
    (store.replace scope key after).2.shelf other
      = if other = scope then place (store.shelf scope) key after else store.shelf other := by
  unfold shelf
  simp only [replace, shelves_chargeFor, OrdMap.get?_insert]
  split <;> rfl

theorem find?_replace (store : Store) (scope other : Name) (key probe : Bytes)
    (after : Option Entry) :
    (store.replace scope key after).2.find? other probe
      = if other = scope ∧ probe = key then after else store.find? other probe := by
  unfold find?
  rw [shelf_replace]
  by_cases here : other = scope
  · subst here
    rw [if_pos rfl, get?_place]
    simp
  · simp [here]

/-! ## 2. Accounts -/

/-- What `payer` is billed for an entry at a key. -/
def share (store : Store) (payer : Name) (key : Bytes) : Option Entry → Int
  | none => 0
  | some entry => if entry.payer = payer then store.bill key entry else 0

theorem share_congr {a b : Store} (h : a.settings = b.settings) (payer : Name) (key : Bytes)
    (entry : Option Entry) : a.share payer key entry = b.share payer key entry := by
  cases entry with
  | none => rfl
  | some entry =>
    unfold share bill
    rw [h]

theorem usage_chargeFor (store : Store) (sign : Int) (payer : Name) (key : Bytes)
    (entry : Option Entry) :
    (store.chargeFor sign key entry).usage payer
      = store.usage payer + sign * store.share payer key entry := by
  cases entry with
  | none => simp [chargeFor, share]
  | some entry =>
    unfold chargeFor charge share
    by_cases h : entry.payer = payer
    · subst h
      simp [usage]
    · simp [usage, OrdMap.get?_insert_of_ne _ (Ne.symm h), h]

/-- A change takes the old entry off its payer's account and puts the new one on its payer's. -/
theorem usage_replace (store : Store) (scope payer : Name) (key : Bytes) (after : Option Entry) :
    (store.replace scope key after).2.usage payer
      = store.usage payer - store.share payer key (store.find? scope key)
        + store.share payer key after := by
  let shelved := { store with
    shelves := store.shelves.insert scope (place (store.shelf scope) key after) }
  have start : shelved.usage payer = store.usage payer := rfl
  have old := usage_chargeFor shelved (-1) payer key (store.find? scope key)
  have new := usage_chargeFor (shelved.chargeFor (-1) key (store.find? scope key)) 1 payer key after
  rw [share_congr (settings_chargeFor shelved (-1) key (store.find? scope key))] at new
  have same : ∀ entry, shelved.share payer key entry = store.share payer key entry :=
    share_congr rfl payer key
  rw [same] at old new
  have last : (store.replace scope key after).2.usage payer
      = ((shelved.chargeFor (-1) key (store.find? scope key)).chargeFor 1 key after).usage payer :=
    rfl
  omega

end Store

/-! ## 3. Stores with the same entries -/

/-- Two stores with the same settings, the same entries and the same accounts. Cursors, staged value
    and log may differ. -/
structure SameEntries (a b : Store) : Prop where
  settings : a.settings = b.settings
  shelf : ∀ scope, a.shelf scope = b.shelf scope
  usage : ∀ payer, a.usage payer = b.usage payer

namespace SameEntries

variable {a b c : Store}

theorem refl (a : Store) : SameEntries a a := ⟨rfl, fun _ => rfl, fun _ => rfl⟩

theorem trans (h : SameEntries a b) (h' : SameEntries b c) : SameEntries a c :=
  ⟨h.settings.trans h'.settings, fun scope => (h.shelf scope).trans (h'.shelf scope),
    fun payer => (h.usage payer).trans (h'.usage payer)⟩

theorem find? (h : SameEntries a b) (scope : Name) (key : Bytes) :
    a.find? scope key = b.find? scope key := by
  unfold Store.find?
  rw [h.shelf scope]

/-- The same change on both sides. -/
theorem replace (h : SameEntries a b) (scope : Name) (key : Bytes) (after : Option Entry) :
    SameEntries (a.replace scope key after).2 (b.replace scope key after).2 where
  settings := by simp [h.settings]
  shelf other := by
    rw [Store.shelf_replace, Store.shelf_replace, h.shelf scope, h.shelf other]
  usage payer := by
    rw [Store.usage_replace, Store.usage_replace, h.usage payer, h.find? scope key,
      Store.share_congr h.settings, Store.share_congr h.settings]

end SameEntries

/-- **A change that is taken back leaves no trace** among entries and accounts. -/
theorem Store.replace_replace_find? (store : Store) (scope : Name) (key : Bytes)
    (after : Option Entry) :
    SameEntries ((store.replace scope key after).2.replace scope key (store.find? scope key)).2
      store where
  settings := by simp
  shelf other := by
    rw [shelf_replace, shelf_replace, shelf_replace, if_pos rfl]
    by_cases here : other = scope
    · subst here
      rw [if_pos rfl]
      refine OrdMap.ext_get? fun probe => ?_
      rw [get?_place, get?_place]
      by_cases at_key : probe = key
      · rw [if_pos at_key, at_key]
        rfl
      · rw [if_neg at_key, if_neg at_key]
    · rw [if_neg here, if_neg here]
  usage payer := by
    rw [usage_replace, usage_replace, find?_replace, if_pos ⟨rfl, rfl⟩,
      share_congr (b := store) (settings_replace ..), share_congr (b := store) (settings_replace ..)]
    omega

namespace Store

open IndexedStore.Action

/-! ## 4. The two writes -/

/-- A write that keeps to the limits is a change; else it is refused and nothing happens. -/
theorem outcome_write (scope : Name) (key value : Bytes) (payer : Name) (store : Store) :
    outcome (write scope key value payer) store
      = if key.length > store.settings.limits.maxKeySize.toNat then
          (.error (.limit (.key key.length store.settings.limits.maxKeySize.toNat)), store)
        else if value.length > store.settings.limits.maxValueSize.toNat then
          (.error (.limit (.value value.length store.settings.limits.maxValueSize.toNat)), store)
        else
          (.ok (store.replace scope key (some ⟨value, payer⟩)).1,
            (store.replace scope key (some ⟨value, payer⟩)).2) := by
  unfold write
  by_cases longKey : key.length > store.settings.limits.maxKeySize.toNat
  · simp only [outcome_get_bind, longKey, if_true, outcome_throw_bind]
  · by_cases longValue : value.length > store.settings.limits.maxValueSize.toNat
    · simp only [outcome_get_bind, longKey, longValue, if_true, if_false, outcome_throw_bind]
    · simp only [outcome_get_bind, longKey, longValue, if_false]
      rfl

/-- Erasing is a change only where there is an entry. -/
theorem outcome_erase (scope : Name) (key : Bytes) (store : Store) :
    outcome (erase scope key) store = match store.find? scope key with
      | none => (.ok 0, store)
      | some _ => (.ok (store.replace scope key none).1, (store.replace scope key none).2) := by
  unfold erase
  rw [outcome_get_bind]
  cases store.find? scope key <;> rfl

/-- A write makes one change, or none. -/
theorem write_changes (scope : Name) (key value : Bytes) (payer : Name) (store : Store) :
    (outcome (write scope key value payer) store).2 = store ∨
    (outcome (write scope key value payer) store).2
      = (store.replace scope key (some ⟨value, payer⟩)).2 := by
  rw [outcome_write]
  split
  · exact .inl rfl
  · split
    · exact .inl rfl
    · exact .inr rfl

/-- Erasing makes one change, or none. -/
theorem erase_changes (scope : Name) (key : Bytes) (store : Store) :
    (outcome (erase scope key) store).2 = store ∨
    (outcome (erase scope key) store).2 = (store.replace scope key none).2 := by
  rw [outcome_erase]
  cases store.find? scope key with
  | none => exact .inl rfl
  | some _ => exact .inr rfl

@[simp] theorem cursors_write (scope : Name) (key value : Bytes) (payer : Name) (store : Store) :
    (outcome (write scope key value payer) store).2.cursors = store.cursors := by
  rcases write_changes scope key value payer store with same | changed
  · rw [same]
  · rw [changed, cursors_replace]

@[simp] theorem cursors_erase (scope : Name) (key : Bytes) (store : Store) :
    (outcome (erase scope key) store).2.cursors = store.cursors := by
  rcases erase_changes scope key store with same | changed
  · rw [same]
  · rw [changed, cursors_replace]

end Store

end IndexedStore
