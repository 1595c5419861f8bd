import IndexedStore.Proofs.Store.Calls
/-!
# Bills

Accounts are kept by adding and taking off; what a payer OWES is a sum over all scopes and all
entries. Every change of an entry moves both by the same amount, so the gap between them never
moves, whatever is written, replaced, dropped or taken back. A new store has no gap.

* `Store.billed` is the sum, `Store.totalUsage` adds up all accounts;
* `Store.billed_replace` and `Store.totalUsage_replace` are what one change does to them;
* `Evenly` says that no gap has moved, and `Issued.evenly` and `Evenly.transact` that every call and
  every unit of work keeps it so;
* `Store.Balanced` says that there is no gap.
-/

namespace IndexedStore

open IndexedStore.Action

namespace Store

/-! ## 1. What is owed -/

/-- What `payer` owes: over all scopes and all entries billed to it, the lengths of key and value
    and the configured extra, a number of 64 bits that is read as a signed one. -/
def billed (store : Store) (payer : Name) : Int :=
  store.shelves.total fun _ shelf => shelf.total fun key entry =>
    if entry.payer = payer then
      (key.length + entry.value.length : Nat) + store.settings.billableOverhead.toInt64.toInt
    else 0

/-- All accounts together. -/
def totalUsage (store : Store) : Int :=
  store.accounts.total fun _ amount => amount

/-- Whether every account shows what its payer owes. -/
def Balanced (store : Store) : Prop :=
  ∀ payer, store.usage payer = store.billed payer

theorem billed_congr {a b : Store} (settings : a.settings = b.settings)
    (shelves : a.shelves = b.shelves) (payer : Name) : a.billed payer = b.billed payer := by
  unfold billed
  rw [settings, shelves]

/-- A payer without an entry owes nothing. -/
theorem billed_eq_zero {store : Store} {payer : Name}
    (none : ∀ scope key entry, store.find? scope key = some entry → entry.payer ≠ payer) :
    store.billed payer = 0 := by
  refine OrdMap.total_eq_zero fun (scope, shelf) onShelves => ?_
  refine OrdMap.total_eq_zero fun (key, entry) onShelf => ?_
  have found : store.find? scope key = some entry := by
    unfold find? Store.shelf
    rw [OrdMap.get?_eq_some_iff.mpr onShelves]
    exact OrdMap.get?_eq_some_iff.mpr onShelf
  exact if_neg (none scope key entry found)

theorem Balanced.fresh (settings : Settings) : (fresh settings).Balanced :=
  fun _ => rfl

/-! ## 2. One change -/

theorem total_place (weigh : Bytes → Entry → Int) (shelf : Shelf) (key : Bytes)
    (after : Option Entry) :
    (place shelf key after).total weigh
      = shelf.total weigh - ((shelf.get? key).map (weigh key)).getD 0
        + (after.map (weigh key)).getD 0 := by
  cases after with
  | none =>
    have dropped := OrdMap.total_erase weigh shelf key
    simp only [place, Option.map_none, Option.getD_none]
    omega
  | some entry => exact OrdMap.total_insert weigh shelf key entry

theorem share_eq_getD (store : Store) (payer : Name) (key : Bytes) (entry : Option Entry) :
    store.share payer key entry
      = (entry.map fun entry => store.share payer key (some entry)).getD 0 := by
  cases entry <;> rfl

theorem shelves_replace (store : Store) (scope : Name) (key : Bytes) (after : Option Entry) :
    (store.replace scope key after).2.shelves
      = store.shelves.insert scope (place (store.shelf scope) key after) := by
  simp only [replace, shelves_chargeFor]

/-- A change takes the old entry off what its payer owes and puts the new one on what its payer
    owes. -/
theorem billed_replace (store : Store) (scope payer : Name) (key : Bytes) (after : Option Entry) :
    (store.replace scope key after).2.billed payer
      = store.billed payer - store.share payer key (store.find? scope key)
        + store.share payer key after := by
  let weigh (key : Bytes) (entry : Entry) : Int := store.share payer key (some entry)
  have whole : store.billed payer = store.shelves.total fun _ shelf => shelf.total weigh := rfl
  have changed : (store.replace scope key after).2.billed payer
      = (store.shelves.insert scope (place (store.shelf scope) key after)).total
          fun _ shelf => shelf.total weigh := by
    unfold billed
    rw [settings_replace, shelves_replace]
    rfl
  have old : ((store.shelves.get? scope).map fun shelf => shelf.total weigh).getD 0
      = (store.shelf scope).total weigh := by
    unfold Store.shelf
    cases store.shelves.get? scope <;> rfl
  have placed := total_place weigh (store.shelf scope) key after
  have before : (((store.shelf scope).get? key).map (weigh key)).getD 0
      = store.share payer key (store.find? scope key) := (share_eq_getD ..).symm
  have now : (after.map (weigh key)).getD 0 = store.share payer key after :=
    (share_eq_getD ..).symm
  rw [changed, OrdMap.total_insert, old, placed, before, now, whole]
  omega

theorem totalUsage_chargeFor (store : Store) (sign : Int) (key : Bytes) (entry : Option Entry) :
    (store.chargeFor sign key entry).totalUsage
      = store.totalUsage + sign * store.billOf key entry := by
  cases entry with
  | none => simp [chargeFor, billOf]
  | some entry =>
    have moved := OrdMap.total_insert (fun _ amount => amount) store.accounts entry.payer
      (store.usage entry.payer + sign * store.bill key entry)
    have old : ((store.accounts.get? entry.payer).map fun amount => amount).getD 0
        = store.usage entry.payer := by
      unfold usage
      rw [Option.map_id']
    have last : (store.chargeFor sign key (some entry)).totalUsage
        = (store.accounts.insert entry.payer
            (store.usage entry.payer + sign * store.bill key entry)).total
              fun _ amount => amount := rfl
    have same : store.billOf key (some entry) = store.bill key entry := rfl
    have whole : store.totalUsage = store.accounts.total fun _ amount => amount := rfl
    rw [last, moved, old, same, whole]
    omega

/-- **The answer of a change is the change of all accounts together.** -/
theorem totalUsage_replace (store : Store) (scope : Name) (key : Bytes) (after : Option Entry) :
    (store.replace scope key after).2.totalUsage
      = store.totalUsage + (store.replace scope key after).1 := by
  let shelved := { store with
    shelves := store.shelves.insert scope (place (store.shelf scope) key after) }
  let charged := shelved.chargeFor (-1) key (store.find? scope key)
  have bills : ∀ other : Store, other.settings = store.settings → ∀ entry,
      other.billOf key entry = store.billOf key entry := by
    intro other same entry
    unfold billOf bill
    rw [same]
  have old : charged.totalUsage = store.totalUsage - store.billOf key (store.find? scope key) := by
    rw [totalUsage_chargeFor, bills shelved rfl]
    show store.totalUsage + _ = _
    omega
  have new : (charged.chargeFor 1 key after).totalUsage
      = charged.totalUsage + store.billOf key after := by
    rw [totalUsage_chargeFor, bills charged (settings_chargeFor shelved ..)]
    omega
  show (charged.chargeFor 1 key after).totalUsage
    = store.totalUsage + (store.billOf key after - store.billOf key (store.find? scope key))
  omega

end Store

/-! ## 3. Accounts and bills move together -/

/-- Whether from `before` to `after` every account has moved by as much as what its payer owes. -/
def Evenly (before after : Store) : Prop :=
  ∀ payer, after.usage payer - after.billed payer = before.usage payer - before.billed payer

namespace Evenly

variable {before after : Store}

theorem chains : Chains Evenly where
  refl _ _ := rfl
  trans first second payer := (second payer).trans (first payer)

/-- What leaves settings, entries and accounts alone. -/
theorem of_same (settings : after.settings = before.settings)
    (shelves : after.shelves = before.shelves) (accounts : after.accounts = before.accounts) :
    Evenly before after := by
  intro payer
  have usage : after.usage payer = before.usage payer := by
    unfold Store.usage
    rw [accounts]
  rw [usage, Store.billed_congr settings shelves]

/-- **One change moves an account by as much as what its payer owes.** -/
theorem replace (store : Store) (scope : Name) (key : Bytes) (after : Option Entry) :
    Evenly store (store.replace scope key after).2 := by
  intro payer
  rw [Store.usage_replace, Store.billed_replace]
  omega

theorem undo (store : Store) (changes : List Change) : Evenly store (store.undo changes) := by
  induction changes generalizing store with
  | nil => exact chains.refl store
  | cons change rest ih => exact chains.trans (replace store _ _ _) (ih _)

/-- A unit of work moves accounts and bills together if its body does, whether it stays or is taken
    back. -/
theorem transact {α : Type} {body : Action Store α} (h : body.Keeps Evenly) :
    (Store.transact body).Keeps Evenly := by
  intro store
  cases closed : store.log with
  | some log =>
    rw [Store.transact_nested body (by rw [closed]; rfl)]
    exact chains.refl store
  | none =>
    have begun : Evenly store { store with log := some [] } := of_same rfl rfl rfl
    have ran := chains.trans begun (h { store with log := some [] })
    rcases ends : outcome body { store with log := some [] } with ⟨fault | value, after⟩
    · rw [ends] at ran
      rw [Store.transact_of_error closed ends]
      have ended : Evenly after { after with log := none } := of_same rfl rfl rfl
      exact chains.trans ran (chains.trans ended (undo _ _))
    · rw [ends] at ran
      rw [Store.transact_of_ok closed ends]
      exact chains.trans ran (of_same rfl rfl rfl)

/-- What moves evenly keeps the balance. -/
theorem balanced (h : Evenly before after) (balanced : before.Balanced) : after.Balanced := by
  intro payer
  have moved := h payer
  have start := balanced payer
  omega

end Evenly

/-- **Every call moves accounts and bills together.** -/
theorem Issued.evenly {β : Type} (issued : Issued β) : issued.perform.Keeps Evenly := by
  have silent : issued.call.writes? = none → issued.perform.Keeps Evenly := by
    refine fun silent => (issued.sparing silent).mono fun {before after} h => ?_
    obtain ⟨staged, cursors, nextCursor, rfl⟩ := h
    exact Evenly.of_same rfl rfl rfl
  have changes : ∀ {scope key entry} {before after : Store},
      after = before ∨ after = (before.replace scope key entry).2 → Evenly before after := by
    intro scope key entry before after h
    rcases h with rfl | rfl
    · exact Evenly.chains.refl _
    · exact Evenly.replace before scope key entry
  obtain ⟨access, call⟩ := issued
  cases call with
  | write scope key value payer =>
    cases access <;> exact fun store => changes (Store.write_changes scope key value payer store)
  | erase scope key =>
    cases access <;> exact fun store => changes (Store.erase_changes scope key store)
  | _ => exact silent rfl

/-! ## 4. What the writes answer -/

/-- **A write answers with the change of all accounts together**, and a write that is refused changes
    nothing. -/
theorem Store.totalUsage_write (scope : Name) (key value : Bytes) (payer : Name) (store : Store) :
    match outcome (write scope key value payer) store with
    | (.ok change, after) => after.totalUsage = store.totalUsage + change
    | (.error _, after) => after = store := by
  rw [outcome_write]
  by_cases longKey : key.length > store.settings.limits.maxKeySize.toNat
  · rw [if_pos longKey]
  · by_cases longValue : value.length > store.settings.limits.maxValueSize.toNat
    · rw [if_neg longKey, if_pos longValue]
    · rw [if_neg longKey, if_neg longValue]
      exact totalUsage_replace store scope key _

/-- **Erasing answers with the change of all accounts together**, and is never refused. -/
theorem Store.totalUsage_erase (scope : Name) (key : Bytes) (store : Store) :
    match outcome (erase scope key) store with
    | (.ok change, after) => after.totalUsage = store.totalUsage + change
    | (.error _, _) => False := by
  rw [outcome_erase]
  cases store.find? scope key with
  | none => exact (Int.add_zero _).symm
  | some _ => exact totalUsage_replace store scope key none

end IndexedStore
