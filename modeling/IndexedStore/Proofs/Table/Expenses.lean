import IndexedStore.Proofs.Store.Bills
import IndexedStore.Proofs.Table.Clients
/-!
# Who pays for what

A client writes to the store directly, by tables and by single records, some of it in units of work.
After each of its steps, inside units too, every account shows what its payer owes. Tables and single
records write in their own scopes only, and at the expense of those.

* `Script.history_keeps`: what every call and every unit of work keeps holds after each event of a
  run;
* `OwnExpense` says that all that was written was written in one scope and is billed to it;
* `Expense` is what can cost something, and **`Script.bills_exact`** the result.
-/

namespace IndexedStore

open IndexedStore.Action

variable {κ ρ α β : Type}

/-! ## 1. Along a history -/

/-- The store after an event. -/
def Event.after {C : Type → Type} : Event C → Store
  | called _ _ after => after
  | ended _ after => after

/-- What holds from the start of a unit of work on, what every call keeps, and what every unit keeps
    whose body keeps it, holds after each event of a run. -/
theorem Script.history_keeps {C : Type → Type} {perform : {β : Type} → C β → Action Store β}
    {R : Store → Store → Prop} (chains : Chains R)
    (begins : ∀ store, R store { store with log := some [] })
    (calls : ∀ {β : Type} (made : C β), (perform made).Keeps R)
    (units : ∀ {β : Type} {body : Action Store β}, body.Keeps R → (Store.transact body).Keeps R)
    (script : Script C α) :
    ∀ store, ∀ event ∈ script.history perform store, R store event.after := by
  induction script with
  | finish result => exact fun _ _ mem => absurd mem List.not_mem_nil
  | call made next ih =>
    intro store event mem
    rw [history_call] at mem
    have step := calls made store
    rcases List.mem_cons.mp mem with rfl | later
    · exact step
    · exact chains.trans step (ih _ _ event later)
  | unit inner next inner_ih ih =>
    intro store event mem
    rw [history_unit] at mem
    have step := units (Script.keeps chains calls units inner) store
    rcases List.mem_append.mp mem with inside | behind
    · split at inside
      · exact absurd inside List.not_mem_nil
      · exact chains.trans (begins store) (inner_ih _ event inside)
    · rcases List.mem_cons.mp behind with rfl | later
      · exact step
      · exact chains.trans step (ih _ _ event later)

/-! ## 2. At one's own expense -/

/-- Whether from `before` to `after` entries were written in `scope` only, and are billed to it
    unless they are gone again. The writes are listed in `made`, the last one first; an open log has
    grown by just this list. -/
structure OwnExpense (scope : Name) (before after : Store) (made : List Change) : Prop where
  noted : after.log = before.log.map (made ++ ·)
  billed : ∀ change ∈ made, change.scope = scope ∧
    ∀ entry, after.find? scope change.key = some entry → entry.payer = scope
  others : ∀ other key, (∀ change ∈ made, ¬ (change.scope = other ∧ change.key = key)) →
    after.find? other key = before.find? other key

namespace OwnExpense

variable {scope : Name} {before after : Store}

/-- What leaves entries and log alone writes nothing. -/
theorem of_staging (h : Staging before after) : OwnExpense scope before after [] := by
  obtain ⟨staged, rfl⟩ := h
  refine ⟨?_, fun _ mem => absurd mem List.not_mem_nil, fun _ _ _ => rfl⟩
  show before.log = _
  cases before.log <;> rfl

/-- A change is a write at one's own expense if what it stores is billed to the scope. -/
theorem replace (store : Store) (key : Bytes) {entry : Option Entry}
    (paid : ∀ found, entry = some found → found.payer = scope) :
    OwnExpense scope store (store.replace scope key entry).2
      [⟨scope, key, store.find? scope key⟩] where
  noted := Store.log_replace store scope key entry
  billed change mem := by
    obtain rfl := List.mem_singleton.mp mem
    refine ⟨rfl, fun found stored => paid found ?_⟩
    rw [Store.find?_replace, if_pos ⟨rfl, rfl⟩] at stored
    exact stored
  others other probe apart := by
    rw [Store.find?_replace, if_neg]
    rintro ⟨rfl, rfl⟩
    exact apart _ List.mem_cons_self ⟨rfl, rfl⟩

/-- **Two stretches make one**: what the second one writes again is billed by it. -/
theorem chains : Chains fun before after => ∃ made, OwnExpense scope before after made where
  refl store := ⟨[], of_staging (Staging.chains.refl store)⟩
  trans {first second third} one two := by
    obtain ⟨early, one⟩ := one
    obtain ⟨late, two⟩ := two
    refine ⟨late ++ early, ?_, fun change mem => ?_, fun other key apart => ?_⟩
    · rw [two.noted, one.noted, Option.map_map]
      congr 1
      funext log
      exact (List.append_assoc late early log).symm
    · rcases List.mem_append.mp mem with mem | mem
      · exact two.billed change mem
      · obtain ⟨here, billed⟩ := one.billed change mem
        refine ⟨here, fun entry stored => ?_⟩
        by_cases again : ∃ later ∈ late, later.scope = scope ∧ later.key = change.key
        · obtain ⟨later, mem, _, same⟩ := again
          exact (two.billed later mem).2 entry (same ▸ stored)
        · have kept := two.others scope change.key fun later mem same => again ⟨later, mem, same⟩
          exact billed entry (kept ▸ stored)
    · rw [two.others other key fun change mem => apart change (List.mem_append_left _ mem),
        one.others other key fun change mem => apart change (List.mem_append_right _ mem)]

/-- A write or an erasing is one change or none. -/
theorem of_changes {key : Bytes} {entry : Option Entry}
    (paid : ∀ found, entry = some found → found.payer = scope)
    (h : after = before ∨ after = (before.replace scope key entry).2) :
    ∃ made, OwnExpense scope before after made := by
  rcases h with rfl | rfl
  · exact chains.refl _
  · exact ⟨_, replace before key paid⟩

variable (scope) in
theorem erase (access : Access) (key : Bytes) :
    (access.backend.erase scope key).Keeps fun before after =>
      ∃ made, OwnExpense scope before after made := by
  have gone : ∀ found, (none : Option Entry) = some found → found.payer = scope := nofun
  cases access <;> exact fun store => of_changes gone (Store.erase_changes scope key store)

variable (scope) in
/-- What tables and single records ask of a store, they ask at their own expense. -/
theorem keepsIn (access : Access) :
    access.backend.KeepsIn scope fun before after => ∃ made, OwnExpense scope before after made where
  chains := chains
  read key := by
    have looks : (Issued.mk access (.read scope key)).perform.Keeps Staging :=
      Issued.staging _ rfl
    exact looks.mono fun staging => ⟨[], of_staging staging⟩
  write key value := by
    have paid : ∀ found, some (⟨value, scope⟩ : Entry) = some found → found.payer = scope := by
      rintro _ ⟨⟩
      rfl
    cases access <;>
      exact fun store => of_changes paid (Store.write_changes scope key value scope store)
  erase := erase scope access

end OwnExpense

/-- A call on a single record keeps what the backend keeps in its scope. -/
theorem SingleCall.keepsIn {R : Store → Store → Prop} {backend : Backend Store}
    {place : SingleRecord ρ} (keeps : backend.KeepsIn place.scope R)
    (holds : ∀ key, (backend.holds place.scope key).Keeps R) (made : SingleCall ρ β) :
    (made.perform backend place).Keeps R := by
  have get : (place.get backend).Keeps R := by
    refine Keeps.bind keeps.chains (keeps.read _) fun found => ?_
    cases found with
    | none => exact Keeps.pure keeps.chains none
    | some payload =>
      exact Keeps.bind keeps.chains (Keeps.ofExcept keeps.chains _) fun _ =>
        Keeps.pure keeps.chains _
  cases made with
  | isStored => exact holds _
  | get => exact get
  | getD default => exact Keeps.bind keeps.chains get fun _ => Keeps.pure keeps.chains _
  | put record =>
    exact Keeps.bind keeps.chains (keeps.write _ _) fun _ => Keeps.pure keeps.chains ()
  | remove =>
    refine Keeps.bind keeps.chains (holds _) fun found => ?_
    cases found with
    | false => exact Keeps.pure keeps.chains false
    | true => exact Keeps.bind keeps.chains (keeps.erase _) fun _ => Keeps.pure keeps.chains true

/-! ## 3. What can cost something -/

/-- A call that can move accounts, by either way to the store: any call of the store itself, a write
    of a table, a call on a single record. -/
inductive Expense (Rec : κ → Type) : Type → Type where
  | store {β : Type} (issued : Issued β) : Expense Rec β
  | table {β : Type} (access : Access) (kind : κ) (table : Table (Rec kind))
    (made : TableWrite (Rec kind) β) : Expense Rec β
  | single {β : Type} (access : Access) (kind : κ) (place : SingleRecord (Rec kind))
    (made : SingleCall (Rec kind) β) : Expense Rec β

/-- Makes a call. -/
def Expense.perform {Rec : κ → Type} : Expense Rec β → Action Store β
  | store issued => issued.perform
  | table access _ target made => made.perform access.backend target
  | single access _ place made => made.perform access.backend place

/-- What every call of the store keeps, each way to it keeps. -/
theorem Access.keepsIn_of_issued {R : Store → Store → Prop} (chains : Chains R)
    (h : ∀ {β : Type} (issued : Issued β), issued.perform.Keeps R) (access : Access)
    (scope : Name) : access.backend.KeepsIn scope R where
  chains := chains
  read key := h ⟨access, .read scope key⟩
  write key value := h ⟨access, .write scope key value scope⟩
  erase key := h ⟨access, .erase scope key⟩

theorem Expense.evenly {Rec : κ → Type} (made : Expense Rec β) : made.perform.Keeps Evenly := by
  cases made with
  | store issued => exact issued.evenly
  | table access _ table made =>
    exact made.keepsIn (access.keepsIn_of_issued Evenly.chains (fun issued => issued.evenly) table.scope)
  | single access _ place made =>
    exact made.keepsIn (access.keepsIn_of_issued Evenly.chains (fun issued => issued.evenly) place.scope)
      fun key => Issued.evenly ⟨access, .holds place.scope key⟩

/-! ## 4. The result -/

/-- **Accounts are exact.** Let a client write what it likes to a new store: directly, by tables, by
    single records, in units of work that stay or are taken back. After each of its steps every
    payer's account is the sum of the lengths of key and value and the configured extra over all
    scopes and all entries billed to it, and so zero for a payer without an entry. From any store a
    write or an erasing answers with the change of all accounts together, and a refused write changes
    none; and all that a table or a single record writes is in its scope and billed to it. -/
theorem Script.bills_exact {Rec : κ → Type} (settings : Settings)
    (script : Script (Expense Rec) α) :
    (∀ event ∈ script.history Expense.perform (Store.fresh settings), ∀ payer,
      event.after.usage payer = event.after.billed payer ∧
      ((∀ scope key entry, event.after.find? scope key = some entry → entry.payer ≠ payer) →
        event.after.usage payer = 0)) ∧
    (∀ access : Access, ∀ scope key value payer store,
      match outcome (access.backend.write scope key value payer) store with
      | (.ok change, after) => after.totalUsage - store.totalUsage = change
      | (.error _, after) => after = store) ∧
    (∀ access : Access, ∀ scope key store,
      ∃ change after, outcome (access.backend.erase scope key) store = (.ok change, after)
        ∧ after.totalUsage - store.totalUsage = change) ∧
    (∀ {ρ β : Type} (access : Access) (table : Table ρ) (made : TableWrite ρ β) (store : Store),
      ∃ changes, OwnExpense table.scope store
        (outcome (made.perform access.backend table) store).2 changes) ∧
    ∀ {ρ β : Type} (access : Access) (place : SingleRecord ρ) (made : SingleCall ρ β)
      (store : Store), ∃ changes, OwnExpense place.scope store
        (outcome (made.perform access.backend place) store).2 changes := by
  refine ⟨fun event mem payer => ?_, fun access scope key value payer store => ?_,
    fun access scope key store => ?_, fun access table made store => ?_,
    fun access place made store => ?_⟩
  · have moved := history_keeps Evenly.chains (fun _ => Evenly.of_same rfl rfl rfl)
      (fun made => made.evenly) Evenly.transact script (Store.fresh settings) event mem
    have balanced := moved.balanced (Store.Balanced.fresh settings) payer
    exact ⟨balanced, fun none => balanced.trans (Store.billed_eq_zero none)⟩
  · have answered := Store.totalUsage_write scope key value payer store
    have same : access.backend.write = Store.write := by cases access <;> rfl
    rw [same]
    rcases ends : outcome (Store.write scope key value payer) store with ⟨fault | change, after⟩
    · rw [ends] at answered
      exact answered
    · rw [ends] at answered
      dsimp only at answered ⊢
      omega
  · have answered := Store.totalUsage_erase scope key store
    have same : access.backend.erase = Store.erase := by cases access <;> rfl
    rw [same]
    rcases ends : outcome (Store.erase scope key) store with ⟨fault | change, after⟩
    · rw [ends] at answered
      exact answered.elim
    · rw [ends] at answered
      dsimp only at answered
      exact ⟨change, after, rfl, by omega⟩
  · exact made.keepsIn (OwnExpense.keepsIn table.scope access) store
  · refine made.keepsIn (OwnExpense.keepsIn place.scope access) (fun key => ?_) store
    have looks : (Issued.mk access (.holds place.scope key)).perform.Keeps Staging :=
      Issued.staging _ rfl
    exact looks.mono fun staging => ⟨[], OwnExpense.of_staging staging⟩

end IndexedStore
