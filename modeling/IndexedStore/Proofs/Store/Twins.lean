import IndexedStore.Proofs.Store.Calls
/-!
# Two ways to one store

A store that offers its conveniences itself and the same store behind its primitives alone: the second
way stages values where the first does not, and tells sizes in 32 bits before it copies. Two stores
that are led through one history by these two ways are TWINS: they differ in the staged value at most,
and hold nothing whose size 32 bits do not tell.

* `Store.Sized` is the invariant of sizes. Limits are numbers of 32 bits, so every write keeps it, and
  so does taking writes back;
* `Twin` relates the two stores, `Alike` two computations that give one result on twins and leave
  twins, and `Action.Agree` two actions. What is put together from agreeing parts agrees (section 3);
* `Backend.Mirrors` is that two ways agree in all that tables use, and **`Store.native_mirrors`** that
  the two ways do. `Call.agree` says the same of the calls of a store.
-/

namespace IndexedStore

open IndexedStore.Action

/-! ## 1. Sizes -/

/-- Whether the sizes of a key and of its value are told in full. -/
structure Told (key : Bytes) (entry : Entry) : Prop where
  key : key.length < UInt32.size
  value : entry.value.length < UInt32.size

/-- Whether the sizes of all that a store holds, and of all that its log could bring back, are told
    in full. -/
structure Store.Sized (store : Store) : Prop where
  entries : ∀ scope key entry, store.find? scope key = some entry → Told key entry
  log : ∀ change ∈ store.log.getD [], ∀ entry, change.before = some entry → Told change.key entry

namespace Store.Sized

variable {store : Store}

theorem fresh (settings : Settings) : (Store.fresh settings).Sized where
  entries _ _ _ found := nomatch found
  log _ mem := absurd mem List.not_mem_nil

/-- A change keeps the sizes told, if it puts nothing too large in place. -/
theorem replace (h : store.Sized) (scope : Name) (key : Bytes) {after : Option Entry}
    (told : ∀ entry, after = some entry → Told key entry) :
    (store.replace scope key after).2.Sized where
  entries other probe entry found := by
    rw [Store.find?_replace] at found
    by_cases here : other = scope ∧ probe = key
    · rw [if_pos here] at found
      exact here.2 ▸ told entry found
    · rw [if_neg here] at found
      exact h.entries other probe entry found
  log change mem entry before := by
    rw [Store.log_replace] at mem
    cases isOpen : store.log with
    | none =>
      rw [isOpen] at mem
      exact absurd mem List.not_mem_nil
    | some log =>
      rw [isOpen] at mem
      rcases List.mem_cons.mp mem with rfl | mem
      · exact h.entries scope key entry before
      · refine h.log change ?_ entry before
        rw [isOpen]
        exact mem

/-- Taking changes back keeps the sizes told, if what they bring back is told. -/
theorem undo {changes : List Change} (h : store.Sized)
    (told : ∀ change ∈ changes, ∀ entry, change.before = some entry → Told change.key entry) :
    (store.undo changes).Sized := by
  induction changes generalizing store with
  | nil => exact h
  | cons change rest ih =>
    refine ih (h.replace _ _ (told change List.mem_cons_self)) fun other mem => ?_
    exact told other (List.mem_cons_of_mem _ mem)

/-- Only entries and log matter. -/
theorem congr (h : store.Sized) {other : Store}
    (entries : ∀ scope key, other.find? scope key = store.find? scope key)
    (log : other.log = store.log) : other.Sized where
  entries scope key entry found := h.entries scope key entry ((entries scope key).symm.trans found)
  log := by
    rw [log]
    exact h.log

end Store.Sized

/-! ## 2. Twins -/

/-- Whether two stores with given settings differ in the staged value at most, and hold nothing whose
    size is not told in full. -/
structure Twin (settings : Settings) (first second : Store) : Prop where
  settings : first.settings = settings
  sized : first.Sized
  staging : Staging first second

/-- Whether two computations have ended with one result and have left twins. -/
structure EndAlike {γ : Type} (settings : Settings) (first second : γ × Store) : Prop where
  result : first.1 = second.1
  twin : Twin settings first.2 second.2

/-- Whether two computations, run on twins, end alike. -/
def Alike {γ : Type} (settings : Settings) (first second : Store → γ × Store) : Prop :=
  ∀ s t, Twin settings s t → EndAlike settings (first s) (second t)

/-- Whether two actions, run on twins, end alike. -/
def Action.Agree {β : Type} (settings : Settings) (first second : Action Store β) : Prop :=
  Alike settings (outcome first) (outcome second)

variable {settings : Settings} {α β γ δ : Type}

/-- Twins look alike to whatever does not look at the staged value. -/
theorem Twin.same {s t : Store} (h : Twin settings s t) {see : Store → γ}
    (blind : ∀ (store : Store) (staged : Bytes), see { store with staged } = see store) :
    see s = see t := by
  obtain ⟨staged, rfl⟩ := h.staging
  exact (blind s staged).symm

/-! ## 3. Agreement -/

namespace Alike

protected theorem pure (value : γ) :
    Alike settings (pure value : StateM Store γ) (pure value : StateM Store γ) :=
  fun _ _ twin => ⟨rfl, twin⟩

/-- Two computations in sequence agree if the first ones do, and the second ones do for every result. -/
protected theorem bind {first second : StateM Store γ} {next next' : γ → StateM Store δ}
    (h : Alike settings first second) (h' : ∀ value, Alike settings (next value) (next' value)) :
    Alike settings (first >>= next) (second >>= next') := by
  intro s t twin
  obtain ⟨same, twin'⟩ := h s t twin
  rw [run_bind, run_bind, same]
  exact h' _ _ _ twin'

/-- A look at the state first, where all that is looked at is alike on twins. -/
theorem get_bind (see see' : Store → γ) (next next' : γ → StateM Store δ)
    (alike : ∀ s t, Twin settings s t → see s = see' t)
    (h : ∀ seen, Alike settings (next seen) (next' seen)) :
    Alike settings (get >>= fun store => next (see store) : StateM Store δ)
      (get >>= fun store => next' (see' store) : StateM Store δ) := by
  intro s t twin
  have start : (get >>= fun store => next (see store) : StateM Store δ) s = next (see s) s := rfl
  rw [start, alike s t twin]
  exact h (see' t) s t twin

/-- What alike computations give, handed out by actions. -/
protected theorem lift {first second : StateM Store γ} (h : Alike settings first second) :
    Action.Agree settings (ExceptT.lift first) (ExceptT.lift second) := by
  intro s t twin
  obtain ⟨same, twin'⟩ := h s t twin
  exact ⟨congrArg Except.ok same, twin'⟩

end Alike

namespace Action.Agree

variable {first second : Action Store β} {next next' : β → Action Store γ}

protected theorem pure (value : β) : Agree settings (pure value) (pure value) :=
  fun _ _ twin => ⟨rfl, twin⟩

protected theorem throw (fault : Fault) :
    Agree settings (throw fault : Action Store β) (throw fault) :=
  fun _ _ twin => ⟨rfl, twin⟩

protected theorem ofExcept (result : Except Fault β) :
    Agree settings (Action.ofExcept result) (Action.ofExcept result) :=
  fun _ _ twin => ⟨rfl, twin⟩

protected theorem bind (h : Agree settings first second)
    (h' : ∀ value, Agree settings (next value) (next' value)) :
    Agree settings (first >>= next) (second >>= next') := by
  have parts : Alike settings
      (first.run >>= fun result => ExceptT.bindCont next result : StateM Store _)
      (second.run >>= fun result => ExceptT.bindCont next' result : StateM Store _) := by
    refine Alike.bind h fun result => ?_
    cases result with
    | error fault => exact Agree.throw fault
    | ok value => exact h' value
  exact parts

/-- A look at the state first, where all that is looked at is alike on twins. -/
theorem get_bind (see see' : Store → α) (next next' : α → Action Store β)
    (alike : ∀ s t, Twin settings s t → see s = see' t)
    (h : ∀ seen, Agree settings (next seen) (next' seen)) :
    Agree settings (get >>= fun store => next (see store))
      (get >>= fun store => next' (see' store)) := by
  intro s t twin
  rw [outcome_get_bind, outcome_get_bind, alike s t twin]
  exact h (see' t) s t twin

protected theorem onFault (h : Agree settings first second) {cleanup cleanup' : StateM Store Unit}
    (cleans : Alike settings cleanup cleanup') :
    Agree settings (first.onFault cleanup) (second.onFault cleanup') := by
  intro s t twin
  have ends := h s t twin
  rw [outcome_onFault, outcome_onFault]
  rcases ran : outcome first s with ⟨result, after⟩
  rcases ran' : outcome second t with ⟨result', after'⟩
  rw [ran, ran'] at ends
  obtain ⟨rfl, twin'⟩ : result = result' ∧ Twin settings after after' := ⟨ends.result, ends.twin⟩
  cases result with
  | error fault => exact ⟨rfl, (cleans after after' twin').2⟩
  | ok value => exact ⟨rfl, twin'⟩

protected theorem forM {α : Type} {body body' : α → Action Store PUnit} (list : List α)
    (h : ∀ item, Agree settings (body item) (body' item)) :
    Agree settings (list.forM body) (list.forM body') := by
  induction list with
  | nil => exact Agree.pure _
  | cons head rest ih => exact Agree.bind (h head) fun _ => ih

protected theorem mapM {α : Type} {body body' : α → Action Store β} (list : List α)
    (h : ∀ item, Agree settings (body item) (body' item)) :
    Agree settings (list.mapM body) (list.mapM body') := by
  induction list with
  | nil =>
    rw [List.mapM_nil, List.mapM_nil]
    exact Agree.pure []
  | cons head rest ih =>
    rw [List.mapM_cons, List.mapM_cons]
    exact Agree.bind (h head) fun _ => Agree.bind ih fun _ => Agree.pure _

protected theorem quietly (h : Agree settings first second) :
    Alike settings first.quietly second.quietly :=
  fun s t twin => ⟨rfl, (h s t twin).2⟩

/-- An action that overlooks the staged value agrees with itself, if it keeps sizes told. -/
theorem of_overlooks {action : Action Store β}
    (overlooks : ∀ staged, Overlooks (fun _ => staged) id action)
    (kept : ∀ store, (outcome action store).2.settings = store.settings)
    (sized : ∀ store, store.Sized → (outcome action store).2.Sized) :
    Agree settings action action := by
  rintro s _ ⟨given, told, staged, rfl⟩
  have ends : outcome action { s with staged }
      = ((outcome action s).1, { (outcome action s).2 with staged }) := overlooks staged s
  rw [ends]
  exact ⟨rfl, (kept s).trans given, sized s told, staged, rfl⟩

end Action.Agree

/-! ## 4. Calls -/

/-- A store that differs in its cursors and in the staged value has the same sizes. -/
theorem Store.Sized.sparing {before after : Store} (h : before.Sized)
    (spares : Sparing before after) : after.Sized := by
  obtain ⟨staged, cursors, nextCursor, rfl⟩ := spares
  exact h.congr (fun _ _ => rfl) rfl

/-- **Every call keeps sizes told**: what it stores has passed limits of 32 bits. -/
theorem Issued.sized_perform (issued : Issued β) {store : Store} (h : store.Sized) :
    (outcome issued.perform store).2.Sized := by
  have silent : issued.call.writes? = none → (outcome issued.perform store).2.Sized :=
    fun silent => h.sparing (issued.sparing silent store)
  obtain ⟨access, call⟩ := issued
  cases call with
  | write scope key value payer =>
    have ends : (outcome (Store.write scope key value payer) store).2.Sized := by
      rw [Store.outcome_write]
      split
      · exact h
      · split
        · exact h
        · refine h.replace scope key fun entry same => ?_
          cases same
          have keys := UInt32.toNat_lt_size store.settings.limits.maxKeySize
          have values := UInt32.toNat_lt_size store.settings.limits.maxValueSize
          exact ⟨by omega, by dsimp only; omega⟩
    cases access <;> exact ends
  | erase scope key =>
    have ends : (outcome (Store.erase scope key) store).2.Sized := by
      rcases Store.erase_changes scope key store with same | changed
      · rw [same]
        exact h
      · rw [changed]
        exact h.replace scope key nofun
    cases access <;> exact ends
  | _ => exact silent rfl

theorem Issued.settings_perform (issued : Issued β) (store : Store) :
    (outcome issued.perform store).2.settings = store.settings := by
  have silent : issued.call.writes? = none →
      (outcome issued.perform store).2.settings = store.settings := by
    intro silent
    obtain ⟨staged, cursors, nextCursor, same⟩ := issued.sparing silent store
    rw [same]
  obtain ⟨access, call⟩ := issued
  cases call with
  | write scope key value payer =>
    have ends : (outcome (Store.write scope key value payer) store).2.settings
        = store.settings := by
      rcases Store.write_changes scope key value payer store with same | changed
      · rw [same]
      · rw [changed, Store.settings_replace]
    cases access <;> exact ends
  | erase scope key =>
    have ends : (outcome (Store.erase scope key) store).2.settings = store.settings := by
      rcases Store.erase_changes scope key store with same | changed
      · rw [same]
      · rw [changed, Store.settings_replace]
    cases access <;> exact ends
  | _ => exact silent rfl

/-- A call that is not about the staged value ends alike on twins. -/
theorem Call.agree_native (call : Call β) (unstaged : call.Unstaged) :
    Action.Agree settings (call.perform Store.native) (call.perform Store.native) := by
  let issued : Issued β := ⟨.native, call⟩
  exact Action.Agree.of_overlooks (fun staged => Call.overlooks (fun _ _ => rfl) unstaged)
    issued.settings_perform fun _ told => issued.sized_perform told

/-! ## 5. The two ways -/

/-- A value whose size is told is taken whole. -/
theorem take_told {bytes : Bytes} (h : bytes.length < UInt32.size) :
    bytes.take (Bytes.told bytes.length) = bytes := by
  rw [Bytes.told_of_lt h, List.take_length]

namespace Store

/-- Staging tells the size of a value, and sets it aside. -/
theorem outcome_stage (scope : Name) (key : Bytes) (store : Store) :
    outcome (stage scope key) store
      = (.ok ((store.find? scope key).map fun entry => Bytes.told entry.value.length),
        { store with
          staged := ((store.find? scope key).map (·.value)).getD store.staged }) := by
  unfold stage
  rw [outcome_get_bind]
  cases store.find? scope key <;> rfl

/-- Reading through the staged value finds as much of the value as its size tells of. -/
theorem outcome_relayed_read (scope : Name) (key : Bytes) (store : Store) :
    ∃ staged, outcome (Store.relayed.read scope key) store
      = (.ok ((store.find? scope key).map fun entry =>
          entry.value.take (Bytes.told entry.value.length)), { store with staged }) := by
  have told : outcome (primitives.stage scope key) store = _ := outcome_stage scope key store
  have form : Store.relayed.read = primitives.read := rfl
  rw [form]
  unfold Primitives.read
  cases found : store.find? scope key with
  | none =>
    rw [found] at told
    exact ⟨store.staged, outcome_bind_ok told⟩
  | some entry =>
    rw [found] at told
    have copied : outcome (copyStaged 0 (Bytes.zeros (Bytes.told entry.value.length)))
        { store with staged := entry.value }
        = (.ok (Bytes.told entry.value.length,
            entry.value.take (Bytes.told entry.value.length)),
          { store with staged := entry.value }) := by
      rw [← copyInto_zeros]
      rfl
    refine ⟨entry.value, ?_⟩
    rw [outcome_bind_ok told, Option.map_some]
    refine (outcome_bind_ok copied).trans ?_
    simp only [List.take_take, Nat.min_self]
    rfl

end Store

theorem agree_stage (scope : Name) (key : Bytes) :
    Action.Agree settings (Store.stage scope key) (Store.stage scope key) := by
  rintro s _ ⟨given, sized, staged, rfl⟩
  rw [Store.outcome_stage, Store.outcome_stage]
  exact ⟨rfl, given, sized.congr (fun _ _ => rfl) rfl, _, rfl⟩

theorem agree_read (scope : Name) (key : Bytes) :
    Action.Agree settings (Store.native.read scope key) (Store.relayed.read scope key) := by
  rintro s _ ⟨given, sized, staged, rfl⟩
  obtain ⟨staged', ends⟩ := Store.outcome_relayed_read scope key { s with staged }
  rw [ends]
  refine ⟨congrArg Except.ok (Option.map_congr fun entry found => ?_), given, sized, staged', rfl⟩
  exact (take_told (sized.entries scope key entry found).value).symm

theorem agree_holds (scope : Name) (key : Bytes) :
    Action.Agree settings (Store.native.holds scope key) (Store.relayed.holds scope key) := by
  rintro s _ ⟨given, sized, staged, rfl⟩
  have native : outcome (Store.native.holds scope key) s
      = (.ok (s.find? scope key).isSome, s) := rfl
  have form : Store.relayed.holds scope key = (do return (← Store.stage scope key).isSome) := rfl
  have told := Store.outcome_stage scope key { s with staged }
  rw [native, form, outcome_bind_ok told, Option.isSome_map]
  exact ⟨rfl, given, sized, _, rfl⟩

/-- The sizes of what a cursor finds are told. -/
theorem Store.Sized.entryAt? {store : Store} (h : store.Sized) {cursor : Cursor}
    {found : Bytes × Entry} (here : store.entryAt? cursor = some found) :
    Told found.1 found.2 :=
  h.entries _ _ _ (Store.entryAt?_eq_some.mp here).2

/-- What is read of an entry under a cursor at once is what is read by its size first. -/
theorem agree_whole {id : CursorId} {part : Bytes × Entry → Bytes}
    {action : Action Store (Option Bytes)}
    (reads : ∀ store, outcome action store = match store.cursors.get? id with
      | none => (.error (.unknownCursor id), store)
      | some found => (.ok ((store.entryAt? found).map part), store))
    (told : ∀ found, Told found.1 found.2 → (part found).length < UInt32.size) :
    Action.Agree settings action
      (Primitives.whole fun offset buffer => Store.copyCurrent id part offset buffer) := by
  rintro s _ ⟨given, sized, staged, rfl⟩
  have cursors : Store.cursors { s with staged } = s.cursors := rfl
  rw [reads, Store.outcome_whole, cursors]
  cases s.cursors.get? id with
  | none => exact ⟨rfl, given, sized, staged, rfl⟩
  | some found =>
    refine ⟨congrArg Except.ok ?_, given, sized, staged, rfl⟩
    exact Option.map_congr fun entry here => (take_told (told entry (sized.entryAt? here))).symm

/-- Whether two ways to a store agree in all that tables use. -/
structure Backend.Mirrors (settings : Settings) (first second : Backend Store) : Prop where
  read : ∀ scope key, Action.Agree settings (first.read scope key) (second.read scope key)
  holds : ∀ scope key, Action.Agree settings (first.holds scope key) (second.holds scope key)
  write : ∀ scope key value payer,
    Action.Agree settings (first.write scope key value payer) (second.write scope key value payer)
  erase : ∀ scope key, Action.Agree settings (first.erase scope key) (second.erase scope key)
  openCursor : ∀ scope stem,
    Action.Agree settings (first.openCursor scope stem) (second.openCursor scope stem)
  closeCursor : ∀ id, Action.Agree settings (first.closeCursor id) (second.closeCursor id)
  cursorStanding : ∀ id,
    Action.Agree settings (first.cursorStanding id) (second.cursorStanding id)
  nextKey : ∀ id, Action.Agree settings (first.nextKey id) (second.nextKey id)
  previousKey : ∀ id, Action.Agree settings (first.previousKey id) (second.previousKey id)
  seekKey : ∀ id key, Action.Agree settings (first.seekKey id key) (second.seekKey id key)
  currentKey : ∀ id, Action.Agree settings (first.currentKey id) (second.currentKey id)
  currentValue : ∀ id, Action.Agree settings (first.currentValue id) (second.currentValue id)
  compareCursors : ∀ a b,
    Action.Agree settings (first.compareCursors a b) (second.compareCursors a b)
  compareKey : ∀ id key,
    Action.Agree settings (first.compareKey id key) (second.compareKey id key)
  population : ∀ scope s t, Twin settings s t →
    first.population scope s = second.population scope t

/-- **The store and its primitives alone are two ways to one store.** -/
theorem Store.native_mirrors (settings : Settings) :
    Store.native.Mirrors settings Store.relayed where
  read := agree_read
  holds := agree_holds
  write scope key value payer := Call.agree_native (.write scope key value payer) trivial
  erase scope key := Call.agree_native (.erase scope key) trivial
  openCursor scope stem := Call.agree_native (.openCursor scope stem) trivial
  closeCursor id := Call.agree_native (.closeCursor id) trivial
  cursorStanding id := Call.agree_native (.cursorStanding id) trivial
  nextKey id := Call.agree_native (.nextKey id) trivial
  previousKey id := Call.agree_native (.previousKey id) trivial
  seekKey id key := Call.agree_native (.seekKey id key) trivial
  currentKey id := agree_whole (Store.outcome_currentKey id) fun _ told => told.key
  currentValue id := agree_whole (Store.outcome_currentValue id) fun _ told => told.value
  compareCursors a b := Call.agree_native (.compareCursors a b) trivial
  compareKey id key := Call.agree_native (.compareKey id key) trivial
  population _ _ _ twin := twin.same fun _ _ => rfl

/-- Whether a call copies from the staged value. -/
def Call.CopiesStaged : Call β → Prop
  | copyStaged .. => True
  | _ => False

/-- **A call ends alike by the two ways**, unless it copies from the staged value. -/
theorem Call.agree {call : Call β} (apart : ¬ call.CopiesStaged) :
    Action.Agree settings (call.perform Store.native) (call.perform Store.relayed) := by
  have mirrors := Store.native_mirrors settings
  have same : call.Unstaged → Action.Agree settings (call.perform Store.native)
      (call.perform Store.native) := agree_native call
  cases call with
  | copyStaged => exact absurd trivial apart
  | stage scope key => exact agree_stage scope key
  | read scope key => exact mirrors.read scope key
  | holds scope key => exact mirrors.holds scope key
  | currentKey id => exact mirrors.currentKey id
  | currentValue id => exact mirrors.currentValue id
  | _ => exact same trivial

/-! ## 6. Units of work -/

/-- Taking changes back does the same, whatever is staged. -/
theorem Store.undo_staged (store : Store) (staged : Bytes) (changes : List Change) :
    Store.undo { store with staged } changes = { store.undo changes with staged } := by
  induction changes generalizing store with
  | nil => rfl
  | cons change rest ih =>
    have step : Store.replace { store with staged } change.scope change.key change.before
        = ((store.replace change.scope change.key change.before).1,
          { (store.replace change.scope change.key change.before).2 with staged }) :=
      @Store.replace_aside (fun _ => staged) id (fun _ _ => rfl) store _ _ _
    unfold undo
    rw [step]
    exact ih _

theorem Store.settings_undo (store : Store) (changes : List Change) :
    (store.undo changes).settings = store.settings := by
  induction changes generalizing store with
  | nil => rfl
  | cons change rest ih =>
    unfold undo
    rw [ih, settings_replace]

/-- Opening a log leaves twins. -/
theorem Twin.begin {s t : Store} (h : Twin settings s t) :
    Twin settings { s with log := some [] } { t with log := some [] } := by
  obtain ⟨given, sized, staged, rfl⟩ := h
  exact ⟨given, ⟨sized.entries, fun _ mem => absurd mem List.not_mem_nil⟩, staged, rfl⟩

/-- Closing the log leaves twins. -/
theorem Twin.commit {s t : Store} (h : Twin settings s t) :
    Twin settings { s with log := none } { t with log := none } := by
  obtain ⟨given, sized, staged, rfl⟩ := h
  exact ⟨given, ⟨sized.entries, fun _ mem => absurd mem List.not_mem_nil⟩, staged, rfl⟩

/-- Taking a unit of work back leaves twins. -/
theorem Twin.rollback {s t : Store} (h : Twin settings s t) :
    Twin settings ({ s with log := none }.undo (s.log.getD []))
      ({ t with log := none }.undo (t.log.getD [])) := by
  obtain ⟨given, sized, staged, rfl⟩ := h
  let unlogged : Store := { s with log := none }
  have ends := unlogged.undo_staged staged (s.log.getD [])
  have told : unlogged.Sized := ⟨sized.entries, fun _ mem => absurd mem List.not_mem_nil⟩
  exact ⟨(unlogged.settings_undo _).trans given, told.undo sized.log, staged, ends⟩

/-- **Units of work end alike on twins if their bodies do.** -/
theorem Twin.transact {first second : Action Store β} {s t : Store} (h : Twin settings s t)
    (inner : s.log = none → EndAlike settings (outcome first { s with log := some [] })
      (outcome second { t with log := some [] })) :
    EndAlike settings (outcome (Store.transact first) s) (outcome (Store.transact second) t) := by
  have logs : s.log = t.log := h.same fun _ _ => rfl
  cases isOpen : s.log with
  | some log =>
    rw [Store.transact_nested first (by rw [isOpen]; rfl),
      Store.transact_nested second (by rw [← logs, isOpen]; rfl)]
    exact ⟨rfl, h⟩
  | none =>
    have ends := inner isOpen
    rcases ran : outcome first { s with log := some [] } with ⟨result, after⟩
    rcases ran' : outcome second { t with log := some [] } with ⟨result', after'⟩
    rw [ran, ran'] at ends
    obtain ⟨rfl, twin⟩ : result = result' ∧ Twin settings after after' := ⟨ends.result, ends.twin⟩
    cases result with
    | error fault =>
      rw [Store.transact_of_error isOpen ran, Store.transact_of_error (logs ▸ isOpen) ran']
      exact ⟨rfl, twin.rollback⟩
    | ok value =>
      rw [Store.transact_of_ok isOpen ran, Store.transact_of_ok (logs ▸ isOpen) ran']
      exact ⟨rfl, twin.commit⟩

end IndexedStore
