import IndexedStore.Action
/-!
# Running actions

How actions run, and what follows for an action from what holds of its parts.

* `Action.outcome` is the result of an action together with the state it leaves; section 1 computes
  it through every way of building actions;
* `Action.caught` makes how an action ends its result;
* `Action.Keeps` says that an action leads only to states RELATED to the one it starts from. For a
  relation that chains (`Chains`), whatever is put together from such actions is one (section 2).
-/

namespace IndexedStore

/-- A relation between earlier and later states: nothing is lost by doing nothing, and two stretches
    make one. -/
structure Chains {σ : Type} (R : σ → σ → Prop) : Prop where
  refl : ∀ s, R s s
  trans : ∀ {s t u}, R s t → R t u → R s u

namespace Action

variable {σ α β : Type}

/-- How an action ends, and the state that it leaves. -/
def outcome (action : Action σ α) (state : σ) : Except Fault α × σ :=
  action.run state

/-! ## 1. Outcomes -/

/-- Of two computations in sequence the second runs on the state that the first leaves. -/
theorem run_bind (first : StateM σ α) (next : α → StateM σ β) (s : σ) :
    (first >>= next) s = next (first s).1 (first s).2 := rfl

@[simp] theorem outcome_pure (value : α) (s : σ) :
    outcome (pure value : Action σ α) s = (.ok value, s) := rfl

@[simp] theorem outcome_throw (fault : Fault) (s : σ) :
    outcome (throw fault : Action σ α) s = (.error fault, s) := rfl

theorem outcome_bind (action : Action σ α) (next : α → Action σ β) (s : σ) :
    outcome (action >>= next) s = match outcome action s with
      | (.ok value, t) => outcome (next value) t
      | (.error fault, t) => (.error fault, t) := by
  have run : outcome (action >>= next) s
      = ExceptT.bindCont next (outcome action s).1 (outcome action s).2 := rfl
  rw [run]
  rcases outcome action s with ⟨_ | _, t⟩ <;> rfl

/-- An action that succeeds hands its state on. -/
theorem outcome_bind_ok {action : Action σ α} {next : α → Action σ β} {s t : σ} {value : α}
    (h : outcome action s = (.ok value, t)) :
    outcome (action >>= next) s = outcome (next value) t := by
  rw [outcome_bind, h]

/-- An action that faults is the end. -/
theorem outcome_bind_error {action : Action σ α} {next : α → Action σ β} {s t : σ} {fault : Fault}
    (h : outcome action s = (.error fault, t)) :
    outcome (action >>= next) s = (.error fault, t) := by
  rw [outcome_bind, h]

@[simp] theorem outcome_get_bind (next : σ → Action σ β) (s : σ) :
    outcome (get >>= next) s = outcome (next s) s := rfl

@[simp] theorem outcome_set_bind (t : σ) (next : PUnit → Action σ β) (s : σ) :
    outcome (set t >>= next) s = outcome (next ⟨⟩) t := rfl

@[simp] theorem outcome_set (t s : σ) : outcome (set t : Action σ PUnit) s = (.ok ⟨⟩, t) := rfl

@[simp] theorem outcome_pure_bind (value : α) (next : α → Action σ β) (s : σ) :
    outcome (pure value >>= next) s = outcome (next value) s := rfl

@[simp] theorem outcome_throw_bind (fault : Fault) (next : α → Action σ β) (s : σ) :
    outcome (throw fault >>= next) s = (.error fault, s) := rfl

@[simp] theorem outcome_map (f : α → β) (action : Action σ α) (s : σ) :
    outcome (f <$> action) s = ((outcome action s).1.map f, (outcome action s).2) := by
  rw [map_eq_pure_bind, outcome_bind]
  rcases outcome action s with ⟨_ | _, t⟩ <;> rfl

@[simp] theorem outcome_ofExcept (result : Except Fault α) (s : σ) :
    outcome (ofExcept result) s = (result, s) := rfl

/-- The cleanup runs on the state that the fault leaves, and only then. -/
theorem outcome_onFault (action : Action σ α) (cleanup : StateM σ Unit) (s : σ) :
    outcome (action.onFault cleanup) s = match outcome action s with
      | (.ok value, t) => (.ok value, t)
      | (.error fault, t) => (.error fault, (cleanup t).2) := by
  have run : outcome (action.onFault cleanup) s = _ := run_bind action.run _ s
  have ran : action.run s = outcome action s := rfl
  rw [run, ran]
  rcases outcome action s with ⟨_ | _, t⟩ <;> rfl

/-- Hands out how `action` ended, and does not fault itself. -/
def caught (action : Action σ α) : Action σ (Except Fault α) :=
  ExceptT.lift action.run

@[simp] theorem outcome_caught_bind (action : Action σ α) (next : Except Fault α → Action σ β)
    (s : σ) :
    outcome (action.caught >>= next) s = outcome (next (outcome action s).1) (outcome action s).2 :=
  rfl

/-- An answer that is there is what was answered. -/
theorem ok_of_toOption {answer : Except Fault α} {value : α} (there : answer.toOption = some value) :
    answer = .ok value := by
  cases answer with
  | error fault => exact nomatch there
  | ok _ => exact congrArg Except.ok (Option.some.inj there)

/-- An action that answers has succeeded. -/
theorem outcome_of_toOption {action : Action σ α} {s : σ} {ended : Except Fault α × σ} {value : α}
    (ends : outcome action s = ended) (there : ended.1.toOption = some value) :
    outcome action s = (.ok value, ended.2) :=
  ends.trans (Prod.ext (ok_of_toOption there) rfl)

/-! ## 2. What actions keep -/

/-- Whether an action, however it ends, leads from every state to one that is related to it. -/
def Keeps (R : σ → σ → Prop) (action : Action σ α) : Prop :=
  ∀ s, R s (outcome action s).2

namespace Keeps

variable {R : σ → σ → Prop} {action : Action σ α} {next : α → Action σ β}

theorem mono {S : σ → σ → Prop} (weaker : ∀ {s t}, R s t → S s t) (h : action.Keeps R) :
    action.Keeps S :=
  fun s => weaker (h s)

/-- An action that only looks keeps everything. -/
theorem of_same_state (chains : Chains R) (h : ∀ s, (outcome action s).2 = s) :
    action.Keeps R := by
  intro s
  rw [h s]
  exact chains.refl s

protected theorem pure (chains : Chains R) (value : α) : Keeps R (pure value : Action σ α) :=
  of_same_state chains fun _ => rfl

protected theorem throw (chains : Chains R) (fault : Fault) : Keeps R (throw fault : Action σ α) :=
  of_same_state chains fun _ => rfl

protected theorem ofExcept (chains : Chains R) (result : Except Fault α) :
    Keeps R (Action.ofExcept result : Action σ α) :=
  of_same_state chains fun _ => rfl

protected theorem bind (chains : Chains R) (first : action.Keeps R)
    (second : ∀ value, (next value).Keeps R) : Keeps R (action >>= next) := by
  intro s
  have step := first s
  rw [outcome_bind]
  rcases h : outcome action s with ⟨fault | value, t⟩
  · rw [h] at step
    exact step
  · rw [h] at step
    exact chains.trans step (second value t)

/-- An action that looks at the state first, and then goes on as what it saw says. -/
theorem get_bind {next : σ → Action σ β} (h : ∀ seen, (next seen).Keeps R) :
    Keeps R (get >>= next) :=
  fun s => h s s

theorem caught_bind {next : Except Fault α → Action σ β} (chains : Chains R)
    (first : action.Keeps R) (second : ∀ answer, (next answer).Keeps R) :
    Keeps R (action.caught >>= next) := by
  intro s
  rw [outcome_caught_bind]
  exact chains.trans (first s) (second _ _)

theorem forM (chains : Chains R) {γ : Type} {body : γ → Action σ PUnit} (list : List γ)
    (h : ∀ item ∈ list, (body item).Keeps R) : Keeps R (list.forM body) := by
  induction list with
  | nil => exact Keeps.pure chains PUnit.unit
  | cons head rest ih =>
    show Keeps R (body head >>= fun _ => rest.forM body)
    exact Keeps.bind chains (h head List.mem_cons_self)
      fun _ => ih fun item mem => h item (List.mem_cons_of_mem _ mem)

theorem mapM (chains : Chains R) {γ : Type} {body : γ → Action σ α} (list : List γ)
    (h : ∀ item ∈ list, (body item).Keeps R) : Keeps R (list.mapM body) := by
  induction list with
  | nil =>
    rw [List.mapM_nil]
    exact Keeps.pure chains []
  | cons head rest ih =>
    rw [List.mapM_cons]
    refine Keeps.bind chains (h head List.mem_cons_self) fun _ => ?_
    exact Keeps.bind chains (ih fun item mem => h item (List.mem_cons_of_mem _ mem))
      fun _ => Keeps.pure chains _

end Keeps

end Action

end IndexedStore
