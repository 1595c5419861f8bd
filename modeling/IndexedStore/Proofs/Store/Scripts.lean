import IndexedStore.Proofs.Actions
import IndexedStore.Store.Writing
/-!
# Scripts

What a client does with a store is a SCRIPT: calls whose answers, faults too, decide what comes
next, and units of work, which are scripts themselves. A script is a finite tree, so every run of it
ends; which calls a client can make is left open here.

* `Script` is the tree, `Script.run` its run on a store;
* `Script.follow` notes the calls of a run. What a failed unit did is not noted, as if its calls had
  not been made;
* `Script.keeps` and `Script.follow_induction` are what is proved by induction on scripts, once.
-/

namespace IndexedStore

/-- A client's work with a store, by calls from `C`; a call from `C β` answers with a `β`. -/
inductive Script (C : Type → Type) : Type → Type 1 where
  /-- The work ends, with a result or a fault. -/
  | finish {α : Type} (result : Except Fault α) : Script C α
  /-- A call, and how the work goes on after its answer. -/
  | call {α β : Type} (made : C β) (next : Except Fault β → Script C α) : Script C α
  /-- A unit of work, and how the work goes on after it. -/
  | unit {α β : Type} (inner : Script C β) (next : Except Fault β → Script C α) : Script C α

namespace Script

open IndexedStore.Action

universe u

variable {C : Type → Type} (perform : {β : Type} → C β → Action Store β)

/-! ## 1. Runs -/

/-- Runs a script; `perform` makes the calls. -/
def run : {α : Type} → Script C α → Action Store α
  | _, finish result => Action.ofExcept result
  | _, call made next => do
    let answer ← (perform made).caught
    (next answer).run
  | _, unit inner next => do
    let answer ← (Store.transact inner.run).caught
    (next answer).run

/-- What is noted of a unit of work: the notes of its run if it stays, and else those from before. -/
def settled {β : Type} {γ : Type u} (answer : Except Fault β) (inside before : γ) : γ :=
  match answer with
  | .ok _ => inside
  | .error _ => before

/-- Notes the calls of a run, in order. -/
def follow {γ : Type u} (note : {β : Type} → C β → Except Fault β → γ → γ) :
    {α : Type} → Script C α → Store → γ → γ
  | _, finish _, _, notes => notes
  | _, call made next, store, notes =>
    let ended := outcome (perform made) store
    (next ended.1).follow note ended.2 (note made ended.1 notes)
  | _, unit inner next, store, notes =>
    let ended := outcome (Store.transact (inner.run perform)) store
    let inside := inner.follow note { store with log := some [] } notes
    (next ended.1).follow note ended.2 (settled ended.1 inside notes)

/-! ## 2. Inductions -/

variable {α : Type} {perform}

/-- What every call keeps, and every unit whose body keeps it, every script keeps. -/
theorem keeps {R : Store → Store → Prop} (chains : Chains R)
    (calls : ∀ {β : Type} (made : C β), (perform made).Keeps R)
    (units : ∀ {β : Type} {body : Action Store β}, body.Keeps R → (Store.transact body).Keeps R)
    (script : Script C α) : (script.run perform).Keeps R := by
  induction script with
  | finish result => exact Keeps.ofExcept chains result
  | call made next ih => exact Keeps.caught_bind chains (calls made) ih
  | unit inner next inner_ih ih => exact Keeps.caught_bind chains (units inner_ih) ih

/-- A relation between stores and notes holds after every run, if every call and every unit of work
    keeps it. -/
theorem follow_induction {γ : Type u} {note : {β : Type} → C β → Except Fault β → γ → γ}
    {I : Store → γ → Prop}
    (calls : ∀ {β : Type} (made : C β) (store : Store) (notes : γ), I store notes →
      I (outcome (perform made) store).2 (note made (outcome (perform made) store).1 notes))
    (units : ∀ {β : Type} (inner : Script C β),
      (∀ store notes, I store notes →
        I (outcome (inner.run perform) store).2 (inner.follow perform note store notes)) →
      ∀ store notes, I store notes →
        I (outcome (Store.transact (inner.run perform)) store).2
          (settled (outcome (Store.transact (inner.run perform)) store).1
            (inner.follow perform note { store with log := some [] } notes) notes))
    (script : Script C α) : ∀ (store : Store) (notes : γ), I store notes →
      I (outcome (script.run perform) store).2 (script.follow perform note store notes) := by
  induction script with
  | finish result => exact fun _ _ h => h
  | call made next ih =>
    intro store notes h
    exact ih _ _ _ (calls made store notes h)
  | unit inner next inner_ih ih =>
    intro store notes h
    exact ih _ _ _ (units inner inner_ih store notes h)

end Script

end IndexedStore
