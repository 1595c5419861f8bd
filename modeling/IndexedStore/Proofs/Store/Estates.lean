import IndexedStore.Proofs.Store.Calls
import IndexedStore.Proofs.Store.Listing
/-!
# Estates

An ESTATE is a part of a store that has one owner: some keys of a scope. Some of its keys may be
POINTERS, whose values are keys of the estate again. An action that keeps to an estate reads and
writes nothing else, so on two stores that hold the same there it does the same, and both hold the
same there afterwards.

* `Estate.Alike` says that two stores hold the same in an estate, and `Estate.Spares` that a change
  has spared everything outside;
* `Action.Within` is that an action keeps to an estate. What is put together from such actions is one
  (section 2);
* `Estate.Covers` is that all keys with a stem belong to an estate. Cursors over such a stem move
  alike in both stores (section 3).
-/

namespace IndexedStore

open IndexedStore.Action

/-! ## 1. Estates -/

/-- Some keys of a scope that belong together, and those among them that hold keys of the estate. -/
structure Estate where
  scope : Name
  owns : Bytes → Prop
  points : Bytes → Prop
  owns_of_points : ∀ {key}, points key → owns key

namespace Estate

variable {estate : Estate} {s t u : Store} {key : Bytes}

/-- Whether two stores with the same settings hold the same in an estate, and the pointers in it lead
    to keys of it. -/
structure Alike (estate : Estate) (s t : Store) : Prop where
  settings : s.settings = t.settings
  entries : ∀ key, estate.owns key → s.find? estate.scope key = t.find? estate.scope key
  pointers : ∀ key found, estate.points key → s.find? estate.scope key = some found →
    estate.owns found.value

/-- Whether a change has spared the settings, the cursors, and all entries outside an estate. -/
structure Spares (estate : Estate) (before after : Store) : Prop where
  settings : after.settings = before.settings
  cursors : after.cursors = before.cursors
  entries : ∀ scope key, ¬ (scope = estate.scope ∧ estate.owns key) →
    after.find? scope key = before.find? scope key

/-- Whether two estates have no key in common. -/
def Apart (first second : Estate) : Prop :=
  first.scope = second.scope → ∀ key, first.owns key → ¬ second.owns key

theorem Apart.symm {first second : Estate} (h : first.Apart second) : second.Apart first :=
  fun same key owns owns' => h same.symm key owns' owns

theorem Alike.symm (h : estate.Alike s t) : estate.Alike t s where
  settings := h.settings.symm
  entries key own := (h.entries key own).symm
  pointers key found points stored :=
    h.pointers key found points ((h.entries key (estate.owns_of_points points)).trans stored)

/-- What spares the settings and all of an estate leaves it alike. -/
theorem Alike.of_entries (h : estate.Alike s t) {after : Store}
    (settings : after.settings = s.settings)
    (entries : ∀ key, estate.owns key →
      after.find? estate.scope key = s.find? estate.scope key) : estate.Alike after t where
  settings := settings.trans h.settings
  entries key own := (entries key own).trans (h.entries key own)
  pointers key found points stored :=
    h.pointers key found points ((entries key (estate.owns_of_points points)).symm.trans stored)

/-- Work on cursors and staged values leaves every estate alike. -/
theorem Alike.of_sparing (h : estate.Alike s t) {after : Store} (sparing : Sparing s after) :
    estate.Alike after t :=
  h.of_entries sparing.settings fun key _ => sparing.find? estate.scope key

theorem Spares.refl (estate : Estate) (s : Store) : estate.Spares s s :=
  ⟨rfl, rfl, fun _ _ _ => rfl⟩

theorem Spares.trans (h : estate.Spares s t) (h' : estate.Spares t u) : estate.Spares s u where
  settings := h'.settings.trans h.settings
  cursors := h'.cursors.trans h.cursors
  entries scope key outside := (h'.entries scope key outside).trans (h.entries scope key outside)

/-- A change of one key of an estate spares everything outside. -/
theorem Spares.replace (own : estate.owns key) (s : Store) (after : Option Entry) :
    estate.Spares s (s.replace estate.scope key after).2 where
  settings := Store.settings_replace ..
  cursors := Store.cursors_replace ..
  entries scope probe outside := by
    rw [Store.find?_replace, if_neg]
    rintro ⟨rfl, rfl⟩
    exact outside ⟨rfl, own⟩

/-- The same change of one key in two stores. -/
theorem Alike.replace (h : estate.Alike s t) (key : Bytes) {after : Option Entry}
    (pointed : estate.points key → ∀ found, after = some found → estate.owns found.value) :
    estate.Alike (s.replace estate.scope key after).2 (t.replace estate.scope key after).2 where
  settings := by
    rw [Store.settings_replace, Store.settings_replace]
    exact h.settings
  entries probe own := by
    rw [Store.find?_replace, Store.find?_replace, h.entries probe own]
  pointers probe found points stored := by
    rw [Store.find?_replace] at stored
    by_cases here : estate.scope = estate.scope ∧ probe = key
    · rw [if_pos here] at stored
      exact pointed (here.2 ▸ points) found stored
    · rw [if_neg here] at stored
      exact h.pointers probe found points stored

end Estate

/-! ## 2. Keeping to an estate -/

/-- Whether two computations have ended with one result and have kept to an estate: they hold the
    same there, and have spared everything outside. -/
structure Estate.Ended {γ : Type} (estate : Estate) (s t : Store) (first second : γ × Store) :
    Prop where
  result : first.1 = second.1
  alike : estate.Alike first.2 second.2
  spares : estate.Spares s first.2
  spares' : estate.Spares t second.2

/-- Whether an action keeps to an estate. -/
def Action.Within {β : Type} (estate : Estate) (action : Action Store β) : Prop :=
  ∀ s t, estate.Alike s t → estate.Ended s t (outcome action s) (outcome action t)

namespace Action.Within

variable {α β γ : Type} {estate : Estate} {action : Action Store β} {next : β → Action Store γ}
  {key : Bytes}

/-- An action that only looks, and sees the same in both stores. -/
theorem of_looks (see : Store → Except Fault β) (looks : ∀ s, outcome action s = (see s, s))
    (same : ∀ s t, estate.Alike s t → see s = see t) : Within estate action := by
  intro s t alike
  rw [looks, looks]
  exact ⟨same s t alike, alike, .refl .., .refl ..⟩

protected theorem pure (value : β) : Within estate (pure value : Action Store β) :=
  of_looks (fun _ => .ok value) (fun _ => rfl) fun _ _ _ => rfl

protected theorem throw (fault : Fault) : Within estate (throw fault : Action Store β) :=
  of_looks (fun _ => .error fault) (fun _ => rfl) fun _ _ _ => rfl

protected theorem ofExcept (result : Except Fault β) : Within estate (Action.ofExcept result) :=
  of_looks (fun _ => result) (fun _ => rfl) fun _ _ _ => rfl

protected theorem bind (h : Within estate action) (h' : ∀ value, Within estate (next value)) :
    Within estate (action >>= next) := by
  intro s t alike
  have first := h s t alike
  rw [outcome_bind, outcome_bind]
  rcases ran : outcome action s with ⟨result, s'⟩
  rcases ran' : outcome action t with ⟨result', t'⟩
  rw [ran, ran'] at first
  obtain ⟨rfl, alike', spares, spares'⟩ := first
  cases result with
  | error fault => exact ⟨rfl, alike', spares, spares'⟩
  | ok value =>
    have second := h' value s' t' alike'
    exact ⟨second.result, second.alike, spares.trans second.spares, spares'.trans second.spares'⟩

/-- An action that only looks comes first; what follows may rely on what it has seen. -/
theorem looks_bind {see : Store → Except Fault β} (looks : ∀ s, outcome action s = (see s, s))
    (same : ∀ s t, estate.Alike s t → see s = see t)
    (h : ∀ s value, see s = .ok value → Within estate (next value)) :
    Within estate (action >>= next) := by
  intro s t alike
  have looked := looks s
  have looked' := looks t
  rw [← same s t alike] at looked'
  cases seen : see s with
  | error fault =>
    rw [seen] at looked looked'
    rw [outcome_bind_error looked, outcome_bind_error looked']
    exact ⟨rfl, alike, .refl .., .refl ..⟩
  | ok value =>
    rw [seen] at looked looked'
    rw [outcome_bind_ok looked, outcome_bind_ok looked']
    exact h s value seen s t alike

/-- A look at the store first that sees the same in both. -/
theorem get_bind (see : Store → α) (next : α → Action Store β)
    (same : ∀ s t, estate.Alike s t → see s = see t) (h : ∀ seen, Within estate (next seen)) :
    Within estate (get >>= fun store => next (see store)) := by
  intro s t alike
  rw [outcome_get_bind, outcome_get_bind, same s t alike]
  exact h (see t) s t alike

theorem forM {body : α → Action Store PUnit} (list : List α)
    (h : ∀ item ∈ list, Within estate (body item)) : Within estate (list.forM body) := by
  induction list with
  | nil => exact Within.pure _
  | cons head rest ih =>
    exact Within.bind (h head List.mem_cons_self)
      fun _ => ih fun item mem => h item (List.mem_cons_of_mem _ mem)

theorem mapM {body : α → Action Store β} (list : List α)
    (h : ∀ item ∈ list, Within estate (body item)) : Within estate (list.mapM body) := by
  induction list with
  | nil =>
    rw [List.mapM_nil]
    exact Within.pure []
  | cons head rest ih =>
    rw [List.mapM_cons]
    exact Within.bind (h head List.mem_cons_self) fun _ =>
      Within.bind (ih fun item mem => h item (List.mem_cons_of_mem _ mem)) fun _ => Within.pure _

/-- A key of the estate is looked up. -/
theorem holds (own : estate.owns key) : Within estate (Store.native.holds estate.scope key) :=
  of_looks (fun s => .ok (s.find? estate.scope key).isSome) (fun _ => rfl)
    fun _ _ alike => by rw [alike.entries key own]

/-- A key of the estate is read. What a pointer holds is a key of the estate. -/
theorem read_bind {next : Option Bytes → Action Store γ} (own : estate.owns key)
    (h : ∀ found, (estate.points key → ∀ value, found = some value → estate.owns value) →
      Within estate (next found)) :
    Within estate (Store.native.read estate.scope key >>= next) := by
  intro s t alike
  have reads : ∀ store, outcome (Store.native.read estate.scope key) store
      = (.ok ((store.find? estate.scope key).map (·.value)), store) := fun _ => rfl
  rw [outcome_bind_ok (reads s), outcome_bind_ok (reads t), ← alike.entries key own]
  refine h _ (fun points value found => ?_) s t alike
  obtain ⟨entry, stored, rfl⟩ := Option.map_eq_some_iff.mp found
  exact alike.pointers key entry points stored

/-- A key of the estate is written; a pointer is given a key of the estate. -/
theorem write (own : estate.owns key) (value : Bytes)
    (pointed : estate.points key → estate.owns value) (payer : Name) :
    Within estate (Store.native.write estate.scope key value payer) := by
  intro s t alike
  have writes : ∀ store, outcome (Store.native.write estate.scope key value payer) store = _ :=
    Store.outcome_write estate.scope key value payer
  have bills : (s.replace estate.scope key (some ⟨value, payer⟩)).1
      = (t.replace estate.scope key (some ⟨value, payer⟩)).1 := by
    unfold Store.replace Store.billOf Store.bill
    rw [alike.entries key own, alike.settings]
  rw [writes, writes, alike.settings]
  split
  · exact ⟨rfl, alike, .refl .., .refl ..⟩
  · split
    · exact ⟨rfl, alike, .refl .., .refl ..⟩
    · refine ⟨congrArg Except.ok bills, alike.replace key fun points found same => ?_,
        .replace own s (some ⟨value, payer⟩), .replace own t (some ⟨value, payer⟩)⟩
      cases same
      exact pointed points

/-- A key of the estate is erased. -/
theorem erase (own : estate.owns key) : Within estate (Store.native.erase estate.scope key) := by
  intro s t alike
  have erases : ∀ store, outcome (Store.native.erase estate.scope key) store = _ :=
    Store.outcome_erase estate.scope key
  have bills : (s.replace estate.scope key none).1 = (t.replace estate.scope key none).1 := by
    unfold Store.replace Store.billOf Store.bill
    rw [alike.entries key own, alike.settings]
  rw [erases, erases, alike.entries key own]
  cases t.find? estate.scope key with
  | none => exact ⟨rfl, alike, .refl .., .refl ..⟩
  | some _ =>
    have cleared := alike.replace key (fun _ found same => absurd same (Option.some_ne_none found).symm)
    exact ⟨congrArg Except.ok bills, cleared, .replace own s none, .replace own t none⟩

end Action.Within

/-! ## 3. Cursors over an estate -/

/-- Whether a position is on a key with a stem, or at the end. -/
def Position.Within (stem : Bytes) (position : Position) : Prop :=
  ∀ key, position = .onKey key → Bytes.startsWith key stem

theorem Position.within_ended (stem : Bytes) : Position.ended.Within stem := nofun

namespace Estate

variable {estate : Estate} {s t : Store} {stem key : Bytes}

/-- Whether all keys with a stem belong to an estate. -/
def Covers (estate : Estate) (stem : Bytes) : Prop :=
  ∀ key, Bytes.startsWith key stem → estate.owns key

section Moves

variable (alike : estate.Alike s t) (covers : estate.Covers stem)
include alike covers

theorem Alike.keysOf_eq : s.keysOf estate.scope stem = t.keysOf estate.scope stem := by
  have ascending := fun store : Store => Store.ascending_keysOf store estate.scope stem
  have members : ∀ key, key ∈ s.keysOf estate.scope stem ↔ key ∈ t.keysOf estate.scope stem := by
    intro key
    rw [Store.mem_keysOf, Store.mem_keysOf]
    refine and_congr_right fun begins => ?_
    rw [alike.entries key (covers key begins)]
  have nodup := fun store : Store =>
    (ascending store).imp fun {a b} below (same : a = b) => Std.lt_irrefl (same ▸ below)
  refine List.Perm.eq_of_pairwise (fun a b _ _ below above => ?_) (ascending s) (ascending t)
    ((List.perm_ext_iff_of_nodup (nodup s) (nodup t)).mpr members)
  exact absurd (Std.lt_trans below above) Std.lt_irrefl

theorem Alike.firstFrom_eq (key : Bytes) :
    s.firstFrom estate.scope stem key = t.firstFrom estate.scope stem key := by
  rw [(Store.least_firstFrom s ..).eq_head, (Store.least_firstFrom t ..).eq_head,
    alike.keysOf_eq covers]

/-- A cursor moves forwards to the same position in both stores. -/
theorem Alike.after_eq {position : Position} (within : position.Within stem) :
    s.after ⟨estate.scope, stem, position⟩ = t.after ⟨estate.scope, stem, position⟩ := by
  cases position with
  | ended => exact alike.firstFrom_eq covers stem
  | onKey key =>
    have begins := within key rfl
    exact (Store.least_firstAfter s estate.scope begins).eq_head.trans <|
      (alike.keysOf_eq covers) ▸ (Store.least_firstAfter t estate.scope begins).eq_head.symm

/-- A cursor moves backwards to the same position in both stores. -/
theorem Alike.before_eq {position : Position} (within : position.Within stem) :
    s.before ⟨estate.scope, stem, position⟩ = t.before ⟨estate.scope, stem, position⟩ := by
  cases position with
  | ended =>
    have lasts : s.lastOf estate.scope stem = t.lastOf estate.scope stem := by
      rw [Store.lastOf_eq_head, Store.lastOf_eq_head, alike.keysOf_eq covers]
    exact lasts
  | onKey key =>
    have begins := within key rfl
    exact (Store.greatest_lastBefore s estate.scope begins).eq_head.trans <|
      (alike.keysOf_eq covers) ▸ (Store.greatest_lastBefore t estate.scope begins).eq_head.symm

/-- A cursor finds the same entry in both stores. -/
theorem Alike.entryAt?_eq {position : Position} (within : position.Within stem) :
    s.entryAt? ⟨estate.scope, stem, position⟩ = t.entryAt? ⟨estate.scope, stem, position⟩ := by
  cases position with
  | ended => rfl
  | onKey key => exact congrArg (Option.map _) (alike.entries key (covers key (within key rfl)))

theorem Alike.standingOf_eq {position : Position} (within : position.Within stem) :
    s.standingOf ⟨estate.scope, stem, position⟩ = t.standingOf ⟨estate.scope, stem, position⟩ := by
  cases position with
  | ended => rfl
  | onKey key =>
    have found := alike.entries key (covers key (within key rfl))
    unfold Store.standingOf
    dsimp only
    rw [found]

end Moves

end Estate

namespace Store

variable {store : Store} {scope : Name} {stem : Bytes}

/-- What is the least of some keys with a stem is on a key with the stem. -/
theorem Least.within {wanted : Bytes → Prop} {position : Position}
    (h : store.Least scope stem wanted position) : position.Within stem := by
  rintro key rfl
  exact h.1

theorem Greatest.within {wanted : Bytes → Prop} {position : Position}
    (h : store.Greatest scope stem wanted position) : position.Within stem := by
  rintro key rfl
  exact h.1

/-- **Cursors do not leave their stem**, in either direction. -/
theorem within_after {position : Position} (within : position.Within stem) :
    (store.after ⟨scope, stem, position⟩).Within stem := by
  cases position with
  | ended => exact (least_firstFrom store scope stem stem).within
  | onKey key => exact (least_firstAfter store scope (within key rfl)).within

theorem within_before {position : Position} (within : position.Within stem) :
    (store.before ⟨scope, stem, position⟩).Within stem := by
  cases position with
  | ended => exact (greatest_lastOf store scope stem).within
  | onKey key => exact (greatest_lastBefore store scope (within key rfl)).within

end Store

end IndexedStore
