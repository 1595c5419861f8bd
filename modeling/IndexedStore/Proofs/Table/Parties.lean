import IndexedStore.Proofs.Table.Desks
/-!
# What tables and single records do to a store

A PARTY is a table, as it is bound from a schema, or a single record. Its deeds are the operations
that it offers; walks and scans are kept open on a desk from one deed to the next.

* `Party.label` is what tells parties apart, `Party.estate` what they own, and `Party.apart` that
  parties with different labels own nothing in common;
* `Errand` is what is done with a table at once, `Deed` all that is done with a party; `Deed.act`
  does it;
* `Party.Abreast` is that a party is as far in one store, among others, as in a second one of its
  own;
* **`Deed.stepped`** is that each deed is answered alike in both, brings the party as far in both,
  and spares whatever the party does not own or hold.
-/

namespace IndexedStore

open IndexedStore.Action

variable {ρ σ β : Type}

/-! ## 1. Parties -/

/-- What tells the tables and single records of a store apart. -/
inductive Label where
  | table (scope : Name) (status : UInt8) (name : Name)
  | single (scope name : Name)
  deriving DecidableEq

/-- A table that is bound from a schema, or a single record. -/
inductive Party (ρ : Type) where
  | table (schema : Schema ρ) (table : Table ρ)
    (bound : ∃ format scope serial, schema.bind format scope serial = .ok table)
  | single (single : SingleRecord ρ)

namespace Party

/-- The label of a party. -/
def label : Party ρ → Label
  | .table schema bound _ => .table bound.scope schema.status bound.name
  | .single place => .single place.scope place.name

/-- What a party owns. -/
def estate : Party ρ → Estate
  | .table _ bound _ => bound.estate
  | .single place => place.estate

/-- **Parties with different labels own nothing in common.** -/
theorem apart {first : Party ρ} {second : Party σ} (differ : first.label ≠ second.label) :
    first.estate.Apart second.estate := by
  cases first with
  | table schema table bound =>
    obtain ⟨_, _, _, bound⟩ := bound
    cases second with
    | table schema' table' bound' =>
      obtain ⟨_, _, _, bound'⟩ := bound'
      refine Table.apart_of_bound (Schema.of_bind bound).2.2 (Schema.of_bind bound').2.2 ?_
      rintro ⟨scopes, statuses, names⟩
      exact differ (by simp only [label, scopes, statuses, names])
    | single single => exact Table.apart_single (Schema.apart_of_bind bound) single
  | single single =>
    cases second with
    | table schema table bound =>
      obtain ⟨_, _, _, bound⟩ := bound
      exact (Table.apart_single (Schema.apart_of_bind bound) single).symm
    | single single' =>
      refine SingleRecord.apart ?_
      rintro ⟨scopes, names⟩
      exact differ (by simp only [label, scopes, names])

end Party

/-! ## 2. Errands -/

/-- What is done with a table at once: a write, a question about one key, or the reading of many
    records. A key is one of the store; any will do. -/
inductive Errand (table : Table ρ) : Type → Type 1 where
  | write {β : Type} (made : TableWrite ρ β) : Errand table β
  | contains (record : ρ) : Errand table Bool
  | count : Errand table Nat
  | holds (index : Fin table.indices.length) (key : Bytes) : Errand table Bool
  | get (index : Fin table.indices.length) (key : Bytes) : Errand table (Option ρ)
  | demand (index : Fin table.indices.length) (key : Bytes) : Errand table ρ
  | range (index : Fin table.indices.length) (lower upper : Bytes) : Errand table (List ρ)

namespace Errand

variable {table : Table ρ} {s t : Store}

/-- Runs it. -/
def perform : Errand table β → Action Store β
  | write made => made.perform Store.native table
  | contains record => table.contains Store.native record
  | count => table.count Store.native
  | holds index key => View.holds Store.native ⟨table, index⟩ key
  | get index key => View.get Store.native ⟨table, index⟩ key
  | demand index key => View.demand Store.native ⟨table, index⟩ key
  | range index lower upper => View.range Store.native ⟨table, index⟩ lower upper

/-- Whether a single key that is asked for is one of the table's, and one that leads to a record is
    under a secondary index one of a secondary index. -/
def Own : Errand table β → Prop
  | holds _ key => table.estate.owns key
  | get index key | demand index key => table.estate.owns key ∧
      ((View.mk table index).isPrimary = false → table.estate.points key)
  | _ => True

/-- Whether there are slots for the cursors that are open in between. -/
def Affordable (store : Store) : Errand table β → Prop
  | count => store.HasSlots 1
  | range .. => store.HasSlots 2
  | _ => True

/-- Only a key that is given as one of the store can be another's: what is made of a value or of an
    encoded key is a key of the index. -/
theorem own_fullKey (table : Table ρ) (index : Fin table.indices.length) (probe : Probe)
    (made : ∀ key, probe ≠ .full key) :
    (holds index (View.fullKey ⟨table, index⟩ probe)).Own ∧
    (get index (View.fullKey ⟨table, index⟩ probe)).Own ∧
    (demand index (View.fullKey ⟨table, index⟩ probe)).Own := by
  have begins : Bytes.startsWith (View.fullKey ⟨table, index⟩ probe)
      (View.placement ⟨table, index⟩).stem := by
    cases probe with
    | value value => exact Placement.contains_iff.mpr ⟨_, rfl⟩
    | encoded key => exact Placement.contains_iff.mpr ⟨_, rfl⟩
    | full key => exact absurd rfl (made key)
  have owns : table.estate.owns (View.fullKey ⟨table, index⟩ probe) :=
    View.covers_stem ⟨table, index⟩ _ begins
  have leads := fun secondary : (View.mk table index).isPrimary = false =>
    View.points_of_secondary ⟨table, index⟩ secondary begins
  exact ⟨owns, ⟨owns, leads⟩, ⟨owns, leads⟩⟩

end Errand

/-- Reading that gives its cursors back spares everything. -/
theorem Tidy.spares {before after : Store} (tidy : Tidy before after) (estate : Estate) :
    estate.Spares before after where
  settings := tidy.sparing.settings
  cursors := OrdMap.ext_get? tidy.cursors
  entries scope key _ := tidy.sparing.find? scope key

/-- Readings that are foreseen alike end alike. -/
theorem Estate.Ended.of_tidy {estate : Estate} {s t : Store} (alike : estate.Alike s t)
    {first second : Except Fault β × Store} (result : first.1 = second.1)
    (tidy : Tidy s first.2) (tidy' : Tidy t second.2) : estate.Ended s t first second where
  result := result
  alike := ((alike.of_sparing tidy.sparing).symm.of_sparing tidy'.sparing).symm
  spares := tidy.spares estate
  spares' := tidy'.spares estate

/-- **Errands end alike** in two stores that hold the same for the table, and spare all else. -/
theorem Errand.ended {table : Table ρ} (apart : table.Apart) (errand : Errand table β)
    {s t : Store} (alike : table.estate.Alike s t) (own : errand.Own)
    (afford : errand.Affordable s) (afford' : errand.Affordable t) :
    table.estate.Ended s t (outcome errand.perform s) (outcome errand.perform t) := by
  cases errand with
  | write made => exact made.within apart s t alike
  | contains record => exact Within.holds (Table.owns_primaryKey table record) s t alike
  | count =>
    obtain ⟨s', ran, tidy⟩ := table.outcome_count_foreseen afford
    obtain ⟨t', ran', tidy'⟩ := table.outcome_count_foreseen afford'
    have first : outcome (Errand.count : Errand table Nat).perform s = _ := ran
    have second : outcome (Errand.count : Errand table Nat).perform t = _ := ran'
    rw [first, second]
    exact .of_tidy alike (Table.tally_eq alike) tidy tidy'
  | holds index key => exact Within.holds own s t alike
  | get index key => exact View.within_get ⟨table, index⟩ own.1 own.2 s t alike
  | demand index key => exact View.within_demand ⟨table, index⟩ own.1 own.2 s t alike
  | range index lower upper =>
    have here : (View.mk table index).table.estate.Alike s t := alike
    obtain ⟨s', ran, tidy⟩ := View.outcome_range_foreseen ⟨table, index⟩ lower upper afford
    obtain ⟨t', ran', tidy'⟩ := View.outcome_range_foreseen ⟨table, index⟩ lower upper afford'
    have first : outcome (Errand.range index lower upper).perform s = _ := ran
    have second : outcome (Errand.range index lower upper).perform t = _ := ran'
    rw [first, second]
    exact .of_tidy alike (View.range_eq here lower upper) tidy tidy'

/-! ## 3. Deeds -/

/-- What is done with a party. The handles of a table are known by numbers. -/
inductive Deed : Party ρ → Type → Type 1 where
  | errand {schema : Schema ρ} {table : Table ρ}
    {bound : ∃ format scope serial, schema.bind format scope serial = .ok table} {β : Type}
    (errand : Errand table β) : Deed (.table schema table bound) β
  /-- Makes a handle. -/
  | opening {schema : Schema ρ} {table : Table ρ}
    {bound : ∃ format scope serial, schema.bind format scope serial = .ok table} (name : Nat)
    (index : Fin table.indices.length) (opening : Opening) : Deed (.table schema table bound) Unit
  /-- Works with a handle. -/
  | handling {schema : Schema ρ} {table : Table ρ}
    {bound : ∃ format scope serial, schema.bind format scope serial = .ok table} {β : Type}
    (name : Nat) (handling : Handling ρ β) : Deed (.table schema table bound) β
  /-- Compares two walks. -/
  | order {schema : Schema ρ} {table : Table ρ}
    {bound : ∃ format scope serial, schema.bind format scope serial = .ok table}
    (first second : Nat) : Deed (.table schema table bound) Ordering
  /-- Makes a call on a single record. -/
  | call {single : SingleRecord ρ} {β : Type} (made : SingleCall ρ β) : Deed (.single single) β

namespace Deed

/-- Does it: the answer, the desk and the store. -/
def act : {party : Party ρ} → Deed party β → Desk ρ → Store →
    Option (Except Fault β) × Desk ρ × Store
  | _, errand made, desk, store =>
    (some (outcome made.perform store).1, desk, (outcome made.perform store).2)
  | .table _ table _, opening name index way, desk, store =>
    desk.start name ⟨table, index⟩ way store
  | _, handling name made, desk, store => desk.work name made store
  | _, order first second, desk, store => desk.compare first second store
  | .single single, call made, desk, store =>
    (some (outcome (made.perform Store.native single) store).1, desk,
      (outcome (made.perform Store.native single) store).2)

/-- Whether a deed asks for the party's own keys. -/
def Own {party : Party ρ} : Deed party β → Prop
  | errand made => made.Own
  | _ => True

/-- Whether there are slots for the cursors that a deed opens. -/
def Affordable {party : Party ρ} (desk : Desk ρ) (store : Store) : Deed party β → Prop
  | errand made => made.Affordable store
  | opening .. => store.HasSlots 1
  | handling name made => made.Opens → desk.numberAt name = none → store.HasSlots 1
  | _ => True

end Deed

/-! ## 4. Two stores abreast -/

namespace Party

/-- Whether two handles, or none, stand at one post in two stores. A single record has no
    handles. -/
def Both : Party ρ → Store → Store → Option (Handle ρ) → Option (Handle ρ) → Prop
  | .table _ bound _, s, t, handle, other => ∃ post : Option (Post bound),
      (∀ here ∈ post, here.Within) ∧ Option.Rel (Handle.Stands s) post handle
        ∧ Option.Rel (Handle.Stands t) post other
  | .single _, _, _, handle, other => handle = none ∧ other = none

/-- Whether a party is as far in a first store, with a first desk, as in a second one that only the
    party uses. -/
structure Abreast (party : Party ρ) (s : Store) (d : Desk ρ) (t : Store) (e : Desk ρ) : Prop where
  alike : party.estate.Alike s t
  both : ∀ name, party.Both s t (d name) (e name)
  distinct : d.Distinct
  distinct' : e.Distinct
  whole : ∀ id, t.cursors.get? id ≠ none → e.Holds id

end Party

/-- Whether a cursor keeps to an estate: all keys with its stem are of it, and it is on one of them
    or at the end. -/
structure Estate.Confines (estate : Estate) (cursor : Cursor) : Prop where
  scope : cursor.scope = estate.scope
  covers : estate.Covers cursor.stem
  within : cursor.position.Within cursor.stem

/-- What a party may change of a store: what it owns, and the cursors that it holds. -/
structure Estate.Worked (estate : Estate) (before : Store) (desk : Desk ρ) (after : Store)
    (desk' : Desk ρ) : Prop where
  settings : after.settings = before.settings
  entries : ∀ scope key, ¬ (scope = estate.scope ∧ estate.owns key) →
    after.find? scope key = before.find? scope key
  ledger : Ledger before desk.Holds after desk'.Holds

namespace Party

/-- What a step of a party in two stores comes to. -/
structure Stepped (party : Party ρ) (s : Store) (d : Desk ρ) (t : Store) (e : Desk ρ)
    (first second : Option (Except Fault β) × Desk ρ × Store) : Prop where
  answer : first.1 = second.1
  abreast : party.Abreast first.2.2 first.2.1 second.2.2 second.2.1
  worked : party.estate.Worked s d first.2.2 first.2.1
  worked' : party.estate.Worked t e second.2.2 second.2.1

section Both

variable {party : Party ρ} {s t : Store} {handle other : Option (Handle ρ)} {id : CursorId}

theorem Both.number?_isSome (both : party.Both s t handle other) :
    (handle.bind Handle.number?).isSome = (other.bind Handle.number?).isSome := by
  cases party with
  | single _ =>
    obtain ⟨rfl, rfl⟩ := both
    rfl
  | table _ _ _ =>
    obtain ⟨post, _, stands, stands'⟩ := both
    cases stands with
    | none =>
      cases stands'
      rfl
    | some stands =>
      cases stands' with
      | some stands' => exact stands.number?_isSome stands'

/-- **The cursors of a party keep to what it owns.** -/
theorem Both.confined (both : party.Both s t handle other)
    (held : handle.bind Handle.number? = some id) :
    ∃ cursor, s.cursors.get? id = some cursor ∧ party.estate.Confines cursor := by
  cases party with
  | single _ =>
    obtain ⟨rfl, rfl⟩ := both
    exact nomatch held
  | table _ table _ =>
    obtain ⟨post, within, stands, _⟩ := both
    cases stands with
    | none => exact nomatch held
    | some stands =>
      obtain ⟨index, position, cursor, inside⟩ := stands.cursor held
      exact ⟨_, cursor, rfl, View.covers_stem ⟨table, index⟩, inside (within _ rfl)⟩

theorem Both.symm (both : party.Both s t handle other) : party.Both t s other handle := by
  cases party with
  | single _ => exact ⟨both.2, both.1⟩
  | table _ _ _ =>
    obtain ⟨post, within, stands, stands'⟩ := both
    exact ⟨post, within, stands', stands⟩

/-- Handles stay at their post as long as their cursors in the first store stay. -/
theorem Both.keeps (both : party.Both s t handle other) (s' : Store)
    (kept : ∀ id cursor, handle.bind Handle.number? = some id → s.cursors.get? id = some cursor →
      s'.cursors.get? id = some cursor) : party.Both s' t handle other := by
  cases party with
  | single _ => exact both
  | table _ _ _ =>
    obtain ⟨post, within, stands, stands'⟩ := both
    refine ⟨post, within, ?_, stands'⟩
    cases stands with
    | none => exact .none
    | some stands => exact .some (stands.keeps kept)

end Both

namespace Abreast

variable {party : Party ρ} {s t : Store} {d e : Desk ρ}

/-- The cursors of a party are open, and keep to what it owns. -/
theorem confined (h : party.Abreast s d t e) (id : CursorId) (held : d.Holds id) :
    ∃ cursor, s.cursors.get? id = some cursor ∧ party.estate.Confines cursor := by
  obtain ⟨name, held⟩ := held
  exact (h.both name).confined held

theorem opens (h : party.Abreast s d t e) (id : CursorId) (held : d.Holds id) :
    ∃ cursor, s.cursors.get? id = some cursor :=
  (h.confined id held).imp fun _ found => found.1

theorem opens' (h : party.Abreast s d t e) (id : CursorId) (held : e.Holds id) :
    ∃ cursor, t.cursors.get? id = some cursor := by
  obtain ⟨name, held⟩ := held
  exact ((h.both name).symm.confined held).imp fun _ found => found.1

/-- Where the party is alone there are no fewer slots: each of its cursors has one among the others'
    cursors in the first store. -/
theorem hasSlots (h : party.Abreast s d t e) {count : Nat} (free : s.HasSlots count) :
    t.HasSlots count := by
  have counterpart : ∀ id, t.cursors.get? id ≠ none →
      ∃ name other, e.numberAt name = some id ∧ d.numberAt name = some other := by
    intro id isOpen
    obtain ⟨name, held⟩ := h.whole id isOpen
    have both := (h.both name).number?_isSome
    have held' : (e name).bind Handle.number? = some id := held
    rw [held'] at both
    obtain ⟨other, there⟩ := Option.isSome_iff_exists.mp both
    exact ⟨name, other, held, there⟩
  have fewer : t.cursors.size ≤ s.cursors.size := by
    classical
    let image : CursorId → CursorId := fun id =>
      if isOpen : t.cursors.get? id ≠ none then (counterpart id isOpen).choose_spec.choose else id
    have known : ∀ id, t.cursors.get? id ≠ none →
        ∃ name, e.numberAt name = some id ∧ d.numberAt name = some (image id) := by
      intro id isOpen
      have spec := (counterpart id isOpen).choose_spec.choose_spec
      refine ⟨(counterpart id isOpen).choose, spec.1, ?_⟩
      have here : image id = (counterpart id isOpen).choose_spec.choose := dif_pos isOpen
      rw [here]
      exact spec.2
    refine Store.openCursors_le image (fun id isOpen => ?_) fun a b openA openB same => ?_
    · obtain ⟨name, _, held⟩ := known id isOpen
      obtain ⟨cursor, there⟩ := h.opens _ ⟨name, held⟩
      rw [there]
      nofun
    · obtain ⟨name, heldA, there⟩ := known a openA
      obtain ⟨name', heldB, there'⟩ := known b openB
      obtain rfl : name = name' := h.distinct name name' _ there (same ▸ there')
      exact Option.some.inj (heldA.symm.trans heldB)
  unfold Store.HasSlots at free ⊢
  rw [← h.alike.settings]
  omega

/-- A deed that changes nothing. -/
theorem stay (h : party.Abreast s d t e) (answer : Option (Except Fault β)) :
    party.Stepped s d t e (answer, d, s) (answer, e, t) where
  answer := rfl
  abreast := h
  worked := ⟨rfl, fun _ _ _ => rfl, .refl s _⟩
  worked' := ⟨rfl, fun _ _ _ => rfl, .refl t _⟩

/-- An action that ends alike in both stores. -/
theorem of_ended (h : party.Abreast s d t e) {first second : Except Fault β × Store}
    (ended : party.estate.Ended s t first second) :
    party.Stepped s d t e (some first.1, d, first.2) (some second.1, e, second.2) where
  answer := congrArg some ended.result
  abreast :=
    { alike := ended.alike
      both := fun name => by
        have kept : ∀ {before after : Store}, after.cursors = before.cursors → ∀ id cursor,
            before.cursors.get? id = some cursor → after.cursors.get? id = some cursor :=
          fun same id cursor isOpen => same ▸ isOpen
        refine ((h.both name).keeps first.2 ?_).symm.keeps second.2 ?_ |>.symm
        · exact fun id cursor _ => kept ended.spares.cursors id cursor
        · exact fun id cursor _ => kept ended.spares'.cursors id cursor
      distinct := h.distinct
      distinct' := h.distinct'
      whole := fun id isOpen => h.whole id (ended.spares'.cursors ▸ isOpen) }
  worked := ⟨ended.spares.settings, ended.spares.entries,
    .of_same (fun id => congrArg (·.get? id) ended.spares.cursors) _⟩
  worked' := ⟨ended.spares'.settings, ended.spares'.entries,
    .of_same (fun id => congrArg (·.get? id) ended.spares'.cursors) _⟩

/-- Work with one handle in both stores: its cursor changes, and nothing else does. -/
theorem put (h : party.Abreast s d t e) {name : Nat} {left left' : Option (Handle ρ)}
    {after after' : Store} (answer : Option (Except Fault β)) (sparing : Sparing s after)
    (sparing' : Sparing t after')
    (ledger : Ledger s (Holding (d.numberAt name)) after (Holding (left.bind Handle.number?)))
    (ledger' : Ledger t (Holding (e.numberAt name)) after' (Holding (left'.bind Handle.number?)))
    (both : party.Both after after' left left') :
    party.Stepped s d t e (answer, d.put name left, after) (answer, e.put name left', after') where
  answer := rfl
  abreast :=
    { alike := ((h.alike.of_sparing sparing).symm.of_sparing sparing').symm
      both := fun other => by
        dsimp only
        by_cases here : other = name
        · rw [here, Desk.put_self, Desk.put_self]
          exact both
        · rw [Desk.put_of_ne here, Desk.put_of_ne here]
          refine ((h.both other).keeps after ?_).symm.keeps after' ?_ |>.symm
          · exact fun id cursor held => Desk.keeps_put ledger h.distinct here held
          · exact fun id cursor held => Desk.keeps_put ledger' h.distinct' here held
      distinct := Desk.distinct_put ledger h.distinct h.opens
      distinct' := Desk.distinct_put ledger' h.distinct' h.opens'
      whole := (Desk.ledger_put ledger').holds_all h.whole }
  worked := ⟨sparing.settings, fun scope key _ => sparing.find? scope key, Desk.ledger_put ledger⟩
  worked' := ⟨sparing'.settings, fun scope key _ => sparing'.find? scope key,
    Desk.ledger_put ledger'⟩

end Abreast

end Party

/-! ## 5. Each deed -/

namespace Deed

open Party

variable {s t : Store} {d e : Desk ρ}

section Tables

variable {schema : Schema ρ} {table : Table ρ}
  {bound : ∃ format scope serial, schema.bind format scope serial = .ok table}
  (h : (Party.table schema table bound).Abreast s d t e)
include h

/-- In both stores there is a handle by a number, at one post, or there is none. -/
theorem both_cases (name : Nat) :
    (d name = none ∧ e name = none) ∨
    ∃ (post : Post table) (handle handle' : Handle ρ), d name = some handle ∧ e name = some handle'
      ∧ post.Within ∧ handle.Stands s post ∧ handle'.Stands t post := by
  obtain ⟨post, within, stands, stands'⟩ := h.both name
  cases here : d name with
  | none =>
    rw [here] at stands
    cases stands
    cases there : e name with
    | none => exact .inl ⟨rfl, rfl⟩
    | some handle' =>
      rw [there] at stands'
      exact nomatch stands'
  | some handle =>
    rw [here] at stands
    cases stands with
    | some stands =>
      cases there : e name with
      | none =>
        rw [there] at stands'
        exact nomatch stands'
      | some handle' =>
        rw [there] at stands'
        cases stands' with
        | some stands' => exact .inr ⟨_, _, _, rfl, rfl, within _ rfl, stands, stands'⟩

/-- A handle is opened in both stores, or its number is taken in both. -/
theorem start_stepped (name : Nat) (index : Fin table.indices.length) (way : Opening)
    (free : s.HasSlots 1) :
    (Party.table schema table bound).Stepped s d t e (d.start name ⟨table, index⟩ way s)
      (e.start name ⟨table, index⟩ way t) := by
  rcases both_cases h name with
    ⟨here, there⟩ | ⟨_, handle, handle', here, there, _⟩
  · obtain ⟨handle, after, made, stands, sparing, ledger⟩ := way.outcome_foreseen index free
    obtain ⟨handle', after', made', stands', sparing', ledger'⟩ :=
      way.outcome_foreseen index (h.hasSlots free)
    have free_d : d.numberAt name = none := congrArg (Option.bind · Handle.number?) here
    have free_e : e.numberAt name = none := congrArg (Option.bind · Handle.number?) there
    rw [← free_d] at ledger
    rw [← free_e] at ledger'
    rw [← way.foresee_eq h.alike index] at stands'
    have within : ∀ post ∈ some (way.foresee index s), post.Within :=
      fun _ same => Option.some.inj same ▸ way.within_foresee index s
    rw [Desk.start_of_free here made, Desk.start_of_free there made']
    exact h.put _ sparing sparing' ledger ledger'
      ⟨some (way.foresee index s), within, .some stands, .some stands'⟩
  · rw [Desk.start_of_taken here, Desk.start_of_taken there]
    exact h.stay none

/-- Work with a handle comes to the same in both stores. -/
theorem work_stepped (name : Nat) (made : Handling ρ β)
    (free : made.Opens → d.numberAt name = none → s.HasSlots 1) :
    (Party.table schema table bound).Stepped s d t e (d.work name made s) (e.work name made t) := by
  rcases both_cases h name with
    ⟨here, there⟩ | ⟨post, handle, handle', here, there, within, stands, stands'⟩
  · rw [Desk.work_of_missing here, Desk.work_of_missing there]
    exact h.stay none
  · have held_d : d.numberAt name = handle.number? := congrArg (Option.bind · Handle.number?) here
    have held_e : e.numberAt name = handle'.number? :=
      congrArg (Option.bind · Handle.number?) there
    have free' : made.Opens → handle'.number? = none → t.HasSlots 1 := by
      intro opens unheld
      refine h.hasSlots (free opens ?_)
      have same := stands.number?_isSome stands'
      rw [unheld] at same
      rw [held_d]
      exact Option.not_isSome_iff_eq_none.mp (by simp [same])
    rw [held_d] at free
    obtain ⟨left, after, performed, stood, sparing, ledger⟩ := made.perform_foreseen stands free
    obtain ⟨left', after', performed', stood', sparing', ledger'⟩ :=
      made.perform_foreseen stands' free'
    rw [← held_d] at ledger
    rw [← held_e] at ledger'
    rw [← made.foresee_eq h.alike within] at performed' stood'
    rw [Desk.work_of_found here performed, Desk.work_of_found there performed']
    exact h.put _ sparing sparing' ledger ledger'
      ⟨_, made.within_foresee s within, stood, stood'⟩

/-- Walks compare alike in both stores. -/
theorem compare_stepped (first second : Nat) :
    (Party.table schema table bound).Stepped s d t e (d.compare first second s)
      (e.compare first second t) := by
  rcases both_cases h first with
    ⟨here, there⟩ | ⟨post, _, _, here, there, _, stands, stands'⟩
  · rw [Desk.compare_of_missing (.inl here), Desk.compare_of_missing (.inl there)]
    exact h.stay none
  · rcases both_cases h second with
      ⟨here', there'⟩ | ⟨other, _, _, here', there', _, stood, stood'⟩
    · rw [Desk.compare_of_missing (.inr here'), Desk.compare_of_missing (.inr there')]
      exact h.stay none
    · rw [Desk.compare_of_found here here' stands stood,
        Desk.compare_of_found there there' stands' stood']
      exact h.stay (post.compare other)

end Tables

/-- **Every deed comes to the same** in a store that the party shares and in one of its own: it is
    answered alike, the party is as far in both afterwards, and nothing of others has changed. -/
theorem stepped {party : Party ρ} (deed : Deed party β) (h : party.Abreast s d t e)
    (own : deed.Own) (afford : deed.Affordable d s) :
    party.Stepped s d t e (deed.act d s) (deed.act e t) := by
  cases deed with
  | @errand schema table bound _ made =>
    obtain ⟨_, _, _, known⟩ := id bound
    have afford' : made.Affordable t := by
      cases made with
      | count => exact h.hasSlots afford
      | range _ _ _ => exact h.hasSlots afford
      | _ => exact trivial
    exact h.of_ended (made.ended (Schema.apart_of_bind known) h.alike own afford afford')
  | opening name index way => exact start_stepped h name index way afford
  | handling name made => exact work_stepped h name made afford
  | order first second => exact compare_stepped h first second
  | @call single _ made => exact h.of_ended (made.within single s t h.alike)

end Deed

end IndexedStore
