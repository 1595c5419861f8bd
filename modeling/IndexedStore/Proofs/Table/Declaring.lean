import IndexedStore.Proofs.Table.Binding
import Mathlib.Data.List.Pairwise
/-!
# Which schemas bind, and to what

A schema binds exactly if it is well-formed as a whole, in whatever order its indices stand. Then
every token and every name leads to the index that was declared with it, and the indices share the
keys out among them, none to two.

* `Schema.WellFormed` says what a schema needs, `Schema.declareEach` is declaring with its tokens;
* `Schema.Lays` says what a bound table owes to its schema;
* **`Schema.bind_partitions`** is the result.
-/

namespace IndexedStore

variable {ρ : Type}

namespace Schema

/-! ## 1. Well-formed schemas -/

/-- What a schema needs: proper names for the table and its indices, a status that is not zero, no two
    indices of one name, and one primary index. Names are compared as words, so dots at the end of a
    text make no difference. -/
structure WellFormed (schema : Schema ρ) : Prop where
  table : Name.Proper schema.table
  status : schema.status ≠ 0
  names : ∀ declaration ∈ schema.declarations, Name.Proper declaration.name
  distinct : ∀ a b : Fin schema.declarations.length,
    Name.parse schema.declarations[a].name = Name.parse schema.declarations[b].name → a = b
  primary : ∃! place : Fin schema.declarations.length,
    schema.declarations[place].role = .primary

/-! ## 2. Binding a schema -/

section Bind

variable {schema : Schema ρ} {format : RecordFormat ρ} {scope : Name} {serial : Nat}
  {table : Table ρ}

/-- Indices can stand together exactly if their declarations have different names and are not both
    primary. -/
theorem pairwise_beside_iff {declarations : List (Declaration ρ)} {table : Name} {status : UInt8}
    (proper : ∀ declaration ∈ declarations, Name.Proper declaration.name) :
    (declarations.map (placed scope table status)).Pairwise Index.Beside ↔
      declarations.Pairwise fun a b => Name.parse a.name ≠ Name.parse b.name
        ∧ ¬ (a.role = .primary ∧ b.role = .primary) := by
  rw [List.pairwise_map]
  refine List.Pairwise.iff_of_mem fun {a b} memA memB => ?_
  obtain ⟨first, parsedA, _⟩ := proper a memA
  obtain ⟨second, parsedB, _⟩ := proper b memB
  rw [placed_of_parse parsedA, placed_of_parse parsedB, parsedA, parsedB]
  constructor
  · intro ⟨names, roles⟩
    exact ⟨fun same => names (Except.ok.inj same), roles⟩
  · intro ⟨names, roles⟩
    exact ⟨fun same => names (congrArg _ same), roles⟩

/-- What holds of any two places of a list, in either order, holds of any two different ones. -/
theorem pairwise_iff_places {α : Type} {R : α → α → Prop} (symm : ∀ {a b}, R a b → R b a)
    {list : List α} : list.Pairwise R ↔ ∀ a b : Fin list.length, a ≠ b → R list[a] list[b] := by
  rw [List.pairwise_iff_get]
  constructor
  · intro pairs a b different
    obtain less | greater := Fin.lt_or_lt_of_ne different
    · exact pairs a b less
    · exact symm (pairs b a greater)
  · intro all a b less
    exact all a b (Fin.ne_of_lt less)

/-- Well-formedness, of pairs of declarations. -/
theorem wellFormed_iff {schema : Schema ρ} : schema.WellFormed ↔
    Name.Proper schema.table ∧ schema.status ≠ 0
      ∧ (∀ declaration ∈ schema.declarations, Name.Proper declaration.name)
      ∧ (schema.declarations.Pairwise fun a b => Name.parse a.name ≠ Name.parse b.name
          ∧ ¬ (a.role = .primary ∧ b.role = .primary))
      ∧ ∃ declaration ∈ schema.declarations, declaration.role = .primary := by
  have symm : ∀ {a b : Declaration ρ},
      (Name.parse a.name ≠ Name.parse b.name ∧ ¬ (a.role = .primary ∧ b.role = .primary)) →
      Name.parse b.name ≠ Name.parse a.name ∧ ¬ (b.role = .primary ∧ a.role = .primary) :=
    fun ⟨names, roles⟩ => ⟨names.symm, fun ⟨first, second⟩ => roles ⟨second, first⟩⟩
  rw [pairwise_iff_places symm, List.exists_mem_iff_get]
  constructor
  · intro ⟨table, status, names, distinct, place, primary, only⟩
    refine ⟨table, status, names, fun a b different => ⟨?_, ?_⟩, place, primary⟩
    · exact fun same => different (distinct a b same)
    · exact fun ⟨first, second⟩ => different ((only a first).trans (only b second).symm)
  · intro ⟨table, status, names, pairs, place, primary⟩
    refine ⟨table, status, names, fun a b same => ?_, place, primary, fun other second => ?_⟩
    · exact Classical.byContradiction fun different => (pairs a b different).1 same
    · exact Classical.byContradiction fun different => (pairs other place different).2 ⟨second, primary⟩

/-- **A schema binds exactly if it is well-formed.** -/
theorem exists_bind_iff (schema : Schema ρ) (format : RecordFormat ρ) (scope : Name) (serial : Nat) :
    (∃ table, schema.bind format scope serial = .ok table) ↔ schema.WellFormed := by
  rw [wellFormed_iff]
  constructor
  · intro ⟨table, bound⟩
    obtain ⟨parsed, proper, status, each, same, pairs, found, _⟩ := bind_ok_iff.mp bound
    rw [same, pairwise_beside_iff each] at pairs
    have primary := (List.findFinIdx?_eq_some_iff.mp found).1
    have mem : table.indices[table.primary]
        ∈ schema.declarations.map (placed scope table.name schema.status) :=
      same ▸ List.getElem_mem _
    obtain ⟨declaration, declared, here⟩ := List.mem_map.mp mem
    refine ⟨⟨table.name, parsed, proper⟩, status, each, pairs, declaration, declared, ?_⟩
    have role := of_decide_eq_true primary
    rw [← here] at role
    exact role
  · intro ⟨⟨name, parsed, proper⟩, status, each, pairs, declaration, mem, primary⟩
    let indices := schema.declarations.map (placed scope name schema.status)
    have some : (indices.findFinIdx? fun index => index.placement.role = .primary).isSome := by
      rw [List.isSome_findFinIdx?]
      exact List.any_eq_true.mpr ⟨_, List.mem_map_of_mem mem, decide_eq_true primary⟩
    obtain ⟨place, found⟩ := Option.isSome_iff_exists.mp some
    refine ⟨⟨serial, scope, name, format, indices, place⟩, bind_ok_iff.mpr ?_⟩
    exact ⟨parsed, proper, status, each, rfl, (pairwise_beside_iff each).mpr pairs, found, rfl, rfl, rfl⟩

end Bind

/-! ## 3. Tokens and names -/

/-- Declares indices one after the other: the schema with all of them, and their tokens. -/
def declareEach (schema : Schema ρ) : List (Declaration ρ) → Schema ρ × List IndexToken
  | [] => (schema, [])
  | declaration :: rest =>
    let (next, token) := schema.declare declaration.name declaration.role declaration.key
    let (last, tokens) := next.declareEach rest
    (last, token :: tokens)

/-- What a bound table owes to its schema and to the tokens of its declarations. -/
structure Lays (schema : Schema ρ) (tokens : List IndexToken) (scope : Name) (table : Table ρ) :
    Prop where
  inScope : table.scope = scope
  named : Name.parse schema.table = .ok table.name
  /-- The indices are those declared, in their order, with their names, roles and keys. -/
  indices : table.indices = schema.declarations.map (placed scope table.name schema.status)
  primary : table.primaryIndex.placement.role = .primary
  /-- There is a token for each index, and it leads to the index that it was handed out for. -/
  tokens : tokens.length = table.indices.length ∧
    ∀ (place : Nat) (inside : place < table.indices.length), ∃ token,
      tokens[place]? = some token ∧ table.view token = .ok ⟨table, place, inside⟩
  /-- So does every name, however it is written. -/
  names : ∀ (place : Nat) (inside : place < table.indices.length) (text : String),
    Name.parse text = .ok table.indices[place].placement.name →
      table.viewNamed text = .ok ⟨table, place, inside⟩
  /-- The stems are of 17 bytes, and no two are the same. -/
  stems : (∀ index ∈ table.indices, index.placement.stem.length = 17)
    ∧ table.indices.Pairwise fun a b => a.placement.stem ≠ b.placement.stem
  /-- No key is a key of two indices. -/
  sole : ∀ (a b : Fin table.indices.length) (key : Bytes),
    table.indices[a].placement.contains key → table.indices[b].placement.contains key → a = b
  /-- A record's key in the store is the stem of the index, and then what the index gives for it. -/
  keys : ∀ index ∈ table.indices, ∀ record, index.placement.contains (index.fullKey record)
    ∧ Bytes.after? (index.fullKey record) index.placement.stem = some (index.key record).encode

theorem declareEach_fst (schema : Schema ρ) (declared : List (Declaration ρ)) :
    (schema.declareEach declared).1
      = { schema with declarations := schema.declarations ++ declared } := by
  induction declared generalizing schema with
  | nil =>
    rw [List.append_nil]
    rfl
  | cons declaration rest ih =>
    refine (ih _).trans ?_
    dsimp only
    rw [List.append_assoc, List.singleton_append]

/-- The token for the declaration at a place. -/
def tokenFor (schema : Schema ρ) (place : Nat) (declaration : Declaration ρ) : IndexToken where
  position := place
  table := (Name.parse schema.table).toOption.getD .empty
  index := (Name.parse declaration.name).toOption.getD .empty

theorem getElem?_tokens (schema : Schema ρ) (declared : List (Declaration ρ)) (place : Nat) :
    (schema.declareEach declared).2[place]?
      = declared[place]?.map (schema.tokenFor (schema.declarations.length + place)) := by
  induction declared generalizing schema place with
  | nil => rfl
  | cons declaration rest ih =>
    cases place with
    | zero => rfl
    | succ place =>
      refine (ih _ place).trans ?_
      have next : ∀ count : Nat, count + 1 + place = count + (place + 1) := by omega
      dsimp only
      rw [List.length_append, List.length_singleton, next]
      rfl

section Lays

variable {schema : Schema ρ} {format : RecordFormat ρ} {scope : Name} {serial : Nat}
  {table : Table ρ}

/-- A name leads to the only index that has it. -/
theorem viewNamed_eq {text : String} {place : Nat} (inside : place < table.indices.length)
    (pairs : table.indices.Pairwise Index.Beside)
    (parsed : Name.parse text = .ok table.indices[place].placement.name) :
    table.viewNamed text = .ok ⟨table, place, inside⟩ := by
  have found : table.indices.findFinIdx? (fun index => index.placement.name
      = table.indices[place].placement.name) = some ⟨place, inside⟩ := by
    refine List.findFinIdx?_eq_some_iff.mpr ⟨decide_eq_true rfl, fun other before same => ?_⟩
    have beside := List.pairwise_iff_getElem.mp pairs other place other.isLt inside before
    exact beside.names (of_decide_eq_true same)
  have named : (Name.parse text).mapError Fault.name
      = .ok table.indices[place].placement.name := by
    rw [parsed]
    rfl
  unfold Table.viewNamed
  rw [named]
  dsimp only [Bind.bind, Except.bind]
  rw [found]
  rfl

/-- A token leads to the index at its place, if it has the names of the table and of the index. -/
theorem view_eq {token : IndexToken} (inside : token.position < table.indices.length)
    (ofTable : token.table = table.name)
    (ofIndex : table.indices[token.position].placement.name = token.index) :
    table.view token = .ok ⟨table, token.position, inside⟩ := by
  unfold Table.view
  dsimp only
  rw [dif_pos inside]
  exact if_pos ⟨ofTable, ofIndex⟩

/-- There are as many tokens as declarations. -/
theorem length_tokens {tokens : List IndexToken}
    (handed : ∀ place, tokens[place]? = schema.declarations[place]?.map (schema.tokenFor place)) :
    tokens.length = schema.declarations.length := by
  refine Nat.le_antisymm ?_ ?_
  · rw [← List.getElem?_eq_none_iff, handed, List.getElem?_eq_none (Nat.le_refl _)]
    rfl
  · have beyond := handed tokens.length
    rw [List.getElem?_eq_none (Nat.le_refl _)] at beyond
    exact List.getElem?_eq_none_iff.mp (Option.map_eq_none_iff.mp beyond.symm)

theorem lays_of_bind {tokens : List IndexToken}
    (handed : ∀ place, tokens[place]? = schema.declarations[place]?.map (schema.tokenFor place))
    (bound : schema.bind format scope serial = .ok table) : schema.Lays tokens scope table := by
  have apart := apart_of_bind bound
  obtain ⟨parsed, _, _, _, same, pairs, found, inScope, _⟩ := bind_ok_iff.mp bound
  refine ⟨inScope, parsed, same, ?_, ⟨?_, fun place inside => ?_⟩, fun place inside text => ?_,
    ⟨apart.length, apart.distinct⟩, fun a b key ofA ofB => ?_, fun index _ record => ?_⟩
  · exact of_decide_eq_true (List.findFinIdx?_eq_some_iff.mp found).1
  · rw [length_tokens handed, same, List.length_map]
  · have declared : place < schema.declarations.length := by
      rw [same, List.length_map] at inside
      exact inside
    have here : table.indices[place]
        = placed scope table.name schema.status schema.declarations[place] := by
      simp only [same, List.getElem_map]
    refine ⟨schema.tokenFor place schema.declarations[place], ?_, ?_⟩
    · rw [handed, List.getElem?_eq_getElem declared, Option.map_some]
    · refine view_eq inside ?_ (congrArg (·.placement.name) here)
      show (Name.parse schema.table).toOption.getD .empty = table.name
      rw [parsed]
      rfl
  · exact viewNamed_eq inside pairs
  · refine Classical.byContradiction fun different => ?_
    have stems := (pairwise_iff_places Ne.symm).mp apart.distinct a b different
    obtain ⟨first, eqA⟩ := Placement.contains_iff.mp ofA
    obtain ⟨second, eqB⟩ := Placement.contains_iff.mp ofB
    refine Placement.fullKey_ne ?_ stems first second (eqA.symm.trans eqB)
    exact (apart.length _ (List.getElem_mem _)).trans (apart.length _ (List.getElem_mem _)).symm
  · refine ⟨Placement.contains_iff.mpr ⟨_, rfl⟩, ?_⟩
    exact Bytes.after?_eq_some_iff.mpr rfl

end Lays

/-- **Binding accepts exactly the well-formed schemas, and then shares out the keys.** Whatever indices
    are declared, in whatever order, the schema is refused if it is not well-formed; and if it is, the
    table that it is bound to has the indices that were declared, each found by its token and by its
    name, and each with keys of its own. -/
theorem bind_partitions (table : String) (status : UInt8) (declared : List (Declaration ρ))
    (format : RecordFormat ρ) (scope : Name) (serial : Nat) :
    ∃ tokens, declareEach ⟨table, status, []⟩ declared = (⟨table, status, declared⟩, tokens) ∧
      match (⟨table, status, declared⟩ : Schema ρ).bind format scope serial with
      | .error _ => ¬ (⟨table, status, declared⟩ : Schema ρ).WellFormed
      | .ok bound => (⟨table, status, declared⟩ : Schema ρ).WellFormed
        ∧ (⟨table, status, declared⟩ : Schema ρ).Lays tokens scope bound := by
  let schema : Schema ρ := ⟨table, status, declared⟩
  have accepted := exists_bind_iff schema format scope serial
  refine ⟨(declareEach ⟨table, status, []⟩ declared).2, ?_, ?_⟩
  · exact Prod.ext (declareEach_fst _ _) rfl
  · cases ends : schema.bind format scope serial with
    | error fault =>
      intro wellFormed
      obtain ⟨bound, ok⟩ := accepted.mpr wellFormed
      rw [ends] at ok
      exact nomatch ok
    | ok bound =>
      refine ⟨accepted.mp ⟨bound, ends⟩, lays_of_bind (fun place => ?_) ends⟩
      rw [getElem?_tokens, List.length_nil, Nat.zero_add]
      rfl

end Schema

end IndexedStore
