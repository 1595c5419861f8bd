import Mathlib.Data.List.Perm.Basic
import IndexedStore.Proofs.KeyOrder
import IndexedStore.Table.Schema
/-!
# What binding guarantees

Binding looks at the declarations one after the other, each against those that are bound already. A
schema that binds gives its indices stems that are all of one length and all different. So no key
in the store belongs to two indices of a table, which is what lets an index be looked at alone.

* `Index.Beside` says what two indices of a table must not have in common, and
  `Schema.bindIndices_eq_ok_iff` that binding declarations asks for that and no more;
* `Schema.bind_ok_iff` says when a schema binds, and to what;
* `Table.Apart` is the guarantee, and `Schema.apart_of_bind` gives it for every bound table;
* `Table.indices_perm` takes the indices as the primary one and the secondary ones;
* `Placement.fullKey_ne` keeps the keys of two indices apart.
-/

namespace IndexedStore

variable {ρ : Type}

/-! ## 1. Stems -/

theorem Name.eq_of_order_eq {a b : Name} (h : Name.order a b = .eq) : a = b := by
  unfold Name.order at h
  split at h
  · exact nomatch h
  · split at h
    · assumption
    · exact nomatch h

/-- A stem tells the status and the names that it is made of. -/
theorem Key.stem_inj {status status' : UInt8} {table table' a b : Name}
    (h : Key.stem status table a = Key.stem status' table' b) :
    status = status' ∧ table = table' ∧ a = b := by
  have parts : ∀ status table name, Key.stem status table name
      = (KeyValue.uint8 status).encode
        ++ ((KeyValue.name table).encode ++ ((KeyValue.name name).encode ++ [])) :=
    fun _ _ _ => rfl
  rw [parts, parts] at h
  have words : status.toBitVec.toNat = status'.toBitVec.toNat :=
    Std.compare_eq_iff_eq.mp (KeyType.order_eq_of_append_eq (.unsigned 1) h)
  obtain rfl : status = status' := UInt8.toNat_inj.mp words
  have behind := List.append_cancel_left h
  obtain rfl := Name.eq_of_order_eq (KeyType.order_eq_of_append_eq .name behind)
  have last := List.append_cancel_left behind
  exact ⟨rfl, rfl, Name.eq_of_order_eq (KeyType.order_eq_of_append_eq .name last)⟩

/-- The keys of two indices with stems of one length do not meet. -/
theorem Placement.fullKey_ne {a b : Placement} (length : a.stem.length = b.stem.length)
    (distinct : a.stem ≠ b.stem) (first second : Bytes) : a.fullKey first ≠ b.fullKey second := by
  intro same
  exact distinct (List.append_inj_left same length)

theorem Placement.fullKey_inj {placement : Placement} {first second : Bytes}
    (h : placement.fullKey first = placement.fullKey second) : first = second :=
  List.append_cancel_left h

theorem Placement.contains_iff {placement : Placement} {key : Bytes} :
    placement.contains key ↔ ∃ rest, key = placement.fullKey rest := by
  unfold contains
  rw [Bytes.startsWith_iff]
  exact ⟨fun ⟨rest, same⟩ => ⟨rest, same.symm⟩, fun ⟨rest, same⟩ => ⟨rest, same.symm⟩⟩

@[simp] theorem Placement.behindStem_fullKey (placement : Placement) (rest : Bytes) :
    placement.behindStem (placement.fullKey rest) = .ok rest := by
  have behind : Bytes.after? (placement.fullKey rest) placement.stem = some rest :=
    Bytes.after?_eq_some_iff.mpr rfl
  unfold behindStem
  rw [behind]

/-- Off a key of the index the stem is cut, and every other key is refused. -/
theorem Placement.behindStem_eq (placement : Placement) (key : Bytes) :
    placement.behindStem key = if placement.contains key then .ok (key.drop placement.stem.length)
      else .error (.state (.outsideIndex key)) := by
  split
  · obtain ⟨rest, rfl⟩ := contains_iff.mp ‹_›
    rw [behindStem_fullKey, fullKey, List.drop_left]
  · rename_i foreign
    unfold behindStem
    cases behind : Bytes.after? key placement.stem with
    | none => rfl
    | some rest =>
      exact absurd (contains_iff.mpr ⟨rest, (Bytes.after?_eq_some_iff.mp behind).symm⟩) foreign

/-! ## 2. The primary index and the others -/

namespace Table

variable {table : Table ρ}

theorem indices_perm (table : Table ρ) :
    (table.primaryIndex :: table.secondaries).Perm table.indices :=
  List.getElem_cons_eraseIdx_perm table.primary.isLt

theorem primary_mem (table : Table ρ) : table.primaryIndex ∈ table.indices :=
  (indices_perm table).mem_iff.mp List.mem_cons_self

theorem mem_of_mem_secondaries {index : Index ρ} (h : index ∈ table.secondaries) :
    index ∈ table.indices :=
  (indices_perm table).mem_iff.mp (List.mem_cons_of_mem _ h)

/-- The indices of a table are apart: their stems are of one length, and no two are one. -/
structure Apart (table : Table ρ) : Prop where
  length : ∀ index ∈ table.indices, index.placement.stem.length = Key.stemLength
  distinct : table.indices.Pairwise fun a b => a.placement.stem ≠ b.placement.stem

namespace Apart

theorem pairwise (h : table.Apart) : (table.primaryIndex :: table.secondaries).Pairwise
    fun a b => a.placement.stem ≠ b.placement.stem :=
  (indices_perm table).symm.pairwise h.distinct Ne.symm

/-- The keys of the secondary indices do not meet. -/
theorem secondaries (h : table.Apart) : table.secondaries.Pairwise fun a b =>
    ∀ first second, a.placement.fullKey first ≠ b.placement.fullKey second := by
  refine (List.pairwise_cons.mp h.pairwise).2.imp_of_mem fun {a b} memA memB distinct => ?_
  refine Placement.fullKey_ne ?_ distinct
  rw [h.length _ (mem_of_mem_secondaries memA), h.length _ (mem_of_mem_secondaries memB)]

/-- A key of the primary index is none of a secondary one. -/
theorem primary_ne (h : table.Apart) {index : Index ρ} (mem : index ∈ table.secondaries)
    (first second : Bytes) :
    table.primaryIndex.placement.fullKey first ≠ index.placement.fullKey second := by
  refine Placement.fullKey_ne ?_ ((List.pairwise_cons.mp h.pairwise).1 index mem) first second
  rw [h.length _ (primary_mem table), h.length _ (mem_of_mem_secondaries mem)]

end Apart

end Table

/-! ## 3. Chains of checks -/

/-- A chain of checks that passes has passed its first check. -/
theorem ok_of_bind {α β : Type} {first : Except Fault α} {next : α → Except Fault β} {result : β}
    (h : first >>= next = .ok result) : ∃ value, first = .ok value ∧ next value = .ok result := by
  cases first with
  | error fault => exact nomatch h
  | ok value => exact ⟨value, rfl, h⟩

/-- A chain of checks passes exactly if its first check does and the others do on what that gives. -/
theorem bind_eq_ok_iff {α β : Type} {first : Except Fault α} {next : α → Except Fault β}
    {result : β} :
    first >>= next = .ok result ↔ ∃ value, first = .ok value ∧ next value = .ok result := by
  refine ⟨ok_of_bind, fun ⟨value, passes, rest⟩ => ?_⟩
  rw [passes]
  exact rest

/-- A check that refuses on a condition passes exactly without it. -/
theorem guard_eq_ok_iff {β : Type} {refused : Prop} [Decidable refused] {fault : Fault}
    {next : PUnit → Except Fault β} {result : β} :
    (if refused then throw fault >>= next else next ⟨⟩) = .ok result
      ↔ ¬ refused ∧ next ⟨⟩ = .ok result := by
  by_cases holds : refused
  · rw [if_pos holds]
    exact ⟨fun passed => (nomatch passed), fun passed => absurd holds passed.1⟩
  · rw [if_neg holds]
    exact ⟨fun passed => ⟨holds, passed⟩, And.right⟩

/-- What passes does not depend on how a fault is told. -/
theorem mapError_eq_ok_iff {α E F : Type} {told : E → F} {first : Except E α} {value : α} :
    first.mapError told = .ok value ↔ first = .ok value := by
  cases first with
  | error fault => exact ⟨nofun, nofun⟩
  | ok found => exact ⟨fun h => congrArg _ (Except.ok.inj h), fun h => congrArg _ (Except.ok.inj h)⟩

/-! ## 4. Binding -/

/-- Whether a text spells a name, and not the empty one. -/
def Name.Proper (text : String) : Prop :=
  ∃ name, Name.parse text = .ok name ∧ name ≠ .empty

/-- Whether two indices can stand in one table: they have different names and are not both primary. -/
structure Index.Beside (a b : Index ρ) : Prop where
  names : a.placement.name ≠ b.placement.name
  roles : ¬ (a.placement.role = .primary ∧ b.placement.role = .primary)

namespace Schema

/-- The index that a declaration stands for, if its name is proper. -/
def placed (scope table : Name) (status : UInt8) (declaration : Declaration ρ) : Index ρ :=
  let name := (Name.parse declaration.name).toOption.getD .empty
  { placement := ⟨scope, table, name, declaration.role, Key.stem status table name⟩
    key := declaration.key }

section Binding

variable {scope table : Name} {status : UInt8} {bound all : List (Index ρ)}
  {declaration : Declaration ρ} {declarations : List (Declaration ρ)} {index : Index ρ}

theorem placed_of_parse {name : Name} (parsed : Name.parse declaration.name = .ok name) :
    placed scope table status declaration
      = ⟨⟨scope, table, name, declaration.role, Key.stem status table name⟩, declaration.key⟩ := by
  unfold placed
  rw [parsed]
  rfl

/-- A declaration is bound exactly if its name is proper and the index can stand beside all that are
    bound already. -/
theorem bindIndex_eq_ok_iff : bindIndex scope table status bound declaration = .ok index ↔
    Name.Proper declaration.name ∧ index = placed scope table status declaration
      ∧ ∀ other ∈ bound, other.Beside index := by
  unfold bindIndex
  simp only [bind_eq_ok_iff, guard_eq_ok_iff, mapError_eq_ok_iff, Name.isEmpty, List.any_eq_true,
    decide_eq_true_eq, not_exists, not_and]
  constructor
  · intro ⟨name, parsed, proper, fresh, alone, bound⟩
    obtain rfl := Except.ok.inj bound
    refine ⟨⟨name, parsed, proper⟩, (placed_of_parse parsed).symm, fun other mem => ?_⟩
    exact ⟨fresh other mem, fun ⟨first, second⟩ => alone second other mem first⟩
  · intro ⟨⟨name, parsed, proper⟩, same, beside⟩
    rw [placed_of_parse parsed] at same
    obtain rfl := same
    refine ⟨name, parsed, proper, fun other mem => (beside other mem).names, ?_, rfl⟩
    exact fun second other mem first => (beside other mem).roles ⟨first, second⟩

/-- **Declarations are bound exactly if all their names are proper and no two of the indices get in
    each other's way**, in whatever order they stand. -/
theorem bindIndices_eq_ok_iff (sound : bound.Pairwise Index.Beside) :
    bindIndices scope table status bound declarations = .ok all ↔
      (∀ declaration ∈ declarations, Name.Proper declaration.name)
        ∧ all = bound ++ declarations.map (placed scope table status)
        ∧ all.Pairwise Index.Beside := by
  induction declarations generalizing bound with
  | nil =>
    rw [bindIndices, List.map_nil, List.append_nil]
    constructor
    · intro done
      obtain rfl := Except.ok.inj done
      exact ⟨nofun, rfl, sound⟩
    · intro ⟨_, same, _⟩
      rw [same]
  | cons declaration rest ih =>
    have step : ∀ index, (∀ other ∈ bound, other.Beside index) →
        (bound ++ [index]).Pairwise Index.Beside := by
      intro index beside
      refine List.pairwise_append.mpr ⟨sound, List.pairwise_singleton _ _, fun other mem last here => ?_⟩
      rw [List.mem_singleton.mp here]
      exact beside other mem
    rw [bindIndices, bind_eq_ok_iff, List.map_cons]
    constructor
    · intro ⟨index, first, others⟩
      obtain ⟨proper, rfl, beside⟩ := bindIndex_eq_ok_iff.mp first
      obtain ⟨each, same, pairs⟩ := (ih (step _ beside)).mp others
      refine ⟨List.forall_mem_cons.mpr ⟨proper, each⟩, ?_, pairs⟩
      rw [same, List.append_assoc, List.singleton_append]
    · intro ⟨each, same, pairs⟩
      obtain ⟨proper, each⟩ := List.forall_mem_cons.mp each
      have beside : ∀ other ∈ bound, other.Beside (placed scope table status declaration) := by
        intro other mem
        rw [same] at pairs
        exact (List.pairwise_append.mp pairs).2.2 other mem _ List.mem_cons_self
      refine ⟨_, bindIndex_eq_ok_iff.mpr ⟨proper, rfl, beside⟩, ?_⟩
      refine (ih (step _ beside)).mpr ⟨each, ?_, pairs⟩
      rw [same, List.append_assoc, List.singleton_append]

end Binding

section Bind

variable {schema : Schema ρ} {format : RecordFormat ρ} {scope : Name} {serial : Nat}
  {table : Table ρ}

/-- A schema binds exactly if its table has a proper name, its status is not zero, its declarations
    bind, and one of them is primary. -/
theorem bind_ok_iff : schema.bind format scope serial = .ok table ↔
    Name.parse schema.table = .ok table.name ∧ table.name ≠ .empty ∧ schema.status ≠ 0
      ∧ (∀ declaration ∈ schema.declarations, Name.Proper declaration.name)
      ∧ table.indices = schema.declarations.map (placed scope table.name schema.status)
      ∧ table.indices.Pairwise Index.Beside
      ∧ table.indices.findFinIdx? (fun index => index.placement.role = .primary) = some table.primary
      ∧ table.scope = scope ∧ table.format = format ∧ table.serial = serial := by
  unfold bind
  simp only [bind_eq_ok_iff, guard_eq_ok_iff, mapError_eq_ok_iff, Name.isEmpty, decide_eq_true_eq,
    bindIndices_eq_ok_iff List.Pairwise.nil, List.nil_append]
  constructor
  · intro ⟨name, parsed, proper, status, indices, ⟨each, same, pairs⟩, chosen⟩
    cases found : indices.findFinIdx? fun index => index.placement.role = .primary with
    | none =>
      rw [found] at chosen
      exact nomatch chosen
    | some primary =>
      rw [found] at chosen
      obtain rfl := Except.ok.inj chosen
      exact ⟨parsed, proper, status, each, same, pairs, found, rfl, rfl, rfl⟩
  · intro ⟨parsed, proper, status, each, same, pairs, found, inScope, inFormat, numbered⟩
    refine ⟨_, parsed, proper, status, _, ⟨each, same, pairs⟩, ?_⟩
    rw [found, ← inScope, ← inFormat, ← numbered]
    rfl

end Bind

/-- What holds of the indices of a table that is bound. -/
structure Bound (status : UInt8) (table : Name) (indices : List (Index ρ)) : Prop where
  stem : ∀ index ∈ indices,
    index.placement.stem = Key.stem status table index.placement.name
  distinct : indices.Pairwise fun a b => a.placement.name ≠ b.placement.name

/-- What a bound table has from its schema, and from nowhere else. -/
theorem of_bind {schema : Schema ρ} {format : RecordFormat ρ} {scope : Name} {serial : Nat}
    {table : Table ρ} (h : schema.bind format scope serial = .ok table) :
    table.scope = scope ∧ table.format = format
      ∧ Bound schema.status table.name table.indices := by
  obtain ⟨_, _, _, _, same, pairs, _, inScope, inFormat, _⟩ := bind_ok_iff.mp h
  refine ⟨inScope, inFormat, fun index mem => ?_, pairs.imp (·.names)⟩
  rw [same] at mem
  obtain ⟨declaration, _, rfl⟩ := List.mem_map.mp mem
  rfl

theorem serial_of_bind {schema : Schema ρ} {format : RecordFormat ρ} {scope : Name} {serial : Nat}
    {table : Table ρ} (h : schema.bind format scope serial = .ok table) : table.serial = serial := by
  obtain ⟨_, _, _, _, _, _, _, _, _, numbered⟩ := bind_ok_iff.mp h
  exact numbered

/-- **The indices of a bound table are apart.** -/
theorem apart_of_bind {schema : Schema ρ} {format : RecordFormat ρ} {scope : Name} {serial : Nat}
    {table : Table ρ} (h : schema.bind format scope serial = .ok table) : table.Apart := by
  obtain ⟨_, _, sound⟩ := of_bind h
  refine ⟨fun index mem => ?_, ?_⟩
  · rw [sound.stem index mem]
    exact Key.length_stem ..
  · refine sound.distinct.imp_of_mem fun {a b} memA memB names stems => names ?_
    rw [sound.stem a memA, sound.stem b memB] at stems
    exact (Key.stem_inj stems).2.2

end Schema

end IndexedStore
