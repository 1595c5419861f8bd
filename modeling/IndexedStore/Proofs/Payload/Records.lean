import IndexedStore.Proofs.Payload.Formats
import IndexedStore.Proofs.Payload.Trees
import IndexedStore.Record.Kind
/-!
# Payloads of records

The records of every kind are read back from their payloads, the payloads have the sizes that are
counted for them, and nothing else that starts or continues a payload reads as a record: a payload
cut short anywhere is refused, and so is one with bytes behind it.

The only condition is on counts: they are written in 64 bits, so no text, list or map of a record may
have more parts than that. No value in memory has.

* `RecordKind.Countable` is the condition, `RecordKind.framed` the result; the lemmas before them give
  each kind's codec its laws.
-/

namespace IndexedStore

open Payload Payload.Reader Payload.Codec

/-! ## 1. Persons -/

/-- Persons whose names can be counted. -/
def Person.Countable (person : Person) : Prop :=
  FitsText person.name

theorem Person.lawful : Lawful Person.codec Person.Countable :=
  ((lawful_uint64.pair (lawful_text.pair lawful_uint32)).convert fun _ => rfl).weaken
    fun _ name => ⟨trivial, name, trivial⟩

/-- Persons with mail addresses whose texts can be counted. -/
structure PersonWithEmail.Countable (person : PersonWithEmail) : Prop where
  name : FitsText person.name
  email : FitsOption FitsText person.email

theorem PersonWithEmail.lawful : Lawful PersonWithEmail.codec PersonWithEmail.Countable :=
  ((lawful_uint64.pair (lawful_text.pair (lawful_uint32.pair lawful_text.option))).convert
    fun _ => rfl).weaken fun _ person => ⟨trivial, person.name, trivial, person.email⟩

/-- Persons of either generation whose texts can be counted. -/
def AnyPerson.Countable : AnyPerson → Prop
  | .first person => person.Countable
  | .second person => person.Countable

theorem AnyPerson.lawful : Lawful AnyPerson.codec AnyPerson.Countable where
  reads person countable rest := by
    cases person with
    | first person =>
      show (readVariant 2 >>= _) (writeVariant 0 (Person.codec.write person) ++ rest) = _
      rw [writeVariant_append, bind_of_ok (readVariant_write (by decide) _)]
      show (Person.codec.read >>= _) _ = _
      rw [bind_of_ok (Person.lawful.reads person countable rest)]
      rfl
    | second person =>
      show (readVariant 2 >>= _) (writeVariant 1 (PersonWithEmail.codec.write person) ++ rest) = _
      rw [writeVariant_append, bind_of_ok (readVariant_write (by decide) _)]
      show (PersonWithEmail.codec.read >>= _) _ = _
      rw [bind_of_ok (PersonWithEmail.lawful.reads person countable rest)]
      rfl
  sized person := by
    cases person with
    | first person =>
      show (writeVariant 0 (Person.codec.write person)).length = _
      rw [length_writeVariant, Person.lawful.sized]
      rfl
    | second person =>
      show (writeVariant 1 (PersonWithEmail.codec.write person)).length = _
      rw [length_writeVariant, PersonWithEmail.lawful.sized]
      rfl
  sequential := by
    refine (sequential_readVariant 2).bind fun index => ?_
    split
    · exact Person.lawful.sequential.bind fun person => .pure _
    · exact PersonWithEmail.lawful.sequential.bind fun person => .pure _

/-! ## 2. Counters and items -/

theorem CounterState.lawful : Lawful CounterState.codec Unbounded :=
  ((lawful_uint64.pair lawful_bool).convert fun _ => rfl).weaken fun _ _ => ⟨trivial, trivial⟩

theorem Counter.lawful : Lawful Counter.codec Unbounded :=
  lawful_uint64.convert fun _ => rfl

/-- Items whose texts, lists and map can be counted. -/
structure Item.Countable (item : Item) : Prop where
  text : FitsText item.text
  blob : item.blob.length < UInt64.size
  opt : FitsOption FitsText item.opt
  list : item.list.length < UInt64.size
  pair : FitsText item.pair.2
  nest : item.nest.length < UInt64.size
  map : item.map.size < UInt64.size
  keys : ∀ entry ∈ item.map.entries, FitsText entry.1

theorem Item.lawful_integers : Lawful Item.integers Unbounded :=
  (lawful_signedByte.pair <| lawful_int16.pair <| lawful_int32.pair <| lawful_int64.pair <|
    (lawful_signed (by decide)).pair <| lawful_byte.pair <| lawful_uint16.pair <|
    lawful_uint32.pair <| lawful_uint64.pair <| lawful_unsigned (by decide)).weaken fun _ _ =>
      ⟨trivial, trivial, trivial, trivial, trivial, trivial, trivial, trivial, trivial, trivial⟩

theorem Item.lawful : Lawful Item.codec Item.Countable := by
  have others := (lawful_bits 4).pair <| (lawful_bits 8).pair <| lawful_bool.pair <|
    lawful_char.pair <| lawful_text.pair <| lawful_byte.list.pair <| lawful_text.option.pair <|
    lawful_uint16.list.pair <| (lawful_int32.pair lawful_text).pair <| lawful_name.pair <|
    lawful_int64.option.list.pair <| Lawful.map lawful_text lawful_uint32
  have unboundedOption : ∀ value : Option Int64, FitsOption Unbounded value := fun value => by
    cases value <;> exact trivial
  refine ((Item.lawful_integers.pair others).convert fun _ => rfl).weaken fun item countable => ?_
  exact ⟨trivial, trivial, trivial, trivial, trivial, countable.text,
    ⟨countable.blob, fun _ _ => trivial⟩, countable.opt, ⟨countable.list, fun _ _ => trivial⟩,
    ⟨trivial, countable.pair⟩, trivial, ⟨countable.nest, fun value _ => unboundedOption value⟩,
    ⟨countable.map, fun entry mem => ⟨countable.keys entry mem, trivial⟩⟩⟩

/-! ## 3. Kinds -/

namespace RecordKind

/-- Records none of whose texts, lists and maps has more parts than 64 bits can count. -/
def Countable : (kind : RecordKind) → kind.Record → Prop
  | .person => Person.Countable
  | .anyPerson => AnyPerson.Countable
  | .state => Unbounded
  | .counter => Unbounded
  | .tree => Tree.Countable
  | .item => Item.Countable

/-- **The payload of every record of every kind**: it reads as the record, has the size that is
    counted, and with bytes missing at its end, or more bytes behind, it is refused. -/
theorem framed (kind : RecordKind) (record : kind.Record) (countable : kind.Countable record) :
    kind.format.Framed kind.size record := by
  cases kind with
  | person => exact RecordFormat.framed_plain Person.lawful countable
  | anyPerson => exact RecordFormat.framed_variant AnyPerson.lawful countable
  | state => exact RecordFormat.framed_plain CounterState.lawful countable
  | counter => exact RecordFormat.framed_plain Counter.lawful countable
  | tree => exact RecordFormat.framed_variant Tree.lawful countable
  | item => exact RecordFormat.framed_plain Item.lawful countable

/-- An item with something in every field that is counted. -/
def fullItem : Item where
  n16 := -300
  u64 := 70000
  text := "ä"
  blob := [0, 255]
  opt := some "x"
  list := [251]
  pair := (-1, "y")
  tag := ⟨0x8000000000000001⟩
  nest := [none, some (-5)]
  map := OrdMap.ofList [("b", 1), ("a", 2)]

theorem framed_fullItem :
    RecordKind.item.Countable fullItem
      ∧ RecordKind.item.format.Framed RecordKind.item.size fullItem := by
  have countable : RecordKind.item.Countable fullItem := by
    refine ⟨by decide, by decide, ?_, by decide, by decide, by decide, by decide, ?_⟩
    · show FitsText "x"
      decide
    · decide
  exact ⟨countable, framed .item fullItem countable⟩

end RecordKind

end IndexedStore
