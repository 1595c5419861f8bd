import IndexedStore.Key.Value
import IndexedStore.Payload.Format
/-!
# Persons

Two generations of one record. `Person` is plain. `AnyPerson` wraps it as its first alternative and
adds a second one with a mail address, so a payload of the first generation reads as either type.
-/

namespace IndexedStore

open Payload

/-! ## 1. The first generation -/

/-- A person. -/
structure Person where
  id : UInt64 := 0
  name : String := ""
  age : UInt32 := 0
  deriving DecidableEq, Repr

namespace Person

/-- Persons as bytes: the fields in order. -/
def codec : Codec Person :=
  (Codec.uint64.pair (Codec.text.pair Codec.uint32)).convert
    (fun (id, name, age) => { id, name, age })
    (fun person => (person.id, person.name, person.age))

/-- The payloads of persons. -/
def format : RecordFormat Person :=
  .plain codec

/-- The keys that persons can be indexed by. -/
def selector? : String → Option (Person → KeyValue)
  | "id" => some fun person => .uint64 person.id
  | "name" => some fun person => .text person.name
  | "age" => some fun person => .uint32 person.age
  | "age_id" => some fun person => .tuple [.uint32 person.age, .uint64 person.id]
  | "name_bytes" => some fun person => .bytes (Utf8.encode person.name)
  | "opt_name" => some fun person =>
    if person.name.isEmpty then .absent else .present (.text person.name)
  | "joined" => some fun person =>
    .encoded ((KeyValue.text person.name).encode ++ (KeyValue.uint32 person.age).encode)
  | "name_age" => some fun person => .tuple [.text person.name, .uint32 person.age]
  | "unit" => some fun _ => .unit
  | _ => none

end Person

/-! ## 2. Both generations -/

/-- A person with a mail address. -/
structure PersonWithEmail where
  id : UInt64
  name : String
  age : UInt32
  email : Option String
  deriving DecidableEq, Repr

/-- Persons with mail addresses as bytes: the fields in order. -/
def PersonWithEmail.codec : Codec PersonWithEmail :=
  (Codec.uint64.pair (Codec.text.pair (Codec.uint32.pair Codec.text.option))).convert
    (fun (id, name, age, email) => { id, name, age, email })
    (fun person => (person.id, person.name, person.age, person.email))

/-- A person of either generation. -/
inductive AnyPerson where
  | first (person : Person)
  | second (person : PersonWithEmail)
  deriving DecidableEq, Repr

namespace AnyPerson

/-- Persons of either generation as bytes. -/
def codec : Codec AnyPerson where
  write
    | .first person => Codec.writeVariant 0 (Person.codec.write person)
    | .second person => Codec.writeVariant 1 (PersonWithEmail.codec.write person)
  size
    | .first person => Codec.variantSize 0 (Person.codec.size person)
    | .second person => Codec.variantSize 1 (PersonWithEmail.codec.size person)
  read := do
    match ← Codec.readVariant 2 with
    | 0 => return .first (← Person.codec.read)
    | _ => return .second (← PersonWithEmail.codec.read)

/-- The payloads of persons of either generation. -/
def format : RecordFormat AnyPerson :=
  .variant codec

/-- The number of a person. -/
def id : AnyPerson → UInt64
  | .first person => person.id
  | .second person => person.id

/-- The name of a person. -/
def name : AnyPerson → String
  | .first person => person.name
  | .second person => person.name

/-- The mail address of a person; the first generation has none. -/
def email : AnyPerson → Option String
  | .first _ => none
  | .second person => person.email

/-- The keys that persons of either generation can be indexed by. -/
def selector? : String → Option (AnyPerson → KeyValue)
  | "id" => some fun person => .uint64 person.id
  | "name" => some fun person => .text person.name
  | "email" => some fun person => .option (person.email.map .text)
  | _ => none

end AnyPerson

end IndexedStore
