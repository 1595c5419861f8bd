import IndexedStore.Key.Value
/-!
# Types of keys

The types whose values can be keys, with the NATURAL order of each. A type fixes the shape of its
values: all keys of one index are of one type, and only values of one type are ever compared.

* `KeyType` lists the types, closed under options, boxes, lists and tuples at any depth;
* `KeyType.Value` are the values of a type, `KeyType.key` the key value that such a value is;
* `KeyType.order` compares two values of a type: numbers as numbers, texts and byte strings byte by
  byte, lists and tuples lexicographically.

Keys that are encoded already have no type here: their bytes follow no order of values.
-/

namespace IndexedStore

/-- A type of keys. Widths of numbers are counts of bytes. -/
inductive KeyType where
  | bool
  | unsigned (size : Nat)
  | signed (size : Nat)
  | float (size : Nat)
  | char
  | text
  /-- Sequences of bytes, the empty one among them. -/
  | bytes
  | name
  | unit
  | option (content : KeyType)
  /-- Boxes and references. -/
  | boxed (content : KeyType)
  /-- Sequences of anything but bytes. -/
  | list (element : KeyType)
  | tuple (parts : List KeyType)

/-- A floating-point pattern read as a sign and a magnitude: the bits behind the sign bit are the
    magnitude. Floating-point numbers compare as these numbers do; both zeros are the number 0. -/
def signMagnitude {w : Nat} (pattern : BitVec w) : Int :=
  let magnitude : Int := (pattern.setWidth (w - 1)).toNat
  if pattern.msb then -magnitude else magnitude

/-- The comparison of two optional values; nothing comes before something. -/
def optionOrder {α : Type} (order : α → α → Ordering) : Option α → Option α → Ordering
  | none, none => .eq
  | none, some _ => .lt
  | some _, none => .gt
  | some a, some b => order a b

namespace KeyType

/-! ## 1. Values -/

mutual

/-- The values of a type. -/
def Value : KeyType → Type
  | .bool => Bool
  | .unsigned size => BitVec (8 * size)
  | .signed size => BitVec (8 * size)
  | .float size => BitVec (8 * size)
  | .char => Char
  | .text => String
  | .bytes => Bytes
  | .name => Name
  | .unit => Unit
  | .option content => Option content.Value
  | .boxed content => content.Value
  | .list element => List element.Value
  | .tuple parts => Values parts

/-- The values of a tuple, one for each part. -/
def Values : List KeyType → Type
  | [] => Unit
  | part :: rest => part.Value × Values rest

end

mutual

/-- The key value that a value of a type is. -/
def key : (type : KeyType) → type.Value → KeyValue
  | .bool, value => .bool value
  | .unsigned size, value => .unsigned size value
  | .signed size, value => .signed size value
  | .float size, value => .float size value
  | .char, value => .char value
  | .text, value => .text value
  | .bytes, value => .bytes value
  | .name, value => .name value
  | .unit, _ => .unit
  | .option content, value => .option (Option.map content.key value)
  | .boxed content, value => .boxed (content.key value)
  | .list element, value => .list (List.map element.key value)
  | .tuple parts, value => .tuple (keys parts value)

/-- The key values of the parts of a tuple. -/
def keys : (parts : List KeyType) → Values parts → List KeyValue
  | [], _ => []
  | part :: rest, value => part.key value.1 :: keys rest value.2

end

/-! ## 2. The natural order -/

mutual

/-- The comparison of two values of one type. -/
def order : (type : KeyType) → type.Value → type.Value → Ordering
  | .bool => (compare : Bool → Bool → Ordering)
  | .unsigned size => compareOn fun value : BitVec (8 * size) => value.toNat
  | .signed size => compareOn fun value : BitVec (8 * size) => value.toInt
  | .float size => compareOn fun pattern : BitVec (8 * size) => signMagnitude pattern
  | .char => compareOn Char.toNat
  | .text => fun a b => Bytes.order (Utf8.encode a) (Utf8.encode b)
  | .bytes => Bytes.order
  | .name => Name.order
  | .unit => fun _ _ => .eq
  | .option content => optionOrder content.order
  | .boxed content => content.order
  | .list element => List.compareLex element.order
  | .tuple parts => orderParts parts

/-- The comparison of two tuples: the first part in which they differ decides. -/
def orderParts : (parts : List KeyType) → Values parts → Values parts → Ordering
  | [], _, _ => .eq
  | part :: rest, a, b => (part.order a.1 b.1).then (orderParts rest a.2 b.2)

end

end KeyType

end IndexedStore
