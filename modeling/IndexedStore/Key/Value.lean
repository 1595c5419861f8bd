import IndexedStore.Name
/-!
# Key values

The values that records are indexed by, and their encoding as bytes. The encoding keeps ORDER: of
two values of one type the smaller one has the smaller bytes, whatever bytes follow either. So
encodings can stand one behind the other in a tuple, and a store that sorts bytes sorts values.

* `KeyValue` is the type of values, `KeyValue.encode` the encoding;
* `KeyValue.sequence` is a list of values, as a byte string if it holds bytes;
* `KeyValue.flipSign` and `KeyValue.floatWord` turn signed and floating-point words into words
  that sort as unsigned numbers; `KeyValue.escape` ends a byte string where its bytes cannot.
-/

namespace IndexedStore

/-- A value that can be a key. Words are given with the count of their bytes. -/
inductive KeyValue where
  | bool (value : Bool)
  | unsigned (size : Nat) (value : BitVec (8 * size))
  | signed (size : Nat) (value : BitVec (8 * size))
  /-- A floating-point number, by its bit pattern: sign, exponent, fraction. -/
  | float (size : Nat) (pattern : BitVec (8 * size))
  | char (value : Char)
  | text (value : String)
  | bytes (value : Bytes)
  | name (value : Name)
  | unit
  | absent
  | present (value : KeyValue)
  /-- A value in a box. It has the bytes of the value, but a boxed byte is not a byte of a byte
      string. -/
  | boxed (value : KeyValue)
  | list (elements : List KeyValue)
  | tuple (parts : List KeyValue)
  /-- A key that is encoded already. -/
  | encoded (key : Bytes)

namespace KeyValue

/-! ## 1. Words -/

variable {w : Nat}

/-- A signed word with its sign bit turned over: the negative numbers come before the others. -/
def flipSign (word : BitVec w) : BitVec w :=
  word ^^^ BitVec.intMin w

/-- A floating-point pattern as a word that sorts as the number does. The magnitudes of negative
    numbers sort backwards, so all their bits turn over; both zeros become one word. -/
def floatWord (pattern : BitVec w) : BitVec w :=
  if pattern <<< 1 = 0 then BitVec.intMin w
  else if pattern.msb then ~~~pattern
  else pattern ||| BitVec.intMin w

/-- An unsigned number of 8 bits. -/
def uint8 (value : UInt8) : KeyValue := .unsigned 1 value.toBitVec

/-- An unsigned number of 16 bits. -/
def uint16 (value : UInt16) : KeyValue := .unsigned 2 value.toBitVec

/-- An unsigned number of 32 bits. -/
def uint32 (value : UInt32) : KeyValue := .unsigned 4 value.toBitVec

/-- An unsigned number of 64 bits. -/
def uint64 (value : UInt64) : KeyValue := .unsigned 8 value.toBitVec

/-- A signed number of 8 bits. -/
def int8 (value : Int8) : KeyValue := .signed 1 value.toBitVec

/-- A signed number of 16 bits. -/
def int16 (value : Int16) : KeyValue := .signed 2 value.toBitVec

/-- A signed number of 32 bits. -/
def int32 (value : Int32) : KeyValue := .signed 4 value.toBitVec

/-- A signed number of 64 bits. -/
def int64 (value : Int64) : KeyValue := .signed 8 value.toBitVec

/-! ## 2. Byte strings and sequences -/

/-- A byte string with an end of its own: a zero byte inside is followed by 1, and two zero bytes
    end the string. -/
def escape : Bytes → Bytes
  | [] => [0, 0]
  | byte :: rest => if byte = 0 then 0 :: 1 :: escape rest else byte :: escape rest

/-- The byte that a value is, if it is an unsigned number of 8 bits outside any box. -/
def byte? : KeyValue → Option UInt8
  | .unsigned 1 value => some (UInt8.ofBitVec value)
  | _ => none

/-- A sequence of values. One of bytes, and of at least one, is a byte string. -/
def sequence (elements : List KeyValue) : KeyValue :=
  match elements, elements.mapM byte? with
  | _ :: _, some spelled => .bytes spelled
  | _, _ => .list elements

/-- An optional value. -/
def option : Option KeyValue → KeyValue
  | none => .absent
  | some value => .present value

/-! ## 3. Encoding -/

mutual

/-- The bytes of a value. -/
def encode : KeyValue → Bytes
  | .bool value => [if value then 1 else 0]
  | .unsigned size value => Bytes.bigEndian size value.toNat
  | .signed size value => Bytes.bigEndian size (flipSign value).toNat
  | .float size pattern => Bytes.bigEndian size (floatWord pattern).toNat
  | .char value => Bytes.bigEndian 4 value.toNat
  | .text value => escape (Utf8.encode value)
  | .bytes value => escape value
  | .name value => Bytes.bigEndian 8 value.packed.toNat
  | .unit => []
  | .absent => [0]
  | .present value => 1 :: encode value
  | .boxed value => encode value
  | .list elements => encodeElements elements
  | .tuple parts => encodeParts parts
  | .encoded key => key

/-- The elements of a sequence: 1 before each of them, 0 behind the last. -/
def encodeElements : List KeyValue → Bytes
  | [] => [0]
  | element :: rest => 1 :: (encode element ++ encodeElements rest)

/-- The parts of a tuple, one behind the other. -/
def encodeParts : List KeyValue → Bytes
  | [] => []
  | part :: rest => encode part ++ encodeParts rest

end

end KeyValue

end IndexedStore
