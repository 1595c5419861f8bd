import IndexedStore.OrdMap
import IndexedStore.Payload.Varint
/-!
# Codecs

A codec is a writer and a reader for the values of one type, and a count of the bytes that a value
takes, made without writing it. Codecs of records are put together from the codecs of their parts:
`pair` writes one value behind the other, `list` writes a count and then the elements, `option` a
mark byte and then the value. No part needs to know what follows it.

* `Codec` is the type, `Codec.convert` carries a codec over to a type of the same shape;
* sections 2 to 4 hold the codecs of numbers, texts and containers, section 5 what types with
  several alternatives need.
-/

namespace IndexedStore.Payload

/-- How the values of `α` are written, counted and read. -/
structure Codec (α : Type) where
  write : α → Bytes
  size : α → Nat
  read : Reader α

namespace Codec

variable {α β : Type}

/-! ## 1. Shape -/

/-- A codec of `α` as a codec of `β`, along functions between the two. -/
def convert (codec : Codec α) (there : α → β) (back : β → α) : Codec β where
  write value := codec.write (back value)
  size value := codec.size (back value)
  read := there <$> codec.read

/-- One value behind the other. -/
def pair (first : Codec α) (second : Codec β) : Codec (α × β) where
  write value := first.write value.1 ++ second.write value.2
  size value := first.size value.1 + second.size value.2
  read := do
    let a ← first.read
    let b ← second.read
    return (a, b)

/-! ## 2. Numbers -/

/-- One byte, as it is. -/
def byte : Codec UInt8 where
  write value := [value]
  size _ := 1
  read := takeByte

/-- A signed byte, in two's complement. -/
def signedByte : Codec Int8 :=
  byte.convert UInt8.toInt8 Int8.toUInt8

/-- Words of `bits` bits as unsigned numbers, in a variable count of bytes. A number that does not
    survive the way through a word is out of range. -/
def unsigned (bits : Nat) : Codec (BitVec bits) where
  write value := Varint.write value.toNat
  size value := Varint.size value.toNat
  read := do
    let n ← Varint.read (64 < bits)
    let word := BitVec.ofNat bits n
    if word.toNat = n then return word else throw (.outOfRange ⟨false, bits⟩ n)

/-- Words of `bits` bits as signed numbers, folded, in a variable count of bytes. -/
def signed (bits : Nat) : Codec (BitVec bits) where
  write value := Varint.write (Varint.fold value.toInt)
  size value := Varint.size (Varint.fold value.toInt)
  read := do
    let i := Varint.unfold (← Varint.read (64 < bits))
    let word := BitVec.ofInt bits i
    if word.toInt = i then return word else throw (.outOfRange ⟨true, bits⟩ i)

/-- Unsigned numbers of 16 bits. -/
def uint16 : Codec UInt16 :=
  (unsigned 16).convert UInt16.ofBitVec UInt16.toBitVec

/-- Unsigned numbers of 32 bits. -/
def uint32 : Codec UInt32 :=
  (unsigned 32).convert UInt32.ofBitVec UInt32.toBitVec

/-- Unsigned numbers of 64 bits. -/
def uint64 : Codec UInt64 :=
  (unsigned 64).convert UInt64.ofBitVec UInt64.toBitVec

/-- Signed numbers of 16 bits. -/
def int16 : Codec Int16 :=
  (signed 16).convert Int16.ofBitVec Int16.toBitVec

/-- Signed numbers of 32 bits. -/
def int32 : Codec Int32 :=
  (signed 32).convert Int32.ofBitVec Int32.toBitVec

/-- Signed numbers of 64 bits. -/
def int64 : Codec Int64 :=
  (signed 64).convert Int64.ofBitVec Int64.toBitVec

/-- Counts of bytes or elements, as unsigned numbers of 64 bits. -/
def count : Codec Nat where
  write := Varint.write
  size := Varint.size
  read := Varint.read false

/-- The bit pattern of a floating-point number, in `size` bytes of fixed width. -/
def bits (size : Nat) : Codec (BitVec (8 * size)) where
  write value := Bytes.littleEndian size value.toNat
  size _ := size
  read := do return BitVec.ofNat _ (Bytes.ofLittleEndian (← take size))

/-- A truth value, as the byte 0 or 1. -/
def bool : Codec Bool where
  write value := [if value then 1 else 0]
  size _ := 1
  read := do
    match ← takeByte with
    | 0 => return false
    | 1 => return true
    | other => throw (.badBool other)

/-! ## 3. Texts -/

/-- A character, as its UTF-8 bytes. -/
def char : Codec Char where
  write := String.utf8EncodeChar
  size := Char.utf8Size
  read := do
    let lead ← takeByte
    match Utf8.readChar lead (← get) with
    | .error _ => throw .badChar
    | .ok (c, rest) =>
      set rest
      return c

/-- A text: the count of its bytes, and its bytes. -/
def text : Codec String where
  write value := count.write (Utf8.encode value).length ++ Utf8.encode value
  size value := count.size (Utf8.encode value).length + (Utf8.encode value).length
  read := do
    let length ← count.read
    match Utf8.decode (← take length .textCutShort) with
    | .error fault => throw (.badText fault)
    | .ok value => return value

/-- A name, as its text. -/
def name : Codec Name where
  write value := text.write value.text
  size value := text.size value.text
  read := do
    match Name.parse (← text.read) with
    | .error fault => throw (.badName fault)
    | .ok value => return value

/-! ## 4. Containers -/

/-- An optional value: the byte 0, or the byte 1 and the value. -/
def option (codec : Codec α) : Codec (Option α) where
  write
    | none => [0]
    | some value => 1 :: codec.write value
  size
    | none => 1
    | some value => 1 + codec.size value
  read := do
    match ← takeByte with
    | 0 => return none
    | 1 => return some (← codec.read)
    | other => throw (.badOption other)

/-- A list: the count of its elements, and its elements. -/
def list (codec : Codec α) : Codec (List α) where
  write values := count.write values.length ++ values.flatMap codec.write
  size values := count.size values.length + (values.map codec.size).foldr (· + ·) 0
  read := do readMany codec.read (← count.read)

/-- A map: the count of its entries, and its entries from the least key on. Reading takes entries
    in any order, and the last one of each key. -/
def map [LT α] [DecidableLT α] [LE α] [Std.IsLinearOrder α] [Std.LawfulOrderLT α]
    (key : Codec α) (value : Codec β) : Codec (OrdMap α β) :=
  (list (pair key value)).convert OrdMap.ofList OrdMap.entries

/-! ## 5. Alternatives -/

/-- The number of an alternative, in front of what the alternative holds. -/
def writeVariant (index : UInt32) (content : Bytes) : Bytes :=
  uint32.write index ++ content

/-- The count of bytes of an alternative that holds `content` bytes. -/
def variantSize (index : UInt32) (content : Nat) : Nat :=
  uint32.size index + content

/-- Reads the number of one of `alternatives` alternatives. -/
def readVariant (alternatives : Nat) : Reader Nat := do
  let index := (← uint32.read).toNat
  if index < alternatives then return index else throw (.badVariant index alternatives)

end Codec

end IndexedStore.Payload
