import IndexedStore.Name
/-!
# Reading payloads

A payload is the stored form of a record. It is read from the front: a reader takes a value off the
bytes and leaves the rest to the next reader, or says why it cannot.

* `Payload.Fault` lists the reasons, `Payload.Fault.message` words them;
* `Payload.Reader` is the type of readers;
* `Payload.takeByte` and `Payload.take` read raw bytes, `Payload.readAll` demands that nothing
  is left.
-/

namespace IndexedStore.Payload

/-- An integer type that is stored in a variable count of bytes. -/
structure IntegerType where
  signed : Bool
  bits : Nat
  deriving DecidableEq, Repr

/-- The short name of an integer type, such as `u32`. -/
def IntegerType.name (type : IntegerType) : String :=
  (if type.signed then "i" else "u") ++ toString type.bits

/-- Why bytes are no payload of the type that is read. -/
inductive Fault where
  /-- The bytes end inside a value. -/
  | endOfInput
  /-- The bytes end inside the bytes of a text. -/
  | textCutShort
  /-- Bytes follow the record. -/
  | trailingBytes
  /-- A 128-bit form stands where at most 64 bits fit. -/
  | wideForm
  /-- The first byte of an integer is the reserved one. -/
  | reservedForm
  /-- An integer is too large or too small for its type. -/
  | outOfRange (type : IntegerType) (value : Int)
  /-- A truth value is neither 0 nor 1. -/
  | badBool (byte : UInt8)
  /-- The mark of an optional value is neither 0 nor 1. -/
  | badOption (byte : UInt8)
  /-- The number of an alternative is not below the count of alternatives. -/
  | badVariant (index count : Nat)
  /-- A character is not well-formed UTF-8. -/
  | badChar
  /-- A text is not well-formed UTF-8. -/
  | badText (fault : Utf8.Fault)
  /-- A text that should be a name is none. -/
  | badName (fault : Name.Fault)
  deriving DecidableEq, Repr

/-- The wording of a fault. -/
def Fault.message : Fault → String
  | .endOfInput => "io error: unexpected end of file"
  | .textCutShort => "io error: "
  | .trailingBytes => "Slice had bytes remaining after deserialization"
  | .wideForm =>
    "Invalid value (u128 range): you may have a version or configuration disagreement?"
  | .reservedForm =>
    "\nByte 255 is treated as an extension point; it should not be encoding anything.\n"
      ++ "Do you have a mismatched bincode version or configuration?\n"
  | .outOfRange type value =>
    "Invalid " ++ type.name ++ " " ++ toString value ++ ": you may have a version disagreement?"
  | .badBool byte => s!"invalid u8 while decoding bool, expected 0 or 1, found {byte.toNat}"
  | .badOption byte => s!"tag for enum is not valid, found {byte.toNat}"
  | .badVariant index count =>
    "invalid value: integer \x60" ++ toString index ++ "\x60, expected variant index 0 <= i < "
      ++ toString count
  | .badChar => "char is not valid"
  | .badText fault => "string is not valid utf8: " ++ fault.message
  | .badName fault => "Invalid name: " ++ fault.message

/-- A reader takes a value off the front of the bytes. -/
abbrev Reader := StateT Bytes (Except Fault)

/-- Takes one byte. -/
def takeByte : Reader UInt8
  | [] => .error .endOfInput
  | byte :: rest => .ok (byte, rest)

/-- Takes `count` bytes; `short` is the fault if there are fewer. -/
def take (count : Nat) (short : Fault := .endOfInput) : Reader Bytes := fun bytes =>
  if bytes.length < count then .error short
  else .ok (bytes.take count, bytes.drop count)

/-- Runs `reader` on the whole of `bytes`. -/
def readAll {α : Type} (reader : Reader α) (bytes : Bytes) : Except Fault α :=
  match reader bytes with
  | .error fault => .error fault
  | .ok (value, []) => .ok value
  | .ok (_, _ :: _) => .error .trailingBytes

/-- Reads `count` values one after the other. -/
def readMany {α : Type} (reader : Reader α) : Nat → Reader (List α)
  | 0 => pure []
  | count + 1 => do
    let value ← reader
    let values ← readMany reader count
    return value :: values

end IndexedStore.Payload
