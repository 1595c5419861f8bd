import IndexedStore.Utf8
/-!
# Hexadecimal text

A byte is written as two lower case digits, without separators. Reading takes either case.

* `Hex.encode` writes, `Hex.decode` reads;
* `Hex.Fault` says why a text is refused: the count of its bytes is looked at first, then the
  characters from left to right.
-/

namespace IndexedStore.Hex

/-- Why a text is not the hexadecimal form of a byte sequence. -/
inductive Fault where
  /-- The text has an odd count of bytes. -/
  | oddLength (length : Nat)
  /-- The first byte from the left that is no digit. -/
  | badCharacter (byte : UInt8)
  deriving DecidableEq, Repr

/-- The wording of a refusal. An offending byte is shown as the character with its number. -/
def Fault.message : Fault → String
  | .oddLength length => s!"odd length {length}"
  | .badCharacter byte => s!"invalid character '{Char.ofNat byte.toNat}'"

/-! ## 1. Writing -/

/-- The digit for a number below sixteen. -/
def digit (n : Nat) : Char :=
  "0123456789abcdef".toList.getD n '0'

/-- The two digits of one byte. -/
def digits (byte : UInt8) : List Char :=
  [digit (byte.toNat / 16), digit (byte.toNat % 16)]

/-- The hexadecimal text of a byte sequence. -/
def encode (bytes : Bytes) : String :=
  String.ofList (bytes.flatMap digits)

/-! ## 2. Reading -/

/-- The number that an ASCII digit stands for. -/
def digitValue (byte : UInt8) : Except Fault Nat :=
  if 0x30 ≤ byte ∧ byte ≤ 0x39 then .ok (byte.toNat - 0x30)
  else if 0x61 ≤ byte ∧ byte ≤ 0x66 then .ok (byte.toNat - 0x61 + 10)
  else if 0x41 ≤ byte ∧ byte ≤ 0x46 then .ok (byte.toNat - 0x41 + 10)
  else .error (.badCharacter byte)

/-- Reads the digits two by two. -/
def decodePairs : Bytes → Except Fault Bytes
  | high :: low :: rest => do
    let h ← digitValue high
    let l ← digitValue low
    let bytes ← decodePairs rest
    return UInt8.ofNat (h * 16 + l) :: bytes
  | _ => .ok []

/-- The byte sequence that a hexadecimal text spells. -/
def decode (text : String) : Except Fault Bytes :=
  let spelled := Utf8.encode text
  if spelled.length % 2 = 0 then decodePairs spelled else .error (.oddLength spelled.length)

end IndexedStore.Hex
