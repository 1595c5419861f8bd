import IndexedStore.Utf8
/-!
# Packed names

Scopes, tables and indices are addressed by names of at most thirteen characters out of `.`, `1` to
`5` and `a` to `z`, packed into one 64-bit word: the first twelve characters take five bits each,
from the top, and the thirteenth takes the last four, so it must be one of the first sixteen
characters. A character's number is its place in that list, and a missing character counts as `.`;
so a name and the same name with dots behind it are one word, and words compare as texts do.

* `Name.parse` packs a text, `Name.text` spells a word;
* `Name.Fault` says why a text is no name.
-/

namespace IndexedStore

/-- A name, packed. Every word is a name. -/
structure Name where
  packed : UInt64
  deriving DecidableEq, Repr

namespace Name

/-! ## 1. Order -/

instance : LT Name := ⟨fun a b => a.packed < b.packed⟩

instance : LE Name := ⟨fun a b => a.packed ≤ b.packed⟩

instance : DecidableLT Name := fun a b => inferInstanceAs (Decidable (a.packed < b.packed))

instance : Std.LawfulOrderLT Name :=
  ⟨fun a b => Std.LawfulOrderLT.lt_iff a.packed b.packed⟩

instance : Std.IsLinearOrder Name where
  le_refl a := Std.IsPreorder.le_refl a.packed
  le_trans a b c := Std.IsPreorder.le_trans a.packed b.packed c.packed
  le_antisymm a b ab ba := by
    cases a
    cases b
    exact congrArg _ (Std.IsPartialOrder.le_antisymm _ _ ab ba)
  le_total a b := Std.IsLinearPreorder.le_total a.packed b.packed

/-- The comparison of two names, as words. -/
def order (a b : Name) : Ordering :=
  if a < b then .lt else if a = b then .eq else .gt

/-! ## 2. Symbols -/

/-- The characters of names; a character's number is its place. -/
def alphabet : List Char :=
  ".12345abcdefghijklmnopqrstuvwxyz".toList

/-- The character with a given number. -/
def character (symbol : Nat) : Char :=
  alphabet.getD symbol '.'

/-- The number of the character that a byte spells. -/
def symbol? (byte : UInt8) : Option Nat :=
  if byte = 0x2e then some 0
  else if 0x31 ≤ byte ∧ byte ≤ 0x35 then some (byte.toNat - 0x31 + 1)
  else if 0x61 ≤ byte ∧ byte ≤ 0x7a then some (byte.toNat - 0x61 + 6)
  else none

/-- The most characters a name can have. -/
def maxLength : Nat := 13

/-- The thirteen numbers of a name: twelve digits to the base 32 and one to the base 16. -/
def symbols (name : Name) : List Nat :=
  (List.range 12).map (fun i => (name.packed.toNat >>> (59 - 5 * i)) % 32)
    ++ [name.packed.toNat % 16]

/-- The word that thirteen numbers spell; missing ones count as zero. -/
def pack (symbols : List Nat) : Nat :=
  (List.range 12).foldl (fun word i => word * 32 + symbols.getD i 0) 0 * 16 + symbols.getD 12 0

/-! ## 3. Text -/

/-- Why a text is no name. -/
inductive Fault where
  /-- The text has more than thirteen bytes. -/
  | tooLong (text : String)
  /-- The first byte from the left that spells no character of the alphabet. -/
  | badCharacter (text : String) (byte : UInt8)
  /-- The thirteenth character does not fit four bits. -/
  | badThirteenth (text : String)
  deriving DecidableEq, Repr

/-- The wording of a refusal. An offending byte is shown as the character with its number. -/
def Fault.message : Fault → String
  | .tooLong text => s!"'{text}' is longer than {maxLength} characters"
  | .badCharacter text byte =>
    s!"'{text}' contains invalid character '{Char.ofNat byte.toNat}'"
  | .badThirteenth text => s!"thirteenth character of '{text}' must be in [.1-5a-j]"

/-- The numbers that the bytes of `text` spell. -/
def readSymbols (text : String) : Bytes → Except Fault (List Nat)
  | [] => .ok []
  | byte :: rest =>
    match symbol? byte with
    | none => .error (.badCharacter text byte)
    | some symbol => (readSymbols text rest).map (symbol :: ·)

/-- Packs a text. -/
def parse (text : String) : Except Fault Name := do
  let bytes := Utf8.encode text
  if bytes.length > maxLength then throw (.tooLong text)
  let symbols ← readSymbols text bytes
  if symbols.getD 12 0 > 15 then throw (.badThirteenth text)
  return ⟨UInt64.ofNat (pack symbols)⟩

/-- The text of a name: its characters up to the last one that is no dot. -/
def text (name : Name) : String :=
  let characters := name.symbols.map character
  String.ofList (characters.reverse.dropWhile (· = '.')).reverse

/-- The name of no characters. -/
def empty : Name := ⟨0⟩

/-- Whether a name is the name of no characters. -/
def isEmpty (name : Name) : Bool :=
  name = empty

instance : Inhabited Name := ⟨empty⟩

/-- The name as its word, in the form in which listings show it. -/
def describe (name : Name) : String :=
  s!"Name({name.packed.toNat})"

end Name

end IndexedStore
