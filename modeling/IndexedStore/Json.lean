import IndexedStore.Bytes
/-!
# JSON documents

Settings are kept as JSON text. A document is read whole: `Json.parse` takes exactly one value,
with blanks around it and nothing else. Two things are kept that a reader of settings needs and
that a plainer tree would lose: a number stays the text it was written as, and a string whose
escapes spell half of a surrogate pair is a string without text (`none`), well-formed but unusable.

* `Json.parse` reads, `Json.pretty` writes with an indent of two blanks;
* `Json.quote` is the written form of one string;
* `Json.natural?` and `Json.text?` read single values.
-/

namespace IndexedStore

/-- A JSON value. Members keep their order and may repeat a name. -/
inductive Json where
  | null
  | bool (value : Bool)
  | number (literal : String)
  | string (text : Option String)
  | array (elements : List Json)
  | object (members : List (Option String × Json))

namespace Json

/-! ## 1. Blanks, digits and numbers -/

/-- The four blanks of JSON. -/
def isBlank (c : Char) : Bool :=
  c = ' ' || c = '\n' || c = '\t' || c = '\r'

/-- Drops leading blanks. -/
def skipBlanks (chars : List Char) : List Char :=
  chars.dropWhile isBlank

/-- One or more digits, and what follows them. -/
def readDigits? (chars : List Char) : Option (List Char × List Char) :=
  match chars.span Char.isDigit with
  | ([], _) => none
  | read => some read

/-- The digits of an integer: a zero stands alone, no other number starts with one. -/
def readInteger? : List Char → Option (List Char × List Char)
  | '0' :: rest => match rest with
    | [] => some (['0'], [])
    | c :: _ => if c.isDigit then none else some (['0'], rest)
  | chars => readDigits? chars

/-- A fraction, if a point opens one. -/
def readFraction? : List Char → Option (List Char × List Char)
  | '.' :: rest => (readDigits? rest).map fun (digits, rest) => ('.' :: digits, rest)
  | chars => some ([], chars)

/-- An exponent, if an `e` of either case opens one. -/
def readExponent? : List Char → Option (List Char × List Char)
  | e :: rest =>
    if e = 'e' ∨ e = 'E' then
      let (sign, rest) := match rest with
        | '+' :: rest => (['+'], rest)
        | '-' :: rest => (['-'], rest)
        | rest => ([], rest)
      (readDigits? rest).map fun (digits, rest) => (e :: sign ++ digits, rest)
    else some ([], e :: rest)
  | [] => some ([], [])

/-- A number, as it is written. -/
def readNumber? (chars : List Char) : Option (List Char × List Char) := do
  let (sign, rest) := match chars with
    | '-' :: rest => (['-'], rest)
    | rest => ([], rest)
  let (whole, rest) ← readInteger? rest
  let (fraction, rest) ← readFraction? rest
  let (exponent, rest) ← readExponent? rest
  return (sign ++ whole ++ fraction ++ exponent, rest)

/-! ## 2. Strings -/

/-- The value of a hexadecimal digit of either case. -/
def hexValue? (c : Char) : Option Nat :=
  if '0' ≤ c ∧ c ≤ '9' then some (c.toNat - '0'.toNat)
  else if 'a' ≤ c ∧ c ≤ 'f' then some (c.toNat - 'a'.toNat + 10)
  else if 'A' ≤ c ∧ c ≤ 'F' then some (c.toNat - 'A'.toNat + 10)
  else none

/-- One piece of a string: a character, or a 16-bit unit that an escape gives by its number. -/
inductive Piece where
  | char (c : Char)
  | unit (code : Nat)

/-- What a one-letter escape stands for. -/
def shortEscape? : Char → Option Char
  | '"' => some '"'
  | '\\' => some '\\'
  | '/' => some '/'
  | 'b' => some '\x08'
  | 'f' => some '\x0c'
  | 'n' => some '\n'
  | 'r' => some '\r'
  | 't' => some '\t'
  | _ => none

/-- The pieces of a string up to its closing quote, and what follows that. Control characters must
    be escaped. -/
def readPieces? : List Char → Option (List Piece × List Char)
  | '"' :: rest => some ([], rest)
  | '\\' :: 'u' :: a :: b :: c :: d :: rest => do
    let code := ((← hexValue? a) * 16 + (← hexValue? b)) * 256 + (← hexValue? c) * 16 + (← hexValue? d)
    let (pieces, rest) ← readPieces? rest
    return (.unit code :: pieces, rest)
  | '\\' :: escape :: rest => do
    let c ← shortEscape? escape
    let (pieces, rest) ← readPieces? rest
    return (.char c :: pieces, rest)
  | c :: rest =>
    if c.toNat < 0x20 ∨ c = '\\' then none
    else do
      let (pieces, rest) ← readPieces? rest
      return (.char c :: pieces, rest)
  | [] => none

/-- Whether a unit is the first half of a pair. -/
def isHighHalf (code : Nat) : Bool :=
  0xd800 ≤ code && code < 0xdc00

/-- Whether a unit is the second half of a pair. -/
def isLowHalf (code : Nat) : Bool :=
  0xdc00 ≤ code && code < 0xe000

/-- The characters that pieces spell; none if one half of a pair stands without the other. -/
def joinPieces? : List Piece → Option (List Char)
  | [] => some []
  | .char c :: rest => (joinPieces? rest).map (c :: ·)
  | .unit high :: .unit low :: rest =>
    if isHighHalf high then
      if isLowHalf low then
        (joinPieces? rest).map
          (Char.ofNat (0x10000 + (high - 0xd800) * 0x400 + (low - 0xdc00)) :: ·)
      else none
    else if isLowHalf high then none
    else (joinPieces? (.unit low :: rest)).map (Char.ofNat high :: ·)
  | .unit code :: rest =>
    if isHighHalf code || isLowHalf code then none
    else (joinPieces? rest).map (Char.ofNat code :: ·)

/-- A string behind its opening quote: its text, if it has one, and what follows. -/
def readString? (chars : List Char) : Option (Option String × List Char) := do
  let (pieces, rest) ← readPieces? chars
  return ((joinPieces? pieces).map String.ofList, rest)

/-! ## 3. Values -/

mutual

/-- One value, blanks before it allowed, and what follows it. The first argument bounds the depth
    of the calls; twice the count of characters is always enough, since of two nested calls one
    takes a character. -/
def readValue? : Nat → List Char → Option (Json × List Char)
  | 0, _ => none
  | fuel + 1, chars =>
    match skipBlanks chars with
    | 'n' :: 'u' :: 'l' :: 'l' :: rest => some (.null, rest)
    | 't' :: 'r' :: 'u' :: 'e' :: rest => some (.bool true, rest)
    | 'f' :: 'a' :: 'l' :: 's' :: 'e' :: rest => some (.bool false, rest)
    | '"' :: rest => (readString? rest).map fun (text, rest) => (.string text, rest)
    | '[' :: rest =>
      match skipBlanks rest with
      | ']' :: rest => some (.array [], rest)
      | rest => (readElements? fuel rest).map fun (elements, rest) => (.array elements, rest)
    | '\x7b' :: rest =>
      match skipBlanks rest with
      | '\x7d' :: rest => some (.object [], rest)
      | rest => (readMembers? fuel rest).map fun (members, rest) => (.object members, rest)
    | chars => (readNumber? chars).map fun (literal, rest) =>
        (.number (String.ofList literal), rest)

/-- The elements of an array up to its closing bracket. -/
def readElements? : Nat → List Char → Option (List Json × List Char)
  | 0, _ => none
  | fuel + 1, chars => do
    let (element, rest) ← readValue? fuel chars
    match skipBlanks rest with
    | ']' :: rest => return ([element], rest)
    | ',' :: rest =>
      let (elements, rest) ← readElements? fuel rest
      return (element :: elements, rest)
    | _ => none

/-- The members of an object up to its closing brace. -/
def readMembers? : Nat → List Char → Option (List (Option String × Json) × List Char)
  | 0, _ => none
  | fuel + 1, chars =>
    match skipBlanks chars with
    | '"' :: rest => do
      let (name, rest) ← readString? rest
      match skipBlanks rest with
      | ':' :: rest =>
        let (value, rest) ← readValue? fuel rest
        match skipBlanks rest with
        | '\x7d' :: rest => return ([(name, value)], rest)
        | ',' :: rest =>
          let (members, rest) ← readMembers? fuel rest
          return ((name, value) :: members, rest)
        | _ => none
      | _ => none
    | _ => none

end

/-- The value that a text spells. Only blanks may stand around it. -/
def parse (text : String) : Option Json :=
  let chars := text.toList
  match readValue? (2 * chars.length + 2) chars with
  | some (value, rest) => if (skipBlanks rest).isEmpty then some value else none
  | none => none

/-! ## 4. Writing -/

/-- The written form of one character inside a string. Quote, backslash and the control characters
    are escaped, the common ones by a letter and the others by number. -/
def escape (c : Char) : List Char :=
  match c with
  | '"' => ['\\', '"']
  | '\\' => ['\\', '\\']
  | '\x08' => ['\\', 'b']
  | '\x0c' => ['\\', 'f']
  | '\n' => ['\\', 'n']
  | '\r' => ['\\', 'r']
  | '\t' => ['\\', 't']
  | c =>
    if c.toNat < 0x20 then
      ['\\', 'u', '0', '0', Nat.digitChar (c.toNat / 16), Nat.digitChar (c.toNat % 16)]
    else [c]

/-- The written form of a string. -/
def quote (text : String) : String :=
  String.ofList ('"' :: text.toList.flatMap escape ++ ['"'])

/-- The written form of a string that may have no text; half of a pair stands for one without. -/
def quoteText : Option String → String
  | some text => quote text
  | none => "\"\\ud800\""

/-- A line break, and the blanks for a nesting depth. -/
def lineBreak (depth : Nat) : String :=
  "\n" ++ String.ofList (List.replicate (2 * depth) ' ')

mutual

/-- The written form of a value at a nesting depth. -/
def render (depth : Nat) : Json → String
  | .null => "null"
  | .bool true => "true"
  | .bool false => "false"
  | .number literal => literal
  | .string text => quoteText text
  | .array [] => "[]"
  | .array (element :: elements) =>
    "[" ++ lineBreak (depth + 1) ++ render (depth + 1) element
      ++ renderElements (depth + 1) elements ++ lineBreak depth ++ "]"
  | .object [] => "\x7b\x7d"
  | .object ((name, value) :: members) =>
    "\x7b" ++ lineBreak (depth + 1) ++ quoteText name ++ ": " ++ render (depth + 1) value
      ++ renderMembers (depth + 1) members ++ lineBreak depth ++ "\x7d"

/-- The elements behind the first, each on a line of its own. -/
def renderElements (depth : Nat) : List Json → String
  | [] => ""
  | element :: elements =>
    "," ++ lineBreak depth ++ render depth element ++ renderElements depth elements

/-- The members behind the first, each on a line of its own. -/
def renderMembers (depth : Nat) : List (Option String × Json) → String
  | [] => ""
  | (name, value) :: members =>
    "," ++ lineBreak depth ++ quoteText name ++ ": " ++ render depth value
      ++ renderMembers depth members

end

/-- The text of a value: two blanks of indent for each level, no line break at the end. -/
def pretty (value : Json) : String :=
  value.render 0

/-! ## 5. Single values -/

/-- The number that decimal digits spell. -/
def digitsValue (digits : List Char) : Nat :=
  digits.foldl (fun n c => n * 10 + (c.toNat - '0'.toNat)) 0

/-- A number as a value. -/
def ofNat (n : Nat) : Json :=
  .number (toString n)

/-- The number that a value spells if it is written with digits alone. -/
def natural? : Json → Option Nat
  | .number literal =>
    let digits := literal.toList
    if digits.all Char.isDigit ∧ digits ≠ [] then some (digitsValue digits) else none
  | _ => none

/-- The text of a string. -/
def text? : Json → Option String
  | .string text => text
  | _ => none

end Json

end IndexedStore
