import IndexedStore.Json
import Mathlib.Data.List.Forall2
import Mathlib.Data.List.TakeDrop
import Mathlib.Data.List.TakeWhile
/-!
# The grammar of JSON

What a JSON text is, is said here by rules that build texts up from their parts, and the reader is
held against them: it reads a text as a value exactly if the rules let the text spell the value.

* `Json.Digits`, `Json.Whole`, `Json.Fraction`, `Json.Exponent` and `Json.Number` are the forms of a
  number;
* `Json.Piece.Written` are the forms of one piece of a string, `Json.Quoted` those of a string;
* `Json.Spells` are the forms of a value, and `Json.IsText` those of a document;
* **`Json.parse_eq_some_iff`** is the result. Its two halves are `Json.readers_complete` and
  `Json.readers_sound`, both by induction on the bound of the calls.
-/

namespace IndexedStore.Json

/-! ## 1. The rules -/

/-- Whether a text holds nothing but blanks. -/
def Blank (chars : List Char) : Prop :=
  ∀ c ∈ chars, isBlank c = true

/-- Whether a text is one digit or more. -/
def Digits (chars : List Char) : Prop :=
  chars ≠ [] ∧ ∀ c ∈ chars, c.isDigit = true

/-- The forms of an integer without its sign: zero, or digits of which the first is not zero. -/
inductive Whole : List Char → Prop
  | zero : Whole ['0']
  | digits {first : Char} {others : List Char} (noZero : first ≠ '0')
      (all : Digits (first :: others)) : Whole (first :: others)

/-- The forms of a fraction. -/
inductive Fraction : List Char → Prop
  | absent : Fraction []
  | point {digits : List Char} (all : Digits digits) : Fraction ('.' :: digits)

/-- The forms of an exponent. -/
inductive Exponent : List Char → Prop
  | absent : Exponent []
  | mark {e : Char} {sign digits : List Char} (mark : e = 'e' ∨ e = 'E')
      (signs : sign = [] ∨ sign = ['+'] ∨ sign = ['-']) (all : Digits digits) :
      Exponent (e :: sign ++ digits)

/-- The forms of a number. -/
inductive Number : List Char → Prop
  | mk {sign whole fraction exponent : List Char} (signs : sign = [] ∨ sign = ['-'])
      (wholes : Whole whole) (fractions : Fraction fraction) (exponents : Exponent exponent) :
      Number (sign ++ whole ++ fraction ++ exponent)

/-- The forms of one piece of a string. -/
inductive Piece.Written : Piece → List Char → Prop
  | plain {c : Char} (noControl : ¬ c.toNat < 0x20) (noQuote : c ≠ '"') (noBackslash : c ≠ '\\') :
      Written (.char c) [c]
  | letter {letter c : Char} (short : shortEscape? letter = some c) :
      Written (.char c) ['\\', letter]
  | number {a b c d : Char} {m n o p : Nat} (first : hexValue? a = some m)
      (second : hexValue? b = some n) (third : hexValue? c = some o)
      (fourth : hexValue? d = some p) :
      Written (.unit ((m * 16 + n) * 256 + o * 16 + p)) ['\\', 'u', a, b, c, d]

/-- The forms of a string; it has a text if its pieces spell one. -/
inductive Quoted : Option String → List Char → Prop
  | mk {pieces : List Piece} {forms : List (List Char)}
      (written : List.Forall₂ Piece.Written pieces forms) :
      Quoted ((joinPieces? pieces).map String.ofList) ('"' :: forms.flatten ++ ['"'])

/-- The forms of one or more things, with commas between them and blanks around each. -/
inductive Separated {α : Type} (form : α → List Char → Prop) : List α → List Char → Prop
  | last {a : α} {front chars back : List Char} (before : Blank front) (only : form a chars)
      (behind : Blank back) : Separated form [a] (front ++ chars ++ back)
  | more {a : α} {others : List α} {front chars back rest : List Char} (before : Blank front)
      (first : form a chars) (behind : Blank back) (next : Separated form others rest) :
      Separated form (a :: others) (front ++ chars ++ back ++ ',' :: rest)

/-- The forms of a member: its name, a colon, and its value, with blanks around the colon. -/
inductive Member (form : Json → List Char → Prop) : Option String × Json → List Char → Prop
  | mk {name : Option String} {value : Json} {quoted before behind chars : List Char}
      (named : Quoted name quoted) (gap : Blank before) (gap' : Blank behind)
      (holds : form value chars) :
      Member form (name, value) (quoted ++ before ++ ':' :: behind ++ chars)

/-- The forms of a value. -/
inductive Spells : Json → List Char → Prop
  | null : Spells .null ['n', 'u', 'l', 'l']
  | boolTrue : Spells (.bool true) ['t', 'r', 'u', 'e']
  | boolFalse : Spells (.bool false) ['f', 'a', 'l', 's', 'e']
  | number {literal : List Char} (form : Number literal) :
      Spells (.number (String.ofList literal)) literal
  | string {text : Option String} {chars : List Char} (form : Quoted text chars) :
      Spells (.string text) chars
  | emptyArray {inner : List Char} (blank : Blank inner) : Spells (.array []) ('[' :: inner ++ [']'])
  | array {elements : List Json} {inner : List Char} (form : Separated Spells elements inner) :
      Spells (.array elements) ('[' :: inner ++ [']'])
  | emptyObject {inner : List Char} (blank : Blank inner) :
      Spells (.object []) ('\x7b' :: inner ++ ['\x7d'])
  | object {members : List (Option String × Json)} {inner : List Char}
      (form : Separated (Member Spells) members inner) :
      Spells (.object members) ('\x7b' :: inner ++ ['\x7d'])

/-- Whether a text spells a value, with blanks around it and nothing else. -/
def IsText (value : Json) (text : String) : Prop :=
  ∃ front chars back, text.toList = front ++ chars ++ back ∧ Blank front ∧ Spells value chars
    ∧ Blank back

/-! ## 2. Blanks -/

theorem blank_nil : Blank [] :=
  List.forall_mem_nil _

theorem skipBlanks_append {front : List Char} (blank : Blank front) (rest : List Char) :
    skipBlanks (front ++ rest) = skipBlanks rest :=
  List.dropWhile_append_of_pos blank

theorem skipBlanks_of_not {c : Char} (solid : isBlank c = false) (rest : List Char) :
    skipBlanks (c :: rest) = c :: rest :=
  List.dropWhile_cons_of_neg (by rw [solid]; decide)

/-- What is skipped is blank. -/
theorem skipBlanks_split (chars : List Char) :
    ∃ front, Blank front ∧ chars = front ++ skipBlanks chars :=
  ⟨chars.takeWhile isBlank, fun _ member => List.mem_takeWhile_imp member,
    (List.takeWhile_append_dropWhile).symm⟩

/-! ## 3. Numbers are read -/

/-- Whether digits end before a text. -/
def NoDigit (chars : List Char) : Prop :=
  ∀ c ∈ chars.head?, c.isDigit = false

/-- Whether a number ends before a text: nothing in front of it goes on with its first character. -/
structure Ends (chars : List Char) : Prop where
  noDigit : NoDigit chars
  noPoint : ∀ c ∈ chars.head?, c ≠ '.'
  noMark : ∀ c ∈ chars.head?, ¬ (c = 'e' ∨ c = 'E')

theorem Digits.opens {digits : List Char} (all : Digits digits) :
    ∃ first others, digits = first :: others ∧ first.isDigit = true := by
  obtain ⟨first, others, rfl⟩ := List.exists_cons_of_ne_nil all.1
  exact ⟨first, others, rfl, all.2 first List.mem_cons_self⟩

theorem readDigits?_append {digits rest : List Char} (all : Digits digits) (stop : NoDigit rest) :
    readDigits? (digits ++ rest) = some (digits, rest) := by
  have noMore : rest.takeWhile Char.isDigit = [] ∧ rest.dropWhile Char.isDigit = rest := by
    cases rest with
    | nil => exact ⟨rfl, rfl⟩
    | cons c others =>
      have other : ¬ c.isDigit = true := by
        rw [stop c rfl]
        decide
      exact ⟨List.takeWhile_cons_of_neg other, List.dropWhile_cons_of_neg other⟩
  have read : (digits ++ rest).span Char.isDigit = (digits, rest) := by
    rw [List.span_eq_takeWhile_dropWhile, List.takeWhile_append_of_pos all.2,
      List.dropWhile_append_of_pos all.2, noMore.1, noMore.2, List.append_nil]
  unfold readDigits?
  rw [read]
  split
  · rename_i empty
    exact absurd (congrArg Prod.fst empty) all.1
  · rfl

theorem readInteger?_append {whole rest : List Char} (form : Whole whole) (stop : NoDigit rest) :
    readInteger? (whole ++ rest) = some (whole, rest) := by
  cases form with
  | zero =>
    cases rest with
    | nil => rfl
    | cons c others =>
      rw [List.singleton_append, readInteger?.eq_2, stop c rfl]
      rfl
  | digits noZero all =>
    rw [List.cons_append, readInteger?.eq_3 _ fun _ same => absurd (List.cons.inj same).1 noZero]
    exact readDigits?_append all stop

theorem readFraction?_append {fraction rest : List Char} (form : Fraction fraction)
    (stop : NoDigit rest) (noPoint : ∀ c ∈ rest.head?, c ≠ '.') :
    readFraction? (fraction ++ rest) = some (fraction, rest) := by
  cases form with
  | absent =>
    refine readFraction?.eq_2 rest fun others same => ?_
    exact noPoint '.' (by rw [same]; rfl) rfl
  | point all =>
    rw [List.cons_append, readFraction?.eq_1, readDigits?_append all stop]
    rfl

theorem readExponent?_append {exponent rest : List Char} (form : Exponent exponent)
    (stop : NoDigit rest) (noMark : ∀ c ∈ rest.head?, ¬ (c = 'e' ∨ c = 'E')) :
    readExponent? (exponent ++ rest) = some (exponent, rest) := by
  cases form with
  | absent =>
    cases rest with
    | nil => rfl
    | cons c others =>
      unfold readExponent?
      exact if_neg (noMark c rfl)
  | @mark e sign digits mark signs all =>
    have read := readDigits?_append all stop
    rcases signs with rfl | rfl | rfl
    · have unsigned : ∀ c tail, digits ++ rest = c :: tail → c.isDigit = true := by
        intro c tail same
        obtain ⟨first, others, rfl, digit⟩ := all.opens
        rw [← (List.cons.inj same).1]
        exact digit
      show readExponent? (e :: (digits ++ rest)) = _
      rw [readExponent?.eq_3 _ _ (fun _ same => absurd (unsigned '+' _ same) (by decide))
        fun _ same => absurd (unsigned '-' _ same) (by decide), if_pos mark, read]
      rfl
    · show readExponent? (e :: '+' :: (digits ++ rest)) = _
      rw [readExponent?.eq_1, if_pos mark, read]
      rfl
    · show readExponent? (e :: '-' :: (digits ++ rest)) = _
      rw [readExponent?.eq_2, if_pos mark, read]
      rfl

theorem Exponent.ends {exponent rest : List Char} (form : Exponent exponent) (stop : Ends rest) :
    NoDigit (exponent ++ rest) ∧ ∀ c ∈ (exponent ++ rest).head?, c ≠ '.' := by
  cases form with
  | absent => exact ⟨stop.noDigit, stop.noPoint⟩
  | mark mark _ _ =>
    refine ⟨fun c same => ?_, fun c same => ?_⟩
    · cases same
      rcases mark with rfl | rfl <;> decide
    · cases same
      rcases mark with rfl | rfl <;> decide

theorem Fraction.ends {fraction rest : List Char} (form : Fraction fraction)
    (stop : NoDigit rest) : NoDigit (fraction ++ rest) := by
  cases form with
  | absent => exact stop
  | point _ =>
    intro c same
    cases same
    decide

/-- An integer opens with a digit. -/
theorem Whole.opens {whole : List Char} (form : Whole whole) :
    ∃ first others, whole = first :: others ∧ first.isDigit = true := by
  cases form with
  | zero => exact ⟨_, _, rfl, rfl⟩
  | digits _ all => exact all.opens

/-- **A number is read whole** in front of a text that does not go on with it. -/
theorem readNumber?_append {literal rest : List Char} (form : Number literal) (stop : Ends rest) :
    readNumber? (literal ++ rest) = some (literal, rest) := by
  cases form with
  | @mk sign whole fraction exponent signs wholes fractions exponents =>
    obtain ⟨noDigit, noPoint⟩ := exponents.ends stop
    have third := readExponent?_append exponents stop.noDigit stop.noMark
    have second := readFraction?_append fractions noDigit noPoint
    have first := readInteger?_append wholes (fractions.ends noDigit)
    rcases signs with rfl | rfl
    · obtain ⟨digit, others, opens, isDigit⟩ := wholes.opens
      have unsigned : ∀ rest', whole ++ (fraction ++ (exponent ++ rest)) ≠ '-' :: rest' := by
        intro rest' same
        rw [opens] at same
        rw [(List.cons.inj same).1] at isDigit
        exact absurd isDigit (by decide)
      rw [List.nil_append, List.append_assoc, List.append_assoc, readNumber?.eq_2 _ unsigned, first]
      simp only [Option.bind_eq_bind, Option.bind_some, second, third]
      rfl
    · show readNumber? ('-' :: (whole ++ fraction ++ exponent ++ rest)) = _
      rw [List.append_assoc, List.append_assoc, readNumber?.eq_1, first]
      simp only [Option.bind_eq_bind, Option.bind_some, second, third]
      rfl

/-! ## 4. Strings are read -/

/-- The form of one piece is read as the piece, whatever follows. -/
theorem Piece.Written.read {piece : Piece} {form : List Char} (written : piece.Written form)
    (rest : List Char) : readPieces? (form ++ rest)
      = (readPieces? rest).map fun read => (piece :: read.1, read.2) := by
  cases written with
  | plain noControl noQuote noBackslash =>
    rw [List.singleton_append, readPieces?.eq_4 _ _ noQuote
        (fun _ _ _ _ _ backslash => absurd backslash noBackslash)
        (fun _ _ backslash => absurd backslash noBackslash),
      if_neg fun h => h.elim noControl noBackslash]
    cases readPieces? rest <;> rfl
  | @letter letter c short =>
    have noUnit : letter ≠ 'u' := by
      intro unit
      rw [unit] at short
      cases short
    show readPieces? ('\\' :: letter :: rest) = _
    rw [readPieces?.eq_3 _ _ fun _ _ _ _ _ unit => absurd unit noUnit, short]
    cases readPieces? rest <;> rfl
  | @number a b c d m n o p first second third fourth =>
    show readPieces? ('\\' :: 'u' :: a :: b :: c :: d :: rest) = _
    rw [readPieces?.eq_2, first, second, third, fourth]
    cases readPieces? rest <;> rfl

theorem readPieces?_flatten {pieces : List Piece} {forms : List (List Char)}
    (written : List.Forall₂ Piece.Written pieces forms) (rest : List Char) :
    readPieces? (forms.flatten ++ '"' :: rest) = some (pieces, rest) := by
  induction written with
  | nil => exact readPieces?.eq_1 rest
  | cons first _ ih =>
    rw [List.flatten_cons, List.append_assoc, first.read, ih]
    rfl

/-- **A string is read behind its opening quote**, whatever follows its closing one. -/
theorem Quoted.read {text : Option String} {chars : List Char} (form : Quoted text chars)
    (rest : List Char) : ∃ inner, chars = '"' :: inner
      ∧ readString? (inner ++ rest) = some (text, rest) := by
  cases form with
  | @mk pieces forms written =>
    refine ⟨forms.flatten ++ ['"'], rfl, ?_⟩
    unfold readString?
    rw [List.append_assoc, List.singleton_append, readPieces?_flatten written]
    rfl

/-! ## 5. Values are read -/

theorem solid_of_isDigit {c : Char} (digit : c.isDigit = true) : isBlank c = false ∧ c ≠ ']' := by
  refine ⟨Bool.eq_false_iff.mpr fun blank => ?_, fun same => ?_⟩
  · simp only [isBlank, Bool.or_eq_true, decide_eq_true_eq] at blank
    rcases blank with ((rfl | rfl) | rfl) | rfl <;> exact absurd digit (by decide)
  · rw [same] at digit
    exact absurd digit (by decide)

/-- A number opens with a digit or a minus. -/
theorem Number.opens {literal : List Char} (form : Number literal) :
    ∃ first others, literal = first :: others ∧ (first = '-' ∨ first.isDigit = true) := by
  cases form with
  | mk signs wholes _ _ =>
    rcases signs with rfl | rfl
    · obtain ⟨digit, others, rfl, isDigit⟩ := wholes.opens
      exact ⟨_, _, rfl, .inr isDigit⟩
    · exact ⟨_, _, rfl, .inl rfl⟩

/-- A value opens with no blank, and with nothing that closes an array. -/
theorem Spells.opens {value : Json} {chars : List Char} (form : Spells value chars) :
    ∃ first others, chars = first :: others ∧ isBlank first = false ∧ first ≠ ']' := by
  cases form with
  | null => exact ⟨_, _, rfl, by decide, by decide⟩
  | boolTrue => exact ⟨_, _, rfl, by decide, by decide⟩
  | boolFalse => exact ⟨_, _, rfl, by decide, by decide⟩
  | number form =>
    obtain ⟨first, others, rfl, minus | digit⟩ := form.opens
    · exact ⟨_, _, rfl, by rw [minus]; decide, by rw [minus]; decide⟩
    · exact ⟨_, _, rfl, solid_of_isDigit digit⟩
  | string form =>
    cases form with
    | mk _ => exact ⟨_, _, rfl, by decide, by decide⟩
  | emptyArray _ => exact ⟨_, _, rfl, by decide, by decide⟩
  | array _ => exact ⟨_, _, rfl, by decide, by decide⟩
  | emptyObject _ => exact ⟨_, _, rfl, by decide, by decide⟩
  | object _ => exact ⟨_, _, rfl, by decide, by decide⟩

/-- A member opens with a quote. -/
theorem Member.opens {member : Option String × Json} {chars : List Char}
    (form : Member Spells member chars) :
    ∃ first others, chars = first :: others ∧ isBlank first = false ∧ first ≠ '\x7d' := by
  cases form with
  | mk named _ _ _ =>
    cases named with
    | mk _ => exact ⟨_, _, rfl, by decide, by decide⟩

/-- What stands behind an opening bracket does not close it at once. -/
theorem Separated.opens {α : Type} {form : α → List Char → Prop} {close : Char}
    (opens : ∀ a chars, form a chars →
      ∃ first others, chars = first :: others ∧ isBlank first = false ∧ first ≠ close)
    {list : List α} {inner : List Char} (separated : Separated form list inner)
    (rest : List Char) :
    ∃ first others, skipBlanks (inner ++ rest) = first :: others ∧ first ≠ close := by
  have behind : ∀ {a front chars} (tail : List Char), Blank front → form a chars →
      ∃ first others, skipBlanks (front ++ (chars ++ tail)) = first :: others ∧ first ≠ close := by
    intro a front chars tail blank form
    obtain ⟨first, others, rfl, solid, noClose⟩ := opens a chars form
    refine ⟨first, others ++ tail, ?_, noClose⟩
    rw [skipBlanks_append blank]
    exact skipBlanks_of_not solid _
  cases separated with
  | last before only _ =>
    rw [List.append_assoc, List.append_assoc]
    exact behind _ before only
  | more before first _ _ =>
    rw [List.append_assoc, List.append_assoc, List.append_assoc]
    exact behind _ before first

theorem ends_nil : Ends [] where
  noDigit _ inside := by cases inside
  noPoint _ inside := by cases inside
  noMark _ inside := by cases inside

theorem Ends.of_head {c : Char} (noDigit : c.isDigit = false) (noPoint : c ≠ '.')
    (noMark : ¬ (c = 'e' ∨ c = 'E')) (rest : List Char) : Ends (c :: rest) where
  noDigit _ inside := by
    cases inside
    exact noDigit
  noPoint _ inside := by
    cases inside
    exact noPoint
  noMark _ inside := by
    cases inside
    exact noMark

/-- A number ends before blanks if it ends before what is behind them. -/
theorem Ends.behind_blank {back rest : List Char} (blank : Blank back) (stop : Ends rest) :
    Ends (back ++ rest) := by
  cases back with
  | nil => exact stop
  | cons c others =>
    have one : isBlank c = true := blank c List.mem_cons_self
    simp only [isBlank, Bool.or_eq_true, decide_eq_true_eq] at one
    rcases one with ((rfl | rfl) | rfl) | rfl <;>
      exact .of_head (by decide) (by decide) (by decide) _

/-- A number ends before the characters that end an element or a member. -/
theorem ends_of_closer {c : Char} (closer : c = ',' ∨ c = ']' ∨ c = '\x7d') (rest : List Char) :
    Ends (c :: rest) := by
  rcases closer with rfl | rfl | rfl <;> exact .of_head (by decide) (by decide) (by decide) _

theorem readValue?_skip {front : List Char} (blank : Blank front) (fuel : Nat)
    (rest : List Char) : readValue? fuel (front ++ rest) = readValue? fuel rest := by
  cases fuel with
  | zero => rw [readValue?.eq_1, readValue?.eq_1]
  | succ fuel => rw [readValue?.eq_2, readValue?.eq_2, skipBlanks_append blank]

theorem readValue?_skipBlanks (fuel : Nat) (chars : List Char) :
    readValue? fuel (skipBlanks chars) = readValue? fuel chars := by
  obtain ⟨front, blank, same⟩ := skipBlanks_split chars
  conv_rhs => rw [same]
  exact (readValue?_skip blank fuel _).symm

theorem readElements?_skipBlanks (fuel : Nat) (chars : List Char) :
    readElements? fuel (skipBlanks chars) = readElements? fuel chars := by
  cases fuel with
  | zero => rw [readElements?.eq_1, readElements?.eq_1]
  | succ fuel => rw [readElements?.eq_2, readElements?.eq_2, readValue?_skipBlanks]

theorem readMembers?_skipBlanks (fuel : Nat) (chars : List Char) :
    readMembers? fuel (skipBlanks chars) = readMembers? fuel chars := by
  obtain ⟨front, blank, same⟩ := skipBlanks_split chars
  cases fuel with
  | zero => rw [readMembers?.eq_1, readMembers?.eq_1]
  | succ fuel =>
    conv_rhs => rw [same]
    rw [readMembers?.eq_2, readMembers?.eq_2, skipBlanks_append blank]

/-- Whether calls bounded by `fuel` read every value of at most half as many characters. -/
def ReadsValues (fuel : Nat) : Prop :=
  ∀ value chars rest, Spells value chars → Ends rest → 2 * chars.length ≤ fuel →
    readValue? fuel (chars ++ rest) = some (value, rest)

/-- The same for the elements of an array, up to its bracket. -/
def ReadsElements (fuel : Nat) : Prop :=
  ∀ elements inner rest, Separated Spells elements inner → 2 * inner.length + 1 ≤ fuel →
    readElements? fuel (inner ++ ']' :: rest) = some (elements, rest)

/-- The same for the members of an object, up to its brace. -/
def ReadsMembers (fuel : Nat) : Prop :=
  ∀ members inner rest, Separated (Member Spells) members inner → 2 * inner.length + 1 ≤ fuel →
    readMembers? fuel (inner ++ '\x7d' :: rest) = some (members, rest)

theorem readValue?_number {literal rest : List Char} (form : Number literal) (stop : Ends rest)
    (fuel : Nat) :
    readValue? (fuel + 1) (literal ++ rest) = some (.number (String.ofList literal), rest) := by
  have read := readNumber?_append form stop
  obtain ⟨first, others, rfl, opens⟩ := form.opens
  have solid : isBlank first = false := by
    rcases opens with rfl | digit
    · decide
    · exact (solid_of_isDigit digit).1
  have noLetter : ∀ c tail, c.isDigit = false → c ≠ '-' → first :: others ++ rest ≠ c :: tail := by
    intro c tail noDigit noMinus same
    rw [(List.cons.inj same).1] at opens
    rcases opens with minus | digit
    · exact noMinus minus
    · rw [noDigit] at digit
      exact absurd digit (by decide)
  rw [readValue?.eq_2, List.cons_append, skipBlanks_of_not solid]
  -- a digit or a minus opens nothing but a number, which is the last case
  split
  case h_7 =>
    rw [← List.cons_append, read]
    rfl
  all_goals
    rename_i same
    exact absurd same (noLetter _ _ (by decide) (by decide))

theorem readValue?_array {chars others : List Char} {first : Char}
    (opens : skipBlanks chars = first :: others) (noClose : first ≠ ']') (fuel : Nat) :
    readValue? (fuel + 1) ('[' :: chars)
      = (readElements? fuel chars).map fun read => (.array read.1, read.2) := by
  rw [← readElements?_skipBlanks, readValue?.eq_2, skipBlanks_of_not (by decide)]
  simp only
  split
  · rename_i same
    rw [opens] at same
    exact absurd (List.cons.inj same).1 noClose
  · rfl

theorem readValue?_object {chars others : List Char} {first : Char}
    (opens : skipBlanks chars = first :: others) (noClose : first ≠ '\x7d') (fuel : Nat) :
    readValue? (fuel + 1) ('\x7b' :: chars)
      = (readMembers? fuel chars).map fun read => (.object read.1, read.2) := by
  rw [← readMembers?_skipBlanks, readValue?.eq_2, skipBlanks_of_not (by decide)]
  simp only
  split
  · rename_i same
    rw [opens] at same
    exact absurd (List.cons.inj same).1 noClose
  · rfl

theorem readsValues_succ {fuel : Nat} (elements : ReadsElements fuel)
    (members : ReadsMembers fuel) : ReadsValues (fuel + 1) := by
  intro value chars rest form stop enough
  cases form with
  | null => exact readValue?.eq_2 _ _
  | boolTrue => exact readValue?.eq_2 _ _
  | boolFalse => exact readValue?.eq_2 _ _
  | number form => exact readValue?_number form stop fuel
  | string form =>
    obtain ⟨inner, rfl, read⟩ := form.read rest
    rw [List.cons_append, readValue?.eq_2]
    show (readString? (inner ++ rest)).map _ = _
    rw [read]
    rfl
  | @emptyArray inner blank =>
    rw [List.cons_append, List.cons_append, List.append_assoc, readValue?.eq_2,
      skipBlanks_of_not (by decide)]
    simp only [skipBlanks_append blank]
    rfl
  | @array list inner form =>
    obtain ⟨first, others, opens, noClose⟩ := form.opens (fun _ _ => Spells.opens) (']' :: rest)
    have read := elements list inner rest form (by
      rw [List.length_append, List.length_cons, List.length_singleton] at enough
      omega)
    rw [List.cons_append, List.cons_append, List.append_assoc, List.singleton_append,
      readValue?_array opens noClose, read]
    rfl
  | @emptyObject inner blank =>
    rw [List.cons_append, List.cons_append, List.append_assoc, readValue?.eq_2,
      skipBlanks_of_not (by decide)]
    simp only [skipBlanks_append blank]
    rfl
  | @object list inner form =>
    obtain ⟨first, others, opens, noClose⟩ := form.opens (fun _ _ => Member.opens) ('\x7d' :: rest)
    have read := members list inner rest form (by
      rw [List.length_append, List.length_cons, List.length_singleton] at enough
      omega)
    rw [List.cons_append, List.cons_append, List.append_assoc, List.singleton_append,
      readValue?_object opens noClose, read]
    rfl

/-- After an element comes a bracket, or a comma and the other elements. -/
theorem readElements?_first {fuel : Nat} (values : ReadsValues fuel) {value : Json}
    {front chars rest tail : List Char} (before : Blank front) (form : Spells value chars)
    (stop : Ends rest) (enough : 2 * chars.length ≤ fuel) :
    (skipBlanks rest = ']' :: tail →
      readElements? (fuel + 1) (front ++ (chars ++ rest)) = some ([value], tail)) ∧
    (skipBlanks rest = ',' :: tail → readElements? (fuel + 1) (front ++ (chars ++ rest))
      = (readElements? fuel tail).map fun read => (value :: read.1, read.2)) := by
  rw [readElements?.eq_2, readValue?_skip before, values value chars rest form stop enough]
  simp only [Option.bind_eq_bind, Option.bind_some]
  refine ⟨fun closed => ?_, fun comma => ?_⟩
  · rw [closed]
    rfl
  · simp only [comma]
    cases readElements? fuel tail <;> rfl

/-- After a member comes a brace, or a comma and the other members. -/
theorem readMembers?_first {fuel : Nat} (values : ReadsValues fuel)
    {member : Option String × Json} {front chars rest tail : List Char} (before : Blank front)
    (form : Member Spells member chars) (stop : Ends rest) (enough : 2 * chars.length ≤ fuel) :
    (skipBlanks rest = '\x7d' :: tail →
      readMembers? (fuel + 1) (front ++ (chars ++ rest)) = some ([member], tail)) ∧
    (skipBlanks rest = ',' :: tail → readMembers? (fuel + 1) (front ++ (chars ++ rest))
      = (readMembers? fuel tail).map fun read => (member :: read.1, read.2)) := by
  cases form with
  | @mk name value quoted gap gap' valueChars named blank blank' holds =>
    have readValue := values value valueChars rest holds stop (by
      simp only [List.length_append, List.length_cons] at enough
      omega)
    obtain ⟨inner, rfl, readName⟩ := named.read (gap ++ ':' :: (gap' ++ (valueChars ++ rest)))
    rw [readMembers?.eq_2, skipBlanks_append before]
    simp only [List.append_assoc, List.cons_append, readName, Option.bind_eq_bind,
      Option.bind_some, skipBlanks_of_not (show isBlank '"' = false by decide),
      skipBlanks_append blank, skipBlanks_of_not (show isBlank ':' = false by decide),
      readValue?_skip blank', readValue]
    refine ⟨fun closed => ?_, fun comma => ?_⟩
    · rw [closed]
      rfl
    · simp only [comma]
      cases readMembers? fuel tail <;> rfl

theorem readsElements_succ {fuel : Nat} (values : ReadsValues fuel)
    (elements : ReadsElements fuel) : ReadsElements (fuel + 1) := by
  intro list inner rest form enough
  cases form with
  | @last value front chars back before only behind =>
    have stop : Ends (back ++ ']' :: rest) :=
      .behind_blank behind (ends_of_closer (.inr (.inl rfl)) rest)
    have closed : skipBlanks (back ++ ']' :: rest) = ']' :: rest := skipBlanks_append behind _
    simp only [List.length_append] at enough
    rw [List.append_assoc, List.append_assoc]
    exact (readElements?_first values before only stop (by omega)).1 closed
  | @more value others front chars back tail before first behind next =>
    have stop : Ends (back ++ ',' :: (tail ++ ']' :: rest)) :=
      .behind_blank behind (ends_of_closer (.inl rfl) _)
    have comma : skipBlanks (back ++ ',' :: (tail ++ ']' :: rest)) = ',' :: (tail ++ ']' :: rest) :=
      skipBlanks_append behind _
    simp only [List.length_append, List.length_cons] at enough
    have reads := elements others tail rest next (by omega)
    rw [List.append_assoc, List.append_assoc, List.append_assoc, List.cons_append,
      (readElements?_first values before first stop (by omega)).2 comma, reads]
    rfl

theorem readsMembers_succ {fuel : Nat} (values : ReadsValues fuel)
    (members : ReadsMembers fuel) : ReadsMembers (fuel + 1) := by
  intro list inner rest form enough
  cases form with
  | @last member front chars back before only behind =>
    have stop : Ends (back ++ '\x7d' :: rest) :=
      .behind_blank behind (ends_of_closer (.inr (.inr rfl)) rest)
    have closed : skipBlanks (back ++ '\x7d' :: rest) = '\x7d' :: rest :=
      skipBlanks_append behind _
    simp only [List.length_append] at enough
    rw [List.append_assoc, List.append_assoc]
    exact (readMembers?_first values before only stop (by omega)).1 closed
  | @more member others front chars back tail before first behind next =>
    have stop : Ends (back ++ ',' :: (tail ++ '\x7d' :: rest)) :=
      .behind_blank behind (ends_of_closer (.inl rfl) _)
    have comma : skipBlanks (back ++ ',' :: (tail ++ '\x7d' :: rest))
        = ',' :: (tail ++ '\x7d' :: rest) := skipBlanks_append behind _
    simp only [List.length_append, List.length_cons] at enough
    have reads := members others tail rest next (by omega)
    rw [List.append_assoc, List.append_assoc, List.append_assoc, List.cons_append,
      (readMembers?_first values before first stop (by omega)).2 comma, reads]
    rfl

/-- **The readers read every form**, if their calls may be as deep as the form is long. -/
theorem readers_complete (fuel : Nat) :
    ReadsValues fuel ∧ ReadsElements fuel ∧ ReadsMembers fuel := by
  induction fuel with
  | zero =>
    refine ⟨fun value chars rest form _ enough => ?_, fun _ _ _ _ enough => ?_,
      fun _ _ _ _ enough => ?_⟩
    · obtain ⟨first, others, rfl, -⟩ := form.opens
      rw [List.length_cons] at enough
      omega
    · omega
    · omega
  | succ fuel ih =>
    obtain ⟨values, elements, members⟩ := ih
    exact ⟨readsValues_succ elements members, readsElements_succ values elements,
      readsMembers_succ values members⟩

/-- A text is read as the value that it spells. -/
theorem IsText.parse {value : Json} {text : String} (spells : IsText value text) :
    Json.parse text = some value := by
  obtain ⟨front, chars, back, same, before, form, behind⟩ := spells
  have nothing : Ends (back ++ []) := .behind_blank behind ends_nil
  have blank : skipBlanks (back ++ []) = [] := skipBlanks_append behind []
  have enough : 2 * chars.length ≤ 2 * text.toList.length + 2 := by
    rw [same, List.length_append, List.length_append]
    omega
  unfold Json.parse
  dsimp only
  generalize 2 * text.toList.length + 2 = fuel at enough
  have read := (readers_complete fuel).1 value chars (back ++ []) form nothing enough
  rw [same, List.append_assoc, readValue?_skip before]
  rw [List.append_nil] at read blank
  rw [read]
  dsimp only
  rw [blank]
  rfl

/-! ## 6. What is read has its form -/

theorem readDigits?_sound {chars digits rest : List Char}
    (read : readDigits? chars = some (digits, rest)) : Digits digits ∧ chars = digits ++ rest := by
  unfold readDigits? at read
  rw [List.span_eq_takeWhile_dropWhile] at read
  split at read
  · cases read
  · rename_i nonempty
    cases read
    refine ⟨⟨fun empty => nonempty _ (Prod.ext empty rfl), ?_⟩,
      List.takeWhile_append_dropWhile.symm⟩
    exact fun _ member => List.mem_takeWhile_imp member

theorem readInteger?_sound {chars whole rest : List Char}
    (read : readInteger? chars = some (whole, rest)) : Whole whole ∧ chars = whole ++ rest := by
  unfold readInteger? at read
  split at read
  · split at read
    · cases read
      exact ⟨.zero, rfl⟩
    · split at read
      · cases read
      · cases read
        exact ⟨.zero, rfl⟩
  · rename_i noZero
    obtain ⟨all, rfl⟩ := readDigits?_sound read
    cases whole with
    | nil => exact absurd rfl all.1
    | cons first others =>
      refine ⟨.digits (fun zero => noZero (others ++ rest) ?_) all, rfl⟩
      rw [zero]
      rfl

theorem readFraction?_sound {chars fraction rest : List Char}
    (read : readFraction? chars = some (fraction, rest)) :
    Fraction fraction ∧ chars = fraction ++ rest := by
  unfold readFraction? at read
  split at read
  · rename_i tail
    obtain ⟨⟨digits, others⟩, reads, same⟩ := Option.map_eq_some_iff.mp read
    cases same
    obtain ⟨all, rfl⟩ := readDigits?_sound reads
    exact ⟨.point all, rfl⟩
  · cases read
    exact ⟨.absent, rfl⟩

theorem readExponent?_sound {chars exponent rest : List Char}
    (read : readExponent? chars = some (exponent, rest)) :
    Exponent exponent ∧ chars = exponent ++ rest := by
  unfold readExponent? at read
  split at read
  · rename_i e tail
    split at read
    · rename_i mark
      have signed : ∃ sign tail', (sign = [] ∨ sign = ['+'] ∨ sign = ['-']) ∧ tail = sign ++ tail'
          ∧ ((readDigits? tail').map fun read => (e :: sign ++ read.1, read.2))
            = some (exponent, rest) := by
        split at read
        rename_i split
        split at split
        · cases split
          exact ⟨_, _, .inr (.inl rfl), rfl, read⟩
        · cases split
          exact ⟨_, _, .inr (.inr rfl), rfl, read⟩
        · cases split
          exact ⟨_, _, .inl rfl, rfl, read⟩
      obtain ⟨sign, tail', signs, rfl, behind⟩ := signed
      obtain ⟨⟨digits, others⟩, reads, same⟩ := Option.map_eq_some_iff.mp behind
      cases same
      obtain ⟨all, rfl⟩ := readDigits?_sound reads
      refine ⟨.mark mark signs all, ?_⟩
      simp only [List.cons_append, List.append_assoc]
    · cases read
      exact ⟨.absent, rfl⟩
  · cases read
    exact ⟨.absent, rfl⟩

theorem readNumber?_sound {chars literal rest : List Char}
    (read : readNumber? chars = some (literal, rest)) :
    Number literal ∧ chars = literal ++ rest := by
  have signed : ∃ sign tail, (sign = [] ∨ sign = ['-']) ∧ chars = sign ++ tail ∧ (do
      let whole ← readInteger? tail
      let fraction ← readFraction? whole.2
      let exponent ← readExponent? fraction.2
      return (sign ++ whole.1 ++ fraction.1 ++ exponent.1, exponent.2)) = some (literal, rest) := by
    unfold readNumber? at read
    split at read
    rename_i split
    split at split
    · cases split
      exact ⟨_, _, .inr rfl, rfl, read⟩
    · cases split
      exact ⟨_, _, .inl rfl, rfl, read⟩
  obtain ⟨sign, tail, signs, rfl, parts⟩ := signed
  obtain ⟨⟨whole, tail⟩, readWhole, behind⟩ := Option.bind_eq_some_iff.mp parts
  obtain ⟨⟨fraction, tail⟩, readFraction, behind'⟩ := Option.bind_eq_some_iff.mp behind
  obtain ⟨⟨exponent, tail⟩, readExponent, same⟩ := Option.bind_eq_some_iff.mp behind'
  obtain ⟨wholes, rfl⟩ := readInteger?_sound readWhole
  obtain ⟨fractions, rfl⟩ := readFraction?_sound readFraction
  obtain ⟨exponents, rfl⟩ := readExponent?_sound readExponent
  cases same
  refine ⟨.mk signs wholes fractions exponents, ?_⟩
  simp only [List.append_assoc]

theorem readPieces?_sound {chars rest : List Char} {pieces : List Piece}
    (read : readPieces? chars = some (pieces, rest)) :
    ∃ forms, List.Forall₂ Piece.Written pieces forms ∧ chars = forms.flatten ++ '"' :: rest := by
  induction chars using readPieces?.induct generalizing pieces with
  | case1 tail =>
    rw [readPieces?.eq_1] at read
    cases read
    exact ⟨[], .nil, rfl⟩
  | case2 a b c d tail ih =>
    rw [readPieces?.eq_2] at read
    obtain ⟨m, first, read⟩ := Option.bind_eq_some_iff.mp read
    obtain ⟨n, second, read⟩ := Option.bind_eq_some_iff.mp read
    obtain ⟨o, third, read⟩ := Option.bind_eq_some_iff.mp read
    obtain ⟨p, fourth, read⟩ := Option.bind_eq_some_iff.mp read
    obtain ⟨⟨others, tail'⟩, reads, same⟩ := Option.bind_eq_some_iff.mp read
    cases same
    obtain ⟨forms, written, rfl⟩ := ih reads
    exact ⟨_ :: forms, .cons (.number first second third fourth) written, rfl⟩
  | case3 letter tail noUnit ih =>
    rw [readPieces?.eq_3 _ _ noUnit] at read
    obtain ⟨c, short, read⟩ := Option.bind_eq_some_iff.mp read
    obtain ⟨⟨others, tail'⟩, reads, same⟩ := Option.bind_eq_some_iff.mp read
    cases same
    obtain ⟨forms, written, rfl⟩ := ih reads
    exact ⟨_ :: forms, .cons (.letter short) written, rfl⟩
  | case4 c tail noQuote noUnit noLetter refused =>
    rw [readPieces?.eq_4 _ _ noQuote noUnit noLetter, if_pos refused] at read
    cases read
  | case5 c tail noQuote noUnit noLetter plain ih =>
    rw [readPieces?.eq_4 _ _ noQuote noUnit noLetter, if_neg plain] at read
    obtain ⟨⟨others, tail'⟩, reads, same⟩ := Option.bind_eq_some_iff.mp read
    cases same
    obtain ⟨forms, written, rfl⟩ := ih reads
    refine ⟨_ :: forms, .cons (.plain ?_ noQuote ?_) written, rfl⟩
    · exact fun control => plain (.inl control)
    · exact fun backslash => plain (.inr backslash)
  | case6 =>
    rw [readPieces?.eq_5] at read
    cases read

theorem readString?_sound {chars rest : List Char} {text : Option String}
    (read : readString? chars = some (text, rest)) :
    ∃ quoted, Quoted text quoted ∧ '"' :: chars = quoted ++ rest := by
  unfold readString? at read
  obtain ⟨⟨pieces, tail⟩, reads, same⟩ := Option.bind_eq_some_iff.mp read
  cases same
  obtain ⟨forms, written, rfl⟩ := readPieces?_sound reads
  refine ⟨_, .mk written, ?_⟩
  rw [List.cons_append, List.cons_append, List.append_assoc]
  rfl

/-- Whether calls bounded by `fuel` read values only where they stand, behind blanks. -/
def ValuesSound (fuel : Nat) : Prop :=
  ∀ value chars rest, readValue? fuel chars = some (value, rest) →
    ∃ front taken, Blank front ∧ Spells value taken ∧ chars = front ++ (taken ++ rest)

/-- The same for the elements of an array, up to its bracket. -/
def ElementsSound (fuel : Nat) : Prop :=
  ∀ elements chars rest, readElements? fuel chars = some (elements, rest) →
    ∃ inner, Separated Spells elements inner ∧ chars = inner ++ ']' :: rest

/-- The same for the members of an object, up to its brace. -/
def MembersSound (fuel : Nat) : Prop :=
  ∀ members chars rest, readMembers? fuel chars = some (members, rest) →
    ∃ inner, Separated (Member Spells) members inner ∧ chars = inner ++ '\x7d' :: rest

theorem valuesSound_succ {fuel : Nat} (elements : ElementsSound fuel)
    (members : MembersSound fuel) : ValuesSound (fuel + 1) := by
  intro value chars rest read
  obtain ⟨front, blank, behindBlanks⟩ := skipBlanks_split chars
  -- the blanks in front are the same in each case
  suffices taken : ∃ taken, Spells value taken ∧ skipBlanks chars = taken ++ rest by
    obtain ⟨taken, form, same⟩ := taken
    exact ⟨front, taken, blank, form, by rw [← same]; exact behindBlanks⟩
  rw [readValue?.eq_2] at read
  split at read
  · rename_i same
    cases read
    exact ⟨_, .null, same⟩
  · rename_i same
    cases read
    exact ⟨_, .boolTrue, same⟩
  · rename_i same
    cases read
    exact ⟨_, .boolFalse, same⟩
  · rename_i same
    obtain ⟨⟨text, tail⟩, reads, pair⟩ := Option.map_eq_some_iff.mp read
    cases pair
    obtain ⟨quoted, form, taken⟩ := readString?_sound reads
    exact ⟨quoted, .string form, same.trans taken⟩
  · rename_i tail same
    obtain ⟨gap, gapBlank, behindGap⟩ := skipBlanks_split tail
    split at read
    · rename_i closed
      cases read
      refine ⟨_, .emptyArray gapBlank, ?_⟩
      rw [same, behindGap, closed, List.append_assoc]
      rfl
    · obtain ⟨⟨list, tail'⟩, reads, pair⟩ := Option.map_eq_some_iff.mp read
      cases pair
      rw [readElements?_skipBlanks] at reads
      obtain ⟨inner, form, rfl⟩ := elements _ _ _ reads
      refine ⟨_, .array form, ?_⟩
      rw [same, List.append_assoc]
      rfl
  · rename_i tail same
    obtain ⟨gap, gapBlank, behindGap⟩ := skipBlanks_split tail
    split at read
    · rename_i closed
      cases read
      refine ⟨_, .emptyObject gapBlank, ?_⟩
      rw [same, behindGap, closed, List.append_assoc]
      rfl
    · obtain ⟨⟨list, tail'⟩, reads, pair⟩ := Option.map_eq_some_iff.mp read
      cases pair
      rw [readMembers?_skipBlanks] at reads
      obtain ⟨inner, form, rfl⟩ := members _ _ _ reads
      refine ⟨_, .object form, ?_⟩
      rw [same, List.append_assoc]
      rfl
  · obtain ⟨⟨literal, tail⟩, reads, pair⟩ := Option.map_eq_some_iff.mp read
    cases pair
    obtain ⟨form, taken⟩ := readNumber?_sound reads
    exact ⟨literal, .number form, taken⟩

theorem elementsSound_succ {fuel : Nat} (values : ValuesSound fuel)
    (elements : ElementsSound fuel) : ElementsSound (fuel + 1) := by
  intro list chars rest read
  rw [readElements?.eq_2] at read
  obtain ⟨⟨value, tail⟩, readFirst, behind⟩ := Option.bind_eq_some_iff.mp read
  obtain ⟨front, taken, blank, form, rfl⟩ := values _ _ _ readFirst
  obtain ⟨back, backBlank, behindBack⟩ := skipBlanks_split tail
  dsimp only at behind
  split at behind
  · rename_i closed
    cases behind
    refine ⟨_, .last blank form backBlank, ?_⟩
    rw [behindBack, closed]
    simp only [List.append_assoc]
  · rename_i tail' comma
    obtain ⟨⟨others, tail''⟩, reads, pair⟩ := Option.bind_eq_some_iff.mp behind
    cases pair
    obtain ⟨inner, next, rfl⟩ := elements _ _ _ reads
    refine ⟨_, .more blank form backBlank next, ?_⟩
    rw [behindBack, comma]
    simp only [List.append_assoc, List.cons_append]
  · cases behind

theorem membersSound_succ {fuel : Nat} (values : ValuesSound fuel)
    (members : MembersSound fuel) : MembersSound (fuel + 1) := by
  intro list chars rest read
  obtain ⟨front, blank, behindFront⟩ := skipBlanks_split chars
  rw [readMembers?.eq_2] at read
  split at read
  · rename_i inner quote
    obtain ⟨⟨name, tail⟩, readName, behind⟩ := Option.bind_eq_some_iff.mp read
    obtain ⟨quoted, named, taken⟩ := readString?_sound readName
    obtain ⟨gap, gapBlank, behindGap⟩ := skipBlanks_split tail
    dsimp only at behind
    split at behind
    · rename_i tail' colon
      obtain ⟨⟨value, tail''⟩, readFirst, behind'⟩ := Option.bind_eq_some_iff.mp behind
      obtain ⟨gap', valueChars, gapBlank', form, rfl⟩ := values _ _ _ readFirst
      obtain ⟨back, backBlank, behindBack⟩ := skipBlanks_split tail''
      have member : Member Spells (name, value) _ := .mk named gapBlank gapBlank' form
      dsimp only at behind'
      split at behind'
      · rename_i closed
        cases behind'
        refine ⟨_, .last blank member backBlank, ?_⟩
        rw [behindFront, quote, taken, behindGap, colon, behindBack, closed]
        simp only [List.append_assoc, List.cons_append]
      · rename_i tail₃ comma
        obtain ⟨⟨others, tail₄⟩, reads, pair⟩ := Option.bind_eq_some_iff.mp behind'
        cases pair
        obtain ⟨inner, next, rfl⟩ := members _ _ _ reads
        refine ⟨_, .more blank member backBlank next, ?_⟩
        rw [behindFront, quote, taken, behindGap, colon, behindBack, comma]
        simp only [List.append_assoc, List.cons_append]
      · cases behind'
    · cases behind
  · cases read

/-- **The readers read nothing but forms.** -/
theorem readers_sound (fuel : Nat) : ValuesSound fuel ∧ ElementsSound fuel ∧ MembersSound fuel := by
  induction fuel with
  | zero =>
    refine ⟨fun _ _ _ read => ?_, fun _ _ _ read => ?_, fun _ _ _ read => ?_⟩
    · rw [readValue?.eq_1] at read
      cases read
    · rw [readElements?.eq_1] at read
      cases read
    · rw [readMembers?.eq_1] at read
      cases read
  | succ fuel ih =>
    obtain ⟨values, elements, members⟩ := ih
    exact ⟨valuesSound_succ elements members, elementsSound_succ values elements,
      membersSound_succ values members⟩

/-- **A text is read as a value exactly if it spells the value.** -/
theorem parse_eq_some_iff {text : String} {value : Json} :
    parse text = some value ↔ IsText value text := by
  refine ⟨fun read => ?_, IsText.parse⟩
  unfold parse at read
  dsimp only at read
  split at read
  · rename_i value' rest reads
    split at read
    · rename_i nothing
      cases read
      obtain ⟨front, taken, blank, form, same⟩ := (readers_sound _).1 _ _ _ reads
      obtain ⟨back, backBlank, behindBack⟩ := skipBlanks_split rest
      rw [List.isEmpty_iff.mp nothing, List.append_nil] at behindBack
      refine ⟨front, taken, rest, ?_, blank, form, ?_⟩
      · rw [same, List.append_assoc]
      · rw [behindBack]
        exact backBlank
    · cases read
  · cases read

end IndexedStore.Json
