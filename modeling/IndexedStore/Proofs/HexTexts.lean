import IndexedStore.Proofs.Utf8
import IndexedStore.Hex
import Mathlib.Data.List.Basic
/-!
# Keys and their hexadecimal texts

A key is written as two lower case digits for each byte, and read from digits of either case. So the
texts of one key are the spellings of one text in both cases, and the text that is written is the one
in lower case.

* `Hex.IsDigit` says which bytes are digits, and `Hex.Spelled` which texts are read;
* `Hex.LowerDigits` says how a text is written;
* `Hex.digitValue_cases` tells the values of bytes, and `Hex.decodePairs_of_digits` and
  `Hex.decodePairs_of_stray` the two outcomes of reading;
* **`Hex.texts_exact`** is the result.
-/

namespace IndexedStore.Hex

/-! ## 1. Texts that are read -/

/-- Whether a byte spells a hexadecimal digit, in either case. -/
def IsDigit (byte : UInt8) : Prop :=
  ('0'.toUInt8 ≤ byte ∧ byte ≤ '9'.toUInt8) ∨ ('a'.toUInt8 ≤ byte ∧ byte ≤ 'f'.toUInt8)
    ∨ ('A'.toUInt8 ≤ byte ∧ byte ≤ 'F'.toUInt8)

instance (byte : UInt8) : Decidable (IsDigit byte) :=
  inferInstanceAs (Decidable (_ ∨ _))

/-- Whether a text spells a byte sequence: it has an even count of bytes, and all are digits. -/
structure Spelled (text : String) : Prop where
  even : (Utf8.encode text).length % 2 = 0
  each : ∀ byte ∈ Utf8.encode text, IsDigit byte

/-- Whether `byte` is the first byte of a text, from the left, that is no digit. -/
def Strays (text : String) (byte : UInt8) : Prop :=
  ∃ front rest, Utf8.encode text = front ++ byte :: rest ∧ (∀ other ∈ front, IsDigit other)
    ∧ ¬ IsDigit byte

/-- Whether a text consists of digits in lower case. -/
def LowerDigits (text : String) : Prop :=
  ∀ c ∈ text.toList, ('0' ≤ c ∧ c ≤ '9') ∨ ('a' ≤ c ∧ c ≤ 'f')

/-- The character with the number of a byte, in lower case. -/
def lowered (byte : UInt8) : Char :=
  (Char.ofNat byte.toNat).toLower

/-! ## 2. Single digits -/

/-- Each of the sixteen digits is one byte and a digit in lower case, and that byte has its value. -/
theorem digit_facts : ∀ n < 16,
    String.utf8EncodeChar (digit n) = [UInt8.ofNat (digit n).toNat]
      ∧ (('0' ≤ digit n ∧ digit n ≤ '9') ∨ ('a' ≤ digit n ∧ digit n ≤ 'f'))
      ∧ (digitValue (UInt8.ofNat (digit n).toNat)).toOption = some n := by
  decide

/-- In each of the three ranges a byte is, in lower case, the digit of its distance from the first. -/
theorem lowered_facts : ∀ n < 256,
    (0x30 ≤ n ∧ n ≤ 0x39 → lowered (UInt8.ofNat n) = digit (n - 0x30)) ∧
    (0x61 ≤ n ∧ n ≤ 0x66 → lowered (UInt8.ofNat n) = digit (n - 0x61 + 10)) ∧
    (0x41 ≤ n ∧ n ≤ 0x46 → lowered (UInt8.ofNat n) = digit (n - 0x41 + 10)) := by
  decide +kernel

theorem digitValue_digit {n : Nat} (small : n < 16) :
    digitValue (UInt8.ofNat (digit n).toNat) = .ok n := by
  have value := (digit_facts n small).2.2
  cases read : digitValue (UInt8.ofNat (digit n).toNat) with
  | error fault => rw [read] at value; exact nomatch value
  | ok m => rw [read] at value; exact congrArg Except.ok (Option.some.inj value)

/-- The value of a byte: a digit has the number whose digit it is in lower case, and nothing else has
    one. -/
theorem digitValue_cases (byte : UInt8) :
    (IsDigit byte ∧ ∃ n < 16, digitValue byte = .ok n ∧ lowered byte = digit n)
      ∨ (¬ IsDigit byte ∧ digitValue byte = .error (.badCharacter byte)) := by
  have facts := lowered_facts byte.toNat byte.toNat_lt
  rw [UInt8.ofNat_toNat] at facts
  obtain ⟨number, small, capital⟩ := facts
  unfold digitValue
  split
  · rename_i range
    have bounds : 0x30 ≤ byte.toNat ∧ byte.toNat ≤ 0x39 := range
    exact .inl ⟨.inl range, _, by omega, rfl, number bounds⟩
  · split
    · rename_i range
      have bounds : 0x61 ≤ byte.toNat ∧ byte.toNat ≤ 0x66 := range
      exact .inl ⟨.inr (.inl range), _, by omega, rfl, small bounds⟩
    · split
      · rename_i range
        have bounds : 0x41 ≤ byte.toNat ∧ byte.toNat ≤ 0x46 := range
        exact .inl ⟨.inr (.inr range), _, by omega, rfl, capital bounds⟩
      · rename_i noNumber noSmall noCapital
        refine .inr ⟨fun isDigit => ?_, rfl⟩
        obtain range | range | range := isDigit
        · exact noNumber range
        · exact noSmall range
        · exact noCapital range

/-! ## 3. Writing -/

/-- Every byte has two digits. -/
theorem digit_bounds (byte : UInt8) : byte.toNat / 16 < 16 ∧ byte.toNat % 16 < 16 := by
  have bound := byte.toNat_lt
  omega

theorem length_encode (key : Bytes) : (encode key).length = 2 * key.length := by
  unfold encode
  rw [String.length_ofList]
  induction key with
  | nil => rfl
  | cons byte key ih =>
    rw [List.flatMap_cons, List.length_append, ih, List.length_cons]
    simp only [digits, List.length_cons, List.length_nil]
    omega

theorem lowerDigits_encode (key : Bytes) : LowerDigits (encode key) := by
  intro c mem
  unfold encode at mem
  rw [String.toList_ofList] at mem
  obtain ⟨byte, -, mem⟩ := List.mem_flatMap.mp mem
  obtain ⟨high, low⟩ := digit_bounds byte
  simp only [digits, List.mem_cons, List.not_mem_nil, or_false] at mem
  obtain same | same := mem
  · rw [same]
    exact (digit_facts _ high).2.1
  · rw [same]
    exact (digit_facts _ low).2.1

/-- The bytes of a written text, two for each byte of the key. -/
theorem encode_encode_cons (byte : UInt8) (key : Bytes) : Utf8.encode (encode (byte :: key))
    = UInt8.ofNat (digit (byte.toNat / 16)).toNat :: UInt8.ofNat (digit (byte.toNat % 16)).toNat
      :: Utf8.encode (encode key) := by
  obtain ⟨high, low⟩ := digit_bounds byte
  unfold Utf8.encode encode
  rw [String.toList_ofList, String.toList_ofList, List.flatMap_cons]
  simp only [digits, List.cons_append, List.nil_append, List.flatMap_cons, (digit_facts _ high).1,
    (digit_facts _ low).1]

/-! ## 4. Reading -/

theorem decodePairs_cons (high low : UInt8) (rest : Bytes) : decodePairs (high :: low :: rest)
    = (do
        let h ← digitValue high
        let l ← digitValue low
        let bytes ← decodePairs rest
        return UInt8.ofNat (h * 16 + l) :: bytes) := by
  rw [decodePairs]

/-- **A key is read back from its text.** -/
theorem decode_encode (key : Bytes) : decode (encode key) = .ok key := by
  have pairs : (Utf8.encode (encode key)).length % 2 = 0
      ∧ decodePairs (Utf8.encode (encode key)) = .ok key := by
    induction key with
    | nil => exact ⟨rfl, rfl⟩
    | cons byte key ih =>
      obtain ⟨even, read⟩ := ih
      obtain ⟨high, low⟩ := digit_bounds byte
      have whole : byte.toNat / 16 * 16 + byte.toNat % 16 = byte.toNat := by omega
      rw [encode_encode_cons]
      refine ⟨by simp only [List.length_cons]; omega, ?_⟩
      rw [decodePairs_cons, digitValue_digit high, digitValue_digit low, read]
      show Except.ok (UInt8.ofNat _ :: key) = _
      rw [whole, UInt8.ofNat_toNat]
  unfold decode
  dsimp only
  rw [if_pos pairs.1, pairs.2]

/-- The first byte that is no digit. -/
def stray? (bytes : Bytes) : Option UInt8 :=
  bytes.find? fun byte => !decide (IsDigit byte)

theorem stray?_cons_of_digit {byte : UInt8} (isDigit : IsDigit byte) (rest : Bytes) :
    stray? (byte :: rest) = stray? rest :=
  List.find?_cons_of_neg (by simp [isDigit])

theorem stray?_cons_of_not {byte : UInt8} (noDigit : ¬ IsDigit byte) (rest : Bytes) :
    stray? (byte :: rest) = some byte :=
  List.find?_cons_of_pos (by simp [noDigit])

/-- The two digits of the byte that two digits make. -/
theorem digits_ofNat {h l : Nat} (high : h < 16) (low : l < 16) :
    digits (UInt8.ofNat (h * 16 + l)) = [digit h, digit l] := by
  have whole : (UInt8.ofNat (h * 16 + l)).toNat = h * 16 + l :=
    UInt8.toNat_ofNat_of_lt (by simp only [UInt8.size]; omega)
  have first : (h * 16 + l) / 16 = h := by omega
  have second : (h * 16 + l) % 16 = l := by omega
  unfold digits
  rw [whole, first, second]

/-- The two outcomes of reading pairs: all are digits, and what is read is written as these in lower
    case; or the first byte that is no digit is told. -/
theorem decodePairs_cases (bytes : Bytes) (even : bytes.length % 2 = 0) :
    (stray? bytes = none ∧ ∃ key, decodePairs bytes = .ok key
        ∧ key.flatMap digits = bytes.map lowered)
      ∨ ∃ byte, stray? bytes = some byte ∧ decodePairs bytes = .error (.badCharacter byte) := by
  induction bytes using decodePairs.induct with
  | case1 high low rest ih =>
    rw [decodePairs_cons]
    obtain ⟨isHigh, h, smallHigh, readHigh, spellsHigh⟩ | ⟨noHigh, readHigh⟩ := digitValue_cases high
    · obtain ⟨isLow, l, smallLow, readLow, spellsLow⟩ | ⟨noLow, readLow⟩ := digitValue_cases low
      · rw [stray?_cons_of_digit isHigh, stray?_cons_of_digit isLow, readHigh, readLow]
        obtain ⟨none, key, read, spells⟩ | ⟨byte, stray, read⟩ :=
          ih (by simp only [List.length_cons] at even; omega)
        · refine .inl ⟨none, UInt8.ofNat (h * 16 + l) :: key, by rw [read]; rfl, ?_⟩
          rw [List.flatMap_cons, digits_ofNat smallHigh smallLow, spells, List.map_cons,
            List.map_cons, spellsHigh, spellsLow]
          rfl
        · exact .inr ⟨byte, stray, by rw [read]; rfl⟩
      · rw [stray?_cons_of_digit isHigh, stray?_cons_of_not noLow, readHigh, readLow]
        exact .inr ⟨low, rfl, rfl⟩
    · rw [stray?_cons_of_not noHigh, readHigh]
      exact .inr ⟨high, rfl, rfl⟩
  | case2 bytes short =>
    cases bytes with
    | nil => exact .inl ⟨rfl, [], rfl, rfl⟩
    | cons high rest =>
      cases rest with
      | nil => simp at even
      | cons low rest => exact absurd rfl (short high low rest)

theorem stray?_eq_none_iff {bytes : Bytes} :
    stray? bytes = none ↔ ∀ byte ∈ bytes, IsDigit byte := by
  simp [stray?]

theorem strays_iff {text : String} {byte : UInt8} :
    Strays text byte ↔ stray? (Utf8.encode text) = some byte := by
  unfold stray? Strays
  rw [List.find?_eq_some_iff_append]
  constructor
  · intro ⟨front, rest, parts, digits, noDigit⟩
    exact ⟨by simp [noDigit], front, rest, parts, fun other mem => by simp [digits other mem]⟩
  · intro ⟨noDigit, front, rest, parts, digits⟩
    refine ⟨front, rest, parts, fun other mem => ?_, by simpa using noDigit⟩
    simpa using digits other mem

/-! ## 5. Texts in lower case -/

theorem encode_char_of_digit : ∀ n < 256, IsDigit (UInt8.ofNat n) →
    String.utf8EncodeChar (Char.ofNat n) = [UInt8.ofNat n] := by
  decide +kernel

/-- A text of digits has a character for each byte. -/
theorem eq_of_digits {text : String} (each : ∀ byte ∈ Utf8.encode text, IsDigit byte) :
    text = String.ofList ((Utf8.encode text).map fun byte => Char.ofNat byte.toNat) := by
  refine Utf8.encode_injective ?_
  generalize Utf8.encode text = bytes at each
  unfold Utf8.encode
  rw [String.toList_ofList]
  induction bytes with
  | nil => rfl
  | cons byte rest ih =>
    have one := encode_char_of_digit byte.toNat byte.toNat_lt
    rw [UInt8.ofNat_toNat] at one
    rw [List.map_cons, List.flatMap_cons, one (each byte List.mem_cons_self), List.singleton_append,
      ← ih fun other mem => each other (List.mem_cons_of_mem _ mem)]

theorem toLower_of_digits {text : String} (each : ∀ byte ∈ Utf8.encode text, IsDigit byte) :
    text.toLower = String.ofList ((Utf8.encode text).map lowered) := by
  have chars : text.toList = (Utf8.encode text).map fun byte => Char.ofNat byte.toNat := by
    rw [congrArg String.toList (eq_of_digits each), String.toList_ofList]
  unfold String.toLower
  rw [← String.ofList_toList (s := text.map Char.toLower), String.toList_map, chars, List.map_map]
  rfl

/-! ## 6. The result -/

/-- The three outcomes of reading a text. -/
theorem decode_cases (text : String) :
    ((Utf8.encode text).length % 2 = 1
        ∧ decode text = .error (.oddLength (Utf8.encode text).length))
      ∨ (Spelled text ∧ ∃ key, decode text = .ok key ∧ encode key = text.toLower)
      ∨ ((Utf8.encode text).length % 2 = 0
        ∧ ∃ byte, Strays text byte ∧ decode text = .error (.badCharacter byte)) := by
  unfold decode
  dsimp only
  by_cases even : (Utf8.encode text).length % 2 = 0
  · rw [if_pos even]
    obtain ⟨none, key, read, spells⟩ | ⟨byte, stray, read⟩ := decodePairs_cases _ even
    · have each := stray?_eq_none_iff.mp none
      refine .inr (.inl ⟨⟨even, each⟩, key, read, ?_⟩)
      rw [toLower_of_digits each, ← spells]
      rfl
    · exact .inr (.inr ⟨even, byte, strays_iff.mpr stray, read⟩)
  · rw [if_neg even]
    exact .inl ⟨by omega, rfl⟩

/-- A text with a byte that is no digit is not spelled. -/
theorem Strays.not_spelled {text : String} {byte : UInt8} (strays : Strays text byte) :
    ¬ Spelled text := by
  intro spelled
  obtain ⟨front, rest, parts, -, noDigit⟩ := strays
  exact noDigit (spelled.each byte (by simp [parts]))

theorem Strays.unique {text : String} {byte byte' : UInt8} (strays : Strays text byte)
    (strays' : Strays text byte') : byte = byte' :=
  Option.some.inj ((strays_iff.mp strays).symm.trans (strays_iff.mp strays'))

/-- A text is read exactly if it is spelled, as the key whose text it is in lower case. -/
theorem decode_eq_ok_iff {text : String} {key : Bytes} :
    decode text = .ok key ↔ Spelled text ∧ encode key = text.toLower := by
  obtain ⟨odd, read⟩ | ⟨spelled, found, read, written⟩ | ⟨_, byte, strays, read⟩ := decode_cases text
  · rw [read]
    exact ⟨fun same => (nomatch same), fun ⟨spelled, _⟩ => by have := spelled.even; omega⟩
  · rw [read]
    constructor
    · intro same
      obtain rfl := Except.ok.inj same
      exact ⟨spelled, written⟩
    · intro ⟨_, same⟩
      -- a key is read back from its text, so it is known by it
      have known : (Except.ok found : Except Fault Bytes) = .ok key := by
        rw [← decode_encode found, written, ← same, decode_encode]
      exact known
  · rw [read]
    exact ⟨fun same => (nomatch same), fun ⟨spelled, _⟩ => absurd spelled strays.not_spelled⟩

/-- A text is refused for an odd count of bytes, or else for its first byte that is no digit. -/
theorem decode_eq_error_iff {text : String} {fault : Fault} : decode text = .error fault ↔
    ((Utf8.encode text).length % 2 = 1 ∧ fault = .oddLength (Utf8.encode text).length)
      ∨ ((Utf8.encode text).length % 2 = 0
        ∧ ∃ byte, Strays text byte ∧ fault = .badCharacter byte) := by
  obtain ⟨odd, read⟩ | ⟨spelled, _, read, _⟩ | ⟨even, byte, strays, read⟩ := decode_cases text
  · rw [read]
    constructor
    · intro same
      exact .inl ⟨odd, (Except.error.inj same).symm⟩
    · intro why
      obtain ⟨_, rfl⟩ | ⟨even, _⟩ := why
      · rfl
      · omega
  · rw [read]
    refine ⟨fun same => (nomatch same), fun why => ?_⟩
    obtain ⟨odd, _⟩ | ⟨_, byte, strays, _⟩ := why
    · have := spelled.even
      omega
    · exact absurd spelled strays.not_spelled
  · rw [read]
    constructor
    · intro same
      exact .inr ⟨even, byte, strays, (Except.error.inj same).symm⟩
    · intro why
      obtain ⟨odd, _⟩ | ⟨_, byte', strays', rfl⟩ := why
      · omega
      · rw [strays.unique strays']

/-- The byte is shown as the character with its number. -/
theorem message_badCharacter (byte : UInt8) : (Fault.badCharacter byte).message
    = "invalid character '" ++ toString (Char.ofNat byte.toNat) ++ "'" := by
  -- an equation of the wording would have to look into the text
  delta Fault.message
  dsimp only
  simp only [toString]

/-- **Keys and their hexadecimal texts.** Every key is read back from its text, which has two digits
    in lower case for each byte. A text is read exactly if it has an even count of bytes, all of them
    digits of either case, and then it is, in lower case, the text of what is read; so two texts are
    read as one key exactly if they differ in case at most. And a text that is not read is refused
    for its odd count of bytes, or else for its first byte from the left that is no digit. -/
theorem texts_exact :
    (∀ key : Bytes, decode (encode key) = .ok key ∧ LowerDigits (encode key)
      ∧ (encode key).length = 2 * key.length) ∧
    (∀ text : String, (∃ key, decode text = .ok key) ↔ Spelled text) ∧
    (∀ (text : String) (key : Bytes),
      decode text = .ok key ↔ Spelled text ∧ encode key = text.toLower) ∧
    (∀ text text' : String, (∃ key, decode text = .ok key ∧ decode text' = .ok key) ↔
      Spelled text ∧ Spelled text' ∧ text.toLower = text'.toLower) ∧
    (∀ (text : String) (fault : Fault), decode text = .error fault ↔
      ((Utf8.encode text).length % 2 = 1 ∧ fault = .oddLength (Utf8.encode text).length
        ∧ fault.message = "odd length " ++ toString (Utf8.encode text).length)
      ∨ ((Utf8.encode text).length % 2 = 0 ∧ ∃ byte, Strays text byte ∧ fault = .badCharacter byte
        ∧ fault.message = "invalid character '" ++ toString (Char.ofNat byte.toNat) ++ "'")) := by
  have accepts : ∀ text : String, (∃ key, decode text = .ok key) ↔ Spelled text := by
    intro text
    constructor
    · intro ⟨key, read⟩
      exact (decode_eq_ok_iff.mp read).1
    · intro spelled
      obtain ⟨odd, _⟩ | ⟨_, key, read, _⟩ | ⟨_, byte, strays, _⟩ := decode_cases text
      · have := spelled.even
        omega
      · exact ⟨key, read⟩
      · exact absurd spelled strays.not_spelled
  refine ⟨fun key => ⟨decode_encode key, lowerDigits_encode key, length_encode key⟩, accepts,
    fun text key => decode_eq_ok_iff, fun text text' => ?_, fun text fault => ?_⟩
  · constructor
    · intro ⟨key, read, read'⟩
      obtain ⟨spelled, written⟩ := decode_eq_ok_iff.mp read
      obtain ⟨spelled', written'⟩ := decode_eq_ok_iff.mp read'
      exact ⟨spelled, spelled', written.symm.trans written'⟩
    · intro ⟨spelled, spelled', same⟩
      obtain ⟨key, read⟩ := (accepts text).mpr spelled
      have written := (decode_eq_ok_iff.mp read).2
      exact ⟨key, read, decode_eq_ok_iff.mpr ⟨spelled', written.trans same⟩⟩
  · rw [decode_eq_error_iff]
    constructor
    · intro why
      obtain ⟨odd, rfl⟩ | ⟨even, byte, strays, rfl⟩ := why
      · exact .inl ⟨odd, rfl, rfl⟩
      · exact .inr ⟨even, byte, strays, rfl, message_badCharacter byte⟩
    · intro why
      obtain ⟨odd, same, _⟩ | ⟨even, byte, strays, same, _⟩ := why
      · exact .inl ⟨odd, same⟩
      · exact .inr ⟨even, byte, strays, same⟩

end IndexedStore.Hex
