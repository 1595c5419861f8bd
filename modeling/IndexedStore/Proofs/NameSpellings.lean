import IndexedStore.Name.Quoted
import IndexedStore.Proofs.JsonTexts
import IndexedStore.Proofs.KeyOrder
import IndexedStore.Proofs.NameTexts
import IndexedStore.Proofs.Payload.Codecs
/-!
# Words, texts and keys of names

A name is a word, and it has a text and an encoded key. Words compare as numbers, texts and keys byte
by byte, and all three compare alike. Each is a way to write DIGITS, the first ones first; where texts
leave out the dots at their end, the missing digits are zeros, and no digit is below zero.

* `Name.Spelled` says which texts are names, `Name.withoutDots` takes the dots off the end of one;
* `Name.digitOrder` compares digits: words compare so (`Name.compare_pack`), and so do texts without
  dots at their end (`Name.order_codes`);
* `Name.parse_eq_ok` and `Name.spelled_iff` tell what is packed, and `Name.text_ofDigits` what is
  spelled again;
* **`Name.spellings_exact`** is the result.
-/

namespace IndexedStore.Name

/-! ## 1. Texts that are names -/

/-- Whether a byte spells a dot, a digit from `1` to `5`, or a letter up to `last`. -/
def Allowed (last : Char) (byte : UInt8) : Prop :=
  byte = '.'.toUInt8 ∨ ('1'.toUInt8 ≤ byte ∧ byte ≤ '5'.toUInt8)
    ∨ ('a'.toUInt8 ≤ byte ∧ byte ≤ last.toUInt8)

instance (last : Char) (byte : UInt8) : Decidable (Allowed last byte) :=
  inferInstanceAs (Decidable (_ ∨ _))

/-- Whether a text is a name: at most thirteen bytes, all of them of the alphabet, and the thirteenth
    of its first half. -/
structure Spelled (text : String) : Prop where
  short : (Utf8.encode text).length ≤ 13
  each : ∀ byte ∈ Utf8.encode text, Allowed 'z' byte
  thirteenth : ∀ byte, (Utf8.encode text)[12]? = some byte → Allowed 'j' byte

/-- A text without the dots at its end. -/
def withoutDots (text : String) : String :=
  String.ofList (text.toList.reverse.dropWhile (· = '.')).reverse

/-! ## 2. Comparing digits -/

/-- The comparison of the first digits of two numbers: the first place where they differ decides. -/
def digitOrder (a b : Nat → Nat) : (count : Nat) → Ordering
  | 0 => .eq
  | count + 1 => (digitOrder a b count).then (compare (a count) (b count))

section Digits

variable {a b : Nat → Nat} {count : Nat}

theorem digitOrder_eq_eq_iff : digitOrder a b count = .eq ↔ ∀ i < count, a i = b i := by
  induction count with
  | zero => exact ⟨fun _ _ none => absurd none (Nat.not_lt_zero _), fun _ => rfl⟩
  | succ count ih =>
    rw [digitOrder, Ordering.then_eq_eq, ih, Nat.compare_eq_eq]
    constructor
    · rintro ⟨before, last⟩ i less
      rcases Nat.lt_succ_iff_lt_or_eq.mp less with earlier | rfl
      · exact before i earlier
      · exact last
    · exact fun all => ⟨fun i less => all i (Nat.lt_succ_of_lt less), all count (Nat.lt_succ_self _)⟩

/-- The first digit decides, and if it does not, the others do. -/
theorem digitOrder_succ (a b : Nat → Nat) (count : Nat) :
    digitOrder a b (count + 1)
      = (compare (a 0) (b 0)).then (digitOrder (fun i => a (i + 1)) (fun i => b (i + 1)) count) := by
  induction count with
  | zero =>
    show Ordering.eq.then (compare (a 0) (b 0)) = (compare (a 0) (b 0)).then .eq
    rw [Ordering.eq_then, Ordering.then_eq]
  | succ count ih =>
    rw [digitOrder, ih, Ordering.then_assoc]
    rfl

theorem digitOrder_swap (a b : Nat → Nat) (count : Nat) :
    (digitOrder a b count).swap = digitOrder b a count := by
  induction count with
  | zero => rfl
  | succ count ih => rw [digitOrder, Ordering.swap_then, ih, Nat.compare_swap, digitOrder]

/-- Zeros are below digits that are not all zeros. -/
theorem digitOrder_zeros {i : Nat} (less : i < count) (digit : b i ≠ 0) :
    digitOrder (fun _ => 0) b count = .lt := by
  induction count generalizing b i with
  | zero => exact absurd less (Nat.not_lt_zero i)
  | succ count ih =>
    rw [digitOrder_succ]
    by_cases zero : b 0 = 0
    · cases i with
      | zero => exact absurd zero digit
      | succ i =>
        rw [zero, ih (b := fun i => b (i + 1)) (Nat.lt_of_succ_lt_succ less) digit]
        rfl
    · rw [Nat.compare_eq_lt.mpr (Nat.pos_of_ne_zero zero)]
      rfl

end Digits

/-! ### Words -/

/-- What the digits of a word spell: twelve to the base 32, and one to the base 16. -/
structure Digits (symbols : List Nat) : Prop where
  count : symbols.length ≤ 13
  each : ∀ symbol ∈ symbols, symbol < 32
  last : symbols.getD 12 0 ≤ 15

/-- The word of the first digits. -/
def front (symbols : List Nat) (count : Nat) : Nat :=
  (List.range count).foldl (fun word i => word * 32 + symbols.getD i 0) 0

theorem front_succ (symbols : List Nat) (count : Nat) :
    front symbols (count + 1) = front symbols count * 32 + symbols.getD count 0 := by
  unfold front
  rw [List.range_succ, List.foldl_append]
  rfl

namespace Digits

variable {symbols symbols' : List Nat}

theorem getD_lt (digits : Digits symbols) (i : Nat) : symbols.getD i 0 < 32 := by
  rw [List.getD_eq_getElem?_getD]
  cases found : symbols[i]? with
  | none => exact Nat.zero_lt_succ _
  | some symbol => exact digits.each symbol (List.mem_of_getElem? found)

theorem front_lt (digits : Digits symbols) (count : Nat) : front symbols count < 32 ^ count := by
  induction count with
  | zero => exact Nat.one_pos
  | succ count ih =>
    have digit := digits.getD_lt count
    rw [front_succ, Nat.pow_succ]
    omega

/-- Digits fit a word. -/
theorem pack_lt (digits : Digits symbols) : pack symbols < UInt64.size := by
  have high := digits.front_lt 12
  have low := digits.last
  show front symbols 12 * 16 + symbols.getD 12 0 < 2 ^ 64
  omega

theorem compare_front (digits : Digits symbols) (digits' : Digits symbols') (count : Nat) :
    compare (front symbols count) (front symbols' count)
      = digitOrder (symbols.getD · 0) (symbols'.getD · 0) count := by
  induction count with
  | zero => rfl
  | succ count ih =>
    have digit := digits.getD_lt count
    have digit' := digits'.getD_lt count
    have quotient : ∀ {high low : Nat}, low < 32 → (high * 32 + low) / 32 = high := by omega
    have rest : ∀ {high low : Nat}, low < 32 → (high * 32 + low) % 32 = low := by omega
    rw [digitOrder, ← ih, front_succ, front_succ, compare_div_mod _ _ (show 0 < 32 by decide),
      quotient digit, quotient digit', rest digit, rest digit']

/-- **Words compare as their digits.** -/
theorem compare_pack (digits : Digits symbols) (digits' : Digits symbols') :
    compare (pack symbols) (pack symbols')
      = digitOrder (symbols.getD · 0) (symbols'.getD · 0) 13 := by
  have last := digits.last
  have last' := digits'.last
  have quotient : ∀ {high low : Nat}, low ≤ 15 → (high * 16 + low) / 16 = high := by omega
  have rest : ∀ {high low : Nat}, low ≤ 15 → (high * 16 + low) % 16 = low := by omega
  show compare (front symbols 12 * 16 + symbols.getD 12 0)
    (front symbols' 12 * 16 + symbols'.getD 12 0) = _
  rw [digitOrder, ← compare_front digits digits', compare_div_mod _ _ (show 0 < 16 by decide),
    quotient last, quotient last', rest last, rest last']

end Digits

/-- The digits of a word. -/
theorem digits_symbols (name : Name) : Digits name.symbols where
  count := Nat.le_of_eq name.length_symbols
  each _ := lt_of_mem_symbols
  last := by
    rw [getD_symbols_last]
    omega

/-! ### Texts -/

/-- The byte that spells a digit. -/
def code (symbol : Nat) : UInt8 :=
  UInt8.ofNat (character symbol).toNat

/-- The characters are in the order of their numbers. -/
theorem compare_code : ∀ symbol < 32, ∀ symbol' < 32,
    compare (code symbol).toNat (code symbol').toNat = compare symbol symbol' := by
  decide +kernel

/-- Digits without zeros at their end. -/
def Trimmed (symbols : List Nat) : Prop :=
  symbols.getLast? ≠ some 0

theorem trimmed_stripped (symbols : List Nat) : Trimmed (stripped symbols) := by
  unfold Trimmed stripped
  rw [List.getLast?_reverse]
  intro zero
  have head := List.head?_dropWhile_not (· = 0) symbols.reverse
  rw [zero] at head
  exact absurd head (by decide)

theorem Trimmed.tail {symbol : Nat} {symbols : List Nat} (trimmed : Trimmed (symbol :: symbols)) :
    Trimmed symbols := by
  cases symbols with
  | nil => exact nofun
  | cons next rest => exact trimmed

/-- Trimmed digits are not all zeros, if there are any. -/
theorem Trimmed.exists_digit {symbol : Nat} {symbols : List Nat}
    (trimmed : Trimmed (symbol :: symbols)) :
    ∃ i < (symbol :: symbols).length, (symbol :: symbols).getD i 0 ≠ 0 := by
  refine ⟨symbols.length, Nat.lt_succ_self _, fun zero => trimmed ?_⟩
  rw [List.getLast?_eq_getElem?, ← zero]
  simp

/-- **Texts without dots at their end compare as digits.** -/
theorem order_codes {symbols symbols' : List Nat} {count : Nat}
    (each : ∀ symbol ∈ symbols, symbol < 32) (each' : ∀ symbol ∈ symbols', symbol < 32)
    (trimmed : Trimmed symbols) (trimmed' : Trimmed symbols')
    (short : symbols.length ≤ count) (short' : symbols'.length ≤ count) :
    Bytes.order (symbols.map code) (symbols'.map code)
      = digitOrder (symbols.getD · 0) (symbols'.getD · 0) count := by
  induction symbols generalizing symbols' count with
  | nil =>
    cases symbols' with
    | nil => exact (digitOrder_eq_eq_iff.mpr fun _ _ => rfl).symm
    | cons symbol' rest' =>
      obtain ⟨i, less, digit⟩ := trimmed'.exists_digit
      rw [List.map_nil, List.map_cons, Bytes.order_eq_lt_iff.mpr (List.nil_lt_cons ..)]
      exact (digitOrder_zeros (Nat.lt_of_lt_of_le less short') digit).symm
  | cons symbol rest ih =>
    cases symbols' with
    | nil =>
      obtain ⟨i, less, digit⟩ := trimmed.exists_digit
      rw [List.map_nil, List.map_cons, Bytes.order_eq_gt_iff.mpr (List.nil_lt_cons ..),
        ← digitOrder_swap]
      exact congrArg Ordering.swap (digitOrder_zeros (Nat.lt_of_lt_of_le less short) digit).symm
    | cons symbol' rest' =>
      obtain ⟨below, rfl⟩ : ∃ below, count = below + 1 := ⟨count - 1, by
        rw [List.length_cons] at short
        omega⟩
      rw [List.map_cons, List.map_cons, Bytes.order_cons_cons, digitOrder_succ,
        compare_code symbol (each _ List.mem_cons_self) symbol' (each' _ List.mem_cons_self),
        ih (fun other mem => each other (List.mem_cons_of_mem _ mem))
          (fun other mem => each' other (List.mem_cons_of_mem _ mem)) trimmed.tail trimmed'.tail
          (Nat.le_of_succ_le_succ short) (Nat.le_of_succ_le_succ short')]
      rfl

/-! ## 3. What is packed, and spelled again -/

/-- The text of some digits. -/
def spell (symbols : List Nat) : String :=
  String.ofList (symbols.map character)

theorem code_eq : ∀ symbol < 32, String.utf8EncodeChar (character symbol) = [code symbol] :=
  fun symbol digit => (symbol?_character symbol digit).1

theorem encode_spell {symbols : List Nat} (each : ∀ symbol ∈ symbols, symbol < 32) :
    Utf8.encode (spell symbols) = symbols.map code := by
  unfold Utf8.encode spell
  rw [String.toList_ofList]
  induction symbols with
  | nil => rfl
  | cons symbol rest ih =>
    rw [List.map_cons, List.flatMap_cons, code_eq symbol (each _ List.mem_cons_self),
      ih fun other mem => each other (List.mem_cons_of_mem _ mem)]
    rfl

/-- Each byte of the alphabet spells a digit, and those of its first half the digits up to 15. -/
theorem symbol?_byte : ∀ n < 256, ∀ symbol ∈ symbol? (UInt8.ofNat n),
    symbol < 32 ∧ code symbol = UInt8.ofNat n ∧ Allowed 'z' (UInt8.ofNat n)
      ∧ (symbol ≤ 15 ↔ Allowed 'j' (UInt8.ofNat n)) := by
  decide +kernel

theorem isSome_symbol?_byte :
    ∀ n < 256, Allowed 'z' (UInt8.ofNat n) → (symbol? (UInt8.ofNat n)).isSome := by
  decide +kernel

theorem of_symbol? {byte : UInt8} {symbol : Nat} (known : symbol? byte = some symbol) :
    symbol < 32 ∧ code symbol = byte ∧ Allowed 'z' byte ∧ (symbol ≤ 15 ↔ Allowed 'j' byte) := by
  have all := symbol?_byte byte.toNat byte.toNat_lt symbol
  rw [UInt8.ofNat_toNat] at all
  exact all known

theorem symbol?_code {symbol : Nat} (digit : symbol < 32) : symbol? (code symbol) = some symbol :=
  (symbol?_character symbol digit).2.1

theorem allowed_code {symbol : Nat} (digit : symbol < 32) :
    Allowed 'z' (code symbol) ∧ (symbol ≤ 15 ↔ Allowed 'j' (code symbol)) :=
  (of_symbol? (symbol?_code digit)).2.2

theorem exists_code {byte : UInt8} (allowed : Allowed 'z' byte) :
    ∃ symbol < 32, byte = code symbol := by
  have some := isSome_symbol?_byte byte.toNat byte.toNat_lt
  rw [UInt8.ofNat_toNat] at some
  obtain ⟨symbol, known⟩ := Option.isSome_iff_exists.mp (some allowed)
  exact ⟨symbol, (of_symbol? known).1, (of_symbol? known).2.1.symm⟩

/-- Bytes of the alphabet spell digits. -/
theorem exists_codes {bytes : Bytes} (each : ∀ byte ∈ bytes, Allowed 'z' byte) :
    ∃ symbols : List Nat, (∀ symbol ∈ symbols, symbol < 32) ∧ bytes = symbols.map code := by
  induction bytes with
  | nil => exact ⟨[], nofun, rfl⟩
  | cons byte rest ih =>
    obtain ⟨symbol, digit, rfl⟩ := exists_code (each byte List.mem_cons_self)
    obtain ⟨symbols, digits, rfl⟩ := ih fun other mem => each other (List.mem_cons_of_mem _ mem)
    exact ⟨symbol :: symbols, List.forall_mem_cons.mpr ⟨digit, digits⟩, rfl⟩

/-- **The texts that are names are those of digits.** -/
theorem spelled_iff {text : String} :
    Spelled text ↔ ∃ symbols, Digits symbols ∧ text = spell symbols := by
  constructor
  · intro spelled
    obtain ⟨symbols, each, codes⟩ := exists_codes spelled.each
    have same : text = spell symbols := Utf8.encode_injective (codes.trans (encode_spell each).symm)
    refine ⟨symbols, ⟨?_, each, ?_⟩, same⟩
    · have short := spelled.short
      rwa [codes, List.length_map] at short
    · cases thirteenth : symbols[12]? with
      | none =>
        rw [List.getD_eq_getElem?_getD, thirteenth]
        exact Nat.zero_le _
      | some symbol =>
        have byte : (Utf8.encode text)[12]? = some (code symbol) := by
          rw [codes, List.getElem?_map, thirteenth]
          rfl
        rw [List.getD_eq_getElem?_getD, thirteenth]
        exact (allowed_code (each symbol (List.mem_of_getElem? thirteenth))).2.mpr
          (spelled.thirteenth _ byte)
  · rintro ⟨symbols, digits, rfl⟩
    have codes := encode_spell digits.each
    refine ⟨?_, fun byte mem => ?_, fun byte found => ?_⟩
    · rw [codes, List.length_map]
      exact digits.count
    · rw [codes] at mem
      obtain ⟨symbol, listed, rfl⟩ := List.mem_map.mp mem
      exact (allowed_code (digits.each symbol listed)).1
    · rw [codes, List.getElem?_map] at found
      obtain ⟨symbol, thirteenth, rfl⟩ := Option.map_eq_some_iff.mp found
      have last := digits.last
      rw [List.getD_eq_getElem?_getD, thirteenth] at last
      exact (allowed_code (digits.each symbol (List.mem_of_getElem? thirteenth))).2.mp last

/-- The digits that are read off bytes are those that the bytes spell. -/
theorem readSymbols_eq_ok {text : String} {bytes : Bytes} {symbols : List Nat} :
    readSymbols text bytes = .ok symbols
      ↔ (∀ symbol ∈ symbols, symbol < 32) ∧ bytes = symbols.map code := by
  induction bytes generalizing symbols with
  | nil =>
    constructor
    · intro read
      cases read
      exact ⟨nofun, rfl⟩
    · rintro ⟨-, none⟩
      rw [List.map_eq_nil_iff.mp none.symm]
      rfl
  | cons byte rest ih =>
    constructor
    · intro read
      rw [readSymbols] at read
      cases known : symbol? byte with
      | none =>
        rw [known] at read
        cases read
      | some symbol =>
        rw [known] at read
        dsimp only at read
        cases others : readSymbols text rest with
        | error fault =>
          rw [others] at read
          cases read
        | ok symbols =>
          rw [others] at read
          cases read
          obtain ⟨each, rfl⟩ := ih.mp others
          obtain ⟨digit, same, -⟩ := of_symbol? known
          exact ⟨List.forall_mem_cons.mpr ⟨digit, each⟩, by rw [List.map_cons, same]⟩
    · rintro ⟨each, codes⟩
      cases symbols with
      | nil => cases codes
      | cons symbol symbols =>
        obtain ⟨rfl, others⟩ := List.cons.inj codes
        obtain ⟨digit, digits⟩ := List.forall_mem_cons.mp each
        rw [readSymbols, symbol?_code digit, ih.mpr ⟨digits, others⟩]
        rfl

/-- The name that digits pack to. -/
def ofDigits (symbols : List Nat) : Name :=
  ⟨UInt64.ofNat (pack symbols)⟩

/-- **What is packed**: the texts of digits, to the word of the digits. -/
theorem parse_eq_ok {text : String} {name : Name} :
    parse text = .ok name
      ↔ ∃ symbols, Digits symbols ∧ text = spell symbols ∧ name = ofDigits symbols := by
  constructor
  · intro parsed
    unfold parse at parsed
    dsimp only at parsed
    split at parsed
    · cases parsed
    rename_i short
    cases read : readSymbols text (Utf8.encode text) with
    | error fault =>
      rw [read] at parsed
      cases parsed
    | ok symbols =>
      rw [read] at parsed
      change (if symbols.getD 12 0 > 15 then _ else _) = _ at parsed
      split at parsed
      · cases parsed
      rename_i last
      obtain ⟨each, codes⟩ := readSymbols_eq_ok.mp read
      cases parsed
      rw [codes, List.length_map] at short
      exact ⟨symbols, ⟨Nat.not_lt.mp short, each, Nat.not_lt.mp last⟩,
        Utf8.encode_injective (codes.trans (encode_spell each).symm), rfl⟩
  · rintro ⟨symbols, digits, rfl, rfl⟩
    have codes := encode_spell digits.each
    have read : readSymbols (spell symbols) (Utf8.encode (spell symbols)) = .ok symbols :=
      readSymbols_eq_ok.mpr ⟨digits.each, codes⟩
    have short : ¬ (Utf8.encode (spell symbols)).length > maxLength := by
      rw [codes, List.length_map]
      exact Nat.not_lt.mpr digits.count
    unfold parse
    rw [if_neg short, read]
    show (if symbols.getD 12 0 > 15 then _ else _) = _
    rw [if_neg (Nat.not_lt.mpr digits.last)]
    rfl

/-! ### The text of a word -/

theorem length_le_of_digits {symbols : List Nat} (digits : Digits symbols) :
    (stripped symbols).length ≤ 13 :=
  Nat.le_trans (length_stripped_le symbols) digits.count

/-- The texts of digits, without dots at their end, compare as the words of the digits. -/
theorem order_stripped {symbols symbols' : List Nat} (digits : Digits symbols)
    (digits' : Digits symbols') :
    Bytes.order (Utf8.encode (spell (stripped symbols))) (Utf8.encode (spell (stripped symbols')))
      = compare (pack symbols) (pack symbols') := by
  have each : ∀ symbol ∈ stripped symbols, symbol < 32 := fun symbol mem =>
    digits.each symbol (stripped_subset symbols mem)
  have each' : ∀ symbol ∈ stripped symbols', symbol < 32 := fun symbol mem =>
    digits'.each symbol (stripped_subset symbols' mem)
  rw [encode_spell each, encode_spell each',
    order_codes each each' (trimmed_stripped symbols) (trimmed_stripped symbols')
      (length_le_of_digits digits) (length_le_of_digits digits'),
    digits.compare_pack digits']
  simp only [getD_stripped]

/-- **What is spelled again**: the digits that were packed, without the zeros at their end. -/
theorem text_ofDigits {symbols : List Nat} (digits : Digits symbols) :
    (ofDigits symbols).text = spell (stripped symbols) := by
  have word : (ofDigits symbols).packed.toNat = pack symbols :=
    UInt64.toNat_ofNat_of_lt' digits.pack_lt
  have same : compare (pack (ofDigits symbols).symbols) (pack symbols) = .eq := by
    rw [pack_symbols, word]
    exact Nat.compare_eq_eq.mpr rfl
  have texts := order_stripped (digits_symbols (ofDigits symbols)) digits
  rw [same] at texts
  exact (text_eq _).trans (Utf8.encode_injective (Bytes.order_eq_eq_iff.mp texts))

/-- Leaving out the dots at the end of a text is leaving out the zeros at the end of its digits. -/
theorem withoutDots_spell {symbols : List Nat} (digits : Digits symbols) :
    withoutDots (spell symbols) = spell (stripped symbols) := by
  have each : ∀ symbol ∈ symbols.reverse, symbol < 32 := fun symbol mem =>
    digits.each symbol (List.mem_reverse.mp mem)
  unfold withoutDots spell stripped
  rw [String.toList_ofList, ← List.map_reverse, dropWhile_characters each, ← List.map_reverse]

/-- Words compare as their texts. -/
theorem order_text (a b : Name) : Bytes.order (Utf8.encode a.text) (Utf8.encode b.text)
    = compare a.packed.toNat b.packed.toNat := by
  have texts := order_stripped (digits_symbols a) (digits_symbols b)
  rw [pack_symbols, pack_symbols] at texts
  rw [text_eq, text_eq]
  exact texts

/-- The text of a name is no longer than any text that the name is packed from. -/
theorem length_encode_text_le {text : String} {name : Name} (packed : parse text = .ok name) :
    (Utf8.encode name.text).length ≤ (Utf8.encode text).length := by
  obtain ⟨symbols, digits, rfl, rfl⟩ := parse_eq_ok.mp packed
  have each : ∀ symbol ∈ stripped symbols, symbol < 32 := fun symbol mem =>
    digits.each symbol (stripped_subset symbols mem)
  rw [text_ofDigits digits, encode_spell each, encode_spell digits.each, List.length_map,
    List.length_map]
  exact length_stripped_le symbols

/-! ## 4. The result -/

/-- A text that is a name is packed to the one name whose text it is, but for dots at its end. -/
theorem parse_eq_ok_iff {text : String} {name : Name} :
    parse text = .ok name ↔ Spelled text ∧ name.text = withoutDots text := by
  rw [parse_eq_ok, spelled_iff]
  constructor
  · rintro ⟨symbols, digits, rfl, rfl⟩
    exact ⟨⟨symbols, digits, rfl⟩, by rw [text_ofDigits digits, withoutDots_spell digits]⟩
  · rintro ⟨⟨symbols, digits, rfl⟩, same⟩
    rw [withoutDots_spell digits, ← text_ofDigits digits] at same
    -- a name is read back from its text, so it is known by it
    have known : (Except.ok name : Except Fault Name) = Except.ok (ofDigits symbols) := by
      rw [← parse_text name, same, parse_text]
    exact ⟨symbols, digits, rfl, Except.ok.inj known⟩

/-- **Names: packing, text and order correspond.** A text is packed exactly if it is spelled as a
    name, to the name whose text it is without the dots at its end; so two texts pack to one name
    exactly if they are the same up to such dots. EVERY word is packed again from its text, from its
    JSON form and from what payloads hold of it. And words compare as numbers as their texts and
    their keys of eight bytes do byte by byte. -/
theorem spellings_exact :
    (∀ text : String, (∃ name, parse text = .ok name) ↔ Spelled text) ∧
    (∀ (text : String) (name : Name),
      parse text = .ok name ↔ Spelled text ∧ name.text = withoutDots text) ∧
    (∀ text text' : String, (∃ name, parse text = .ok name ∧ parse text' = .ok name) ↔
      Spelled text ∧ Spelled text' ∧ withoutDots text = withoutDots text') ∧
    (∀ name : Name, parse name.text = .ok name ∧ ofQuoted? name.quoted = some name
      ∧ ∀ rest, Payload.Codec.name.read (Payload.Codec.name.write name ++ rest) = .ok (name, rest)) ∧
    (∀ a b : Name,
      compare a.packed.toNat b.packed.toNat
          = Bytes.order (Utf8.encode a.text) (Utf8.encode b.text)
        ∧ compare a.packed.toNat b.packed.toNat
          = Bytes.order (KeyValue.name a).encode (KeyValue.name b).encode
        ∧ (KeyValue.name a).encode.length = 8) := by
  have accepts : ∀ text : String, (∃ name, parse text = .ok name) ↔ Spelled text := by
    intro text
    simp only [parse_eq_ok, spelled_iff]
    exact ⟨fun ⟨_, symbols, digits, same, _⟩ => ⟨symbols, digits, same⟩,
      fun ⟨symbols, digits, same⟩ => ⟨_, symbols, digits, same, rfl⟩⟩
  refine ⟨accepts, fun _ _ => parse_eq_ok_iff, fun text text' => ?_, fun name => ?_, fun a b => ?_⟩
  · constructor
    · rintro ⟨name, packed, packed'⟩
      obtain ⟨spelled, same⟩ := parse_eq_ok_iff.mp packed
      obtain ⟨spelled', same'⟩ := parse_eq_ok_iff.mp packed'
      exact ⟨spelled, spelled', same.symm.trans same'⟩
    · rintro ⟨spelled, spelled', same⟩
      obtain ⟨name, packed⟩ := (accepts text).mpr spelled
      have text := (parse_eq_ok_iff.mp packed).2
      exact ⟨name, packed, parse_eq_ok_iff.mpr ⟨spelled', text.trans same⟩⟩
  · refine ⟨parse_text name, ?_, Payload.Codec.lawful_name.reads name trivial⟩
    unfold ofQuoted? quoted
    rw [Json.parse_quote]
    exact congrArg Except.toOption (parse_text name)
  · refine ⟨(order_text a b).symm, ?_, Bytes.length_bigEndian ..⟩
    rw [← order_name]
    exact (KeyType.order_encode .name a b).symm

end IndexedStore.Name
