import IndexedStore.Utf8
import Mathlib.Algebra.Group.Nat.Defs
/-!
# Text is read back from its bytes

A character's first byte says how many bytes follow it and between which bounds the next one lies
(`Utf8.shape?`). The forms that are written lie within these bounds, so each character is read back
from its own form (`Utf8.readChar_encode`), and what follows the form plays no part
(`Utf8.readChar_front`); from there a whole text is read back (`Utf8.decode_encode`). The bounds also
keep a character small enough for the bytes that it is read off, so no text takes more bytes than it
was read off (`Utf8.length_encode_le`).
-/

namespace IndexedStore.Utf8

/-! ## 1. What is read looks no further -/

theorem readTail_front {owed : Nat} {low high : UInt8} {seen code found : Nat} {bytes rest : Bytes}
    (read : readTail owed low high seen code bytes = .ok (found, rest)) :
    ∃ front, bytes = front ++ rest
      ∧ ∀ more, readTail owed low high seen code (front ++ more) = .ok (found, more) := by
  fun_induction readTail owed low high seen code bytes with
  | case1 => cases read; exact ⟨[], rfl, fun _ => rfl⟩
  | case2 => cases read
  | case3 owed low high seen code b bytes inside ih =>
    obtain ⟨front, rfl, again⟩ := ih read
    refine ⟨b :: front, rfl, fun more => ?_⟩
    rw [List.cons_append, readTail, if_pos inside, again more]
  | case4 => cases read

/-- A character is read off a front part of the bytes, and off this front part whatever follows. -/
theorem readChar_front {lead : UInt8} {bytes rest : Bytes} {c : Char}
    (read : readChar lead bytes = .ok (c, rest)) :
    ∃ front, bytes = front ++ rest ∧ ∀ more, readChar lead (front ++ more) = .ok (c, more) := by
  unfold readChar at read ⊢
  cases shape : shape? lead with
  | none => rw [shape] at read; cases read
  | some promised =>
    rw [shape] at read
    dsimp only at read ⊢
    cases tail : readTail promised.1 promised.2.1 promised.2.2.1 1 promised.2.2.2 bytes with
    | error defect => rw [tail] at read; cases read
    | ok found =>
      rw [tail] at read
      cases read
      obtain ⟨front, same, again⟩ := readTail_front tail
      exact ⟨front, same, fun more => by rw [again more]⟩

/-! ## 2. One character -/

/-- A continuation byte gives six bits of the character's number. -/
theorem readTail_continuation {low high : UInt8} {bits : Nat} (owed seen code : Nat) (rest : Bytes)
    (above : low.toNat ≤ bits + 128) (below : bits + 128 ≤ high.toNat) :
    readTail (owed + 1) low high seen code (UInt8.ofNat (bits + 128) :: rest)
      = readTail owed 0x80 0xbf (seen + 1) (code * 64 + bits) rest := by
  have byte : (UInt8.ofNat (bits + 128)).toNat = bits + 128 :=
    UInt8.toNat_ofNat_of_lt' (Nat.lt_of_le_of_lt below high.toNat_lt)
  have inside : low ≤ UInt8.ofNat (bits + 128) ∧ UInt8.ofNat (bits + 128) ≤ high := by
    rw [UInt8.le_iff_toNat_le, UInt8.le_iff_toNat_le, byte]
    exact ⟨above, below⟩
  rw [readTail, if_pos inside, byte, Nat.add_sub_cancel]

theorem shape?_one {n : Nat} (less : n < 128) :
    shape? (UInt8.ofNat n) = some (0, 0x80, 0xbf, n) := by
  have byte : (UInt8.ofNat n).toNat = n := UInt8.toNat_ofNat_of_lt' (Nat.lt_trans less (by decide))
  unfold shape?
  rw [if_pos (by rw [UInt8.lt_iff_toNat_lt, byte]; exact less), byte]

/-- A first byte of two; numbers of one byte have none. -/
theorem shape?_two : ∀ n < 32, shape? (UInt8.ofNat (n + 192))
    = if n < 2 then none else some (1, 0x80, 0xbf, n) := by
  decide

/-- A first byte of three: the bound below shuts out numbers of two bytes, the one above
    surrogates. -/
theorem shape?_three : ∀ n < 16, shape? (UInt8.ofNat (n + 224))
    = some (2, if n = 0 then 0xa0 else 0x80, if n = 13 then 0x9f else 0xbf, n) := by
  decide

/-- A first byte of four: the bound below shuts out numbers of three bytes, the one above numbers
    that no character has. -/
theorem shape?_four : ∀ n < 5, shape? (UInt8.ofNat (n + 240))
    = some (3, if n = 0 then 0x90 else 0x80, if n = 4 then 0x8f else 0xbf, n) := by
  decide

theorem readChar_of_shape {lead low high : UInt8} {owed code found : Nat} {bytes rest : Bytes}
    (shape : shape? lead = some (owed, low, high, code))
    (tail : readTail owed low high 1 code bytes = .ok (found, rest)) :
    readChar lead bytes = .ok (Char.ofNat found, rest) := by
  unfold readChar
  rw [shape]
  dsimp only
  rw [tail]

theorem readChar_two {n : Nat} (above : 0x80 ≤ n) (below : n < 0x800) (rest : Bytes) :
    readChar (UInt8.ofNat (n / 64 % 32 + 192)) (UInt8.ofNat (n % 64 + 128) :: rest)
      = .ok (Char.ofNat n, rest) := by
  have number : n / 64 % 32 * 64 + n % 64 = n := by omega
  have shape := shape?_two (n / 64 % 32) (by omega)
  rw [if_neg (by omega)] at shape
  refine readChar_of_shape shape ?_
  rw [readTail_continuation _ _ _ _ (by simp) (by simp; omega), readTail, number]

theorem readChar_three {n : Nat} (above : 0x800 ≤ n) (below : n < 0x10000)
    (noSurrogate : n < 0xd800 ∨ 0xdfff < n) (rest : Bytes) :
    readChar (UInt8.ofNat (n / 4096 % 16 + 224))
        (UInt8.ofNat (n / 64 % 64 + 128) :: UInt8.ofNat (n % 64 + 128) :: rest)
      = .ok (Char.ofNat n, rest) := by
  have number : (n / 4096 % 16 * 64 + n / 64 % 64) * 64 + n % 64 = n := by omega
  refine readChar_of_shape (shape?_three (n / 4096 % 16) (by omega)) ?_
  rw [readTail_continuation _ _ _ _ (by split <;> simp; omega)
      (by split <;> simp <;> omega),
    readTail_continuation _ _ _ _ (by simp) (by simp; omega), readTail, number]

theorem readChar_four {n : Nat} (above : 0x10000 ≤ n) (below : n < 0x110000) (rest : Bytes) :
    readChar (UInt8.ofNat (n / 262144 % 8 + 240))
        (UInt8.ofNat (n / 4096 % 64 + 128) :: UInt8.ofNat (n / 64 % 64 + 128)
          :: UInt8.ofNat (n % 64 + 128) :: rest)
      = .ok (Char.ofNat n, rest) := by
  have number : ((n / 262144 % 8 * 64 + n / 4096 % 64) * 64 + n / 64 % 64) * 64 + n % 64 = n := by
    omega
  refine readChar_of_shape (shape?_four (n / 262144 % 8) (by omega)) ?_
  rw [readTail_continuation _ _ _ _ (by split <;> simp; omega)
      (by split <;> simp <;> omega),
    readTail_continuation _ _ _ _ (by simp) (by simp; omega),
    readTail_continuation _ _ _ _ (by simp) (by simp; omega), readTail, number]

/-- **A character is read back from its bytes, whatever follows.** -/
theorem readChar_encode (c : Char) : ∃ lead tail, String.utf8EncodeChar c = lead :: tail
    ∧ ∀ rest, readChar lead (tail ++ rest) = .ok (c, rest) := by
  have valid : c.toNat < 0xd800 ∨ 0xdfff < c.toNat ∧ c.toNat < 0x110000 := c.valid
  have back : Char.ofNat c.val.toNat = c := Char.ofNat_toNat c
  have same : c.toNat = c.val.toNat := rfl
  rw [same] at valid
  unfold String.utf8EncodeChar
  dsimp only
  split
  · rename_i one
    refine ⟨_, _, rfl, fun rest => ?_⟩
    rw [readChar_of_shape (shape?_one (Nat.lt_succ_of_le one)) (readTail.eq_1 ..), back]
    rfl
  split
  · refine ⟨_, _, rfl, fun rest => ?_⟩
    rw [List.cons_append, List.nil_append, readChar_two (by omega) (by omega), back]
  split
  · refine ⟨_, _, rfl, fun rest => ?_⟩
    rw [List.cons_append, List.cons_append, List.nil_append,
      readChar_three (by omega) (by omega) (by omega), back]
  · refine ⟨_, _, rfl, fun rest => ?_⟩
    rw [List.cons_append, List.cons_append, List.cons_append, List.nil_append,
      readChar_four (by omega) (by omega), back]

/-! ## 3. Whole texts -/

theorem decodeFrom_encode (total : Nat) (characters : List Char) :
    decodeFrom total (characters.flatMap String.utf8EncodeChar) = .ok characters := by
  induction characters with
  | nil =>
    rw [List.flatMap_nil, decodeFrom]
  | cons c characters ih =>
    obtain ⟨lead, tail, form, read⟩ := readChar_encode c
    rw [List.flatMap_cons, form, List.cons_append, decodeFrom]
    split
    · rename_i refused
      rw [read] at refused
      cases refused
    · rename_i found
      rw [read] at found
      cases found
      rw [ih]
      rfl

/-- **A text is read back from its bytes.** -/
theorem decode_encode (text : String) : decode (encode text) = .ok text := by
  unfold decode encode
  rw [decodeFrom_encode]
  show Except.ok (String.ofList text.toList) = _
  rw [String.ofList_toList]

/-- No two texts have the same bytes. -/
theorem encode_injective {text text' : String} (same : encode text = encode text') :
    text = text' := by
  have read := decode_encode text
  rw [same, decode_encode] at read
  exact (Except.ok.inj read).symm

/-! ## 4. What is read off few bytes takes few -/

/-- What a first byte promises leaves the number of the character within what as many bytes hold. -/
theorem shape?_bound : ∀ n < 256, ∀ promised ∈ shape? (UInt8.ofNat n),
    promised.2.2.1 ≤ 0xbf
      ∧ (promised.1 = 0 ∧ promised.2.2.2 < 0x80
        ∨ promised.1 = 1 ∧ promised.2.2.2 < 32
        ∨ promised.1 = 2 ∧ promised.2.2.2 < 16
        ∨ promised.1 = 3) := by
  decide +kernel

/-- Every continuation byte adds six bits to the number. -/
theorem readTail_lt {owed : Nat} {low high : UInt8} {seen code found : Nat} {bytes rest : Bytes}
    (read : readTail owed low high seen code bytes = .ok (found, rest)) (bounded : high ≤ 0xbf) :
    found < (code + 1) * 64 ^ owed := by
  fun_induction readTail owed low high seen code bytes with
  | case1 =>
    cases read
    omega
  | case2 => cases read
  | case3 owed low high seen code b bytes inside ih =>
    have least : b.toNat ≤ 0xbf := UInt8.le_iff_toNat_le.mp (UInt8.le_trans inside.2 bounded)
    calc found < (code * 64 + (b.toNat - 0x80) + 1) * 64 ^ owed := ih read UInt8.le_rfl
      _ ≤ ((code + 1) * 64) * 64 ^ owed := Nat.mul_le_mul_right _ (by omega)
      _ = (code + 1) * 64 ^ (owed + 1) := by rw [Nat.mul_assoc, Nat.pow_succ']
  | case4 => cases read

/-- The number of a character is not above the one that it is made of. -/
theorem toNat_ofNat_le (n : Nat) : (Char.ofNat n).val.toNat ≤ n := by
  unfold Char.ofNat
  by_cases valid : n.isValidChar
  · rw [dif_pos valid]
    exact Nat.le_refl _
  · rw [dif_neg valid]
    exact Nat.zero_le _

theorem utf8Size_le {c : Char} {bytes : Nat}
    (fits : bytes = 1 ∧ c.val.toNat < 0x80 ∨ bytes = 2 ∧ c.val.toNat < 0x800
      ∨ bytes = 3 ∧ c.val.toNat < 0x10000 ∨ bytes = 4) : c.utf8Size ≤ bytes := by
  unfold Char.utf8Size
  simp only [UInt32.le_iff_toNat_le, UInt32.toNat_ofNatLT]
  split
  · omega
  split
  · omega
  split <;> omega

/-- A character takes no more bytes than it was read off. -/
theorem utf8Size_le_of_readChar {lead : UInt8} {bytes rest : Bytes} {c : Char}
    (read : readChar lead bytes = .ok (c, rest)) : c.utf8Size + rest.length ≤ bytes.length + 1 := by
  unfold readChar at read
  cases shape : shape? lead with
  | none => rw [shape] at read; cases read
  | some promised =>
    obtain ⟨owed, low, high, code⟩ := promised
    rw [shape] at read
    dsimp only at read
    cases tail : readTail owed low high 1 code bytes with
    | error defect => rw [tail] at read; cases read
    | ok found =>
      obtain ⟨found, left⟩ := found
      rw [tail] at read
      cases read
      have bound := shape?_bound lead.toNat lead.toNat_lt
      rw [UInt8.ofNat_toNat] at bound
      obtain ⟨bounded, shapes⟩ := bound _ shape
      have length := readTail_length tail
      have less := readTail_lt tail bounded
      dsimp only at shapes length
      have number := toNat_ofNat_le found
      have size : (Char.ofNat found).utf8Size ≤ owed + 1 := by
        refine utf8Size_le ?_
        rcases shapes with ⟨rfl, few⟩ | ⟨rfl, few⟩ | ⟨rfl, few⟩ | rfl <;> omega
      omega

theorem length_encode_le_of_decodeFrom {total : Nat} {bytes : Bytes} {characters : List Char}
    (read : decodeFrom total bytes = .ok characters) :
    (characters.flatMap String.utf8EncodeChar).length ≤ bytes.length := by
  fun_induction decodeFrom total bytes generalizing characters with
  | case1 =>
    cases read
    exact Nat.le_refl _
  | case2 => cases read
  | case3 lead bytes c remaining readFirst ih =>
    cases others : decodeFrom total remaining with
    | error fault => rw [others] at read; cases read
    | ok rest =>
      rw [others] at read
      cases read
      have first := utf8Size_le_of_readChar readFirst
      have later := ih others
      rw [List.flatMap_cons, List.length_append, String.length_utf8EncodeChar, List.length_cons]
      omega

/-- **A text takes no more bytes than it was read off.** -/
theorem length_encode_le {bytes : Bytes} {text : String} (read : decode bytes = .ok text) :
    (encode text).length ≤ bytes.length := by
  unfold decode at read
  cases characters : decodeFrom bytes.length bytes with
  | error fault => rw [characters] at read; cases read
  | ok found =>
    rw [characters] at read
    cases read
    unfold encode
    rw [String.toList_ofList]
    exact length_encode_le_of_decodeFrom characters

end IndexedStore.Utf8
