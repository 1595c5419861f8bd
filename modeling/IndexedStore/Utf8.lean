import IndexedStore.Bytes
/-!
# UTF-8

Text is stored as its UTF-8 bytes. Writing cannot fail; reading takes the shortest form of a
Unicode scalar value and nothing else, and says where and how a sequence stops being text.

* `Utf8.encode` writes, `Utf8.decode` reads;
* `Utf8.readChar` reads one character and hands back what follows;
* `Utf8.Fault` places a defect: the index of the character that broke, and whether its bytes
  run out or are wrong.
-/

namespace IndexedStore.Utf8

/-- How a character breaks. -/
inductive Defect where
  /-- The first `length` bytes cannot begin a character. -/
  | invalid (length : Nat)
  /-- The bytes end inside a character. -/
  | truncated
  deriving DecidableEq, Repr

/-- A defect, and the index of the first byte of the character that has it. -/
structure Fault where
  position : Nat
  defect : Defect
  deriving DecidableEq, Repr

/-- The wording of a fault. -/
def Fault.message : Fault → String
  | ⟨position, .invalid length⟩ =>
    s!"invalid utf-8 sequence of {length} bytes from index {position}"
  | ⟨position, .truncated⟩ => s!"incomplete utf-8 byte sequence from index {position}"

/-! ## 1. Writing -/

/-- The bytes of a text. -/
def encode (text : String) : Bytes :=
  text.toList.flatMap String.utf8EncodeChar

/-! ## 2. One character -/

/-- Reads the `owed` continuation bytes of a character, six bits of its number each. The first of
    them lies between `low` and `high`, the later ones between `0x80` and `0xbf`; `seen` bytes
    came before, and spelled `code` so far. -/
def readTail : (owed : Nat) → (low high : UInt8) → (seen code : Nat) → Bytes →
    Except Defect (Nat × Bytes)
  | 0, _, _, _, code, rest => .ok (code, rest)
  | _ + 1, _, _, _, _, [] => .error .truncated
  | owed + 1, low, high, seen, code, b :: rest =>
    if low ≤ b ∧ b ≤ high then
      readTail owed 0x80 0xbf (seen + 1) (code * 64 + (b.toNat - 0x80)) rest
    else .error (.invalid seen)

/-- What a first byte promises: how many continuation bytes follow, the bounds of the first of
    them, and the part of the number that the first byte itself holds. The bounds shut out
    overlong forms, surrogates and numbers above `0x10ffff`. -/
def shape? (lead : UInt8) : Option (Nat × UInt8 × UInt8 × Nat) :=
  if lead < 0x80 then some (0, 0x80, 0xbf, lead.toNat)
  else if lead < 0xc2 then none
  else if lead < 0xe0 then some (1, 0x80, 0xbf, lead.toNat - 0xc0)
  else if lead = 0xe0 then some (2, 0xa0, 0xbf, 0)
  else if lead = 0xed then some (2, 0x80, 0x9f, 13)
  else if lead < 0xf0 then some (2, 0x80, 0xbf, lead.toNat - 0xe0)
  else if lead = 0xf0 then some (3, 0x90, 0xbf, 0)
  else if lead < 0xf4 then some (3, 0x80, 0xbf, lead.toNat - 0xf0)
  else if lead = 0xf4 then some (3, 0x80, 0x8f, 4)
  else none

/-- Reads the character whose first byte is `lead`: the character, and what follows it. -/
def readChar (lead : UInt8) (rest : Bytes) : Except Defect (Char × Bytes) :=
  match shape? lead with
  | none => .error (.invalid 1)
  | some (owed, low, high, code) =>
    match readTail owed low high 1 code rest with
    | .error defect => .error defect
    | .ok (code, rest) => .ok (Char.ofNat code, rest)

theorem readTail_length {owed : Nat} {low high : UInt8} {seen code : Nat} {bytes : Bytes}
    {read : Nat × Bytes} (h : readTail owed low high seen code bytes = .ok read) :
    read.2.length + owed = bytes.length := by
  fun_induction readTail owed low high seen code bytes with
  | case1 => cases h; rfl
  | case2 => simp at h
  | case3 owed low high seen code b rest _ ih =>
    have := ih h
    simp only [List.length_cons]
    omega
  | case4 => simp at h

/-- A character read leaves no more bytes than followed its first. -/
theorem readChar_length {lead : UInt8} {rest : Bytes} {read : Char × Bytes}
    (h : readChar lead rest = .ok read) : read.2.length ≤ rest.length := by
  unfold readChar at h
  split at h
  · simp at h
  · split at h
    · simp at h
    · rename_i tail
      have := readTail_length tail
      cases h
      simp only at this ⊢
      omega

/-! ## 3. Whole texts -/

/-- Reads characters to the end of a text of `total` bytes, of which the given ones remain. -/
def decodeFrom (total : Nat) : Bytes → Except Fault (List Char)
  | [] => .ok []
  | lead :: rest =>
    match h : readChar lead rest with
    | .error defect => .error ⟨total - (rest.length + 1), defect⟩
    | .ok (c, remaining) => (decodeFrom total remaining).map (c :: ·)
termination_by bytes => bytes.length
decreasing_by exact Nat.lt_succ_of_le (readChar_length h)

/-- The text that a byte sequence spells. -/
def decode (bytes : Bytes) : Except Fault String :=
  (decodeFrom bytes.length bytes).map String.ofList

end IndexedStore.Utf8
