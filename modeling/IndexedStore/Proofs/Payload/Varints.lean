import IndexedStore.Payload.Varint
import IndexedStore.Proofs.Payload.Readers
import Mathlib.Algebra.Group.Nat.Defs
/-!
# The forms of a number

A number can be spelled in one byte if it is small, and otherwise behind a mark in two, four, eight
or sixteen bytes, more than it needs among them. `Varint.Spells` lists the forms. Reading takes
exactly them (`Varint.read_eq_ok`), so nothing that follows a form plays a part, and writing makes one
of them (`Varint.spells_write`), as long as it counts (`Varint.length_write`), and no other form is
shorter (`Varint.Spells.size_le`).
-/

namespace IndexedStore

open IndexedStore.Payload.Reader

/-! ## 1. Digits -/

namespace Bytes

theorem ofLittleEndian_littleEndian (size n : Nat) :
    ofLittleEndian (littleEndian size n) = n % 256 ^ size := by
  induction size generalizing n with
  | zero => simp [littleEndian, ofLittleEndian, Nat.mod_one]
  | succ size ih =>
    have power : 256 ^ (size + 1) = 256 * 256 ^ size := Nat.pow_succ'
    rw [littleEndian, ofLittleEndian, ih, power, Nat.mod_mul, UInt8.toNat_ofNat']

theorem ofLittleEndian_lt (digits : Bytes) : ofLittleEndian digits < 256 ^ digits.length := by
  induction digits with
  | nil => exact Nat.one_pos
  | cons digit digits ih =>
    have less := digit.toNat_lt
    rw [ofLittleEndian, List.length_cons, Nat.pow_succ']
    omega

end Bytes

namespace Payload.Varint

/-! ## 2. Forms -/

/-- The numbers that are read: those of 64 bits, or of 128 if `wide`. -/
def bound (wide : Bool) : Nat :=
  if wide then 2 ^ 128 else 2 ^ 64

/-- `Spells wide form n`: the bytes `form` are a form of the number `n`; the form in sixteen bytes is
    one only if `wide`. -/
inductive Spells (wide : Bool) : Bytes → Nat → Prop where
  | byte (mark : UInt8) (small : mark ≤ 250) : Spells wide [mark] mark.toNat
  | two (digits : Bytes) (length : digits.length = 2) :
    Spells wide (251 :: digits) (Bytes.ofLittleEndian digits)
  | four (digits : Bytes) (length : digits.length = 4) :
    Spells wide (252 :: digits) (Bytes.ofLittleEndian digits)
  | eight (digits : Bytes) (length : digits.length = 8) :
    Spells wide (253 :: digits) (Bytes.ofLittleEndian digits)
  | sixteen (digits : Bytes) (length : digits.length = 16) (allowed : wide = true) :
    Spells wide (254 :: digits) (Bytes.ofLittleEndian digits)

/-- Reading is reading the mark and then the digits that it promises. -/
theorem read_cons (wide : Bool) (mark : UInt8) (rest : Bytes) :
    read wide (mark :: rest)
      = (if mark ≤ 250 then pure mark.toNat
        else if mark = 251 then Bytes.ofLittleEndian <$> take 2
        else if mark = 252 then Bytes.ofLittleEndian <$> take 4
        else if mark = 253 then Bytes.ofLittleEndian <$> take 8
        else if mark = 254 then
          if wide then Bytes.ofLittleEndian <$> take 16 else throw .wideForm
        else throw .reservedForm : Reader Nat) rest := by
  simp only [map_eq_pure_bind]
  rfl

theorem digits_eq_ok {count n : Nat} {bytes rest : Bytes} :
    (Bytes.ofLittleEndian <$> take count : Reader Nat) bytes = .ok (n, rest)
      ↔ ∃ digits, digits.length = count ∧ n = Bytes.ofLittleEndian digits
        ∧ bytes = digits ++ rest := by
  rw [map_eq_ok]
  constructor
  · rintro ⟨digits, taken, rfl⟩
    obtain ⟨rfl, length⟩ := take_eq_ok.mp taken
    exact ⟨digits, length, rfl, rfl⟩
  · rintro ⟨digits, length, rfl, rfl⟩
    exact ⟨digits, take_append length rest, rfl⟩

/-- **Reading takes exactly the forms.** -/
theorem read_eq_ok {wide : Bool} {n : Nat} {bytes rest : Bytes} :
    read wide bytes = .ok (n, rest) ↔ ∃ form, Spells wide form n ∧ bytes = form ++ rest := by
  constructor
  · intro done
    cases bytes with
    | nil => cases done
    | cons mark bytes =>
      rw [read_cons] at done
      split at done
      · rename_i small
        cases done
        exact ⟨[mark], .byte mark small, rfl⟩
      split at done
      · rename_i isMark
        obtain ⟨digits, length, rfl, rfl⟩ := digits_eq_ok.mp done
        exact ⟨mark :: digits, isMark ▸ .two digits length, rfl⟩
      split at done
      · rename_i isMark
        obtain ⟨digits, length, rfl, rfl⟩ := digits_eq_ok.mp done
        exact ⟨mark :: digits, isMark ▸ .four digits length, rfl⟩
      split at done
      · rename_i isMark
        obtain ⟨digits, length, rfl, rfl⟩ := digits_eq_ok.mp done
        exact ⟨mark :: digits, isMark ▸ .eight digits length, rfl⟩
      split at done
      · rename_i isMark
        split at done
        · rename_i allowed
          obtain ⟨digits, length, rfl, rfl⟩ := digits_eq_ok.mp done
          exact ⟨mark :: digits, isMark ▸ .sixteen digits length allowed, rfl⟩
        · cases done
      · cases done
  · rintro ⟨form, spells, rfl⟩
    cases spells with
    | byte mark small =>
      rw [List.singleton_append, read_cons, if_pos small]
      rfl
    | two digits length =>
      rw [List.cons_append, read_cons]
      exact digits_eq_ok.mpr ⟨digits, length, rfl, rfl⟩
    | four digits length =>
      rw [List.cons_append, read_cons]
      exact digits_eq_ok.mpr ⟨digits, length, rfl, rfl⟩
    | eight digits length =>
      rw [List.cons_append, read_cons]
      exact digits_eq_ok.mpr ⟨digits, length, rfl, rfl⟩
    | sixteen digits length allowed =>
      subst allowed
      rw [List.cons_append, read_cons]
      exact digits_eq_ok.mpr ⟨digits, length, rfl, rfl⟩

theorem sequential_read (wide : Bool) : Sequential (read wide) := by
  intro bytes n rest done
  obtain ⟨form, spells, rfl⟩ := read_eq_ok.mp done
  exact ⟨form, rfl, fun _ => read_eq_ok.mpr ⟨form, spells, rfl⟩⟩

/-- A form has at least one byte. -/
theorem Spells.length_pos {wide : Bool} {form : Bytes} {n : Nat} (spells : Spells wide form n) :
    0 < form.length := by
  cases spells <;> exact Nat.succ_pos _

/-! ## 3. The shortest form -/

theorem spells_littleEndian {wide : Bool} {mark : UInt8} {size n : Nat} (fits : n < 256 ^ size)
    (spells : ∀ digits : Bytes, digits.length = size →
      Spells wide (mark :: digits) (Bytes.ofLittleEndian digits)) :
    Spells wide (mark :: Bytes.littleEndian size n) n := by
  have form := spells _ (Bytes.length_littleEndian size n)
  rwa [Bytes.ofLittleEndian_littleEndian, Nat.mod_eq_of_lt fits] at form

/-- What is written for a number is a form of it. -/
theorem spells_write {wide : Bool} {n : Nat} (fits : n < bound wide) :
    Spells wide (write n) n := by
  unfold write
  split
  · rename_i small
    have byte : (UInt8.ofNat n).toNat = n := UInt8.toNat_ofNat_of_lt' (Nat.lt_of_le_of_lt small (by decide))
    have form : Spells wide [UInt8.ofNat n] (UInt8.ofNat n).toNat := .byte _ (by
      rw [UInt8.le_iff_toNat_le, byte]
      exact small)
    rwa [byte] at form
  split
  · rename_i less
    exact spells_littleEndian less .two
  split
  · rename_i less
    exact spells_littleEndian less .four
  split
  · rename_i less
    exact spells_littleEndian less .eight
  · rename_i more
    cases wide with
    | false => exact absurd fits more
    | true => exact spells_littleEndian fits fun digits length => .sixteen digits length rfl

/-- **A number is read back from what is written for it, whatever follows.** -/
theorem read_write {wide : Bool} {n : Nat} (fits : n < bound wide) (rest : Bytes) :
    read wide (write n ++ rest) = .ok (n, rest) :=
  read_eq_ok.mpr ⟨write n, spells_write fits, rfl⟩

/-- A number takes as many bytes as are counted for it. -/
theorem length_write (n : Nat) : (write n).length = size n := by
  unfold write size
  split
  · rfl
  repeat' split
  all_goals rw [List.length_cons, Bytes.length_littleEndian]

/-! ## 4. Other forms -/

/-- A form in `digits` bytes behind a mark holds less than these can count. -/
theorem size_le_of_lt {n size : Nat} (fits : size = 2 ∧ n < 256 ^ 2 ∨ size = 4 ∧ n < 256 ^ 4
    ∨ size = 8 ∧ n < 256 ^ 8 ∨ size = 16) : Varint.size n ≤ size + 1 := by
  unfold Varint.size
  have short : UInt16.size = 256 ^ 2 := rfl
  have middle : UInt32.size = 256 ^ 4 := rfl
  have long : UInt64.size = 256 ^ 8 := rfl
  rw [short, middle, long]
  split
  · omega
  split
  · omega
  split
  · omega
  split <;> omega

/-- **No form of a number is shorter than the one that is written.** -/
theorem Spells.size_le {wide : Bool} {form : Bytes} {n : Nat} (spells : Spells wide form n) :
    size n ≤ form.length := by
  cases spells with
  | byte mark small =>
    have few : mark.toNat ≤ 250 := UInt8.le_iff_toNat_le.mp small
    unfold Varint.size
    rw [if_pos few]
    exact Nat.le_refl 1
  | two digits length =>
    have less := Bytes.ofLittleEndian_lt digits
    rw [length] at less
    rw [List.length_cons, length]
    exact size_le_of_lt (.inl ⟨rfl, less⟩)
  | four digits length =>
    have less := Bytes.ofLittleEndian_lt digits
    rw [length] at less
    rw [List.length_cons, length]
    exact size_le_of_lt (.inr (.inl ⟨rfl, less⟩))
  | eight digits length =>
    have less := Bytes.ofLittleEndian_lt digits
    rw [length] at less
    rw [List.length_cons, length]
    exact size_le_of_lt (.inr (.inr (.inl ⟨rfl, less⟩)))
  | sixteen digits length _ =>
    rw [List.length_cons, length]
    exact size_le_of_lt (.inr (.inr (.inr rfl)))

/-- A form that is not wide is that of a number of 64 bits. -/
theorem Spells.lt {form : Bytes} {n : Nat} (spells : Spells false form n) : n < UInt64.size := by
  have word : ∀ {digits : Bytes} {size : Nat}, digits.length = size → size ≤ 8 →
      Bytes.ofLittleEndian digits < UInt64.size := fun {digits size} length few => by
    have less := Bytes.ofLittleEndian_lt digits
    rw [length] at less
    exact Nat.lt_of_lt_of_le less (Nat.pow_le_pow_right (by decide) few)
  cases spells with
  | byte mark small => exact Nat.lt_trans mark.toNat_lt (by decide)
  | two digits length => exact word length (by decide)
  | four digits length => exact word length (by decide)
  | eight digits length => exact word length (by decide)
  | sixteen digits length allowed => cases allowed

/-- A larger number takes no fewer bytes. -/
theorem size_mono {n n' : Nat} (le : n ≤ n') : size n ≤ size n' := by
  unfold Varint.size
  have sizes : UInt16.size ≤ UInt32.size ∧ UInt32.size ≤ UInt64.size := by decide
  split
  · repeat' split
    all_goals decide
  repeat' split
  all_goals omega

theorem fold_unfold (n : Nat) : fold (unfold n) = n := by
  unfold unfold
  split
  · show 2 * (n / 2) = n
    omega
  · show 2 * (n / 2) + 1 = n
    omega

end Payload.Varint

end IndexedStore
