import IndexedStore.Payload.Reader
/-!
# Integers in a variable count of bytes

A number up to 250 is one byte. A larger one is a mark byte, which tells its width, and then its
bytes, the least significant first: 251 for 2 bytes, 252 for 4, 253 for 8 and 254 for 16. Writing
takes the shortest form; reading takes any. A signed number is first folded onto the natural
numbers, so that numbers near zero stay short on either side.

* `Varint.write` and `Varint.read` are the two directions for natural numbers, `Varint.size` counts
  the bytes;
* `Varint.fold` and `Varint.unfold` go from integers to natural numbers and back, with the law
  `unfold_fold`.
-/

namespace IndexedStore.Payload.Varint

/-! ## 1. Natural numbers -/

/-- The shortest form of a number of at most 128 bits. -/
def write (n : Nat) : Bytes :=
  if n ≤ 250 then [UInt8.ofNat n]
  else if n < UInt16.size then 251 :: Bytes.littleEndian 2 n
  else if n < UInt32.size then 252 :: Bytes.littleEndian 4 n
  else if n < UInt64.size then 253 :: Bytes.littleEndian 8 n
  else 254 :: Bytes.littleEndian 16 n

/-- The count of bytes of the shortest form. -/
def size (n : Nat) : Nat :=
  if n ≤ 250 then 1
  else if n < UInt16.size then 3
  else if n < UInt32.size then 5
  else if n < UInt64.size then 9
  else 17

/-- Reads a number of any form. Forms of 16 bytes are refused unless `wide` allows them. -/
def read (wide : Bool) : Reader Nat := do
  let mark ← takeByte
  if mark ≤ 250 then return mark.toNat
  else if mark = 251 then return Bytes.ofLittleEndian (← take 2)
  else if mark = 252 then return Bytes.ofLittleEndian (← take 4)
  else if mark = 253 then return Bytes.ofLittleEndian (← take 8)
  else if mark = 254 then
    if wide then return Bytes.ofLittleEndian (← take 16) else throw .wideForm
  else throw .reservedForm

/-! ## 2. Integers -/

/-- Folds the integers onto the natural numbers: 0, -1, 1, -2, 2 and so on. -/
def fold : Int → Nat
  | .ofNat n => 2 * n
  | .negSucc n => 2 * n + 1

/-- The integer that was folded onto a natural number. -/
def unfold (n : Nat) : Int :=
  if n % 2 = 0 then .ofNat (n / 2) else .negSucc (n / 2)

@[simp] theorem unfold_fold (i : Int) : unfold (fold i) = i := by
  cases i with
  | ofNat n => simp [fold, unfold]
  | negSucc n =>
    have odd : (2 * n + 1) % 2 = 1 := by omega
    have half : (2 * n + 1) / 2 = n := by omega
    simp [fold, unfold, odd, half]

end IndexedStore.Payload.Varint
