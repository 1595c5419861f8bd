/-!
# Byte sequences

Keys, stored values and payloads are all finite byte sequences, ordered lexicographically with a
shorter sequence below its extensions. This file fixes what the rest of the library asks of them:

* `Bytes.order` compares two sequences; `Bytes.sort` lists many in ascending order;
* `Bytes.startsWith` and `Bytes.after?` cut a sequence at a STEM, the part that a family of keys
  has in common;
* `Bytes.successor?` is the least sequence above every sequence with a given stem, so the keys
  with that stem are exactly those from the stem up to its successor;
* `Bytes.told` is a size as it is told, in 32 bits, and `Bytes.copyInto` a bounded copy into a buffer
  that the caller brings;
* `Bytes.bigEndian` and `Bytes.littleEndian` write a number into a fixed count of bytes.
-/

namespace IndexedStore

/-- A finite sequence of bytes. -/
abbrev Bytes := List UInt8

namespace Bytes

/-! ## 1. Order -/

instance : Std.LawfulOrderLT Bytes := inferInstance

/-- The lexicographic comparison of two byte sequences. -/
def order (a b : Bytes) : Ordering :=
  if a < b then .lt else if a = b then .eq else .gt

/-- The given sequences in ascending order, repetitions kept. -/
def sort (all : List Bytes) : List Bytes :=
  all.mergeSort fun a b => !decide (b < a)

/-! ## 2. Stems -/

/-- Whether `bytes` begins with `stem`. -/
def startsWith (bytes stem : Bytes) : Bool :=
  stem.isPrefixOf bytes

/-- What follows `stem` in `bytes`, if `bytes` begins with it. -/
def after? (bytes stem : Bytes) : Option Bytes :=
  stem.isPrefixOf? bytes

/-- The least sequence above every sequence that starts with the given stem. The last byte that
    can grow grows by one and the bytes `0xff` behind it fall away; a stem of nothing but `0xff`
    has no such sequence. -/
def successor? : Bytes → Option Bytes
  | [] => none
  | b :: rest =>
    match successor? rest with
    | some above => some (b :: above)
    | none => if b = 0xff then none else some [b + 1]

/-! ## 3. Bounded copies -/

/-- A size as the calls of a store tell it: a number of 32 bits, so a larger size loses its high
    bits. -/
def told (size : Nat) : Nat :=
  (UInt32.ofNat size).toNat

theorem told_of_lt {size : Nat} (h : size < UInt32.size) : told size = size :=
  UInt32.toNat_ofNat_of_lt h

theorem told_le (size : Nat) : told size ≤ size := by
  unfold told
  rw [UInt32.toNat_ofNat']
  exact Nat.mod_le size _

@[simp] theorem told_told (size : Nat) : told (told size) = told size :=
  told_of_lt (UInt32.toNat_lt_size _)

/-- Copies `source` from `offset` on into `buffer`, as much as fits: the count of bytes copied,
    and the buffer afterwards. What the copy does not reach keeps its bytes. -/
def copyInto (source : Bytes) (offset : Nat) (buffer : Bytes) : Nat × Bytes :=
  let copied := (source.drop offset).take buffer.length
  (told copied.length, copied ++ buffer.drop copied.length)

/-- A buffer of `size` zero bytes. -/
def zeros (size : Nat) : Bytes :=
  List.replicate size 0

/-! ## 4. Numbers in a fixed count of bytes -/

/-- `n` in `size` bytes, the most significant first. -/
def bigEndian : (size n : Nat) → Bytes
  | 0, _ => []
  | size + 1, n => UInt8.ofNat (n >>> (8 * size)) :: bigEndian size n

/-- `n` in `size` bytes, the least significant first. -/
def littleEndian : (size n : Nat) → Bytes
  | 0, _ => []
  | size + 1, n => UInt8.ofNat n :: littleEndian size (n / 256)

/-- The number that bytes spell with the least significant first. -/
def ofLittleEndian : Bytes → Nat
  | [] => 0
  | b :: rest => b.toNat + 256 * ofLittleEndian rest

@[simp] theorem length_bigEndian (size n : Nat) : (bigEndian size n).length = size := by
  induction size with
  | zero => rfl
  | succ size ih => simp [bigEndian, ih]

@[simp] theorem length_littleEndian (size n : Nat) : (littleEndian size n).length = size := by
  induction size generalizing n with
  | zero => rfl
  | succ size ih => simp [littleEndian, ih]

end Bytes

end IndexedStore
