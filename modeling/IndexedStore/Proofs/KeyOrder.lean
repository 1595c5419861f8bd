import IndexedStore.Key.Type
import IndexedStore.Proofs.ByteOrder
import Mathlib.Algebra.Group.Int.Defs
/-!
# Encoded keys sort as their values

The encoding of keys keeps the natural order of every type of keys, WHATEVER BYTES FOLLOW. That is
what lets encodings stand one behind the other in tuples and lists, with no count of their bytes.

* `Shows` is the invariant: how the comparison of two values shows in their encodings. It is closed
  under concatenation (`Shows.append`), so it goes through tuples and lists part by part;
* sections 2 and 3 show it of numbers and of byte strings, section 4 of every type
  (`KeyType.sorts`, an induction over the type);
* `encode_keeps_order` is the result: smaller values have smaller bytes, equal values have equal
  bytes, and no encoding is the beginning of another.
-/

namespace IndexedStore

open Bytes KeyValue

/-- How a comparison shows in two encodings: strictly and with anything behind them, or as equal
    bytes. -/
def Shows (order : Ordering) (u v : Bytes) : Prop :=
  match order with
  | .lt => ∀ x y : Bytes, u ++ x < v ++ y
  | .eq => u = v
  | .gt => ∀ x y : Bytes, v ++ y < u ++ x

namespace Shows

/-! ## 1. Concatenation -/

theorem refl (u : Bytes) : Shows .eq u u := rfl

/-- **The first part decides, and if it does not, the second does.** -/
theorem append {first second : Ordering} {u v u' v' : Bytes} (h : Shows first u v)
    (h' : Shows second u' v') : Shows (first.then second) (u ++ u') (v ++ v') := by
  cases first with
  | lt =>
    intro x y
    rw [List.append_assoc, List.append_assoc]
    exact h (u' ++ x) (v' ++ y)
  | gt =>
    intro x y
    rw [List.append_assoc, List.append_assoc]
    exact h (u' ++ x) (v' ++ y)
  | eq =>
    have same : u = v := h
    subst same
    cases second with
    | lt =>
      intro x y
      rw [List.append_assoc, List.append_assoc]
      exact List.append_left_lt (h' x y)
    | gt =>
      intro x y
      rw [List.append_assoc, List.append_assoc]
      exact List.append_left_lt (h' x y)
    | eq => exact congrArg (u ++ ·) h'

theorem byte (a b : UInt8) : Shows (compare a.toNat b.toNat) [a] [b] := by
  rcases Nat.lt_trichotomy a.toNat b.toNat with below | same | above
  · rw [Nat.compare_eq_lt.mpr below]
    exact fun x y => List.cons_lt_cons_iff.mpr (.inl (UInt8.lt_iff_toNat_lt.mpr below))
  · rw [Nat.compare_eq_eq.mpr same]
    exact congrArg (fun c => [c]) (UInt8.toNat_inj.mp same)
  · rw [Nat.compare_eq_gt.mpr above]
    exact fun x y => List.cons_lt_cons_iff.mpr (.inl (UInt8.lt_iff_toNat_lt.mpr above))

/-- Two encodings whose first bytes differ, whatever stands behind these. -/
theorem of_heads {a b : UInt8} (h : a < b) (u v : Bytes) : Shows .lt (a :: u) (b :: v) :=
  fun _ _ => List.cons_lt_cons_iff.mpr (.inl h)

theorem swap {order : Ordering} {u v : Bytes} (h : Shows order u v) : Shows order.swap v u := by
  cases order with
  | lt => exact fun x y => h y x
  | eq => exact Eq.symm h
  | gt => exact fun x y => h y x

theorem cons {order : Ordering} {u v : Bytes} (mark : UInt8) (h : Shows order u v) :
    Shows order (mark :: u) (mark :: v) :=
  (refl [mark]).append h

end Shows

/-! ## 2. Numbers -/

/-- Two pairs of numbers that are ordered alike compare alike. -/
theorem compare_eq_of_iff {a b : Int} {m n : Nat} (lt : a < b ↔ m < n) (gt : b < a ↔ n < m) :
    compare a b = compare m n := by
  rcases Nat.lt_trichotomy m n with below | same | above
  · rw [Nat.compare_eq_lt.mpr below]
    exact Std.compare_eq_lt.mpr (lt.mpr below)
  · rw [Nat.compare_eq_eq.mpr same]
    have first : ¬ a < b := fun h => Nat.lt_irrefl n (same ▸ lt.mp h)
    have second : ¬ b < a := fun h => Nat.lt_irrefl n (same ▸ gt.mp h)
    exact Std.compare_eq_iff_eq.mpr (by omega)
  · rw [Nat.compare_eq_gt.mpr above]
    exact Std.compare_eq_gt.mpr (gt.mpr above)

/-- Comparing two numbers is comparing their high parts first, and then what is left. -/
theorem compare_div_mod (a b : Nat) {base : Nat} (pos : 0 < base) :
    compare a b = (compare (a / base) (b / base)).then (compare (a % base) (b % base)) := by
  have hA : base * (a / base) + a % base = a := Nat.div_add_mod a base
  have hB : base * (b / base) + b % base = b := Nat.div_add_mod b base
  have restA : a % base < base := Nat.mod_lt a pos
  have restB : b % base < base := Nat.mod_lt b pos
  rcases Nat.lt_trichotomy (a / base) (b / base) with below | same | above
  · have step : base * (a / base) + base ≤ base * (b / base) := by
      rw [← Nat.mul_succ]
      exact Nat.mul_le_mul_left base below
    rw [Nat.compare_eq_lt.mpr below, Nat.compare_eq_lt.mpr (by omega)]
    rfl
  · rw [Nat.compare_eq_eq.mpr same, Ordering.eq_then]
    rw [same] at hA
    rcases Nat.lt_trichotomy (a % base) (b % base) with h | h | h
    · rw [Nat.compare_eq_lt.mpr h, Nat.compare_eq_lt.mpr (by omega)]
    · rw [Nat.compare_eq_eq.mpr h, Nat.compare_eq_eq.mpr (by omega)]
    · rw [Nat.compare_eq_gt.mpr h, Nat.compare_eq_gt.mpr (by omega)]
  · have step : base * (b / base) + base ≤ base * (a / base) := by
      rw [← Nat.mul_succ]
      exact Nat.mul_le_mul_left base above
    rw [Nat.compare_eq_gt.mpr above, Nat.compare_eq_gt.mpr (by omega)]
    rfl

/-- **Numbers in fixed width show their order**, as long as they fit the width. -/
theorem shows_bigEndian {size a b : Nat} (ha : a < 256 ^ size) (hb : b < 256 ^ size) :
    Shows (compare a b) (bigEndian size a) (bigEndian size b) := by
  induction size generalizing a b with
  | zero =>
    have zeroA : a = 0 := by simpa using ha
    have zeroB : b = 0 := by simpa using hb
    subst zeroA zeroB
    exact Shows.refl []
  | succ size ih =>
    have pos : 0 < 256 ^ size := Nat.pow_pos (by decide)
    rw [Nat.pow_succ] at ha hb
    have highA : a / 256 ^ size < 256 := Nat.div_lt_of_lt_mul ha
    have highB : b / 256 ^ size < 256 := Nat.div_lt_of_lt_mul hb
    have head := Shows.byte (UInt8.ofNat (a / 256 ^ size)) (UInt8.ofNat (b / 256 ^ size))
    rw [UInt8.toNat_ofNat_of_lt' highA, UInt8.toNat_ofNat_of_lt' highB] at head
    rw [compare_div_mod a b pos, bigEndian_succ_eq size a, bigEndian_succ_eq size b]
    exact head.append (ih (Nat.mod_lt a pos) (Nat.mod_lt b pos))

theorem shows_word {size : Nat} (a b : BitVec (8 * size)) :
    Shows (compare a.toNat b.toNat) (bigEndian size a.toNat) (bigEndian size b.toNat) := by
  have width : 256 ^ size = 2 ^ (8 * size) := (Nat.pow_mul 2 8 size).symm
  exact shows_bigEndian (width ▸ a.isLt) (width ▸ b.isLt)

/-- Turning over the top bit of a word of `k + 1` bits moves it by half the range. -/
theorem xor_two_pow {n k : Nat} (h : n < 2 ^ (k + 1)) :
    n ^^^ 2 ^ k = if n < 2 ^ k then n + 2 ^ k else n - 2 ^ k := by
  have pos : 0 < 2 ^ k := Nat.two_pow_pos k
  have turned := Nat.div_add_mod (n ^^^ 2 ^ k) (2 ^ k)
  rw [Nat.xor_div_two_pow, Nat.xor_mod_two_pow, Nat.div_self pos, Nat.mod_self, Nat.xor_zero]
    at turned
  have whole := Nat.div_add_mod n (2 ^ k)
  have rest := Nat.mod_lt n pos
  have top : n / 2 ^ k < 2 := Nat.div_lt_of_lt_mul (by rwa [← Nat.pow_succ])
  rcases Nat.le_one_iff_eq_zero_or_eq_one.mp (Nat.le_of_lt_succ top) with zero | one
  · rw [zero] at turned whole
    rw [if_pos (by omega), ← turned, Nat.zero_xor]
    omega
  · rw [one] at turned whole
    rw [if_neg (by omega), ← turned, Nat.xor_self]
    omega

/-- A signed word with its sign bit turned over is its number, moved up by half the range. -/
theorem toNat_flipSign {k : Nat} (word : BitVec (k + 1)) :
    ((flipSign word).toNat : Int) = word.toInt + 2 ^ k := by
  have top : (BitVec.intMin (k + 1)).toNat = 2 ^ k := BitVec.toNat_intMin_of_pos (Nat.succ_pos k)
  have bound := word.isLt
  have half : 2 ^ (k + 1) = 2 ^ k + 2 ^ k := Nat.two_pow_succ k
  have cast : ((2 ^ k : Nat) : Int) = 2 ^ k := by norm_cast
  rw [flipSign, BitVec.toNat_xor, top, xor_two_pow bound, BitVec.toInt_eq_toNat_cond]
  split <;> split <;> omega

theorem compare_signed {w : Nat} (a b : BitVec w) :
    compare a.toInt b.toInt = compare (flipSign a).toNat (flipSign b).toNat := by
  cases w with
  | zero => rw [BitVec.eq_nil a, BitVec.eq_nil b]; rfl
  | succ k =>
    have ha := toNat_flipSign a
    have hb := toNat_flipSign b
    exact compare_eq_of_iff (by omega) (by omega)

/-- The magnitude is what is left of the pattern below its top bit. -/
theorem signMagnitude_eq {k : Nat} (pattern : BitVec (k + 1)) :
    signMagnitude pattern
      = if pattern.msb then -((pattern.toNat % 2 ^ k : Nat) : Int)
        else ((pattern.toNat % 2 ^ k : Nat) : Int) := by
  have width : (pattern.setWidth k).toNat = pattern.toNat % 2 ^ k := BitVec.toNat_setWidth ..
  rw [← width]
  rfl

/-- The word of a floating-point pattern: its number moved up by half the range, and the negative
    numbers one less, since both zeros are above them. -/
theorem toNat_floatWord {k : Nat} (pattern : BitVec (k + 1)) :
    ((floatWord pattern).toNat : Int)
      = signMagnitude pattern + 2 ^ k - if signMagnitude pattern < 0 then 1 else 0 := by
  have top : (BitVec.intMin (k + 1)).toNat = 2 ^ k := BitVec.toNat_intMin_of_pos (Nat.succ_pos k)
  have bound := pattern.isLt
  have half : 2 ^ (k + 1) = 2 ^ k + 2 ^ k := Nat.two_pow_succ k
  have cast : ((2 ^ k : Nat) : Int) = 2 ^ k := by norm_cast
  have rest := Nat.mod_lt pattern.toNat (Nat.two_pow_pos k)
  have sign : pattern.msb = decide (2 ^ k ≤ pattern.toNat) := BitVec.msb_eq_decide pattern
  have zeros : pattern <<< 1 = 0 ↔ pattern.toNat % 2 ^ k = 0 := by
    have double : pattern.toNat * 2 % (2 ^ k * 2) = pattern.toNat % 2 ^ k * 2 :=
      Nat.mul_mod_mul_right 2 pattern.toNat (2 ^ k)
    have nothing : (0 : BitVec (k + 1)).toNat = 0 := BitVec.toNat_zero
    rw [← BitVec.toNat_inj, BitVec.toNat_shiftLeft, Nat.shiftLeft_eq, Nat.pow_one, Nat.pow_succ,
      double, nothing]
    omega
  unfold floatWord
  rw [signMagnitude_eq]
  by_cases zero : pattern.toNat % 2 ^ k = 0
  · rw [if_pos (zeros.mpr zero), zero, top, Int.natCast_zero, Int.neg_zero, ite_self]
    simp
  · rw [if_neg (fun h => zero (zeros.mp h))]
    by_cases negative : 2 ^ k ≤ pattern.toNat
    · have low : pattern.toNat % 2 ^ k = pattern.toNat - 2 ^ k := by
        rw [Nat.mod_eq_sub_mod negative, Nat.mod_eq_of_lt (by omega)]
      rw [if_pos (sign.trans (decide_eq_true negative)),
        if_pos (sign.trans (decide_eq_true negative)), BitVec.toNat_not, if_pos (by omega)]
      omega
    · have low : pattern.toNat % 2 ^ k = pattern.toNat := Nat.mod_eq_of_lt (by omega)
      have clear : pattern.msb ≠ true := by simp [sign, negative]
      have join : pattern.toNat ||| 2 ^ k = 2 ^ k + pattern.toNat := by
        have h := Nat.two_pow_add_eq_or_of_lt (i := k) (b := pattern.toNat) (by omega) 1
        rw [Nat.or_comm, ← Nat.mul_one (2 ^ k), ← h, Nat.mul_one]
      rw [if_neg clear, if_neg clear, BitVec.toNat_or, top, join, if_neg (by omega)]
      omega

theorem compare_float {w : Nat} (a b : BitVec w) :
    compare (signMagnitude a) (signMagnitude b)
      = compare (floatWord a).toNat (floatWord b).toNat := by
  cases w with
  | zero => rw [BitVec.eq_nil a, BitVec.eq_nil b]; rfl
  | succ k =>
    have ha := toNat_floatWord a
    have hb := toNat_floatWord b
    refine compare_eq_of_iff ?_ ?_ <;> split at ha <;> split at hb <;> omega

/-! ## 3. Byte strings -/

theorem pos_of_ne_zero {b : UInt8} (h : b ≠ 0) : 0 < b :=
  UInt8.lt_iff_toNat_lt.mpr (Nat.pos_of_ne_zero fun zero => h (UInt8.toNat_inj.mp zero))

/-- A byte string is written byte by byte, a zero byte with a mark behind it. -/
theorem escape_cons (b : UInt8) (rest : Bytes) :
    escape (b :: rest) = (if b = 0 then [0, 1] else [b]) ++ escape rest := by
  rw [escape]
  split <;> rfl

/-- A byte shows its order, whether or not it takes a mark. -/
theorem shows_escaped_byte (a b : UInt8) :
    Shows (compare a.toNat b.toNat) (if a = 0 then [0, 1] else [a])
      (if b = 0 then [0, 1] else [b]) := by
  by_cases zeroA : a = 0
  · by_cases zeroB : b = 0
    · rw [if_pos zeroA, if_pos zeroB, zeroA, zeroB]
      exact Shows.refl [0, 1]
    · have above := pos_of_ne_zero zeroB
      rw [if_pos zeroA, if_neg zeroB, zeroA, Nat.compare_eq_lt.mpr (UInt8.lt_iff_toNat_lt.mp above)]
      exact Shows.of_heads above [1] []
  · by_cases zeroB : b = 0
    · have above := pos_of_ne_zero zeroA
      rw [if_neg zeroA, if_pos zeroB, zeroB, Nat.compare_eq_gt.mpr (UInt8.lt_iff_toNat_lt.mp above)]
      exact (Shows.of_heads above [1] []).swap
    · rw [if_neg zeroA, if_neg zeroB]
      exact Shows.byte a b

/-- The end of a byte string is below whatever a longer one has in its place. -/
theorem shows_escape_nil (b : UInt8) (rest : Bytes) :
    Shows .lt (escape []) (escape (b :: rest)) := by
  rw [escape_cons]
  by_cases zero : b = 0
  · rw [if_pos zero]
    exact (Shows.of_heads (by decide) [] (escape rest)).cons 0
  · rw [if_neg zero]
    exact Shows.of_heads (pos_of_ne_zero zero) [0] (escape rest)

/-- **Byte strings show their order**, zero bytes and all. -/
theorem shows_escape (a b : Bytes) : Shows (Bytes.order a b) (escape a) (escape b) := by
  induction a generalizing b with
  | nil =>
    cases b with
    | nil => exact Shows.refl (escape [])
    | cons second bs =>
      rw [order_eq_lt_iff.mpr (List.nil_lt_cons second bs)]
      exact shows_escape_nil second bs
  | cons first as ih =>
    cases b with
    | nil =>
      rw [order_eq_gt_iff.mpr (List.nil_lt_cons first as)]
      exact (shows_escape_nil first as).swap
    | cons second bs =>
      rw [order_cons_cons, escape_cons, escape_cons]
      exact (shows_escaped_byte first second).append (ih bs)

/-! ## 4. Every type -/

theorem shows_bool (a b : Bool) :
    Shows (compare a b) [if a then 1 else 0] [if b then 1 else 0] := by
  cases a <;> cases b
  · exact Shows.refl [0]
  · exact Shows.of_heads (by decide) [] []
  · exact (Shows.of_heads (by decide) [] []).swap
  · exact Shows.refl [1]

theorem shows_signed {size : Nat} (a b : BitVec (8 * size)) :
    Shows (compare a.toInt b.toInt) (bigEndian size (flipSign a).toNat)
      (bigEndian size (flipSign b).toNat) := by
  rw [compare_signed]
  exact shows_word (flipSign a) (flipSign b)

theorem shows_float {size : Nat} (a b : BitVec (8 * size)) :
    Shows (compare (signMagnitude a) (signMagnitude b)) (bigEndian size (floatWord a).toNat)
      (bigEndian size (floatWord b).toNat) := by
  rw [compare_float]
  exact shows_word (floatWord a) (floatWord b)

theorem shows_char (a b : Char) :
    Shows (compare a.toNat b.toNat) (bigEndian 4 a.toNat) (bigEndian 4 b.toNat) :=
  shows_bigEndian (UInt32.toNat_lt a.val) (UInt32.toNat_lt b.val)

theorem order_name (a b : Name) : Name.order a b = compare a.packed.toNat b.packed.toNat := by
  unfold Name.order
  rcases Nat.lt_trichotomy a.packed.toNat b.packed.toNat with below | same | above
  · have first : a < b := UInt64.lt_iff_toNat_lt.mpr below
    rw [if_pos first, Nat.compare_eq_lt.mpr below]
  · have both : a = b := congrArg Name.mk (UInt64.toNat_inj.mp same)
    have notBelow : ¬ a < b := fun h => Nat.lt_irrefl _ (same ▸ UInt64.lt_iff_toNat_lt.mp h)
    rw [if_neg notBelow, if_pos both, Nat.compare_eq_eq.mpr same]
  · have notBelow : ¬ a < b := fun h => Nat.lt_asymm above (UInt64.lt_iff_toNat_lt.mp h)
    have distinct : a ≠ b := fun h => Nat.lt_irrefl _ (h ▸ above)
    rw [if_neg notBelow, if_neg distinct, Nat.compare_eq_gt.mpr above]

theorem shows_name (a b : Name) :
    Shows (Name.order a b) (bigEndian 8 a.packed.toNat) (bigEndian 8 b.packed.toNat) := by
  rw [order_name]
  exact shows_bigEndian (UInt64.toNat_lt a.packed) (UInt64.toNat_lt b.packed)

namespace KeyType

/-- What is shown of a type: all its values show their order. -/
def Sorts (type : KeyType) : Prop :=
  ∀ a b : type.Value, Shows (type.order a b) (type.key a).encode (type.key b).encode

theorem sorts_option {content : KeyType} (h : content.Sorts) : (option content).Sorts := by
  intro a b
  cases a with
  | none =>
    cases b with
    | none => exact Shows.refl [0]
    | some b => exact Shows.of_heads (by decide) [] (content.key b).encode
  | some a =>
    cases b with
    | none => exact (Shows.of_heads (by decide) [] (content.key a).encode).swap
    | some b => exact (h a b).cons 1

/-- The element marker makes a list that goes on larger than one that ends. -/
theorem sorts_list {element : KeyType} (h : element.Sorts) : (list element).Sorts := by
  intro a
  induction a with
  | nil =>
    intro b
    cases b with
    | nil => exact Shows.refl [0]
    | cons second bs => exact Shows.of_heads (by decide) [] _
  | cons first as ih =>
    intro b
    cases b with
    | nil => exact (Shows.of_heads (by decide) [] _).swap
    | cons second bs =>
      show Shows (List.compareLex _ (_ :: _) (_ :: _)) _ _
      rw [List.compareLex_cons_cons]
      exact ((h first second).append (ih bs)).cons 1

mutual

/-- **Every type of keys shows its order**, by induction over the type: what a tuple needs of its
    parts, whatever follows them, is what the induction gives. -/
theorem sorts : (type : KeyType) → type.Sorts
  | .bool => shows_bool
  | .unsigned _ => shows_word
  | .signed _ => shows_signed
  | .float _ => shows_float
  | .char => shows_char
  | .text => fun a b => shows_escape (Utf8.encode a) (Utf8.encode b)
  | .bytes => shows_escape
  | .name => shows_name
  | .unit => fun _ _ => Shows.refl []
  | .option content => sorts_option (sorts content)
  | .boxed content => sorts content
  | .list element => sorts_list (sorts element)
  | .tuple parts => sorts_parts parts

theorem sorts_parts : (parts : List KeyType) → ∀ a b : Values parts,
    Shows (orderParts parts a b) (encodeParts (keys parts a)) (encodeParts (keys parts b))
  | [] => fun _ _ => Shows.refl []
  | part :: rest => fun a b => (sorts part a.1 b.1).append (sorts_parts rest a.2 b.2)

end

/-! ## 5. The result -/

/-- Bytes compare as the values do. -/
theorem order_encode (type : KeyType) (a b : type.Value) :
    Bytes.order (type.key a).encode (type.key b).encode = type.order a b := by
  have shown := sorts type a b
  cases h : type.order a b with
  | lt =>
    rw [h] at shown
    exact order_eq_lt_iff.mpr (by simpa using shown [] [])
  | eq =>
    rw [h] at shown
    exact order_eq_eq_iff.mpr shown
  | gt =>
    rw [h] at shown
    exact order_eq_gt_iff.mpr (by simpa using shown [] [])

/-- Where two encodings, with anything behind them, are the same bytes, the values are equal: the
    end of an encoding shows in its own bytes. -/
theorem order_eq_of_append_eq (type : KeyType) {a b : type.Value} {x y : Bytes}
    (same : (type.key a).encode ++ x = (type.key b).encode ++ y) : type.order a b = .eq := by
  have shown := sorts type a b
  cases h : type.order a b with
  | eq => rfl
  | lt =>
    rw [h] at shown
    exact absurd (same ▸ shown x y) Std.lt_irrefl
  | gt =>
    rw [h] at shown
    exact absurd (same ▸ shown x y) Std.lt_irrefl

/-- An encoding with anything behind it is below that of a value exactly if its own value is. -/
theorem append_lt_encode_iff (type : KeyType) (a b : type.Value) (x : Bytes) :
    (type.key a).encode ++ x < (type.key b).encode ↔ type.order a b = .lt := by
  have shown := sorts type a b
  cases h : type.order a b with
  | lt =>
    rw [h] at shown
    exact ⟨fun _ => rfl, fun _ => by simpa using shown x []⟩
  | eq =>
    rw [h] at shown
    have bytes : (type.key a).encode = (type.key b).encode := shown
    rw [bytes]
    refine ⟨fun below => absurd below ?_, nofun⟩
    exact not_lt_stem (startsWith_iff.mpr (List.prefix_append _ x))
  | gt =>
    rw [h] at shown
    have above : (type.key b).encode < (type.key a).encode ++ x := by simpa using shown x []
    exact ⟨fun below => absurd (Std.lt_trans below above) Std.lt_irrefl, nofun⟩

/-- **Encoded keys sort as their values, whatever bytes follow.** Of two values of one type the
    smaller one has the smaller bytes, and equal values have equal bytes. So bytes compare as values
    do, and encodings delimit themselves: only equal values can be read off one byte sequence, and
    what follows them is then the same. -/
theorem encode_keeps_order (type : KeyType) (a b : type.Value) :
    (type.order a b = .lt → ∀ x y, (type.key a).encode ++ x < (type.key b).encode ++ y) ∧
    (type.order a b = .eq → (type.key a).encode = (type.key b).encode) ∧
    Bytes.order (type.key a).encode (type.key b).encode = type.order a b ∧
    (∀ x y, (type.key a).encode ++ x = (type.key b).encode ++ y →
      type.order a b = .eq ∧ x = y) := by
  have shown := sorts type a b
  refine ⟨fun below => ?_, fun equal => ?_, order_encode type a b, fun x y same => ?_⟩
  · rw [below] at shown
    exact shown
  · rw [equal] at shown
    exact shown
  · have equal := order_eq_of_append_eq type same
    rw [equal] at shown
    have bytes : (type.key a).encode = (type.key b).encode := shown
    rw [bytes] at same
    exact ⟨equal, List.append_cancel_left same⟩

end KeyType

end IndexedStore
