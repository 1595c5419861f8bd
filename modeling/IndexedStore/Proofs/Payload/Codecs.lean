import IndexedStore.Payload.Codec
import IndexedStore.Proofs.NameTexts
import IndexedStore.Proofs.OrderedMap
import IndexedStore.Proofs.Payload.Varints
import IndexedStore.Proofs.Utf8
/-!
# The laws of codecs

A codec is lawful if it reads a value back from what it writes for it, whatever follows, if it counts
the bytes that it writes, and if its reader looks no further than it reads. Every way of building
codecs keeps the laws, so a record's codec has them because the codecs of its fields have them.

Counts of bytes and elements are written as numbers of 64 bits. A text or a list in memory has no more
parts than that, but texts and lists as such have no bound; so each law is about the values that
`fits`, those whose counts can be written.

* `Codec.Lawful` holds the laws;
* `Codec.Lawful.pair`, `Codec.Lawful.convert`, `Codec.Lawful.list`, `Codec.Lawful.option` and
  `Codec.Lawful.map` build, the other lemmas are about single types.
-/

namespace IndexedStore.Payload.Codec

open IndexedStore.Payload.Reader

variable {α β : Type}

/-- The laws of a codec, for the values that `fits`. -/
structure Lawful (codec : Codec α) (fits : α → Prop) : Prop where
  reads : ∀ value, fits value → ∀ rest, codec.read (codec.write value ++ rest) = .ok (value, rest)
  sized : ∀ value, (codec.write value).length = codec.size value
  sequential : Sequential codec.read

/-- What fits for types that have no value too large. -/
def Unbounded (_ : α) : Prop :=
  True

namespace Lawful

variable {codec : Codec α} {fits : α → Prop}

theorem weaken {fits' : α → Prop} (lawful : Lawful codec fits)
    (implies : ∀ value, fits' value → fits value) : Lawful codec fits' where
  reads value fit rest := lawful.reads value (implies value fit) rest
  sized := lawful.sized
  sequential := lawful.sequential

/-! ## 1. Shape -/

theorem convert (lawful : Lawful codec fits) {there : α → β} {back : β → α}
    (inverse : ∀ value, there (back value) = value) :
    Lawful (codec.convert there back) fun value => fits (back value) where
  reads value fit rest := by
    show (there <$> codec.read) (codec.write (back value) ++ rest) = _
    rw [map_of_ok there (lawful.reads (back value) fit rest), inverse]
  sized value := lawful.sized (back value)
  sequential := lawful.sequential.map there

theorem pair {other : Codec β} {fits' : β → Prop} (first : Lawful codec fits)
    (second : Lawful other fits') :
    Lawful (codec.pair other) fun value => fits value.1 ∧ fits' value.2 where
  reads value fit rest := by
    show (codec.read >>= fun a => other.read >>= fun b => pure (a, b))
      (codec.write value.1 ++ other.write value.2 ++ rest) = _
    rw [List.append_assoc, bind_of_ok (first.reads value.1 fit.1 _),
      bind_of_ok (second.reads value.2 fit.2 _)]
    rfl
  sized value := by
    show (codec.write value.1 ++ other.write value.2).length = _
    rw [List.length_append, first.sized, second.sized]
    rfl
  sequential := first.sequential.bind fun a => second.sequential.bind fun b => .pure (a, b)

end Lawful

/-! ## 2. Numbers -/

theorem lawful_byte : Lawful byte Unbounded where
  reads _ _ _ := rfl
  sized _ := rfl
  sequential := .takeByte

theorem lawful_signedByte : Lawful signedByte Unbounded :=
  lawful_byte.convert Int8.toInt8_toUInt8

/-- A word of at most 128 bits as a number. -/
theorem toNat_lt_bound {bits : Nat} (few : bits ≤ 128) {n : Nat} (word : n < 2 ^ bits) :
    n < Varint.bound (64 < bits) := by
  unfold Varint.bound
  split
  · exact Nat.lt_of_lt_of_le word (Nat.pow_le_pow_right (by decide) few)
  · rename_i narrow
    refine Nat.lt_of_lt_of_le word (Nat.pow_le_pow_right (by decide) (Nat.le_of_not_lt fun wide => ?_))
    exact narrow (decide_eq_true wide)

theorem lawful_unsigned {bits : Nat} (few : bits ≤ 128) : Lawful (unsigned bits) Unbounded where
  reads value _ rest := by
    unfold unsigned
    dsimp only
    rw [bind_of_ok (Varint.read_write (toNat_lt_bound few value.isLt) rest)]
    simp only [BitVec.ofNat_toNat, BitVec.setWidth_eq, if_true]
    rfl
  sized value := Varint.length_write _
  sequential := by
    refine (Varint.sequential_read _).bind fun n => ?_
    dsimp only
    split
    · exact .pure _
    · exact .throw _

theorem fold_toInt_lt {bits : Nat} (word : BitVec bits) : Varint.fold word.toInt < 2 ^ bits := by
  have below : 2 * word.toInt < 2 ^ bits := BitVec.two_mul_toInt_lt
  have above : -2 ^ bits ≤ 2 * word.toInt := BitVec.le_two_mul_toInt
  have power : ((2 ^ bits : Nat) : Int) = 2 ^ bits := by norm_cast
  rw [← power] at below above
  generalize 2 ^ bits = limit at below above ⊢
  cases sign : word.toInt with
  | ofNat n =>
    rw [sign] at below
    change 2 * (n : Int) < limit at below
    show 2 * n < limit
    omega
  | negSucc n =>
    rw [sign] at above
    show 2 * n + 1 < limit
    omega

theorem lawful_signed {bits : Nat} (few : bits ≤ 128) : Lawful (signed bits) Unbounded where
  reads value _ rest := by
    unfold signed
    dsimp only
    rw [bind_of_ok (Varint.read_write (toNat_lt_bound few (fold_toInt_lt value)) rest)]
    simp only [Varint.unfold_fold, BitVec.ofInt_toInt, if_true]
    rfl
  sized value := Varint.length_write _
  sequential := by
    refine (Varint.sequential_read _).bind fun n => ?_
    dsimp only
    split
    · exact .pure _
    · exact .throw _

theorem lawful_uint16 : Lawful uint16 Unbounded :=
  (lawful_unsigned (by decide)).convert UInt16.ofBitVec_toBitVec

theorem lawful_uint32 : Lawful uint32 Unbounded :=
  (lawful_unsigned (by decide)).convert UInt32.ofBitVec_toBitVec

theorem lawful_uint64 : Lawful uint64 Unbounded :=
  (lawful_unsigned (by decide)).convert UInt64.ofBitVec_toBitVec

theorem lawful_int16 : Lawful int16 Unbounded :=
  (lawful_signed (by decide)).convert Int16.ofBitVec_toBitVec

theorem lawful_int32 : Lawful int32 Unbounded :=
  (lawful_signed (by decide)).convert Int32.ofBitVec_toBitVec

theorem lawful_int64 : Lawful int64 Unbounded :=
  (lawful_signed (by decide)).convert Int64.ofBitVec_toBitVec

theorem lawful_count : Lawful count (· < UInt64.size) where
  reads _ fit rest := Varint.read_write fit rest
  sized := Varint.length_write
  sequential := Varint.sequential_read false

theorem lawful_bits (size : Nat) : Lawful (bits size) Unbounded where
  reads value _ rest := by
    have fits : value.toNat < 256 ^ size := by
      have := value.isLt
      rwa [Nat.pow_mul] at this
    unfold bits
    dsimp only
    rw [bind_of_ok (take_append (Bytes.length_littleEndian size _) rest),
      Bytes.ofLittleEndian_littleEndian, Nat.mod_eq_of_lt fits, BitVec.ofNat_toNat,
      BitVec.setWidth_eq]
    rfl
  sized _ := Bytes.length_littleEndian ..
  sequential := (Sequential.take _ _).bind fun _ => .pure _

theorem lawful_bool : Lawful bool Unbounded where
  reads value _ _ := by cases value <;> rfl
  sized _ := rfl
  sequential := by
    refine Sequential.takeByte.bind fun byte => ?_
    split
    · exact .pure _
    · exact .pure _
    · exact .throw _

/-! ## 3. Texts -/

theorem read_char_cons (lead : UInt8) (bytes : Bytes) :
    char.read (lead :: bytes) = (Utf8.readChar lead bytes).mapError fun _ => .badChar := by
  have taken : takeByte (lead :: bytes) = .ok (lead, bytes) := rfl
  have left : (get : Reader Bytes) bytes = .ok (bytes, bytes) := rfl
  unfold char
  dsimp only
  rw [bind_of_ok taken, bind_of_ok left]
  cases Utf8.readChar lead bytes <;> rfl

theorem lawful_char : Lawful char Unbounded where
  reads c _ rest := by
    obtain ⟨lead, tail, form, read⟩ := Utf8.readChar_encode c
    show char.read (String.utf8EncodeChar c ++ rest) = _
    rw [form, List.cons_append, read_char_cons, read rest]
    rfl
  sized c := String.length_utf8EncodeChar c
  sequential := by
    intro bytes c rest done
    cases bytes with
    | nil => cases done
    | cons lead bytes =>
      rw [read_char_cons] at done
      cases read : Utf8.readChar lead bytes with
      | error defect => rw [read] at done; cases done
      | ok found =>
        rw [read] at done
        cases done
        obtain ⟨front, rfl, again⟩ := Utf8.readChar_front read
        refine ⟨lead :: front, rfl, fun more => ?_⟩
        rw [List.cons_append, read_char_cons, again more]
        rfl

/-- Texts whose bytes can be counted. -/
def FitsText (text : String) : Prop :=
  (Utf8.encode text).length < UInt64.size

instance (text : String) : Decidable (FitsText text) :=
  inferInstanceAs (Decidable ((Utf8.encode text).length < UInt64.size))

theorem lawful_text : Lawful text FitsText where
  reads value fit rest := by
    unfold text
    dsimp only
    rw [List.append_assoc, bind_of_ok (lawful_count.reads _ fit _),
      bind_of_ok (take_append rfl rest), Utf8.decode_encode]
    rfl
  sized value := by
    show (count.write _ ++ _).length = _
    rw [List.length_append, lawful_count.sized]
    rfl
  sequential := by
    refine lawful_count.sequential.bind fun length => (Sequential.take _ _).bind fun bytes => ?_
    split
    · exact .throw _
    · exact .pure _

theorem fitsText_name (name : Name) : FitsText name.text :=
  Nat.lt_of_le_of_lt name.length_text (by decide)

theorem lawful_name : Lawful name Unbounded where
  reads value _ rest := by
    unfold name
    dsimp only
    rw [bind_of_ok (lawful_text.reads _ (fitsText_name value) rest), Name.parse_text]
    rfl
  sized value := lawful_text.sized _
  sequential := by
    refine lawful_text.sequential.bind fun text => ?_
    split
    · exact .throw _
    · exact .pure _

/-! ## 4. Containers -/

section Containers

variable {codec : Codec α} {fits : α → Prop}

/-- Optional values that fit. -/
def FitsOption (fits : α → Prop) : Option α → Prop
  | none => True
  | some value => fits value

theorem Lawful.option (lawful : Lawful codec fits) : Lawful codec.option (FitsOption fits) where
  reads value fit rest := by
    cases value with
    | none => rfl
    | some value =>
      show (codec.read >>= fun value => pure (some value)) (codec.write value ++ rest) = _
      rw [bind_of_ok (lawful.reads value fit rest)]
      rfl
  sized value := by
    cases value with
    | none => rfl
    | some value =>
      show (codec.write value).length + 1 = 1 + codec.size value
      rw [lawful.sized, Nat.add_comm]
  sequential := by
    refine Sequential.takeByte.bind fun byte => ?_
    split
    · exact .pure _
    · exact lawful.sequential.bind fun value => .pure _
    · exact .throw _

/-- Lists whose elements fit and can be counted. -/
structure FitsList (fits : α → Prop) (values : List α) : Prop where
  countable : values.length < UInt64.size
  each : ∀ value ∈ values, fits value

theorem Lawful.list (lawful : Lawful codec fits) : Lawful codec.list (FitsList fits) where
  reads values fit rest := by
    unfold Codec.list
    dsimp only
    rw [List.append_assoc, bind_of_ok (lawful_count.reads _ fit.countable _)]
    exact readMany_write (fun value mem => lawful.reads value (fit.each value mem)) rest
  sized values := by
    show (count.write values.length ++ values.flatMap codec.write).length = _
    rw [List.length_append, lawful_count.sized, List.length_flatMap]
    simp only [lawful.sized]
    rfl
  sequential := lawful_count.sequential.bind fun length => lawful.sequential.readMany length

theorem Lawful.map [LT α] [DecidableLT α] [LE α] [Std.IsLinearOrder α] [Std.LawfulOrderLT α]
    {key : Codec α} {value : Codec β} {fitsKey : α → Prop} {fitsValue : β → Prop}
    (keys : Lawful key fitsKey) (values : Lawful value fitsValue) :
    Lawful (key.map value) fun map =>
      FitsList (fun entry => fitsKey entry.1 ∧ fitsValue entry.2) map.entries :=
  (keys.pair values).list.convert OrdMap.ofList_entries

end Containers

/-! ## 5. Alternatives -/

/-- A number of 32 bits is read off exactly its forms. -/
theorem read_uint32_eq_ok {n : UInt32} {bytes rest : Bytes} :
    uint32.read bytes = .ok (n, rest)
      ↔ ∃ form, Varint.Spells false form n.toNat ∧ bytes = form ++ rest := by
  show (UInt32.ofBitVec <$> (unsigned 32).read) bytes = _ ↔ _
  rw [map_eq_ok]
  constructor
  · rintro ⟨word, read, rfl⟩
    obtain ⟨spelled, mid, readNumber, done⟩ := bind_eq_ok.mp read
    split at done
    · rename_i same
      cases done
      obtain ⟨form, spells, rfl⟩ := Varint.read_eq_ok.mp readNumber
      exact ⟨form, by rw [← same] at spells; exact spells, rfl⟩
    · cases done
  · rintro ⟨form, spells, rfl⟩
    refine ⟨n.toBitVec, ?_, rfl⟩
    show (Varint.read false >>= _) _ = _
    rw [bind_of_ok (Varint.read_eq_ok.mpr ⟨form, spells, rfl⟩)]
    have same : (BitVec.ofNat 32 n.toNat).toNat = n.toNat := by simp
    rw [if_pos same]
    have word : BitVec.ofNat 32 n.toNat = n.toBitVec := by simp
    rw [word]
    rfl

theorem writeVariant_append (index : UInt32) (content rest : Bytes) :
    writeVariant index content ++ rest = writeVariant index (content ++ rest) :=
  List.append_assoc ..

theorem readVariant_write {alternatives : Nat} {index : UInt32} (known : index.toNat < alternatives)
    (content : Bytes) :
    readVariant alternatives (writeVariant index content) = .ok (index.toNat, content) := by
  unfold readVariant writeVariant
  rw [bind_of_ok (lawful_uint32.reads index trivial content)]
  simp only [if_pos known]
  rfl

theorem length_writeVariant (index : UInt32) (content : Bytes) :
    (writeVariant index content).length = variantSize index content.length := by
  unfold writeVariant variantSize
  rw [List.length_append, lawful_uint32.sized]

/-- The number of an alternative takes a byte at least, to write it -/
theorem length_lt_writeVariant (index : UInt32) (content : Bytes) :
    content.length < (writeVariant index content).length := by
  have small : 32 ≤ 128 := by decide
  have taken : 0 < (uint32.write index).length :=
    (Varint.spells_write (toNat_lt_bound small index.toNat_lt)).length_pos
  unfold writeVariant
  rw [List.length_append]
  omega

/-- and to read it. -/
theorem length_lt_of_readVariant {alternatives index : Nat} {bytes rest : Bytes}
    (read : readVariant alternatives bytes = .ok (index, rest)) : rest.length < bytes.length := by
  obtain ⟨found, mid, readIndex, done⟩ := bind_eq_ok.mp read
  split at done
  · cases done
    obtain ⟨form, spells, rfl⟩ := read_uint32_eq_ok.mp readIndex
    have taken := spells.length_pos
    rw [List.length_append]
    omega
  · cases done

theorem sequential_readVariant (alternatives : Nat) : Sequential (readVariant alternatives) := by
  refine lawful_uint32.sequential.bind fun index => ?_
  dsimp only
  split
  · exact .pure _
  · exact .throw _

end IndexedStore.Payload.Codec
