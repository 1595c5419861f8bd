import IndexedStore.Proofs.NameSpellings
import IndexedStore.Proofs.Payload.Records
import Mathlib.Algebra.GroupWithZero.Nat
import Mathlib.Algebra.Order.BigOperators.Group.List
import Mathlib.Algebra.Order.Group.Nat
/-!
# Nothing is written longer than it was read

Payloads can be longer than they need be: a number can be spelled in a wide form, a name with dots at
its end, a map with entries that later ones replace. Reading takes them all, and what is written again
is never longer. This is shown reader by reader: what a reader reads, and the count of bytes that it
reads it off, are related, and relations of the parts of a record add up to one of the record.

* `Reader.Takes` relates the two, with a lemma for each way of composing readers;
* `Codec.Thrifty` is the relation wanted: what is read takes no more bytes than it was read off, and
  fits what can be written. Sections 2 to 5 give it to the codecs of numbers, texts, containers and
  trees;
* **`RecordKind.size_le_of_unpack`** says it of the payloads of every kind.
-/

namespace IndexedStore

open Payload Payload.Reader Payload.Codec

/-! ## 1. What readers take -/

namespace Payload.Reader

variable {α β : Type}

/-- Every value that is read is related to the count of bytes that it is read off. -/
def Takes (reader : Reader α) (related : α → Nat → Prop) : Prop :=
  ∀ ⦃bytes value rest⦄, reader bytes = .ok (value, rest) →
    ∃ taken, bytes.length = taken + rest.length ∧ related value taken

namespace Takes

variable {reader : Reader α} {related : α → Nat → Prop}

theorem mono {weaker : α → Nat → Prop} (takes : Takes reader related)
    (implies : ∀ value taken, related value taken → weaker value taken) : Takes reader weaker := by
  intro bytes value rest read
  obtain ⟨taken, length, holds⟩ := takes read
  exact ⟨taken, length, implies value taken holds⟩

theorem pure {value : α} (holds : related value 0) : Takes (pure value) related := by
  intro bytes found rest read
  cases read
  exact ⟨0, (Nat.zero_add _).symm, holds⟩

theorem throw (fault : Fault) : Takes (throw fault : Reader α) related := by
  intro bytes found rest read
  cases read

/-- What two steps take adds up. -/
theorem bind {next : α → Reader β} {result : β → Nat → Prop} (first : Takes reader related)
    (second : ∀ value taken, related value taken →
      Takes (next value) fun found more => result found (taken + more)) :
    Takes (reader >>= next) result := by
  intro bytes found rest read
  obtain ⟨value, mid, readFirst, readSecond⟩ := bind_eq_ok.mp read
  obtain ⟨taken, length, holds⟩ := first readFirst
  obtain ⟨more, lengthMid, holds⟩ := second value taken holds readSecond
  exact ⟨taken + more, by omega, holds⟩

theorem map {there : α → β} {result : β → Nat → Prop}
    (takes : Takes reader fun value taken => result (there value) taken) :
    Takes (there <$> reader) result := by
  rw [map_eq_bind]
  exact takes.bind fun value taken holds => .pure holds

theorem takeByte : Takes takeByte fun _ taken => taken = 1 := by
  intro bytes found rest read
  cases bytes with
  | nil => cases read
  | cons byte bytes =>
    cases read
    exact ⟨1, Nat.add_comm .., rfl⟩

theorem take (count : Nat) (short : Fault) :
    Takes (take count short) fun front taken => front.length = count ∧ taken = count := by
  intro bytes front rest read
  obtain ⟨rfl, length⟩ := take_eq_ok.mp read
  exact ⟨count, by rw [List.length_append, length], length, rfl⟩

/-- Repetition takes at least what its values weigh together. -/
theorem readMany {weight : α → Nat} {fits : α → Prop}
    (takes : Takes reader fun value taken => fits value ∧ weight value ≤ taken) (count : Nat) :
    Takes (readMany reader count) fun values taken =>
      values.length = count ∧ (∀ value ∈ values, fits value) ∧ (values.map weight).sum ≤ taken := by
  induction count with
  | zero => exact .pure ⟨rfl, nofun, Nat.le_refl 0⟩
  | succ count ih =>
    refine takes.bind fun value taken first => ih.bind fun values more others => .pure ?_
    refine ⟨?_, List.forall_mem_cons.mpr ⟨first.1, others.2.1⟩, ?_⟩
    · rw [List.length_cons, others.1]
    · rw [List.map_cons, List.sum_cons]
      exact Nat.add_le_add first.2 others.2.2

end Takes

end Payload.Reader

namespace Payload.Codec

variable {α β : Type}

/-- What is read fits, and takes no more bytes than it was read off. -/
def Thrifty (codec : Codec α) (fits : α → Prop) : Prop :=
  Takes codec.read fun value taken => fits value ∧ codec.size value ≤ taken

namespace Thrifty

variable {codec : Codec α} {fits : α → Prop}

theorem weaken {fits' : α → Prop} (thrifty : Thrifty codec fits)
    (implies : ∀ value, fits value → fits' value) : Thrifty codec fits' :=
  thrifty.mono fun value _ holds => ⟨implies value holds.1, holds.2⟩

theorem convert (thrifty : Thrifty codec fits) {there : α → β} {back : β → α}
    (inverse : ∀ value, back (there value) = value) :
    Thrifty (codec.convert there back) fun value => fits (back value) := by
  refine Takes.map (thrifty.mono fun value taken holds => ?_)
  show fits (back (there value)) ∧ codec.size (back (there value)) ≤ taken
  rwa [inverse]

theorem pair {other : Codec β} {fits' : β → Prop} (first : Thrifty codec fits)
    (second : Thrifty other fits') :
    Thrifty (codec.pair other) fun value => fits value.1 ∧ fits' value.2 :=
  first.bind fun _ _ holds => second.bind fun _ _ holds' =>
    .pure ⟨⟨holds.1, holds'.1⟩, Nat.add_le_add holds.2 holds'.2⟩

end Thrifty

/-! ## 2. Numbers -/

/-- No form of a number is shorter than the one that is written. -/
theorem takes_varint (wide : Bool) :
    Takes (Varint.read wide) fun n taken =>
      (wide = false → n < UInt64.size) ∧ Varint.size n ≤ taken := by
  intro bytes n rest read
  obtain ⟨form, spells, rfl⟩ := Varint.read_eq_ok.mp read
  refine ⟨form.length, List.length_append, fun narrow => ?_, spells.size_le⟩
  subst narrow
  exact spells.lt

theorem thrifty_byte : Thrifty byte Unbounded :=
  Takes.takeByte.mono fun _ _ one => ⟨trivial, Nat.le_of_eq one.symm⟩

theorem thrifty_signedByte : Thrifty signedByte Unbounded :=
  thrifty_byte.convert UInt8.toUInt8_toInt8

theorem thrifty_unsigned (bits : Nat) : Thrifty (unsigned bits) Unbounded := by
  refine (takes_varint _).bind fun n taken holds => ?_
  dsimp only
  split
  · rename_i same
    refine .pure ⟨trivial, ?_⟩
    show Varint.size (BitVec.ofNat bits n).toNat ≤ taken
    rw [same]
    exact holds.2
  · exact .throw _

theorem thrifty_signed (bits : Nat) : Thrifty (signed bits) Unbounded := by
  refine (takes_varint _).bind fun n taken holds => ?_
  dsimp only
  split
  · rename_i same
    refine .pure ⟨trivial, ?_⟩
    show Varint.size (Varint.fold (BitVec.ofInt bits (Varint.unfold n)).toInt) ≤ taken
    rw [same, Varint.fold_unfold]
    exact holds.2
  · exact .throw _

theorem thrifty_uint16 : Thrifty uint16 Unbounded :=
  (thrifty_unsigned 16).convert fun _ => rfl

theorem thrifty_uint32 : Thrifty uint32 Unbounded :=
  (thrifty_unsigned 32).convert fun _ => rfl

theorem thrifty_uint64 : Thrifty uint64 Unbounded :=
  (thrifty_unsigned 64).convert fun _ => rfl

theorem thrifty_int16 : Thrifty int16 Unbounded :=
  (thrifty_signed 16).convert fun _ => rfl

theorem thrifty_int32 : Thrifty int32 Unbounded :=
  (thrifty_signed 32).convert fun _ => rfl

theorem thrifty_int64 : Thrifty int64 Unbounded :=
  (thrifty_signed 64).convert fun _ => rfl

theorem thrifty_count : Thrifty count (· < UInt64.size) :=
  (takes_varint false).mono fun _ _ holds => ⟨holds.1 rfl, holds.2⟩

theorem thrifty_bits (size : Nat) : Thrifty (bits size) Unbounded :=
  (Takes.take size .endOfInput).bind fun _ _ holds =>
    .pure ⟨trivial, Nat.le_of_eq holds.2.symm⟩

theorem thrifty_bool : Thrifty bool Unbounded := by
  refine Takes.takeByte.bind fun byte taken one => ?_
  split
  · exact .pure ⟨trivial, Nat.le_of_eq one.symm⟩
  · exact .pure ⟨trivial, Nat.le_of_eq one.symm⟩
  · exact .throw _

/-! ## 3. Texts -/

theorem thrifty_char : Thrifty char Unbounded := by
  intro bytes c rest done
  cases bytes with
  | nil => cases done
  | cons lead bytes =>
    rw [read_char_cons] at done
    cases read : Utf8.readChar lead bytes with
    | error defect => rw [read] at done; cases done
    | ok found =>
      rw [read] at done
      cases done
      have size := Utf8.utf8Size_le_of_readChar read
      have length : bytes.length + 1 - rest.length + rest.length = bytes.length + 1 := by omega
      exact ⟨bytes.length + 1 - rest.length, length.symm, trivial, Nat.le_sub_of_add_le size⟩

theorem thrifty_text : Thrifty text FitsText := by
  refine thrifty_count.bind fun length taken counted =>
    (Takes.take length .textCutShort).bind fun bytes more front => ?_
  split
  · exact .throw _
  · rename_i value read
    have short : (Utf8.encode value).length ≤ length := front.1 ▸ Utf8.length_encode_le read
    refine .pure ⟨Nat.lt_of_le_of_lt short counted.1, ?_⟩
    calc Varint.size (Utf8.encode value).length + (Utf8.encode value).length
        ≤ Varint.size length + length := Nat.add_le_add (Varint.size_mono short) short
      _ ≤ taken + (more + 0) := Nat.add_le_add counted.2 (Nat.le_of_eq front.2.symm)

theorem textSize_mono {shorter longer : String}
    (short : (Utf8.encode shorter).length ≤ (Utf8.encode longer).length) :
    text.size shorter ≤ text.size longer :=
  Nat.add_le_add (Varint.size_mono short) short

/-- A name is written as its text, which has no dots at its end. -/
theorem thrifty_name : Thrifty name Unbounded := by
  refine thrifty_text.bind fun text taken holds => ?_
  split
  · exact .throw _
  · rename_i value packed
    exact .pure ⟨trivial, Nat.le_trans (textSize_mono (Name.length_encode_text_le packed)) holds.2⟩

/-! ## 4. Containers and alternatives -/

namespace Thrifty

variable {codec : Codec α} {fits : α → Prop}

theorem option (thrifty : Thrifty codec fits) : Thrifty codec.option (FitsOption fits) := by
  refine Takes.takeByte.bind fun mark taken one => ?_
  split
  · exact .pure ⟨trivial, Nat.le_of_eq one.symm⟩
  · exact thrifty.bind fun value more holds =>
      .pure ⟨holds.1, Nat.add_le_add (Nat.le_of_eq one.symm) holds.2⟩
  · exact .throw _

theorem list (thrifty : Thrifty codec fits) : Thrifty codec.list (FitsList fits) := by
  refine thrifty_count.bind fun count taken counted =>
    (Takes.readMany thrifty count).mono fun values more holds => ?_
  obtain ⟨rfl, each, weight⟩ := holds
  exact ⟨⟨counted.1, each⟩, Nat.add_le_add counted.2 weight⟩

/-- A map has no entries but those of the list that it is read off. -/
theorem map [LT α] [DecidableLT α] [LE α] [Std.IsLinearOrder α] [Std.LawfulOrderLT α]
    {key : Codec α} {value : Codec β} {fitsKey : α → Prop} {fitsValue : β → Prop}
    (keys : Thrifty key fitsKey) (values : Thrifty value fitsValue) :
    Thrifty (key.map value) fun map =>
      FitsList (fun entry => fitsKey entry.1 ∧ fitsValue entry.2) map.entries := by
  refine Takes.map ((keys.pair values).list.mono fun pairs taken holds => ?_)
  have among := OrdMap.entries_ofList_subperm pairs
  have few := among.length_le
  obtain ⟨chosen, permuted, sublist⟩ := among
  have weight : ((OrdMap.ofList pairs).entries.map (key.pair value).size).sum
      ≤ (pairs.map (key.pair value).size).sum := by
    rw [← (permuted.map _).sum_eq]
    exact (sublist.map _).sum_le_sum fun _ _ => Nat.zero_le _
  refine ⟨⟨Nat.lt_of_le_of_lt few holds.1.countable, fun entry mem => ?_⟩,
    Nat.le_trans (Nat.add_le_add (Varint.size_mono few) weight) holds.2⟩
  exact holds.1.each entry (sublist.subset (permuted.symm.subset mem))

end Thrifty

/-- The number of an alternative takes no more bytes than it was read off. -/
theorem takes_variant (alternatives : Nat) :
    Takes (readVariant alternatives) fun index taken =>
      index < alternatives ∧ ∀ number : UInt32, number.toNat = index → uint32.size number ≤ taken := by
  refine thrifty_uint32.bind fun found taken holds => ?_
  dsimp only
  split
  · rename_i known
    refine .pure ⟨known, fun number same => ?_⟩
    rw [UInt32.toNat_inj.mp same]
    exact holds.2
  · exact .throw _

end Payload.Codec

/-! ## 5. Records -/

theorem Person.thrifty : Thrifty Person.codec Person.Countable :=
  ((thrifty_uint64.pair (thrifty_text.pair thrifty_uint32)).convert fun _ => rfl).weaken
    fun _ holds => holds.2.1

theorem PersonWithEmail.thrifty : Thrifty PersonWithEmail.codec PersonWithEmail.Countable :=
  ((thrifty_uint64.pair (thrifty_text.pair (thrifty_uint32.pair thrifty_text.option))).convert
    fun _ => rfl).weaken fun _ holds => ⟨holds.2.1, holds.2.2.2⟩

theorem AnyPerson.thrifty : Thrifty AnyPerson.codec AnyPerson.Countable := by
  refine (takes_variant 2).bind fun index taken number => ?_
  split
  · exact Person.thrifty.bind fun person more holds =>
      .pure ⟨holds.1, Nat.add_le_add (number.2 0 rfl) holds.2⟩
  · rename_i other
    have second : index = 1 :=
      Nat.le_antisymm (Nat.le_of_lt_succ number.1) (Nat.pos_of_ne_zero other)
    exact PersonWithEmail.thrifty.bind fun person more holds =>
      .pure ⟨holds.1, Nat.add_le_add (number.2 1 second.symm) holds.2⟩

theorem CounterState.thrifty : Thrifty CounterState.codec Unbounded :=
  ((thrifty_uint64.pair thrifty_bool).convert fun _ => rfl).weaken fun _ _ => trivial

theorem Counter.thrifty : Thrifty Counter.codec Unbounded :=
  thrifty_uint64.convert fun _ => rfl

theorem Item.thrifty : Thrifty Item.codec Item.Countable := by
  have integers : Thrifty Item.integers Unbounded :=
    (thrifty_signedByte.pair <| thrifty_int16.pair <| thrifty_int32.pair <| thrifty_int64.pair <|
      (thrifty_signed 128).pair <| thrifty_byte.pair <| thrifty_uint16.pair <|
      thrifty_uint32.pair <| thrifty_uint64.pair <| thrifty_unsigned 128).weaken fun _ _ => trivial
  have others := (thrifty_bits 4).pair <| (thrifty_bits 8).pair <| thrifty_bool.pair <|
    thrifty_char.pair <| thrifty_text.pair <| thrifty_byte.list.pair <| thrifty_text.option.pair <|
    thrifty_uint16.list.pair <| (thrifty_int32.pair thrifty_text).pair <| thrifty_name.pair <|
    thrifty_int64.option.list.pair <| Thrifty.map thrifty_text thrifty_uint32
  refine ((integers.pair others).convert fun _ => rfl).weaken fun item holds => ?_
  obtain ⟨-, -, -, -, -, text, blob, opt, list, pair, -, nest, map⟩ := holds
  exact ⟨text, blob.countable, opt, list.countable, pair.2, nest.countable, map.countable,
    fun entry mem => (map.each entry mem).1⟩

namespace Tree

theorem sizeAll_eq (trees : List Tree) : sizeAll trees = (trees.map size).sum := by
  induction trees with
  | nil => rfl
  | cons tree trees ih => rw [sizeAll, ih, List.map_cons, List.sum_cons]

/-- What an alternative holds takes no more than it was read off, if the trees in it do not. -/
theorem takes_content {reader : Reader Tree} {index taken : Nat}
    (takes : Takes reader fun tree taken => tree.Countable ∧ tree.size ≤ taken)
    (known : index < 4)
    (number : ∀ number : UInt32, number.toNat = index → uint32.size number ≤ taken) :
    Takes (readContent reader index) fun tree more =>
      tree.Countable ∧ tree.size ≤ taken + more := by
  unfold readContent
  split
  · exact .pure ⟨.empty, number 0 rfl⟩
  · exact thrifty_int64.bind fun value more holds =>
      .pure ⟨.leaf value, Nat.add_le_add (number 1 rfl) holds.2⟩
  · refine takes.bind fun left more first => takes.bind fun right others second => .pure ?_
    refine ⟨.node first.1 second.1, ?_⟩
    exact Nat.add_le_add (number 2 rfl) (Nat.add_le_add first.2 second.2)
  · rename_i notFirst notSecond notThird
    have apart : index ≠ 0 ∧ index ≠ 1 ∧ index ≠ 2 := ⟨notFirst, notSecond, notThird⟩
    have fourth : index = 3 := by omega
    refine thrifty_count.bind fun count more counted =>
      (takes.readMany count).bind fun items others holds => .pure ?_
    obtain ⟨rfl, each, weight⟩ := holds
    refine ⟨.list counted.1 each, ?_⟩
    show uint32.size 3 + (Codec.count.size items.length + sizeAll items) ≤ _
    rw [sizeAll_eq]
    exact Nat.add_le_add (number 3 fourth.symm) (Nat.add_le_add counted.2 weight)

theorem takes_within (depth : Nat) :
    Takes (readWithin depth) fun tree taken => tree.Countable ∧ tree.size ≤ taken := by
  induction depth with
  | zero => exact .throw _
  | succ depth ih =>
    exact (takes_variant 4).bind fun index taken number => takes_content ih number.1 number.2

theorem thrifty : Thrifty codec Countable :=
  fun _ _ _ read => takes_within _ read

end Tree

/-! ## 6. Payloads -/

namespace RecordFormat

variable {ρ : Type} {codec : Codec ρ} {fits : ρ → Prop} {payload : Bytes} {record : ρ}

theorem variantSize_le (thrifty : Thrifty codec fits)
    (read : (RecordFormat.variant codec).unpack payload = .ok record) :
    fits record ∧ variantSize codec record ≤ payload.length := by
  obtain ⟨taken, length, holds⟩ := thrifty (unpack_variant_eq_ok.mp read)
  exact ⟨holds.1, length ▸ holds.2⟩

theorem plainSize_le (thrifty : Thrifty codec fits)
    (read : (RecordFormat.plain codec).unpack payload = .ok record) :
    fits record ∧ plainSize codec record ≤ payload.length := by
  obtain ⟨rest, readTag, readRecord⟩ := unpack_plain_eq_ok.mp read
  obtain ⟨taken, length, holdsTag⟩ := thrifty_uint32 readTag
  obtain ⟨fit, size⟩ := variantSize_le thrifty (unpack_variant_eq_ok.mpr readRecord)
  refine ⟨fit, ?_⟩
  rw [length]
  exact Nat.add_le_add holdsTag.2 size

end RecordFormat

/-- **A record takes no more bytes than the payload that it was read from**, and can be written. -/
theorem RecordKind.size_le_of_unpack (kind : RecordKind) {payload : Bytes} {record : kind.Record}
    (read : kind.format.unpack payload = .ok record) :
    kind.Countable record ∧ kind.size record ≤ payload.length := by
  cases kind with
  | person => exact RecordFormat.plainSize_le Person.thrifty read
  | anyPerson => exact RecordFormat.variantSize_le AnyPerson.thrifty read
  | state => exact RecordFormat.plainSize_le CounterState.thrifty read
  | counter => exact RecordFormat.plainSize_le Counter.thrifty read
  | tree => exact RecordFormat.variantSize_le Tree.thrifty read
  | item => exact RecordFormat.plainSize_le Item.thrifty read

end IndexedStore
