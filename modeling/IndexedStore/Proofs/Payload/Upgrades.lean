import IndexedStore.Proofs.Payload.Formats
import IndexedStore.Record.Person
/-!
# From a plain record to alternatives

A table of plain records can be opened later as a table of alternatives whose first one wraps the
plain records. The two types then read the same bytes as the same record, although they read them in
different ways: the plain one looks at the tag, puts it back and reads all bytes as a pair, the other
one goes once from the number of the alternative to the end. The bytes need not come from a writer;
a tag in a longer form than needed counts as one, too.

* `Wraps` says what makes a type one that wraps, `Upgrades` what follows (`Wraps.upgrades`);
* `AnyPerson.wraps` and `AnyPerson.upgrades_person` are the two generations of persons.
-/

namespace IndexedStore

open Payload Payload.Reader Payload.Codec

variable {ρ ε : Type}

/-- `whole` is the codec of a type of alternatives, numbered by `index`; its first one holds what
    `content` writes, and nothing else. -/
structure Wraps (content : Codec ρ) (whole : Codec ε) (first : ρ → ε) (index : ε → UInt32) :
    Prop where
  injective : ∀ {a b}, first a = first b → a = b
  index_eq_zero : ∀ {value}, index value = 0 ↔ ∃ record, value = first record
  write_first : ∀ record, whole.write (first record) = writeVariant 0 (content.write record)
  write_index : ∀ value, ∃ body, whole.write value = writeVariant (index value) body
  read : ∃ (alternatives : Nat) (later : Nat → Reader ε), 0 < alternatives
    ∧ (∀ {i bytes value rest}, 0 < i → i < alternatives → later i bytes = .ok (value, rest) →
        (index value).toNat = i)
    ∧ whole.read = (readVariant alternatives >>= fun i =>
        if i = 0 then first <$> content.read else later i)

/-- What a plain format and a format of alternatives owe each other. -/
structure Upgrades (old : RecordFormat ρ) (new : RecordFormat ε) (first : ρ → ε)
    (index : ε → UInt32) : Prop where
  /-- A record has the same payload in both. -/
  pack_eq : ∀ record, old.pack record = new.pack (first record)
  /-- Any bytes at all read as a record in one just if they do in the other. -/
  unpack_iff : ∀ bytes record,
    old.unpack bytes = .ok record ↔ new.unpack bytes = .ok (first record)
  /-- A wrong tag is found just where the bytes begin with a form of a number of 32 bits that is not
      zero. -/
  mismatch_iff : ∀ bytes expected found,
    old.unpack bytes = .error (.tagMismatch expected found)
      ↔ expected = 0 ∧ found ≠ 0 ∧ found < UInt32.size
        ∧ ∃ form rest, Varint.Spells false form found ∧ bytes = form ++ rest
  /-- The payload of a later alternative is refused with its number. -/
  later_refused : ∀ value, (∀ record, value ≠ first record) →
    index value ≠ 0 ∧ old.unpack (new.pack value) = .error (.tagMismatch 0 (index value).toNat)

namespace Wraps

variable {content : Codec ρ} {whole : Codec ε} {first : ρ → ε} {index : ε → UInt32}

theorem index_first (wraps : Wraps content whole first index) (record : ρ) :
    index (first record) = 0 :=
  wraps.index_eq_zero.mpr ⟨record, rfl⟩

/-- The first alternative is read off a form of its number and what the plain codec reads. -/
theorem read_eq_ok (wraps : Wraps content whole first index) {bytes rest : Bytes} {record : ρ} :
    whole.read bytes = .ok (first record, rest)
      ↔ ∃ mid, Codec.uint32.read bytes = .ok (RecordFormat.tag, mid)
        ∧ content.read mid = .ok (record, rest) := by
  obtain ⟨alternatives, later, some, sound, same⟩ := wraps.read
  rw [same, bind_eq_ok]
  constructor
  · rintro ⟨i, mid, readIndex, readBody⟩
    obtain ⟨n, mid', readNumber, known⟩ := bind_eq_ok.mp readIndex
    split at known
    · rename_i less
      cases known
      by_cases zero : n.toNat = 0
      · rw [if_pos zero] at readBody
        obtain ⟨found, readContent, sameRecord⟩ := map_eq_ok.mp readBody
        cases wraps.injective sameRecord
        obtain rfl : n = RecordFormat.tag := UInt32.toNat_inj.mp zero
        exact ⟨mid, readNumber, readContent⟩
      · -- a later alternative is never read as the first
        rw [if_neg zero] at readBody
        have number := sound (Nat.pos_of_ne_zero zero) less readBody
        rw [wraps.index_first record] at number
        exact absurd number.symm zero
    · cases known
  · rintro ⟨mid, readNumber, readContent⟩
    refine ⟨0, mid, ?_, ?_⟩
    · unfold readVariant
      rw [bind_of_ok readNumber]
      exact congrFun (if_pos some) mid
    · rw [if_pos rfl]
      exact map_of_ok first readContent

/-- **Plain records upgrade to alternatives.** -/
theorem upgrades (wraps : Wraps content whole first index) :
    Upgrades (.plain content) (.variant whole) first index where
  pack_eq record := (wraps.write_first record).symm
  unpack_iff bytes record := by
    rw [RecordFormat.unpack_plain_eq_ok, RecordFormat.unpack_variant_eq_ok, wraps.read_eq_ok]
  mismatch_iff bytes expected found := by
    rw [RecordFormat.unpack_plain_eq_tagMismatch]
    refine and_congr_right fun _ => ?_
    constructor
    · rintro ⟨n, rest, other, rfl, read⟩
      obtain ⟨form, spells, rfl⟩ := read_uint32_eq_ok.mp read
      exact ⟨fun zero => other (UInt32.toNat_inj.mp zero), n.toNat_lt, form, rest, spells, rfl⟩
    · rintro ⟨nonzero, less, form, rest, spells, rfl⟩
      have number : (UInt32.ofNat found).toNat = found := UInt32.toNat_ofNat_of_lt' less
      refine ⟨UInt32.ofNat found, rest, fun isTag => nonzero ?_, number,
        read_uint32_eq_ok.mpr ⟨form, by rwa [number], rfl⟩⟩
      rw [← number, isTag]
      rfl
  later_refused value other := by
    have nonzero : index value ≠ 0 := fun zero =>
      absurd (wraps.index_eq_zero.mp zero) (not_exists.mpr other)
    obtain ⟨body, payload⟩ := wraps.write_index value
    refine ⟨nonzero, RecordFormat.unpack_plain_eq_tagMismatch.mpr
      ⟨rfl, index value, body, nonzero, rfl, ?_⟩⟩
    show Codec.uint32.read (whole.write value) = _
    rw [payload]
    exact lawful_uint32.reads (index value) trivial body

end Wraps

/-! ## Persons -/

namespace AnyPerson

/-- The number of a person's alternative. -/
def index : AnyPerson → UInt32
  | .first _ => 0
  | .second _ => 1

theorem wraps : Wraps Person.codec codec .first index where
  injective same := by injection same
  index_eq_zero {person} := by
    cases person with
    | first person => exact ⟨fun _ => ⟨person, rfl⟩, fun _ => rfl⟩
    | second person =>
      have one : (1 : UInt32) ≠ 0 := by decide
      exact ⟨fun zero => absurd zero one, fun ⟨_, other⟩ => by cases other⟩
  write_first _ := rfl
  write_index person := by
    cases person with
    | first person => exact ⟨_, rfl⟩
    | second person => exact ⟨_, rfl⟩
  read := by
    refine ⟨2, fun _ => AnyPerson.second <$> PersonWithEmail.codec.read, by decide, ?_, ?_⟩
    · intro i bytes person rest positive known read
      obtain ⟨found, -, rfl⟩ := map_eq_ok.mp read
      show 1 = i
      omega
    · show (readVariant 2 >>= _) = _
      congr 1
      funext i
      cases i with
      | zero => rfl
      | succ i => rfl

theorem upgrades_person : Wraps Person.codec codec .first index
    ∧ Upgrades Person.format format .first index :=
  ⟨wraps, wraps.upgrades⟩

end AnyPerson

end IndexedStore
