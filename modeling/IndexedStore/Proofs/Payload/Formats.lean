import IndexedStore.Payload.Format
import IndexedStore.Proofs.Payload.Codecs
/-!
# Framing of payloads

A format reads whole payloads, so the laws of a codec turn into statements about whole byte sequences:
`RecordFormat.Framed` lists them for one record. Both kinds of formats give it for codecs that keep
their laws (`RecordFormat.framed_variant`, `RecordFormat.framed_plain`).
-/

namespace IndexedStore

open Payload Payload.Reader Payload.Codec

namespace RecordFormat

variable {ρ : Type}

/-- What a payload owes its record. -/
structure Framed (format : RecordFormat ρ) (size : ρ → Nat) (record : ρ) : Prop where
  reads : format.unpack (format.pack record) = .ok record
  sized : size record = (format.pack record).length
  cut : ∀ {front lost}, format.pack record = front ++ lost → lost ≠ [] →
    ∃ fault, format.unpack front = .error (.payload fault)
  extended : ∀ {more}, more ≠ [] →
    format.unpack (format.pack record ++ more) = .error (.payload .trailingBytes)

variable {codec : Codec ρ} {fits : ρ → Prop}

/-! ## 1. Reading in one pass -/

/-- **Plain records are read in one pass**: that the tag is looked at and then read again with the
    record makes no difference. -/
theorem unpack_plain (codec : Codec ρ) (bytes : Bytes) :
    (RecordFormat.plain codec).unpack bytes = match Codec.uint32.read bytes with
      | .error fault => .error (.payload fault)
      | .ok (found, rest) =>
        if found = tag then (RecordFormat.variant codec).unpack rest
        else .error (.tagMismatch 0 found.toNat) := by
  unfold plain
  dsimp only
  cases read : Codec.uint32.read bytes with
  | error fault => rfl
  | ok found =>
    obtain ⟨found, rest⟩ := found
    dsimp only
    by_cases isTag : found = tag
    · subst isTag
      rw [if_pos rfl]
      have again : readAll (Codec.uint32.pair codec).read bytes
          = readAll ((tag, ·) <$> codec.read) rest := by
        have paired : (Codec.uint32.pair codec).read bytes = ((tag, ·) <$> codec.read) rest := by
          rw [map_eq_bind]
          exact bind_of_ok read
        unfold readAll
        rw [paired]
      rw [again, readAll_map]
      unfold variant
      dsimp only
      cases readAll codec.read rest <;> rfl
    · rw [if_neg isTag]
      exact if_pos isTag

theorem unpack_variant_eq_ok {bytes : Bytes} {record : ρ} :
    (RecordFormat.variant codec).unpack bytes = .ok record
      ↔ codec.read bytes = .ok (record, []) := by
  show (readAll codec.read bytes).mapError _ = _ ↔ _
  rw [← readAll_eq_ok]
  cases readAll codec.read bytes with
  | error fault =>
    constructor <;> intro impossible <;> cases impossible
  | ok found =>
    constructor <;> intro same <;> cases same <;> rfl

theorem unpack_variant_of_error {bytes : Bytes} {fault : Payload.Fault}
    (refused : readAll codec.read bytes = .error fault) :
    (RecordFormat.variant codec).unpack bytes = .error (.payload fault) := by
  show (readAll codec.read bytes).mapError _ = _
  rw [refused]
  rfl

/-- Alternatives are never refused for a tag. -/
theorem unpack_variant_ne_tagMismatch {bytes : Bytes} {expected found : Nat} :
    (RecordFormat.variant codec).unpack bytes ≠ .error (.tagMismatch expected found) := by
  intro mismatch
  change (readAll codec.read bytes).mapError Fault.payload = _ at mismatch
  cases read : readAll codec.read bytes with
  | error fault => rw [read] at mismatch; cases mismatch
  | ok record => rw [read] at mismatch; cases mismatch

/-- A plain record is read off a form of its tag and what its codec reads as a whole. -/
theorem unpack_plain_eq_ok {bytes : Bytes} {record : ρ} :
    (RecordFormat.plain codec).unpack bytes = .ok record
      ↔ ∃ rest, Codec.uint32.read bytes = .ok (tag, rest) ∧ codec.read rest = .ok (record, []) := by
  rw [unpack_plain]
  cases Codec.uint32.read bytes with
  | error fault => simp
  | ok read =>
    obtain ⟨found, rest⟩ := read
    by_cases isTag : found = tag
    · simp [isTag, unpack_variant_eq_ok]
    · simp [isTag]

/-- A wrong tag is found where a number other than the tag is read, and nowhere else. -/
theorem unpack_plain_eq_tagMismatch {bytes : Bytes} {expected found : Nat} :
    (RecordFormat.plain codec).unpack bytes = .error (.tagMismatch expected found)
      ↔ expected = 0 ∧ ∃ n rest, n ≠ tag ∧ n.toNat = found
        ∧ Codec.uint32.read bytes = .ok (n, rest) := by
  rw [unpack_plain]
  cases Codec.uint32.read bytes with
  | error fault => simp
  | ok read =>
    obtain ⟨n, rest⟩ := read
    by_cases isTag : n = tag
    · simp [isTag, unpack_variant_ne_tagMismatch]
    · dsimp only
      rw [if_neg isTag]
      constructor
      · intro mismatch
        cases mismatch
        exact ⟨rfl, n, rest, isTag, rfl, rfl⟩
      · rintro ⟨rfl, n, rest, -, rfl, same⟩
        cases same
        rfl

/-! ## 2. Formats of lawful codecs -/

/-- Records that tell their alternative are framed by the laws of their codec. -/
theorem framed_variant (lawful : Lawful codec fits) {record : ρ} (fit : fits record) :
    Framed (.variant codec) (variantSize codec) record where
  reads := by
    have read := lawful.reads record fit []
    rw [List.append_nil] at read
    exact unpack_variant_eq_ok.mpr read
  sized := (lawful.sized record).symm
  cut {front lost} whole short := by
    have read := lawful.reads record fit []
    change codec.write record = front ++ lost at whole
    rw [List.append_nil, whole] at read
    obtain ⟨fault, refused⟩ := lawful.sequential.error_of_cut read short
    exact ⟨fault, unpack_variant_of_error (readAll_of_error refused)⟩
  extended {more} extended :=
    unpack_variant_of_error (readAll_extended (lawful.reads record fit more) extended)

/-- Plain records are framed by the laws of their codec: a front part too short for the tag is
    refused, and off a longer one the tag is read. -/
theorem framed_plain (lawful : Lawful codec fits) {record : ρ} (fit : fits record) :
    Framed (.plain codec) (plainSize codec) record := by
  have framed := framed_variant lawful fit
  have tagged : ∀ more, Codec.uint32.read ((RecordFormat.plain codec).pack record ++ more)
      = .ok (tag, codec.write record ++ more) := fun more => by
    show Codec.uint32.read (Codec.uint32.write tag ++ codec.write record ++ more) = _
    rw [List.append_assoc]
    exact lawful_uint32.reads tag trivial _
  have tagged' := tagged []
  rw [List.append_nil, List.append_nil] at tagged'
  constructor
  case reads =>
    rw [unpack_plain, tagged']
    exact framed.reads
  case sized => exact ((lawful_uint32.pair lawful).sized (tag, record)).symm
  case cut =>
    intro front lost whole short
    rw [unpack_plain]
    cases early : Codec.uint32.read front with
    | error fault => exact ⟨fault, rfl⟩
    | ok found =>
      obtain ⟨found, rest⟩ := found
      obtain ⟨form, rfl, again⟩ := lawful_uint32.sequential early
      rw [whole, List.append_assoc, again] at tagged'
      obtain ⟨rfl, body⟩ := Prod.mk.inj (Except.ok.inj tagged')
      exact framed.cut body.symm short
  case extended =>
    intro more extended
    rw [unpack_plain, tagged more]
    exact framed.extended extended

end RecordFormat

end IndexedStore
