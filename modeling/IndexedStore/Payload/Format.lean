import IndexedStore.Fault
import IndexedStore.Payload.Codec
/-!
# Record formats

How a table turns its records into payloads and back. A plain record is written behind a TAG, an
integer that is zero for every record written today; a record that begins with an integer telling
its alternative is written as it is. The two agree on purpose: a tag and the number of an
alternative are written alike, so a plain record reads as the first alternative of a type that wraps
it, and later alternatives are refused where a plain record is expected.

* `RecordFormat` is the type of formats;
* `RecordFormat.plain` and `RecordFormat.variant` are the two kinds, `RecordFormat.plainSize` and
  `RecordFormat.variantSize` count the bytes of their payloads.
-/

namespace IndexedStore

open Payload

/-- How records of type `ρ` become payloads. -/
structure RecordFormat (ρ : Type) where
  /-- The payload of a record. Packing cannot fail: the formats here are those of records all of
      whose values have a written form, as the records of every `RecordKind` do. So a put, which
      packs its record before it looks at the store, is never stopped there. -/
  pack : ρ → Bytes
  unpack : Bytes → Except Fault ρ

namespace RecordFormat

variable {ρ : Type}

/-- The tag of every plain record. -/
def tag : UInt32 := 0

/-- Plain records: the tag, then the record. The tag is looked at before anything behind it. -/
def plain (codec : Codec ρ) : RecordFormat ρ where
  pack record := (Codec.uint32.pair codec).write (tag, record)
  unpack bytes := do
    let (found, _) ← (Codec.uint32.read bytes).mapError .payload
    if found ≠ tag then throw (.tagMismatch tag.toNat found.toNat)
    let (_, record) ← (readAll (Codec.uint32.pair codec).read bytes).mapError .payload
    return record

/-- The count of bytes of the payload of a plain record. -/
def plainSize (codec : Codec ρ) (record : ρ) : Nat :=
  (Codec.uint32.pair codec).size (tag, record)

/-- Records that tell their alternative themselves. -/
def variant (codec : Codec ρ) : RecordFormat ρ where
  pack := codec.write
  unpack bytes := (readAll codec.read bytes).mapError .payload

/-- The count of bytes of the payload of a record that tells its alternative. -/
def variantSize (codec : Codec ρ) (record : ρ) : Nat :=
  codec.size record

end RecordFormat

end IndexedStore
