import IndexedStore.Hex
import IndexedStore.Key.Value
/-!
# Where keys lie

All entries of a scope share one ordered store. An index owns the keys with its STEM, 17 bytes made
of a status byte, the table's name and the index's name; the key of a record under the index is the
stem and then the encoded value. A single record lies at a key of 16 bytes that starts with seven
zero bytes, which no stem does, since a stem's status is not zero.

* `Key.stem` and `Key.single` are the two layouts, `Key.describe` shows a key.
-/

namespace IndexedStore.Key

/-- What the keys of one index of one table have in common. -/
def stem (status : UInt8) (table index : Name) : Bytes :=
  (KeyValue.tuple [.uint8 status, .name table, .name index]).encode

/-- The number that marks the keys of single records. -/
def singleStatus : UInt64 := 2

/-- The key of the single record called `name`. -/
def single (name : Name) : Bytes :=
  (KeyValue.tuple [.uint64 singleStatus, .name name]).encode

/-- A key in the store as text. -/
def describe (key : Bytes) : String :=
  "FullKey(" ++ Hex.encode key ++ ")"

/-- The count of bytes of every stem. -/
def stemLength : Nat := 17

@[simp] theorem length_stem (status : UInt8) (table index : Name) :
    (stem status table index).length = stemLength := by
  simp [stem, stemLength, KeyValue.encode, KeyValue.encodeParts, KeyValue.uint8]

@[simp] theorem length_single (name : Name) : (single name).length = 16 := by
  simp [single, KeyValue.encode, KeyValue.encodeParts, KeyValue.uint64]

end IndexedStore.Key
