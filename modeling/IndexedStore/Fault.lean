import IndexedStore.Hex
import IndexedStore.Settings
import IndexedStore.Payload.Reader
/-!
# Faults

Everything that an operation of the library can answer instead of its result. A fault is a cause,
with the names and numbers it concerns; `Fault.message` is the one place that words it. A fault
ends the operation that meets it; what a fault leaves behind in the store is up to the unit of work
around it.
-/

namespace IndexedStore

/-- A step or a read that the position of a walk does not allow. -/
inductive Misuse where
  /-- There is no entry at the end to read. -/
  | readAtEnd
  /-- The entry at the position is gone. -/
  | readErased
  /-- A forward walk cannot go on from its end. -/
  | stepFromEnd
  /-- A reverse walk cannot go on from its end. -/
  | stepFromReverseEnd
  /-- There is no entry before the first. -/
  | stepBeforeFirst
  deriving DecidableEq, Repr

/-- The wording of a misuse. -/
def Misuse.message : Misuse → String
  | .readAtEnd => "cannot read end iterator"
  | .readErased => "iterator points to an erased entry"
  | .stepFromEnd => "cannot increment end iterator"
  | .stepFromReverseEnd => "incremented past the end"
  | .stepBeforeFirst => "decremented past the beginning"

/-- A limit of the store that an operation would exceed. -/
inductive LimitFault where
  | key (size limit : Nat)
  | value (size limit : Nat)
  | cursors (limit : Nat)
  deriving DecidableEq, Repr

/-- The wording of an exceeded limit. -/
def LimitFault.message : LimitFault → String
  | .key size limit => s!"key of {size} bytes exceeds {limit}"
  | .value size limit => s!"value of {size} bytes exceeds {limit}"
  | .cursors limit => s!"more than {limit} live cursors"

/-- What is wrong with a table's declarations, or with a reference to one of its indices. -/
inductive SchemaFault where
  | emptyTableName
  | zeroStatus
  | emptyIndexName (table : Name)
  | duplicateIndex (index table : Name)
  | secondPrimary (table : Name)
  | noPrimary (table : Name)
  /-- A token of index `index` of table `owner` was handed to `table`. -/
  | foreignToken (owner index table : Name)
  | unknownIndex (index table : Name)
  deriving DecidableEq, Repr

/-- The wording of a schema fault. -/
def SchemaFault.message : SchemaFault → String
  | .emptyTableName => "table name must not be empty"
  | .zeroStatus => "key status must be non-zero"
  | .emptyIndexName table => "index name of " ++ table.text ++ " must not be empty"
  | .duplicateIndex index table => "duplicate index " ++ index.text ++ " on " ++ table.text
  | .secondPrimary table => table.text ++ " declares more than one primary index"
  | .noPrimary table => table.text ++ " declares no primary index"
  | .foreignToken owner index table =>
    "IndexId(" ++ owner.text ++ "." ++ index.text ++ ") is not an index of " ++ table.text
  | .unknownIndex index table => table.text ++ " has no index " ++ index.text

/-- A state of the store in which an operation makes no sense. -/
inductive StateFault where
  /-- A unit of work is already open. -/
  | unitInProgress
  /-- A secondary entry points to a primary entry that is not stored. -/
  | danglingPointer (index : Name) (pointer : Bytes)
  /-- A walk over an index is on a key that does not begin with its stem. -/
  | outsideIndex (key : Bytes)
  deriving DecidableEq, Repr

/-- The wording of a state fault. -/
def StateFault.message : StateFault → String
  | .unitInProgress => "unit of work already in progress"
  | .danglingPointer index pointer =>
    "secondary index " ++ index.text ++ " points to missing primary entry " ++ Hex.encode pointer
  | .outsideIndex key => "key " ++ Hex.encode key ++ " outside index range"

/-- Why an operation gave no result. -/
inductive Fault where
  /-- A new record has a key under a secondary index that another record holds. -/
  | duplicateSecondary (index : Name)
  /-- A changed record has a key under a secondary index that another record holds. -/
  | secondaryConflict (index : Name)
  | keyNotFound
  | misuse (cause : Misuse)
  /-- A payload is marked as the payload of another kind of record. -/
  | tagMismatch (expected found : Nat)
  | state (fault : StateFault)
  | payload (fault : Payload.Fault)
  | name (fault : Name.Fault)
  | hex (fault : Hex.Fault)
  /-- No open cursor has this number. -/
  | unknownCursor (id : Nat)
  | cursorMismatch
  | limit (fault : LimitFault)
  | schema (fault : SchemaFault)
  | settings (fault : Settings.Fault)
  /-- A file is missing or is no text. -/
  | unreadableFile
  deriving DecidableEq, Repr

namespace Fault

/-- The wording of a fault. -/
def message : Fault → String
  | .duplicateSecondary index =>
    "attempted to store an existing secondary index (" ++ index.text ++ ")"
  | .secondaryConflict index =>
    "attempted to update an existing secondary index (" ++ index.text ++ ")"
  | .keyNotFound => "key not found in \x60[]\x60"
  | .misuse cause => cause.message
  | .tagMismatch expected found =>
    s!"there was an error deserializing this value: expected tag {expected}, found {found}"
  | .state fault => "substrate failure: " ++ fault.message
  | .payload fault => "Serialization error: " ++ fault.message
  | .name fault => "Invalid name: " ++ fault.message
  | .hex fault => "Invalid hex key: " ++ fault.message
  | .unknownCursor id => s!"Invalid cursor handle: {id}"
  | .cursorMismatch => "cursors are bound to different scopes or prefixes"
  | .limit fault => "Limit exceeded: " ++ fault.message
  | .schema fault => "Schema error: " ++ fault.message
  | .settings fault => "Config error: " ++ fault.message
  | .unreadableFile => "IO error"

/-- Whether a fault says that a secondary key belongs to another record. -/
def isViolation : Fault → Bool
  | .duplicateSecondary _ => true
  | .secondaryConflict _ => true
  | _ => false

end Fault

end IndexedStore
