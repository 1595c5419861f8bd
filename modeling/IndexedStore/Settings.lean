/-!
# Settings

What a store and the tables in it are configured with: the status byte that opens every index key,
the limits that the store enforces, and the bytes it bills for an entry beyond its key and value.

* `Settings.check` accepts exactly the settings without a zero where a zero makes no sense; the
  first such zero in a fixed order is the fault;
* `Settings.overhead` is the billed extra as a SIGNED number of 64 bits, so that the largest
  values bill a negative extra.
-/

namespace IndexedStore

/-- What a store refuses to exceed. -/
structure Limits where
  /-- The longest key that can be stored, in bytes. -/
  maxKeySize : UInt32 := 1024
  /-- The longest value that can be stored, in bytes. -/
  maxValueSize : UInt32 := 262144
  /-- The most cursors that can be open at once. -/
  maxCursors : UInt32 := 1024
  deriving DecidableEq, Repr

/-- The configuration of a store. -/
structure Settings where
  /-- The byte in front of every index key. -/
  keyStatus : UInt8 := 1
  limits : Limits := {}
  /-- The bytes billed for an entry beyond its key and its value. -/
  billableOverhead : UInt64 := 112
  deriving DecidableEq, Repr

namespace Settings

instance : Inhabited Settings := ⟨{}⟩

/-- Why settings are refused. -/
inductive Fault where
  /-- The text does not spell settings. -/
  | unreadable
  /-- The field of this name is zero. -/
  | zero (field : String)
  deriving DecidableEq, Repr

/-- The wording of a refusal. -/
def Fault.message : Fault → String
  | .unreadable => "text is not a settings document"
  | .zero field => s!"{field} must be non-zero"

/-- Refuses a zero status, then a zero limit. -/
def check (settings : Settings) : Except Fault Unit :=
  if settings.keyStatus = 0 then .error (.zero "key_status")
  else if settings.limits.maxKeySize = 0 then .error (.zero "max_key_size")
  else if settings.limits.maxValueSize = 0 then .error (.zero "max_value_size")
  else if settings.limits.maxCursors = 0 then .error (.zero "max_iterators")
  else .ok ()

/-- What an entry is billed beyond its key and its value. -/
def overhead (settings : Settings) : Int :=
  settings.billableOverhead.toInt64.toInt

end Settings

end IndexedStore
