import IndexedStore.Json
import IndexedStore.Settings
/-!
# Settings as text

Settings are written as a JSON object with its fields in a fixed order. Reading is more lenient:
fields may come in any order or be missing, in which case they keep their defaults; members with
other names are passed over, whatever they hold; and in place of an object an array may list the
leading fields without their names. A field that occurs twice, a number that is not written with
digits alone, and a number too large for its field are refused.

* `Settings.text` writes, `Settings.parse` reads and then checks;
* `Settings.ofJson?` and `Settings.toJson` are the two halves below the text.
-/

namespace IndexedStore

/-! ## 1. Single fields -/

namespace Json

/-- The value of a number below `bound`. -/
def below? (bound : Nat) (value : Json) : Option Nat :=
  value.natural?.filter (· < bound)

/-- A number of 8 bits. -/
def uint8? (value : Json) : Option UInt8 :=
  (value.below? UInt8.size).map UInt8.ofNat

/-- A number of 32 bits. -/
def uint32? (value : Json) : Option UInt32 :=
  (value.below? UInt32.size).map UInt32.ofNat

/-- A number of 64 bits. -/
def uint64? (value : Json) : Option UInt64 :=
  (value.below? UInt64.size).map UInt64.ofNat

/-- The field `name` of an object, read by `read`: a default if the object lacks it, nothing if it
    is there twice. -/
def field? {α : Type} (members : List (Option String × Json)) (name : String)
    (read : Json → Option α) (default : α) : Option α :=
  match members.filter fun member => member.1 = some name with
  | [] => some default
  | [member] => read member.2
  | _ => none

/-- The element at a place of an array, read by `read`; a default if the array ends before it. -/
def place? {α : Type} (elements : List Json) (place : Nat) (read : Json → Option α)
    (default : α) : Option α :=
  match elements[place]? with
  | none => some default
  | some element => read element

end Json

/-! ## 2. Reading -/

/-- Whether every member of an object has a readable name. -/
def Json.named (members : List (Option String × Json)) : Bool :=
  members.all fun member => member.1.isSome

/-- The limits that a value spells. -/
def Limits.ofJson? : Json → Option Limits
  | .object members =>
    if Json.named members then do
      return {
        maxKeySize := ← Json.field? members "max_key_size" Json.uint32? ({} : Limits).maxKeySize
        maxValueSize :=
          ← Json.field? members "max_value_size" Json.uint32? ({} : Limits).maxValueSize
        maxCursors := ← Json.field? members "max_iterators" Json.uint32? ({} : Limits).maxCursors }
    else none
  | .array elements =>
    if elements.length ≤ 3 then do
      return {
        maxKeySize := ← Json.place? elements 0 Json.uint32? ({} : Limits).maxKeySize
        maxValueSize := ← Json.place? elements 1 Json.uint32? ({} : Limits).maxValueSize
        maxCursors := ← Json.place? elements 2 Json.uint32? ({} : Limits).maxCursors }
    else none
  | _ => none

namespace Settings

/-- The settings that a value spells, not yet checked. -/
def ofJson? : Json → Option Settings
  | .object members =>
    if Json.named members then do
      return {
        keyStatus := ← Json.field? members "key_status" Json.uint8? ({} : Settings).keyStatus
        limits := ← Json.field? members "limits" Limits.ofJson? {}
        billableOverhead :=
          ← Json.field? members "billable_overhead" Json.uint64? ({} : Settings).billableOverhead }
    else none
  | .array elements =>
    if elements.length ≤ 3 then do
      return {
        keyStatus := ← Json.place? elements 0 Json.uint8? ({} : Settings).keyStatus
        limits := ← Json.place? elements 1 Limits.ofJson? {}
        billableOverhead :=
          ← Json.place? elements 2 Json.uint64? ({} : Settings).billableOverhead }
    else none
  | _ => none

/-- Reads settings and checks them. The check sees the defaults too. -/
def parse (text : String) : Except Fault Settings := do
  match (Json.parse text).bind ofJson? with
  | none => throw .unreadable
  | some settings =>
    settings.check
    return settings

/-! ## 3. Writing -/

/-- Settings as a JSON object. -/
def toJson (settings : Settings) : Json :=
  .object [
    (some "key_status", .ofNat settings.keyStatus.toNat),
    (some "limits", .object [
      (some "max_key_size", .ofNat settings.limits.maxKeySize.toNat),
      (some "max_value_size", .ofNat settings.limits.maxValueSize.toNat),
      (some "max_iterators", .ofNat settings.limits.maxCursors.toNat)]),
    (some "billable_overhead", .ofNat settings.billableOverhead.toNat)]

/-- The text of settings. -/
def text (settings : Settings) : String :=
  settings.toJson.pretty

end Settings

end IndexedStore
