import IndexedStore.Json
import IndexedStore.Name
/-!
# Names in JSON

A name is written as a JSON string that holds its text, and read from any JSON string whose text is
a name.
-/

namespace IndexedStore.Name

/-- The JSON form of a name. -/
def quoted (name : Name) : String :=
  Json.quote name.text

/-- The name that a JSON document holds, if the document is a string and its text is a name. -/
def ofQuoted? (document : String) : Option Name :=
  match (Json.parse document).bind Json.text? with
  | none => none
  | some text => (Name.parse text).toOption

end IndexedStore.Name
