import IndexedStore.Fault
import IndexedStore.Settings.Text
/-!
# Settings from files

Settings read from the bytes of a file. A file that is missing, or whose bytes are no text, is a
fault of its own, apart from a text that spells no settings.
-/

namespace IndexedStore.Settings

/-- The settings in a file, given by its bytes; none if it is missing. -/
def ofFile (content : Option Bytes) : Except IndexedStore.Fault Settings :=
  match content with
  | none => .error .unreadableFile
  | some bytes =>
    match Utf8.decode bytes with
    | .error _ => .error .unreadableFile
    | .ok text => (parse text).mapError .settings

end IndexedStore.Settings
