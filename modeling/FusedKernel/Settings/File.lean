import FusedKernel.Settings.Toml
import FusedKernel.Settings.Yaml

/-!
Settings from files. A file must be there, must not be a directory, and must hold UTF-8.
-/
namespace FusedKernel.Settings

/-- What is found at a path. -/
inductive PathContent
  | nothing
  | directory
  | file (bytes : ByteArray)

namespace PathContent

/-- The text of a file. -/
def text : PathContent → Except FileError String
  | nothing => .error .notFound
  | directory => .error .isDirectory
  | file bytes =>
    match String.fromUTF8? bytes with
    | some s => .ok s
    | none => .error .invalidData

end PathContent

/-- Valid settings from a text in a format. -/
def ofText (format : Format) (s : String) : Except Error Settings :=
  match format with
  | .toml => ofToml s
  | .yaml => ofYaml s

/-- Valid settings from what is found at a path. -/
def ofPath (format : Format) (content : PathContent) : Except Error Settings :=
  match content.text with
  | .ok s => ofText format s
  | .error e => .error (.file e)

end FusedKernel.Settings
