import FusedKernel.Settings.Document
import FusedKernel.Toml.Document

/-!
Settings from TOML. A level is written as a text, or as a table whose only key is the level's name
and whose value is an empty collection.
-/
namespace FusedKernel.Settings

namespace Toml

open FusedKernel.Toml (Value Entries)

/-- What a value is, where something else was expected. -/
def found : Value → Found
  | .text s => .text s
  | .integer n => .integer n
  | .float f => .float f
  | .boolean b => .boolean b
  | .array _ | .tables _ => .sequence
  | .moment | .table _ _ => .map

/-- The level of a name. -/
def levelNamed (s : String) : Except DataError Optimization :=
  match Optimization.ofName? s with
  | some level => .ok level
  | none => .error { cause := .unknownVariant s }

def level : Value → Except DataError Optimization
  | .text s => levelNamed s
  | .table _ [(name, value)] =>
    match levelNamed name with
    | .error e => .error e
    | .ok level => if value.isEmptyCollection then .ok level else .error { cause := .malformed }
  | _ => .error { cause := .malformed }

def boolean : Value → Except DataError Bool
  | .boolean b => .ok b
  | v => .error { cause := .invalidType (found v) .boolean }

def text : Value → Except DataError String
  | .text s => .ok s
  | v => .error { cause := .invalidType (found v) .text }

def reader : Reader Value := ⟨level, boolean, text⟩

/-- What a text gives, before it is validated. -/
def read (s : String) : Except DataError Settings :=
  match FusedKernel.Toml.parse s with
  | .error fault => .error { cause := .notToml fault }
  | .ok entries => ofEntries reader (entries.map fun e => .pair e.1 e.2)

end Toml

/-- Valid settings from a TOML document. -/
def ofToml (s : String) : Except Error Settings := ofData .toml (Toml.read s)

end FusedKernel.Settings
