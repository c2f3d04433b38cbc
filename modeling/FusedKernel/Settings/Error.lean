import FusedKernel.Number.Binary64
import FusedKernel.Settings.Basic
import FusedKernel.Settings.Wording
import FusedKernel.Text.Quoted
import FusedKernel.Toml.Fault

/-!
Why there are no settings: a document that cannot be read, a value that does not fit its setting, a
stem that is no identifier, or a file that cannot be read. Causes are data; their wording is in the
`message` functions.
-/
namespace FusedKernel.Settings

/-- The formats in which settings are written. -/
inductive Format
  | toml
  | yaml
  deriving DecidableEq, Repr

/-- What was found where something else was expected. -/
inductive Found
  | unit
  | boolean (b : Bool)
  | integer (n : Int)
  /-- An integer of more than 64 bits. -/
  | longInteger (n : Int)
  | float (f : Number.Binary64)
  | text (s : String)
  | sequence
  | map
  deriving DecidableEq, Repr

def Found.describe : Found → String
  | unit => "unit value"
  | boolean b => "boolean `" ++ (if b then "true" else "false") ++ "`"
  | integer n => "integer `" ++ toString n ++ "`"
  | longInteger n =>
    "integer `" ++ toString n ++ "` as " ++ (if n < 0 then "i128" else "u128")
  | float f => "floating point `" ++ f.text ++ "`"
  | text s => "string " ++ Text.quoted s
  | sequence => "sequence"
  | map => "map"

/-- What was expected. -/
inductive Expected
  | boolean
  | text
  | settings
  | key
  /-- A mark that names a variant. -/
  | tag
  /-- Nothing beside the name of a variant. -/
  | nothing
  | integer
  | float
  | null
  deriving DecidableEq, Repr

def Expected.describe : Expected → String
  | boolean => "a boolean"
  | text => "a string"
  | settings => "struct JitConfig"
  | key => "field identifier"
  | tag => "a YAML tag starting with '!'"
  | nothing => "unit"
  | integer => "an integer"
  | float => "a float"
  | null => "null"

/-- What is wrong with a document. -/
inductive Cause
  /-- The document breaks the rules of its format, or holds a value of no use. -/
  | malformed
  | notToml (fault : FusedKernel.Toml.Fault)
  | unknownVariant (given : String)
  | invalidType (found : Found) (expected : Expected)
  /-- A text that does not write what was expected. -/
  | invalidValue (given : String) (expected : Expected)
  | duplicateField (key : String)
  deriving DecidableEq, Repr

/-- The names of the levels, each in backquotes. -/
def levelList : String :=
  String.intercalate ", " (Optimization.all.map fun level => "`" ++ level.name ++ "`")

/-- Whether a cause lies in the data of the settings. -/
def Cause.isData : Cause → Bool
  | unknownVariant _ | invalidType _ _ | duplicateField _ => true
  | malformed | notToml _ | invalidValue _ _ => false

/-- The wording of a cause, where it has one. -/
def Cause.wording? : Cause → Option String
  | malformed => none
  | notToml fault => fault.message?
  | unknownVariant given =>
    some ("unknown variant `" ++ given ++ "`, expected one of " ++ levelList)
  | invalidType found expected =>
    some ("invalid type: " ++ found.describe ++ ", expected " ++ expected.describe)
  | invalidValue given expected =>
    some ("invalid value: string " ++ Text.quoted given ++ ", expected " ++ expected.describe)
  | duplicateField key => some ("duplicate field `" ++ key ++ "`")

/-- A fault of a document, with the place where its format names it. -/
structure DataError where
  place : Option String := none
  cause : Cause
  /-- Whether the fault has a position, which then ends its wording. -/
  located : Bool := true
  deriving DecidableEq, Repr

/-- The wording of a fault at its place, without a position. Where the fault has none, a text that
reads like one is lost in its stead. -/
def DataError.wording? (e : DataError) : Option String :=
  e.cause.wording?.map fun wording =>
    let full := match e.place with
      | none => wording
      | some place => place ++ ": " ++ wording
    if e.located then full else withoutPosition full

/-- The message of a fault: its wording, if it lies in the data or reads as if it did. -/
def DataError.message? (e : DataError) : Option String :=
  e.wording?.filter fun wording => e.cause.isData || mentionsData wording

/-- Why a file cannot be read. -/
inductive FileError
  | notFound
  | isDirectory
  /-- The file is not UTF-8. -/
  | invalidData
  deriving DecidableEq, Repr

inductive Error
  | data (format : Format) (error : DataError)
  | invalidStem (stem : String)
  | file (error : FileError)
  deriving DecidableEq, Repr

/-- The wording of an error, where it has one. -/
def Error.message? : Error → Option String
  | data _ error => error.message?
  | invalidStem stem =>
    some ("Invalid configuration: symbol_prefix " ++ Text.quoted stem ++ " is not an identifier")
  | file _ => none

/-- Passes valid settings on. -/
def validate (s : Settings) : Except Error Unit :=
  if s.isValid then .ok () else .error (.invalidStem s.stem)

/-- Settings that are valid. -/
def validated (s : Settings) : Except Error Settings :=
  match s.validate with
  | .ok () => .ok s
  | .error e => .error e

end FusedKernel.Settings
