import FusedKernel.Settings.Error

/-!
Settings from the entries of a document, in their order. Each entry is a key with a value in some
format; the format says how values are read as booleans, texts and levels. Keys without meaning are
ignored, settings without an entry have their defaults, and the first fault in the order of the
document is reported.
-/
namespace FusedKernel.Settings

/-- The settings that a document can hold. -/
inductive Key
  | optimization
  | verify
  | stem
  | keepText
  deriving DecidableEq, Repr

namespace Key

def all : List Key := [optimization, verify, stem, keepText]

def name : Key → String
  | optimization => "opt_level"
  | verify => "enable_verifier"
  | stem => "symbol_prefix"
  | keepText => "capture_ir"

def ofName? (s : String) : Option Key := all.find? fun key => key.name == s

@[simp] theorem ofName?_name (key : Key) : ofName? key.name = some key := by
  cases key <;> rfl

end Key

/-- How the values of a format are read. -/
structure Reader (V : Type) where
  level : V → Except DataError Optimization
  boolean : V → Except DataError Bool
  text : V → Except DataError String

/-- An entry of a document. -/
inductive Entry (V : Type)
  | pair (key : String) (value : V)
  /-- A place from which the document cannot be read on. -/
  | broken (error : DataError)

/-- The settings that a document has given so far. -/
structure Given where
  optimization : Option Optimization := none
  verify : Option Bool := none
  stem : Option String := none
  keepText : Option Bool := none
  deriving DecidableEq, Repr

namespace Given

/-- Whether a setting is given already. -/
def has (g : Given) : Key → Bool
  | .optimization => g.optimization.isSome
  | .verify => g.verify.isSome
  | .stem => g.stem.isSome
  | .keepText => g.keepText.isSome

/-- Reads a setting from its value. -/
def read {V : Type} (reader : Reader V) (g : Given) (key : Key) (value : V) :
    Except DataError Given :=
  match key with
  | .optimization => (reader.level value).map fun level => { g with optimization := some level }
  | .verify => (reader.boolean value).map fun on => { g with verify := some on }
  | .stem => (reader.text value).map fun s => { g with stem := some s }
  | .keepText => (reader.boolean value).map fun on => { g with keepText := some on }

/-- Reads a setting that must not be given already. -/
def add {V : Type} (reader : Reader V) (g : Given) (key : Key) (value : V) :
    Except DataError Given :=
  if g.has key then .error { cause := .duplicateField key.name } else g.read reader key value

/-- Reads entries in order. -/
def addAll {V : Type} (reader : Reader V) : Given → List (Entry V) → Except DataError Given
  | g, [] => .ok g
  | _, .broken e :: _ => .error e
  | g, .pair key value :: rest =>
    match Key.ofName? key with
    | none => addAll reader g rest
    | some key =>
      match g.add reader key value with
      | .ok g => addAll reader g rest
      | .error e => .error e

/-- The settings given, and for each of the others what it is if a document leaves it out. -/
def settings (g : Given) : Settings where
  optimization := g.optimization.getD .speed
  verify := g.verify.getD true
  stem := g.stem.getD "kernel"
  keepText := g.keepText.getD false

/-- A document that leaves all settings out gives the default ones. -/
theorem settings_empty : ({} : Given).settings = {} := rfl

end Given

/-- The settings that the entries of a document give. -/
def ofEntries {V : Type} (reader : Reader V) (entries : List (Entry V)) :
    Except DataError Settings :=
  (Given.addAll reader {} entries).map Given.settings

/-- Valid settings, from what a document of a format gives. -/
def ofData (format : Format) (data : Except DataError Settings) : Except Error Settings :=
  match data with
  | .ok s => s.validated
  | .error e => .error (.data format e)

end FusedKernel.Settings
