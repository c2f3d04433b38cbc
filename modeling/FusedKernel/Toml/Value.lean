import FusedKernel.Number.Binary64

/-!
Values of TOML documents. A table knows how it came about, which decides how it may be extended.
-/
namespace FusedKernel.Toml

/-- How a table came about. -/
inductive Origin
  /-- Written in braces. -/
  | inline
  /-- Opened by a header of its own; the root is of this kind. -/
  | header
  /-- Implied by the header of a table within it. -/
  | parent
  /-- Implied by a dotted key. -/
  | dotted
  deriving DecidableEq, Repr

inductive Value
  | text (s : String)
  | integer (n : Int)
  | float (f : Number.Binary64)
  | boolean (b : Bool)
  /-- A date, a time, or both. -/
  | moment
  | array (items : List Value)
  | table (origin : Origin) (entries : List (String × Value))
  /-- Tables opened by headers in double brackets. -/
  | tables (items : List Value)
  deriving Repr

/-- The entries of a table, in the order in which they came. -/
abbrev Entries := List (String × Value)

/-- Whether a value is a collection without members. -/
def Value.isEmptyCollection : Value → Bool
  | array items | tables items => items.isEmpty
  | table _ entries => entries.isEmpty
  | _ => false

/-- The name of a value's kind. -/
def Value.kind : Value → String
  | text _ => "string"
  | integer _ => "integer"
  | float _ => "float"
  | boolean _ => "boolean"
  | moment => "datetime"
  | array _ | tables _ => "array"
  | table .inline _ => "inline table"
  | table _ _ => "table"

namespace Entries

/-- The value under a key. -/
def get? (entries : Entries) (key : String) : Option Value :=
  (entries.find? fun e => e.1 == key).map (·.2)

/-- The entries with another value under a key that is there. -/
def replace (entries : Entries) (key : String) (value : Value) : Entries :=
  entries.map fun e => if e.1 == key then (key, value) else e

/-- The entries with a new one at the end. -/
def append (entries : Entries) (key : String) (value : Value) : Entries :=
  entries ++ [(key, value)]

/-- The entries without those of a key. -/
def remove (entries : Entries) (key : String) : Entries :=
  entries.filter fun e => e.1 != key

end Entries

end FusedKernel.Toml
