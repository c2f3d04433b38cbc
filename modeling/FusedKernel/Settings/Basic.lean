/-!
The settings of a compiler: how much to optimize, whether to verify, the stem of generated names
and whether to keep the text of the code. Only stems that are identifiers are valid.
-/
namespace FusedKernel

inductive Optimization
  | none
  | speed
  | speedAndSize
  deriving DecidableEq, Repr, Inhabited

namespace Optimization

def all : List Optimization := [none, speed, speedAndSize]

/-- The level as the code generator is told of it. -/
def setting : Optimization → String
  | none => "none"
  | speed => "speed"
  | speedAndSize => "speed_and_size"

/-- A name of words that start with capitals, written in lower case with underscores between the
words. -/
def snakeCase : List Char → List Char
  | [] => []
  | c :: rest => c.toLower :: rest.flatMap fun c => if c.isUpper then ['_', c.toLower] else [c]

/-- The variant of a level, from which its name in settings files is derived. -/
def variant : Optimization → String
  | none => "None"
  | speed => "Speed"
  | speedAndSize => "SpeedAndSize"

/-- The name of a level in settings files. -/
def name (level : Optimization) : String := String.ofList (snakeCase level.variant.toList)

/-- Settings files name a level as the code generator does. -/
theorem name_eq_setting (level : Optimization) : level.name = level.setting := by
  cases level <;> decide

/-- The level of a name in settings files. -/
def ofName? (s : String) : Option Optimization := all.find? fun level => level.name == s

theorem ofName?_eq_some_iff {s : String} {level : Optimization} :
    ofName? s = some level ↔ s = level.setting := by
  constructor
  · intro h
    have hname : level.name = s := by simpa using List.find?_some h
    rw [← hname, name_eq_setting]
  · rintro rfl
    cases level <;> decide

end Optimization

structure Settings where
  optimization : Optimization := .speed
  verify : Bool := true
  stem : String := "kernel"
  keepText : Bool := false
  deriving DecidableEq, Repr, Inhabited

namespace Settings

def isIdentifierStart (c : Char) : Bool := c.isAlpha || c == '_'

def isIdentifierPart (c : Char) : Bool := c.isAlphanum || c == '_'

/-- Whether a text is an identifier: ASCII letters, digits and underscores, at least one, and no
digit at the start. -/
def isIdentifier (s : List Char) : Bool :=
  match s with
  | [] => false
  | c :: rest => isIdentifierStart c && rest.all isIdentifierPart

/-- Whether settings can be used. -/
def isValid (s : Settings) : Bool := isIdentifier s.stem.toList

/-- A change of one setting, or of all back to their defaults. -/
inductive Change
  | optimization (level : Optimization)
  | verify (on : Bool)
  | stem (s : String)
  | keepText (on : Bool)
  | reset
  deriving DecidableEq, Repr

/-- Settings after a change. Nothing is validated. -/
def change (s : Settings) : Change → Settings
  | .optimization level => { s with optimization := level }
  | .verify on => { s with verify := on }
  | .stem stem => { s with stem }
  | .keepText on => { s with keepText := on }
  | .reset => {}

/-- Settings after changes in order. -/
def changeAll (s : Settings) (changes : List Change) : Settings := changes.foldl change s

end Settings

end FusedKernel
