import FusedKernel.Console.Event
import FusedKernel.Text.Blank

/-!
Coloured lines for the records of kernel events. A record is shown if its target starts with the
name of the compiler and its kind is known; each kind shows some of the fields, by their last value.
The time at the start of a line stands as the letter `T`.
-/
namespace FusedKernel.Console

/-- The last values of the fields that can be shown. -/
structure Shown where
  event : Option String := none
  name : Option String := none
  op1 : Option String := none
  op2 : Option String := none
  count : Option Nat := none
  deriving DecidableEq, Repr

namespace Shown

/-- The shown fields after a text is recorded. Other fields are ignored. -/
def putText (s : Shown) (key text : String) : Shown :=
  match key with
  | "event" => { s with event := some text }
  | "name" => { s with name := some text }
  | "op1" => { s with op1 := some text }
  | "op2" => { s with op2 := some text }
  | _ => s

/-- A description without the quotes at its two ends. -/
def unquoted (description : String) : String :=
  String.ofList (Text.trimBy (· == '"') description.toList)

/-- The shown fields after a field is recorded. -/
def put (s : Shown) (field : Field) : Shown :=
  match field.value with
  | .text text => s.putText field.key text
  | .described description => s.putText field.key (unquoted description)
  | .count n => if field.key = "kernel_count" then { s with count := some n } else s

/-- The shown fields of a record. -/
def ofFields (fields : List Field) : Shown := fields.foldl put {}

end Shown

/-- A text between the codes that turn a colour on and off. -/
def colored (code : Nat) (text : String) : String :=
  "\x1b[" ++ toString code ++ "m" ++ text ++ "\x1b[39m"

def gray : String → String := colored 90

def yellow : String → String := colored 33

def white : String → String := colored 37

def cyan : String → String := colored 96

/-- A text in bold. -/
def bold (text : String) : String := "\x1b[1m" ++ text ++ "\x1b[0m"

/-- The text of a field that may be missing. -/
def orUnknown (text : Option String) : String := text.getD "?"

/-- The kinds of event that have a line. -/
inductive Kind
  | compiled
  | linked
  | resolved
  | duplicate
  deriving DecidableEq, Repr

namespace Kind

def ofName? : String → Option Kind
  | "kernel_compiled" => some compiled
  | "unit_finalized" => some linked
  | "symbol_resolved" => some resolved
  | "duplicate_symbol" => some duplicate
  | _ => none

/-- The level's name, in its colour. -/
def levelText : Kind → String
  | compiled => colored 94 "DEBUG"
  | linked => colored 92 "INFO"
  | resolved => gray "TRACE"
  | duplicate => colored 93 "WARN"

/-- The activity in which an event arises. -/
def activity : Kind → String
  | compiled => "[compile]"
  | linked => "[link]"
  | resolved => "[resolve]"
  | duplicate => "[compile]"

/-- The part of a line that shows fields. -/
def message (s : Shown) : Kind → String
  | compiled =>
    bold (white (orUnknown s.name)) ++ " = (a " ++ yellow (orUnknown s.op1) ++ " b) " ++
      yellow (orUnknown s.op2) ++ " c"
  | linked => "linked " ++ colored 95 (toString (s.count.getD 0)) ++ " kernel(s)"
  | resolved => white (orUnknown s.name)
  | duplicate => "symbol " ++ bold (white (orUnknown s.name)) ++ " already defined"

/-- The line of an event, with its end. -/
def line (kind : Kind) (s : Shown) : String :=
  gray "T" ++ " " ++ kind.levelText ++ " " ++ cyan kind.activity ++ " " ++ kind.message s ++ "\n"

end Kind

namespace Shown

/-- What is printed for the shown fields: a line for a known kind, else nothing. -/
def text (s : Shown) : String :=
  match s.event.bind Kind.ofName? with
  | some kind => kind.line s
  | none => ""

end Shown

/-- Which records reach the console. -/
inductive Mode
  /-- All of them. -/
  | layer
  /-- Those of level `info` and graver. -/
  | init
  deriving DecidableEq, Repr

def Mode.lets : Mode → Level → Bool
  | layer, _ => true
  | init, level => level = .error || level = .warn || level = .info

/-- What the console prints for a record. -/
def Mode.print (mode : Mode) (r : Record) : String :=
  if mode.lets r.level && "kernjit".toList.isPrefixOf r.target.toList then
    (Shown.ofFields r.fields).text
  else ""

/-- What the console prints for some events, in order. -/
def Mode.printAll (mode : Mode) (events : List Event) : String :=
  String.join (events.map fun e => mode.print e.record)

end FusedKernel.Console
