import FusedKernel.Settings.Document
import FusedKernel.Yaml.Document
import FusedKernel.Yaml.Resolution

/-!
Settings from YAML. Only plain scalars can be booleans; a text may be any scalar; a level is a
scalar or a tag. Faults of values name the key that they stand under. A fault has a position unless
that is the start of the text.
-/
namespace FusedKernel.Settings

namespace Yaml

open FusedKernel.Yaml (Chars Tag Style Head Ref Item Meaning Document Stream meaning boolean?
  integer? float? isNullWord startsWithNode startsWithAnchoredKey)

/-- An integer as it was found: those of more than 64 bits, signed or not, are told apart. -/
def foundInteger (n : Int) : Found :=
  if -0x8000000000000000 ≤ n ∧ n < 0x10000000000000000 then .integer n else .longInteger n

def foundMeaning : Meaning → Found
  | .null => .unit
  | .boolean b => .boolean b
  | .integer n => foundInteger n
  | .float f => .float f
  | .text s => .text (String.ofList s)

/-- What a text is that must be of the type of a core tag. -/
def foundTagged (text : Chars) (read : Option Found) (expected : Expected) : Except Cause Found :=
  match read with
  | some found => .ok found
  | none => .error (.invalidValue (String.ofList text) expected)

/-- What a scalar is, where something else was expected. A core tag decides its type, and then the
text must fit; with any other tag but a local one, or with quotes, it is a text. -/
def foundScalar (tag : Option Tag) (style : Style) (text : Chars) : Except Cause Found :=
  let asText : Found := .text (String.ofList text)
  match tag with
  | none => .ok (if style = .plain then foundMeaning (meaning text) else asText)
  | some tag =>
    if tag == .core "bool" then foundTagged text ((boolean? text).map .boolean) .boolean
    else if tag == .core "int" then foundTagged text ((integer? text).map foundInteger) .integer
    else if tag == .core "float" then foundTagged text ((float? text).map .float) .float
    else if tag == .core "null" then
      foundTagged text (if isNullWord text then some .unit else none) .null
    else .ok (if tag.isLocal && style = .plain then foundMeaning (meaning text) else asText)

/-- The fault of a node where something else was expected. -/
def unexpected (expected : Expected) : Head → Cause
  | .scalar tag style text =>
    match foundScalar tag style text with
    | .ok found => .invalidType found expected
    | .error cause => cause
  | .sequence _ => .invalidType .sequence expected
  | .mapping _ => .invalidType .map expected

/-- A value with the name of the place where it stands. -/
structure Placed where
  place : String
  /-- The value's node, if it is there. -/
  node : Option Ref
  /-- Whether the node has a position. -/
  located : Bool

/-- Reads a value that must be there. Faults are reported at its place. -/
def Placed.read {α : Type} (p : Placed) (f : Head → Except Cause α) : Except DataError α :=
  match p.node with
  | none => .error { cause := .malformed }
  | some node =>
    match f node.head with
    | .ok x => .ok x
    | .error cause => .error { place := p.place, cause, located := p.located }

def booleanOf : Head → Except Cause Bool
  | .scalar tag style text =>
    let fits := style = .plain || (style = .literal && tag == some (.core "bool"))
    match if fits then boolean? text else none with
    | some b => .ok b
    | none => .error (unexpected .boolean (.scalar tag style text))
  | head => .error (unexpected .boolean head)

def textOf : Head → Except Cause String
  | .scalar _ _ text => .ok (String.ofList text)
  | head => .error (unexpected .text head)

def tagOf : Head → Option Tag
  | .scalar tag _ _ | .sequence tag | .mapping tag => tag

/-- A level that is named by a tag has no content. -/
def noContent : Head → Except Cause Unit
  | .scalar _ style text =>
    if style = .plain && (text.isEmpty || isNullWord text) then .ok ()
    else .error (.invalidValue (String.ofList text) .null)
  | head => .error (unexpected .nothing head)

/-- The level of a scalar's text, where no tag names it. -/
def levelOf : Head → Except Cause Optimization
  | .scalar _ _ text =>
    match Optimization.ofName? (String.ofList text) with
    | some level => .ok level
    | none => .error (.unknownVariant (String.ofList text))
  | head => .error (unexpected .tag head)

/-- The name that the tag of a value gives. -/
def Placed.tagName? (p : Placed) : Option String :=
  p.node.bind fun node => (tagOf node.head).bind Tag.name?

/-- Whether an alias stands for the value. -/
def Placed.isAliased (p : Placed) : Bool := (p.node.map Ref.isAliased).getD false

/-- Reads a level. A tag that names none is reported without a place, unless an alias leads to
it. -/
def level (p : Placed) : Except DataError Optimization :=
  match p.tagName? with
  | none => p.read levelOf
  | some name =>
    match Optimization.ofName? name with
    | some level => (p.read noContent).map fun _ => level
    | none =>
      .error { place := if p.isAliased then some p.place else none, cause := .unknownVariant name }

def reader : Reader Placed where
  level := level
  boolean p := p.read booleanOf
  text p := p.read textOf

/-- The entry of an item. A key must be a scalar; an alias hides its name as a place. A value has a
position unless it is an alias for a key at the start of the text, as `keyAtStart` says of the first
anchor. -/
def entry (keyAtStart : Bool) : Item → Entry Placed
  | .cut => .broken { cause := .malformed }
  | .pair ⟨.scalar _ _ text, anchor⟩ value =>
    let key := String.ofList text
    let place := if anchor.isSome then "?" else key
    .pair key ⟨place, value, !(keyAtStart && value.bind Ref.anchor == some 0)⟩
  | .pair ⟨head, _⟩ _ => .broken { cause := unexpected .key head }

/-- What the root of a document gives. A root without content is read like a mapping without
items. -/
def ofRoot (keyAtStart : Bool) (d : Document) : Except DataError Settings :=
  match d.root with
  | none => .error { cause := .malformed }
  | some (.mapping _) => ofEntries reader (d.items.map (entry keyAtStart))
  | some (.scalar tag style text) =>
    if style = .plain && text.isEmpty then ofEntries reader []
    else .error { cause := unexpected .settings (.scalar tag style text) }
  | some head => .error { cause := unexpected .settings head }

/-- A fault whose position is unknown, if it is that of the root at the start of a text. -/
def unlocated (atStart : Bool) (e : DataError) : DataError :=
  if atStart && e.place.isNone then { e with located := false } else e

/-- What a text gives, before it is validated. Faults of the document's data are reported before
faults of the text behind them. -/
def read (s : String) : Except DataError Settings :=
  match Stream.ofText s.toList with
  | .empty => ofEntries reader []
  | .document events whole =>
    let d := Document.ofEvents events whole
    match ofRoot (startsWithAnchoredKey s.toList events) d with
    | .error e => .error (unlocated (startsWithNode s.toList) e)
    | .ok settings => if d.whole then .ok settings else .error { cause := .malformed }

end Yaml

/-- Valid settings from a YAML document. -/
def ofYaml (s : String) : Except Error Settings := ofData .yaml (Yaml.read s)

end FusedKernel.Settings
