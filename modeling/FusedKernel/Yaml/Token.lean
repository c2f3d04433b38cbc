import FusedKernel.Yaml.Scalar
import FusedKernel.Yaml.Tag

/-!
Tokens of YAML, and the readings of those that are written as words: names of anchors, tags and
directives. A reading gives what was read and how many characters that took, or nothing if the text
breaks the rules there.
-/
namespace FusedKernel.Yaml

inductive Token
  | streamEnd
  | version (major minor : Nat)
  /-- A shorthand for the start of tags. -/
  | shorthand (handle : Chars) (start : Tag)
  | documentStart
  | documentEnd
  | blockSequenceStart
  | blockMappingStart
  | blockEnd
  | flowSequenceStart
  | flowSequenceEnd
  | flowMappingStart
  | flowMappingEnd
  | blockEntry
  | flowEntry
  | key
  | value
  /-- An alias, by the name of its anchor. -/
  | reference (name : Chars)
  | anchor (name : Chars)
  /-- A tag: its shorthand, which may be empty, and the rest. -/
  | tag (handle : Chars) (suffix : Tag)
  | scalar (style : Style) (text : Chars)
  deriving DecidableEq, Repr

/-- Whether a character may follow the name of an anchor directly. -/
def endsAnchor : Chars → Bool
  | [] => true
  | c :: _ =>
    isSpace c || isBreak c || c == '?' || c == ':' || c == ',' || c == ']' || c == '\x7d' ||
      c == '%' || c == '@' || c == '\x60'

/-- Reads the name of an anchor. -/
def anchorName (s : Chars) : Option (Chars × Nat) :=
  let name := s.takeWhile isWordChar
  if name.isEmpty || !endsAnchor (s.drop name.length) then none else some (name, name.length)

/-- Reads a tag, which must be set off from what follows. -/
def tag (flow : Bool) (s : Chars) : Option (Token × Nat) :=
  match tagBody s with
  | some (handle, suffix, n) =>
    let r := s.drop n
    if atGap r || (flow && r.head? == some ',') then some (.tag handle suffix, n) else none
  | none => none

/-! ### Directives -/

/-- Reads a number of at most nine digits. -/
def versionNumber (s : Chars) : Option (Nat × Chars) :=
  let digits := s.takeWhile Char.isDigit
  if digits.isEmpty || 9 < digits.length then none
  else some (Number.ofDigits 10 digits, s.drop digits.length)

/-- Reads a version: two numbers with a dot between them. -/
def versionDirective (s : Chars) : Option (Token × Chars) := do
  let (major, s) ← versionNumber (s.dropWhile isSpace)
  match s with
  | '.' :: s =>
    let (minor, s) ← versionNumber s
    return (.version major minor, s)
  | _ => none

/-- Reads a shorthand and, set off from it, the start of tags that it stands for. -/
def shorthandDirective (s : Chars) : Option (Token × Chars) := do
  let s := s.dropWhile isSpace
  let handle ← tagHandle s
  let r := s.drop handle.length
  if (handle == ['!'] || isClosedHandle handle) && (r.head?.map isSpace).getD false then
    let r := r.dropWhile isSpace
    let (start, n) ← tagText true [] r
    if atGap (r.drop n) then return (.shorthand handle start, r.drop n) else none
  else none

/-- Reads a directive after its percent sign, up to the end of its line. -/
def directive (s : Chars) : Option (Token × Nat) := do
  let name := s.takeWhile isWordChar
  let r := s.drop name.length
  let (token, r) ←
    if !atGap r then none
    else if name == "YAML".toList then versionDirective r
    else if name == "TAG".toList then shorthandDirective r
    else none
  let r := r.dropWhile isSpace
  let r := if r.head? == some '#' then r.dropWhile fun c => !isBreak c else r
  if atLineEnd r then return (token, s.length - r.length) else none

end FusedKernel.Yaml
