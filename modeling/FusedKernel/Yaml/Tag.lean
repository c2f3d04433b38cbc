import FusedKernel.Number.Digits
import FusedKernel.Yaml.Character

/-!
Tags. A tag is a string of octets, not of characters: percent signs can write octets that encode no
character. A zero octet ends it. A tag is written with a shorthand for its start, or in full
between angle brackets.
-/
namespace FusedKernel.Yaml

/-- The octets of a tag. -/
abbrev Tag := List UInt8

namespace Tag

/-- The tag that some characters write. -/
def ofChars (s : Chars) : Tag := s.flatMap String.utf8EncodeChar

/-- A tag ends before its first zero octet. -/
def ended (t : Tag) : Tag := t.takeWhile (· != 0)

/-- The exclamation mark that starts local tags. -/
def mark : Tag := ofChars ['!']

/-- Whether a tag is local. -/
def isLocal (t : Tag) : Bool := t.take 1 == mark

/-- The name that a local tag gives: what follows the exclamation mark, or the mark if nothing does.
Octets that encode no characters give no name. -/
def name? (t : Tag) : Option String :=
  if t.isLocal then
    String.fromUTF8? (if t == mark then t else t.drop 1).toByteArray
  else none

/-- What the tags of the core types start with. -/
def coreStart : Tag := ofChars "tag:yaml.org,2002:".toList

/-- The tag of a core type. -/
def core (name : String) : Tag := coreStart ++ ofChars name.toList

end Tag

/-! ### Octets -/

/-- Reads a percent sign and the two hexadecimal digits of an octet after it. -/
def octet? : Chars → Option UInt8
  | '%' :: c :: d :: _ =>
    match Number.hexValue? c, Number.hexValue? d with
    | some n, some k => some (UInt8.ofNat (16 * n + k))
    | _, _ => none
  | _ => none

/-- The number of octets of a character, from its first octet. -/
def octetCount? (first : UInt8) : Option Nat :=
  if first < 0x80 then some 1
  else if 0xc0 ≤ first ∧ first < 0xe0 then some 2
  else if 0xe0 ≤ first ∧ first < 0xf0 then some 3
  else if 0xf0 ≤ first ∧ first < 0xf8 then some 4
  else none

/-- Reads the further octets of a character. -/
def furtherOctets : Nat → Chars → Option Tag
  | 0, _ => some []
  | count + 1, s =>
    match octet? s with
    | some n =>
      if 0x80 ≤ n ∧ n < 0xc0 then (furtherOctets count (s.drop 3)).map (n :: ·) else none
    | none => none

/-- Reads the octets of a character. Their number must fit the first of them, but they need not be
the shortest or the right ones. -/
def escapedOctets (s : Chars) : Option Tag := do
  let first ← octet? s
  let count ← octetCount? first
  let further ← furtherOctets (count - 1) (s.drop 3)
  return first :: further

/-! ### Written tags -/

/-- Whether a character may stand in a tag. In brackets and in directives some more may. -/
def isTagChar (wide : Bool) (c : Char) : Bool :=
  isWordChar c || c == ';' || c == '/' || c == '?' || c == ':' || c == '@' || c == '&' ||
    c == '=' || c == '+' || c == '$' || c == '.' || c == '%' || c == '!' || c == '~' || c == '*' ||
    c == '\'' || c == '(' || c == ')' || (wide && (c == ',' || c == '[' || c == ']'))

/-- Reads characters of a tag, at most as many as given: their octets, and how many characters were
read. -/
def tagChars (wide : Bool) : Nat → Chars → Option (Tag × Nat)
  | 0, _ => some ([], 0)
  | most + 1, s =>
    match s with
    | [] => some ([], 0)
    | c :: r =>
      if !isTagChar wide c then some ([], 0)
      else if c == '%' then
        match escapedOctets s with
        | none => none
        | some octets =>
          let count := 3 * octets.length
          (tagChars wide most (s.drop count)).map fun (t, n) => (octets ++ t, count + n)
      else (tagChars wide most r).map fun (t, n) => (Tag.ofChars [c] ++ t, n + 1)

/-- Reads a tag's characters after a start that was read already. Nothing at all is refused. -/
def tagText (wide : Bool) (start s : Chars) : Option (Tag × Nat) :=
  match tagChars wide s.length s with
  | some (t, n) =>
    if start.isEmpty && n == 0 then none else some ((Tag.ofChars (start.drop 1) ++ t).ended, n)
  | none => none

/-- Reads a shorthand: an exclamation mark, and perhaps a word and a second one. -/
def tagHandle (s : Chars) : Option Chars :=
  match s with
  | '!' :: r =>
    let word := r.takeWhile isWordChar
    match r.drop word.length with
    | '!' :: _ => some ('!' :: word ++ ['!'])
    | _ => some ('!' :: word)
  | _ => none

/-- Whether a shorthand is closed by a second exclamation mark. -/
def isClosedHandle (handle : Chars) : Bool :=
  1 < handle.length && handle.getLast? == some '!'

/-- Reads a tag before its end is looked at: shorthand, rest, and how many characters were read. -/
def tagBody (s : Chars) : Option (Chars × Tag × Nat) :=
  match s with
  | '!' :: '<' :: r =>
    match tagText true [] r with
    | some (t, n) => if (r.drop n).head? == some '>' then some ([], t, n + 3) else none
    | none => none
  | _ =>
    match tagHandle s with
    | none => none
    | some handle =>
      let r := s.drop handle.length
      if isClosedHandle handle then
        (tagText false [] r).map fun (t, n) => (handle, t, handle.length + n)
      else
        (tagText false handle r).map fun (t, n) =>
          if t.isEmpty then ([], Tag.mark, handle.length + n)
          else (['!'], t, handle.length + n)

end FusedKernel.Yaml
