import FusedKernel.Toml.Number
import FusedKernel.Toml.Table

/-!
TOML documents: keys, values and lines. Values nest at most 79 deep, and keys have at most 79 parts.
The first fault of a text counts, be it one of the grammar or one of keys: a line is taken into
account before the next is read, and the pairs in braces before the closing brace.
-/
namespace FusedKernel.Toml

/-- The greatest depth of arrays and tables in each other, and the greatest number of key parts. -/
def nestingLimit : Nat := 79

/-! ### Keys -/

/-- Reads one part of a key. -/
def keyPart : Chars → Reading String
  | '"' :: s => .started ((basicText s).map fun (text, r) => (String.ofList text, r))
  | '\'' :: s => .started ((literalText s).map fun (text, r) => (String.ofList text, r))
  | s =>
    let bare := s.takeWhile isBareKeyChar
    if bare.isEmpty then .absent else .read (String.ofList bare) (s.dropWhile isBareKeyChar)

/-- Reads the parts of a key, at most as many as given, with dots between them and spaces around
each. A dot that no part follows is not read. -/
def keyParts : Nat → Chars → Reading (List String)
  | 0, _ => .broken
  | most + 1, s =>
    (keyPart (skipSpaces s)).andThen fun part s =>
      match skipSpaces s with
      | '.' :: r =>
        match keyParts most r with
        | .absent => .read [part] ('.' :: r)
        | .broken => .broken
        | .read parts rest => .read (part :: parts) rest
      | s => .read [part] s

/-- Reads a key: the parts but the last, and the last. Too many parts are none. -/
def key (s : Chars) : Reading (List String × String) :=
  (keyParts (s.length + 1) s).andThen fun parts rest =>
    match parts.getLast? with
    | some last =>
      if parts.length ≤ nestingLimit then .read (parts.dropLast, last) rest else .absent
    | none => .absent

/-! ### Values -/

/-- What a reading gives that must succeed. -/
def required {α : Type} (read : Option α) : Except Fault α :=
  match read with
  | some x => .ok x
  | none => .error .malformed

/-- Reads a value that is not a collection. -/
def simpleValue (s : Chars) : Reading Value :=
  match s with
  | '"' :: _ | '\'' :: _ => .started ((quotedText s).map fun (text, r) => (.text text, r))
  | 't' :: 'r' :: 'u' :: 'e' :: r => .read (.boolean true) r
  | 'f' :: 'a' :: 'l' :: 's' :: 'e' :: r => .read (.boolean false) r
  | s => numberOrMoment s

/-- Reads array items up to the closing bracket, at most as many as given, each followed by a comma
or the bracket. -/
def arrayItems (value : Chars → Except Fault (Value × Chars)) : Nat → Chars →
    Except Fault (List Value × Chars)
  | 0, _ => .error .malformed
  | most + 1, s =>
    match skipFiller s with
    | ']' :: s => .ok ([], s)
    | s => do
      let (item, s) ← value s
      match skipFiller s with
      | ',' :: s =>
        let (items, s) ← arrayItems value most s
        return (item :: items, s)
      | ']' :: s => return ([item], s)
      | _ => .error .malformed

/-- Reads an equals sign and a value. -/
def assigned (value : Chars → Except Fault (Value × Chars)) (s : Chars) :
    Except Fault (Value × Chars) := do
  let s ← required (expect '=' s)
  value (skipSpaces s)

/-- Reads pairs with commas between them, at most as many as given. A comma that no key follows is
not read. -/
def inlinePairs (value : Chars → Except Fault (Value × Chars)) : Nat → Chars →
    Except Fault (List (List String × String × Value) × Chars)
  | 0, s => .ok ([], s)
  | most + 1, s =>
    match key s with
    | .absent => .ok ([], s)
    | .broken => .error .malformed
    | .read (path, last) s => do
      let (v, s) ← assigned value s
      let p := (path, last, v)
      match skipSpaces s with
      | ',' :: r =>
        let (ps, rest) ← inlinePairs value most r
        return if ps.isEmpty then ([p], ',' :: r) else (p :: ps, rest)
      | s => return ([p], s)

/-- Reads a table up to its closing brace. -/
def inlineTableBody (value : Chars → Except Fault (Value × Chars)) (s : Chars) :
    Except Fault (Value × Chars) := do
  let (pairs, s) ← inlinePairs value (s.length + 1) s
  let entries ← (inlineTable pairs []).mapError .pair
  let s ← required (expect '\x7d' (skipSpaces s))
  return (.table .inline entries, s)

/-- Reads a value in which collections nest at most as deep as given. -/
def value : Nat → Chars → Except Fault (Value × Chars)
  | 0, s => (simpleValue s).required
  | depth + 1, s =>
    match s with
    | '[' :: s =>
      (arrayItems (value depth) (s.length + 1) s).map fun (items, r) => (.array items, r)
    | '\x7b' :: s => inlineTableBody (value depth) s
    | s => (simpleValue s).required

/-! ### Lines -/

/-- Reads a line that says something, up to its end. -/
def line (s : Chars) : Except Fault (Line × Chars) :=
  match s with
  | '[' :: '[' :: s => do
    let ((path, last), s) ← (key s).required
    let s ← required (expect ']' s)
    let s ← required (expect ']' s)
    return (.element path last, s)
  | '[' :: s => do
    let ((path, last), s) ← (key s).required
    let s ← required (expect ']' s)
    return (.table path last, s)
  | s => do
    let ((path, last), s) ← (key s).required
    let (v, s) ← assigned (value nestingLimit) s
    return (.pair path last v, s)

/-- Reads a line with its end. -/
def wholeLine (s : Chars) : Except Fault (Line × Chars) := do
  let (l, s) ← line s
  let s ← required (lineEnd? s)
  return (l, s)

/-- Reads lines up to the end of the text, at most as many as given: the lines before the first that
cannot be read, and the fault of that one. -/
def linesOf : Nat → Chars → List Line × Option Fault
  | 0, _ => ([], some .malformed)
  | most + 1, s =>
    match skipSpaces s with
    | [] => ([], none)
    | '#' :: s =>
      match lineEnd? ('#' :: s) with
      | some s => linesOf most s
      | none => ([], some .malformed)
    | '\n' :: s | '\r' :: '\n' :: s => linesOf most s
    | s =>
      match wholeLine s with
      | .error fault => ([], some fault)
      | .ok (l, s) =>
        let (ls, fault) := linesOf most s
        (l :: ls, fault)

/-- The text without a byte order mark at its start. -/
def dropMark : Chars → Chars
  | '\ufeff' :: s => s
  | s => s

/-- The entries of a document's root table, if the text is a TOML document. -/
def parse (text : String) : Except Fault Entries := do
  let s := dropMark text.toList
  let (lines, fault) := linesOf (s.length + 1) s
  let entries ← ofLines lines
  match fault with
  | some fault => .error fault
  | none => return entries

end FusedKernel.Toml
