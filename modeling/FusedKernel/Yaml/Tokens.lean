import FusedKernel.Yaml.Token

/-!
The tokens of a text. Outside brackets the nesting of collections follows from the indentation. A
key need not be marked as one: whatever can be a key is remembered until a colon shows that it was
one, and the marks of the key and of a mapping are then put before it. A token is handed out when it
can no longer get such marks; if the text is broken, the tokens after that are lost.
-/
namespace FusedKernel.Yaml

/-- The place of something that can turn out to be a key. -/
structure KeyCandidate where
  /-- Whether the indentation allows nothing but a key here. -/
  required : Bool
  /-- The number of its first token. -/
  token : Nat
  mark : Mark

structure Lexer where
  rest : Chars
  mark : Mark := {}
  /-- How many brackets are open. -/
  depth : Nat := 0
  /-- Whether a key may start here without a mark. -/
  keyAllowed : Bool := true
  /-- The column of the innermost indented collection, or minus one. -/
  indent : Int := -1
  /-- The columns of the collections around it. -/
  outer : List Int := []
  /-- What can turn out to be a key, for each open bracket and the outermost level. -/
  candidates : List (Option KeyCandidate) := [none]
  /-- The tokens that were handed out. -/
  done : Array Token := #[]
  /-- The tokens that can still get marks before them. -/
  pending : List Token := []

namespace Lexer

/-- The number of the next token. -/
def count (l : Lexer) : Nat := l.done.size + l.pending.length

def inFlow (l : Lexer) : Bool := l.depth != 0

/-- The remembered candidate of the current level. -/
def candidate (l : Lexer) : Option KeyCandidate := l.candidates.head?.join

def setCandidate (l : Lexer) (k : Option KeyCandidate) : Lexer :=
  { l with candidates := k :: l.candidates.tail }

def push (l : Lexer) (t : Token) : Lexer := { l with pending := l.pending ++ [t] }

/-- Puts a token before the one with a number. -/
def insert (l : Lexer) (number : Nat) (t : Token) : Lexer :=
  let position := number - l.done.size
  { l with pending := l.pending.take position ++ t :: l.pending.drop position }

/-- Goes past some characters of a line. -/
def advance (l : Lexer) (n : Nat) : Lexer :=
  { l with rest := l.rest.drop n, mark := l.mark.advance (l.rest.take n) }

/-- Forgets candidates that are too far behind: on another line, or more than 1024 octets away. A
required one must not be forgotten. -/
def dropStale (l : Lexer) : Option Lexer := do
  let candidates ← l.candidates.mapM fun
    | some k =>
      if k.mark.line < l.mark.line || k.mark.index + 1024 < l.mark.index then
        if k.required then none else some none
      else some (some k)
    | none => some none
  return { l with candidates := candidates }

/-- Forgets the candidate of the current level, which must not be required. -/
def forgetKey (l : Lexer) : Option Lexer :=
  match l.candidate with
  | some k => if k.required then none else some (l.setCandidate none)
  | none => some l

/-- Remembers that what follows can be a key. -/
def noteKey (l : Lexer) : Option Lexer :=
  if l.keyAllowed then
    let required := !l.inFlow && l.indent == (l.mark.column : Int)
    let k : KeyCandidate := ⟨required, l.count, l.mark⟩
    l.forgetKey.map fun l => l.setCandidate (some k)
  else some l

/-- Closes the collections that are indented further than a column. -/
def unindent (l : Lexer) (column : Int) : Lexer :=
  if l.inFlow then l else close l.outer l
where
  /-- Closes collections one by one, given the columns of those around. -/
  close : List Int → Lexer → Lexer
    | [], l => l
    | around :: rest, l =>
      if column < l.indent then close rest { l.push .blockEnd with indent := around, outer := rest }
      else l

/-- Opens a collection at a column if that is indented further. Its mark goes before the token with
a number, or to the end. -/
def openAt (l : Lexer) (column : Nat) (before : Option Nat) (t : Token) : Lexer :=
  if l.inFlow || column ≤ l.indent then l
  else
    let l := { l with indent := column, outer := l.indent :: l.outer }
    match before with
    | some number => l.insert number t
    | none => l.push t

/-- Drops spaces, comments and line ends before a token. A tab is dropped only where no key may
start. After a line end outside brackets a key may start. -/
def skipToToken (inFlow : Bool) : Nat → Bool → Chars → Mark → Bool × Chars × Mark
  | 0, keyAllowed, s, m => (keyAllowed, s, m)
  | steps + 1, keyAllowed, s, m =>
    match s with
    | [] => (keyAllowed, [], m)
    | c :: r =>
      if m.column == 0 && c == byteOrderMark then skipToToken inFlow steps keyAllowed r (m.next c)
      else if c == ' ' || (c == '\t' && (inFlow || !keyAllowed)) then
        skipToToken inFlow steps keyAllowed r (m.next c)
      else if c == '#' then
        let comment := s.takeWhile fun c => !isBreak c
        skipToToken inFlow steps keyAllowed (s.drop comment.length) (m.advance comment)
      else
        match lineBreak m s with
        | some (_, r, m) => skipToToken inFlow steps (keyAllowed || !inFlow) r m
        | none => (keyAllowed, s, m)

/-- Ends all indented collections before a mark of a document or a directive. -/
def leaveBlocks (l : Lexer) : Option Lexer := do
  let l ← (l.unindent (-1)).forgetKey
  return { l with keyAllowed := false }

/-- Reads the mark of a document. -/
def documentMark (l : Lexer) (t : Token) : Option Lexer :=
  l.leaveBlocks.map fun l => (l.advance 3).push t

def openFlow (l : Lexer) (t : Token) : Option Lexer :=
  l.noteKey.map fun l =>
    ({ l with candidates := none :: l.candidates, depth := l.depth + 1,
              keyAllowed := true }.advance 1).push t

def closeFlow (l : Lexer) (t : Token) : Option Lexer :=
  l.forgetKey.map fun l =>
    let candidates := if l.inFlow then l.candidates.tail else l.candidates
    ({ l with candidates, depth := l.depth - 1, keyAllowed := false }.advance 1).push t

def flowEntry (l : Lexer) : Option Lexer :=
  l.forgetKey.map fun l => ({ l with keyAllowed := true }.advance 1).push .flowEntry

def blockEntry (l : Lexer) : Option Lexer := do
  if !l.inFlow && !l.keyAllowed then none
  let l ← (l.openAt l.mark.column none .blockSequenceStart).forgetKey
  return ({ l with keyAllowed := true }.advance 1).push .blockEntry

/-- Reads the mark of a key. -/
def keyMark (l : Lexer) : Option Lexer := do
  if !l.inFlow && !l.keyAllowed then none
  let l ← (l.openAt l.mark.column none .blockMappingStart).forgetKey
  return ({ l with keyAllowed := !l.inFlow }.advance 1).push .key

/-- Reads the mark of a value, which turns a remembered candidate into a key. -/
def valueMark (l : Lexer) : Option Lexer :=
  match l.candidate with
  | some k =>
    let l := l.insert k.token .key
    let l := l.openAt k.mark.column (some k.token) .blockMappingStart
    let l := { l.setCandidate none with keyAllowed := false }
    some ((l.advance 1).push .value)
  | none =>
    if !l.inFlow && !l.keyAllowed then none
    else
      let l := l.openAt l.mark.column none .blockMappingStart
      some (({ l with keyAllowed := !l.inFlow }.advance 1).push .value)

/-- Reads something that can be a key, or the start of one, within a line. -/
def word (l : Lexer) (read : Chars → Option (Token × Nat)) : Option Lexer := do
  let l ← l.noteKey
  let (t, n) ← read l.rest
  return ({ l with keyAllowed := false }.advance n).push t

/-- Takes over what was read as a scalar. -/
def takeScalar (l : Lexer) (style : Style) (s : Scanned) (keyAllowed : Bool) : Lexer :=
  { l with rest := s.rest, mark := s.mark, keyAllowed := keyAllowed }.push (.scalar style s.text)

def quotedScalar (l : Lexer) (style : Style)
    (read : Chars → Mark → Gap → Option Scanned) : Option Lexer := do
  let l ← l.noteKey
  let inside := l.advance 1
  let s ← read inside.rest inside.mark {}
  return l.takeScalar style s false

def plainScalar (l : Lexer) : Option Lexer := do
  let l ← l.noteKey
  let s ← plain l.inFlow (l.indent + 1) l.rest l.mark {}
  return l.takeScalar .plain s s.breaks

def blockOfLines (l : Lexer) (style : Style) : Option Lexer := do
  let l ← l.forgetKey
  let inside := l.advance 1
  let s ← blockScalar (style == .literal) l.indent inside.rest inside.mark
  return l.takeScalar style s true

/-- Whether a plain scalar can start here. -/
def startsPlain (inFlow : Bool) : Chars → Bool
  | [] => false
  | c :: s =>
    if c == '-' then !((s.head?.map isSpace).getD false)
    else if c == '?' || c == ':' then !inFlow && !atGap s
    else !(isSpace c || isBreak c || isFlowIndicator c || c == '#' || c == '&' || c == '*' ||
      c == '!' || c == '|' || c == '>' || c == '\'' || c == '"' || c == '%' || c == '@' ||
      c == '\x60')

/-- Reads the end of the text. -/
def finish (l : Lexer) : Option Lexer :=
  let m :=
    if l.mark.column = 0 then l.mark else { l.mark with line := l.mark.line + 1, column := 0 }
  ({ l with mark := m } : Lexer).leaveBlocks.map fun l => l.push .streamEnd

/-- Reads the token that starts here. -/
def readToken (l : Lexer) : Option Lexer :=
  match l.rest with
  | [] => l.finish
  | c :: s =>
    if l.mark.column == 0 && c == '%' then do
      let l ← l.leaveBlocks
      let (t, n) ← directive s
      return (l.advance (n + 1)).push t
    else if l.mark.column == 0 && atDocumentMark '-' (c :: s) then l.documentMark .documentStart
    else if l.mark.column == 0 && atDocumentMark '.' (c :: s) then l.documentMark .documentEnd
    else if c == '[' then l.openFlow .flowSequenceStart
    else if c == '\x7b' then l.openFlow .flowMappingStart
    else if c == ']' then l.closeFlow .flowSequenceEnd
    else if c == '\x7d' then l.closeFlow .flowMappingEnd
    else if c == ',' then l.flowEntry
    else if c == '-' && atGap s then l.blockEntry
    else if c == '?' && (l.inFlow || atGap s) then l.keyMark
    else if c == ':' && (l.inFlow || atGap s) then l.valueMark
    else if c == '*' then
      l.word fun s => (anchorName (s.drop 1)).map fun (name, n) => (.reference name, n + 1)
    else if c == '&' then
      l.word fun s => (anchorName (s.drop 1)).map fun (name, n) => (.anchor name, n + 1)
    else if c == '!' then l.word (tag l.inFlow)
    else if c == '|' && !l.inFlow then l.blockOfLines .literal
    else if c == '>' && !l.inFlow then l.blockOfLines .folded
    else if c == '\'' then l.quotedScalar .singleQuoted singleQuoted
    else if c == '"' then l.quotedScalar .doubleQuoted doubleQuoted
    else if startsPlain l.inFlow (c :: s) then l.plainScalar
    else none

/-- Goes to the next token and reads it. -/
def advanceToken (l : Lexer) : Option Lexer := do
  let (keyAllowed, rest, mark) :=
    skipToToken l.inFlow (l.rest.length + 1) l.keyAllowed l.rest l.mark
  let l ← { l with keyAllowed, rest, mark }.dropStale
  (l.unindent mark.column).readToken

/-- Whether a token can still get marks before it. -/
def isCandidate (l : Lexer) (number : Nat) : Bool :=
  l.candidates.any fun k => (k.map (·.token)) == some number

/-- Hands out tokens up to the first that can still get marks before it. -/
def handOut (l : Lexer) : Lexer := go l.pending l
where
  /-- Hands out some of the pending tokens. -/
  go : List Token → Lexer → Lexer
    | [], l => { l with pending := [] }
    | t :: rest, l =>
      if l.isCandidate l.done.size then { l with pending := t :: rest }
      else go rest { l with done := l.done.push t, pending := rest }

end Lexer

/-- The tokens of a text. If the text is broken, they are those before the fault, and the last is
not the end of the stream. -/
def tokens (text : Chars) : List Token :=
  if text.all isAllowed then go (2 * text.length + 2) { rest := text } else []
where
  /-- Reads at most a number of tokens. -/
  go : Nat → Lexer → List Token
    | 0, l => l.done.toList
    | most + 1, l =>
      match l.advanceToken with
      | none => l.done.toList
      | some next =>
        match next.dropStale with
        | none => l.done.toList
        | some next =>
          let next := next.handOut
          if next.done.back? == some .streamEnd then next.done.toList else go most next

end FusedKernel.Yaml
