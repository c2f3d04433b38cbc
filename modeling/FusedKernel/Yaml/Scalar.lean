import FusedKernel.Number.Digits
import FusedKernel.Yaml.Character

/-!
Scalars: plain ones, which end at an indicator, quoted ones, and blocks of indented lines. In plain
and quoted scalars line ends are folded: a single one becomes a space, and of several the first is
dropped.
-/
namespace FusedKernel.Yaml

inductive Style
  | plain
  | singleQuoted
  | doubleQuoted
  | literal
  | folded
  deriving DecidableEq, Repr

/-- Spaces and line ends between two pieces of text. -/
structure Gap where
  /-- Spaces, as long as there is no line end. -/
  spaces : Chars := []
  /-- The first line end, if there is one; an escaped one is empty. -/
  first : Option Chars := none
  /-- The line ends after the first. -/
  more : Chars := []

namespace Gap

def isEmpty (g : Gap) : Bool := g.spaces.isEmpty && g.first.isNone

/-- Whether the gap spans a line end. -/
def breaks (g : Gap) : Bool := g.first.isSome

/-- The gap with a further space. Spaces after a line end are dropped. -/
def addSpace (g : Gap) (c : Char) : Gap :=
  if g.breaks then g else { g with spaces := g.spaces ++ [c] }

/-- The gap with a further line end. Spaces before the first are dropped. -/
def addBreak (g : Gap) (c : Char) : Gap :=
  if g.breaks then { g with more := g.more ++ [c] }
  else { spaces := [], first := some [c], more := [] }

/-- A gap that starts with an escaped line end. -/
def escapedBreak : Gap := { first := some [] }

/-- The text that a gap stands for. -/
def text (g : Gap) : Chars :=
  match g.first with
  | none => g.spaces
  | some ['\n'] => if g.more.isEmpty then [' '] else g.more
  | some first => first ++ g.more

@[simp] theorem text_default : ({} : Gap).text = [] := rfl

@[simp] theorem isEmpty_default : ({} : Gap).isEmpty = true := rfl

end Gap

/-- A scalar as it was read, and where reading stopped. -/
structure Scanned where
  text : Chars
  rest : Chars
  mark : Mark
  /-- Whether line ends were passed after the last piece of text. -/
  breaks : Bool := false

/-- The same scalar with further text at its start. -/
def Scanned.prepend (text : Chars) (s : Scanned) : Scanned := { s with text := text ++ s.text }

/-! ### Plain scalars -/

def isFlowIndicator (c : Char) : Bool :=
  c == ',' || c == '[' || c == ']' || c == '\x7b' || c == '\x7d'

/-- Whether an indicator that ends a plain scalar comes next. -/
def endsPlain (flow : Bool) : Chars → Bool
  | [] => true
  | c :: s => (c == ':' && atGap s) || (flow && isFlowIndicator c)

/-- Whether a colon that a flow collection does not allow comes next. -/
def strayColon (flow : Bool) : Chars → Bool
  | ':' :: c :: _ => flow && (c == '?' || isFlowIndicator c)
  | _ => false

/-- Whether a plain scalar ends before text that follows a gap: by its column, by a mark of a
document, or by a comment. -/
def endsAfterGap (flow : Bool) (indent : Int) (m : Mark) (s : Chars) : Bool :=
  (!flow && m.column < indent) || (m.column == 0 && atDocumentEdge s) || s.head? == some '#'

/-- Reads a plain scalar whose lines are indented at least as far as given. -/
def plain (flow : Bool) (indent : Int) : Chars → Mark → Gap → Option Scanned
  | [], m, g => some ⟨[], [], m, g.breaks⟩
  | '\r' :: '\n' :: s, m, g => plain flow indent s (m.newline ['\r', '\n']) (g.addBreak '\n')
  | c :: s, m, g =>
    if isSpace c then
      if g.breaks && m.column < indent && c == '\t' then none
      else plain flow indent s (m.next c) (g.addSpace c)
    else if isBreak c then plain flow indent s (m.newline [c]) (g.addBreak (breakChar c))
    else if !g.isEmpty && endsAfterGap flow indent m (c :: s) then
      some ⟨[], c :: s, m, g.breaks⟩
    else if strayColon flow (c :: s) then none
    else if endsPlain flow (c :: s) then some ⟨[], c :: s, m, g.breaks⟩
    else (plain flow indent s (m.next c) {}).map (Scanned.prepend (g.text ++ [c]))

/-! ### Quoted scalars -/

/-- The character that a letter after a backslash stands for. -/
def escapedChar? : Char → Option Char
  | '0' => some '\x00'
  | 'a' => some '\x07'
  | 'b' => some '\x08'
  | 't' | '\t' => some '\t'
  | 'n' => some '\n'
  | 'v' => some '\x0b'
  | 'f' => some '\x0c'
  | 'r' => some '\r'
  | 'e' => some '\x1b'
  | ' ' => some ' '
  | '"' => some '"'
  | '/' => some '/'
  | '\\' => some '\\'
  | 'N' => some '\u0085'
  | '_' => some '\u00a0'
  | 'L' => some '\u2028'
  | 'P' => some '\u2029'
  | _ => none

/-- The number of hexadecimal digits after a letter that calls for them. -/
def hexEscape? : Char → Option Nat
  | 'x' => some 2
  | 'u' => some 4
  | 'U' => some 8
  | _ => none

/-- Reads what follows a backslash: the character meant, and how many characters were read. -/
def escape : Chars → Option (Char × Nat)
  | [] => none
  | c :: s =>
    match hexEscape? c with
    | some digits =>
      let taken := s.take digits
      let code := Number.ofDigits 16 taken
      if taken.length = digits ∧ taken.all (Number.isDigit 16) ∧ code.isValidChar then
        some (Char.ofNat code, digits + 1)
      else none
    | none => (escapedChar? c).map fun d => (d, 1)

/-- Reads up to a closing single quote. Two quotes stand for one. -/
def singleQuoted : Chars → Mark → Gap → Option Scanned
  | [], _, _ => none
  | '\r' :: '\n' :: s, m, g => singleQuoted s (m.newline ['\r', '\n']) (g.addBreak '\n')
  | '\'' :: '\'' :: s, m, g =>
    (singleQuoted s (m.advance ['\'', '\'']) {}).map (Scanned.prepend (g.text ++ ['\'']))
  | c :: s, m, g =>
    if isSpace c then singleQuoted s (m.next c) (g.addSpace c)
    else if isBreak c then singleQuoted s (m.newline [c]) (g.addBreak (breakChar c))
    else if m.column == 0 && atDocumentEdge (c :: s) then none
    else if c == '\'' then some { text := g.text, rest := s, mark := m.next c }
    else (singleQuoted s (m.next c) {}).map (Scanned.prepend (g.text ++ [c]))

/-- Reads up to a closing double quote. A backslash escapes a character or a line end. -/
def doubleQuoted (s : Chars) (m : Mark) (g : Gap) : Option Scanned :=
  match s with
  | [] => none
  | '\r' :: '\n' :: s => doubleQuoted s (m.newline ['\r', '\n']) (g.addBreak '\n')
  | c :: s =>
    if isSpace c then doubleQuoted s (m.next c) (g.addSpace c)
    else if isBreak c then doubleQuoted s (m.newline [c]) (g.addBreak (breakChar c))
    else if m.column == 0 && atDocumentEdge (c :: s) then none
    else if c == '"' then some { text := g.text, rest := s, mark := m.next c }
    else if c == '\\' then
      match _h : lineBreak (m.next c) s with
      | some (_, r, m) => (doubleQuoted r m .escapedBreak).map (Scanned.prepend g.text)
      | none =>
        match escape s with
        | some (d, count) =>
          (doubleQuoted (s.drop count) (m.advance (c :: s.take count)) {}).map
            (Scanned.prepend (g.text ++ [d]))
        | none => none
    else (doubleQuoted s (m.next c) {}).map (Scanned.prepend (g.text ++ [c]))
termination_by s.length
decreasing_by
  all_goals first
    | (have hr := length_lineBreak _h; simp only [List.length_cons]; omega)
    | (simp only [List.length_cons, List.length_drop]; omega)

/-! ### Blocks of lines -/

/-- What becomes of the line ends at the end of a block. -/
inductive Chomp
  | strip
  | clip
  | keep
  deriving DecidableEq, Repr

/-- Reads the indentation of a block's next line together with the empty lines before it, up to a
column, or up to any column if that is zero: the line ends, and the greatest column reached. -/
def blockIndent (indent : Nat) : Chars → Mark → Nat → Option (Chars × Nat × Chars × Mark)
  | [], m, most => some ([], max most m.column, [], m)
  | '\r' :: '\n' :: s, m, most =>
    (blockIndent indent s (m.newline ['\r', '\n']) (max most m.column)).map
      fun (breaks, r) => ('\n' :: breaks, r)
  | c :: s, m, most =>
    let within := indent == 0 || m.column < indent
    if c == ' ' && within then blockIndent indent s (m.next c) most
    else if c == '\t' && within then none
    else if isBreak c then
      (blockIndent indent s (m.newline [c]) (max most m.column)).map
        fun (breaks, r) => (breakChar c :: breaks, r)
    else some ([], max most m.column, c :: s, m)

/-- A block as far as it is read: its text, the end of its last line, and the line ends after. -/
structure BlockText where
  text : Chars := []
  lastBreak : Chars := []
  breaks : Chars := []
  /-- Whether the last line started with a space. -/
  spaced : Bool := false

/-- The block with the start of a further line. In a folded block a line end between two lines that
start with no space becomes a space, or is dropped if empty lines follow. -/
def BlockText.startLine (b : BlockText) (literal spaced : Bool) : BlockText :=
  let fold := !literal && b.lastBreak == ['\n'] && !b.spaced && !spaced
  let joint := if fold then if b.breaks.isEmpty then [' '] else [] else b.lastBreak
  { text := b.text ++ joint ++ b.breaks, spaced := spaced }

/-- Reads the lines of a block that start in a given column, at most as many as given. -/
def blockLines (literal : Bool) (indent : Nat) : Nat → Chars → Mark → BlockText →
    Option (BlockText × Chars × Mark)
  | 0, s, m, b => some (b, s, m)
  | lines + 1, s, m, b =>
    match s with
    | [] => some (b, [], m)
    | c :: _ =>
      if m.column ≠ indent then some (b, s, m)
      else
        let started := b.startLine literal (isSpace c)
        let content := s.takeWhile fun c => !isBreak c
        let s := s.drop content.length
        let m := m.advance content
        let (lastBreak, s, m) := match lineBreak m s with
          | some (d, s, m) => ([d], s, m)
          | none => ([], s, m)
        match blockIndent indent s m 0 with
        | none => none
        | some (breaks, _, s, m) =>
          blockLines literal indent lines s m
            { started with text := started.text ++ content, lastBreak, breaks }

/-- The text of a block whose end is chomped. -/
def BlockText.chomped (b : BlockText) : Chomp → Chars
  | .strip => b.text
  | .clip => b.text ++ b.lastBreak
  | .keep => b.text ++ b.lastBreak ++ b.breaks

/-- Reads a sign that says how to chomp. -/
def chompSign? : Chars → Option (Chomp × Chars)
  | '+' :: s => some (.keep, s)
  | '-' :: s => some (.strip, s)
  | _ => none

/-- Reads a digit that says how far to indent. Zero is refused. -/
def indentDigit : Chars → Option (Option Nat × Chars)
  | c :: s =>
    if c == '0' then none
    else if c.isDigit then some (some (c.toNat - '0'.toNat), s)
    else some (none, c :: s)
  | [] => some (none, [])

/-- Reads the two signs after the mark of a block, in either order. -/
def blockHeader (s : Chars) : Option (Chomp × Option Nat × Chars) :=
  match chompSign? s with
  | some (chomp, s) => (indentDigit s).map fun (digit, s) => (chomp, digit, s)
  | none =>
    (indentDigit s).map fun (digit, s) =>
      match digit, chompSign? s with
      | some n, some (chomp, s) => (chomp, some n, s)
      | digit, _ => (.clip, digit, s)

/-- Reads a block after its mark, within a collection that is indented as given. -/
def blockScalar (literal : Bool) (parent : Int) (s : Chars) (m : Mark) : Option Scanned := do
  let (chomp, digit, t) ← blockHeader s
  let t := t.dropWhile isSpace
  let t := if t.head? == some '#' then t.dropWhile fun c => !isBreak c else t
  let m := m.advance (s.take (s.length - t.length))
  if !atLineEnd t then none
  let (s, m) := match lineBreak m t with
    | some (_, s, m) => (s, m)
    | none => (t, m)
  let given := match digit with
    | some n => if 0 ≤ parent then parent.toNat + n else n
    | none => 0
  let (breaks, most, s, m) ← blockIndent given s m 0
  let indent := if given = 0 then max (max most (parent + 1).toNat) 1 else given
  let (block, s, m) ← blockLines literal indent (s.length + 1) s m { breaks := breaks }
  return { text := block.chomped chomp, rest := s, mark := m }

end FusedKernel.Yaml
