/-!
Characters and places of YAML texts. Lines end at a line feed, a carriage return or both, or at one
of three further separators; a place counts octets, lines and columns.
-/
namespace FusedKernel.Yaml

abbrev Chars := List Char

/-- Whether a character may occur in a text at all. -/
def isAllowed (c : Char) : Bool :=
  c == '\t' || c == '\n' || c == '\r' || (' ' ≤ c && c ≤ '~') || c == '\u0085' ||
    ('\u00a0' ≤ c && c ≤ '\ufffd') || '\uffff' < c

/-- The byte order mark. -/
def byteOrderMark : Char := '\ufeff'

def isSpace (c : Char) : Bool := c == ' ' || c == '\t'

def isBreak (c : Char) : Bool :=
  c == '\n' || c == '\r' || c == '\u0085' || c == '\u2028' || c == '\u2029'

/-- A line end as it is read: one of the two separators by itself, all others as a line feed. -/
def breakChar (c : Char) : Char := if c == '\u2028' || c == '\u2029' then c else '\n'

/-- Whether a space, a line end or the end of the text comes next. -/
def atGap : Chars → Bool
  | [] => true
  | c :: _ => isSpace c || isBreak c

/-- Whether a line end or the end of the text comes next. -/
def atLineEnd : Chars → Bool
  | [] => true
  | c :: _ => isBreak c

/-- Whether a name may hold a character. -/
def isWordChar (c : Char) : Bool := c.isAlphanum || c == '_' || c == '-'

/-- Whether three equal characters that mark a document come next, with nothing attached. -/
def atDocumentMark (c : Char) (s : Chars) : Bool :=
  s.take 3 == [c, c, c] && atGap (s.drop 3)

/-- Whether a mark of the start or the end of a document comes next. -/
def atDocumentEdge (s : Chars) : Bool := atDocumentMark '-' s || atDocumentMark '.' s

/-- Whether a node starts with the first character of a text: neither blanks, comments, a byte order
mark, directives nor marks of documents come before it. -/
def startsWithNode : Chars → Bool
  | [] => false
  | c :: s =>
    !(isSpace c || isBreak c || c == '#' || c == '%' || c == byteOrderMark ||
      atDocumentEdge (c :: s))

/-- The number of octets that encode some characters. -/
def octetsOf : Chars → Nat
  | [] => 0
  | c :: s => c.utf8Size + octetsOf s

/-- A place in a text. Lines and columns are counted from zero, columns in characters; the index
counts the octets that encode the text before. -/
structure Mark where
  index : Nat := 0
  line : Nat := 0
  column : Nat := 0
  deriving DecidableEq, Repr

namespace Mark

/-- The place after some characters of the same line. -/
def advance (m : Mark) (passed : Chars) : Mark :=
  { m with index := m.index + octetsOf passed, column := m.column + passed.length }

/-- The place after a character. -/
def next (m : Mark) (c : Char) : Mark := m.advance [c]

/-- The place after a line end of some characters. -/
def newline (m : Mark) (passed : Chars) : Mark :=
  { index := m.index + octetsOf passed, line := m.line + 1, column := 0 }

end Mark

/-- Reads a line end: the character it stands for, the rest and the place after it. -/
def lineBreak (m : Mark) : Chars → Option (Char × Chars × Mark)
  | '\r' :: '\n' :: s => some ('\n', s, m.newline ['\r', '\n'])
  | c :: s => if isBreak c then some (breakChar c, s, m.newline [c]) else none
  | [] => none

theorem length_lineBreak {m m' : Mark} {s r : Chars} {c : Char}
    (h : lineBreak m s = some (c, r, m')) : r.length < s.length := by
  unfold lineBreak at h
  split at h
  · cases h
    simp only [List.length_cons]
    omega
  · split at h
    · cases h
      simp only [List.length_cons]
      omega
    · exact absurd h (by simp)
  · exact absurd h (by simp)

end FusedKernel.Yaml
