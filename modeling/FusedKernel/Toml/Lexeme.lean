import FusedKernel.Number.Digits
import FusedKernel.Toml.Reading

/-!
Blanks, line ends and quoted texts of TOML. A function that reads takes characters from the front of
a text and gives what it read together with the rest, or nothing if the text does not start so.
-/
namespace FusedKernel.Toml

/-! ### Blanks, comments and line ends -/

def isSpace (c : Char) : Bool := c == ' ' || c == '\t'

/-- Whether a character may stand in a comment: no control other than the tab. -/
def isCommentChar (c : Char) : Bool := c == '\t' || (' ' ≤ c && c != '\x7f')

def skipSpaces (s : Chars) : Chars := s.dropWhile isSpace

/-- The rest after a line feed, with or without a carriage return before it. -/
def newline? : Chars → Option Chars
  | '\n' :: s => some s
  | '\r' :: '\n' :: s => some s
  | _ => none

theorem length_newline {s r : Chars} (h : newline? s = some r) : r.length < s.length := by
  unfold newline? at h
  split at h
  · cases h
    simp only [List.length_cons]
    omega
  · cases h
    simp only [List.length_cons]
    omega
  · exact absurd h (by simp)

/-- The rest after a comment, if there is one. -/
def skipComment : Chars → Chars
  | '#' :: s => s.dropWhile isCommentChar
  | s => s

/-- Reads the end of a line: spaces, a comment, and a line end or the end of the text. -/
def lineEnd? (s : Chars) : Option Chars :=
  match skipComment (skipSpaces s) with
  | [] => some []
  | s => newline? s

/-- Drops spaces and line ends. -/
def skipBlank : Chars → Chars
  | ' ' :: s | '\t' :: s | '\n' :: s => skipBlank s
  | '\r' :: '\n' :: s => skipBlank s
  | s => s

theorem length_skipBlank_le (s : Chars) : (skipBlank s).length ≤ s.length := by
  fun_induction skipBlank s <;> simp_all <;> omega

/-- Drops spaces, line ends and comments. A comment must end in a line end to be dropped. -/
def skipFiller (s : Chars) : Chars :=
  match _h : skipBlank s with
  | '#' :: t =>
    match _h' : newline? (t.dropWhile isCommentChar) with
    | some r => skipFiller r
    | none => '#' :: t
  | r => r
termination_by s.length
decreasing_by
  have h₁ := length_newline _h'
  have h₂ := (List.dropWhile_sublist isCommentChar (l := t)).length_le
  have h₃ := length_skipBlank_le s
  rw [_h] at h₃
  simp only [List.length_cons] at h₃
  omega

/-- Reads one given character. -/
def expect (c : Char) : Chars → Option Chars
  | [] => none
  | d :: s => if d == c then some s else none

/-! ### Quoted texts -/

/-- The character with a code point, if there is one. -/
def scalar? (n : Nat) : Option Char := if n.isValidChar then some (Char.ofNat n) else none

/-- Reads a number of hexadecimal digits as a character. -/
def codePoint (digits : Nat) (s : Chars) : Option (Char × Chars) :=
  let taken := s.take digits
  if taken.length = digits ∧ taken.all (Number.isDigit 16) then
    (scalar? (Number.ofDigits 16 taken)).map fun c => (c, s.drop digits)
  else none

/-- Reads what follows a backslash. -/
def escape : Chars → Option (Char × Chars)
  | 'b' :: s => some ('\x08', s)
  | 'f' :: s => some ('\x0c', s)
  | 'n' :: s => some ('\n', s)
  | 'r' :: s => some ('\r', s)
  | 't' :: s => some ('\t', s)
  | '"' :: s => some ('"', s)
  | '\\' :: s => some ('\\', s)
  | 'u' :: s => codePoint 4 s
  | 'U' :: s => codePoint 8 s
  | _ => none

theorem length_codePoint {n : Nat} {s r : Chars} {c : Char} (h : codePoint n s = some (c, r)) :
    r.length ≤ s.length := by
  simp only [codePoint] at h
  split at h
  · obtain ⟨d, _, hd⟩ := Option.map_eq_some_iff.1 h
    cases hd
    simp
  · simp at h

theorem length_escape {s r : Chars} {c : Char} (h : escape s = some (c, r)) :
    r.length < s.length := by
  unfold escape at h
  split at h <;> first
    | (cases h; simp)
    | (have hr := length_codePoint h; simp; omega)
    | simp at h

/-- Whether a character may stand for itself between double quotes. -/
def isBasicChar (c : Char) : Bool := isCommentChar c && c != '"' && c != '\\'

/-- Whether a character may stand for itself between single quotes. -/
def isLiteralChar (c : Char) : Bool := isCommentChar c && c != '\''

/-- Reads up to the closing double quote. -/
def basicText (s : Chars) : Option (Chars × Chars) :=
  match s with
  | [] => none
  | '"' :: s => some ([], s)
  | '\\' :: s =>
    match _h : escape s with
    | none => none
    | some (c, r) => (basicText r).map fun (text, r) => (c :: text, r)
  | c :: s => if isBasicChar c then (basicText s).map fun (text, r) => (c :: text, r) else none
termination_by s.length
decreasing_by
  all_goals first
    | (have hr := length_escape _h; simp; omega)
    | simp

/-- Reads up to the closing single quote. -/
def literalText : Chars → Option (Chars × Chars)
  | [] => none
  | c :: s =>
    if c == '\'' then some ([], s)
    else if isLiteralChar c then (literalText s).map fun (text, r) => (c :: text, r)
    else none

/-- At most two further quotes before the end of a text in three quotes belong to the text. -/
def closingQuotes (quote : Char) (s : Chars) : Chars × Chars :=
  let extra := (s.take 2).takeWhile (· == quote)
  (extra, s.drop extra.length)

/-- The rest after the line end at a backslash and all blanks that follow. -/
def continuation? (s : Chars) : Option Chars := (newline? (skipSpaces s)).map skipBlank

theorem length_continuation {s r : Chars} (h : continuation? s = some r) :
    r.length < s.length := by
  obtain ⟨t, ht, rfl⟩ := Option.map_eq_some_iff.1 h
  have h₁ := length_newline ht
  have h₂ := length_skipBlank_le t
  have h₃ := (List.dropWhile_sublist isSpace (l := s)).length_le
  unfold skipSpaces at h₁
  omega

/-- Reads up to three closing double quotes. Line ends are read as line feeds. -/
def longBasicText (s : Chars) : Option (Chars × Chars) :=
  match s with
  | [] => none
  | '"' :: '"' :: '"' :: s => some (closingQuotes '"' s)
  | '\\' :: s =>
    match _h : continuation? s with
    | some r => longBasicText r
    | none =>
      match _h' : escape s with
      | none => none
      | some (c, r) => (longBasicText r).map fun (text, r) => (c :: text, r)
  | '\r' :: '\n' :: s => (longBasicText s).map fun (text, r) => ('\n' :: text, r)
  | c :: s =>
    if c == '\n' || c == '"' || isBasicChar c then
      (longBasicText s).map fun (text, r) => (c :: text, r)
    else none
termination_by s.length
decreasing_by
  all_goals first
    | (have hr := length_continuation _h; simp; omega)
    | (have hr := length_escape _h'; simp; omega)
    | (simp only [List.length_cons]; omega)

/-- Reads up to three closing single quotes. Line ends are read as line feeds. -/
def longLiteralText : Chars → Option (Chars × Chars)
  | [] => none
  | '\'' :: '\'' :: '\'' :: s => some (closingQuotes '\'' s)
  | '\r' :: '\n' :: s => (longLiteralText s).map fun (text, r) => ('\n' :: text, r)
  | c :: s =>
    if c == '\n' || c == '\'' || isLiteralChar c then
      (longLiteralText s).map fun (text, r) => (c :: text, r)
    else none

/-- The rest without a line end at its start. -/
def dropNewline (s : Chars) : Chars := (newline? s).getD s

/-- Reads a quoted text of one of the four kinds. -/
def quotedText : Chars → Option (String × Chars)
  | '"' :: '"' :: '"' :: s => asString (longBasicText (dropNewline s))
  | '"' :: s => asString (basicText s)
  | '\'' :: '\'' :: '\'' :: s => asString (longLiteralText (dropNewline s))
  | '\'' :: s => asString (literalText s)
  | _ => none
where
  /-- The text that was read, as a string. -/
  asString (read : Option (Chars × Chars)) : Option (String × Chars) :=
    read.map fun (text, r) => (String.ofList text, r)

end FusedKernel.Toml
