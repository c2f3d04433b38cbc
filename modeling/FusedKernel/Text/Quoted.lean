import FusedKernel.Text.Class

/-!
Quoted text: a string between double quotes, with an escape for every character that would be lost
or misread on a terminal. `\t`, `\r`, `\n` and `\0` have short escapes, as have the quote and the
backslash; characters that are unprintable or extend a grapheme are written by their code point in
lower-case hexadecimal; all others stand for themselves, the apostrophe included.
-/
namespace FusedKernel.Text

/-- The lower-case hexadecimal digits of a number, without leading zeros. -/
def hexDigits (n : Nat) : List Char := Nat.toDigits 16 n

/-- How one character is written inside quotes. -/
def escape (c : Char) : List Char :=
  match c with
  | '\x00' => ['\\', '0']
  | '\t' => ['\\', 't']
  | '\r' => ['\\', 'r']
  | '\n' => ['\\', 'n']
  | '"' => ['\\', '"']
  | '\\' => ['\\', '\\']
  | c =>
    if extendsGrapheme c || isUnprintable c then
      ['\\', 'u', '\x7b'] ++ hexDigits c.toNat ++ ['\x7d']
    else [c]

/-- The characters of a text, each in its escaped form. -/
def escapeAll (s : List Char) : List Char := s.flatMap escape

/-- The quoted form of a text. -/
def quoted (s : String) : String :=
  String.ofList ('"' :: escapeAll s.toList ++ ['"'])

@[simp] theorem escapeAll_nil : escapeAll [] = [] := rfl

@[simp] theorem escapeAll_cons (c : Char) (s : List Char) :
    escapeAll (c :: s) = escape c ++ escapeAll s := rfl

theorem escapeAll_append (s t : List Char) :
    escapeAll (s ++ t) = escapeAll s ++ escapeAll t := by
  simp [escapeAll]

end FusedKernel.Text
