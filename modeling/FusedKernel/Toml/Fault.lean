/-!
Why a text is no TOML document. A fault of the grammar has no wording; a fault of keys names the key
that is in the way and where it stands.
-/
namespace FusedKernel.Toml

/-! ### Keys as they are written -/

def isBareKeyChar (c : Char) : Bool := c.isAlphanum || c == '_' || c == '-'

/-- Whether a character can only be written as an escape. -/
def isEscapedControl (c : Char) : Bool := (c < ' ' && c != '\t') || c == '\x7f'

/-- The upper-case hexadecimal digits of a number, at least four. -/
def fourDigits (n : Nat) : List Char :=
  let digits := (Nat.toDigits 16 n).map Char.toUpper
  List.replicate (4 - digits.length) '0' ++ digits

/-- A character between double quotes. -/
def escapeInKey (c : Char) : List Char :=
  match c with
  | '\x08' => ['\\', 'b']
  | '\t' => ['\\', 't']
  | '\n' => ['\\', 'n']
  | '\x0c' => ['\\', 'f']
  | '\r' => ['\\', 'r']
  | '"' => ['\\', '"']
  | '\\' => ['\\', '\\']
  | c => if isEscapedControl c then '\\' :: 'u' :: fourDigits c.toNat else [c]

/-- A key as it is written: bare if it can be, otherwise between double quotes; between single ones
if only those spare it escapes. -/
def writtenKey (key : String) : String :=
  let s := key.toList
  if !s.isEmpty && s.all isBareKeyChar then key
  else
    let escapes := s.any fun c => c == '"' || c == '\\'
    if escapes && !s.any (fun c => c == '\'' || isEscapedControl c) then
      String.ofList ('\'' :: s ++ ['\''])
    else String.ofList ('"' :: s.flatMap escapeInKey ++ ['"'])

/-- A path of keys as faults name it, with dots between the keys as they are. -/
def dottedPath (path : List String) : String := String.intercalate "." path

/-! ### Faults -/

/-- What is wrong with a key. -/
inductive KeyFault
  /-- A key that is taken, or a table that must not be extended, and the path of the table around
  it where that is known. -/
  | duplicate (key : String) (table : Option (List String))
  /-- A path that ends in a value of another kind than a table. -/
  | notTable (path : List String) (kind : String)
  deriving DecidableEq, Repr

def KeyFault.message : KeyFault → String
  | duplicate key none => "duplicate key `" ++ key ++ "`"
  | duplicate key (some []) => "duplicate key `" ++ key ++ "` in document root"
  | duplicate key (some path) =>
    "duplicate key `" ++ key ++ "` in table `" ++ dottedPath path ++ "`"
  | notTable path kind =>
    "dotted key `" ++ dottedPath path ++ "` attempted to extend non-table type (" ++ kind ++ ")"

inductive Fault
  /-- The text breaks the grammar. -/
  | malformed
  /-- The key of a pair is at fault. -/
  | pair (fault : KeyFault)
  /-- The key of a header is at fault. -/
  | header (fault : KeyFault)
  deriving DecidableEq, Repr

/-- The wording of a fault, where it has one. -/
def Fault.message? : Fault → Option String
  | malformed => none
  | pair fault => some fault.message
  | header fault => some ("invalid table header\n" ++ fault.message)

end FusedKernel.Toml
