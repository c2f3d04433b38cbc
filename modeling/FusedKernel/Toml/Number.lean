import FusedKernel.Toml.Lexeme
import FusedKernel.Toml.Value

/-!
Numbers and moments of TOML. Which kind a value is shows after its first digits: a dash after four
of them or a colon after two makes a moment, a point or an exponent after a whole number makes a
float.
-/
namespace FusedKernel.Toml

/-! ### Numbers -/

/-- Reads the digits after a first one, with single underscores between digits. -/
def moreDigits (radix : Nat) : Chars → Option (Chars × Chars)
  | '_' :: c :: s =>
    if Number.isDigit radix c then (moreDigits radix s).map fun (digits, r) => (c :: digits, r)
    else none
  | c :: s =>
    if Number.isDigit radix c then (moreDigits radix s).map fun (digits, r) => (c :: digits, r)
    else if c == '_' then none
    else some ([], c :: s)
  | [] => some ([], [])

/-- Reads digits with single underscores between them. -/
def digitRun (radix : Nat) : Chars → Option (Chars × Chars)
  | c :: s =>
    if Number.isDigit radix c then (moreDigits radix s).map fun (digits, r) => (c :: digits, r)
    else none
  | [] => none

/-- Reads a sign, which may be missing: whether it is a minus. -/
def sign : Chars → Bool × Chars
  | '-' :: s => (true, s)
  | '+' :: s => (false, s)
  | s => (false, s)

/-- Reads a decimal whole number with a sign or without: whether it is negative, and its digits.
After a zero no further digits are read. -/
def wholeNumber (s : Chars) : Reading (Bool × Chars) :=
  let (negative, s) := sign s
  match s with
  | '0' :: s => .read (negative, ['0']) s
  | c :: s =>
    if Number.isDigit 10 c then
      .started ((moreDigits 10 s).map fun (digits, r) => ((negative, c :: digits), r))
    else .absent
  | [] => .absent

/-- The bound of signed integers of 64 bits. -/
def integerBound : Int := 0x8000000000000000

/-- An integer of at most 64 bits. -/
def integerInRange (n : Int) : Option Value :=
  if -integerBound ≤ n ∧ n < integerBound then some (.integer n) else none

/-- Reads digits in a radix as an integer. -/
def radixInteger (radix : Nat) (s : Chars) : Option (Value × Chars) := do
  let (digits, s) ← digitRun radix s
  let value ← integerInRange (Number.ofDigits radix digits)
  return (value, s)

/-- Reads an integer, decimal or after a mark of its radix. -/
def integer : Chars → Reading Value
  | '0' :: 'x' :: s => .started (radixInteger 16 s)
  | '0' :: 'o' :: s => .started (radixInteger 8 s)
  | '0' :: 'b' :: s => .started (radixInteger 2 s)
  | s => (wholeNumber s).andThen fun (negative, digits) r =>
    let size : Int := Number.ofDigits 10 digits
    .started ((integerInRange (if negative then -size else size)).map fun value => (value, r))

/-- Reads the decimals of a float, which may be missing. -/
def decimals : Chars → Option (Option Chars × Chars)
  | '.' :: s => (digitRun 10 s).map fun (digits, r) => (some digits, r)
  | s => some (none, s)

/-- Reads the exponent of a float, which may be missing. -/
def exponent : Chars → Option (Option Int × Chars)
  | 'e' :: s | 'E' :: s => do
    let (negative, s) := sign s
    let (digits, s) ← digitRun 10 s
    let size : Int := Number.ofDigits 10 digits
    return (some (if negative then -size else size), s)
  | s => some (none, s)

/-- Whether decimals or an exponent come next. -/
def startsFraction : Chars → Bool
  | c :: _ => c == '.' || c == 'e' || c == 'E'
  | [] => false

/-- Reads the decimals and the exponent of a float. One beyond the greatest is refused. -/
def floatAfter (negative : Bool) (whole s : Chars) : Option (Value × Chars) := do
  let (fraction, s) ← decimals s
  let (power, s) ← exponent s
  let digits := whole ++ fraction.getD []
  let value := Number.Binary64.ofDecimal negative (Number.ofDigits 10 digits)
    (power.getD 0 - (fraction.getD []).length)
  if value = .infinite false then none else return (.float value, s)

/-- Reads a float with decimals, an exponent, or both. -/
def decimalFloat (s : Chars) : Reading Value :=
  (wholeNumber s).andThen fun (negative, whole) r =>
    if startsFraction r then .started (floatAfter negative whole r) else .absent

/-- Reads an infinite float or none at all. -/
def specialFloat (s : Chars) : Reading Value :=
  let (negative, s) := sign s
  match s with
  | 'i' :: 'n' :: 'f' :: s => .read (.float (.infinite negative)) s
  | 'n' :: 'a' :: 'n' :: s => .read (.float .nan) s
  | _ => .absent

/-! ### Moments -/

/-- Reads decimal digits, as many as given, as a number. -/
def fixedDigits (count : Nat) (s : Chars) : Option (Nat × Chars) :=
  let taken := s.take count
  if taken.length = count ∧ taken.all Char.isDigit then
    some (Number.ofDigits 10 taken, s.drop count)
  else none

/-- Reads a number of two digits that is at most a limit. -/
def twoDigits (most : Nat) (s : Chars) : Option (Nat × Chars) := do
  let (n, s) ← fixedDigits 2 s
  if n ≤ most then return (n, s) else none

def isLeapYear (year : Nat) : Bool := year % 4 == 0 && (year % 100 != 0 || year % 400 == 0)

def daysInMonth (year month : Nat) : Nat :=
  if month = 2 then if isLeapYear year then 29 else 28
  else if month = 4 ∨ month = 6 ∨ month = 9 ∨ month = 11 then 30
  else 31

/-- Reads a year and the dash after it, with which a date starts. -/
def yearAndDash (s : Chars) : Option (Nat × Chars) := do
  let (year, s) ← fixedDigits 4 s
  let s ← expect '-' s
  return (year, s)

/-- Reads a month and a day that exist in a year. -/
def monthAndDay (year : Nat) (s : Chars) : Option (Unit × Chars) := do
  let (month, s) ← twoDigits 12 s
  let s ← expect '-' s
  let (day, s) ← twoDigits (daysInMonth year month) s
  if 1 ≤ month ∧ 1 ≤ day then some ((), s) else none

def date (s : Chars) : Reading Unit :=
  (Reading.whole (yearAndDash s)).andThen fun year r => .started (monthAndDay year r)

/-- Reads an hour and the colon after it, with which a time starts. -/
def hourAndColon (s : Chars) : Option (Unit × Chars) := do
  let (_, s) ← twoDigits 23 s
  let s ← expect ':' s
  return ((), s)

/-- Reads the decimals of a second, which may be missing. -/
def skipDecimals : Chars → Chars
  | '.' :: c :: s => if c.isDigit then s.dropWhile Char.isDigit else '.' :: c :: s
  | s => s

/-- Reads a minute and a second, which may be a leap second. -/
def minuteAndSecond (s : Chars) : Option (Unit × Chars) := do
  let (_, s) ← twoDigits 59 s
  let s ← expect ':' s
  let (_, s) ← twoDigits 60 s
  return ((), skipDecimals s)

def time (s : Chars) : Reading Unit :=
  (Reading.whole (hourAndColon s)).andThen fun _ r => .started (minuteAndSecond r)

/-- Reads the hours and minutes of an offset. -/
def offsetSize (s : Chars) : Option (Unit × Chars) := do
  let (_, s) ← hourAndColon s
  let (_, s) ← twoDigits 59 s
  return ((), s)

/-- Reads an offset from universal time. -/
def offset : Chars → Reading Unit
  | 'Z' :: s | 'z' :: s => .read () s
  | '+' :: s | '-' :: s => .started (offsetSize s)
  | _ => .absent

/-- Reads the time after a date, with an offset if there is one. -/
def timeAfterDate : Chars → Reading Unit
  | 'T' :: s | 't' :: s | ' ' :: s => (time s).andThen fun _ r => Reading.skippable offset r
  | _ => .absent

/-- Reads a date, a date with a time, or a time. -/
def moment (s : Chars) : Reading Value :=
  (((date s).andThen fun _ r => Reading.skippable timeAfterDate r) <|> time s).andThen
    fun _ r => .read .moment r

/-- Reads a value that starts like a number. -/
def numberOrMoment (s : Chars) : Reading Value :=
  moment s <|> decimalFloat s <|> specialFloat s <|> integer s

end FusedKernel.Toml
