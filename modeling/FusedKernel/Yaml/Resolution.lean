import FusedKernel.Number.Binary64
import FusedKernel.Number.Digits
import FusedKernel.Yaml.Character

/-!
What a plain scalar stands for: nothing, a boolean, an integer, a float, or its own text.
-/
namespace FusedKernel.Yaml

/-- What a scalar stands for. -/
inductive Meaning
  | null
  | boolean (b : Bool)
  | integer (n : Int)
  | float (f : Number.Binary64)
  | text (s : Chars)
  deriving Repr

def isNullWord (s : Chars) : Bool :=
  s == "null".toList || s == "Null".toList || s == "NULL".toList || s == ['~']

def boolean? (s : Chars) : Option Bool :=
  if s == "true".toList || s == "True".toList || s == "TRUE".toList then some true
  else if s == "false".toList || s == "False".toList || s == "FALSE".toList then some false
  else none

/-- The text without a plus sign at its start. -/
def dropPlus : Chars → Chars
  | '+' :: s => s
  | s => s

def startsWithSign : Chars → Bool
  | c :: _ => c == '+' || c == '-'
  | [] => false

/-- Whether the text is a number with leading zeros, which is read as text. -/
def hasLeadingZeros (s : Chars) : Bool :=
  match (match s with
    | '-' :: r | '+' :: r => r
    | r => r) with
  | '0' :: c :: r => (c :: r).all Char.isDigit
  | _ => false

/-- The number that some digits of a radix write. -/
def natural? (radix : Nat) (s : Chars) : Option Nat :=
  if s.isEmpty || !s.all (Number.isDigit radix) then none else some (Number.ofDigits radix s)

/-- The number after the mark of a radix. -/
def marked? : Chars → Option Nat
  | '0' :: 'x' :: s => natural? 16 s
  | '0' :: 'o' :: s => natural? 8 s
  | '0' :: 'b' :: s => natural? 2 s
  | _ => none

/-- The bound of unsigned integers of 128 bits, the longest there are. -/
def longBound : Nat := 0x100000000000000000000000000000000

/-- The bound of signed integers of 128 bits. -/
def signedLongBound : Nat := 0x80000000000000000000000000000000

/-- An integer of at most 128 bits that is not negative; a plus sign may stand before it. -/
def unsigned? (s : Chars) : Option Nat :=
  let r := dropPlus s
  (marked? r <|> if hasLeadingZeros s then none else natural? 10 r).filter
    (· < longBound)

/-- An integer of at most 128 bits after a minus sign. -/
def negative? (s : Chars) : Option Int :=
  match s with
  | '-' :: r =>
    ((marked? r <|> if hasLeadingZeros s then none else natural? 10 r).filter
      (· ≤ signedLongBound)).map fun n => -(n : Int)
  | _ => none

def integer? (s : Chars) : Option Int :=
  match unsigned? s with
  | some n => some n
  | none => negative? s

/-- Reads digits, with a sign before them or not, as an exponent. -/
def exponent? (s : Chars) : Option Int :=
  match s with
  | '-' :: r => (natural? 10 r).map fun n => -(n : Int)
  | '+' :: r => (natural? 10 r).map fun n => (n : Int)
  | r => (natural? 10 r).map fun n => (n : Int)

/-- Digits with at most one point among them, and perhaps an exponent. -/
def decimal? (negative : Bool) (s : Chars) : Option Number.Binary64 :=
  let whole := s.takeWhile Char.isDigit
  let s := s.drop whole.length
  let (fraction, s) := match s with
    | '.' :: r => (r.takeWhile Char.isDigit, r.dropWhile Char.isDigit)
    | r => ([], r)
  let power := match s with
    | [] => some 0
    | c :: r => if c == 'e' || c == 'E' then exponent? r else none
  if whole.isEmpty && fraction.isEmpty then none
  else
    power.map fun power =>
      .ofDecimal negative (Number.ofDigits 10 (whole ++ fraction)) (power - fraction.length)

/-- A finite float with a sign or without. -/
def finiteFloat? (s : Chars) : Option Number.Binary64 :=
  (match s with
    | '-' :: r => decimal? true r
    | '+' :: r => decimal? false r
    | r => decimal? false r).filter Number.Binary64.isFinite

def isInfinityWord (s : Chars) : Bool :=
  s == ".inf".toList || s == ".Inf".toList || s == ".INF".toList

def float? (s : Chars) : Option Number.Binary64 :=
  let r := dropPlus s
  if s.head? == some '+' && startsWithSign r then none
  else if isInfinityWord r then some (.infinite false)
  else if s.head? == some '-' && isInfinityWord (s.drop 1) then some (.infinite true)
  else if s == ".nan".toList || s == ".NaN".toList || s == ".NAN".toList then some .nan
  else finiteFloat? r

/-- What a plain scalar stands for. -/
def meaning (s : Chars) : Meaning :=
  if s.isEmpty || isNullWord s then .null
  else
    match boolean? s with
    | some b => .boolean b
    | none =>
      match integer? s with
      | some n => .integer n
      | none =>
        match if hasLeadingZeros s then none else float? s with
        | some f => .float f
        | none => .text s

end FusedKernel.Yaml
