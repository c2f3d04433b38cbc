/-!
Binary floating point numbers of 64 bits, as mantissa and exponent, with exact conversions: the
number nearest to a decimal one, and the shortest decimal text that is nearest to no other number.
-/
namespace FusedKernel.Number

/-- A finite number is `± mantissa * 2 ^ exponent`. -/
inductive Binary64
  | finite (negative : Bool) (mantissa : Nat) (exponent : Int)
  | infinite (negative : Bool)
  | nan
  deriving DecidableEq, Repr

namespace Binary64

def isFinite : Binary64 → Bool
  | finite _ _ _ => true
  | _ => false

/-- `num / den` times `base ^ exponent`, as a fraction. -/
def scale (base : Nat) (exponent : Int) (num den : Nat) : Nat × Nat :=
  match exponent with
  | .ofNat n => (num * base.pow n, den)
  | .negSucc n => (num, den * base.pow (n + 1))

/-- The integer nearest to a fraction; of two nearest ones the even. -/
def roundHalfEven (num den : Nat) : Nat :=
  let q := num / den
  let r := num % den
  if 2 * r < den then q
  else if den < 2 * r then q + 1
  else q + q % 2

/-- The least mantissa of 53 bits, as all have unless the exponent is least. -/
def leastMantissa : Nat := 0x10000000000000

/-- The least exponent. -/
def minExponent : Int := -1074

/-- The greatest exponent. -/
def maxExponent : Int := 971

/-- The number nearest to a positive fraction. -/
def ofFraction (negative : Bool) (num den : Nat) : Binary64 :=
  let guess : Int := (num.log2 : Int) - den.log2 - 52
  let scaled := scale 2 (-guess) num den
  let fitted := if scaled.1 / scaled.2 < leastMantissa then guess - 1 else guess
  let exponent := max fitted minExponent
  let scaled := scale 2 (-exponent) num den
  let mantissa := roundHalfEven scaled.1 scaled.2
  let (mantissa, exponent) :=
    if mantissa = 2 * leastMantissa then (leastMantissa, exponent + 1) else (mantissa, exponent)
  if maxExponent < exponent then infinite negative else finite negative mantissa exponent

/-- The number nearest to `digits * 10 ^ exponent`. -/
def ofDecimal (negative : Bool) (digits : Nat) (exponent : Int) : Binary64 :=
  let magnitude : Int := exponent + (Nat.toDigits 10 digits).length
  if digits = 0 ∨ magnitude < -330 then finite negative 0 minExponent
  else if 310 < magnitude then infinite negative
  else
    let (num, den) := scale 10 exponent digits 1
    ofFraction negative num den

/-- The numbers that round to `mantissa * 2 ^ exponent`, in quarters of the last place: an interval
whose ends belong to it if the mantissa is even. -/
def roundingEnds (mantissa : Nat) (exponent : Int) : Nat × Nat :=
  if mantissa = leastMantissa ∧ minExponent < exponent then (4 * mantissa - 1, 4 * mantissa + 2)
  else (4 * mantissa - 2, 4 * mantissa + 2)

/-- Whether `digits * 10 ^ power` rounds to `mantissa * 2 ^ exponent`. -/
def roundsTo (mantissa : Nat) (exponent : Int) (digits : Nat) (power : Int) : Bool :=
  let (num, den) := scale 10 power digits 1
  let (num, den) := scale 2 (2 - exponent) num den
  let (lo, hi) := roundingEnds mantissa exponent
  if mantissa % 2 = 0 then lo * den ≤ num && num ≤ hi * den
  else lo * den < num && num < hi * den

/-- The multiple of `10 ^ power` that is nearest to `mantissa * 2 ^ exponent` among those that round
to it; of two nearest ones the greater. -/
def nearestOnGrid (mantissa : Nat) (exponent power : Int) : Option Nat :=
  let (num, den) := scale 2 exponent mantissa 1
  let (num, den) := scale 10 (-power) num den
  let below := num / den
  let up := roundsTo mantissa exponent (below + 1) power
  let down := 0 < below && roundsTo mantissa exponent below power
  if down && (!up || 2 * (num % den) < den) then some below
  else if up then some (below + 1)
  else none

/-- The digits and the power of the coarsest of some decimal grids, from `power` down, that has a
number which rounds to `mantissa * 2 ^ exponent`. -/
def shortestFrom (mantissa : Nat) (exponent : Int) : Nat → Int → Nat × Int
  | 0, power => (0, power)
  | grids + 1, power =>
    match nearestOnGrid mantissa exponent power with
    | some digits => (digits, power)
    | none => shortestFrom mantissa exponent grids (power - 1)

/-- The shortest digits that read back as a positive number, and their power of ten. -/
def shortest (mantissa : Nat) (exponent : Int) : Nat × Int :=
  shortestFrom mantissa exponent 700 320

/-- Digits times a power of ten, in positional notation and with at least one decimal. -/
def positional (digits : Nat) (power : Int) : String :=
  let written := Nat.toDigits 10 digits
  match power with
  | .ofNat n => String.ofList (written ++ List.replicate n '0' ++ ['.', '0'])
  | .negSucc n =>
    let places := n + 1
    let padded := List.replicate (places + 1 - written.length) '0' ++ written
    let whole := padded.length - places
    String.ofList (padded.take whole ++ '.' :: padded.drop whole)

/-- The text of a number. -/
def text : Binary64 → String
  | finite negative mantissa exponent =>
    let size :=
      if mantissa = 0 then "0.0"
      else
        let (digits, power) := shortest mantissa exponent
        positional digits power
    (if negative then "-" else "") ++ size
  | infinite negative => if negative then "-inf" else "inf"
  | nan => "NaN"

end Binary64

end FusedKernel.Number
