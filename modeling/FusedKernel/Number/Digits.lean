/-!
Digits and the numbers they write, in any radix up to sixteen.
-/
namespace FusedKernel.Number

/-- The value of a hexadecimal digit. -/
def hexValue? (c : Char) : Option Nat :=
  if '0' ≤ c ∧ c ≤ '9' then some (c.toNat - '0'.toNat)
  else if 'a' ≤ c ∧ c ≤ 'f' then some (c.toNat - 'a'.toNat + 10)
  else if 'A' ≤ c ∧ c ≤ 'F' then some (c.toNat - 'A'.toNat + 10)
  else none

/-- The value of a digit in a radix. -/
def digitValue? (radix : Nat) (c : Char) : Option Nat :=
  (hexValue? c).filter (· < radix)

/-- Whether a character is a digit in a radix. -/
def isDigit (radix : Nat) (c : Char) : Bool := (digitValue? radix c).isSome

/-- The number that some digits write; other characters do not count. -/
def ofDigits (radix : Nat) (digits : List Char) : Nat :=
  digits.foldl (fun n c => match digitValue? radix c with
    | some d => n * radix + d
    | none => n) 0

end FusedKernel.Number
