import FusedKernel.Operator.Basic

/-!
Scalar reference evaluation of a fused pair of operators over three arrays of words.
-/
namespace FusedKernel

/-- Two operators, of which the second takes the value of the first as its left operand. -/
structure OperatorPair where
  first : Operator
  second : Operator
  deriving DecidableEq, Repr

namespace OperatorPair

/-- The fused value `second (first x y) z`, where both operators have one. -/
def apply (p : OperatorPair) (x y z : Word) : Option Word := do
  let partialValue ← p.first.apply x y
  p.second.apply partialValue z

/-- Why there is no reference result. -/
inductive ReferenceError
  | shortOperand
  | hazard
  deriving DecidableEq, Repr

def ReferenceError.message : ReferenceError → String
  | shortOperand => "assertion failed: b.len() >= a.len() && c.len() >= a.len()"
  | hazard => "hazard"

/-- The fused values of three lists, element by element, or `none` if one is missing. -/
def applyAll (p : OperatorPair) : List Word → List Word → List Word → Option (List Word)
  | x :: xs, y :: ys, z :: zs => do
    let value ← p.apply x y z
    let rest ← applyAll p xs ys zs
    return value :: rest
  | _, _, _ => some []

/-- The fused values for every index of `a`; `b` and `c` must be at least as long. -/
def reference (p : OperatorPair) (a b c : Array Word) : Except ReferenceError (Array Word) :=
  if b.size < a.size ∨ c.size < a.size then .error .shortOperand
  else
    match p.applyAll a.toList b.toList c.toList with
    | some values => .ok values.toArray
    | none => .error .hazard

end OperatorPair

end FusedKernel
