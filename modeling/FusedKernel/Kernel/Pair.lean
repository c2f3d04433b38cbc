import FusedKernel.Kernel.Emission
import FusedKernel.Reference

/-!
The program of a fused pair of operators: at each element, the second operator applied to the value
of the first on `a` and `b`, and to `c`.
-/
namespace FusedKernel.OperatorPair

/-- The program that a pair stands for. -/
def program (p : OperatorPair) : Program :=
  ⟨[], .binary p.second (.binary p.first (.load .a) (.load .b)) (.load .c)⟩

/-- The function that is compiled for a pair: its program's, with 64-bit addresses. -/
def toFunction (p : OperatorPair) (number : Nat) : Code.Function :=
  p.program.toFunction .bits64 number

end FusedKernel.OperatorPair
