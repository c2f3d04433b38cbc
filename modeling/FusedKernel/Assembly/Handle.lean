import FusedKernel.Kernel.Call
import FusedKernel.Kernel.Pair
import FusedKernel.Operator.Reading
import FusedKernel.Settings.Error

/-!
Handles of compiled kernels, the kernels that linking makes of them, and why one cannot be had.
-/
namespace FusedKernel

/-- What identifies a kernel: its name and operators, its number in the assembly that compiled it,
and the identity of that assembly. -/
structure Handle where
  name : String
  ops : OperatorPair
  number : Nat
  owner : Nat
  deriving DecidableEq, Repr

/-- A linked kernel, with the text of its code if that was kept. -/
structure Kernel where
  handle : Handle
  text : Option (List String)
  code : Code.Function
  deriving DecidableEq, Repr

namespace Kernel

def name (k : Kernel) : String := k.handle.name

/-- One line that shows the name, quoted, and the operators. -/
def describe (k : Kernel) : String :=
  "KernelFn \x7b name: " ++ Text.quoted k.name ++ ", op1: " ++ k.handle.ops.first.label ++
    ", op2: " ++ k.handle.ops.second.label ++ " \x7d"

end Kernel

/-- Why an operation on kernels fails. -/
inductive Failure
  | unsupportedOperator (e : UnsupportedOperator)
  | duplicateSymbol (name : String)
  | symbolNotFound (name : String)
  | call (e : CallError)
  | settings (e : Settings.Error)
  deriving DecidableEq, Repr

/-- The wording of a failure, where it has one. -/
def Failure.message? : Failure → Option String
  | unsupportedOperator e => some e.message
  | duplicateSymbol name => some ("duplicate symbol: " ++ name)
  | symbolNotFound name => some ("symbol not found: " ++ name)
  | call e => some e.message
  | settings e => e.message?.map ("configuration error: " ++ ·)

end FusedKernel
