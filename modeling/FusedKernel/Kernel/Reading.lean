import FusedKernel.Kernel.Program
import FusedKernel.Operator.Reading

/-!
Programs with their operators as written. Reading resolves the operators: those of the stores in
order, then those of the result, and in an expression the operator before its operands. The first
unknown one is reported.
-/
namespace FusedKernel

inductive Expr.Written
  | load (buffer : Buffer)
  | binary (op : Operator.Written) (lhs rhs : Expr.Written)
  deriving Repr, Inhabited

/-- The expression with its operators resolved. -/
def Expr.Written.read : Expr.Written → Except UnsupportedOperator Expr
  | load buffer => .ok (.load buffer)
  | binary op lhs rhs => do
    let op ← op.read
    let lhs ← lhs.read
    let rhs ← rhs.read
    return .binary op lhs rhs

/-- A program with its operators as written. -/
structure Program.Written where
  stores : List (Buffer × Expr.Written)
  result : Expr.Written
  deriving Repr

/-- The program with its operators resolved. -/
def Program.Written.read (p : Program.Written) : Except UnsupportedOperator Program := do
  let stores ← p.stores.mapM fun (target, value) => do return ⟨target, ← value.read⟩
  let result ← p.result.read
  return ⟨stores, result⟩

end FusedKernel
