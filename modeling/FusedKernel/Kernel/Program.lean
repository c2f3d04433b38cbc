import FusedKernel.Operator.Basic

/-!
What a kernel computes at each element: stores of expressions into buffers, in order, and then an
expression for the output. The source of the code, and the subject of its meaning.
-/
namespace FusedKernel

/-- The four buffers of a kernel, in the order of its arguments. -/
inductive Buffer
  | a
  | b
  | c
  | out
  deriving DecidableEq, Repr, Inhabited

namespace Buffer

/-- The position of a buffer among the four. -/
def index : Buffer → Nat
  | a => 0
  | b => 1
  | c => 2
  | out => 3

def name : Buffer → String
  | a => "a"
  | b => "b"
  | c => "c"
  | out => "out"

def all : List Buffer := [a, b, c, out]

/-- The buffer of a name. -/
def ofName? (s : String) : Option Buffer := all.find? fun buffer => buffer.name == s

theorem index_injective {x y : Buffer} (h : x.index = y.index) : x = y := by
  cases x <;> cases y <;> simp_all [index]

end Buffer

/-- An expression over the current elements of the buffers. -/
inductive Expr
  | load (buffer : Buffer)
  | binary (op : Operator) (lhs rhs : Expr)
  deriving DecidableEq, Repr

namespace Expr

/-- The number of loads. -/
def loads : Expr → Nat
  | load _ => 1
  | binary _ lhs rhs => lhs.loads + rhs.loads

/-- The number of operators. -/
def operators : Expr → Nat
  | load _ => 0
  | binary _ lhs rhs => lhs.operators + rhs.operators + 1

/-- An operand of an operator. -/
inductive Side
  | left
  | right
  deriving DecidableEq, Repr

/-- An operator without value on its operands, and the way to it from the root. -/
structure Stuck where
  path : List Side
  op : Operator
  lhs : Word
  rhs : Word
  deriving DecidableEq, Repr

/-- The operator one level further up. -/
def Stuck.under (side : Side) (s : Stuck) : Stuck := { s with path := side :: s.path }

/-- The value of an expression over given elements, or the first operator that has none. The left
operand is evaluated first. -/
def eval (element : Buffer → Word) : Expr → Except Stuck Word
  | load buffer => .ok (element buffer)
  | binary op lhs rhs =>
    match lhs.eval element with
    | .error stuck => .error (stuck.under .left)
    | .ok x =>
      match rhs.eval element with
      | .error stuck => .error (stuck.under .right)
      | .ok y =>
        match op.apply x y with
        | some w => .ok w
        | none => .error ⟨[], op, x, y⟩

end Expr

/-- A store of an expression into the current element of a buffer. -/
structure Assignment where
  target : Buffer
  value : Expr
  deriving DecidableEq, Repr

structure Program where
  stores : List Assignment
  /-- The expression for the output. -/
  result : Expr
  deriving DecidableEq, Repr

namespace Program

/-- All assignments of an element, the one of the output last. -/
def assignments (p : Program) : List Assignment := p.stores ++ [⟨.out, p.result⟩]

end Program

end FusedKernel
