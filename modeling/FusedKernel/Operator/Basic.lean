/-!
The catalogue of binary operators on 32-bit words, with their scalar meaning.

Addition, subtraction and multiplication wrap. Division truncates toward zero and has no value for
a zero divisor and for the least word divided by minus one, whose quotient is no word. The
remainder has the sign of the dividend and lacks a value for a zero divisor only.
-/
namespace FusedKernel

/-- A 32-bit machine word, read as a signed integer by division and comparison. -/
abbrev Word := BitVec 32

inductive Operator
  | plus
  | minus
  | multiply
  | divide
  | modular
  deriving DecidableEq, Repr, Inhabited

namespace Operator

/-- The catalogue in its order. An operator's code is its position here. -/
def all : List Operator := [plus, minus, multiply, divide, modular]

theorem mem_all (op : Operator) : op ∈ all := by
  cases op <;> decide

/-- The position of an operator in the catalogue. -/
def code : Operator → Nat
  | plus => 0
  | minus => 1
  | multiply => 2
  | divide => 3
  | modular => 4

/-- The operator at a position of the catalogue. -/
def ofCode? (n : Nat) : Option Operator := all[n]?

def symbol : Operator → String
  | plus => "+"
  | minus => "-"
  | multiply => "*"
  | divide => "/"
  | modular => "%"

def name : Operator → String
  | plus => "plus"
  | minus => "minus"
  | multiply => "multiply"
  | divide => "divide"
  | modular => "modular"

/-- The capitalised name, used where a kernel is described. -/
def label : Operator → String
  | plus => "Plus"
  | minus => "Minus"
  | multiply => "Multiply"
  | divide => "Divide"
  | modular => "Modular"

/-- The value of an operator on two words, or `none` where it has none. -/
def apply (op : Operator) (x y : Word) : Option Word :=
  match op with
  | plus => some (x + y)
  | minus => some (x - y)
  | multiply => some (x * y)
  | divide => if y = 0 ∨ (x = BitVec.intMin 32 ∧ y = -1) then none else some (x.sdiv y)
  | modular => if y = 0 then none else some (x.srem y)

/-- Whether the operator lacks a value on some words. -/
def canTrap : Operator → Bool
  | plus | minus | multiply => false
  | divide | modular => true

@[simp] theorem apply_plus (x y : Word) : plus.apply x y = some (x + y) := rfl

@[simp] theorem apply_minus (x y : Word) : minus.apply x y = some (x - y) := rfl

@[simp] theorem apply_multiply (x y : Word) : multiply.apply x y = some (x * y) := rfl

theorem apply_divide (x y : Word) :
    divide.apply x y =
      if y = 0 ∨ (x = BitVec.intMin 32 ∧ y = -1) then none else some (x.sdiv y) := rfl

theorem apply_modular (x y : Word) :
    modular.apply x y = if y = 0 then none else some (x.srem y) := rfl

end Operator

end FusedKernel
