import Mathlib.Tactic.Common
import FusedKernel.Kernel.Emission
import FusedKernel.Kernel.Loop

/-! The code of a program in closed form. Each expression and assignment becomes a list of
statements that depends on the number of the first value only, and the function of a program
consists of four blocks. The statement of every operator has a known position in the block that does
an element. -/
namespace FusedKernel

open Code

/-- The statements for an expression, each of which defines a value. -/
def Expr.statements (x : Expr) : Nat := 2 * x.loads + x.operators

@[simp] theorem Expr.statements_load (buffer : Buffer) : (load buffer).statements = 2 := rfl

@[simp] theorem Expr.statements_binary (op : Operator) (lhs rhs : Expr) :
    (binary op lhs rhs).statements = lhs.statements + rhs.statements + 1 := by
  simp only [statements, loads, operators]
  omega

/-- The number of an expression's value, if its code defines values from a number on. -/
def Expr.result (first : Nat) : Expr → Nat
  | load _ => first + 1
  | binary _ lhs rhs => first + (lhs.statements + rhs.statements)

/-- The value of an expression is the last that its code defines. -/
theorem Expr.result_add_one (first : Nat) (x : Expr) :
    x.result first + 1 = first + x.statements := by
  cases x with
  | load buffer => rfl
  | binary op lhs rhs => rw [result, statements_binary, Nat.add_assoc]

theorem Expr.result_lt (first : Nat) (x : Expr) : x.result first < first + x.statements :=
  Nat.lt_of_succ_le (Nat.le_of_eq (x.result_add_one first))

theorem Expr.le_result (first : Nat) (x : Expr) : first ≤ x.result first := by
  cases x <;> simp [result]

namespace Code.Draft

/-- Appends statements that define a number of values to the open block. -/
def extend (d : Draft) (values : Nat) (code : List Statement) : Draft :=
  { d with next := d.next + values, body := d.body ++ code }

theorem define_eq (d : Draft) (value : Definition) :
    d.define value = (d.next, d.extend 1 [.define d.next value]) := by
  simp [define, extend]

theorem store_eq (d : Draft) (type : Ty) (value address : ValueId) :
    d.store type value address = d.extend 0 [.store type value address] := by
  simp [store, extend]

@[simp] theorem next_extend (d : Draft) (values : Nat) (code : List Statement) :
    (d.extend values code).next = d.next + values := rfl

@[simp] theorem extend_extend (d : Draft) (m n : Nat) (xs ys : List Statement) :
    (d.extend m xs).extend n ys = d.extend (m + n) (xs ++ ys) := by
  have h : d.body ++ xs ++ ys = d.body ++ (xs ++ ys) := Array.ext' (by simp)
  simp [extend, Nat.add_assoc, h]

@[simp] theorem extend_zero (d : Draft) : d.extend 0 [] = d := by simp [extend]

end Code.Draft

namespace Emission

/-- The code of an expression whose first value has a given number. -/
def exprCode (e : Element) (first : Nat) : Expr → List Statement
  | .load buffer =>
    [.define first (.binary .iadd e.width.type (base buffer) e.offset),
      .define (first + 1) (.load .i32 first)]
  | .binary op lhs rhs =>
    exprCode e first lhs ++ exprCode e (first + lhs.statements) rhs ++
      [.define (first + (lhs.statements + rhs.statements)) (.binary op.instruction .i32
        (lhs.result first) (rhs.result (first + lhs.statements)))]

@[simp] theorem length_exprCode (e : Element) (first : Nat) (x : Expr) :
    (exprCode e first x).length = x.statements := by
  induction x generalizing first with
  | load buffer => rfl
  | binary op lhs rhs ihl ihr => simp [exprCode, ihl, ihr, Nat.add_assoc]

theorem expr_eq (e : Element) (x : Expr) (d : Draft) :
    expr e x d = (x.result d.next, d.extend x.statements (exprCode e d.next x)) := by
  induction x generalizing d with
  | load buffer => simp [expr, load, address, Draft.define_eq, exprCode, Expr.result]
  | binary op lhs rhs ihl ihr =>
    simp only [expr, ihl, ihr, operation, Draft.define_eq, Draft.next_extend, Draft.extend_extend,
      Expr.statements_binary, exprCode, Expr.result]

/-- The values that an assignment's code defines. -/
def assignmentValues (a : Assignment) : Nat := a.value.statements + 1

/-- The code of an assignment: its expression, the address and the store. -/
def assignmentCode (e : Element) (first : Nat) (a : Assignment) : List Statement :=
  exprCode e first a.value ++
    [.define (first + a.value.statements)
        (.binary .iadd e.width.type (base a.target) e.offset),
      .store .i32 (a.value.result first) (first + a.value.statements)]

@[simp] theorem length_assignmentCode (e : Element) (first : Nat) (a : Assignment) :
    (assignmentCode e first a).length = a.value.statements + 2 := by
  simp [assignmentCode]

theorem assignment_eq (e : Element) (a : Assignment) (d : Draft) :
    assignment e a d = d.extend (assignmentValues a) (assignmentCode e d.next a) := by
  simp [assignment, expr_eq, store, address, Draft.define_eq, Draft.store_eq, assignmentValues,
    assignmentCode]

/-- The values that the code of some assignments defines. -/
def assignmentsValues : List Assignment → Nat
  | [] => 0
  | a :: rest => assignmentValues a + assignmentsValues rest

/-- The code of assignments in order. -/
def assignmentsCode (e : Element) (first : Nat) : List Assignment → List Statement
  | [] => []
  | a :: rest => assignmentCode e first a ++ assignmentsCode e (first + assignmentValues a) rest

theorem assignments_eq (e : Element) (as : List Assignment) (d : Draft) :
    assignments e as d = d.extend (assignmentsValues as) (assignmentsCode e d.next as) := by
  induction as generalizing d with
  | nil => simp [assignments, assignmentsValues, assignmentsCode]
  | cons a as ih =>
    simp only [assignments, assignment_eq, ih, Draft.extend_extend, Draft.next_extend,
      assignmentsCode, assignmentsValues]

/-! ### The four blocks -/

/-- The value that starts the index. -/
def start : ValueId := 5

/-- The index, a parameter of the block that compares it. -/
def index : ValueId := 6

/-- The result of the comparison. -/
def inBounds : ValueId := 7

/-- The byte offset of the current element. -/
def offset : AddressWidth → ValueId
  | .bits32 => 8
  | .bits64 => 9

def element (width : AddressWidth) : Element := ⟨width, offset width⟩

/-- The first value after the byte offset. -/
def firstFree (width : AddressWidth) : ValueId := offset width + 1

/-- The code of the byte offset. -/
def offsetCode : AddressWidth → List Statement
  | .bits32 => [.define 8 (.mulImm .i32 index 4)]
  | .bits64 => [.define 8 (.extend .i64 index), .define 9 (.mulImm .i64 8 4)]

/-- The value that the index advances to. -/
def following (width : AddressWidth) (p : Program) : ValueId :=
  firstFree width + assignmentsValues p.assignments

def entryCode (width : AddressWidth) : Block :=
  ⟨Draft.numbered 0 (signature width), [.define start (.const .i32 0)],
    .jump conditionBlock [start]⟩

def conditionCode : Block :=
  ⟨[(index, .i32)], [.define inBounds (.lessThan .i32 index size)],
    .branch inBounds bodyBlock exitBlock⟩

def bodyCode (width : AddressWidth) (p : Program) : Block :=
  ⟨[], offsetCode width ++ (assignmentsCode (element width) (firstFree width) p.assignments ++
      [.define (following width p) (.addImm .i32 index 1)]),
    .jump conditionBlock [following width p]⟩

def exitCode : Block := ⟨[], [], .leave⟩

theorem closed_program (width : AddressWidth) (p : Program) :
    (program width p .empty).closed.toList =
      [entryCode width, conditionCode, bodyCode width p, exitCode] := by
  cases width <;>
  · simp only [program, elementAt, assignments_eq]
    simp [Draft.addParams, Draft.empty, Draft.close, Draft.define, Draft.extend, Draft.numbered,
      signature, entryCode, conditionCode, bodyCode, exitCode, start, index, inBounds, element,
      offset, firstFree, offsetCode, following]

end Emission

@[simp] theorem Program.blocks_toFunction (p : Program) (width : AddressWidth) (number : Nat) :
    (p.toFunction width number).blocks =
      [Emission.entryCode width, Emission.conditionCode, Emission.bodyCode width p,
        Emission.exitCode] :=
  Emission.closed_program width p

/-! ### Positions of operators -/

/-- How many statements of an expression's code come before that of an operator. -/
def Expr.position : Expr → List Side → Nat
  | load _, _ => 0
  | binary _ lhs rhs, [] => lhs.statements + rhs.statements
  | binary _ lhs _, .left :: path => lhs.position path
  | binary _ lhs rhs, .right :: path => lhs.statements + rhs.position path

namespace Emission

/-- How many statements come before an assignment by its place, in the code of some assignments. -/
def assignmentPosition : List Assignment → Nat → Nat
  | a :: rest, i + 1 => a.value.statements + 2 + assignmentPosition rest i
  | _, _ => 0

/-- How many statements of some assignments' code come before that of an operator, which is known by
its assignment and its place there. -/
def operatorPosition (as : List Assignment) (i : Nat) (path : List Expr.Side) : Nat :=
  assignmentPosition as i + ((as[i]?).elim 0 fun a => a.value.position path)

end Emission

/-- The position, in the block that does an element, of the operator at which a run ends. -/
def Program.Hazard.position (width : AddressWidth) (p : Program) (h : Program.Hazard) : Nat :=
  (Emission.offsetCode width).length +
    Emission.operatorPosition p.assignments h.assignment h.stuck.path

end FusedKernel
