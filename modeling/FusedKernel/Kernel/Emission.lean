import FusedKernel.Code.Draft
import FusedKernel.Kernel.Program

/-!
The code of a program: a loop over an index from zero to below the size, in four blocks. The first
starts the index, the second compares it with the size, the third does one element and advances the
index, the fourth returns. Expressions become straight-line code in post-order, without sharing or
folding. Functions are written one after the other on the same draft, which is wiped in between.
-/
namespace FusedKernel

open Code

/-- The instruction for an operator. -/
def Operator.instruction : Operator → BinaryOp
  | plus => .iadd
  | minus => .isub
  | multiply => .imul
  | divide => .sdiv
  | modular => .srem

namespace Emission

/-- The parameter that holds the size. -/
def size : ValueId := 0

/-- The parameter that holds the address of a buffer. -/
def base (buffer : Buffer) : ValueId := buffer.index + 1

/-- The byte offset of the current element, computed once and used by every address. -/
structure Element where
  width : AddressWidth
  offset : ValueId

/-- Computes the byte offset of the element at an index, at the width of addresses. -/
def elementAt (width : AddressWidth) (index : ValueId) (d : Draft) : Element × Draft :=
  match width with
  | .bits32 =>
    let (offset, d) := d.define (.mulImm .i32 index 4)
    (⟨width, offset⟩, d)
  | .bits64 =>
    let (wide, d) := d.define (.extend .i64 index)
    let (offset, d) := d.define (.mulImm .i64 wide 4)
    (⟨width, offset⟩, d)

/-- Computes the address of the current element of a buffer. -/
def address (e : Element) (buffer : Buffer) (d : Draft) : ValueId × Draft :=
  d.define (.binary .iadd e.width.type (base buffer) e.offset)

/-- Loads the current element of a buffer. -/
def load (e : Element) (buffer : Buffer) (d : Draft) : ValueId × Draft :=
  let (p, d) := address e buffer d
  d.define (.load .i32 p)

/-- Stores a value into the current element of a buffer. -/
def store (e : Element) (buffer : Buffer) (value : ValueId) (d : Draft) : Draft :=
  let (p, d) := address e buffer d
  d.store .i32 value p

/-- Applies an operator to two values. -/
def operation (op : Operator) (x y : ValueId) (d : Draft) : ValueId × Draft :=
  d.define (.binary op.instruction .i32 x y)

/-- Computes an expression: the left operand, the right operand, the operator. -/
def expr (e : Element) : Expr → Draft → ValueId × Draft
  | .load buffer, d => load e buffer d
  | .binary op lhs rhs, d =>
    let (x, d) := expr e lhs d
    let (y, d) := expr e rhs d
    operation op x y d

/-- Computes an expression and stores its value. -/
def assignment (e : Element) (a : Assignment) (d : Draft) : Draft :=
  let (x, d) := expr e a.value d
  store e a.target x d

/-- Does all assignments of an element in order. -/
def assignments (e : Element) : List Assignment → Draft → Draft
  | [], d => d
  | a :: rest, d => assignments e rest (assignment e a d)

/-- The parameters of every kernel: the size and the addresses of the four buffers. -/
def signature (width : AddressWidth) : List Ty :=
  [.i32, width.type, width.type, width.type, width.type]

/-- The block that compares the index with the size. -/
def conditionBlock : BlockId := 1

/-- The block that does one element. -/
def bodyBlock : BlockId := 2

/-- The block that returns. -/
def exitBlock : BlockId := 3

/-- Writes the blocks of a program on a draft. -/
def program (width : AddressWidth) (p : Program) (d : Draft) : Draft :=
  let d := d.addParams (signature width)
  let (start, d) := d.define (.const .i32 0)
  let d := d.close (.jump conditionBlock [start])
  let index := d.next
  let d := d.addParams [.i32]
  let (inBounds, d) := d.define (.lessThan .i32 index size)
  let d := d.close (.branch inBounds bodyBlock exitBlock)
  let (e, d) := elementAt width index d
  let d := assignments e p.assignments d
  let (following, d) := d.define (.addImm .i32 index 1)
  let d := d.close (.jump conditionBlock [following])
  d.close .leave

end Emission

/-- The function that a program becomes under a number when it is written on a draft, and the draft
wiped for the next one. -/
def Program.writeOn (board : Draft) (p : Program) (width : AddressWidth) (number : Nat) :
    Function × Draft :=
  let d := Emission.program width p board
  (⟨number, Emission.signature width, d.closed.toList⟩, d.clear)

/-- The function that a program becomes, under a number. -/
def Program.toFunction (p : Program) (width : AddressWidth) (number : Nat) : Function :=
  (p.writeOn .empty width number).1

end FusedKernel
