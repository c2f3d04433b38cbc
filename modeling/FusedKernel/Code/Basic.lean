/-!
Code in single-assignment form. A function is a list of blocks; a block has parameters, a body of
statements and one exit. Every value is defined once, by a block parameter or by a statement, and
is known by its number. Blocks are known by their position.
-/
namespace FusedKernel.Code

abbrev ValueId := Nat

abbrev BlockId := Nat

/-- The types of values. Comparisons have results of type `i8`. -/
inductive Ty
  | i8
  | i32
  | i64
  deriving DecidableEq, Repr, Inhabited

def Ty.name : Ty → String
  | i8 => "i8"
  | i32 => "i32"
  | i64 => "i64"

/-- How wide the addresses of a target are. -/
inductive AddressWidth
  | bits32
  | bits64
  deriving DecidableEq, Repr, Inhabited

namespace AddressWidth

/-- The type of addresses. -/
def type : AddressWidth → Ty
  | bits32 => .i32
  | bits64 => .i64

/-- The bits of an address. -/
def bits : AddressWidth → Nat
  | bits32 => 32
  | bits64 => 64

/-- The bytes that addresses can tell apart. -/
def space : AddressWidth → Nat
  | bits32 => 0x100000000
  | bits64 => 0x10000000000000000

end AddressWidth

/-- Integer instructions with two operands of one type and a result of that type. -/
inductive BinaryOp
  | iadd
  | isub
  | imul
  | sdiv
  | srem
  deriving DecidableEq, Repr

def BinaryOp.name : BinaryOp → String
  | iadd => "iadd"
  | isub => "isub"
  | imul => "imul"
  | sdiv => "sdiv"
  | srem => "srem"

/-- What defines a value. The type in an instruction is that of its operands. -/
inductive Definition
  | const (type : Ty) (n : Int)
  /-- Sign extension to a wider type. -/
  | extend (type : Ty) (x : ValueId)
  | addImm (type : Ty) (x : ValueId) (n : Int)
  | mulImm (type : Ty) (x : ValueId) (n : Int)
  | binary (op : BinaryOp) (type : Ty) (x y : ValueId)
  /-- Signed comparison. -/
  | lessThan (type : Ty) (x y : ValueId)
  | load (type : Ty) (address : ValueId)
  deriving DecidableEq, Repr

namespace Definition

/-- The type of the value defined. -/
def resultType : Definition → Ty
  | const type _ | extend type _ | addImm type _ _ | mulImm type _ _ | binary _ type _ _
  | load type _ => type
  | lessThan _ _ _ => .i8

/-- The values used, in the order in which they are written. -/
def operands : Definition → List ValueId
  | const _ _ => []
  | extend _ x | addImm _ x _ | mulImm _ x _ | load _ x => [x]
  | binary _ _ x y | lessThan _ x y => [x, y]

end Definition

inductive Statement
  | define (result : ValueId) (value : Definition)
  | store (type : Ty) (value address : ValueId)
  deriving DecidableEq, Repr

namespace Statement

/-- The value that a statement defines, with its type. -/
def defined? : Statement → Option (ValueId × Ty)
  | define result value => some (result, value.resultType)
  | store _ _ _ => none

def operands : Statement → List ValueId
  | define _ value => value.operands
  | store _ value address => [value, address]

/-- The constant that a statement defines, with its value's number. -/
def constant? : Statement → Option (ValueId × Int)
  | define result (.const _ n) => some (result, n)
  | _ => none

end Statement

/-- How control leaves a block. -/
inductive Exit
  | jump (target : BlockId) (arguments : List ValueId)
  | branch (condition : ValueId) (ifTrue ifFalse : BlockId)
  | leave
  deriving DecidableEq, Repr

def Exit.operands : Exit → List ValueId
  | jump _ arguments => arguments
  | branch condition _ _ => [condition]
  | leave => []

structure Block where
  params : List (ValueId × Ty)
  body : List Statement
  exit : Exit
  deriving DecidableEq, Repr

namespace Block

/-- The values that a block defines, in order: its parameters, then those of its body. -/
def defined (b : Block) : List (ValueId × Ty) := b.params ++ b.body.filterMap Statement.defined?

/-- Whether a value is defined in the block. -/
def defines (b : Block) (x : ValueId) : Bool := b.defined.any fun d => d.1 == x

end Block

/-- A function with a number for its name. Control enters at the first block, whose parameters are
those of the function. -/
structure Function where
  number : Nat
  signature : List Ty
  blocks : List Block
  deriving DecidableEq, Repr

namespace Function

/-- The constants that a function defines. -/
def constants (f : Function) : List (ValueId × Int) :=
  f.blocks.flatMap fun b => b.body.filterMap Statement.constant?

end Function

end FusedKernel.Code
