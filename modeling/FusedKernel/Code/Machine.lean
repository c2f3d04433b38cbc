import FusedKernel.Code.Basic
import FusedKernel.Code.Memory

/-!
Execution of code. A block runs its statements in order and then follows its exit. Division and
remainder trap where they have no result; a trap leaves the state as it was before the statement.
Code that uses a value it did not define, or at a type it does not have, is faulty.
-/
namespace FusedKernel.Code

inductive Scalar
  | flag (b : Bool)
  | word (w : BitVec 32)
  | wide (w : BitVec 64)
  deriving DecidableEq, Repr

/-- A value that holds an address. -/
def AddressWidth.pointer : (width : AddressWidth) → BitVec width.bits → Scalar
  | bits32, p => .word p
  | bits64, p => .wide p

/-- Why a statement has no next state. -/
inductive Fault
  /-- A division without result. -/
  | trap
  /-- An undefined value, a value of the wrong type, or a block that does not exist. -/
  | illFormed
  deriving DecidableEq, Repr

/-- The result of a two-operand instruction at one width. -/
def BinaryOp.eval (op : BinaryOp) {n : Nat} (x y : BitVec n) : Except Fault (BitVec n) :=
  match op with
  | iadd => .ok (x + y)
  | isub => .ok (x - y)
  | imul => .ok (x * y)
  | sdiv => if y = 0 ∨ (x = BitVec.intMin n ∧ y = -1) then .error .trap else .ok (x.sdiv y)
  | srem => if y = 0 then .error .trap else .ok (x.srem y)

/-- A read or a write of one cell. -/
inductive Access
  | load (address : Address)
  | store (address : Address)
  deriving DecidableEq, Repr

/-- The values defined so far, under their numbers. -/
abbrev Env := Std.HashMap ValueId Scalar

structure State where
  env : Env
  memory : Memory
  /-- Every access so far, the latest first. -/
  accesses : List Access

namespace State

/-- The value under a number. -/
def value (s : State) (x : ValueId) : Except Fault Scalar :=
  match s.env[x]? with
  | some v => .ok v
  | none => .error .illFormed

def bind (s : State) (x : ValueId) (v : Scalar) : State := { s with env := s.env.insert x v }

@[simp] theorem value_bind (s : State) (x y : ValueId) (v : Scalar) :
    (s.bind x v).value y = if x = y then .ok v else s.value y := by
  by_cases h : x = y <;> simp [bind, value, Std.HashMap.getElem?_insert, h]

/-- The address under a number. -/
def address (s : State) (x : ValueId) : Except Fault Address :=
  match s.value x with
  | .ok (.word w) => .ok w.toNat
  | .ok (.wide w) => .ok w.toNat
  | .ok (.flag _) => .error .illFormed
  | .error e => .error e

/-- Binds parameters to arguments, one for each. -/
def bindAll (s : State) : List (ValueId × Ty) → List Scalar → Option State
  | [], [] => some s
  | (x, _) :: params, v :: args => (s.bind x v).bindAll params args
  | _, _ => none

end State

/-- Sign extension of a word. -/
def extendTo (type : Ty) (w : BitVec 32) : Except Fault Scalar :=
  match type with
  | .i64 => .ok (.wide (w.signExtend 64))
  | _ => .error .illFormed

/-- An operation at the width that its two operands share. -/
def Scalar.combine (f : {n : Nat} → BitVec n → BitVec n → Except Fault (BitVec n)) :
    Scalar → Scalar → Except Fault Scalar
  | word x, word y => (f x y).map word
  | wide x, wide y => (f x y).map wide
  | _, _ => .error .illFormed

/-- An integer at the width of a value. -/
def Scalar.withInt (n : Int) : Scalar → Except Fault Scalar
  | word _ => .ok (.word (BitVec.ofInt 32 n))
  | wide _ => .ok (.wide (BitVec.ofInt 64 n))
  | flag _ => .error .illFormed

/-- Signed comparison of two values of one width. -/
def Scalar.lessThan : Scalar → Scalar → Except Fault Scalar
  | word x, word y => .ok (.flag (x.slt y))
  | wide x, wide y => .ok (.flag (x.slt y))
  | _, _ => .error .illFormed

namespace Definition

/-- The value that a definition gives in a state. -/
def eval (s : State) : Definition → Except Fault Scalar
  | const .i32 n => .ok (.word (BitVec.ofInt 32 n))
  | const .i64 n => .ok (.wide (BitVec.ofInt 64 n))
  | const .i8 _ => .error .illFormed
  | extend type x => do
    match ← s.value x with
    | .word w => extendTo type w
    | _ => .error .illFormed
  | addImm _ x n => do
    let v ← s.value x
    v.combine BinaryOp.iadd.eval (← v.withInt n)
  | mulImm _ x n => do
    let v ← s.value x
    v.combine BinaryOp.imul.eval (← v.withInt n)
  | binary op _ x y => do
    let v ← s.value x
    v.combine op.eval (← s.value y)
  | lessThan _ x y => do
    let v ← s.value x
    v.lessThan (← s.value y)
  | load .i32 address => do
    return .word (s.memory.read (← s.address address))
  | load _ _ => .error .illFormed

/-- The access that a definition makes. -/
def access? (s : State) : Definition → Option Access
  | load _ address => (s.address address).toOption.map .load
  | _ => none

end Definition

namespace Statement

/-- The state after a statement. -/
def step (s : State) : Statement → Except Fault State
  | define result value => do
    let v ← value.eval s
    return { s.bind result v with accesses := (value.access? s).toList ++ s.accesses }
  | store _ value address => do
    match ← s.value value with
    | .word w =>
      let p ← s.address address
      return { s with memory := s.memory.write p w, accesses := .store p :: s.accesses }
    | _ => .error .illFormed

end Statement

/-- The state after some statements, or the fault of the first that has none and the state before
it. -/
def runBody (s : State) : List Statement → Except (Fault × State) State
  | [] => .ok s
  | statement :: rest =>
    match statement.step s with
    | .ok next => runBody next rest
    | .error fault => .error (fault, s)

/-- Where execution stands after a block. -/
inductive Next
  | goto (block : BlockId) (s : State)
  | returned (s : State)
  | halted (fault : Fault) (s : State)

namespace Function

/-- Enters a block with arguments for its parameters. -/
def enter (f : Function) (s : State) (target : BlockId) (args : List Scalar) : Next :=
  match f.blocks[target]? with
  | none => .halted .illFormed s
  | some block =>
    match s.bindAll block.params args with
    | none => .halted .illFormed s
    | some s => .goto target s

/-- Leaves a block by its exit. -/
def follow (f : Function) (s : State) : Exit → Next
  | .jump target arguments =>
    match arguments.mapM s.value with
    | .ok args => f.enter s target args
    | .error fault => .halted fault s
  | .branch condition ifTrue ifFalse =>
    match s.value condition with
    | .ok (.flag b) => f.enter s (if b then ifTrue else ifFalse) []
    | _ => .halted .illFormed s
  | .leave => .returned s

/-- Runs one block. -/
def step (f : Function) (s : State) (block : BlockId) : Next :=
  match f.blocks[block]? with
  | none => .halted .illFormed s
  | some b =>
    match runBody s b.body with
    | .error (fault, s) => .halted fault s
    | .ok s => f.follow s b.exit

/-- How a run ends. -/
inductive Outcome
  | returned (s : State)
  | trapped (s : State)
  | illFormed
  /-- The allowed number of blocks was used up. -/
  | unfinished

/-- Runs at most a number of blocks. -/
def run (f : Function) : Nat → Next → Outcome
  | _, .returned s => .returned s
  | _, .halted .trap s => .trapped s
  | _, .halted .illFormed _ => .illFormed
  | 0, .goto _ _ => .unfinished
  | blocks + 1, .goto block s => f.run blocks (f.step s block)

/-- Enters a function: the arguments are bound to the parameters of its first block. -/
def start (f : Function) (args : List Scalar) (memory : Memory) : Next :=
  f.enter ⟨∅, memory, []⟩ 0 args

/-- Calls a function and lets it run at most a number of blocks. -/
def call (f : Function) (blocks : Nat) (args : List Scalar) (memory : Memory) : Outcome :=
  f.run blocks (f.start args memory)

end Function

end FusedKernel.Code
