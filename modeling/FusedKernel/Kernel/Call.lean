import FusedKernel.Code.Machine
import FusedKernel.FencedBuffer
import FusedKernel.Kernel.Emission

/-!
Calls of compiled functions. A raw call takes a size and four addresses and checks nothing. A
checked call takes four arrays and runs over the length of the output, if the size can express it
and no input is shorter. Arrays lie in banks of memory of their own.
-/
namespace FusedKernel

open Code

/-- How a call ends, with what it leaves behind. -/
inductive CallResult (α : Type)
  | returned (after : α)
  /-- A trap at some element: those before it are done. -/
  | trapped (after : α)
  /-- The code breaks the rules of the machine. -/
  | faulty
  deriving DecidableEq, Repr

def CallResult.map {α β : Type} (f : α → β) : CallResult α → CallResult β
  | returned after => returned (f after)
  | trapped after => trapped (f after)
  | faulty => faulty

/-- The memory at the end of a run. -/
def Code.Function.Outcome.memory : Function.Outcome → CallResult Memory
  | .returned s => .returned s.memory
  | .trapped s => .trapped s.memory
  | .illFormed | .unfinished => .faulty

namespace Code.Function

/-- The arguments of a call. -/
def callArguments (width : AddressWidth) (size : Word) (base : Buffer → BitVec width.bits) :
    List Scalar :=
  .word size :: Buffer.all.map fun buffer => width.pointer (base buffer)

/-- Enough blocks for a loop over a size: two for each element, and the ends. -/
def blockLimit (size : Word) : Nat := 2 * size.toInt.toNat + 3

/-- Runs the function on raw addresses. -/
def callRaw (f : Function) (size : Word) (base : Buffer → BitVec 64) (m : Memory) :
    Function.Outcome :=
  f.call (blockLimit size) (callArguments .bits64 size base) m

end Code.Function

/-- One value for each of the four buffers. -/
structure PerBuffer (α : Type) where
  a : α
  b : α
  c : α
  out : α
  deriving DecidableEq, Repr

namespace PerBuffer

variable {α β : Type}

def get (p : PerBuffer α) : Buffer → α
  | .a => p.a
  | .b => p.b
  | .c => p.c
  | .out => p.out

def ofFunction (f : Buffer → α) : PerBuffer α := ⟨f .a, f .b, f .c, f .out⟩

def map (f : α → β) (p : PerBuffer α) : PerBuffer β := ofFunction fun buffer => f (p.get buffer)

/-- The values in the order of the arguments. -/
def toList (p : PerBuffer α) : List α := Buffer.all.map p.get

@[simp] theorem get_ofFunction (f : Buffer → α) (buffer : Buffer) :
    (ofFunction f).get buffer = f buffer := by
  cases buffer <;> rfl

@[simp] theorem get_map (f : α → β) (p : PerBuffer α) (buffer : Buffer) :
    (p.map f).get buffer = f (p.get buffer) := get_ofFunction _ _

theorem ext_get {p q : PerBuffer α} (h : ∀ buffer, p.get buffer = q.get buffer) : p = q := by
  obtain ⟨a, b, c, out⟩ := p
  obtain rfl : a = q.a := h .a
  obtain rfl : b = q.b := h .b
  obtain rfl : c = q.c := h .c
  obtain rfl : out = q.out := h .out
  rfl

end PerBuffer

/-- Why a checked call is refused. -/
inductive CallError
  | sizeOverflow (length : Nat)
  | bufferTooShort (buffer : Buffer) (length size : Nat)
  deriving DecidableEq, Repr

def CallError.message : CallError → String
  | sizeOverflow length =>
    "buffer length " ++ toString length ++ " exceeds the kernel size range"
  | bufferTooShort buffer length size =>
    "buffer `" ++ buffer.name ++ "` has " ++ toString length ++
      " elements but the kernel size is " ++ toString size

namespace Call

/-- The greatest size of a call. -/
def maxSize : Nat := 0x7fffffff

/-- The buffers that a call reads. -/
def inputs : List Buffer := [.a, .b, .c]

/-- The size of a call on arrays of given lengths: the length of the output, if it is no greater
than the greatest size and no input is shorter. The first short input is reported. -/
def checkLengths (lengths : PerBuffer Nat) : Except CallError Word :=
  if maxSize < lengths.out then .error (.sizeOverflow lengths.out)
  else
    match inputs.find? fun buffer => lengths.get buffer < lengths.out with
    | some buffer => .error (.bufferTooShort buffer (lengths.get buffer) lengths.out)
    | none => .ok (BitVec.ofNat 32 lengths.out)

/-- The address of a buffer's first cell, where each buffer has a bank of its own. -/
def bankBase (buffer : Buffer) : BitVec 64 :=
  BitVec.ofNat 64 (Memory.bankAddress buffer.index 0)

/-- Memory with each buffer's cells in its bank. -/
def memoryOf (buffers : PerBuffer (Array Word)) : Memory := Memory.ofBanks buffers.toList

/-- The arrays that memory holds in the banks, of the same lengths as some others. -/
def buffersOf (lengths : PerBuffer Nat) (m : Memory) : PerBuffer (Array Word) :=
  .ofFunction fun buffer => m.readArray (Memory.bankAddress buffer.index 0) (lengths.get buffer)

/-- A checked call on buffers that lie in memory: their first cells and their lengths. -/
def checkedAt (f : Function) (base : Buffer → BitVec 64) (lengths : PerBuffer Nat) (m : Memory) :
    Except CallError (CallResult Memory) :=
  match checkLengths lengths with
  | .error e => .error e
  | .ok size => .ok (f.callRaw size base m).memory

/-- A checked call on four arrays. -/
def checked (f : Function) (buffers : PerBuffer (Array Word)) :
    Except CallError (CallResult (PerBuffer (Array Word))) :=
  let lengths := buffers.map Array.size
  (checkedAt f bankBase lengths (memoryOf buffers)).map (·.map (buffersOf lengths))

/-- A raw call on four fenced buffers, which may reach into the fences. Without inputs their
addresses are zero. -/
def fenced (f : Function) (size : Word) (withInputs : Bool) (buffers : PerBuffer FencedBuffer) :
    CallResult (PerBuffer FencedBuffer) :=
  let base := fun buffer => if withInputs || buffer = .out then bankBase buffer else 0
  let m := memoryOf (buffers.map FencedBuffer.cells)
  (f.callRaw size base m).memory.map fun after =>
    .ofFunction fun buffer =>
      let size := (buffers.get buffer).size
      { cells := after.readArray (Memory.bankAddress buffer.index 0) (size + 4)
        size := size
        size_cells := by simp }

/-- A raw call on one array, in which each buffer starts at an index. -/
def shared (f : Function) (size : Word) (starts : PerBuffer Nat) (cells : Array Word) :
    CallResult (Array Word) :=
  let base := fun buffer => BitVec.ofNat 64 (Memory.bankAddress 0 (starts.get buffer))
  (f.callRaw size base (Memory.ofBanks [cells])).memory.map fun after =>
    after.readArray (Memory.bankAddress 0 0) cells.size

end Call

end FusedKernel
