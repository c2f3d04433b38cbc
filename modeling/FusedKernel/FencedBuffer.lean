import FusedKernel.Operator.Basic

/-!
Buffers with a fence: some cells behind the payload that hold a known word. Indexed writes reach the
payload only; raw writes reach the fence as well, where a changed word gives an overrun away.
-/
namespace FusedKernel

structure FencedBuffer where
  cells : Array Word
  /-- The length of the payload. -/
  size : Nat
  size_cells : cells.size = size + 4
  deriving DecidableEq

namespace FencedBuffer

/-- The number of cells in a fence. -/
def fenceSize : Nat := 4

/-- The word that every cell of an untouched fence holds. -/
def fenceWord : Word := 0x5EEDF00D#32

/-- The untouched fence. -/
def fencePosts : Array Word := Array.replicate fenceSize fenceWord

@[simp] theorem size_fencePosts : fencePosts.size = 4 := by
  simp [fencePosts, fenceSize]

/-- A buffer with the given payload. -/
def ofArray (values : Array Word) : FencedBuffer where
  cells := values ++ fencePosts
  size := values.size
  size_cells := by simp

/-- A buffer of equal words. -/
def filled (size : Nat) (w : Word) : FencedBuffer := ofArray (Array.replicate size w)

def zeroed (size : Nat) : FencedBuffer := filled size 0

def isEmpty (b : FencedBuffer) : Bool := b.size == 0

def payload (b : FencedBuffer) : Array Word := b.cells.extract 0 b.size

/-- The cells behind the payload. -/
def fence (b : FencedBuffer) : Array Word := b.cells.extract b.size (b.size + fenceSize)

/-- Whether every fence cell holds the fence word. -/
def isIntact (b : FencedBuffer) : Bool := b.fence.all (· == fenceWord)

@[simp] theorem size_payload (b : FencedBuffer) : b.payload.size = b.size := by
  simp [payload, b.size_cells]

@[simp] theorem size_fence (b : FencedBuffer) : b.fence.size = fenceSize := by
  simp [fence, fenceSize, b.size_cells]

/-- Writes any cell, the fence included; beyond it nothing happens. -/
def writeRaw (b : FencedBuffer) (i : Nat) (w : Word) : FencedBuffer where
  cells := b.cells.setIfInBounds i w
  size := b.size
  size_cells := by simp [b.size_cells]

/-- A write past the end of a payload. -/
structure IndexError where
  size : Nat
  index : Nat
  deriving DecidableEq, Repr

def IndexError.message (e : IndexError) : String :=
  "index out of bounds: the len is " ++ toString e.size ++ " but the index is " ++ toString e.index

/-- Writes a cell of the payload. -/
def write (b : FencedBuffer) (i : Nat) (w : Word) : Except IndexError FencedBuffer :=
  if i < b.size then .ok (b.writeRaw i w) else .error ⟨b.size, i⟩

@[simp] theorem cells_writeRaw (b : FencedBuffer) (i : Nat) (w : Word) :
    (b.writeRaw i w).cells = b.cells.setIfInBounds i w := rfl

/-- A write through one of the two views. -/
inductive Write
  | indexed (i : Nat) (w : Word)
  | raw (i : Nat) (w : Word)
  deriving DecidableEq, Repr

/-- Does a write; one that fails changes nothing. -/
def perform (b : FencedBuffer) : Write → Except IndexError FencedBuffer
  | .indexed i w => b.write i w
  | .raw i w => .ok (b.writeRaw i w)

end FencedBuffer

end FusedKernel
