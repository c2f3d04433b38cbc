import FusedKernel.Code.Memory
import FusedKernel.Kernel.Program

/-!
The meaning of a program without code: for each index from zero to below the size, in order, its
assignments are done on memory. The first operator without value ends the run, which leaves memory
as it is then.
-/
namespace FusedKernel.Program

open Code

/-- The address of an element of a buffer in an address space of a number of bytes. -/
def elementAddress (space : Nat) (base : Buffer → Address) (i : Nat) (buffer : Buffer) : Address :=
  (base buffer + cellBytes * i) % space

/-- Where a run ends early: the element, the assignment by its position, the operator in its
expression, and memory at that point. -/
structure Hazard where
  element : Nat
  assignment : Nat
  stuck : Expr.Stuck
  memory : Memory

/-- Does the assignments of an element in order, counted from a position on. -/
def assignAll (address : Buffer → Address) (element position : Nat) :
    List Assignment → Memory → Except Hazard Memory
  | [], m => .ok m
  | a :: rest, m =>
    match a.value.eval fun buffer => m.read (address buffer) with
    | .error stuck => .error ⟨element, position, stuck, m⟩
    | .ok w => assignAll address element (position + 1) rest (m.write (address a.target) w)

/-- Does the elements from `i` on, as many as `count`. -/
def elementsFrom (p : Program) (space : Nat) (base : Buffer → Address) (i : Nat) :
    Nat → Memory → Except Hazard Memory
  | 0, m => .ok m
  | count + 1, m =>
    match assignAll (elementAddress space base i) i 0 p.assignments m with
    | .error hazard => .error hazard
    | .ok m => elementsFrom p space base (i + 1) count m

/-- Does all elements below the size, read as a signed number; none if it is not positive. -/
def onMemory (p : Program) (space : Nat) (base : Buffer → Address) (size : Word) (m : Memory) :
    Except Hazard Memory :=
  p.elementsFrom space base 0 size.toInt.toNat m

end FusedKernel.Program
