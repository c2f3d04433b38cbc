import FusedKernel.Code.Basic

/-!
A function under construction: the blocks that are closed, and one that is open at its end. Values
are numbered in the order of their definition, parameters and statements alike.
-/
namespace FusedKernel.Code

structure Draft where
  /-- The number of the next value. -/
  next : ValueId
  closed : Array Block
  /-- The parameters of the open block. -/
  params : List (ValueId × Ty)
  /-- The statements of the open block. -/
  body : Array Statement

namespace Draft

/-- No block is closed, and the open one is empty. -/
def empty : Draft := ⟨0, #[], [], #[]⟩

/-- Parameters with consecutive numbers. -/
def numbered (first : ValueId) : List Ty → List (ValueId × Ty)
  | [] => []
  | type :: types => (first, type) :: numbered (first + 1) types

@[simp] theorem length_numbered (first : ValueId) (types : List Ty) :
    (numbered first types).length = types.length := by
  induction types generalizing first with
  | nil => rfl
  | cons type types ih => simp [numbered, ih]

/-- Gives parameters to the open block, numbered from the next value on. -/
def addParams (d : Draft) (types : List Ty) : Draft :=
  { d with next := d.next + types.length, params := d.params ++ numbered d.next types }

/-- Defines a value in the open block. -/
def define (d : Draft) (value : Definition) : ValueId × Draft :=
  (d.next, { d with next := d.next + 1, body := d.body.push (.define d.next value) })

/-- Stores a value in the open block. -/
def store (d : Draft) (type : Ty) (value address : ValueId) : Draft :=
  { d with body := d.body.push (.store type value address) }

/-- Ends the open block and opens an empty one after it. -/
def close (d : Draft) (exit : Exit) : Draft :=
  { next := d.next, closed := d.closed.push ⟨d.params, d.body.toList, exit⟩, params := [],
    body := #[] }

/-- Wipes a draft, so that another function can be written on it. -/
def clear (d : Draft) : Draft :=
  { d with next := 0, closed := #[], params := [], body := #[] }

@[simp] theorem clear_eq_empty (d : Draft) : d.clear = empty := rfl

end Draft

end FusedKernel.Code
