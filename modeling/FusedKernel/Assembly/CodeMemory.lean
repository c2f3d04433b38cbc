import Std.Data.HashMap
import FusedKernel.Code.Basic

/-!
The memory that an assembly's code goes into. A name is declared before its function is defined, and
the declaration gives the function its number.
-/
namespace FusedKernel

structure CodeMemory where
  /-- The declared names; a function's number is the position of its name. -/
  declared : Array String
  /-- The functions defined so far, under their numbers. -/
  defined : Std.HashMap Nat Code.Function

namespace CodeMemory

def empty : CodeMemory := ⟨#[], ∅⟩

/-- The number of a name, which is declared if it is new. -/
def declare (c : CodeMemory) (name : String) : Nat × CodeMemory :=
  match c.declared.toList.idxOf? name with
  | some number => (number, c)
  | none => (c.declared.size, { c with declared := c.declared.push name })

/-- Puts a function under a number. -/
def define (c : CodeMemory) (number : Nat) (f : Code.Function) : CodeMemory :=
  { c with defined := c.defined.insert number f }

/-- The function of a number. A number without function has one without blocks, which cannot be
entered. -/
def code (c : CodeMemory) (number : Nat) : Code.Function :=
  (c.defined[number]?).getD ⟨number, [], []⟩

@[simp] theorem declared_define (c : CodeMemory) (number : Nat) (f : Code.Function) :
    (c.define number f).declared = c.declared := rfl

theorem code_define (c : CodeMemory) (number other : Nat) (f : Code.Function) :
    (c.define number f).code other = if number = other then f else c.code other := by
  by_cases h : number = other <;> simp [define, code, Std.HashMap.getElem?_insert, h]

theorem declare_of_not_mem {c : CodeMemory} {name : String} (h : name ∉ c.declared.toList) :
    c.declare name = (c.declared.size, { c with declared := c.declared.push name }) := by
  simp [declare, List.idxOf?_eq_none_iff.mpr h]

end CodeMemory

end FusedKernel
