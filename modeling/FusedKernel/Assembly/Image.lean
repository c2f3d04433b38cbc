import Std.Data.HashMap
import FusedKernel.Assembly.Basic

/-!
Images: assemblies that are linked and can be executed. Kernels are found by name through an index,
or by handle if the handle is of the assembly that the image was linked from.
-/
namespace FusedKernel

structure Image where
  /-- The identity of the assembly that was linked. -/
  owner : Nat
  kernels : Array Kernel
  /-- The positions of the kernels, under their names. -/
  index : Std.HashMap String Nat

/-- The positions of kernels under their names, from a position on. -/
def indexFrom (position : Nat) : List Kernel → Std.HashMap String Nat → Std.HashMap String Nat
  | [], index => index
  | k :: rest, index => indexFrom (position + 1) rest (index.insert k.name position)

/-- The kernel of an entry: its handle and text with the function of its number. -/
def Assembly.Entry.link (c : CodeMemory) (e : Entry) : Kernel :=
  ⟨e.handle, e.text, c.code e.handle.number⟩

/-- Links the kernels of an assembly, which is used up. -/
def Assembly.link (u : Assembly) : Image × List Console.Event :=
  let kernels := u.entries.map (·.link u.memory)
  (⟨u.id, kernels, indexFrom 0 kernels.toList ∅⟩, [.linked u.size])

namespace Image

def size (s : Image) : Nat := s.kernels.size

/-- The names of the kernels, in the order of compilation. -/
def symbols (s : Image) : List String := s.kernels.toList.map Kernel.name

/-- The kernel that the index finds under a name. -/
def kernel? (s : Image) (name : String) : Option Kernel :=
  (s.index[name]?).bind fun position => s.kernels[position]?

/-- The text of a kernel's code, if there is such a kernel and its text was kept. -/
def text? (s : Image) (name : String) : Option (List String) := (s.kernel? name).bind (·.text)

/-- The kernel of a name. -/
def resolve (s : Image) (name : String) : Except Failure Kernel :=
  match s.kernel? name with
  | some k => .ok k
  | none => .error (.symbolNotFound name)

/-- The kernel of a handle. Handles of other assemblies are not found, whatever their name. -/
def resolveHandle (s : Image) (h : Handle) : Except Failure Kernel :=
  if h.owner = s.owner then s.resolve h.name else .error (.symbolNotFound h.name)

end Image

end FusedKernel
