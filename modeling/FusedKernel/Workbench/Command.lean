import FusedKernel.Assembly.Image

/-!
What can be asked of a workbench, and what it answers. Assemblies, handles and images are known by
slots.
-/
namespace FusedKernel.Workbench

abbrev Slot := String

/-- A kernel of an image, by name or by the handle in a slot. -/
inductive Target
  | name (s : String)
  | handle (slot : Slot)
  deriving DecidableEq, Repr

inductive Command
  /-- A new assembly from settings, with names from a supply or from the settings' stem. -/
  | create (assembly : Slot) (settings : Except Settings.Error Settings) (names : Option NameSupply)
  | compile (assembly : Slot) (first second : Operator.Written) (handle : Slot)
  | compileAs (assembly : Slot) (name : String) (first second : Operator.Written) (handle : Slot)
  | listAssembly (assembly : Slot)
  | findHandle (assembly : Slot) (name : String)
  | assemblyText (assembly : Slot) (name : String)
  | compareHandles (first second : Slot)
  | link (assembly image : Slot)
  | dropAssembly (assembly : Slot)
  | dropImage (image : Slot)
  | listImage (image : Slot)
  | imageText (image : Slot) (name : String)
  /-- Resolves a kernel and compares its handle with the one in a slot, if that is filled. -/
  | resolve (image : Slot) (target : Target) (compareWith : Option Slot)
  | compareCode (image : Slot) (first second : String)
  | call (image : Slot) (target : Target) (buffers : PerBuffer (Array Word))
  | callFenced (image : Slot) (target : Target) (size : Word) (withInputs : Bool)
    (buffers : PerBuffer FencedBuffer)
  | callShared (image : Slot) (target : Target) (size : Word) (starts : PerBuffer Nat)
    (cells : Array Word)
  /-- A checked call on arrays of which only the lengths matter. -/
  | callLengths (image : Slot) (target : Target) (lengths : PerBuffer Nat)

/-- The kinds of content that a slot can lack. -/
inductive Missing
  | assembly
  | handle
  | image
  deriving DecidableEq, Repr

inductive Reply
  | done
  | missing (what : Missing)
  | failed (e : Failure)
  | handle (h : Handle)
  | handle? (h : Option Handle)
  | handles (hs : Array Handle)
  | text? (lines : Option (List String))
  | truth (b : Bool)
  | symbols (names : List String)
  /-- The symbols of an image, asked for with their number. -/
  | image (names : List String)
  | kernel (k : Kernel) (same : Option Bool)
  | called (result : CallResult (PerBuffer (Array Word)))
  /-- A refused call, with the arrays as they are. -/
  | refused (e : CallError) (buffers : PerBuffer (Array Word))
  | calledFenced (result : CallResult (PerBuffer FencedBuffer))
  | calledShared (result : CallResult (Array Word))

end FusedKernel.Workbench
