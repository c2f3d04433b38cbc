import FusedKernel.Assembly.CodeMemory
import FusedKernel.Assembly.Handle
import FusedKernel.Code.Printer
import FusedKernel.Console.Event
import FusedKernel.NameSupply

/-!
Assemblies: collections of kernels under construction. Kernels are compiled under a given name or
under the next one of a supply, and no name is defined twice. A failed compilation leaves the
kernels as they are; a name drawn for it is not given back.
-/
namespace FusedKernel

/-- What an assembly keeps of a compiled kernel. Its code is in the code memory. -/
structure Assembly.Entry where
  handle : Handle
  text : Option (List String)
  deriving DecidableEq, Repr

structure Assembly where
  id : Nat
  settings : Settings
  memory : CodeMemory
  /-- The kernels in the order of their compilation. -/
  entries : Array Assembly.Entry
  names : NameSupply
  /-- The draft on which every function is written. -/
  board : Code.Draft

/-- What an attempt to compile leads to. -/
structure Attempt where
  assembly : Assembly
  result : Except Failure Handle
  events : List Console.Event

namespace Assembly

/-- An assembly without kernels. -/
def empty (id : Nat) (settings : Settings) (names : NameSupply) : Assembly :=
  ⟨id, settings, .empty, #[], names, .empty⟩

/-- Creates an assembly. Both the stem of the settings and that of the names must be identifiers;
the former is looked at first. -/
def create (id : Nat) (settings : Settings) (names : NameSupply) :
    Except Settings.Error Assembly :=
  match settings.validate with
  | .error e => .error e
  | .ok () =>
    match Settings.validate { settings with stem := names.stem } with
    | .error e => .error e
    | .ok () => .ok (empty id settings names)

def size (u : Assembly) : Nat := u.entries.size

/-- The first kernel of a name. -/
def entry? (u : Assembly) (name : String) : Option Entry :=
  u.entries.find? fun k => k.handle.name == name

def handle? (u : Assembly) (name : String) : Option Handle := (u.entry? name).map (·.handle)

/-- The text of a kernel's code, if there is such a kernel and texts are kept. -/
def text? (u : Assembly) (name : String) : Option (List String) := (u.entry? name).bind (·.text)

/-- The handles of the kernels, in the order of compilation. -/
def handles (u : Assembly) : Array Handle := u.entries.map (·.handle)

/-- Compiles a kernel under a name that is not defined: declares the name, writes the function,
defines it and enters the kernel. -/
def add (u : Assembly) (name : String) (ops : OperatorPair) : Assembly × Handle :=
  let (number, memory) := u.memory.declare name
  let (code, board) := ops.program.writeOn u.board .bits64 number
  let text := if u.settings.keepText then some code.lines else none
  let handle : Handle := ⟨name, ops, number, u.id⟩
  ({ u with memory := memory.define number code, entries := u.entries.push ⟨handle, text⟩, board },
    handle)

/-- Compiles a kernel under a name, unless it is defined already. -/
def compileAs (u : Assembly) (name : String) (ops : OperatorPair) : Attempt :=
  if (u.handle? name).isSome then
    ⟨u, .error (.duplicateSymbol name), [.duplicate name]⟩
  else
    let (u, handle) := u.add name ops
    ⟨u, .ok handle, [.compiled name ops]⟩

/-- Compiles a kernel under the next name of the supply. -/
def compile (u : Assembly) (ops : OperatorPair) : Attempt :=
  { u with names := u.names.draw.2 }.compileAs u.names.draw.1 ops

/-- Compiles a kernel for operators as written. No name is drawn if one of them is unknown. -/
def compileWritten (u : Assembly) (first second : Operator.Written) : Attempt :=
  match Operator.readPair first second with
  | .error e => ⟨u, .error (.unsupportedOperator e), []⟩
  | .ok (op₁, op₂) => u.compile ⟨op₁, op₂⟩

/-- Compiles a kernel under a name for operators as written, which are looked at first. -/
def compileWrittenAs (u : Assembly) (name : String) (first second : Operator.Written) : Attempt :=
  match Operator.readPair first second with
  | .error e => ⟨u, .error (.unsupportedOperator e), []⟩
  | .ok (op₁, op₂) => u.compileAs name ⟨op₁, op₂⟩

theorem compileAs_of_defined {u : Assembly} {name : String} (ops : OperatorPair)
    (h : (u.handle? name).isSome) :
    u.compileAs name ops = ⟨u, .error (.duplicateSymbol name), [.duplicate name]⟩ := by
  simp [compileAs, h]

theorem compileAs_of_undefined {u : Assembly} {name : String} (ops : OperatorPair)
    (h : u.handle? name = none) :
    u.compileAs name ops = ⟨(u.add name ops).1, .ok (u.add name ops).2, [.compiled name ops]⟩ := by
  simp [compileAs, h]

end Assembly

end FusedKernel
