import FusedKernel.Workbench.Command

/-!
A workbench holds any number of assemblies, handles and images in slots, and gives each assembly an
identity of its own. A command changes the workbench, is answered, and may report events. Filling a
slot drops what it held; a command that fails leaves all slots as they were.
-/
namespace FusedKernel

structure Workbench where
  /-- The identity of the next assembly. -/
  nextId : Nat := 0
  assemblies : Std.HashMap Workbench.Slot Assembly := ∅
  handles : Std.HashMap Workbench.Slot Handle := ∅
  images : Std.HashMap Workbench.Slot Image := ∅

namespace Workbench

/-- What a command leads to. -/
structure Step where
  bench : Workbench
  reply : Reply
  events : List Console.Event := []

/-- An answer that changes nothing. -/
def tell (w : Workbench) (reply : Reply) : Step := ⟨w, reply, []⟩

def withAssembly (w : Workbench) (slot : Slot) (use : Assembly → Step) : Step :=
  match w.assemblies[slot]? with
  | some u => use u
  | none => w.tell (.missing .assembly)

def withImage (w : Workbench) (slot : Slot) (use : Image → Step) : Step :=
  match w.images[slot]? with
  | some s => use s
  | none => w.tell (.missing .image)

/-- Creates an assembly in a slot. An identity is used up only if that succeeds. -/
def create (w : Workbench) (slot : Slot) (settings : Except Settings.Error Settings)
    (names : Option NameSupply) : Step :=
  match settings with
  | .error e => w.tell (.failed (.settings e))
  | .ok settings =>
    match Assembly.create w.nextId settings (names.getD (.new settings.stem)) with
    | .error e => w.tell (.failed (.settings e))
    | .ok u =>
      ⟨{ w with nextId := w.nextId + 1, assemblies := w.assemblies.insert slot u }, .done, []⟩

/-- Puts back an assembly after an attempt to compile, and the handle if there is one. -/
def settle (w : Workbench) (slot handle : Slot) (a : Attempt) : Step :=
  let w := { w with assemblies := w.assemblies.insert slot a.assembly }
  match a.result with
  | .ok h => ⟨{ w with handles := w.handles.insert handle h }, .handle h, a.events⟩
  | .error e => ⟨w, .failed e, a.events⟩

/-- Finds the kernel of a target and uses it. Finding it is reported. -/
def withKernel (w : Workbench) (slot : Slot) (target : Target) (use : Kernel → Reply) : Step :=
  w.withImage slot fun s =>
    let found := match target with
      | .name name => some (s.resolve name)
      | .handle slot => (w.handles[slot]?).map s.resolveHandle
    match found with
    | none => w.tell (.missing .handle)
    | some (.error e) => w.tell (.failed e)
    | some (.ok k) => ⟨w, use k, [.resolved k.name]⟩

/-- Does a command. -/
def perform (w : Workbench) : Command → Step
  | .create assembly settings names => w.create assembly settings names
  | .compile assembly first second handle =>
    w.withAssembly assembly fun u => w.settle assembly handle (u.compileWritten first second)
  | .compileAs assembly name first second handle =>
    w.withAssembly assembly fun u => w.settle assembly handle (u.compileWrittenAs name first second)
  | .listAssembly assembly => w.withAssembly assembly fun u => w.tell (.handles u.handles)
  | .findHandle assembly name => w.withAssembly assembly fun u => w.tell (.handle? (u.handle? name))
  | .assemblyText assembly name => w.withAssembly assembly fun u => w.tell (.text? (u.text? name))
  | .compareHandles first second =>
    match w.handles[first]?, w.handles[second]? with
    | some h, some h' => w.tell (.truth (h == h'))
    | _, _ => w.tell (.missing .handle)
  | .link assembly image =>
    w.withAssembly assembly fun u =>
      let (s, events) := u.link
      ⟨{ w with assemblies := w.assemblies.erase assembly, images := w.images.insert image s },
        .symbols s.symbols, events⟩
  | .dropAssembly assembly =>
    w.withAssembly assembly fun _ =>
      { w with assemblies := w.assemblies.erase assembly : Workbench }.tell .done
  | .dropImage image =>
    w.withImage image fun _ => { w with images := w.images.erase image : Workbench }.tell .done
  | .listImage image => w.withImage image fun s => w.tell (.image s.symbols)
  | .imageText image name => w.withImage image fun s => w.tell (.text? (s.text? name))
  | .resolve image target compareWith =>
    w.withKernel image target fun k =>
      .kernel k ((compareWith.bind fun slot => w.handles[slot]?).map (k.handle == ·))
  | .compareCode image first second =>
    w.withImage image fun s =>
      match s.resolve first with
      | .error e => w.tell (.failed e)
      | .ok k =>
        match s.resolve second with
        | .error e => ⟨w, .failed e, [.resolved k.name]⟩
        | .ok k' => ⟨w, .truth (k.handle.number == k'.handle.number),
            [.resolved k.name, .resolved k'.name]⟩
  | .call image target buffers =>
    w.withKernel image target fun k =>
      match Call.checked k.code buffers with
      | .ok result => .called result
      | .error e => .refused e buffers
  | .callFenced image target size withInputs buffers =>
    w.withKernel image target fun k =>
      .calledFenced (Call.fenced k.code size withInputs buffers)
  | .callShared image target size starts cells =>
    w.withKernel image target fun k => .calledShared (Call.shared k.code size starts cells)
  | .callLengths image target lengths =>
    w.withKernel image target fun _ =>
      match Call.checkLengths lengths with
      | .ok _ => .done
      | .error e => .failed (.call e)

/-- Does commands in order, and collects the replies and events of each. -/
def performAll (w : Workbench) : List Command → List (Reply × List Console.Event)
  | [] => []
  | c :: rest =>
    let step := w.perform c
    (step.reply, step.events) :: performAll step.bench rest

end Workbench

end FusedKernel
