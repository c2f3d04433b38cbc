import Mathlib.Logic.Function.Basic
import FusedKernel.Proofs.Assembly.Identity
import FusedKernel.Proofs.Assembly.Invariant
import FusedKernel.Proofs.Workbench.Step

/-! The slots of a workbench by what they hold, and whose it is: an assembly, or the handles and the
image that came of it, all known by the identity of the assembly. What a command puts into slots is
of the assembly that it is addressed to. -/
namespace FusedKernel.Workbench

/-- What a slot can hold. -/
inductive Content
  | assembly (u : Assembly)
  | handle (h : Handle)
  | image (s : Image)

namespace Content

def kind : Content → Missing
  | assembly _ => .assembly
  | handle _ => .handle
  | image _ => .image

/-- The identity of the assembly that the content is or came from. -/
def owner : Content → Nat
  | assembly u => u.id
  | handle h => h.owner
  | image s => s.owner

end Content

/-- A slot, with the kind of content that it is for. -/
abbrev Place := Missing × Slot

def content (w : Workbench) : Place → Option Content
  | (.assembly, slot) => (w.assemblies[slot]?).map .assembly
  | (.handle, slot) => (w.handles[slot]?).map .handle
  | (.image, slot) => (w.images[slot]?).map .image

/-! ### Filling and clearing -/

def fill (w : Workbench) (slot : Slot) : Content → Workbench
  | .assembly u => { w with assemblies := w.assemblies.insert slot u }
  | .handle h => { w with handles := w.handles.insert slot h }
  | .image s => { w with images := w.images.insert slot s }

def clear (w : Workbench) : Place → Workbench
  | (.assembly, slot) => { w with assemblies := w.assemblies.erase slot }
  | (.handle, slot) => { w with handles := w.handles.erase slot }
  | (.image, slot) => { w with images := w.images.erase slot }

theorem content_fill (w : Workbench) (slot : Slot) (c : Content) :
    (w.fill slot c).content = Function.update w.content (c.kind, slot) (some c) := by
  funext ⟨kind, slot'⟩
  obtain rfl | hs := eq_or_ne slot slot'
  · cases c <;> cases kind <;> simp [content, fill, Content.kind]
  · cases c <;> cases kind <;>
      simp [content, fill, Content.kind, Std.HashMap.getElem?_insert, hs, hs.symm]

theorem content_clear (w : Workbench) (x : Place) :
    (w.clear x).content = Function.update w.content x none := by
  obtain ⟨kind', slot⟩ := x
  funext ⟨kind, slot'⟩
  obtain rfl | hs := eq_or_ne slot slot'
  · cases kind' <;> cases kind <;> simp [content, clear]
  · cases kind' <;> cases kind <;>
      simp [content, clear, Std.HashMap.getElem?_erase, hs, hs.symm]

/-! ### Commands that look -/

section
variable {w : Workbench} {slot : Slot}

theorem bench_withAssembly {use : Assembly → Step} (h : ∀ u, (use u).bench = w) :
    (w.withAssembly slot use).bench = w := by
  obtain ⟨u, -, he⟩ | he := w.withAssembly_cases slot use <;> rw [he]
  · exact h u
  · rfl

theorem bench_withImage {use : Image → Step} (h : ∀ s, (use s).bench = w) :
    (w.withImage slot use).bench = w := by
  obtain ⟨s, -, he⟩ | he := w.withImage_cases slot use <;> rw [he]
  · exact h s
  · rfl

theorem bench_withKernel {target : Target} {use : Kernel → Reply} :
    (w.withKernel slot target use).bench = w := by
  obtain ⟨_, _, _, -, -, he⟩ | ⟨_, -, he⟩ := w.withKernel_cases slot target use <;> rw [he]
  rfl

theorem bench_perform_of_reads {command : Command} (hr : command.reads) :
    (w.perform command).bench = w := by
  cases command with
  | create | compile | compileAs | link | dropAssembly | dropImage => cases hr
  | listAssembly | findHandle | assemblyText => exact bench_withAssembly fun _ => rfl
  | compareHandles first second =>
    rw [perform]
    split <;> rfl
  | listImage | imageText => exact bench_withImage fun _ => rfl
  | resolve | call | callFenced | callShared | callLengths => exact bench_withKernel
  | compareCode slot first second =>
    refine bench_withImage fun s => ?_
    split
    · rfl
    · split <;> rfl

end

/-! ### Whom a command is addressed to -/

/-- Whether a command creates an assembly: there are settings, and the stems are usable. Of what
identity it will be does not matter. -/
def Command.creates : Command → Bool
  | .create _ (.ok settings) names =>
    (Assembly.create 0 settings (names.getD (.new settings.stem))).toBool
  | _ => false

/-- The place with the assembly or image that a command is for; a comparison of handles is for the
first handle. -/
def Command.place? : Command → Option Place
  | .create _ _ _ => none
  | .compile slot _ _ _ | .compileAs slot _ _ _ _ | .listAssembly slot | .findHandle slot _
  | .assemblyText slot _ | .link slot _ | .dropAssembly slot => some (.assembly, slot)
  | .compareHandles slot _ => some (.handle, slot)
  | .dropImage slot | .listImage slot | .imageText slot _ | .resolve slot _ _
  | .compareCode slot _ _ | .call slot _ _ | .callFenced slot _ _ _ _ | .callShared slot _ _ _ _
  | .callLengths slot _ _ => some (.image, slot)

def Target.handles : Target → List Slot
  | .name _ => []
  | .handle slot => [slot]

/-- The slots of handles that a command uses besides. -/
def Command.handles : Command → List Slot
  | .compareHandles _ slot => [slot]
  | .resolve _ target compareWith => target.handles ++ compareWith.toList
  | .call _ target _ | .callFenced _ target _ _ _ | .callShared _ target _ _ _
  | .callLengths _ target _ => target.handles
  | _ => []

/-- All places that a command uses the content of. -/
def Command.uses (command : Command) : List Place :=
  command.place?.toList ++ command.handles.map (.handle, ·)

/-- The identity of the assembly that a command is addressed to: the one that it creates, or the one
of which its place holds something. -/
def addressee? (w : Workbench) (command : Command) : Option Nat :=
  if command.creates then some w.nextId else (command.place?.bind w.content).map Content.owner

theorem addressee?_of_assembly {w : Workbench} {slot : Slot} {u : Assembly} {command : Command}
    (hu : w.assemblies[slot]? = some u) (hc : command.creates = false)
    (hp : command.place? = some (.assembly, slot)) : w.addressee? command = some u.id := by
  rw [addressee?, hc, hp]
  simp [content, hu, Content.owner]

theorem Command.reads_of_mem_handles {command : Command} {slot : Slot}
    (h : slot ∈ command.handles) : command.reads := by
  cases command with
  | create | compile | compileAs | link | dropAssembly | dropImage => cases h
  | _ => rfl

theorem nextId_perform (w : Workbench) (command : Command) :
    (w.perform command).bench.nextId = w.nextId + command.creates.toNat := by
  cases command with
  | create slot settings names =>
    cases settings with
    | error e => rfl
    | ok settings =>
      rw [perform, Command.creates, Assembly.toBool_create 0 w.nextId, create]
      cases Assembly.create w.nextId settings (names.getD (.new settings.stem)) <;> rfl
  | compile slot first second handle | compileAs slot name first second handle =>
    obtain ⟨u, hu, he⟩ | he := w.withAssembly_cases slot _ <;> rw [perform, he]
    · exact (w.settle_bench slot handle _).2.2
    · rfl
  | link slot image | dropAssembly slot =>
    obtain ⟨u, hu, he⟩ | he := w.withAssembly_cases slot _ <;> rw [perform, he] <;> rfl
  | dropImage slot =>
    obtain ⟨s, hs, he⟩ | he := w.withImage_cases slot _ <;> rw [perform, he] <;> rfl
  | _ => exact congrArg nextId (bench_perform_of_reads rfl)

/-! ### What commands put into slots -/

/-- What an attempt to compile yields: the assembly as it is then, and a handle if there is one. -/
inductive Yields (a : Attempt) : Content → Prop
  | assembly : Yields a (.assembly a.assembly)
  | handle {h : Handle} : a.result = .ok h → Yields a (.handle h)

/-- What a command makes of what a workbench holds. -/
inductive Makes (w : Workbench) : Command → Content → Prop
  | creation {slot : Slot} {settings : Settings} {names : Option NameSupply} {u : Assembly} :
    Assembly.create w.nextId settings (names.getD (.new settings.stem)) = .ok u →
    Makes w (.create slot (.ok settings) names) (.assembly u)
  | compilation {slot handle : Slot} {first second : Operator.Written} {u : Assembly}
      {c : Content} :
    w.assemblies[slot]? = some u → Yields (u.compileWritten first second) c →
    Makes w (.compile slot first second handle) c
  | compilationAs {slot handle : Slot} {name : String} {first second : Operator.Written}
      {u : Assembly} {c : Content} :
    w.assemblies[slot]? = some u → Yields (u.compileWrittenAs name first second) c →
    Makes w (.compileAs slot name first second handle) c
  | linking {slot image : Slot} {u : Assembly} : w.assemblies[slot]? = some u →
    Makes w (.link slot image) (.image u.link.1)

/-- From one workbench to another, slots are filled with content of a kind or cleared, but slots of
handles are not cleared. -/
structure Fills (P : Content → Prop) (w v : Workbench) : Prop where
  content : ∀ x c, v.content x = some c → w.content x = some c ∨ P c
  handle : ∀ slot, v.content (.handle, slot) = none → w.content (.handle, slot) = none

namespace Fills

variable {P : Content → Prop} {w v v' : Workbench}

theorem of_content_eq (h : v.content = w.content) : Fills P w v :=
  ⟨fun _ _ hx => .inl (h ▸ hx), fun _ hs => h ▸ hs⟩

theorem fill (h : Fills P w v) (slot : Slot) {c : Content} (hc : P c) :
    Fills P w (v.fill slot c) := by
  refine ⟨fun x c' hx => ?_, fun slot' hs => ?_⟩
  · rw [content_fill, Function.update_apply] at hx
    split at hx
    · cases hx
      exact .inr hc
    · exact h.content x c' hx
  · rw [content_fill, Function.update_apply] at hs
    split at hs
    · cases hs
    · exact h.handle slot' hs

theorem clear (h : Fills P w v) (x : Place) (hx : x.1 ≠ .handle) : Fills P w (v.clear x) := by
  refine ⟨fun x' c hc => ?_, fun slot hs => ?_⟩
  · rw [content_clear, Function.update_apply] at hc
    split at hc
    · cases hc
    · exact h.content x' c hc
  · rw [content_clear, Function.update_of_ne fun he => hx (congrArg Prod.fst he.symm)] at hs
    exact h.handle slot hs

theorem settle (w : Workbench) (slot handle : Slot) {a : Attempt} (ha : ∀ c, Yields a c → P c) :
    Fills P w (w.settle slot handle a).bench := by
  have hassembly : Fills P w (w.fill slot (.assembly a.assembly)) :=
    (of_content_eq rfl).fill slot (ha _ .assembly)
  unfold Workbench.settle
  cases hr : a.result with
  | error e => exact hassembly
  | ok h => exact hassembly.fill handle (ha _ (.handle hr))

theorem withAssembly {slot : Slot} {use : Assembly → Step}
    (h : ∀ u, w.assemblies[slot]? = some u → Fills P w (use u).bench) :
    Fills P w (w.withAssembly slot use).bench := by
  obtain ⟨u, hu, he⟩ | he := w.withAssembly_cases slot use <;> rw [he]
  · exact h u hu
  · exact of_content_eq rfl

theorem withImage {slot : Slot} {use : Image → Step} (h : ∀ s, Fills P w (use s).bench) :
    Fills P w (w.withImage slot use).bench := by
  obtain ⟨s, -, he⟩ | he := w.withImage_cases slot use <;> rw [he]
  · exact h s
  · exact of_content_eq rfl

end Fills

/-- A command fills slots with what it makes. -/
theorem fills_perform (w : Workbench) (command : Command) :
    Fills (w.Makes command) w (w.perform command).bench := by
  cases command with
  | create slot settings names =>
    cases settings with
    | error e => exact .of_content_eq rfl
    | ok settings =>
      rw [perform, create]
      cases hu : Assembly.create w.nextId settings (names.getD (.new settings.stem)) with
      | error e => exact .of_content_eq rfl
      | ok u =>
        have hcount : Fills (w.Makes (.create slot (.ok settings) names)) w
            { w with nextId := w.nextId + 1 } := .of_content_eq rfl
        exact hcount.fill slot (.creation hu)
  | compile slot first second handle =>
    exact .withAssembly fun u hu => .settle w slot handle fun _ => .compilation hu
  | compileAs slot name first second handle =>
    exact .withAssembly fun u hu => .settle w slot handle fun _ => .compilationAs hu
  | link slot image =>
    refine .withAssembly fun u hu => ?_
    have hcleared : Fills (w.Makes (.link slot image)) w (w.clear (.assembly, slot)) :=
      (Fills.of_content_eq rfl).clear (.assembly, slot) (by simp)
    exact hcleared.fill image (.linking hu)
  | dropAssembly slot =>
    exact .withAssembly fun _ _ => (Fills.of_content_eq rfl).clear (.assembly, slot) (by simp)
  | dropImage slot =>
    exact .withImage fun _ => (Fills.of_content_eq rfl).clear (.image, slot) (by simp)
  | _ => exact .of_content_eq (by rw [bench_perform_of_reads rfl])

theorem Yields.owner {a : Attempt} {c : Content} {i : Nat} (h : Yields a c)
    (ha : a.assembly.id = i ∧ ∀ h, a.result = .ok h → h.owner = i) : c.owner = i := by
  cases h with
  | assembly => exact ha.1
  | handle hr => exact ha.2 _ hr

/-- What a command makes is of the assembly that it is addressed to. -/
theorem Makes.owner {w : Workbench} {command : Command} {c : Content} (h : w.Makes command c) :
    w.addressee? command = some c.owner := by
  cases h with
  | creation hu =>
    rw [addressee?, Command.creates, Assembly.toBool_create 0 w.nextId, hu,
      Assembly.create_eq_ok hu]
    rfl
  | compilation hu hc =>
    rw [addressee?_of_assembly hu rfl rfl, hc.owner (Assembly.owner_compileWritten _ _ _)]
  | compilationAs hu hc =>
    rw [addressee?_of_assembly hu rfl rfl, hc.owner (Assembly.owner_compileWrittenAs _ _ _ _)]
  | linking hu => rw [addressee?_of_assembly hu rfl rfl]; rfl

/-- From one workbench to another, slots are filled with content of one owner or cleared, but slots
of handles are not cleared. -/
structure Contributes (owner? : Option Nat) (w v : Workbench) : Prop where
  content : ∀ x c, v.content x = some c → w.content x = some c ∨ owner? = some c.owner
  handle : ∀ slot, v.content (.handle, slot) = none → w.content (.handle, slot) = none

/-- A command fills slots with content of the assembly that it is addressed to. -/
theorem contributes_perform (w : Workbench) (command : Command) :
    Contributes (w.addressee? command) w (w.perform command).bench :=
  have h := w.fills_perform command
  ⟨fun x c hx => (h.content x c hx).imp_right Makes.owner, h.handle⟩

end FusedKernel.Workbench
