import FusedKernel.Proofs.Console.Notice
import FusedKernel.Proofs.Workbench.Correspondence
import FusedKernel.Proofs.Workbench.Provenance

/-! What a command prints. It can be told from the answer and from what the slots held before: a
line for each kernel compiled, for each name refused as taken, for each assembly linked and for each
kernel found in an image, and nothing else. -/
namespace FusedKernel

open Console (Notice Event)

/-! ### Attempts -/

namespace Attempt

/-- What is told of the result of an attempt. -/
def notices (a : Attempt) : List Notice :=
  match a.result with
  | .ok h => [.compiled h.name h.ops.first.symbol h.ops.second.symbol]
  | .error (.duplicateSymbol name) => [.duplicate name]
  | .error _ => []

/-- The events of an attempt tell its result. -/
def Tells (a : Attempt) : Prop := a.events.map Event.notice = a.notices

end Attempt

namespace Assembly

theorem tells_compileAs (u : Assembly) (name : String) (ops : OperatorPair) :
    (u.compileAs name ops).Tells := by
  cases hd : u.handle? name with
  | some h =>
    rw [compileAs_of_defined ops (by rw [hd]; rfl)]
    rfl
  | none =>
    rw [compileAs_of_undefined ops hd]
    rfl

theorem tells_compileWritten (u : Assembly) (first second : Operator.Written) :
    (u.compileWritten first second).Tells := by
  unfold compileWritten
  split
  · rfl
  · exact tells_compileAs _ _ _

theorem tells_compileWrittenAs (u : Assembly) (name : String) (first second : Operator.Written) :
    (u.compileWrittenAs name first second).Tells := by
  unfold compileWrittenAs
  split
  · rfl
  · exact tells_compileAs _ _ _

end Assembly

namespace Workbench

/-! ### What a command should print -/

/-- What is told of an answer to an attempt to compile. -/
def Reply.compilation : Reply → List Notice
  | .handle h => [.compiled h.name h.ops.first.symbol h.ops.second.symbol]
  | .failed (.duplicateSymbol name) => [.duplicate name]
  | _ => []

/-- The name under which a target is sought. -/
def Target.soughtName? (w : Workbench) : Target → Option String
  | .name symbol => some symbol
  | .handle slot => (w.handles[slot]?).map Handle.name

/-- Whether an image has the kernel of a target. -/
def finds (w : Workbench) (slot : Slot) (target : Target) : Bool :=
  match (w.images[slot]?).bind (target.find? w) with
  | some (.ok _) => true
  | _ => false

/-- What is told of looking for a target. -/
def lookup (w : Workbench) (slot : Slot) (target : Target) : List Notice :=
  if w.finds slot target then (target.soughtName? w).toList.map .resolved else []

/-- What a command should print: on an attempt to compile the answer tells it; an assembly that is
linked is reported with the number of its kernels; and of those that use kernels each look-up is
reported that finds one, but not what is done with it. -/
def notices (w : Workbench) (command : Command) : List Notice :=
  match command with
  | .compile _ _ _ _ | .compileAs _ _ _ _ _ => (w.perform command).reply.compilation
  | .link slot _ => (w.assemblies[slot]?).toList.map fun u => .linked u.size
  | .resolve slot target _ | .call slot target _ | .callFenced slot target _ _ _
  | .callShared slot target _ _ _ | .callLengths slot target _ => w.lookup slot target
  | .compareCode slot first second =>
    w.lookup slot (.name first) ++
      if w.finds slot (.name first) then w.lookup slot (.name second) else []
  | _ => []

/-! ### What a command prints -/

theorem notices_settle (w : Workbench) (slot handle : Slot) {a : Attempt} (ha : a.Tells) :
    (w.settle slot handle a).events.map Event.notice =
      (w.settle slot handle a).reply.compilation := by
  have hevents : (w.settle slot handle a).events = a.events := by
    unfold settle
    cases a.result <;> rfl
  rw [hevents, settle_reply, ha, Attempt.notices]
  cases a.result with
  | ok h => rfl
  | error e => cases e <;> rfl

/-- Images find kernels under the names that they were compiled under. -/
def NamesKernels (w : Workbench) : Prop :=
  ∀ (slot : Slot) s name k, w.images[slot]? = some s → s.resolve name = .ok k → k.name = name

theorem Chronicle.Consistent.namesKernels {c : Chronicle} (hc : c.Consistent) :
    c.bench.NamesKernels := by
  intro slot s name k hs hk
  obtain ⟨u, ht, rfl⟩ := hc.linked (hc.image hs)
  rw [ht.sound.resolve_link_eq] at hk
  cases hh : u.handle? name with
  | none => simp [hh] at hk
  | some h =>
    obtain rfl : u.linked h = k := by simpa [hh] using hk
    exact (ht.sound.handle?_eq_some_iff.mp hh).2

variable {w : Workbench} {slot : Slot} {target : Target}

theorem events_withKernel (hw : w.NamesKernels) (use : Kernel → Reply) :
    (w.withKernel slot target use).events.map Event.notice = w.lookup slot target := by
  rw [withKernel_eq, withImage, lookup, finds]
  cases hs : w.images[slot]? with
  | none => rfl
  | some s =>
    cases target with
    | name name =>
      cases hk : s.resolve name with
      | error e => simp [Target.find?, hk, tell]
      | ok k =>
        simp [Target.find?, Target.soughtName?, hk, Event.notice, hw slot s name k hs hk]
    | handle slot' =>
      cases hh : w.handles[slot']? with
      | none => simp [Target.find?, hh, tell]
      | some h =>
        cases hk : s.resolveHandle h with
        | error e => simp [Target.find?, hh, hk, tell]
        | ok k =>
          have hn : s.resolve h.name = .ok k := by
            unfold Image.resolveHandle at hk
            split at hk
            · exact hk
            · cases hk
          simp [Target.find?, Target.soughtName?, hh, hk, Event.notice, hw slot s h.name k hs hn]

theorem events_compareCode (hw : w.NamesKernels) (first second : String) :
    (w.perform (.compareCode slot first second)).events.map Event.notice =
      w.notices (.compareCode slot first second) := by
  rw [perform, withImage, notices, lookup, lookup, finds, finds]
  cases hs : w.images[slot]? with
  | none => rfl
  | some s =>
    cases hk : s.resolve first with
    | error e => simp [Target.find?, hk, tell]
    | ok k =>
      have hn := hw slot s first k hs hk
      cases hk' : s.resolve second with
      | error e => simp [Target.find?, Target.soughtName?, hk, hk', Event.notice, hn]
      | ok k' =>
        have hn' := hw slot s second k' hs hk'
        simp [Target.find?, Target.soughtName?, hk, hk', Event.notice, hn, hn']

theorem events_withAssembly {use : Assembly → Step} (h : ∀ u, (use u).events = []) :
    (w.withAssembly slot use).events = [] := by
  obtain ⟨u, -, he⟩ | he := w.withAssembly_cases slot use <;> rw [he]
  · exact h u
  · rfl

theorem events_withImage {use : Image → Step} (h : ∀ s, (use s).events = []) :
    (w.withImage slot use).events = [] := by
  obtain ⟨s, -, he⟩ | he := w.withImage_cases slot use <;> rw [he]
  · exact h s
  · rfl

/-- A command prints what it should. -/
theorem events_perform (hw : w.NamesKernels) (command : Command) :
    (w.perform command).events.map Event.notice = w.notices command := by
  cases command with
  | create slot settings names =>
    cases settings with
    | error e => rfl
    | ok settings =>
      rw [perform, create]
      cases Assembly.create w.nextId settings (names.getD (.new settings.stem)) <;> rfl
  | compile slot first second handle =>
    rw [notices, perform]
    obtain ⟨u, hu, he⟩ | he := w.withAssembly_cases slot _ <;> rw [he]
    · exact w.notices_settle slot handle (u.tells_compileWritten first second)
    · rfl
  | compileAs slot name first second handle =>
    rw [notices, perform]
    obtain ⟨u, hu, he⟩ | he := w.withAssembly_cases slot _ <;> rw [he]
    · exact w.notices_settle slot handle (u.tells_compileWrittenAs name first second)
    · rfl
  | link slot image =>
    rw [notices, perform, withAssembly]
    cases w.assemblies[slot]? <;> rfl
  | compareCode slot first second => exact events_compareCode hw first second
  | compareHandles first second =>
    rw [perform]
    split <;> rfl
  | resolve | call | callFenced | callShared | callLengths => exact events_withKernel hw _
  | listAssembly | findHandle | assemblyText | dropAssembly =>
    exact congrArg (List.map Event.notice) (events_withAssembly fun _ => rfl)
  | listImage | imageText | dropImage =>
    exact congrArg (List.map Event.notice) (events_withImage fun _ => rfl)

end Workbench

end FusedKernel
