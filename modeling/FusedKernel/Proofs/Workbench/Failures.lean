import FusedKernel.Proofs.Workbench.Correspondence

/-! Failures leave no trace. An attempt to compile that fails leaves an assembly as it was, but for
a name that was drawn for it. So whoever leaves out the commands that fail before a name is drawn
gets the same answers to all others. The workbenches with and without them hold the same at any
time, though slots were filled more often on the former. -/
namespace FusedKernel

namespace Assembly

variable (u : Assembly)

/-! ### One attempt -/

/-- Compiling under a given name fails exactly if the name is defined, and then changes nothing. -/
theorem compileAs_spec (name : String) (ops : OperatorPair) :
    if name ∈ u.kernelNames then
      u.compileAs name ops = ⟨u, .error (.duplicateSymbol name), [.duplicate name]⟩
    else ∃ h, (u.compileAs name ops).result = .ok h ∧ h.name = name ∧ h.ops = ops := by
  split
  next hm => exact compileAs_of_mem ops hm
  next hm =>
    rw [compileAs_of_undefined ops (handle?_eq_none_iff.mpr hm)]
    exact ⟨_, rfl, rfl, rfl⟩

/-- Compiling under a fresh name fails exactly if this name is defined, and then the name is used
up. -/
theorem compile_spec (ops : OperatorPair) :
    if u.names.draw.1 ∈ u.kernelNames then
      u.compile ops = ⟨{ u with names := u.names.skip 1 },
        .error (.duplicateSymbol u.names.draw.1), [.duplicate u.names.draw.1]⟩
    else ∃ h, (u.compile ops).result = .ok h ∧ h.name = u.names.draw.1 ∧ h.ops = ops :=
  compileAs_spec { u with names := u.names.skip 1 } u.names.draw.1 ops

/-- Written operators are looked at in order, and before a name is drawn. -/
theorem compileWritten_text (s₁ s₂ : String) :
    u.compileWritten (.text s₁) (.text s₂) =
      match Operator.ofText? s₁, Operator.ofText? s₂ with
      | none, _ => ⟨u, .error (.unsupportedOperator ⟨s₁⟩), []⟩
      | some _, none => ⟨u, .error (.unsupportedOperator ⟨s₂⟩), []⟩
      | some op₁, some op₂ => u.compile ⟨op₁, op₂⟩ := by
  simp only [compileWritten, Operator.readPair, Operator.Written.read, Operator.Written.read?]
  cases Operator.ofText? s₁ with
  | none => rfl
  | some op₁ => cases Operator.ofText? s₂ <;> rfl

variable {u}

theorem assembly_compileWritten {first second : Operator.Written} {e : UnsupportedOperator}
    (h : (u.compileWritten first second).result = .error (.unsupportedOperator e)) :
    (u.compileWritten first second).assembly = u := by
  unfold compileWritten at h ⊢
  split at h
  · rfl
  next op₁ op₂ _ =>
    -- a drawn name can only be defined already, which is another failure
    have hspec := u.compile_spec ⟨op₁, op₂⟩
    split at hspec
    · rw [hspec] at h
      cases h
    · obtain ⟨_, hr, -⟩ := hspec
      rw [hr] at h
      cases h

theorem assembly_compileWrittenAs {name : String} {first second : Operator.Written} {e : Failure}
    (h : (u.compileWrittenAs name first second).result = .error e) :
    (u.compileWrittenAs name first second).assembly = u := by
  unfold compileWrittenAs at h ⊢
  split at h
  · rfl
  next op₁ op₂ _ =>
    have hspec := u.compileAs_spec name ⟨op₁, op₂⟩
    split at hspec
    · rw [hspec]
    · obtain ⟨_, hr, -⟩ := hspec
      rw [hr] at h
      cases h

end Assembly

namespace Workbench

/-- Whether a command failed to compile before a name was drawn. -/
def Command.failsUntraced : Command → Reply → Bool
  | .compileAs _ _ _ _ _, .failed _ => true
  | .compile _ _ _ _, .failed (.unsupportedOperator _) => true
  | _, _ => false

/-- Workbenches that hold the same, and will give the same identity next. -/
structure Alike (w v : Workbench) : Prop where
  content : v.content = w.content
  nextId : v.nextId = w.nextId

variable {w v : Workbench} {command : Command}

/-! ### One command -/

theorem Alike.refl (w : Workbench) : w.Alike w := ⟨rfl, rfl⟩

theorem Alike.trans {v' : Workbench} (h : w.Alike v) (h' : v.Alike v') : w.Alike v' :=
  ⟨h'.content.trans h.content, h'.nextId.trans h.nextId⟩

theorem Alike.symm (h : w.Alike v) : v.Alike w := ⟨h.content.symm, h.nextId.symm⟩

theorem sameAt_self_iff {x : Place} : SameAt (fun n => n) w v x ↔ v.content x = w.content x := by
  rw [SameAt, Content.rename_self, Option.map_id']

theorem alike_settle {slot handle : Slot} {u : Assembly} {a : Attempt} {e : Failure}
    (hu : w.assemblies[slot]? = some u) (ha : a.assembly = u) (he : a.result = .error e) :
    w.Alike (w.settle slot handle a).bench := by
  have hslot : w.content (.assembly, slot) = some (.assembly u) := by simp [content, hu]
  have hfill : (w.settle slot handle a).bench = w.fill slot (.assembly u) := by
    rw [settle, he, ha, fill]
  refine ⟨?_, by rw [hfill]; rfl⟩
  -- the slot is filled with what it holds already
  rw [hfill, content_fill, ← hslot]
  exact Function.update_eq_self _ _

theorem alike_perform_of_failsUntraced (h : command.failsUntraced (w.perform command).reply) :
    w.Alike (w.perform command).bench := by
  cases command with
  | compile slot first second handle =>
    obtain ⟨u, hu, he⟩ | he := w.withAssembly_cases slot _
    · rw [perform, he, settle_reply] at h
      rw [perform, he]
      cases hr : (u.compileWritten first second).result with
      | ok h' => simp [hr, Command.failsUntraced] at h
      | error e =>
        rw [hr] at h
        cases e with
        | unsupportedOperator e => exact alike_settle hu (Assembly.assembly_compileWritten hr) hr
        | _ => cases h
    · rw [perform, he] at h
      cases h
  | compileAs slot name first second handle =>
    obtain ⟨u, hu, he⟩ | he := w.withAssembly_cases slot _
    · rw [perform, he, settle_reply] at h
      rw [perform, he]
      cases hr : (u.compileWrittenAs name first second).result with
      | ok h' => simp [hr, Command.failsUntraced] at h
      | error e => exact alike_settle hu (Assembly.assembly_compileWrittenAs hr) hr
    · rw [perform, he] at h
      cases h
  | _ => cases h

theorem Alike.corresponds (h : w.Alike v) (command : Command) :
    Corresponds (fun n => n) w v (w.perform command) (v.perform command) :=
  corresponds_perform (fun _ _ he => he) (fun x _ => sameAt_self_iff.mpr (congrFun h.content x))
    fun _ => h.nextId

theorem Alike.perform (h : w.Alike v) (command : Command) :
    (w.perform command).bench.Alike (v.perform command).bench := by
  refine ⟨funext fun x => ?_, by rw [nextId_perform, nextId_perform, h.nextId]⟩
  obtain hsame | ⟨hw, hv⟩ := (h.corresponds command).changed x
  · exact sameAt_self_iff.mp hsame
  · rw [hv, hw, h.content]

/-! ### Many commands -/

theorem Alike.performAll_kept (h : w.Alike v) (commands : List Command) :
    let kept := (commands.zip (w.performAll commands)).filter fun x => !x.1.failsUntraced x.2.1
    v.performAll (kept.map Prod.fst) = kept.map Prod.snd := by
  induction commands generalizing w v with
  | nil => rfl
  | cons command rest ih =>
    intro kept
    cases hf : command.failsUntraced (w.perform command).reply with
    -- `w` goes on alone: what it holds is what it held
    | true =>
      have hkept : kept = (rest.zip ((w.perform command).bench.performAll rest)).filter
          fun x => !x.1.failsUntraced x.2.1 := by simp [kept, performAll, hf]
      rw [hkept]
      exact ih ((alike_perform_of_failsUntraced hf).symm.trans h)
    | false =>
      have hcorresponds := h.corresponds command
      have hkept : kept = (command, (w.perform command).reply, (w.perform command).events) ::
          (rest.zip ((w.perform command).bench.performAll rest)).filter
            fun x => !x.1.failsUntraced x.2.1 := by simp [kept, performAll, hf]
      rw [hkept]
      simp only [List.map_cons, performAll, hcorresponds.reply, hcorresponds.events,
        Reply.rename_self, ih (h.perform command)]

/-- A failure to compile leaves no trace. Compiling under a given name fails if and only if the name
is defined, and then nothing changes. Of written operators the first that is unknown is reported as
it was given, and nothing changes. Compiling under a fresh name fails if and only if this name is
defined, and then only the name is used up. So the commands that fail before a name is drawn can be
left out, and all others are answered as before. -/
theorem performAll_without_failures :
    (∀ (u : Assembly) (name : String) (ops : OperatorPair),
      if name ∈ u.kernelNames then
        u.compileAs name ops = ⟨u, .error (.duplicateSymbol name), [.duplicate name]⟩
      else ∃ h, (u.compileAs name ops).result = .ok h ∧ h.name = name ∧ h.ops = ops) ∧
    (∀ (u : Assembly) (s₁ s₂ : String),
      u.compileWritten (.text s₁) (.text s₂) =
        match Operator.ofText? s₁, Operator.ofText? s₂ with
        | none, _ => ⟨u, .error (.unsupportedOperator ⟨s₁⟩), []⟩
        | some _, none => ⟨u, .error (.unsupportedOperator ⟨s₂⟩), []⟩
        | some op₁, some op₂ => u.compile ⟨op₁, op₂⟩) ∧
    (∀ (u : Assembly) (ops : OperatorPair),
      if u.names.draw.1 ∈ u.kernelNames then
        u.compile ops = ⟨{ u with names := u.names.skip 1 },
          .error (.duplicateSymbol u.names.draw.1), [.duplicate u.names.draw.1]⟩
      else ∃ h, (u.compile ops).result = .ok h ∧ h.name = u.names.draw.1 ∧ h.ops = ops) ∧
    ∀ (w : Workbench) (commands : List Command),
      let kept := (commands.zip (w.performAll commands)).filter fun x => !x.1.failsUntraced x.2.1
      w.performAll (kept.map Prod.fst) = kept.map Prod.snd :=
  ⟨Assembly.compileAs_spec, Assembly.compileWritten_text, Assembly.compile_spec,
    fun w => (Alike.refl w).performAll_kept⟩

end Workbench

end FusedKernel
