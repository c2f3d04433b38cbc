import FusedKernel.Proofs.Workbench.Content

/-! One command on two workbenches, where the second has other identities and its assemblies were
created with other settings of the same stem. If both hold the same in the places that the command
uses, it is answered alike, and whatever it changes it changes alike. -/
namespace FusedKernel

namespace Workbench

def Content.relabel (r : Relabelling) : Content → Content
  | assembly u => .assembly (u.relabel r)
  | handle h => .handle (h.relabel r)
  | image s => .image (s.relabel r)

/-- An answer with other identities in its handles and with other texts. -/
def Reply.relabel (r : Relabelling) : Reply → Reply
  | .handle h => .handle (h.relabel r)
  | .handle? h => .handle? (h.map (Handle.relabel r))
  | .handles hs => .handles (hs.map (Handle.relabel r))
  | .text? lines => .text? (r.text lines)
  | .kernel k same => .kernel (k.relabel r) same
  | reply => reply

/-- A command with other settings. -/
def Command.relabel (r : Relabelling) : Command → Command
  | .create slot settings names => .create slot (settings.map r.settings) names
  | command => command

/-- What an image finds for a target: nothing if there is no handle. -/
def Target.find? (target : Target) (w : Workbench) (s : Image) : Option (Except Failure Kernel) :=
  match target with
  | .name symbol => some (s.resolve symbol)
  | .handle slot => (w.handles[slot]?).map s.resolveHandle

theorem withKernel_eq (w : Workbench) (slot : Slot) (target : Target) (use : Kernel → Reply) :
    w.withKernel slot target use = w.withImage slot fun s =>
      match target.find? w s with
      | none => w.tell (.missing .handle)
      | some (.error e) => w.tell (.failed e)
      | some (.ok k) => ⟨w, use k, [.resolved k.name]⟩ := rfl

end Workbench

namespace Relabelling

open Workbench

/-- A place holds the same on two workbenches, up to a relabelling. -/
def SameAt (r : Relabelling) (w v : Workbench) (x : Place) : Prop :=
  v.content x = (w.content x).map (Content.relabel r)

/-- Each place holds the same after changes on two workbenches, or was left alone on both. -/
def Changed (r : Relabelling) (w v w' v' : Workbench) : Prop :=
  ∀ x, r.SameAt w' v' x ∨ w'.content x = w.content x ∧ v'.content x = v.content x

/-- Steps on two workbenches correspond: they give the same answers and reports, up to a
relabelling, and change the same. -/
structure Corresponds (r : Relabelling) (w v : Workbench) (step step' : Step) : Prop where
  reply : step'.reply = step.reply.relabel r
  events : step'.events = step.events
  changed : r.Changed w v step.bench step'.bench

variable {r : Relabelling} {w v w' v' : Workbench} {slot : Slot}

/-! ### Changes -/

theorem Changed.refl (r : Relabelling) (w v : Workbench) : r.Changed w v w v :=
  fun _ => .inr ⟨rfl, rfl⟩

theorem Changed.fill (h : r.Changed w v w' v') (slot : Slot) (c : Content) :
    r.Changed w v (w'.fill slot c) (v'.fill slot (c.relabel r)) := by
  have hkind : (c.relabel r).kind = c.kind := by cases c <;> rfl
  intro x
  obtain rfl | hx := eq_or_ne x (c.kind, slot)
  · left
    rw [SameAt, content_fill, content_fill, hkind, Function.update_self, Function.update_self]
    rfl
  · simp only [SameAt, content_fill, hkind, Function.update_of_ne hx]
    exact h x

theorem Changed.clear (h : r.Changed w v w' v') (x : Place) :
    r.Changed w v (w'.clear x) (v'.clear x) := by
  intro y
  obtain rfl | hy := eq_or_ne y x
  · left
    rw [SameAt, content_clear, content_clear, Function.update_self, Function.update_self]
    rfl
  · simp only [SameAt, content_clear, Function.update_of_ne hy]
    exact h y

/-! ### Looking into slots -/

theorem SameAt.assembly (h : r.SameAt w v (.assembly, slot)) :
    v.assemblies[slot]? = (w.assemblies[slot]?).map (Assembly.relabel r) := by
  unfold SameAt content at h
  cases hw : w.assemblies[slot]? <;> cases hv : v.assemblies[slot]? <;>
    simp_all [Content.relabel]

theorem SameAt.handle (h : r.SameAt w v (.handle, slot)) :
    v.handles[slot]? = (w.handles[slot]?).map (Handle.relabel r) := by
  unfold SameAt content at h
  cases hw : w.handles[slot]? <;> cases hv : v.handles[slot]? <;>
    simp_all [Content.relabel]

theorem SameAt.image (h : r.SameAt w v (.image, slot)) :
    v.images[slot]? = (w.images[slot]?).map (Image.relabel r) := by
  unfold SameAt content at h
  cases hw : w.images[slot]? <;> cases hv : v.images[slot]? <;>
    simp_all [Content.relabel]

theorem SameAt.find? (target : Target) (hr : Function.Injective r.id) (s : Image)
    (ht : ∀ slot ∈ target.handles, r.SameAt w v (.handle, slot)) :
    target.find? v (s.relabel r) = (target.find? w s).map (Except.map (Kernel.relabel r)) := by
  cases target with
  | name symbol => exact congrArg some (s.resolve_relabel r symbol)
  | handle slot =>
    rw [Target.find?, (ht slot (List.mem_singleton_self slot)).handle, Target.find?,
      Option.map_map, Option.map_map]
    exact congrArg (fun g => (w.handles[slot]?).map g)
      (funext fun h => s.resolveHandle_relabel hr h)

namespace Corresponds

theorem tell {reply reply' : Reply} (h : reply' = reply.relabel r) :
    r.Corresponds w v (w.tell reply) (v.tell reply') :=
  ⟨h, rfl, .refl r w v⟩

theorem withAssembly (hx : r.SameAt w v (.assembly, slot)) {use use' : Assembly → Step}
    (h : ∀ u, r.Corresponds w v (use u) (use' (u.relabel r))) :
    r.Corresponds w v (w.withAssembly slot use) (v.withAssembly slot use') := by
  unfold Workbench.withAssembly
  rw [hx.assembly]
  cases w.assemblies[slot]? with
  | none => exact tell rfl
  | some u => exact h u

theorem withImage (hx : r.SameAt w v (.image, slot)) {use use' : Image → Step}
    (h : ∀ s, r.Corresponds w v (use s) (use' (s.relabel r))) :
    r.Corresponds w v (w.withImage slot use) (v.withImage slot use') := by
  unfold Workbench.withImage
  rw [hx.image]
  cases w.images[slot]? with
  | none => exact tell rfl
  | some s => exact h s

theorem withKernel (hr : Function.Injective r.id) (hx : r.SameAt w v (.image, slot))
    {target : Target} (ht : ∀ slot ∈ target.handles, r.SameAt w v (.handle, slot))
    {use use' : Kernel → Reply} (h : ∀ k, use' (k.relabel r) = (use k).relabel r) :
    r.Corresponds w v (w.withKernel slot target use) (v.withKernel slot target use') := by
  rw [withKernel_eq, withKernel_eq]
  refine withImage hx fun s => ?_
  rw [SameAt.find? target hr s ht]
  cases target.find? w s with
  | none => exact tell rfl
  | some found =>
    cases found with
    | error e => exact tell rfl
    | ok k => exact ⟨h k, rfl, .refl r w v⟩

theorem settle (slot handle : Slot) (a : Attempt) :
    r.Corresponds w v (w.settle slot handle a) (v.settle slot handle (a.relabel r)) := by
  have hassembly := (Changed.refl r w v).fill slot (.assembly a.assembly)
  unfold Workbench.settle
  rw [Attempt.relabel]
  cases a.result with
  | error e => exact ⟨rfl, rfl, hassembly⟩
  | ok h => exact ⟨rfl, rfl, hassembly.fill handle (.handle h)⟩

/-- What is created depends on the next identity and the settings only. -/
theorem create (slot : Slot) (settings : Except Settings.Error Settings) (names : Option NameSupply)
    (hn : (Command.create slot settings names).creates → v.nextId = r.id w.nextId) :
    r.Corresponds w v (w.create slot settings names)
      (v.create slot (settings.map r.settings) names) := by
  cases settings with
  | error e => exact tell rfl
  | ok settings =>
    have hrelabel := fun id => Assembly.create_relabel { r with id := fun _ => id } w.nextId
      settings (names.getD (.new settings.stem))
    simp only [Workbench.create, Except.map, r.stem]
    cases hu : Assembly.create w.nextId settings (names.getD (.new settings.stem)) with
    | error e =>
      have hv : Assembly.create v.nextId (r.settings settings)
          (names.getD (.new settings.stem)) = .error e := by
        rw [hrelabel v.nextId, hu]
        rfl
      simp only [hv]
      exact tell rfl
    | ok u =>
      have hcreates : (Command.create slot (.ok settings) names).creates = true := by
        rw [Command.creates, Assembly.toBool_create 0 w.nextId, hu]
        rfl
      have hv : Assembly.create v.nextId (r.settings settings) (names.getD (.new settings.stem)) =
          .ok (u.relabel r) := by
        rw [hn hcreates, Assembly.create_relabel, hu]
        rfl
      simp only [hv]
      exact ⟨rfl, rfl, (Changed.refl r w v).fill slot (.assembly u)⟩

end Corresponds

/-- A command is answered by what the places hold that it uses. -/
theorem corresponds_perform (hr : Function.Injective r.id) {command : Command}
    (hx : ∀ x ∈ command.uses, r.SameAt w v x)
    (hn : command.creates → v.nextId = r.id w.nextId) :
    r.Corresponds w v (w.perform command) (v.perform (command.relabel r)) := by
  -- that identities stay apart matters only where handles are compared with each other or with an
  -- image
  have hplace : ∀ x, command.place? = some x → r.SameAt w v x := fun x h =>
    hx x (List.mem_append_left _ (h ▸ List.mem_singleton_self x))
  have hhandle : ∀ slot ∈ command.handles, r.SameAt w v (.handle, slot) := fun slot h =>
    hx _ (List.mem_append_right _ (List.mem_map_of_mem h))
  cases command with
  | create slot settings names => exact .create slot settings names hn
  | compile slot first second handle =>
    refine .withAssembly (hplace _ rfl) fun u => ?_
    rw [u.compileWritten_relabel]
    exact .settle slot handle _
  | compileAs slot name first second handle =>
    refine .withAssembly (hplace _ rfl) fun u => ?_
    rw [u.compileWrittenAs_relabel]
    exact .settle slot handle _
  | listAssembly slot =>
    exact .withAssembly (hplace _ rfl) fun u => .tell (congrArg Reply.handles (u.handles_relabel r))
  | findHandle slot name =>
    exact .withAssembly (hplace _ rfl) fun u =>
      .tell (congrArg Reply.handle? (u.handle?_relabel r name))
  | assemblyText slot name =>
    exact .withAssembly (hplace _ rfl) fun u =>
      .tell (congrArg Reply.text? (u.text?_relabel r name))
  | compareHandles first second =>
    change r.Corresponds w v (w.perform (.compareHandles first second))
      (v.perform (.compareHandles first second))
    rw [perform, perform, (hplace _ rfl).handle,
      (hhandle second (List.mem_singleton_self _)).handle]
    cases w.handles[first]? with
    | none => exact .tell rfl
    | some h =>
      cases w.handles[second]? with
      | none => exact .tell rfl
      | some h' => exact .tell (congrArg Reply.truth (Handle.relabel_beq hr h h'))
  | link slot image =>
    refine .withAssembly (hplace _ rfl) fun u => ?_
    rw [u.link_relabel]
    exact ⟨congrArg Reply.symbols (u.link.1.symbols_relabel r), rfl,
      ((Changed.refl r w v).clear (.assembly, slot)).fill image (.image u.link.1)⟩
  | dropAssembly slot =>
    exact .withAssembly (hplace _ rfl) fun _ =>
      ⟨rfl, rfl, (Changed.refl r w v).clear (.assembly, slot)⟩
  | dropImage slot =>
    exact .withImage (hplace _ rfl) fun _ => ⟨rfl, rfl, (Changed.refl r w v).clear (.image, slot)⟩
  | listImage slot =>
    exact .withImage (hplace _ rfl) fun s => .tell (congrArg Reply.image (s.symbols_relabel r))
  | imageText slot name =>
    exact .withImage (hplace _ rfl) fun s => .tell (congrArg Reply.text? (s.text?_relabel r name))
  | resolve slot target compareWith =>
    refine .withKernel hr (hplace _ rfl) (fun _ ht => hhandle _ (List.mem_append_left _ ht))
      fun k => congrArg (Reply.kernel (k.relabel r)) ?_
    cases compareWith with
    | none => rfl
    | some slot' =>
      have hx' := (hhandle slot' (List.mem_append_right _ (List.mem_singleton_self slot'))).handle
      rw [Option.bind_some, Option.bind_some, hx', Option.map_map]
      exact congrArg (fun g => (w.handles[slot']?).map g)
        (funext fun h => Handle.relabel_beq hr k.handle h)
  | compareCode slot first second =>
    refine .withImage (hplace _ rfl) fun s => ?_
    rw [s.resolve_relabel, s.resolve_relabel]
    cases s.resolve first with
    | error e => exact .tell rfl
    | ok k =>
      cases s.resolve second with
      | error e => exact ⟨rfl, rfl, .refl r w v⟩
      | ok k' => exact ⟨rfl, rfl, .refl r w v⟩
  | call slot target buffers =>
    refine .withKernel hr (hplace _ rfl) hhandle fun k => ?_
    cases hc : Call.checked k.code buffers <;> simp only [Kernel.relabel, hc] <;> rfl
  | callFenced slot target size withInputs buffers =>
    exact .withKernel hr (hplace _ rfl) hhandle fun _ => rfl
  | callShared slot target size starts cells =>
    exact .withKernel hr (hplace _ rfl) hhandle fun _ => rfl
  | callLengths slot target lengths =>
    refine .withKernel hr (hplace _ rfl) hhandle fun k => ?_
    cases hc : Call.checkLengths lengths <;> rfl

/-! ### Many commands -/

/-- Two workbenches hold the same up to a relabelling, and so will the assemblies created next. -/
structure Mirrors (r : Relabelling) (w v : Workbench) : Prop where
  same : ∀ x, r.SameAt w v x
  nextId : v.nextId = r.id w.nextId

theorem creates_relabel (r : Relabelling) (command : Command) :
    (command.relabel r).creates = command.creates := by
  cases command with
  | create slot settings names =>
    cases settings with
    | error e => rfl
    | ok settings =>
      have h := Assembly.create_relabel { r with id := fun id => id } 0 settings
        (names.getD (.new settings.stem))
      simp only [Command.relabel, Except.map, Command.creates, r.stem, h]
      cases Assembly.create 0 settings (names.getD (.new settings.stem)) <;> rfl
  | _ => rfl

section
variable {n : Nat} (hid : ∀ k, r.id k = k + n)
include hid

/-- Identities that are moved by a constant stay apart. -/
theorem Mirrors.corresponds (h : r.Mirrors w v) (command : Command) :
    r.Corresponds w v (w.perform command) (v.perform (command.relabel r)) :=
  corresponds_perform (fun i j hij => Nat.add_right_cancel ((hid i).symm.trans (hij.trans (hid j))))
    (fun x _ => h.same x) fun _ => h.nextId

theorem Mirrors.perform (h : r.Mirrors w v) (command : Command) :
    r.Mirrors (w.perform command).bench (v.perform (command.relabel r)).bench := by
  refine ⟨fun x => ?_, ?_⟩
  · obtain hsame | ⟨hw, hv⟩ := (h.corresponds hid command).changed x
    · exact hsame
    · rw [SameAt, hw, hv]
      exact h.same x
  · rw [nextId_perform, nextId_perform, creates_relabel, h.nextId, hid, hid, Nat.add_right_comm]

/-- Commands with other settings get the same answers, up to the relabelling, and reports. -/
theorem Mirrors.performAll (h : r.Mirrors w v) (commands : List Command) :
    v.performAll (commands.map (Command.relabel r)) =
      (w.performAll commands).map fun x => (x.1.relabel r, x.2) := by
  induction commands generalizing w v with
  | nil => rfl
  | cons command rest ih =>
    have hcorresponds := h.corresponds hid command
    simp only [List.map_cons, Workbench.performAll, hcorresponds.reply, hcorresponds.events,
      ih (h.perform hid command)]

end

end Relabelling

end FusedKernel
