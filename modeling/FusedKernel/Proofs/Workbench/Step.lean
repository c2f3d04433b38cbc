import FusedKernel.Workbench.Basic

/-! One command on a workbench: what it finds in its slots, and whether it changes anything or shows
a handle. -/
namespace FusedKernel.Workbench

/-- The handles in an answer. -/
def Reply.issued : Reply → List Handle
  | .handle h => [h]
  | .handle? h => h.toList
  | .handles hs => hs.toList
  | .kernel k _ => [k.handle]
  | _ => []

/-! ### Slots -/

theorem getElem?_of_erase {α : Type} {slots : Std.HashMap Slot α} {slot slot' : Slot} {x : α}
    (h : (slots.erase slot)[slot']? = some x) : slot' ≠ slot ∧ slots[slot']? = some x := by
  rw [Std.HashMap.getElem?_erase] at h
  split at h
  · cases h
  next hs => exact ⟨fun he => hs (by simp [he]), h⟩

theorem getElem?_insert_of_ne {α : Type} {slots : Std.HashMap Slot α} {slot slot' : Slot} {x : α}
    (hs : slot ≠ slot') : (slots.insert slot x)[slot']? = slots[slot']? := by
  rw [Std.HashMap.getElem?_insert, if_neg (by simpa using hs)]

section
variable (w : Workbench) (slot : Slot)

theorem withAssembly_cases (use : Assembly → Step) :
    (∃ u, w.assemblies[slot]? = some u ∧ w.withAssembly slot use = use u) ∨
      w.withAssembly slot use = w.tell (.missing .assembly) := by
  unfold withAssembly
  cases hu : w.assemblies[slot]? with
  | none => exact .inr rfl
  | some u => exact .inl ⟨u, rfl, rfl⟩

theorem withImage_cases (use : Image → Step) :
    (∃ s, w.images[slot]? = some s ∧ w.withImage slot use = use s) ∨
      w.withImage slot use = w.tell (.missing .image) := by
  unfold withImage
  cases hs : w.images[slot]? with
  | none => exact .inr rfl
  | some s => exact .inl ⟨s, rfl, rfl⟩

/-- A kernel that is used was found in the image under a name. -/
theorem withKernel_cases (target : Target) (use : Kernel → Reply) :
    (∃ s name k, w.images[slot]? = some s ∧ s.resolve name = .ok k ∧
      w.withKernel slot target use = ⟨w, use k, [.resolved k.name]⟩) ∨
    ∃ reply, reply.issued = [] ∧ w.withKernel slot target use = w.tell reply := by
  unfold withKernel
  obtain ⟨s, hs, he⟩ | he := w.withImage_cases slot fun s => _
  · rw [he]
    cases target with
    | name name =>
      cases hk : s.resolve name with
      | error e => exact .inr ⟨.failed e, rfl, by simp only [hk]⟩
      | ok k => exact .inl ⟨s, name, k, hs, hk, by simp only [hk]⟩
    | handle slot' =>
      cases hh : w.handles[slot']? with
      | none => exact .inr ⟨.missing .handle, rfl, by simp [hh]⟩
      | some h =>
        cases hk : s.resolveHandle h with
        | error e => exact .inr ⟨.failed e, rfl, by simp [hh, hk]⟩
        | ok k =>
          have hn : s.resolve h.name = .ok k := by
            unfold Image.resolveHandle at hk
            split at hk
            · exact hk
            · cases hk
          exact .inl ⟨s, h.name, k, hs, hn, by simp [hh, hk]⟩
  · exact .inr ⟨_, rfl, he⟩

end

theorem settle_bench (w : Workbench) (slot handle : Slot) (a : Attempt) :
    (w.settle slot handle a).bench.assemblies = w.assemblies.insert slot a.assembly ∧
      (w.settle slot handle a).bench.images = w.images ∧
      (w.settle slot handle a).bench.nextId = w.nextId := by
  unfold settle
  cases a.result <;> exact ⟨rfl, rfl, rfl⟩

theorem settle_reply (w : Workbench) (slot handle : Slot) (a : Attempt) :
    (w.settle slot handle a).reply =
      match a.result with
      | .ok h => .handle h
      | .error e => .failed e := by
  unfold settle
  cases a.result <;> rfl

/-! ### Commands whose slots are filled -/

section
variable {w : Workbench} {slot : Slot} {u : Assembly}

theorem perform_create_of_ok {settings : Settings} {names : Option NameSupply}
    (hu : Assembly.create w.nextId settings (names.getD (.new settings.stem)) = .ok u) :
    w.perform (.create slot (.ok settings) names) =
      ⟨{ w with nextId := w.nextId + 1, assemblies := w.assemblies.insert slot u }, .done, []⟩ := by
  simp only [perform, create, hu]

theorem withAssembly_of_some (hu : w.assemblies[slot]? = some u) (use : Assembly → Step) :
    w.withAssembly slot use = use u := by
  rw [withAssembly, hu]

theorem settle_of_ok {handle : Slot} {a : Attempt} {h : Handle} (hr : a.result = .ok h) :
    w.settle slot handle a =
      ⟨{ w with
          assemblies := w.assemblies.insert slot a.assembly
          handles := w.handles.insert handle h }, .handle h, a.events⟩ := by
  simp only [settle, hr]

theorem settle_of_error {handle : Slot} {a : Attempt} {e : Failure} (hr : a.result = .error e) :
    w.settle slot handle a =
      ⟨{ w with assemblies := w.assemblies.insert slot a.assembly }, .failed e, a.events⟩ := by
  simp only [settle, hr]

end

/-! ### Commands that change nothing -/

/-- A step that changes nothing and shows no handle. -/
structure Silent (w : Workbench) (step : Step) : Prop where
  bench : step.bench = w
  issued : step.reply.issued = []

section
variable {w : Workbench}

theorem silent_tell {reply : Reply} (h : reply.issued = []) : w.Silent (w.tell reply) := ⟨rfl, h⟩

theorem silent_withAssembly {slot : Slot} {use : Assembly → Step} (h : ∀ u, w.Silent (use u)) :
    w.Silent (w.withAssembly slot use) := by
  obtain ⟨u, -, he⟩ | he := w.withAssembly_cases slot use <;> rw [he]
  · exact h u
  · exact silent_tell rfl

theorem silent_withImage {slot : Slot} {use : Image → Step} (h : ∀ s, w.Silent (use s)) :
    w.Silent (w.withImage slot use) := by
  obtain ⟨s, -, he⟩ | he := w.withImage_cases slot use <;> rw [he]
  · exact h s
  · exact silent_tell rfl

theorem silent_withKernel {slot : Slot} {target : Target} {use : Kernel → Reply}
    (h : ∀ k, (use k).issued = []) : w.Silent (w.withKernel slot target use) := by
  obtain ⟨_, _, k, -, -, he⟩ | ⟨reply, hr, he⟩ := w.withKernel_cases slot target use <;> rw [he]
  · exact ⟨rfl, h k⟩
  · exact silent_tell hr

end

/-- The commands that only look at what is there. -/
def Command.reads : Command → Bool
  | .create _ _ _ | .compile _ _ _ _ | .compileAs _ _ _ _ _ | .link _ _ | .dropAssembly _
  | .dropImage _ => false
  | _ => true

end FusedKernel.Workbench
