import FusedKernel.Proofs.Workbench.Notices

/-! The log of a workbench: what commands print, one after the other. The invariant ties the names
in the lines about the kernels of an assembly to its tables, which is why the image that it is
linked into exports them. -/
namespace FusedKernel.Workbench

open Console (Notice Event Mode)

/-- What commands in order should print, each for itself. -/
def noticesAll (w : Workbench) : List Command → List (List Notice)
  | [] => []
  | command :: rest => w.notices command :: noticesAll (w.perform command).bench rest

/-- The workbench after commands in order. -/
def after (w : Workbench) : List Command → Workbench
  | [] => w
  | command :: rest => (w.perform command).bench.after rest

/-- The names in the lines about compiled kernels that a command addressed to the assembly of an
identity should print. -/
def newNames (w : Workbench) (command : Command) (k : Nat) : List String :=
  if w.addressee? command = some k then (w.notices command).filterMap Notice.compiledName? else []

/-- The names that commands should print so, in their order. -/
def compiledNames (k : Nat) (w : Workbench) : List Command → List String
  | [] => []
  | command :: rest => w.newNames command k ++ compiledNames k (w.perform command).bench rest

/-! ### The names that were printed -/

/-- The names that an assembly or an image lists. -/
def Content.names? : Content → Option (List String)
  | .assembly u => some u.kernelNames
  | .handle _ => none
  | .image s => some s.symbols

/-- What slots list are the names printed for it; and nothing is printed for assemblies to come. -/
structure Lists (w : Workbench) (printed : Nat → List String) : Prop where
  names : ∀ x content names, w.content x = some content → content.names? = some names →
    printed content.owner = names
  fresh : ∀ k, w.nextId ≤ k → printed k = []

theorem lists_start : Lists {} fun _ => [] where
  names x content names hx := by
    cases x with
    | mk kind slot => cases kind <;> simp [Workbench.content] at hx
  fresh _ _ := rfl

/-- Only one slot lists the kernels of an assembly that can still be compiled for. -/
theorem Chronicle.Consistent.eq_of_owner {c : Chronicle} (hc : c.Consistent) {slot : Slot}
    {u : Assembly} (hu : c.bench.assemblies[slot]? = some u) {x : Place} {content : Content}
    {names : List String} (hx : c.bench.content x = some content)
    (hn : content.names? = some names) (ho : content.owner = u.id) : x = (.assembly, slot) := by
  have hplace : u.id = c.assembly slot := (hc.tracks ⟨hu, rfl⟩).id
  obtain ⟨kind, slot'⟩ := x
  cases kind with
  | assembly =>
    obtain ⟨u', hu', rfl⟩ := Option.map_eq_some_iff.mp hx
    have hplace' : c.assembly slot' = c.assembly slot :=
      ((hc.tracks ⟨hu', rfl⟩).id.symm.trans ho).trans hplace
    rw [hc.apart ⟨hu', hplace'⟩ ⟨hu, rfl⟩]
  | handle =>
    obtain ⟨h, -, rfl⟩ := Option.map_eq_some_iff.mp hx
    cases hn
  | image =>
    obtain ⟨s, hs, rfl⟩ := Option.map_eq_some_iff.mp hx
    have hlinked := hc.image hs
    obtain ⟨u', ht, rfl⟩ := hc.linked hlinked
    have hsource : c.assembly slot = c.source slot' := hplace.symm.trans (ho.symm.trans ht.id)
    exact absurd ⟨hu, hsource⟩ (hc.consumed hlinked)

variable {w v : Workbench} {printed : Nat → List String} {command : Command}

theorem Lists.assembly (h : w.Lists printed) {slot : Slot} {u : Assembly}
    (hu : w.assemblies[slot]? = some u) : printed u.id = u.kernelNames :=
  h.names (.assembly, slot) (.assembly u) _ (by simp [content, hu]) rfl

theorem Lists.image (h : w.Lists printed) {slot : Slot} {s : Image}
    (hs : w.images[slot]? = some s) : printed s.owner = s.symbols :=
  h.names (.image, slot) (.image s) _ (by simp [content, hs]) rfl

/-- Where no name is printed, slots may lose content, get content that is elsewhere already, or list
what was printed before. -/
theorem Lists.of_quiet (h : w.Lists printed) (hv : w.nextId ≤ v.nextId)
    (hcontent : ∀ x content, v.content x = some content →
      (∃ y, w.content y = some content) ∨ content.names? = some (printed content.owner))
    (hquiet : ∀ k, w.newNames command k = []) :
    v.Lists fun k => printed k ++ w.newNames command k := by
  simp only [hquiet, List.append_nil]
  refine ⟨fun x content names hx hn => ?_, fun k hk => h.fresh k (Nat.le_trans hv hk)⟩
  obtain ⟨y, hy⟩ | hp := hcontent x content hx
  · exact h.names y content names hy hn
  · exact Option.some.inj (hp.symm.trans hn)

theorem newNames_of_notices (h : (w.notices command).filterMap Notice.compiledName? = [])
    (k : Nat) : w.newNames command k = [] := by
  rw [newNames, h, ite_self]

theorem compiledNames_lookup (w : Workbench) (slot : Slot) (target : Target) :
    (w.lookup slot target).filterMap Notice.compiledName? = [] := by
  unfold lookup
  split
  · cases target.soughtName? w <;> rfl
  · rfl

theorem compiledNames_of_reads (hr : command.reads) :
    (w.notices command).filterMap Notice.compiledName? = [] := by
  cases command with
  | create | compile | compileAs | link | dropAssembly | dropImage => cases hr
  | resolve slot target | call slot target | callFenced slot target | callShared slot target
  | callLengths slot target => exact w.compiledNames_lookup slot target
  | compareCode slot first second =>
    rw [notices, List.filterMap_append, compiledNames_lookup, List.nil_append]
    split
    · exact w.compiledNames_lookup slot (.name second)
    · rfl
  | _ => rfl

theorem content_withAssembly {slot : Slot} {use : Assembly → Step} {x : Place} {content : Content}
    (h : ∀ u, w.assemblies[slot]? = some u → (use u).bench.content x = some content →
      (∃ y, w.content y = some content) ∨ content.names? = some (printed content.owner))
    (hx : (w.withAssembly slot use).bench.content x = some content) :
    (∃ y, w.content y = some content) ∨ content.names? = some (printed content.owner) := by
  obtain ⟨u, hu, he⟩ | he := w.withAssembly_cases slot use <;> rw [he] at hx
  · exact h u hu hx
  · exact .inl ⟨x, hx⟩

/-- The slots that list names after an attempt: the one of the assembly, and those that did so
before. -/
theorem content_settle {slot handle : Slot} {a : Attempt} {x : Place} {content : Content}
    {names : List String} (hx : (w.settle slot handle a).bench.content x = some content)
    (hn : content.names? = some names) :
    content = .assembly a.assembly ∨ x ≠ (.assembly, slot) ∧ w.content x = some content := by
  obtain ⟨hassemblies, himages, -⟩ := w.settle_bench slot handle a
  obtain ⟨kind, slot'⟩ := x
  cases kind with
  | assembly =>
    rw [Workbench.content, hassemblies, Std.HashMap.getElem?_insert] at hx
    split at hx
    · exact .inl (Option.some.inj hx).symm
    next hs => exact .inr ⟨fun he => hs (by simp [(Prod.mk.inj he).2]), hx⟩
  | handle =>
    obtain ⟨h, -, rfl⟩ := Option.map_eq_some_iff.mp hx
    cases hn
  | image =>
    rw [Workbench.content, himages] at hx
    have hkind : (Missing.image, slot') ≠ (.assembly, slot) := by simp
    exact .inr ⟨hkind, hx⟩

theorem Reply.compiledNames_compilation (slot handle : Slot) (a : Attempt) :
    (w.settle slot handle a).reply.compilation.filterMap Notice.compiledName? =
      a.result.toOption.toList.map Handle.name := by
  rw [settle_reply]
  cases a.result with
  | ok h => rfl
  | error e => cases e <;> rfl

/-- An attempt lists one name more exactly if it prints it. -/
theorem Lists.perform_settle {c : Chronicle} (hc : c.Consistent) (h : c.bench.Lists printed)
    {slot handle : Slot} {attempt : Assembly → Attempt}
    (hp : c.bench.perform command =
      c.bench.withAssembly slot fun u => c.bench.settle slot handle (attempt u))
    (hnotices : c.bench.notices command = (c.bench.perform command).reply.compilation)
    (hcreates : command.creates = false) (hplace : command.place? = some (.assembly, slot))
    (ha : ∀ u : Assembly, u.Sound → u.ExtendedBy (attempt u)) :
    (c.bench.perform command).bench.Lists fun k => printed k ++ c.bench.newNames command k := by
  obtain ⟨u, hu, he⟩ | he := c.bench.withAssembly_cases slot _ <;> rw [he] at hp
  · have ht := hc.tracks ⟨hu, rfl⟩
    have ha := ha u ht.sound
    have hnew : ∀ k, c.bench.newNames command k =
        if u.id = k then (attempt u).result.toOption.toList.map Handle.name else [] := fun k => by
      rw [newNames, addressee?_of_assembly hu hcreates hplace, hnotices, hp,
        Reply.compiledNames_compilation]
      simp only [Option.some.injEq]
    simp only [hnew]
    rw [hp]
    refine ⟨fun x content names hx hn => ?_, fun k hk => ?_⟩
    · obtain rfl | ⟨hne, hx⟩ := content_settle hx hn
      · cases hn
        rw [Content.owner, ha.id, if_pos rfl, h.assembly hu, Assembly.kernelNames,
          Assembly.kernelNames, ha.handles, List.map_append]
      · rw [h.names x content names hx hn,
          if_neg fun ho => hne (hc.eq_of_owner hu hx hn ho.symm), List.append_nil]
    · rw [(c.bench.settle_bench slot handle _).2.2] at hk
      have hlt : u.id < c.bench.nextId := by
        rw [ht.id, hc.nextId]
        exact ht.lt
      rw [h.fresh k hk, if_neg (Nat.ne_of_lt (Nat.lt_of_lt_of_le hlt hk))]
      rfl
  · refine h.of_quiet (by rw [hp]; exact Nat.le_refl _) (fun x content hx => ?_)
      (newNames_of_notices (by rw [hnotices, hp]; rfl))
    rw [hp] at hx
    exact .inl ⟨x, hx⟩

/-- Every command keeps what slots list and what was printed together. -/
theorem Lists.perform {c : Chronicle} (hc : c.Consistent) (h : c.bench.Lists printed)
    (command : Command) :
    (c.bench.perform command).bench.Lists fun k => printed k ++ c.bench.newNames command k := by
  have hnext : c.bench.nextId ≤ (c.bench.perform command).bench.nextId := by
    rw [nextId_perform]
    exact Nat.le_add_right _ _
  cases command with
  | compile slot first second handle =>
    exact perform_settle hc h rfl rfl rfl rfl fun _ hu => hu.compileWritten first second
  | compileAs slot name first second handle =>
    exact perform_settle hc h rfl rfl rfl rfl fun _ hu => hu.compileWrittenAs name first second
  | create slot settings names =>
    refine h.of_quiet hnext (fun x content hx => ?_) (newNames_of_notices rfl)
    cases settings with
    | error e => exact .inl ⟨x, hx⟩
    | ok settings =>
      rw [Workbench.perform, Workbench.create] at hx
      cases hu : Assembly.create c.bench.nextId settings (names.getD (.new settings.stem)) with
      | error e =>
        simp only [hu] at hx
        exact .inl ⟨x, hx⟩
      | ok u =>
        simp only [hu] at hx
        have hfill : ((({ c.bench with nextId := c.bench.nextId + 1 } : Workbench).fill slot
            (.assembly u)).content x) = some content := hx
        rw [content_fill, Function.update_apply] at hfill
        split at hfill
        · cases hfill
          right
          rw [Assembly.create_eq_ok hu, Content.owner, Content.names?, Assembly.kernelNames,
            Assembly.handles_empty]
          exact congrArg some (h.fresh _ (Nat.le_refl _)).symm
        · exact .inl ⟨x, hfill⟩
  | link slot image =>
    refine h.of_quiet hnext (fun x content => content_withAssembly fun u hu hx => ?_)
      (newNames_of_notices ?_)
    · have hfill : (((c.bench.clear (.assembly, slot)).fill image (.image u.link.1)).content x) =
          some content := hx
      rw [content_fill, Function.update_apply] at hfill
      split at hfill
      · cases hfill
        right
        rw [Content.owner, Content.names?, Assembly.link_owner, h.assembly hu]
        exact congrArg some (hc.tracks ⟨hu, rfl⟩).sound.kernelNames_link
      · rw [content_clear, Function.update_apply] at hfill
        split at hfill
        · cases hfill
        · exact .inl ⟨x, hfill⟩
    · rw [notices]
      cases c.bench.assemblies[slot]? <;> rfl
  | dropAssembly slot =>
    refine h.of_quiet hnext (fun x content => content_withAssembly fun u hu hx => ?_)
      (newNames_of_notices rfl)
    have hclear : (c.bench.clear (.assembly, slot)).content x = some content := hx
    rw [content_clear, Function.update_apply] at hclear
    split at hclear
    · cases hclear
    · exact .inl ⟨x, hclear⟩
  | dropImage slot =>
    refine h.of_quiet hnext (fun x content hx => ?_) (newNames_of_notices rfl)
    obtain ⟨s, -, he⟩ | he := c.bench.withImage_cases slot _ <;> rw [Workbench.perform, he] at hx
    · have hclear : (c.bench.clear (.image, slot)).content x = some content := hx
      rw [content_clear, Function.update_apply] at hclear
      split at hclear
      · cases hclear
      · exact .inl ⟨x, hclear⟩
    · exact .inl ⟨x, hx⟩
  | _ =>
    refine h.of_quiet hnext (fun x content hx => ?_)
      (newNames_of_notices (compiledNames_of_reads rfl))
    rw [bench_perform_of_reads rfl] at hx
    exact .inl ⟨x, hx⟩

/-! ### Whole runs -/

theorem Chronicle.bench_note (c : Chronicle) (command : Command) (reply : Reply) :
    (c.note command reply).bench = c.bench := by
  unfold Chronicle.note
  split <;> rfl

theorem Chronicle.bench_record (c : Chronicle) (command : Command) :
    (c.record command).bench = (c.bench.perform command).bench :=
  bench_note _ _ _

/-- What slots list after commands is what was printed before and what these print. -/
theorem Lists.after {c : Chronicle} (hc : c.Consistent) (h : c.bench.Lists printed)
    (commands : List Command) :
    (c.bench.after commands).Lists fun k => printed k ++ compiledNames k c.bench commands := by
  induction commands generalizing c printed with
  | nil =>
    simp only [compiledNames, List.append_nil]
    exact h
  | cons command rest ih =>
    have hstep := h.perform hc command
    rw [← c.bench_record command] at hstep
    have hrest := ih (hc.record command) hstep
    rw [c.bench_record command] at hrest
    simp only [List.append_assoc] at hrest
    exact hrest

/-- Commands print what they should, each in its turn. -/
theorem Chronicle.Consistent.events_performAll {c : Chronicle} (hc : c.Consistent)
    (commands : List Command) :
    (c.bench.performAll commands).map (fun x => x.2.map Event.notice) =
      c.bench.noticesAll commands := by
  induction commands generalizing c with
  | nil => rfl
  | cons command rest ih =>
    have hrest := ih (hc.record command)
    rw [c.bench_record command] at hrest
    exact congrArg₂ List.cons (events_perform hc.namesKernels command) hrest

/-- Whatever is done on a workbench, each command prints the lines that its answer and the slots
tell, and no others; where only grave lines are let through, it prints those of them that are. And
an image exports the names in the lines about the kernels compiled for its assembly, in order. -/
theorem log_performAll (commands : List Command) :
    let run := ({} : Workbench).performAll commands
    let told := ({} : Workbench).noticesAll commands
    run.map (fun x => Mode.layer.printAll x.2) =
      told.map (fun lines => String.join (lines.map Notice.text)) ∧
    run.map (fun x => Mode.init.printAll x.2) =
      told.map (fun lines => String.join ((lines.filter Notice.isGrave).map Notice.text)) ∧
    ∀ (slot : Slot) s, (({} : Workbench).after commands).images[slot]? = some s →
      compiledNames s.owner {} commands = s.symbols := by
  intro run told
  have hc := Chronicle.consistent_start
  have htold : run.map (fun x => x.2.map Event.notice) = told := hc.events_performAll commands
  refine ⟨?_, ?_, fun slot s hs => ?_⟩
  · rw [← htold, List.map_map]
    exact List.map_congr_left fun x _ => Console.printAll_layer x.2
  · rw [← htold, List.map_map]
    exact List.map_congr_left fun x _ => Console.printAll_init x.2
  · exact (lists_start.after hc commands).image hs

/-- A kernel, a drawn name that is taken already, the image, and the kernel found in it. -/
theorem log_performAll_collision :
    let commands : List Command := [.create "u" (.ok {}) none,
      .compileAs "u" "kernel_0" (.text "+") (.text "-") "h",
      .compile "u" (.text "*") (.text "+") "g", .link "u" "s", .resolve "s" (.name "kernel_0") none]
    let run := ({} : Workbench).performAll commands
    let compiled := (Notice.compiled "kernel_0" "+" "-").text
    let duplicate := (Notice.duplicate "kernel_0").text
    let linked := (Notice.linked 1).text
    let resolved := (Notice.resolved "kernel_0").text
    run.map (fun x => Mode.layer.printAll x.2) = ["", compiled, duplicate, linked, resolved] ∧
    run.map (fun x => Mode.init.printAll x.2) = ["", "", duplicate, linked, ""] ∧
    ∃ s, (({} : Workbench).after commands).images["s"]? = some s ∧
      compiledNames s.owner {} commands = s.symbols ∧ s.symbols = ["kernel_0"] := by
  intro commands run compiled duplicate linked resolved
  -- the assembly after both attempts
  let h : Handle := ⟨"kernel_0", ⟨.plus, .minus⟩, 0, 0⟩
  let u : Assembly := .empty 0 {} (.new "kernel")
  let first := u.perform (.compileAs "kernel_0" ⟨.plus, .minus⟩)
  let second := first.assembly.perform (.compileWritten (.text "*") (.text "+"))
  have hhistory := (Assembly.sound_empty 0 {} (.new "kernel")).performAll
    [.compileAs "kernel_0" ⟨.plus, .minus⟩, .compileWritten (.text "*") (.text "+")]
  have hboth : u.performAll [.compileAs "kernel_0" ⟨.plus, .minus⟩,
      .compileWritten (.text "*") (.text "+")] =
        (second.assembly, [first.result, second.result]) := by
    simp only [Assembly.performAll, first, second]
  rw [hboth] at hhistory
  have hresults : [first.result, second.result] = [.ok h, .error (.duplicateSymbol "kernel_0")] :=
    hhistory.results.trans (by rw [Assembly.handles_empty]; decide)
  obtain ⟨hfirst, hrest⟩ := List.cons.inj hresults
  have hsecond : second.result = .error (.duplicateSymbol "kernel_0") := (List.cons.inj hrest).1
  have hsound : second.assembly.Sound := hhistory.sound
  have hhandles : second.assembly.handles.toList = [h] := by
    rw [hhistory.handles, hresults, Assembly.handles_empty]
    decide
  -- the workbench after each command that changes it
  let w₁ : Workbench := { nextId := 1, assemblies := Std.HashMap.insert ∅ "u" u }
  let w₂ : Workbench := { w₁ with
    assemblies := w₁.assemblies.insert "u" first.assembly, handles := w₁.handles.insert "h" h }
  let w₃ : Workbench := { w₂ with assemblies := w₂.assemblies.insert "u" second.assembly }
  let w₄ : Workbench := { w₃ with
    assemblies := w₃.assemblies.erase "u", images := w₃.images.insert "s" second.assembly.link.1 }
  have h₁ : ({} : Workbench).perform (.create "u" (.ok {}) none) = ⟨w₁, .done, []⟩ :=
    perform_create_of_ok rfl
  have h₂ : w₁.perform (.compileAs "u" "kernel_0" (.text "+") (.text "-") "h") =
      ⟨w₂, .handle h, first.events⟩ := by
    have hpair : Operator.readPair (.text "+") (.text "-") = .ok (.plus, .minus) := by decide
    have hwritten : u.compileWrittenAs "kernel_0" (.text "+") (.text "-") = first := by
      simp only [Assembly.compileWrittenAs, hpair, first, Assembly.perform]
    rw [perform, withAssembly_of_some Std.HashMap.getElem?_insert_self, hwritten]
    exact settle_of_ok hfirst
  have h₃ : w₂.perform (.compile "u" (.text "*") (.text "+") "g") =
      ⟨w₃, .failed (.duplicateSymbol "kernel_0"), second.events⟩ := by
    rw [perform, withAssembly_of_some Std.HashMap.getElem?_insert_self]
    exact settle_of_error hsecond
  have hassembly : w₃.assemblies["u"]? = some second.assembly := Std.HashMap.getElem?_insert_self
  have himage : w₄.images["s"]? = some second.assembly.link.1 := Std.HashMap.getElem?_insert_self
  have h₄ : w₃.perform (.link "u" "s") =
      ⟨w₄, .symbols second.assembly.link.1.symbols, second.assembly.link.2⟩ :=
    withAssembly_of_some hassembly _
  have hfinds : w₄.finds "s" (.name "kernel_0") = true := by
    have hm : h ∈ second.assembly.handles := by simp [← Array.mem_toList_iff, hhandles]
    have hresolve : second.assembly.link.1.resolve "kernel_0" = .ok (second.assembly.linked h) :=
      hsound.resolve_link hm
    simp [finds, himage, Target.find?, hresolve]
  have hsize : second.assembly.size = 1 := by
    rw [← Assembly.size_handles, ← Array.length_toList, hhandles]
    rfl
  have htold : ({} : Workbench).noticesAll commands =
      [[], [.compiled "kernel_0" "+" "-"], [.duplicate "kernel_0"], [.linked 1],
        [.resolved "kernel_0"]] := by
    simp only [commands, noticesAll, h₁, h₂, h₃, h₄, notices, Reply.compilation, hassembly, hsize,
      lookup, hfinds, Target.soughtName?, if_true, Option.toList_some, List.map_cons, List.map_nil]
    rfl
  have hafter : ({} : Workbench).after commands = w₄ := by
    simp only [commands, after, h₁, h₂, h₃, h₄]
    exact bench_perform_of_reads rfl
  obtain ⟨hlayer, hinit, hnames⟩ := log_performAll commands
  rw [htold] at hlayer hinit
  rw [hafter] at hnames ⊢
  exact ⟨hlayer, hinit, _, himage, hnames _ _ himage,
    hsound.kernelNames_link.trans (congrArg (List.map Handle.name) hhandles)⟩

end FusedKernel.Workbench
