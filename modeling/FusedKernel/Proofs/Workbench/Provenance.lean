import FusedKernel.Proofs.Assembly.Linking
import FusedKernel.Proofs.Workbench.Chronicle

/-! The workbench keeps to its chronicle, command by command, and so an image tells the handles of
its own assembly from all others. -/
namespace FusedKernel.Workbench.Chronicle

variable {c d : Chronicle}

/-! ### While nothing is compiled -/

/-- Nothing is compiled or created from one chronicle to another. -/
structure Stays (c d : Chronicle) : Prop where
  nextId : d.bench.nextId = c.bench.nextId
  created : d.created = c.created
  compiled : d.compiled = c.compiled
  holds : ∀ {slot place u}, d.Holds slot place u → c.Holds slot place u

theorem Stays.tracks (hd : c.Stays d) {place : Nat} {u : Assembly} (ht : c.Tracks place u) :
    d.Tracks place u :=
  ht.mono (Nat.le_of_eq hd.created.symm) fun h => by rw [hd.compiled]

/-- Slots may be emptied, images may be linked of assemblies that no slot holds any longer, and
handles may be shown again. -/
theorem Consistent.staying (hc : c.Consistent) (hd : c.Stays d)
    (hi : ∀ slot s, d.bench.images[slot]? = some s → (d.source slot, s) ∈ d.linked)
    (hl : ∀ place s, (place, s) ∈ d.linked →
      (∃ u, c.Tracks place u ∧ s = u.link.1) ∧ ∀ slot u, ¬ d.Holds slot place u)
    (hs : ∀ x ∈ d.shown, x ∈ c.compiled) : d.Consistent where
  nextId := by rw [hd.nextId, hc.nextId, hd.created]
  tracks hh := hd.tracks (hc.tracks (hd.holds hh))
  apart hh hh' := hc.apart (hd.holds hh) (hd.holds hh')
  image := hi _ _
  linked hm :=
    have ⟨u, ht, he⟩ := (hl _ _ hm).1
    ⟨u, hd.tracks ht, he⟩
  consumed hm := (hl _ _ hm).2 _ _
  compiled hm := hd.created ▸ hc.compiled (hd.compiled ▸ hm)
  distinct := hd.compiled ▸ hc.distinct
  shown x hx := hd.compiled ▸ hs x hx

/-- Slots may be emptied. -/
theorem Consistent.emptying (hc : c.Consistent) {bench : Workbench}
    (hn : bench.nextId = c.bench.nextId)
    (ha : ∀ (slot : Slot) u, bench.assemblies[slot]? = some u → c.bench.assemblies[slot]? = some u)
    (hi : ∀ (slot : Slot) s, bench.images[slot]? = some s → c.bench.images[slot]? = some s) :
    ({ c with bench } : Chronicle).Consistent :=
  hc.staying ⟨hn, rfl, rfl, fun hh => ⟨ha _ _ hh.bench, hh.place⟩⟩
    (fun _ _ hs => hc.image (hi _ _ hs))
    (fun _ _ hs => ⟨hc.linked hs, fun _ _ hh => hc.consumed hs ⟨ha _ _ hh.bench, hh.place⟩⟩)
    hc.shown

/-! ### Looking -/

/-- Handles that are shown without change come from where the chronicle says. -/
theorem Consistent.reading (hc : c.Consistent) {command : Command} (hr : command.reads) :
    (c.bench.perform command).bench = c.bench ∧
      ∀ h ∈ (c.bench.perform command).reply.issued, (c.origin command, h) ∈ c.compiled := by
  have silent : ∀ {step : Step}, c.bench.Silent step → step.bench = c.bench ∧
      ∀ h ∈ step.reply.issued, (c.origin command, h) ∈ c.compiled := fun hs =>
    ⟨hs.bench, fun h hm => by rw [hs.issued] at hm; cases hm⟩
  cases command with
  | create | compile | compileAs | link | dropAssembly | dropImage => cases hr
  | listAssembly slot =>
    obtain ⟨u, hu, he⟩ | he := c.bench.withAssembly_cases slot _ <;> rw [perform, he]
    · exact ⟨rfl, fun h hm => ((hc.tracks ⟨hu, rfl⟩).compiled h).mpr (Array.mem_toList_iff.mp hm)⟩
    · exact silent (silent_tell rfl)
  | findHandle slot name =>
    obtain ⟨u, hu, he⟩ | he := c.bench.withAssembly_cases slot _ <;> rw [perform, he]
    · have ht := hc.tracks ⟨hu, rfl⟩
      refine ⟨rfl, fun h hm => (ht.compiled h).mpr ?_⟩
      exact (ht.sound.handle?_eq_some_iff.mp (Option.mem_toList.mp hm)).1
    · exact silent (silent_tell rfl)
  | resolve slot target compareWith =>
    obtain ⟨s, name, k, hs, hk, he⟩ | ⟨reply, hr, he⟩ :=
      c.bench.withKernel_cases slot target _ <;> rw [perform, he]
    · obtain ⟨u, ht, rfl⟩ := hc.linked (hc.image hs)
      refine ⟨rfl, fun h hm => ?_⟩
      obtain rfl := List.mem_singleton.mp hm
      exact (ht.compiled _).mpr (ht.sound.mem_of_resolve_link hk)
    · exact silent (silent_tell hr)
  | assemblyText slot name => exact silent (silent_withAssembly fun _ => silent_tell rfl)
  | compareHandles first second =>
    refine silent ?_
    rw [perform]
    split <;> exact silent_tell rfl
  | listImage slot => exact silent (silent_withImage fun _ => silent_tell rfl)
  | imageText slot name => exact silent (silent_withImage fun _ => silent_tell rfl)
  | compareCode slot first second =>
    refine silent (silent_withImage fun s => ?_)
    split
    · exact silent_tell rfl
    · split <;> exact ⟨rfl, rfl⟩
  | call slot target buffers =>
    refine silent (silent_withKernel fun k => ?_)
    split <;> rfl
  | callFenced slot target size withInputs buffers => exact silent (silent_withKernel fun _ => rfl)
  | callShared slot target size starts cells => exact silent (silent_withKernel fun _ => rfl)
  | callLengths slot target lengths =>
    refine silent (silent_withKernel fun k => ?_)
    split <;> rfl

theorem note_of_reads {command : Command} (hr : command.reads) (reply : Reply) :
    c.note command reply = c := by
  cases command with
  | create | compile | compileAs | link | dropAssembly | dropImage => cases hr
  | _ => rfl

theorem Consistent.record_of_reads (hc : c.Consistent) {command : Command} (hr : command.reads) :
    (c.record command).Consistent := by
  obtain ⟨hb, hi⟩ := hc.reading hr
  rw [record, note_of_reads hr, hb]
  refine hc.staying ⟨rfl, rfl, rfl, fun hh => ⟨hh.bench, hh.place⟩⟩ (fun _ _ => hc.image)
    (fun _ _ hs => ⟨hc.linked hs, fun _ _ hh => hc.consumed hs ⟨hh.bench, hh.place⟩⟩)
    fun x hx => ?_
  obtain hx | hx := List.mem_append.mp hx
  · obtain ⟨h, hm, rfl⟩ := List.mem_map.mp hx
    exact hi h hm
  · exact hc.shown x hx

/-! ### Filling slots -/

/-- The chronicle after an assembly is put into a slot, with the handles that come of that. -/
def put (c : Chronicle) (bench : Workbench) (created : Nat) (slot : Slot) (place : Nat)
    (new : List (Nat × Handle)) : Chronicle :=
  { c with
    bench, created
    assembly := Function.update c.assembly slot place
    compiled := new ++ c.compiled
    shown := new ++ c.shown }

variable {bench : Workbench} {created place : Nat} {slot : Slot} {new : List (Nat × Handle)}
  {u : Assembly}

theorem Holds.of_put (ha : bench.assemblies = c.bench.assemblies.insert slot u) {slot' : Slot}
    {place' : Nat} {u' : Assembly}
    (hh : (c.put bench created slot place new).Holds slot' place' u') :
    slot' = slot ∧ place' = place ∧ u' = u ∨ slot' ≠ slot ∧ c.Holds slot' place' u' := by
  have hb : bench.assemblies[slot']? = some u' := hh.bench
  have hp : Function.update c.assembly slot place slot' = place' := hh.place
  rw [ha, Std.HashMap.getElem?_insert] at hb
  by_cases hs : slot' = slot
  · subst hs
    rw [Function.update_self] at hp
    simp only [beq_self_eq_true, if_true, Option.some.injEq] at hb
    exact .inl ⟨rfl, hp.symm, hb.symm⟩
  · rw [Function.update_of_ne hs] at hp
    rw [if_neg (by simpa using Ne.symm hs)] at hb
    exact .inr ⟨hs, hb, hp⟩

/-- An assembly may be put into a slot at a place that no other has. -/
theorem Consistent.putting (hc : c.Consistent)
    (ha : bench.assemblies = c.bench.assemblies.insert slot u)
    (hi : bench.images = c.bench.images) (hle : c.created ≤ created) (hn : bench.nextId = created)
    (hu : (c.put bench created slot place new).Tracks place u)
    (hnew : ∀ x ∈ new, x.1 = place)
    (hd : (new ++ c.compiled).Pairwise Distinct)
    (hslot : ∀ slot' u', slot' ≠ slot → ¬ c.Holds slot' place u')
    (hlink : ∀ s, (place, s) ∉ c.linked) :
    (c.put bench created slot place new).Consistent := by
  have hmem : ∀ {place'}, place' ≠ place → ∀ h,
      (place', h) ∈ new ++ c.compiled ↔ (place', h) ∈ c.compiled := fun hp h => by
    refine ⟨fun hm => (List.mem_append.mp hm).resolve_left fun hm => hp (hnew _ hm), ?_⟩
    exact List.mem_append_right _
  have hother : ∀ {slot' place' u'}, slot' ≠ slot → c.Holds slot' place' u' → place' ≠ place :=
    fun hs hh hp => hslot _ _ hs (hp ▸ hh)
  have hlinked : ∀ {place' s}, (place', s) ∈ c.linked → place' ≠ place := fun hs hp =>
    hlink _ (hp ▸ hs)
  refine ⟨hn, fun hh => ?_, fun hh hh' => ?_, fun hs => ?_, fun hs => ?_, fun hs hh => ?_,
    fun hm => ?_, hd, fun x hx => ?_⟩
  · obtain ⟨-, rfl, rfl⟩ | ⟨hs, hh⟩ := hh.of_put ha
    · exact hu
    · exact (hc.tracks hh).mono hle (hmem (hother hs hh))
  · obtain ⟨hs, hp, -⟩ | ⟨hs, hold⟩ := hh.of_put ha
    · obtain ⟨hs', -, -⟩ | ⟨hs', hold'⟩ := hh'.of_put ha
      · exact hs.trans hs'.symm
      · exact absurd hp (hother hs' hold')
    · obtain ⟨-, hp, -⟩ | ⟨-, hold'⟩ := hh'.of_put ha
      · exact absurd hp (hother hs hold)
      · exact hc.apart hold hold'
  · exact hc.image (hi ▸ hs)
  · obtain ⟨u', ht, he⟩ := hc.linked hs
    exact ⟨u', ht.mono hle (hmem (hlinked hs)), he⟩
  · obtain ⟨-, hp, -⟩ | ⟨-, hh⟩ := hh.of_put ha
    · exact hlinked hs hp
    · exact hc.consumed hs hh
  · obtain hm' | hm' := List.mem_append.mp hm
    · obtain rfl := hnew _ hm'
      have hh := (hu.compiled _).mp hm
      exact ⟨(hu.sound.owner _ hh).trans hu.id, hu.lt⟩
    · exact ⟨(hc.compiled hm').1, Nat.lt_of_lt_of_le (hc.compiled hm').2 hle⟩
  · obtain hx | hx := List.mem_append.mp hx
    · exact List.mem_append_left _ hx
    · exact List.mem_append_right _ (hc.shown x hx)

/-- A new assembly has the next place. -/
theorem Consistent.creating (hc : c.Consistent) (slot : Slot) (settings : Settings)
    (names : NameSupply) :
    (c.put { c.bench with
        nextId := c.bench.nextId + 1
        assemblies := c.bench.assemblies.insert slot (.empty c.bench.nextId settings names) }
      (c.created + 1) slot c.created []).Consistent := by
  have hnew : ∀ {place}, place < c.created → place ≠ c.created := Nat.ne_of_lt
  refine hc.putting rfl rfl (Nat.le_succ _) (congrArg (· + 1) hc.nextId) ?_ (by simp) hc.distinct
    (fun slot' u' _ hh => hnew (hc.tracks hh).lt rfl) fun s hs => ?_
  · refine ⟨Assembly.sound_empty _ _ _, hc.nextId, Nat.lt_succ_self _, fun h => ?_⟩
    rw [Assembly.handles_empty]
    exact ⟨fun hm => absurd rfl (hnew (hc.compiled hm).2), fun hm => absurd hm (by simp)⟩
  · obtain ⟨u, ht, -⟩ := hc.linked hs
    exact hnew ht.lt rfl

/-- An attempt to compile keeps the place of its assembly, and a handle that results is new. -/
theorem Consistent.attempting (hc : c.Consistent) (hu : c.Holds slot place u) {a : Attempt}
    (ha : u.ExtendedBy a) (ht : bench.assemblies = c.bench.assemblies.insert slot a.assembly)
    (hi : bench.images = c.bench.images) (hn : bench.nextId = c.bench.nextId) :
    (c.put bench c.created slot place (a.result.toOption.toList.map (place, ·))).Consistent := by
  have htracks := hc.tracks hu
  refine hc.putting ht hi (Nat.le_refl _) (hn.trans hc.nextId) ?_ (by simp) ?_
    (fun slot' u' hs hh => hs (hc.apart hh hu)) fun s hs => hc.consumed hs hu
  · refine ⟨ha.sound, ha.id.trans htracks.id, htracks.lt, fun h => ?_⟩
    rw [← Array.mem_toList_iff, ha.handles, put, List.mem_append, List.mem_append, htracks.compiled,
      Array.mem_toList_iff, or_comm]
    simp
  · cases hr : a.result with
    | error e => exact hc.distinct
    | ok h =>
      have hhandles : a.assembly.handles.toList = u.handles.toList ++ [h] := by
        rw [ha.handles, hr]
        rfl
      have hnames : (u.kernelNames ++ [h.name]).Nodup := by
        have hd := ha.sound.nodup
        rwa [Assembly.kernelNames, hhandles, List.map_append] at hd
      refine List.pairwise_cons.mpr ⟨fun x hx heq => ?_, hc.distinct⟩
      obtain ⟨place', h'⟩ := x
      obtain ⟨howner, hname⟩ := Prod.mk.inj heq
      -- the older handle would be one of the same assembly
      have hplace : place' = place := by
        have hm : h ∈ a.assembly.handles := by simp [← Array.mem_toList_iff, hhandles]
        rw [← (hc.compiled hx).1, ← howner, ha.sound.owner h hm, ha.id, htracks.id]
      have hm : h' ∈ u.handles := (htracks.compiled h').mp (hplace ▸ hx)
      have hmem : h.name ∈ u.kernelNames :=
        List.mem_map.mpr ⟨h', Array.mem_toList_iff.mpr hm, hname.symm⟩
      exact (List.disjoint_of_nodup_append hnames) hmem (List.mem_singleton.mpr rfl)

/-- Linking takes the assembly out of its slot. -/
theorem Consistent.linking (hc : c.Consistent) (hu : c.Holds slot place u) {image : Slot}
    (ha : bench.assemblies = c.bench.assemblies.erase slot)
    (hi : bench.images = c.bench.images.insert image u.link.1)
    (hn : bench.nextId = c.bench.nextId) :
    ({ c with
      bench
      source := Function.update c.source image place
      linked := (place, u.link.1) :: c.linked } : Chronicle).Consistent := by
  have herase : ∀ {slot' : Slot} {u'}, bench.assemblies[slot']? = some u' →
      slot' ≠ slot ∧ c.bench.assemblies[slot']? = some u' := fun h => getElem?_of_erase (ha ▸ h)
  refine hc.staying ⟨hn, rfl, rfl, fun hh => ⟨(herase hh.bench).2, hh.place⟩⟩
    (fun slot' s hs => ?_) (fun place' s hs => ?_) hc.shown
  · have hs : bench.images[slot']? = some s := hs
    rw [hi, Std.HashMap.getElem?_insert] at hs
    by_cases he : slot' = image
    · subst he
      simp only [beq_self_eq_true, if_true, Option.some.injEq] at hs
      simp [hs]
    · rw [if_neg (by simpa using Ne.symm he)] at hs
      simp only [Function.update_of_ne he]
      exact List.mem_cons_of_mem _ (hc.image hs)
  · obtain heq | hs := List.mem_cons.mp hs
    · obtain ⟨rfl, rfl⟩ := Prod.mk.inj heq
      refine ⟨⟨u, hc.tracks hu, rfl⟩, fun slot' u' hh => ?_⟩
      exact (herase hh.bench).1 (hc.apart ⟨(herase hh.bench).2, hh.place⟩ hu)
    · exact ⟨hc.linked hs, fun slot' u' hh => hc.consumed hs ⟨(herase hh.bench).2, hh.place⟩⟩

/-! ### Commands whose slots are filled -/

theorem record_create_of_ok {settings : Settings} {names : Option NameSupply}
    (hu : Assembly.create c.bench.nextId settings (names.getD (.new settings.stem)) = .ok u) :
    c.record (.create slot (.ok settings) names) =
      { c with
        bench := { c.bench with
          nextId := c.bench.nextId + 1
          assemblies := c.bench.assemblies.insert slot u }
        created := c.created + 1
        assembly := Function.update c.assembly slot c.created } := by
  rw [record, perform_create_of_ok hu]
  rfl

theorem record_compile {first second : Operator.Written} {handle : Slot} {h : Handle}
    (hu : c.bench.assemblies[slot]? = some u)
    (hr : (u.compileWritten first second).result = .ok h) :
    c.record (.compile slot first second handle) =
      { c with
        bench := { c.bench with
          assemblies := c.bench.assemblies.insert slot (u.compileWritten first second).assembly
          handles := c.bench.handles.insert handle h }
        compiled := (c.assembly slot, h) :: c.compiled
        shown := (c.assembly slot, h) :: c.shown } := by
  rw [record, perform, withAssembly_of_some hu, settle_of_ok hr]
  rfl

theorem record_link (hu : c.bench.assemblies[slot]? = some u) (image : Slot) :
    c.record (.link slot image) =
      { c with
        bench := { c.bench with
          assemblies := c.bench.assemblies.erase slot
          images := c.bench.images.insert image u.link.1 }
        source := Function.update c.source image (c.assembly slot)
        linked := (c.assembly slot, u.link.1) :: c.linked } := by
  rw [record, perform, withAssembly_of_some hu]
  simp only [note, Std.HashMap.getElem?_insert_self]
  rfl

/-! ### Every command -/

@[simp] theorem note_failed (c : Chronicle) (command : Command) (e : Failure) :
    c.note command (.failed e) = c := by
  cases command <;> rfl

@[simp] theorem note_missing (c : Chronicle) (command : Command) (what : Missing) :
    c.note command (.missing what) = c := by
  cases command <;> rfl

theorem record_of_tell {command : Command} {reply : Reply}
    (h : c.bench.perform command = c.bench.tell reply) (hi : reply.issued = [])
    (hn : c.note command reply = c) : c.record command = c := by
  rw [record, h]
  simp only [tell, hi]
  exact hn

theorem Consistent.record_create (hc : c.Consistent) (slot : Slot)
    (settings : Except Settings.Error Settings) (names : Option NameSupply) :
    (c.record (.create slot settings names)).Consistent := by
  cases settings with
  | error e =>
    have hp : c.bench.perform (.create slot (.error e) names) =
        c.bench.tell (.failed (.settings e)) := rfl
    rwa [record_of_tell hp rfl (note_failed ..)]
  | ok settings =>
    cases hu : Assembly.create c.bench.nextId settings (names.getD (.new settings.stem)) with
    | error e =>
      have hp : c.bench.perform (.create slot (.ok settings) names) =
          c.bench.tell (.failed (.settings e)) := by
        simp only [perform, Workbench.create, hu]
      rwa [record_of_tell hp rfl (note_failed ..)]
    | ok u =>
      have h := hc.creating slot settings (names.getD (.new settings.stem))
      rw [← Assembly.create_eq_ok hu] at h
      rw [record_create_of_ok hu]
      exact h

theorem Consistent.record_settle (hc : c.Consistent) {command : Command} {handle : Slot}
    {attempt : Assembly → Attempt}
    (hp : c.bench.perform command =
      c.bench.withAssembly slot fun u => c.bench.settle slot handle (attempt u))
    (ho : c.origin command = c.assembly slot)
    (hn : ∀ (d : Chronicle) h, d.note command (.handle h) =
      { d with compiled := (d.assembly slot, h) :: d.compiled })
    (ha : ∀ u : Assembly, u.Sound → u.ExtendedBy (attempt u)) : (c.record command).Consistent := by
  obtain ⟨u, hu, he⟩ | he := c.bench.withAssembly_cases slot _ <;> rw [he] at hp
  · have hh : c.Holds slot (c.assembly slot) u := ⟨hu, rfl⟩
    obtain ⟨hassemblies, himages, hnext⟩ := c.bench.settle_bench slot handle (attempt u)
    have h := hc.attempting hh (ha u (hc.tracks hh).sound) hassemblies himages hnext
    rw [put, Function.update_eq_self] at h
    rw [record, hp, ho, settle_reply]
    cases hr : (attempt u).result with
    | error e =>
      simp only [hr, note_failed] at h ⊢
      exact h
    | ok h' =>
      simp only [hr, hn] at h ⊢
      exact h
  · rwa [record_of_tell hp rfl (note_missing ..)]

theorem Consistent.record_link (hc : c.Consistent) (slot image : Slot) :
    (c.record (.link slot image)).Consistent := by
  have hp : c.bench.perform (.link slot image) = c.bench.withAssembly slot _ := rfl
  obtain ⟨u, hu, -⟩ | he := c.bench.withAssembly_cases slot _
  · rw [Chronicle.record_link hu]
    exact hc.linking ⟨hu, rfl⟩ rfl rfl rfl
  · rwa [record_of_tell (hp.trans he) rfl (note_missing ..)]

theorem Consistent.record_dropAssembly (hc : c.Consistent) (slot : Slot) :
    (c.record (.dropAssembly slot)).Consistent := by
  have hp : c.bench.perform (.dropAssembly slot) = c.bench.withAssembly slot _ := rfl
  obtain ⟨u, hu, he⟩ | he := c.bench.withAssembly_cases slot _ <;> rw [he] at hp
  · rw [record, hp]
    exact hc.emptying rfl (fun _ _ h => (getElem?_of_erase h).2) fun _ _ h => h
  · rwa [record_of_tell hp rfl (note_missing ..)]

theorem Consistent.record_dropImage (hc : c.Consistent) (slot : Slot) :
    (c.record (.dropImage slot)).Consistent := by
  have hp : c.bench.perform (.dropImage slot) = c.bench.withImage slot _ := rfl
  obtain ⟨s, hs, he⟩ | he := c.bench.withImage_cases slot _ <;> rw [he] at hp
  · rw [record, hp]
    exact hc.emptying rfl (fun _ _ h => h) fun _ _ h => (getElem?_of_erase h).2
  · rwa [record_of_tell hp rfl (note_missing ..)]

theorem Consistent.record (hc : c.Consistent) (command : Command) :
    (c.record command).Consistent := by
  cases command with
  | create slot settings names => exact hc.record_create slot settings names
  | compile slot first second handle =>
    exact hc.record_settle rfl rfl (fun _ _ => rfl) fun _ hu => hu.compileWritten first second
  | compileAs slot name first second handle =>
    exact hc.record_settle rfl rfl (fun _ _ => rfl) fun _ hu =>
      hu.compileWrittenAs name first second
  | link slot image => exact hc.record_link slot image
  | dropAssembly slot => exact hc.record_dropAssembly slot
  | dropImage slot => exact hc.record_dropImage slot
  | _ => exact hc.record_of_reads rfl

theorem Consistent.recordAll (hc : c.Consistent) (commands : List Command) :
    (c.recordAll commands).Consistent := by
  induction commands generalizing c with
  | nil => exact hc
  | cons command rest ih => exact ih (hc.record command)

/-! ### Provenance -/

/-- Whatever is done on a workbench, kernels that were compiled have handles which differ in the
identity of their assembly or in their name, and an image finds exactly the kernels of the handles
that come from the assembly it was linked from, each of which computes its own operators. -/
theorem resolveHandle_recordAll_start (commands : List Command) :
    let c := start.recordAll commands
    c.compiled.Pairwise (fun x y => (x.2.owner, x.2.name) ≠ (y.2.owner, y.2.name)) ∧
    (∀ slot s, c.bench.images[slot]? = some s → (c.source slot, s) ∈ c.linked) ∧
    ∀ place s, (place, s) ∈ c.linked → ∀ place' h, (place', h) ∈ c.shown →
      if place' = place then
        ∃ k, s.resolveHandle h = .ok k ∧ k.handle = h ∧ Call.Computes k.code h.ops
      else s.resolveHandle h = .error (.symbolNotFound h.name) := by
  intro c
  have hc : c.Consistent := consistent_start.recordAll commands
  refine ⟨hc.distinct, fun _ _ => hc.image, fun place s hs place' h hh => ?_⟩
  obtain ⟨u, ht, rfl⟩ := hc.linked hs
  have hm := hc.shown _ hh
  split
  next hp =>
    have hu : h ∈ u.handles := (ht.compiled h).mp (hp ▸ hm)
    exact ⟨_, ht.sound.resolveHandle_link hu, rfl, Assembly.computes_linked u h⟩
  next hp =>
    apply Assembly.resolveHandle_link_of_ne
    rw [(hc.compiled hm).1, ht.id]
    exact hp

/-- Two assemblies have a kernel of the same name. The image of the first one finds its own, and not
the one of the other. -/
theorem resolveHandle_recordAll_start_two :
    let commands : List Command := [.create "u" (.ok {}) none, .create "v" (.ok {}) none,
      .compile "u" (.text "+") (.text "-") "h", .compile "v" (.text "*") (.text "+") "g",
      .link "u" "s"]
    let c := start.recordAll commands
    let h : Handle := ⟨"kernel_0", ⟨.plus, .minus⟩, 0, 0⟩
    let g : Handle := ⟨"kernel_0", ⟨.multiply, .plus⟩, 0, 1⟩
    c.shown = [(1, g), (0, h)] ∧ ∃ s, c.bench.images["s"]? = some s ∧ s.symbols = ["kernel_0"] ∧
      (∃ k, s.resolveHandle h = .ok k ∧ k.handle = h ∧ Call.Computes k.code h.ops) ∧
      s.resolveHandle g = .error (.symbolNotFound "kernel_0") := by
  intro commands c h g
  let new (id : Nat) : Assembly := .empty id {} (.new "kernel")
  have hsound : ∀ id, (new id).Sound := fun id => Assembly.sound_empty id {} _
  have hnew : ∀ id, (new id).handles = #[] := fun id => Assembly.handles_empty id {} _
  have hh : ((new 0).compileWritten (.text "+") (.text "-")).result = .ok h :=
    ((hsound 0).perform_result (.compileWritten _ _)).trans (by rw [hnew]; decide)
  have hg : ((new 1).compileWritten (.text "*") (.text "+")).result = .ok g :=
    ((hsound 1).perform_result (.compileWritten _ _)).trans (by rw [hnew]; decide)
  let u := ((new 0).compileWritten (.text "+") (.text "-")).assembly
  have hu : u.Sound ∧ u.handles.toList = [h] := by
    have hextended := (hsound 0).compileWritten (.text "+") (.text "-")
    refine ⟨hextended.sound, hextended.handles.trans ?_⟩
    rw [hnew, hh]
    rfl
  -- each assembly is put into its own slot, which the other one leaves alone
  have hbefore : ∀ {slots : Std.HashMap Slot Assembly} {x y : Assembly},
      ((slots.insert "u" x).insert "v" y)["u"]? = some x :=
    (getElem?_insert_of_ne (by decide)).trans Std.HashMap.getElem?_insert_self
  have hbehind : ∀ {slots : Std.HashMap Slot Assembly} {x y : Assembly},
      ((slots.insert "v" y).insert "u" x)["v"]? = some y :=
    (getElem?_insert_of_ne (by decide)).trans Std.HashMap.getElem?_insert_self
  have hc : c = ((((start.record (.create "u" (.ok {}) none)).record
      (.create "v" (.ok {}) none)).record (.compile "u" (.text "+") (.text "-") "h")).record
        (.compile "v" (.text "*") (.text "+") "g")).record (.link "u" "s") := rfl
  rw [record_create_of_ok (c := start) (u := new 0) rfl, record_create_of_ok (u := new 1) rfl,
    record_compile (by exact hbefore) hh, record_compile (by exact hbehind) hg,
    record_link (u := u) (by exact hbefore)] at hc
  have hshown : c.shown = [(1, g), (0, h)] := by
    rw [hc]
    simp [start]
  have hlinked : c.linked = [(0, u.link.1)] := by
    rw [hc]
    simp [start]
  have himage : c.bench.images["s"]? = some u.link.1 := by
    rw [hc]
    exact Std.HashMap.getElem?_insert_self
  have hsymbols : u.link.1.symbols = ["kernel_0"] :=
    hu.1.kernelNames_link.trans (congrArg (List.map Handle.name) hu.2)
  obtain ⟨-, -, hfound⟩ := resolveHandle_recordAll_start commands
  have hs := hfound 0 u.link.1 (by rw [hlinked]; exact List.mem_singleton_self _)
  have hown := hs 0 h (by rw [hshown]; exact List.mem_cons_of_mem _ List.mem_cons_self)
  have hforeign := hs 1 g (by rw [hshown]; exact List.mem_cons_self)
  exact ⟨hshown, u.link.1, himage, hsymbols, hown, hforeign⟩

end FusedKernel.Workbench.Chronicle
