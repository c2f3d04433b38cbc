import Mathlib.Data.List.Nodup
import Mathlib.Tactic.Common
import FusedKernel.Assembly.Request

/-! What every assembly keeps, whatever is asked of it: the tables of names, of entries and of code
agree, and each entry has the code of its own operators. An attempt to compile adds one kernel at
the end or none at all. -/
namespace FusedKernel.Assembly

open Code

/-- The names of the kernels, in the order of compilation. -/
def kernelNames (u : Assembly) : List String := u.handles.toList.map Handle.name

/-- The text that is kept of the code of a handle's kernel. -/
def keptText (u : Assembly) (h : Handle) : Option (List String) :=
  if u.settings.keepText then some (h.ops.toFunction h.number).lines else none

/-- The tables of an assembly agree. -/
structure Sound (u : Assembly) : Prop where
  nodup : u.kernelNames.Nodup
  declared : u.memory.declared.toList = u.kernelNames
  number : ∀ (k : Nat) (h : Handle), u.handles[k]? = some h → h.number = k
  owner : ∀ h ∈ u.handles, h.owner = u.id
  code : ∀ h ∈ u.handles, u.memory.code h.number = h.ops.toFunction h.number
  text : ∀ e ∈ u.entries, e.text = u.keptText e.handle
  board : u.board = .empty

theorem handles_empty (id : Nat) (settings : Settings) (names : NameSupply) :
    (empty id settings names).handles = #[] := Array.map_empty

theorem sound_empty (id : Nat) (settings : Settings) (names : NameSupply) :
    (empty id settings names).Sound where
  nodup := by simp [kernelNames, handles_empty]
  declared := by simp [empty, kernelNames, handles, CodeMemory.empty]
  number k h hk := by simp [handles_empty] at hk
  owner h hm := by simp [handles_empty] at hm
  code h hm := by simp [handles_empty] at hm
  text e he := by simp [empty] at he
  board := rfl

theorem create_eq_ok {id : Nat} {settings : Settings} {names : NameSupply} {u : Assembly}
    (h : create id settings names = .ok u) : u = empty id settings names := by
  unfold create at h
  split at h
  · cases h
  · split at h
    · cases h
    · exact (Except.ok.inj h).symm

variable {u : Assembly} {name : String} {ops : OperatorPair}

/-! ### Names -/

theorem handle?_eq_find? (u : Assembly) (name : String) :
    u.handle? name = u.handles.toList.find? fun h => h.name == name := by
  rw [handle?, entry?, handles, Array.toList_map, List.find?_map, ← Array.find?_toList]
  rfl

theorem handle?_eq_none_iff : u.handle? name = none ↔ name ∉ u.kernelNames := by
  simp [handle?_eq_find?, kernelNames]

theorem Sound.handle?_eq_some_iff (hu : u.Sound) {h : Handle} :
    u.handle? name = some h ↔ h ∈ u.handles ∧ h.name = name := by
  rw [handle?_eq_find?]
  constructor
  · intro hh
    exact ⟨by simpa using List.mem_of_find?_eq_some hh, by simpa using List.find?_some hh⟩
  · rintro ⟨hm, rfl⟩
    have hm := Array.mem_toList_iff.mpr hm
    cases hf : u.handles.toList.find? fun h' => h'.name == h.name with
    | none => simpa using List.find?_eq_none.mp hf h hm
    | some h' =>
      have hn : h'.name = h.name := by simpa using List.find?_some hf
      rw [List.inj_on_of_nodup_map hu.nodup (List.mem_of_find?_eq_some hf) hm hn]

/-- The entry that is found under a kernel's name is that kernel's, with its text. -/
theorem Sound.entry?_name (hu : u.Sound) {h : Handle} (hm : h ∈ u.handles) :
    u.entry? h.name = some ⟨h, u.keptText h⟩ := by
  have hh : (u.entry? h.name).map (·.handle) = some h := hu.handle?_eq_some_iff.mpr ⟨hm, rfl⟩
  obtain ⟨e, he, rfl⟩ := Option.map_eq_some_iff.mp hh
  have ht := hu.text e (Array.mem_of_find?_eq_some he)
  rw [he, ← ht]

/-- The text under a name is what is kept of the kernel of that name. -/
theorem Sound.text?_eq (hu : u.Sound) (name : String) :
    u.text? name = (u.handle? name).bind u.keptText := by
  cases hh : u.handle? name with
  | none =>
    have he : u.entry? name = none := Option.map_eq_none_iff.mp hh
    rw [text?, he]
    rfl
  | some h =>
    obtain ⟨hm, rfl⟩ := hu.handle?_eq_some_iff.mp hh
    rw [text?, hu.entry?_name hm]
    rfl

/-! ### A new kernel -/

/-- The handle of the next kernel. -/
def nextHandle (u : Assembly) (name : String) (ops : OperatorPair) : Handle :=
  ⟨name, ops, u.size, u.id⟩

theorem size_handles (u : Assembly) : u.handles.size = u.size := by
  simp [handles, size]

theorem Sound.lt_size (hu : u.Sound) {h : Handle} (hm : h ∈ u.handles) : h.number < u.size := by
  obtain ⟨k, hk, rfl⟩ := Array.mem_iff_getElem.mp hm
  rw [hu.number k _ (Array.getElem?_eq_getElem hk), ← size_handles]
  exact hk

/-- A new name is declared with the number of kernels so far. -/
theorem Sound.declare (hu : u.Sound) (hn : name ∉ u.kernelNames) :
    u.memory.declare name =
      (u.size, { u.memory with declared := u.memory.declared.push name }) := by
  have hs : u.memory.declared.size = u.size := by
    rw [← Array.length_toList, hu.declared, kernelNames, List.length_map, Array.length_toList,
      size_handles]
  rw [CodeMemory.declare_of_not_mem (by rwa [hu.declared]), hs]

/-- Under a new name a kernel is added at the end, its code written as on an empty draft. -/
theorem Sound.add_eq (hu : u.Sound) (hn : name ∉ u.kernelNames) :
    let h := u.nextHandle name ops
    u.add name ops =
      ({ u with
          memory := ({ u.memory with declared := u.memory.declared.push name } : CodeMemory).define
            u.size (ops.toFunction u.size)
          entries := u.entries.push ⟨h, u.keptText h⟩ }, h) := by
  intro h
  have hw : ops.program.writeOn u.board .bits64 u.size = (ops.toFunction u.size, u.board) := by
    rw [hu.board, OperatorPair.toFunction, Program.toFunction, Program.writeOn,
      Draft.clear_eq_empty]
  rw [add, hu.declare hn]
  simp only [hw]
  rfl

theorem Sound.handles_add (hu : u.Sound) (hn : name ∉ u.kernelNames) :
    (u.add name ops).1.handles = u.handles.push (u.nextHandle name ops) := by
  simp [hu.add_eq hn, handles]

theorem Sound.add (hu : u.Sound) (hn : name ∉ u.kernelNames) : (u.add name ops).1.Sound := by
  have hh : (u.add name ops).1.handles = u.handles.push (u.nextHandle name ops) :=
    hu.handles_add hn
  have hnames : (u.add name ops).1.kernelNames = u.kernelNames ++ [name] := by
    simp [kernelNames, hh, nextHandle]
  refine ⟨?_, ?_, fun k h hk => ?_, fun h hm => ?_, fun h hm => ?_, fun e he => ?_, ?_⟩
  · rw [hnames]
    exact List.concat_eq_append ▸ hu.nodup.concat hn
  · rw [hnames, hu.add_eq hn]
    simp [hu.declared]
  · rw [hh, Array.getElem?_push, size_handles] at hk
    split at hk
    · cases hk
      exact Eq.symm ‹_›
    · exact hu.number k h hk
  · rw [hh, Array.mem_push] at hm
    rw [hu.add_eq hn]
    obtain hm | rfl := hm
    · exact hu.owner h hm
    · rfl
  · rw [hh, Array.mem_push] at hm
    rw [hu.add_eq hn, CodeMemory.code_define]
    obtain hm | rfl := hm
    · rw [if_neg (Nat.ne_of_gt (hu.lt_size hm))]
      exact hu.code h hm
    · exact if_pos rfl
  · rw [hu.add_eq hn] at he ⊢
    obtain he | rfl := Array.mem_push.mp he
    · exact hu.text e he
    · rfl
  · rw [hu.add_eq hn]
    exact hu.board

/-! ### Attempts -/

/-- What an attempt makes of an assembly: its kernels stay, and a handle that results is that of one
more kernel at the end. -/
structure ExtendedBy (u : Assembly) (a : Attempt) : Prop where
  sound : a.assembly.Sound
  id : a.assembly.id = u.id
  settings : a.assembly.settings = u.settings
  handles : a.assembly.handles.toList = u.handles.toList ++ a.result.toOption.toList

/-- A failed attempt leaves an assembly as it is. -/
theorem Sound.extendedBy_error (hu : u.Sound) (e : Failure) (events : List Console.Event) :
    u.ExtendedBy ⟨u, .error e, events⟩ :=
  ⟨hu, rfl, rfl, (List.append_nil _).symm⟩

/-- The supply of names does not matter to the tables. -/
theorem Sound.withNames (hu : u.Sound) (names : NameSupply) :
    ({ u with names } : Assembly).Sound :=
  ⟨hu.nodup, hu.declared, hu.number, hu.owner, hu.code, hu.text, hu.board⟩

theorem compileAs_of_mem (ops : OperatorPair) (hm : name ∈ u.kernelNames) :
    u.compileAs name ops = ⟨u, .error (.duplicateSymbol name), [.duplicate name]⟩ := by
  apply compileAs_of_defined
  rw [Option.isSome_iff_ne_none]
  exact fun hn => handle?_eq_none_iff.mp hn hm

theorem Sound.compileAs_of_not_mem (hu : u.Sound) (ops : OperatorPair)
    (hm : name ∉ u.kernelNames) :
    u.compileAs name ops =
      ⟨(u.add name ops).1, .ok (u.nextHandle name ops), [.compiled name ops]⟩ := by
  rw [compileAs_of_undefined ops (handle?_eq_none_iff.mpr hm), hu.add_eq hm]

theorem Sound.compileAs (hu : u.Sound) (name : String) (ops : OperatorPair) :
    u.ExtendedBy (u.compileAs name ops) := by
  by_cases hm : name ∈ u.kernelNames
  · rw [compileAs_of_mem ops hm]
    exact hu.extendedBy_error _ _
  · rw [hu.compileAs_of_not_mem ops hm]
    refine ⟨hu.add hm, ?_, ?_, ?_⟩
    · rw [hu.add_eq hm]
    · rw [hu.add_eq hm]
    · rw [hu.handles_add hm, Array.toList_push]
      rfl

theorem Sound.compileAs_result (hu : u.Sound) (name : String) (ops : OperatorPair) :
    (u.compileAs name ops).result =
      if name ∈ u.kernelNames then .error (.duplicateSymbol name)
      else .ok (u.nextHandle name ops) := by
  by_cases hm : name ∈ u.kernelNames
  · rw [compileAs_of_mem ops hm, if_pos hm]
  · rw [hu.compileAs_of_not_mem ops hm, if_neg hm]

theorem Sound.compileAs_names (hu : u.Sound) (name : String) (ops : OperatorPair) :
    (u.compileAs name ops).assembly.names = u.names := by
  by_cases hm : name ∈ u.kernelNames
  · rw [compileAs_of_mem ops hm]
  · rw [hu.compileAs_of_not_mem ops hm, hu.add_eq hm]

theorem Sound.compile (hu : u.Sound) (ops : OperatorPair) : u.ExtendedBy (u.compile ops) := by
  have h := (hu.withNames u.names.draw.2).compileAs u.names.draw.1 ops
  exact ⟨h.sound, h.id, h.settings, h.handles⟩

theorem Sound.compileWritten (hu : u.Sound) (first second : Operator.Written) :
    u.ExtendedBy (u.compileWritten first second) := by
  unfold Assembly.compileWritten
  split
  · exact hu.extendedBy_error _ _
  · exact hu.compile _

theorem Sound.compileWrittenAs (hu : u.Sound) (name : String) (first second : Operator.Written) :
    u.ExtendedBy (u.compileWrittenAs name first second) := by
  unfold Assembly.compileWrittenAs
  split
  · exact hu.extendedBy_error _ _
  · exact hu.compileAs name _

end FusedKernel.Assembly
