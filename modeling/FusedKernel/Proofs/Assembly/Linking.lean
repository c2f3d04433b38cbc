import FusedKernel.Proofs.Assembly.History
import FusedKernel.Proofs.Kernel.Banks

/-! Linking keeps the kernels. The index of an image finds the last kernel of a name and an assembly
the first; as no two kernels share a name, both find the same. So an image answers every name as its
assembly does, and the kernel of every handle is found and computes the operators that were asked
for. -/
namespace FusedKernel

variable {k : Kernel} {kernels : List Kernel} {name : String}

theorem getElem?_indexFrom_of_not_mem (hn : name ∉ kernels.map Kernel.name) (position : Nat)
    (index : Std.HashMap String Nat) :
    (indexFrom position kernels index)[name]? = index[name]? := by
  induction kernels generalizing position index with
  | nil => rfl
  | cons k rest ih =>
    obtain ⟨hk, hn⟩ := not_or.mp (mt List.mem_cons.mpr hn)
    rw [indexFrom, ih hn, Std.HashMap.getElem?_insert, if_neg (by simpa using Ne.symm hk)]

/-- Under distinct names every kernel is found at its place. -/
theorem getElem?_indexFrom (hd : (kernels.map Kernel.name).Nodup) {i : Nat}
    (hk : kernels[i]? = some k) (position : Nat) (index : Std.HashMap String Nat) :
    (indexFrom position kernels index)[k.name]? = some (position + i) := by
  induction kernels generalizing i position index with
  | nil => cases hk
  | cons first rest ih =>
    obtain ⟨hfirst, hd⟩ := List.nodup_cons.mp hd
    cases i with
    | zero =>
      cases hk
      rw [indexFrom, getElem?_indexFrom_of_not_mem hfirst, Std.HashMap.getElem?_insert_self]
      rfl
    | succ i =>
      rw [indexFrom, ih hd hk]
      congr 1
      omega

namespace Assembly

variable {u : Assembly} {h : Handle}

/-- What linking makes of a kernel that was compiled. -/
def linked (u : Assembly) (h : Handle) : Kernel :=
  ⟨h, u.keptText h, h.ops.toFunction h.number⟩

theorem link_owner (u : Assembly) : u.link.1.owner = u.id := rfl

theorem Sound.kernels_link (hu : u.Sound) : u.link.1.kernels = u.handles.map u.linked := by
  have he : ∀ e ∈ u.entries, e.link u.memory = u.linked e.handle := fun e he => by
    rw [Entry.link, hu.text e he, hu.code e.handle (Array.mem_map_of_mem he)]
    rfl
  rw [handles, Array.map_map]
  exact Array.map_congr_left he

theorem Sound.kernelNames_link (hu : u.Sound) :
    u.link.1.kernels.toList.map Kernel.name = u.kernelNames := by
  rw [hu.kernels_link, kernelNames, Array.toList_map, List.map_map]
  rfl

/-- An image and its assembly agree on every name. -/
theorem Sound.kernel?_link (hu : u.Sound) (name : String) :
    u.link.1.kernel? name = (u.handle? name).map u.linked := by
  have hnames := hu.kernelNames_link
  have hindex : u.link.1.index = indexFrom 0 u.link.1.kernels.toList ∅ := rfl
  rw [Image.kernel?, hindex]
  cases hh : u.handle? name with
  | none =>
    rw [getElem?_indexFrom_of_not_mem (by rw [hnames]; exact handle?_eq_none_iff.mp hh)]
    simp
  | some h =>
    obtain ⟨hm, rfl⟩ := hu.handle?_eq_some_iff.mp hh
    obtain ⟨i, hi⟩ := Array.mem_iff_getElem?.mp hm
    have hk : u.link.1.kernels[i]? = some (u.linked h) := by simp [hu.kernels_link, hi]
    have hn : h.name = (u.linked h).name := rfl
    rw [hn, getElem?_indexFrom (hnames ▸ hu.nodup) (Array.getElem?_toList ▸ hk)]
    simpa using hk

theorem Sound.resolve_link (hu : u.Sound) (hm : h ∈ u.handles) :
    u.link.1.resolve h.name = .ok (u.linked h) := by
  rw [Image.resolve, hu.kernel?_link, hu.handle?_eq_some_iff.mpr ⟨hm, rfl⟩]
  rfl

theorem Sound.resolveHandle_link (hu : u.Sound) (hm : h ∈ u.handles) :
    u.link.1.resolveHandle h = .ok (u.linked h) := by
  rw [Image.resolveHandle, link_owner, if_pos (hu.owner h hm), hu.resolve_link hm]

/-- Every kernel that is found was compiled. -/
theorem Sound.mem_of_resolve_link (hu : u.Sound) {k : Kernel}
    (hk : u.link.1.resolve name = .ok k) : k.handle ∈ u.handles := by
  rw [Image.resolve, hu.kernel?_link] at hk
  cases hh : u.handle? name with
  | none => simp [hh] at hk
  | some h =>
    have hk : u.linked h = k := by simpa [hh] using hk
    rw [← hk]
    exact (hu.handle?_eq_some_iff.mp hh).1

/-! ### Answers to names -/

/-- The kernel that linking makes of a compiled one is found under its name, else there is none. -/
theorem Sound.resolve_link_eq (hu : u.Sound) (name : String) :
    u.link.1.resolve name =
      match u.handle? name with
      | some h => .ok (u.linked h)
      | none => .error (.symbolNotFound name) := by
  rw [Image.resolve, hu.kernel?_link]
  cases u.handle? name <;> rfl

/-- Linking keeps the text of every name. -/
theorem Sound.text?_link (hu : u.Sound) (name : String) : u.link.1.text? name = u.text? name := by
  rw [Image.text?, hu.kernel?_link, hu.text?_eq, Option.bind_map]
  rfl

theorem Sound.linked_eq (hu : u.Sound) (hm : h ∈ u.handles) :
    u.linked h = ⟨h, u.text? h.name, u.memory.code h.number⟩ := by
  rw [linked, text?, hu.entry?_name hm, hu.code h hm]
  rfl

/-- Whatever was asked of an assembly before it is linked: the image exports the names of its
kernels, each once and in their order, and answers every name as the assembly does. A name that the
assembly knows resolves to the kernel of its handle, with the text and the code that the assembly
kept. -/
theorem link_performAll {id : Nat} {settings : Settings} {names : NameSupply} {u₀ : Assembly}
    (h₀ : create id settings names = .ok u₀) (requests : List Request) :
    let u := (u₀.performAll requests).1
    let s := u.link.1
    s.size = u.size ∧ s.kernels.isEmpty = u.entries.isEmpty ∧
    s.symbols = u.handles.toList.map Handle.name ∧ s.symbols.Nodup ∧
    (∀ name, s.resolve name =
      match u.handle? name with
      | some h => .ok ⟨h, u.text? name, u.memory.code h.number⟩
      | none => .error (.symbolNotFound name)) ∧
    ∀ name, s.text? name = u.text? name := by
  intro u s
  obtain rfl := create_eq_ok h₀
  have hu : u.Sound := ((sound_empty id settings names).performAll requests).sound
  have hsize : s.size = u.size := by
    rw [Image.size, hu.kernels_link, Array.size_map, size_handles]
  have hsymbols : s.symbols = u.kernelNames := hu.kernelNames_link
  refine ⟨hsize, ?_, hsymbols, hsymbols ▸ hu.nodup, fun name => ?_, hu.text?_link⟩
  · exact congrArg (fun n => decide (n = 0)) hsize
  · rw [hu.resolve_link_eq]
    cases hh : u.handle? name with
    | none => rfl
    | some h =>
      obtain ⟨hm, rfl⟩ := hu.handle?_eq_some_iff.mp hh
      exact congrArg Except.ok (hu.linked_eq hm)

/-- A name that was asked for twice is exported once, for the operators of the first request. -/
theorem link_performAll_collision :
    let requests : List Request := [.compileAs "k_0" ⟨.plus, .minus⟩, .compile ⟨.divide, .plus⟩,
      .compileAs "k_0" ⟨.modular, .plus⟩, .compile ⟨.divide, .plus⟩]
    let s := ((empty 3 {} (.new "k")).performAll requests).1.link.1
    s.symbols = ["k_0", "k_1"] ∧
    (s.resolve "k_0").map Kernel.handle = .ok ⟨"k_0", ⟨.plus, .minus⟩, 0, 3⟩ ∧
    s.resolve "k_2" = .error (.symbolNotFound "k_2") := by
  intro requests
  have hcreate : create 3 {} (.new "k") = .ok (empty 3 {} (.new "k")) := rfl
  obtain ⟨-, -, hsymbols, -, hresolve, -⟩ := link_performAll hcreate requests
  have hh := (sound_empty 3 {} (.new "k")).performAll requests
  have hhandles : ((empty 3 {} (.new "k")).performAll requests).1.handles.toList =
      [⟨"k_0", ⟨.plus, .minus⟩, 0, 3⟩, ⟨"k_1", ⟨.divide, .plus⟩, 1, 3⟩] := by
    rw [hh.handles, hh.results, handles_empty]
    decide
  have hfound := fun name => (hresolve name).trans (by rw [handle?_eq_find?, hhandles])
  refine ⟨hsymbols.trans (by rw [hhandles]; rfl), ?_, hfound "k_2"⟩
  rw [hfound "k_0"]
  rfl

/-! ### Handles and what kernels compute -/

/-- A handle of another assembly is not found. -/
theorem resolveHandle_link_of_ne (u : Assembly) (ho : h.owner ≠ u.id) :
    u.link.1.resolveHandle h = .error (.symbolNotFound h.name) := by
  rw [Image.resolveHandle, link_owner, if_neg ho]

theorem computes_linked (u : Assembly) (h : Handle) : Call.Computes (u.linked h).code h.ops :=
  Call.computes_toFunction h.ops h.number

/-- Whatever was asked of an assembly before it is linked: each handle that was issued is for the
operators and the name of its request, and the image finds its kernel, which computes these
operators, both under the name and by the handle. -/
theorem computes_of_performAll {id : Nat} {settings : Settings} {names : NameSupply}
    {u₀ : Assembly} (h₀ : create id settings names = .ok u₀) (requests : List Request) :
    let (u, results) := u₀.performAll requests
    let s := u.link.1
    ∀ r h, (r, Except.ok h) ∈ requests.zip results →
      r.ops = .ok h.ops ∧ (∀ name ∈ r.givenName?, h.name = name) ∧
      ∃ k, s.resolve h.name = .ok k ∧ s.resolveHandle h = .ok k ∧ k.handle = h ∧
        Call.Computes k.code h.ops := by
  obtain rfl := create_eq_ok h₀
  have hh := (sound_empty id settings names).performAll requests
  intro r h hm
  have hresults := hh.results
  obtain ⟨hops, hname⟩ := Request.of_mem_answers (hresults ▸ hm)
  have hhandles : h ∈ ((empty id settings names).performAll requests).1.handles := by
    rw [← Array.mem_toList_iff, hh.handles]
    have hm := (List.of_mem_zip hm).2
    exact List.mem_append_right _ (List.mem_filterMap.mpr ⟨_, hm, rfl⟩)
  exact ⟨hops, hname, _, hh.sound.resolve_link hhandles, hh.sound.resolveHandle_link hhandles, rfl,
    computes_linked _ h⟩

/-- A multiplication followed by an addition, called on two elements. -/
theorem computes_of_performAll_multiplyAdd :
    let (u, _) := (empty 0 {} (.new "kernel")).performAll [.compileAs "fma" ⟨.multiply, .plus⟩]
    ∃ k, u.link.1.resolve "fma" = .ok k ∧
      Call.checked k.code ⟨#[6, 1], #[7, 1], #[0, 2, 9], #[0, 0]⟩ =
        .ok (.returned ⟨#[6, 1], #[7, 1], #[0, 2, 9], #[42, 3]⟩) := by
  have hcreate : create 0 {} (.new "kernel") = .ok (empty 0 {} (.new "kernel")) := rfl
  have hresult :
      ((empty 0 {} (.new "kernel")).perform (.compileAs "fma" ⟨.multiply, .plus⟩)).result =
        .ok ⟨"fma", ⟨.multiply, .plus⟩, 0, 0⟩ :=
    ((sound_empty 0 {} (.new "kernel")).perform_result _).trans (by rw [handles_empty]; decide)
  obtain ⟨-, -, k, hk, -, -, hc⟩ := computes_of_performAll hcreate
    [.compileAs "fma" ⟨.multiply, .plus⟩] _ _
    (List.mem_singleton.mpr (Prod.ext rfl hresult.symm))
  refine ⟨k, hk, ?_⟩
  have hfit : Call.FitBanks
      ((⟨#[6, 1], #[7, 1], #[0, 2, 9], #[0, 0]⟩ : PerBuffer (Array Word)).map Array.size) :=
    fun buffer => by cases buffer <;> decide
  exact hc.checked_eq hfit (by decide) (by decide)

end Assembly

end FusedKernel
