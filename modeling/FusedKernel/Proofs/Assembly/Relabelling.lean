import Mathlib.Tactic.Common
import FusedKernel.Assembly.Image

/-! What an assembly compiles does not depend on its identity, nor on its settings but for the stem.
Under another identity and with other settings it does what it did before: its handles carry the
other identity, and texts are kept as the other settings say. So does the image that it is linked
into. Only comparing handles needs that different identities stay different. -/
namespace FusedKernel

/-- Other identities, and other settings of the same stem, which may keep fewer texts. -/
structure Relabelling where
  id : Nat → Nat
  settings : Settings → Settings
  text : Option (List String) → Option (List String)
  stem : ∀ s, (settings s).stem = s.stem
  kept : ∀ s lines, text (if s.keepText then some lines else none) =
    if (settings s).keepText then some lines else none

def Handle.relabel (r : Relabelling) (h : Handle) : Handle := { h with owner := r.id h.owner }

def Kernel.relabel (r : Relabelling) (k : Kernel) : Kernel :=
  { k with handle := k.handle.relabel r, text := r.text k.text }

def Assembly.Entry.relabel (r : Relabelling) (e : Entry) : Entry :=
  ⟨e.handle.relabel r, r.text e.text⟩

def Assembly.relabel (r : Relabelling) (u : Assembly) : Assembly :=
  { u with
    id := r.id u.id
    settings := r.settings u.settings
    entries := u.entries.map (·.relabel r) }

def Attempt.relabel (r : Relabelling) (a : Attempt) : Attempt :=
  ⟨a.assembly.relabel r, a.result.map (Handle.relabel r), a.events⟩

def Image.relabel (r : Relabelling) (s : Image) : Image :=
  { s with owner := r.id s.owner, kernels := s.kernels.map (·.relabel r) }

variable (r : Relabelling)

/-- Where no text was kept there is none under other settings: it would have to be every text. -/
theorem Relabelling.text_none : r.text none = none := by
  have hkept : ∀ lines, r.text none = if (r.settings {}).keepText then some lines else none :=
    r.kept {}
  cases hk : (r.settings {}).keepText with
  | false => simpa [hk] using hkept []
  | true =>
    have heq := (hkept []).symm.trans (hkept [""])
    simp [hk] at heq

/-! ### Handles -/

variable {r} in
theorem Handle.relabel_injective (hr : Function.Injective r.id) :
    Function.Injective (Handle.relabel r) := by
  rintro ⟨name, ops, number, owner⟩ ⟨name', ops', number', owner'⟩ h
  simp only [relabel, mk.injEq] at h ⊢
  exact ⟨h.1, h.2.1, h.2.2.1, hr h.2.2.2⟩

variable {r} in
theorem Handle.relabel_beq (hr : Function.Injective r.id) (h h' : Handle) :
    (h.relabel r == h'.relabel r) = (h == h') := by
  rw [Bool.eq_iff_iff, beq_iff_eq, beq_iff_eq, (relabel_injective hr).eq_iff]

/-! ### Assemblies -/

theorem Settings.validate_congr {s t : Settings} (h : s.stem = t.stem) :
    s.validate = t.validate := by
  rw [validate, validate, isValid, isValid, h]

namespace Assembly

variable (u : Assembly)

theorem handles_relabel : (u.relabel r).handles = u.handles.map (Handle.relabel r) := by
  simp only [handles, relabel, Array.map_map]
  rfl

theorem entry?_relabel (name : String) :
    entry? (u.relabel r) name = (u.entry? name).map (Entry.relabel r) := by
  unfold entry?
  rw [relabel, Array.find?_map]
  rfl

theorem handle?_relabel (name : String) :
    (u.relabel r).handle? name = (u.handle? name).map (Handle.relabel r) := by
  rw [handle?, entry?_relabel, handle?, Option.map_map, Option.map_map]
  rfl

theorem text?_relabel (name : String) : (u.relabel r).text? name = r.text (u.text? name) := by
  rw [text?, entry?_relabel, text?]
  cases u.entry? name with
  | none => exact r.text_none.symm
  | some e => rfl

/-! ### Creating and compiling -/

theorem create_relabel (id : Nat) (settings : Settings) (names : NameSupply) :
    create (r.id id) (r.settings settings) names =
      (create id settings names).map (Assembly.relabel r) := by
  have hempty : empty (r.id id) (r.settings settings) names =
      (empty id settings names).relabel r := by
    simp [empty, relabel]
  unfold create
  rw [Settings.validate_congr (r.stem settings)]
  split
  · rfl
  · have hnames : Settings.validate { r.settings settings with stem := names.stem } =
        Settings.validate { settings with stem := names.stem } := Settings.validate_congr rfl
    rw [hnames]
    split
    · rfl
    · exact congrArg Except.ok hempty

theorem add_relabel (name : String) (ops : OperatorPair) :
    (u.relabel r).add name ops = ((u.add name ops).1.relabel r, (u.add name ops).2.relabel r) := by
  simp only [add, relabel, Array.map_push, Entry.relabel, r.kept]
  rfl

theorem compileAs_relabel (name : String) (ops : OperatorPair) :
    (u.relabel r).compileAs name ops = (u.compileAs name ops).relabel r := by
  cases hh : u.handle? name with
  | none =>
    have hr : (u.relabel r).handle? name = none := by rw [handle?_relabel, hh]; rfl
    rw [compileAs_of_undefined ops hh, compileAs_of_undefined ops hr, add_relabel]
    rfl
  | some h =>
    have hr : ((u.relabel r).handle? name).isSome := by rw [handle?_relabel, hh]; rfl
    rw [compileAs_of_defined ops (Option.isSome_of_mem hh), compileAs_of_defined ops hr]
    rfl

theorem compile_relabel (ops : OperatorPair) :
    (u.relabel r).compile ops = (u.compile ops).relabel r :=
  compileAs_relabel r { u with names := u.names.draw.2 } u.names.draw.1 ops

theorem compileWritten_relabel (first second : Operator.Written) :
    (u.relabel r).compileWritten first second = (u.compileWritten first second).relabel r := by
  unfold compileWritten
  split
  · rfl
  · exact compile_relabel r u _

theorem compileWrittenAs_relabel (name : String) (first second : Operator.Written) :
    (u.relabel r).compileWrittenAs name first second =
      (u.compileWrittenAs name first second).relabel r := by
  unfold compileWrittenAs
  split
  · rfl
  · exact compileAs_relabel r u name _

end Assembly

/-! ### Images -/

theorem indexFrom_map_relabel (kernels : List Kernel) (position : Nat)
    (index : Std.HashMap String Nat) :
    indexFrom position (kernels.map (Kernel.relabel r)) index =
      indexFrom position kernels index := by
  induction kernels generalizing position index with
  | nil => rfl
  | cons k rest ih => exact ih _ _

theorem Assembly.link_relabel (u : Assembly) :
    (u.relabel r).link = (u.link.1.relabel r, u.link.2) := by
  have hkernels : (u.relabel r).entries.map (·.link (u.relabel r).memory) =
      (u.entries.map (·.link u.memory)).map (Kernel.relabel r) := by
    simp only [relabel, Array.map_map]
    rfl
  simp only [link, hkernels, Array.toList_map, indexFrom_map_relabel]
  simp only [Image.relabel, size, relabel, Array.size_map]

namespace Image

variable (s : Image)

theorem symbols_relabel : (s.relabel r).symbols = s.symbols := by
  simp only [symbols, relabel, Array.toList_map, List.map_map]
  rfl

theorem kernel?_relabel (name : String) :
    (s.relabel r).kernel? name = (s.kernel? name).map (Kernel.relabel r) := by
  simp only [kernel?, relabel, Array.getElem?_map]
  cases s.index[name]? <;> rfl

theorem text?_relabel (name : String) : (s.relabel r).text? name = r.text (s.text? name) := by
  rw [text?, kernel?_relabel, text?]
  cases s.kernel? name with
  | none => exact r.text_none.symm
  | some k => rfl

theorem resolve_relabel (name : String) :
    (s.relabel r).resolve name = (s.resolve name).map (Kernel.relabel r) := by
  rw [resolve, kernel?_relabel, resolve]
  cases s.kernel? name <;> rfl

variable {r} in
theorem resolveHandle_relabel (hr : Function.Injective r.id) (h : Handle) :
    (s.relabel r).resolveHandle (h.relabel r) = (s.resolveHandle h).map (Kernel.relabel r) := by
  have howner : (h.relabel r).owner = (s.relabel r).owner ↔ h.owner = s.owner := hr.eq_iff
  unfold resolveHandle
  split <;> split
  · exact s.resolve_relabel r h.name
  next hr hs => exact absurd (howner.mp hr) hs
  next hr hs => exact absurd (howner.mpr hs) hr
  · rfl

end Image

end FusedKernel
