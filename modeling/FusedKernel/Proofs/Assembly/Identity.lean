import FusedKernel.Proofs.Assembly.Relabelling

/-! Other identities of assemblies, which their handles then carry. What comes of an attempt to
compile has the identity of the assembly on which it is made. -/
namespace FusedKernel

def Handle.rename (f : Nat → Nat) (h : Handle) : Handle := { h with owner := f h.owner }

def Kernel.rename (f : Nat → Nat) (k : Kernel) : Kernel := { k with handle := k.handle.rename f }

def Assembly.Entry.rename (f : Nat → Nat) (e : Entry) : Entry :=
  { e with handle := e.handle.rename f }

/-- The assembly under another identity, which its handles then carry. -/
def Assembly.rename (f : Nat → Nat) (u : Assembly) : Assembly :=
  { u with id := f u.id, entries := u.entries.map (Entry.rename f) }

def Image.rename (f : Nat → Nat) (s : Image) : Image :=
  { s with owner := f s.owner, kernels := s.kernels.map (Kernel.rename f) }

/-- Other identities, under the same settings. -/
def Relabelling.ids (f : Nat → Nat) : Relabelling where
  id := f
  settings s := s
  text lines := lines
  stem _ := rfl
  kept _ _ := rfl

theorem Handle.rename_self : Handle.rename (fun n => n) = fun h => h := rfl

theorem Kernel.rename_self : Kernel.rename (fun n => n) = fun k => k := rfl

theorem Assembly.Entry.rename_self : Entry.rename (fun n => n) = fun e => e := rfl

theorem Image.rename_self (s : Image) : (s.rename fun n => n) = s := by
  rw [rename, Kernel.rename_self, Array.map_id']

namespace Assembly

variable (u : Assembly)

theorem rename_self : (u.rename fun n => n) = u := by
  rw [rename, Entry.rename_self, Array.map_id']

theorem toBool_create (id id' : Nat) (settings : Settings) (names : NameSupply) :
    (create id settings names).toBool = (create id' settings names).toBool := by
  have h : create id settings names = (create id' settings names).map _ :=
    create_relabel (.ids fun _ => id) id' settings names
  rw [h]
  cases create id' settings names <;> rfl

/-- What comes of an attempt is of the assembly on which it was made. -/
theorem owner_compileAs (name : String) (ops : OperatorPair) :
    (u.compileAs name ops).assembly.id = u.id ∧
      ∀ h, (u.compileAs name ops).result = .ok h → h.owner = u.id := by
  cases hh : u.handle? name with
  | none =>
    rw [compileAs_of_undefined ops hh]
    exact ⟨rfl, fun h hr => Except.ok.inj hr ▸ rfl⟩
  | some h =>
    rw [compileAs_of_defined ops (Option.isSome_of_mem hh)]
    exact ⟨rfl, fun h hr => by cases hr⟩

theorem owner_compileWritten (first second : Operator.Written) :
    (u.compileWritten first second).assembly.id = u.id ∧
      ∀ h, (u.compileWritten first second).result = .ok h → h.owner = u.id := by
  unfold compileWritten
  split
  · exact ⟨rfl, fun h hr => by cases hr⟩
  · exact owner_compileAs { u with names := u.names.draw.2 } _ _

theorem owner_compileWrittenAs (name : String) (first second : Operator.Written) :
    (u.compileWrittenAs name first second).assembly.id = u.id ∧
      ∀ h, (u.compileWrittenAs name first second).result = .ok h → h.owner = u.id := by
  unfold compileWrittenAs
  split
  · exact ⟨rfl, fun h hr => by cases hr⟩
  · exact owner_compileAs u _ _

end Assembly

end FusedKernel
