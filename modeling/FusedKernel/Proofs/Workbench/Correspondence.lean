import FusedKernel.Proofs.Workbench.Relabelling

/-! One command on two workbenches. Where these hold the same in the places that the command uses,
up to other identities, it is answered alike, and whatever it changes it changes alike. -/
namespace FusedKernel.Workbench

def Content.rename (f : Nat → Nat) : Content → Content
  | assembly u => .assembly (u.rename f)
  | handle h => .handle (h.rename f)
  | image s => .image (s.rename f)

theorem Content.rename_self : Content.rename (fun n => n) = fun c => c := by
  funext c
  cases c with
  | assembly u => exact congrArg assembly u.rename_self
  | handle h => rfl
  | image s => exact congrArg image s.rename_self

/-- An answer with other identities in its handles. -/
def Reply.rename (f : Nat → Nat) : Reply → Reply
  | .handle h => .handle (h.rename f)
  | .handle? h => .handle? (h.map (Handle.rename f))
  | .handles hs => .handles (hs.map (Handle.rename f))
  | .kernel k same => .kernel (k.rename f) same
  | reply => reply

theorem Reply.rename_self (reply : Reply) : (reply.rename fun n => n) = reply := by
  cases reply with
  | handle? h => simp [rename, Handle.rename_self]
  | handles hs => simp [rename, Handle.rename_self]
  | _ => rfl

/-- A place holds the same on two workbenches, up to identities. -/
def SameAt (f : Nat → Nat) (w v : Workbench) (x : Place) : Prop :=
  v.content x = (w.content x).map (Content.rename f)

/-- Each place holds the same after changes on two workbenches, or was left alone on both. -/
def Changed (f : Nat → Nat) (w v w' v' : Workbench) : Prop :=
  ∀ x, SameAt f w' v' x ∨ w'.content x = w.content x ∧ v'.content x = v.content x

/-- Steps on two workbenches correspond: they give the same answers and reports, up to identities,
and change the same. -/
structure Corresponds (f : Nat → Nat) (w v : Workbench) (step step' : Step) : Prop where
  reply : step'.reply = step.reply.rename f
  events : step'.events = step.events
  changed : Changed f w v step.bench step'.bench

/-! ### Other identities as a relabelling -/

variable {f : Nat → Nat} {w v : Workbench}

theorem Content.relabel_ids (f : Nat → Nat) : Content.relabel (.ids f) = Content.rename f := by
  funext c
  cases c <;> rfl

theorem Reply.relabel_ids (f : Nat → Nat) (reply : Reply) :
    reply.relabel (.ids f) = reply.rename f := by
  cases reply <;> rfl

theorem Command.relabel_ids (f : Nat → Nat) (command : Command) :
    command.relabel (.ids f) = command := by
  cases command with
  | create slot settings names => cases settings <;> rfl
  | _ => rfl

theorem sameAt_ids {x : Place} : (Relabelling.ids f).SameAt w v x ↔ SameAt f w v x := by
  rw [Relabelling.SameAt, Content.relabel_ids, SameAt]

/-- A command is answered by what the places hold that it uses. -/
theorem corresponds_perform (hf : Function.Injective f) {command : Command}
    (hx : ∀ x ∈ command.uses, SameAt f w v x)
    (hn : command.creates → v.nextId = f w.nextId) :
    Corresponds f w v (w.perform command) (v.perform command) := by
  have h := Relabelling.corresponds_perform (r := .ids f) hf
    (fun x hm => sameAt_ids.mpr (hx x hm)) hn
  rw [Command.relabel_ids] at h
  exact ⟨h.reply.trans (Reply.relabel_ids f _), h.events,
    fun x => (h.changed x).imp_left sameAt_ids.mp⟩

end FusedKernel.Workbench
