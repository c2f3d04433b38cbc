import Mathlib.Tactic.Common
import FusedKernel.Proofs.Code.Execution

/-! What execution records of memory. The list of accesses only grows, and a cell that no recorded
store is at has kept its contents. -/
namespace FusedKernel.Code

/-- The state in which execution stands. -/
def Next.state : Next → State
  | goto _ s | returned s | halted _ s => s

/-- A state can come before another: what is recorded stays recorded, and memory changes only where
a store is recorded. -/
structure State.Precedes (s t : State) : Prop where
  accesses : s.accesses <:+ t.accesses
  memory : ∀ q, .store q ∉ t.accesses → t.memory.read q = s.memory.read q

namespace State.Precedes

variable {s t u : State}

theorem refl (s : State) : s.Precedes s := ⟨List.suffix_rfl, fun _ _ => rfl⟩

theorem trans (h : s.Precedes t) (h' : t.Precedes u) : s.Precedes u := by
  refine ⟨h.accesses.trans h'.accesses, fun q hq => ?_⟩
  rw [h'.memory q hq, h.memory q fun hmem => hq (h'.accesses.mem hmem)]

theorem of_bindAll {params : List (ValueId × Ty)} {args : List Scalar}
    (h : s.bindAll params args = some t) : s.Precedes t := by
  induction params generalizing s args with
  | nil =>
    cases args with
    | nil => cases h; exact refl _
    | cons v args => cases h
  | cons p params ih =>
    cases args with
    | nil => cases h
    | cons v args =>
      have hbind : s.Precedes (s.bind p.1 v) := ⟨List.suffix_rfl, fun _ _ => rfl⟩
      exact hbind.trans (ih h)

theorem of_step {statement : Statement} (h : statement.step s = .ok t) : s.Precedes t := by
  cases statement with
  -- a definition records the load that it makes
  | define result value =>
    obtain ⟨v, -, rfl⟩ := Statement.of_step_define h
    exact ⟨List.suffix_append _ _, fun _ _ => rfl⟩
  -- a store writes the cell that it records
  | store type value address =>
    obtain ⟨w, p, -, -, rfl⟩ := Statement.of_step_store h
    refine ⟨List.suffix_cons _ _, fun q hq => s.memory.read_write_of_ne w ?_⟩
    rintro rfl
    exact hq List.mem_cons_self

theorem of_runBody {code : List Statement} (h : runBody s code = .ok t) : s.Precedes t := by
  induction code generalizing s with
  | nil => cases h; exact refl _
  | cons statement rest ih =>
    rw [runBody] at h
    split at h
    next next hstep => exact (of_step hstep).trans (ih h)
    next => cases h

theorem of_runBody_error {code : List Statement} {fault : Fault}
    (h : runBody s code = .error (fault, t)) : s.Precedes t := by
  induction code generalizing s with
  | nil => cases h
  | cons statement rest ih =>
    rw [runBody] at h
    split at h
    next next hstep => exact (of_step hstep).trans (ih h)
    next => cases h; exact refl _

end State.Precedes

namespace Function

open State.Precedes

variable (f : Function) (s : State)

theorem precedes_enter (target : BlockId) (args : List Scalar) :
    s.Precedes (f.enter s target args).state := by
  unfold enter
  split
  · exact refl s
  · split
    · exact refl s
    next h => exact of_bindAll h

theorem precedes_follow (exit : Exit) : s.Precedes (f.follow s exit).state := by
  cases exit with
  | jump target arguments =>
    simp only [follow]
    split
    · exact f.precedes_enter s _ _
    · exact refl s
  | branch condition ifTrue ifFalse =>
    simp only [follow]
    split
    · exact f.precedes_enter s _ _
    · exact refl s
  | leave => exact refl s

/-- What holds of one block. -/
theorem precedes_step (block : BlockId) : s.Precedes (f.step s block).state := by
  unfold step
  split
  · exact refl s
  · split
    next h => exact of_runBody_error h
    next h => exact (of_runBody h).trans (f.precedes_follow _ _)

/-- What holds of any number of blocks. -/
theorem precedes_after (blocks : Nat) (next : Next) :
    next.state.Precedes (f.after blocks next).state := by
  induction blocks generalizing next with
  | zero => exact f.after_zero next ▸ refl _
  | succ blocks ih =>
    cases next with
    | goto block t => exact (f.precedes_step t block).trans (ih (f.step t block))
    | returned t => exact refl t
    | halted fault t => exact refl t

variable {f s}

/-- A run that has ended stays where it is. -/
theorem precedes_of_run_ended {limit : Nat} {next : Next} (hn : ∀ block t, next ≠ .goto block t)
    (h : f.run limit next = .returned s ∨ f.run limit next = .trapped s) (blocks : Nat) :
    (f.after blocks next).state.Precedes s := by
  cases next with
  | goto block t => exact absurd rfl (hn block t)
  | returned t =>
    have ht : t = s := by simpa [run] using h
    rw [after_returned, ← ht]
    exact refl t
  | halted fault t =>
    have ht : t = s := by
      cases fault with
      | trap => simpa [run] using h
      | illFormed => simp [run] at h
    rw [after_halted, ← ht]
    exact refl t

/-- Wherever a run stands after some blocks, the state at its end comes later. -/
theorem precedes_of_run {limit : Nat} {next : Next}
    (h : f.run limit next = .returned s ∨ f.run limit next = .trapped s) (blocks : Nat) :
    (f.after blocks next).state.Precedes s := by
  induction limit generalizing next blocks with
  | zero => exact precedes_of_run_ended (fun block t hn => by simp [hn, run] at h) h blocks
  | succ limit ih =>
    cases next with
    | goto block t =>
      cases blocks with
      | zero => exact (f.precedes_step t block).trans (ih h 0)
      | succ blocks => exact ih h blocks
    | returned t => exact precedes_of_run_ended (fun _ _ hn => by cases hn) h blocks
    | halted fault t => exact precedes_of_run_ended (fun _ _ hn => by cases hn) h blocks

end Function

end FusedKernel.Code
