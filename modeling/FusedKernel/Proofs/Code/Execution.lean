import Mathlib.Tactic.Common
import FusedKernel.Code.Machine

/-! Execution of straight-line code statement by statement, and of functions block by block.
Runs are cut where blocks meet, and a trap is told by the statement at which it occurs. -/
namespace FusedKernel.Code

theorem runBody_append (s : State) (xs ys : List Statement) :
    runBody s (xs ++ ys) = (runBody s xs).bind (runBody · ys) := by
  induction xs generalizing s with
  | nil => rfl
  | cons x xs ih =>
    simp only [List.cons_append, runBody]
    cases x.step s with
    | ok t => exact ih t
    | error fault => rfl

theorem runBody_append_of_ok {s t : State} {xs : List Statement} (h : runBody s xs = .ok t)
    (ys : List Statement) : runBody s (xs ++ ys) = runBody t ys := by
  rw [runBody_append, h]
  rfl

theorem runBody_cons_of_ok {s t : State} {x : Statement} (h : x.step s = .ok t)
    (xs : List Statement) : runBody s (x :: xs) = runBody t xs := by
  simp [runBody, h]

theorem Statement.of_step_define {result : ValueId} {value : Definition} {s t : State}
    (h : (define result value).step s = .ok t) :
    ∃ v, value.eval s = .ok v ∧
      t = { s.bind result v with accesses := (value.access? s).toList ++ s.accesses } := by
  simp only [step] at h
  cases hv : value.eval s with
  | error fault =>
    rw [hv] at h
    cases h
  | ok v =>
    rw [hv] at h
    exact ⟨v, rfl, (Except.ok.inj h).symm⟩

theorem Statement.of_step_store {type : Ty} {value address : ValueId} {s t : State}
    (h : (store type value address).step s = .ok t) :
    ∃ w p, s.value value = .ok (.word w) ∧ s.address address = .ok p ∧
      t = { s with memory := s.memory.write p w, accesses := .store p :: s.accesses } := by
  simp only [step] at h
  cases hv : s.value value with
  | error fault =>
    rw [hv] at h
    cases h
  | ok v =>
    rw [hv] at h
    cases v with
    | flag b => cases h
    | wide w => cases h
    | word w =>
      cases hp : s.address address with
      | error fault =>
        simp only [hp] at h
        cases h
      | ok p =>
        simp only [hp] at h
        exact ⟨w, p, rfl, rfl, (Except.ok.inj h).symm⟩

/-- A statement changes no value but the one that it defines. -/
theorem Statement.value_of_step {statement : Statement} {s t : State} (h : statement.step s = .ok t)
    {x : ValueId} (hx : ∀ d ∈ statement.defined?, d.1 ≠ x) : t.value x = s.value x := by
  cases statement with
  | define result value =>
    obtain ⟨v, -, rfl⟩ := of_step_define h
    exact (s.value_bind result x v).trans (if_neg (hx _ rfl))
  | store type value address =>
    obtain ⟨w, p, -, -, rfl⟩ := of_step_store h
    rfl

theorem value_of_runBody {code : List Statement} {s t : State} (h : runBody s code = .ok t)
    {x : ValueId} (hx : ∀ statement ∈ code, ∀ d ∈ statement.defined?, d.1 ≠ x) :
    t.value x = s.value x := by
  induction code generalizing s with
  | nil => cases h; rfl
  | cons statement rest ih =>
    rw [runBody] at h
    split at h
    next next hstep =>
      rw [ih h fun y hy => hx y (List.mem_cons_of_mem statement hy)]
      exact Statement.value_of_step hstep (hx statement List.mem_cons_self)
    next => cases h

/-- Code traps at a statement: those before it are done, and it has no next state. -/
structure StopsAt (s : State) (code : List Statement) (position : Nat) (statement : Statement)
    (t : State) : Prop where
  found : code[position]? = some statement
  before : runBody s (code.take position) = .ok t
  trap : statement.step t = .error .trap

namespace StopsAt

variable {s t u : State} {code : List Statement} {position : Nat} {statement : Statement}

theorem head (h : statement.step s = .error .trap) (rest : List Statement) :
    StopsAt s (statement :: rest) 0 statement s := ⟨rfl, rfl, h⟩

theorem length_lt (h : StopsAt s code position statement t) : position < code.length :=
  (List.getElem?_eq_some_iff.mp h.found).1

theorem append (h : StopsAt s code position statement t) (rest : List Statement) :
    StopsAt s (code ++ rest) position statement t := by
  have hp := h.length_lt
  refine ⟨?_, ?_, h.trap⟩
  · rw [List.getElem?_append_left hp, h.found]
  · rw [List.take_append_of_le_length (Nat.le_of_lt hp), h.before]

theorem after (h : StopsAt t code position statement u) {done : List Statement}
    (hd : runBody s done = .ok t) :
    StopsAt s (done ++ code) (done.length + position) statement u := by
  refine ⟨?_, ?_, h.trap⟩
  · rw [List.getElem?_append_right (by omega), Nat.add_sub_cancel_left, h.found]
  · rw [List.take_length_add_append, runBody_append_of_ok hd, h.before]

theorem runBody_eq (h : StopsAt s code position statement t) :
    runBody s code = .error (.trap, t) := by
  have hp := h.length_lt
  have hx : code[position] = statement := (List.getElem?_eq_some_iff.mp h.found).2
  rw [← List.take_append_drop position code, runBody_append_of_ok h.before,
    List.drop_eq_getElem_cons hp, hx]
  simp [runBody, h.trap]

end StopsAt

/-- The block that is to be run next. -/
def Next.block? : Next → Option BlockId
  | goto block _ => some block
  | returned _ | halted _ _ => none

namespace Function

variable (f : Function)

/-- Where execution stands after a number of blocks, unless it ends before. -/
def after : Nat → Next → Next
  | blocks + 1, .goto block s => after blocks (f.step s block)
  | _, next => next

@[simp] theorem after_zero (next : Next) : f.after 0 next = next := by
  cases next <;> rfl

theorem after_goto (blocks : Nat) (block : BlockId) (s : State) :
    f.after (blocks + 1) (.goto block s) = f.after blocks (f.step s block) := rfl

theorem after_returned (blocks : Nat) (s : State) :
    f.after blocks (.returned s) = .returned s := by
  cases blocks <;> rfl

theorem after_halted (blocks : Nat) (fault : Fault) (s : State) :
    f.after blocks (.halted fault s) = .halted fault s := by
  cases blocks <;> rfl

theorem after_add (m n : Nat) (next : Next) :
    f.after (m + n) next = f.after n (f.after m next) := by
  induction m generalizing next with
  | zero => simp
  | succ m ih =>
    cases next with
    | goto block s =>
      rw [Nat.add_right_comm]
      exact ih (f.step s block)
    | returned s => simp only [after_returned]
    | halted fault s => simp only [after_halted]

theorem after_succ (blocks : Nat) (next : Next) :
    f.after (blocks + 1) next = f.after 1 (f.after blocks next) := f.after_add blocks 1 next

theorem step_of_runBody {s t : State} {block : BlockId} {b : Block}
    (hb : f.blocks[block]? = some b) (ht : runBody s b.body = .ok t) :
    f.step s block = f.follow t b.exit := by
  simp only [step, hb, ht]

/-- A run can be cut after any number of blocks. -/
theorem run_add (m n : Nat) (next : Next) : f.run (m + n) next = f.run n (f.after m next) := by
  induction m generalizing next with
  | zero => simp
  | succ m ih =>
    cases next with
    | goto block s =>
      rw [Nat.add_right_comm]
      exact ih (f.step s block)
    | returned s => simp only [after_returned, run]
    | halted fault s =>
      rw [after_halted]
      cases fault <;> simp only [run]

/-- How a run ends is told by where it stands after all blocks that it is allowed. -/
theorem run_eq_run_zero (limit : Nat) (next : Next) :
    f.run limit next = f.run 0 (f.after limit next) := f.run_add limit 0 next

/-- How often a run enters a block, within a number of blocks. -/
def visits (block : BlockId) : Nat → Next → Nat
  | blocks + 1, .goto entered s =>
    (if entered = block then 1 else 0) + visits block blocks (f.step s entered)
  | _, _ => 0

theorem visits_zero (block : BlockId) (next : Next) : f.visits block 0 next = 0 := by
  cases next <;> rfl

theorem visits_succ (block : BlockId) (blocks : Nat) (next : Next) :
    f.visits block (blocks + 1) next =
      f.visits block blocks next +
        if (f.after blocks next).block? = some block then 1 else 0 := by
  induction blocks generalizing next with
  | zero =>
    cases next with
    | goto entered s => simp [visits, Next.block?]
    | returned s => rfl
    | halted fault s => rfl
  | succ blocks ih =>
    cases next with
    | goto entered s => rw [visits, ih, visits, after_goto, Nat.add_assoc]
    | returned s => simp [visits, after_returned, Next.block?]
    | halted fault s => simp [visits, after_halted, Next.block?]

/-- A run traps at a statement of a block: it has run a number of blocks and then stands in this
one, whose code stops there. -/
structure TrapsAt (start : Next) (blocks : Nat) (block : BlockId) (position : Nat)
    (statement : Statement) (s : State) : Prop where
  entered : ∃ t b, f.after blocks start = .goto block t ∧ f.blocks[block]? = some b ∧
    StopsAt t b.body position statement s

variable {f}

theorem TrapsAt.of_after {start next : Next} {m n position : Nat} {block : BlockId}
    {statement : Statement} {s : State} (hm : f.after m start = next)
    (h : f.TrapsAt next n block position statement s) :
    f.TrapsAt start (m + n) block position statement s := by
  obtain ⟨t, b, ht, hb, hs⟩ := h.entered
  exact ⟨t, b, by rw [after_add, hm, ht], hb, hs⟩

theorem TrapsAt.trap {start : Next} {blocks position : Nat} {block : BlockId}
    {statement : Statement} {s : State} (h : f.TrapsAt start blocks block position statement s) :
    statement.step s = .error .trap := by
  obtain ⟨_, _, _, _, hs⟩ := h.entered
  exact hs.trap

theorem TrapsAt.run_eq {start : Next} {blocks position : Nat} {block : BlockId}
    {statement : Statement} {s : State} (h : f.TrapsAt start blocks block position statement s)
    {limit : Nat} (hl : blocks < limit) : f.run limit start = .trapped s := by
  obtain ⟨t, b, ht, hb, hs⟩ := h.entered
  obtain ⟨spare, rfl⟩ := Nat.exists_eq_add_of_lt hl
  rw [Nat.add_assoc, run_add, ht, run]
  simp [step, hb, hs.runBody_eq, run]

/-- Two runs end alike: both return or both trap, and with the same memory. -/
inductive Outcome.Agrees : Outcome → Outcome → Prop
  | returned {s t : State} : s.memory = t.memory → Agrees (.returned s) (.returned t)
  | trapped {s t : State} : s.memory = t.memory → Agrees (.trapped s) (.trapped t)

end Function

end FusedKernel.Code
