import Mathlib.Tactic.Common
import FusedKernel.Proofs.Kernel.Simulation
import FusedKernel.Proofs.Kernel.WellFormed

/-! How often the loop of a program's function goes round, and its index and byte offset on the way.
The invariant tells where a run stands by how often it has entered the condition and the body: the
index is the number of times that the condition was entered before. -/
namespace FusedKernel

open Code

namespace Code.Function

variable {f : Function}

theorem enter_cases (s : State) (target : BlockId) (args : List Scalar) :
    (∃ t, f.enter s target args = .goto target t) ∨
      f.enter s target args = .halted .illFormed s := by
  unfold enter
  cases f.blocks[target]? with
  | none => exact .inr rfl
  | some block =>
    cases hargs : s.bindAll block.params args with
    | none => exact .inr (by simp only [hargs])
    | some t => exact .inl ⟨t, by simp only [hargs]⟩

end Code.Function

namespace Emission

variable {P : Access → Prop} {width : AddressWidth} {p : Program} {number : Nat} {size : Word}
  {base : Buffer → BitVec width.bits} {i conditions bodies : Nat} {s t : State} {next : Next}

/-! ### Where a run stands -/

/-- Where a run of a program's function stands after it has entered the condition and the body a
number of times each. -/
inductive Progress (p : Program) (number : Nat) (size : Word) (base : Buffer → BitVec width.bits) :
    Nat → Nat → Next → Prop
  | entry {s t : State} : (p.toFunction width number).step s 0 = .goto conditionBlock t →
    AtIndex width size base 0 t → Progress p number size base 0 0 (.goto 0 s)
  | condition {i : Nat} {s : State} : i ≤ count size → AtIndex width size base i s →
    Progress p number size base i i (.goto conditionBlock s)
  | body {i : Nat} {s : State} : i < count size → AtIndex width size base i s →
    Progress p number size base (i + 1) i (.goto bodyBlock s)
  | exit {s : State} :
    Progress p number size base (count size + 1) (count size) (.goto exitBlock s)
  | returned {s : State} :
    Progress p number size base (count size + 1) (count size) (.returned s)
  | trapped {i : Nat} {s : State} : i < count size →
    Progress p number size base (i + 1) (i + 1) (.halted .trap s)

theorem progress_step_condition (hi : i ≤ count size) (h : AtIndex width size base i s) :
    Progress p number size base (i + 1) i
      ((p.toFunction width number).step s conditionBlock) := by
  obtain hlt | rfl := Nat.lt_or_eq_of_le hi
  · obtain ⟨t, ht, hat, -, -⟩ := step_condition (P := fun _ => True) (p := p) number h hlt
    rw [ht]
    exact .body hlt hat
  · obtain ⟨t, ht, -, -⟩ := step_condition_size (P := fun _ => True) (p := p) number h
    rw [ht]
    exact .exit

/-- The body leads back to the condition for the next index, unless it traps. -/
theorem progress_step_body (hi : i < count size) (h : AtIndex width size base i s) :
    Progress p number size base (i + 1) (i + 1)
      ((p.toFunction width number).step s bodyBlock) := by
  have hP : ∀ a ∈ p.assignments, Accesses (fun _ => True) (cell base i) a :=
    fun a _ => accesses_true _ a
  cases hm : Program.assignAll (cell base i) i 0 p.assignments s.memory with
  | ok m =>
    obtain ⟨t, ht, hat, -, -⟩ := step_body number h hi hP hm
    rw [ht]
    exact .condition hi hat
  | error hazard =>
    obtain ⟨statement, t, ht, -, -, -, -⟩ := stopsAt_body h hi hP hm
    have hstep : (p.toFunction width number).step s bodyBlock = .halted .trap t := by
      simp [Function.step, bodyBlock, ht.runBody_eq]
    rw [hstep]
    exact .trapped hi

theorem Progress.after_one (h : Progress p number size base conditions bodies next) :
    Progress p number size base
      (conditions + if next.block? = some conditionBlock then 1 else 0)
      (bodies + if next.block? = some bodyBlock then 1 else 0)
      ((p.toFunction width number).after 1 next) := by
  cases h with
  | @entry s t hstep hat =>
    rw [Function.after_goto, hstep, Function.after_zero]
    exact .condition (Nat.zero_le _) hat
  | condition hi hat =>
    rw [Function.after_goto, Function.after_zero]
    exact progress_step_condition hi hat
  | body hi hat =>
    rw [Function.after_goto, Function.after_zero]
    exact progress_step_body hi hat
  | exit =>
    rw [Function.after_goto, step_exit, Function.after_zero]
    exact .returned
  | returned => exact .returned
  | trapped hi => exact .trapped hi

theorem progress_start (p : Program) (number : Nat) (size : Word)
    (base : Buffer → BitVec width.bits) (m : Memory) :
    Progress p number size base 0 0
      ((p.toFunction width number).start (Function.callArguments width size base) m) := by
  obtain ⟨t, ht, hat, -, -⟩ := after_start (P := fun _ => True) p number size base m
  obtain ⟨s, hs⟩ | hs := (p.toFunction width number).enter_cases ⟨∅, m, []⟩ 0
    (Function.callArguments width size base) <;> rw [Function.start, hs] at ht ⊢
  · rw [Function.after_goto, Function.after_zero] at ht
    exact .entry ht hat
  · cases ht

/-- Where a run stands after any number of blocks. -/
theorem progress_after (p : Program) (number : Nat) (size : Word)
    (base : Buffer → BitVec width.bits) (m : Memory) (blocks : Nat) :
    let f := p.toFunction width number
    let start := f.start (Function.callArguments width size base) m
    Progress p number size base (f.visits conditionBlock blocks start)
      (f.visits bodyBlock blocks start) (f.after blocks start) := by
  intro f start
  induction blocks with
  | zero =>
    rw [Function.visits_zero, Function.visits_zero, Function.after_zero]
    exact progress_start p number size base m
  | succ blocks ih =>
    rw [Function.visits_succ, Function.visits_succ, Function.after_succ]
    exact ih.after_one

/-- At the condition, the index is the number of times that it was entered before. -/
theorem Progress.of_condition
    (h : Progress p number size base conditions bodies (.goto conditionBlock s)) :
    conditions ≤ count size ∧ AtIndex width size base conditions s := by
  generalize hn : Next.goto conditionBlock s = next at h
  cases h with
  | condition hi hat => cases hn; exact ⟨hi, hat⟩
  | entry | body | exit => cases hn
  | returned | trapped => cases hn

theorem Progress.of_body
    (h : Progress p number size base conditions bodies (.goto bodyBlock s)) :
    bodies < count size ∧ AtIndex width size base bodies s := by
  generalize hn : Next.goto bodyBlock s = next at h
  cases h with
  | body hi hat => cases hn; exact ⟨hi, hat⟩
  | entry | condition | exit => cases hn
  | returned | trapped => cases hn

/-! ### Inside the body -/

theorem toNat_offset (width : AddressWidth) (i : Nat) :
    (BitVec.ofNat width.bits i * BitVec.ofInt width.bits 4).toNat = 4 * i % width.space := by
  simpa [cellBytes] using add_offset_toNat width 0 i

/-- The body leaves the index alone. -/
theorem value_index_body {position : Nat}
    (ht : runBody s ((bodyCode width p).body.take position) = .ok t) :
    t.value index = s.value index := by
  refine value_of_runBody ht fun statement hs d hd => ?_
  have hle := (checked_bodyCode width p).le_of_mem_defined? (List.mem_of_mem_take hs) hd
  exact Nat.ne_of_gt (Nat.lt_of_lt_of_le (by decide) hle)

/-- Once the byte offset is computed, the body leaves it alone. -/
theorem value_offset_body (h : AtIndex width size base i s) (hi : i < count size) {position : Nat}
    (hp : (offsetCode width).length ≤ position)
    (ht : runBody s ((bodyCode width p).body.take position) = .ok t) :
    t.value (offset width) =
      .ok (width.pointer (BitVec.ofNat width.bits i * BitVec.ofInt width.bits 4)) := by
  obtain ⟨u, hu, -, -, hv⟩ :=
    value_offsetCode (P := fun _ => True) h (Nat.lt_trans hi (count_lt size))
  rw [bodyCode, List.take_append, List.take_of_length_le hp, runBody_append_of_ok hu] at ht
  rw [← hv]
  refine value_of_runBody ht fun statement hs d hd => ?_
  have hle := (checked_elementCode width p).le_of_mem_defined? (List.mem_of_mem_take hs) hd
  rw [length_outerKinds] at hle
  exact Nat.ne_of_gt hle

/-- What is counted in the body for an element by its number. However much of the body has run, the
index is that number, and advancing it by one does not wrap around; the byte offset, which is
computed first, is four times the number. Narrow addresses cut it down, wide ones do not. -/
structure Counted (width : AddressWidth) (code : List Statement) (k : Nat) (s : State) : Prop where
  index : ∀ position t, runBody s (code.take position) = .ok t →
    ∃ w next : Word, t.value index = .ok (.word w) ∧ w.toInt = k ∧
      (Definition.addImm .i32 Emission.index 1).eval t = .ok (.word next) ∧ next.toInt = k + 1
  computed : ∃ t, runBody s (code.take (offsetCode width).length) = .ok t
  offset : ∀ position t, (offsetCode width).length ≤ position →
    runBody s (code.take position) = .ok t →
    ∃ q, t.value (offset width) = .ok (width.pointer q) ∧ q.toNat = 4 * k % width.space ∧
      (width = .bits64 → q.toNat = 4 * k)

theorem AtIndex.counted (h : AtIndex width size base i s) (hi : i < count size) :
    Counted width (bodyCode width p).body i s where
  index position t ht := by
    have hindex : t.value Emission.index = .ok (.word (BitVec.ofNat 32 i)) := by
      rw [value_index_body ht, h.index]
    refine ⟨_, BitVec.ofNat 32 (i + 1), hindex, toInt_index (Nat.le_of_lt hi), ?_, toInt_index hi⟩
    simp only [Definition.eval, hindex, BitVec.ofNat_add]
    rfl
  computed := by
    obtain ⟨t, ht, -⟩ := value_offsetCode (P := fun _ => True) h (Nat.lt_trans hi (count_lt size))
    refine ⟨t, ?_⟩
    rw [bodyCode, List.take_left]
    exact ht
  offset position t hp ht := by
    refine ⟨_, value_offset_body h hi hp ht, toNat_offset width i, fun hw => ?_⟩
    have hc := count_lt size
    have hspace : AddressWidth.bits64.space = 0x10000000000000000 := rfl
    rw [toNat_offset, hw, hspace, Nat.mod_eq_of_lt (by omega)]

theorem coe_count (size : Word) : (count size : Int) = max size.toInt 0 := Int.ofNat_toNat _

end Emission

namespace Program

open Emission

/-- A run of a program's function comes to an end. If it does not trap, it has entered the condition
once more than there are elements, and the body once for each of them. Whenever the condition is
entered, the index is the number of times that it was before, and no greater than the size; whenever
the body is, so are the index and the byte offset that it works with. -/
theorem iterations_toFunction (p : Program) (width : AddressWidth) (number : Nat) (size : Word)
    (base : Buffer → BitVec width.bits) (m : Memory) :
    let f := p.toFunction width number
    let start := f.start (Function.callArguments width size base) m
    (∀ spare, let limit := Function.blockLimit size + spare
      match f.run limit start with
      | .returned _ => (f.visits conditionBlock limit start : Int) = max size.toInt 0 + 1 ∧
          (f.visits bodyBlock limit start : Int) = max size.toInt 0
      | .trapped _ => f.visits conditionBlock limit start = f.visits bodyBlock limit start ∧
          (f.visits bodyBlock limit start : Int) ≤ max size.toInt 0
      | .illFormed | .unfinished => False) ∧
    (∀ blocks s, f.after blocks start = .goto conditionBlock s →
      ∃ w : Word, s.value index = .ok (.word w) ∧
        w.toInt = f.visits conditionBlock blocks start ∧ 0 ≤ w.toInt ∧
        w.toInt ≤ max size.toInt 0) ∧
    ∀ blocks s, f.after blocks start = .goto bodyBlock s →
      ∃ b, f.blocks[bodyBlock]? = some b ∧
        b.body.getLast? = some (.define (following width p) (.addImm .i32 index 1)) ∧
        Counted width b.body (f.visits bodyBlock blocks start) s := by
  intro f start
  have hprogress := progress_after p number size base m
  refine ⟨fun spare => ?_, fun blocks s hs => ?_, fun blocks s hs => ?_⟩
  · intro limit
    obtain ⟨s, -, hend⟩ := p.exists_call_eq number size base m fun _ _ a _ => accesses_true _ a
    have hrun : f.run limit start = .returned s ∨ f.run limit start = .trapped s :=
      hend.imp (fun h => h spare) (fun h => h spare)
    have hlimit : Progress p number size base (f.visits conditionBlock limit start)
        (f.visits bodyBlock limit start) (f.after limit start) := hprogress limit
    rw [Function.run_eq_run_zero] at hrun ⊢
    generalize f.visits conditionBlock limit start = conditions at hlimit ⊢
    generalize f.visits bodyBlock limit start = bodies at hlimit ⊢
    generalize f.after limit start = next at hlimit hrun ⊢
    cases hlimit with
    | entry | condition | body | exit => simp [Function.run] at hrun
    | returned =>
      rw [Function.run, Int.natCast_add, coe_count]
      exact ⟨rfl, rfl⟩
    | trapped hi =>
      rw [Function.run, ← coe_count]
      exact ⟨rfl, Int.ofNat_le.mpr hi⟩
  · have hcondition : Progress p number size base (f.visits conditionBlock blocks start)
        (f.visits bodyBlock blocks start) (.goto conditionBlock s) := hs ▸ hprogress blocks
    obtain ⟨hi, hat⟩ := hcondition.of_condition
    have hindex := toInt_index hi
    rw [← coe_count]
    exact ⟨_, hat.index, hindex, by omega, by omega⟩
  · have hbody : Progress p number size base (f.visits conditionBlock blocks start)
        (f.visits bodyBlock blocks start) (.goto bodyBlock s) := hs ▸ hprogress blocks
    obtain ⟨hi, hat⟩ := hbody.of_body
    refine ⟨bodyCode width p, by simp [f, bodyBlock], ?_, hat.counted hi⟩
    rw [bodyCode, ← List.append_assoc, List.getLast?_concat]

end Program

end FusedKernel
