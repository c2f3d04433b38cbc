import Mathlib.Tactic.Common
import FusedKernel.Proofs.Kernel.Footprint
import FusedKernel.Proofs.Kernel.Fused

/-! Raw calls of a pair's function in place. The output may lie over the inputs as long as none of
these starts before it: then every cell is read before it is written, and the call computes on the
contents that memory had before. -/
namespace FusedKernel.OperatorPair

open Code Emission

variable {base : Buffer → BitVec 64} {size : Word}

/-- Where no element of the output is read or written again later, a raw call fills the output with
the values on the memory before, or up to the first element that has none. -/
theorem callRaw_of_settled (ops : OperatorPair) (number : Nat) {cell : Nat → Buffer → Address}
    (hc : ∀ i < count size, @Emission.cell .bits64 base i = cell i)
    (hs : Settled cell (count size)) (m : Memory) :
    (∃ after, ((ops.toFunction number).callRaw size base m).memory = .returned after ∧
      ops.Filled cell 0 (count size) m after) ∨
    ∃ i after, ((ops.toFunction number).callRaw size base m).memory = .trapped after ∧
      i < count size ∧ ops.valueAt (cell i) m = none ∧ ops.Filled cell 0 i m after := by
  have hcall := ops.program.memory_callRaw number size base m
  have hloop := ops.elementsFrom_program hc hs (Nat.le_of_eq (Nat.zero_add (count size))) m
  rw [Nat.zero_add] at hloop
  split at hloop
  next after hok =>
    have hrun : @Program.run .bits64 ops.program base size m = .ok after := hok
    rw [hrun] at hcall
    exact .inl ⟨after, hcall, hloop⟩
  next hazard herror =>
    have hrun : @Program.run .bits64 ops.program base size m = .error hazard := herror
    rw [hrun] at hcall
    obtain ⟨-, hi, hnone, hfilled⟩ := hloop
    exact .inr ⟨hazard.element, hazard.memory, hcall, hi, hnone, hfilled⟩

/-- Each input is apart from the output, or does not start before it. -/
def ReadsAhead (base : Buffer → BitVec 64) (size : Word) : Prop :=
  ∀ buffer ∈ Call.inputs,
    (∀ i j : Nat, (i : Int) < size.toInt → (j : Int) < size.toInt →
      (base buffer).toNat + cellBytes * i ≠ (base .out).toNat + cellBytes * j) ∨
    (base .out).toNat ≤ (base buffer).toNat

/-- An element of the output is no cell of a later element. -/
theorem ReadsAhead.settled (h : ReadsAhead base size) :
    Settled (fun i buffer => (base buffer).toNat + cellBytes * i) (count size) := by
  intro k i buffer hki hi
  have hlt := lt_toInt_of_lt_count hi
  -- what starts at the output or behind it is ahead of the elements done so far
  have hout : ∀ start : Nat, (base .out).toNat ≤ start →
      (base .out).toNat + cellBytes * k ≠ start + cellBytes * i := by
    unfold cellBytes
    omega
  by_cases hb : buffer ∈ Call.inputs
  · obtain hapart | hle := h buffer hb
    · exact Ne.symm (hapart i k hlt (by omega))
    · exact hout _ hle
  · cases buffer with
    | out => exact hout _ (Nat.le_refl _)
    | a | b | c => exact absurd (by decide) hb

/-- A raw call in place computes as if it read a snapshot. If no element lacks a value on the
contents before the call, it returns with all of these values in the output; it traps if and only if
some element lacks one. -/
theorem snapshot_callRaw (ops : OperatorPair) (number : Nat) (size : Word)
    (base : Buffer → BitVec 64) (m : Memory) (hfit : FitsSpace base size)
    (hahead : ReadsAhead base size) :
    let result := ((ops.toFunction number).callRaw size base m).memory
    let cell := fun (i : Nat) (buffer : Buffer) => (base buffer).toNat + cellBytes * i
    let value := fun i => ops.apply (m.read (cell i .a)) (m.read (cell i .b)) (m.read (cell i .c))
    ((∀ i : Nat, (i : Int) < size.toInt → (value i).isSome) →
      ∃ after, result = .returned after ∧
        ∀ i : Nat, (i : Int) < size.toInt → value i = some (after.read (cell i .out))) ∧
    ((∃ after, result = .trapped after) ↔ ∃ i : Nat, (i : Int) < size.toInt ∧ value i = none) := by
  intro result cell value
  have hlt : ∀ i : Nat, (i : Int) < size.toInt → i < count size := fun i hi => by
    unfold count
    omega
  obtain ⟨after, hresult, hf⟩ | ⟨i, after, hresult, hi, hnone, -⟩ := ops.callRaw_of_settled number
    (fun i hi => funext (cell_eq hfit hi)) hahead.settled m
  · have hvalue : ∀ i : Nat, (i : Int) < size.toInt → value i = some (after.read (cell i .out)) :=
      fun i hi => hf.value i (Nat.zero_le i) (hlt i hi)
    refine ⟨fun _ => ⟨after, hresult, hvalue⟩, fun ⟨after', htrap⟩ => ?_, fun ⟨i, hi, hnone⟩ => ?_⟩
    · cases hresult.symm.trans htrap
    · cases (hvalue i hi).symm.trans hnone
  · have hi := lt_toInt_of_lt_count hi
    have hnone : value i = none := hnone
    refine ⟨fun hsome => ?_, fun _ => ⟨i, hi, hnone⟩, fun _ => ⟨after, hresult⟩⟩
    have h := hsome i hi
    rw [hnone] at h
    cases h

/-- The output lies over the first input, and the second input is the first one without its first
element. -/
theorem snapshot_callRaw_shifted :
    let base : Buffer → BitVec 64
      | .a | .out => 0x1000
      | .b => 0x1004
      | .c => 0x2000
    let m := Memory.ofContents fun address => BitVec.ofNat 32 (address % 0x1000 / 4 + 6)
    FitsSpace base 2#32 ∧ ReadsAhead base 2#32 ∧
    ∃ after, ((OperatorPair.toFunction ⟨.multiply, .minus⟩ 0).callRaw 2#32 base m).memory =
        .returned after ∧ after.read 0x1000 = 36 ∧ after.read 0x1004 = 49 := by
  intro base m
  have hfit : FitsSpace base 2#32 := fun _ buffer => by cases buffer <;> decide
  have hahead : ReadsAhead base 2#32 := by
    intro buffer hb
    cases buffer with
    | a | b | out => exact .inr (by decide)
    | c =>
      refine .inl fun i j hi hj => ?_
      have hi : (i : Int) < 2 := hi
      have hj : (j : Int) < 2 := hj
      change 0x2000 + 4 * i ≠ 0x1000 + 4 * j
      omega
  obtain ⟨after, hresult, hvalue⟩ :=
    (snapshot_callRaw ⟨.multiply, .minus⟩ 0 2#32 base m hfit hahead).1 fun _ _ => rfl
  have hfirst : some (m.read 0x1000 * m.read 0x1004 - m.read 0x2000) = some (after.read 0x1000) :=
    hvalue 0 (by decide)
  have hsecond : some (m.read 0x1004 * m.read 0x1008 - m.read 0x2004) = some (after.read 0x1004) :=
    hvalue 1 (by decide)
  simp only [m, Memory.read_ofContents] at hfirst hsecond
  exact ⟨hfit, hahead, after, hresult, (Option.some.inj hfirst).symm,
    (Option.some.inj hsecond).symm⟩

end FusedKernel.OperatorPair
