import Mathlib.Tactic.Common
import FusedKernel.Kernel.Pair
import FusedKernel.Proofs.Code.Recording
import FusedKernel.Proofs.Kernel.Simulation

/-! What a raw call of a pair's function touches in memory: the elements below the size, of which it
loads those of the inputs and stores those of the output. All other cells keep their contents. -/
namespace FusedKernel

open Code Emission

/-- A raw call comes to an end, and until then its accesses are those of its elements. -/
theorem Program.exists_callRaw_eq {P : Access → Prop} (p : Program) (number : Nat) (size : Word)
    (base : Buffer → BitVec AddressWidth.bits64.bits) (m : Memory)
    (hP : ∀ i < count size, ∀ a ∈ p.assignments, Accesses P (cell base i) a) :
    ∃ s, ((p.toFunction .bits64 number).callRaw size base m = .returned s ∨
        (p.toFunction .bits64 number).callRaw size base m = .trapped s) ∧
      ∀ a ∈ s.accesses, P a := by
  obtain ⟨s, hs, hcall⟩ := p.exists_call_eq number size base m hP
  exact ⟨s, hcall.imp (fun h => h 0) (fun h => h 0), hs⟩

namespace OperatorPair

/-- The accesses that are allowed to a call on a size: loads of the inputs' elements and stores of
the output's, where each buffer starts at an address. -/
inductive Footprint (base : Buffer → BitVec 64) (size : Word) : Access → Prop
  | load {buffer : Buffer} {i : Nat} : buffer ∈ Call.inputs → (i : Int) < size.toInt →
    Footprint base size (.load ((base buffer).toNat + cellBytes * i))
  | store {i : Nat} : (i : Int) < size.toInt →
    Footprint base size (.store ((base .out).toNat + cellBytes * i))

/-- The elements below a size do not wrap around the address space. A size that is not positive has
no elements. -/
def FitsSpace (base : Buffer → BitVec 64) (size : Word) : Prop :=
  0 < size.toInt → ∀ buffer,
    (base buffer).toNat + cellBytes * size.toInt.toNat ≤ AddressWidth.bits64.space

variable {base : Buffer → BitVec 64} {size : Word} {i : Nat} {ops : OperatorPair}

theorem lt_toInt_of_lt_count (hi : i < count size) : (i : Int) < size.toInt := by
  unfold count at hi
  omega

/-- Where buffers do not wrap around, an element's address is that of its cell. -/
theorem cell_eq (hfit : FitsSpace base size) (hi : i < count size) (buffer : Buffer) :
    @cell .bits64 base i buffer = (base buffer).toNat + cellBytes * i := by
  have hlt := lt_toInt_of_lt_count hi
  have hf := hfit (by omega) buffer
  have hcell : (base buffer).toNat + cellBytes * i < AddressWidth.bits64.space := by
    unfold cellBytes at hf ⊢
    omega
  exact Nat.mod_eq_of_lt hcell

/-- Each element of a pair's program stays within the footprint. -/
theorem accesses_program (hfit : FitsSpace base size) (hi : i < count size) {a : Assignment}
    (ha : a ∈ ops.program.assignments) :
    Accesses (Footprint base size) (@cell .bits64 base i) a := by
  have hlt := lt_toInt_of_lt_count hi
  obtain rfl : a = ⟨.out, ops.program.result⟩ := by
    simpa [program, Program.assignments] using ha
  refine ⟨fun buffer hb => ?_, ?_⟩
  · have hb : buffer ∈ Call.inputs := by simpa [program, Expr.buffers, Call.inputs] using hb
    rw [cell_eq hfit hi]
    exact .load hb hlt
  · rw [cell_eq hfit hi]
    exact .store hlt

/-- A raw call returns or traps; until then it has touched only elements below the size, and none at
all if the size is not positive. So no other cell changes at any time: not those behind the buffers,
and not those of the inputs, unless the output lies over them. -/
theorem footprint_callRaw (ops : OperatorPair) (number : Nat) (size : Word)
    (base : Buffer → BitVec 64) (m : Memory) (hfit : FitsSpace base size) :
    let f := ops.toFunction number
    let start := f.start (Function.callArguments .bits64 size base) m
    ∃ s, (f.callRaw size base m = .returned s ∨ f.callRaw size base m = .trapped s) ∧
      (∀ a ∈ s.accesses, Footprint base size a) ∧
      (size.toInt ≤ 0 → s.accesses = []) ∧
      ∀ q, (∀ i : Nat, (i : Int) < size.toInt → q ≠ (base .out).toNat + cellBytes * i) →
        s.memory.read q = m.read q ∧
        ∀ blocks, (f.after blocks start).state.memory.read q = m.read q := by
  intro f start
  obtain ⟨s, hend, hs⟩ := ops.program.exists_callRaw_eq number size base m
    fun i hi a ha => accesses_program hfit hi ha
  refine ⟨s, hend, hs, fun hsize => ?_, fun q hq => ?_⟩
  · refine List.eq_nil_iff_forall_not_mem.mpr fun a ha => ?_
    cases hs a ha with
    | load _ hi => omega
    | store hi => omega
  -- a state on the way records only stores to the output
  have hread : ∀ t : State, (⟨∅, m, []⟩ : State).Precedes t → t.Precedes s →
      t.memory.read q = m.read q := by
    intro t hbefore hafter
    refine hbefore.memory q fun hstore => ?_
    cases hs _ (hafter.accesses.mem hstore) with
    | store hi => exact hq _ hi rfl
  have hstart : (⟨∅, m, []⟩ : State).Precedes start.state := f.precedes_enter _ _ _
  exact ⟨hread s (hstart.trans (Function.precedes_of_run hend 0)) (.refl s),
    fun blocks => hread _ (hstart.trans (f.precedes_after blocks start))
      (Function.precedes_of_run hend blocks)⟩

/-- The output lies over the second elements of the inputs. The first element makes them zero, the
second one traps, and the cells around are left alone. -/
theorem footprint_callRaw_overlapping :
    let base : Buffer → BitVec 64 := fun buffer => if buffer = .out then 0x1004 else 0x1000
    let m := Memory.ofContents fun _ => 1
    let f := OperatorPair.toFunction ⟨.divide, .minus⟩ 0
    FitsSpace base 2#32 ∧
    ∃ s, (f.callRaw 2#32 base m = .returned s ∨ f.callRaw 2#32 base m = .trapped s) ∧
      (∀ a ∈ s.accesses, Footprint base 2#32 a) ∧
      s.memory.read 0x1000 = 1 ∧ s.memory.read 0x100c = 1 := by
  intro base m f
  have hfit : FitsSpace base 2#32 := fun _ buffer => by cases buffer <;> decide
  obtain ⟨s, hend, hs, -, hframe⟩ :=
    footprint_callRaw ⟨.divide, .minus⟩ 0 2#32 base m hfit
  have hkept : ∀ q : Nat, q ≠ 0x1004 → q ≠ 0x1008 → s.memory.read q = 1 := by
    intro q hfirst hsecond
    have hout : ∀ i : Nat, (i : Int) < 2 → q ≠ 0x1004 + 4 * i := by omega
    rw [(hframe q hout).1, Memory.read_ofContents]
  exact ⟨hfit, s, hend, hs, hkept _ (by decide) (by decide), hkept _ (by decide) (by decide)⟩

end OperatorPair

end FusedKernel
