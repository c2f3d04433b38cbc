import FusedKernel.Proofs.Kernel.Overlap

/-! A checked call of a pair's function on four arrays that lie anywhere in memory. If no element
lacks a value the output is what the reference evaluates to, else the call traps. -/
namespace FusedKernel

open Code

/-! ### Sizes -/

namespace Call

theorem checkLengths_eq_ok {lengths : PerBuffer Nat} (hmax : lengths.out ≤ maxSize)
    (hle : ∀ buffer ∈ inputs, lengths.out ≤ lengths.get buffer) :
    checkLengths lengths = .ok (BitVec.ofNat 32 lengths.out) := by
  have hnone : (inputs.find? fun buffer => lengths.get buffer < lengths.out) = none :=
    List.find?_eq_none.mpr fun buffer hb => by simpa using hle buffer hb
  rw [checkLengths, if_neg (Nat.not_lt.mpr hmax), hnone]

theorem count_ofNat {n : Nat} (hn : n ≤ maxSize) : Emission.count (BitVec.ofNat 32 n) = n := by
  unfold maxSize at hn
  rw [Emission.count, BitVec.toInt_ofNat', Int.bmod_eq_of_le (by omega) (by omega),
    Int.toNat_natCast]

/-! ### Arrays in memory -/

/-- Four arrays in memory: their first cells and their lengths. The output has its cells to
itself. -/
structure Slices where
  base : Buffer → BitVec 64
  lengths : PerBuffer Nat
  fits : ∀ buffer, (base buffer).toNat + cellBytes * lengths.get buffer ≤ AddressWidth.bits64.space
  apart : ∀ buffer ∈ inputs, ∀ i < lengths.get buffer, ∀ j < lengths.out,
    (base buffer).toNat + cellBytes * i ≠ (base .out).toNat + cellBytes * j

namespace Slices

/-- The address of an element. -/
def cell (x : Slices) (i : Nat) (buffer : Buffer) : Address :=
  (x.base buffer).toNat + cellBytes * i

/-- The array that memory holds for a buffer. -/
def array (x : Slices) (m : Memory) (buffer : Buffer) : Array Word :=
  m.readArray (x.base buffer).toNat (x.lengths.get buffer)

@[simp] theorem size_array (x : Slices) (m : Memory) (buffer : Buffer) :
    (x.array m buffer).size = x.lengths.get buffer := Memory.size_readArray _ _ _

theorem getElem_array (x : Slices) (m : Memory) (buffer : Buffer) {i : Nat}
    (hi : i < (x.array m buffer).size) : (x.array m buffer)[i] = m.read (x.cell i buffer) :=
  Array.getElem_ofFn _

/-- How many elements a call is for. -/
def size (x : Slices) : Nat := x.lengths.out

/-- A checked call of a function on the arrays. -/
def call (x : Slices) (f : Function) (m : Memory) : Except CallError (CallResult Memory) :=
  checkedAt f x.base x.lengths m

/-- The size of a call can be expressed, and no input is shorter. -/
structure Accepted (x : Slices) : Prop where
  size_le : x.size ≤ maxSize
  le_length : ∀ buffer ∈ inputs, x.size ≤ x.lengths.get buffer

variable {x : Slices}

theorem Accepted.size_le_length (h : x.Accepted) (buffer : Buffer) :
    x.size ≤ x.lengths.get buffer := by
  cases buffer with
  | out => exact Nat.le_refl _
  | a | b | c => exact h.le_length _ (by decide)

theorem Accepted.elementAddress_eq (h : x.Accepted) {i : Nat} (hi : i < x.size) :
    Program.elementAddress AddressWidth.bits64.space (fun buffer => (x.base buffer).toNat) i =
      x.cell i := by
  funext buffer
  have hl := h.size_le_length buffer
  have hf := x.fits buffer
  have hlt : (x.base buffer).toNat + cellBytes * i < AddressWidth.bits64.space := by
    unfold cellBytes at hf ⊢
    omega
  exact Nat.mod_eq_of_lt hlt

/-- The output is apart from the inputs, and its own elements are apart. -/
theorem Accepted.settled (h : x.Accepted) : OperatorPair.Settled x.cell x.size := by
  intro k i buffer hki hi
  by_cases hb : buffer ∈ inputs
  · exact Ne.symm (x.apart buffer hb i (Nat.lt_of_lt_of_le hi (h.le_length buffer hb)) k
      (Nat.lt_trans hki hi))
  · cases buffer with
    | out =>
      intro heq
      exact Nat.ne_of_lt hki (Nat.eq_of_mul_eq_mul_left (by decide) (Nat.add_left_cancel heq))
    | a | b | c => exact absurd (by decide) hb

end Slices

open Slices

/-- A call of a pair's function fills the output, or traps at the first element without value. -/
theorem call_toFunction {x : Slices} (h : x.Accepted) (ops : OperatorPair) (number : Nat)
    (m : Memory) :
    (∃ after, x.call (ops.toFunction number) m = .ok (.returned after) ∧
      ops.Filled x.cell 0 x.size m after) ∨
    ∃ i after, x.call (ops.toFunction number) m = .ok (.trapped after) ∧ i < x.size ∧
      ops.valueAt (x.cell i) m = none ∧ ops.Filled x.cell 0 i m after := by
  have hcount : Emission.count (BitVec.ofNat 32 x.lengths.out) = x.size := count_ofNat h.size_le
  have hsettled : OperatorPair.Settled x.cell (Emission.count (BitVec.ofNat 32 x.lengths.out)) :=
    hcount.symm ▸ h.settled
  have hraw := ops.callRaw_of_settled number
    (fun i hi => h.elementAddress_eq (Nat.lt_of_lt_of_eq hi hcount)) hsettled m
  rw [hcount] at hraw
  rw [Slices.call, checkedAt, checkLengths_eq_ok h.size_le h.le_length]
  exact hraw.imp (fun ⟨after, hcall, hf⟩ => ⟨after, congrArg Except.ok hcall, hf⟩)
    fun ⟨i, after, hcall, hrest⟩ => ⟨i, after, congrArg Except.ok hcall, hrest⟩

/-! ### What a function computes -/

/-- A function computes a pair: a checked call on arrays that it accepts, of which none of the
elements to be done lacks a value, returns with the output as the reference has it and the inputs as
they were; a call traps if and only if one of these elements lacks a value. -/
structure Computes (f : Function) (ops : OperatorPair) : Prop where
  returns : ∀ (x : Slices) (m : Memory), x.Accepted →
    (∀ i < x.size, (ops.valueAt (x.cell i) m).isSome) →
    ∃ after, x.call f m = .ok (.returned after) ∧
      ops.reference ((x.array m .a).extract 0 x.size) (x.array m .b) (x.array m .c) =
        .ok (x.array after .out) ∧
      ∀ buffer ∈ inputs, x.array after buffer = x.array m buffer
  traps_iff : ∀ (x : Slices) (m : Memory), x.Accepted →
    ((∃ after, x.call f m = .ok (.trapped after)) ↔
      ∃ i < x.size, ops.valueAt (x.cell i) m = none)

variable {x : Slices} {ops : OperatorPair} {m after : Memory}

/-- A filled output is what the reference evaluates to. -/
theorem reference_of_filled (h : x.Accepted) (hf : ops.Filled x.cell 0 x.size m after) :
    ops.reference ((x.array m .a).extract 0 x.size) (x.array m .b) (x.array m .c) =
      .ok (x.array after .out) := by
  have hsize : ((x.array m .a).extract 0 x.size).size = x.size := by
    simpa using Nat.min_eq_left (h.size_le_length .a)
  refine OperatorPair.reference_eq_ok ?_ ?_ ?_ fun i hi => ?_
  · rw [hsize, size_array]
    exact h.size_le_length .b
  · rw [hsize, size_array]
    exact h.size_le_length .c
  · rw [hsize, size_array]
    rfl
  · simp only [Array.getElem_extract, getElem_array, Nat.zero_add]
    exact hf.value i (Nat.zero_le i) (hsize ▸ hi)

/-- Only values that are all there have a reference. -/
theorem isSome_of_reference (h : x.Accepted) {values : Array Word}
    (href : ops.reference ((x.array m .a).extract 0 x.size) (x.array m .b) (x.array m .c) =
      .ok values) {i : Nat} (hi : i < x.size) : (ops.valueAt (x.cell i) m).isSome := by
  have hl : ∀ buffer, i < (x.array m buffer).size := fun buffer => by
    rw [size_array]
    exact Nat.lt_of_lt_of_le hi (h.size_le_length buffer)
  have hget : ∀ buffer, (x.array m buffer)[i]? = some (m.read (x.cell i buffer)) := fun buffer => by
    rw [Array.getElem?_eq_getElem (hl buffer), getElem_array]
  have ha : ((x.array m .a).extract 0 x.size)[i]? = some (m.read (x.cell i .a)) := by
    rw [Array.getElem?_extract, Nat.sub_zero, if_pos (Nat.lt_min.mpr ⟨hi, hl .a⟩), Nat.zero_add,
      hget]
  exact OperatorPair.isSome_of_reference_eq_ok href ha (hget .b) (hget .c)

/-- A filled output leaves the inputs as they were. -/
theorem array_of_filled (hf : ops.Filled x.cell 0 x.size m after) {buffer : Buffer}
    (hb : buffer ∈ inputs) : x.array after buffer = x.array m buffer := by
  apply Array.ext
  · simp only [size_array]
  · intro i hi _
    rw [getElem_array, getElem_array]
    rw [size_array] at hi
    exact hf.frame _ fun k _ hk => Ne.symm (x.apart buffer hb i hi k hk)

/-- The function of a pair computes it. -/
theorem computes_toFunction (ops : OperatorPair) (number : Nat) :
    Computes (ops.toFunction number) ops where
  returns x m h hsome := by
    obtain ⟨after, hcall, hf⟩ | ⟨i, after, -, hi, hnone, -⟩ := call_toFunction h ops number m
    · exact ⟨after, hcall, reference_of_filled h hf, fun buffer => array_of_filled hf⟩
    · have hs := hsome i hi
      rw [hnone] at hs
      cases hs
  traps_iff x m h := by
    obtain ⟨after, hcall, hf⟩ | ⟨i, after, hcall, hi, hnone, -⟩ := call_toFunction h ops number m
    · constructor
      · rintro ⟨after', htrap⟩
        rw [hcall] at htrap
        cases htrap
      · rintro ⟨i, hi, hnone⟩
        rw [hf.value i (Nat.zero_le i) hi] at hnone
        cases hnone
    · exact ⟨fun _ => ⟨i, hi, hnone⟩, fun _ => ⟨after, hcall⟩⟩

end Call

end FusedKernel
