import FusedKernel.Proofs.Kernel.CheckedCall

/-! A checked call on four arrays. Each array lies in a bank of its own, from which it can be read
back, so that the call is one on arrays in memory. -/
namespace FusedKernel

open Code

namespace Call

/-! ### Banks -/

theorem index_le (buffer : Buffer) : buffer.index ≤ 3 := by
  cases buffer <;> decide

theorem toNat_bankBase (buffer : Buffer) :
    (bankBase buffer).toNat = Memory.bankAddress buffer.index 0 := by
  cases buffer <;> rfl

/-- A bank holds all cells of an array. -/
def FitBanks (lengths : PerBuffer Nat) : Prop :=
  ∀ buffer, cellBytes * lengths.get buffer ≤ Memory.bankBytes

/-- Four arrays, each in its bank. -/
def Slices.inBanks (lengths : PerBuffer Nat) (h : FitBanks lengths) : Slices where
  base := bankBase
  lengths := lengths
  fits buffer := by
    have hi := index_le buffer
    have hl := h buffer
    have hspace : AddressWidth.bits64.space = 0x10000000000000000 := rfl
    rw [toNat_bankBase, hspace]
    unfold Memory.bankAddress
    unfold Memory.bankBytes at *
    omega
  apart buffer hb i hi j _ := by
    have hindex : buffer.index ≤ 2 := by
      cases buffer with
      | a | b | c => decide
      | out => exact absurd hb (by decide)
    have hl := h buffer
    have hout : Buffer.out.index = 3 := rfl
    rw [toNat_bankBase, toNat_bankBase, hout]
    unfold Memory.bankAddress
    unfold Memory.bankBytes cellBytes at *
    omega

theorem read_memoryOf {buffers : PerBuffer (Array Word)} {buffer : Buffer} {i : Nat}
    (hi : cellBytes * i < Memory.bankBytes) :
    (memoryOf buffers).read (Memory.bankAddress buffer.index i) =
      ((buffers.get buffer)[i]?).getD 0 := by
  have hdiv : Memory.bankAddress buffer.index i / Memory.bankBytes = buffer.index + 1 := by
    unfold Memory.bankAddress
    rw [Nat.mul_comm, Nat.mul_add_div (by decide), Nat.div_eq_of_lt hi, Nat.add_zero]
  have hmod : Memory.bankAddress buffer.index i % Memory.bankBytes / cellBytes = i := by
    unfold Memory.bankAddress
    rw [Nat.mul_comm, Nat.mul_add_mod, Nat.mod_eq_of_lt hi, Nat.mul_div_cancel_left i (by decide)]
  have hbank : buffers.toList[buffer.index]? = some (buffers.get buffer) := by
    cases buffer <;> rfl
  rw [memoryOf, Memory.ofBanks, Memory.read_ofContents]
  simp only [hdiv, hmod, hbank, Option.getD_some]

variable {buffers : PerBuffer (Array Word)} {lengths : PerBuffer Nat}

theorem array_memoryOf (h : FitBanks (buffers.map Array.size)) (buffer : Buffer) :
    (Slices.inBanks _ h).array (memoryOf buffers) buffer = buffers.get buffer := by
  apply Array.ext
  · exact (Slices.size_array _ _ _).trans (PerBuffer.get_map _ _ _)
  · intro i hi hi'
    have hcell : (Slices.inBanks _ h).cell i buffer = Memory.bankAddress buffer.index i := by
      rw [Slices.cell, Slices.inBanks, toNat_bankBase, Memory.bankAddress, Memory.bankAddress,
        Nat.mul_zero, Nat.add_zero]
    have hl := h buffer
    rw [PerBuffer.get_map] at hl
    rw [Slices.getElem_array, hcell, read_memoryOf (by unfold cellBytes at *; omega),
      Array.getElem?_eq_getElem hi', Option.getD_some]

theorem get_buffersOf (h : FitBanks lengths) (m : Memory) (buffer : Buffer) :
    (buffersOf lengths m).get buffer = (Slices.inBanks lengths h).array m buffer := by
  rw [buffersOf, PerBuffer.get_ofFunction, Slices.array, Slices.inBanks, toNat_bankBase]

/-- A checked call on arrays is one on arrays in memory. -/
theorem checked_eq_call (f : Function) (h : FitBanks (buffers.map Array.size)) :
    checked f buffers = ((Slices.inBanks _ h).call f (memoryOf buffers)).map
      (·.map (buffersOf (buffers.map Array.size))) := rfl

/-! ### The call on arrays -/

/-- On arrays, a function that computes a pair puts the reference result into the output, or traps
if there is none. -/
theorem Computes.checked_eq {f : Function} {ops : OperatorPair} (hf : Computes f ops)
    (hfit : FitBanks (buffers.map Array.size)) (hmax : buffers.out.size ≤ maxSize)
    (hle : ∀ buffer ∈ inputs, buffers.out.size ≤ (buffers.get buffer).size) :
    match ops.reference (buffers.a.extract 0 buffers.out.size) buffers.b buffers.c with
    | .ok values => checked f buffers = .ok (.returned { buffers with out := values })
    | .error _ => ∃ after, checked f buffers = .ok (.trapped after) := by
  have ha := fun buffer => array_memoryOf hfit buffer
  have hx : (Slices.inBanks _ hfit).Accepted :=
    ⟨hmax, fun buffer hb => by rw [Slices.inBanks, PerBuffer.get_map]; exact hle buffer hb⟩
  rw [checked_eq_call f hfit]
  by_cases hv : ∀ i < buffers.out.size,
      (ops.valueAt ((Slices.inBanks _ hfit).cell i) (memoryOf buffers)).isSome
  · obtain ⟨after, hcall, href, hin⟩ := hf.returns _ _ hx hv
    have hout : buffersOf (buffers.map Array.size) after =
        { buffers with out := (Slices.inBanks _ hfit).array after .out } := by
      apply PerBuffer.ext_get
      intro buffer
      rw [get_buffersOf hfit]
      cases buffer with
      | out => rfl
      | a | b | c => rw [hin _ (by decide), ha]; rfl
    rw [ha, ha, ha] at href
    have href : ops.reference (buffers.a.extract 0 buffers.out.size) buffers.b buffers.c =
        .ok ((Slices.inBanks _ hfit).array after .out) := href
    simp only [href, hcall, ← hout]
    rfl
  · simp only [not_forall] at hv
    obtain ⟨i, hi, hnone⟩ := hv
    have hnone := Option.not_isSome_iff_eq_none.mp hnone
    split
    next values href =>
      have hsome := isSome_of_reference hx (by rw [ha, ha, ha]; exact href) hi
      rw [hnone] at hsome
      cases hsome
    next =>
      obtain ⟨after, hcall⟩ := (hf.traps_iff _ _ hx).mpr ⟨i, hi, hnone⟩
      exact ⟨_, by rw [hcall]; rfl⟩

end Call

end FusedKernel
