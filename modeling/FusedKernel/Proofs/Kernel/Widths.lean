import Mathlib.Tactic.Common
import FusedKernel.Proofs.Kernel.Simulation

/-! Functions for narrow and for wide addresses. They compute the byte offset differently and add it
up modulo different powers of two. Both do the loop over the elements, which depends on nothing but
the addresses of the elements that it does; below the end of the narrow address space these do not
wrap around at either width. -/
namespace FusedKernel

open Code Emission

namespace Program

variable {p : Program} {size : Word} {m : Memory}

/-- The loop depends on the addresses of its elements only. -/
theorem elementsFrom_congr {space space' : Nat} {base base' : Buffer → Address} {i count : Nat}
    (h : ∀ j, i ≤ j → j < i + count →
      elementAddress space base j = elementAddress space' base' j) (m : Memory) :
    p.elementsFrom space base i count m = p.elementsFrom space' base' i count m := by
  induction count generalizing i m with
  | zero => rfl
  | succ count ih =>
    have hfirst := h i (Nat.le_refl i) (by omega)
    have hrest := ih fun j hj hlt => h j (Nat.le_of_succ_le hj) (by omega)
    simp only [elementsFrom, hfirst, hrest]

/-- Functions whose loops are the same end alike, whatever the widths of their addresses. -/
theorem agrees_of_run_eq {width width' : AddressWidth} {base : Buffer → BitVec width.bits}
    {base' : Buffer → BitVec width'.bits} (h : p.run base size m = p.run base' size m)
    (number number' spare spare' : Nat) :
    ((p.toFunction width number).call (Function.blockLimit size + spare)
        (Function.callArguments width size base) m).Agrees
      ((p.toFunction width' number').call (Function.blockLimit size + spare')
        (Function.callArguments width' size base') m) := by
  -- either function ends as its loop does
  cases hrun : p.run base size m with
  | ok after =>
    obtain ⟨s, hs, -, hcall⟩ :=
      call_of_run_eq_ok number (fun _ _ _ _ => accesses_true _ _) hrun
    obtain ⟨t, ht, -, hcall'⟩ :=
      call_of_run_eq_ok number' (fun _ _ _ _ => accesses_true _ _) (h.symm.trans hrun)
    rw [hcall, hcall']
    exact .returned (hs.trans ht.symm)
  | error hazard =>
    obtain ⟨_, s, hs, -, -, -, -, hcall⟩ :=
      call_of_run_eq_error number (fun _ _ _ _ => accesses_true _ _) hrun
    obtain ⟨_, t, ht, -, -, -, -, hcall'⟩ :=
      call_of_run_eq_error number' (fun _ _ _ _ => accesses_true _ _) (h.symm.trans hrun)
    rw [hcall, hcall']
    exact .trapped (hs.trans ht.symm)

/-- The elements below a size lie below the end of the narrow address space. A size that is not
positive has no elements, and then the buffers may be anywhere. -/
def FitsNarrow (base : Buffer → BitVec 64) (size : Word) : Prop :=
  0 < size.toInt → ∀ buffer,
    (base buffer).toNat + cellBytes * size.toInt.toNat ≤ AddressWidth.bits32.space

variable {base : Buffer → BitVec 64}

theorem elementAddress_setWidth (hfit : FitsNarrow base size) {i : Nat} (hi : i < count size) :
    elementAddress AddressWidth.bits32.space (fun buffer => ((base buffer).setWidth 32).toNat) i =
      elementAddress AddressWidth.bits64.space (fun buffer => (base buffer).toNat) i := by
  funext buffer
  unfold count at hi
  have hf := hfit (by omega) buffer
  have hnarrow : AddressWidth.bits32.space = 2 ^ 32 := rfl
  have hwide : AddressWidth.bits64.space = 2 ^ 64 := rfl
  -- the buffer and the element lie below the narrow end, so no address is cut down at either width
  have hcell : (base buffer).toNat + cellBytes * i < 2 ^ 32 := by
    unfold cellBytes at hf ⊢
    omega
  rw [elementAddress, elementAddress, BitVec.toNat_setWidth, hnarrow, hwide,
    Nat.mod_eq_of_lt (by omega : (base buffer).toNat < 2 ^ 32), Nat.mod_eq_of_lt hcell,
    Nat.mod_eq_of_lt (by omega)]

theorem run_setWidth (hfit : FitsNarrow base size) (m : Memory) :
    @run .bits32 p (fun buffer => (base buffer).setWidth 32) size m =
      @run .bits64 p base size m :=
  elementsFrom_congr (fun _ _ hlt => elementAddress_setWidth hfit (by unfold count; omega)) m

/-- On buffers below the end of the narrow address space, the function for narrow addresses and the
one for wide addresses end alike: both return or both trap, and with the same memory. -/
theorem narrow_agrees_wide (p : Program) (number number' : Nat) (size : Word)
    (base : Buffer → BitVec 64) (m : Memory) (spare spare' : Nat) (hfit : FitsNarrow base size) :
    ((p.toFunction .bits32 number).call (Function.blockLimit size + spare)
        (Function.callArguments .bits32 size fun buffer => (base buffer).setWidth 32) m).Agrees
      ((p.toFunction .bits64 number').call (Function.blockLimit size + spare')
        (Function.callArguments .bits64 size base) m) :=
  agrees_of_run_eq (run_setWidth hfit m) number number' spare spare'

/-- The last element lies in the last cells of the narrow address space. The call traps there, as it
divides by zero, and the first element is done. -/
theorem narrow_agrees_wide_at_end :
    let base : Buffer → BitVec 64 := fun buffer => if buffer = .out then 0xfffffff0 else 0xfffffff8
    let m := Memory.ofContents fun address => if address = 0xfffffffc then 0 else 7
    let p : Program := ⟨[⟨.out, .load .a⟩], .binary .divide (.load .a) (.load .b)⟩
    FitsNarrow base 2#32 ∧
    ((p.toFunction .bits32 0).call 7
        (Function.callArguments .bits32 2#32 fun buffer => (base buffer).setWidth 32) m).Agrees
      ((p.toFunction .bits64 0).call 7 (Function.callArguments .bits64 2#32 base) m) := by
  intro base m p
  have hfit : FitsNarrow base 2#32 := fun _ buffer => by cases buffer <;> decide
  exact ⟨hfit, narrow_agrees_wide p 0 0 2#32 base m 0 0 hfit⟩

end Program

end FusedKernel
