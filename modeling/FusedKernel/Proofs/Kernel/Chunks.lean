import FusedKernel.Proofs.Kernel.CheckedCall

/-! A raw call over some elements can be made in two: over the first ones, and then over the rest
with each buffer starting where the first call stopped. Nothing is asked of the buffers, which may
overlap one another in any way: either way the same elements are done in the same order. -/
namespace FusedKernel

open Code

/-! ### The loop -/

namespace Program

/-- A hazard, with the elements counted from an earlier one. -/
def Hazard.skip (n : Nat) (hazard : Hazard) : Hazard :=
  { hazard with element := n + hazard.element }

variable (p : Program) {space : Nat} {base base' : Buffer → Address}

/-- The loop over the elements of two ranges is the loop over the second after the one over the
first. -/
theorem elementsFrom_add (i n k : Nat) (m : Memory) :
    p.elementsFrom space base i (n + k) m =
      (p.elementsFrom space base i n m).bind (p.elementsFrom space base (i + n) k) := by
  induction n generalizing i m with
  | zero => rw [Nat.zero_add]; rfl
  | succ n ih =>
    rw [Nat.add_right_comm, elementsFrom, elementsFrom]
    cases assignAll (elementAddress space base i) i 0 p.assignments m with
    | error hazard => rfl
    | ok m => simp only [ih, Nat.add_assoc, Nat.add_comm n 1]

/-- The number of an element matters to its assignments only where a hazard mentions it. -/
theorem assignAll_add (address : Buffer → Address) (n element position : Nat)
    (assignments : List Assignment) (m : Memory) :
    assignAll address (n + element) position assignments m =
      (assignAll address element position assignments m).mapError (Hazard.skip n) := by
  induction assignments generalizing position m with
  | nil => rfl
  | cons a rest ih =>
    rw [assignAll, assignAll]
    cases a.value.eval fun buffer => m.read (address buffer) with
    | error stuck => rfl
    | ok w => exact ih _ _

/-- The elements from `n` on are the first ones of buffers that start at them. -/
theorem elementsFrom_skip {n : Nat}
    (hbase : ∀ i, elementAddress space base (n + i) = elementAddress space base' i)
    (i k : Nat) (m : Memory) :
    p.elementsFrom space base (n + i) k m =
      (p.elementsFrom space base' i k m).mapError (Hazard.skip n) := by
  induction k generalizing i m with
  | zero => rfl
  | succ k ih =>
    rw [elementsFrom, elementsFrom, hbase, assignAll_add]
    cases assignAll (elementAddress space base' i) i 0 p.assignments m with
    | error hazard => rfl
    | ok m => exact ih (i + 1) m

end Program

/-! ### The calls -/

/-- Goes on from where a call returns. A trap is final. -/
def CallResult.andThen {α : Type} : CallResult α → (α → CallResult α) → CallResult α
  | returned after, next => next after
  | trapped after, _ => trapped after
  | faulty, _ => faulty

/-- How a call ends whose elements are done one by one. -/
def Program.endOf : Except Program.Hazard Memory → CallResult Memory
  | .ok after => .returned after
  | .error hazard => .trapped hazard.memory

namespace Program

@[simp] theorem endOf_mapError_skip (n : Nat) (r : Except Hazard Memory) :
    endOf (r.mapError (Hazard.skip n)) = endOf r := by
  cases r <;> rfl

theorem endOf_bind (r : Except Hazard Memory) (f : Memory → Except Hazard Memory) :
    endOf (r.bind f) = (endOf r).andThen fun m => endOf (f m) := by
  cases r <;> rfl

theorem endOf_ne_faulty (r : Except Hazard Memory) : endOf r ≠ .faulty := by
  cases r <;> simp [endOf]

/-- A call over a number of elements ends as the loop over them does. -/
theorem memory_call_ofNat {width : AddressWidth} (p : Program) (number : Nat) {n : Nat}
    (hn : n ≤ Call.maxSize) (base : Buffer → BitVec width.bits) (spare : Nat) (m : Memory) :
    ((p.toFunction width number).call (Function.blockLimit (BitVec.ofNat 32 n) + spare)
        (Function.callArguments width (BitVec.ofNat 32 n) base) m).memory =
      endOf (p.elementsFrom width.space (fun buffer => (base buffer).toNat) 0 n m) := by
  have hrun : p.run base (BitVec.ofNat 32 n) m =
      p.elementsFrom width.space (fun buffer => (base buffer).toNat) 0 n m :=
    congrArg (p.elementsFrom _ _ 0 · m) (Call.count_ofNat hn)
  rw [p.memory_call number, hrun]
  rfl

theorem memory_callRaw_ofNat (p : Program) (number : Nat) {n : Nat} (hn : n ≤ Call.maxSize)
    (base : Buffer → BitVec 64) (m : Memory) :
    ((p.toFunction .bits64 number).callRaw (BitVec.ofNat 32 n) base m).memory =
      endOf (p.elementsFrom AddressWidth.bits64.space
        (fun buffer => (base buffer).toNat) 0 n m) :=
  @memory_call_ofNat .bits64 p number n hn base 0 m

/-- Pointers that are moved behind `n` elements point to the elements from `n` on, also where they
wrap around. -/
theorem elementAddress_add (base : Buffer → BitVec 64) (n i : Nat) :
    elementAddress AddressWidth.bits64.space (fun buffer => (base buffer).toNat) (n + i) =
      elementAddress AddressWidth.bits64.space
        (fun buffer => (base buffer + BitVec.ofNat 64 (cellBytes * n)).toNat) i := by
  funext buffer
  simp only [elementAddress, BitVec.toNat_add, BitVec.toNat_ofNat, Nat.mul_add]
  change _ % 2 ^ 64 = _ % 2 ^ 64
  omega

/-- A raw call over `n + k` elements ends as one over `n` does that is followed, unless it traps, by
one over `k` with all buffers moved by `n` elements. Both leave the same memory. -/
theorem callRaw_chunks (p : Program) (number n k : Nat) (base : Buffer → BitVec 64) (m : Memory)
    (h : n + k ≤ Call.maxSize) :
    let call := fun (size : Nat) (base : Buffer → BitVec 64) (m : Memory) =>
      ((p.toFunction .bits64 number).callRaw (BitVec.ofNat 32 size) base m).memory
    let moved := fun buffer => base buffer + BitVec.ofNat 64 (cellBytes * n)
    call (n + k) base m = (call n base m).andThen (call k moved) ∧
      call (n + k) base m ≠ .faulty := by
  intro call moved
  have hcall : ∀ size ≤ n + k, ∀ (base : Buffer → BitVec 64) (m : Memory), call size base m =
      endOf (p.elementsFrom AddressWidth.bits64.space
        (fun buffer => (base buffer).toNat) 0 size m) :=
    fun size hsize => p.memory_callRaw_ofNat number (Nat.le_trans hsize h)
  refine ⟨?_, hcall (n + k) (Nat.le_refl _) base m ▸ endOf_ne_faulty _⟩
  -- the rest of the loop is on the same addresses as a loop from zero over the moved buffers
  calc call (n + k) base m
      = endOf ((p.elementsFrom _ _ 0 n m).bind (p.elementsFrom _ _ (0 + n) k)) := by
        rw [hcall (n + k) (Nat.le_refl _), elementsFrom_add]
    _ = (call n base m).andThen fun m => endOf (p.elementsFrom _ _ (n + 0) k m) := by
        rw [endOf_bind, hcall n (Nat.le_add_right n k), Nat.zero_add, Nat.add_zero]
    _ = (call n base m).andThen (call k moved) := by
        congr 1
        funext m
        rw [p.elementsFrom_skip (elementAddress_add base n), endOf_mapError_skip,
          hcall k (Nat.le_add_left k n)]

/-- The output lies over the second elements of the inputs. The first chunk makes them zero, and the
second one traps. -/
theorem callRaw_chunks_overlapping :
    let base : Buffer → BitVec 64 := fun buffer => if buffer = .out then 0x1004 else 0x1000
    let m := Memory.ofContents fun _ => 1
    let p := OperatorPair.program ⟨.divide, .minus⟩
    let call := fun (size : Nat) (base : Buffer → BitVec 64) (m : Memory) =>
      ((p.toFunction .bits64 0).callRaw (BitVec.ofNat 32 size) base m).memory
    1 + 1 ≤ Call.maxSize ∧
    call 1 base m = .returned (m.write 0x1004 0) ∧
    call 1 (fun buffer => base buffer + 4) (m.write 0x1004 0) = .trapped (m.write 0x1004 0) ∧
    call 2 base m = .trapped (m.write 0x1004 0) := by
  intro base m p call
  have hmax : 1 + 1 ≤ Call.maxSize := by decide
  have hone : ∀ (base : Buffer → BitVec 64) (m : Memory), call 1 base m = Program.endOf
      (p.elementsFrom AddressWidth.bits64.space (fun buffer => (base buffer).toNat) 0 1 m) :=
    p.memory_callRaw_ofNat 0 (by decide)
  have hfirst : call 1 base m = .returned (m.write 0x1004 0) := by
    have hvalue : OperatorPair.valueAt ⟨.divide, .minus⟩
        (elementAddress AddressWidth.bits64.space (fun buffer => (base buffer).toNat) 0) m =
          some 0 := by
      simp only [OperatorPair.valueAt, m, Memory.read_ofContents]
      rfl
    rw [hone, elementsFrom, OperatorPair.assignAll_of_valueAt_eq_some hvalue]
    rfl
  have hsecond : call 1 (fun buffer => base buffer + 4) (m.write 0x1004 0) =
      .trapped (m.write 0x1004 0) := by
    have hvalue : OperatorPair.valueAt ⟨.divide, .minus⟩
        (elementAddress AddressWidth.bits64.space (fun buffer => (base buffer + 4).toNat) 0)
        (m.write 0x1004 0) = none := by
      have hread : (m.write 0x1004 0).read 0x1004 = 0 := Memory.read_write_self _ _ _
      change OperatorPair.apply _ ((m.write 0x1004 0).read 0x1004)
        ((m.write 0x1004 0).read 0x1004) _ = none
      rw [hread]
      rfl
    obtain ⟨hazard, ha, -, hm⟩ := OperatorPair.assignAll_of_valueAt_eq_none (i := 0) hvalue
    rw [hone, elementsFrom, ha, ← hm]
    rfl
  have hchunks : call (1 + 1) base m =
      (call 1 base m).andThen (call 1 fun buffer => base buffer + 4) :=
    (callRaw_chunks p 0 1 1 base m hmax).1
  rw [hfirst, CallResult.andThen, hsecond] at hchunks
  exact ⟨hmax, hfirst, hsecond, hchunks⟩

end Program

end FusedKernel
