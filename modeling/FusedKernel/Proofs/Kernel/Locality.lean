import FusedKernel.Proofs.Kernel.Chunks

/-! What a program depends on and what it changes: the elements of its buffers, and among these the
targets of its assignments. So a raw call does the same on memories that hold the same in its
regions, and of two calls whose outputs avoid the regions of the other it does not matter which is
made first. -/
namespace FusedKernel

open Code

namespace Program

variable {p : Program} {i count : Nat} {m m' after : Memory} {q : Address}

/-! ### What is changed -/

theorem assignAll_frame {address : Buffer → Address} {position : Nat} {as : List Assignment}
    (h : assignAll address i position as m = .ok after)
    (hq : ∀ a ∈ as, address a.target ≠ q) : after.read q = m.read q := by
  induction as generalizing position m with
  | nil => cases h; rfl
  | cons a rest ih =>
    rw [assignAll] at h
    split at h
    · cases h
    next w _ =>
      obtain ⟨hfirst, hrest⟩ := List.forall_mem_cons.mp hq
      rw [ih h hrest, m.read_write_of_ne w hfirst]

variable {space : Nat} {base : Buffer → Address}

theorem elementsFrom_frame (h : p.elementsFrom space base i count m = .ok after)
    (hq : ∀ j, i ≤ j → j < i + count → ∀ a ∈ p.assignments,
      elementAddress space base j a.target ≠ q) : after.read q = m.read q := by
  induction count generalizing i m with
  | zero => cases h; rfl
  | succ count ih =>
    rw [elementsFrom] at h
    split at h
    · cases h
    next m' hfirst =>
      rw [ih h fun j hj hlt => hq j (Nat.le_of_succ_le hj) (by omega),
        assignAll_frame hfirst (hq i (Nat.le_refl i) (by omega))]

/-! ### What it depends on -/

/-- Memories that hold the same in some cells. -/
def AgreeOn (cells : Address → Prop) (m m' : Memory) : Prop := ∀ q, cells q → m.read q = m'.read q

variable {cells : Address → Prop}

theorem AgreeOn.write (h : AgreeOn cells m m') (p : Address) (w : Word) :
    AgreeOn cells (m.write p w) (m'.write p w) := by
  intro q hq
  rw [m.read_write, m'.read_write, h q hq]

/-- Assignments do the same on memories that agree on the cells at their addresses. -/
theorem AgreeOn.assignAll {address : Buffer → Address} (hc : ∀ buffer, cells (address buffer))
    {position : Nat} {as : List Assignment} (hm : AgreeOn cells m m')
    (h : assignAll address i position as m = .ok after) :
    ∃ after', Program.assignAll address i position as m' = .ok after' ∧
      AgreeOn cells after after' := by
  induction as generalizing position m m' with
  | nil => cases h; exact ⟨m', rfl, hm⟩
  | cons a rest ih =>
    have helement :
        (fun buffer => m'.read (address buffer)) = fun buffer => m.read (address buffer) :=
      funext fun buffer => (hm _ (hc buffer)).symm
    rw [Program.assignAll] at h ⊢
    rw [helement]
    cases hw : a.value.eval fun buffer => m.read (address buffer) with
    | error stuck => simp only [hw] at h; cases h
    | ok w =>
      simp only [hw] at h ⊢
      exact ih (hm.write _ w) h

theorem AgreeOn.elementsFrom
    (hc : ∀ j, i ≤ j → j < i + count → ∀ buffer, cells (elementAddress space base j buffer))
    (hm : AgreeOn cells m m') (h : p.elementsFrom space base i count m = .ok after) :
    ∃ after', p.elementsFrom space base i count m' = .ok after' ∧ AgreeOn cells after after' := by
  induction count generalizing i m m' with
  | zero => cases h; exact ⟨m', rfl, hm⟩
  | succ count ih =>
    rw [Program.elementsFrom] at h ⊢
    split at h
    · cases h
    next m₁ hfirst =>
      obtain ⟨m₁', hfirst', hm₁⟩ := hm.assignAll (hc i (Nat.le_refl i) (by omega)) hfirst
      simp only [hfirst']
      exact ih (fun j hj hlt => hc j (Nat.le_of_succ_le hj) (by omega)) hm₁ h

end Program

/-! ### Raw calls -/

/-- A raw call of a pair's function. -/
structure RawCall where
  ops : OperatorPair
  number : Nat
  size : Word
  base : Buffer → BitVec 64

namespace RawCall

/-- How the call ends on some memory, and the memory it leaves. -/
def run (x : RawCall) (m : Memory) : CallResult Memory :=
  ((x.ops.toFunction x.number).callRaw x.size x.base m).memory

/-- The cells of a buffer's elements below the size. -/
def Region (x : RawCall) (buffer : Buffer) (q : Address) : Prop :=
  ∃ i : Nat, (i : Int) < x.size.toInt ∧ Program.elementAddress AddressWidth.bits64.space
    (fun other => (x.base other).toNat) i buffer = q

/-- The output of a call shares no cell with any buffer of another. -/
def Avoids (x y : RawCall) : Prop := ∀ q, x.Region .out q → ∀ buffer, ¬ y.Region buffer q

variable {x y : RawCall} {m m' mx my after : Memory} {q : Address}

/-- A call returns if its loop can be done. -/
theorem run_eq_returned_iff : x.run m = .returned after ↔
    x.ops.program.elementsFrom AddressWidth.bits64.space (fun buffer => (x.base buffer).toNat) 0
      x.size.toInt.toNat m = .ok after := by
  have hcall := x.ops.program.memory_callRaw x.number x.size x.base m
  rw [run, OperatorPair.toFunction, hcall]
  change _ ↔ @Program.run .bits64 x.ops.program x.base x.size m = .ok after
  split
  next h => simp [h]
  next h => simp [h]

/-- A call that returns has changed its output only. -/
theorem run_frame (h : x.run m = .returned after) (hq : ¬ x.Region .out q) :
    after.read q = m.read q := by
  refine Program.elementsFrom_frame (run_eq_returned_iff.mp h) fun i _ hi a ha he => hq ⟨i, ?_, ?_⟩
  · omega
  · obtain rfl : a = ⟨.out, x.ops.program.result⟩ := by
      simpa [OperatorPair.program, Program.assignments] using ha
    exact he

/-- A call does the same on memories that agree on its regions. -/
theorem run_congr (h : x.run m = .returned after)
    (hm : ∀ q, (∃ buffer, x.Region buffer q) → m.read q = m'.read q) :
    ∃ after', x.run m' = .returned after' ∧
      ∀ q, (∃ buffer, x.Region buffer q) → after.read q = after'.read q := by
  obtain ⟨after', hloop, ha⟩ := Program.AgreeOn.elementsFrom
    (fun i _ hi buffer => ⟨buffer, i, by omega, rfl⟩) hm (run_eq_returned_iff.mp h)
  exact ⟨after', run_eq_returned_iff.mpr hloop, ha⟩

/-- A call can be made after one that avoids it, and leaves its regions as if it was made alone. -/
theorem Avoids.run_after (hxy : x.Avoids y) (hx : x.run m = .returned mx)
    (hy : y.run m = .returned my) :
    ∃ mxy, y.run mx = .returned mxy ∧
      ∀ q, (∃ buffer, y.Region buffer q) → my.read q = mxy.read q :=
  run_congr hy fun _ ⟨buffer, hq⟩ => (run_frame hx fun hout => hxy _ hout buffer hq).symm

/-- Two raw calls that return, each on its own, and whose outputs avoid the regions of the other:
they return in either order, both orders leave the same in every cell, and each output holds what
its own call alone writes. Inputs may be shared, and either output may lie over the inputs of its
own call. -/
theorem run_commute (hx : x.run m = .returned mx) (hy : y.run m = .returned my)
    (hxy : x.Avoids y) (hyx : y.Avoids x) :
    ∃ mxy myx, y.run mx = .returned mxy ∧ x.run my = .returned myx ∧
      (∀ q, mxy.read q = myx.read q) ∧
      (∀ q, x.Region .out q → mxy.read q = mx.read q) ∧
      ∀ q, y.Region .out q → mxy.read q = my.read q := by
  obtain ⟨mxy, hmxy, hy'⟩ := hxy.run_after hx hy
  obtain ⟨myx, hmyx, hx'⟩ := hyx.run_after hy hx
  have hxout : ∀ q, x.Region .out q → mxy.read q = mx.read q := fun q hq =>
    run_frame hmxy fun hout => hxy q hq .out hout
  have hyout : ∀ q, y.Region .out q → mxy.read q = my.read q := fun q hq =>
    (hy' q ⟨.out, hq⟩).symm
  refine ⟨mxy, myx, hmxy, hmyx, fun q => ?_, hxout, hyout⟩
  by_cases hqx : x.Region .out q
  · rw [hxout q hqx, hx' q ⟨.out, hqx⟩]
  · -- the second call of the other order leaves the cell as the first one did
    rw [run_frame hmyx hqx]
    by_cases hqy : y.Region .out q
    · exact hyout q hqy
    · rw [run_frame hmxy hqy, run_frame hx hqx, run_frame hy hqy]

/-! A call on one element has one cell of each buffer. -/

theorem region_one_iff (hsize : x.size = 1#32) {buffer : Buffer} :
    x.Region buffer q ↔ q = (x.base buffer).toNat := by
  have hfirst : Program.elementAddress AddressWidth.bits64.space
      (fun buffer => (x.base buffer).toNat) 0 buffer = (x.base buffer).toNat :=
    Nat.mod_eq_of_lt (x.base buffer).isLt
  rw [Region, hsize, show (1#32).toInt = 1 from rfl]
  constructor
  · rintro ⟨i, hi, rfl⟩
    obtain rfl : i = 0 := by omega
    exact hfirst
  · rintro rfl
    exact ⟨0, by omega, hfirst⟩

theorem run_one {w : Word} (hsize : x.size = 1#32)
    (hw : x.ops.valueAt (fun buffer => (x.base buffer).toNat) m = some w) :
    x.run m = .returned (m.write (x.base .out).toNat w) := by
  have hfirst : Program.elementAddress AddressWidth.bits64.space
      (fun buffer => (x.base buffer).toNat) 0 = fun buffer => (x.base buffer).toNat :=
    funext fun buffer => Nat.mod_eq_of_lt (x.base buffer).isLt
  rw [run_eq_returned_iff, hsize, show (1#32).toInt.toNat = 1 from rfl, Program.elementsFrom,
    hfirst, OperatorPair.assignAll_of_valueAt_eq_some hw]
  rfl

/-- The first call writes over its own input, and both read the cell at `0x2000`. -/
theorem run_commute_shared :
    let m := Memory.ofContents fun _ => 3
    let x : RawCall := ⟨⟨.multiply, .plus⟩, 0, 1#32, fun
      | .a | .out => 0x1000
      | .b | .c => 0x2000⟩
    let y : RawCall := ⟨⟨.plus, .divide⟩, 7, 1#32, fun
      | .a | .b | .c => 0x2000
      | .out => 0x3000⟩
    let mx := m.write 0x1000 12
    let my := m.write 0x3000 2
    x.run m = .returned mx ∧ y.run m = .returned my ∧ x.Avoids y ∧ y.Avoids x ∧
    ∃ mxy myx, y.run mx = .returned mxy ∧ x.run my = .returned myx ∧
      mxy.read 0x1000 = 12 ∧ myx.read 0x1000 = 12 ∧ mxy.read 0x3000 = 2 ∧ myx.read 0x3000 = 2 := by
  intro m x y mx my
  have hx : x.run m = .returned mx := run_one rfl (by
    simp only [OperatorPair.valueAt, m, Memory.read_ofContents]
    rfl)
  have hy : y.run m = .returned my := run_one rfl (by
    simp only [OperatorPair.valueAt, m, Memory.read_ofContents]
    rfl)
  have hxy : x.Avoids y := by
    intro q hq buffer hq'
    have he := ((region_one_iff rfl).mp hq).symm.trans ((region_one_iff rfl).mp hq')
    cases buffer <;> exact absurd he (by decide)
  have hyx : y.Avoids x := by
    intro q hq buffer hq'
    have he := ((region_one_iff rfl).mp hq).symm.trans ((region_one_iff rfl).mp hq')
    cases buffer <;> exact absurd he (by decide)
  obtain ⟨mxy, myx, hmxy, hmyx, hsame, hxout, hyout⟩ := run_commute hx hy hxy hyx
  have hx' : mxy.read 0x1000 = 12 :=
    (hxout _ ((region_one_iff rfl).mpr rfl)).trans (Memory.read_write_self _ _ _)
  have hy' : mxy.read 0x3000 = 2 :=
    (hyout _ ((region_one_iff rfl).mpr rfl)).trans (Memory.read_write_self _ _ _)
  exact ⟨hx, hy, hxy, hyx, mxy, myx, hmxy, hmyx, hx', (hsame _).symm.trans hx', hy',
    (hsame _).symm.trans hy'⟩

end RawCall

end FusedKernel
