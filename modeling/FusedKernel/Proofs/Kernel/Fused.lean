import Mathlib.Tactic.Common
import FusedKernel.Kernel.Loop
import FusedKernel.Kernel.Pair

/-! The loop over the elements of a fused pair. As long as no element of the output is read or
written again later, every element gets its value on the memory before the loop. The reference
evaluates the same values on arrays. -/
namespace FusedKernel.OperatorPair

open Code

variable {ops : OperatorPair}

/-- The fused value on three cells of memory. -/
def valueAt (ops : OperatorPair) (address : Buffer → Address) (m : Memory) : Option Word :=
  ops.apply (m.read (address .a)) (m.read (address .b)) (m.read (address .c))

/-! ### One element -/

section
variable {address : Buffer → Address} {i : Nat} {m : Memory}

theorem assignAll_of_valueAt_eq_some {w : Word} (h : ops.valueAt address m = some w) :
    Program.assignAll address i 0 ops.program.assignments m = .ok (m.write (address .out) w) := by
  obtain ⟨x, hx, hw⟩ := Option.bind_eq_some_iff.mp h
  simp [program, Program.assignments, Program.assignAll, Expr.eval, hx, hw]

theorem assignAll_of_valueAt_eq_none (h : ops.valueAt address m = none) :
    ∃ hazard, Program.assignAll address i 0 ops.program.assignments m = .error hazard ∧
      hazard.element = i ∧ hazard.memory = m := by
  cases hx : ops.first.apply (m.read (address .a)) (m.read (address .b)) with
  | none =>
    exact ⟨⟨i, 0, _, m⟩,
      by simp [program, Program.assignments, Program.assignAll, Expr.eval, hx]; rfl, rfl, rfl⟩
  | some x =>
    have hw : ops.second.apply x (m.read (address .c)) = none := by
      simpa [valueAt, OperatorPair.apply, hx] using h
    exact ⟨⟨i, 0, _, m⟩,
      by simp [program, Program.assignments, Program.assignAll, Expr.eval, hx, hw]; rfl, rfl, rfl⟩

end

/-! ### All elements -/

/-- The elements from `i` to below `j` have their values over a memory, which is otherwise as it
was. -/
structure Filled (ops : OperatorPair) (cell : Nat → Buffer → Address) (i j : Nat)
    (m after : Memory) : Prop where
  value : ∀ k, i ≤ k → k < j → ops.valueAt (cell k) m = some (after.read (cell k .out))
  frame : ∀ q, (∀ k, i ≤ k → k < j → cell k .out ≠ q) → after.read q = m.read q

/-- No element of the output is a cell of a later element below `n`. -/
def Settled (cell : Nat → Buffer → Address) (n : Nat) : Prop :=
  ∀ k i buffer, k < i → i < n → cell k .out ≠ cell i buffer

variable {cell : Nat → Buffer → Address} {i j n : Nat} {m after : Memory}

theorem Filled.refl (ops : OperatorPair) (cell : Nat → Buffer → Address) (i : Nat) (m : Memory) :
    ops.Filled cell i i m m :=
  ⟨fun _ hik hki => absurd hki (Nat.not_lt.mpr hik), fun _ _ => rfl⟩

theorem valueAt_write (hs : Settled cell n) (hj : j < n) (hij : i < j) (w : Word) :
    ops.valueAt (cell j) (m.write (cell i .out) w) = ops.valueAt (cell j) m := by
  simp only [valueAt, m.read_write_of_ne w (hs i j _ hij hj)]

/-- A first element can be put before others. -/
theorem Filled.cons (hs : Settled cell n) (hj : j ≤ n) (hij : i < j) {w : Word}
    (hw : ops.valueAt (cell i) m = some w)
    (h : ops.Filled cell (i + 1) j (m.write (cell i .out) w) after) :
    ops.Filled cell i j m after := by
  refine ⟨fun k hik hkj => ?_, fun q hq => ?_⟩
  · obtain rfl | hlt := Nat.eq_or_lt_of_le hik
    · -- later elements leave this one alone
      rw [h.frame _ fun k hk hkj => Ne.symm (hs i k .out hk (Nat.lt_of_lt_of_le hkj hj)), hw,
        Memory.read_write_self]
    · rw [← h.value k hlt hkj, valueAt_write hs (Nat.lt_of_lt_of_le hkj hj) hlt]
  · rw [h.frame q fun k hk hkj => hq k (Nat.le_of_lt hk) hkj,
      m.read_write_of_ne w (hq i (Nat.le_refl i) hij)]

/-- The loop fills the elements up to the first without value. -/
theorem elementsFrom_program (ops : OperatorPair) {space : Nat} {base : Buffer → Address}
    (hc : ∀ i < n, Program.elementAddress space base i = cell i) (hs : Settled cell n)
    {count : Nat} (hn : i + count ≤ n) (m : Memory) :
    match ops.program.elementsFrom space base i count m with
    | .ok after => ops.Filled cell i (i + count) m after
    | .error hazard => i ≤ hazard.element ∧ hazard.element < i + count ∧
        ops.valueAt (cell hazard.element) m = none ∧
        ops.Filled cell i hazard.element m hazard.memory := by
  induction count generalizing i m with
  | zero => exact Filled.refl ops _ i m
  | succ count ih =>
    rw [Program.elementsFrom, hc i (by omega)]
    cases hv : ops.valueAt (cell i) m with
    | none =>
      obtain ⟨hazard, ha, rfl, rfl⟩ := assignAll_of_valueAt_eq_none (i := i) hv
      simp only [ha]
      exact ⟨Nat.le_refl _, by omega, hv, Filled.refl ops _ _ _⟩
    | some w =>
      have h := ih (i := i + 1) (by omega) (m.write (cell i .out) w)
      simp only [assignAll_of_valueAt_eq_some hv]
      split <;> simp only [*] at h
      · exact .cons hs hn (by omega) hv (by rwa [Nat.add_right_comm, Nat.add_assoc] at h)
      · obtain ⟨hle, hlt, hnone, hfilled⟩ := h
        exact ⟨by omega, by omega, by rwa [valueAt_write hs (by omega) hle] at hnone,
          .cons hs (by omega) hle hv hfilled⟩

/-! ### The reference -/

theorem applyAll_eq_some {xs ys zs vs : List Word} (hy : xs.length ≤ ys.length)
    (hz : xs.length ≤ zs.length) (hl : vs.length = xs.length)
    (h : ∀ (i : Nat) (hi : i < xs.length), ops.apply xs[i] ys[i] zs[i] = some vs[i]) :
    ops.applyAll xs ys zs = some vs := by
  induction xs generalizing ys zs vs with
  | nil => rw [List.eq_nil_of_length_eq_zero hl]; rfl
  | cons x xs ih =>
    obtain ⟨y, ys, rfl⟩ := List.exists_cons_of_length_pos (Nat.lt_of_lt_of_le (Nat.succ_pos _) hy)
    obtain ⟨z, zs, rfl⟩ := List.exists_cons_of_length_pos (Nat.lt_of_lt_of_le (Nat.succ_pos _) hz)
    obtain ⟨v, vs, rfl⟩ := List.exists_cons_of_length_eq_add_one hl
    have hrest := ih (Nat.le_of_succ_le_succ hy) (Nat.le_of_succ_le_succ hz) (Nat.succ.inj hl)
      fun i hi => h (i + 1) (Nat.succ_lt_succ hi)
    have hfirst : ops.apply x y z = some v := h 0 (Nat.succ_pos _)
    simp [applyAll, hfirst, hrest]

theorem isSome_of_applyAll_eq_some {xs ys zs vs : List Word} (h : ops.applyAll xs ys zs = some vs)
    {i : Nat} {x y z : Word} (hx : xs[i]? = some x) (hy : ys[i]? = some y) (hz : zs[i]? = some z) :
    (ops.apply x y z).isSome := by
  induction xs generalizing i ys zs vs with
  | nil => cases hx
  | cons x' xs ih =>
    cases ys with
    | nil => cases hy
    | cons y' ys =>
      cases zs with
      | nil => cases hz
      | cons z' zs =>
        obtain ⟨v, hv, h⟩ := Option.bind_eq_some_iff.mp h
        obtain ⟨vs', hvs, -⟩ := Option.bind_eq_some_iff.mp h
        cases i with
        | zero =>
          cases hx; cases hy; cases hz
          exact Option.isSome_of_mem hv
        | succ i => exact ih hvs hx hy hz

/-- Values that the reference gives are all there. -/
theorem isSome_of_reference_eq_ok {xs ys zs out : Array Word}
    (h : ops.reference xs ys zs = .ok out) {i : Nat} {x y z : Word} (hx : xs[i]? = some x)
    (hy : ys[i]? = some y) (hz : zs[i]? = some z) :
    (ops.apply x y z).isSome := by
  unfold reference at h
  split at h
  · cases h
  · split at h
    next values hall =>
      exact isSome_of_applyAll_eq_some hall (Array.getElem?_toList ▸ hx)
        (Array.getElem?_toList ▸ hy) (Array.getElem?_toList ▸ hz)
    next => cases h

theorem reference_eq_ok {xs ys zs out : Array Word} (hy : xs.size ≤ ys.size)
    (hz : xs.size ≤ zs.size) (ho : out.size = xs.size)
    (h : ∀ (i : Nat) (hi : i < xs.size), ops.apply xs[i] ys[i] zs[i] = some out[i]) :
    ops.reference xs ys zs = .ok out := by
  have hall : ops.applyAll xs.toList ys.toList zs.toList = some out.toList :=
    applyAll_eq_some hy hz ho h
  rw [reference, if_neg (by omega), hall]

end FusedKernel.OperatorPair
