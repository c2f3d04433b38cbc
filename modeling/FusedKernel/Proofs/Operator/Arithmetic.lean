import Mathlib.Data.Int.ModEq
import Mathlib.Tactic.Common
import FusedKernel.Proofs.Kernel.StraightLine

/-! Operators in terms of integers. Sums, differences and products wrap around; quotients are
truncated toward zero, and the remainder makes up the difference. The instruction that is emitted
for an operator has the operator's value, and traps where the operator has none. -/
namespace FusedKernel.Operator

open Code

variable {x y w q : Word} {exact : Int}

/-- Among the integers that are values of words, that of a word is the only one congruent to a
given integer. -/
structure Wraps (exact : Int) (w : Word) : Prop where
  congruent : w.toInt ≡ exact [ZMOD 0x100000000]
  unique : ∀ n : Int, -0x80000000 ≤ n → n < 0x80000000 → n ≡ exact [ZMOD 0x100000000] →
    n = w.toInt

theorem wraps_of_toInt_eq (h : w.toInt = exact.bmod (2 ^ 32)) : Wraps exact w := by
  have hcongruent : w.toInt ≡ exact [ZMOD 0x100000000] := by
    rw [h]
    exact Int.bmod_emod
  refine ⟨hcongruent, fun n hlo hhi hn => ?_⟩
  have hemod : n % 0x100000000 = w.toInt % 0x100000000 := hn.trans hcongruent.symm
  have hle := w.le_toInt
  have hlt := w.toInt_lt
  omega

/-! ### Division -/

/-- A quotient and a remainder in integers, with the quotient rounded toward zero. -/
structure Truncates (x y q r : Word) : Prop where
  identity : x.toInt = q.toInt * y.toInt + r.toInt
  bound : r.toInt.natAbs < y.toInt.natAbs
  sign : r.toInt = 0 ∨ r.toInt.sign = x.toInt.sign

theorem toInt_eq_zero_iff : y.toInt = 0 ↔ y = 0 := by
  rw [← BitVec.toInt_inj]
  rfl

theorem isOverflow_iff :
    x.toInt = -0x80000000 ∧ y.toInt = -1 ↔ x = BitVec.intMin 32 ∧ y = -1 := by
  rw [← BitVec.toInt_inj, ← BitVec.toInt_inj]
  rfl

theorem apply_divide_eq_none_iff :
    divide.apply x y = none ↔ y.toInt = 0 ∨ x.toInt = -0x80000000 ∧ y.toInt = -1 := by
  rw [toInt_eq_zero_iff, isOverflow_iff, apply_divide, ite_eq_left_iff, imp_iff_not (by simp),
    not_not]

theorem apply_modular_eq_none_iff : modular.apply x y = none ↔ y.toInt = 0 := by
  rw [toInt_eq_zero_iff, apply_modular, ite_eq_left_iff, imp_iff_not (by simp), not_not]

theorem of_apply_divide_eq_some (h : divide.apply x y = some q) :
    y ≠ 0 ∧ (x ≠ BitVec.intMin 32 ∨ y ≠ -1) ∧ q = x.sdiv y := by
  rw [apply_divide] at h
  split at h
  next => cases h
  next hdefined =>
    obtain ⟨hzero, hoverflow⟩ := not_or.mp hdefined
    exact ⟨hzero, not_and_or.mp hoverflow, (Option.some.inj h).symm⟩

theorem truncates_of_apply_divide (h : divide.apply x y = some q) :
    ∃ r, modular.apply x y = some r ∧ Truncates x y q r := by
  obtain ⟨hzero, hoverflow, rfl⟩ := of_apply_divide_eq_some h
  have hquotient : (x.sdiv y).toInt = x.toInt.tdiv y.toInt :=
    BitVec.toInt_sdiv_of_ne_or_ne x y hoverflow
  have hremainder : (x.srem y).toInt = x.toInt.tmod y.toInt := BitVec.toInt_srem x y
  have hpos : 0 < y.toInt.natAbs := Int.natAbs_pos.mpr (mt toInt_eq_zero_iff.mp hzero)
  refine ⟨x.srem y, if_neg hzero, ?_, ?_, ?_⟩
  · rw [hquotient, hremainder, Int.tdiv_mul_add_tmod]
  · rw [hremainder, Int.natAbs_tmod]
    exact Nat.mod_lt _ hpos
  · rw [hremainder, Int.sign_tmod]
    by_cases hdvd : y.toInt ∣ x.toInt
    · exact .inl (Int.tmod_eq_zero_of_dvd hdvd)
    · exact .inr (if_neg hdvd)

/-- The one quotient of nonzero divisor that is no word belongs to a division without remainder. -/
theorem apply_modular_of_overflow (h : divide.apply x y = none) (hy : y.toInt ≠ 0) :
    modular.apply x y = some 0 := by
  obtain hzero | hoverflow := apply_divide_eq_none_iff.mp h
  · exact absurd hzero hy
  · obtain ⟨rfl, rfl⟩ := isOverflow_iff.mp hoverflow
    decide

/-! ### Instructions -/

/-- What one instruction has for a result, if an operator has a value or none. -/
def outcome (value : Option Word) : Except Fault Word :=
  match value with
  | some w => .ok w
  | none => .error .trap

/-- Where its operands are words, the statement of an operator defines the operator's value and
changes nothing else, or it traps. -/
theorem step_instruction (op : Operator) {s : State} {lhs rhs : ValueId}
    (hl : s.value lhs = .ok (.word x)) (hr : s.value rhs = .ok (.word y)) (result : ValueId) :
    (Statement.define result (.binary op.instruction .i32 lhs rhs)).step s =
      (outcome (op.apply x y)).map fun w => s.bind result (.word w) := by
  rw [Statement.step, Emission.eval_operator hl hr]
  cases op.apply x y <;> rfl

/-- The arithmetic of operators. Addition, subtraction and multiplication give the one word that is
congruent to the exact result. Division lacks a value for a zero divisor and for the one quotient
that is no word, the remainder for a zero divisor only; where the quotient exists, quotient and
remainder are those of truncation toward zero, and where it alone is missing, the remainder is
zero. The single instruction that is emitted for an operator gives its value, or traps where there
is none: as a function of words, and as the statement that an emission appends. -/
theorem integer_arithmetic (x y : Word) :
    ((∃ w, plus.apply x y = some w ∧ Wraps (x.toInt + y.toInt) w) ∧
      (∃ w, minus.apply x y = some w ∧ Wraps (x.toInt - y.toInt) w) ∧
      ∃ w, multiply.apply x y = some w ∧ Wraps (x.toInt * y.toInt) w) ∧
    (divide.apply x y = none ↔ y.toInt = 0 ∨ x.toInt = -0x80000000 ∧ y.toInt = -1) ∧
    (modular.apply x y = none ↔ y.toInt = 0) ∧
    (∀ q, divide.apply x y = some q → ∃ r, modular.apply x y = some r ∧ Truncates x y q r) ∧
    (divide.apply x y = none → y.toInt ≠ 0 → modular.apply x y = some 0) ∧
    ∀ op : Operator, op.instruction.eval x y = outcome (op.apply x y) ∧
      ∀ (lhs rhs : ValueId) (d : Draft), ∃ statement,
        Emission.operation op lhs rhs d =
          (d.next, { d with next := d.next + 1, body := d.body.push statement }) ∧
        ∀ s : State, s.value lhs = .ok (.word x) → s.value rhs = .ok (.word y) →
          statement.step s =
            (outcome (op.apply x y)).map fun w => s.bind d.next (.word w) := by
  refine ⟨⟨⟨_, rfl, ?_⟩, ⟨_, rfl, ?_⟩, ⟨_, rfl, ?_⟩⟩, apply_divide_eq_none_iff,
    apply_modular_eq_none_iff, fun q => truncates_of_apply_divide, apply_modular_of_overflow,
    fun op => ⟨op.eval_instruction x y, fun lhs rhs d => ?_⟩⟩
  · exact wraps_of_toInt_eq (BitVec.toInt_add x y)
  · exact wraps_of_toInt_eq BitVec.toInt_sub
  · exact wraps_of_toInt_eq (BitVec.toInt_mul x y)
  · exact ⟨.define d.next (.binary op.instruction .i32 lhs rhs), rfl,
      fun s hl hr => op.step_instruction hl hr d.next⟩

/-- The least word and minus one have a remainder but no quotient. -/
example : divide.apply (BitVec.intMin 32) (-1) = none ∧
    modular.apply (BitVec.intMin 32) (-1) = some 0 := by decide

end FusedKernel.Operator
