import Mathlib.Tactic.Common
import FusedKernel.Sampling.Vectors

/-! A word that is drawn from a range is in the range. The two words that a draw may take make up
one number of 64 bits, and the draw is the place that this number, as a fraction, has in the range.
A carry only makes that place exact, and where no second word is taken, none could change it. -/
namespace FusedKernel.Sampling

/-! ### Halves -/

section
variable {x y n : Nat}

/-- The high half of a product, with the carry that a second word gives it, as a product of the
number that both words make up. -/
theorem highHalf_add_carry (x y n : Nat) :
    highHalf (x * n) + highHalf (lowHalf (x * n) + highHalf (y * n)) =
      (x * wordCount + y) * n / (wordCount * wordCount) := by
  have hproduct : x * n * wordCount + y * n = (x * wordCount + y) * n := by
    rw [Nat.add_mul, Nat.mul_right_comm]
  have hhigh : (x * n * wordCount + y * n) / wordCount = x * n + y * n / wordCount := by
    rw [Nat.add_comm, Nat.add_mul_div_right _ _ (by decide), Nat.add_comm]
  rw [← hproduct, ← Nat.div_div_eq_div_mul, hhigh]
  simp only [highHalf, lowHalf, wordCount]
  omega

/-- Where no second word is drawn, there is none that would have carried. -/
theorem carry_eq_zero (hy : y < wordCount) (hpos : 0 < n) (hn : n < wordCount)
    (hlow : lowHalf (x * n) ≤ wordCount - n) :
    highHalf (lowHalf (x * n) + highHalf (y * n)) = 0 := by
  have hsecond : highHalf (y * n) < n := Nat.div_lt_of_lt_mul (Nat.mul_lt_mul_of_pos_right hy hpos)
  exact Nat.div_eq_of_lt (by omega)

end

/-- The number that the next two words make up. -/
def Keystream.pair (s : Keystream) : Nat := s.next.1.toNat * wordCount + s.next.2.next.1.toNat

theorem Keystream.pair_lt (s : Keystream) : s.pair < wordCount * wordCount := by
  have hfirst : s.next.1.toNat < wordCount := s.next.1.toNat_lt
  have hsecond : s.next.2.next.1.toNat < wordCount := s.next.2.next.1.toNat_lt
  simp only [pair, wordCount] at *
  omega

/-! ### Members -/

namespace Range

variable {r : Range} {w : Word}

theorem isEmpty_iff : r.isEmpty ↔ r.hi.toInt < r.lo.toInt := BitVec.slt_iff_toInt_lt

theorem contains_iff : r.contains w ↔ r.lo.toInt ≤ w.toInt ∧ w.toInt ≤ r.hi.toInt := by
  rw [contains, Bool.and_eq_true, BitVec.sle_iff_toInt_le, BitVec.sle_iff_toInt_le]

theorem toInt_eq_ite (w : Word) :
    w.toInt = if 2 * w.toNat < wordCount then (w.toNat : Int) else w.toNat - wordCount :=
  BitVec.toInt_eq_toNat_cond w

theorem count_eq (r : Range) : r.count = (wordCount - r.lo.toNat + r.hi.toNat + 1) % wordCount := by
  rw [count, BitVec.toNat_add, BitVec.toNat_sub]
  exact Nat.mod_add_mod _ _ _

theorem count_lt (r : Range) : r.count < wordCount := BitVec.isLt _

/-- A range that is not empty has as many members as it counts, unless it has them all. -/
theorem count_of_not_isEmpty (h : r.isEmpty = false) :
    if r.count = 0 then r.lo.toInt = -0x80000000 ∧ r.hi.toInt = 0x7fffffff
    else (r.count : Int) = r.hi.toInt - r.lo.toInt + 1 := by
  have hle : ¬r.hi.toInt < r.lo.toInt := mt isEmpty_iff.mpr (by simp [h])
  have hlo := r.lo.isLt
  have hhi := r.hi.isLt
  rw [count_eq]
  simp only [toInt_eq_ite, wordCount] at *
  split <;> omega

theorem toInt_lo_add (h : r.isEmpty = false) (hcount : r.count ≠ 0) {k : Nat} (hk : k < r.count) :
    (r.lo + BitVec.ofNat 32 k).toInt = r.lo.toInt + k := by
  have hsize := count_of_not_isEmpty h
  rw [if_neg hcount] at hsize
  have hlo := r.lo.le_toInt
  have hhi := r.hi.toInt_lt
  have hoffset : (BitVec.ofNat 32 k).toInt = (k : Int).bmod (2 ^ 32) := BitVec.toInt_ofNat k
  rw [BitVec.toInt_add, hoffset, Int.add_bmod_bmod]
  exact Int.bmod_eq_of_le (by omega) (by omega)

/-- How far the next member to be drawn is from the lower end. -/
def offset (r : Range) (s : Keystream) : Nat := s.pair * r.count / (wordCount * wordCount)

theorem offset_lt (hcount : r.count ≠ 0) (s : Keystream) : r.offset s < r.count :=
  Nat.div_lt_of_lt_mul (Nat.mul_lt_mul_of_pos_right s.pair_lt (Nat.pos_of_ne_zero hcount))

theorem wordIn_fst (hcount : r.count ≠ 0) (s : Keystream) :
    (wordIn r s).1 = r.lo + BitVec.ofNat 32 (r.offset s) := by
  have hoffset : r.offset s = highHalf (s.next.1.toNat * r.count) +
      highHalf (lowHalf (s.next.1.toNat * r.count) + highHalf (s.next.2.next.1.toNat * r.count)) :=
    (highHalf_add_carry ..).symm
  unfold wordIn
  rw [if_neg hcount]
  dsimp only
  split
  next => rw [hoffset]
  next hlow =>
    rw [hoffset, carry_eq_zero s.next.2.next.1.toNat_lt (Nat.pos_of_ne_zero hcount) r.count_lt
      (Nat.le_of_not_lt hlow), Nat.add_zero]

/-- A draw from some words is exact: nothing wraps. -/
theorem toInt_wordIn (h : r.isEmpty = false) (hcount : r.count ≠ 0) (s : Keystream) :
    (wordIn r s).1.toInt = r.lo.toInt + r.offset s := by
  rw [wordIn_fst hcount, toInt_lo_add h hcount (offset_lt hcount s)]

theorem contains_wordIn (h : r.isEmpty = false) (s : Keystream) : r.contains (wordIn r s).1 := by
  have hall := count_of_not_isEmpty h
  rw [contains_iff]
  split at hall
  next hcount =>
    have hge := (wordIn r s).1.le_toInt
    have hlt := (wordIn r s).1.toInt_lt
    omega
  next hcount =>
    have hoffset := offset_lt hcount s
    rw [toInt_wordIn h hcount]
    omega

end Range

end FusedKernel.Sampling
