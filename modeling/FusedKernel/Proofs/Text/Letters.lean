import Mathlib.Tactic.Common
import FusedKernel.Text.Blank

/-! Characters by their codes: the order, the letters of ASCII in either case, and what sets them
apart from blanks and from characters that cannot be printed. -/
namespace FusedKernel.Text

theorem le_iff_toNat_le {c d : Char} : c ≤ d ↔ c.toNat ≤ d.toNat := by
  rw [Char.le_def, UInt32.le_iff_toNat_le]
  rfl

theorem printable_of_word {c : Char} (hc : (c.isAlphanum || c == '_' || c == '-') = true) :
    ' ' ≤ c ∧ c ≤ '~' := by
  delta Char.isAlphanum Char.isAlpha Char.isUpper Char.isLower Char.isDigit at hc
  simp only [Bool.or_eq_true, Bool.and_eq_true, decide_eq_true_eq, beq_iff_eq, ge_iff_le,
    UInt32.le_iff_toNat_le] at hc
  rw [le_iff_toNat_le, le_iff_toNat_le]
  obtain (((⟨hl, hr⟩ | ⟨hl, hr⟩) | ⟨hl, hr⟩) | rfl) | rfl := hc
  · exact ⟨Nat.le_trans (by decide) hl, Nat.le_trans hr (by decide)⟩
  · exact ⟨Nat.le_trans (by decide) hl, Nat.le_trans hr (by decide)⟩
  · exact ⟨Nat.le_trans (by decide) hl, Nat.le_trans hr (by decide)⟩
  · decide
  · decide

/-! ### Case -/

/-- A character is an ASCII capital, and another one its small letter. -/
def IsCapitalOf (c d : Char) : Prop := 'A' ≤ c ∧ c ≤ 'Z' ∧ d.toNat = c.toNat + 32

/-- Characters that differ at most in the case of an ASCII letter. -/
def SameLetter (c d : Char) : Prop := c = d ∨ IsCapitalOf c d ∨ IsCapitalOf d c

theorem toNat_toLower (c : Char) :
    c.toLower.toNat = if 'A' ≤ c ∧ c ≤ 'Z' then c.toNat + 32 else c.toNat := by
  by_cases hc : 'A' ≤ c ∧ c ≤ 'Z'
  · have hval : c.val ≥ 'A'.val ∧ c.val ≤ 'Z'.val := hc
    have hlower : c.toLower.val = c.val + 32 := by
      delta Char.toLower
      rw [dif_pos hval]
      rfl
    have hle : c.toNat ≤ 90 := le_iff_toNat_le.mp hc.2
    have hsum : (c.val + 32).toNat = (c.toNat + 32) % 2 ^ 32 := UInt32.toNat_add _ _
    rw [if_pos hc, ← Char.toNat_val, hlower, hsum]
    omega
  · have hval : ¬(c.val ≥ 'A'.val ∧ c.val ≤ 'Z'.val) := hc
    delta Char.toLower
    rw [if_neg hc, dif_neg hval]

theorem toLower_eq_iff {c d : Char} : c.toLower = d.toLower ↔ SameLetter c d := by
  rw [← Char.toNat_inj, toNat_toLower, toNat_toLower, SameLetter, IsCapitalOf, IsCapitalOf,
    ← Char.toNat_inj]
  simp only [le_iff_toNat_le]
  have hA : 'A'.toNat = 65 := rfl
  have hZ : 'Z'.toNat = 90 := rfl
  split <;> split <;> omega

theorem isLower_iff {c : Char} : c.isLower ↔ 97 ≤ c.toNat ∧ c.toNat ≤ 122 := by
  delta Char.isLower
  rw [Bool.and_eq_true, decide_eq_true_iff, decide_eq_true_iff, ge_iff_le,
    UInt32.le_iff_toNat_le, UInt32.le_iff_toNat_le]
  rfl

/-- A letter is not blank, in either case. -/
theorem SameLetter.not_isBlank {c d : Char} (h : SameLetter c d) (hc : c.isLower) :
    isBlank d = false := by
  have hd : 65 ≤ d.toNat ∧ d.toNat ≤ 122 := by
    obtain ⟨hlo, hhi⟩ := isLower_iff.mp hc
    obtain rfl | ⟨-, hle, -⟩ | ⟨hge, -, hsum⟩ := h
    · omega
    · exact absurd (le_iff_toNat_le.mp hle) (Nat.not_le.mpr (Nat.lt_of_lt_of_le (by decide) hlo))
    · have hd : 'A'.toNat ≤ d.toNat := le_iff_toNat_le.mp hge
      exact ⟨hd, by omega⟩
  simp only [isBlank, Bool.or_eq_false_iff, Bool.and_eq_false_iff, decide_eq_false_iff_not,
    beq_eq_false_iff_ne]
  omega

end FusedKernel.Text
