import Mathlib.Tactic.Common

/-! Texts that start with a run of characters of one kind, split where the run ends, and decimal
numerals as such runs. -/
namespace FusedKernel.Text

/-- Elements with a property, followed by what does not start with one, are split off in one way. -/
theorem append_inj_of_takeWhile {α : Type} {p : α → Bool} {xs ys s t : List α}
    (hx : ∀ a ∈ xs, p a) (hy : ∀ a ∈ ys, p a) (hs : s.takeWhile p = []) (ht : t.takeWhile p = [])
    (h : xs ++ s = ys ++ t) : xs = ys ∧ s = t := by
  have hfront := congrArg (List.takeWhile p) h
  rw [List.takeWhile_append_of_pos hx, List.takeWhile_append_of_pos hy, hs, ht, List.append_nil,
    List.append_nil] at hfront
  subst hfront
  exact ⟨rfl, List.append_cancel_left h⟩

theorem isDigit_of_mem_digits {n : Nat} {c : Char} (hc : c ∈ Nat.toDigits 10 n) : c.isDigit :=
  Nat.isDigit_of_mem_toDigits (by decide) (by decide) hc

theorem not_mem_digits {c : Char} (hc : c.isDigit = false) (n : Nat) : c ∉ Nat.toDigits 10 n := by
  intro hmem
  rw [isDigit_of_mem_digits hmem] at hc
  cases hc

theorem digits_injective : Function.Injective (Nat.toDigits 10) := by
  intro m n h
  simpa only [Nat.ofDigitChars_ten_toDigits] using congrArg (Nat.ofDigitChars 10 · 0) h

theorem repr_inj {m n : Nat} : m.repr = n.repr ↔ m = n := by
  rw [← String.toList_inj, Nat.toList_repr, Nat.toList_repr, digits_injective.eq_iff]

theorem takeWhile_digits (n : Nat) (s : List Char) :
    (Nat.toDigits 10 n ++ s).takeWhile (fun c => !c.isDigit) = [] := by
  obtain ⟨c, cs, hc⟩ := List.exists_cons_of_ne_nil (Nat.toDigits_ne_nil : Nat.toDigits 10 n ≠ [])
  have hdigit : c.isDigit := isDigit_of_mem_digits (hc ▸ List.mem_cons_self)
  simp [hc, hdigit]

theorem digits_append_inj {m n : Nat} {s t : List Char} (hs : s.takeWhile Char.isDigit = [])
    (ht : t.takeWhile Char.isDigit = []) (h : Nat.toDigits 10 m ++ s = Nat.toDigits 10 n ++ t) :
    m = n ∧ s = t := by
  obtain ⟨hdigits, hrest⟩ := append_inj_of_takeWhile (fun _ => isDigit_of_mem_digits)
    (fun _ => isDigit_of_mem_digits) hs ht h
  exact ⟨digits_injective hdigits, hrest⟩

end FusedKernel.Text
