/-!
Blank characters are those with the Unicode property White_Space. Trimming removes them from both
ends of a text and leaves what stands between.
-/
namespace FusedKernel.Text

/-- The twenty-five characters of the property White_Space. -/
def isBlank (c : Char) : Bool :=
  let code := c.toNat
  (0x9 ≤ code && code ≤ 0xd) || code == 0x20 || code == 0x85 || code == 0xa0 || code == 0x1680 ||
    (0x2000 ≤ code && code ≤ 0x200a) || code == 0x2028 || code == 0x2029 || code == 0x202f ||
    code == 0x205f || code == 0x3000

/-- Removes the characters that satisfy `drop` from both ends. -/
def trimBy (drop : Char → Bool) (s : List Char) : List Char :=
  ((s.dropWhile drop).reverse.dropWhile drop).reverse

/-- The text without the blanks at its two ends. -/
def trimBlank (s : List Char) : List Char := trimBy isBlank s

section
variable {drop : Char → Bool} {l s r : List Char}

/-- What is trimmed is what stands at the two ends. -/
theorem exists_append_trimBy (drop : Char → Bool) (s : List Char) :
    ∃ l r, s = l ++ trimBy drop s ++ r ∧ (∀ c ∈ l, drop c) ∧ ∀ c ∈ r, drop c := by
  refine ⟨s.takeWhile drop, ((s.dropWhile drop).reverse.takeWhile drop).reverse, ?_, ?_, ?_⟩
  · rw [trimBy, List.append_assoc, ← List.reverse_append, List.takeWhile_append_dropWhile,
      List.reverse_reverse, List.takeWhile_append_dropWhile]
  · exact List.all_eq_true.mp List.all_takeWhile
  · intro c hc
    exact List.all_eq_true.mp List.all_takeWhile c (List.mem_reverse.mp hc)

theorem dropWhile_eq_nil (hr : ∀ c ∈ r, drop c) : r.dropWhile drop = [] := by
  rw [← r.append_nil, List.dropWhile_append_of_pos hr]
  rfl

theorem dropWhile_eq_self (hs : ∀ c ∈ s.head?, drop c = false) : s.dropWhile drop = s := by
  cases s with
  | nil => rfl
  | cons c s => exact List.dropWhile_cons_of_neg (by simp [hs c rfl])

/-- Where neither end would be dropped, trimming removes just what is dropped around. -/
theorem trimBy_append_of_ends (hl : ∀ c ∈ l, drop c) (hfirst : ∀ c ∈ s.head?, drop c = false)
    (hlast : ∀ c ∈ s.getLast?, drop c = false) (hr : ∀ c ∈ r, drop c) :
    trimBy drop (l ++ s ++ r) = s := by
  have hback : ∀ c ∈ r.reverse, drop c := fun c hc => hr c (List.mem_reverse.mp hc)
  have hkept : ∀ c ∈ s.reverse.head?, drop c = false := by rwa [List.head?_reverse]
  rw [trimBy, List.append_assoc, List.dropWhile_append_of_pos hl, List.dropWhile_append,
    dropWhile_eq_self hfirst]
  cases s with
  | nil => simp [dropWhile_eq_nil hr]
  | cons c s =>
    rw [List.isEmpty_cons, if_neg Bool.false_ne_true, List.reverse_append,
      List.dropWhile_append_of_pos hback, dropWhile_eq_self hkept, List.reverse_reverse]

/-- Where no character is dropped, trimming removes just what is dropped around. -/
theorem trimBy_append (hl : ∀ c ∈ l, drop c) (hs : ∀ c ∈ s, drop c = false)
    (hr : ∀ c ∈ r, drop c) : trimBy drop (l ++ s ++ r) = s :=
  trimBy_append_of_ends hl (fun c hc => hs c (List.mem_of_head? hc))
    (fun c hc => hs c (List.mem_of_getLast? hc)) hr

end

end FusedKernel.Text
