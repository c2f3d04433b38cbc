import FusedKernel.Proofs.Text.Letters

/-! Texts of lines, taken apart at the ends of the lines: a line, and what follows it. -/
namespace FusedKernel.Text

/-- The text of some lines, with a line end after the last or without. -/
def ofLines (lines : List String) (ended : Bool) : String :=
  "\n".intercalate lines ++ if ended then "\n" else ""

/-- What follows a line: further lines, and a line end after the last or none. -/
def afterLine (ended : Bool) : List (List Char) → List Char
  | [] => if ended then ['\n'] else []
  | l :: rest => '\n' :: (l ++ afterLine ended rest)

/-- The text of some lines from the start of the first on. -/
def fromLine (ended : Bool) : List (List Char) → List Char
  | [] => []
  | l :: rest => l ++ afterLine ended rest

theorem mul_length_le_afterLine {k : Nat} {rest : List (List Char)}
    (h : ∀ l ∈ rest, k ≤ l.length) (ended : Bool) :
    (k + 1) * rest.length ≤ (afterLine ended rest).length := by
  induction rest with
  | nil => exact Nat.zero_le _
  | cons l rest ih =>
    have hl := h l List.mem_cons_self
    have hrest := ih fun l hm => h l (List.mem_cons_of_mem _ hm)
    rw [afterLine, List.length_cons, List.length_cons, List.length_append, Nat.mul_add]
    omega

theorem mem_afterLine {c : Char} {ended : Bool} {rest : List (List Char)}
    (h : c ∈ afterLine ended rest) : c = '\n' ∨ ∃ l ∈ rest, c ∈ l := by
  induction rest with
  | nil => cases ended <;> simp_all [afterLine]
  | cons l rest ih =>
    rw [afterLine, List.mem_cons, List.mem_append] at h
    obtain rfl | h | h := h
    · exact .inl rfl
    · exact .inr ⟨l, List.mem_cons_self, h⟩
    · obtain rfl | ⟨l', hl', h⟩ := ih h
      · exact .inl rfl
      · exact .inr ⟨l', List.mem_cons_of_mem _ hl', h⟩

theorem toList_ofLines (l : List Char) (rest : List (List Char)) (ended : Bool) :
    (ofLines ((l :: rest).map String.ofList) ended).toList = fromLine ended (l :: rest) := by
  induction rest generalizing l with
  | nil => cases ended <;> simp [ofLines, fromLine, afterLine]
  | cons l' rest ih =>
    have hrest := ih l'
    rw [ofLines, String.toList_append] at hrest ⊢
    rw [List.map_cons, List.map_cons, String.intercalate_cons_cons, ← List.map_cons,
      String.toList_append, List.append_assoc, hrest]
    simp [fromLine, afterLine]

end FusedKernel.Text
